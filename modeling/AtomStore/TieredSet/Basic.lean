import AtomStore.TieredSet.Run

/-!
# Sorted sets in two tiers

A set keeps its elements in two runs: a short one that takes single additions, and a long one that
is only ever replaced as a whole. When the short run outgrows the threshold it is merged into the
long one. A bulk load collects elements on the side, and sorts and merges them all at once when it
ends.
-/

namespace AtomStore

/-- A set of elements in ascending order. -/
structure TieredSet (α : Type) where
  /-- The short run. -/
  recent : List α := []
  /-- The long run. -/
  settled : Array α := #[]
  /-- How often the long run has been replaced. -/
  generation : Nat := 0
  /-- The elements of a bulk load in the order of their arrival. -/
  loading : Option (Array α) := none
  /-- The length beyond which the short run is merged into the long one. -/
  threshold : Nat := 1000
  deriving Inhabited

namespace TieredSet

variable {α : Type} [Ord α]

/-- The empty set that merges beyond a threshold, which is at least one. -/
def withThreshold (threshold : Nat) : TieredSet α := { threshold := max threshold 1 }

/-- The elements in ascending order. -/
def toList (set : TieredSet α) : List α := Run.interleave set.settled.toList set.recent

/-- The number of elements; those of an unfinished bulk load do not count. -/
def size (set : TieredSet α) : Nat := set.recent.length + set.settled.size

/-- Whether the set has no elements. -/
def isEmpty (set : TieredSet α) : Bool := set.recent.isEmpty && set.settled.isEmpty

/-- The first settled element that is not below a bound. -/
def settledFrom (set : TieredSet α) (lower : α) : Option α :=
  set.settled[Run.prefixLength (fun element => (compare element lower).isLT) set.settled]?

/-- The first recent element that is not below a bound. -/
def recentFrom (set : TieredSet α) (lower : α) : Option α :=
  set.recent.find? fun element => !(compare element lower).isLT

/-- Whether an element is in the set. -/
def contains (set : TieredSet α) (element : α) : Bool :=
  (set.settledFrom element).any (fun found => compare found element == .eq) ||
    set.recent.any fun found => compare found element == .eq

/-- Moves the short run into the long one. -/
def settle (set : TieredSet α) : TieredSet α :=
  { set with
    recent := []
    settled := (Run.merge set.settled.toList set.recent).toArray
    generation := set.generation + 1 }

/-- Adds an element and tells whether it was new. During a bulk load it is only collected and
counts as new. -/
def add (set : TieredSet α) (element : α) : Bool × TieredSet α :=
  match set.loading with
  | some collected => (true, { set with loading := some (collected.push element) })
  | none =>
    if set.contains element then (false, set)
    else
      let grown := { set with recent := Run.place element set.recent }
      (true, if grown.threshold < grown.recent.length then grown.settle else grown)

/-- Adds elements one after the other. -/
def addAll (set : TieredSet α) (elements : List α) : TieredSet α :=
  elements.foldl (fun grown element => (grown.add element).2) set

/-- Begins a bulk load, unless one is going on. -/
def startLoading (set : TieredSet α) : TieredSet α :=
  { set with loading := set.loading.or (some #[]) }

/-- Ends a bulk load: what it collected, less repetitions and recent elements, is merged into the
long run. -/
def stopLoading (set : TieredSet α) : TieredSet α :=
  match set.loading with
  | none => set
  | some collected =>
    if collected.isEmpty then { set with loading := none }
    else
      let fresh := (Run.ofList collected.toList).filter fun element =>
        !set.recent.any fun found => compare found element == .eq
      { set with
        loading := none
        settled := (Run.merge set.settled.toList fresh).toArray
        generation := set.generation + 1 }

/-- The least element. -/
def first? (set : TieredSet α) : Option α := Run.least set.settled[0]? set.recent.head?

/-- The greatest element. -/
def last? (set : TieredSet α) : Option α := Run.greatest set.settled.back? set.recent.getLast?

/-- The least element that is not below a bound. -/
def ceiling? (set : TieredSet α) (lower : α) : Option α :=
  Run.least (set.settledFrom lower) (set.recentFrom lower)

/-- The first element that is not below a bound, if it passes a test. In each run only the first
element from the bound on is tried. -/
def ceilingWhere? (set : TieredSet α) (lower : α) (test : α → Bool) : Option α :=
  Run.least ((set.settledFrom lower).filter test) ((set.recentFrom lower).filter test)

/-- The elements that are not below a bound, in ascending order. -/
def listFrom (set : TieredSet α) (lower : α) : List α :=
  let start := Run.prefixLength (fun element => (compare element lower).isLT) set.settled
  Run.interleave (set.settled.toList.drop start)
    (set.recent.dropWhile fun element => (compare element lower).isLT)

/-- The inspection text of a set. -/
def inspect (set : TieredSet α) (element : α → String) : String :=
  let listed (elements : List α) : String := String.intercalate ", " (elements.map element)
  let loading := match set.loading with
    | none => "None"
    | some collected => s!"Some([{listed collected.toList}])"
  s!"CompactingSortedSet \x7b tree: \x7b{listed set.recent}\x7d, " ++
    s!"array: [{listed set.settled.toList}], adding: {loading}, threshold: {set.threshold} \x7d"

end TieredSet
end AtomStore
