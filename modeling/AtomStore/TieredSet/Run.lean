/-!
# Ascending runs

Lists and arrays whose elements ascend strictly. Placing an element, merging two runs and removing
repetitions keep them so; an array is searched by halving.
-/

namespace AtomStore.Run

variable {α : Type} [Ord α]

/-- Places an element in front of the first greater one; an equal one stays as it is. -/
def place (element : α) : List α → List α
  | [] => [element]
  | head :: rest =>
    match compare element head with
    | .lt => element :: head :: rest
    | .eq => head :: rest
    | .gt => head :: place element rest

/-- Merges two runs; of two equal elements the one of the second run stays. -/
def merge : List α → List α → List α
  | [], right => right
  | left, [] => left
  | a :: left, b :: right =>
    match compare a b with
    | .lt => a :: merge left (b :: right)
    | .eq => b :: merge left right
    | .gt => b :: merge (a :: left) right
  termination_by left right => left.length + right.length

/-- The elements of two runs in order, all of them; of two equal elements the one of the first run
comes first. -/
def interleave (left right : List α) : List α :=
  left.merge right fun a b => (compare a b).isLE

/-- Keeps the first of each group of equal neighbours. -/
def distinct : List α → List α
  | [] => []
  | head :: rest => head :: distinct (rest.dropWhile fun next => compare head next == .eq)
  termination_by elements => elements.length
  decreasing_by exact Nat.lt_succ_of_le (List.dropWhile_sublist _).length_le

/-- The run of the elements of a list. -/
def ofList (elements : List α) : List α :=
  distinct (elements.mergeSort fun left right => (compare left right).isLE)

/-- Where an interval of an array stops to satisfy a test that holds up to some place and fails
from there on. -/
def halve {β : Type} (test : β → Bool) (run : Array β) (low high : Nat)
    (bound : high ≤ run.size) : Nat :=
  if narrow : low < high then
    let middle := low + (high - low) / 2
    have inside : middle < run.size := by omega
    if test run[middle] then halve test run (middle + 1) high bound
    else halve test run low middle (by omega)
  else low
  termination_by high - low

/-- The number of leading elements that satisfy a test which fails from some place on. -/
def prefixLength {β : Type} (test : β → Bool) (run : Array β) : Nat :=
  halve test run 0 run.size (Nat.le_refl _)

/-- The lesser of two elements that may be missing. -/
def least : Option α → Option α → Option α
  | some left, some right => if (compare right left).isLT then some right else some left
  | left, right => left.or right

/-- The greater of two elements that may be missing. -/
def greatest : Option α → Option α → Option α
  | some left, some right => if (compare right left).isGT then some right else some left
  | left, right => left.or right

end AtomStore.Run
