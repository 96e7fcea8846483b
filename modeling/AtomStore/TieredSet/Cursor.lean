import AtomStore.TieredSet.Basic

/-!
# Walking a set that changes

A cursor remembers the last element it gave and its place in the long run, which it finds again when
the long run has been replaced. So the set may grow and be rearranged between two steps, and each
step gives the next element of the set as it is then. A cursor that has met the end, or a set that
stayed locked, gives nothing any more.
-/

namespace AtomStore

/-- A step gave up because a writer held the set during every attempt. -/
structure Conflict where
  attempts : Nat
  deriving DecidableEq

/-- The wording of a step given up. -/
def Conflict.message (conflict : Conflict) : String :=
  s!"sorted set kept changing under the iterator, gave up after {conflict.attempts} retries"

/-- A place in a walk through a set in ascending order. -/
structure Cursor (α : Type) where
  /-- The bound of the first element, where there is one. -/
  start : Option α := none
  /-- The element given last. -/
  last : Option α := none
  /-- The generation of the long run that the place is in; there is none before the first step. -/
  generation : Option Nat := none
  /-- The number of elements of that long run in front of the cursor. -/
  place : Nat := 0
  ended : Bool := false
  deriving Inhabited

namespace Cursor

variable {α : Type} [Ord α]

/-- How often a step tries to look at the set. -/
def maxAttempts : Nat := 20

/-- Whether an element is in front of the cursor, so that the cursor gives it no more. -/
def passed (cursor : Cursor α) (element : α) : Bool :=
  match cursor.last, cursor.start with
  | some last, _ => (compare element last).isLE
  | none, some start => (compare element start).isLT
  | none, none => false

/-- The cursor with its place found again if the long run has been replaced. -/
def located (cursor : Cursor α) (set : TieredSet α) : Cursor α :=
  if cursor.generation = some set.generation then cursor
  else
    { cursor with
      generation := some set.generation
      place := Run.prefixLength cursor.passed set.settled }

/-- Gives an element of the long run, the one at the cursor's place. -/
def giveSettled (cursor : Cursor α) (element : α) : Option α × Cursor α :=
  (some element, { cursor with last := some element, place := cursor.place + 1 })

/-- Gives an element of the short run. -/
def giveRecent (cursor : Cursor α) (element : α) : Option α × Cursor α :=
  (some element, { cursor with last := some element })

/-- Takes a step in a set: the lesser of what comes next in the two runs is given. -/
def next (cursor : Cursor α) (set : TieredSet α) : Option α × Cursor α :=
  if cursor.ended then (none, cursor)
  else
    let here := cursor.located set
    match set.settled[here.place]?, set.recent.find? fun element => !here.passed element with
    | some settled, some recent =>
      if (compare recent settled).isLT then here.giveRecent recent else here.giveSettled settled
    | some settled, none => here.giveSettled settled
    | none, some recent => here.giveRecent recent
    | none, none => (none, { here with ended := true })

/-- Takes a step while a writer holds the set. -/
def nextLocked (cursor : Cursor α) : Except Conflict (Option α) × Cursor α :=
  if cursor.ended then (.ok none, cursor)
  else (.error ⟨maxAttempts⟩, { cursor with ended := true })

/-- The elements that are left in a set. -/
def remaining (cursor : Cursor α) (set : TieredSet α) : List α :=
  if cursor.ended then [] else set.toList.dropWhile cursor.passed

/-- A cursor that has been walked to the end. -/
def drained (cursor : Cursor α) (set : TieredSet α) : Cursor α :=
  { cursor with last := (cursor.remaining set).getLast?.or cursor.last, ended := true }

end Cursor
end AtomStore
