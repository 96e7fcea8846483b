import AtomStore.Store.Index

/-!
# The state of a store

The state is what a store keeps in memory: the table of slots and the indices over it. The first
index is the one over all atoms; the names of indices are unique.
-/

namespace AtomStore

/-- The table of slots and the indices over it. -/
structure State where
  slots : Slots
  indices : List Index

namespace State

/-- An empty state, whose index over all atoms gets a number and an order. -/
def new (indexId : Nat) (order : UcnOrder) : State :=
  { slots := .empty, indices := [{ id := indexId, info := .global order }] }

/-- The index with a number. -/
def index? (state : State) (id : Nat) : Option Index :=
  state.indices.find? fun index => index.id == id

/-- The index with a name. -/
def indexNamed? (state : State) (name : String) : Option Index :=
  state.indices.find? fun index => index.info.name == name

/-- Registers an index under a new name. -/
def addIndex (state : State) (id : Nat) (info : IndexInfo) : Except StoreError (Index × State) :=
  if (state.indexNamed? info.name).isSome then .error (.duplicateIndex info.name)
  else
    let index : Index := { id, info }
    .ok (index, { state with indices := state.indices ++ [index] })

/-- Brings the index with a number up to date. -/
def refresh (state : State) (id : Nat) : State :=
  { state with
    indices := state.indices.map fun index =>
      if index.id = id then index.refresh state.slots else index }

/-- Brings the indices with some numbers up to date, one after the other. -/
def refreshEach (state : State) (ids : List Nat) : State := ids.foldl refresh state

/-- Bringing indices up to date changes no slot. -/
theorem slots_refreshEach (state : State) (ids : List Nat) :
    (state.refreshEach ids).slots = state.slots := by
  induction ids generalizing state with
  | nil => rfl
  | cons id rest ih => exact ih (state.refresh id)

/-- Brings all indices up to date. -/
def refreshAll (state : State) : State :=
  { state with indices := state.indices.map (·.refresh state.slots) }

/-- The inspection text of a state. -/
def inspect (state : State) : String :=
  s!"State \x7b ucn: {state.slots.ucn}, slots: {state.slots.size}, " ++
    s!"committed: {state.slots.committed}, indices: {state.indices.length} \x7d"

end State
end AtomStore
