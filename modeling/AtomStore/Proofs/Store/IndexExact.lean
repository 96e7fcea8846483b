import AtomStore.Proofs.Store.IndexHeld
import AtomStore.Proofs.Store.StateSteps
import Mathlib.Data.List.Nodup

/-!
# What an index holds

In every state of a store in use an index holds the accepted atoms that were committed before its
last refresh. So after a refresh it holds one entry for each committed atom that it accepts, and
nothing else, whether the atoms came one by one, in bulk loads, or late into slots that were reserved
for long. Since states in use are closed under single steps, this goes for a refresh at any point,
such as one that a verifier makes in the middle of a commit.
-/

namespace AtomStore

namespace Slots

/-- The committed atoms of a table in the order of their slots. -/
def atoms (slots : Slots) : List Atom := slots.table.toList.filterMap Slot.atom?

variable {slots : Slots}

/-- The atoms of a table are those that it holds. -/
theorem mem_atoms (sound : slots.Sound) {atom : Atom} : atom ∈ slots.atoms ↔ slots.Holds atom := by
  rw [atoms, List.mem_filterMap]
  constructor
  · rintro ⟨slot, member, found⟩
    obtain ⟨id, inside, rfl⟩ := List.mem_iff_getElem.mp member
    have here : slots.slot id = .committed atom := by
      rw [slot, Array.getElem?_eq_getElem (by rw [← Array.length_toList]; exact inside)]
      exact Slot.atom?_eq_some_iff.mp found
    exact sound.holds here
  · intro held
    have inside : atom.id < slots.table.size := by
      apply lt_size_of_slot
      rw [held]
      exact Slot.noConfusion
    rw [Holds, slot, Array.getElem?_eq_getElem inside, Option.getD_some] at held
    refine ⟨slots.table[atom.id], ?_, Slot.atom?_eq_some_iff.mpr held⟩
    exact Array.mem_toList_iff.mpr (Array.getElem_mem inside)

/-- Each committed atom is listed once. -/
theorem nodup_atoms (sound : slots.Sound) : slots.atoms.Nodup := by
  rw [atoms, List.Nodup, List.pairwise_filterMap, List.pairwise_iff_getElem]
  intro i j first second below a held b present same
  have place {k : Nat} (inside : k < slots.table.toList.length) {atom : Atom}
      (found : slots.table.toList[k].atom? = some atom) : atom.id = k := by
    apply sound.id_eq k
    rw [← Slots.atom?_eq_some_iff, Slots.atom?_eq, slot,
      Array.getElem?_eq_getElem (by rw [← Array.length_toList]; exact inside)]
    exact found
  rw [← place first held, ← place second present, same] at below
  exact Nat.lt_irrefl _ below

end Slots

namespace Index

/-- Whether an index has one entry for each committed atom of a table whose UCN is in its range and
which its condition accepts, in ascending order, and no other entries. -/
structure Exact (index : Index) (slots : Slots) : Prop where
  perm : index.entries.toList.Perm ((slots.atoms.filter fun atom =>
    decide (index.info.minUcn ≤ atom.ucn) && decide (atom.ucn < index.info.maxUcn) &&
      index.info.condition.accepts atom).map index.info.entry)
  ascending : Run.Ascending index.entries.toList
  size_eq : index.size = index.entries.toList.length

variable {index : Index} {slots : Slots}

/-- An index that has followed a table up to its last commit holds exactly what it accepts. -/
theorem Follows.exact (follows : index.Follows slots) (sound : slots.Sound)
    (current : index.lastUcn = slots.ucn) : index.Exact slots := by
  have ascending := follows.valid.ascending_toList
  refine ⟨?_, ascending, follows.valid.size_eq⟩
  have distinct := List.Nodup.map (entry_injective index.info)
    ((Slots.nodup_atoms sound).filter index.info.accepts)
  apply (List.perm_ext_iff_of_nodup ascending.nodup distinct).mpr
  intro entry
  rw [follows.mem_iff, current, List.mem_map]
  apply exists_congr
  intro atom
  rw [List.mem_filter, Slots.mem_atoms sound]
  constructor
  · rintro ⟨held, accepts, _, rfl⟩
    exact ⟨⟨held, accepts⟩, rfl⟩
  · rintro ⟨⟨held, accepts⟩, rfl⟩
    exact ⟨held, accepts, sound.ucn_lt atom.id atom held, rfl⟩

end Index

namespace State

variable {state : State}

/-- An index that is brought up to date stays registered. -/
theorem refreshed_mem {index : Index} (registered : index ∈ state.indices) :
    index.refresh state.slots ∈ (state.refresh index.id).indices := by
  refine List.mem_map.mpr ⟨index, registered, ?_⟩
  rw [if_pos rfl]

/-- At every point an index holds the accepted atoms that were committed before its last refresh, so
nothing is in it before it is committed; and a refresh makes it exact. -/
theorem Attained.index_exact (attained : state.Attained) {index : Index}
    (registered : index ∈ state.indices) :
    (∀ entry, entry ∈ index.entries.toList ↔
      ∃ atom ∈ state.slots.atoms, index.info.accepts atom = true ∧ atom.ucn < index.lastUcn ∧
        entry = index.info.entry atom) ∧
    ∃ updated ∈ (state.refresh index.id).indices,
      updated.id = index.id ∧ updated.info = index.info ∧
        updated.Exact (state.refresh index.id).slots ∧
        (state.refresh index.id).slots = state.slots := by
  have consistent := attained.consistent
  have follows := consistent.follows index registered
  obtain ⟨next, current⟩ := follows.refresh consistent.sound
  have grown := index.grows_refresh state.slots
  refine ⟨fun entry => ?_, index.refresh state.slots, refreshed_mem registered, grown.id_eq,
    grown.info_eq, next.exact consistent.sound current, rfl⟩
  rw [follows.mem_iff]
  apply exists_congr
  intro atom
  rw [Slots.mem_atoms consistent.sound]

/-- An index over the atoms that have a key, in the order of its values. -/
def valuedInfo : IndexInfo :=
  { name := "valued", condition := .hasKey 1, sortKeys := [1], order := .ascending }

/-- An atom that is committed first, with a value under the key. -/
def valuedFirst : Atom := ⟨1, 1, .ofList [(1, .integer 5)], Nat.one_pos⟩

/-- An atom of the same commit without a value under the key. -/
def valueless : Atom := ⟨2, 1, .ofList [(2, .text "a")], Nat.one_pos⟩

/-- An atom that is committed later into a slot reserved earlier. -/
def valuedLate : Atom := ⟨0, 2, .ofList [(1, .integer 3)], Nat.two_pos⟩

/-- Two commits; between them the index is read while the slot of the second one is reserved. -/
def lateCommit : List StateAction :=
  [.addIndex 2 valuedInfo, .reserve, .reserve, .reserve, .reserve,
    .publish [valuedFirst, valueless], .refresh 2, .release [3], .publish [valuedLate]]

/-- Of three atoms an index accepts the two that have the key it asks for. One of them is committed
after the index has seen its slot reserved, and comes first in the index. -/
theorem index_exact_of_late_commit :
    let state := (State.new 1 .descending).actAll lateCommit
    state.Attained ∧ state.slots.atoms = [valuedLate, valuedFirst, valueless] ∧
      ∃ index ∈ state.indices, index.info = valuedInfo ∧ index.ethereal = [0, 3] ∧
        ∃ updated ∈ (state.refresh index.id).indices,
          updated.Exact (state.refresh index.id).slots ∧
          updated.entries.toList = [valuedInfo.entry valuedLate, valuedInfo.entry valuedFirst] := by
  intro state
  have attained : state.Attained :=
    (Attained.new 1 .descending).steps (steps_actAll _ lateCommit) (by decide)
  have second : (state.indices[1]?.map fun index => (index.info, index.ethereal)) =
      some (valuedInfo, [0, 3]) := rfl
  obtain ⟨index, found, read⟩ := Option.map_eq_some_iff.mp second
  obtain ⟨seen, ethereal⟩ := Prod.mk.inj read
  have registered : index ∈ state.indices := List.mem_of_getElem? found
  obtain ⟨_, updated, member, _, same, exact, slots⟩ := attained.index_exact registered
  refine ⟨attained, rfl, index, registered, seen, ethereal, updated, member, exact, ?_⟩
  have perm := exact.perm
  rw [slots, same, seen] at perm
  have ascending : Run.Ascending [valuedInfo.entry valuedLate, valuedInfo.entry valuedFirst] :=
    List.pairwise_pair.mpr rfl
  exact exact.ascending.eq_of_mem_iff ascending fun entry => perm.mem_iff

end State
end AtomStore
