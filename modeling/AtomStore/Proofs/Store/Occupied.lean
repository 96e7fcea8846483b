import AtomStore.Proofs.Store.Commit
import AtomStore.Proofs.Store.Recovered
import Mathlib.Data.List.Nodup

/-!
# Occupied slots

A slot is occupied when it holds a committed atom. The table counts commits as they happen and as
they are replayed, and this count is the number of its occupied slots as long as no slot is filled
twice.
-/

namespace AtomStore
namespace Slots

/-- The slots that hold committed atoms. -/
def occupied (slots : Slots) : List Nat :=
  (List.range slots.size).filter fun id => (slots.atom? id).isSome

/-- Whether a table has counted its committed atoms. -/
def Counted (slots : Slots) : Prop := slots.committed = slots.occupied.length

variable {slots after : Slots}

/-- The occupied slots are those with an atom. -/
theorem mem_occupied {id : Nat} : id ∈ slots.occupied ↔ (slots.atom? id).isSome = true := by
  rw [occupied, List.mem_filter, List.mem_range, and_iff_right_iff_imp]
  intro held
  apply lt_size_of_slot
  intro empty
  rw [atom?_eq, empty] at held
  cases held

theorem nodup_occupied (slots : Slots) : slots.occupied.Nodup := List.nodup_range.filter _

theorem counted_empty : Slots.empty.Counted := rfl

/-- A table with the same atoms has the same count. -/
theorem Counted.of_atom?_eq (counted : slots.Counted)
    (committed : after.committed = slots.committed)
    (same : ∀ id, after.atom? id = slots.atom? id) : after.Counted := by
  have perm : after.occupied.Perm slots.occupied := by
    apply (List.perm_ext_iff_of_nodup after.nodup_occupied slots.nodup_occupied).mpr
    intro id
    rw [mem_occupied, mem_occupied, same]
  rw [Counted, committed, counted, perm.length_eq]

/-- Free slots that are filled are occupied beside those that were. -/
theorem occupied_perm {ids : List Nat} (distinct : ids.Nodup)
    (free : ∀ id ∈ ids, slots.atom? id = none)
    (filled : ∀ id, (after.atom? id).isSome = true ↔ id ∈ ids ∨ (slots.atom? id).isSome = true) :
    after.occupied.Perm (slots.occupied ++ ids) := by
  have apart : slots.occupied.Disjoint ids := by
    intro id occupied new
    rw [mem_occupied, free id new] at occupied
    cases occupied
  apply (List.perm_ext_iff_of_nodup after.nodup_occupied
    (List.Nodup.append slots.nodup_occupied distinct apart)).mpr
  intro id
  rw [mem_occupied, filled, List.mem_append, mem_occupied]
  exact or_comm

/-- Atoms that fill free slots are occupied beside those that were. -/
theorem occupied_perm_of_filled {atoms : List Atom} (distinct : (atoms.map (·.id)).Nodup)
    (free : ∀ atom ∈ atoms, slots.atom? atom.id = none)
    (filled : ∀ id, after.atom? id = (atomFor? atoms id).or (slots.atom? id)) :
    after.occupied.Perm (slots.occupied ++ atoms.map (·.id)) := by
  apply occupied_perm distinct
  · intro id new
    obtain ⟨atom, member, rfl⟩ := List.mem_map.mp new
    exact free atom member
  · intro id
    rw [filled, Option.isSome_or, Bool.or_eq_true, isSome_atomFor?]

/-- Atoms that fill free slots add to the count. -/
theorem Counted.of_filled {atoms : List Atom} (counted : slots.Counted)
    (committed : after.committed = slots.committed + atoms.length)
    (distinct : (atoms.map (·.id)).Nodup) (free : ∀ atom ∈ atoms, slots.atom? atom.id = none)
    (filled : ∀ id, after.atom? id = (atomFor? atoms id).or (slots.atom? id)) :
    after.Counted := by
  have perm := occupied_perm_of_filled distinct free filled
  rw [Counted, committed, counted, perm.length_eq, List.length_append, List.length_map]

end Slots

/-- A recovered table counts its atoms rightly. -/
theorem Recovered.counted {slots : Slots} {records : List Log.Record}
    (recovered : Recovered slots records) : slots.Counted := by
  induction recovered with
  | nothing => exact Slots.counted_empty
  | taken before ordered distinct free took ih =>
    obtain ⟨next, same, _, committed, filled⟩ := Slots.takeRecord_of_free ordered distinct free
    rw [took] at same
    rw [(Prod.mk.inj same).1]
    exact ih.of_filled committed distinct free filled

/-- A table that has been recovered has counted its committed atoms and holds no slot reserved. -/
theorem DataFile.counted_recover {file : DataFile} {directory : Directory} {repair : Bool}
    {summary : Log.Summary}
    (recovered : (file.recover directory .empty repair).outcome = .ok summary) :
    (file.recover directory .empty repair).slots.Counted ∧
      ∀ id, (file.recover directory .empty repair).slots.slot id ≠ .pending := by
  have settled {taken : Slots} {held atoms : Nat} (fed : Log.feed Slots.takeRecord .empty 0 0
      (file.scan directory).records = (taken, held, atoms, none)) :
      taken.settle.2.Counted ∧ ∀ id, taken.settle.2.slot id ≠ .pending := by
    have counted := (Recovered.of_feed .nothing fed).counted
    refine ⟨counted.of_atom?_eq rfl taken.atom?_settle, fun id => ?_⟩
    rw [Slots.slot_settle]
    cases taken.slot id <;> exact nofun
  obtain ⟨_, _, _, _, fed, _, done⟩ | ⟨_, _, _, _, _, _, fed, _, _, _, _, done⟩ | ⟨_, failed, _⟩ :=
    file.recover_cases directory .empty repair
  · rw [done]
    exact settled fed
  · rw [done]
    exact settled fed
  · rw [failed] at recovered
    cases recovered

/-- A store that has been opened counts its atoms rightly, and reserves no slot. -/
theorem Store.counted_openFile {host next : Host} {settings : Settings} {store : Store}
    (opened : openFile host settings = (next, .ok store)) :
    store.state.slots.Counted ∧ ∀ id, store.state.slots.slot id ≠ .pending := by
  rw [openFile] at opened
  split at opened
  · cases opened
  · simp only at opened
    split at opened
    · cases opened
    · rename_i summary recovered
      cases opened
      exact DataFile.counted_recover recovered

/-- Publishing drafts in free slots keeps the count right. -/
theorem CommitReport.Published.counted {report : CommitReport} {store : Store} {dropped : List Nat}
    {drafts : List Draft} (published : report.Published store dropped drafts)
    (counted : store.state.slots.Counted) (distinct : (drafts.map (·.id)).Nodup)
    (gone : ∀ id ∈ dropped, store.state.slots.slot id = .pending)
    (free : ∀ id ∈ drafts.map (·.id), store.state.slots.slot id = .pending)
    (apart : ∀ id ∈ drafts.map (·.id), id ∉ dropped) : report.store.state.slots.Counted := by
  have numbers := store.map_id_sealedAtoms drafts
  refine counted.of_filled ?_ ?_ ?_ (published.atom?_eq gone apart)
  · rw [published.committed_eq, Store.sealedAtoms, List.length_map]
  · rw [numbers]
    exact distinct
  · intro atom member
    rw [Slots.atom?_eq, free atom.id (numbers ▸ List.mem_map_of_mem member)]
    rfl

end AtomStore
