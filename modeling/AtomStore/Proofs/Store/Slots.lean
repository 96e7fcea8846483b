import AtomStore.Store.Slots
import Mathlib.Data.List.Induction
import Mathlib.Logic.Basic
import Mathlib.Tactic.ByContra

/-!
# Slots after each operation

What a slot holds after slots are reserved, released, filled, taken in or settled. Reserved slots
and slots that are empty for good hold no atom, so the committed atoms of a table are the same
before and after it is settled.
-/

namespace AtomStore

def Slot.atom? : Slot → Option Atom
  | committed atom => some atom
  | _ => none

theorem Slot.atom?_eq_some_iff {slot : Slot} {atom : Atom} :
    slot.atom? = some atom ↔ slot = .committed atom := by
  cases slot with
  | never => exact iff_of_false nofun nofun
  | pending => exact iff_of_false nofun nofun
  | committed found => rw [Slot.atom?, Option.some.injEq, Slot.committed.injEq]

/-- The first atom of a list with a slot's number. -/
def atomFor? (atoms : List Atom) (id : Nat) : Option Atom := atoms.find? fun atom => atom.id == id

theorem atomFor?_cons (atom : Atom) (rest : List Atom) (id : Nat) :
    atomFor? (atom :: rest) id = if atom.id = id then some atom else atomFor? rest id := by
  rw [atomFor?, List.find?_cons]
  by_cases same : atom.id = id
  · rw [if_pos same, beq_iff_eq.mpr same]
  · rw [if_neg same, beq_eq_false_iff_ne.mpr same, atomFor?]

theorem atomFor?_eq_none_iff {atoms : List Atom} {id : Nat} :
    atomFor? atoms id = none ↔ ∀ atom ∈ atoms, atom.id ≠ id := by
  simp only [atomFor?, List.find?_eq_none, beq_iff_eq, ne_eq]

theorem isSome_atomFor? {atoms : List Atom} {id : Nat} :
    (atomFor? atoms id).isSome = true ↔ id ∈ atoms.map (·.id) := by
  rw [← not_iff_not, Bool.not_eq_true, Option.isSome_eq_false_iff, Option.isNone_iff_eq_none,
    atomFor?_eq_none_iff, List.mem_map, not_exists]
  apply forall_congr'
  intro atom
  exact not_and.symm

theorem isSome_atomFor?_reverse {atoms : List Atom} {id : Nat} :
    (atomFor? atoms.reverse id).isSome = true ↔ id ∈ atoms.map (·.id) := by
  rw [isSome_atomFor?, List.map_reverse, List.mem_reverse]

theorem of_atomFor?_eq_some {atoms : List Atom} {id : Nat} {atom : Atom}
    (found : atomFor? atoms id = some atom) : atom ∈ atoms ∧ atom.id = id := by
  rw [atomFor?] at found
  have named := List.find?_some found
  exact ⟨List.mem_of_find?_eq_some found, beq_iff_eq.mp named⟩

/-- Among atoms in different slots, one is found for its own slot. -/
theorem atomFor?_eq_some_iff {atoms : List Atom} (distinct : (atoms.map (·.id)).Nodup) {id : Nat}
    {atom : Atom} : atomFor? atoms id = some atom ↔ atom ∈ atoms ∧ atom.id = id := by
  constructor
  · exact of_atomFor?_eq_some
  · intro given
    obtain ⟨member, rfl⟩ := given
    induction atoms with
    | nil => cases member
    | cons first rest ih =>
      obtain ⟨apart, distinct⟩ := List.nodup_cons.mp distinct
      rw [atomFor?_cons]
      rcases List.mem_cons.mp member with rfl | later
      · rw [if_pos rfl]
      · rw [if_neg, ih distinct later]
        intro same
        exact apart (List.mem_map.mpr ⟨atom, later, same.symm⟩)

namespace Slots

variable {slots : Slots}

/-- A slot is pending just when it is reserved. -/
theorem isPending_iff {id : Nat} : slots.isPending id = true ↔ slots.slot id = .pending := by
  rw [isPending, slot, beq_iff_eq]
  cases slots.table[id]? with
  | none => exact iff_of_false nofun nofun
  | some found => rw [Option.some.injEq, Option.getD_some]

theorem lt_size_of_slot {id : Nat} (held : slots.slot id ≠ .never) : id < slots.size := by
  by_contra past
  rw [slot, Array.getElem?_eq_none (Nat.le_of_not_lt past)] at held
  exact held rfl

theorem slot_size (slots : Slots) : slots.slot slots.size = .never := by
  rw [slot, size, Array.getElem?_eq_none (Nat.le_refl _), Option.getD_none]

theorem atom?_eq (slots : Slots) (id : Nat) : slots.atom? id = (slots.slot id).atom? := rfl

theorem atom?_eq_some_iff {id : Nat} {atom : Atom} :
    slots.atom? id = some atom ↔ slots.slot id = .committed atom := by
  rw [atom?_eq, Slot.atom?_eq_some_iff]

/-- What a slot holds is settled by its atom. -/
theorem settled_slot (slots : Slots) (id : Nat) :
    settled (slots.slot id) = ((slots.atom? id).map Slot.committed).getD .never := by
  rw [atom?_eq]
  cases slots.slot id <;> rfl

/-- Reserving takes the first slot behind the others. -/
theorem slot_reserve (slots : Slots) (id : Nat) :
    slots.reserve.2.slot id = if id = slots.size then .pending else slots.slot id := by
  rw [slot, slot, reserve, Array.getElem?_push, size]
  by_cases same : id = slots.table.size
  · rw [if_pos same, if_pos same, Option.getD_some]
  · rw [if_neg same, if_neg same]

/-- Releasing a slot empties it and leaves the others. -/
theorem slot_release {id : Nat} {released : Slots} (done : slots.release id = .ok released)
    (other : Nat) : released.slot other = if other = id then .never else slots.slot other := by
  unfold release at done
  split at done
  · cases done
    rw [slot, slot, Array.getElem?_setIfInBounds]
    by_cases same : id = other
    · rw [if_pos same, if_pos same.symm]
      split <;> rfl
    · rw [if_neg same, if_neg (Ne.symm same)]
  · cases done

/-- The reserved slots of a list are empty after it is released; all others are as before. -/
theorem slot_releaseAll (slots : Slots) (ids : List Nat) (other : Nat) :
    (slots.releaseAll ids).slot other =
      if other ∈ ids ∧ slots.slot other = .pending then .never else slots.slot other := by
  induction ids generalizing slots with
  | nil => simp only [releaseAll, List.foldl_nil, List.not_mem_nil, false_and, ↓reduceIte]
  | cons id rest ih =>
    have step : (((slots.release id).toOption.getD slots)).slot other =
        if other = id ∧ slots.slot other = .pending then .never else slots.slot other := by
      cases done : slots.release id with
      | ok released =>
        have pending : slots.slot id = .pending := by
          rw [← isPending_iff]
          by_contra refused
          rw [release, if_neg refused] at done
          cases done
        rw [Except.toOption, Option.getD_some, slot_release done]
        by_cases same : other = id
        · rw [if_pos same, if_pos ⟨same, same ▸ pending⟩]
        · rw [if_neg same, if_neg fun both => same both.1]
      | error refusal =>
        have held : slots.slot id ≠ .pending := by
          intro pending
          rw [release, if_pos (isPending_iff.mpr pending)] at done
          cases done
        rw [Except.toOption, Option.getD_none, if_neg]
        intro given
        obtain ⟨rfl, pending⟩ := given
        exact held pending
    have later := ih ((slots.release id).toOption.getD slots)
    rw [step] at later
    rw [releaseAll, List.foldl_cons, ← releaseAll, later]
    by_cases pending : slots.slot other = .pending
    · by_cases same : other = id
      · simp only [same, true_and, ↓reduceIte, reduceCtorEq, and_false, List.mem_cons, true_or,
          same ▸ pending]
      · simp only [same, pending, ↓reduceIte, and_true, List.mem_cons, false_or]
    · simp only [pending, and_false, ↓reduceIte]

/-- Releasing reserved slots leaves all atoms. -/
theorem atom?_releaseAll (slots : Slots) (ids : List Nat) (id : Nat) :
    (slots.releaseAll ids).atom? id = slots.atom? id := by
  rw [atom?_eq, atom?_eq, slot_releaseAll]
  by_cases released : id ∈ ids ∧ slots.slot id = .pending
  · rw [if_pos released, released.2]
    rfl
  · rw [if_neg released]

theorem releaseAll_counts (slots : Slots) (ids : List Nat) :
    (slots.releaseAll ids).ucn = slots.ucn ∧
      (slots.releaseAll ids).committed = slots.committed ∧
      (slots.releaseAll ids).size = slots.size := by
  induction ids generalizing slots with
  | nil => exact ⟨rfl, rfl, rfl⟩
  | cons id rest ih =>
    obtain ⟨ucn, committed, total⟩ := ih ((slots.release id).toOption.getD slots)
    rw [releaseAll, List.foldl_cons, ← releaseAll, ucn, committed, total, release]
    split
    · exact ⟨rfl, rfl, Array.size_setIfInBounds⟩
    · exact ⟨rfl, rfl, rfl⟩

theorem size_fill (table : Array Slot) (atoms : List Atom) :
    (fill table atoms).size = table.size := by
  induction atoms generalizing table with
  | nil => rfl
  | cons atom rest ih =>
    rw [fill, List.foldl_cons, ← fill, ih, Array.size_setIfInBounds]

/-- Of the listed atoms with a slot's number the last one fills it. -/
theorem getElem?_fill_eq_last (table : Array Slot) (atoms : List Atom) (id : Nat) :
    (fill table atoms)[id]? =
      table[id]?.map fun slot => ((atomFor? atoms.reverse id).map Slot.committed).getD slot := by
  -- from the right, as the last write is the one that counts
  induction atoms using List.reverseRecOn with
  | nil => exact Option.map_id'.symm
  | append_singleton front last ih =>
    have step : fill table (front ++ [last]) =
        (fill table front).setIfInBounds last.id (.committed last) := by
      rw [fill, List.foldl_append]
      rfl
    rw [step, Array.getElem?_setIfInBounds, size_fill, ih, List.reverse_concat, atomFor?_cons]
    by_cases same : last.id = id
    · subst same
      rw [if_pos rfl, if_pos rfl]
      by_cases inside : last.id < table.size
      · rw [if_pos inside, Array.getElem?_eq_getElem inside]
        rfl
      · rw [if_neg inside, Array.getElem?_eq_none (Nat.le_of_not_lt inside), Option.map_none]
    · rw [if_neg same, if_neg same]

/-- Filling a table puts each atom into its slot and leaves the others. -/
theorem fill_eq (table : Array Slot) {atoms : List Atom}
    (distinct : (atoms.map (·.id)).Nodup) (room : ∀ atom ∈ atoms, atom.id < table.size)
    (id : Nat) :
    (fill table atoms)[id]? = ((atomFor? atoms id).map Slot.committed).or table[id]? := by
  have either : atomFor? atoms.reverse id = atomFor? atoms id := by
    have turned : (atoms.reverse.map (·.id)).Nodup := by
      rw [List.map_reverse]
      exact List.pairwise_reverse.mpr (distinct.imp Ne.symm)
    ext atom
    rw [atomFor?_eq_some_iff turned, atomFor?_eq_some_iff distinct, List.mem_reverse]
  rw [getElem?_fill_eq_last, either]
  by_cases inside : id < table.size
  · rw [Array.getElem?_eq_getElem inside]
    cases atomFor? atoms id <;> rfl
  · have unnamed : atomFor? atoms id = none := by
      rw [atomFor?_eq_none_iff]
      rintro atom member rfl
      exact inside (room atom member)
    rw [Array.getElem?_eq_none (Nat.le_of_not_lt inside), unnamed]
    rfl

/-- Atoms are published when their slots are reserved and they have the UCN of the next commit. -/
theorem publish_eq_ok {atoms : List Atom}
    (admitted : ∀ atom ∈ atoms, slots.slot atom.id = .pending ∧ atom.ucn = slots.ucn) :
    slots.publish atoms = .ok
      { table := fill slots.table atoms
        ucn := slots.ucn + 1
        committed := slots.committed + atoms.length
        ucn_pos := Nat.succ_pos slots.ucn } := by
  have none : atoms.find? (fun atom => !slots.admits atom) = none := by
    rw [List.find?_eq_none]
    intro atom member refused
    obtain ⟨pending, same⟩ := admitted atom member
    rw [admits, isPending_iff.mpr pending, same, BEq.rfl] at refused
    cases refused
  rw [publish, none]

/-- After a commit the published atoms are in their slots and all else is as before. -/
theorem slot_fill {atoms : List Atom} (distinct : (atoms.map (·.id)).Nodup)
    (pending : ∀ atom ∈ atoms, slots.slot atom.id = .pending) (id : Nat) :
    (fill slots.table atoms)[id]?.getD .never =
      ((atomFor? atoms id).map Slot.committed).getD (slots.slot id) := by
  have room : ∀ atom ∈ atoms, atom.id < slots.table.size := by
    intro atom member
    apply lt_size_of_slot
    rw [pending atom member]
    exact nofun
  rw [fill_eq _ distinct room]
  cases atomFor? atoms id <;> rfl

theorem atom?_stretch (table : Array Slot) (id other : Nat) :
    ((stretch table id)[other]?.getD .never).atom? = (table[other]?.getD .never).atom? := by
  rw [stretch]
  split
  · rw [Array.getElem?_append]
    split
    · rfl
    · rename_i past
      rw [Array.getElem?_replicate, Array.getElem?_eq_none (Nat.le_of_not_lt past)]
      split <;> rfl
  · rfl

theorem lt_size_stretch (table : Array Slot) (id : Nat) : id < (stretch table id).size := by
  rw [stretch]
  split
  · rw [Array.size_append, Array.size_replicate]
    omega
  · omega

/-- An atom put into its slot is there, and all other slots hold the atoms that they held. -/
theorem atom?_setIfInBounds_stretch (table : Array Slot) (atom : Atom) (id : Nat) :
    (((stretch table atom.id).setIfInBounds atom.id (.committed atom))[id]?.getD .never).atom? =
      if atom.id = id then some atom else (table[id]?.getD .never).atom? := by
  rw [Array.getElem?_setIfInBounds]
  by_cases same : atom.id = id
  · rw [if_pos same, if_pos same, if_pos (lt_size_stretch table atom.id)]
    rfl
  · rw [if_neg same, if_neg same, atom?_stretch]

/-- Atoms with slots of their own are all taken in when those slots hold no atoms. -/
theorem takeIn_of_free (table : Array Slot) {atoms : List Atom}
    (distinct : (atoms.map (·.id)).Nodup)
    (free : ∀ atom ∈ atoms, (table[atom.id]?.getD .never).atom? = none) :
    ∃ taken, takeIn table atoms = (taken, none) ∧
      ∀ id, (taken[id]?.getD .never).atom? =
        (atomFor? atoms id).or (table[id]?.getD .never).atom? := by
  induction atoms generalizing table with
  | nil => exact ⟨table, rfl, fun _ => rfl⟩
  | cons atom rest ih =>
    obtain ⟨apart, distinct⟩ := List.nodup_cons.mp distinct
    let room := stretch table atom.id
    obtain ⟨taken, took, held⟩ := ih (room.setIfInBounds atom.id (.committed atom))
      distinct (by
        intro other member
        rw [atom?_setIfInBounds_stretch, if_neg, free other (List.mem_cons_of_mem _ member)]
        intro same
        exact apart (List.mem_map.mpr ⟨other, member, same.symm⟩))
    refine ⟨taken, ?_, ?_⟩
    · have empty : (room[atom.id]?.getD .never).atom? = none := by
        rw [atom?_stretch, free atom List.mem_cons_self]
      rw [takeIn]
      split
      · rename_i found
        rw [found] at empty
        cases empty
      · exact took
    · intro id
      rw [held, atom?_setIfInBounds_stretch, atomFor?_cons]
      by_cases same : atom.id = id
      · have absent : atomFor? rest id = none := by
          rw [atomFor?_eq_none_iff]
          intro other member equal
          exact apart (List.mem_map.mpr ⟨other, member, equal.trans same.symm⟩)
        rw [if_pos same, if_pos same, absent]
        rfl
      · rw [if_neg same, if_neg same]

/-- Atoms that are all taken in have slots of their own, which held no atoms. -/
theorem free_of_takeIn {table taken : Array Slot} {atoms : List Atom}
    (took : takeIn table atoms = (taken, none)) :
    (atoms.map (·.id)).Nodup ∧ ∀ atom ∈ atoms, (table[atom.id]?.getD .never).atom? = none := by
  induction atoms generalizing table with
  | nil => exact ⟨List.nodup_nil, nofun⟩
  | cons atom rest ih =>
    rw [takeIn] at took
    split at took
    · cases took
    · rename_i vacant
      obtain ⟨distinct, free⟩ := ih took
      have unheld : (table[atom.id]?.getD .never).atom? = none := by
        rw [← atom?_stretch table atom.id atom.id]
        cases held : (stretch table atom.id)[atom.id]? with
        | none => rfl
        | some slot =>
          cases slot with
          | committed other => exact absurd held (vacant other)
          | never => rfl
          | pending => rfl
      have later (other : Atom) (member : other ∈ rest) :
          atom.id ≠ other.id ∧ (table[other.id]?.getD .never).atom? = none := by
        have vacant := free other member
        rw [atom?_setIfInBounds_stretch] at vacant
        split at vacant
        · cases vacant
        · rename_i apart
          exact ⟨apart, vacant⟩
      refine ⟨List.nodup_cons.mpr ⟨fun member => ?_, distinct⟩, fun other member => ?_⟩
      · obtain ⟨other, among, same⟩ := List.mem_map.mp member
        exact (later other among).1 same.symm
      · rcases List.mem_cons.mp member with rfl | among
        · exact unheld
        · exact (later other among).2

/-- A record is taken in when its UCN is not below the next one and its slots hold no atoms. -/
theorem takeRecord_of_free {record : Log.Record} (ordered : slots.ucn ≤ record.ucn)
    (distinct : (record.atoms.map (·.id)).Nodup)
    (free : ∀ atom ∈ record.atoms, slots.atom? atom.id = none) :
    ∃ taken, slots.takeRecord record = (taken, none) ∧ taken.ucn = record.ucn + 1 ∧
      taken.committed = slots.committed + record.atoms.length ∧
      ∀ id, taken.atom? id = (atomFor? record.atoms id).or (slots.atom? id) := by
  obtain ⟨table, took, held⟩ := takeIn_of_free slots.table distinct free
  refine ⟨⟨table, record.ucn + 1, slots.committed + record.atoms.length, by omega⟩, ?_, rfl, rfl,
    held⟩
  rw [takeRecord, if_neg (Nat.not_lt.mpr ordered), took]

/-- A record is taken in only when its UCN is not below the next one and its slots hold no atoms. -/
theorem free_of_takeRecord {record : Log.Record} {taken : Slots}
    (took : slots.takeRecord record = (taken, none)) :
    slots.ucn ≤ record.ucn ∧ (record.atoms.map (·.id)).Nodup ∧
      ∀ atom ∈ record.atoms, slots.atom? atom.id = none := by
  rw [takeRecord] at took
  split at took
  · cases took
  · rename_i ordered
    split at took
    · cases took
    · rename_i filled
      exact ⟨Nat.le_of_not_lt ordered, free_of_takeIn filled⟩

/-- Settling a table empties what was reserved and keeps the atoms. -/
theorem slot_settle (slots : Slots) (id : Nat) :
    slots.settle.2.slot id = settled (slots.slot id) := by
  rw [slot, slot, settle, Array.getElem?_map]
  cases slots.table[id]? <;> rfl

/-- Giving up missing slots leaves all atoms. -/
theorem atom?_settle (slots : Slots) (id : Nat) : slots.settle.2.atom? id = slots.atom? id := by
  rw [atom?_eq, atom?_eq, slot_settle]
  cases slots.slot id <;> rfl

end Slots
end AtomStore
