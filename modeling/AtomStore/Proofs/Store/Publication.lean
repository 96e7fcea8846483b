import AtomStore.Proofs.Store.Exposed
import AtomStore.Proofs.Store.Occupied
import AtomStore.Proofs.Store.SlotHistory
import Mathlib.Data.List.Dedup

/-!
# Publications

A list of atoms is published in two passes: each atom is checked against the table as it stands
before the list, then all are put into their slots one after the other. Atoms of a list that share a
slot pass the check together, and the last of them overwrites the others, which the table counts all
the same. So a publication is right exactly when its atoms have slots of their own.
-/

namespace AtomStore
namespace Slots

variable {slots next : Slots} {atoms : List Atom}

/-- What a publication does to a table, whichever slots its atoms share. -/
structure Publishes (slots : Slots) (atoms : List Atom) (next : Slots) : Prop where
  ucn_eq : next.ucn = slots.ucn + 1
  committed_eq : next.committed = slots.committed + atoms.length
  size_eq : next.size = slots.size
  slot_eq : ∀ id,
    next.slot id = ((atomFor? atoms.reverse id).map Slot.committed).getD (slots.slot id)

/-- A table admits an atom for a reserved slot, sealed with the next UCN. -/
theorem admits_iff {atom : Atom} :
    slots.admits atom = true ↔ slots.slot atom.id = .pending ∧ atom.ucn = slots.ucn := by
  rw [admits, Bool.and_eq_true, isPending_iff, beq_iff_eq]

/-- A list is published when each of its atoms is admitted by the table as it stands. -/
theorem publishes_of_admits (admitted : ∀ atom ∈ atoms, slots.admits atom = true) :
    ∃ next, slots.publish atoms = .ok next ∧ slots.Publishes atoms next := by
  have checked := fun atom member => admits_iff.mp (admitted atom member)
  refine ⟨_, publish_eq_ok checked, rfl, rfl, size_fill .., fun id => ?_⟩
  rw [slot, slot, getElem?_fill_eq_last]
  by_cases inside : id < slots.table.size
  · rw [Array.getElem?_eq_getElem inside]
    rfl
  · have unnamed : atomFor? atoms.reverse id = none := by
      rw [← Option.not_isSome_iff_eq_none, isSome_atomFor?_reverse, List.mem_map]
      rintro ⟨atom, member, rfl⟩
      apply inside
      apply lt_size_of_slot
      rw [(checked atom member).1]
      exact Slot.noConfusion
    rw [Array.getElem?_eq_none (Nat.le_of_not_lt inside), unnamed]
    rfl

/-- The first atom that is not admitted is named by the refusal. -/
theorem publish_of_refused {front back : List Atom} {refused : Atom}
    (admitted : ∀ atom ∈ front, slots.admits atom = true)
    (unfit : slots.admits refused = false) :
    slots.publish (front ++ refused :: back) = .error (.slotNotPending refused.id) := by
  have found : (front ++ refused :: back).find? (fun atom => !slots.admits atom) =
      some refused := by
    rw [List.find?_eq_some_iff_append]
    refine ⟨by rw [unfit]; rfl, front, back, rfl, fun atom member => ?_⟩
    rw [admitted atom member]
    rfl
  rw [publish, found]

/-- Either each atom of a list is admitted, or there is a first one that is not. -/
theorem admits_all_or_refused (slots : Slots) (atoms : List Atom) :
    (∀ atom ∈ atoms, slots.admits atom = true) ∨
      ∃ front refused back, atoms = front ++ refused :: back ∧
        (∀ atom ∈ front, slots.admits atom = true) ∧ slots.admits refused = false := by
  cases found : atoms.find? (fun atom => !slots.admits atom) with
  | none =>
    left
    intro atom member
    have fits := List.find?_eq_none.mp found atom member
    rwa [Bool.not_eq_true', Bool.not_eq_false] at fits
  | some refused =>
    obtain ⟨unfit, front, back, parts, earlier⟩ := List.find?_eq_some_iff_append.mp found
    refine .inr ⟨front, refused, back, parts, fun atom member => ?_, ?_⟩
    · have fits := earlier atom member
      rwa [Bool.not_not] at fits
    · rwa [Bool.not_eq_true'] at unfit

/-- A list that is published was admitted as a whole. -/
theorem publishes_of_publish (done : slots.publish atoms = .ok next) :
    slots.Publishes atoms next ∧
      ∀ atom ∈ atoms, slots.slot atom.id = .pending ∧ atom.ucn = slots.ucn := by
  rcases slots.admits_all_or_refused atoms with admitted | ⟨front, refused, back, rfl, admitted, unfit⟩
  · obtain ⟨other, same, publishes⟩ := publishes_of_admits admitted
    obtain rfl := Except.ok.inj (same.symm.trans done)
    exact ⟨publishes, fun atom member => admits_iff.mp (admitted atom member)⟩
  · rw [publish_of_refused admitted unfit] at done
    cases done

namespace Publishes

variable (published : slots.Publishes atoms next)

include published

/-- After a publication a slot has the last atom for it, or the one that was there. -/
theorem atom?_eq (id : Nat) :
    next.atom? id = (atomFor? atoms.reverse id).or (slots.atom? id) := by
  rw [Slots.atom?_eq, published.slot_eq, Slots.atom?_eq]
  cases atomFor? atoms.reverse id <;> rfl

/-- A publication leaves the slots that it does not name. -/
theorem slot_of_unnamed {id : Nat} (unnamed : id ∉ atoms.map (·.id)) :
    next.slot id = slots.slot id := by
  have absent : atomFor? atoms.reverse id = none := by
    rwa [← Option.not_isSome_iff_eq_none, isSome_atomFor?_reverse]
  rw [published.slot_eq, absent]
  rfl

/-- Listed atoms are all found in their slots unless two different ones share a slot. -/
theorem found_iff :
    (∀ atom ∈ atoms, next.atom? atom.id = some atom) ↔
      ∀ atom ∈ atoms, ∀ other ∈ atoms, atom.id = other.id → atom = other := by
  constructor
  · intro found atom member other among same
    have first := found atom member
    rw [same, found other among] at first
    exact (Option.some.inj first).symm
  · intro single atom member
    have named : (atomFor? atoms.reverse atom.id).isSome = true :=
      isSome_atomFor?_reverse.mpr (List.mem_map_of_mem member)
    obtain ⟨last, found⟩ := Option.isSome_iff_exists.mp named
    obtain ⟨among, same⟩ := of_atomFor?_eq_some found
    rw [published.atom?_eq, found, single last (List.mem_reverse.mp among) atom member same,
      Option.some_or]

/-- A slot that several atoms share is occupied once. -/
theorem length_occupied (free : ∀ atom ∈ atoms, slots.atom? atom.id = none) :
    next.occupied.length = slots.occupied.length + (atoms.map (·.id)).dedup.length := by
  have perm : next.occupied.Perm (slots.occupied ++ (atoms.map (·.id)).dedup) := by
    apply occupied_perm (List.nodup_dedup _)
    · intro id member
      obtain ⟨atom, among, rfl⟩ := List.mem_map.mp (List.mem_dedup.mp member)
      exact free atom among
    · intro id
      rw [published.atom?_eq, Option.isSome_or, Bool.or_eq_true, isSome_atomFor?_reverse,
        List.mem_dedup]
  rw [perm.length_eq, List.length_append]

/-- The count stays right only when all atoms have slots of their own. -/
theorem counted_iff (counted : slots.Counted)
    (free : ∀ atom ∈ atoms, slots.atom? atom.id = none) :
    next.Counted ↔ (atoms.map (·.id)).Nodup := by
  have numbers : (atoms.map (·.id)).length = atoms.length := List.length_map _
  rw [Counted, published.committed_eq, counted, published.length_occupied free,
    Nat.add_left_cancel_iff, ← numbers]
  constructor
  · intro same
    rw [← List.dedup_eq_self]
    exact (List.dedup_sublist _).eq_of_length same.symm
  · intro distinct
    rw [distinct.dedup]

end Publishes

/-- A publication is refused for the first atom that the table does not admit, and then changes
nothing, or all atoms are admitted and the UCN moves on by one. Slots that are not named are then as
before; those that are hold the last atom listed for them. Each listed atom is found exactly when no
two different ones share a slot, and the count is right exactly when no slot is named twice. -/
theorem publish_cases (counted : slots.Counted) (atoms : List Atom) :
    (∃ front refused back, atoms = front ++ refused :: back ∧
        (∀ atom ∈ front, slots.admits atom = true) ∧ slots.admits refused = false ∧
        slots.publish atoms = .error (.slotNotPending refused.id) ∧
        StateCall.run slots (.publish atoms) = slots) ∨
      ∃ next, slots.publish atoms = .ok next ∧ (∀ atom ∈ atoms, slots.admits atom = true) ∧
        StateCall.run slots (.publish atoms) = next ∧ next.ucn = slots.ucn + 1 ∧
        next.committed = slots.committed + atoms.length ∧ next.size = slots.size ∧
        (∀ id, next.slot id =
          ((atomFor? atoms.reverse id).map Slot.committed).getD (slots.slot id)) ∧
        (∀ id, id ∉ atoms.map (·.id) → next.slot id = slots.slot id) ∧
        ((∀ atom ∈ atoms, next.atom? atom.id = some atom) ↔
          ∀ atom ∈ atoms, ∀ other ∈ atoms, atom.id = other.id → atom = other) ∧
        (next.Counted ↔ (atoms.map (·.id)).Nodup) := by
  rcases slots.admits_all_or_refused atoms with admitted | ⟨front, refused, back, rfl, fits, unfit⟩
  · right
    obtain ⟨next, done, published⟩ := publishes_of_admits admitted
    have free (atom : Atom) (member : atom ∈ atoms) : slots.atom? atom.id = none := by
      rw [Slots.atom?_eq, (admits_iff.mp (admitted atom member)).1]
      rfl
    refine ⟨next, done, admitted, ?_, published.ucn_eq, published.committed_eq, published.size_eq,
      published.slot_eq, fun _ => published.slot_of_unnamed, published.found_iff,
      published.counted_iff counted free⟩
    rw [StateCall.run, done]
    rfl
  · left
    have failed : slots.publish (front ++ refused :: back) = .error (.slotNotPending refused.id) :=
      publish_of_refused fits unfit
    refine ⟨front, refused, back, rfl, fits, unfit, failed, ?_⟩
    rw [StateCall.run, failed]
    rfl

/-- Two atoms with different content for one slot. -/
def sharing : List Atom :=
  [⟨0, 1, SortedMap.empty.insert 1 (.integer 1), Nat.one_pos⟩,
    ⟨0, 1, SortedMap.empty.insert 1 (.integer 2), Nat.one_pos⟩]

/-- Two atoms for the one reserved slot: the second is found there, and both are counted. -/
theorem publish_sharing :
    ∃ next, empty.reserve.2.publish sharing = .ok next ∧ next.committed = 2 ∧
      next.occupied = [0] ∧ next.atom? 0 = sharing[1]? ∧ ¬next.Counted := by
  have reserved : empty.reserve.2.Counted := rfl
  rcases publish_cases reserved sharing with
    ⟨_, _, _, _, _, _, failed, _⟩ | ⟨next, done, _, _, _, committed, _, _, _, _, counted⟩
  · cases failed
  · refine ⟨next, done, committed, ?_, ?_, fun right => ?_⟩
    · cases done
      rfl
    · cases done
      rfl
    · have distinct := counted.mp right
      exact absurd distinct (by decide)

/-- A list of atoms that is published can lose one of them, and spoil the count. -/
theorem not_all_or_nothing :
    ¬ ∀ (slots : Slots) (atoms : List Atom), slots.Counted →
        (∃ refusal, slots.publish atoms = .error refusal) ∨
          ∃ next, slots.publish atoms = .ok next ∧
            (∀ atom ∈ atoms, next.atom? atom.id = some atom) ∧ next.Counted ∧
            next.ucn = slots.ucn + 1 ∧
            ∀ id, id ∉ atoms.map (·.id) → next.slot id = slots.slot id := by
  intro kept
  rcases kept empty.reserve.2 sharing rfl with ⟨_, failed⟩ | ⟨next, done, _, counted, _⟩
  · cases failed
  · cases done
    cases counted

end Slots
end AtomStore
