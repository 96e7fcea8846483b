import AtomStore.Proofs.Store.Occupied
import Mathlib.Data.List.Induction

/-!
# Refused records

A record is taken in atom by atom and is refused at the first atom whose slot holds one already, be
it from an earlier record or from the front of the same one. The atoms in front of the refused one
have been put into their slots by then, and the table has grown to hold them, while the count of
committed atoms and the UCN of the next commit are as before. So a refused record leaves the table
alone only if its UCN is too small or its very first atom is refused.
-/

namespace AtomStore
namespace Slots

/-- The table with an atom put into its slot. -/
def put (table : Array Slot) (atom : Atom) : Array Slot :=
  (stretch table atom.id).setIfInBounds atom.id (.committed atom)

/-- The table with atoms put into their slots, one after the other. -/
def putAll (table : Array Slot) (atoms : List Atom) : Array Slot := atoms.foldl put table

variable {table : Array Slot} {atoms : List Atom}

theorem size_put (table : Array Slot) (atom : Atom) :
    (put table atom).size = max table.size (atom.id + 1) := by
  rw [put, Array.size_setIfInBounds, stretch]
  split
  · rw [Array.size_append, Array.size_replicate]
    omega
  · omega

theorem atom?_put (table : Array Slot) (atom : Atom) (id : Nat) :
    ((put table atom)[id]?.getD .never).atom? =
      if atom.id = id then some atom else (table[id]?.getD .never).atom? :=
  atom?_setIfInBounds_stretch table atom id

/-- Putting atoms grows a table as far as the highest of their slots. -/
theorem lt_size_putAll {id : Nat} :
    id < (putAll table atoms).size ↔ id < table.size ∨ ∃ atom ∈ atoms, id ≤ atom.id := by
  induction atoms generalizing table with
  | nil => simp only [putAll, List.foldl_nil, List.not_mem_nil, false_and, exists_false, or_false]
  | cons atom rest ih =>
    rw [putAll, List.foldl_cons, ← putAll, ih, size_put, lt_max_iff, Nat.lt_succ_iff, or_assoc]
    simp only [List.mem_cons, exists_eq_or_imp]

/-- The slots of the room that a table has gained count as reserved. -/
theorem getElem?_stretch (table : Array Slot) (id other : Nat) :
    (stretch table id)[other]? =
      table[other]?.or (if other < (stretch table id).size then some .pending else none) := by
  by_cases present : other < table.size
  · rw [Array.getElem?_eq_getElem present, Option.some_or, stretch]
    split
    · rw [Array.getElem?_append_left present, Array.getElem?_eq_getElem present]
    · exact Array.getElem?_eq_getElem present
  · rw [Array.getElem?_eq_none (Nat.le_of_not_lt present), Option.none_or, stretch]
    split
    · rw [Array.getElem?_append_right (Nat.le_of_not_lt present), Array.getElem?_replicate,
        Array.size_append, Array.size_replicate]
      by_cases inside : other - table.size < id + 1 - table.size
      · rw [if_pos inside, if_pos (by omega)]
      · rw [if_neg inside, if_neg (by omega)]
    · exact Array.getElem?_eq_none (Nat.le_of_not_lt present)

/-- Putting an atom reserves the slots between the end of a table and its own. -/
theorem getElem?_put (table : Array Slot) (atom : Atom) (id : Nat) :
    (put table atom)[id]? =
      if atom.id = id then some (.committed atom)
      else table[id]?.or (if id < (put table atom).size then some .pending else none) := by
  rw [put, Array.getElem?_setIfInBounds, Array.size_setIfInBounds, getElem?_stretch]
  by_cases same : atom.id = id
  · rw [if_pos same, if_pos same, if_pos (lt_size_stretch table atom.id)]
  · rw [if_neg same, if_neg same]

/-- Slots that the atoms leave alone are as before, and new ones count as reserved. -/
theorem getElem?_putAll (distinct : (atoms.map (·.id)).Nodup) (id : Nat) :
    (putAll table atoms)[id]? =
      ((atomFor? atoms id).map Slot.committed).or
        (table[id]?.or (if id < (putAll table atoms).size then some .pending else none)) := by
  induction atoms generalizing table with
  | nil =>
    rw [putAll, List.foldl_nil]
    by_cases inside : id < table.size
    · rw [Array.getElem?_eq_getElem inside]
      rfl
    · rw [Array.getElem?_eq_none (Nat.le_of_not_lt inside), if_neg inside]
      rfl
  | cons atom rest ih =>
    obtain ⟨apart, distinct⟩ := List.nodup_cons.mp distinct
    rw [putAll, List.foldl_cons, ← putAll, ih distinct, getElem?_put, atomFor?_cons]
    by_cases same : atom.id = id
    · have absent : atomFor? rest id = none := by
        rw [atomFor?_eq_none_iff]
        intro other member equal
        exact apart (List.mem_map.mpr ⟨other, member, equal.trans same.symm⟩)
      rw [absent, if_pos same, if_pos same]
      rfl
    · rw [if_neg same, if_neg same]
      cases (atomFor? rest id).map Slot.committed with
      | some slot => rfl
      | none =>
        cases table[id]? with
        | some slot => rfl
        | none =>
          rw [Option.none_or, Option.none_or, Option.none_or]
          by_cases early : id < (put table atom).size
          · have late : id < (putAll (put table atom) rest).size := lt_size_putAll.mpr (.inl early)
            rw [if_pos early, if_pos late]
            rfl
          · rw [if_neg early, Option.none_or]

/-- Putting atoms leaves the others. -/
theorem atom?_putAll (distinct : (atoms.map (·.id)).Nodup) (id : Nat) :
    ((putAll table atoms)[id]?.getD .never).atom? =
      (atomFor? atoms id).or (table[id]?.getD .never).atom? := by
  rw [getElem?_putAll distinct]
  cases atomFor? atoms id with
  | some atom => rfl
  | none =>
    cases table[id]? with
    | some slot => rfl
    | none =>
      rw [Option.map_none, Option.none_or, Option.none_or, Option.none_or]
      split <;> rfl

theorem lt_size_of_atom? {id : Nat} (held : (table[id]?.getD .never).atom?.isSome = true) :
    id < table.size := by
  by_contra past
  rw [Array.getElem?_eq_none (Nat.le_of_not_lt past)] at held
  cases held

/-- An atom is refused where its slot holds one. -/
theorem takeIn_of_held {atom : Atom} (rest : List Atom)
    (held : (table[atom.id]?.getD .never).atom?.isSome = true) :
    takeIn table (atom :: rest) = (table, some atom) := by
  have inside := lt_size_of_atom? held
  have same : stretch table atom.id = table := by rw [stretch, if_neg (Nat.not_le.mpr inside)]
  rw [takeIn, same]
  rw [Array.getElem?_eq_getElem inside] at held ⊢
  cases slot : table[atom.id] with
  | committed other => rfl
  | never =>
    rw [slot] at held
    cases held
  | pending =>
    rw [slot] at held
    cases held

/-- An atom is put into its slot where that holds none. -/
theorem takeIn_of_vacant {atom : Atom} (rest : List Atom)
    (vacant : (table[atom.id]?.getD .never).atom? = none) :
    takeIn table (atom :: rest) = takeIn (put table atom) rest := by
  rw [takeIn]
  split
  · rename_i found
    rw [← atom?_stretch table atom.id, found] at vacant
    cases vacant
  · rfl

/-- Atoms that find their slots free are all put in. -/
theorem takeIn_append {front : List Atom} (distinct : (front.map (·.id)).Nodup)
    (free : ∀ atom ∈ front, (table[atom.id]?.getD .never).atom? = none) (back : List Atom) :
    takeIn table (front ++ back) = takeIn (putAll table front) back := by
  induction front generalizing table with
  | nil => rfl
  | cons atom rest ih =>
    obtain ⟨apart, distinct⟩ := List.nodup_cons.mp distinct
    rw [List.cons_append, takeIn_of_vacant _ (free atom List.mem_cons_self), ih distinct]
    · rfl
    · intro other member
      rw [atom?_put, if_neg, free other (List.mem_cons_of_mem _ member)]
      intro same
      exact apart (List.mem_map.mpr ⟨other, member, same.symm⟩)

/-- Either all atoms find their slots free, or there is a first one that does not. -/
theorem free_or_refused (table : Array Slot) (atoms : List Atom) :
    ((atoms.map (·.id)).Nodup ∧ ∀ atom ∈ atoms, (table[atom.id]?.getD .never).atom? = none) ∨
      ∃ front refused back, atoms = front ++ refused :: back ∧ (front.map (·.id)).Nodup ∧
        (∀ atom ∈ front, (table[atom.id]?.getD .never).atom? = none) ∧
        (refused.id ∈ front.map (·.id) ∨
          (table[refused.id]?.getD .never).atom?.isSome = true) := by
  -- from the right: a further atom is only reached when all in front of it were free
  induction atoms using List.reverseRecOn with
  | nil => exact .inl ⟨List.nodup_nil, nofun⟩
  | append_singleton front last ih =>
    rcases ih with ⟨distinct, free⟩ | ⟨front, refused, back, rfl, distinct, free, held⟩
    · by_cases held : last.id ∈ front.map (·.id) ∨
          (table[last.id]?.getD .never).atom?.isSome = true
      · exact .inr ⟨front, last, [], rfl, distinct, free, held⟩
      · obtain ⟨new, vacant⟩ := not_or.mp held
        left
        constructor
        · rw [List.map_append, List.map_singleton]
          exact List.nodup_append_comm.mp (List.nodup_cons.mpr ⟨new, distinct⟩)
        · intro atom member
          rcases List.mem_append.mp member with earlier | same
          · exact free atom earlier
          · rw [List.mem_singleton.mp same]
            exact Option.not_isSome_iff_eq_none.mp vacant
    · right
      exact ⟨front, refused, back ++ [last], by rw [List.append_assoc, List.cons_append],
        distinct, free, held⟩

/-- The first atom that finds its slot filled is refused; those in front of it are put in. -/
theorem takeIn_of_refused {front back : List Atom} {refused : Atom}
    (distinct : (front.map (·.id)).Nodup)
    (free : ∀ atom ∈ front, (table[atom.id]?.getD .never).atom? = none)
    (held : refused.id ∈ front.map (·.id) ∨
      (table[refused.id]?.getD .never).atom?.isSome = true) :
    takeIn table (front ++ refused :: back) = (putAll table front, some refused) := by
  rw [takeIn_append distinct free, takeIn_of_held]
  rw [atom?_putAll distinct, Option.isSome_or, Bool.or_eq_true, isSome_atomFor?]
  exact held

variable {slots left : Slots} {record : Log.Record}

/-- How a record is refused, with the table that is left. -/
theorem takeRecord_cases (slots : Slots) (record : Log.Record) :
    (record.ucn < slots.ucn ∧ slots.takeRecord record =
        (slots, some (.ucnOutOfOrder record.offset record.ucn slots.ucn))) ∨
      (slots.ucn ≤ record.ucn ∧ (record.atoms.map (·.id)).Nodup ∧
        (∀ atom ∈ record.atoms, slots.atom? atom.id = none) ∧
        slots.takeRecord record =
          ({ table := putAll slots.table record.atoms
             ucn := record.ucn + 1
             committed := slots.committed + record.atoms.length
             ucn_pos := Nat.succ_pos record.ucn }, none)) ∨
      ∃ front refused back, slots.ucn ≤ record.ucn ∧ record.atoms = front ++ refused :: back ∧
        (front.map (·.id)).Nodup ∧ (∀ atom ∈ front, slots.atom? atom.id = none) ∧
        (refused.id ∈ front.map (·.id) ∨ (slots.atom? refused.id).isSome = true) ∧
        slots.takeRecord record =
          ({ slots with table := putAll slots.table front },
            some (.duplicateAtom refused.id record.offset)) := by
  by_cases early : record.ucn < slots.ucn
  · exact .inl ⟨early, by rw [takeRecord, if_pos early]⟩
  · right
    have ordered := Nat.le_of_not_lt early
    rcases free_or_refused slots.table record.atoms with ⟨distinct, free⟩ |
      ⟨front, refused, back, parts, distinct, free, held⟩
    · left
      have took := takeIn_append distinct free []
      rw [List.append_nil] at took
      exact ⟨ordered, distinct, free, by rw [takeRecord, if_neg early, took, takeIn]⟩
    · right
      refine ⟨front, refused, back, ordered, parts, distinct, free, held, ?_⟩
      rw [takeRecord, if_neg early, parts, takeIn_of_refused distinct free held]

/-- A table with some atoms put into it. -/
theorem slot_putAll (slots : Slots) (distinct : (atoms.map (·.id)).Nodup)
    (held : left.table = putAll slots.table atoms) (id : Nat) :
    left.slot id = ((atomFor? atoms id).map Slot.committed).getD
      (if slots.size ≤ id ∧ id < left.size then .pending else slots.slot id) := by
  rw [slot, slot, size, size, held, getElem?_putAll distinct]
  cases atomFor? atoms id with
  | some atom => rfl
  | none =>
    rw [Option.map_none, Option.none_or, Option.getD_none]
    by_cases present : id < slots.table.size
    · have known : ¬(slots.table.size ≤ id ∧ id < (putAll slots.table atoms).size) :=
        fun new => Nat.not_le.mpr present new.1
      rw [if_neg known, Array.getElem?_eq_getElem present, Option.some_or, Option.getD_some]
    · rw [Array.getElem?_eq_none (Nat.le_of_not_lt present), Option.none_or]
      by_cases grown : id < (putAll slots.table atoms).size
      · rw [if_pos grown, if_pos ⟨Nat.le_of_not_lt present, grown⟩]
        rfl
      · have past : ¬(slots.table.size ≤ id ∧ id < (putAll slots.table atoms).size) :=
          fun new => grown new.2
        rw [if_neg grown, if_neg past]

theorem atom?_of_putAll (distinct : (atoms.map (·.id)).Nodup)
    (held : left.table = putAll slots.table atoms) (id : Nat) :
    left.atom? id = (atomFor? atoms id).or (slots.atom? id) := by
  rw [atom?_eq, atom?_eq, slot, slot, held, atom?_putAll distinct]

/-- A record that is refused leaves the counts as they were. It leaves the table as it was only if
its UCN is too small or its first atom is refused: otherwise the atoms in front of the refused one
stay in their slots, uncounted and with UCNs that the table has not reached. -/
theorem left_by_refused {refusal : LogError}
    (refused : slots.takeRecord record = (left, some refusal)) :
    left.ucn = slots.ucn ∧ left.committed = slots.committed ∧
      ((record.ucn < slots.ucn ∧ left = slots ∧
          refusal = .ucnOutOfOrder record.offset record.ucn slots.ucn) ∨
        ∃ front again back,
          slots.ucn ≤ record.ucn ∧ record.atoms = front ++ again :: back ∧
          refusal = .duplicateAtom again.id record.offset ∧
          (front.map (·.id)).Nodup ∧ (∀ atom ∈ front, slots.atom? atom.id = none) ∧
          (again.id ∈ front.map (·.id) ∨ (slots.atom? again.id).isSome = true) ∧
          (left = slots ↔ front = []) ∧
          (∀ id, id < left.size ↔ id < slots.size ∨ ∃ atom ∈ front, id ≤ atom.id) ∧
          (∀ id, left.slot id = ((atomFor? front id).map Slot.committed).getD
            (if slots.size ≤ id ∧ id < left.size then .pending else slots.slot id)) ∧
          left.occupied.length = slots.occupied.length + front.length ∧
          ∀ atom ∈ front, left.atom? atom.id = some atom ∧
            (atom.ucn = record.ucn → left.ucn ≤ atom.ucn)) := by
  rcases slots.takeRecord_cases record with ⟨early, took⟩ | ⟨_, _, _, took⟩ |
    ⟨front, again, back, ordered, parts, distinct, free, held, took⟩
  · cases took.symm.trans refused
    exact ⟨rfl, rfl, .inl ⟨early, rfl, rfl⟩⟩
  · cases took.symm.trans refused
  · cases took.symm.trans refused
    let left : Slots := { slots with table := putAll slots.table front }
    have filled : ∀ id, left.atom? id = (atomFor? front id).or (slots.atom? id) :=
      atom?_of_putAll distinct rfl
    have present (atom : Atom) (member : atom ∈ front) : left.atom? atom.id = some atom := by
      rw [filled, (atomFor?_eq_some_iff distinct).mpr ⟨member, rfl⟩, Option.some_or]
    refine ⟨rfl, rfl, .inr ⟨front, again, back, ordered, parts, rfl, distinct, free, held, ?_,
      fun _ => lt_size_putAll, slot_putAll slots distinct rfl, ?_, ?_⟩⟩
    · constructor
      · intro same
        cases front with
        | nil => rfl
        | cons atom rest =>
          have filled := present atom List.mem_cons_self
          rw [show left = slots from same, free atom List.mem_cons_self] at filled
          cases filled
      · rintro rfl
        rfl
    · rw [(occupied_perm_of_filled distinct free filled).length_eq, List.length_append,
        List.length_map]
    · intro atom member
      refine ⟨present atom member, ?_⟩
      intro sealed
      rw [sealed]
      exact ordered

/-- A record that holds the atom of one slot twice. -/
def repeating : Log.Record :=
  ⟨53, 1, [⟨0, 1, .empty, Nat.one_pos⟩, ⟨0, 1, .empty, Nat.one_pos⟩]⟩

/-- A record that holds a slot twice leaves its first atom in the table, and no count of it. -/
theorem left_by_repeating :
    ∃ left, Slots.empty.takeRecord repeating = (left, some (.duplicateAtom 0 53)) ∧
      left.ucn = 1 ∧ left.committed = 0 ∧ (left.atom? 0).map (·.ucn) = some 1 := by
  let left : Slots := ⟨#[.committed ⟨0, 1, .empty, Nat.one_pos⟩], 1, 0, Nat.one_pos⟩
  have refused : Slots.empty.takeRecord repeating = (left, some (.duplicateAtom 0 53)) := rfl
  obtain ⟨ucn, committed, _⟩ := left_by_refused refused
  exact ⟨left, refused, ucn, committed, rfl⟩

/-- After a refused record a slot can hold an atom that is not counted and whose UCN is not below
the next one. -/
theorem not_untouched_of_refused :
    ¬ ∀ (slots left : Slots) (record : Log.Record) (refusal : LogError),
        slots.takeRecord record = (left, some refusal) →
          left.size = slots.size ∧ (∀ id, left.slot id = slots.slot id) ∧
          left.committed = slots.committed ∧ left.ucn = slots.ucn ∧
          (slots.Counted → left.Counted) ∧
          ((∀ id atom, slots.atom? id = some atom → atom.ucn < slots.ucn) →
            ∀ id atom, left.atom? id = some atom → atom.ucn < left.ucn) := by
  intro untouched
  obtain ⟨size, _⟩ := untouched .empty _ repeating _ rfl
  cases size

end Slots
end AtomStore
