import AtomStore.Proofs.Store.Recovered

/-!
# Tables of slots over time

In a sound table every atom is in the slot with its number and has a UCN below that of the next
commit. Reserving, releasing and publishing keep tables sound and lead to later tables: committed
atoms stay, and new ones have the UCN of a later commit and fill slots that were reserved or not yet
there. A table recovered from the records of a file is sound.
-/

namespace AtomStore
namespace Slots

/-- Whether each atom of a table is in the slot with its number and was committed before the next
commit. -/
structure Sound (slots : Slots) : Prop where
  id_eq : ∀ id atom, slots.slot id = .committed atom → atom.id = id
  ucn_lt : ∀ id atom, slots.slot id = .committed atom → atom.ucn < slots.ucn

/-- How a table can have changed in an open store. -/
structure Later (before after : Slots) : Prop where
  ucn_le : before.ucn ≤ after.ucn
  size_le : before.size ≤ after.size
  kept : ∀ id atom, before.slot id = .committed atom → after.slot id = .committed atom
  committed : ∀ id atom, after.slot id = .committed atom → before.slot id = .committed atom ∨
    before.ucn ≤ atom.ucn ∧ (before.slot id = .pending ∨ before.size ≤ id)
  pending : ∀ id, after.slot id = .pending → before.slot id = .pending ∨ before.size ≤ id

theorem Later.refl (slots : Slots) : slots.Later slots :=
  ⟨Nat.le_refl _, Nat.le_refl _, fun _ _ => id, fun _ _ => .inl, fun _ => .inl⟩

theorem Later.trans {first second third : Slots} (earlier : first.Later second)
    (later : second.Later third) : first.Later third := by
  have unfilled (id : Nat) (free : second.slot id = .pending ∨ second.size ≤ id) :
      first.slot id = .pending ∨ first.size ≤ id := by
    rcases free with pending | past
    · exact earlier.pending id pending
    · exact .inr (Nat.le_trans earlier.size_le past)
  refine ⟨Nat.le_trans earlier.ucn_le later.ucn_le, Nat.le_trans earlier.size_le later.size_le,
    fun id atom held => later.kept id atom (earlier.kept id atom held), fun id atom held => ?_,
    fun id held => unfilled id (later.pending id held)⟩
  rcases later.committed id atom held with before | ⟨ucn, free⟩
  · exact earlier.committed id atom before
  · exact .inr ⟨Nat.le_trans earlier.ucn_le ucn, unfilled id free⟩

variable {slots : Slots}

theorem sound_empty : Slots.empty.Sound := ⟨fun _ _ => nofun, fun _ _ => nofun⟩

theorem later_reserve (slots : Slots) : slots.Later slots.reserve.2 := by
  refine ⟨Nat.le_refl _, ?_, fun id atom held => ?_, fun id atom held => ?_, fun id held => ?_⟩
  · exact Nat.le_of_lt (Nat.lt_of_lt_of_eq (Nat.lt_succ_self _) (Array.size_push _).symm)
  · rw [slot_reserve, if_neg, held]
    rintro rfl
    rw [slot_size] at held
    cases held
  · rw [slot_reserve] at held
    split at held
    · cases held
    · exact .inl held
  · rw [slot_reserve] at held
    split at held
    · rename_i last
      exact .inr (Nat.le_of_eq last.symm)
    · exact .inl held

theorem later_releaseAll (slots : Slots) (ids : List Nat) : slots.Later (slots.releaseAll ids) := by
  obtain ⟨ucn, _, size⟩ := slots.releaseAll_counts ids
  refine ⟨Nat.le_of_eq ucn.symm, Nat.le_of_eq size.symm, fun id atom held => ?_,
    fun id atom held => ?_, fun id held => ?_⟩
  · rw [slot_releaseAll, if_neg, held]
    rintro ⟨_, pending⟩
    rw [held] at pending
    cases pending
  all_goals
    rw [slot_releaseAll] at held
    split at held
    · cases held
    · exact .inl held

theorem Sound.reserve (sound : slots.Sound) : slots.reserve.2.Sound := by
  have before {id : Nat} {atom : Atom} (held : slots.reserve.2.slot id = .committed atom) :
      slots.slot id = .committed atom := by
    rw [slot_reserve] at held
    split at held
    · cases held
    · exact held
  exact ⟨fun id atom held => sound.id_eq id atom (before held),
    fun id atom held => sound.ucn_lt id atom (before held)⟩

theorem Sound.releaseAll (sound : slots.Sound) (ids : List Nat) :
    (slots.releaseAll ids).Sound := by
  have before {id : Nat} {atom : Atom} (held : (slots.releaseAll ids).slot id = .committed atom) :
      slots.slot id = .committed atom := by
    rw [slot_releaseAll] at held
    split at held
    · cases held
    · exact held
  refine ⟨fun id atom held => sound.id_eq id atom (before held), fun id atom held => ?_⟩
  rw [(slots.releaseAll_counts ids).1]
  exact sound.ucn_lt id atom (before held)

/-- Filling leaves a slot as it is or puts an atom with its number there. -/
theorem getElem?_fill (table : Array Slot) (atoms : List Atom) (id : Nat) :
    (fill table atoms)[id]? = table[id]? ∨
      ∃ atom ∈ atoms, atom.id = id ∧ (fill table atoms)[id]? = some (.committed atom) := by
  rw [getElem?_fill_eq_last]
  cases table[id]? with
  | none => exact .inl rfl
  | some slot =>
    cases found : atomFor? atoms.reverse id with
    | none => exact .inl rfl
    | some atom =>
      obtain ⟨member, here⟩ := of_atomFor?_eq_some found
      exact .inr ⟨atom, List.mem_reverse.mp member, here, rfl⟩

/-- Publishing leaves a slot as it is or fills one that was reserved, under the next UCN. -/
theorem slot_publish {atoms : List Atom} {next : Slots} (done : slots.publish atoms = .ok next) :
    next.ucn = slots.ucn + 1 ∧ next.size = slots.size ∧
      ∀ id, next.slot id = slots.slot id ∨
        ∃ atom, atom.id = id ∧ atom.ucn = slots.ucn ∧ slots.slot id = .pending ∧
          next.slot id = .committed atom := by
  rw [publish] at done
  split at done
  · cases done
  · rename_i admitted
    cases done
    refine ⟨rfl, size_fill .., fun id => ?_⟩
    rcases getElem?_fill slots.table atoms id with same | ⟨atom, member, here, filled⟩
    · exact .inl (congrArg (·.getD .never) same)
    · have fits := List.find?_eq_none.mp admitted atom member
      rw [Bool.not_eq_true', Bool.not_eq_false, admits, Bool.and_eq_true, isPending_iff,
        beq_iff_eq, here] at fits
      exact .inr ⟨atom, here, fits.2, fits.1, congrArg (·.getD .never) filled⟩

/-- Slots come later by a publication. -/
theorem later_publish {atoms : List Atom} {next : Slots} (done : slots.publish atoms = .ok next) :
    slots.Later next := by
  obtain ⟨ucn, size, filled⟩ := slot_publish done
  refine ⟨by omega, Nat.le_of_eq size.symm, fun id atom held => ?_, fun id atom held => ?_,
    fun id held => ?_⟩
  · rcases filled id with same | ⟨_, _, _, pending, _⟩
    · rw [same, held]
    · rw [held] at pending
      cases pending
  · rcases filled id with same | ⟨new, _, sealed, pending, put⟩
    · exact .inl (same.symm.trans held)
    · rw [put] at held
      cases held
      exact .inr ⟨Nat.le_of_eq sealed.symm, .inl pending⟩
  · rcases filled id with same | ⟨_, _, _, pending, _⟩
    · exact .inl (same.symm.trans held)
    · exact .inl pending

/-- A publication keeps slots sound. -/
theorem Sound.publish {atoms : List Atom} {next : Slots} (sound : slots.Sound)
    (done : slots.publish atoms = .ok next) : next.Sound := by
  obtain ⟨ucn, _, filled⟩ := slot_publish done
  refine ⟨fun id atom held => ?_, fun id atom held => ?_⟩
  · rcases filled id with same | ⟨new, here, _, _, put⟩
    · exact sound.id_eq id atom (same.symm.trans held)
    · rw [put] at held
      cases held
      exact here
  · rcases filled id with same | ⟨new, _, sealed, _, put⟩
    · have before := sound.ucn_lt id atom (same.symm.trans held)
      omega
    · rw [put] at held
      cases held
      omega

/-- An atom in a table that has taken in a record was there or is one of the record. -/
theorem atom?_takeIn {table taken : Array Slot} {atoms : List Atom}
    (took : takeIn table atoms = (taken, none)) {id : Nat} {atom : Atom}
    (held : (taken[id]?.getD .never).atom? = some atom) :
    (table[id]?.getD .never).atom? = some atom ∨ atom ∈ atoms ∧ atom.id = id := by
  induction atoms generalizing table with
  | nil =>
    cases took
    exact .inl held
  | cons first rest ih =>
    rw [takeIn] at took
    split at took
    · cases took
    · rcases ih took with before | ⟨member, here⟩
      · rw [Array.getElem?_setIfInBounds] at before
        split at before
        · rename_i here
          rw [if_pos (by rw [here]; exact here ▸ lt_size_stretch table first.id)] at before
          cases before
          exact .inr ⟨List.mem_cons_self, here⟩
        · rw [atom?_stretch] at before
          exact .inl before
      · exact .inr ⟨List.mem_cons_of_mem _ member, here⟩

/-- Taking in a record whose atoms are sealed with its UCN keeps a table sound. -/
theorem Sound.takeRecord {record : Log.Record} {next : Slots} (sound : slots.Sound)
    (sealed : ∀ atom ∈ record.atoms, atom.ucn = record.ucn)
    (took : slots.takeRecord record = (next, none)) : next.Sound := by
  rw [Slots.takeRecord] at took
  split at took
  · cases took
  · rename_i ordered
    split at took
    · cases took
    · rename_i table filled
      cases took
      have known {id : Nat} {atom : Atom}
          (held : (table[id]?.getD .never) = .committed atom) :
          slots.slot id = .committed atom ∨ atom ∈ record.atoms ∧ atom.id = id := by
        rw [← Slots.atom?_eq_some_iff, Slots.atom?_eq]
        apply atom?_takeIn filled
        rw [held]
        rfl
      refine ⟨fun id atom held => ?_, fun id atom held => ?_⟩
      · rcases known held with before | ⟨_, here⟩
        · exact sound.id_eq id atom before
        · exact here
      · rcases known held with before | ⟨member, _⟩
        · have earlier := sound.ucn_lt id atom before
          exact Nat.lt_succ_of_lt (Nat.lt_of_lt_of_le earlier (Nat.le_of_not_lt ordered))
        · rw [sealed atom member]
          exact Nat.lt_succ_self _

/-- Records that are taken in keep slots sound. -/
theorem Sound.feed {records : List Log.Record} {taken : Slots} {held total count atoms : Nat}
    (sound : slots.Sound)
    (sealed : ∀ record ∈ records, ∀ atom ∈ record.atoms, atom.ucn = record.ucn)
    (fed : Log.feed Slots.takeRecord slots held total records = (taken, count, atoms, none)) :
    taken.Sound := by
  induction records generalizing slots held total with
  | nil =>
    cases fed
    exact sound
  | cons record rest ih =>
    rw [Log.feed] at fed
    cases consumed : slots.takeRecord record with
    | mk next refusal =>
      rw [consumed] at fed
      cases refusal with
      | some reason => cases fed
      | none =>
        obtain ⟨first, later⟩ := List.forall_mem_cons.mp sealed
        exact ih (sound.takeRecord first consumed) later fed

theorem Sound.settle (sound : slots.Sound) : slots.settle.2.Sound := by
  have before {id : Nat} {atom : Atom} (held : slots.settle.2.slot id = .committed atom) :
      slots.slot id = .committed atom := by
    rw [← Slots.atom?_eq_some_iff, ← atom?_settle, Slots.atom?_eq_some_iff, held]
  exact ⟨fun id atom held => sound.id_eq id atom (before held),
    fun id atom held => sound.ucn_lt id atom (before held)⟩

end Slots

namespace Log

/-- A record has a positive UCN, with which its atoms are sealed. -/
theorem Reader.sealed_of_record {version : Version} {offset : Nat} {reader next : Reader}
    {found : Record} (read : reader.record version offset = .ok (found, next)) :
    0 < found.ucn ∧ ∀ atom ∈ found.atoms, atom.ucn = found.ucn := by
  unfold record at read
  split at read
  · cases read
  · split at read
    · rename_i ucn_pos
      split at read
      · cases read
      · split at read
        · cases read
        · cases read
          refine ⟨ucn_pos, fun atom member => ?_⟩
          obtain ⟨draft, _, rfl⟩ := List.mem_map.mp member
          rfl
    · cases read

/-- The atoms of a record have its UCN, which is not zero. -/
theorem sealed_of_scanFrom {version : Version} {last position : Nat} {bytes : Bytes} :
    ∀ record ∈ (scanFrom version last position bytes).records,
      0 < record.ucn ∧ ∀ atom ∈ record.atoms, atom.ucn = record.ucn := by
  fun_induction scanFrom version last position bytes with
  | case1 => exact nofun
  | case2 last position rest ih => exact ih
  | case3 => exact nofun
  | case4 last position rest record next read later notPad ih =>
    intro found member
    rcases List.mem_cons.mp member with rfl | later
    · exact Reader.sealed_of_record read
    · exact ih found later
  | case5 => exact nofun

end Log

/-- A record found in a file has a positive UCN, with which its atoms are sealed. -/
theorem DataFile.sealed_of_scan (file : DataFile) (directory : Directory) :
    ∀ record ∈ (file.scan directory).records,
      0 < record.ucn ∧ ∀ atom ∈ record.atoms, atom.ucn = record.ucn := by
  intro record member
  rw [scan] at member
  split at member
  · split at member <;> exact Log.sealed_of_scanFrom record member
  · exact Log.sealed_of_scanFrom record member

/-- A table that has been recovered is sound. -/
theorem DataFile.sound_recover {file : DataFile} {directory : Directory} {slots : Slots}
    {repair : Bool} {summary : Log.Summary} (sound : slots.Sound)
    (recovered : (file.recover directory slots repair).outcome = .ok summary) :
    (file.recover directory slots repair).slots.Sound := by
  have sealed := fun record member => (file.sealed_of_scan directory record member).2
  obtain ⟨_, _, _, _, fed, _, done⟩ | ⟨_, _, _, _, _, _, fed, _, _, _, _, done⟩ | ⟨_, failed, _⟩ :=
    file.recover_cases directory slots repair
  · rw [done]
    exact (sound.feed sealed fed).settle
  · rw [done]
    exact (sound.feed sealed fed).settle
  · rw [failed] at recovered
    cases recovered

end AtomStore
