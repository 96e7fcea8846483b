import AtomStore.Proofs.Store.IndexOrder
import AtomStore.Proofs.Store.SlotHistory
import AtomStore.Proofs.TieredSet.Cursor

/-!
# Indices that follow a table of slots

An index holds exactly the accepted atoms that were committed before its last refresh, and it
remembers every slot it has looked at from which an atom may still come. This stays so when the
table changes, and after a refresh the index holds all accepted atoms of the table.
-/

namespace AtomStore

namespace Slots

/-- Whether an atom is one of the committed atoms of a table. -/
def Holds (slots : Slots) (atom : Atom) : Prop := slots.slot atom.id = .committed atom

variable {slots before after : Slots} {atom : Atom}

/-- A table holds the atoms of its slots. -/
theorem Sound.holds (sound : slots.Sound) {id : Nat} (held : slots.slot id = .committed atom) :
    slots.Holds atom := by
  obtain rfl := sound.id_eq id atom held
  exact held

/-- Slots that come later hold the same atoms. -/
theorem Later.holds (later : before.Later after) (held : before.Holds atom) : after.Holds atom :=
  later.kept atom.id atom held

/-- The atoms with a UCN of an earlier commit are the same in a later table. -/
theorem Later.holds_iff (later : before.Later after) (earlier : atom.ucn < before.ucn) :
    after.Holds atom ↔ before.Holds atom := by
  refine ⟨fun held => ?_, later.holds⟩
  rcases later.committed atom.id atom held with there | ⟨new, _⟩
  · exact there
  · exact absurd earlier (Nat.not_lt.mpr new)

end Slots

namespace Index

/-- Whether an index has followed a table of slots up to its last refresh. -/
structure Follows (index : Index) (slots : Slots) : Prop where
  valid : index.entries.Valid
  idle : index.entries.loading = none
  lastUcn_le : index.lastUcn ≤ slots.ucn
  scanned_le : index.scanned ≤ slots.size
  mem_iff : ∀ entry, entry ∈ index.entries.toList ↔
    ∃ atom, slots.Holds atom ∧ index.info.accepts atom = true ∧ atom.ucn < index.lastUcn ∧
      entry = index.info.entry atom
  ethereal : ∀ id < index.scanned, (slots.slot id = .pending ∨
    ∃ atom, slots.slot id = .committed atom ∧ index.lastUcn ≤ atom.ucn) → id ∈ index.ethereal

variable {index : Index} {slots : Slots}

/-- A new index follows any slots, as it has seen none. -/
theorem follows_new (id : Nat) (info : IndexInfo) (slots : Slots) :
    Follows { id, info } slots := by
  refine ⟨TieredSet.valid_withThreshold 1000, rfl, Nat.zero_le _, Nat.zero_le _, fun entry => ?_,
    fun _ => nofun⟩
  constructor
  · intro member
    rw [TieredSet.toList_withThreshold] at member
    cases member
  · intro given
    obtain ⟨_, _, _, impossible, _⟩ := given
    exact absurd impossible (Nat.not_lt_zero _)

/-- An index follows a table that has changed since its last refresh. -/
theorem Follows.later {after : Slots} (follows : index.Follows slots) (later : slots.Later after) :
    index.Follows after := by
  refine ⟨follows.valid, follows.idle, Nat.le_trans follows.lastUcn_le later.ucn_le,
    Nat.le_trans follows.scanned_le later.size_le, fun entry => ?_, fun id below open' => ?_⟩
  · rw [follows.mem_iff]
    apply exists_congr
    intro atom
    rw [and_congr_left_iff]
    intro given
    exact (later.holds_iff (Nat.lt_of_lt_of_le given.2.1 follows.lastUcn_le)).symm
  · have inside : ¬ slots.size ≤ id := by
      have := follows.scanned_le
      omega
    apply follows.ethereal id below
    rcases open' with pending | ⟨atom, held, new⟩
    · exact .inl ((later.pending id pending).resolve_right inside)
    · rcases later.committed id atom held with there | ⟨_, free⟩
      · exact .inr ⟨atom, there, new⟩
      · exact .inl (free.resolve_right inside)

/-- An index visits the slots that were reserved when it last saw them, and the new ones. -/
theorem mem_visited {seen : Nat × Slot} : seen ∈ index.visited slots ↔
    (seen.1 ∈ index.ethereal ∨ index.scanned ≤ seen.1 ∧ seen.1 < slots.size) ∧
      seen.2 = slots.slot seen.1 := by
  obtain ⟨id, slot⟩ := seen
  have listed (ids : List Nat) : (id, slot) ∈ ids.map (fun id => (id, slots.slot id)) ↔
      id ∈ ids ∧ slot = slots.slot id := by
    rw [List.mem_map]
    constructor
    · rintro ⟨other, member, same⟩
      cases same
      exact ⟨member, rfl⟩
    · rintro ⟨member, rfl⟩
      exact ⟨id, member, rfl⟩
  have range : id ∈ List.range' index.scanned (slots.size - index.scanned) ↔
      index.scanned ≤ id ∧ id < slots.size := by
    rw [List.mem_range'_1]
    omega
  rw [visited, List.mem_append, listed, listed, range, ← or_and_right]

/-- The atoms that a refresh adds are the accepted ones in the slots it looks at. -/
theorem mem_added {atom : Atom} :
    atom ∈ (index.visited slots).filterMap (fun seen => index.acceptedAtom? seen.2) ↔
      ∃ id, (id ∈ index.ethereal ∨ index.scanned ≤ id ∧ id < slots.size) ∧
        slots.slot id = .committed atom ∧ index.info.accepts atom = true := by
  have accepted {slot : Slot} : index.acceptedAtom? slot = some atom ↔
      slot = .committed atom ∧ index.info.accepts atom = true := by
    cases slot with
    | never => exact ⟨nofun, nofun⟩
    | pending => exact ⟨nofun, nofun⟩
    | committed found =>
      rw [acceptedAtom?, Option.ite_none_right_eq_some, Option.some.injEq, Slot.committed.injEq,
        and_comm]
      exact and_congr_right fun same => by rw [same]
  rw [List.mem_filterMap]
  constructor
  · rintro ⟨seen, member, given⟩
    obtain ⟨place, same⟩ := mem_visited.mp member
    obtain ⟨held, accepts⟩ := accepted.mp given
    exact ⟨seen.1, place, same.symm.trans held, accepts⟩
  · rintro ⟨id, place, held, accepts⟩
    exact ⟨(id, slots.slot id), mem_visited.mpr ⟨place, rfl⟩, accepted.mpr ⟨held, accepts⟩⟩

/-- An index takes in the entries of new atoms, in bulk or one by one. -/
theorem takes_withAtoms (valid : index.entries.Valid) (idle : index.entries.loading = none)
    (atoms : List Atom) :
    index.entries.Takes (atoms.map index.info.entry) (index.withAtoms atoms) := by
  rw [withAtoms]
  split
  · exact valid.takes_load idle _
  · exact valid.takes_addAll idle _

/-- Entries of committed atoms that tie are the same. -/
theorem entry_eq_of_compare {info : IndexInfo} {first second : Atom} (held : slots.Holds first)
    (present : slots.Holds second)
    (equal : compare (info.entry first) (info.entry second) = .eq) :
    info.entry first = info.entry second := by
  have same : first.id = second.id := IndexEntry.id_eq_of_compare equal
  rw [Slots.Holds, same, present] at held
  cases held
  rfl

/-- What an index holds once it has taken in the atoms that a refresh adds. -/
theorem Follows.mem_withAtoms (follows : index.Follows slots) (sound : slots.Sound)
    {entry : IndexEntry} :
    entry ∈ (index.withAtoms ((index.visited slots).filterMap
        fun seen => index.acceptedAtom? seen.2)).toList ↔
      ∃ atom, slots.Holds atom ∧ index.info.accepts atom = true ∧ atom.ucn < slots.ucn ∧
        entry = index.info.entry atom := by
  let added := (index.visited slots).filterMap fun seen => index.acceptedAtom? seen.2
  have source {x : IndexEntry}
      (present : x ∈ index.entries.toList ∨ x ∈ added.map index.info.entry) :
      ∃ atom, slots.Holds atom ∧ index.info.accepts atom = true ∧ x = index.info.entry atom := by
    rcases present with old | new
    · obtain ⟨atom, held, accepts, _, same⟩ := (follows.mem_iff x).mp old
      exact ⟨atom, held, accepts, same⟩
    · obtain ⟨atom, member, rfl⟩ := List.mem_map.mp new
      obtain ⟨id, _, held, accepts⟩ := mem_added.mp member
      exact ⟨atom, sound.holds held, accepts, rfl⟩
  have taken := (takes_withAtoms follows.valid follows.idle added).absorbs
  rw [taken.mem_iff]
  · constructor
    · intro present
      obtain ⟨atom, held, accepts, same⟩ := source present
      exact ⟨atom, held, accepts, sound.ucn_lt atom.id atom held, same⟩
    · rintro ⟨atom, held, accepts, _, rfl⟩
      -- an atom that is not there yet is in a slot from which one might come, or in a new one
      by_cases old : atom.ucn < index.lastUcn
      · exact .inl ((follows.mem_iff _).mpr ⟨atom, held, accepts, old, rfl⟩)
      · right
        apply List.mem_map_of_mem
        refine mem_added.mpr ⟨atom.id, ?_, held, accepts⟩
        by_cases seen : atom.id < index.scanned
        · exact .inl (follows.ethereal atom.id seen (.inr ⟨atom, held, Nat.le_of_not_lt old⟩))
        · refine .inr ⟨Nat.le_of_not_lt seen, Slots.lt_size_of_slot ?_⟩
          rw [held]
          exact nofun
  · intro x y first second equal
    obtain ⟨one, held, _, rfl⟩ := source first
    obtain ⟨two, present, _, rfl⟩ := source second
    exact entry_eq_of_compare held present equal

/-- A refresh brings an index up to date with a sound table. -/
theorem Follows.refresh (follows : index.Follows slots) (sound : slots.Sound) :
    (index.refresh slots).Follows slots ∧ (index.refresh slots).lastUcn = slots.ucn := by
  rw [Index.refresh]
  by_cases same : slots.ucn ≤ index.lastUcn
  · rw [if_pos same]
    exact ⟨follows, Nat.le_antisymm follows.lastUcn_le same⟩
  · rw [if_neg same]
    have takes := takes_withAtoms follows.valid follows.idle
      ((index.visited slots).filterMap fun seen => index.acceptedAtom? seen.2)
    refine ⟨⟨takes.valid, takes.idle, Nat.le_refl _, Nat.le_refl _,
      fun entry => follows.mem_withAtoms sound, fun id below open' => ?_⟩, rfl⟩
    rcases open' with pending | ⟨atom, held, new⟩
    · have seen : (id, slots.slot id) ∈ index.visited slots := by
        refine mem_visited.mpr ⟨?_, rfl⟩
        by_cases old : id < index.scanned
        · exact .inl (follows.ethereal id old (.inl pending))
        · exact .inr ⟨Nat.le_of_not_lt old, below⟩
      refine List.mem_map.mpr ⟨(id, slots.slot id), List.mem_filter.mpr ⟨seen, ?_⟩, rfl⟩
      exact beq_iff_eq.mpr pending
    · exact absurd (sound.ucn_lt id atom held) (Nat.not_lt.mpr new)

/-- How an index can have changed. -/
structure Grows (before after : Index) : Prop where
  id_eq : after.id = before.id
  info_eq : after.info = before.info
  lastUcn_le : before.lastUcn ≤ after.lastUcn
  entries_later : before.entries.Later after.entries

theorem Grows.refl (index : Index) : index.Grows index :=
  ⟨rfl, rfl, Nat.le_refl _, .refl _⟩

/-- An index that grows twice grows. -/
theorem Grows.trans {first second third : Index} (earlier : first.Grows second)
    (later : second.Grows third) : first.Grows third :=
  ⟨later.id_eq.trans earlier.id_eq, later.info_eq.trans earlier.info_eq,
    Nat.le_trans earlier.lastUcn_le later.lastUcn_le,
    earlier.entries_later.trans later.entries_later⟩

/-- Taking in atoms leaves a walk through an index its place. -/
theorem later_withAtoms (index : Index) (atoms : List Atom) :
    index.entries.Later (index.withAtoms atoms) := by
  rw [withAtoms]
  split
  · exact ((TieredSet.Later.startLoading _).trans (.addAll _ _)).trans (.stopLoading _)
  · exact .addAll _ _

/-- An index grows when it is brought up to date. -/
theorem grows_refresh (index : Index) (slots : Slots) : index.Grows (index.refresh slots) := by
  rw [Index.refresh]
  split
  · exact .refl index
  · rename_i moved
    exact ⟨rfl, rfl, Nat.le_of_not_le moved, later_withAtoms index _⟩

end Index
end AtomStore
