import AtomStore.Proofs.DataFile.Layout
import AtomStore.Proofs.Store.Refusal
import AtomStore.Proofs.Store.SlotHistory

/-!
# Logs that can be replayed

A log is orderly when the UCNs of its records ascend and none of its atoms has the number of
another, in the same record or in a different one. Exactly the orderly logs are recovered; the
slots of the table are then told by the atoms of the log. A log that is not orderly is refused at
the first record at which it ceases to be.
-/

namespace AtomStore
namespace Log

/-- The numbers of the atoms of some records, in the order of the log. -/
def ids (records : List Record) : List Nat := records.flatMap fun record => record.atoms.map (·.id)

/-- Records whose UCNs ascend and whose atoms all have slots of their own. -/
structure Orderly (records : List Record) : Prop where
  ascending : records.Pairwise fun earlier later => earlier.ucn < later.ucn
  apart : (ids records).Nodup

/-- The UCN behind those of some records. -/
def nextUcn (records : List Record) : Nat := (records.getLast?.map (·.ucn + 1)).getD 1

variable {records : List Record} {record : Record}

theorem mem_ids {id : Nat} :
    id ∈ ids records ↔ ∃ record ∈ records, ∃ atom ∈ record.atoms, atom.id = id := by
  simp only [ids, List.mem_flatMap, List.mem_map]

theorem ids_concat (records : List Record) (record : Record) :
    ids (records ++ [record]) = ids records ++ record.atoms.map (·.id) := by
  rw [ids, List.flatMap_append, List.flatMap_singleton, ids]

theorem length_ids (records : List Record) :
    (ids records).length = (records.map fun record => record.atoms.length).sum := by
  rw [ids, List.length_flatMap]
  simp only [List.length_map]

theorem orderly_nil : Orderly [] := ⟨.nil, .nil⟩

theorem Orderly.front {front back : List Record} (orderly : Orderly (front ++ back)) :
    Orderly front := by
  refine ⟨(List.pairwise_append.mp orderly.ascending).1, ?_⟩
  have apart := orderly.apart
  rw [ids, List.flatMap_append] at apart
  exact (List.nodup_append.mp apart).1

/-- Some records are orderly, or there is a first one at which they cease to be. -/
theorem orderly_or_first (records : List Record) :
    Orderly records ∨ ∃ front record back, records = front ++ record :: back ∧ Orderly front ∧
      ¬Orderly (front ++ [record]) := by
  induction records using List.reverseRecOn with
  | nil => exact .inl orderly_nil
  | append_singleton front last ih =>
    rcases ih with orderly | ⟨front, record, back, rfl, orderly, broken⟩
    · by_cases all : Orderly (front ++ [last])
      · exact .inl all
      · exact .inr ⟨front, last, [], rfl, orderly, all⟩
    · right
      exact ⟨front, record, back ++ [last], by rw [List.append_assoc, List.cons_append], orderly,
        broken⟩

/-- How a record that does not go on from an orderly log is refused: for its UCN, or for its first
atom whose number has been used before. -/
inductive Refused (front : List Record) (record : Record) : LogError → Prop where
  | outOfOrder (early : record.ucn < nextUcn front) :
      Refused front record (.ucnOutOfOrder record.offset record.ucn (nextUcn front))
  | duplicate {before after : List Atom} {again : Atom} (ordered : nextUcn front ≤ record.ucn)
      (parts : record.atoms = before ++ again :: after)
      (distinct : (ids front ++ before.map (·.id)).Nodup)
      (used : again.id ∈ ids front ++ before.map (·.id)) :
      Refused front record (.duplicateAtom again.id record.offset)

end Log

namespace Recovered

variable {slots : Slots} {records : List Log.Record}

/-- A recovered table has atoms in just the slots that its records name. -/
theorem isSome_atom? (recovered : Recovered slots records) {id : Nat} :
    (slots.atom? id).isSome = true ↔ id ∈ Log.ids records := by
  rw [Option.isSome_iff_exists, Log.mem_ids]
  constructor
  · intro held
    obtain ⟨atom, held⟩ := held
    obtain ⟨record, member, inside, same⟩ := recovered.atom?_eq_some_iff.mp held
    exact ⟨record, member, atom, inside, same⟩
  · intro given
    obtain ⟨record, member, atom, inside, same⟩ := given
    exact ⟨atom, recovered.atom?_eq_some_iff.mpr ⟨record, member, inside, same⟩⟩

theorem atom?_eq_none (recovered : Recovered slots records) {id : Nat}
    (absent : id ∉ Log.ids records) : slots.atom? id = none := by
  rw [← recovered.isSome_atom?, Bool.not_eq_true, Option.isSome_eq_false_iff,
    Option.isNone_iff_eq_none] at absent
  exact absent

theorem lt_ucn (recovered : Recovered slots records) :
    ∀ record ∈ records, record.ucn < slots.ucn := by
  induction recovered with
  | nothing => exact nofun
  | @taken slots next records record before ordered distinct free took ih =>
    obtain ⟨same, taken, ucn, _⟩ := Slots.takeRecord_of_free ordered distinct free
    obtain rfl : same = next := (Prod.mk.inj (taken.symm.trans took)).1
    intro other member
    rw [ucn]
    rcases List.mem_append.mp member with earlier | last
    · exact Nat.lt_succ_of_lt (Nat.lt_of_lt_of_le (ih other earlier) ordered)
    · rw [List.mem_singleton.mp last]
      exact Nat.lt_succ_self _

/-- The table reaches up to the largest number of an atom. -/
theorem lt_size_iff (recovered : Recovered slots records) {id : Nat} :
    id < slots.size ↔ ∃ largest ∈ Log.ids records, id ≤ largest := by
  induction recovered with
  | nothing => exact iff_of_false (Nat.not_lt_zero id) nofun
  | @taken slots next records record before ordered distinct free took ih =>
    rcases slots.takeRecord_cases record with ⟨_, refused⟩ | ⟨_, _, _, taken⟩ |
      ⟨_, _, _, _, _, _, _, _, refused⟩
    · cases refused.symm.trans took
    · cases taken.symm.trans took
      rw [Slots.size, Slots.lt_size_putAll, ← Slots.size, ih, Log.ids_concat]
      constructor
      · intro given
        rcases given with ⟨largest, earlier, below⟩ | ⟨atom, inside, below⟩
        · exact ⟨largest, List.mem_append_left _ earlier, below⟩
        · exact ⟨atom.id, List.mem_append_right _ (List.mem_map_of_mem inside), below⟩
      · intro given
        obtain ⟨largest, among, below⟩ := given
        rcases List.mem_append.mp among with earlier | last
        · exact .inl ⟨largest, earlier, below⟩
        · obtain ⟨atom, inside, rfl⟩ := List.mem_map.mp last
          exact .inr ⟨atom, inside, below⟩
    · cases refused.symm.trans took

/-- A recovered table reaches as far as the highest slot that its records name. -/
theorem size_eq (recovered : Recovered slots records) :
    slots.size = ((Log.ids records).max?.map (· + 1)).getD 0 := by
  cases largest : (Log.ids records).max? with
  | none =>
    have empty := List.max?_eq_none_iff.mp largest
    apply Nat.eq_zero_of_not_pos
    intro inside
    obtain ⟨_, member, _⟩ := recovered.lt_size_iff.mp inside
    rw [empty] at member
    cases member
  | some last =>
    obtain ⟨member, above⟩ := List.max?_eq_some_iff.mp largest
    apply Nat.le_antisymm
    · apply Nat.le_of_not_lt
      intro inside
      obtain ⟨other, among, below⟩ := recovered.lt_size_iff.mp inside
      exact absurd (Nat.le_trans below (above other among)) (Nat.lt_irrefl last)
    · exact recovered.lt_size_iff.mpr ⟨last, member, Nat.le_refl last⟩

theorem committed_eq (recovered : Recovered slots records) :
    slots.committed = (Log.ids records).length := by
  induction recovered with
  | nothing => rfl
  | @taken slots next records record before ordered distinct free took ih =>
    obtain ⟨same, taken, _, committed, _⟩ := Slots.takeRecord_of_free ordered distinct free
    obtain rfl : same = next := (Prod.mk.inj (taken.symm.trans took)).1
    rw [committed, ih, Log.ids_concat, List.length_append, List.length_map]

/-- Only orderly records are all taken in. -/
theorem orderly (recovered : Recovered slots records) : Log.Orderly records := by
  induction recovered with
  | nothing => exact Log.orderly_nil
  | @taken slots next records record before ordered distinct free took ih =>
    constructor
    · rw [List.pairwise_append]
      refine ⟨ih.ascending, List.pairwise_singleton _ _, ?_⟩
      intro earlier member last among
      rw [List.mem_singleton.mp among]
      exact Nat.lt_of_lt_of_le (before.lt_ucn earlier member) ordered
    · rw [Log.ids_concat]
      apply List.Nodup.append ih.apart distinct
      intro id earlier last
      obtain ⟨atom, inside, rfl⟩ := List.mem_map.mp last
      have held := before.isSome_atom?.mpr earlier
      rw [free atom inside] at held
      cases held

/-- Orderly records with positive UCNs are all taken in. -/
theorem of_orderly (orderly : Log.Orderly records) (positive : ∀ record ∈ records, 0 < record.ucn) :
    ∃ slots, Recovered slots records := by
  induction records using List.reverseRecOn with
  | nil => exact ⟨.empty, .nothing⟩
  | append_singleton front last ih =>
    obtain ⟨slots, before⟩ := ih orderly.front fun record member =>
      positive record (List.mem_append_left _ member)
    have ahead : slots.ucn ≤ last.ucn := by
      rw [before.ucn_eq]
      cases behind : front.getLast? with
      | none => exact positive last (List.mem_append_right _ List.mem_cons_self)
      | some record =>
        exact (List.pairwise_append.mp orderly.ascending).2.2 record
          (List.mem_of_getLast? behind) last List.mem_cons_self
    have apart := orderly.apart
    rw [Log.ids_concat] at apart
    obtain ⟨_, distinct, unlike⟩ := List.nodup_append.mp apart
    obtain ⟨next, recovered, _⟩ := before.next ahead distinct fun atom inside =>
      before.atom?_eq_none fun earlier =>
        unlike atom.id earlier atom.id (List.mem_map_of_mem inside) rfl
    exact ⟨next, recovered⟩

/-- Behind a table made of records, a record that does not go on from them is refused. -/
theorem refused (recovered : Recovered slots records) {record : Log.Record}
    (broken : ¬Log.Orderly (records ++ [record])) :
    ∃ left refusal, slots.takeRecord record = (left, some refusal) ∧
      Log.Refused records record refusal := by
  have next : slots.ucn = Log.nextUcn records := recovered.ucn_eq
  rcases slots.takeRecord_cases record with ⟨early, took⟩ | ⟨ordered, distinct, free, took⟩ |
    ⟨front, again, back, ordered, parts, distinct, free, held, took⟩
  · rw [next] at early took
    exact ⟨_, _, took, .outOfOrder early⟩
  · exact absurd (Recovered.taken recovered ordered distinct free took).orderly broken
  · rw [next] at ordered
    refine ⟨_, _, took, .duplicate ordered parts ?_ ?_⟩
    · apply List.Nodup.append recovered.orderly.apart distinct
      intro id earlier inside
      obtain ⟨atom, member, rfl⟩ := List.mem_map.mp inside
      have held := recovered.isSome_atom?.mpr earlier
      rw [free atom member] at held
      cases held
    · rw [recovered.isSome_atom?] at held
      exact List.mem_append.mpr held.symm

end Recovered

/-- What a table shows once a log is replayed and its reserved slots are emptied. -/
structure Slots.Shows (slots : Slots) (records : List Log.Record) : Prop where
  size_eq : slots.size = ((Log.ids records).max?.map (· + 1)).getD 0
  logged : ∀ record ∈ records, ∀ atom ∈ record.atoms,
    slots.slot atom.id = .committed atom ∧ slots.atom? atom.id = some atom ∧ atom.ucn = record.ucn
  never : ∀ id ∉ Log.ids records, slots.slot id = .never
  unreserved : ∀ id, slots.slot id ≠ .pending
  committed_eq : slots.committed = (Log.ids records).length
  ucn_eq : slots.ucn = Log.nextUcn records

/-- A recovered table shows its records once its missing slots are given up. -/
theorem Recovered.shows_settle {slots : Slots} {records : List Log.Record}
    (recovered : Recovered slots records)
    (sealed : ∀ record ∈ records, ∀ atom ∈ record.atoms, atom.ucn = record.ucn) :
    slots.settle.2.Shows records := by
  refine ⟨?_, ?_, ?_, ?_, recovered.committed_eq, recovered.ucn_eq⟩
  · rw [← recovered.size_eq, Slots.size, Slots.settle, Array.size_map, Slots.size]
  · intro record member atom inside
    have held := recovered.atom?_eq_some_iff.mpr ⟨record, member, inside, rfl⟩
    refine ⟨?_, ?_, sealed record member atom inside⟩
    · rw [Slots.slot_settle, Slots.settled_slot, held]
      rfl
    · rw [Slots.atom?_settle, held]
  · intro id absent
    rw [Slots.slot_settle, Slots.settled_slot, recovered.atom?_eq_none absent]
    rfl
  · intro id pending
    rw [Slots.slot_settle] at pending
    cases held : slots.slot id <;> rw [held] at pending <;> cases pending

namespace DataFile

variable {file : DataFile} {directory : Directory} {records : List Log.Record} {stop : Nat}

/-- An orderly log is recovered. -/
theorem recover_of_orderly (scanned : file.scan directory = ⟨records, .ok stop⟩)
    (orderly : Log.Orderly records) (repair : Bool) :
    (file.recover directory .empty repair).outcome =
        .ok ⟨records.length, (Log.ids records).length, stop⟩ ∧
      (file.recover directory .empty repair).slots.Shows records := by
  have sealed := file.sealed_of_scan directory
  rw [scanned] at sealed
  obtain ⟨taken, recovered⟩ := Recovered.of_orderly orderly fun record member =>
    (sealed record member).1
  have replayed := replay_eq_of_recovered recovered scanned
  rw [← Log.length_ids, Except.map] at replayed
  rw [recover_of_replay replayed]
  exact ⟨rfl, recovered.shows_settle fun record member => (sealed record member).2⟩

/-- A log that is not orderly is refused at the first record at which it ceases to be. -/
theorem recover_of_broken (scanned : file.scan directory = ⟨records, .ok stop⟩)
    (broken : ¬Log.Orderly records) (repair : Bool) :
    ∃ front record back refusal, records = front ++ record :: back ∧ Log.Orderly front ∧
      ¬Log.Orderly (front ++ [record]) ∧ Log.Refused front record refusal ∧
      (file.recover directory .empty repair).outcome = .error refusal := by
  have sealed := file.sealed_of_scan directory
  rw [scanned] at sealed
  rcases Log.orderly_or_first records with orderly | ⟨front, record, back, rfl, orderly, ends⟩
  · exact absurd orderly broken
  · obtain ⟨slots, recovered⟩ := Recovered.of_orderly orderly fun record member =>
      (sealed record (List.mem_append_left _ member)).1
    obtain ⟨left, refusal, took, refused⟩ := recovered.refused ends
    have replayed : ∃ count atoms, file.replay directory Slots.takeRecord .empty =
        (left, count, atoms, .error refusal) := by
      rw [replay, scanned, Log.Scan.deliver, Log.feed_append recovered.feed_eq, Log.feed, took]
      exact ⟨_, _, rfl⟩
    obtain ⟨count, atoms, replayed⟩ := replayed
    refine ⟨front, record, back, refusal, rfl, orderly, ends, refused, ?_⟩
    rw [recover_of_error replayed]
    left
    intro cut same
    cases refused <;> cases same

/-- Exactly the orderly logs are recovered, and then the table shows what they hold. Any other log
is refused at the first record at which it ceases to be orderly. -/
theorem recover_iff_orderly (scanned : file.scan directory = ⟨records, .ok stop⟩)
    (repair : Bool) :
    ((∃ summary, (file.recover directory .empty repair).outcome = .ok summary) ↔
        Log.Orderly records) ∧
      (Log.Orderly records →
        (file.recover directory .empty repair).outcome =
            .ok ⟨records.length, (Log.ids records).length, stop⟩ ∧
          (file.recover directory .empty repair).slots.Shows records) ∧
      (¬Log.Orderly records → ∃ front record back refusal,
        records = front ++ record :: back ∧ Log.Orderly front ∧
          ¬Log.Orderly (front ++ [record]) ∧ Log.Refused front record refusal ∧
          (file.recover directory .empty repair).outcome = .error refusal) := by
  refine ⟨⟨?_, fun orderly => ⟨_, (recover_of_orderly scanned orderly repair).1⟩⟩,
    fun orderly => recover_of_orderly scanned orderly repair,
    fun broken => recover_of_broken scanned broken repair⟩
  rintro ⟨summary, recovered⟩
  by_contra broken
  obtain ⟨_, _, _, _, _, _, _, _, failed⟩ := recover_of_broken scanned broken repair
  rw [failed] at recovered
  cases recovered

/-- A log of two records with gaps between their UCNs and between their atoms. -/
theorem recover_with_gaps :
    ∃ (directory : Directory) (file : DataFile) (first second : Log.Record) (stop : Nat),
      file.scan directory = ⟨[first, second], .ok stop⟩ ∧
      first.ucn = 1 ∧ second.ucn = 3 ∧ Log.ids [first, second] = [7, 2] ∧
      (file.recover directory .empty false).outcome = .ok ⟨2, 2, stop⟩ ∧
      (file.recover directory .empty false).slots.size = 8 ∧
      (file.recover directory .empty false).slots.slot 5 = .never ∧
      (file.recover directory .empty false).slots.ucn = 4 := by
  let chunks : List Log.Chunk :=
    [.record ⟨1, [⟨7, []⟩], by decide⟩, .record ⟨3, [⟨2, []⟩], by decide⟩]
  have fitting : Log.Fitting .two chunks := by
    intro record member
    rcases List.mem_cons.mp member with rfl | last
    · exact ⟨by decide, List.forall_mem_singleton.mpr ⟨by decide, .nil, nofun⟩⟩
    · rw [List.mem_singleton.mp last]
      exact ⟨by decide, List.forall_mem_singleton.mpr ⟨by decide, .nil, nofun⟩⟩
  obtain ⟨directory, file, start, laid, _⟩ := exists_laid fitting
  have scanned := laid.scan_eq
  have orderly : Log.Orderly (Log.placedRecords file.headerLength chunks) := by
    refine ⟨List.pairwise_pair.mpr ?_, ?_⟩
    · change 1 < 3
      decide
    · change [7, 2].Nodup
      decide
  obtain ⟨recovered, shows⟩ := (recover_iff_orderly scanned false).2.1 orderly
  refine ⟨directory, file, _, _, _, scanned, rfl, rfl, rfl, recovered, shows.size_eq, ?_,
    shows.ucn_eq⟩
  apply shows.never
  change 5 ∉ [7, 2]
  decide

end DataFile
end AtomStore
