import AtomStore.Proofs.Store.Exposed
import AtomStore.Proofs.Store.IndexRefresh
import AtomStore.Proofs.Store.Refusal

/-!
# Slots that are empty for good

Reserving, releasing, publishing and settling leave a slot alone once it is empty for good. Taking in
a record does not: its atoms are put into any slots that hold none, reserved or not. An index that
has been brought up to date since a slot was emptied does not look at it again, so it never finds an
atom that comes there in this way.
-/

namespace AtomStore

open Log (Record)

/-- A call of a state that can change its slots. -/
inductive SlotCall where
  | reserve
  | call (call : StateCall)
  | take (record : Record)

/-- The slots after a call; a record that is refused can have filled some of them. -/
def SlotCall.run (slots : Slots) : SlotCall → Slots
  | reserve => slots.reserve.2
  | call given => given.run slots
  | take record => (slots.takeRecord record).1

namespace Slots

/-- The slots after some calls. -/
def runAll (slots : Slots) (calls : List SlotCall) : Slots := calls.foldl SlotCall.run slots

/-- Whether each atom of a table is in the slot with its number. -/
def Located (slots : Slots) : Prop := ∀ id atom, slots.slot id = .committed atom → atom.id = id

/-- Whether a record puts an atom into its slot: it is not late, and this atom and those in front of
it have slots of their own that hold no atoms. -/
structure Reaches (slots : Slots) (record : Record) (atom : Atom) : Prop where
  ordered : slots.ucn ≤ record.ucn
  parts : ∃ front back, record.atoms = front ++ atom :: back ∧
    ((front ++ [atom]).map (·.id)).Nodup ∧ ∀ other ∈ front ++ [atom], slots.atom? other.id = none

variable {slots : Slots} {record : Record} {atom : Atom} {id : Nat}

/-- A record reaches an atom only if its slot holds no atom. -/
theorem Reaches.free (reaches : slots.Reaches record atom) : slots.atom? atom.id = none := by
  obtain ⟨_, _, _, _, free⟩ := reaches.parts
  exact free atom (List.mem_append_right _ List.mem_cons_self)

/-- The atoms in a front part of a record are put into their slots when these are free. -/
theorem reaches_of_mem {front back : List Atom} (ordered : slots.ucn ≤ record.ucn)
    (parts : record.atoms = front ++ back) (distinct : (front.map (·.id)).Nodup)
    (free : ∀ other ∈ front, slots.atom? other.id = none) (member : atom ∈ front) :
    slots.Reaches record atom := by
  obtain ⟨before, after, rfl⟩ := List.append_of_mem member
  have earlier : (before ++ [atom]).Sublist (before ++ atom :: after) :=
    List.Sublist.append_left (List.singleton_sublist.mpr List.mem_cons_self) before
  exact ⟨ordered, before, after ++ back, by rw [parts, List.append_assoc, List.cons_append],
    distinct.sublist (earlier.map _), fun other among => free other (earlier.subset among)⟩

/-- Taking in a record puts exactly the atoms that it reaches into their slots. -/
theorem table_takeRecord (slots : Slots) (record : Record) :
    ∃ filling, (slots.takeRecord record).1.table = putAll slots.table filling ∧
      (filling.map (·.id)).Nodup ∧ ∀ atom, atom ∈ filling ↔ slots.Reaches record atom := by
  rcases slots.takeRecord_cases record with ⟨early, took⟩ | ⟨ordered, distinct, free, took⟩ |
    ⟨front, refused, back, ordered, parts, distinct, free, held, took⟩
  · refine ⟨[], by rw [took]; rfl, List.nodup_nil, fun atom => iff_of_false nofun ?_⟩
    exact fun reaches => Nat.not_le.mpr early reaches.ordered
  · refine ⟨record.atoms, by rw [took], distinct, fun atom => ⟨?_, ?_⟩⟩
    · exact reaches_of_mem ordered (List.append_nil _).symm distinct free
    · intro reaches
      obtain ⟨front, back, parts, _⟩ := reaches.parts
      rw [parts]
      exact List.mem_append_right _ List.mem_cons_self
  · refine ⟨front, by rw [took], distinct, fun atom => ⟨?_, ?_⟩⟩
    · exact reaches_of_mem ordered parts distinct free
    · intro reaches
      obtain ⟨before, after, split, apart, vacant⟩ := reaches.parts
      -- were the atom not in front of the refused one, the latter would have found its slot free
      by_contra beyond
      have passed : front ++ [refused] <+: before ++ [atom] := by
        have whole : front ++ [refused] <+: record.atoms :=
          ⟨back, by rw [parts, List.append_assoc, List.singleton_append]⟩
        have own : before ++ [atom] <+: record.atoms :=
          ⟨after, by rw [split, List.append_assoc, List.singleton_append]⟩
        refine List.prefix_of_prefix_length_le whole own ?_
        by_contra shorter
        have inside : before ++ [atom] <+: front := by
          refine List.prefix_of_prefix_length_le own (parts ▸ List.prefix_append ..) ?_
          simp only [List.length_append, List.length_singleton] at shorter ⊢
          omega
        exact beyond (inside.subset (List.mem_append_right _ List.mem_cons_self))
      have single := apart.sublist (passed.sublist.map _)
      rcases held with again | filled
      · rw [List.map_append, List.map_singleton] at single
        exact (List.nodup_append.mp single).2.2 _ again _ List.mem_cons_self rfl
      · rw [vacant refused (passed.subset (List.mem_append_right _ List.mem_cons_self))] at filled
        cases filled

/-- An atom that a record reaches is in its slot then. -/
theorem slot_takeRecord_of_reaches (reaches : slots.Reaches record atom) :
    (slots.takeRecord record).1.slot atom.id = .committed atom := by
  obtain ⟨filling, held, distinct, member⟩ := slots.table_takeRecord record
  have found := (atomFor?_eq_some_iff distinct).mpr ⟨(member atom).mpr reaches, rfl⟩
  rw [slot_putAll slots distinct held, found]
  rfl

end Slots

namespace SlotCall

variable {slots : Slots} {call : SlotCall} {id : Nat}

/-- What a call can do to a slot. -/
inductive Effect (slots : Slots) (call : SlotCall) (id : Nat) (after : Slot) : Prop where
  | unchanged (same : after = slots.slot id)
  | opened (new : slots.size ≤ id) (pending : after = .pending)
  | emptied (reserved : slots.slot id = .pending) (never : after = .never)
  | published {atom : Atom} (reserved : slots.slot id = .pending) (here : atom.id = id)
      (older : atom.ucn < (call.run slots).ucn) (held : after = .committed atom)
  | taken {record : Record} {atom : Atom} (given : call = .take record)
      (reaches : slots.Reaches record atom) (here : atom.id = id) (held : after = .committed atom)

/-- A call does to a slot what its kind allows. -/
theorem effect_run (slots : Slots) (call : SlotCall) (id : Nat) :
    Effect slots call id ((call.run slots).slot id) := by
  cases call with
  | reserve =>
    rw [run, Slots.slot_reserve]
    split
    · rename_i last
      exact .opened (Nat.le_of_eq last.symm) rfl
    · exact .unchanged rfl
  | call given =>
    cases given with
    | forget other =>
      rw [run, StateCall.run]
      cases done : slots.release other with
      | error refusal => exact .unchanged rfl
      | ok released =>
        rw [Except.toOption, Option.getD_some, Slots.slot_release done]
        split
        · rename_i same
          refine .emptied ?_ rfl
          rw [Slots.release] at done
          split at done
          · rename_i reserved
            rw [same]
            exact Slots.isPending_iff.mp reserved
          · cases done
        · exact .unchanged rfl
    | clean =>
      rw [run, StateCall.run, Slots.slot_settle]
      cases held : slots.slot id with
      | pending => exact .emptied held rfl
      | never => exact .unchanged held.symm
      | committed atom => exact .unchanged held.symm
    | publish atoms =>
      rw [run, StateCall.run]
      cases done : slots.publish atoms with
      | error refusal => exact .unchanged rfl
      | ok next =>
        obtain ⟨moved, _, filled⟩ := Slots.slot_publish done
        rcases filled id with same | ⟨atom, here, sealed, reserved, held⟩
        · exact .unchanged same
        · refine .published reserved here ?_ held
          rw [run, StateCall.run, done, sealed]
          exact Nat.lt_of_lt_of_eq (Nat.lt_succ_self _) moved.symm
  | take record =>
    obtain ⟨filling, held, distinct, member⟩ := slots.table_takeRecord record
    rw [run, Slots.slot_putAll slots distinct held]
    cases found : atomFor? filling id with
    | some atom =>
      obtain ⟨among, here⟩ := of_atomFor?_eq_some found
      exact .taken rfl ((member atom).mp among) here rfl
    | none =>
      rw [Option.map_none, Option.getD_none]
      split
      · rename_i new
        exact .opened new.1 rfl
      · exact .unchanged rfl

/-- No call takes slots away. -/
theorem size_le_run (slots : Slots) (call : SlotCall) : slots.size ≤ (call.run slots).size := by
  cases call with
  | reserve => exact slots.later_reserve.size_le
  | call given =>
    cases given with
    | forget other =>
      rw [run, StateCall.run, Slots.release]
      split
      · exact Nat.le_of_eq Array.size_setIfInBounds.symm
      · exact Nat.le_refl _
    | clean => exact Nat.le_of_eq Array.size_map.symm
    | publish atoms =>
      rw [run, StateCall.run]
      cases done : slots.publish atoms with
      | error refusal => exact Nat.le_refl _
      | ok next => exact (Slots.later_publish done).size_le
  | take record =>
    obtain ⟨filling, held, _⟩ := slots.table_takeRecord record
    rw [run, Slots.size, Slots.size, held]
    by_contra shrunk
    exact Nat.lt_irrefl _ (Slots.lt_size_putAll.mpr (.inl (Nat.lt_of_not_le shrunk)))

/-- No call moves the UCN back. -/
theorem ucn_le_run (slots : Slots) (call : SlotCall) : slots.ucn ≤ (call.run slots).ucn := by
  cases call with
  | reserve => exact Nat.le_refl _
  | call given => exact given.ucn_le_run slots
  | take record =>
    rw [run]
    rcases slots.takeRecord_cases record with ⟨_, took⟩ | ⟨ordered, _, _, took⟩ |
      ⟨_, _, _, _, _, _, _, _, took⟩
    · exact Nat.le_of_eq (congrArg (fun pair => pair.1.ucn) took).symm
    · rw [took]
      exact Nat.le_succ_of_le ordered
    · exact Nat.le_of_eq (congrArg (fun pair => pair.1.ucn) took).symm

/-- A committed atom stays in its slot. -/
theorem slot_run_of_committed {atom : Atom} (held : slots.slot id = .committed atom)
    (call : SlotCall) : (call.run slots).slot id = .committed atom := by
  cases effect_run slots call id with
  | unchanged same => rw [same, held]
  | opened new _ =>
    have inside := Slots.lt_size_of_slot (by rw [held]; exact nofun : slots.slot id ≠ .never)
    exact absurd inside (Nat.not_lt.mpr new)
  | emptied reserved _ =>
    rw [held] at reserved
    cases reserved
  | published reserved _ _ _ =>
    rw [held] at reserved
    cases reserved
  | taken _ reaches here _ =>
    have free := reaches.free
    rw [here, Slots.atom?_eq, held] at free
    cases free

/-- A slot that is empty for good stays so, unless a record reaches it. -/
theorem slot_run_of_never (inside : id < slots.size) (empty : slots.slot id = .never)
    (call : SlotCall) : (call.run slots).slot id = .never ∨
      ∃ record atom, call = .take record ∧ slots.Reaches record atom ∧ atom.id = id ∧
        (call.run slots).slot id = .committed atom := by
  cases effect_run slots call id with
  | unchanged same => exact .inl (same.trans empty)
  | opened new _ => exact absurd inside (Nat.not_lt.mpr new)
  | emptied _ never => exact .inl never
  | published reserved _ _ _ =>
    rw [empty] at reserved
    cases reserved
  | taken given reaches here held => exact .inr ⟨_, _, given, reaches, here, held⟩

/-- Every call keeps atoms in their own slots. -/
theorem located_run (located : slots.Located) (call : SlotCall) : (call.run slots).Located := by
  intro id atom held
  cases effect_run slots call id with
  | unchanged same => exact located id atom (same.symm.trans held)
  | opened _ pending => cases held.symm.trans pending
  | emptied _ never => cases held.symm.trans never
  | published _ here _ put =>
    cases held.symm.trans put
    exact here
  | taken _ _ here put =>
    cases held.symm.trans put
    exact here

end SlotCall

namespace Slots

variable {slots : Slots} {id : Nat}

/-- No series of calls takes slots away. -/
theorem size_le_runAll (slots : Slots) (calls : List SlotCall) :
    slots.size ≤ (slots.runAll calls).size := by
  induction calls generalizing slots with
  | nil => exact Nat.le_refl _
  | cons call rest ih => exact Nat.le_trans (call.size_le_run slots) (ih (call.run slots))

/-- Every series of calls keeps atoms in their own slots. -/
theorem located_runAll (located : slots.Located) (calls : List SlotCall) :
    (slots.runAll calls).Located := by
  induction calls generalizing slots with
  | nil => exact located
  | cons call rest ih => exact ih (SlotCall.located_run located call)

/-- A committed atom stays in its slot. -/
theorem slot_runAll_of_committed {atom : Atom} (held : slots.slot id = .committed atom)
    (calls : List SlotCall) : (slots.runAll calls).slot id = .committed atom := by
  induction calls generalizing slots with
  | nil => exact held
  | cons call rest ih => exact ih (SlotCall.slot_run_of_committed held call)

/-- Over any calls a slot that is empty for good stays so exactly when no record reaches it. -/
theorem slot_runAll_of_never (inside : id < slots.size) (empty : slots.slot id = .never)
    (calls : List SlotCall) :
    ((slots.runAll calls).slot id = .never ∧
        ∀ before record after, calls = before ++ .take record :: after →
          ∀ atom, (slots.runAll before).Reaches record atom → atom.id ≠ id) ∨
      ∃ before record after atom, calls = before ++ .take record :: after ∧
        (slots.runAll before).slot id = .never ∧ (slots.runAll before).Reaches record atom ∧
        atom.id = id ∧ (slots.runAll calls).slot id = .committed atom := by
  induction calls generalizing slots with
  | nil => exact .inl ⟨empty, fun before _ _ split => by cases before <;> cases split⟩
  | cons call rest ih =>
    rcases SlotCall.slot_run_of_never inside empty call with
      never | ⟨record, atom, rfl, reaches, here, held⟩
    · have grown := Nat.lt_of_lt_of_le inside (call.size_le_run slots)
      rcases ih grown never with ⟨still, missed⟩ | ⟨before, record, after, atom, rfl, later⟩
      · refine .inl ⟨still, fun before record after split atom reaches here => ?_⟩
        cases before with
        | nil =>
          cases split
          have held := slot_takeRecord_of_reaches reaches
          rw [here] at held
          cases held.symm.trans never
        | cons first others =>
          cases split
          exact missed others record after rfl atom reaches here
      · exact .inr ⟨call :: before, record, after, atom, rfl, later⟩
    · exact .inr ⟨[], record, rest, atom, rfl, empty, reaches, here,
        slot_runAll_of_committed held rest⟩

end Slots

namespace Log

/-- Feeding records to a table takes in a front part of them. -/
theorem feed_takeRecord (slots : Slots) (held count : Nat) (records : List Record) :
    ∃ front, front <+: records ∧ (feed Slots.takeRecord slots held count records).1 =
      slots.runAll (front.map .take) := by
  induction records generalizing slots held count with
  | nil => exact ⟨[], List.prefix_rfl, rfl⟩
  | cons record rest ih =>
    rw [feed]
    cases taken : slots.takeRecord record with
    | mk next refusal =>
      have same : next = (SlotCall.take record).run slots := (congrArg Prod.fst taken).symm
      cases refusal with
      | some refusal =>
        exact ⟨[record], (List.prefix_cons_inj record).mpr (List.nil_prefix), same⟩
      | none =>
        obtain ⟨front, part, fed⟩ := ih next (held + 1) (count + record.atoms.length)
        exact ⟨record :: front, (List.prefix_cons_inj record).mpr part, by rw [fed, same]; rfl⟩

end Log

/-- The replay of a file into any table is a run of calls that take in records of the file. -/
theorem DataFile.recover_runAll (file : DataFile) (directory : Directory) (slots : Slots)
    (repair : Bool) :
    ∃ calls, (file.recover directory slots repair).slots = slots.runAll calls ∧
      ∀ record, .take record ∈ calls → record ∈ (file.scan directory).records := by
  obtain ⟨front, part, fed⟩ := Log.feed_takeRecord slots 0 0 (file.scan directory).records
  have taken : (file.replay directory Slots.takeRecord slots).1 = slots.runAll (front.map .take) := by
    rw [← fed, replay, Log.Scan.deliver]
    obtain ⟨last, _, _, refusal⟩ := Log.feed Slots.takeRecord slots 0 0 (file.scan directory).records
    cases refusal <;> rfl
  have sources (record : Record) (member : .take record ∈ front.map SlotCall.take) :
      record ∈ (file.scan directory).records := by
    obtain ⟨_, among, same⟩ := List.mem_map.mp member
    cases same
    exact part.subset among
  have settled : (slots.runAll (front.map .take)).settle.2 =
      slots.runAll (front.map .take ++ [.call .clean]) := by
    rw [Slots.runAll, Slots.runAll, List.foldl_append]
    rfl
  have ends : (file.recover directory slots repair).slots = slots.runAll (front.map .take) ∨
      (file.recover directory slots repair).slots = (slots.runAll (front.map .take)).settle.2 := by
    rw [recover]
    split <;> rename_i found <;> rw [found] at taken <;> subst taken
    · exact .inr rfl
    · split
      · split
        · exact .inr rfl
        · exact .inl rfl
      · exact .inl rfl
    · exact .inl rfl
  rcases ends with same | same
  · exact ⟨_, same, sources⟩
  · refine ⟨_, same.trans settled, fun record member => ?_⟩
    rcases List.mem_append.mp member with taken | other
    · exact sources record taken
    · cases List.mem_singleton.mp other

namespace Index

variable {index : Index} {slots : Slots} {id : Nat}

/-- Whether an index has looked at a slot without finding an atom and does not track it. -/
structure Dropped (index : Index) (id : Nat) : Prop where
  valid : index.entries.Valid
  idle : index.entries.loading = none
  scanned : id < index.scanned
  untracked : id ∉ index.ethereal
  absent : ∀ entry ∈ index.entries.toList, entry.key.id ≠ id

/-- A refresh drops a slot that is empty for good then, and keeps out one that was dropped. -/
theorem dropped_of_moved (valid : index.entries.Valid) (idle : index.entries.loading = none)
    (absent : ∀ entry ∈ index.entries.toList, entry.key.id ≠ id) (located : slots.Located)
    (inside : id < slots.size) (moved : index.lastUcn < slots.ucn)
    (passed : slots.slot id = .never ∨ id < index.scanned ∧ id ∉ index.ethereal) :
    (index.refresh slots).Dropped id := by
  have takes := takes_withAtoms valid idle
    ((index.visited slots).filterMap fun seen => index.acceptedAtom? seen.2)
  have unseen (slot : Slot) (held : slot ≠ .never) : (id, slot) ∉ index.visited slots := by
    intro seen
    obtain ⟨place, same⟩ := mem_visited.mp seen
    rcases passed with never | ⟨scanned, untracked⟩
    · exact held (same.trans never)
    · rcases place with tracked | ⟨new, _⟩
      · exact untracked tracked
      · exact Nat.not_le.mpr scanned new
  rw [refresh, if_neg (Nat.not_le.mpr moved)]
  refine ⟨takes.valid, takes.idle, inside, fun tracked => ?_, fun entry member => ?_⟩
  · obtain ⟨⟨_, slot⟩, among, rfl⟩ := List.mem_map.mp tracked
    obtain ⟨seen, reserved⟩ := List.mem_filter.mp among
    have pending : slot = .pending := beq_iff_eq.mp reserved
    refine unseen slot ?_ seen
    rw [pending]
    exact Slot.noConfusion
  · rcases takes.absorbs.old_or_added entry member with old | new
    · exact absent entry old
    · obtain ⟨atom, added, rfl⟩ := List.mem_map.mp new
      obtain ⟨place, visited, held, _⟩ := mem_added.mp added
      have here : atom.id = place := located place atom held
      intro same
      have named : atom.id = id := same
      refine unseen (.committed atom) Slot.noConfusion (mem_visited.mpr ⟨?_, ?_⟩)
      · rw [← named, here]
        exact visited
      · rw [← held, ← here, named]

/-- An index that has dropped a slot does not come back to it when it is brought up to date. -/
theorem Dropped.refresh (dropped : index.Dropped id) (located : slots.Located)
    (inside : id < slots.size) : (index.refresh slots).Dropped id := by
  by_cases moved : index.lastUcn < slots.ucn
  · exact dropped_of_moved dropped.valid dropped.idle dropped.absent located inside moved
      (.inr ⟨dropped.scanned, dropped.untracked⟩)
  · rw [Index.refresh, if_pos (Nat.le_of_not_lt moved)]
    exact dropped

/-- An index that is up to date with a table has dropped the slots that are empty for good. -/
theorem Follows.dropped (follows : index.Follows slots) (located : slots.Located)
    (inside : id < slots.size) (empty : slots.slot id = .never)
    (moved : index.lastUcn < slots.ucn) : (index.refresh slots).Dropped id := by
  refine dropped_of_moved follows.valid follows.idle (fun entry member => ?_) located inside moved
    (.inl empty)
  obtain ⟨atom, held, _, _, rfl⟩ := (follows.mem_iff entry).mp member
  intro same
  have named : atom.id = id := same
  rw [Slots.Holds, named, empty] at held
  cases held

/-- An index that is brought up to date after each of some batches of calls. -/
def refreshAfter (index : Index) (slots : Slots) : List (List SlotCall) → Index
  | [] => index
  | calls :: rest =>
    (index.refresh (slots.runAll calls)).refreshAfter (slots.runAll calls) rest

/-- An index that has dropped a slot never comes back to it. -/
theorem Dropped.refreshAfter (dropped : index.Dropped id) (located : slots.Located)
    (inside : id < slots.size) (batches : List (List SlotCall)) :
    (index.refreshAfter slots batches).Dropped id := by
  induction batches generalizing index slots with
  | nil => exact dropped
  | cons calls rest ih =>
    have grown := Nat.lt_of_lt_of_le inside (slots.size_le_runAll calls)
    have still := Slots.located_runAll located calls
    exact ih (dropped.refresh still grown) still grown

end Index

namespace Slots

variable {slots : Slots} {id : Nat}

/-- A slot that is empty for good stays so over any calls, unless a record is taken in that reaches
it. Then it holds the atom of that record from there on. Replays are runs of such calls. An index
that has followed the table up to a commit after the slot was emptied never has an atom of that slot,
whatever is called later and however often it is brought up to date. -/
theorem never_or_taken (located : slots.Located) (inside : id < slots.size)
    (empty : slots.slot id = .never) (batches : List (List SlotCall)) :
    (((slots.runAll batches.flatten).slot id = .never ∧
        ∀ before record after, batches.flatten = before ++ .take record :: after →
          ∀ atom, (slots.runAll before).Reaches record atom → atom.id ≠ id) ∨
      ∃ before record after atom, batches.flatten = before ++ .take record :: after ∧
        (slots.runAll before).slot id = .never ∧ (slots.runAll before).Reaches record atom ∧
        atom.id = id ∧ (slots.runAll batches.flatten).slot id = .committed atom) ∧
    (∀ (file : DataFile) (directory : Directory) (repair : Bool),
      ∃ calls, (file.recover directory (slots.runAll batches.flatten) repair).slots =
          slots.runAll (batches.flatten ++ calls) ∧
        ∀ record, .take record ∈ calls → record ∈ (file.scan directory).records) ∧
    ∀ index : Index, index.Follows slots → index.lastUcn < slots.ucn →
      ∀ entry ∈ ((index.refresh slots).refreshAfter slots batches).entries.toList,
        entry.key.id ≠ id := by
  refine ⟨slot_runAll_of_never inside empty batches.flatten, fun file directory repair => ?_,
    fun index follows moved => ?_⟩
  · obtain ⟨calls, run, sources⟩ :=
      file.recover_runAll directory (slots.runAll batches.flatten) repair
    refine ⟨calls, ?_, sources⟩
    rw [run, runAll, runAll, runAll, List.foldl_append]
  · have dropped := follows.dropped located inside empty moved
    exact (dropped.refreshAfter located inside batches).absent

theorem located_empty : Slots.empty.Located := fun _ _ => nofun

/-- Slot 0 is released and slot 1 filled. -/
def emptied : List SlotCall :=
  [.reserve, .call (.forget 0), .reserve, .call (.publish [⟨1, 1, .empty, Nat.one_pos⟩])]

/-- A record with an atom for slot 0, after the commit that filled slot 1. -/
def late : Record := ⟨0, 2, [⟨0, 2, .empty, Nat.two_pos⟩]⟩

/-- The record puts its atom into the slot that was empty for good, and the index over all atoms
does not find it there. -/
theorem taken_late :
    ∃ (slots : Slots) (index : Index), slots = empty.runAll emptied ∧ slots.slot 0 = .never ∧
      index.info = .global .descending ∧
      ((slots.runAll [.take late]).atom? 0).isSome = true ∧
      (∀ entry ∈ ((index.refresh slots).refreshAfter slots [[.take late]]).entries.toList,
        entry.key.id ≠ 0) := by
  let slots := empty.runAll emptied
  let index : Index := { id := 1, info := .global .descending }
  have empty : slots.slot 0 = .never := rfl
  have moved : index.lastUcn < slots.ucn := by decide
  obtain ⟨ends, _, missed⟩ := never_or_taken (located_runAll located_empty emptied)
    (by decide : 0 < slots.size) empty [[.take late]]
  refine ⟨slots, index, rfl, empty, rfl, ?_, missed index (Index.follows_new ..) moved⟩
  rcases ends with ⟨_, missed⟩ | ⟨_, _, _, _, _, _, _, _, held⟩
  · have reaches : slots.Reaches late ⟨0, 2, .empty, Nat.two_pos⟩ :=
      ⟨Nat.le_refl 2, [], [], rfl, List.nodup_singleton 0, by simp; rfl⟩
    exact absurd rfl (missed [] late [] rfl _ reaches)
  · have filled := atom?_eq_some_iff.mpr held
    exact Option.isSome_iff_exists.mpr ⟨_, filled⟩

/-- A slot that has become empty for good can be filled later. -/
theorem not_always_never :
    ¬ ∀ (before after : List SlotCall) (id : Nat), id < (empty.runAll before).size →
        (empty.runAll before).slot id = .never →
          (empty.runAll (before ++ after)).slot id = .never := by
  intro always
  have never := always emptied [.take late] 0 (by decide) rfl
  cases never

end Slots
end AtomStore
