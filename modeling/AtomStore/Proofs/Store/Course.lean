import AtomStore.Proofs.DataFile.Content
import AtomStore.Proofs.Store.Commit

/-!
# The courses of a commit

How a commit goes depends on more than its transaction and its store: verifiers and the observer may
read indices, and the system may fail to write the record. In every course a commit ends in one of
six ways. Whatever numbers its drafts have, one that fails before its record is written gives up some
reserved slots and leaves the rest of the table as it was.
-/

namespace AtomStore

namespace Store

/-- Reading indices leaves the slots. -/
theorem slots_withReads (store : Store) (reads : List Nat) :
    (store.withReads reads).state.slots = store.state.slots :=
  State.slots_refreshEach ..

/-- Two readings, one after the other, are one. -/
theorem withReads_withReads (store : Store) (first second : List Nat) :
    (store.withReads first).withReads second = store.withReads (first ++ second) := by
  simp only [withReads, State.refreshEach, List.foldl_append]

end Store

/-- What a commit leaves in memory that gives up slots and publishes nothing: those of the slots that
were reserved are empty for good, and the other ones, the counts and the open file are as before. -/
structure CommitReport.Emptied (report : CommitReport) (store : Store) (ids : List Nat) : Prop where
  file_eq : report.store.file = store.file
  settings_eq : report.store.settings = store.settings
  ucn_eq : report.store.ucn = store.ucn
  committed_eq : report.store.state.slots.committed = store.state.slots.committed
  slot_eq : ∀ id, report.store.state.slots.slot id =
    if id ∈ ids ∧ store.state.slots.slot id = .pending then .never else store.state.slots.slot id

/-- Giving up slots in two steps, with readings in between, gives up all of them. -/
theorem CommitReport.emptied_of_release {report : CommitReport} {store : Store}
    {first reads second ids : List Nat} (parts : first ++ second = ids)
    (same : report.store = ((store.release first).withReads reads).release second) :
    report.Emptied store ids := by
  subst parts
  have table : report.store.state.slots =
      (store.state.slots.releaseAll first).releaseAll second := by
    rw [same, Store.release, Store.withSlots, Store.slots_withReads]
    rfl
  obtain ⟨ucn, committed, _⟩ := store.state.slots.releaseAll_counts first
  obtain ⟨ucn', committed', _⟩ := (store.state.slots.releaseAll first).releaseAll_counts second
  refine ⟨?_, ?_, ?_, ?_, fun id => ?_⟩
  · rw [same]
    rfl
  · rw [same]
    rfl
  · rw [Store.ucn, table]
    exact ucn'.trans ucn
  · rw [table]
    exact committed'.trans committed
  · rw [table, Slots.slot_releaseAll, Slots.slot_releaseAll]
    by_cases pending : store.state.slots.slot id = .pending
    · by_cases early : id ∈ first
      · simp only [pending, early, List.mem_append, true_or, and_true, ↓reduceIte, reduceCtorEq,
          and_false]
      · simp only [pending, early, List.mem_append, false_or, and_true, ↓reduceIte]
    · simp only [pending, and_false, ↓reduceIte]

/-- Which slots are given up matters, and not how they are listed. -/
theorem CommitReport.Emptied.congr {report : CommitReport} {store : Store} {ids others : List Nat}
    (emptied : report.Emptied store ids) (same : ∀ id, id ∈ others ↔ id ∈ ids) :
    report.Emptied store others := by
  refine ⟨emptied.file_eq, emptied.settings_eq, emptied.ucn_eq, emptied.committed_eq, fun id => ?_⟩
  simp only [emptied.slot_eq, same]

/-- The slots that are given up are empty when they were reserved. -/
theorem CommitReport.Emptied.own {report : CommitReport} {store : Store} {ids : List Nat}
    (emptied : report.Emptied store ids) {id : Nat} (member : id ∈ ids)
    (pending : store.state.slots.slot id = .pending) :
    report.store.state.slots.slot id = .never := by
  rw [emptied.slot_eq, if_pos ⟨member, pending⟩]

/-- Giving up slots leaves the others. -/
theorem CommitReport.Emptied.others {report : CommitReport} {store : Store} {ids : List Nat}
    (emptied : report.Emptied store ids) {id : Nat} (absent : id ∉ ids) :
    report.store.state.slots.slot id = store.state.slots.slot id := by
  rw [emptied.slot_eq, if_neg fun both => absent both.1]

/-- Giving up reserved slots leaves all atoms. -/
theorem CommitReport.Emptied.atom?_eq {report : CommitReport} {store : Store} {ids : List Nat}
    (emptied : report.Emptied store ids) (id : Nat) :
    report.store.state.slots.atom? id = store.state.slots.atom? id := by
  rw [Slots.atom?_eq, Slots.atom?_eq, emptied.slot_eq]
  split
  · rename_i given
    rw [given.2]
    rfl
  · rfl

/-- What a commit has written: the record of its kept drafts under a UCN, over whatever was at the
place of the next record. A store in memory writes nothing. -/
def CommitReport.Appended (report : CommitReport) (transaction : Transaction)
    (directory : Directory) (settings : Settings) (ucn : Nat) (file? : Option DataFile) : Prop :=
  match file? with
  | none => report.directory = directory ∧ report.store.file = none
  | some file =>
    file.readOnly = false ∧ ∃ atoms, transaction.kept.mapM (file.storedAtom directory
        (file.hosting settings.hostedThreshold) settings.hostedThreshold) = .ok atoms ∧
      report.directory = directory.write file.path
        (overwrite (directory.content file.path) file.stop (Log.recordBytes ucn atoms)) ∧
      report.store.file =
        some { file with stop := file.stop + (Log.recordBytes ucn atoms).length }

namespace Transaction

/-- The ways in which a commit can end. -/
inductive Ends (course : Course) (transaction : Transaction) (directory : Directory)
    (store : Store) : CommitReport → Prop where
  /-- The store is read-only. -/
  | refused (readOnly : store.readOnly = true) :
      Ends course transaction directory store
        ⟨directory, transaction.rollback store, [], none, .error .readOnly⟩
  /-- A verifier objects. -/
  | rejected {ran reasons : List String} {reads : List Nat} (writable : store.readOnly = false) :
      Ends course transaction directory store
        ⟨directory, ((store.release transaction.dropped).withReads reads).release
          (transaction.kept.map (·.id)), ran, none, .error (.verification reasons)⟩
  /-- No draft is kept. -/
  | empty {ran : List String} {reads : List Nat} (nothing : transaction.kept = []) :
      Ends course transaction directory store
        ⟨directory, (store.release transaction.dropped).withReads reads, ran, some [],
          .ok ⟨none, []⟩⟩
  /-- The record is not written, or not all of it. -/
  | unwritten {ran : List String} {reads : List Nat} {left : Directory} {failure : LogError}
      (writable : store.readOnly = false)
      (failed : record course directory ((store.release transaction.dropped).withReads reads)
        transaction.kept = (left, .error failure)) :
      Ends course transaction directory store
        ⟨left, ((store.release transaction.dropped).withReads reads).release
          (transaction.kept.map (·.id)), ran, none, .error (.durability failure)⟩
  /-- The record is written, but the state refuses its atoms. -/
  | unpublished {ran : List String} {reads : List Nat} {written : Directory} {recorded : Store}
      {drafts : List Draft} {refusal : StoreError}
      (wrote : record course directory ((store.release transaction.dropped).withReads reads)
        transaction.kept = (written, .ok (recorded, drafts)))
      (failed : publish recorded drafts course.observerReads = .error refusal) :
      Ends course transaction directory store
        ⟨written, recorded, ran, none, .error (.store refusal)⟩
  /-- The record is written and its atoms are published. -/
  | published {ran : List String} {reads : List Nat} {written : Directory}
      {recorded published : Store} {drafts : List Draft} {committed : Committed}
      (filled : transaction.kept ≠ [])
      (wrote : record course directory ((store.release transaction.dropped).withReads reads)
        transaction.kept = (written, .ok (recorded, drafts)))
      (done : publish recorded drafts course.observerReads = .ok (published, committed)) :
      Ends course transaction directory store
        ⟨written, published, ran, some committed.atoms, .ok committed⟩

/-- Verifiers leave the store as it was, but for indices that they have read. -/
theorem exists_withReads_of_ask (directory : Directory) (store : Store) (lists : List (List Nat))
    (verifiers : List Verifier) :
    ∃ reads, (ask directory store lists verifiers).2.1 = store.withReads reads := by
  induction verifiers generalizing store lists with
  | nil => exact ⟨[], rfl⟩
  | cons first rest ih =>
    rw [ask]
    cases first.check directory store with
    | error reasons => exact ⟨_, rfl⟩
    | ok =>
      obtain ⟨reads, left⟩ := ih (store.withReads (lists.headD [])) lists.tail
      exact ⟨_, left.trans (store.withReads_withReads _ _)⟩

/-- A commit ends in one of these ways, whatever its course. -/
theorem commitUnder_ends (course : Course) (transaction : Transaction) (directory : Directory)
    (store : Store) :
    Ends course transaction directory store (transaction.commitUnder course directory store) := by
  rw [commitUnder]
  split
  · rename_i readOnly
    exact .refused readOnly
  · rename_i writable
    have writable := eq_false_of_ne_true writable
    simp only
    obtain ⟨reads, left⟩ := exists_withReads_of_ask directory (store.release transaction.dropped)
      course.verifierReads transaction.verifiers
    cases asked : ask directory (store.release transaction.dropped) course.verifierReads
        transaction.verifiers with
    | mk ran rest =>
      obtain ⟨seen, objection⟩ := rest
      rw [asked] at left
      obtain rfl : seen = _ := left
      cases objection with
      | some reasons => exact .rejected writable
      | none =>
        simp only
        split
        · rename_i nothing
          rw [Store.withReads_withReads]
          exact .empty (List.isEmpty_iff.mp nothing)
        · rename_i filled
          cases wrote : record course directory
              ((store.release transaction.dropped).withReads reads) transaction.kept with
          | mk written outcome =>
            cases outcome with
            | error failure => exact .unwritten writable wrote
            | ok result =>
              obtain ⟨recorded, drafts⟩ := result
              simp only
              cases done : publish recorded drafts course.observerReads with
              | error refusal => exact .unpublished wrote done
              | ok result =>
                exact .published (fun none => filled (List.isEmpty_iff.mpr none)) wrote done

variable {course : Course} {transaction : Transaction} {directory : Directory} {store : Store}

/-- What a record that could not be written leaves in the directory: what was there, or what the
system has made of the file. -/
theorem record_eq_error {drafts : List Draft} {left : Directory} {failure : LogError}
    (failed : record course directory store drafts = (left, .error failure)) :
    left = directory ∨ ∃ file fault atoms, store.file = some file ∧ course.fault? = some fault ∧
      drafts.mapM (file.storedAtom directory (file.hosting store.settings.hostedThreshold)
        store.settings.hostedThreshold) = .ok atoms ∧
      left = file.failNext directory (Log.recordBytes store.ucn atoms) fault ∧
      failure = .io fault.failure := by
  rw [record] at failed
  cases present : store.file with
  | none =>
    rw [present] at failed
    cases failed
  | some file =>
    rw [present] at failed
    simp only [DataFile.appendUnder] at failed
    split at failed
    · cases failed
      exact .inl rfl
    · split at failed
      · cases failed
        exact .inl rfl
      · rename_i atoms stored
        cases faulty : course.fault? with
        | none =>
          rw [faulty] at failed
          cases failed
        | some fault =>
          rw [faulty] at failed
          cases failed
          exact .inr ⟨file, fault, atoms, rfl, rfl, stored, rfl, rfl⟩

/-- A record is written by appending it, unless the store is in memory, and what it changes in the
store is the open file. -/
theorem record_eq_ok {drafts pointing : List Draft} {written : Directory} {recorded : Store}
    (wrote : record course directory store drafts = (written, .ok (recorded, pointing))) :
    pointing.map (·.id) = drafts.map (·.id) ∧
      ((store.file = none ∧ written = directory ∧ recorded = store) ∨
        ∃ file next places, store.file = some file ∧
          file.append directory store.ucn drafts store.settings.hostedThreshold =
            .ok (written, next, places) ∧
          recorded = { store with file := some next } ∧
          pointing = course.pointing.apply places drafts) := by
  rw [record] at wrote
  cases present : store.file with
  | none =>
    rw [present] at wrote
    cases wrote
    exact ⟨rfl, .inl ⟨rfl, rfl, rfl⟩⟩
  | some file =>
    rw [present] at wrote
    cases faulty : course.fault? with
    | some fault =>
      simp only [DataFile.appendUnder, faulty] at wrote
      split at wrote
      · cases wrote
      · split at wrote <;> cases wrote
    | none =>
      simp only [faulty] at wrote
      cases appended : file.appendUnder none directory store.ucn drafts
          store.settings.hostedThreshold with
      | mk made outcome =>
        rw [appended] at wrote
        cases outcome with
        | error failure => cases wrote
        | ok result =>
          obtain ⟨next, places⟩ := result
          cases wrote
          refine ⟨course.pointing.ids_eq places drafts, .inr ⟨file, next, places, rfl, ?_, rfl, rfl⟩⟩
          rw [DataFile.append, appended]
          rfl

/-- Recording leaves the state and the settings of a store alone. -/
theorem state_of_record {drafts pointing : List Draft} {written : Directory} {recorded : Store}
    (wrote : record course directory store drafts = (written, .ok (recorded, pointing))) :
    recorded.state = store.state ∧ recorded.settings = store.settings := by
  obtain ⟨_, ⟨_, _, rfl⟩ | ⟨_, _, _, _, _, rfl, _⟩⟩ := record_eq_ok wrote <;> exact ⟨rfl, rfl⟩

/-- What a commit has done once its record is written: it has given up the slots of the drafts that
it drops, and appended the record of those that it keeps. -/
theorem recorded_spec {reads : List Nat} {written : Directory} {recorded : Store}
    {drafts : List Draft}
    (wrote : record course directory ((store.release transaction.dropped).withReads reads)
      transaction.kept = (written, .ok (recorded, drafts))) :
    drafts.map (·.id) = transaction.kept.map (·.id) ∧
      recorded.state.slots = store.state.slots.releaseAll transaction.dropped ∧
      recorded.ucn = store.ucn ∧ recorded.settings = store.settings ∧
      ∀ report : CommitReport, report.directory = written → report.store.file = recorded.file →
        report.Appended transaction directory store.settings store.ucn store.file := by
  let seen := (store.release transaction.dropped).withReads reads
  obtain ⟨ids, appended⟩ := record_eq_ok wrote
  obtain ⟨state, settings⟩ := state_of_record wrote
  have table : recorded.state.slots = store.state.slots.releaseAll transaction.dropped := by
    rw [state, Store.slots_withReads]
    rfl
  have counted : recorded.ucn = store.ucn := by
    rw [Store.ucn, table]
    exact (store.state.slots.releaseAll_counts transaction.dropped).1
  have before : seen.ucn = store.ucn := by
    rw [← counted, Store.ucn, Store.ucn, state]
  refine ⟨ids, table, counted, settings, ?_⟩
  rintro report rfl file
  obtain ⟨absent, same, rfl⟩ | ⟨found, next, places, opened, grown, rfl, _⟩ := appended
  · have memory : store.file = none := absent
    rw [memory]
    exact ⟨same, file.trans absent⟩
  · have opened : store.file = some found := opened
    obtain ⟨stored, encoded, moved, _⟩ := DataFile.append_eq_ok grown
    obtain ⟨same, rfl⟩ := Prod.ext_iff.mp moved
    rw [opened, ← before]
    exact ⟨DataFile.readOnly_of_append grown, stored, encoded, same.symm, file⟩

/-- The slots that a commit gives up when it fails before its record is written. -/
def givenUp (transaction : Transaction) (store : Store) : List Nat :=
  if store.readOnly then transaction.pending.keys
  else transaction.dropped ++ transaction.kept.map (·.id)

/-- A commit that fails before its record is written gives up slots, calls no observer, and leaves
the directory as it was unless the system has failed to write. -/
theorem emptied_of_failed {failure : CommitError}
    (failed : (transaction.commitUnder course directory store).outcome = .error failure)
    (unpublished : ∀ refusal, failure ≠ .store refusal) :
    (transaction.commitUnder course directory store).Emptied store (transaction.givenUp store) ∧
      (transaction.commitUnder course directory store).announced = none ∧
      ((transaction.commitUnder course directory store).directory = directory ∨
        ∃ file fault atoms, store.file = some file ∧ course.fault? = some fault ∧
          transaction.kept.mapM (file.storedAtom directory
            (file.hosting store.settings.hostedThreshold) store.settings.hostedThreshold) =
              .ok atoms ∧
          (transaction.commitUnder course directory store).directory =
            file.failNext directory (Log.recordBytes store.ucn atoms) fault ∧
          failure = .durability (.io fault.failure)) := by
  have ends := commitUnder_ends course transaction directory store
  generalize transaction.commitUnder course directory store = report at ends failed ⊢
  cases ends with
  | refused readOnly =>
    refine ⟨?_, rfl, .inl rfl⟩
    rw [givenUp, if_pos readOnly]
    exact CommitReport.emptied_of_release (List.append_nil _) (Eq.refl (((store.release
      transaction.pending.keys).withReads []).release []))
  | rejected writable =>
    refine ⟨?_, rfl, .inl rfl⟩
    rw [givenUp, if_neg (by rw [writable]; exact Bool.false_ne_true)]
    exact CommitReport.emptied_of_release rfl rfl
  | empty => cases failed
  | @unwritten ran reads left cause writable unrecorded =>
    refine ⟨?_, rfl, ?_⟩
    · rw [givenUp, if_neg (by rw [writable]; exact Bool.false_ne_true)]
      exact CommitReport.emptied_of_release rfl rfl
    · have counted : ((store.release transaction.dropped).withReads reads).ucn = store.ucn := by
        rw [Store.ucn, Store.slots_withReads]
        exact (store.state.slots.releaseAll_counts transaction.dropped).1
      cases failed
      refine (record_eq_error unrecorded).imp_right ?_
      rintro ⟨file, fault, atoms, opened, faulty, stored, rfl, rfl⟩
      exact ⟨file, fault, atoms, opened, faulty, stored, by rw [counted], rfl⟩
  | unpublished => cases failed; exact absurd rfl (unpublished _)
  | published => cases failed

/-- A commit that succeeds has nothing to publish, or its record is appended and the atoms of its
drafts, with the numbers they have, are published in what it has left of the table. -/
theorem of_commitUnder_eq_ok {committed : Committed}
    (done : (transaction.commitUnder course directory store).outcome = .ok committed) :
    (transaction.commitUnder course directory store).announced = some committed.atoms ∧
      ((transaction.kept = [] ∧ committed = ⟨none, []⟩ ∧
          (transaction.commitUnder course directory store).Emptied store transaction.dropped ∧
          (transaction.commitUnder course directory store).directory = directory) ∨
        transaction.kept ≠ [] ∧ ∃ drafts, drafts.map (·.id) = transaction.kept.map (·.id) ∧
          committed = ⟨some store.ucn, store.sealedAtoms drafts⟩ ∧
          (store.state.slots.releaseAll transaction.dropped).publish (store.sealedAtoms drafts) =
            .ok (transaction.commitUnder course directory store).store.state.slots ∧
          (transaction.commitUnder course directory store).store.settings = store.settings ∧
          (transaction.commitUnder course directory store).Appended transaction directory
            store.settings store.ucn store.file) := by
  have ends := commitUnder_ends course transaction directory store
  generalize transaction.commitUnder course directory store = report at ends done ⊢
  cases ends with
  | refused => cases done
  | rejected => cases done
  | empty nothing =>
    cases done
    refine ⟨rfl, .inl ⟨nothing, rfl, ?_, rfl⟩⟩
    exact CommitReport.emptied_of_release (List.append_nil _) rfl
  | unwritten => cases done
  | unpublished => cases done
  | @published ran reads written recorded published drafts committed filled wrote ended =>
    cases done
    obtain ⟨ids, table, counted, kept, appended⟩ := recorded_spec wrote
    obtain ⟨rfl, file, settings, taken⟩ := publish_of_publish ended
    rw [table, Store.sealedAtoms_congr counted drafts] at taken
    refine ⟨rfl, .inr ⟨filled, drafts, ids, ?_, taken, settings.trans kept, ?_⟩⟩
    · rw [counted, Store.sealedAtoms_congr counted drafts]
    · exact appended _ rfl file

/-- A commit whose drafts the state refuses has written its record, has given up the slots of the
drafts that it drops and no others, and publishes nothing. -/
theorem of_commitUnder_eq_store {refusal : StoreError}
    (failed : (transaction.commitUnder course directory store).outcome =
      .error (.store refusal)) :
    (transaction.commitUnder course directory store).announced = none ∧
      (transaction.commitUnder course directory store).store.state.slots =
        store.state.slots.releaseAll transaction.dropped ∧
      (transaction.commitUnder course directory store).store.settings = store.settings ∧
      (transaction.commitUnder course directory store).Appended transaction directory
        store.settings store.ucn store.file := by
  have ends := commitUnder_ends course transaction directory store
  generalize transaction.commitUnder course directory store = report at ends failed ⊢
  cases ends with
  | refused => cases failed
  | rejected => cases failed
  | empty => cases failed
  | unwritten => cases failed
  | unpublished wrote =>
    obtain ⟨_, table, _, settings, appended⟩ := recorded_spec wrote
    exact ⟨rfl, table, settings, appended _ rfl rfl⟩
  | published => cases failed

/-- A commit gives up slots and leaves the open file and its directory as they were, but for what the
system has failed to write, or it has appended its record. -/
theorem emptied_or_appended (course : Course) (transaction : Transaction) (directory : Directory)
    (store : Store) :
    (∃ ids, (transaction.commitUnder course directory store).Emptied store ids ∧
        ((transaction.commitUnder course directory store).directory = directory ∨
          ∃ file fault bytes, store.file = some file ∧
            (transaction.commitUnder course directory store).directory =
              file.failNext directory bytes fault)) ∨
      (transaction.commitUnder course directory store).Appended transaction directory
        store.settings store.ucn store.file := by
  cases outcome : (transaction.commitUnder course directory store).outcome with
  | ok committed =>
    obtain ⟨_, ⟨_, _, emptied, same⟩ | ⟨_, _, _, _, _, _, appended⟩⟩ := of_commitUnder_eq_ok outcome
    · exact .inl ⟨_, emptied, .inl same⟩
    · exact .inr appended
  | error failure =>
    by_cases refused : ∃ refusal, failure = .store refusal
    · obtain ⟨refusal, rfl⟩ := refused
      obtain ⟨_, _, _, appended⟩ := of_commitUnder_eq_store outcome
      exact .inr appended
    · obtain ⟨emptied, _, same | ⟨file, fault, atoms, opened, _, _, left, _⟩⟩ :=
        emptied_of_failed outcome (not_exists.mp refused)
      · exact .inl ⟨_, emptied, .inl same⟩
      · exact .inl ⟨_, emptied, .inr ⟨file, fault, _, opened, left⟩⟩

/-- A commit that publishes nothing leaves the atoms, the counts and the settings of the store as
they were. -/
theorem unpublished_of_outcome
    (unpublished : ∀ committed, (transaction.commitUnder course directory store).outcome =
      .ok committed → committed.ucn = none) :
    (transaction.commitUnder course directory store).store.settings = store.settings ∧
      (transaction.commitUnder course directory store).store.ucn = store.ucn ∧
      (transaction.commitUnder course directory store).store.state.slots.committed =
        store.state.slots.committed ∧
      ∀ id, (transaction.commitUnder course directory store).store.state.slots.atom? id =
        store.state.slots.atom? id := by
  cases outcome : (transaction.commitUnder course directory store).outcome with
  | ok committed =>
    obtain ⟨_, ⟨_, _, emptied, _⟩ | ⟨_, drafts, _, rfl, _⟩⟩ := of_commitUnder_eq_ok outcome
    · exact ⟨emptied.settings_eq, emptied.ucn_eq, emptied.committed_eq, emptied.atom?_eq⟩
    · cases unpublished _ outcome
  | error failure =>
    by_cases refused : ∃ refusal, failure = .store refusal
    · obtain ⟨refusal, rfl⟩ := refused
      obtain ⟨_, table, settings, _⟩ := of_commitUnder_eq_store outcome
      obtain ⟨ucn, committed, _⟩ := store.state.slots.releaseAll_counts transaction.dropped
      refine ⟨settings, ?_, ?_, fun id => ?_⟩
      · rw [Store.ucn, table]
        exact ucn
      · rw [table]
        exact committed
      · rw [table]
        exact Slots.atom?_releaseAll _ _ id
    · obtain ⟨emptied, _⟩ := emptied_of_failed outcome (not_exists.mp refused)
      exact ⟨emptied.settings_eq, emptied.ucn_eq, emptied.committed_eq, emptied.atom?_eq⟩

/-- When each draft has the number of its slot and these are reserved, the slots that a failed commit
gives up are those of its transaction. -/
theorem mem_givenUp_iff (numbered : transaction.Numbered) (store : Store) (id : Nat) :
    id ∈ transaction.givenUp store ↔ id ∈ transaction.pending.keys := by
  rw [givenUp]
  split
  · exact Iff.rfl
  · rw [List.mem_append, mem_keys_iff_dropped_or_kept numbered]

/-- A state refuses no draft that has the number of its reserved slot. -/
theorem commitUnder_ne_store (numbered : transaction.Numbered)
    (pending : ∀ id ∈ transaction.pending.keys, store.state.slots.slot id = .pending)
    (refusal : StoreError) :
    (transaction.commitUnder course directory store).outcome ≠ .error (.store refusal) := by
  intro failed
  have parts := transaction.mem_keys_iff_dropped_or_kept numbered
  have ends := commitUnder_ends course transaction directory store
  generalize transaction.commitUnder course directory store = report at ends failed
  cases ends with
  | refused => cases failed
  | rejected => cases failed
  | empty => cases failed
  | unwritten => cases failed
  | @unpublished ran reads written recorded drafts cause wrote refused =>
    obtain ⟨ids, table, _⟩ := recorded_spec wrote
    obtain ⟨_, done, _⟩ := publish_released drafts course.observerReads table
      (by rw [ids]; exact nodup_kept numbered)
      (fun id member => pending id ((parts id).mpr (.inl member)))
      (fun id member => pending id ((parts id).mpr (.inr (ids ▸ member))))
      (fun id member => not_mem_dropped_of_kept numbered (ids ▸ member))
    rw [done] at refused
    cases refused
  | published => cases failed

/-- How a commit ends whose drafts have the numbers of their reserved slots. -/
theorem commitUnder_spec (course : Course) (directory : Directory)
    (numbered : transaction.Numbered)
    (pending : ∀ id ∈ transaction.pending.keys, store.state.slots.slot id = .pending) :
    ((transaction.commitUnder course directory store).Emptied store transaction.pending.keys ∧
        (transaction.commitUnder course directory store).announced = none ∧
        ∃ failure, (transaction.commitUnder course directory store).outcome = .error failure ∧
          ∀ refusal, failure ≠ .store refusal) ∨
      ((transaction.commitUnder course directory store).Emptied store transaction.pending.keys ∧
        transaction.kept = [] ∧
        (transaction.commitUnder course directory store).directory = directory ∧
        (transaction.commitUnder course directory store).outcome = .ok ⟨none, []⟩) ∨
      ∃ drafts, drafts.map (·.id) = transaction.kept.map (·.id) ∧ transaction.kept ≠ [] ∧
        (transaction.commitUnder course directory store).Appended transaction directory
          store.settings store.ucn store.file ∧
        (transaction.commitUnder course directory store).Published store transaction.dropped
          drafts := by
  have parts := transaction.mem_keys_iff_dropped_or_kept numbered
  cases outcome : (transaction.commitUnder course directory store).outcome with
  | error failure =>
    have notStore : ∀ refusal, failure ≠ .store refusal := by
      rintro refusal rfl
      exact commitUnder_ne_store numbered pending refusal outcome
    obtain ⟨emptied, silent, _⟩ := emptied_of_failed outcome notStore
    refine .inl ⟨emptied.congr fun id => ?_, silent, failure, rfl, notStore⟩
    exact (mem_givenUp_iff numbered store id).symm
  | ok committed =>
    obtain ⟨announced, ⟨nothing, rfl, emptied, same⟩ | ⟨filled, drafts, ids, rfl, taken, settings,
      appended⟩⟩ := of_commitUnder_eq_ok outcome
    · refine .inr (.inl ⟨emptied.congr fun id => ?_, nothing, same, rfl⟩)
      rw [parts, nothing]
      exact or_iff_left List.not_mem_nil
    -- publishing the same drafts in the released store gives the same table
    let released := store.release transaction.dropped
    have table : released.state.slots = store.state.slots.releaseAll transaction.dropped := rfl
    have counted : released.ucn = store.ucn :=
      (store.state.slots.releaseAll_counts transaction.dropped).1
    obtain ⟨published, ended, _, _, ucn, committed, slot⟩ := publish_released drafts [] table
      (by rw [ids]; exact nodup_kept numbered)
      (fun id member => pending id ((parts id).mpr (.inl member)))
      (fun id member => pending id ((parts id).mpr (.inr (ids ▸ member))))
      (fun id member => not_mem_dropped_of_kept numbered (ids ▸ member))
    have same : published.state.slots =
        (transaction.commitUnder course directory store).store.state.slots := by
      obtain ⟨_, _, _, here⟩ := publish_of_publish ended
      rw [Store.sealedAtoms_congr counted] at here
      exact Except.ok.inj (here.symm.trans taken)
    refine .inr (.inr ⟨drafts, ids, filled, appended, outcome, announced, settings, ?_, ?_, ?_⟩)
    · rw [Store.ucn, ← same]
      exact ucn
    · rw [← same]
      exact committed
    · rw [← same]
      exact slot

/-- In every course a commit of drafts with the numbers of their reserved slots leaves the slots of
others as they are. -/
theorem slot_commitUnder_of_not_mem (numbered : transaction.Numbered)
    (pending : ∀ id ∈ transaction.pending.keys, store.state.slots.slot id = .pending) {id : Nat}
    (absent : id ∉ transaction.pending.keys) :
    (transaction.commitUnder course directory store).store.state.slots.slot id =
      store.state.slots.slot id := by
  have parts := transaction.mem_keys_iff_dropped_or_kept numbered id
  obtain ⟨emptied, _⟩ | ⟨emptied, _⟩ | ⟨drafts, ids, _, _, published⟩ :=
    commitUnder_spec course directory numbered pending
  · exact emptied.others absent
  · exact emptied.others absent
  · have unpublished : atomFor? (store.sealedAtoms drafts) id = none := by
      rw [← Option.isNone_iff_eq_none, ← Option.not_isSome, Bool.not_eq_true', ← Bool.not_eq_true,
        isSome_atomFor?, Store.map_id_sealedAtoms, ids]
      exact fun member => absent (parts.mpr (.inr member))
    rw [published.slot_eq, if_neg fun gone => absent (parts.mpr (.inl gone)), unpublished]
    rfl

/-- In every course a commit of drafts with the numbers of their reserved slots decides what these
slots hold. -/
theorem slot_commitUnder_ne_pending (numbered : transaction.Numbered)
    (pending : ∀ id ∈ transaction.pending.keys, store.state.slots.slot id = .pending) {id : Nat}
    (member : id ∈ transaction.pending.keys) :
    (transaction.commitUnder course directory store).store.state.slots.slot id ≠ .pending := by
  obtain ⟨emptied, _⟩ | ⟨emptied, _⟩ | ⟨drafts, ids, _, _, published⟩ :=
    commitUnder_spec course directory numbered pending
  · rw [emptied.own member (pending id member)]
    exact nofun
  · rw [emptied.own member (pending id member)]
    exact nofun
  · rw [published.slot_eq]
    split
    · exact nofun
    · rename_i goes
      have kept := ((mem_keys_iff_dropped_or_kept numbered id).mp member).resolve_left goes
      rw [← ids, ← store.map_id_sealedAtoms, ← isSome_atomFor?] at kept
      obtain ⟨atom, found⟩ := Option.isSome_iff_exists.mp kept
      rw [found]
      exact nofun

end Transaction
end AtomStore
