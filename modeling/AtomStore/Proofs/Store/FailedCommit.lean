import AtomStore.Proofs.DataFile.Growth
import AtomStore.Proofs.Store.Turns

/-!
# Failed commits

A commit that fails before its record is written gives up slots and leaves the rest of the store as it
was. The file keeps its bytes, too, unless the system fails to write the record: then what is behind
the place of the next record is cut off, pad bytes included. When every draft has the number of its
slot, these are the slots of the transaction, and the next commit that succeeds writes the record of
its own drafts at the place where the failed one would have written, and nothing else.

A draft that has been exchanged for one with another number is refused by the state, but only once
its record is in the file.
-/

namespace AtomStore

open Transaction (Course)

namespace Session

/-- What a commit that fails leaves behind in any course, whatever numbers its drafts have. -/
structure LeftBehind (session : Session) (transaction : Transaction) (course : Course)
    (report : CommitReport) (failure : CommitError) : Prop where
  announced_eq : report.announced = none
  settings_eq : report.store.settings = session.store.settings
  ucn_eq : report.store.ucn = session.store.ucn
  committed_eq : report.store.state.slots.committed = session.store.state.slots.committed
  atom?_eq : ∀ id, report.store.state.slots.atom? id = session.store.state.slots.atom? id
  /-- Before its record is written it gives up the slots of its drafts, by their numbers. -/
  emptied : (∀ refusal, failure ≠ .store refusal) →
    report.Emptied session.store (transaction.givenUp session.store)
  /-- Then the directory is as it was, or the system has failed to write the record and what is left
  of the file has the same bytes in front of the place of the next one. -/
  unwritten : (∀ refusal, failure ≠ .store refusal) →
    report.directory = session.host.directory ∨
      ∃ file fault atoms, session.store.file = some file ∧ course.fault? = some fault ∧
        failure = .durability (.io fault.failure) ∧
        transaction.kept.mapM (file.storedAtom session.host.directory
          (file.hosting session.store.settings.hostedThreshold)
            session.store.settings.hostedThreshold) = .ok atoms ∧
        report.directory = file.failNext session.host.directory
          (Log.recordBytes session.store.ucn atoms) fault ∧
        report.directory.content file.path =
          if fault.cut then (session.host.directory.content file.path).take file.stop
          else overwrite (session.host.directory.content file.path) file.stop
            ((Log.recordBytes session.store.ucn atoms).take fault.reached)
  /-- A state refuses drafts behind their record, and their slots are not given up. -/
  refused : ∀ refusal, failure = .store refusal →
    report.store.state.slots = session.store.state.slots.releaseAll transaction.dropped ∧
      report.Appended transaction session.host.directory session.store.settings session.store.ucn
        session.store.file

/-- What the next commit does that takes a UCN, in a session that a failed commit has led to: it takes
the UCN that the failed one would have taken, and writes the record of its own drafts at its place,
through whatever appends that failed have left in a shared buffer. -/
structure Resumed (session later : Session) (transaction : Transaction) (report : CommitReport)
    (committed : Committed) : Prop where
  ucn_eq : committed.ucn = some session.store.ucn
  appended : report.Appended transaction later.host.directory session.store.settings
    session.store.ucn session.store.file
  front_eq : ∀ file, session.store.file = some file →
    (later.host.directory.content file.path).take file.stop =
      (session.host.directory.content file.path).take file.stop
  buffered : ∀ file, session.store.file = some file → ∀ (buffer : Bytes) (run : List Appending),
    (∀ result ∈ (file.appendAll later.host.directory run).2.2, ∃ error, result = .error error) →
      ∃ left next places, (BufferedFile.mk file buffer).appendAll later.host.directory
          (run ++ [⟨session.store.ucn, transaction.kept,
            session.store.settings.hostedThreshold⟩]) =
          (report.directory, ⟨next, left⟩,
            (file.appendAll later.host.directory run).2.2 ++ [.ok places]) ∧
        report.store.file = some next

/-- Whether a failed commit leaves nothing behind but the empty slots of its transaction, and the next
one goes on as if it had not been tried. -/
structure Undone (session : Session) (name : Nat) (transaction : Transaction)
    (report : CommitReport) : Prop where
  own : ∀ id ∈ transaction.pending.keys, report.store.state.slots.slot id = .never
  others : ∀ id, id ∉ transaction.pending.keys →
    report.store.state.slots.slot id = session.store.state.slots.slot id
  resumed : ∀ turns later, (session.ended name report).Runs Turn.KeepsNumbers turns →
    (session.ended name report).takeAll turns = later → later.store.ucn = session.store.ucn →
      ∀ other next course again committed, later.transactions other = some next →
        next.commitUnder course later.host.directory later.store = again →
        again.outcome = .ok committed → committed.ucn ≠ none →
          session.Resumed later next again committed

variable {session : Session} {turn : Turn} {allowed : Turn → Prop}

/-- What stays the same when a UCN is not taken: the open file and the bytes in front of the place of
its next record, the settings and the UCN. -/
structure Quiet (before after : Session) : Prop where
  file_eq : after.store.file = before.store.file
  settings_eq : after.store.settings = before.store.settings
  ucn_eq : after.store.ucn = before.store.ucn
  front_eq : ∀ file, before.store.file = some file →
    (after.host.directory.content file.path).take file.stop =
      (before.host.directory.content file.path).take file.stop

theorem Quiet.refl (session : Session) : session.Quiet session :=
  ⟨rfl, rfl, rfl, fun _ _ => rfl⟩

/-- What is quiet twice is quiet. -/
theorem Quiet.trans {first second third : Session} (before : first.Quiet second)
    (after : second.Quiet third) : first.Quiet third :=
  ⟨after.file_eq.trans before.file_eq, after.settings_eq.trans before.settings_eq,
    after.ucn_eq.trans before.ucn_eq, fun file opened =>
      (after.front_eq file (before.file_eq.trans opened)).trans (before.front_eq file opened)⟩

/-- A turn in an open store that takes no UCN is quiet. -/
theorem Owned.quiet_take (owned : session.Owned) (present : session.FilePresent)
    (stays : turn.Stays) (same : (session.take turn).store.ucn = session.store.ucn) :
    session.Quiet (session.take turn) := by
  have kept : (session.take turn).store.file = session.store.file ∧
      (session.take turn).store.settings = session.store.settings := by
    obtain ⟨_, unwritten⟩ | ⟨name, transaction, course, _, open_, _, moved⟩ :=
      session.take_cases turn
    · exact ⟨(unwritten stays).file_eq, (unwritten stays).settings_eq⟩
    · rw [moved] at same ⊢
      obtain ⟨emptied, _⟩ | ⟨emptied, _⟩ | ⟨_, _, _, _, published⟩ :=
        Transaction.commitUnder_spec course session.host.directory
          (owned.numbered name transaction open_) (owned.pending name transaction open_)
      · exact ⟨emptied.file_eq, emptied.settings_eq⟩
      · exact ⟨emptied.file_eq, emptied.settings_eq⟩
      · exact absurd (published.ucn_eq.symm.trans same) (Nat.succ_ne_self _)
  refine ⟨kept.1, kept.2, same, fun file opened => ?_⟩
  obtain ⟨next, grown, _, extend⟩ := present.extends_take stays opened
  obtain rfl := Option.some.inj (grown.symm.trans (kept.1.trans opened))
  exact extend.kept

/-- Turns that use up no UCN are quiet, as long as drafts keep to their slots. -/
theorem Owned.quiet_takeAll (owned : session.Owned) (present : session.FilePresent)
    {turns : List Turn} (runs : session.Runs Turn.KeepsNumbers turns)
    (same : (session.takeAll turns).store.ucn = session.store.ucn) :
    session.Quiet (session.takeAll turns) := by
  induction turns generalizing session with
  | nil => exact .refl session
  | cons turn rest ih =>
    obtain ⟨keeps, stays, _, others⟩ := runs.cons
    -- the UCN never goes back, so it has stayed the same at every turn
    have first := (session.steps_take stays).grows.slots_later.ucn_le
    have later := ((session.take turn).steps_takeAll others.stays).grows.slots_later.ucn_le
    have still : (session.take turn).store.ucn = session.store.ucn :=
      Nat.le_antisymm (same ▸ later) first
    exact (owned.quiet_take present stays still).trans
      (ih (owned.take keeps) (present.take stays) others (same.trans still.symm))

/-- A commit that takes a UCN goes on where a quiet run has left off. -/
theorem Quiet.resumed {later : Session} (quiet : session.Quiet later) {transaction : Transaction}
    {course : Course} {report : CommitReport} {committed : Committed}
    (ended : transaction.commitUnder course later.host.directory later.store = report)
    (succeeded : report.outcome = .ok committed) (counted : committed.ucn ≠ none) :
    session.Resumed later transaction report committed := by
  subst ended
  obtain ⟨_, ⟨_, rfl, _⟩ | ⟨_, drafts, _, rfl, _, _, appended⟩⟩ :=
    Transaction.of_commitUnder_eq_ok succeeded
  · exact absurd rfl counted
  rw [quiet.settings_eq, quiet.ucn_eq, quiet.file_eq] at appended
  refine ⟨congrArg some quiet.ucn_eq, appended, quiet.front_eq, fun file opened buffer run failed => ?_⟩
  rw [opened] at appended
  obtain ⟨writable, atoms, stored, written, grown⟩ := appended
  have alone : file.append later.host.directory session.store.ucn transaction.kept
      session.store.settings.hostedThreshold =
        .ok ((transaction.commitUnder course later.host.directory later.store).directory,
          { file with stop := file.stop + (Log.recordBytes session.store.ucn atoms).length },
          Log.hostedPlaces file.stop session.store.ucn atoms) := by
    rw [DataFile.append_eq, if_neg (by rw [writable]; exact Bool.false_ne_true), stored, written]
    rfl
  let asked : Appending :=
    ⟨session.store.ucn, transaction.kept, session.store.settings.hostedThreshold⟩
  obtain ⟨left, through⟩ :=
    @BufferedFile.appendAll_of_failed file _ _ _ asked _ run alone failed buffer
  exact ⟨left, _, _, through, grown⟩

/-- What any failed commit leaves behind. -/
theorem FilePresent.leftBehind (present : session.FilePresent) {transaction : Transaction}
    {course : Course} {failure : CommitError}
    (failed : (transaction.commitUnder course session.host.directory session.store).outcome =
      .error failure) :
    session.LeftBehind transaction course
      (transaction.commitUnder course session.host.directory session.store) failure := by
  have unpublished : ∀ committed,
      (transaction.commitUnder course session.host.directory session.store).outcome =
        .ok committed → committed.ucn = none := by
    intro committed same
    rw [failed] at same
    cases same
  obtain ⟨settings, ucn, committed, atoms⟩ := Transaction.unpublished_of_outcome unpublished
  refine ⟨?_, settings, ucn, committed, atoms, fun unrefused => ?_, fun unrefused => ?_, ?_⟩
  · by_cases refused : ∃ refusal, failure = .store refusal
    · obtain ⟨refusal, rfl⟩ := refused
      exact (Transaction.of_commitUnder_eq_store failed).1
    · exact (Transaction.emptied_of_failed failed (not_exists.mp refused)).2.1
  · exact (Transaction.emptied_of_failed failed unrefused).1
  · obtain ⟨_, _, same | ⟨file, fault, stored, opened, faulty, kept, left, cause⟩⟩ :=
      Transaction.emptied_of_failed failed unrefused
    · exact .inl same
    · refine .inr ⟨file, fault, stored, opened, faulty, cause, kept, left, ?_⟩
      rw [left]
      exact (present file opened).content_failNext _ fault
  · rintro refusal rfl
    obtain ⟨_, table, _, appended⟩ := Transaction.of_commitUnder_eq_store failed
    exact ⟨table, appended⟩

/-- A failed commit undoes the whole transaction when its drafts keep to their slots. -/
theorem Owned.undone (owned : session.Owned) (filed : session.FilePresent) {name : Nat}
    {transaction : Transaction} {course : Course} {failure : CommitError}
    (present : session.transactions name = some transaction)
    (failed : (transaction.commitUnder course session.host.directory session.store).outcome =
      .error failure) :
    session.Undone name transaction
      (transaction.commitUnder course session.host.directory session.store) := by
  have pending := owned.pending name transaction present
  obtain ⟨emptied, _⟩ | ⟨_, _, _, ended⟩ | ⟨_, _, _, _, published⟩ :=
    Transaction.commitUnder_spec course session.host.directory
      (owned.numbered name transaction present) pending
  · refine ⟨fun id member => emptied.own member (pending id member),
      fun id absent => emptied.others absent, ?_⟩
    rintro turns later runs rfl same other next again report committed _ ended succeeded counted
    have first : session.take (.commit name course) = session.ended name
        (transaction.commitUnder course session.host.directory session.store) := by
      simp only [Session.take, present]
    rw [← first] at runs same ended ⊢
    have stays : (Turn.commit name course).Stays := fun _ same => by cases same
    have still : (session.take (.commit name course)).store.ucn = session.store.ucn := by
      rw [first]
      exact emptied.ucn_eq
    have numbers : (Turn.commit name course).KeepsNumbers := trivial
    have quiet := (owned.quiet_take filed stays still).trans
      ((owned.take numbers).quiet_takeAll (filed.take stays) runs (same.trans still.symm))
    exact quiet.resumed ended succeeded counted
  · rw [ended] at failed
    cases failed
  · rw [published.outcome_eq] at failed
    cases failed

/-- A commit that fails in any course leaves the atoms and counts in memory as they were, calls no
observer, and leaves the file and its directory as they were unless the system fails to write or the
state refuses a draft with another number than its slot. Where all drafts keep their numbers the state
refuses none, the slots of the transaction are empty and those of others as they were, and the next
commit that takes a UCN takes the one that the failed commit would have taken, and writes the record
of its own drafts where the failed one would have written. -/
theorem Attained.commit_failed (attained : session.Attained allowed) {name : Nat}
    {transaction : Transaction} {course : Course} {report : CommitReport} {failure : CommitError}
    (present : session.transactions name = some transaction)
    (ended : transaction.commitUnder course session.host.directory session.store = report)
    (failed : report.outcome = .error failure) :
    session.LeftBehind transaction course report failure ∧
      ((∀ turn, allowed turn → turn.KeepsNumbers) →
        (∀ refusal, failure ≠ .store refusal) ∧ session.Undone name transaction report) := by
  subst ended
  refine ⟨attained.filePresent.leftBehind failed, fun keeps => ⟨?_, ?_⟩⟩
  · rintro refusal rfl
    have owned := attained.owned keeps
    exact Transaction.commitUnder_ne_store (owned.numbered name transaction present)
      (owned.pending name transaction present) refusal failed
  · exact (attained.owned keeps).undone attained.filePresent present failed

/-- The system has no room for the record of a new atom, of which three bytes reach the file. -/
theorem commit_failed_of_full_disk :
    ∃ (session : Session) (transaction : Transaction) (report : CommitReport),
      session.Attained Turn.KeepsNumbers ∧ session.transactions 0 = some transaction ∧
      transaction.commitUnder { fault? := some ⟨.noSpace, 3, true⟩ } session.host.directory
        session.store = report ∧
      report.outcome = .error (.durability (.io .noSpace)) ∧
      session.Undone 0 transaction report := by
  obtain ⟨host, indices, path, header, sync, created, _⟩ := Store.exists_created 0
  let store : Store := ⟨{ hostedThreshold := 0 }, ⟨.empty, indices⟩,
    some ⟨path, header, 40, 40, sync, false⟩, false, false⟩
  let session := (fresh host store).takeAll [.act (.begin 0), .act (.createAtom 0)]
  have attained : session.Attained Turn.KeepsNumbers := by
    refine (Attained.created created).takeAll ⟨?_, ?_, ?_⟩
    · simp [Turn.KeepsNumbers]
    · simp [Turn.Stays]
    · exact Nat.one_lt_two_pow (by decide)
  let transaction : Transaction := ⟨1, .ofList [(0, { draft := { id := 0 } })], []⟩
  have present : session.transactions 0 = some transaction := rfl
  have failed : (transaction.commitUnder { fault? := some ⟨.noSpace, 3, true⟩ }
      session.host.directory session.store).outcome = .error (.durability (.io .noSpace)) := rfl
  exact ⟨session, transaction, _, attained, present, rfl, failed,
    ((attained.commit_failed present rfl failed).2 fun _ keeps => keeps).2⟩

/-- Two pad bytes lie behind the header of a file. A record that the system does not write takes them
along. -/
theorem padding_cut_off :
    ∃ (session : Session) (transaction : Transaction) (report : CommitReport) (file : DataFile),
      session.Attained Turn.KeepsNumbers ∧ session.transactions 0 = some transaction ∧
      transaction.commitUnder { fault? := some ⟨.noSpace, 0, true⟩ } session.host.directory
        session.store = report ∧
      report.outcome = .error (.durability (.io .noSpace)) ∧ session.store.file = some file ∧
      report.directory.content file.path ≠ session.host.directory.content file.path := by
  obtain ⟨created, file, made, path⟩ : ∃ directory file,
      DataFile.create {} "universe.db" .zero 2 .empty true = .ok (directory, file) ∧
        file.path = "universe.db" := ⟨_, _, rfl, rfl⟩
  have padded := (DataFile.whole_create made).pad 2
  obtain ⟨read, summary, opened, recovered⟩ := padded.recover_again .nothing true false false
  let directory := (file.writeNext created (List.replicate 2 Log.padByte)).1
  let kept : DataFile := { file with sync := true, readOnly := false }
  have opened : DataFile.openAt directory "universe.db" true false = .ok read := path ▸ opened
  have settled : Slots.empty.settle.2 = .empty := by
    simp [Slots.settle, Slots.empty]
  have recovered : read.recover directory .empty false =
      ⟨.empty, directory, kept, .ok summary⟩ := by
    rw [settled] at recovered
    exact recovered
  let store : Store := ⟨{}, .new 1 .descending, some kept, false, false⟩
  have used : Store.openFile ⟨directory, 1⟩ {} = (⟨directory, 2⟩, .ok store) := by
    simp only [Store.openFile, opened, Host.newState, State.new, recovered]
    rfl
  let session := (fresh ⟨directory, 2⟩ store).takeAll [.act (.begin 0), .act (.createAtom 0)]
  have attained : session.Attained Turn.KeepsNumbers := by
    refine (Attained.opened used (Nat.one_lt_two_pow (by decide))).takeAll ⟨?_, ?_, ?_⟩
    · simp [Turn.KeepsNumbers]
    · simp [Turn.Stays]
    · exact Nat.one_lt_two_pow (by decide)
  let transaction : Transaction := ⟨1, .ofList [(0, { draft := { id := 0 } })], []⟩
  have left : (transaction.commitUnder { fault? := some ⟨.noSpace, 0, true⟩ } session.host.directory
      session.store).directory = kept.failNext directory (Log.recordBytes 1 [⟨0, []⟩])
        ⟨.noSpace, 0, true⟩ := rfl
  refine ⟨session, transaction, _, kept, attained, rfl, rfl, rfl, rfl, ?_⟩
  have present : kept.Present directory := attained.filePresent kept rfl
  intro same
  rw [left, present.content_failNext, if_pos rfl] at same
  have shorter := congrArg List.length same
  rw [List.length_take] at shorter
  have longer : file.stop + 2 ≤ (directory.content file.path).length := padded.stop_le
  change min file.stop (directory.content file.path).length =
    (directory.content file.path).length at shorter
  omega

/-- The draft in the only slot of a transaction on a new file is exchanged for one with number 7. The
state refuses it when its record has been written, and its slot stays reserved. -/
theorem exchanged_draft_refused :
    ∃ (session : Session) (transaction : Transaction) (report : CommitReport) (file : DataFile),
      session.Attained (fun _ => True) ∧ session.transactions 0 = some transaction ∧
      transaction.commit session.host.directory session.store = report ∧
      report.outcome = .error (.store (.slotNotPending 7)) ∧
      session.store.file = some file ∧
      report.directory.content file.path ≠ session.host.directory.content file.path ∧
      report.store.state.slots.slot 0 = .pending := by
  obtain ⟨host, indices, path, header, sync, created, _, size⟩ := Store.exists_created 0
  let file : DataFile := ⟨path, header, 40, 40, sync, false⟩
  let store : Store := ⟨{ hostedThreshold := 0 }, ⟨.empty, indices⟩, some file, false, false⟩
  let session := (fresh host store).takeAll
    [.act (.begin 0), .act (.createAtom 0), .exchange 0 0 { id := 7 }]
  have attained : session.Attained (fun _ => True) := by
    refine (Attained.created created).takeAll ⟨fun _ _ => trivial, ?_, ?_⟩
    · simp [Turn.Stays]
    · exact Nat.one_lt_two_pow (by decide)
  let transaction : Transaction := ⟨1, .ofList [(0, { draft := { id := 7 } })], []⟩
  have present : session.transactions 0 = some transaction := rfl
  have refused : (transaction.commit session.host.directory session.store).outcome =
      .error (.store (.slotNotPending 7)) := rfl
  have opened : session.store.file = some file := rfl
  obtain ⟨_, _, _, _, atoms, _, written, _⟩ := Transaction.of_commitUnder_eq_store refused
  refine ⟨session, transaction, _, file, attained, present, rfl, refused, opened, ?_, rfl⟩
  -- a file with the record behind its header is longer
  have here := attained.filePresent file opened
  obtain ⟨_, _, longer⟩ := here.overwrite_eq (Log.recordBytes session.store.ucn atoms)
  have filled : 0 < (Log.recordBytes session.store.ucn atoms).length := by
    rw [Log.recordBytes, List.length_append]
    exact Nat.lt_add_left _ Nat.one_pos
  intro same
  change (transaction.commitUnder {} session.host.directory session.store).directory.content
    file.path = _ at same
  rw [written, here.content_write] at same
  rw [same] at longer
  change 40 + _ ≤ (host.directory.content path).length at longer
  omega

end Session
end AtomStore
