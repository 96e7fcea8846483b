import AtomStore.Proofs.Store.Backed

/-!
# Commits that cannot be read back

Values of any length can be committed, but a data file with one that is too long does not open any
more. Opening it fails at the record of that commit and names the length of its first value that is
too long, and later commits are written behind this record and do not change that. A session on a
data file commits as if nothing had happened; whether the file opens depends on its longest value.
-/

namespace AtomStore

open Log (Header Record Spans StoredRecord)

namespace DataFile

/-- Whether an open file holds a record with a value that is too long, of some length, behind a
front part that is read. -/
structure Spoiled (file : DataFile) (directory : Directory) (front : Bytes) (record : StoredRecord)
    (length : Nat) : Prop where
  held : ∃ rest, directory.file? file.path = some (front ++ record.bytes ++ rest) ∧
    file.stop ≤ (front ++ record.bytes ++ rest).length
  stop_le : (front ++ record.bytes).length ≤ file.stop
  decoded : Header.decode front = .ok (file.header, file.headerLength)
  recovered : ∃ records taken, Spans file.header.version file.headerLength
    (front.drop file.headerLength) records front.length [] ∧ Recovered taken records
  sized : record.Sized file.header.version
  long : Log.tooLong? record.lengths = some length

variable {file : DataFile} {directory : Directory} {front : Bytes} {record : StoredRecord}
  {records : List Record} {ends length : Nat}

/-- A file whose scan ends with a failure, and not at a record cut short, does not open. -/
theorem openFile_of_damaged {host : Host} {front rest : Bytes} {taken : Slots} {error : LogError}
    (found : host.directory.file? file.path = some (front ++ rest))
    (decoded : Header.decode front = .ok (file.header, file.headerLength))
    (recovered : Recovered taken records)
    (scanned : Log.scan file.header.version file.headerLength
      (front.drop file.headerLength ++ rest) = ⟨records, .error error⟩)
    (uncut : ∀ offset, error ≠ .truncated offset) (settings : Settings) :
    ∃ after, Store.openFile host { settings with path := file.path } =
        (after, .error (.dataFile error)) ∧ after.directory = host.directory := by
  obtain ⟨decoded, short⟩ := Header.decode_grow decoded rest
  let fresh : DataFile := { file with
    stop := (front ++ rest).length
    sync := settings.sync
    readOnly := settings.readOnly }
  have opened : openAt host.directory file.path settings.sync settings.readOnly = .ok fresh :=
    openAt_of_file? found decoded _ _
  have met : fresh.scan host.directory = ⟨records, .error error⟩ := by
    have plain : Log.scan file.header.version file.headerLength
        ((host.directory.content file.path).drop file.headerLength) =
          ⟨records, .error error⟩ := by
      rw [Directory.content_of_file? found, List.drop_append_of_le_length short]
      exact scanned
    rw [scan]
    simp only [fresh, plain]
    split
    · rename_i offset cut
      exact absurd (Except.error.inj cut) (uncut offset)
    · rfl
  have failed : fresh.recover host.directory .empty settings.repairTornTail = _ :=
    recover_of_error (replay_eq_of_recovered recovered met) (.inl uncut)
  exact Store.openFile_eq_error opened failed

/-- A file is spoiled by the record of a value that is too long. -/
theorem Whole.spoiled (whole : file.Whole directory records ends) {taken : Slots}
    (recovered : Recovered taken records) (sized : record.Sized file.header.version)
    (long : Log.tooLong? record.lengths = some length) :
    ∃ front, front.length = file.stop ∧
      (file.writeNext directory record.bytes).2.Spoiled
        (file.writeNext directory record.bytes).1 front record length := by
  obtain ⟨front, _, _, found, size, _, decoded, spans⟩ :=
    whole.content_writeNext record.bytes
  rw [← List.append_assoc] at found
  have stop : (file.writeNext directory record.bytes).2.stop = (front ++ record.bytes).length := by
    rw [List.length_append, size]
    rfl
  refine ⟨front, size, ⟨⟨_, found, ?_⟩, Nat.le_of_eq stop.symm, decoded, ⟨records, taken, ?_,
    recovered⟩, sized, long⟩⟩
  · rw [stop]
    exact (List.prefix_append ..).length_le
  · rw [size]
    exact spans

namespace Spoiled

/-- Whatever is written next leaves the file spoiled. -/
theorem writeNext (spoiled : file.Spoiled directory front record length) (bytes : Bytes) :
    (file.writeNext directory bytes).2.Spoiled (file.writeNext directory bytes).1 front record
      length := by
  obtain ⟨rest, found, inside⟩ := spoiled.held
  obtain ⟨name, leads⟩ := Directory.place_of_file? found
  obtain ⟨more, written, longer⟩ := overwrite_behind _ rest bytes spoiled.stop_le inside
  refine ⟨⟨more, ?_, longer⟩, Nat.le_trans spoiled.stop_le (Nat.le_add_right ..), spoiled.decoded,
    spoiled.recovered, spoiled.sized, spoiled.long⟩
  rw [← written, ← Directory.content_of_file? found]
  exact Directory.file?_write _ leads

/-- A spoiled file does not open, whether it may be repaired or not. -/
theorem openFile_eq {host : Host} (spoiled : file.Spoiled host.directory front record length)
    (settings : Settings) :
    ∃ after, Store.openFile host { settings with path := file.path } =
        (after, .error (.dataFile (.corrupt front.length (.valueTooLong length)))) ∧
      after.directory = host.directory := by
  obtain ⟨rest, found, _⟩ := spoiled.held
  obtain ⟨records, taken, spans, recovered⟩ := spoiled.recovered
  rw [List.append_assoc] at found
  exact openFile_of_damaged found spoiled.decoded recovered
    (spans.scanFrom_long spoiled.sized spoiled.long _ _) (fun _ same => by cases same) settings

end Spoiled
end DataFile

/-- A write puts bytes at the place of the next record. -/
theorem Transaction.writeNext_of_write {directory written : Directory} {store recorded : Store}
    {drafts pointing : List Draft} {file : DataFile} (present : store.file = some file)
    (wrote : write directory store drafts = .ok (written, recorded, pointing)) :
    ∃ bytes next, file.writeNext directory bytes = (written, next) ∧
      recorded.file = some next := by
  obtain ⟨absent, _⟩ | ⟨found, next, places, opened, appended, rfl, rfl⟩ := write_eq_ok wrote
  · rw [present] at absent
    cases absent
  · obtain rfl := Option.some.inj (present.symm.trans opened)
    obtain ⟨atoms, _, moved, _⟩ := DataFile.append_eq_ok appended
    exact ⟨_, next, moved, rfl⟩

/-- The length of the first of the values to be committed that is too long to be read back. -/
def Transaction.tooLong? (transaction : Transaction) : Option Nat :=
  Log.tooLong? (transaction.kept.flatMap Draft.extents)

namespace Session

/-- Whether the UCN, the numbers of slots and the lengths of values have 64 bits in what an action
commits. -/
def Counts (session : Session) (action : Action) : Prop :=
  ∀ name transaction committed, action = .commit name →
    session.transactions name = some transaction →
    (transaction.commit session.host.directory session.store).outcome = .ok committed →
      session.store.ucn < 2 ^ 64 - 1 ∧ ∀ draft ∈ transaction.kept, draft.Sized

theorem Fits.counts {session : Session} {action : Action} (fits : session.Fits action) :
    session.Counts action := by
  intro name transaction committed same present succeeded
  obtain ⟨counted, fitting⟩ := fits name transaction committed same present succeeded
  exact ⟨counted, fun draft member => (fitting draft member).sized⟩

/-- Sessions on data files that commit values of any length. -/
abbrev Served (session : Session) : Prop := OnFile Counts session

/-- Whether the data file of a session is spoiled. -/
structure Spoiled (session : Session) (file : DataFile) (front : Bytes) (record : StoredRecord)
    (length : Nat) : Prop where
  file_eq : session.store.file = some file
  spoiled : file.Spoiled session.host.directory front record length

variable {session : Session} {file : DataFile} {records : List Record} {front : Bytes}
  {record : StoredRecord} {ends length : Nat} {taken : Slots}

/-- Nothing that is done in a session mends its file. -/
theorem Spoiled.step (ruined : session.Spoiled file front record length) (owned : session.Owned)
    (action : Action) : ∃ next, (session.step action).Spoiled next front record length := by
  by_cases closing : ∃ settings, action = .reopen settings
  · obtain ⟨settings, rfl⟩ := closing
    obtain ⟨after, failed, _⟩ := ruined.spoiled.openFile_eq settings
    have same : session.step (.reopen settings) = session := by
      simp only [Session.step, ruined.file_eq, failed]
    rw [same]
    exact ⟨file, ruined⟩
  · rcases owned.step_cases (not_exists.mp closing) with unwritten | ⟨name, transaction, written,
      recorded, drafts, rfl, present, wrote, directory, kept, _⟩
    · refine ⟨file, unwritten.file_eq.trans ruined.file_eq, ?_⟩
      rw [unwritten.directory_eq]
      exact ruined.spoiled
    · have opened : (session.store.release transaction.dropped).file = some file := ruined.file_eq
      obtain ⟨bytes, next, moved, here⟩ := Transaction.writeNext_of_write opened wrote
      have spoiled := ruined.spoiled.writeNext bytes
      rw [moved, ← directory] at spoiled
      exact ⟨next, kept.trans here, spoiled⟩

/-- A commit with a value that is too long succeeds like any other, and spoils the file. -/
theorem Backed.spoiled (backed : session.Backed file records ends taken) (owned : session.Owned)
    {name : Nat} {transaction : Transaction} {committed : Committed}
    (present : session.transactions name = some transaction)
    (succeeded : (transaction.commit session.host.directory session.store).outcome =
      .ok committed)
    (counted : session.store.ucn < 2 ^ 64) (sized : ∀ draft ∈ transaction.kept, draft.Sized)
    (long : transaction.tooLong? = some length) :
    ∃ next front record, (session.step (.commit name)).Spoiled next front record length ∧
      front.length = file.stop ∧ next.path = file.path := by
  rw [Transaction.tooLong?] at long
  obtain ⟨empty, _⟩ | ⟨written, recorded, drafts, wrote, directory, kept, _⟩ :=
    owned.commit_succeeded present succeeded
  · rw [empty] at long
    cases long
  obtain ⟨next, record, moved, here, _, counts, lengths, _⟩ :=
    transaction.record_of_write (owned.numbered name transaction present) backed.file_eq wrote
      counted sized
  rw [lengths] at long
  obtain ⟨front, place, spoiled⟩ := backed.whole.spoiled backed.recovered counts long
  have path : (file.writeNext session.host.directory record.bytes).2.path = file.path := rfl
  have grown : file.writeNext session.host.directory record.bytes =
      ((session.step (.commit name)).host.directory, next) := by
    rw [directory]
    exact moved
  rw [grown] at spoiled path
  exact ⟨next, front, record, ⟨kept.trans here, spoiled⟩, place, path⟩

/-- What an action commits can be read back, or some value is too long. -/
theorem Counts.fits_or_long {action : Action} (counts : session.Counts action) :
    session.Fits action ∨ ∃ name transaction committed length, action = .commit name ∧
      session.transactions name = some transaction ∧
      (transaction.commit session.host.directory session.store).outcome = .ok committed ∧
      transaction.tooLong? = some length := by
  refine or_iff_not_imp_right.mpr fun short name transaction committed same present succeeded => ?_
  obtain ⟨counted, sized⟩ := counts name transaction committed same present succeeded
  refine ⟨counted, (tooLong?_extents sized).mp ?_⟩
  cases long : Log.tooLong? (transaction.kept.flatMap Draft.extents) with
  | none => rfl
  | some length =>
    exact absurd ⟨name, transaction, committed, length, same, present, succeeded, long⟩ short

/-- At every point of a session on a data file, the file backs the store, or it is spoiled. -/
theorem Served.backed_or_spoiled (served : session.Served) :
    (∃ file records ends taken, session.Backed file records ends taken) ∨
      ∃ file front record length, session.Spoiled file front record length := by
  induction served with
  | created created =>
    obtain ⟨file, backed⟩ := backed_created created
    exact .inl ⟨file, [], file.stop, .empty, backed⟩
  | opened opened => exact .inl (backed_opened opened)
  | @step session before action counts ih =>
    have owned := before.reachable.owned
    rcases ih with ⟨file, records, ends, taken, backed⟩ | ⟨file, front, record, length, ruined⟩
    · rcases counts.fits_or_long with fits | ⟨name, transaction, committed, length, rfl, present,
        succeeded, long⟩
      · exact .inl (backed.step owned fits)
      · obtain ⟨counted, sized⟩ := counts name transaction committed rfl present succeeded
        obtain ⟨next, front, record, ruined, _⟩ :=
          backed.spoiled owned present succeeded (by omega) sized long
        exact .inr ⟨next, front, record, length, ruined⟩
    · obtain ⟨next, ruined⟩ := ruined.step owned action
      exact .inr ⟨next, front, record, length, ruined⟩

theorem Filed.served (filed : session.Filed) : session.Served := filed.mono fun _ _ => Fits.counts

/-- A file that backs a store still opens after a commit of values that are not too long, and the
atoms of the commit are there. -/
theorem Backed.openFile_of_commit (backed : session.Backed file records ends taken)
    (owned : session.Owned) {name : Nat} {transaction : Transaction} {committed : Committed}
    (present : session.transactions name = some transaction)
    (succeeded : (transaction.commit session.host.directory session.store).outcome =
      .ok committed)
    (counted : session.store.ucn < 2 ^ 64) (fits : ∀ draft ∈ transaction.kept, draft.Fits)
    (settings : Settings) :
    ∃ host store, Store.openFile (session.step (.commit name)).host
        { settings with path := file.path } = (host, .ok store) ∧
      ∀ atom ∈ committed.atoms, store.state.slots.slot atom.id =
        .committed (atom.recorded (file.hosting session.store.settings.hostedThreshold)
          session.host.directory file.path) := by
  obtain ⟨_, nothing, unwritten⟩ | ⟨written, recorded, drafts, wrote, directory, opened, stepped,
    published, atoms⟩ := owned.commit_succeeded present succeeded
  · obtain ⟨host, store, again, _⟩ := (backed.of_unwritten unwritten).openFile_eq settings
    refine ⟨host, store, again, fun atom member => ?_⟩
    rw [nothing] at member
    cases member
  · obtain ⟨next, record, later, grown, after, _, placed, _⟩ :=
      backed.published owned present wrote directory opened stepped published counted fits
    have path : (file.writeNext session.host.directory record.bytes).2.path = file.path := rfl
    rw [grown] at path
    obtain ⟨host, store, again, _, slots, _⟩ := after.openFile_eq settings
    rw [path] at again
    refine ⟨host, store, again, fun atom member => ?_⟩
    rw [atoms] at member
    have inside := List.mem_map_of_mem (f := Atom.recorded
      (file.hosting session.store.settings.hostedThreshold) session.host.directory file.path) member
    rw [← placed] at inside
    rw [← Slots.atom?_eq_some_iff, slots, Slots.atom?_settle]
    exact after.recovered.atom?_eq_some_iff.mpr
      ⟨_, List.mem_append_right _ List.mem_cons_self, inside, rfl⟩

/-- What a commit that succeeds does to a file that opens. If none of the committed values is too
long, the file opens again under any settings, and every atom of the commit is in its slot as it was
recorded. Otherwise it does not open again: it is refused at the record of the commit, for the first
of the values that are too long. -/
theorem Served.openFile_after_commit (served : session.Served)
    (opened : session.store.file = some file) {prior : Settings} {host : Host} {store : Store}
    (accepted : Store.openFile session.host { prior with path := file.path } = (host, .ok store))
    {name : Nat} {transaction : Transaction} {committed : Committed}
    (present : session.transactions name = some transaction)
    (succeeded : (transaction.commit session.host.directory session.store).outcome =
      .ok committed)
    (counted : session.store.ucn < 2 ^ 64 - 1) (sized : ∀ draft ∈ transaction.kept, draft.Sized)
    {after : Session} (stepped : session.step (.commit name) = after) (settings : Settings) :
    (transaction.tooLong? = none → ∃ next again,
      Store.openFile after.host { settings with path := file.path } = (next, .ok again) ∧
        ∀ atom ∈ committed.atoms, again.state.slots.slot atom.id =
          .committed (atom.recorded (file.hosting session.store.settings.hostedThreshold)
            session.host.directory file.path)) ∧
    ∀ length, transaction.tooLong? = some length → ∃ next,
      Store.openFile after.host { settings with path := file.path } =
        (next, .error (.dataFile (.corrupt file.stop (.valueTooLong length)))) := by
  have owned := served.reachable.owned
  rw [← stepped]
  rcases served.backed_or_spoiled with ⟨_, records, ends, taken, backed⟩ |
    ⟨_, front, record, length, ruined⟩
  · obtain rfl := Option.some.inj (opened.symm.trans backed.file_eq)
    refine ⟨fun short => backed.openFile_of_commit owned present succeeded (by omega)
      ((tooLong?_extents sized).mp short) settings, fun length long => ?_⟩
    obtain ⟨next, front, record, ruined, place, path⟩ :=
      backed.spoiled owned present succeeded (by omega) sized long
    obtain ⟨last, failed, _⟩ := ruined.spoiled.openFile_eq settings
    rw [place, path] at failed
    exact ⟨last, failed⟩
  · obtain rfl := Option.some.inj (opened.symm.trans ruined.file_eq)
    obtain ⟨_, failed, _⟩ := ruined.spoiled.openFile_eq prior
    rw [failed] at accepted
    cases accepted

/-- A byte is committed, and the file opens with its atom. -/
theorem openFile_after_short_commit :
    ∃ session file next again atom, Served session ∧ session.store.file = some file ∧
      Store.openFile (session.step (.commit 0)).host { path := file.path } = (next, .ok again) ∧
      again.state.slots.slot 0 = .committed atom := by
  obtain ⟨session, file, transaction, committed, filed, opened, ucn, present, kept, succeeded, atom,
    member, here⟩ := exists_binding [7]
  obtain ⟨_, records, ends, taken, backed⟩ := filed.backed
  obtain rfl := Option.some.inj (opened.symm.trans backed.file_eq)
  obtain ⟨host, store, accepted, _⟩ := backed.openFile_eq {}
  have counted : session.store.ucn < 2 ^ 64 - 1 := by
    rw [ucn]
    decide
  have sized : ∀ draft ∈ transaction.kept, draft.Sized := by
    rw [kept, List.forall_mem_singleton]
    exact ⟨by decide, by decide⟩
  have short : transaction.tooLong? = none := by
    rw [Transaction.tooLong?, kept]
    rfl
  obtain ⟨next, again, reopened, slots⟩ := (filed.served.openFile_after_commit opened accepted
    present succeeded counted sized rfl {}).1 short
  exact ⟨session, file, next, again, _, filed.served, opened, reopened, here ▸ slots atom member⟩

/-- A value with one byte too many is committed in a store whose file opens, and then the file does
not open any more. -/
theorem not_openFile_after_long_commit :
    ∃ session file transaction committed host store, ∃ prior : Settings, Served session ∧
      session.store.file = some file ∧
      Store.openFile session.host { prior with path := file.path } = (host, .ok store) ∧
      session.transactions 0 = some transaction ∧
      (transaction.commit session.host.directory session.store).outcome = .ok committed ∧
      ∀ settings : Settings, ∃ next failure,
        Store.openFile (session.step (.commit 0)).host { settings with path := file.path } =
          (next, .error failure) := by
  obtain ⟨payload, long⟩ : ∃ payload : Bytes, payload.length = Log.maxValueLength + 1 :=
    ⟨List.replicate (Log.maxValueLength + 1) 0, List.length_replicate⟩
  obtain ⟨session, file, transaction, committed, filed, opened, ucn, present, kept, succeeded, _⟩ :=
    exists_binding payload
  obtain ⟨_, records, ends, taken, backed⟩ := filed.backed
  obtain rfl := Option.some.inj (opened.symm.trans backed.file_eq)
  obtain ⟨host, store, accepted, _⟩ := backed.openFile_eq {}
  have extents : transaction.kept.flatMap Draft.extents = [payload.length] := by
    rw [kept]
    rfl
  have sized : ∀ draft ∈ transaction.kept, draft.Sized := by
    rw [kept, List.forall_mem_singleton]
    refine ⟨Nat.two_pow_pos 64, List.forall_mem_singleton.mpr ?_⟩
    change payload.length < 2 ^ 64
    rw [long]
    decide
  have beyond : transaction.tooLong? = some payload.length := by
    rw [Transaction.tooLong?, extents]
    exact Log.tooLong?_cons_of_lt (by omega) []
  obtain ⟨next, front, record, ruined, _, path⟩ := backed.spoiled filed.reachable.owned present
    succeeded (by rw [ucn]; decide) sized beyond
  refine ⟨session, file, transaction, committed, host, store, {}, filed.served, opened, accepted,
    present, succeeded, fun settings => ?_⟩
  obtain ⟨last, failed, _⟩ := ruined.spoiled.openFile_eq settings
  rw [path] at failed
  exact ⟨last, _, failed⟩

end Session
end AtomStore
