import AtomStore.Proofs.DataFile.Recorded
import AtomStore.Proofs.Store.Recovered
import AtomStore.Proofs.Store.Session

/-!
# Journals

The data file of a store that was created in a session is the journal of its commits: behind the
header it holds the records of the written commits, one after the other and nothing else. A table
recovered from these records counts as many commits and atoms as the store does, and holds an atom
in just the slots where the store holds one.
-/

namespace AtomStore

open Log (Chunk StoredRecord)

def Atom.recorded (hosting : Bool) (directory : Directory) (path : String) (atom : Atom) : Atom :=
  { atom with junctions := recordedJunctions hosting directory path atom.junctions }

/-- A commit whose record has been written. -/
structure WrittenCommit where
  ucn : Nat
  /-- The atoms that were published. -/
  atoms : List Atom
  /-- Whether byte runs stayed in the file. -/
  hosting : Bool
  /-- What the record holds of the atoms. -/
  recorded : List Atom
  /-- The end of the record. -/
  stop : Nat

/-- Whether records behind a position are those of some commits. -/
def Logged : Nat → List StoredRecord → List WrittenCommit → Prop
  | _, [], [] => True
  | position, record :: records, commit :: commits =>
    (record.ucn = commit.ucn ∧ (record.placed position).atoms = commit.recorded ∧
      commit.stop = position + record.bytes.length) ∧
      Logged (position + record.bytes.length) records commits
  | _, _, _ => False

namespace Logged

variable {position : Nat} {records : List StoredRecord} {commits : List WrittenCommit}

/-- A record of a commit is logged behind the others. -/
theorem append (logged : Logged position records commits) {record : StoredRecord}
    {commit : WrittenCommit} {start : Nat}
    (place : start = position + (records.flatMap StoredRecord.bytes).length)
    (ucn : record.ucn = commit.ucn) (atoms : (record.placed start).atoms = commit.recorded)
    (stop : commit.stop = start + record.bytes.length) :
    Logged position (records ++ [record]) (commits ++ [commit]) := by
  subst place
  induction records generalizing position commits with
  | nil =>
    cases commits with
    | nil => exact ⟨⟨ucn, atoms, stop⟩, trivial⟩
    | cons => cases logged
  | cons first rest ih =>
    cases commits with
    | nil => cases logged
    | cons head others =>
      obtain ⟨here, later⟩ := logged
      refine ⟨here, ih later ?_ ?_⟩
      · rw [List.flatMap_cons, List.length_append, ← Nat.add_assoc] at atoms
        exact atoms
      · rw [List.flatMap_cons, List.length_append, ← Nat.add_assoc] at stop
        exact stop

end Logged

/-- The record that a commit writes holds the drafts that it publishes, and stands for what the kept
ones do. A file that does not host byte runs lets the drafts be published as they are. -/
theorem Transaction.record_of_write {transaction : Transaction} {directory written : Directory}
    {store recorded : Store} {drafts : List Draft} {file : DataFile}
    (numbered : transaction.Numbered) (present : store.file = some file)
    (wrote : write directory (store.release transaction.dropped) transaction.kept =
      .ok (written, recorded, drafts))
    (counted : store.ucn < 2 ^ 64) (sized : ∀ draft ∈ transaction.kept, draft.Sized) :
    ∃ next record, file.writeNext directory (Chunk.record record).bytes = (written, next) ∧
      recorded.file = some next ∧ record.ucn = store.ucn ∧ record.Sized file.header.version ∧
      transaction.kept.flatMap Draft.extents = record.lengths ∧
      (record.placed file.stop).atoms = (store.sealedAtoms drafts).map
        (Atom.recorded (file.hosting store.settings.hostedThreshold) directory file.path) ∧
      LogEntry.ofDrafts directory file.path store.ucn transaction.kept =
        LogEntry.ofStored record ∧
      (file.hosting store.settings.hostedThreshold = false → drafts = transaction.kept) := by
  obtain ⟨absent, _⟩ | ⟨found, next, places, opened, appended, rfl, rfl⟩ := write_eq_ok wrote
  · have missing : store.file = none := absent
    rw [present] at missing
    cases missing
  have opened : store.file = some found := opened
  obtain rfl : file = found := Option.some.inj (present.symm.trans opened)
  have ucn : (store.release transaction.dropped).ucn = store.ucn :=
    (store.state.slots.releaseAll_counts transaction.dropped).1
  rw [ucn] at appended
  have inline := DataFile.places_eq_nil appended
  obtain ⟨atoms, stored, moved, rfl⟩ := DataFile.append_eq_ok appended
  obtain ⟨same, lengths, counts⟩ := DataFile.storedAtoms_spec store.state.slots.ucn_pos stored
  refine ⟨next, ⟨store.ucn, atoms, store.state.slots.ucn_pos⟩, moved, rfl, rfl,
    counts counted sized, lengths, ?_, same, fun off => ?_⟩
  · rw [StoredRecord.placed,
      DataFile.placedAtoms_eq_recorded stored (nodup_kept numbered), Store.sealedAtoms,
      List.map_map, List.map_map, List.map_map]
    rfl
  · rw [inline off]
    exact List.map_id _

/-- A store is opened with the table that the replay of its file makes. -/
theorem Store.openFile_eq_ok {host : Host} (settings : Settings) {fresh file : DataFile}
    {slots : Slots} {directory : Directory} {summary : Log.Summary}
    (opened : DataFile.openAt host.directory settings.path settings.sync settings.readOnly =
      .ok fresh)
    (recovered : fresh.recover host.directory .empty settings.repairTornTail =
      ⟨slots, directory, file, .ok summary⟩) :
    ∃ after store, openFile host settings = (after, .ok store) ∧ after.directory = directory ∧
      store.state.slots = slots ∧ store.file = some file := by
  simp only [openFile, opened, Host.newState, State.new, recovered]
  exact ⟨_, _, rfl, rfl, rfl, rfl⟩

/-- A store is not opened when the replay of its file fails. -/
theorem Store.openFile_eq_error {host : Host} {settings : Settings} {fresh file : DataFile}
    {slots : Slots} {directory : Directory} {error : LogError}
    (opened : DataFile.openAt host.directory settings.path settings.sync settings.readOnly =
      .ok fresh)
    (failed : fresh.recover host.directory .empty settings.repairTornTail =
      ⟨slots, directory, file, .error error⟩) :
    ∃ after, openFile host settings = (after, .error (.dataFile error)) ∧
      after.directory = directory := by
  simp only [openFile, opened, Host.newState, State.new, failed]
  exact ⟨_, rfl, rfl⟩

namespace Session

/-- The commit that an action writes to the data file. -/
def written (session : Session) : Action → List WrittenCommit
  | .commit name =>
    match session.transactions name, session.store.file with
    | some transaction, some file =>
      let report := transaction.commit session.host.directory session.store
      let hosting := file.hosting session.store.settings.hostedThreshold
      match report.outcome, report.store.file with
      | .ok ⟨some ucn, atoms⟩, some next =>
        [⟨ucn, atoms, hosting,
          atoms.map (Atom.recorded hosting session.host.directory file.path), next.stop⟩]
      | _, _ => []
    | _, _ => []
  | _ => []

/-- Whether what an action commits can be read back: its values are not too long, and UCNs and slots
have numbers of 64 bits. -/
def Fits (session : Session) (action : Action) : Prop :=
  ∀ name transaction committed, action = .commit name →
    session.transactions name = some transaction →
    (transaction.commit session.host.directory session.store).outcome = .ok committed →
      session.store.ucn < 2 ^ 64 - 1 ∧ ∀ draft ∈ transaction.kept, draft.Fits

/-- Sessions that start with the creation of a file, and the commits that they have written. -/
inductive Journaled : Session → List WrittenCommit → Prop where
  | created {host next : Host} {settings : Settings} {storeId : StoreId} {metadata : Metadata}
      {store : Store} (created : Store.create host settings storeId metadata = (next, .ok store)) :
      Journaled (fresh next store) []
  | step {session : Session} {commits : List WrittenCommit} (before : Journaled session commits)
      (action : Action) (fits : session.Fits action) :
      Journaled (session.step action) (commits ++ session.written action)

/-- A journaled session is one that can be reached. -/
theorem Journaled.reachable {session : Session} {commits : List WrittenCommit}
    (journaled : session.Journaled commits) : session.Reachable := by
  induction journaled with
  | created created => exact .created created
  | step _ action _ ih => exact ih.step action

/-- The data file of a session holds the records of some commits and nothing else, and a table that
has taken in these records agrees with the slots of the store. -/
structure Journal (session : Session) (commits : List WrittenCommit) (file : DataFile)
    (start : Bytes) (records : List StoredRecord) (taken : Slots) : Prop where
  file_eq : session.store.file = some file
  laid : file.Laid session.host.directory start (records.map Chunk.record) 0
  logged : Logged file.headerLength records commits
  recovered : Recovered taken (Log.placedRecords file.headerLength (records.map Chunk.record))
  ucn_eq : taken.ucn = session.store.ucn
  committed_eq : taken.committed = session.store.state.slots.committed
  occupied : ∀ id, (taken.atom? id).isSome = (session.store.state.slots.atom? id).isSome
  agreeing : (∀ commit ∈ commits, commit.recorded = commit.atoms) →
    ∀ id, taken.atom? id = session.store.state.slots.atom? id

variable {session : Session} {commits : List WrittenCommit} {file : DataFile} {start : Bytes}
  {records : List StoredRecord} {taken : Slots}

namespace Journal

/-- The append position is behind the records. -/
theorem stop_eq (journal : session.Journal commits file start records taken) :
    file.stop = file.headerLength + (records.flatMap StoredRecord.bytes).length := by
  rw [journal.laid.stop_eq, Log.flatMap_bytes_map_record]

/-- A file just opened takes its records into the same table and goes on where the open one does. -/
theorem recover_eq (journal : session.Journal commits file start records taken)
    (sync readOnly repair : Bool) :
    ∃ fresh summary, DataFile.openAt session.host.directory file.path sync readOnly = .ok fresh ∧
      fresh.recover session.host.directory .empty repair =
        ⟨taken.settle.2, session.host.directory, { file with sync, readOnly }, .ok summary⟩ := by
  have scanned : DataFile.scan
      { file with stop := (session.host.directory.content file.path).length, sync, readOnly }
        session.host.directory = file.scan session.host.directory := rfl
  rw [journal.laid.scan_eq, Log.lastEnd_map_record, ← journal.stop_eq] at scanned
  have replayed := DataFile.replay_eq_of_recovered journal.recovered scanned
  exact ⟨_, _, journal.laid.openAt_eq sync readOnly, DataFile.recover_of_replay replayed⟩

/-- Actions that write nothing keep the journal. -/
theorem of_unwritten (journal : session.Journal commits file start records taken) {next : Session}
    (unwritten : session.Unwritten next) : next.Journal commits file start records taken where
  file_eq := unwritten.file_eq.trans journal.file_eq
  laid := by
    rw [unwritten.directory_eq]
    exact journal.laid
  logged := journal.logged
  recovered := journal.recovered
  ucn_eq := journal.ucn_eq.trans unwritten.ucn_eq.symm
  committed_eq := journal.committed_eq.trans unwritten.committed_eq.symm
  occupied id := by
    rw [unwritten.atom?_eq]
    exact journal.occupied id
  agreeing same id := by
    rw [unwritten.atom?_eq]
    exact journal.agreeing same id

/-- A file that is opened again goes on with its journal. -/
theorem reopened (journal : session.Journal commits file start records taken)
    (settings : Settings) :
    ∃ again, (session.step (.reopen settings)).Journal commits again start records taken := by
  obtain ⟨fresh, summary, opened, recovered⟩ :=
    journal.recover_eq settings.sync settings.readOnly settings.repairTornTail
  obtain ⟨host, store, done, same, slots, kept⟩ :=
    Store.openFile_eq_ok { settings with path := file.path } opened recovered
  have step : session.step (.reopen settings) = Session.fresh host store := by
    simp only [Session.step, journal.file_eq, done]
  have atoms (id : Nat) : store.state.slots.atom? id = taken.atom? id := by
    rw [slots, Slots.atom?_settle]
  have laid : DataFile.Laid { file with sync := settings.sync, readOnly := settings.readOnly }
      host.directory start (records.map Chunk.record) 0 := by
    rw [same]
    exact ⟨journal.laid.encoded, journal.laid.headerLength_eq, journal.laid.file?_eq,
      journal.laid.stop_eq, journal.laid.fitting⟩
  rw [step]
  refine ⟨_, kept, laid, journal.logged, journal.recovered, ?_, ?_, ?_, ?_⟩
  · have counted : store.ucn = taken.settle.2.ucn := congrArg Slots.ucn slots
    exact counted.symm
  · have counted : store.state.slots.committed = taken.settle.2.committed :=
      congrArg Slots.committed slots
    exact counted.symm
  · intro id
    exact congrArg Option.isSome (atoms id).symm
  · intro _ id
    exact (atoms id).symm

/-- A commit that publishes drafts adds its record to the journal. -/
theorem published (journal : session.Journal commits file start records taken) {name : Nat}
    {transaction : Transaction} {written : Directory} {recorded : Store} {drafts : List Draft}
    (owned : session.Owned) (present : session.transactions name = some transaction)
    (wrote : Transaction.write session.host.directory (session.store.release transaction.dropped)
      transaction.kept = .ok (written, recorded, drafts))
    (directory : (session.step (.commit name)).host.directory = written)
    (kept : (session.step (.commit name)).store.file = recorded.file)
    (stepped : (session.step (.commit name)).store =
      (transaction.commit session.host.directory session.store).store)
    (published : (transaction.commit session.host.directory session.store).Published session.store
      transaction.dropped drafts)
    (counted : session.store.ucn < 2 ^ 64) (fits : ∀ draft ∈ transaction.kept, draft.Fits) :
    ∃ next record later, (session.step (.commit name)).Journal
      (commits ++ session.written (.commit name)) next start (records ++ [record]) later := by
  have numbered := owned.numbered name transaction present
  have pending := owned.pending name transaction present
  have parts := transaction.mem_keys_iff_dropped_or_kept numbered
  obtain ⟨_, _, ids⟩ := Transaction.map_id_of_write wrote
  obtain ⟨next, record, moved, here, ucn, sized, lengths, atoms, _⟩ :=
    transaction.record_of_write numbered journal.file_eq wrote counted
      fun draft member => (fits draft member).sized
  have fitting := sized.fits_of_drafts lengths fits
  have numbers : (record.placed file.stop).atoms.map (·.id) = drafts.map (·.id) := by
    rw [atoms, List.map_map, ← session.store.map_id_sealedAtoms drafts]
    rfl
  have live := published.atom?_eq
    (fun id member => pending id ((parts id).mpr (.inl member)))
    (fun id member => Transaction.not_mem_dropped_of_kept numbered (ids ▸ member))
  -- the slots of the transaction are reserved in the store, so no earlier record has filled them
  have free : ∀ atom ∈ (record.placed file.stop).atoms, taken.atom? atom.id = none := by
    intro atom member
    have inside : atom.id ∈ transaction.kept.map (·.id) := by
      rw [← ids, ← numbers]
      exact List.mem_map_of_mem member
    have same := journal.occupied atom.id
    rw [Slots.atom?_eq session.store.state.slots,
      pending atom.id ((parts atom.id).mpr (.inr inside))] at same
    exact Option.isNone_iff_eq_none.mp (Option.isSome_eq_false_iff.mp same)
  obtain ⟨later, recovered, next_ucn, total, held⟩ := journal.recovered.next
    (journal.ucn_eq.trans ucn.symm).le (by rw [numbers, ids]; exact transaction.nodup_kept numbered)
    free
  have commit : session.written (.commit name) =
      [⟨session.store.ucn, session.store.sealedAtoms drafts,
        file.hosting session.store.settings.hostedThreshold, (session.store.sealedAtoms drafts).map
          (Atom.recorded (file.hosting session.store.settings.hostedThreshold)
            session.host.directory file.path), next.stop⟩] := by
    rw [stepped, here] at kept
    simp only [Session.written, present, journal.file_eq, published.outcome_eq, kept]
  have laid := journal.laid.writeNext (.record record)
    (Log.fitting_map_record.mpr (List.forall_mem_singleton.mpr fitting))
  rw [moved, Nat.zero_sub] at laid
  have next_eq : next = { file with stop := file.stop + record.bytes.length } :=
    (congrArg Prod.snd moved).symm
  have held_ids (id : Nat) : (atomFor? (record.placed file.stop).atoms id).isSome =
      (atomFor? (session.store.sealedAtoms drafts) id).isSome := by
    rw [Bool.eq_iff_iff, isSome_atomFor?, isSome_atomFor?, numbers, Store.map_id_sealedAtoms]
  refine ⟨next, record, later, ?_, ?_, ?_, ?_, ?_, ?_, ?_, ?_⟩
  · rw [kept, here]
  · rw [directory, List.map_append]
    exact laid
  · rw [commit, next_eq]
    exact journal.logged.append journal.stop_eq ucn atoms rfl
  · rw [List.map_append, Log.placedRecords_append, Log.flatMap_bytes_map_record, next_eq]
    simp only
    rw [← journal.stop_eq]
    exact recovered
  · rw [next_ucn, stepped, published.ucn_eq]
    exact congrArg (· + 1) ucn
  · rw [total, stepped, published.committed_eq, journal.committed_eq, ← List.length_map (·.id),
      numbers, List.length_map]
  · intro id
    rw [held, stepped, live, Option.isSome_or, Option.isSome_or, journal.occupied, held_ids]
  · intro same id
    have own := same _ (List.mem_append_right _ (by rw [commit]; exact List.mem_cons_self))
    simp only at own
    have before := journal.agreeing fun commit member =>
      same commit (List.mem_append_left _ member)
    rw [held, stepped, live, before, atoms, own]

end Journal

/-- A store on a new file has an empty journal. -/
theorem journal_created {host next : Host} {settings : Settings} {storeId : StoreId}
    {metadata : Metadata} {store : Store}
    (created : Store.create host settings storeId metadata = (next, .ok store)) :
    ∃ file start, (fresh next store).Journal [] file start [] .empty := by
  cases made : DataFile.create host.directory settings.path storeId Store.currentVersion metadata
      settings.sync with
  | error failure =>
    simp only [Store.create, made] at created
    cases created
  | ok result =>
    obtain ⟨directory, file⟩ := result
    simp only [Store.create, made, Host.newState] at created
    cases created
    obtain ⟨start, laid⟩ := DataFile.laid_create made
    exact ⟨file, start, rfl, laid, trivial, .nothing, rfl, rfl, fun _ => rfl, fun _ _ => rfl⟩

/-- The session that binds one value in a new store, before its commit. -/
def binding (host : Host) (store : Store) (value : Particle) : Session :=
  (fresh host store).run [.begin 0, .createAtom 0, .edit 0 0 (.bind 1 value)]

/-- A store on a new file with one open draft is journaled. -/
theorem journaled_binding {host next : Host} {settings : Settings} {storeId : StoreId}
    {metadata : Metadata} {store : Store}
    (created : Store.create host settings storeId metadata = (next, .ok store))
    (value : Particle) : (binding next store value).Journaled [] :=
  .step (.step (.step (.created created) (.begin 0) nofun) (.createAtom 0) nofun)
    (.edit 0 0 (.bind 1 value)) nofun

/-- A draft with one value fits when its payload is not too long. -/
theorem fits_binding {host next : Host} {settings : Settings} {storeId : StoreId}
    {metadata : Metadata} {store : Store}
    (created : Store.create host settings storeId metadata = (next, .ok store)) {value : Particle}
    (short : value.extent ≤ Log.maxValueLength) : (binding next store value).Fits (.commit 0) := by
  have empty : store.state.slots = .empty := by
    unfold Store.create at created
    split at created <;> cases created
    rfl
  obtain ⟨settings, ⟨slots, indices⟩, file, readOnly, indexing⟩ := store
  obtain rfl : slots = .empty := empty
  intro name transaction committed named present _
  obtain rfl := Action.commit.inj named
  let draft : Draft := ⟨0, .ofList [(1, value)]⟩
  have built : some ⟨1, .ofList [(0, { draft })], []⟩ = some transaction := present
  obtain rfl := Option.some.inj built
  have first : (binding next ⟨settings, ⟨.empty, indices⟩, file, readOnly, indexing⟩
    value).store.ucn = 1 := rfl
  refine ⟨by rw [first]; decide, fun kept member => ?_⟩
  obtain rfl : kept = draft := List.mem_singleton.mp member
  refine ⟨Nat.two_pow_pos 64, fun junction bound => ?_⟩
  obtain rfl : junction = (1, value) := List.mem_singleton.mp bound
  exact short

/-- An action that writes nothing writes no commit. -/
theorem Owned.written_eq_nil (owned : session.Owned) {action : Action}
    (unwritten : session.Unwritten (session.step action)) : session.written action = [] := by
  cases action with
  | commit name =>
    cases present : session.transactions name with
    | none => simp only [Session.written, present]
    | some transaction =>
      have counted := unwritten.ucn_eq
      rw [step_commit present] at counted
      obtain ⟨_, _, failure, ended, _⟩ | ⟨_, _, ended⟩ | ⟨_, _, _, _, _, _, published⟩ :=
        Transaction.commit_spec session.host.directory (owned.numbered name transaction present)
          (owned.pending name transaction present)
      · cases opened : session.store.file <;> simp only [Session.written, present, opened, ended]
      · cases opened : session.store.file <;> simp only [Session.written, present, opened, ended]
      · exact absurd (published.ucn_eq.symm.trans counted) (Nat.succ_ne_self _)
  | _ => rfl

/-- The data file of every session that starts with its creation is the journal of the commits. -/
theorem Journaled.journal (journaled : session.Journaled commits) :
    ∃ file start records taken, session.Journal commits file start records taken := by
  induction journaled with
  | created created =>
    obtain ⟨file, start, journal⟩ := journal_created created
    exact ⟨file, start, [], .empty, journal⟩
  | @step session commits before action fits ih =>
    obtain ⟨file, start, records, taken, journal⟩ := ih
    have owned := before.reachable.owned
    by_cases closing : ∃ settings, action = .reopen settings
    · obtain ⟨settings, rfl⟩ := closing
      obtain ⟨again, kept⟩ := journal.reopened settings
      have nothing : session.written (.reopen settings) = [] := rfl
      rw [nothing, List.append_nil]
      exact ⟨again, start, records, taken, kept⟩
    · rcases owned.step_cases (not_exists.mp closing) with unwritten | ⟨name, transaction, written,
        recorded, drafts, rfl, present, wrote, directory, kept, stepped, published⟩
      · rw [owned.written_eq_nil unwritten, List.append_nil]
        exact ⟨file, start, records, taken, journal.of_unwritten unwritten⟩
      · obtain ⟨counted, short⟩ := fits name transaction _ rfl present published.outcome_eq
        obtain ⟨next, record, later, kept⟩ := journal.published owned present wrote directory kept
          stepped published (by omega) short
        exact ⟨next, start, _, later, kept⟩

/-- A commit that is written has recorded its atoms as the file holds them. -/
theorem recorded_of_mem_written {action : Action} {commit : WrittenCommit}
    (member : commit ∈ session.written action) :
    ∃ file, session.store.file = some file ∧
      commit.hosting = file.hosting session.store.settings.hostedThreshold ∧
      commit.recorded = commit.atoms.map
        (Atom.recorded commit.hosting session.host.directory file.path) := by
  cases action with
  | commit name =>
    rw [written] at member
    split at member
    · rename_i transaction file present opened
      simp only at member
      split at member
      · obtain rfl := List.mem_singleton.mp member
        exact ⟨file, opened, rfl, rfl⟩
      · cases member
    · cases member
  | _ => cases member

end Session
end AtomStore
