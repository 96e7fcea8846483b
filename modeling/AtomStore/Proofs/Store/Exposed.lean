import AtomStore.Proofs.Store.Backed

/-!
# States that others can reach

The state of a store can be reached past its transactions, and then their slots can be emptied or
filled before they commit. A commit writes its record before it asks the state to publish, so a
commit that the state refuses has left its record in the file. The UCN of that record is still the
next one in memory: the next commit takes it again, and from then on the file does not open.
-/

namespace AtomStore

open Log (Record StoredRecord)

/-- A call of the state of a store by others than its transactions. -/
inductive StateCall where
  | forget (id : Nat)
  | clean
  | publish (atoms : List Atom)

/-- The slots after a call; one that is refused changes nothing. -/
def StateCall.run (slots : Slots) : StateCall → Slots
  | forget id => (slots.release id).toOption.getD slots
  | clean => slots.settle.2
  | publish atoms => (slots.publish atoms).toOption.getD slots

/-- No call from outside moves the UCN back. -/
theorem StateCall.ucn_le_run (slots : Slots) (call : StateCall) :
    slots.ucn ≤ (call.run slots).ucn := by
  cases call with
  | forget id =>
    rw [run, Slots.release]
    split <;> exact Nat.le_refl _
  | clean => exact Nat.le_refl _
  | publish atoms =>
    rw [run, Slots.publish]
    split
    · exact Nat.le_refl _
    · exact Nat.le_succ _

namespace Transaction

variable {transaction : Transaction} {directory : Directory} {store : Store}

/-- A publication that succeeds uses up the UCN of the store. -/
theorem of_publish_eq_ok {drafts : List Draft} {published : Store} {committed : Committed}
    (done : publish store drafts = .ok (published, committed)) :
    published.file = store.file ∧ published.ucn = store.ucn + 1 ∧
      committed.ucn = some store.ucn := by
  obtain ⟨rfl, file, _, taken⟩ := publish_of_publish done
  refine ⟨file, ?_, rfl⟩
  rw [Slots.publish] at taken
  split at taken
  · cases taken
  · exact congrArg Slots.ucn (Except.ok.inj taken).symm

/-- How any commit ends, whatever the slots of its drafts hold: it writes no record and takes no
UCN, or its record is written and the state then refuses to publish, or publishes. -/
theorem commit_cases (transaction : Transaction) (directory : Directory) (store : Store) :
    ((transaction.commit directory store).directory = directory ∧
        (transaction.commit directory store).store.file = store.file ∧
        (transaction.commit directory store).store.ucn = store.ucn ∧
        (∀ refusal, (transaction.commit directory store).outcome ≠ .error (.store refusal)) ∧
        ∀ committed, (transaction.commit directory store).outcome = .ok committed →
          committed.ucn = none) ∨
      ∃ written recorded drafts ran,
        write directory (store.release transaction.dropped) transaction.kept =
          .ok (written, recorded, drafts) ∧
        ((∃ refusal, publish recorded drafts = .error refusal ∧
            transaction.commit directory store =
              ⟨written, recorded, ran, none, .error (.store refusal)⟩) ∨
          ∃ published committed, publish recorded drafts = .ok (published, committed) ∧
            transaction.commit directory store =
              ⟨written, published, ran, some committed.atoms, .ok committed⟩) := by
  have released (store : Store) (ids : List Nat) : (store.release ids).ucn = store.ucn :=
    (store.state.slots.releaseAll_counts ids).1
  by_cases readOnly : store.readOnly = true
  · left
    rw [commit_eq, if_pos readOnly]
    exact ⟨rfl, rfl, released _ _, by rintro _ ⟨⟩, by rintro _ ⟨⟩⟩
  rw [commit_eq, if_neg readOnly]
  simp only
  split
  · exact .inl ⟨rfl, rfl, (released _ _).trans (released _ _), by rintro _ ⟨⟩, by rintro _ ⟨⟩⟩
  · rename_i ran _
    split
    · refine .inl ⟨rfl, rfl, released _ _, by rintro _ ⟨⟩, ?_⟩
      rintro _ ⟨⟩
      rfl
    · split
      · exact .inl ⟨rfl, rfl, (released _ _).trans (released _ _), by rintro _ ⟨⟩, by rintro _ ⟨⟩⟩
      · rename_i written recorded drafts wrote
        refine .inr ⟨written, recorded, drafts, ran, wrote, ?_⟩
        split
        · rename_i refusal refused
          exact .inl ⟨refusal, refused, rfl⟩
        · rename_i published committed done
          exact .inr ⟨published, committed, done, rfl⟩

end Transaction

namespace DataFile.Whole

variable {file : DataFile} {host next : Host} {settings : Settings} {store : Store}
  {records rest : List Record} {ends : Nat} {taken : Slots}

/-- A file with one record more has other bytes. -/
theorem content_ne {directory later : Directory} {grown : DataFile} {record : Record} {last : Nat}
    (whole : file.Whole directory records ends)
    (longer : grown.Whole later (records ++ [record]) last) (path : grown.path = file.path) :
    later.content file.path ≠ directory.content file.path := by
  intro same
  have decoded := longer.decoded
  have scanned := longer.scanned
  rw [path, same] at decoded scanned
  have header := whole.decoded.symm.trans decoded
  simp only [Except.ok.injEq, Prod.mk.injEq] at header
  rw [← header.1, ← header.2, whole.scanned] at scanned
  have long := congrArg (List.length ∘ Log.Scan.records) scanned
  simp only [Function.comp, List.length_append, List.length_singleton] at long
  omega

/-- A file opens only when a table can take in all of its records. -/
theorem recovered_of_openFile (whole : file.Whole host.directory records ends)
    (opened : Store.openFile host { settings with path := file.path } = (next, .ok store)) :
    ∃ taken, Recovered taken records := by
  let fresh : DataFile := { file with
    stop := (host.directory.content file.path).length
    sync := settings.sync
    readOnly := settings.readOnly }
  have found : openAt host.directory file.path settings.sync settings.readOnly = .ok fresh :=
    openAt_of_file? whole.file?_eq whole.decoded _ _
  have scanned : fresh.scan host.directory = ⟨records, .ok ends⟩ := whole.scan_eq
  obtain ⟨taken, _, _, _, fed, _⟩ | ⟨_, _, _, _, _, _, _, torn, _⟩ | ⟨error, failed, _⟩ :=
    fresh.recover_cases host.directory .empty settings.repairTornTail
  · rw [scanned] at fed
    exact ⟨taken, Recovered.of_feed .nothing fed⟩
  · rw [scanned] at torn
    cases torn
  · simp only [Store.openFile, found, Host.newState, State.new, failed] at opened
    cases opened

/-- A file with a record whose UCN has been passed does not open. -/
theorem openFile_eq_unordered {record : Record}
    (whole : file.Whole host.directory (records ++ record :: rest) ends)
    (recovered : Recovered taken records) (passed : record.ucn < taken.ucn) (settings : Settings) :
    ∃ after, Store.openFile host { settings with path := file.path } =
        (after, .error (.dataFile (.ucnOutOfOrder record.offset record.ucn taken.ucn))) ∧
      after.directory = host.directory := by
  let fresh : DataFile := { file with
    stop := (host.directory.content file.path).length
    sync := settings.sync
    readOnly := settings.readOnly }
  have found : openAt host.directory file.path settings.sync settings.readOnly = .ok fresh :=
    openAt_of_file? whole.file?_eq whole.decoded _ _
  have scanned : fresh.scan host.directory = ⟨records ++ record :: rest, .ok ends⟩ := whole.scan_eq
  obtain ⟨count, atoms, replayed⟩ : ∃ count atoms,
      fresh.replay host.directory Slots.takeRecord .empty =
        (taken, count, atoms, .error (.ucnOutOfOrder record.offset record.ucn taken.ucn)) := by
    rw [replay, scanned, Log.Scan.deliver, Log.feed_append recovered.feed_eq, Log.feed,
      Slots.takeRecord, if_pos passed]
    exact ⟨_, _, rfl⟩
  exact Store.openFile_eq_error found (recover_of_error replayed (.inl (by rintro _ ⟨⟩)))

end DataFile.Whole

namespace Session

variable {session : Session}

/-- What can be done with a store and with its state. -/
inductive Move where
  | action (action : Action)
  | call (call : StateCall)

def move (session : Session) : Move → Session
  | .action action => session.step action
  | .call call =>
    { session with store := session.store.withSlots (call.run session.store.state.slots) }

def play (session : Session) (moves : List Move) : Session := moves.foldl move session

/-- Whether a move commits nothing that a reader of the file would reject by itself. -/
def Readable (session : Session) : Move → Prop
  | .action (.commit name) => ∀ transaction, session.transactions name = some transaction →
      session.store.ucn < 2 ^ 64 - 1 ∧ ∀ draft ∈ transaction.kept, draft.Fits
  | _ => True

def AllReadable (session : Session) : List Move → Prop
  | [] => True
  | move :: rest => session.Readable move ∧ (session.move move).AllReadable rest

/-- Whether the drafts of open transactions have the numbers of their slots. -/
def Numbered (session : Session) : Prop :=
  ∀ name transaction, session.transactions name = some transaction → transaction.Numbered

/-- A store that has just been opened has no drafts. -/
theorem numbered_fresh (host : Host) (store : Store) : (fresh host store).Numbered := by
  rintro _ _ ⟨⟩

/-- Replacing one transaction keeps drafts numbered by their slots. -/
theorem Numbered.with (numbered : session.Numbered) (name : Nat) {transaction : Option Transaction}
    (good : ∀ found, transaction = some found → found.Numbered) (host : Host) (store : Store) :
    ({ session with host, store }.withTransaction name transaction).Numbered := by
  intro other found present
  obtain ⟨_, same⟩ | ⟨_, before⟩ := transactions_withTransaction present
  · exact good found same
  · exact numbered other found before

/-- Every action keeps drafts numbered by their slots. -/
theorem Numbered.step (numbered : session.Numbered) (action : Action) :
    (session.step action).Numbered := by
  cases action with
  | begin name =>
    rw [Session.step]
    split
    · refine numbered.with name ?_ session.host session.store
      rintro _ ⟨⟩ entry member
      cases member
    · exact numbered
  | createAtom name =>
    rw [Session.step]
    split
    · exact numbered
    · rename_i transaction present
      refine numbered.with name ?_ session.host _
      rintro _ ⟨⟩
      exact (numbered name transaction present).insert rfl
  | edit name id edit =>
    rw [Session.step]
    split
    · exact numbered
    · rename_i transaction present
      split
      · rename_i next edited
        obtain ⟨atom, changed, held, same, rfl⟩ := Transaction.edit_eq_ok edited
        refine numbered.with name ?_ session.host session.store
        rintro _ ⟨⟩
        have before := numbered name transaction present
        exact before.insert (same.trans (before.get? held))
      · exact numbered
  | addVerifier name verifier =>
    rw [Session.step]
    split
    · exact numbered
    · rename_i transaction present
      refine numbered.with name ?_ session.host session.store
      rintro _ ⟨⟩
      exact numbered name transaction present
  | commit name | rollback name =>
    rw [Session.step]
    split
    · exact numbered
    · exact numbered.with name (by rintro _ ⟨⟩) _ _
  | setReadOnly readOnly | createIndex info =>
    rw [Session.step]
    split <;> exact numbered
  | setDefaultIndexing indexing | refresh index => exact numbered
  | reopen settings =>
    rw [Session.step]
    split
    · exact numbered
    · split
      · exact numbered_fresh _ _
      · exact numbered

/-- The data file of a session holds some records. The state need not have come as far. -/
structure Holds (session : Session) (file : DataFile) (records : List Record) (ends : Nat) :
    Prop where
  file_eq : session.store.file = some file
  whole : file.Whole session.host.directory records ends
  numbered : session.Numbered

/-- What moves can add to the file of a session without opening it again: more records, the first of
which is at the place of the next one, and has a UCN that the store has come past since. -/
structure Grows (session later : Session) (file grown : DataFile) (more : List Record) : Prop where
  path_eq : grown.path = file.path
  ucn_le : session.store.ucn ≤ later.store.ucn
  still : more = [] → grown.stop = file.stop
  first : ∀ record ∈ more.head?, record.offset = file.stop ∧
    session.store.ucn ≤ record.ucn ∧ record.ucn ≤ later.store.ucn

variable {file grown next : DataFile} {records more : List Record} {ends : Nat}
  {later last : Session}

/-- A file that grows twice grows by the records of both times. -/
theorem Grows.trans {others : List Record} (before : session.Grows later file grown more)
    (after : later.Grows last grown next others) :
    session.Grows last file next (more ++ others) := by
  refine ⟨after.path_eq.trans before.path_eq, before.ucn_le.trans after.ucn_le, fun none => ?_,
    fun record head => ?_⟩
  · obtain ⟨empty, nothing⟩ := List.append_eq_nil_iff.mp none
    exact (after.still nothing).trans (before.still empty)
  · cases more with
    | nil =>
      obtain ⟨place, above, below⟩ := after.first record head
      exact ⟨place.trans (before.still rfl), before.ucn_le.trans above, below⟩
    | cons first rest =>
      obtain ⟨place, above, below⟩ := before.first record head
      exact ⟨place, above, below.trans after.ucn_le⟩

/-- A move that leaves the file as it is. -/
theorem Grows.of_same (ucn : session.store.ucn ≤ later.store.ucn) :
    session.Grows later file file [] :=
  ⟨rfl, ucn, fun _ => rfl, nofun⟩

namespace Holds

/-- What leaves file, directory and drafts leaves what the file holds. -/
theorem of_same (holds : session.Holds file records ends)
    (kept : later.store.file = session.store.file)
    (directory : later.host.directory = session.host.directory) (numbered : later.Numbered) :
    later.Holds file records ends := by
  refine ⟨kept.trans holds.file_eq, ?_, numbered⟩
  rw [directory]
  exact holds.whole

/-- A commit that writes puts one record into the file, which stands for its kept drafts. -/
theorem written (holds : session.Holds file records ends) {name : Nat} {transaction : Transaction}
    (present : session.transactions name = some transaction)
    (readable : session.Readable (.action (.commit name))) {written : Directory} {recorded : Store}
    {drafts : List Draft}
    (wrote : Transaction.write session.host.directory (session.store.release transaction.dropped)
      transaction.kept = .ok (written, recorded, drafts)) :
    ∃ grown record, recorded.file = some grown ∧ grown.path = file.path ∧
      grown.Whole written (records ++ [record]) grown.stop ∧ record.offset = file.stop ∧
      LogEntry.ofRecord written file.path record =
        LogEntry.ofDrafts session.host.directory file.path session.store.ucn transaction.kept := by
  obtain ⟨counted, fits⟩ := readable transaction present
  obtain ⟨grown, stored, moved, here, _, sized, lengths, _, same, _⟩ :=
    transaction.record_of_write (holds.numbered name transaction present) holds.file_eq wrote
      (by omega) fun draft member => (fits draft member).sized
  have fitting := sized.fits_of_drafts lengths fits
  have whole := holds.whole.writeNext fitting
  have meant := holds.whole.ofRecord_writeNext fitting
  have stop : (file.writeNext session.host.directory stored.bytes).2.stop =
      file.stop + stored.bytes.length := rfl
  have path : (file.writeNext session.host.directory stored.bytes).2.path = file.path := rfl
  have write : file.writeNext session.host.directory stored.bytes = (written, grown) := moved
  rw [← stop, write] at whole
  rw [write] at path meant
  exact ⟨grown, stored.placed file.stop, here, path, whole, rfl, meant.trans same.symm⟩

/-- A commit leaves the records of the file as they are and takes no UCN, or adds a record, and then
its drafts are refused or published. -/
theorem commit_cases (holds : session.Holds file records ends) {name : Nat}
    {transaction : Transaction} (present : session.transactions name = some transaction)
    (readable : session.Readable (.action (.commit name))) :
    ((session.step (.commit name)).Holds file records ends ∧
        (session.step (.commit name)).store.ucn = session.store.ucn ∧
        (∀ refusal, (transaction.commit session.host.directory session.store).outcome ≠
          .error (.store refusal)) ∧
        ∀ committed, (transaction.commit session.host.directory session.store).outcome =
          .ok committed → committed.ucn = none) ∨
      ∃ written recorded drafts ran grown record,
        Transaction.write session.host.directory (session.store.release transaction.dropped)
          transaction.kept = .ok (written, recorded, drafts) ∧
        (session.step (.commit name)).Holds grown (records ++ [record]) grown.stop ∧
        recorded.file = some grown ∧ grown.path = file.path ∧ record.offset = file.stop ∧
        LogEntry.ofRecord written file.path record =
          LogEntry.ofDrafts session.host.directory file.path session.store.ucn transaction.kept ∧
        ((∃ refusal, Transaction.publish recorded drafts = .error refusal ∧
            transaction.commit session.host.directory session.store =
              ⟨written, recorded, ran, none, .error (.store refusal)⟩) ∨
          ∃ published committed,
            Transaction.publish recorded drafts = .ok (published, committed) ∧
            transaction.commit session.host.directory session.store =
              ⟨written, published, ran, some committed.atoms, .ok committed⟩) := by
  have numbered := holds.numbered.step (.commit name)
  rw [step_commit present] at numbered ⊢
  obtain ⟨directory, kept, ucn, never, none⟩ | ⟨written, recorded, drafts, ran, wrote, ended⟩ :=
    transaction.commit_cases session.host.directory session.store
  · exact .inl ⟨holds.of_same kept directory numbered, ucn, never, none⟩
  · obtain ⟨grown, record, opened, path, whole, place, meant⟩ :=
      holds.written present readable wrote
    refine .inr ⟨written, recorded, drafts, ran, grown, record, wrote, ?_, opened, path, place,
      meant, ended⟩
    obtain ⟨refusal, _, report⟩ | ⟨published, committed, done, report⟩ := ended
    · rw [report] at numbered ⊢
      exact ⟨opened, whole, numbered⟩
    · rw [report] at numbered ⊢
      exact ⟨(Transaction.of_publish_eq_ok done).1.trans opened, whole, numbered⟩

/-- A commit leaves the file with the records that were there, and perhaps one more. -/
theorem commit (holds : session.Holds file records ends) {name : Nat} {transaction : Transaction}
    (present : session.transactions name = some transaction)
    (readable : session.Readable (.action (.commit name))) :
    ∃ grown more last, (session.step (.commit name)).Holds grown (records ++ more) last ∧
      session.Grows (session.step (.commit name)) file grown more := by
  obtain ⟨held, ucn, _⟩ | ⟨written, recorded, drafts, ran, grown, record, wrote, held, _, path,
    place, meant, ended⟩ := holds.commit_cases present readable
  · refine ⟨file, [], ends, ?_, .of_same ucn.ge⟩
    rw [List.append_nil]
    exact held
  · have counted : record.ucn = session.store.ucn := congrArg LogEntry.ucn meant
    have ucn : recorded.ucn = session.store.ucn := by
      rw [Store.ucn, (Transaction.map_id_of_write wrote).1]
      exact (session.store.state.slots.releaseAll_counts transaction.dropped).1
    have above : session.store.ucn ≤ (session.step (.commit name)).store.ucn := by
      rw [step_commit present]
      obtain ⟨refusal, _, report⟩ | ⟨published, committed, done, report⟩ := ended
      · rw [report]
        exact ucn.ge
      · have next := (Transaction.of_publish_eq_ok done).2.1
        rw [report]
        exact (Nat.le_succ_of_le ucn.ge).trans next.ge
    refine ⟨grown, [record], grown.stop, held, path, above, by rintro ⟨⟩, ?_⟩
    rintro _ ⟨⟩
    exact ⟨place, counted.ge, counted.le.trans above⟩

/-- A move writes the record of a commit to the file, or leaves the file as it is. -/
theorem grow (holds : session.Holds file records ends) {move : Move}
    (readable : session.Readable move) (stays : ∀ settings, move ≠ .action (.reopen settings)) :
    ∃ grown more last, (session.move move).Holds grown (records ++ more) last ∧
      session.Grows (session.move move) file grown more := by
  have still {later : Session} (directory : later.host.directory = session.host.directory)
      (kept : later.store.file = session.store.file) (ucn : session.store.ucn ≤ later.store.ucn)
      (numbered : later.Numbered) :
      ∃ grown more last, later.Holds grown (records ++ more) last ∧
        session.Grows later file grown more := by
    refine ⟨file, [], ends, ?_, .of_same ucn⟩
    rw [List.append_nil]
    exact holds.of_same kept directory numbered
  cases move with
  | call call => exact still rfl rfl (call.ucn_le_run _) holds.numbered
  | action action =>
    by_cases ending : ∃ name, action = .commit name
    · obtain ⟨name, rfl⟩ := ending
      cases present : session.transactions name with
      | some transaction => exact holds.commit present readable
      | none =>
        have same : session.step (.commit name) = session := by
          simp only [Session.step, present]
        rw [Session.move, same]
        exact still rfl rfl (Nat.le_refl _) holds.numbered
    · obtain ⟨directory, kept, _, ucn, _⟩ := session.unwritten_step (not_exists.mp ending)
        fun settings same => stays settings (congrArg Move.action same)
      exact still directory kept ucn.ge (holds.numbered.step action)

/-- Moves that do not open the file again leave the records that were there, and perhaps more. -/
theorem play_grow (holds : session.Holds file records ends) {moves : List Move}
    (readable : session.AllReadable moves)
    (stays : ∀ settings, .action (.reopen settings) ∉ moves) :
    ∃ grown more last, (session.play moves).Holds grown (records ++ more) last ∧
      session.Grows (session.play moves) file grown more := by
  induction moves generalizing session file records ends with
  | nil =>
    refine ⟨file, [], ends, ?_, .of_same (Nat.le_refl _)⟩
    rw [List.append_nil]
    exact holds
  | cons move rest ih =>
    obtain ⟨first, others⟩ := readable
    obtain ⟨grown, more, last, held, grows⟩ := holds.grow first
      fun settings same => stays settings (same ▸ List.mem_cons_self)
    obtain ⟨next, further, final, holding, growing⟩ := ih held others
      fun settings member => stays settings (List.mem_cons_of_mem _ member)
    rw [List.append_assoc] at holding
    exact ⟨next, more ++ further, final, holding, grows.trans growing⟩

/-- A store that is opened again goes on with the records of its file. -/
theorem reopen (holds : session.Holds file records ends) (settings : Settings) :
    ∃ next last, (session.step (.reopen settings)).Holds next records last ∧
      next.path = file.path := by
  cases opened : Store.openFile session.host { settings with path := file.path } with
  | mk host outcome =>
    cases outcome with
    | error failure =>
      have same : session.step (.reopen settings) = session := by
        simp only [Session.step, holds.file_eq, opened]
      rw [same]
      exact ⟨file, ends, holds, rfl⟩
    | ok store =>
      obtain ⟨taken, recovered⟩ := holds.whole.recovered_of_openFile opened
      obtain ⟨read, summary, found, recovery⟩ := holds.whole.recover_again recovered
        settings.sync settings.readOnly settings.repairTornTail
      obtain ⟨_, _, again, directory, _, kept⟩ :=
        Store.openFile_eq_ok { settings with path := file.path } found recovery
      rw [opened] at again
      cases again
      have step : session.step (.reopen settings) = fresh host store := by
        simp only [Session.step, holds.file_eq, opened]
      have whole := holds.whole.settled settings.sync settings.readOnly
      rw [← directory] at whole
      rw [step]
      exact ⟨_, ends, ⟨kept, whole, numbered_fresh host store⟩, rfl⟩

/-- The file of a session never loses a record. -/
theorem play (holds : session.Holds file records ends) {moves : List Move}
    (readable : session.AllReadable moves) :
    ∃ grown more last, (session.play moves).Holds grown (records ++ more) last ∧
      grown.path = file.path := by
  induction moves generalizing session file records ends with
  | nil =>
    refine ⟨file, [], ends, ?_, rfl⟩
    rw [List.append_nil]
    exact holds
  | cons move rest ih =>
    obtain ⟨first, others⟩ := readable
    by_cases closing : ∃ settings, move = .action (.reopen settings)
    · obtain ⟨settings, rfl⟩ := closing
      obtain ⟨next, last, held, path⟩ := holds.reopen settings
      obtain ⟨grown, more, final, holding, same⟩ := ih held others
      exact ⟨grown, more, final, holding, same.trans path⟩
    · obtain ⟨next, more, last, held, grows⟩ := holds.grow first (not_exists.mp closing)
      obtain ⟨grown, further, final, holding, same⟩ := ih held others
      rw [List.append_assoc] at holding
      exact ⟨grown, more ++ further, final, holding, same.trans grows.path_eq⟩

end Holds

/-- Sessions on data files whose states others can reach, and that commit what can be read back. -/
inductive Exposed : Session → Prop where
  | created {host next : Host} {settings : Settings} {storeId : StoreId} {metadata : Metadata}
      {store : Store} (created : Store.create host settings storeId metadata = (next, .ok store)) :
      Exposed (fresh next store)
  | opened {host next : Host} {settings : Settings} {store : Store}
      (opened : Store.openFile host settings = (next, .ok store)) : Exposed (fresh next store)
  | move {session : Session} (before : Exposed session) (move : Move)
      (readable : session.Readable move) : Exposed (session.move move)

/-- An exposed session holds a file of whole records. -/
theorem Exposed.holds (exposed : session.Exposed) :
    ∃ file records ends, session.Holds file records ends := by
  induction exposed with
  | created created =>
    obtain ⟨file, backed⟩ := backed_created created
    exact ⟨file, [], file.stop, backed.file_eq, backed.whole, numbered_fresh _ _⟩
  | opened opened =>
    obtain ⟨file, records, ends, _, backed⟩ := backed_opened opened
    exact ⟨file, records, ends, backed.file_eq, backed.whole, numbered_fresh _ _⟩
  | move _ move readable ih =>
    obtain ⟨file, records, ends, holds⟩ := ih
    have one : AllReadable _ [move] := ⟨readable, trivial⟩
    obtain ⟨next, more, last, held, _⟩ := holds.play one
    exact ⟨next, records ++ more, last, held⟩

/-- What a commit that the state has refused leaves behind: memory in which only the dropped drafts
are gone, and a file with the record of all kept ones. -/
structure Refused (session after : Session) (transaction : Transaction) (file next : DataFile)
    (refusal : StoreError) : Prop where
  reason : ∃ front id back, transaction.kept.map (·.id) = front ++ id :: back ∧
    refusal = .slotNotPending id ∧ session.store.state.slots.slot id ≠ .pending ∧
    ∀ other ∈ front, session.store.state.slots.slot other = .pending
  memory : after.store = { session.store.release transaction.dropped with file := some next }
  path_eq : next.path = file.path
  recorded : ∃ record, (next.scan after.host.directory).records =
      (file.scan session.host.directory).records ++ [record] ∧
    record.offset = file.stop ∧
    LogEntry.ofRecord after.host.directory file.path record =
      LogEntry.ofDrafts session.host.directory file.path session.store.ucn transaction.kept

/-- The state refuses drafts for the first of them whose slot is not reserved any more. -/
theorem reason_of_publish {transaction : Transaction} {written : Directory} {recorded : Store}
    {drafts : List Draft} {refusal : StoreError} (numbered : transaction.Numbered)
    (wrote : Transaction.write session.host.directory (session.store.release transaction.dropped)
      transaction.kept = .ok (written, recorded, drafts))
    (refused : Transaction.publish recorded drafts = .error refusal) :
    ∃ front id back, transaction.kept.map (·.id) = front ++ id :: back ∧
      refusal = .slotNotPending id ∧ session.store.state.slots.slot id ≠ .pending ∧
      ∀ other ∈ front, session.store.state.slots.slot other = .pending := by
  obtain ⟨state, _, ids⟩ := Transaction.map_id_of_write wrote
  obtain ⟨front, id, back, split, reason, free, reserved⟩ := Transaction.publish_eq_error refused
  rw [ids] at split
  have slot {other : Nat} (member : other ∈ transaction.kept.map (·.id)) :
      recorded.state.slots.slot other = session.store.state.slots.slot other := by
    rw [state]
    have kept := Transaction.not_mem_dropped_of_kept numbered member
    exact (Slots.slot_releaseAll ..).trans (if_neg fun both => kept both.1)
  rw [split] at slot
  refine ⟨front, id, back, split, reason, ?_, fun other member => ?_⟩
  · rw [← slot (List.mem_append_right _ List.mem_cons_self)]
    exact free
  · rw [← slot (List.mem_append_left _ member)]
    exact reserved other member

/-- A commit that is refused at its publication leaves its record in the file. -/
theorem Holds.refused (holds : session.Holds file records ends) {name : Nat}
    {transaction : Transaction} (present : session.transactions name = some transaction)
    (readable : session.Readable (.action (.commit name))) {refusal : StoreError}
    (refused : (transaction.commit session.host.directory session.store).outcome =
      .error (.store refusal)) :
    ∃ next record, (session.step (.commit name)).Holds next (records ++ [record]) next.stop ∧
      record.ucn = session.store.ucn ∧
      (transaction.commit session.host.directory session.store).announced = none ∧
      session.Refused (session.step (.commit name)) transaction file next refusal := by
  obtain ⟨_, _, never, _⟩ | ⟨written, recorded, drafts, ran, next, record, wrote, held, opened,
    path, place, meant, ⟨reason, declined, report⟩ | ⟨published, committed, _, report⟩⟩ :=
    holds.commit_cases present readable
  · exact absurd refused (never refusal)
  · have scans := congrArg Log.Scan.records held.whole.scan_eq
    have memory : (session.step (.commit name)).store = recorded := by
      rw [step_commit present, report]
      rfl
    have directory : (session.step (.commit name)).host.directory = written := by
      rw [step_commit present, report]
      rfl
    obtain ⟨absent, _⟩ | ⟨_, grown, _, _, _, rfl, _⟩ := Transaction.write_eq_ok wrote
    · have missing : session.store.file = none := absent
      rw [holds.file_eq] at missing
      cases missing
    · obtain rfl : grown = next := Option.some.inj opened
      rw [report] at refused ⊢
      cases refused
      refine ⟨grown, record, held, congrArg LogEntry.ucn meant, rfl,
        reason_of_publish (holds.numbered name transaction present) wrote declined, memory, path,
        record, ?_, place, directory ▸ meant⟩
      rw [scans, holds.whole.scan_eq]
  · rw [report] at refused
    cases refused

/-- A file that opens up to a commit that the state refuses opens after it too, and then the refused
drafts are atoms. -/
theorem Holds.openFile_of_refused (holds : session.Holds file records ends) {taken : Slots}
    (recovered : Recovered taken records) (ordered : taken.ucn ≤ session.store.ucn) {name : Nat}
    {transaction : Transaction} (present : session.transactions name = some transaction)
    (free : ∀ id ∈ transaction.kept.map (·.id), taken.atom? id = none)
    (readable : session.Readable (.action (.commit name))) {refusal : StoreError}
    (refused : (transaction.commit session.host.directory session.store).outcome =
      .error (.store refusal)) (settings : Settings) :
    ∃ host store, Store.openFile (session.step (.commit name)).host
        { settings with path := file.path } = (host, .ok store) ∧
      ∀ id ∈ transaction.kept.map (·.id), (store.state.slots.atom? id).isSome = true := by
  obtain ⟨next, record, held, ucn, _, left⟩ := holds.refused present readable refused
  obtain ⟨same, scans, _, meant⟩ := left.recorded
  rw [held.whole.scan_eq, holds.whole.scan_eq] at scans
  obtain rfl : record = same := List.singleton_inj.mp (List.append_cancel_left scans)
  have numbers : record.atoms.map (·.id) = transaction.kept.map (·.id) := by
    have atoms := congrArg (fun entry => entry.atoms.map Prod.fst) meant
    simp only [LogEntry.ofRecord, LogEntry.ofDrafts, List.map_map] at atoms
    exact atoms
  obtain ⟨later, grown, _, _, slots⟩ := recovered.next (ordered.trans ucn.ge)
    (by rw [numbers]; exact transaction.nodup_kept (holds.numbered name transaction present))
    fun atom member => free atom.id (numbers ▸ List.mem_map_of_mem member)
  obtain ⟨read, summary, found, recovery⟩ := held.whole.recover_again grown settings.sync
    settings.readOnly settings.repairTornTail
  rw [left.path_eq] at found
  obtain ⟨host, store, opened, _, filled, _⟩ :=
    Store.openFile_eq_ok { settings with path := file.path } found recovery
  refine ⟨host, store, opened, fun id member => ?_⟩
  rw [filled, Slots.atom?_settle, slots, Option.isSome_or, isSome_atomFor?.mpr (numbers ▸ member)]
  rfl

/-- A commit that takes a UCN adds a record under it. -/
theorem Holds.taken (holds : session.Holds file records ends) {name : Nat}
    {transaction : Transaction} (present : session.transactions name = some transaction)
    (readable : session.Readable (.action (.commit name))) {committed : Committed}
    (succeeded : (transaction.commit session.host.directory session.store).outcome = .ok committed)
    (counted : committed.ucn ≠ none) :
    ∃ next record, (session.step (.commit name)).Holds next (records ++ [record]) next.stop ∧
      next.path = file.path ∧ record.ucn = session.store.ucn ∧ record.offset = file.stop := by
  obtain ⟨_, _, _, none⟩ | ⟨_, _, _, _, next, record, _, held, _, path, place, meant, _⟩ :=
    holds.commit_cases present readable
  · exact absurd (none committed succeeded) counted
  · exact ⟨next, record, held, path, congrArg LogEntry.ucn meant, place⟩

/-- A file that opens after a commit that the state refuses is ahead of the store by one UCN. -/
theorem Refused.ahead {after : Session} {transaction : Transaction} {refusal : StoreError}
    (left : session.Refused after transaction file next refusal) {record : Record}
    {prior : Settings}
    (holds : after.Holds next (records ++ [record]) ends) (ucn : record.ucn = session.store.ucn)
    {host : Host} {store : Store}
    (accepted : Store.openFile after.host { prior with path := file.path } = (host, .ok store)) :
    after.store.ucn = session.store.ucn ∧ ∃ taken, Recovered taken (records ++ [record]) ∧
      taken.ucn = after.store.ucn + 1 := by
  have waiting : after.store.ucn = session.store.ucn := by
    rw [left.memory]
    exact (session.store.state.slots.releaseAll_counts transaction.dropped).1
  rw [← left.path_eq] at accepted
  obtain ⟨taken, recovered⟩ := holds.whole.recovered_of_openFile accepted
  refine ⟨waiting, taken, recovered, ?_⟩
  rw [recovered.ucn_eq, List.getLast?_concat, waiting, ← ucn]
  rfl

/-- When the file of a store has a record under the UCN of the next commit, it stops to open with
the next commit that takes this UCN, whatever is done then: it is refused at the place behind that
record, for a UCN that is out of order. -/
theorem Holds.openFile_of_repeated (holds : session.Holds file records ends) {taken : Slots}
    (recovered : Recovered taken records) (ahead : taken.ucn = session.store.ucn + 1)
    {moves : List Move} (stays : ∀ settings, .action (.reopen settings) ∉ moves)
    (readable : session.AllReadable moves) (plays : session.play moves = later)
    (still : later.store.ucn = session.store.ucn) {name : Nat} {transaction : Transaction}
    (present : later.transactions name = some transaction) {committed : Committed}
    (succeeded : (transaction.commit later.host.directory later.store).outcome = .ok committed)
    (counted : committed.ucn ≠ none) {rest : List Move}
    (readables : later.AllReadable (.action (.commit name) :: rest))
    (ended : later.play (.action (.commit name) :: rest) = last) (settings : Settings) :
    ∃ failing, Store.openFile last.host { settings with path := file.path } =
      (failing, .error (.dataFile
        (.ucnOutOfOrder file.stop session.store.ucn (session.store.ucn + 1)))) := by
  obtain ⟨grown, between, _, held, grows⟩ := holds.play_grow readable stays
  rw [plays] at held grows
  obtain ⟨_, again, doubled, path, same, place⟩ :=
    held.taken present readables.1 succeeded counted
  obtain ⟨_, beyond, _, final, kept⟩ := doubled.play readables.2
  -- the first record behind the one that is ahead, whichever commit has written it
  obtain ⟨second, others, split, behind, repeated⟩ : ∃ second others,
      between ++ [again] = second :: others ∧ second.offset = file.stop ∧
        second.ucn = session.store.ucn := by
    cases between with
    | nil => exact ⟨again, [], rfl, place.trans (grows.still rfl), same.trans still⟩
    | cons second others =>
      obtain ⟨place, above, below⟩ := grows.first second rfl
      exact ⟨second, others ++ [again], rfl, place, Nat.le_antisymm (still ▸ below) above⟩
  have whole := final.whole
  rw [List.append_assoc records, split, List.append_assoc, List.cons_append] at whole
  obtain ⟨failing, failed, _⟩ := whole.openFile_eq_unordered recovered (by omega) settings
  rw [kept, path, grows.path_eq, behind, repeated, ahead] at failed
  rw [← ended]
  exact ⟨failing, failed⟩

/-- A session on a new file in which the slot of a draft is emptied by others before the commit, and
another transaction commits afterwards. -/
theorem exists_forgotten :
    ∃ session file transaction later another committed, Exposed session ∧
      session.Holds file [] file.stop ∧ session.store.ucn = 1 ∧
      session.transactions 0 = some transaction ∧ transaction.kept.map (·.id) = [0] ∧
      session.Readable (.action (.commit 0)) ∧
      (transaction.commit session.host.directory session.store).outcome =
        .error (.store (.slotNotPending 0)) ∧
      (session.step (.commit 0)).AllReadable [.action (.begin 1), .action (.createAtom 1)] ∧
      (session.step (.commit 0)).play [.action (.begin 1), .action (.createAtom 1)] = later ∧
      later.store.ucn = 1 ∧ later.transactions 1 = some another ∧
      (another.commit later.host.directory later.store).outcome = .ok committed ∧
      committed.ucn = some 1 ∧ later.Readable (.action (.commit 1)) := by
  obtain ⟨host, indices, path, header, sync, created, _⟩ := Store.exists_created 0
  let file : DataFile := ⟨path, header, 40, 40, sync, false⟩
  let store : Store := ⟨{ hostedThreshold := 0 }, ⟨.empty, indices⟩, some file, false, false⟩
  let moves : List Move := [.action (.begin 0), .action (.createAtom 0), .call (.forget 0)]
  let session := (fresh host store).play moves
  have exposed : session.Exposed :=
    (((Exposed.created created).move (.action (.begin 0)) trivial).move
      (.action (.createAtom 0)) trivial).move (.call (.forget 0)) trivial
  obtain ⟨_, backed⟩ := backed_created created
  obtain rfl := Option.some.inj backed.file_eq
  have numbered : session.Numbered := by
    obtain ⟨_, _, _, holds⟩ := exposed.holds
    exact holds.numbered
  have holds : session.Holds file [] file.stop := ⟨rfl, backed.whole, numbered⟩
  have counted : 1 < 2 ^ 64 - 1 := by decide
  have fits {drafts : List Draft} (id : Nat) (small : id < 2 ^ 64) (same : drafts = [{ id }]) :
      ∀ draft ∈ drafts, draft.Fits := by
    rw [same, List.forall_mem_singleton]
    exact ⟨small, nofun⟩
  refine ⟨session, file, _, _, _, _, exposed, holds, rfl, rfl, rfl, ?_, rfl, ⟨trivial, trivial,
    trivial⟩, rfl, rfl, rfl, rfl, rfl, ?_⟩
  · intro transaction present
    obtain rfl := Option.some.inj present
    exact ⟨counted, fits 0 (by decide) rfl⟩
  · intro transaction present
    obtain rfl := Option.some.inj present
    exact ⟨counted, fits 1 (by decide) rfl⟩

/-- A commit that the state refuses has written its record all the same. As soon as another commit
takes its UCN, the file does not open any more, whatever is done: it is refused at the place behind
that record, for a UCN that is out of order. -/
theorem Exposed.commit_refused (exposed : session.Exposed)
    (opened : session.store.file = some file) {name : Nat} {transaction : Transaction}
    (present : session.transactions name = some transaction)
    (readable : session.Readable (.action (.commit name))) {refusal : StoreError}
    (refused : (transaction.commit session.host.directory session.store).outcome =
      .error (.store refusal)) {after : Session} (stepped : session.step (.commit name) = after) :
    (transaction.commit session.host.directory session.store).announced = none ∧
    ∃ next, session.Refused after transaction file next refusal ∧
      ∀ (prior : Settings) (host : Host) (store : Store),
        Store.openFile after.host { prior with path := file.path } = (host, .ok store) →
        ∀ moves later, (∀ settings, .action (.reopen settings) ∉ moves) →
          after.AllReadable moves → after.play moves = later →
          later.store.ucn = session.store.ucn →
          ∀ other another committed, later.transactions other = some another →
            (another.commit later.host.directory later.store).outcome = .ok committed →
            committed.ucn ≠ none →
            ∀ more last, later.AllReadable (.action (.commit other) :: more) →
              later.play (.action (.commit other) :: more) = last →
              ∀ settings : Settings, ∃ failing,
                Store.openFile last.host { settings with path := file.path } =
                  (failing, .error (.dataFile (.ucnOutOfOrder next.stop session.store.ucn
                    (session.store.ucn + 1)))) := by
  obtain ⟨_, records, ends, holds⟩ := exposed.holds
  obtain rfl := Option.some.inj (opened.symm.trans holds.file_eq)
  obtain ⟨next, record, held, ucn, silent, left⟩ := holds.refused present readable refused
  rw [stepped] at held left
  refine ⟨silent, next, left, ?_⟩
  intro prior host store accepted moves later stays readables plays still other another committed
    here succeeded counted more last further ended settings
  obtain ⟨waiting, taken, recovered, ahead⟩ := left.ahead held ucn accepted
  rw [← waiting] at still ⊢
  rw [← left.path_eq]
  exact held.openFile_of_repeated recovered ahead stays readables plays still here succeeded counted
    further ended settings

/-- A slot is forgotten before its draft is committed. The file opens with the refused atom after
that, and not at all once another atom is committed. -/
theorem commit_refused_of_forgotten :
    ∃ (session later : Session) (file next : DataFile) (transaction : Transaction),
      session.Exposed ∧ session.transactions 0 = some transaction ∧
      session.Refused (session.step (.commit 0)) transaction file next (.slotNotPending 0) ∧
      (∃ host store, Store.openFile (session.step (.commit 0)).host { path := file.path } =
        (host, .ok store) ∧ (store.state.slots.atom? 0).isSome = true) ∧
      (session.step (.commit 0)).play [.action (.begin 1), .action (.createAtom 1)] = later ∧
      ∃ failing, Store.openFile (later.step (.commit 1)).host { path := file.path } =
        (failing, .error (.dataFile (.ucnOutOfOrder next.stop 1 2))) := by
  obtain ⟨session, file, transaction, later, another, committed, exposed, holds, ucn, present, kept,
    readable, refused, readables, plays, still, here, succeeded, counted, last⟩ := exists_forgotten
  obtain ⟨host, store, opened, filled⟩ := holds.openFile_of_refused .nothing ucn.ge present
    (fun _ _ => rfl) readable refused {}
  obtain ⟨_, next, left, failing⟩ :=
    exposed.commit_refused holds.file_eq present readable refused rfl
  have taken : committed.ucn ≠ none := by
    rw [counted]
    exact nofun
  have failed := failing {} host store opened _ later (by simp) readables plays
    (still.trans ucn.symm) 1 another committed here succeeded taken [] _ ⟨last, trivial⟩ rfl {}
  rw [ucn] at failed
  exact ⟨session, later, file, next, transaction, exposed, present, left,
    ⟨host, store, opened, filled 0 (by rw [kept]; exact List.mem_cons_self)⟩, plays, failed⟩

/-- A commit that the state refuses can change the file, and after another commit that succeeds the
file can be one that does not open. -/
theorem not_unchanged_of_refused :
    ∃ (session later : Session) (file : DataFile) (transaction another : Transaction)
      (committed : Committed),
      session.Exposed ∧ session.store.file = some file ∧
      session.transactions 0 = some transaction ∧
      (transaction.commit session.host.directory session.store).outcome =
        .error (.store (.slotNotPending 0)) ∧
      (session.step (.commit 0)).host.directory.content file.path ≠
        session.host.directory.content file.path ∧
      (session.step (.commit 0)).play [.action (.begin 1), .action (.createAtom 1)] = later ∧
      later.transactions 1 = some another ∧
      (another.commit later.host.directory later.store).outcome = .ok committed ∧
      ∀ settings : Settings, ∃ failing failure,
        Store.openFile (later.step (.commit 1)).host { settings with path := file.path } =
          (failing, .error failure) := by
  obtain ⟨session, file, transaction, later, another, committed, exposed, holds, ucn, present, _,
    readable, refused, readables, plays, still, here, succeeded, counted, last⟩ := exists_forgotten
  obtain ⟨next, record, held, same, _, left⟩ := holds.refused present readable refused
  obtain ⟨host, store, opened, _⟩ := holds.openFile_of_refused .nothing ucn.ge present
    (fun _ _ => rfl) readable refused {}
  obtain ⟨waiting, taken, recovered, ahead⟩ := left.ahead held same opened
  have counts : committed.ucn ≠ none := by
    rw [counted]
    exact nofun
  refine ⟨session, later, file, transaction, another, committed, exposed, holds.file_eq, present,
    refused, holds.whole.content_ne held.whole left.path_eq, plays, here, succeeded,
    fun settings => ?_⟩
  have once : later.AllReadable [.action (.commit 1)] := ⟨last, trivial⟩
  obtain ⟨failing, failed⟩ := held.openFile_of_repeated recovered ahead (by simp) readables plays
    (still.trans (ucn.symm.trans waiting.symm)) here succeeded counts once rfl settings
  rw [left.path_eq] at failed
  exact ⟨failing, _, failed⟩

end Session
end AtomStore
