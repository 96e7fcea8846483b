import AtomStore.Proofs.Store.WholeFile

/-!
# Stores with data files

A session on a data file starts with its creation, or with the opening of any file that is accepted.
As long as what is committed can be read back, the file holds the records of all commits, and a
table recovered from them counts as far as the store and holds an atom in just the slots where the
store holds one. So the file opens again at every point of the session.
-/

namespace AtomStore

open Log (Record StoredRecord)

namespace Session

/-- Sessions on data files, created or opened, of actions that meet a condition. -/
inductive OnFile (condition : Session → Action → Prop) : Session → Prop where
  | created {host next : Host} {settings : Settings} {storeId : StoreId} {metadata : Metadata}
      {store : Store} (created : Store.create host settings storeId metadata = (next, .ok store)) :
      OnFile condition (fresh next store)
  | opened {host next : Host} {settings : Settings} {store : Store}
      (opened : Store.openFile host settings = (next, .ok store)) :
      OnFile condition (fresh next store)
  | step {session : Session} (before : OnFile condition session) (action : Action)
      (meets : condition session action) : OnFile condition (session.step action)

namespace OnFile

variable {session : Session} {condition weaker : Session → Action → Prop}

/-- A session on a file is one that can be reached. -/
theorem reachable (onFile : OnFile condition session) : session.Reachable := by
  induction onFile with
  | created created => exact .created created
  | opened opened => exact .opened opened
  | step _ action _ ih => exact ih.step action

/-- A session on a file under a condition is one under every weaker condition. -/
theorem mono (onFile : OnFile condition session)
    (implies : ∀ session action, condition session action → weaker session action) :
    OnFile weaker session := by
  induction onFile with
  | created created => exact .created created
  | opened opened => exact .opened opened
  | step _ action meets ih => exact ih.step action (implies _ action meets)

end OnFile

/-- Sessions on data files that commit what can be read back. -/
abbrev Filed (session : Session) : Prop := OnFile Fits session

/-- The data file of a session holds some records, and a table that has taken them in has come as
far as the store. -/
structure Backed (session : Session) (file : DataFile) (records : List Record) (ends : Nat)
    (taken : Slots) : Prop where
  file_eq : session.store.file = some file
  whole : file.Whole session.host.directory records ends
  recovered : Recovered taken records
  ucn_eq : taken.ucn = session.store.ucn
  occupied : ∀ id, (taken.atom? id).isSome = (session.store.state.slots.atom? id).isSome

variable {session : Session} {file : DataFile} {records : List Record} {ends : Nat} {taken : Slots}

namespace Backed

/-- A session that writes nothing stays backed by its file. -/
theorem of_unwritten (backed : session.Backed file records ends taken) {next : Session}
    (unwritten : session.Unwritten next) : next.Backed file records ends taken where
  file_eq := unwritten.file_eq.trans backed.file_eq
  whole := by
    rw [unwritten.directory_eq]
    exact backed.whole
  recovered := backed.recovered
  ucn_eq := backed.ucn_eq.trans unwritten.ucn_eq.symm
  occupied id := by
    rw [unwritten.atom?_eq]
    exact backed.occupied id

/-- The file of the store opens under any switches, and the store holds the recovered atoms. -/
theorem openFile_eq (backed : session.Backed file records ends taken) (settings : Settings) :
    ∃ host store, Store.openFile session.host { settings with path := file.path } =
        (host, .ok store) ∧
      host.directory = session.host.directory ∧ store.state.slots = taken.settle.2 ∧
      store.file = some { file with
        stop := ends, sync := settings.sync, readOnly := settings.readOnly } := by
  obtain ⟨fresh, summary, opened, recovered⟩ := backed.whole.recover_again backed.recovered
    settings.sync settings.readOnly settings.repairTornTail
  exact Store.openFile_eq_ok { settings with path := file.path } opened recovered

/-- A store that is opened again goes on with its file, and holds the recovered atoms. -/
theorem reopened (backed : session.Backed file records ends taken) (settings : Settings) :
    (session.step (.reopen settings)).Backed
        { file with stop := ends, sync := settings.sync, readOnly := settings.readOnly }
        records ends taken ∧
      (session.step (.reopen settings)).host.directory = session.host.directory ∧
      ∀ id, (session.step (.reopen settings)).store.state.slots.atom? id = taken.atom? id := by
  obtain ⟨host, store, opened, same, slots, kept⟩ := backed.openFile_eq settings
  have step : session.step (.reopen settings) = Session.fresh host store := by
    simp only [Session.step, backed.file_eq, opened]
  have atoms (id : Nat) : store.state.slots.atom? id = taken.atom? id := by
    rw [slots, Slots.atom?_settle]
  rw [step]
  refine ⟨⟨kept, ?_, backed.recovered, ?_, fun id => congrArg Option.isSome (atoms id).symm⟩, same,
    atoms⟩
  · have whole := backed.whole.settled settings.sync settings.readOnly
    rw [← same] at whole
    exact whole
  · have counted : store.ucn = taken.settle.2.ucn := congrArg Slots.ucn slots
    exact counted.symm

/-- A commit that publishes drafts adds its record to the file. -/
theorem published (backed : session.Backed file records ends taken) {name : Nat}
    {transaction : Transaction} {written : Directory} {recorded : Store} {drafts : List Draft}
    (owned : session.Owned) (present : session.transactions name = some transaction)
    (wrote : Transaction.write session.host.directory (session.store.release transaction.dropped)
      transaction.kept = .ok (written, recorded, drafts))
    (directory : (session.step (.commit name)).host.directory = written)
    (kept : (session.step (.commit name)).store.file = recorded.file)
    (stepped : (session.step (.commit name)).store =
      (transaction.commit session.host.directory session.store).store)
    (published : (transaction.commit session.host.directory session.store).Published session.store
      transaction.dropped drafts)
    (counted : session.store.ucn < 2 ^ 64) (fits : ∀ draft ∈ transaction.kept, draft.Fits) :
    ∃ (next : DataFile) (record : StoredRecord) (later : Slots),
      file.writeNext session.host.directory record.bytes =
        ((session.step (.commit name)).host.directory, next) ∧
      (session.step (.commit name)).Backed next (records ++ [record.placed file.stop]) next.stop
        later ∧
      record.Fits file.header.version ∧
      (record.placed file.stop).atoms = (session.store.sealedAtoms drafts).map (Atom.recorded
        (file.hosting session.store.settings.hostedThreshold) session.host.directory file.path) ∧
      LogEntry.ofDrafts session.host.directory file.path session.store.ucn transaction.kept =
        LogEntry.ofStored record ∧
      (file.hosting session.store.settings.hostedThreshold = false →
        drafts = transaction.kept) ∧
      ∀ id, later.atom? id =
        (atomFor? (record.placed file.stop).atoms id).or (taken.atom? id) := by
  have numbered := owned.numbered name transaction present
  have pending := owned.pending name transaction present
  have parts := transaction.mem_keys_iff_dropped_or_kept numbered
  obtain ⟨_, _, ids⟩ := Transaction.map_id_of_write wrote
  obtain ⟨next, record, moved, here, ucn, sized, lengths, atoms, same, inline⟩ :=
    transaction.record_of_write numbered backed.file_eq wrote counted
      fun draft member => (fits draft member).sized
  have fitting := sized.fits_of_drafts lengths fits
  have numbers : (record.placed file.stop).atoms.map (·.id) = drafts.map (·.id) := by
    rw [atoms, List.map_map, ← session.store.map_id_sealedAtoms drafts]
    rfl
  have live := published.atom?_eq
    (fun id member => pending id ((parts id).mpr (.inl member)))
    (fun id member => Transaction.not_mem_dropped_of_kept numbered (ids ▸ member))
  have free : ∀ atom ∈ (record.placed file.stop).atoms, taken.atom? atom.id = none := by
    intro atom member
    have inside : atom.id ∈ transaction.kept.map (·.id) := by
      rw [← ids, ← numbers]
      exact List.mem_map_of_mem member
    have same := backed.occupied atom.id
    rw [Slots.atom?_eq session.store.state.slots,
      pending atom.id ((parts atom.id).mpr (.inr inside))] at same
    exact Option.isNone_iff_eq_none.mp (Option.isSome_eq_false_iff.mp same)
  obtain ⟨later, recovered, next_ucn, _, held⟩ := backed.recovered.next
    (backed.ucn_eq.trans ucn.symm).le (by rw [numbers, ids]; exact transaction.nodup_kept numbered)
    free
  have grown : file.writeNext session.host.directory record.bytes =
      ((session.step (.commit name)).host.directory, next) := by
    rw [directory]
    exact moved
  have whole := backed.whole.writeNext fitting
  have stop : (file.writeNext session.host.directory record.bytes).2.stop =
      file.stop + record.bytes.length := rfl
  rw [← stop, grown] at whole
  refine ⟨next, record, later, grown, ⟨kept.trans here, whole, recovered, ?_, ?_⟩, fitting, atoms,
    same, inline, held⟩
  · rw [next_ucn, stepped, published.ucn_eq]
    exact congrArg (· + 1) ucn
  · intro id
    have same : (atomFor? (record.placed file.stop).atoms id).isSome =
        (atomFor? (session.store.sealedAtoms drafts) id).isSome := by
      rw [Bool.eq_iff_iff, isSome_atomFor?, isSome_atomFor?, numbers, Store.map_id_sealedAtoms]
    rw [held, stepped, live, Option.isSome_or, Option.isSome_or, backed.occupied, same]

end Backed

/-- A store on a new file is backed by it. -/
theorem backed_created {host next : Host} {settings : Settings} {storeId : StoreId}
    {metadata : Metadata} {store : Store}
    (created : Store.create host settings storeId metadata = (next, .ok store)) :
    ∃ file, (fresh next store).Backed file [] file.stop .empty := by
  cases made : DataFile.create host.directory settings.path storeId Store.currentVersion metadata
      settings.sync with
  | error failure =>
    simp only [Store.create, made] at created
    cases created
  | ok result =>
    obtain ⟨directory, file⟩ := result
    simp only [Store.create, made, Host.newState] at created
    cases created
    exact ⟨file, rfl, DataFile.whole_create made, .nothing, rfl, fun _ => rfl⟩

/-- A store on a file that opens is backed by it. -/
theorem backed_opened {host next : Host} {settings : Settings} {store : Store}
    (opened : Store.openFile host settings = (next, .ok store)) :
    ∃ file records ends taken, (fresh next store).Backed file records ends taken := by
  rw [Store.openFile] at opened
  split at opened
  · cases opened
  · rename_i file found
    simp only at opened
    split at opened
    · cases opened
    · rename_i summary recovered
      cases opened
      obtain ⟨records, ends, taken, whole, feeding, slots⟩ := DataFile.whole_recover found recovered
      refine ⟨_, records, ends, taken, rfl, whole, feeding, ?_, fun id => ?_⟩
      · exact (congrArg Slots.ucn slots).symm
      · have atoms := congrArg (fun slots => (slots.atom? id).isSome) slots
        simp only [Slots.atom?_settle] at atoms
        exact atoms.symm

/-- Every action leaves the store backed, as long as what is committed can be read back. -/
theorem Backed.step (backed : session.Backed file records ends taken) (owned : session.Owned)
    {action : Action} (fits : session.Fits action) :
    ∃ next history last later, (session.step action).Backed next history last later := by
  by_cases closing : ∃ settings, action = .reopen settings
  · obtain ⟨settings, rfl⟩ := closing
    exact ⟨_, records, ends, taken, (backed.reopened settings).1⟩
  · rcases owned.step_cases (not_exists.mp closing) with unwritten | ⟨name, transaction, written,
      recorded, drafts, rfl, present, wrote, directory, kept, stepped, published⟩
    · exact ⟨file, records, ends, taken, backed.of_unwritten unwritten⟩
    · obtain ⟨counted, short⟩ := fits name transaction _ rfl present published.outcome_eq
      obtain ⟨_, _, later, _, kept, _⟩ := backed.published owned present wrote directory kept
        stepped published (by omega) short
      exact ⟨_, _, _, later, kept⟩

/-- At every point of a session on a data file, the file backs the store. -/
theorem Filed.backed (filed : session.Filed) :
    ∃ file records ends taken, session.Backed file records ends taken := by
  induction filed with
  | created created =>
    obtain ⟨file, backed⟩ := backed_created created
    exact ⟨file, [], file.stop, .empty, backed⟩
  | opened opened => exact backed_opened opened
  | step before action fits ih =>
    obtain ⟨_, _, _, _, backed⟩ := ih
    exact backed.step before.reachable.owned fits

/-- A session on a new file that is about to commit a run of bytes, which is not hosted. -/
theorem exists_binding (payload : Bytes) :
    ∃ session file transaction committed, Filed session ∧ session.store.file = some file ∧
      session.store.ucn = 1 ∧ session.transactions 0 = some transaction ∧
      transaction.kept = [⟨0, .ofList [(1, .bytes payload)]⟩] ∧
      (transaction.commit session.host.directory session.store).outcome = .ok committed ∧
      ∃ atom ∈ committed.atoms, atom.id = 0 := by
  obtain ⟨host, indices, path, header, sync, created, _⟩ := Store.exists_created 0
  let session := binding host
    ⟨{ hostedThreshold := 0 }, ⟨.empty, indices⟩,
      some ⟨path, header, 40, 40, sync, false⟩, false, false⟩ (.bytes payload)
  have filed : session.Filed := .step (.step (.step (.created created) (.begin 0) nofun)
    (.createAtom 0) nofun) (.edit 0 0 (.bind 1 (.bytes payload))) nofun
  exact ⟨session, _, _, _, filed, rfl, rfl, rfl, rfl, rfl, _, List.mem_cons_self, rfl⟩

end Session
end AtomStore
