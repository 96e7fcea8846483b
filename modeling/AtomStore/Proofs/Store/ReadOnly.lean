import AtomStore.Proofs.Store.Backed
import AtomStore.Proofs.Store.Ledger
import AtomStore.Proofs.Store.Repair
import AtomStore.Workspace

/-!
# Stores opened read-only

A store whose file was opened read-only stays read-only, since the switch asks the open file. So
every commit is refused before a verifier is asked, nothing is written, and all that transactions
leave behind in memory are empty slots. Nor is a torn record cut off on opening, whatever the
settings say.
-/

namespace AtomStore

namespace Workspace

theorem host_rollback (workspace : Workspace) (name : String) :
    (workspace.rollback name).host = workspace.host := by
  unfold rollback
  split
  · rfl
  · split <;> rfl

/-- Closing a store writes nothing. -/
theorem host_endStore (workspace : Workspace) (name : String) :
    (workspace.endStore name).host = workspace.host := by
  have rolled (names : List String) (before : Workspace) :
      (names.foldl rollback before).host = before.host := by
    induction names generalizing before with
    | nil => rfl
    | cons first rest ih => exact (ih _).trans (before.host_rollback first)
  unfold endStore
  split
  · rfl
  · exact rolled _ workspace

end Workspace

namespace Store

/-- Opening read-only takes in a whole file and writes nothing, whether or not a repair is asked
for. -/
theorem openFile_eq_ok_of_readOnly {host next : Host} {settings : Settings} {store : Store}
    (asked : settings.readOnly = true) (opened : openFile host settings = (next, .ok store)) :
    ∃ fresh summary count atoms replayed file,
      DataFile.openAt host.directory settings.path settings.sync true = .ok fresh ∧
      fresh.replay host.directory Slots.takeRecord .empty =
        (replayed, count, atoms, .ok (summary, file)) ∧
      next.directory = host.directory ∧ store.readOnly = true ∧ file.readOnly = true ∧
      store.file = some file ∧ store.state.slots = replayed.settle.2 := by
  cases found : DataFile.openAt host.directory settings.path settings.sync settings.readOnly with
  | error failure =>
    rw [openFile, found] at opened
    cases opened
  | ok fresh =>
    obtain ⟨_, _, _, _, _, guarded⟩ := DataFile.openAt_eq_ok found
    rcases fresh.recover_cases host.directory .empty settings.repairTornTail with
      ⟨taken, count, atoms, stop, fed, ended, recovered⟩ |
      ⟨_, _, _, _, _, _, _, _, _, writable, _⟩ | ⟨error, failed, _⟩
    · have scanned : fresh.scan host.directory =
          ⟨(fresh.scan host.directory).records, .ok stop⟩ := by
        rw [← ended]
      have replayed :=
        DataFile.replay_eq_of_recovered (Recovered.of_feed .nothing fed) scanned
      simp only [openFile, found, Host.newState, State.new, recovered] at opened
      cases opened
      exact ⟨fresh, _, _, _, taken, _, asked ▸ found, replayed, rfl, asked, guarded.trans asked,
        rfl, rfl⟩
    · rw [guarded, asked] at writable
      cases writable
    · simp only [openFile, found, Host.newState, State.new, failed] at opened
      cases opened

end Store

namespace Session

variable {session : Session}

/-- Whether a store is read-only because its file is. -/
structure Guarded (session : Session) : Prop where
  readOnly : session.store.readOnly = true
  file_readOnly : ∃ file, session.store.file = some file ∧ file.readOnly = true

namespace Guarded

/-- A guarded store cannot be switched to writing. -/
theorem setReadOnly_eq (guarded : session.Guarded) :
    session.store.setReadOnly false = .error .readOnly := by
  obtain ⟨file, present, readOnly⟩ := guarded.file_readOnly
  rw [Store.setReadOnly, present, Option.any_some, readOnly]
  rfl

/-- A commit to a guarded store is a rollback and is refused, with nothing run or announced. -/
theorem commit_eq (guarded : session.Guarded) (transaction : Transaction) (directory : Directory) :
    transaction.commit directory session.store =
      ⟨directory, transaction.rollback session.store, [], none, .error .readOnly⟩ :=
  transaction.commit_of_readOnly guarded.readOnly directory

/-- No action makes the store writable or writes anything. -/
theorem step (guarded : session.Guarded) (owned : session.Owned) {action : Action}
    (stays : ∀ settings, action ≠ .reopen settings) :
    (session.step action).Guarded ∧ session.Unwritten (session.step action) := by
  have unwritten : session.Unwritten (session.step action) := by
    obtain unwritten | ⟨name, transaction, _, _, _, rfl, _, _, _, _, _, published⟩ :=
      owned.step_cases stays
    · exact unwritten
    · have refused := published.outcome_eq
      rw [guarded.commit_eq] at refused
      cases refused
  refine ⟨⟨?_, unwritten.file_eq ▸ guarded.file_readOnly⟩, unwritten⟩
  cases action with
  | setReadOnly readOnly =>
    cases readOnly with
    | true => rfl
    | false =>
      simp only [Session.step, guarded.setReadOnly_eq]
      exact guarded.readOnly
  | commit name =>
    cases present : session.transactions name with
    | none =>
      simp only [Session.step, present]
      exact guarded.readOnly
    | some transaction =>
      rw [step_commit present, guarded.commit_eq]
      exact guarded.readOnly
  | createIndex info =>
    rw [Session.step]
    split
    · rename_i index store host done
      obtain ⟨_, indices, rfl⟩ := Store.createIndex_eq_ok done
      exact guarded.readOnly
    · exact guarded.readOnly
  | begin name | createAtom name | addVerifier name verifier | rollback name =>
    rw [Session.step]
    split <;> exact guarded.readOnly
  | edit name id edit =>
    rw [Session.step]
    split
    · exact guarded.readOnly
    · split <;> exact guarded.readOnly
  | setDefaultIndexing indexing => exact guarded.readOnly
  | refresh index => exact guarded.readOnly
  | reopen settings => exact absurd rfl (stays settings)

/-- A guarded store stays guarded, and nothing is written. -/
theorem run (guarded : session.Guarded) (owned : session.Owned) {actions : List Action}
    (stays : ∀ settings, .reopen settings ∉ actions) :
    (session.run actions).Guarded ∧ session.Unwritten (session.run actions) := by
  induction actions generalizing session with
  | nil => exact ⟨guarded, .refl session⟩
  | cons action rest ih =>
    obtain ⟨first, unwritten⟩ := guarded.step owned
      fun settings same => stays settings (same ▸ List.mem_cons_self)
    obtain ⟨last, quiet⟩ := ih first (owned.step action)
      fun settings member => stays settings (List.mem_cons_of_mem _ member)
    exact ⟨last, unwritten.trans quiet⟩

end Guarded

/-- What becomes of a store that was opened read-only and of the transactions on it: its directory
and atoms are those that the replay has found, and every commit fails. -/
structure Frozen (directory : Directory) (replayed : Slots) (session : Session) (ledger : Ledger) :
    Prop where
  directory_eq : session.host.directory = directory
  readOnly : session.store.readOnly = true
  switch : session.store.setReadOnly false = .error .readOnly
  ucn_eq : session.store.ucn = replayed.ucn
  committed_eq : session.store.state.slots.committed = replayed.committed
  atom?_eq : ∀ id, session.store.state.slots.atom? id = replayed.atom? id
  finished : ∀ id ∈ ledger.handed, (∀ name, (name, id) ∉ ledger.unfinished) →
    session.store.state.slots.slot id = .never
  refused : ∀ name transaction, session.transactions name = some transaction →
    let report := transaction.commit session.host.directory session.store
    report.outcome = .error .readOnly ∧ report.ran = [] ∧ report.announced = none ∧
      report.directory = directory ∧
      ∀ id ∈ transaction.pending.keys, report.store.state.slots.slot id = .never
  closed : ∀ (workspace : Workspace) (name : String), workspace.host = session.host →
    (workspace.endStore name).host.directory = directory

/-- A guarded store is frozen. -/
theorem Guarded.frozen {start : Session} {ledger : Ledger} (guarded : session.Guarded)
    (unwritten : start.Unwritten session) (isolated : start.Isolated session ledger)
    (owned : session.Owned) :
    session.Frozen start.host.directory start.store.state.slots ledger := by
  refine ⟨unwritten.directory_eq, guarded.readOnly, guarded.setReadOnly_eq, unwritten.ucn_eq,
    unwritten.committed_eq, unwritten.atom?_eq, fun id handed free => ?_,
    fun name transaction present => ?_, fun workspace name same => ?_⟩
  · cases held : session.store.state.slots.slot id with
    | never => rfl
    | pending =>
      obtain ⟨name, unfinished⟩ := (isolated.pending_iff id).mp held
      exact absurd unfinished (free name)
    | committed atom =>
      have before : start.store.state.slots.atom? id = some atom := by
        rw [← unwritten.atom?_eq, Slots.atom?_eq, held]
        rfl
      have inside : id < start.store.state.slots.size := by
        apply Slots.lt_size_of_slot
        rw [Slots.atom?_eq_some_iff.mp before]
        exact nofun
      exact absurd (isolated.handed_new id handed).1 (Nat.not_le.mpr inside)
  · simp only [guarded.commit_eq]
    refine ⟨trivial, trivial, trivial, unwritten.directory_eq, fun id member => ?_⟩
    have released := Slots.slot_releaseAll session.store.state.slots transaction.pending.keys id
    rw [if_pos ⟨member, owned.pending name transaction present id member⟩] at released
    exact released
  · rw [workspace.host_endStore, same]
    exact unwritten.directory_eq

/-- Whatever is done with a store that was opened read-only, its file is never written to, it never
becomes writable, and it holds the atoms of the replay and no others. Its transactions end without a
check or a callback, and leave empty slots behind. -/
theorem frozen_of_openFile {host next : Host} {settings : Settings} {store : Store}
    (asked : settings.readOnly = true)
    (opened : Store.openFile host settings = (next, .ok store)) :
    ∃ fresh summary count atoms replayed file,
      DataFile.openAt host.directory settings.path settings.sync true = .ok fresh ∧
      fresh.replay host.directory Slots.takeRecord .empty =
        (replayed, count, atoms, .ok (summary, file)) ∧
      ∀ actions, (∀ again, .reopen again ∉ actions) →
        ((Session.fresh next store).run actions).Frozen host.directory replayed
          (Ledger.follow {} (Session.fresh next store) actions) := by
  obtain ⟨fresh, summary, count, atoms, replayed, file, found, fed, same, readOnly, locked,
    present, slots⟩ := Store.openFile_eq_ok_of_readOnly asked opened
  refine ⟨fresh, summary, count, atoms, replayed, file, found, fed, fun actions stays => ?_⟩
  have reachable : Reachable (Session.fresh next store) := .opened opened
  have guarded : Guarded (Session.fresh next store) := ⟨readOnly, file, present, locked⟩
  obtain ⟨there, unwritten⟩ := guarded.run reachable.owned stays
  have isolated := reachable.isolated (fun _ => rfl) stays
  have frozen := there.frozen unwritten isolated (reachable.run actions).owned
  have settled : (Session.fresh next store).store.state.slots = replayed.settle.2 := slots
  have directory : (Session.fresh next store).host.directory = host.directory := same
  rw [settled, directory] at frozen
  exact { frozen with
    ucn_eq := frozen.ucn_eq
    committed_eq := frozen.committed_eq
    atom?_eq := fun id => (frozen.atom?_eq id).trans (Slots.atom?_settle replayed id) }

/-- A file with one atom is opened read-only, with repair. A commit fails although commits were
switched on before it, and its slot is empty. -/
theorem frozen_of_openFile_while_committing :
    ∃ host next settings store, settings.readOnly = true ∧ settings.repairTornTail = true ∧
      Store.openFile host settings = (next, .ok store) ∧
      let session := (fresh next store).run [.begin 0, .createAtom 0, .setReadOnly false, .commit 0]
      session.host.directory = host.directory ∧ session.store.readOnly = true ∧
        (session.store.state.slots.atom? 0).isSome = true ∧
        session.store.state.slots.slot store.state.slots.size = .never := by
  obtain ⟨session, file, transaction, committed, filed, _, ucn, present, kept, succeeded, atom,
    member, here⟩ := exists_binding [7]
  have owned := filed.reachable.owned
  have fits : session.Fits (.commit 0) := by
    rintro _ other _ ⟨⟩ same _
    obtain rfl : transaction = other := Option.some.inj (present.symm.trans same)
    rw [ucn, kept, List.forall_mem_singleton]
    exact ⟨by decide, by decide, List.forall_mem_singleton.mpr (by decide)⟩
  have done : session.committed? (.commit 0) = some committed := by
    rw [committed?, present, Option.bind_some, succeeded]
    rfl
  have stays : ∀ again, Action.commit 0 ≠ .reopen again := by rintro _ ⟨⟩
  have held := owned.of_committed? stays done atom member
  rw [here] at held
  obtain ⟨last, records, ends, taken, backed⟩ :=
    Filed.backed (.step filed (.commit 0) fits)
  let settings : Settings := { readOnly := true, repairTornTail := true }
  obtain ⟨next, store, opened, _, slots, _⟩ := backed.openFile_eq settings
  obtain ⟨_, _, _, _, replayed, _, _, _, frozen⟩ := frozen_of_openFile rfl opened
  have before := frozen [] (by simp)
  have after := frozen [.begin 0, .createAtom 0, .setReadOnly false, .commit 0] (by simp)
  refine ⟨_, next, _, store, rfl, rfl, opened, after.directory_eq, after.readOnly, ?_, ?_⟩
  · have filled : (taken.atom? 0).isSome = true := by
      rw [backed.occupied, Slots.atom?_eq, held]
      rfl
    rw [after.atom?_eq, ← before.atom?_eq]
    change (store.state.slots.atom? 0).isSome = true
    rw [slots, Slots.atom?_settle]
    exact filled
  · exact after.finished store.state.slots.size List.mem_cons_self
      fun _ => List.not_mem_nil

end Session
end AtomStore
