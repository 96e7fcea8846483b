import AtomStore.Proofs.Store.Course
import Mathlib.Logic.Function.Basic

/-!
# Sessions

A session is the use of one store: transactions begin, build drafts, and end in a commit or a
rollback, several of them side by side; the switches of the store are set, indices are added and
brought up to date, and a store with a data file is closed and opened again. In every session, open
transactions own distinct reserved slots.
-/

namespace AtomStore

/-- A store in use: its host, and the transactions that are open on it. -/
structure Session where
  host : Host
  store : Store
  transactions : Nat → Option Transaction

namespace Store

/-- Switching a store changes nothing else. -/
theorem setReadOnly_eq_ok {store next : Store} {readOnly : Bool}
    (done : store.setReadOnly readOnly = .ok next) : next = { store with readOnly } := by
  rw [setReadOnly] at done
  split at done
  · cases done
  · exact (Except.ok.inj done).symm

/-- Creating an index changes nothing but the indices. -/
theorem createIndex_eq_ok {store next : Store} {host after : Host} {info : IndexInfo}
    {index : Index} (done : store.createIndex host info = .ok (index, next, after)) :
    after.directory = host.directory ∧
      ∃ indices, next = { store with state := { store.state with indices } } := by
  unfold createIndex at done
  cases added : store.state.addIndex host.nextIndex info with
  | error refusal =>
    rw [added] at done
    cases done
  | ok made =>
    obtain ⟨found, state⟩ := made
    rw [added] at done
    cases done
    unfold State.addIndex at added
    split at added
    · cases added
    · cases added
      by_cases indexing : store.defaultIndexing = true
      · rw [if_pos indexing]
        exact ⟨rfl, _, rfl⟩
      · rw [if_neg indexing]
        exact ⟨rfl, _, rfl⟩

/-- There is a store on a new file, with nothing in it and a header of forty bytes in its file. -/
theorem exists_created (threshold : Nat) :
    ∃ (host : Host) (indices : List Index) (path : String) (header : Log.Header) (sync : Bool),
      create {} { hostedThreshold := threshold } .zero .empty =
        (host, .ok ⟨{ hostedThreshold := threshold }, ⟨.empty, indices⟩,
          some ⟨path, header, 40, 40, sync, false⟩, false, false⟩) ∧
      header.version = .two ∧ (host.directory.content path).length = 40 := by
  obtain ⟨directory, ⟨path, header, length, stop, sync, readOnly⟩, made, version, front, last,
      writable, size⟩ : ∃ directory file,
        DataFile.create {} "universe.db" .zero currentVersion .empty true = .ok (directory, file) ∧
        file.header.version = .two ∧ file.headerLength = 40 ∧ file.stop = 40 ∧
        file.readOnly = false ∧ (directory.content file.path).length = 40 :=
    ⟨_, _, rfl, rfl, rfl, rfl, rfl, rfl⟩
  obtain rfl : length = 40 := front
  obtain rfl : stop = 40 := last
  obtain rfl : readOnly = false := writable
  refine ⟨⟨directory, 2⟩, (State.new 1 .descending).indices, path, header, sync, ?_, version, size⟩
  simp only [create, made]
  rfl

end Store

namespace Session

/-- An edit of one draft, which stays in its slot. That a draft is exchanged for another one as a
whole is a turn of its own. -/
inductive Edit where
  | bind (key : Key) (value : Particle)
  | unbind (key : Key)
  | setJunctions (junctions : Junctions)
  | discard
  | refer

/-- What an edit makes of a pending atom. -/
def Edit.apply (atom : PendingAtom) : Edit → PendingAtom
  | bind key value => { atom with draft := atom.draft.bind key value }
  | unbind key => { atom with draft := atom.draft.unbind key }
  | setJunctions junctions => { atom with draft := { atom.draft with junctions } }
  | discard => { atom with mark := atom.mark.afterDiscard }
  | refer => { atom with mark := .referred }

def Edit.run (transaction : Transaction) (id : Nat) : Edit → Except StoreError Transaction
  | bind key value => (transaction.bind id key value).map Prod.snd
  | unbind key => (transaction.unbind id key).map Prod.snd
  | setJunctions junctions => transaction.setJunctions id junctions
  | discard => transaction.discard id
  | refer => transaction.refer id

/-- What can be done in a session. Transactions go by numbers; a dropped one is rolled back. -/
inductive Action where
  | begin (name : Nat)
  | createAtom (name : Nat)
  | edit (name id : Nat) (edit : Edit)
  | addVerifier (name : Nat) (verifier : Verifier)
  | commit (name : Nat)
  | rollback (name : Nat)
  | setReadOnly (readOnly : Bool)
  | setDefaultIndexing (indexing : Bool)
  | createIndex (info : IndexInfo)
  | refresh (index : Nat)
  /-- Drops all transactions, closes the store and opens its file under new settings. -/
  | reopen (settings : Settings)

def fresh (host : Host) (store : Store) : Session := ⟨host, store, fun _ => none⟩

def withTransaction (session : Session) (name : Nat) (transaction : Option Transaction) :
    Session :=
  { session with transactions := Function.update session.transactions name transaction }

/-- The session after an action; one that is refused changes nothing. -/
def step (session : Session) : Action → Session
  | .begin name =>
    match session.transactions name with
    | none => session.withTransaction name (some (.start session.store))
    | some _ => session
  | .createAtom name =>
    match session.transactions name with
    | none => session
    | some transaction =>
      let (_, store, next) := transaction.createAtom session.store
      { session with store }.withTransaction name (some next)
  | .edit name id edit =>
    match session.transactions name with
    | none => session
    | some transaction =>
      match edit.run transaction id with
      | .ok next => session.withTransaction name (some next)
      | .error _ => session
  | .addVerifier name verifier =>
    match session.transactions name with
    | none => session
    | some transaction => session.withTransaction name (some (transaction.addVerifier verifier))
  | .commit name =>
    match session.transactions name with
    | none => session
    | some transaction =>
      let report := transaction.commit session.host.directory session.store
      { session with
        host := { session.host with directory := report.directory }
        store := report.store }.withTransaction name none
  | .rollback name =>
    match session.transactions name with
    | none => session
    | some transaction =>
      { session with store := transaction.rollback session.store }.withTransaction name none
  | .setReadOnly readOnly =>
    match session.store.setReadOnly readOnly with
    | .ok store => { session with store }
    | .error _ => session
  | .setDefaultIndexing indexing =>
    { session with store := { session.store with defaultIndexing := indexing } }
  | .createIndex info =>
    match session.store.createIndex session.host info with
    | .ok (_, store, host) => { session with store, host }
    | .error _ => session
  | .refresh index =>
    { session with store := { session.store with state := session.store.state.refresh index } }
  | .reopen settings =>
    match session.store.file with
    | none => session
    | some file =>
      match Store.openFile session.host { settings with path := file.path } with
      | (host, .ok store) => fresh host store
      | (_, .error _) => session

def run (session : Session) (actions : List Action) : Session := actions.foldl step session

/-- Sessions that start with a store in memory, a new file or a file that opens, and everything that
can be done in them. -/
inductive Reachable : Session → Prop where
  | inMemory (host : Host) (settings : Settings) :
      Reachable (fresh (Store.inMemory host settings).2 (Store.inMemory host settings).1)
  | created {host next : Host} {settings : Settings} {storeId : StoreId} {metadata : Metadata}
      {store : Store}
      (created : Store.create host settings storeId metadata = (next, .ok store)) :
      Reachable (fresh next store)
  | opened {host next : Host} {settings : Settings} {store : Store}
      (opened : Store.openFile host settings = (next, .ok store)) : Reachable (fresh next store)
  | step {session : Session} (before : Reachable session) (action : Action) :
      Reachable (session.step action)

/-- Open transactions own their reserved slots: each draft has the number of its slot, the slots are
reserved, and no two transactions share one. -/
structure Owned (session : Session) : Prop where
  numbered : ∀ name transaction, session.transactions name = some transaction →
    transaction.Numbered
  pending : ∀ name transaction, session.transactions name = some transaction →
    ∀ id ∈ transaction.pending.keys, session.store.state.slots.slot id = .pending
  apart : ∀ name transaction other different, name ≠ other →
    session.transactions name = some transaction → session.transactions other = some different →
      ∀ id ∈ transaction.pending.keys, id ∉ different.pending.keys

variable {session : Session}

theorem owned_fresh (host : Host) (store : Store) : (fresh host store).Owned :=
  ⟨nofun, nofun, nofun⟩

/-- After one transaction has been replaced, a transaction is the new one or an old one. -/
theorem transactions_withTransaction {name other : Nat} {transaction : Option Transaction}
    {found : Transaction}
    (present : (session.withTransaction name transaction).transactions other = some found) :
    other = name ∧ transaction = some found ∨
      other ≠ name ∧ session.transactions other = some found := by
  change Function.update session.transactions name transaction other = some found at present
  by_cases same : other = name
  · rw [same, Function.update_self] at present
    exact .inl ⟨same, present⟩
  · rw [Function.update_of_ne same] at present
    exact .inr ⟨same, present⟩

/-- Changes of a session that leave the reserved slots reserved keep ownership. -/
theorem Owned.of_slots (owned : session.Owned) (store : Store) (host : Host)
    (kept : ∀ id, session.store.state.slots.slot id = .pending →
      store.state.slots.slot id = .pending) :
    { session with host, store }.Owned :=
  ⟨owned.numbered, fun name transaction present id member =>
    kept id (owned.pending name transaction present id member), owned.apart⟩

/-- A transaction that ends may leave its slots in any state. -/
theorem Owned.ended (owned : session.Owned) {name : Nat} {transaction : Transaction}
    (present : session.transactions name = some transaction) (store : Store) (host : Host)
    (others : ∀ id, id ∉ transaction.pending.keys → session.store.state.slots.slot id = .pending →
      store.state.slots.slot id = .pending) :
    ({ session with host, store }.withTransaction name none).Owned := by
  refine ⟨?_, ?_, ?_⟩
  · intro other found here
    obtain ⟨_, impossible⟩ | ⟨_, before⟩ := transactions_withTransaction here
    · cases impossible
    · exact owned.numbered other found before
  · intro other found here id member
    obtain ⟨_, impossible⟩ | ⟨different, before⟩ := transactions_withTransaction here
    · cases impossible
    · exact others id (owned.apart other found name transaction different before present id member)
        (owned.pending other found before id member)
  · intro first one second two different here there id member
    obtain ⟨_, impossible⟩ | ⟨_, before⟩ := transactions_withTransaction here
    · cases impossible
    obtain ⟨_, impossible⟩ | ⟨_, earlier⟩ := transactions_withTransaction there
    · cases impossible
    exact owned.apart first one second two different before earlier id member

/-- A transaction that has begun or changed keeps ownership when its slots are reserved and its new
ones belong to no other. -/
theorem Owned.changed (owned : session.Owned) {name : Nat} {next : Transaction} (store : Store)
    (kept : ∀ id, session.store.state.slots.slot id = .pending →
      store.state.slots.slot id = .pending)
    (numbered : next.Numbered)
    (pending : ∀ id ∈ next.pending.keys, store.state.slots.slot id = .pending)
    (apart : ∀ other different, other ≠ name → session.transactions other = some different →
      ∀ id ∈ next.pending.keys, id ∉ different.pending.keys) :
    ({ session with store }.withTransaction name (some next)).Owned := by
  refine ⟨?_, ?_, ?_⟩
  · intro other found here
    obtain ⟨_, same⟩ | ⟨_, before⟩ := transactions_withTransaction here
    · cases same
      exact numbered
    · exact owned.numbered other found before
  · intro other found here id member
    obtain ⟨_, same⟩ | ⟨_, before⟩ := transactions_withTransaction here
    · cases same
      exact pending id member
    · exact kept id (owned.pending other found before id member)
  · intro first one second two different here there id member
    obtain ⟨rfl, same⟩ | ⟨_, before⟩ := transactions_withTransaction here
    · cases same
      obtain ⟨equal, _⟩ | ⟨unlike, earlier⟩ := transactions_withTransaction there
      · exact absurd equal.symm different
      · exact apart second two unlike earlier id member
    · obtain ⟨rfl, same⟩ | ⟨_, earlier⟩ := transactions_withTransaction there
      · cases same
        intro inside
        exact apart first one different before id inside member
      · exact owned.apart first one second two different before earlier id member

end Session

namespace Transaction

variable {transaction next : Transaction} {id : Nat}

theorem change_eq_ok {edit : PendingAtom → PendingAtom}
    (changed : transaction.change id edit = .ok next) :
    ∃ atom, transaction.pending.get? id = some atom ∧
      next = { transaction with pending := transaction.pending.insert id (edit atom) } := by
  rw [change] at changed
  cases present : transaction.pending.get? id with
  | none =>
    rw [present] at changed
    cases changed
  | some atom =>
    rw [present] at changed
    cases changed
    exact ⟨atom, rfl, rfl⟩

/-- An edit is a change of the draft in one slot. -/
theorem edit_eq (transaction : Transaction) (id : Nat) (edit : Session.Edit) :
    edit.run transaction id = transaction.change id edit.apply := by
  have values (found : Option Particle) (changed : Except StoreError Transaction) :
      (changed.map fun next => (found, next)).map Prod.snd = changed := by
    cases changed <;> rfl
  cases edit with
  | bind key value => exact values _ _
  | unbind key => exact values _ _
  | setJunctions junctions => rfl
  | discard => rfl
  | refer => rfl

/-- A change to a draft keeps the number of its slot. -/
theorem edit_eq_ok {edit : Session.Edit} (edited : edit.run transaction id = .ok next) :
    ∃ atom changed, transaction.pending.get? id = some atom ∧ changed.draft.id = atom.draft.id ∧
      next = { transaction with pending := transaction.pending.insert id changed } := by
  rw [edit_eq] at edited
  obtain ⟨atom, present, rfl⟩ := change_eq_ok edited
  refine ⟨atom, edit.apply atom, present, ?_, rfl⟩
  cases edit <;> rfl

theorem Numbered.insert (numbered : transaction.Numbered) {atom : PendingAtom}
    (same : atom.draft.id = id) :
    Numbered { transaction with pending := transaction.pending.insert id atom } := by
  intro entry member
  rcases SortedMap.mem_place member with rfl | before
  · exact same
  · exact numbered entry before

theorem Numbered.get? (numbered : transaction.Numbered) {atom : PendingAtom}
    (present : transaction.pending.get? id = some atom) : atom.draft.id = id :=
  numbered _ (SortedMap.get?_eq_some_iff.mp present)

end Transaction

namespace Session

variable {session : Session}

/-- A new draft has a slot that no other transaction owns. -/
theorem Owned.createAtom (owned : session.Owned) {name : Nat} {transaction : Transaction}
    (present : session.transactions name = some transaction) :
    ({ session with store := (transaction.createAtom session.store).2.1 }.withTransaction name
      (some (transaction.createAtom session.store).2.2)).Owned := by
  have kept : ∀ id, session.store.state.slots.slot id = .pending →
      session.store.state.slots.reserve.2.slot id = .pending := by
    intro id held
    rw [Slots.slot_reserve, held]
    exact ite_self _
  have keys {id : Nat} (member : id ∈ (transaction.createAtom session.store).2.2.pending.keys) :
      id = session.store.state.slots.size ∨ id ∈ transaction.pending.keys :=
    SortedMap.mem_keys_insert.mp member
  refine owned.changed _ kept ((owned.numbered name _ present).insert rfl) ?_ ?_
  · intro id member
    rcases keys member with rfl | before
    · exact (Slots.slot_reserve ..).trans (if_pos rfl)
    · exact kept id (owned.pending name transaction present id before)
  · intro other different unlike there id member
    rcases keys member with rfl | before
    · intro inside
      have held := owned.pending other different there _ inside
      have past : session.store.state.slots.size < session.store.state.slots.size := by
        apply Slots.lt_size_of_slot
        rw [held]
        exact nofun
      exact Nat.lt_irrefl _ past
    · exact owned.apart name transaction other different unlike.symm present there id before

/-- A transaction keeps its slots when one of its drafts is changed and keeps its number. -/
theorem Owned.insert (owned : session.Owned) {name id : Nat} {transaction : Transaction}
    {atom changed : PendingAtom} (present : session.transactions name = some transaction)
    (held : transaction.pending.get? id = some atom) (same : changed.draft.id = id) :
    (session.withTransaction name (some { transaction with
      pending := transaction.pending.insert id changed })).Owned := by
  have keys {other : Nat} (member : other ∈ (transaction.pending.insert id changed).keys) :
      other ∈ transaction.pending.keys := by
    rcases SortedMap.mem_keys_insert.mp member with rfl | before
    · exact SortedMap.mem_keys_iff.mpr ⟨atom, held⟩
    · exact before
  refine owned.changed session.store (fun _ held => held)
    ((owned.numbered name transaction present).insert same) ?_ ?_
  · intro other member
    exact owned.pending name transaction present other (keys member)
  · intro other different unlike there id member
    exact owned.apart name transaction other different unlike.symm present there id (keys member)

/-- Edits keep ownership. -/
theorem Owned.edit (owned : session.Owned) {name id : Nat} {transaction next : Transaction}
    {edit : Edit} (present : session.transactions name = some transaction)
    (edited : edit.run transaction id = .ok next) :
    (session.withTransaction name (some next)).Owned := by
  obtain ⟨atom, changed, held, same, rfl⟩ := Transaction.edit_eq_ok edited
  exact owned.insert present held
    (same.trans ((owned.numbered name transaction present).get? held))

/-- Every action keeps ownership. -/
theorem Owned.step (owned : session.Owned) (action : Action) : (session.step action).Owned := by
  cases action with
  | begin name =>
    cases present : session.transactions name with
    | some transaction =>
      simp only [Session.step, present]
      exact owned
    | none =>
      simp only [Session.step, present]
      exact owned.changed session.store (fun _ held => held) nofun nofun (by exact nofun)
  | createAtom name =>
    cases present : session.transactions name with
    | none =>
      simp only [Session.step, present]
      exact owned
    | some transaction =>
      simp only [Session.step, present]
      exact owned.createAtom present
  | edit name id edit =>
    cases present : session.transactions name with
    | none =>
      simp only [Session.step, present]
      exact owned
    | some transaction =>
      cases edited : edit.run transaction id with
      | error refusal =>
        simp only [Session.step, present, edited]
        exact owned
      | ok next =>
        simp only [Session.step, present, edited]
        exact owned.edit present edited
  | addVerifier name verifier =>
    cases present : session.transactions name with
    | none =>
      simp only [Session.step, present]
      exact owned
    | some transaction =>
      simp only [Session.step, present]
      exact owned.changed session.store (fun _ held => held)
        (owned.numbered name transaction present) (owned.pending name transaction present)
        fun other different unlike there =>
          owned.apart name transaction other different unlike.symm present there
  | commit name =>
    cases present : session.transactions name with
    | none =>
      simp only [Session.step, present]
      exact owned
    | some transaction =>
      simp only [Session.step, present]
      refine owned.ended present _ _ fun id absent held => ?_
      exact (Transaction.slot_commitUnder_of_not_mem (owned.numbered name transaction present)
        (owned.pending name transaction present) absent).trans held
  | rollback name =>
    cases present : session.transactions name with
    | none =>
      simp only [Session.step, present]
      exact owned
    | some transaction =>
      simp only [Session.step, present]
      refine owned.ended present _ session.host fun id absent held => ?_
      exact (Slots.slot_releaseAll ..).trans ((if_neg fun both => absent both.1).trans held)
  | setReadOnly readOnly =>
    cases done : session.store.setReadOnly readOnly with
    | error refusal =>
      simp only [Session.step, done]
      exact owned
    | ok store =>
      simp only [Session.step, done]
      obtain rfl := Store.setReadOnly_eq_ok done
      exact owned.of_slots _ session.host fun _ held => held
  | setDefaultIndexing indexing => exact owned.of_slots _ session.host fun _ held => held
  | createIndex info =>
    cases done : session.store.createIndex session.host info with
    | error refusal =>
      simp only [Session.step, done]
      exact owned
    | ok made =>
      obtain ⟨index, store, host⟩ := made
      simp only [Session.step, done]
      obtain ⟨_, indices, rfl⟩ := Store.createIndex_eq_ok done
      exact owned.of_slots _ host fun _ held => held
  | refresh index => exact owned.of_slots _ session.host fun _ held => held
  | reopen settings =>
    rw [Session.step]
    split
    · exact owned
    · split
      · exact owned_fresh _ _
      · exact owned

/-- In every session, open transactions own their reserved slots. -/
theorem Reachable.owned (reachable : session.Reachable) : session.Owned := by
  induction reachable with
  | inMemory host settings => exact owned_fresh _ _
  | created created => exact owned_fresh _ _
  | opened opened => exact owned_fresh _ _
  | step _ action ih => exact ih.step action

/-- A commit in a session ends its transaction. -/
theorem step_commit {name : Nat} {transaction : Transaction}
    (present : session.transactions name = some transaction) :
    session.step (.commit name) =
      ({ session with
        host := { session.host with directory :=
          (transaction.commit session.host.directory session.store).directory }
        store := (transaction.commit session.host.directory session.store).store }.withTransaction
          name none) := by
  simp only [step, present]

/-- What stays the same when nothing is written: the directory, the open file, the settings, and
the atoms and counts in memory. -/
structure Unwritten (before after : Session) : Prop where
  directory_eq : after.host.directory = before.host.directory
  file_eq : after.store.file = before.store.file
  settings_eq : after.store.settings = before.store.settings
  ucn_eq : after.store.ucn = before.store.ucn
  committed_eq : after.store.state.slots.committed = before.store.state.slots.committed
  atom?_eq : ∀ id, after.store.state.slots.atom? id = before.store.state.slots.atom? id

theorem Unwritten.refl (session : Session) : session.Unwritten session :=
  ⟨rfl, rfl, rfl, rfl, rfl, fun _ => rfl⟩

theorem Unwritten.trans {first second third : Session} (before : first.Unwritten second)
    (after : second.Unwritten third) : first.Unwritten third :=
  ⟨after.directory_eq.trans before.directory_eq, after.file_eq.trans before.file_eq,
    after.settings_eq.trans before.settings_eq, after.ucn_eq.trans before.ucn_eq,
    after.committed_eq.trans before.committed_eq,
    fun id => (after.atom?_eq id).trans (before.atom?_eq id)⟩

theorem unwritten_withTransaction (session : Session) (name : Nat)
    (transaction : Option Transaction) :
    session.Unwritten (session.withTransaction name transaction) :=
  ⟨rfl, rfl, rfl, rfl, rfl, fun _ => rfl⟩

/-- A commit that publishes nothing writes nothing. -/
theorem unwritten_of_undone {name : Nat} {report : CommitReport} {ids : List Nat}
    (pending : ∀ id ∈ ids, session.store.state.slots.slot id = .pending)
    (undone : report.Undone session.host.directory session.store ids) :
    session.Unwritten ({ session with
      host := { session.host with directory := report.directory }
      store := report.store }.withTransaction name none) := by
  refine ⟨undone.directory_eq, undone.file_eq, undone.settings_eq, undone.ucn_eq,
    undone.committed_eq, fun id => ?_⟩
  have slot : report.store.state.slots.atom? id = session.store.state.slots.atom? id := by
    rw [Slots.atom?_eq, Slots.atom?_eq]
    by_cases member : id ∈ ids
    · rw [undone.own id member, pending id member]
      rfl
    · rw [undone.others id member]
  exact slot

/-- An action in an open store that is no commit writes nothing. -/
theorem unwritten_step (session : Session) {action : Action}
    (uncommitted : ∀ name, action ≠ .commit name) (stays : ∀ settings, action ≠ .reopen settings) :
    session.Unwritten (session.step action) := by
  cases action with
  | begin name =>
    rw [step]
    split
    · exact session.unwritten_withTransaction name _
    · exact .refl session
  | createAtom name =>
    rw [step]
    split
    · exact .refl session
    · refine ⟨rfl, rfl, rfl, rfl, rfl, fun id => ?_⟩
      have fresh (id : Nat) : session.store.state.slots.reserve.2.atom? id =
          session.store.state.slots.atom? id := by
        rw [Slots.atom?_eq, Slots.atom?_eq, Slots.slot_reserve]
        by_cases last : id = session.store.state.slots.size
        · rw [if_pos last, last, Slots.slot_size]
          rfl
        · rw [if_neg last]
      exact fresh id
  | edit name id edit =>
    rw [step]
    split
    · exact .refl session
    · split
      · exact session.unwritten_withTransaction name _
      · exact .refl session
  | addVerifier name verifier =>
    rw [step]
    split
    · exact .refl session
    · exact session.unwritten_withTransaction name _
  | commit name => exact absurd rfl (uncommitted name)
  | rollback name =>
    rw [step]
    split
    · exact .refl session
    · rename_i transaction _
      obtain ⟨ucn, committed, _⟩ :=
        session.store.state.slots.releaseAll_counts transaction.pending.keys
      exact ⟨rfl, rfl, rfl, ucn, committed, Slots.atom?_releaseAll _ _⟩
  | setReadOnly readOnly =>
    rw [step]
    split
    · rename_i store done
      obtain rfl := Store.setReadOnly_eq_ok done
      exact ⟨rfl, rfl, rfl, rfl, rfl, fun _ => rfl⟩
    · exact .refl session
  | setDefaultIndexing indexing => exact ⟨rfl, rfl, rfl, rfl, rfl, fun _ => rfl⟩
  | createIndex info =>
    rw [step]
    split
    · rename_i index store host done
      obtain ⟨same, indices, rfl⟩ := Store.createIndex_eq_ok done
      exact ⟨same, rfl, rfl, rfl, rfl, fun _ => rfl⟩
    · exact .refl session
  | refresh index => exact ⟨rfl, rfl, rfl, rfl, rfl, fun _ => rfl⟩
  | reopen settings => exact absurd rfl (stays settings)

/-- An action in an open store writes nothing, or is a commit that writes the record of its kept
drafts and publishes them. -/
theorem Owned.step_cases (owned : session.Owned) {action : Action}
    (stays : ∀ settings, action ≠ .reopen settings) :
    session.Unwritten (session.step action) ∨
      ∃ name transaction written recorded drafts,
        action = .commit name ∧ session.transactions name = some transaction ∧
        Transaction.write session.host.directory (session.store.release transaction.dropped)
          transaction.kept = .ok (written, recorded, drafts) ∧
        (session.step action).host.directory = written ∧
        (session.step action).store.file = recorded.file ∧
        (session.step action).store =
          (transaction.commit session.host.directory session.store).store ∧
        (transaction.commit session.host.directory session.store).Published session.store
          transaction.dropped drafts := by
  by_cases commits : ∃ name, action = .commit name
  · obtain ⟨name, rfl⟩ := commits
    cases present : session.transactions name with
    | none =>
      left
      simp only [Session.step, present]
      exact .refl session
    | some transaction =>
      have pending := owned.pending name transaction present
      obtain ⟨undone, _⟩ | ⟨undone, _⟩ | ⟨written, recorded, drafts, wrote, directory, file,
          published⟩ := Transaction.commit_spec session.host.directory
        (owned.numbered name transaction present) pending
      all_goals rw [step_commit present]
      · exact .inl (unwritten_of_undone pending undone)
      · exact .inl (unwritten_of_undone pending undone)
      · exact .inr ⟨name, transaction, written, recorded, drafts, rfl, present, wrote, directory,
          file, rfl, published⟩
  · exact .inl (session.unwritten_step (not_exists.mp commits) stays)

/-- A commit that succeeds has nothing to write, or writes the record of its kept drafts and
publishes them. -/
theorem Owned.commit_succeeded (owned : session.Owned) {name : Nat} {transaction : Transaction}
    {committed : Committed} (present : session.transactions name = some transaction)
    (succeeded : (transaction.commit session.host.directory session.store).outcome =
      .ok committed) :
    transaction.kept = [] ∧ committed.atoms = [] ∧
        session.Unwritten (session.step (.commit name)) ∨
      ∃ written recorded drafts,
        Transaction.write session.host.directory (session.store.release transaction.dropped)
          transaction.kept = .ok (written, recorded, drafts) ∧
        (session.step (.commit name)).host.directory = written ∧
        (session.step (.commit name)).store.file = recorded.file ∧
        (session.step (.commit name)).store =
          (transaction.commit session.host.directory session.store).store ∧
        (transaction.commit session.host.directory session.store).Published session.store
          transaction.dropped drafts ∧
        committed.atoms = session.store.sealedAtoms drafts := by
  have pending := owned.pending name transaction present
  rw [step_commit present]
  obtain ⟨_, _, failure, failed, _⟩ | ⟨undone, empty, ended⟩ |
      ⟨written, recorded, drafts, wrote, directory, file, published⟩ :=
    Transaction.commit_spec session.host.directory (owned.numbered name transaction present) pending
  · rw [failed] at succeeded
    cases succeeded
  · rw [ended] at succeeded
    cases succeeded
    exact .inl ⟨empty, rfl, unwritten_of_undone pending undone⟩
  · have ended := published.outcome_eq
    rw [succeeded] at ended
    cases ended
    exact .inr ⟨written, recorded, drafts, wrote, directory, file, rfl, published, rfl⟩

end Session
end AtomStore
