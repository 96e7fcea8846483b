import AtomStore.Store.Transaction

/-!
# Workspaces

A workspace keeps everything that is open on one host under names: data files, states, stores,
transactions, indices and walks. A store that ends has its open transactions rolled back first. Its
indices and walks can still be read, but they follow no more commits.
-/

namespace AtomStore

/-- What has a state: a state by itself or a store. -/
inductive Holder where
  | state (state : State)
  | store (store : Store)

namespace Holder

/-- The state that is held. -/
def current : Holder → State
  | state held => held
  | store held => held.state

/-- The holder with another state. -/
def withState (next : State) : Holder → Holder
  | state _ => state next
  | store held => store { held with state := next }

end Holder

/-- A transaction and the number of its store. -/
structure OpenTransaction where
  holder : Nat
  transaction : Transaction

/-- An index by the number of its holder and its own. -/
structure IndexRef where
  holder : Nat
  id : Nat

/-- Everything that is open on a host. -/
structure Workspace where
  host : Host := {}
  files : SortedMap String DataFile := .empty
  readers : SortedMap String HostedReader := .empty
  /-- Everything that has had a state, in the order of its creation. -/
  holders : Array Holder := #[]
  states : SortedMap String Nat := .empty
  stores : SortedMap String Nat := .empty
  transactions : SortedMap String OpenTransaction := .empty
  /-- The slots of named drafts. -/
  drafts : SortedMap String Nat := .empty
  indices : SortedMap String IndexRef := .empty
  walks : SortedMap String (IndexRef × IndexWalk) := .empty

namespace Workspace

/-- The workspace with another directory. -/
def withDirectory (workspace : Workspace) (directory : Directory) : Workspace :=
  { workspace with host := { workspace.host with directory } }

/-- The workspace with a holder in the place of a number. -/
def withHolder (workspace : Workspace) (number : Nat) (holder : Holder) : Workspace :=
  { workspace with holders := workspace.holders.setIfInBounds number holder }

/-- The number of the state of a name; the name of a store stands for its state too. -/
def stateNumber? (workspace : Workspace) (name : String) : Option Nat :=
  (workspace.states.get? name).or (workspace.stores.get? name)

/-- The state of a holder. -/
def state? (workspace : Workspace) (number : Nat) : Option State :=
  workspace.holders[number]?.map Holder.current

/-- The workspace with another state in a holder. -/
def withState (workspace : Workspace) (number : Nat) (state : State) : Workspace :=
  match workspace.holders[number]? with
  | some holder => workspace.withHolder number (holder.withState state)
  | none => workspace

/-- The workspace with other slots in a holder. -/
def withSlots (workspace : Workspace) (number : Nat) (slots : Slots) : Workspace :=
  match workspace.state? number with
  | some state => workspace.withState number { state with slots }
  | none => workspace

/-- The store of a number. -/
def storeAt? (workspace : Workspace) (number : Nat) : Option Store :=
  match workspace.holders[number]? with
  | some (.store store) => some store
  | _ => none

/-- The store of a name and its number. -/
def store? (workspace : Workspace) (name : String) : Option (Nat × Store) := do
  let number ← workspace.stores.get? name
  let store ← workspace.storeAt? number
  some (number, store)

/-- Whether a holder is still open under some name. -/
def isOpen (workspace : Workspace) (number : Nat) : Bool :=
  workspace.states.entries.any (·.2 == number) || workspace.stores.entries.any (·.2 == number)

/-- Forgets a transaction without ending it. -/
def forget (workspace : Workspace) (name : String) : Workspace :=
  { workspace with transactions := workspace.transactions.erase name }

/-- Rolls a transaction back. -/
def rollback (workspace : Workspace) (name : String) : Workspace :=
  match workspace.transactions.get? name with
  | none => workspace
  | some ongoing =>
    match workspace.storeAt? ongoing.holder with
    | none => workspace.forget name
    | some store =>
      (workspace.withHolder ongoing.holder
        (.store (ongoing.transaction.rollback store))).forget name

/-- Ends a store after rolling back its open transactions. -/
def endStore (workspace : Workspace) (name : String) : Workspace :=
  match workspace.stores.get? name with
  | none => workspace
  | some number =>
    let ongoing := workspace.transactions.entries.filter fun entry => entry.2.holder == number
    let quiet := (ongoing.map Prod.fst).foldl rollback workspace
    { quiet with stores := quiet.stores.erase name }

/-- Adds a holder. -/
def addHolder (workspace : Workspace) (holder : Holder) : Nat × Workspace :=
  (workspace.holders.size, { workspace with holders := workspace.holders.push holder })

/-- Opens a store under a name, in place of the one that had it. -/
def placeStore (workspace : Workspace) (name : String) (store : Store) : Workspace :=
  let (number, grown) := (workspace.endStore name).addHolder (.store store)
  { grown with stores := grown.stores.insert name number }

/-- Opens a new state under a name. -/
def placeState (workspace : Workspace) (name : String) (order : UcnOrder) : Workspace :=
  let (state, host) := workspace.host.newState order
  let (number, grown) := { workspace with host }.addHolder (.state state)
  { grown with states := grown.states.insert name number }

/-- Begins a transaction on a store; one under the same name is rolled back. -/
def begin (workspace : Workspace) (number : Nat) (store : Store) (name : String) :
    Transaction × Workspace :=
  let transaction := Transaction.start store
  let quiet := workspace.rollback name
  (transaction,
    { quiet with transactions := quiet.transactions.insert name ⟨number, transaction⟩ })

/-- The workspace with a transaction changed. -/
def withTransaction (workspace : Workspace) (name : String) (ongoing : OpenTransaction)
    (transaction : Transaction) : Workspace :=
  { workspace with
    transactions := workspace.transactions.insert name { ongoing with transaction } }

/-- Commits a transaction, which ends it either way. -/
def commit (workspace : Workspace) (number : Nat) (store : Store) (transaction : Transaction) :
    CommitReport × Workspace :=
  let report := transaction.commit workspace.host.directory store
  (report, (workspace.withDirectory report.directory).withHolder number (.store report.store))

/-- Registers an index with a holder, which takes the next number. -/
def createIndex (workspace : Workspace) (number : Nat) (holder : Holder) (info : IndexInfo) :
    Except StoreError (Index × Workspace) :=
  match holder with
  | .store store =>
    (store.createIndex workspace.host info).map fun (index, next, host) =>
      (index, { workspace with host }.withHolder number (.store next))
  | .state state =>
    (state.addIndex workspace.host.nextIndex info).map fun (index, next) =>
      let host := { workspace.host with nextIndex := workspace.host.nextIndex + 1 }
      (index, { workspace with host }.withHolder number (.state next))

/-- An index as it is. -/
def index? (workspace : Workspace) (reference : IndexRef) : Option Index :=
  (workspace.state? reference.holder).bind (·.index? reference.id)

/-- Brings an index up to date, if its state is still open. -/
def refresh (workspace : Workspace) (reference : IndexRef) : Workspace :=
  match workspace.state? reference.holder with
  | none => workspace
  | some state =>
    if workspace.isOpen reference.holder then
      workspace.withState reference.holder (state.refresh reference.id)
    else workspace

end Workspace
end AtomStore
