import AtomStore.Store.Basic

/-!
# Transactions

A transaction reserves slots, builds drafts in them, and then commits all of them under one UCN or
gives every slot up. A commit drops the discarded drafts, asks the verifiers in order, writes the
record, and publishes. When it fails before anything is written, all slots of the transaction are
empty for good and nothing it built becomes visible.

A commit gives up and fills the slots whose numbers its drafts have. These are the slots of the
transaction as long as no draft is exchanged for one with another number.
-/

namespace AtomStore

/-- What becomes of a draft at commit. -/
inductive Mark where
  | building
  /-- Dropped, unless it is referred to before the commit. -/
  | discarded
  /-- Kept, even if it is discarded. -/
  | referred
  deriving DecidableEq

/-- The mark after a discard. -/
def Mark.afterDiscard : Mark → Mark
  | .building => .discarded
  | mark => mark

/-- A draft in a reserved slot. -/
structure PendingAtom where
  draft : Draft
  mark : Mark := .building
  deriving DecidableEq

/-- A check that a commit has to pass. It reads the store as it is when the discarded drafts are
gone and before anything is written, and objects by giving its reasons. Which indices it brings up
to date by reading them is told by the course of the commit. -/
structure Verifier where
  label : String
  check : Directory → Store → Except (List String) Unit

/-- One transaction. -/
structure Transaction where
  /-- The UCN of the next commit when the transaction began. -/
  startUcn : Nat
  /-- The drafts by slot. -/
  pending : SortedMap Nat PendingAtom := .empty
  verifiers : List Verifier := []

/-- What a commit has published. -/
structure Committed where
  /-- The UCN of the atoms; nothing left to commit uses none. -/
  ucn : Option Nat
  atoms : List Atom
  deriving DecidableEq

/-- How a commit has ended, and what it did. -/
structure CommitReport where
  directory : Directory
  store : Store
  /-- The labels of the verifiers that ran. -/
  ran : List String
  /-- The atoms handed to the observer of the commit, if it was called. -/
  announced : Option (List Atom)
  outcome : Except CommitError Committed

namespace Transaction

/-- Begins a transaction. -/
def start (store : Store) : Transaction := { startUcn := store.ucn }

/-- Reserves a slot and begins a draft in it. -/
def createAtom (transaction : Transaction) (store : Store) : Nat × Store × Transaction :=
  let (id, slots) := store.state.slots.reserve
  (id, store.withSlots slots,
    { transaction with pending := transaction.pending.insert id { draft := { id } } })

/-- The draft in a slot. -/
def draft? (transaction : Transaction) (id : Nat) : Option Draft :=
  (transaction.pending.get? id).map (·.draft)

/-- Changes the draft in a slot, or its mark; slots of other transactions are refused. -/
def change (transaction : Transaction) (id : Nat) (edit : PendingAtom → PendingAtom) :
    Except StoreError Transaction :=
  match transaction.pending.get? id with
  | none => .error (.unknownAtom id)
  | some atom => .ok { transaction with pending := transaction.pending.insert id (edit atom) }

/-- Gives the draft in a slot its junctions, in place of those it had. -/
def setJunctions (transaction : Transaction) (id : Nat) (junctions : Junctions) :
    Except StoreError Transaction :=
  transaction.change id fun atom => { atom with draft := { atom.draft with junctions } }

/-- Binds a key of a draft and gives the value it had. -/
def bind (transaction : Transaction) (id : Nat) (key : Key) (value : Particle) :
    Except StoreError (Option Particle × Transaction) :=
  (transaction.change id fun atom => { atom with draft := atom.draft.bind key value }).map
    fun changed => ((transaction.draft? id).bind (·.junctions.get? key), changed)

/-- Unbinds a key of a draft and gives the value it had. -/
def unbind (transaction : Transaction) (id : Nat) (key : Key) :
    Except StoreError (Option Particle × Transaction) :=
  (transaction.change id fun atom => { atom with draft := atom.draft.unbind key }).map
    fun changed => ((transaction.draft? id).bind (·.junctions.get? key), changed)

/-- Marks a draft to be dropped. -/
def discard (transaction : Transaction) (id : Nat) : Except StoreError Transaction :=
  transaction.change id fun atom => { atom with mark := atom.mark.afterDiscard }

/-- Marks a draft to be kept. -/
def refer (transaction : Transaction) (id : Nat) : Except StoreError Transaction :=
  transaction.change id fun atom => { atom with mark := .referred }

/-- Puts another draft in the place of the one in a slot, with whatever number it has. -/
def exchange (transaction : Transaction) (id : Nat) (draft : Draft) :
    Except StoreError Transaction :=
  transaction.change id fun atom => { atom with draft }

/-- Adds a check to pass at commit, after those already there. -/
def addVerifier (transaction : Transaction) (verifier : Verifier) : Transaction :=
  { transaction with verifiers := transaction.verifiers ++ [verifier] }

/-- Gives up all slots of a transaction. -/
def rollback (transaction : Transaction) (store : Store) : Store :=
  store.release transaction.pending.keys

/-- The slots of the drafts that a commit drops. -/
def dropped (transaction : Transaction) : List Nat :=
  (transaction.pending.entries.filter fun entry => entry.2.mark == .discarded).map Prod.fst

/-- The drafts that a commit keeps, in slot order. -/
def kept (transaction : Transaction) : List Draft :=
  (transaction.pending.entries.filter fun entry => entry.2.mark != .discarded).map
    fun entry => entry.2.draft

/-- Points a draft to the bytes of it that stay in the data file. -/
def pointed (places : List Log.HostedPlace) (draft : Draft) : Draft :=
  (places.filter fun place => place.atom == draft.id).foldl
    (fun changed place => changed.bind place.key place.particle) draft

/-- A way of pointing drafts to the bytes of them that stay in the data file. The draft of a place is
found by bisection, so what comes of drafts whose numbers do not ascend is left open. -/
structure Pointing where
  apply : List Log.HostedPlace → List Draft → List Draft
  ids_eq : ∀ places drafts, (apply places drafts).map (·.id) = drafts.map (·.id)
  apply_eq : ∀ places drafts, (drafts.map (·.id)).Pairwise (· < ·) →
    apply places drafts = drafts.map (pointed places)

theorem id_pointed (places : List Log.HostedPlace) (draft : Draft) :
    (pointed places draft).id = draft.id := by
  rw [pointed]
  generalize (places.filter fun place => place.atom == draft.id) = own
  induction own generalizing draft with
  | nil => rfl
  | cons place rest ih =>
    rw [List.foldl_cons]
    exact ih (draft.bind place.key place.particle)

/-- Every draft is pointed to the places under its number. -/
def Pointing.each : Pointing where
  apply places drafts := drafts.map (pointed places)
  ids_eq places drafts := by
    rw [List.map_map]
    exact List.map_congr_left fun draft _ => id_pointed places draft
  apply_eq _ _ _ := rfl

/-- What decides how a commit goes, beside its transaction and its store. -/
structure Course where
  /-- The indices that each verifier reads, in the order of the verifiers. -/
  verifierReads : List (List Nat) := []
  /-- The indices that the observer of the commit reads. -/
  observerReads : List Nat := []
  /-- How the system fails to write the record, if it does. -/
  fault? : Option WriteFault := none
  pointing : Pointing := .each

/-- Asks verifiers in order until one objects, with the indices that each of them reads; gives the
labels of those asked and the store they leave. -/
def ask (directory : Directory) (store : Store) :
    List (List Nat) → List Verifier → List String × Store × Option (List String)
  | _, [] => ([], store, none)
  | reads, verifier :: rest =>
    let seen := store.withReads (reads.headD [])
    match verifier.check directory store with
    | .error reasons => ([verifier.label], seen, some reasons)
    | .ok () =>
      let (ran, left, objection) := ask directory seen reads.tail rest
      (verifier.label :: ran, left, objection)

/-- Writes the record of a commit, if the store has a data file, and gives the drafts as they are
then. -/
def record (course : Course) (directory : Directory) (store : Store) (drafts : List Draft) :
    Directory × Except LogError (Store × List Draft) :=
  match store.file with
  | none => (directory, .ok (store, drafts))
  | some file =>
    let (written, outcome) :=
      file.appendUnder course.fault? directory store.ucn drafts store.settings.hostedThreshold
    (written, outcome.map fun (next, places) =>
      ({ store with file := some next }, course.pointing.apply places drafts))

/-- Publishes drafts under the UCN of the store, lets the observer read its indices, and brings all
indices up to date where the store asks for that. -/
def publish (store : Store) (drafts : List Draft) (reads : List Nat := []) :
    Except StoreError (Store × Committed) :=
  let slots := store.state.slots
  let atoms := drafts.map (·.toAtom slots.ucn slots.ucn_pos)
  (slots.publish atoms).map fun published =>
    let observed := { store.state with slots := published }.refreshEach reads
    ({ store with state := if store.defaultIndexing then observed.refreshAll else observed },
      ⟨some slots.ucn, atoms⟩)

/-- Commits a transaction in some course. -/
def commitUnder (course : Course) (transaction : Transaction) (directory : Directory)
    (store : Store) : CommitReport :=
  if store.readOnly then
    ⟨directory, transaction.rollback store, [], none, .error .readOnly⟩
  else
    let cleared := store.release transaction.dropped
    let kept := transaction.kept
    match ask directory cleared course.verifierReads transaction.verifiers with
    | (ran, seen, some reasons) =>
      ⟨directory, seen.release (kept.map (·.id)), ran, none, .error (.verification reasons)⟩
    | (ran, seen, none) =>
      if kept.isEmpty then
        ⟨directory, seen.withReads course.observerReads, ran, some [], .ok ⟨none, []⟩⟩
      else
        match record course directory seen kept with
        | (left, .error error) =>
          ⟨left, seen.release (kept.map (·.id)), ran, none, .error (.durability error)⟩
        | (written, .ok (recorded, drafts)) =>
          match publish recorded drafts course.observerReads with
          | .error error => ⟨written, recorded, ran, none, .error (.store error)⟩
          | .ok (published, committed) =>
            ⟨written, published, ran, some committed.atoms, .ok committed⟩

/-- Commits a transaction where the system can write and nobody reads an index meanwhile. -/
def commit (transaction : Transaction) (directory : Directory) (store : Store) : CommitReport :=
  transaction.commitUnder {} directory store

/-- The inspection text of a transaction. -/
def inspect (transaction : Transaction) : String :=
  s!"Expansion \x7b start_ucn: {transaction.startUcn}, atoms: {transaction.pending.size}, " ++
    s!"verifiers: {transaction.verifiers.length} \x7d"

end Transaction
end AtomStore
