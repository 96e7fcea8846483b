import AtomStore.Store.Recovery
import AtomStore.Store.State

/-!
# Stores

A store keeps committed atoms in memory and, unless it lives in memory only, in a data file. Stores
on one host share its directory and the numbering of indices.
-/

namespace AtomStore

/-- What stores share. -/
structure Host where
  directory : Directory := {}
  /-- The number of the next index. -/
  nextIndex : Nat := 1
  deriving Inhabited

/-- An open store. -/
structure Store where
  settings : Settings
  state : State
  /-- The data file; a store in memory has none. -/
  file : Option DataFile
  readOnly : Bool
  defaultIndexing : Bool

namespace Host

/-- A new state, whose index over all atoms takes the next number. -/
def newState (host : Host) (order : UcnOrder) : State × Host :=
  (.new host.nextIndex order, { host with nextIndex := host.nextIndex + 1 })

end Host

namespace Store

/-- A store with the switches that its settings ask for. -/
def assemble (settings : Settings) (state : State) (file : Option DataFile) : Store :=
  { settings, state, file
    readOnly := settings.readOnly
    defaultIndexing := settings.defaultIndexing }

/-- A store that lives in memory only. -/
def inMemory (host : Host) (settings : Settings) : Store × Host :=
  let (state, next) := host.newState settings.globalOrder
  (assemble settings state none, next)

/-- The version of the format in which new files are written. -/
def currentVersion : Nat := 2

/-- Creates a store with a new data file. -/
def create (host : Host) (settings : Settings) (storeId : StoreId) (metadata : Metadata) :
    Host × Except StoreError Store :=
  match DataFile.create host.directory settings.path storeId currentVersion metadata
      settings.sync with
  | .error error => (host, .error (.dataFile error))
  | .ok (directory, file) =>
    let (state, next) := { host with directory }.newState settings.globalOrder
    (next, .ok (assemble settings state (some file)))

/-- Opens a store and takes in the records of its data file. An index number is used up once the
header is accepted. The directory does not fail by itself: a torn record that is to be cut off is
cut off, and the cut is on the disk and the file open again when the store is there. -/
def openFile (host : Host) (settings : Settings) : Host × Except StoreError Store :=
  match DataFile.openAt host.directory settings.path settings.sync settings.readOnly with
  | .error error => (host, .error (.dataFile error))
  | .ok file =>
    let (state, next) := host.newState settings.globalOrder
    let recovery := file.recover next.directory state.slots settings.repairTornTail
    let after := { next with directory := recovery.directory }
    match recovery.outcome with
    | .error error => (after, .error (.dataFile error))
    | .ok _ =>
      (after, .ok (assemble settings { state with slots := recovery.slots } (some recovery.file)))

/-- Opens the store at the path of the settings if something is there, and creates it otherwise. -/
def openOrCreate (host : Host) (settings : Settings) (storeId : StoreId) :
    Host × Except StoreError Store :=
  if host.directory.contains settings.path then openFile host settings
  else create host settings storeId .empty

/-- The UCN of the next commit. -/
def ucn (store : Store) : Nat := store.state.slots.ucn

/-- The header of the data file. -/
def header? (store : Store) : Option Log.Header := store.file.map (·.header)

/-- Switches commits off or on; a store whose file was opened read-only stays read-only. -/
def setReadOnly (store : Store) (readOnly : Bool) : Except StoreError Store :=
  if !readOnly && store.file.any (·.readOnly) then .error .readOnly
  else .ok { store with readOnly }

/-- Registers an index, which takes the next number, and brings it up to date at once when commits
do so too. -/
def createIndex (store : Store) (host : Host) (info : IndexInfo) :
    Except StoreError (Index × Store × Host) := do
  let (index, state) ← store.state.addIndex host.nextIndex info
  let kept := if store.defaultIndexing then state.refresh index.id else state
  .ok (index, { store with state := kept }, { host with nextIndex := host.nextIndex + 1 })

/-- The bytes of a particle, read from the data file where they are kept there. -/
def readBytes (store : Store) (directory : Directory) : Particle → Except StoreError Bytes
  | .bytes payload => .ok payload
  | .hosted offset length =>
    match store.file with
    | none => .error .noDataFile
    | some file =>
      match file.hostedReader.read directory offset length with
      | .ok payload => .ok payload
      | .error error => .error (.dataFile error)
  | .integer _ => .error .notBytes
  | .text _ => .error .notBytes

/-- The store with other slots. -/
def withSlots (store : Store) (slots : Slots) : Store :=
  { store with state := { store.state with slots } }

/-- The store when indices have been read, which brings them up to date. -/
def withReads (store : Store) (indices : List Nat) : Store :=
  { store with state := store.state.refreshEach indices }

/-- Empties reserved slots for good. -/
def release (store : Store) (ids : List Nat) : Store :=
  store.withSlots (store.state.slots.releaseAll ids)

/-- The inspection text of a store. -/
def inspect (store : Store) : String :=
  let storeId := match store.header? with
    | none => "None"
    | some header => s!"Some({header.storeId.render})"
  s!"Universe \x7b path: {Text.quoted store.settings.path}, store_id: {storeId}, " ++
    s!"ucn: {store.ucn}, atoms: {store.state.slots.committed}, " ++
    s!"indices: {store.state.indices.length}, read_only: {store.readOnly}, " ++
    s!"default_indexing: {store.defaultIndexing} \x7d"

end Store
end AtomStore
