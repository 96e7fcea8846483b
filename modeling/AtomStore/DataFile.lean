import AtomStore.Directory
import AtomStore.Log.Commit
import AtomStore.Log.Header
import AtomStore.Log.Scan
import AtomStore.Text.Quoted

/-!
# Open data files

A data file holds the records of all commits behind its header. An open file knows where the next
record goes: at the end of the last one it has read or written. Bytes beyond that place are pad
bytes or of no account, and the next record is written over them.
-/

namespace AtomStore

open Log (Header HostedPlace)

/-- A reader of the byte runs that stay in a data file. -/
structure HostedReader where
  path : String
  headerLength : Nat
  deriving DecidableEq

/-- An open data file. -/
structure DataFile where
  path : String
  header : Header
  headerLength : Nat
  /-- Where the next record goes. -/
  stop : Nat
  sync : Bool
  readOnly : Bool
  deriving DecidableEq

/-- How the system fails to write bytes to a file. -/
structure WriteFault where
  failure : Log.IoFailure
  /-- The number of the bytes that have reached the file. -/
  reached : Nat
  /-- Whether the file can be cut afterwards. -/
  cut : Bool
  deriving DecidableEq

/-- The bytes of a file from an offset on, which must all be there. -/
def Directory.readRange (directory : Directory) (path : String) (offset length : Nat) :
    Except LogError Bytes :=
  let taken := ((directory.content path).drop offset).take length
  if taken.length < length then .error (.io .endedEarly) else .ok taken

namespace HostedReader

/-- Reads a run of bytes that must lie between the header and the end of the file. -/
def read (reader : HostedReader) (directory : Directory) (offset length : Nat) :
    Except LogError Bytes :=
  if reader.headerLength ≤ offset ∧
      offset + length ≤ (directory.content reader.path).length then
    directory.readRange reader.path offset length
  else .error (.corrupt offset (.hostedOutsideFile length))

end HostedReader

namespace DataFile

/-- Creates a file that holds a header only. A version or header that is not possible is refused
before the directory is looked at. -/
def create (directory : Directory) (path : String) (storeId : StoreId) (version : Nat)
    (metadata : Metadata) (sync : Bool) : Except LogError (Directory × DataFile) := do
  let header ← Header.make storeId version metadata
  let bytes ← header.encode
  match directory.place path with
  | .nowhere => .error (.io (directory.absence path))
  | .folder _ => .error (.io .isDirectory)
  | .directory => .error (.alreadyExists path)
  | .file _ =>
    if directory.contains path then .error (.alreadyExists path)
    else
      .ok (directory.write path bytes,
        { path, header, headerLength := bytes.length, stop := bytes.length, sync,
          readOnly := false })

/-- Opens a file with a valid header; its records are not read yet. -/
def openAt (directory : Directory) (path : String) (sync readOnly : Bool) :
    Except LogError DataFile :=
  match directory.file? path with
  | some content =>
    (Header.decode content).map fun (header, headerLength) =>
      { path, header, headerLength, stop := content.length, sync, readOnly }
  | none =>
    .error (.io (if directory.contains path then .isDirectory else directory.absence path))

/-- Whether a file holds no records yet. -/
def isEmpty (file : DataFile) : Bool := file.stop == file.headerLength

/-- A separate reader of the byte runs that stay in the file. -/
def hostedReader (file : DataFile) : HostedReader := ⟨file.path, file.headerLength⟩

/-- The inspection text of an open file. -/
def inspect (file : DataFile) : String :=
  s!"AtomDataFile \x7b path: {Text.quoted file.path}, " ++
    s!"store_id: {file.header.storeId.render}, version: {file.header.version.number}, " ++
    s!"end: {file.stop}, sync: {file.sync}, read_only: {file.readOnly} \x7d"

/-- What a scan of the file's records finds. A record that runs into the end of the file is torn
when nothing after its first byte is a whole record, and damaged otherwise. -/
def scan (file : DataFile) (directory : Directory) : Log.Scan :=
  let content := directory.content file.path
  let version := file.header.version
  let found := Log.scan version file.headerLength (content.drop file.headerLength)
  match found.outcome with
  | .error (.truncated offset) =>
    match Log.wholeRecord? version (offset + 1) (content.drop (offset + 1)) with
    | some next => ⟨found.records, .error (.corrupt offset (.overrunsRecord next))⟩
    | none => found
  | _ => found

/-- Hands every record to a consumer. After a full replay the next record goes behind the last one;
a failed replay leaves that place as it was. -/
def replay {σ : Type} (file : DataFile) (directory : Directory)
    (consume : σ → Log.Record → σ × Option LogError) (state : σ) :
    σ × Nat × Nat × Except LogError (Log.Summary × DataFile) :=
  let (last, records, atoms, outcome) := (file.scan directory).deliver consume state
  (last, records, atoms,
    outcome.map fun summary => (summary, { file with stop := summary.endOffset }))

/-- Reads a run of bytes that must lie between the header and the place of the next record. -/
def readHosted (file : DataFile) (directory : Directory) (offset length : Nat) :
    Except LogError Bytes :=
  if file.headerLength ≤ offset ∧ offset + length ≤ file.stop then
    directory.readRange file.path offset length
  else .error (.corrupt offset (.hostedOutsideRecords length))

/-- The form in which a particle is written. Runs of bytes longer than the threshold stay in the
file when the file hosts them; runs taken from the file stay there. -/
def storedValue (file : DataFile) (directory : Directory) (hosting : Bool) (threshold : Nat) :
    Particle → Except LogError Log.StoredValue
  | .integer value => .ok (.integer value)
  | .text value => .ok (.text value)
  | .bytes payload =>
    .ok (if hosting ∧ threshold < payload.length then .hosted payload else .bytes payload)
  | .hosted offset length =>
    (file.readHosted directory offset length).map fun payload =>
      if hosting then .hosted payload else .bytes payload

/-- The form in which a junction is written. -/
def storedJunction (file : DataFile) (directory : Directory) (hosting : Bool) (threshold : Nat)
    (junction : Key × Particle) : Except LogError (Key × Log.StoredValue) :=
  (file.storedValue directory hosting threshold junction.2).map fun value => (junction.1, value)

/-- The form in which a draft is written. -/
def storedAtom (file : DataFile) (directory : Directory) (hosting : Bool) (threshold : Nat)
    (draft : Draft) : Except LogError Log.StoredAtom :=
  (draft.junctions.entries.mapM (file.storedJunction directory hosting threshold)).map
    fun values => ⟨draft.id, values⟩

/-- Whether a file keeps long runs of bytes out of memory under a threshold. -/
def hosting (file : DataFile) (threshold : Nat) : Bool :=
  0 < threshold && file.header.version.hosts

/-- Writes bytes at the place of the next record and moves that place behind them. -/
def writeNext (file : DataFile) (directory : Directory) (bytes : Bytes) : Directory × DataFile :=
  (directory.write file.path (overwrite (directory.content file.path) file.stop bytes),
    { file with stop := file.stop + bytes.length })

/-- What is in the directory when bytes could not be written at the place of the next record. Part of
them may have reached the file; it is then cut at that place, bytes behind it that were there before
included, unless that fails too. -/
def failNext (file : DataFile) (directory : Directory) (bytes : Bytes) (fault : WriteFault) :
    Directory :=
  let reached := overwrite (directory.content file.path) file.stop (bytes.take fault.reached)
  directory.write file.path (if fault.cut then resize reached file.stop else reached)

/-- Appends the record of a commit, unless the system fails to write it, and tells where the runs of
bytes came to be that stay in the file. A failure before anything is written leaves the directory as
it was. -/
def appendUnder (fault? : Option WriteFault) (file : DataFile) (directory : Directory) (ucn : Nat)
    (drafts : List Draft) (threshold : Nat) :
    Directory × Except LogError (DataFile × List HostedPlace) :=
  if file.readOnly then (directory, .error .readOnly)
  else
    match drafts.mapM (file.storedAtom directory (file.hosting threshold) threshold) with
    | .error error => (directory, .error error)
    | .ok atoms =>
      let record := Log.recordBytes ucn atoms
      match fault? with
      | some fault => (file.failNext directory record fault, .error (.io fault.failure))
      | none =>
        let (written, next) := file.writeNext directory record
        (written, .ok (next, Log.hostedPlaces file.stop ucn atoms))

/-- Appends the record of a commit where the system can write it. A failure leaves the file as it
was. -/
def append (file : DataFile) (directory : Directory) (ucn : Nat) (drafts : List Draft)
    (threshold : Nat) : Except LogError (Directory × DataFile × List HostedPlace) :=
  let (written, outcome) := file.appendUnder none directory ucn drafts threshold
  outcome.map fun (next, places) => (written, next, places)

/-- An append that the system can carry out ends with the record written, or before anything is. -/
theorem append_eq (file : DataFile) (directory : Directory) (ucn : Nat) (drafts : List Draft)
    (threshold : Nat) :
    file.append directory ucn drafts threshold =
      if file.readOnly then .error .readOnly
      else
        (drafts.mapM (file.storedAtom directory (file.hosting threshold) threshold)).map fun atoms =>
          let (written, next) := file.writeNext directory (Log.recordBytes ucn atoms)
          (written, next, Log.hostedPlaces file.stop ucn atoms) := by
  rw [append, appendUnder]
  cases file.readOnly with
  | true => rfl
  | false =>
    cases drafts.mapM (file.storedAtom directory (file.hosting threshold) threshold) <;> rfl

/-- Appends pad bytes. -/
def pad (file : DataFile) (directory : Directory) (count : Nat) :
    Except LogError (Directory × DataFile) :=
  if file.readOnly then .error .readOnly
  else .ok (file.writeNext directory (List.replicate count Log.padByte))

/-- Cuts the file at an offset behind its header. The directory does not fail by itself: a file that
is open for writing can be cut, and the cut is on the disk then. -/
def truncate (file : DataFile) (directory : Directory) (offset : Nat) :
    Except LogError (Directory × DataFile) :=
  if file.readOnly then .error .readOnly
  else if offset < file.headerLength then .error (.corrupt offset .cutIntoHeader)
  else
    .ok (directory.write file.path (resize (directory.content file.path) offset),
      { file with stop := offset })

end DataFile
end AtomStore
