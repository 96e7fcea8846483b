import AtomStore.Log.Error
import AtomStore.Path
import AtomStore.SortedMap

/-!
# The directory of data files

A directory maps the plain paths of files to their bytes and knows the folders inside it. A path
that leads nowhere fails at its first step that is no folder. Bytes are written at an offset of a
file; where that lies past the end, zero bytes fill the gap.
-/

namespace AtomStore

/-- What a path leads to. -/
inductive Place where
  /-- A name in a folder, where a file is or may be. -/
  | file (name : String)
  /-- A name in a folder, where only a folder would do. -/
  | folder (name : String)
  /-- A folder that is reached without a last name. -/
  | directory
  /-- No folder is there to hold the last name, or nothing can be at such a path. -/
  | nowhere
  deriving DecidableEq

/-- Replaces the bytes from an offset on, which may lie past the end. -/
def overwrite (content : Bytes) (offset : Nat) (bytes : Bytes) : Bytes :=
  if bytes.isEmpty then content
  else
    content.take offset ++
      (List.replicate (offset - content.length) 0 ++
        (bytes ++ content.drop (offset + bytes.length)))

/-- Cuts or fills up with zero bytes to a length. -/
def resize (content : Bytes) (length : Nat) : Bytes :=
  content.take length ++ List.replicate (length - content.length) 0

/-- The files of a directory and the folders in it, all by their plain paths. -/
structure Directory where
  files : SortedMap String Bytes := .empty
  folders : List String := []
  deriving Inhabited

namespace Directory

/-- Whether every step of a path leads to a folder; two dots always do. -/
def reaches (directory : Directory) (steps : List (String × String)) : Bool :=
  steps.all fun (name, path) => name == ".." || directory.folders.contains path

/-- Why nothing can be at a path, whatever the directory holds. -/
def refusal? (path : String) : Option Log.IoFailure :=
  if path.toList.contains '\x00' then some .nulInPath
  else if path.isEmpty then some .noSuchFile
  else if !Path.textFits path then some .nameTooLong
  else none

/-- What a path leads to in a directory. -/
def place (directory : Directory) (path : String) : Place :=
  let parts := Path.ofString path
  let name := Path.plain parts.rooted parts.names
  if (refusal? path).isSome then .nowhere
  else
    match parts.ending with
    | .reached => if directory.reaches parts.steps then .directory else .nowhere
    | .slash => if directory.reaches parts.steps.dropLast then .folder name else .nowhere
    | .name =>
      if directory.reaches parts.steps.dropLast && parts.names.getLast?.all Path.nameFits then
        .file name
      else .nowhere

/-- Why a step of a path leads to no folder, if it leads to none. -/
def stepFailure? (directory : Directory) (step : String × String) : Option Log.IoFailure :=
  if directory.reaches [step] then none
  else if !Path.nameFits step.1 then some .nameTooLong
  else if (directory.files.get? step.2).isSome then some .notDirectory
  else some .noSuchFile

/-- Why nothing is found at a path: it is refused, or its first failing step says why. -/
def absence (directory : Directory) (path : String) : Log.IoFailure :=
  let failure? := refusal? path <|> (Path.ofString path).steps.findSome? directory.stepFailure?
  failure?.getD .noSuchFile

/-- The bytes of the file at a path, if there is one. -/
def file? (directory : Directory) (path : String) : Option Bytes :=
  match directory.place path with
  | .file name => directory.files.get? name
  | _ => none

/-- The bytes of the file at a path; a missing file reads as empty. -/
def content (directory : Directory) (path : String) : Bytes := (directory.file? path).getD []

/-- Whether a path leads to a file or a directory. -/
def contains (directory : Directory) (path : String) : Bool :=
  match directory.place path with
  | .file name => (directory.files.get? name).isSome || directory.folders.contains name
  | .folder name => directory.folders.contains name
  | .directory => true
  | .nowhere => false

/-- Sets the bytes of the file at a path. A path that leads to no place for a file has no effect. -/
def write (directory : Directory) (path : String) (content : Bytes) : Directory :=
  match directory.place path with
  | .file name => { directory with files := directory.files.insert name content }
  | _ => directory

/-- Writing a file changes no folder, and so not where paths lead. -/
theorem place_write (directory : Directory) (path other : String) (content : Bytes) :
    (directory.write path content).place other = directory.place other := by
  unfold write
  split <;> rfl

/-- A file just written has the bytes written. -/
theorem file?_write {directory : Directory} {path name : String} (content : Bytes)
    (leads : directory.place path = .file name) :
    (directory.write path content).file? path = some content := by
  simp only [file?, place_write, leads]
  simp only [write, leads, SortedMap.get?_insert_self]

end Directory
end AtomStore
