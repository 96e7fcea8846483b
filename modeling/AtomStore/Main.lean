import AtomStore.Console

/-!
# The program

The program reads its settings from the environment, opens the store that they name, and holds a
session on standard input and output. All decisions are the console's; here the data file is brought
into a directory before the session and written back whenever a command has changed it.
-/

namespace AtomStore.Main

/-- Whether a path leads to a folder; only a folder holds itself under the name of a dot. -/
def isFolder (path : String) : IO Bool := do
  let inside := path ++ "/."
  try
    let _ ← IO.FS.realPath inside
    pure true
  catch _ => pure false

/-- The directory that holds what is at a path and on the way to it. -/
def directoryAt (path : String) : IO Directory := do
  let places := (Path.ofString path).steps.map Prod.snd
  let folders ← places.filterM isFolder
  let bare : Directory := { folders }
  places.foldlM (fun directory (place : String) => do
    try
      let content ← IO.FS.readBinFile place
      pure (directory.write place content.data.toList)
    catch _ => pure directory) bare

/-- Writes the file at a path if its bytes have changed from one directory to the next. -/
def writeBack (path : String) (before after : Directory) : IO Unit := do
  match after.file? path with
  | none => pure ()
  | some content =>
    if before.file? path ≠ some content then
      IO.FS.writeBinFile path ⟨content.toArray⟩

/-- An identifier of random bytes, marked as such in its version and variant. -/
def randomStoreId : IO StoreId := do
  let random := (← IO.getRandomBytes 16).data.toList
  let marked := random.zipIdx.map fun (byte, place) =>
    if place = 6 then byte &&& 0x0F ||| 0x40
    else if place = 8 then byte &&& 0x3F ||| 0x80
    else byte
  pure ((StoreId.ofBytes? marked).getD .zero)

/-- The settings that the environment asks for. -/
def settings : IO Settings := do
  let names := ["UNIVERSE_PATH", "UNIVERSE_SYNC", "UNIVERSE_HOSTED_THRESHOLD",
    "UNIVERSE_GLOBAL_ORDER", "UNIVERSE_REPAIR_TORN_TAIL", "UNIVERSE_READ_ONLY",
    "UNIVERSE_DEFAULT_INDEXING"]
  let values ← names.mapM fun name => do pure (name, ← IO.getEnv name)
  pure (Settings.ofVariables fun name => (values.lookup name).join)

/-- The next line of input without its line feed, after the bytes that are already taken, which come
last first; nothing if the input has ended. -/
partial def readLine (input : IO.FS.Stream) (taken : Bytes) : IO (Option Bytes) := do
  match (← input.read 1).data.toList with
  | [] => pure (if taken.isEmpty then none else some taken.reverse)
  | byte :: _ =>
    if byte = 0x0A then pure (some taken.reverse) else readLine input (byte :: taken)

/-- Shows a text at once. -/
def display (output : IO.FS.Stream) (text : String) : IO Unit := do
  output.putStr text
  output.flush

/-- Carries out the lines of the input one by one. -/
partial def converse (input output : IO.FS.Stream) (shell : Shell) : IO UInt32 := do
  match ← readLine input [] with
  | none => pure 0
  | some line =>
    let path := shell.store.settings.path
    match Console.step shell line with
    | .proceed shown next =>
      writeBack path shell.host.directory next.host.directory
      display output shown
      converse input output next
    | .finished shown _ =>
      display output shown
      pure 0
    | .failed =>
      IO.eprint Console.inputFailure
      pure 1

/-- Opens the store and holds the session. -/
def run : IO UInt32 := do
  let settings ← settings
  let before ← directoryAt settings.path
  match Store.openOrCreate { directory := before } settings (← randomStoreId) with
  | (_, .error error) =>
    IO.eprint (Console.openFailure settings error)
    pure 1
  | (host, .ok store) =>
    writeBack settings.path before host.directory
    let output ← IO.getStdout
    display output (Console.greeting settings store ++ Console.prompt)
    converse (← IO.getStdin) output ⟨host, store⟩

end AtomStore.Main

/-- Runs the program. -/
def main : IO UInt32 := AtomStore.Main.run
