import AtomStore.Shell

/-!
# A session at the console

The console opens the store that the settings name, greets, and then carries out its input line by
line with a prompt in front of each. It stops at the command to exit, at the end of the input, or at
a line that is not text.
-/

namespace AtomStore.Console

/-- The prompt in front of every line of input. -/
def prompt : String := "> "

/-- What is shown when a store has been opened. -/
def greeting (settings : Settings) (store : Store) : String :=
  s!"Universe started (ucn={store.ucn}, atoms={store.state.slots.committed}, " ++
    s!"path={settings.path}, order={settings.globalOrder.render})\n" ++
    "Commands: PUT key=value ... | GET id | FIND key=value | SCAN [key]\n" ++
    "          INDICES | STATS | EXIT\n"

/-- A cause with its place among several. -/
def numberedCause (cause : String × Nat) : String := s!"    {cause.2}: {cause.1}\n"

/-- What is shown when a store cannot be opened: the causes, numbered if there are several. -/
def openFailure (settings : Settings) (error : StoreError) : String :=
  let causes := match error.causes with
    | [cause] => s!"    {cause}\n"
    | several =>
      String.join (several.zipIdx.map numberedCause)
  s!"Error: failed to open {settings.path}\n\nCaused by:\n{causes}"

/-- What is shown when a line of input is not text. -/
def inputFailure : String := "Error: stream did not contain valid UTF-8\n"

/-- The lines of some input; a line feed ends a line. -/
def inputLines : Bytes → List Bytes
  | [] => []
  | byte :: rest =>
    (byte :: rest).takeWhile (· != 0x0A) ::
      inputLines (((byte :: rest).dropWhile (· != 0x0A)).drop 1)
  termination_by bytes => bytes.length
  decreasing_by
    have shorter := (List.dropWhile_sublist (· != 0x0A) (l := byte :: rest)).length_le
    simp only [List.length_drop, List.length_cons] at shorter ⊢
    omega

/-- How a session goes on after a line. -/
inductive Step where
  /-- The text to show, and the shell for the next line. -/
  | proceed (shown : String) (shell : Shell)
  /-- The text to show last. -/
  | finished (shown : String) (shell : Shell)
  /-- The line was not text. -/
  | failed

/-- Carries out one line of input. -/
def step (shell : Shell) (line : Bytes) : Step :=
  match Text.ofUtf8? line with
  | none => .failed
  | some text =>
    match shell.execute text with
    | (.lines lines, next) => .proceed (String.join (lines.map (· ++ "\n")) ++ prompt) next
    | (.exit, next) => .finished "bye\n" next

/-- How a session has ended. -/
structure Outcome where
  host : Host
  code : Nat
  output : String
  errors : String

/-- Carries out lines one after the other. -/
def converse (shell : Shell) (shown : String) : List Bytes → Outcome
  | [] => ⟨shell.host, 0, shown, ""⟩
  | line :: rest =>
    match step shell line with
    | .proceed more next => converse next (shown ++ more) rest
    | .finished last next => ⟨next.host, 0, shown ++ last, ""⟩
    | .failed => ⟨shell.host, 1, shown, inputFailure⟩

/-- Runs a whole session on given input. -/
def run (host : Host) (settings : Settings) (storeId : StoreId) (input : Bytes) : Outcome :=
  match Store.openOrCreate host settings storeId with
  | (after, .error error) => ⟨after, 1, "", openFailure settings error⟩
  | (after, .ok store) =>
    converse ⟨after, store⟩ (greeting settings store ++ prompt) (inputLines input)

end AtomStore.Console
