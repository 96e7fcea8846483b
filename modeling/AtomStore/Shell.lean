import AtomStore.Store.Transaction
import AtomStore.Text.Upper

/-!
# The shell

Each line is one command: a word, in any case, and its arguments. A command answers with the lines
to show or ends the session. Searches by a key use an index over the atoms that hold the key, which
is registered when it is first needed.
-/

namespace AtomStore

/-- The answer to a command. -/
inductive Reply where
  | lines (lines : List String)
  | exit
  deriving DecidableEq

/-- A store at work in a shell, on its host. -/
structure Shell where
  host : Host
  store : Store

namespace Shell

/-- Cuts a text at its first equals sign. -/
def cutAtEquals? (text : String) : Option (String × String) :=
  let characters := text.toList
  match characters.dropWhile (· != '=') with
  | [] => none
  | _ :: value => some (String.ofList (characters.takeWhile (· != '=')), String.ofList value)

/-- A value is an integer if it reads as one, and otherwise its text. -/
def readValue (text : String) : Particle :=
  match Text.integer? text with
  | some value => .integer value
  | none => .text text

/-- A key and a value around an equals sign. -/
def readJunction? (text : String) : Option (Key × Particle) := do
  let (key, value) ← cutAtEquals? text
  some (UInt64.ofNat (← Text.word? key), readValue value)

/-- Reads junctions up to the first text that is none. -/
def readJunctions : List String → Except String (List (Key × Particle))
  | [] => .ok []
  | text :: rest =>
    match readJunction? text with
    | none => .error text
    | some junction => (readJunctions rest).map (junction :: ·)

/-- The index over the atoms that hold a key, in the order of its values. -/
def keyIndex (key : Key) : IndexInfo :=
  { name := s!"by-{key.toNat}", condition := .hasKey key, sortKeys := [key] }

/-- The number of the index for a key, which is registered if there is none yet. -/
def indexFor (shell : Shell) (key : Key) : Except StoreError (Nat × Shell) :=
  match shell.store.state.indexNamed? (keyIndex key).name with
  | some index => .ok (index.id, shell)
  | none =>
    (shell.store.createIndex shell.host (keyIndex key)).map fun (index, store, host) =>
      (index.id, { host, store })

/-- Brings an index up to date and gives it. -/
def refreshed (shell : Shell) (id : Nat) : Option Index × Shell :=
  let state := shell.store.state.refresh id
  (state.index? id, { shell with store := { shell.store with state } })

/-- The answer that shows an atom or its absence. -/
def showAtom : Option Atom → Reply
  | some atom => .lines [atom.render]
  | none => .lines ["(nil)"]

/-- Commits one atom. -/
def put (shell : Shell) (arguments : List String) : Reply × Shell :=
  if arguments.isEmpty then (.lines ["ERR usage: PUT key=value [key=value ...]"], shell)
  else
    match readJunctions arguments with
    | .error text => (.lines [s!"ERR bad junction: {text}"], shell)
    | .ok junctions =>
      let (id, reserved, started) := (Transaction.start shell.store).createAtom shell.store
      match started.setJunctions id (.ofList junctions) with
      | .error error =>
        (.lines [s!"ERR put failed: {error.message}"],
          { shell with store := started.rollback reserved })
      | .ok transaction =>
        let report := transaction.commit shell.host.directory reserved
        let next : Shell :=
          { host := { shell.host with directory := report.directory }, store := report.store }
        match report.outcome with
        | .ok committed => (.lines [s!"OK id={id} ucn={committed.ucn.getD 0}"], next)
        | .error error => (.lines [s!"ERR put failed: {error.message}"], next)

/-- Shows the atom of a slot. -/
def get (shell : Shell) (arguments : List String) : Reply :=
  match arguments.head?.bind Text.word? with
  | none => .lines ["ERR usage: GET id"]
  | some id => showAtom (shell.store.state.slots.atom? id)

/-- Shows the first atom that has a value under a key. -/
def find (shell : Shell) (arguments : List String) : Reply × Shell :=
  match arguments.head?.bind readJunction? with
  | none => (.lines ["ERR usage: FIND key=value"], shell)
  | some (key, value) =>
    match shell.indexFor key with
    | .error error => (.lines [s!"ERR find failed: {error.message}"], shell)
    | .ok (id, indexed) =>
      let (index, next) := indexed.refreshed id
      (showAtom (index.bind (·.find? (SortedMap.empty.insert key value))), next)

/-- Shows all atoms of an index. -/
def list (shell : Shell) (id : Nat) : Reply × Shell :=
  let (found, next) := shell.refreshed id
  let atoms := match found with
    | none => []
    | some index => index.walk.remaining index
  if atoms.isEmpty then (.lines ["(empty)"], next)
  else (.lines (atoms.map Atom.render ++ [s!"({atoms.length} atoms)"]), next)

/-- Shows all atoms, or those that hold a key. -/
def scan (shell : Shell) (arguments : List String) : Reply × Shell :=
  match arguments.head? with
  | none =>
    match shell.store.state.indices.head? with
    | none => (.lines ["(empty)"], shell)
    | some global => shell.list global.id
  | some text =>
    match Text.word? text with
    | none => (.lines ["ERR usage: SCAN [key]"], shell)
    | some key =>
      match shell.indexFor (UInt64.ofNat key) with
      | .error error => (.lines [s!"ERR scan failed: {error.message}"], shell)
      | .ok (id, indexed) => indexed.list id

/-- Shows all indices with their sizes. -/
def indices (shell : Shell) : Reply × Shell :=
  let state := shell.store.state.refreshAll
  (.lines (state.indices.map fun index => s!"{index.id} {index.info.name} ({index.size} atoms)"),
    { shell with store := { shell.store with state } })

/-- Carries out one line. -/
def execute (shell : Shell) (line : String) : Reply × Shell :=
  match Text.words line with
  | [] => (.lines [], shell)
  | word :: arguments =>
    let command := Text.upper word
    if command = "PUT" then shell.put arguments
    else if command = "GET" then (shell.get arguments, shell)
    else if command = "FIND" then shell.find arguments
    else if command = "SCAN" then shell.scan arguments
    else if command = "INDICES" then shell.indices
    else if command = "STATS" then (.lines [shell.store.inspect], shell)
    else if command = "EXIT" ∨ command = "QUIT" then (.exit, shell)
    else (.lines [s!"unknown command: {command}"], shell)

end Shell
end AtomStore
