import AtomStore.Path
import AtomStore.Text.Blank
import AtomStore.Text.Number

/-!
# Settings

What a store is told when it opens. Settings come from named variables; a variable that is absent
or does not read as its kind of value leaves the standard setting.
-/

namespace AtomStore

/-- The direction in which atoms that tie on every sort key follow each other. -/
inductive UcnOrder where
  /-- Oldest commit first. -/
  | ascending
  /-- Newest commit first. -/
  | descending
  deriving DecidableEq, Inhabited

/-- A word that names no order. -/
structure UnknownOrder where
  word : String
  deriving DecidableEq

/-- The wording of a refused order. -/
def UnknownOrder.message (error : UnknownOrder) : String :=
  s!"unknown UCN order: {error.word}"

namespace UcnOrder

/-- Reads an order, in any case of ASCII letters and with blanks around it. -/
def parse (text : String) : Except UnknownOrder UcnOrder :=
  let word := (Text.trim text).map Char.toLower
  if word = "asc" ∨ word = "ascending" then .ok ascending
  else if word = "desc" ∨ word = "descending" then .ok descending
  else .error ⟨word⟩

/-- The short name of an order. -/
def render : UcnOrder → String
  | ascending => "asc"
  | descending => "desc"

/-- The inspection text of an order. -/
def inspect : UcnOrder → String
  | ascending => "Ascending"
  | descending => "Descending"

end UcnOrder

/-- The settings of a store. -/
structure Settings where
  /-- Where the data file is. -/
  path : String := "universe.db"
  /-- Whether every commit waits until it is on the disk. -/
  sync : Bool := true
  /-- Byte values longer than this are kept in the data file; zero keeps all of them in memory. -/
  hostedThreshold : Nat := 65536
  /-- The order of the index over all atoms. -/
  globalOrder : UcnOrder := .descending
  /-- Whether a last record that was cut short is removed when the store opens. -/
  repairTornTail : Bool := false
  readOnly : Bool := false
  /-- Whether every commit brings all indices up to date. -/
  defaultIndexing : Bool := false
  deriving DecidableEq, Inhabited

namespace Settings

/-- A truth value is one of two exact words. -/
def flag? (text : String) : Option Bool :=
  if text = "true" then some true else if text = "false" then some false else none

/-- Reads a variable after trimming it, and falls back when it is absent or does not read. -/
def variableOr {α : Type} (lookup : String → Option String) (name : String)
    (read : String → Option α) (fallback : α) : α :=
  ((lookup name).bind fun text => read (Text.trim text)).getD fallback

/-- The settings that variables ask for. -/
def ofVariables (lookup : String → Option String) : Settings :=
  let standard : Settings := {}
  { path := (lookup "UNIVERSE_PATH").getD standard.path
    sync := variableOr lookup "UNIVERSE_SYNC" flag? standard.sync
    hostedThreshold :=
      variableOr lookup "UNIVERSE_HOSTED_THRESHOLD" Text.word? standard.hostedThreshold
    globalOrder :=
      variableOr lookup "UNIVERSE_GLOBAL_ORDER" (UcnOrder.parse · |>.toOption)
        standard.globalOrder
    repairTornTail :=
      variableOr lookup "UNIVERSE_REPAIR_TORN_TAIL" flag? standard.repairTornTail
    readOnly := variableOr lookup "UNIVERSE_READ_ONLY" flag? standard.readOnly
    defaultIndexing :=
      variableOr lookup "UNIVERSE_DEFAULT_INDEXING" flag? standard.defaultIndexing }

/-- Whether all settings are the standard ones; the path may be another text of the same parts. -/
def isStandard (settings : Settings) : Bool :=
  let standard : Settings := {}
  (Path.ofString settings.path).sameParts (Path.ofString standard.path) &&
    decide ({ settings with path := standard.path } = standard)

end Settings
end AtomStore
