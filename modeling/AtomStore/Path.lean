/-!
# Paths

A path is a text of names between slashes. Empty names and dots lead nowhere new, so paths that
differ only in those are made of the same parts; a dot in front of everything else is a part of its
own. The end of a path tells whether it asks for a file or for a folder. Names and whole paths are
bounded in length.
-/

namespace AtomStore

/-- What stands at the end of a path. -/
inductive PathEnding where
  /-- A name. -/
  | name
  /-- A name and a slash behind it, which asks for a folder of that name. -/
  | slash
  /-- One dot or two, or nothing but slashes, which stand for a folder that is reached already. -/
  | reached
  deriving DecidableEq

/-- A path taken apart. -/
structure Path where
  /-- Whether the path starts at the root. -/
  rooted : Bool
  /-- Whether the path starts with a dot. -/
  dotted : Bool
  /-- The names on the way; two dots lead up. -/
  names : List String
  ending : PathEnding
  deriving DecidableEq

namespace Path

/-- The texts before, between and behind the slashes. -/
def pieces : List Char → List (List Char)
  | [] => [[]]
  | c :: rest =>
    match c == '/', pieces rest with
    | true, later => [] :: later
    | false, [] => [[c]]
    | false, first :: later => (c :: first) :: later

/-- Whether a text between slashes leads somewhere. -/
def isName (piece : String) : Bool := piece ≠ "" && piece ≠ "."

/-- What stands at the end of a path with some texts between its slashes. -/
def endingOf (pieces : List String) : PathEnding :=
  match (pieces.filter (· ≠ "")).getLast? with
  | none => .reached
  | some last =>
    if last = "." ∨ last = ".." then .reached
    else if pieces.getLast? = some "" then .slash
    else .name

/-- Takes a path apart. -/
def ofString (text : String) : Path :=
  let pieces := (pieces text.toList).map String.ofList
  { rooted := text.toList.head? = some '/'
    dotted := pieces.head? = some "."
    names := pieces.filter isName
    ending := endingOf pieces }

/-- Whether a name has no more bytes than a file or folder may have in its name. -/
def nameFits (name : String) : Bool := name.utf8ByteSize ≤ 255

/-- Whether the text of a path has no more bytes than a path may have. -/
def textFits (text : String) : Bool := text.utf8ByteSize ≤ 4095

/-- Whether two paths are made of the same parts. -/
def sameParts (left right : Path) : Bool :=
  left.rooted == right.rooted && left.dotted == right.dotted && left.names == right.names

/-- The plainest text of a path through some names. -/
def plain (rooted : Bool) (names : List String) : String :=
  (if rooted then "/" else "") ++ String.intercalate "/" names

/-- The names of a path behind those already passed, each with the plain path up to it. -/
def stepsFrom (rooted : Bool) (passed : List String) : List String → List (String × String)
  | [] => []
  | name :: rest =>
    (name, plain rooted (passed ++ [name])) :: stepsFrom rooted (passed ++ [name]) rest

/-- The names of a path, each with the plain path up to it. -/
def steps (path : Path) : List (String × String) := stepsFrom path.rooted [] path.names

end Path
end AtomStore
