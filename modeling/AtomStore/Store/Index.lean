import AtomStore.Condition
import AtomStore.Settings
import AtomStore.Store.Slots
import AtomStore.TieredSet.Cursor

/-!
# Indices

An index keeps the committed atoms that its definition accepts, ordered by the values of its sort
keys, then by UCN in its direction, then by slot. It follows the table of slots lazily: a refresh
looks at the slots added since the last one and at those that were reserved then.
-/

namespace AtomStore

/-- What an index holds and in which order. -/
structure IndexInfo where
  name : String
  condition : Condition := .always
  /-- The keys compared in turn; an atom without a value comes first. -/
  sortKeys : List Key := []
  /-- The order of atoms that tie on every sort key. -/
  order : UcnOrder := .descending
  /-- The least UCN held. -/
  minUcn : Nat := 0
  /-- The UCN from which on atoms are not held. -/
  maxUcn : Nat := Text.maxWord

/-- The place of an atom in an index. -/
structure IndexKey where
  fields : List (Option Particle)
  rank : Nat
  id : Nat
  deriving DecidableEq

instance : Ord IndexKey where
  compare left right :=
    ((compare left.fields right.fields).then (compare left.rank right.rank)).then
      (compare left.id right.id)

/-- An atom at its place in an index, or a place alone, as a bound. -/
structure IndexEntry where
  key : IndexKey
  atom? : Option Atom

instance : Ord IndexEntry where
  compare left right := compare left.key right.key

namespace IndexInfo

/-- The name of the index over all atoms. -/
def globalName : String := "global"

/-- The index over all atoms. -/
def global (order : UcnOrder) : IndexInfo := { name := globalName, order }

/-- Whether an index holds an atom. -/
def accepts (info : IndexInfo) (atom : Atom) : Bool :=
  decide (info.minUcn ≤ atom.ucn) && decide (atom.ucn < info.maxUcn) &&
    info.condition.accepts atom

/-- The values of the sort keys. -/
def fields (info : IndexInfo) (junctions : Junctions) : List (Option Particle) :=
  info.sortKeys.map junctions.get?

/-- A number that ascends along the index among atoms that tie on every sort key. -/
def rank (info : IndexInfo) (ucn : Nat) : Nat :=
  match info.order with
  | .ascending => ucn
  | .descending => Text.maxWord - ucn

/-- An atom at its place. -/
def entry (info : IndexInfo) (atom : Atom) : IndexEntry :=
  ⟨⟨info.fields atom.junctions, info.rank atom.ucn, atom.id⟩, some atom⟩

/-- The first place of the atoms whose sort keys have the values of a sample. -/
def bound (info : IndexInfo) (sample : Junctions) : IndexEntry :=
  ⟨⟨info.fields sample, 0, 0⟩, none⟩

/-- The inspection text of a definition. -/
def inspect (info : IndexInfo) : String :=
  let keys := String.intercalate ", " (info.sortKeys.map fun key => toString key.toNat)
  s!"IndexInfo \x7b name: {Text.quoted info.name}, condition: {info.condition.inspect}, " ++
    s!"sort_keys: [{keys}], ucn_order: {info.order.inspect}, min_ucn: {info.minUcn}, " ++
    s!"max_ucn: {info.maxUcn} \x7d"

end IndexInfo

/-- An index and how far it has followed the table of slots. -/
structure Index where
  id : Nat
  info : IndexInfo
  /-- The UCN of the next commit at the last refresh. -/
  lastUcn : Nat := 0
  /-- The number of slots at the last refresh. -/
  scanned : Nat := 0
  /-- The slots that were reserved at the last refresh. -/
  ethereal : List Nat := []
  entries : TieredSet IndexEntry := .withThreshold 1000

namespace Index

/-- More new atoms than this are added by a bulk load. -/
def bulkThreshold : Nat := 1000

/-- The slots a refresh looks at: those reserved at the last one, then those added since. -/
def visited (index : Index) (slots : Slots) : List (Nat × Slot) :=
  index.ethereal.map (fun id => (id, slots.slot id)) ++
    (List.range' index.scanned (slots.size - index.scanned)).map fun id => (id, slots.slot id)

/-- The atom of a slot, if the slot holds one that the index accepts. -/
def acceptedAtom? (index : Index) : Slot → Option Atom
  | .committed atom => if index.info.accepts atom then some atom else none
  | _ => none

/-- Adds atoms to the entries, many at once by a bulk load. -/
def withAtoms (index : Index) (atoms : List Atom) : TieredSet IndexEntry :=
  let added := atoms.map index.info.entry
  if bulkThreshold < added.length then
    (index.entries.startLoading.addAll added).stopLoading
  else index.entries.addAll added

/-- Follows the table of slots, unless no commit has happened since the last refresh. -/
def refresh (index : Index) (slots : Slots) : Index :=
  if slots.ucn ≤ index.lastUcn then index
  else
    let visited := index.visited slots
    { index with
      lastUcn := slots.ucn
      scanned := slots.size
      ethereal := (visited.filter fun seen => seen.2 == .pending).map Prod.fst
      entries := index.withAtoms (visited.filterMap fun seen => index.acceptedAtom? seen.2) }

/-- The number of atoms held. -/
def size (index : Index) : Nat := index.entries.size

/-- The first atom. -/
def first? (index : Index) : Option Atom := index.entries.first?.bind (·.atom?)

/-- The last atom. -/
def last? (index : Index) : Option Atom := index.entries.last?.bind (·.atom?)

/-- The first atom whose sort keys have the values of a sample. -/
def find? (index : Index) (sample : Junctions) : Option Atom :=
  let bound := index.info.bound sample
  (index.entries.ceilingWhere? bound fun entry => entry.key.fields == bound.key.fields).bind
    (·.atom?)

/-- The inspection text of an index. -/
def inspect (index : Index) : String :=
  s!"Index \x7b id: {index.id}, name: {Text.quoted index.info.name}, " ++
    s!"last_ucn: {index.lastUcn}, ethereal: {index.ethereal.length}, " ++
    s!"entries: {index.entries.size} \x7d"

end Index

/-- A walk through an index that gives only atoms committed before it began. -/
structure IndexWalk where
  cursor : Cursor IndexEntry
  /-- The UCN that the given atoms are below. -/
  snapshot : Nat

namespace Index

/-- A walk through all atoms. -/
def walk (index : Index) : IndexWalk := ⟨{}, index.lastUcn⟩

/-- A walk from the first atom whose sort keys are not below the values of a sample. -/
def walkFrom (index : Index) (sample : Junctions) : IndexWalk :=
  ⟨{ start := some (index.info.bound sample) }, index.lastUcn⟩

end Index

namespace IndexWalk

/-- The atom of an entry that the walk gives. -/
def visible? (walk : IndexWalk) (entry : IndexEntry) : Option Atom :=
  entry.atom?.filter fun atom => decide (atom.ucn < walk.snapshot)

/-- The atoms left to give. -/
def remaining (walk : IndexWalk) (index : Index) : List Atom :=
  (walk.cursor.remaining index.entries).filterMap walk.visible?

/-- Takes steps until one gives an atom or meets the end, so many at most. -/
def seek (walk : IndexWalk) (entries : TieredSet IndexEntry) : Nat → Option Atom × IndexWalk
  | 0 => (none, walk)
  | steps + 1 =>
    match walk.cursor.next entries with
    | (none, cursor) => (none, { walk with cursor })
    | (some entry, cursor) =>
      match walk.visible? entry with
      | some atom => (some atom, { walk with cursor })
      | none => seek { walk with cursor } entries steps

/-- Takes steps until one gives an atom or meets the end. -/
def next (walk : IndexWalk) (index : Index) : Option Atom × IndexWalk :=
  walk.seek index.entries (index.size + 1)

end IndexWalk
end AtomStore
