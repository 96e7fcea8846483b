import AtomStore.Log.Record
import AtomStore.Store.Error

/-!
# The table of slots

Every atom has a numbered slot. A slot is reserved for an open transaction and then holds its atom
or stays empty for good. The table also knows the UCN of the next commit and how many atoms have
been committed. Records of a data file are taken in one by one; slots that they pass over count as
reserved until the replay is over.

UCNs are 64-bit numbers. The last one, `2 ^ 64 - 1`, has no successor: a commit or a record under it
stops the program. The table counts on here, so what is said about runs is said of those in which
the UCN of the next commit stays below `2 ^ 64`.
-/

namespace AtomStore

/-- The content of a slot. -/
inductive Slot where
  /-- Empty for good. -/
  | never
  /-- Reserved by an open transaction. -/
  | pending
  | committed (atom : Atom)
  deriving DecidableEq

/-- The slots of a store with the UCN of the next commit. -/
structure Slots where
  table : Array Slot := #[]
  ucn : Nat := 1
  committed : Nat := 0
  ucn_pos : 0 < ucn := by omega

namespace Slots

/-- The table before anything is reserved or committed. -/
def empty : Slots := {}

instance : Inhabited Slots := ⟨empty⟩

/-- The number of slots. -/
def size (slots : Slots) : Nat := slots.table.size

/-- The content of a slot; a slot past the end of the table is empty for good. -/
def slot (slots : Slots) (id : Nat) : Slot := slots.table[id]?.getD .never

/-- The committed atom of a slot. -/
def atom? (slots : Slots) (id : Nat) : Option Atom :=
  match slots.slot id with
  | .committed atom => some atom
  | _ => none

/-- Whether a slot is reserved. -/
def isPending (slots : Slots) (id : Nat) : Bool := slots.table[id]? == some .pending

/-- Reserves a slot behind all others. -/
def reserve (slots : Slots) : Nat × Slots :=
  (slots.table.size, { slots with table := slots.table.push .pending })

/-- Empties a reserved slot for good. -/
def release (slots : Slots) (id : Nat) : Except StoreError Slots :=
  if slots.isPending id then .ok { slots with table := slots.table.setIfInBounds id .never }
  else .error (.slotNotPending id)

/-- Empties those slots of a list that are reserved. -/
def releaseAll (slots : Slots) (ids : List Nat) : Slots :=
  ids.foldl (fun left id => (left.release id).toOption.getD left) slots

/-- Whether an atom can be published now: its slot is reserved and it is sealed with the UCN of the
next commit. -/
def admits (slots : Slots) (atom : Atom) : Bool := slots.isPending atom.id && atom.ucn == slots.ucn

/-- Puts atoms into their slots. -/
def fill (table : Array Slot) (atoms : List Atom) : Array Slot :=
  atoms.foldl (fun filled atom => filled.setIfInBounds atom.id (.committed atom)) table

/-- Publishes atoms, all of which must be admitted, and moves on to the next UCN. -/
def publish (slots : Slots) (atoms : List Atom) : Except StoreError Slots :=
  match atoms.find? (fun atom => !slots.admits atom) with
  | some refused => .error (.slotNotPending refused.id)
  | none =>
    .ok
      { table := fill slots.table atoms
        ucn := slots.ucn + 1
        committed := slots.committed + atoms.length }

/-- The table with room for a slot. -/
def stretch (table : Array Slot) (id : Nat) : Array Slot :=
  if table.size ≤ id then table ++ Array.replicate (id + 1 - table.size) .pending else table

/-- Puts the atoms of a record into their slots, up to the first whose slot holds an atom. -/
def takeIn (table : Array Slot) : List Atom → Array Slot × Option Atom
  | [] => (table, none)
  | atom :: rest =>
    let room := stretch table atom.id
    match room[atom.id]? with
    | some (.committed _) => (room, some atom)
    | _ => takeIn (room.setIfInBounds atom.id (.committed atom)) rest

/-- Takes in a record of a data file. Its UCN must not be below the next one, and none of its slots
may hold an atom. -/
def takeRecord (slots : Slots) (record : Log.Record) : Slots × Option LogError :=
  if record.ucn < slots.ucn then
    (slots, some (.ucnOutOfOrder record.offset record.ucn slots.ucn))
  else
    match takeIn slots.table record.atoms with
    | (table, some refused) =>
      ({ slots with table }, some (.duplicateAtom refused.id record.offset))
    | (table, none) =>
      ({ table
         ucn := record.ucn + 1
         committed := slots.committed + record.atoms.length }, none)

/-- Empties a slot for good if it is reserved. -/
def settled : Slot → Slot
  | .pending => .never
  | slot => slot

/-- Empties all reserved slots for good and tells how many there were. -/
def settle (slots : Slots) : Nat × Slots :=
  (slots.table.count .pending, { slots with table := slots.table.map settled })

end Slots
end AtomStore
