import AtomStore.Atom
import AtomStore.Log.Record

/-!
# Writing records

What is written for a commit. Bytes that a draft holds in the data file already are looked up first,
so the written form is a function of plain values. Each run of bytes is written either as a value to
be held in memory or as one that stays in the file; for the latter the writer also tells where the
bytes came to be.
-/

namespace AtomStore.Log

/-- A value ready to be written. -/
inductive StoredValue where
  | integer (value : Int64)
  | text (value : String)
  | bytes (payload : Bytes)
  | hosted (payload : Bytes)
  deriving DecidableEq

/-- An atom ready to be written: its slot and its values by key. -/
structure StoredAtom where
  id : Nat
  values : List (Key × StoredValue)
  deriving DecidableEq

namespace StoredValue

/-- The kind of a value. -/
def kind : StoredValue → ValueKind
  | integer _ => .integer
  | text _ => .text
  | bytes _ => .bytes
  | hosted _ => .hosted

/-- The bytes of a value behind its key and, for runs, behind its length. -/
def payload : StoredValue → Bytes
  | integer _ => []
  | text value => Text.utf8 value
  | bytes payload => payload
  | hosted payload => payload

/-- The number in front of a value's bytes: an integer itself, or a length. -/
def lead : StoredValue → Nat
  | integer value => zigzag value
  | value => value.payload.length

end StoredValue

/-- What is written of a junction in front of the payload of its value. -/
def junctionLead (key : Key) (value : StoredValue) : Bytes :=
  value.kind.tag :: (varintBytes key.toNat ++ varintBytes value.lead)

/-- The written form of a junction. -/
def junctionBytes (junction : Key × StoredValue) : Bytes :=
  junctionLead junction.1 junction.2 ++ junction.2.payload

/-- What is written of an atom in front of its junctions. -/
def atomLead (id : Nat) : Bytes := atomMark :: varintBytes id

/-- The written form of an atom. -/
def atomBytes (atom : StoredAtom) : Bytes :=
  atomLead atom.id ++ atom.values.flatMap junctionBytes

/-- What is written of a record in front of its atoms. -/
def recordLead (ucn : Nat) : Bytes := recordMark :: varintBytes ucn

/-- The part of a record that its checksum covers. -/
def coveredBytes (ucn : Nat) (atoms : List StoredAtom) : Bytes :=
  recordLead ucn ++ atoms.flatMap atomBytes ++ [atomsEnd]

/-- The written form of a record. -/
def recordBytes (ucn : Nat) (atoms : List StoredAtom) : Bytes :=
  let covered := coveredBytes ucn atoms
  covered ++ wordBytes (Checksum.ofBytes covered) ++ [recordEnd]

/-- Where the writer put a run of bytes that stays in the file. -/
structure HostedPlace where
  atom : Nat
  key : Key
  offset : Nat
  length : Nat
  deriving DecidableEq

/-- The particle that stands for bytes at a place. -/
def HostedPlace.particle (place : HostedPlace) : Particle := .hosted place.offset place.length

/-- The places of the hosted values of an atom whose first junction is written at a position. -/
def hostedInJunctions (atom : Nat) (position : Nat) :
    List (Key × StoredValue) → List HostedPlace
  | [] => []
  | (key, value) :: rest =>
    let start := position + (junctionLead key value).length
    let later := hostedInJunctions atom (start + value.payload.length) rest
    match value with
    | .hosted payload => ⟨atom, key, start, payload.length⟩ :: later
    | _ => later

/-- The places of the hosted values of atoms, the first of which is written at a position. -/
def hostedInAtoms (position : Nat) : List StoredAtom → List HostedPlace
  | [] => []
  | atom :: rest =>
    hostedInJunctions atom.id (position + (atomLead atom.id).length) atom.values ++
      hostedInAtoms (position + (atomBytes atom).length) rest

/-- The places of the hosted values of a record written at a position. -/
def hostedPlaces (position ucn : Nat) (atoms : List StoredAtom) : List HostedPlace :=
  hostedInAtoms (position + (recordLead ucn).length) atoms

end AtomStore.Log
