import AtomStore.Text.Quoted

/-!
# Particles

A particle is the value that an atom holds under a key: an integer, a text, a run of bytes, or the
place of a run of bytes inside the data file. Particles of one kind are ordered by value, and
particles of different kinds by kind, in the order of the constructors.
-/

namespace AtomStore

/-- A finite sequence of bytes. -/
abbrev Bytes := List UInt8

/-- An immutable value held under a key. -/
inductive Particle where
  | integer (value : Int64)
  | text (value : String)
  | bytes (value : Bytes)
  /-- Bytes kept in the data file: the position of the first one and their number. -/
  | hosted (offset length : Nat)
  deriving DecidableEq

namespace Particle

/-- The place of a particle's kind among the kinds. -/
def kindRank : Particle → Nat
  | integer _ => 0
  | text _ => 1
  | bytes _ => 2
  | hosted _ _ => 3

instance : Ord Particle where
  compare
    | integer left, integer right => compare left right
    | text left, text right => compare left right
    | bytes left, bytes right => compare left right
    | hosted offset length, hosted offset' length' =>
      (compare offset offset').then (compare length length')
    | left, right => compare left.kindRank right.kindRank

/-- The integer of an integer particle. -/
def integer? : Particle → Option Int64
  | integer value => some value
  | _ => none

/-- The text of a text particle. -/
def text? : Particle → Option String
  | text value => some value
  | _ => none

/-- The bytes a particle holds itself; hosted bytes are read through the store. -/
def bytes? : Particle → Option Bytes
  | bytes value => some value
  | _ => none

/-- Whether the bytes of a particle are in the data file. -/
def isHosted : Particle → Bool
  | hosted _ _ => true
  | _ => false

/-- The number of bytes of either byte kind. -/
def byteLength? : Particle → Option Nat
  | bytes value => some value.length
  | hosted _ length => some length
  | _ => none

/-- The text shown to readers, in which byte runs give only their size and place. -/
def render : Particle → String
  | integer value => toString value.toInt
  | text value => Text.quoted value
  | bytes value => s!"<{value.length} bytes>"
  | hosted offset length => s!"<{length} bytes @{offset}>"

/-- The text shown for inspection, which names the kind and gives every byte. -/
def inspect : Particle → String
  | integer value => s!"Integer({value.toInt})"
  | text value => s!"IsoString({Text.quoted value})"
  | bytes value =>
    let listed := String.intercalate ", " (value.map fun byte => toString byte.toNat)
    s!"Bytes([{listed}])"
  | hosted offset length => s!"FileHostedBytes \x7b offset: {offset}, len: {length} \x7d"

end Particle
end AtomStore
