import AtomStore.Particle

/-!
# Fixed-width words

Lengths, counts and checksums of a data file are 32-bit words of four bytes, lowest first.
-/

namespace AtomStore.Log

/-- The four bytes of a word, lowest first. -/
def wordBytes (word : UInt32) : Bytes :=
  let number := word.toNat
  [number.toUInt8, (number / 256).toUInt8, (number / 65536).toUInt8, (number / 16777216).toUInt8]

/-- The word of four bytes, lowest first. -/
def wordOf (first second third fourth : UInt8) : UInt32 :=
  UInt32.ofNat
    (first.toNat + 256 * second.toNat + 65536 * third.toNat + 16777216 * fourth.toNat)

/-- The word at the start of some bytes and the bytes after it. -/
def readWord? : Bytes → Option (UInt32 × Bytes)
  | first :: second :: third :: fourth :: rest => some (wordOf first second third fourth, rest)
  | _ => none

/-- Reading a written word gives it back and leaves what follows it. -/
theorem readWord?_wordBytes (word : UInt32) (rest : Bytes) :
    readWord? (wordBytes word ++ rest) = some (word, rest) := by
  have bound := word.toNat_lt
  simp only [wordBytes, readWord?, List.cons_append, List.nil_append, wordOf, Option.some.injEq,
    Prod.mk.injEq, and_true]
  apply UInt32.toNat_inj.mp
  simp only [Nat.toUInt8, UInt8.toNat_ofNat', UInt32.toNat_ofNat']
  omega

end AtomStore.Log
