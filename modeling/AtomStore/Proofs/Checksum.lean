import AtomStore.Checksum
import AtomStore.Log.Word

/-!
# What a checksum tells apart

Dividing out a bit can be undone: the highest bit of the polynomial is set, so the highest bit of
the register tells whether the polynomial was mixed in. Hence registers that differ still differ
after the same bytes, and a register tells apart the bytes that it can take in. Two runs of bytes
that differ in one byte only have different checksums.
-/

namespace AtomStore
namespace Checksum

variable {left right : UInt32}

/-- Shifting a register right halves its number. -/
theorem toNat_half (register : UInt32) : (register >>> 1).toNat = register.toNat / 2 := by
  rw [UInt32.toNat_shiftRight]
  rfl

/-- A register is told by its upper bits and its lowest one. -/
theorem eq_of_half_eq (halves : left >>> 1 = right >>> 1)
    (lowest : left &&& 1 = 1 ↔ right &&& 1 = 1) : left = right := by
  have upper := congrArg UInt32.toNat halves
  rw [toNat_half, toNat_half] at upper
  have odd (register : UInt32) : register &&& 1 = 1 ↔ register.toNat % 2 = 1 := by
    rw [← UInt32.toNat_inj, UInt32.toNat_and]
    exact iff_of_eq (congrArg (· = 1) (Nat.and_one_is_mod register.toNat))
  rw [odd, odd] at lowest
  apply UInt32.toNat_inj.mp
  omega

/-- The highest bit of the polynomial is one that no register has after a shift. -/
theorem xor_polynomial_ne (left right : UInt32) : left >>> 1 ^^^ polynomial ≠ right >>> 1 := by
  intro same
  have mixed : polynomial = left >>> 1 ^^^ right >>> 1 := by
    rw [← same, ← UInt32.xor_assoc, UInt32.xor_self, UInt32.zero_xor]
  have shifted (register : UInt32) : (register >>> 1).toNat < 2 ^ 31 := by
    have bound := register.toNat_lt
    rw [toNat_half]
    omega
  have small := Nat.xor_lt_two_pow (shifted left) (shifted right)
  rw [← UInt32.toNat_xor, ← mixed] at small
  exact absurd small (by decide)

/-- One shift of the register can be undone, since the top bit tells whether the polynomial was
added. -/
theorem shiftOut_injective (same : shiftOut left = shiftOut right) : left = right := by
  rw [shiftOut, shiftOut] at same
  by_cases odd : left &&& 1 = 1
  · rw [if_pos odd] at same
    by_cases odd' : right &&& 1 = 1
    · rw [if_pos odd', UInt32.xor_left_inj] at same
      exact eq_of_half_eq same (iff_of_true odd odd')
    · rw [if_neg odd'] at same
      exact absurd same (xor_polynomial_ne left right)
  · rw [if_neg odd] at same
    by_cases odd' : right &&& 1 = 1
    · rw [if_pos odd'] at same
      exact absurd same.symm (xor_polynomial_ne right left)
    · rw [if_neg odd'] at same
      exact eq_of_half_eq same (iff_of_false odd odd')

/-- What is mixed in before eight bits are divided out is told by what is left. -/
theorem xor_eq_of_update_eq {first second : UInt8}
    (same : update left first = update right second) :
    left ^^^ first.toUInt32 = right ^^^ second.toUInt32 := by
  rw [update, update] at same
  iterate 8 replace same := shiftOut_injective same
  exact same

/-- Taking in a byte can be undone. -/
theorem update_injective {byte : UInt8} (same : update left byte = update right byte) :
    left = right :=
  (UInt32.xor_left_inj _).mp (xor_eq_of_update_eq same)

/-- Different bytes take one register to different registers. -/
theorem byte_eq_of_update_eq {register : UInt32} {first second : UInt8}
    (same : update register first = update register second) : first = second := by
  have bytes := congrArg UInt32.toNat ((UInt32.xor_right_inj _).mp (xor_eq_of_update_eq same))
  rw [UInt8.toNat_toUInt32, UInt8.toNat_toUInt32] at bytes
  exact UInt8.toNat_inj.mp bytes

/-- Taking in a run of bytes can be undone. -/
theorem updateAll_injective {bytes : Bytes}
    (same : updateAll left bytes = updateAll right bytes) : left = right := by
  induction bytes generalizing left right with
  | nil => exact same
  | cons first rest ih => exact update_injective (ih same)

/-- Different registers finish as different checksums. -/
theorem finish_injective (same : finish left = finish right) : left = right :=
  (UInt32.xor_left_inj _).mp same

/-- A run of bytes with one of them changed is split there. -/
theorem set_split {bytes : Bytes} {place : Nat} {old : UInt8} (found : bytes[place]? = some old)
    (new : UInt8) :
    ∃ front back, bytes = front ++ old :: back ∧ bytes.set place new = front ++ new :: back := by
  obtain ⟨inside, rfl⟩ := List.getElem?_eq_some_iff.mp found
  refine ⟨bytes.take place, bytes.drop (place + 1), ?_, ?_⟩
  · rw [List.getElem_cons_drop, List.take_append_drop]
  · rw [List.set_eq_take_append_cons_drop, if_pos inside]

theorem set_ne {bytes : Bytes} {place : Nat} {old new : UInt8} (found : bytes[place]? = some old)
    (changed : new ≠ old) : bytes.set place new ≠ bytes := by
  intro same
  obtain ⟨front, back, parts, altered⟩ := set_split found new
  rw [altered, parts] at same
  exact changed (List.cons.inj (List.append_cancel_left same)).1

/-- Changing one byte of a run changes its checksum. -/
theorem ofBytes_set_ne {bytes : Bytes} {place : Nat} {old new : UInt8}
    (found : bytes[place]? = some old) (changed : new ≠ old) :
    ofBytes (bytes.set place new) ≠ ofBytes bytes := by
  intro same
  obtain ⟨front, back, parts, altered⟩ := set_split found new
  rw [altered, parts] at same
  have registers := finish_injective same
  rw [updateAll_append, updateAll_append] at registers
  exact changed (byte_eq_of_update_eq (updateAll_injective registers))

end Checksum

/-- A word is determined by its bytes. -/
theorem Log.wordBytes_injective {left right : UInt32} (same : wordBytes left = wordBytes right) :
    left = right := by
  have read := readWord?_wordBytes left []
  rw [same, readWord?_wordBytes] at read
  exact (Prod.mk.inj (Option.some.inj read)).1.symm

end AtomStore
