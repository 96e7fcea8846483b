import AtomStore.Proofs.Log.Reading
import Mathlib.Algebra.Order.Ring.Nat

/-!
# Numbers read back

Every number below 2 ^ 64 is read back from its written form, whatever follows it, and every signed
integer from the number that it is folded onto.
-/

namespace AtomStore.Log

theorem varintBytes_of_lt {number : Nat} (small : number < 128) :
    varintBytes number = [number.toUInt8] := by
  rw [varintBytes, if_pos small]

/-- A larger number is written as its lowest digit, marked, in front of the others. -/
theorem varintBytes_of_le {number : Nat} (large : 128 ≤ number) :
    varintBytes number = (number % 128 + 128).toUInt8 :: varintBytes (number / 128) := by
  rw [varintBytes, if_neg (Nat.not_lt.mpr large)]

namespace Reader

/-- A number is read back where there is room for its digits. The last digit that has room has a
single bit. -/
theorem digits_of_rest {reader : Reader} {room number : Nat} {rest : Bytes}
    (fits : number < 2 * 128 ^ room) (ahead : reader.rest = varintBytes number ++ rest) :
    reader.digits room = .ok (number, reader.after (varintBytes number) rest) := by
  induction room generalizing reader number with
  | zero =>
    have small : number < 128 := by omega
    have value : number.toUInt8.toNat = number := by
      rw [Nat.toUInt8, UInt8.toNat_ofNat']
      omega
    rw [varintBytes_of_lt small] at ahead ⊢
    rw [List.singleton_append] at ahead
    rw [digits, byte_of_rest ahead]
    simp only [value]
    rw [if_pos (by omega)]
  | succ room ih =>
    by_cases small : number < 128
    · have value : number.toUInt8.toNat = number := by
        rw [Nat.toUInt8, UInt8.toNat_ofNat']
        omega
      rw [varintBytes_of_lt small] at ahead ⊢
      rw [List.singleton_append] at ahead
      rw [digits, byte_of_rest ahead]
      simp only [value]
      rw [if_pos small]
    · have value : (number % 128 + 128).toUInt8.toNat = number % 128 + 128 := by
        rw [Nat.toUInt8, UInt8.toNat_ofNat']
        omega
      have fewer : number / 128 < 2 * 128 ^ room := by
        rw [Nat.pow_succ] at fits
        omega
      rw [varintBytes_of_le (Nat.not_lt.mp small)] at ahead ⊢
      rw [List.cons_append] at ahead
      rw [digits, byte_of_rest ahead]
      simp only [value]
      rw [if_neg (by omega), ih fewer (after_rest ..)]
      simp only [after_after, List.singleton_append]
      congr 2
      omega

/-- A number is read back where it was written. -/
theorem varint_of_rest {reader : Reader} {number : Nat} {rest : Bytes}
    (fits : number < 2 ^ 64) (ahead : reader.rest = varintBytes number ++ rest) :
    reader.varint = .ok (number, reader.after (varintBytes number) rest) :=
  digits_of_rest fits ahead

/-- A length is read back where it was written. -/
theorem valueLength_of_rest {reader : Reader} {length : Nat} {rest : Bytes}
    (fits : length ≤ maxValueLength) (ahead : reader.rest = varintBytes length ++ rest) :
    reader.valueLength = .ok (length, reader.after (varintBytes length) rest) := by
  have bounded : length < 2 ^ 64 := Nat.lt_of_le_of_lt fits (by decide)
  rw [valueLength, varint_of_rest bounded ahead]
  simp only
  rw [if_neg (Nat.not_lt.mpr fits)]

end Reader

/-- A folded integer has 64 bits. -/
theorem zigzag_lt (value : Int64) : zigzag value < 2 ^ 64 := by
  have low := value.le_toInt
  have high := value.toInt_lt
  unfold zigzag
  split <;> omega

/-- An integer is unfolded to what it was. -/
theorem unzigzag_zigzag (value : Int64) : unzigzag (zigzag value) = value := by
  have low := value.le_toInt
  have high := value.toInt_lt
  unfold unzigzag zigzag
  by_cases negative : value.toInt < 0
  · rw [if_pos negative, if_neg (by omega)]
    have back : -(((-2 * value.toInt - 1).toNat : Int) / 2) - 1 = value.toInt := by omega
    rw [back, Int64.ofInt_toInt]
  · rw [if_neg negative, if_pos (by omega)]
    have back : ((2 * value.toInt).toNat : Int) / 2 = value.toInt := by omega
    rw [back, Int64.ofInt_toInt]

end AtomStore.Log
