/-!
# Decimal numerals

A numeral is a run of ASCII digits, with an optional sign where the reader allows one. A numeral
outside the range of the number it stands for is refused.
-/

namespace AtomStore.Text

/-- The largest 64-bit number. -/
def maxWord : Nat := UInt64.size - 1

/-- The value of an ASCII digit. -/
def digit? (c : Char) : Option Nat :=
  if '0' ≤ c ∧ c ≤ '9' then some (c.toNat - '0'.toNat) else none

/-- The number that digits stand for, read on from `value`. -/
def readDigits (value : Nat) : List Char → Option Nat
  | [] => some value
  | c :: rest => do readDigits (10 * value + (← digit? c)) rest

/-- The number a run of digits stands for; an empty run stands for none. -/
def magnitude? : List Char → Option Nat
  | [] => none
  | digits => readDigits 0 digits

/-- A 64-bit number, with an optional plus sign. -/
def word? (text : String) : Option Nat := do
  let value ← match text.toList with
    | '+' :: digits => magnitude? digits
    | digits => magnitude? digits
  if value ≤ maxWord then some value else none

/-- A signed 64-bit integer, with an optional sign. -/
def integer? (text : String) : Option Int64 := do
  let value ← match text.toList with
    | '+' :: digits => (magnitude? digits).map Int.ofNat
    | '-' :: digits => (magnitude? digits).map fun n => -Int.ofNat n
    | digits => (magnitude? digits).map Int.ofNat
  if Int64.minValue.toInt ≤ value ∧ value ≤ Int64.maxValue.toInt then some (Int64.ofInt value)
  else none

end AtomStore.Text
