import AtomStore.Particle

/-!
# Variable-length numbers

A number is written as its base-128 digits, lowest first, one to a byte; every byte but the last
has its high bit set. Signed integers are folded onto the numbers first, so that those near zero
stay short: zero, minus one, one, minus two and so on.
-/

namespace AtomStore.Log

/-- The base-128 digits of a number, lowest first. -/
def varintBytes (number : Nat) : Bytes :=
  if number < 128 then [number.toUInt8]
  else (number % 128 + 128).toUInt8 :: varintBytes (number / 128)

/-- The number that a signed integer is folded onto. -/
def zigzag (value : Int64) : Nat :=
  if value.toInt < 0 then (-2 * value.toInt - 1).toNat else (2 * value.toInt).toNat

/-- The signed integer that was folded onto a 64-bit number. -/
def unzigzag (number : Nat) : Int64 :=
  if number % 2 = 0 then Int64.ofInt (number / 2) else Int64.ofInt (-(number / 2) - 1)

end AtomStore.Log
