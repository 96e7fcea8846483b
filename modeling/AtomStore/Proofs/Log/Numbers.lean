import AtomStore.Proofs.Log.Parsing
import Mathlib.Data.Nat.Digits.Defs

/-!
# Numbers exactly

A number is read as the exact value of the base-128 digits that are taken for it, and these are at
most ten and stand for less than 2 ^ 64; where no such digits are found, the reader tells whether
ten bytes were there. The same numbers come of shifting and merging 64-bit words, so a shift never
loses a bit. Signed integers and 64-bit numbers are folded onto each other one to one.
-/

namespace AtomStore.Log

/-- Whether bytes spell a 64-bit number in base 128, lowest digit first: they are one to ten, all but
the last have their high bit set, and their low bits are the digits. -/
structure Spells (bytes : Bytes) (number : Nat) : Prop where
  marked : ∀ digit ∈ bytes.dropLast, 128 ≤ digit.toNat
  unmarked : ∃ last, bytes.getLast? = some last ∧ last.toNat < 128
  short : bytes.length ≤ 10
  value : number = Nat.ofDigits 128 (bytes.map fun digit => digit.toNat % 128)
  bounded : number < 2 ^ 64

/-- Folding digits with their marks taken off gives the number in base 128. -/
theorem foldr_eq_ofDigits {leading : Bytes} {last : UInt8}
    (marked : ∀ digit ∈ leading, 128 ≤ digit.toNat) (unmarked : last.toNat < 128) :
    leading.foldr (fun digit higher => digit.toNat - 128 + 128 * higher) last.toNat =
      Nat.ofDigits 128 ((leading ++ [last]).map fun digit => digit.toNat % 128) := by
  induction leading with
  | nil =>
    rw [List.foldr_nil, List.nil_append, List.map_singleton, Nat.ofDigits_singleton,
      Nat.mod_eq_of_lt unmarked]
  | cons digit rest ih =>
    obtain ⟨large, others⟩ := List.forall_mem_cons.mp marked
    have narrow := digit.toNat_lt
    have low : digit.toNat - 128 = digit.toNat % 128 := by omega
    rw [List.foldr_cons, ih others, List.cons_append, List.map_cons, Nat.ofDigits_cons, low]

namespace Grammar

/-- The bytes of a number in the grammar spell its value. -/
theorem Numeral.spells (numeral : Numeral) : Spells numeral.bytes numeral.value where
  marked := by
    rw [bytes, List.dropLast_concat]
    exact numeral.marked
  unmarked := ⟨numeral.last, List.getLast?_concat, numeral.unmarked⟩
  short := by
    have := numeral.short
    rw [bytes, List.length_append, List.length_singleton]
    omega
  value := foldr_eq_ofDigits numeral.marked numeral.unmarked
  bounded := numeral.bounded

/-- Bytes that spell a number are a number of the grammar. -/
theorem exists_numeral_of_spells {bytes : Bytes} {number : Nat} (spells : Spells bytes number) :
    ∃ numeral : Numeral, numeral.bytes = bytes ∧ numeral.value = number := by
  obtain ⟨marked, ⟨last, ends, unmarked⟩, short, rfl, bounded⟩ := spells
  obtain ⟨leading, rfl⟩ := List.getLast?_eq_some_iff.mp ends
  rw [List.dropLast_concat] at marked
  rw [List.length_append, List.length_singleton] at short
  rw [← foldr_eq_ofDigits marked unmarked] at bounded ⊢
  exact ⟨⟨leading, last, marked, unmarked, by omega, bounded⟩, rfl, rfl⟩

end Grammar

namespace Reader

variable {reader next : Reader} {number : Nat}

/-- A number is read just where bytes spell it. -/
theorem varint_eq_ok_iff :
    reader.varint = .ok (number, next) ↔
      ∃ taken rest, Spells taken number ∧ reader.rest = taken ++ rest ∧
        next = reader.after taken rest := by
  rw [Grammar.parses_varint reader number next]
  constructor
  · rintro ⟨numeral, rest, ahead, rfl, reached⟩
    exact ⟨numeral.bytes, rest, numeral.spells, ahead, reached⟩
  · rintro ⟨taken, rest, spells, ahead, reached⟩
    obtain ⟨numeral, rfl, rfl⟩ := Grammar.exists_numeral_of_spells spells
    exact ⟨numeral, rest, ahead, rfl, reached⟩

/-- Digits that are not found have either run out of bytes or had more bytes than room. -/
theorem digits_fails {room : Nat} {fault : ReadFault} (failed : reader.digits room = .error fault) :
    (fault = .ended ∧ reader.rest.length ≤ room) ∨
      (fault = .flaw .varintOverflow ∧ room < reader.rest.length) := by
  have byte_fails {reader : Reader} {fault : ReadFault} (failed : reader.byte = .error fault) :
      fault = .ended ∧ reader.rest.length = 0 := by
    unfold byte at failed
    split at failed
    · rename_i nothing
      cases failed
      exact ⟨rfl, by rw [nothing, List.length_nil]⟩
    · cases failed
  induction room generalizing reader with
  | zero =>
    unfold digits at failed
    split at failed
    · rename_i ended
      cases failed
      obtain ⟨rfl, nothing⟩ := byte_fails ended
      exact .inl ⟨rfl, nothing.le⟩
    · rename_i taken
      have more := length_byte taken
      split at failed
      · cases failed
      · cases failed
        exact .inr ⟨rfl, by omega⟩
  | succ room ih =>
    unfold digits at failed
    split at failed
    · rename_i ended
      cases failed
      obtain ⟨rfl, nothing⟩ := byte_fails ended
      exact .inl ⟨rfl, by omega⟩
    · rename_i taken
      have more := length_byte taken
      split at failed
      · cases failed
      · split at failed
        · rename_i later
          cases failed
          rcases ih later with ⟨rfl, short⟩ | ⟨rfl, long⟩
          · exact .inl ⟨rfl, by omega⟩
          · exact .inr ⟨rfl, by omega⟩
        · cases failed

/-- A number is found where the bytes ahead begin with one. -/
theorem exists_varint_of_prefix {bytes : Bytes} (spells : Spells bytes number)
    (ahead : bytes <+: reader.rest) : ∃ next, reader.varint = .ok (number, next) := by
  obtain ⟨rest, same⟩ := ahead
  exact ⟨_, varint_eq_ok_iff.mpr ⟨bytes, rest, spells, same.symm, rfl⟩⟩

/-- No number is found just where the bytes ahead begin with none, and fewer than ten bytes are
told from ten. -/
theorem varint_eq_error_iff {fault : ReadFault} :
    reader.varint = .error fault ↔
      (∀ taken number, Spells taken number → ¬ taken <+: reader.rest.take 10) ∧
        fault = if reader.rest.length < 10 then .ended else .flaw .varintOverflow := by
  constructor
  · intro failed
    refine ⟨fun taken number spells ahead => ?_, ?_⟩
    · have further := ahead.trans (List.take_prefix 10 reader.rest)
      obtain ⟨next, found⟩ := exists_varint_of_prefix spells further
      rw [failed] at found
      cases found
    · rcases digits_fails failed with ⟨rfl, short⟩ | ⟨rfl, long⟩
      · rw [if_pos (by omega)]
      · rw [if_neg (by omega)]
  · rintro ⟨none, rfl⟩
    cases read : reader.varint with
    | ok found =>
      obtain ⟨taken, rest, spells, ahead, _⟩ := varint_eq_ok_iff.mp read
      exact absurd (List.prefix_take_iff.mpr ⟨⟨rest, ahead.symm⟩, spells.short⟩)
        (none taken _ spells)
    | error other =>
      rcases digits_fails read with ⟨rfl, short⟩ | ⟨rfl, long⟩
      · rw [if_pos (by omega)]
      · rw [if_neg (by omega)]

end Reader

/-- A number is written in one byte for every seven of its bits. -/
theorem length_varintBytes_le {number room : Nat} (fits : number < 128 ^ (room + 1)) :
    (varintBytes number).length ≤ room + 1 := by
  induction room generalizing number with
  | zero =>
    rw [varintBytes_of_lt (by omega)]
    exact Nat.le_refl 1
  | succ room ih =>
    by_cases small : number < 128
    · rw [varintBytes_of_lt small, List.length_singleton]
      omega
    · have fewer : number / 128 < 128 ^ (room + 1) := by
        rw [Nat.pow_succ] at fits
        omega
      rw [varintBytes_of_le (Nat.not_lt.mp small), List.length_cons]
      exact Nat.succ_le_succ (ih fewer)

/-! ### Numbers in 64-bit words -/

/-- The bytes of a number in a 64-bit word: its lowest seven bits are written and shifted out as
long as there are others. -/
def shiftedBytes (word : UInt64) : Bytes :=
  if word < 0x80 then [word.toUInt8]
  else (word.toUInt8 ||| 0x80) :: shiftedBytes (word >>> 7)
  termination_by word.toNat
  decreasing_by
    have large : 128 ≤ word.toNat := Nat.not_lt.mp ‹_›
    have shifted : (word >>> 7).toNat = word.toNat / 128 := Nat.shiftRight_eq_div_pow word.toNat 7
    omega

/-- Setting the high bit of a byte. -/
theorem or_high_eq (byte : UInt8) : byte ||| 0x80 = (byte.toNat % 128 + 128).toUInt8 := by
  have all : ∀ bits : BitVec 8, bits ||| 0x80#8 = BitVec.ofNat 8 (bits.toNat % 128 + 128) := by
    decide
  rw [← UInt8.toBitVec_inj]
  exact all byte.toBitVec

/-- Shifting a word gives the digits of its number. -/
theorem shiftedBytes_eq (word : UInt64) : shiftedBytes word = varintBytes word.toNat := by
  fun_induction shiftedBytes word with
  | case1 word small =>
    have below : word.toNat < 128 := small
    rw [varintBytes_of_lt below]
    rfl
  | case2 word large ih =>
    have above : 128 ≤ word.toNat := Nat.not_lt.mp large
    have shifted : (word >>> 7).toNat = word.toNat / 128 := Nat.shiftRight_eq_div_pow word.toNat 7
    rw [varintBytes_of_le above, ih, shifted, or_high_eq]
    congr 2
    rw [UInt64.toNat_toUInt8]
    omega

/-- The number that a signed integer is folded onto, as a word: the sign goes to the lowest bit, and
flips the others when it is set. -/
def foldedWord (value : Int64) : UInt64 := ((value <<< 1) ^^^ (value >>> 63)).toUInt64

/-- The signed integer that was folded onto a word. -/
def unfoldedWord (word : UInt64) : Int64 := (word >>> 1).toInt64 ^^^ -(word &&& 1).toInt64

/-- Folding a signed word by shifts is folding its number. -/
theorem toNat_foldedWord (value : Int64) : (foldedWord value).toNat = zigzag value := by
  have low := value.le_toInt
  have high := value.toInt_lt
  have whole : (foldedWord value).toNat =
      ((value.toBitVec <<< 1) ^^^ value.toBitVec.sshiftRight 63).toNat := rfl
  have signed : value.toInt = value.toBitVec.toInt := rfl
  have wrapped := BitVec.toInt_eq_toNat_cond value.toBitVec
  rw [← signed] at wrapped
  have sign : value.toBitVec.sshiftRight 63 = BitVec.ofInt 64 (value.toInt / 2 ^ 63) := by
    rw [BitVec.sshiftRight_eq, Int.shiftRight_eq_div_pow, signed]
    rfl
  rw [whole, zigzag, sign]
  by_cases negative : value.toInt < 0
  · have quotient : value.toInt / 2 ^ 63 = -1 := by omega
    have ones : BitVec.ofInt 64 (-1) = BitVec.allOnes 64 := rfl
    rw [if_pos negative, quotient, ones, BitVec.xor_allOnes, BitVec.toNat_not,
      BitVec.toNat_shiftLeft, Nat.shiftLeft_eq]
    split at wrapped <;> omega
  · have quotient : value.toInt / 2 ^ 63 = 0 := by omega
    have zero : BitVec.ofInt 64 0 = 0#64 := rfl
    rw [if_neg negative, quotient, zero, BitVec.xor_zero, BitVec.toNat_shiftLeft,
      Nat.shiftLeft_eq]
    split at wrapped <;> omega

/-- Unfolding a word by shifts is unfolding its number. -/
theorem unfoldedWord_eq (word : UInt64) : unfoldedWord word = unzigzag word.toNat := by
  have bound := word.toNat_lt
  have whole : (unfoldedWord word).toBitVec =
      (word.toBitVec >>> 1) ^^^ -(word.toBitVec &&& 1#64) := rfl
  have bit : (word.toBitVec &&& 1#64).toNat = word.toNat % 2 := by
    rw [BitVec.toNat_and]
    exact Nat.and_two_pow_sub_one_eq_mod _ 1
  have half : (word.toBitVec >>> 1).toNat = word.toNat / 2 := by
    rw [BitVec.toNat_ushiftRight, Nat.shiftRight_eq_div_pow]
    rfl
  rw [← Int64.toBitVec_inj, whole, unzigzag]
  by_cases even : word.toNat % 2 = 0
  · have clear : word.toBitVec &&& 1#64 = 0#64 := BitVec.eq_of_toNat_eq (bit.trans even)
    rw [if_pos even, clear, BitVec.neg_zero, BitVec.xor_zero]
    apply BitVec.eq_of_toInt_eq
    change _ = (Int64.ofInt _).toInt
    rw [Int64.toInt_ofInt_of_le (by omega) (by omega), BitVec.toInt_eq_toNat_cond, half,
      if_pos (by omega)]
    omega
  · have set : word.toBitVec &&& 1#64 = 1#64 :=
      BitVec.eq_of_toNat_eq (bit.trans (Nat.mod_two_ne_zero.mp even))
    rw [if_neg even, set, BitVec.neg_one_eq_allOnes, BitVec.xor_allOnes]
    apply BitVec.eq_of_toInt_eq
    change _ = (Int64.ofInt _).toInt
    rw [Int64.toInt_ofInt_of_le (by omega) (by omega), BitVec.toInt_eq_toNat_cond,
      BitVec.toNat_not, half, if_neg (by omega)]
    omega

/-- Every 64-bit number is folded onto by the signed integer that is unfolded from it. -/
theorem zigzag_unzigzag {number : Nat} (fits : number < 2 ^ 64) :
    zigzag (unzigzag number) = number := by
  unfold unzigzag
  by_cases even : number % 2 = 0
  · rw [if_pos even, zigzag, Int64.toInt_ofInt_of_le (by omega) (by omega), if_neg (by omega)]
    omega
  · rw [if_neg even, zigzag, Int64.toInt_ofInt_of_le (by omega) (by omega), if_pos (by omega)]
    omega

/-- The high bit of a byte. -/
theorem and_high_eq_zero_iff {digit : UInt8} : digit &&& 0x80 = 0 ↔ digit.toNat < 128 := by
  have all : ∀ bits : BitVec 8, bits &&& 0x80#8 = 0 ↔ bits.toNat < 128 := by decide
  rw [← UInt8.toBitVec_inj]
  exact all digit.toBitVec

/-- A digit that is shifted to its place and fits there is added to the digits below it. -/
theorem merge_eq {held : UInt64} {digit : UInt8} {place : Nat} (below : held.toNat < 128 ^ place)
    (fits : 128 ^ place * (digit.toNat % 128) < 2 ^ 64) (near : place ≤ 9) :
    held ||| (digit &&& 0x7F).toUInt64 <<< UInt64.ofNat (7 * place) =
      UInt64.ofNat (held.toNat + 128 ^ place * (digit.toNat % 128)) := by
  have low : (digit &&& 0x7F).toUInt64.toNat = digit.toNat % 128 := by
    rw [UInt8.toNat_toUInt64, UInt8.toNat_and]
    exact Nat.and_two_pow_sub_one_eq_mod _ 7
  have amount : (UInt64.ofNat (7 * place)).toNat % 64 = 7 * place := by
    rw [UInt64.toNat_ofNat']
    omega
  have power : 128 ^ place = 2 ^ (7 * place) := by rw [Nat.pow_mul]
  have sum : (held ||| (digit &&& 0x7F).toUInt64 <<< UInt64.ofNat (7 * place)).toNat =
      held.toNat + 128 ^ place * (digit.toNat % 128) := by
    rw [UInt64.toNat_or, UInt64.toNat_shiftLeft, low, amount, Nat.shiftLeft_eq, Nat.mul_comm,
      ← power, Nat.mod_eq_of_lt fits, power, Nat.or_comm,
      ← Nat.two_pow_add_eq_or_of_lt (power ▸ below), Nat.add_comm]
  rw [← sum, UInt64.ofNat_toNat]

namespace Reader

variable {reader : Reader}

/-- Takes a number into a 64-bit word, as long as bytes are `left` of ten: each digit is shifted to
its place and merged with those below it, and the tenth one must be a single bit. -/
def merged (reader : Reader) (held : UInt64) : (left : Nat) → Except ReadFault (UInt64 × Reader)
  | 0 => .error (.flaw .varintOverflow)
  | left + 1 =>
    match reader.byte with
    | .error fault => .error fault
    | .ok (digit, next) =>
      if left = 0 ∧ 1 < digit then .error (.flaw .varintOverflow)
      else
        let found := held ||| (digit &&& 0x7F).toUInt64 <<< UInt64.ofNat (7 * (9 - left))
        if digit &&& 0x80 = 0 then .ok (found, next) else next.merged found left

/-- Merging goes on from the digits held as reading does from the place behind them. -/
theorem merged_eq {held : UInt64} {place room : Nat} (whole : place + room = 9)
    (below : held.toNat < 128 ^ place) :
    reader.merged held (room + 1) = (reader.digits room).map fun found =>
      (UInt64.ofNat (held.toNat + 128 ^ place * found.1), found.2) := by
  induction room generalizing reader held place with
  | zero =>
    obtain rfl : place = 9 := whole
    rw [merged, digits]
    cases reader.byte with
    | error fault => rfl
    | ok taken =>
      obtain ⟨digit, next⟩ := taken
      simp only
      by_cases single : digit.toNat ≤ 1
      · have unmarked : ¬ 1 < digit := fun large => Nat.not_lt.mpr single large
        have bit : digit.toNat % 128 = digit.toNat := by omega
        rw [if_neg (fun both => unmarked both.2), if_pos (and_high_eq_zero_iff.mpr (by omega)),
          if_pos single, merge_eq below (by omega) (Nat.le_refl 9), bit]
        rfl
      · have large : 1 < digit := Nat.not_le.mp single
        rw [if_pos ⟨trivial, large⟩, if_neg single]
        rfl
  | succ room ih =>
    have near : 9 - (room + 1) = place := by omega
    rw [merged, digits, near]
    cases reader.byte with
    | error fault => rfl
    | ok taken =>
      obtain ⟨digit, next⟩ := taken
      have narrow := digit.toNat_lt
      have power : 128 ^ (place + 1) ≤ 128 ^ 9 := Nat.pow_le_pow_right (by decide) (by omega)
      rw [Nat.pow_succ] at power
      have fits : 128 ^ place * (digit.toNat % 128) ≤ 128 ^ place * 127 :=
        Nat.mul_le_mul_left _ (by omega)
      simp only [Nat.add_one_ne_zero, false_and, ↓reduceIte]
      rw [merge_eq below (by omega) (by omega)]
      by_cases last : digit.toNat < 128
      · rw [if_pos (and_high_eq_zero_iff.mpr last), if_pos last, Nat.mod_eq_of_lt last]
        rfl
      · rw [if_neg (and_high_eq_zero_iff.not.mpr last), if_neg last]
        have sum : (UInt64.ofNat (held.toNat + 128 ^ place * (digit.toNat % 128))).toNat =
            held.toNat + 128 ^ place * (digit.toNat % 128) := by
          rw [UInt64.toNat_ofNat', Nat.mod_eq_of_lt (by omega)]
        have onward : place + 1 + room = 9 := by omega
        rw [ih onward (by rw [sum, Nat.pow_succ]; omega), sum]
        cases next.digits room with
        | error fault => rfl
        | ok later =>
          obtain ⟨higher, behind⟩ := later
          have digit_eq : digit.toNat % 128 = digit.toNat - 128 := by omega
          simp only [Except.map, digit_eq, Nat.pow_succ, Nat.mul_add, Nat.mul_assoc, Nat.add_assoc]

/-- A number is read as the word that its digits are merged into: no shift loses a bit. -/
theorem varint_eq_merged (reader : Reader) :
    reader.varint = (reader.merged 0 10).map fun found => (found.1.toNat, found.2) := by
  have empty : (0 : UInt64).toNat < 128 ^ 0 := Nat.one_pos
  have whole : 0 + 9 = 9 := rfl
  rw [merged_eq whole empty]
  change reader.varint = (reader.varint.map _).map _
  cases read : reader.varint with
  | error fault => rfl
  | ok found =>
    obtain ⟨number, next⟩ := found
    obtain ⟨taken, rest, spells, _, _⟩ := varint_eq_ok_iff.mp read
    have bounded := spells.bounded
    simp only [Except.map, UInt64.toNat_zero, Nat.zero_add, Nat.pow_zero, Nat.one_mul,
      UInt64.toNat_ofNat', Nat.mod_eq_of_lt bounded]

end Reader

/-- Every 64-bit number is written in at most ten bytes and read back from them, with exactly these
taken, whatever follows. Wherever a number is read, the bytes taken spell it: at most ten, all but
the last marked, and with its exact value, which is less than 2 ^ 64 and the one that comes of
merging the digits in a 64-bit word. Where no number is read, the first ten bytes begin with none,
and the fault tells whether there were ten. Folding signed integers and unfolding 64-bit numbers
undo each other, and are what shifting and flipping the bits of words comes to. -/
theorem numbers_exact :
    (∀ (word : UInt64) (rest : Bytes) (reader : Reader),
      varintBytes word.toNat = shiftedBytes word ∧ (varintBytes word.toNat).length ≤ 10 ∧
        (reader.rest = varintBytes word.toNat ++ rest →
          reader.varint = .ok (word.toNat, reader.after (varintBytes word.toNat) rest))) ∧
    (∀ (reader next : Reader) (number : Nat), reader.varint = .ok (number, next) ↔
      ∃ taken rest, Spells taken number ∧ reader.rest = taken ++ rest ∧
        next = reader.after taken rest) ∧
    (∀ reader : Reader,
      reader.varint = (reader.merged 0 10).map fun found => (found.1.toNat, found.2)) ∧
    (∀ (reader : Reader) (fault : ReadFault), reader.varint = .error fault ↔
      (∀ taken number, Spells taken number → ¬ taken <+: reader.rest.take 10) ∧
        fault = if reader.rest.length < 10 then .ended else .flaw .varintOverflow) ∧
    (∀ value : Int64,
      zigzag value = (foldedWord value).toNat ∧ unzigzag (zigzag value) = value) ∧
    ∀ word : UInt64,
      unzigzag word.toNat = unfoldedWord word ∧ zigzag (unzigzag word.toNat) = word.toNat := by
  refine ⟨fun word rest reader => ⟨(shiftedBytes_eq word).symm, ?_, fun ahead => ?_⟩,
    fun reader next number => Reader.varint_eq_ok_iff, Reader.varint_eq_merged,
    fun reader fault => Reader.varint_eq_error_iff, fun value => ?_, fun word => ?_⟩
  · have bound := word.toNat_lt
    exact length_varintBytes_le (by omega)
  · exact Reader.varint_of_rest word.toNat_lt ahead
  · exact ⟨(toNat_foldedWord value).symm, unzigzag_zigzag value⟩
  · exact ⟨(unfoldedWord_eq word).symm, zigzag_unzigzag word.toNat_lt⟩

/-- The largest number in front of a zero in two digits, and ten bytes that are one bit too long. -/
theorem numbers_exact_largest :
    let largest : UInt64 := 0xFFFFFFFFFFFFFFFF
    let padded : Bytes := [0x80, 0x00]
    let reader : Reader := ⟨varintBytes largest.toNat ++ padded, 8, Checksum.initial⟩
    let behind := reader.after (varintBytes largest.toNat) padded
    let long : Reader := ⟨List.replicate 9 0x80 ++ [0x02], 8, Checksum.initial⟩
    reader.rest = varintBytes largest.toNat ++ padded ∧
      reader.varint = .ok (largest.toNat, behind) ∧
      Spells padded 0 ∧ behind.varint = .ok (0, behind.after padded []) ∧
      long.varint = .error (.flaw .varintOverflow) ∧
      (∀ number, ¬ Spells (List.replicate 9 0x80 ++ [0x02]) number) ∧
      zigzag (unzigzag largest.toNat) = largest.toNat := by
  intro largest padded reader behind long
  have marked : ∀ digit ∈ padded.dropLast, 128 ≤ digit.toNat := by
    intro digit member
    rw [List.mem_singleton.mp member]
    decide
  have spells : Spells padded 0 :=
    ⟨marked, ⟨0x00, rfl, by decide⟩, by decide, by decide, by decide⟩
  have overflows : long.varint = .error (.flaw .varintOverflow) := by decide
  have ahead : reader.rest = varintBytes largest.toNat ++ padded := rfl
  have written := (numbers_exact.1 largest padded reader).2.2
  refine ⟨ahead, written ahead, spells,
    (numbers_exact.2.1 behind _ 0).mpr ⟨padded, [], spells, rfl, rfl⟩, overflows, ?_,
    (numbers_exact.2.2.2.2.2 largest).2⟩
  intro number found
  exact ((numbers_exact.2.2.2.1 long _).mp overflows).1 _ number found (List.prefix_rfl)

end AtomStore.Log
