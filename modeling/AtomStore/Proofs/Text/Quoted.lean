import AtomStore.Text.Quoted

/-!
# Numerals and quoted texts that end by themselves

A numeral in front of something that is neither letter nor digit is told apart from what follows,
and so are a signed numeral and, in front of anything, a quoted text: the quote that ends it is the
first one without a backslash, and every backslash tells how far its escape goes.
-/

namespace AtomStore.Text

variable {first second : List Char}

/-- Whether a text begins with neither letter nor digit. -/
def Clear (rest : List Char) : Prop :=
  ∀ c, rest.head? = some c → c.isAlphanum = false

theorem clear_cons {c : Char} {rest : List Char} (other : c.isAlphanum = false) :
    Clear (c :: rest) := by
  intro head same
  obtain rfl := Option.some.inj same
  exact other

theorem not_clear_cons {c : Char} {rest : List Char} (sign : c.isAlphanum = true) :
    ¬ Clear (c :: rest) := by
  intro clear
  rw [clear c rfl] at sign
  cases sign

/-- Letters and digits in front of a clear text are told apart from it. -/
theorem append_inj_of_clear {left right : List Char} (here : ∀ c ∈ left, c.isAlphanum = true)
    (there : ∀ c ∈ right, c.isAlphanum = true) (clear : Clear first) (free : Clear second)
    (same : left ++ first = right ++ second) : left = right ∧ first = second := by
  induction left generalizing right with
  | nil =>
    cases right with
    | nil => exact ⟨rfl, same⟩
    | cons c more =>
      obtain rfl : first = c :: (more ++ second) := same
      exact absurd clear (not_clear_cons (there c List.mem_cons_self))
  | cons c rest ih =>
    cases right with
    | nil =>
      obtain rfl : c :: (rest ++ first) = second := same
      exact absurd free (not_clear_cons (here c List.mem_cons_self))
    | cons d more =>
      obtain ⟨rfl, behind⟩ := List.cons.inj same
      obtain ⟨rfl, ends⟩ := ih (fun c member => here c (List.mem_cons_of_mem _ member))
        (fun c member => there c (List.mem_cons_of_mem _ member)) behind
      exact ⟨rfl, ends⟩

/-! ### Numerals -/

/-- The digit that a letter or an ASCII digit stands for, in bases up to sixteen. -/
def digitValue (c : Char) : Nat :=
  if c.toNat < 'a'.toNat then c.toNat - '0'.toNat else c.toNat - 'a'.toNat + 10

/-- The character of a digit has its value. -/
theorem digitValue_digitChar {digit : Nat} (small : digit < 16) :
    digitValue digit.digitChar = digit := by
  decide +revert

theorem isAlphanum_digitChar {digit : Nat} (small : digit < 16) :
    digit.digitChar.isAlphanum = true := by
  decide +revert

variable {base : Nat}

/-- Numbers are written in letters and digits. -/
theorem isAlphanum_of_mem_toDigits {number : Nat} {c : Char} (large : 1 < base) (small : base ≤ 16)
    (member : c ∈ Nat.toDigits base number) : c.isAlphanum = true := by
  induction number using Nat.base_induction base large with
  | single digit below =>
    rw [Nat.toDigits_of_lt_base below, List.mem_singleton] at member
    rw [member]
    exact isAlphanum_digitChar (by omega)
  | digit number last below positive ih =>
    rw [← Nat.toDigits_append_toDigits large positive below, Nat.toDigits_of_lt_base below,
      List.mem_append, List.mem_singleton] at member
    rcases member with earlier | rfl
    · exact ih earlier
    · exact isAlphanum_digitChar (by omega)

/-- A number is the value of its digits. -/
theorem foldl_digitValue_toDigits (large : 1 < base) (small : base ≤ 16) (number : Nat) :
    (Nat.toDigits base number).foldl (fun value c => base * value + digitValue c) 0 = number := by
  induction number using Nat.base_induction base large with
  | single digit below =>
    rw [Nat.toDigits_of_lt_base below, List.foldl_cons, List.foldl_nil,
      digitValue_digitChar (by omega), Nat.mul_zero, Nat.zero_add]
  | digit number last below positive ih =>
    rw [← Nat.toDigits_append_toDigits large positive below, Nat.toDigits_of_lt_base below,
      List.foldl_append, ih, List.foldl_cons, List.foldl_nil, digitValue_digitChar (by omega)]

/-- A number is read back from its digits, up to where they end. -/
theorem toDigits_append_inj {left right : Nat} (large : 1 < base) (small : base ≤ 16)
    (clear : Clear first) (free : Clear second)
    (same : Nat.toDigits base left ++ first = Nat.toDigits base right ++ second) :
    left = right ∧ first = second := by
  obtain ⟨digits, ends⟩ := append_inj_of_clear
    (fun _ => isAlphanum_of_mem_toDigits large small)
    (fun _ => isAlphanum_of_mem_toDigits large small) clear free same
  refine ⟨?_, ends⟩
  rw [← foldl_digitValue_toDigits large small left, digits, foldl_digitValue_toDigits large small]

/-- A numeral is never empty, so a text that begins with one begins with a letter or a digit. -/
theorem toDigits_append_ne_cons {number : Nat} {c : Char} (large : 1 < base) (small : base ≤ 16)
    (other : c.isAlphanum = false) : Nat.toDigits base number ++ first ≠ c :: second := by
  intro same
  cases shape : Nat.toDigits base number with
  | nil => exact absurd shape Nat.toDigits_ne_nil
  | cons head more =>
    have member : head ∈ Nat.toDigits base number := shape ▸ List.mem_cons_self
    have letter := isAlphanum_of_mem_toDigits large small member
    rw [shape, List.cons_append] at same
    rw [(List.cons.inj same).1, other] at letter
    cases letter

/-- A number from zero on is written in its digits. -/
theorem toList_repr_of_nonneg {value : Int} (nonneg : 0 ≤ value) :
    value.repr.toList = Nat.toDigits 10 value.toNat := by
  rw [Int.repr_eq_if, if_pos nonneg, Nat.toList_repr]

/-- A negative number is written with a sign in front of its digits. -/
theorem toList_repr_of_neg {value : Int} (negative : value < 0) :
    value.repr.toList = '-' :: Nat.toDigits 10 (-value).toNat := by
  rw [Int.repr_eq_if, if_neg (by omega), String.toList_append, Nat.toList_repr]
  rfl

/-- A signed numeral begins with a letter or a digit, or else with its sign. -/
theorem repr_append_ne_cons {value : Int} {c : Char} (other : c.isAlphanum = false)
    (unsigned : c ≠ '-') : value.repr.toList ++ first ≠ c :: second := by
  intro same
  by_cases nonneg : 0 ≤ value
  · rw [toList_repr_of_nonneg nonneg] at same
    exact toDigits_append_ne_cons (by decide) (by decide) other same
  · rw [toList_repr_of_neg (Int.not_le.mp nonneg)] at same
    exact unsigned (List.cons.inj same).1.symm

/-- A signed numeral is told apart from what follows: only the negative ones begin with a sign. -/
theorem repr_append_inj {left right : Int} (clear : Clear first) (free : Clear second)
    (same : left.repr.toList ++ first = right.repr.toList ++ second) :
    left = right ∧ first = second := by
  by_cases nonneg : 0 ≤ left
  · by_cases other : 0 ≤ right
    · rw [toList_repr_of_nonneg nonneg, toList_repr_of_nonneg other] at same
      obtain ⟨equal, ends⟩ := toDigits_append_inj (by decide) (by decide) clear free same
      exact ⟨by omega, ends⟩
    · rw [toList_repr_of_nonneg nonneg, toList_repr_of_neg (Int.not_le.mp other)] at same
      exact (toDigits_append_ne_cons (by decide) (by decide) rfl same).elim
  · by_cases other : 0 ≤ right
    · rw [toList_repr_of_neg (Int.not_le.mp nonneg), toList_repr_of_nonneg other] at same
      exact (toDigits_append_ne_cons (by decide) (by decide) rfl same.symm).elim
    · rw [toList_repr_of_neg (Int.not_le.mp nonneg), toList_repr_of_neg (Int.not_le.mp other)]
        at same
      obtain ⟨equal, ends⟩ := toDigits_append_inj (by decide) (by decide) clear free
        (List.cons.inj same).2
      exact ⟨by omega, ends⟩

/-! ### Quoted texts -/

/-- The character that a letter behind a backslash names. -/
def named : Char → Char
  | '0' => '\x00'
  | 't' => '\t'
  | 'n' => '\n'
  | 'r' => '\r'
  | c => c

/-- The ways in which a character is written between quotes. -/
inductive Escaped (c : Char) : List Char → Prop where
  | itself (unquoted : c ≠ '"') (unescaped : c ≠ '\\') : Escaped c [c]
  | short (name : Char) (other : name ≠ 'u') (names : named name = c) : Escaped c ['\\', name]
  | number : Escaped c (namedByNumber c)

/-- Every character is written in one of the ways of escaping it. -/
theorem escaped_escapeChar (c : Char) : Escaped c (escapeChar c) := by
  unfold escapeChar
  split
  · exact .short '"' (by decide) (by subst c; rfl)
  · split
    · exact .short '\\' (by decide) (by subst c; rfl)
    · split
      · exact .short '0' (by decide) (by subst c; rfl)
      · split
        · exact .short 't' (by decide) (by subst c; rfl)
        · split
          · exact .short 'n' (by decide) (by subst c; rfl)
          · split
            · exact .short 'r' (by decide) (by subst c; rfl)
            · split
              · exact .number
              · exact .itself ‹_› ‹_›

namespace Escaped

variable {c d : Char} {front back : List Char}

/-- Two characters are told apart from each other and from what follows. A backslash begins an
escape, the letter behind it tells whether digits follow, and a brace ends the digits. -/
theorem append_inj (here : Escaped c front) (there : Escaped d back)
    (same : front ++ first = back ++ second) : c = d ∧ first = second := by
  cases here with
  | itself unquoted unescaped =>
    cases there with
    | itself => exact List.cons.inj same
    | short name other names => exact absurd (List.cons.inj same).1 unescaped
    | number => exact absurd (List.cons.inj same).1 unescaped
  | short name other names =>
    cases there with
    | itself unquoted unescaped => exact absurd (List.cons.inj same).1.symm unescaped
    | short letter _ called =>
      obtain ⟨rfl, ends⟩ := List.cons.inj (List.cons.inj same).2
      exact ⟨names.symm.trans called, ends⟩
    | number => exact absurd (List.cons.inj (List.cons.inj same).2).1 other
  | number =>
    cases there with
    | itself unquoted unescaped => exact absurd (List.cons.inj same).1.symm unescaped
    | short name other names => exact absurd (List.cons.inj (List.cons.inj same).2).1.symm other
    | number =>
      simp only [namedByNumber, List.cons_append, List.append_assoc, List.nil_append,
        List.cons.injEq, true_and] at same
      obtain ⟨numbers, braced⟩ := toDigits_append_inj (by decide) (by decide) (clear_cons rfl)
        (clear_cons rfl) same
      exact ⟨Char.toNat_inj.mp numbers, (List.cons.inj braced).2⟩

/-- No written character begins with a quote. -/
theorem ne_quote (here : Escaped c front) : front ++ first ≠ '"' :: second := by
  intro same
  cases here with
  | itself unquoted => exact unquoted (List.cons.inj same).1
  | short => exact absurd (List.cons.inj same).1 (by decide)
  | number => exact absurd (List.cons.inj same).1 (by decide)

end Escaped

/-- The characters between quotes are told apart up to the quote that ends them. -/
theorem escape_append_inj {left right : List Char}
    (same : escape left ++ '"' :: first = escape right ++ '"' :: second) :
    left = right ∧ first = second := by
  induction left generalizing right with
  | nil =>
    cases right with
    | nil => exact ⟨rfl, (List.cons.inj same).2⟩
    | cons d more =>
      rw [escape, escape, List.flatMap_cons, List.append_assoc] at same
      exact absurd same.symm (escaped_escapeChar d).ne_quote
  | cons c rest ih =>
    cases right with
    | nil =>
      rw [escape, escape, List.flatMap_cons, List.append_assoc] at same
      exact absurd same (escaped_escapeChar c).ne_quote
    | cons d more =>
      rw [escape, escape, List.flatMap_cons, List.flatMap_cons, List.append_assoc,
        List.append_assoc] at same
      obtain ⟨rfl, behind⟩ := (escaped_escapeChar c).append_inj (escaped_escapeChar d) same
      obtain ⟨rfl, ends⟩ := ih behind
      exact ⟨rfl, ends⟩

/-- A quoted text is its escaped characters between quotation marks. -/
theorem toList_quoted (text : String) :
    (quoted text).toList = '"' :: (escape text.toList ++ ['"']) :=
  String.toList_ofList

/-- A quoted text is told apart from whatever follows it. -/
theorem quoted_append_inj {left right : String}
    (same : (quoted left).toList ++ first = (quoted right).toList ++ second) :
    left = right ∧ first = second := by
  simp only [toList_quoted, List.cons_append, List.append_assoc, List.nil_append,
    List.cons.injEq, true_and] at same
  obtain ⟨characters, ends⟩ := escape_append_inj same
  exact ⟨String.toList_inj.mp characters, ends⟩

end AtomStore.Text
