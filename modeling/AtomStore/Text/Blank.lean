/-!
# White space

The characters with the white-space property, and the two ways a text is cut at them: trimming both
ends, and splitting into words.
-/

namespace AtomStore.Text

/-- The characters that separate words. -/
def isBlank (c : Char) : Bool :=
  let n := c.toNat
  (9 ≤ n && n ≤ 13) || n == 0x20 || n == 0x85 || n == 0xA0 || n == 0x1680 ||
    (0x2000 ≤ n && n ≤ 0x200A) || n == 0x2028 || n == 0x2029 || n == 0x202F || n == 0x205F ||
    n == 0x3000

/-- A text without the blanks at its two ends. -/
def trim (text : String) : String :=
  String.ofList ((text.toList.dropWhile isBlank).reverse.dropWhile isBlank).reverse

/-- The maximal runs of characters that are not blank, in order. -/
def wordRuns : List Char → List (List Char)
  | [] => []
  | c :: rest =>
    if isBlank c then wordRuns rest
    else (c :: rest.takeWhile (!isBlank ·)) :: wordRuns (rest.dropWhile (!isBlank ·))
  termination_by text => text.length
  decreasing_by
    · simp
    · exact Nat.lt_succ_of_le (List.dropWhile_sublist _).length_le

/-- The words of a text. -/
def words (text : String) : List String :=
  (wordRuns text.toList).map String.ofList

end AtomStore.Text
