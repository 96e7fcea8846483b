import AtomStore.Text.Unprintable

/-!
# Quoted text

Text shown to a reader stands between double quotes. A quote and a backslash take a backslash, four
control characters have short names, every other unprintable character is named by its number, and
all else stands for itself.
-/

namespace AtomStore.Text

/-- An unprintable character is named by its code point, in lower-case digits without padding. -/
def namedByNumber (c : Char) : List Char :=
  ['\\', 'u', '\x7b'] ++ Nat.toDigits 16 c.toNat ++ ['\x7d']

/-- The written form of one character inside quotes. -/
def escapeChar (c : Char) : List Char :=
  if c = '"' then ['\\', '"']
  else if c = '\\' then ['\\', '\\']
  else if c = '\x00' then ['\\', '0']
  else if c = '\t' then ['\\', 't']
  else if c = '\n' then ['\\', 'n']
  else if c = '\r' then ['\\', 'r']
  else if isUnprintable c then namedByNumber c
  else [c]

/-- The characters between the quotes. -/
def escape (text : List Char) : List Char :=
  text.flatMap escapeChar

/-- A text between double quotes, with the characters that need it escaped. -/
def quoted (text : String) : String :=
  String.ofList ('"' :: (escape text.toList ++ ['"']))

end AtomStore.Text
