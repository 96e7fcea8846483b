import AtomStore.Log.Error

/-!
# The format of data files

The marks and limits of a data file, and its two versions. The second version adds one kind of
value, byte runs that stay in the file, and is otherwise the first.
-/

namespace AtomStore.Log

/-- The eight bytes every data file starts with. -/
def magic : Bytes := [0x41, 0x54, 0x4F, 0x4D, 0x44, 0x41, 0x54, 0x41]

/-- The byte that may fill the room between records. -/
def padByte : UInt8 := 0x00

/-- The first byte of a record. -/
def recordMark : UInt8 := 0xE5

/-- The byte in front of an atom. -/
def atomMark : UInt8 := 0xA1

/-- The byte after the last atom of a record. -/
def atomsEnd : UInt8 := 0xEA

/-- The last byte of a record. -/
def recordEnd : UInt8 := 0xED

/-- The longest text or run of bytes that a record may hold. -/
def maxValueLength : Nat := 256 * 1024 * 1024

/-- The longest header, metadata included. -/
def maxHeaderLength : Nat := 16 * 1024 * 1024

/-- The kinds of value a record can hold. -/
inductive ValueKind where
  | integer
  | text
  | bytes
  | hosted
  deriving DecidableEq

/-- The byte that announces a kind of value. -/
def ValueKind.tag : ValueKind → UInt8
  | integer => 0x01
  | text => 0x02
  | bytes => 0x03
  | hosted => 0x04

/-- The supported versions of the format. -/
inductive Version where
  | one
  | two
  deriving DecidableEq, Inhabited

namespace Version

/-- The number that stands for a version in a header. -/
def number : Version → Nat
  | one => 1
  | two => 2

/-- The version of a number; other numbers are refused. -/
def ofNumber (number : Nat) : Except LogError Version :=
  if number = 1 then .ok one
  else if number = 2 then .ok two
  else .error (.unsupportedVersion number)

/-- Whether a version has room for byte runs that stay in the file. -/
def hosts : Version → Bool
  | one => false
  | two => true

/-- The kind of value a tag announces in a version. -/
def kind? (version : Version) (tag : UInt8) : Option ValueKind :=
  if tag = ValueKind.integer.tag then some .integer
  else if tag = ValueKind.text.tag then some .text
  else if tag = ValueKind.bytes.tag then some .bytes
  else if tag = ValueKind.hosted.tag ∧ version.hosts then some .hosted
  else none

end Version
end AtomStore.Log
