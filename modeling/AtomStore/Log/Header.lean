import AtomStore.Log.Word
import AtomStore.Checksum
import AtomStore.Log.Format
import AtomStore.SortedMap
import AtomStore.Text.Utf8

/-!
# File headers

A header identifies a data file: magic bytes, its own length, the store's identifier, the version of
the format, named metadata, and the checksum of all that. Metadata is written in key order; reading
accepts any order and lets a later value of a key replace an earlier one.
-/

namespace AtomStore

/-- The sixteen bytes that identify a store. -/
structure StoreId where
  bytes : Bytes
  length_eq : bytes.length = 16
  deriving DecidableEq

/-- The identifier of sixteen bytes. -/
def StoreId.ofBytes? (bytes : Bytes) : Option StoreId :=
  if length_eq : bytes.length = 16 then some ⟨bytes, length_eq⟩ else none

/-- The identifier of zero bytes. -/
def StoreId.zero : StoreId := ⟨List.replicate 16 0, rfl⟩

instance : Inhabited StoreId := ⟨.zero⟩

/-- The identifier in five dashed groups of hexadecimal digits. -/
def StoreId.render (id : StoreId) : String :=
  let group (first count : Nat) : String :=
    String.ofList (((id.bytes.drop first).take count).flatMap Log.byteDigits)
  String.intercalate "-" [group 0 4, group 4 2, group 6 2, group 8 2, group 10 6]

/-- Named texts that are written when a file is created. -/
abbrev Metadata := SortedMap String String

namespace Log

/-- What a data file says about itself. -/
structure Header where
  storeId : StoreId
  version : Version
  metadata : Metadata
  deriving DecidableEq

namespace Header

/-- The header of a new file, if the version number is supported. -/
def make (storeId : StoreId) (version : Nat) (metadata : Metadata) : Except LogError Header :=
  (Version.ofNumber version).map fun supported => ⟨storeId, supported, metadata⟩

/-- The length of a header without metadata. -/
def baseLength : Nat := 40

/-- The bytes in front of a header's store identifier. -/
def leadLength : Nat := 12

/-- A text behind its length. -/
def textBytes (text : String) : Bytes :=
  wordBytes (UInt32.ofNat text.utf8ByteSize) ++ Text.utf8 text

/-- The written form of a metadata entry. -/
def entryBytes (entry : String × String) : Bytes := textBytes entry.1 ++ textBytes entry.2

/-- The length of a metadata entry. -/
def entryLength (entry : String × String) : Nat :=
  8 + entry.1.utf8ByteSize + entry.2.utf8ByteSize

/-- The length of a header. -/
def length (header : Header) : Nat :=
  header.metadata.entries.foldr (fun entry total => entryLength entry + total) baseLength

/-- The part of a header that its checksum covers. -/
def coveredBytes (header : Header) : Bytes :=
  magic ++ wordBytes (UInt32.ofNat header.length) ++ header.storeId.bytes ++
    wordBytes (UInt32.ofNat header.version.number) ++
    wordBytes (UInt32.ofNat header.metadata.size) ++
    header.metadata.entries.flatMap entryBytes

/-- The written form of a header, unless it is too long. -/
def encode (header : Header) : Except LogError Bytes :=
  if maxHeaderLength < header.length then .error (.corruptHeader (.tooLarge header.length))
  else
    let covered := header.coveredBytes
    .ok (covered ++ wordBytes (Checksum.ofBytes covered))

/-- A word of a header, which must not end in front of it. -/
def readWord (bytes : Bytes) : Except LogError (UInt32 × Bytes) :=
  match readWord? bytes with
  | some read => .ok read
  | none => .error (.io .endedEarly)

/-- A run of bytes, which must not end in front of its last byte. -/
def readRun (count : Nat) (bytes : Bytes) : Except LogError (Bytes × Bytes) :=
  let taken := bytes.take count
  if taken.length < count then .error (.io .endedEarly) else .ok (taken, bytes.drop count)

/-- A text behind its length. -/
def readText (bytes : Bytes) : Except LogError (String × Bytes) := do
  let (length, rest) ← readWord bytes
  let taken := rest.take length.toNat
  if taken.length < length.toNat then .error (.corruptHeader .entryPastHeader)
  else
    match Text.ofUtf8? taken with
    | none => .error (.corruptHeader .notUtf8)
    | some text => .ok (text, rest.drop length.toNat)

/-- A number of metadata entries, added to those already held. -/
def readEntries : (count : Nat) → Metadata → Bytes → Except LogError (Metadata × Bytes)
  | 0, held, bytes => .ok (held, bytes)
  | count + 1, held, bytes => do
    let (key, afterKey) ← readText bytes
    let (value, rest) ← readText afterKey
    readEntries count (held.insert key value) rest

/-- The part of a header between its length and its checksum. -/
def readBody (body : Bytes) : Except LogError Header := do
  let (identifier, afterId) ← readRun 16 body
  let (number, afterVersion) ← readWord afterId
  let version ← Version.ofNumber number.toNat
  let (count, afterCount) ← readWord afterVersion
  let (metadata, rest) ← readEntries count.toNat .empty afterCount
  if 0 < rest.length then .error (.corruptHeader (.unexpectedBytes rest.length))
  else
    match StoreId.ofBytes? identifier with
    | none => .error (.io .endedEarly)
    | some storeId => .ok ⟨storeId, version, metadata⟩

/-- The header at the start of some bytes, with its length, where the records begin. -/
def decode (bytes : Bytes) : Except LogError (Header × Nat) := do
  if bytes.take 8 ≠ magic then .error .badMagic
  else
    let (length, afterLength) ← readWord (bytes.drop 8)
    if length.toNat < baseLength ∨ maxHeaderLength < length.toNat then
      .error (.corruptHeader (.implausibleLength length.toNat))
    else
      let (inside, _) ← readRun (length.toNat - leadLength) afterLength
      let covered := length.toNat - 4
      let expected := Checksum.ofBytes (bytes.take covered)
      if inside.drop (covered - leadLength) ≠ wordBytes expected then .error .headerChecksum
      else
        let header ← readBody (inside.take (covered - leadLength))
        .ok (header, length.toNat)

end Header
end Log
end AtomStore
