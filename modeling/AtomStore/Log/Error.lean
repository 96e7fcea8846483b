import AtomStore.Particle

/-!
# Failures of data files

Every way in which reading or writing a data file can fail, by cause, and its wording.
-/

namespace AtomStore.Log

/-- A failure of the file system. -/
inductive IoFailure where
  | endedEarly
  | noSuchFile
  | notDirectory
  | isDirectory
  | nameTooLong
  | nulInPath
  | noSpace
  deriving DecidableEq

/-- The wording of a failure of the file system. -/
def IoFailure.message : IoFailure → String
  | endedEarly => "failed to fill whole buffer"
  | noSuchFile => "No such file or directory (os error 2)"
  | notDirectory => "Not a directory (os error 20)"
  | isDirectory => "Is a directory (os error 21)"
  | nameTooLong => "File name too long (os error 36)"
  | nulInPath => "file name contained an unexpected NUL byte"
  | noSpace => "No space left on device (os error 28)"

/-- What is wrong with a header whose checksum may be right. -/
inductive HeaderFlaw where
  | tooLarge (length : Nat)
  | implausibleLength (length : Nat)
  | entryPastHeader
  | notUtf8
  | unexpectedBytes (count : Nat)
  deriving DecidableEq

/-- The wording of a header flaw. -/
def HeaderFlaw.message : HeaderFlaw → String
  | tooLarge length => s!"header too large: {length} bytes"
  | implausibleLength length => s!"implausible header length {length}"
  | entryPastHeader => "metadata entry runs past the header"
  | notUtf8 => "metadata is not UTF-8"
  | unexpectedBytes count => s!"{count} unexpected bytes after metadata"

/-- What is wrong at a place among the records. -/
inductive RecordFlaw where
  | notARecord (byte : UInt8)
  | withoutUcn
  | varintOverflow
  | unknownTag (tag : UInt8) (version : Nat)
  | junctionOutsideAtom
  | repeatedKey (key : Nat)
  | valueTooLong (length : Nat)
  | notUtf8
  | notAtEnd (byte : UInt8)
  | overrunsRecord (next : Nat)
  | hostedOutsideRecords (length : Nat)
  | hostedOutsideFile (length : Nat)
  | cutIntoHeader
  deriving DecidableEq

/-- A byte as two lower-case hexadecimal digits. -/
def byteDigits (byte : UInt8) : List Char :=
  [Nat.digitChar (byte.toNat / 16), Nat.digitChar (byte.toNat % 16)]

/-- A byte as it is written in messages. -/
def byteText (byte : UInt8) : String := String.ofList ('0' :: 'x' :: byteDigits byte)

/-- The wording of a record flaw. -/
def RecordFlaw.message : RecordFlaw → String
  | notARecord byte => s!"expected expansion marker, found {byteText byte}"
  | withoutUcn => "record without a UCN"
  | varintOverflow => "varint overflows u64"
  | unknownTag tag version => s!"unknown value tag {byteText tag} for format v{version}"
  | junctionOutsideAtom => "junction outside of an atom"
  | repeatedKey key => s!"junction key {key} repeated"
  | valueTooLong length => s!"value length {length} too large"
  | notUtf8 => "string value is not UTF-8"
  | notAtEnd byte => s!"expected end-of-record marker, found {byteText byte}"
  | overrunsRecord next => s!"record runs past EOF but an intact record starts at {next}"
  | hostedOutsideRecords length => s!"hosted payload of {length} bytes lies outside the records"
  | hostedOutsideFile length => s!"hosted payload of {length} bytes lies outside the file"
  | cutIntoHeader => "cannot truncate into the header"

end AtomStore.Log

namespace AtomStore

/-- Why a data file cannot be read or written. -/
inductive LogError where
  | io (failure : Log.IoFailure)
  | badMagic
  | unsupportedVersion (version : Nat)
  | headerChecksum
  | corruptHeader (flaw : Log.HeaderFlaw)
  | recordChecksum (offset : Nat)
  | corrupt (offset : Nat) (flaw : Log.RecordFlaw)
  | truncated (offset : Nat)
  | ucnOutOfOrder (offset ucn expected : Nat)
  | duplicateAtom (id offset : Nat)
  | alreadyExists (path : String)
  | readOnly
  deriving DecidableEq

/-- The wording of a data file failure. -/
def LogError.message : LogError → String
  | io failure => s!"io error: {failure.message}"
  | badMagic => "not an atom data file (bad magic)"
  | unsupportedVersion version => s!"unsupported format version {version} (supported 1..=2)"
  | headerChecksum => "header checksum mismatch"
  | corruptHeader flaw => s!"corrupt header: {flaw.message}"
  | recordChecksum offset => s!"checksum mismatch in record at offset {offset}"
  | corrupt offset flaw => s!"corrupt record at offset {offset}: {flaw.message}"
  | truncated offset => s!"record at offset {offset} is truncated"
  | ucnOutOfOrder offset ucn expected =>
    s!"record at offset {offset} has UCN {ucn}, expected at least {expected}"
  | duplicateAtom id offset => s!"atom {id} stored twice (record at offset {offset})"
  | alreadyExists path => s!"file already exists: {path}"
  | readOnly => "file was opened read-only"

/-- The causes of a data file failure from the outermost to the innermost. -/
def LogError.causes : LogError → List String
  | io failure => [(LogError.io failure).message, failure.message]
  | error => [error.message]

end AtomStore
