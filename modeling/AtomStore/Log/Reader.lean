import AtomStore.Checksum
import AtomStore.Log.Format
import AtomStore.Log.Varint

/-!
# Reading bytes in sequence

A reader holds the bytes still to come, the position of the first of them in the data file, and the
checksum register over the bytes taken since the register was last started. Every reading step
either fails or leaves a reader further on.
-/

namespace AtomStore.Log

/-- Why a record cannot be read, before its offset is known. -/
inductive ReadFault where
  /-- The bytes ended inside the record. -/
  | ended
  | checksum
  | flaw (wrong : RecordFlaw)
  deriving DecidableEq

/-- The failure of reading the record at an offset. -/
def ReadFault.at (offset : Nat) : ReadFault → LogError
  | ended => .truncated offset
  | checksum => .recordChecksum offset
  | flaw wrong => .corrupt offset wrong

/-- Bytes being read, with their position and the checksum register. -/
structure Reader where
  rest : Bytes
  position : Nat
  register : UInt32
  deriving DecidableEq

namespace Reader

/-- Takes one byte. -/
def byte (reader : Reader) : Except ReadFault (UInt8 × Reader) :=
  match reader.rest with
  | [] => .error .ended
  | first :: rest =>
    .ok (first, ⟨rest, reader.position + 1, Checksum.update reader.register first⟩)

/-- Takes a run of bytes. -/
def run (reader : Reader) (count : Nat) : Except ReadFault (Bytes × Reader) :=
  let taken := reader.rest.take count
  if taken.length < count then .error .ended
  else
    .ok (taken, ⟨reader.rest.drop count, reader.position + count,
      Checksum.updateAll reader.register taken⟩)

/-- The most bytes that skipping holds at a time. -/
def chunkLength : Nat := 8192

/-- Passes over a run of bytes, chunk by chunk, without keeping them. -/
def skip (reader : Reader) (count : Nat) : Except ReadFault Reader :=
  if count = 0 then .ok reader
  else
    match reader.run (min count chunkLength) with
    | .error fault => .error fault
    | .ok (_, next) => next.skip (count - min count chunkLength)
  termination_by count
  decreasing_by
    simp only [chunkLength]
    omega

/-- Takes a number whose first digit may be followed by `room` more; the last one that fits into
64 bits has a single bit. -/
def digits (reader : Reader) : (room : Nat) → Except ReadFault (Nat × Reader)
  | 0 =>
    match reader.byte with
    | .error fault => .error fault
    | .ok (last, next) =>
      if last.toNat ≤ 1 then .ok (last.toNat, next) else .error (.flaw .varintOverflow)
  | room + 1 =>
    match reader.byte with
    | .error fault => .error fault
    | .ok (low, next) =>
      if low.toNat < 128 then .ok (low.toNat, next)
      else
        match next.digits room with
        | .error fault => .error fault
        | .ok (high, last) => .ok (low.toNat - 128 + 128 * high, last)

/-- Takes a variable-length number of at most ten bytes. -/
def varint (reader : Reader) : Except ReadFault (Nat × Reader) := reader.digits 9

/-- Takes the length of a value. -/
def valueLength (reader : Reader) : Except ReadFault (Nat × Reader) :=
  match reader.varint with
  | .error fault => .error fault
  | .ok (length, next) =>
    if maxValueLength < length then .error (.flaw (.valueTooLong length)) else .ok (length, next)

/-- Taking a byte leaves one byte fewer. -/
theorem length_byte {reader next : Reader} {taken : UInt8}
    (read : reader.byte = .ok (taken, next)) : next.rest.length + 1 = reader.rest.length := by
  unfold byte at read
  split at read
  · cases read
  · rename_i found
    cases read
    rw [found, List.length_cons]

/-- Taking a run leaves that many bytes fewer. -/
theorem length_run {reader next : Reader} {count : Nat} {taken : Bytes}
    (read : reader.run count = .ok (taken, next)) :
    next.rest.length + count = reader.rest.length := by
  unfold run at read
  simp only at read
  split at read
  · cases read
  · rename_i enough
    cases read
    rw [List.length_take] at enough
    rw [List.length_drop]
    omega

/-- Passing over a run leaves that many bytes fewer. -/
theorem length_skip {reader next : Reader} {count : Nat} (read : reader.skip count = .ok next) :
    next.rest.length + count = reader.rest.length := by
  fun_induction skip reader count with
  | case1 reader =>
    cases read
    rfl
  | case2 => cases read
  | case3 reader count nonzero taken next' ran ih =>
    have first := length_run ran
    have later := ih read
    omega

/-- Taking a number leaves fewer bytes. -/
theorem length_digits {reader next : Reader} {room number : Nat}
    (read : reader.digits room = .ok (number, next)) :
    next.rest.length < reader.rest.length := by
  induction room generalizing reader number next with
  | zero =>
    unfold digits at read
    split at read
    · cases read
    · rename_i taken
      split at read
      · cases read
        have := length_byte taken
        omega
      · cases read
  | succ room ih =>
    unfold digits at read
    split at read
    · cases read
    · rename_i taken
      have first := length_byte taken
      split at read
      · cases read
        omega
      · split at read
        · cases read
        · rename_i higher
          have later := ih higher
          cases read
          omega

/-- Taking a variable-length number leaves fewer bytes. -/
theorem length_varint {reader next : Reader} {number : Nat}
    (read : reader.varint = .ok (number, next)) : next.rest.length < reader.rest.length :=
  length_digits read

/-- Taking the length of a value leaves fewer bytes. -/
theorem length_valueLength {reader next : Reader} {length : Nat}
    (read : reader.valueLength = .ok (length, next)) :
    next.rest.length < reader.rest.length := by
  unfold valueLength at read
  split at read
  · cases read
  · rename_i taken
    split at read
    · cases read
    · cases read
      exact length_varint taken

end Reader
end AtomStore.Log
