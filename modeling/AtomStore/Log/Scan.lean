import AtomStore.Log.Record

/-!
# Scanning a run of records

A scan takes records one after the other, passing over pad bytes between them, until the bytes end
or something is found that is no record. It keeps the records before that and how it ended. Records
are then fed to a consumer in order, which may refuse one and so end the replay there.
-/

namespace AtomStore.Log

/-- The records found in sequence, and the end of the last of them or what stopped the scan. -/
structure Scan where
  records : List Record
  outcome : Except LogError Nat

/-- Scans bytes that start at a position, when the last record before them ended at `last`. -/
def scanFrom (version : Version) (last position : Nat) : Bytes → Scan
  | [] => ⟨[], .ok last⟩
  | mark :: rest =>
    if mark = padByte then scanFrom version last (position + 1) rest
    else if mark = recordMark then
      match _ : (Reader.behindMark rest position).record version position with
      | .error fault => ⟨[], .error (fault.at position)⟩
      | .ok (record, next) =>
        let later := scanFrom version next.position next.position next.rest
        ⟨record :: later.records, later.outcome⟩
    else ⟨[], .error (.corrupt position (.notARecord mark))⟩
  termination_by bytes => bytes.length
  decreasing_by
    · simp
    · have := Reader.length_record ‹_›
      simp only [Reader.behindMark] at this
      simp only [List.length_cons]
      omega

/-- Scans bytes of which the first is at a position. -/
def scan (version : Version) (start : Nat) (bytes : Bytes) : Scan :=
  scanFrom version start start bytes

/-- The position of the first whole record that starts somewhere in bytes at a position. -/
def wholeRecord? (version : Version) (position : Nat) : Bytes → Option Nat
  | [] => none
  | mark :: rest =>
    if mark = recordMark ∧
        ((Reader.behindMark rest position).record version position).isOk then
      some position
    else wholeRecord? version (position + 1) rest

/-- What a replay has done: records and atoms taken, and the end of the last record. -/
structure Summary where
  records : Nat
  atoms : Nat
  endOffset : Nat
  deriving DecidableEq, Inhabited

/-- Feeds records to a consumer until it refuses one. Gives the consumer's state, the numbers of
records and atoms handed over (a refused record included), and the refusal if there was one. -/
def feed {σ : Type} (consume : σ → Record → σ × Option LogError) (state : σ)
    (records atoms : Nat) : List Record → σ × Nat × Nat × Option LogError
  | [] => (state, records, atoms, none)
  | record :: rest =>
    match consume state record with
    | (next, some refusal) =>
      (next, records + 1, atoms + record.atoms.length, some refusal)
    | (next, none) => feed consume next (records + 1) (atoms + record.atoms.length) rest

/-- Hands the records of a scan to a consumer. A refusal ends the replay before anything that the
scan met later. -/
def Scan.deliver {σ : Type} (scan : Scan) (consume : σ → Record → σ × Option LogError)
    (state : σ) : σ × Nat × Nat × Except LogError Summary :=
  match feed consume state 0 0 scan.records with
  | (last, records, atoms, some refusal) => (last, records, atoms, .error refusal)
  | (last, records, atoms, none) =>
    (last, records, atoms, scan.outcome.map fun endOffset => ⟨records, atoms, endOffset⟩)

end AtomStore.Log
