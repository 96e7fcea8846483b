import AtomStore.Proofs.Log.Layout
import AtomStore.Proofs.Log.Parsing

/-!
# What a replay hands over

Any bytes split in one way into pieces of the grammar and a rest with which no piece begins. A scan
passes over just these pieces: it comes to the end of the bytes when there is no rest, and else its
failure names the offset of the rest. So a replay succeeds just on the sequences of pieces, and
always hands over the records among the pieces in front of where it ended.
-/

namespace AtomStore.Log
namespace Grammar

variable {τ α : Type} {version : Version} {position : Nat} {bytes rest : Bytes}

/-- Bytes as pieces of the grammar and a rest with which no piece begins. -/
structure Splits (bytes : Bytes) (pieces : List (Piece version)) (rest : Bytes) : Prop where
  shape : bytes = pieces.flatMap Piece.bytes ++ rest
  barred : Barred (Piece.bytes : Piece version → Bytes) rest

/-- A split without a rest is a sequence of pieces. -/
theorem splits_nil_iff {pieces : List (Piece version)} :
    Splits bytes pieces [] ↔ bytes = pieces.flatMap Piece.bytes := by
  constructor
  · intro splits
    rw [splits.shape, List.append_nil]
  · intro shape
    refine ⟨by rw [shape, List.append_nil], ?_⟩
    intro piece tail clash
    cases piece <;> cases clash

/-- A piece may be put in front of a split. -/
theorem Splits.cons {pieces : List (Piece version)} (splits : Splits bytes pieces rest)
    (piece : Piece version) : Splits (piece.bytes ++ bytes) (piece :: pieces) rest := by
  refine ⟨?_, splits.barred⟩
  rw [splits.shape, List.flatMap_cons, List.append_assoc]

/-- A byte that is neither a pad byte nor the mark of a record begins no piece. -/
theorem barred_of_ne {mark : UInt8} (noPad : mark ≠ padByte) (noRecord : mark ≠ recordMark) :
    Barred (Piece.bytes : Piece version → Bytes) (mark :: rest) := by
  intro piece tail same
  cases piece with
  | pad => exact noPad (List.cons.inj same).1
  | record found => exact noRecord (List.cons.inj same).1

/-- A mark behind which no record is read begins no piece. -/
theorem barred_of_fault {fault : ReadFault}
    (failed : (Reader.behindMark rest position).record version position = .error fault) :
    Barred (Piece.bytes : Piece version → Bytes) (recordMark :: rest) := by
  intro piece tail same
  cases piece with
  | pad =>
    obtain ⟨clash, _⟩ := List.cons.inj same
    cases clash
  | record found =>
    rw [record_eq_ok_iff.mpr ⟨found, tail, same, rfl, rfl⟩] at failed
    cases failed

/-- How a scan ends behind pieces with some rest. -/
def Ends (last position : Nat) (pieces : List (Piece version)) (rest : Bytes)
    (outcome : Except LogError Nat) : Prop :=
  (rest = [] ∧ outcome = .ok (Piece.ends last position pieces)) ∨
    rest ≠ [] ∧ ∃ fault : ReadFault,
      outcome = .error (fault.at (position + (pieces.flatMap Piece.bytes).length))

/-- A scan that passes a piece ends where the scan of what is behind it does. -/
theorem Ends.cons {before last : Nat} {pieces : List (Piece version)} {piece : Piece version}
    {outcome : Except LogError Nat}
    (ends : Ends before (position + piece.bytes.length) pieces rest outcome)
    (same : Piece.ends before (position + piece.bytes.length) pieces =
      Piece.ends last position (piece :: pieces)) :
    Ends last position (piece :: pieces) rest outcome := by
  rcases ends with ⟨none, reached⟩ | ⟨some, fault, failed⟩
  · exact .inl ⟨none, by rw [reached, same]⟩
  · refine .inr ⟨some, fault, ?_⟩
    rw [failed, List.flatMap_cons, List.length_append, Nat.add_assoc]

/-- A scan passes over the pieces that its bytes begin with and no more. -/
theorem exists_splits (version : Version) (last position : Nat) (bytes : Bytes) :
    ∃ (pieces : List (Piece version)) (rest : Bytes), Splits bytes pieces rest ∧
      (scanFrom version last position bytes).records = Piece.records position pieces ∧
      Ends last position pieces rest (scanFrom version last position bytes).outcome := by
  induction count : bytes.length using Nat.strongRecOn generalizing bytes position last with
  | ind count ih =>
    subst count
    cases bytes with
    | nil =>
      rw [scanFrom_nil]
      exact ⟨[], [], splits_nil_iff.mpr rfl, rfl, .inl ⟨rfl, rfl⟩⟩
    | cons mark rest =>
      by_cases pad : mark = padByte
      · subst pad
        rw [scanFrom, if_pos rfl]
        obtain ⟨pieces, behind, splits, records, ends⟩ :=
          ih rest.length (Nat.lt_succ_self _) last (position + 1) rest rfl
        exact ⟨.pad :: pieces, behind, splits.cons .pad, records, ends.cons rfl⟩
      · by_cases begins : mark = recordMark
        · subst begins
          rw [scanFrom_mark]
          cases read : (Reader.behindMark rest position).record version position with
          | error fault =>
            exact ⟨[], recordMark :: rest, ⟨rfl, barred_of_fault read⟩, rfl,
              .inr ⟨List.cons_ne_nil _ _, fault, rfl⟩⟩
          | ok found =>
            obtain ⟨record, next⟩ := found
            have fewer : next.rest.length < (recordMark :: rest).length :=
              Nat.lt_succ_of_lt (Reader.length_record read)
            obtain ⟨tree, tail, shape, rfl, rfl⟩ := record_eq_ok_iff.mp read
            obtain ⟨pieces, behind, splits, records, ends⟩ := ih _ fewer
              (position + tree.bytes.length) (position + tree.bytes.length) tail rfl
            rw [shape]
            refine ⟨.record tree :: pieces, behind, splits.cons (.record tree), ?_, ends.cons rfl⟩
            exact congrArg (List.cons _) records
        · rw [scanFrom, if_neg pad, if_neg begins]
          exact ⟨[], mark :: rest, ⟨rfl, barred_of_ne pad begins⟩, rfl,
            .inr ⟨List.cons_ne_nil _ _, .flaw (.notARecord mark), rfl⟩⟩

/-- Where records split, the pieces that hold them do. -/
theorem exists_of_records_eq_append {pieces : List (Piece version)}
    {earlier later : List Log.Record} {record : Log.Record}
    (split : Piece.records position pieces = earlier ++ record :: later) :
    ∃ front tree back, pieces = front ++ .record tree :: back ∧
      earlier = Piece.records position front ∧
      record = tree.placed (position + (front.flatMap Piece.bytes).length) := by
  induction pieces generalizing position earlier with
  | nil => cases List.append_ne_nil_of_right_ne_nil _ (List.cons_ne_nil _ _) split.symm
  | cons piece rest ih =>
    cases piece with
    | pad =>
      obtain ⟨front, tree, back, rfl, rfl, rfl⟩ := ih split
      refine ⟨.pad :: front, tree, back, rfl, rfl, ?_⟩
      rw [List.flatMap_cons, List.length_append, Nat.add_assoc]
      rfl
    | record found =>
      cases earlier with
      | nil =>
        obtain ⟨rfl, _⟩ := List.cons.inj split
        exact ⟨[], found, rest, rfl, rfl, rfl⟩
      | cons first others =>
        obtain ⟨rfl, onward⟩ := List.cons.inj split
        obtain ⟨front, tree, back, rfl, rfl, rfl⟩ := ih onward
        refine ⟨.record found :: front, tree, back, rfl, rfl, ?_⟩
        rw [List.flatMap_cons, List.length_append, Nat.add_assoc]
        rfl

/-- A record among pieces is one of them, at the place behind the pieces in front of it. -/
theorem exists_of_mem_records {pieces : List (Piece version)} {found : Log.Record}
    (member : found ∈ Piece.records position pieces) :
    ∃ front tree back, pieces = front ++ .record tree :: back ∧
      found = tree.placed (position + (front.flatMap Piece.bytes).length) := by
  obtain ⟨earlier, later, split⟩ := List.append_of_mem member
  obtain ⟨front, tree, back, shape, _, placed⟩ := exists_of_records_eq_append split
  exact ⟨front, tree, back, shape, placed⟩

/-- Whether bytes from a position on hold, at a place, a payload behind its length. -/
def Covers (start : Nat) (bytes : Bytes) (offset length : Nat) : Prop :=
  ∃ (front : Bytes) (run : Run) (back : Bytes), bytes = front ++ (run.bytes ++ back) ∧
    offset = start + (front ++ run.length.bytes).length ∧ length = run.payload.length

namespace Covers

variable {start offset length : Nat}

/-- What some bytes cover, bytes around them cover. -/
theorem within {front : Bytes} (covers : Covers (start + front.length) bytes offset length)
    (back : Bytes) : Covers start (front ++ (bytes ++ back)) offset length := by
  obtain ⟨before, run, behind, rfl, rfl, rfl⟩ := covers
  refine ⟨front ++ before, run, behind ++ back, ?_, ?_, rfl⟩
  · simp only [List.append_assoc]
  · simp only [List.length_append, Nat.add_assoc]

end Covers

variable {σ : Type} {consume : σ → Log.Record → σ × Option LogError}

/-- The number one in two digits, which is one more than it needs. -/
def longOne : Numeral where
  leading := [0x81]
  last := 0x00
  marked := List.forall_mem_singleton.mpr (by decide)
  unmarked := by decide
  short := by decide
  bounded := by decide

/-- A pad byte and a record without atoms, of which the UCN is not in its shortest form. -/
def paddedOne : List (Piece .two) :=
  [.pad, .record { number := longOne, counted := by decide, atoms := [] }]

/-- A record with a hosted byte, which is like the tag of hosted values. -/
def hostedOne : Record .two where
  number := longOne
  counted := Nat.one_pos
  atoms := [{
    number := longOne
    junctions := [{
      kind := .hosted
      allowed := fun _ => rfl
      number := longOne
      value := .hosted ⟨longOne, [ValueKind.hosted.tag], rfl, Nat.le_of_ble_eq_true rfl⟩ }]
    distinct := List.pairwise_singleton _ _ }]

/-- The bytes of the record, of which the four in front of the last are its checksum. -/
theorem bytes_hostedOne :
    hostedOne.bytes = [0xE5, 0x81, 0x00, 0xA1, 0x81, 0x00, 0x04, 0x81, 0x00, 0x81, 0x00, 0x04,
      0xEA, 0xE6, 0xA0, 0xE1, 0x20, 0xED] := by
  decide +kernel

end Grammar
end AtomStore.Log
