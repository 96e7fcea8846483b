import AtomStore.Proofs.Log.Layout

/-!
# Torn records

A record is torn when only some of its first bytes are there. Behind whole records it ends a scan,
and what the reader makes of it depends on whether some later byte of it starts a whole record: the
bytes of a record can be any, so they can hold the written form of another one.
-/

namespace AtomStore.Log

variable {version : Version}

/-- Whether a whole record is at a place inside bytes of which the first is at a position. -/
def HoldsRecord (version : Version) (position : Nat) (bytes : Bytes) (place : Nat) : Prop :=
  ∃ front rest, bytes = front ++ recordMark :: rest ∧ place = position + front.length ∧
    ((Reader.behindMark rest place).record version place).isOk = true

/-- No bytes hold no record. -/
theorem not_holdsRecord_nil (position place : Nat) : ¬ HoldsRecord version position [] place := by
  intro given
  obtain ⟨front, rest, split, _⟩ := given
  exact List.append_ne_nil_of_right_ne_nil front (List.cons_ne_nil recordMark rest) split.symm

/-- Bytes hold records from their own place on. -/
theorem HoldsRecord.le {position place : Nat} {bytes : Bytes}
    (holds : HoldsRecord version position bytes place) : position ≤ place := by
  obtain ⟨front, _, _, rfl, _⟩ := holds
  exact Nat.le_add_right position front.length

/-- Bytes hold a record at their first byte or behind it. -/
theorem holdsRecord_cons {position place : Nat} {first : UInt8} {rest : Bytes} :
    HoldsRecord version position (first :: rest) place ↔
      (first = recordMark ∧ place = position ∧
        ((Reader.behindMark rest position).record version position).isOk = true) ∨
      HoldsRecord version (position + 1) rest place := by
  constructor
  · intro given
    obtain ⟨front, behind, split, rfl, read⟩ := given
    cases front with
    | nil =>
      obtain ⟨rfl, rfl⟩ := List.cons.inj split
      exact .inl ⟨rfl, rfl, read⟩
    | cons head later =>
      obtain ⟨rfl, rfl⟩ := List.cons.inj split
      refine .inr ⟨later, behind, rfl, ?_, read⟩
      rw [List.length_cons]
      omega
  · rintro (⟨rfl, rfl, read⟩ | ⟨front, behind, rfl, rfl, read⟩)
    · exact ⟨[], rest, rfl, rfl, read⟩
    · refine ⟨first :: front, behind, rfl, ?_, read⟩
      rw [List.length_cons]
      omega

/-- No whole record is found just when the bytes hold none. -/
theorem wholeRecord?_eq_none_iff {position : Nat} {bytes : Bytes} :
    wholeRecord? version position bytes = none ↔
      ∀ place, ¬ HoldsRecord version position bytes place := by
  induction bytes generalizing position with
  | nil => exact iff_of_true rfl (not_holdsRecord_nil position)
  | cons first rest ih =>
    rw [wholeRecord?]
    simp only [holdsRecord_cons, not_or]
    split
    · rename_i here
      refine iff_of_false nofun fun absent => ?_
      exact (absent position).1 ⟨here.1, rfl, here.2⟩
    · rename_i absent
      rw [ih]
      refine forall_congr' fun place => (and_iff_right fun here => ?_).symm
      exact absent ⟨here.1, here.2.2⟩

/-- Whether bytes are the first ones of a record that goes on behind them. -/
def StoredRecord.Torn (record : StoredRecord) (fragment : Bytes) : Prop :=
  fragment ≠ [] ∧ ∃ missing, missing ≠ [] ∧ record.bytes = fragment ++ missing

/-- A scan of records with nothing or a torn record behind them finds the whole ones. -/
theorem scan_torn {records : List StoredRecord} (fitting : Fitting version (records.map .record))
    {fragment : Bytes}
    (torn : fragment = [] ∨ ∃ record : StoredRecord, record.Fits version ∧ record.Torn fragment)
    (start : Nat) :
    scan version start (records.flatMap StoredRecord.bytes ++ fragment) =
      ⟨placedRecords start (records.map .record),
        if fragment = [] then .ok (start + (records.flatMap StoredRecord.bytes).length)
        else .error (.truncated (start + (records.flatMap StoredRecord.bytes).length))⟩ := by
  rw [scan, ← flatMap_bytes_map_record, scanFrom_layout fitting, lastEnd_map_record,
    flatMap_bytes_map_record]
  rcases torn with rfl | ⟨record, fits, some, missing, left, split⟩
  · rw [scanFrom_nil, List.append_nil, if_pos rfl]
  · rw [scanFrom_cut fits split some left, List.append_nil, if_neg some]

end AtomStore.Log
