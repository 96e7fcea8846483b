import AtomStore.Log.Scan
import AtomStore.Proofs.Log.Stability

/-!
# Layouts

Behind its header a data file is laid out in chunks: records, and runs of pad bytes. A scan of a
layout finds its records in order, each at the offset at which it was written, and the end of the
last one. A scan of a layout whose last record is cut finds the records before it and a record that
runs out of bytes.
-/

namespace AtomStore.Log

/-- A record, or a run of pad bytes. -/
inductive Chunk where
  | record (record : StoredRecord)
  | pad (count : Nat)

namespace Chunk

def bytes : Chunk → Bytes
  | record written => written.bytes
  | pad count => List.replicate count padByte

def record? : Chunk → Option StoredRecord
  | record written => some written
  | pad _ => none

end Chunk

/-- The records found in chunks of which the first is at a position. -/
def placedRecords (position : Nat) : List Chunk → List Record
  | [] => []
  | .record written :: rest =>
    written.placed position :: placedRecords (position + written.bytes.length) rest
  | .pad count :: rest => placedRecords (position + count) rest

/-- The end of the last record in chunks of which the first is at a position, when the last record
before them ended at `last`. -/
def lastEnd (last position : Nat) : List Chunk → Nat
  | [] => last
  | .record written :: rest =>
    lastEnd (position + written.bytes.length) (position + written.bytes.length) rest
  | .pad count :: rest => lastEnd last (position + count) rest

def Fitting (version : Version) (chunks : List Chunk) : Prop :=
  ∀ record ∈ chunks.filterMap Chunk.record?, record.Fits version

variable {version : Version}

/-- Two lists of chunks fit together when each of them does. -/
theorem fitting_append {front back : List Chunk} :
    Fitting version (front ++ back) ↔ Fitting version front ∧ Fitting version back := by
  rw [Fitting, List.filterMap_append]
  exact List.forall_mem_append

theorem scanFrom_nil (last position : Nat) :
    scanFrom version last position [] = ⟨[], .ok last⟩ := by
  rw [scanFrom]

/-- At a mark a scan reads a record, and goes on behind it if there is one. -/
theorem scanFrom_mark (last position : Nat) (rest : Bytes) :
    scanFrom version last position (recordMark :: rest) =
      match (Reader.behindMark rest position).record version position with
      | .error fault => ⟨[], .error (fault.at position)⟩
      | .ok (record, next) =>
        ⟨record :: (scanFrom version next.position next.position next.rest).records,
          (scanFrom version next.position next.position next.rest).outcome⟩ := by
  have unlike : recordMark ≠ padByte := by decide
  rw [scanFrom, if_neg unlike, if_pos rfl]
  split <;> rename_i read <;> rw [read]

/-- A scan passes over pad bytes. -/
theorem scanFrom_pad (last position count : Nat) (rest : Bytes) :
    scanFrom version last position (List.replicate count padByte ++ rest) =
      scanFrom version last (position + count) rest := by
  induction count generalizing position with
  | zero => rfl
  | succ count ih =>
    rw [List.replicate_succ, List.cons_append, scanFrom, if_pos rfl, ih]
    congr 1
    omega

/-- A scan of pad bytes alone finds nothing and ends without a fault. -/
theorem scanFrom_replicate (last position count : Nat) :
    scanFrom version last position (List.replicate count padByte) = ⟨[], .ok last⟩ := by
  rw [← List.append_nil (List.replicate count padByte), scanFrom_pad, scanFrom_nil]

/-- A scan finds a record that was written, and goes on behind it. -/
theorem scanFrom_record {record : StoredRecord} (fits : record.Fits version)
    (last position : Nat) (rest : Bytes) :
    scanFrom version last position (record.bytes ++ rest) =
      ⟨record.placed position ::
          (scanFrom version (position + record.bytes.length) (position + record.bytes.length)
            rest).records,
        (scanFrom version (position + record.bytes.length) (position + record.bytes.length)
          rest).outcome⟩ := by
  obtain ⟨behind, shape, read⟩ := Reader.record_of_rest fits position rest
  have first : record.bytes ++ rest = recordMark :: (behind ++ rest) := by
    rw [shape, List.cons_append]
  rw [first, scanFrom_mark, read]
  rfl

/-- A scan of a layout finds its records and goes on behind it. -/
theorem scanFrom_layout {chunks : List Chunk} (fitting : Fitting version chunks)
    (last position : Nat) (rest : Bytes) :
    scanFrom version last position (chunks.flatMap Chunk.bytes ++ rest) =
      ⟨placedRecords position chunks ++
          (scanFrom version (lastEnd last position chunks)
            (position + (chunks.flatMap Chunk.bytes).length) rest).records,
        (scanFrom version (lastEnd last position chunks)
          (position + (chunks.flatMap Chunk.bytes).length) rest).outcome⟩ := by
  induction chunks generalizing last position with
  | nil => rfl
  | cons chunk later ih =>
    cases chunk with
    | record written =>
      have fits : written.Fits version := fitting written List.mem_cons_self
      have others : Fitting version later := fun record member =>
        fitting record (List.mem_cons_of_mem _ member)
      rw [List.flatMap_cons, Chunk.bytes, List.append_assoc, scanFrom_record fits, ih others]
      simp only [placedRecords, lastEnd, List.length_append, List.cons_append, Nat.add_assoc]
    | pad count =>
      rw [List.flatMap_cons, Chunk.bytes, List.append_assoc, scanFrom_pad, ih fitting]
      simp only [placedRecords, lastEnd, List.length_append, List.length_replicate, Nat.add_assoc]

/-- A scan of a layout with pad bytes behind it finds its records and the end of the last one. -/
theorem scan_layout {chunks : List Chunk} (fitting : Fitting version chunks)
    (start trailing : Nat) :
    scan version start (chunks.flatMap Chunk.bytes ++ List.replicate trailing padByte) =
      ⟨placedRecords start chunks, .ok (lastEnd start start chunks)⟩ := by
  rw [scan, scanFrom_layout fitting, scanFrom_replicate, List.append_nil]

/-- A written record of which some bytes are missing runs out of bytes. -/
theorem scanFrom_cut {record : StoredRecord} (fits : record.Fits version) {front back : Bytes}
    (split : record.bytes = front ++ back) (some : front ≠ []) (missing : back ≠ [])
    (last position : Nat) :
    scanFrom version last position front = ⟨[], .error (.truncated position)⟩ := by
  obtain ⟨behind, shape, read⟩ := Reader.record_of_rest fits position []
  obtain ⟨first, inside, rfl⟩ := List.exists_cons_of_ne_nil some
  rw [split, List.cons_append] at shape
  obtain ⟨rfl, rfl⟩ := List.cons.inj shape
  rw [List.append_nil, Reader.behindMark] at read
  have short : (0 : Nat) < back.length := List.length_pos_of_ne_nil missing
  rw [scanFrom_mark, Reader.behindMark, (Reader.sequential_record position).cut read short]
  rfl

/-- A replay that succeeds ends where the scan has ended. -/
theorem Scan.outcome_of_deliver {σ : Type} {scan : Scan}
    {consume : σ → Record → σ × Option LogError} {state final : σ} {records atoms : Nat}
    {summary : Summary} (delivered : scan.deliver consume state =
      (final, records, atoms, .ok summary)) : scan.outcome = .ok summary.endOffset := by
  unfold deliver at delivered
  split at delivered
  · cases delivered
  · cases outcome : scan.outcome with
    | error failure =>
      rw [outcome] at delivered
      cases delivered
    | ok endOffset =>
      rw [outcome] at delivered
      cases delivered
      rfl

/-- A consumer that accepts everything takes in all records. -/
theorem feed_of_accepting {σ : Type} {consume : σ → Record → σ × Option LogError}
    {step : σ → Record → σ} (accepting : ∀ state record, consume state record =
      (step state record, none)) (state : σ) (taken held : Nat) (records : List Record) :
    feed consume state taken held records =
      (records.foldl step state, taken + records.length,
        held + (records.map fun record => record.atoms.length).sum, none) := by
  induction records generalizing state taken held with
  | nil => rfl
  | cons record rest ih =>
    rw [feed, accepting]
    simp only [ih, List.foldl_cons, List.length_cons, List.map_cons, List.sum_cons, Nat.add_assoc,
      Nat.add_comm 1]

/-- A record of a layout is one that was written, at some place. -/
theorem mem_placedRecords {position : Nat} {chunks : List Chunk} {record : Record}
    (member : record ∈ placedRecords position chunks) :
    ∃ written ∈ chunks.filterMap Chunk.record?, ∃ start, record = written.placed start := by
  induction chunks generalizing position with
  | nil => cases member
  | cons chunk later ih =>
    cases chunk with
    | record written =>
      rcases List.mem_cons.mp member with same | others
      · exact ⟨written, List.mem_cons_self, position, same⟩
      · obtain ⟨found, inside, placed⟩ := ih others
        exact ⟨found, List.mem_cons_of_mem _ inside, placed⟩
    | pad count => exact ih member

/-- The last record of a layout ends where its bytes do. -/
theorem lastEnd_record (last position : Nat) (chunks : List Chunk) (record : StoredRecord) :
    lastEnd last position (chunks ++ [.record record]) =
      position + ((chunks ++ [Chunk.record record]).flatMap Chunk.bytes).length := by
  induction chunks generalizing last position with
  | nil =>
    simp only [List.nil_append, lastEnd, List.flatMap_cons, List.flatMap_nil, List.append_nil,
      Chunk.bytes]
  | cons chunk later ih =>
    cases chunk with
    | record written =>
      simp only [List.cons_append, lastEnd, ih, List.flatMap_cons, List.length_append, Chunk.bytes,
        Nat.add_assoc]
    | pad count =>
      simp only [List.cons_append, lastEnd, ih, List.flatMap_cons, List.length_append, Chunk.bytes,
        List.length_replicate, Nat.add_assoc]

/-- Padding does not move the end of the last record. -/
theorem lastEnd_pad (last position : Nat) (chunks : List Chunk) (count : Nat) :
    lastEnd last position (chunks ++ [.pad count]) = lastEnd last position chunks := by
  induction chunks generalizing last position with
  | nil => rfl
  | cons chunk later ih =>
    cases chunk with
    | record written => exact ih ..
    | pad count => exact ih ..

/-- The chunks up to the last record hold all records, and only pad bytes follow them. -/
theorem exists_lastEnd (chunks : List Chunk) (last position : Nat) :
    ∃ front padding, chunks.flatMap Chunk.bytes =
        front.flatMap Chunk.bytes ++ List.replicate padding padByte ∧
      front.filterMap Chunk.record? = chunks.filterMap Chunk.record? ∧
      lastEnd last position front = lastEnd last position chunks ∧
      lastEnd last position chunks =
        if front = [] then last else position + (front.flatMap Chunk.bytes).length := by
  induction chunks generalizing last position with
  | nil => exact ⟨[], 0, rfl, rfl, rfl, rfl⟩
  | cons chunk later ih =>
    cases chunk with
    | record written =>
      obtain ⟨front, padding, bytes, records, same, ends⟩ :=
        ih (position + written.bytes.length) (position + written.bytes.length)
      refine ⟨.record written :: front, padding, ?_, ?_, same, ?_⟩
      · rw [List.flatMap_cons, bytes, List.flatMap_cons, List.append_assoc]
      · simp only [List.filterMap_cons, Chunk.record?, records]
      · rw [lastEnd, ends]
        by_cases none : front = []
        · simp only [none, ↓reduceIte, List.flatMap_cons, List.flatMap_nil, List.append_nil,
            reduceCtorEq, Chunk.bytes]
        · simp only [none, ↓reduceIte, List.flatMap_cons, List.length_append, reduceCtorEq,
            Chunk.bytes, Nat.add_assoc]
    | pad count =>
      obtain ⟨front, padding, bytes, records, same, ends⟩ := ih last (position + count)
      by_cases none : front = []
      · subst none
        refine ⟨[], count + padding, ?_, records, ends.symm, ends⟩
        rw [List.flatMap_cons, bytes, Chunk.bytes, List.flatMap_nil, List.nil_append,
          List.nil_append, List.replicate_append_replicate]
      · refine ⟨.pad count :: front, padding, ?_, ?_, same, ?_⟩
        · rw [List.flatMap_cons, bytes, List.flatMap_cons, List.append_assoc]
        · simp only [List.filterMap_cons, Chunk.record?, records]
        · rw [lastEnd, ends]
          simp only [none, ↓reduceIte, List.flatMap_cons, List.length_append, reduceCtorEq,
            Chunk.bytes, List.length_replicate, Nat.add_assoc]

/-- A record of chunks is one of them, behind those that hold the records before it. -/
theorem chunks_around {chunks : List Chunk} {earlier later : List StoredRecord}
    {record : StoredRecord}
    (parts : chunks.filterMap Chunk.record? = earlier ++ record :: later) :
    ∃ front back, chunks = front ++ .record record :: back ∧
      front.filterMap Chunk.record? = earlier := by
  obtain ⟨front, others, rfl, kept, rest⟩ := List.filterMap_eq_append_iff.mp parts
  obtain ⟨padding, chunk, back, rfl, none, here, _⟩ := List.filterMap_eq_cons_iff.mp rest
  refine ⟨front ++ padding, back, ?_, ?_⟩
  · cases chunk with
    | record written =>
      obtain rfl := Option.some.inj here
      rw [List.append_assoc]
    | pad count => cases here
  · rw [List.filterMap_append, List.filterMap_eq_nil_iff.mpr none, kept, List.append_nil]

/-- Records laid out without padding are their bytes one behind the other. -/
theorem flatMap_bytes_map_record (records : List StoredRecord) :
    (records.map Chunk.record).flatMap Chunk.bytes = records.flatMap StoredRecord.bytes := by
  rw [List.flatMap_map]
  rfl

/-- Records laid out without padding fit when each of them does. -/
theorem fitting_map_record {records : List StoredRecord} :
    Fitting version (records.map .record) ↔ ∀ record ∈ records, record.Fits version := by
  have same : (records.map Chunk.record).filterMap Chunk.record? = records := by
    rw [List.filterMap_map]
    exact List.filterMap_some
  rw [Fitting, same]

/-- Records one after the other end where the last of them does. -/
theorem lastEnd_map_record (position : Nat) (records : List StoredRecord) :
    lastEnd position position (records.map Chunk.record) =
      position + (records.flatMap StoredRecord.bytes).length := by
  induction records generalizing position with
  | nil => rfl
  | cons record rest ih =>
    rw [List.map_cons, lastEnd, ih, List.flatMap_cons, List.length_append, Nat.add_assoc]

/-- The records of two layouts in a row are those of the first one and, further on, those of the
second. -/
theorem placedRecords_append (position : Nat) (first second : List Chunk) :
    placedRecords position (first ++ second) =
      placedRecords position first ++
        placedRecords (position + (first.flatMap Chunk.bytes).length) second := by
  induction first generalizing position with
  | nil => rfl
  | cons chunk rest ih =>
    cases chunk with
    | record written =>
      rw [List.cons_append, placedRecords, ih, placedRecords, List.flatMap_cons, List.length_append,
        List.cons_append, Nat.add_assoc, Chunk.bytes]
    | pad count =>
      rw [List.cons_append, placedRecords, ih, placedRecords, List.flatMap_cons, List.length_append,
        Nat.add_assoc, Chunk.bytes, List.length_replicate]

/-- The first records of a layout are the layout of the first records. -/
theorem take_placedRecords (position : Nat) (records : List StoredRecord) (count : Nat) :
    (placedRecords position (records.map Chunk.record)).take count =
      placedRecords position ((records.take count).map Chunk.record) := by
  induction records generalizing position count with
  | nil => rw [List.take_nil]; exact List.take_nil
  | cons record rest ih =>
    cases count with
    | zero => rfl
    | succ count =>
      rw [List.map_cons, placedRecords, List.take_succ_cons, ih, List.take_succ_cons, List.map_cons,
        placedRecords]

end AtomStore.Log
