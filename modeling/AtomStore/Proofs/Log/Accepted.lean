import AtomStore.Proofs.Log.HeaderRoundTrip
import AtomStore.Proofs.Log.Spans
import AtomStore.Proofs.Log.TooLong

/-!
# Logs of any origin

A scan that comes to the end of some bytes has passed over whole records, with nothing but pad bytes
behind them. Whatever is written behind these records leaves them as they are, and a record that is
written there is the next one, or ends the scan if a value is too long. The header in front of them
does not depend on them either.
-/

namespace AtomStore.Log

variable {version : Version} {position stop : Nat} {bytes behind : Bytes} {records : List Record}

/-- A scan that comes to an end has passed over whole records up to the end of the last of them, and
over pad bytes from there on. -/
theorem spans_of_ok {last : Nat}
    (ended : (scanFrom version last position bytes).outcome = .ok stop) :
    ∃ count, ((scanFrom version last position bytes).records = [] ∧ stop = last ∧
        bytes = List.replicate count padByte) ∨
      Spans version position bytes (scanFrom version last position bytes).records stop
        (List.replicate count padByte) := by
  induction count : bytes.length using Nat.strongRecOn generalizing bytes position last with
  | ind count ih =>
    subst count
    cases bytes with
    | nil =>
      rw [scanFrom_nil] at ended ⊢
      cases ended
      exact ⟨0, .inl ⟨rfl, rfl, rfl⟩⟩
    | cons mark rest =>
      by_cases pad : mark = padByte
      · rw [scanFrom, if_pos pad] at ended ⊢
        obtain ⟨count, ⟨none, same, padding⟩ | spans⟩ :=
          ih rest.length (Nat.lt_succ_self _) ended rfl
        · refine ⟨count + 1, .inl ⟨none, same, ?_⟩⟩
          rw [pad, padding, List.replicate_succ]
        · exact ⟨count, .inr (pad ▸ .pad spans)⟩
      · by_cases begins : mark = recordMark
        · subst begins
          rw [scanFrom_mark] at ended ⊢
          cases read : (Reader.behindMark rest position).record version position with
          | error fault =>
            rw [read] at ended
            cases ended
          | ok found =>
            rw [read] at ended
            have fewer : found.2.rest.length < (recordMark :: rest).length :=
              Nat.lt_succ_of_lt (Reader.length_record read)
            obtain ⟨count, ⟨none, same, padding⟩ | spans⟩ := ih _ fewer ended rfl
            · refine ⟨count, .inr (.record read ?_)⟩
              rw [none, same, ← padding]
              exact .here _ _
            · exact ⟨count, .inr (.record read spans)⟩
        · rw [scanFrom, if_neg pad, if_neg begins] at ended
          cases ended

/-- A scan from the start of the records on that comes to an end has passed over whole records. -/
theorem spans_of_scan (scanned : scan version position bytes = ⟨records, .ok stop⟩) :
    ∃ count, Spans version position bytes records stop (List.replicate count padByte) := by
  have ended : (scanFrom version position position bytes).outcome = .ok stop := by
    rw [← scan, scanned]
  have found : (scanFrom version position position bytes).records = records := by
    rw [← scan, scanned]
  obtain ⟨count, ⟨none, same, padding⟩ | spans⟩ := spans_of_ok ended
  · refine ⟨count, ?_⟩
    rw [← found, none, same, padding]
    exact .here _ _
  · exact ⟨count, found ▸ spans⟩

namespace Spans

/-- More bytes at the end do not change what was passed over. -/
theorem extend (spans : Spans version position bytes records stop behind) (more : Bytes) :
    Spans version position (bytes ++ more) records stop (behind ++ more) := by
  induction spans with
  | here position bytes => exact .here position (bytes ++ more)
  | pad later ih => exact .pad ih
  | @record position bytes record next records stop behind read later ih =>
    have longer := (Reader.sequential_record position _).grow read more
    rw [Reader.extend_behindMark] at longer
    exact .record longer ih

/-- Records passed over one after the other are passed over together. -/
theorem trans {second : List Record} {last : Nat} {rest : Bytes}
    (spans : Spans version position bytes records stop behind)
    (later : Spans version stop behind second last rest) :
    Spans version position bytes (records ++ second) last rest := by
  induction spans with
  | here position bytes => exact later
  | pad _ ih => exact .pad (ih later)
  | record read _ ih => exact .record read (ih later)

/-- Pad bytes are passed over without a record. -/
theorem padding (position count : Nat) (rest : Bytes) :
    Spans version position (List.replicate count padByte ++ rest) [] (position + count) rest := by
  induction count generalizing position with
  | zero => exact .here position rest
  | succ count ih =>
    rw [List.replicate_succ, List.cons_append, Nat.add_comm count, ← Nat.add_assoc]
    exact .pad (ih (position + 1))

/-- A scan goes on behind what was passed over, whatever follows it. -/
theorem scanFrom_behind (spans : Spans version position bytes records stop behind) (last : Nat) :
    ∃ ends, ∀ more, scanFrom version last position (bytes ++ more) =
      ⟨records ++ (scanFrom version ends stop (behind ++ more)).records,
        (scanFrom version ends stop (behind ++ more)).outcome⟩ := by
  induction spans generalizing last with
  | here position bytes => exact ⟨last, fun _ => rfl⟩
  | pad later ih =>
    obtain ⟨ends, scanned⟩ := ih last
    refine ⟨ends, fun more => ?_⟩
    rw [List.cons_append, scanFrom, if_pos rfl, scanned]
  | @record position bytes record next records stop behind read later ih =>
    obtain ⟨ends, scanned⟩ := ih next.position
    refine ⟨ends, fun more => ?_⟩
    have longer := (Reader.sequential_record position _).grow read more
    rw [Reader.extend_behindMark] at longer
    have further : scanFrom version (next.extend more).position (next.extend more).position
        (next.extend more).rest = _ := scanned more
    rw [List.cons_append, scanFrom_mark, longer]
    simp only [further, List.cons_append]

/-- A record that is written behind records is found as the last one. -/
theorem scanFrom_written (spans : Spans version position bytes records stop [])
    {record : StoredRecord} (fits : record.Fits version) (last count : Nat) :
    scanFrom version last position (bytes ++ (record.bytes ++ List.replicate count padByte)) =
      ⟨records ++ [record.placed stop], .ok (stop + record.bytes.length)⟩ := by
  obtain ⟨ends, scanned⟩ := spans.scanFrom_behind last
  rw [scanned, List.nil_append, scanFrom_record fits, scanFrom_replicate]

/-- A scan ends at a record with a value that is too long. -/
theorem scanFrom_long (spans : Spans version position bytes records stop []) {length : Nat}
    {record : StoredRecord} (sized : record.Sized version)
    (long : tooLong? record.lengths = some length) (last : Nat) (rest : Bytes) :
    scanFrom version last position (bytes ++ (record.bytes ++ rest)) =
      ⟨records, .error (.corrupt stop (.valueTooLong length))⟩ := by
  obtain ⟨_, scanned⟩ := spans.scanFrom_behind last
  obtain ⟨behind, shape, refused⟩ := Reader.record_of_long sized long stop rest
  rw [scanned, List.nil_append, shape, List.cons_append, scanFrom_mark, refused, List.append_nil]
  rfl

end Spans

namespace Header

variable {front back rest : Bytes}

/-- A word that is read from some bytes is read from any that begin with them. -/
theorem readWord_grow {word : UInt32} (read : readWord front = .ok (word, rest)) (more : Bytes) :
    readWord (front ++ more) = .ok (word, rest ++ more) ∧ rest.length + 4 = front.length := by
  match front, read with
  | first :: second :: third :: fourth :: left, read =>
    cases read
    exact ⟨rfl, rfl⟩

/-- A run that is read from some bytes is read from any that begin with them. -/
theorem readRun_grow {count : Nat} {taken : Bytes} (read : readRun count front = .ok (taken, rest))
    (more : Bytes) :
    readRun count (front ++ more) = .ok (taken, rest ++ more) ∧ count ≤ front.length := by
  obtain ⟨long, rfl, rfl⟩ := readRun_eq_ok_iff.mp read
  refine ⟨readRun_eq_ok_iff.mpr ⟨?_, ?_, ?_⟩, long⟩
  · rw [List.length_append]
    exact Nat.le_add_right_of_le long
  · exact List.take_append_of_le_length long
  · exact List.drop_append_of_le_length long

/-- A header is read from its own bytes, which are all there, whatever is behind them. -/
theorem decode_grow {header : Header} {length : Nat} (read : decode front = .ok (header, length))
    (more : Bytes) : decode (front ++ more) = .ok (header, length) ∧ length ≤ front.length := by
  obtain ⟨signed, word, sized, inside, behind, measured, counted, base, short, ran, closed, body⟩ :=
    decode_eq_ok_iff.mp read
  obtain ⟨grown, four⟩ := readWord_grow measured more
  obtain ⟨longer, run⟩ := readRun_grow ran more
  rw [List.length_drop] at four
  have whole : length ≤ front.length := by
    rw [leadLength] at run
    omega
  have eight : 8 ≤ front.length := Nat.le_trans (by decide) (Nat.le_trans base whole)
  refine ⟨decode_eq_ok_iff.mpr ⟨?_, word, sized ++ more, inside, behind ++ more, ?_, counted, base,
    short, longer, ?_, body⟩, whole⟩
  · rw [List.take_append_of_le_length eight]
    exact signed
  · rw [List.drop_append_of_le_length eight]
    exact grown
  · rw [List.take_append_of_le_length (Nat.le_trans (Nat.sub_le ..) whole)]
    exact closed

end Header
end AtomStore.Log
