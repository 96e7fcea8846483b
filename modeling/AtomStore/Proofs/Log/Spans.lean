import AtomStore.Proofs.Log.Torn

/-!
# Whole records in any bytes

Bytes of any origin may hold whole records. A record is whole where its mark, a body of a UCN and
atoms, the checksum of both and its last byte are, and the reader accepts exactly that. A scan
passes over whole records and pad bytes; what it has passed over does not depend on the bytes behind
it, so the part up to there scans to the same records and to its end.
-/

namespace AtomStore.Log

variable {version : Version} {position stop : Nat} {bytes behind : Bytes} {records : List Record}

/-- Takes the UCN and the atoms of a record. -/
def Reader.body (version : Version) : Step (Nat × List Draft) := do
  let ucn ← varint
  let drafts ← atoms version
  pure (ucn, drafts)

/-- Whether bytes behind the mark of a record at an offset are a UCN and atoms. -/
def IsBody (version : Version) (offset : Nat) (body : Bytes) : Prop :=
  ∃ ucn drafts last, Reader.body version (.behindMark body offset) = .ok ((ucn, drafts), last) ∧
    0 < ucn ∧ last.rest = []

/-- Whether bytes at an offset begin with a whole record. -/
def Intact (version : Version) (offset : Nat) (bytes : Bytes) : Prop :=
  ∃ body rest, IsBody version offset body ∧
    bytes = recordMark :: body ++
      (wordBytes (Checksum.ofBytes (recordMark :: body)) ++ recordEnd :: rest)

/-- A whole record begins with its mark. -/
theorem Intact.exists_cons {offset : Nat} (intact : Intact version offset bytes) :
    ∃ rest, bytes = recordMark :: rest := by
  obtain ⟨body, rest, _, rfl⟩ := intact
  exact ⟨_, List.cons_append ..⟩

namespace Reader

variable {reader next : Reader}

theorem extend_behindMark (rest more : Bytes) (offset : Nat) :
    (behindMark rest offset).extend more = behindMark (rest ++ more) offset := rfl

/-- A byte that was read was the next one. -/
theorem rest_of_byte {first : UInt8} (read : reader.byte = .ok (first, next)) :
    reader.rest = first :: next.rest := by
  unfold byte at read
  split at read
  · cases read
  · rename_i ahead
    cases read
    exact ahead

/-- A run that was read stood ahead. -/
theorem rest_of_run {count : Nat} {taken : Bytes} (read : reader.run count = .ok (taken, next)) :
    reader.rest = taken ++ next.rest := by
  rw [run_eq] at read
  split at read
  · cases read
  · cases read
    exact (List.take_append_drop ..).symm

/-- A record that was closed has its checksum and the end mark. -/
theorem rest_of_closing (read : reader.closing = .ok next) :
    reader.rest = wordBytes (Checksum.finish reader.register) ++ recordEnd :: next.rest := by
  unfold closing at read
  split at read
  · cases read
  · rename_i stored summed ran
    split at read
    · cases read
    · rename_i last final ended
      split at read
      · cases read
      · rename_i same
        split at read
        · cases read
        · rename_i closed
          cases read
          rw [rest_of_run ran, rest_of_byte ended, not_not.mp same, not_not.mp closed]

/-- The UCN and the atoms of a record are read front to back. -/
theorem sequential_body : Sequential 0 (body version) :=
  sequential_varint.bind fun _ => sequential_atoms.bind fun _ => sequential_pure _

/-- The register behind the body of a record has taken in all of the record. -/
theorem register_of_body {offset : Nat} {rest : Bytes} {found : Nat × List Draft}
    (read : body version (behindMark rest offset) = .ok (found, next)) :
    ∃ taken, rest = taken ++ next.rest ∧
      Checksum.finish next.register = Checksum.ofBytes (recordMark :: taken) := by
  obtain ⟨taken, ahead, reached⟩ := (sequential_body _).takes read
  refine ⟨taken, ahead, ?_⟩
  rw [reached]
  rfl

/-- A record that is read has a body, and is closed behind it. -/
theorem record_eq_ok {offset : Nat} {found : Record}
    (read : reader.record version offset = .ok (found, next)) :
    ∃ ucn drafts covered, ∃ ucn_pos : 0 < ucn,
      body version reader = .ok ((ucn, drafts), covered) ∧ covered.closing = .ok next ∧
        found = ⟨offset, ucn, drafts.map (·.toAtom ucn ucn_pos)⟩ := by
  rw [record_eq] at read
  obtain ⟨ucn, inside, numbered, later⟩ := bind_eq_ok read
  split at later
  · rename_i ucn_pos
    obtain ⟨drafts, covered, gathered, later⟩ := bind_eq_ok later
    obtain ⟨_, last, closed, done⟩ := bind_eq_ok later
    cases done
    refine ⟨ucn, drafts, covered, ucn_pos, ?_, ?_, rfl⟩
    · simp only [body, bind_apply, numbered, gathered]
      rfl
    · rw [close] at closed
      cases ended : covered.closing with
      | error fault =>
        rw [ended] at closed
        cases closed
      | ok final =>
        rw [ended] at closed
        cases closed
        rfl
  · cases later

/-- A record is read when its UCN and its atoms are and it is closed behind them. -/
theorem record_of_body {offset ucn : Nat} {drafts : List Draft} {covered : Reader}
    (read : body version reader = .ok ((ucn, drafts), covered)) (ucn_pos : 0 < ucn)
    (closed : covered.closing = .ok next) :
    reader.record version offset =
      .ok (⟨offset, ucn, drafts.map (·.toAtom ucn ucn_pos)⟩, next) := by
  obtain ⟨number, inside, numbered, later⟩ := bind_eq_ok read
  obtain ⟨found, last, gathered, done⟩ := bind_eq_ok later
  cases done
  simp only [record, numbered, ucn_pos, ↓reduceDIte, gathered, closed]

/-- A record that is read has the offset at which it was looked for. -/
theorem offset_of_record {offset : Nat} {found : Record}
    (read : reader.record version offset = .ok (found, next)) : found.offset = offset := by
  obtain ⟨_, _, _, _, _, _, same⟩ := record_eq_ok read
  rw [same]

/-- Where a record is read a whole one stands. -/
theorem intact_of_record {offset : Nat} {rest : Bytes} {found : Record}
    (read : (behindMark rest offset).record version offset = .ok (found, next)) :
    Intact version offset (recordMark :: rest) := by
  obtain ⟨ucn, drafts, covered, ucn_pos, read, closed, _⟩ := record_eq_ok read
  obtain ⟨taken, ahead, sum⟩ := register_of_body read
  have after := rest_of_closing closed
  rw [sum] at after
  rw [ahead, ← extend_behindMark] at read
  obtain ⟨last, short, same⟩ := (sequential_body _).front read (Nat.le_refl _)
  have nothing : last.rest = [] := by
    have lengths := congrArg (fun reader => reader.rest.length) same
    simp only [extend, List.length_append] at lengths
    exact List.eq_nil_of_length_eq_zero (by omega)
  refine ⟨taken, next.rest, ⟨ucn, drafts, last, short, ucn_pos, nothing⟩, ?_⟩
  rw [← after, ahead, List.cons_append]

/-- The reader accepts the bytes behind a mark when a whole record is there. -/
theorem isOk_record_iff {offset : Nat} {rest : Bytes} :
    ((behindMark rest offset).record version offset).isOk = true ↔
      Intact version offset (recordMark :: rest) := by
  constructor
  · intro accepted
    cases read : (behindMark rest offset).record version offset with
    | error fault =>
      rw [read] at accepted
      cases accepted
    | ok found => exact intact_of_record read
  · intro given
    obtain ⟨taken, back, ⟨ucn, drafts, last, read, ucn_pos, nothing⟩, shape⟩ := given
    obtain ⟨_, ahead⟩ := List.cons.inj (shape.trans (List.cons_append ..))
    obtain ⟨all, whole, sum⟩ := register_of_body read
    rw [nothing, List.append_nil] at whole
    let more := wordBytes (Checksum.ofBytes (recordMark :: taken)) ++ recordEnd :: back
    have closed := @closing_of_rest (last.extend more) back (by
      change last.rest ++ more = wordBytes (Checksum.finish last.register) ++ _
      rw [nothing, sum, ← whole, List.nil_append])
    rw [ahead, ← extend_behindMark]
    rw [record_of_body ((sequential_body _).grow read more) ucn_pos closed]
    rfl

end Reader

/-- The places at which the search looks are those where a whole record begins. -/
theorem holdsRecord_iff_intact {place : Nat} :
    HoldsRecord version position bytes place ↔
      position ≤ place ∧ Intact version place (bytes.drop (place - position)) := by
  constructor
  · intro given
    obtain ⟨front, rest, rfl, rfl, accepted⟩ := given
    rw [Nat.add_sub_cancel_left, List.drop_left]
    exact ⟨Nat.le_add_right .., Reader.isOk_record_iff.mp accepted⟩
  · intro given
    obtain ⟨above, intact⟩ := given
    obtain ⟨rest, shape⟩ := intact.exists_cons
    rw [shape] at intact
    have short : place - position ≤ bytes.length := by
      apply Nat.le_of_not_lt
      intro past
      rw [List.drop_eq_nil_of_le (Nat.le_of_lt past)] at shape
      cases shape
    refine ⟨bytes.take (place - position), rest, ?_, ?_, Reader.isOk_record_iff.mpr intact⟩
    · rw [← shape, List.take_append_drop]
    · rw [List.length_take, Nat.min_eq_left short]
      omega

/-- Bytes that begin with whole records and pad bytes: the records, the position behind them, and
the bytes from there on. -/
inductive Spans (version : Version) : Nat → Bytes → List Record → Nat → Bytes → Prop where
  | here (position : Nat) (bytes : Bytes) : Spans version position bytes [] position bytes
  | pad {position : Nat} {bytes : Bytes} {records : List Record} {stop : Nat} {behind : Bytes}
      (later : Spans version (position + 1) bytes records stop behind) :
      Spans version position (padByte :: bytes) records stop behind
  | record {position : Nat} {bytes : Bytes} {record : Record} {next : Reader}
      {records : List Record} {stop : Nat} {behind : Bytes}
      (read : (Reader.behindMark bytes position).record version position = .ok (record, next))
      (later : Spans version next.position next.rest records stop behind) :
      Spans version position (recordMark :: bytes) (record :: records) stop behind

/-- A scan that ends at a torn record has passed over whole records up to there. -/
theorem spans_of_truncated {last : Nat}
    (ended : (scanFrom version last position bytes).outcome = .error (.truncated stop)) :
    ∃ rest, Spans version position bytes (scanFrom version last position bytes).records stop
        (recordMark :: rest) ∧
      (Reader.behindMark rest stop).record version stop = .error .ended := by
  induction count : bytes.length using Nat.strongRecOn generalizing bytes position last with
  | ind count ih =>
    subst count
    cases bytes with
    | nil =>
      rw [scanFrom_nil] at ended
      cases ended
    | cons mark rest =>
      by_cases pad : mark = padByte
      · rw [scanFrom, if_pos pad] at ended ⊢
        obtain ⟨behind, spans, torn⟩ := ih rest.length (Nat.lt_succ_self _) ended rfl
        exact ⟨behind, pad ▸ .pad spans, torn⟩
      · by_cases begins : mark = recordMark
        · subst begins
          rw [scanFrom_mark] at ended ⊢
          cases read : (Reader.behindMark rest position).record version position with
          | error fault =>
            rw [read] at ended
            cases fault with
            | ended =>
              cases ended
              exact ⟨rest, .here _ _, read⟩
            | checksum => cases ended
            | flaw wrong => cases ended
          | ok found =>
            rw [read] at ended
            have fewer : found.2.rest.length < (recordMark :: rest).length :=
              Nat.lt_succ_of_lt (Reader.length_record read)
            obtain ⟨behind, spans, torn⟩ := ih _ fewer ended rfl
            exact ⟨behind, .record read spans, torn⟩
        · rw [scanFrom, if_neg pad, if_neg begins] at ended
          cases ended

namespace Spans

/-- What was passed over is a front part of the bytes, and passing over it does not need the
rest. -/
theorem front (spans : Spans version position bytes records stop behind) :
    ∃ front, bytes = front ++ behind ∧ stop = position + front.length ∧
      Spans version position front records stop [] := by
  induction spans with
  | here position bytes => exact ⟨[], rfl, rfl, .here position []⟩
  | @pad position _ _ _ _ later ih =>
    obtain ⟨front, rfl, rfl, spans⟩ := ih
    refine ⟨padByte :: front, rfl, ?_, .pad spans⟩
    rw [List.length_cons]
    omega
  | @record position bytes record next records stop behind read later ih =>
    obtain ⟨front, ahead, rfl, spans⟩ := ih
    obtain ⟨taken, all, reached⟩ := (Reader.sequential_record position _).takes read
    have whole : bytes = (taken ++ front) ++ behind := by
      rw [List.append_assoc, ← ahead]
      exact all
    have left : behind.length + 0 ≤ next.rest.length := by
      rw [ahead, List.length_append]
      omega
    rw [whole, ← Reader.extend_behindMark] at read
    obtain ⟨last, short, same⟩ := (Reader.sequential_record position _).front read left
    have rest : last.rest = front := by
      rw [same] at ahead
      exact List.append_cancel_right ahead
    have place : last.position = next.position := by rw [same]; rfl
    refine ⟨recordMark :: (taken ++ front), ?_, ?_, .record short ?_⟩
    · rw [whole, List.cons_append]
    · rw [reached]
      simp only [Reader.behindMark, Reader.after_position, List.length_cons, List.length_append]
      omega
    · rw [rest, place]
      exact spans

/-- Every record that was passed over is whole where it begins. -/
theorem intact (spans : Spans version position bytes records stop behind) :
    ∀ record ∈ records, position ≤ record.offset ∧ record.offset < stop ∧
      Intact version record.offset (bytes.drop (record.offset - position)) := by
  induction spans with
  | here position bytes => exact nofun
  | @pad position bytes records stop behind later ih =>
    intro record member
    obtain ⟨above, below, intact⟩ := ih record member
    have step : record.offset - position = (record.offset - (position + 1)) + 1 := by omega
    rw [step, List.drop_succ_cons]
    exact ⟨by omega, below, intact⟩
  | @record position bytes record next records stop behind read later ih =>
    intro other member
    obtain ⟨taken, all, reached⟩ := (Reader.sequential_record position _).takes read
    have moved : next.position = position + 1 + taken.length := by
      rw [reached]
      rfl
    rcases List.mem_cons.mp member with rfl | among
    · obtain ⟨front, _, ends, _⟩ := later.front
      rw [Reader.offset_of_record read, Nat.sub_self, List.drop_zero]
      exact ⟨Nat.le_refl position, by omega, Reader.intact_of_record read⟩
    · obtain ⟨above, below, intact⟩ := ih other among
      have step : other.offset - position =
          (taken.length + (other.offset - next.position)) + 1 := by omega
      have split : bytes = taken ++ next.rest := all
      rw [step, List.drop_succ_cons, ← List.drop_drop, split, List.drop_left]
      exact ⟨by omega, below, intact⟩

/-- Bytes that are nothing but whole records and pad bytes scan to the records and to the end. -/
theorem scanFrom_eq (spans : Spans version position bytes records stop []) (last : Nat) :
    ∃ ends, scanFrom version last position bytes = ⟨records, .ok ends⟩ := by
  generalize nothing : ([] : Bytes) = behind at spans
  induction spans generalizing last with
  | here position bytes =>
    rw [← nothing]
    exact ⟨last, scanFrom_nil last position⟩
  | pad later ih =>
    rw [scanFrom, if_pos rfl]
    exact ih last nothing
  | @record position bytes record next records stop behind read later ih =>
    obtain ⟨ends, scanned⟩ := ih next.position nothing
    rw [scanFrom_mark, read]
    simp only [scanned]
    exact ⟨ends, rfl⟩

end Spans
end AtomStore.Log
