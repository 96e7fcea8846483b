import AtomStore.Proofs.Log.Accepted
import AtomStore.Proofs.Log.Altered

/-!
# Records torn in front of pad bytes

When a record is written over pad bytes and only a front part of it gets there, pad bytes stand in
for the rest. Every part of the record is then read as it was written, or pad bytes are read in its
place, of which there are as many as bytes are missing: a number comes out no larger, and a run is
filled up. So the bytes never run out. A pad byte is no mark and no tag, and does not end a record:
the reader meets a flaw or a wrong checksum, and the record does not seem to be cut short.
-/

namespace AtomStore.Log

/-- Whether bytes are others of which some at the end have been replaced by as many pad bytes or
more. -/
def Blanked (whole bytes : Bytes) : Prop :=
  ∃ kept lost count, lost ≠ [] ∧ whole = kept ++ lost ∧ lost.length ≤ count ∧
    bytes = kept ++ List.replicate count padByte

namespace Blanked

variable {whole bytes back taken : Bytes} {first : UInt8} {count : Nat}

/-- Pad bytes stand in for any bytes that are not more. -/
theorem of_replicate (more : whole ≠ []) (enough : whole.length ≤ count) :
    Blanked whole (List.replicate count padByte) :=
  ⟨[], whole, count, more, rfl, enough, rfl⟩

theorem not_nil : ¬ Blanked [] bytes := by
  rintro ⟨kept, lost, _, missing, parts, _⟩
  exact missing (List.append_eq_nil_iff.mp parts.symm).2

/-- The first byte is there, or there are pad bytes from it on. -/
theorem cons_cases (blanked : Blanked (first :: back) bytes) :
    (∃ count, bytes = padByte :: List.replicate count padByte ∧ back.length ≤ count) ∨
      ∃ rest, bytes = first :: rest ∧ Blanked back rest := by
  obtain ⟨kept, lost, count, more, parts, enough, rfl⟩ := blanked
  cases kept with
  | nil =>
    obtain rfl : first :: back = lost := parts
    obtain ⟨fewer, rfl⟩ := Nat.exists_eq_add_of_le' (Nat.le_trans (Nat.le_add_left ..) enough)
    exact .inl ⟨fewer, List.replicate_succ, Nat.le_of_succ_le_succ enough⟩
  | cons same kept =>
    obtain ⟨rfl, rfl⟩ := List.cons.inj parts
    exact .inr ⟨kept ++ List.replicate count padByte, rfl, kept, lost, count, more, rfl, enough, rfl⟩

/-- What is missing of some bytes is missing of those behind a front part, or pad bytes stand in for
all of the latter. -/
theorem drop (blanked : Blanked (taken ++ back) bytes) (more : back ≠ []) :
    taken.length ≤ bytes.length ∧ Blanked back (bytes.drop taken.length) := by
  induction taken generalizing bytes with
  | nil => exact ⟨Nat.zero_le _, blanked⟩
  | cons first rest ih =>
    rcases blanked.cons_cases with ⟨count, rfl, enough⟩ | ⟨others, rfl, inside⟩
    · have room : rest.length + back.length ≤ count := List.length_append ▸ enough
      rw [← List.replicate_succ, List.length_cons, List.length_replicate, List.drop_replicate]
      exact ⟨by omega, of_replicate more (by omega)⟩
    · obtain ⟨short, behind⟩ := ih inside
      exact ⟨Nat.succ_le_succ short, behind⟩

end Blanked

/-- A pad byte is the tag of no kind. -/
theorem kind?_padByte (version : Version) : version.kind? padByte = none := by
  cases version <;> rfl

namespace Reader

variable {α β : Type} {version : Version} {reader : Reader} {middle back : Bytes}

/-- Whether a step comes to stand where some bytes or pad bytes in place of them follow, unless it
finds a flaw before. -/
def Reaches (step : Step α) (reader : Reader) (back : Bytes) : Prop :=
  (∃ wrong, step reader = .error (.flaw wrong)) ∨
    ∃ found next, step reader = .ok (found, next) ∧ Blanked back next.rest

namespace Reaches

variable {step : Step α} {later : α → Step β}

/-- A step that succeeds leaves it to the next one to come to stand there. -/
theorem bind_of_ok {found : α} {next : Reader} (began : step reader = .ok (found, next))
    (second : Reaches (later found) next back) : Reaches (step >>= later) reader back := by
  rw [Reaches, bind_apply, began]
  exact second

/-- Steps come to stand where the last of them does. -/
theorem bind (first : Reaches step reader middle)
    (second : ∀ found next, Blanked middle next.rest → Reaches (later found) next back) :
    Reaches (step >>= later) reader back := by
  rcases first with ⟨wrong, failed⟩ | ⟨found, next, began, blanked⟩
  · exact .inl ⟨wrong, by rw [bind_apply, failed]⟩
  · exact bind_of_ok began (second found next blanked)

/-- Steps that agree here come to stand at the same place. -/
theorem congr {other : Step α} (reaches : Reaches step reader back)
    (same : other reader = step reader) : Reaches other reader back := by
  rw [Reaches, same]
  exact reaches

/-- One step, and then another that fails but does not run out of bytes. -/
theorem fails (first : Reaches step reader middle)
    (second : ∀ found next, Blanked middle next.rest →
      ∃ fault, fault ≠ .ended ∧ later found next = .error fault) :
    ∃ fault, fault ≠ .ended ∧ (step >>= later) reader = .error fault := by
  rcases first with ⟨wrong, failed⟩ | ⟨found, next, began, blanked⟩
  · exact ⟨.flaw wrong, flaw_ne_ended wrong, by rw [bind_apply, failed]⟩
  · obtain ⟨fault, unlike, failed⟩ := second found next blanked
    exact ⟨fault, unlike, by rw [bind_apply, began]; exact failed⟩

end Reaches

/-- A step that reads nothing stays where it is. -/
theorem reaches_pure {found : α} (blanked : Blanked back reader.rest) :
    Reaches (pure found) reader back :=
  .inr ⟨found, reader, rfl, blanked⟩

/-- A step that finds a flaw may come to stand anywhere. -/
theorem reaches_throw (wrong : RecordFlaw) :
    Reaches (throw (.flaw wrong) : Step α) reader back :=
  .inl ⟨wrong, rfl⟩

/-- The next byte is there, or it is a pad byte. -/
theorem byte_of_blanked {first : UInt8} (blanked : Blanked (first :: back) reader.rest) :
    (∃ next, reader.byte = .ok (padByte, next)) ∨
      ∃ next, reader.byte = .ok (first, next) ∧ Blanked back next.rest := by
  rcases blanked.cons_cases with ⟨count, ahead, _⟩ | ⟨rest, ahead, inside⟩
  · exact .inl ⟨_, byte_of_rest ahead⟩
  · exact .inr ⟨_, byte_of_rest ahead, inside⟩

/-- A run of known length is passed, blanked or not. -/
theorem run_of_blanked {taken : Bytes} (blanked : Blanked (taken ++ back) reader.rest)
    (more : back ≠ []) : Reaches (·.run taken.length) reader back := by
  obtain ⟨enough, behind⟩ := blanked.drop more
  exact .inr ⟨reader.rest.take taken.length,
    reader.after (reader.rest.take taken.length) (reader.rest.drop taken.length),
    (run_eq ..).trans (if_neg (Nat.not_lt.mpr enough)), behind⟩

/-- Whether a number that was read is the one that was written, or no larger and followed by pad
bytes in place of all that was written behind it. -/
def ReadsTo (number : Nat) (back : Bytes) (found : Nat) (rest : Bytes) : Prop :=
  (found = number ∧ Blanked back rest) ∨
    found ≤ number ∧ ∃ count, back.length ≤ count ∧ rest = List.replicate count padByte

/-- What follows a number that was read is as it was written, or blanked. -/
theorem ReadsTo.blanked {number found : Nat} {rest : Bytes}
    (reads : ReadsTo number back found rest) (more : back ≠ []) : Blanked back rest := by
  rcases reads with ⟨_, blanked⟩ | ⟨_, count, enough, rfl⟩
  · exact blanked
  · exact .of_replicate more enough

/-- A pad byte ends a number. -/
theorem digits_of_pad {room : Nat} {rest : Bytes} (ahead : reader.rest = padByte :: rest) :
    reader.digits room = .ok (0, reader.after [padByte] rest) := by
  cases room <;> (rw [digits, byte_of_rest ahead]; rfl)

/-- The last digit of a number is read, blanked or not. -/
theorem digits_of_blanked_of_lt {room number : Nat} (small : number < 128)
    (fits : number < 2 * 128 ^ room)
    (blanked : Blanked (varintBytes number ++ back) reader.rest) :
    ∃ found next, reader.digits room = .ok (found, next) ∧
      ReadsTo number back found next.rest := by
  have single := varintBytes_of_lt small
  rw [single] at blanked
  rcases blanked.cons_cases with ⟨count, ahead, enough⟩ | ⟨rest, ahead, inside⟩
  · exact ⟨0, _, digits_of_pad ahead, .inr ⟨Nat.zero_le _, count, enough, rfl⟩⟩
  · have whole : reader.rest = varintBytes number ++ rest := by rw [single, ahead]; rfl
    exact ⟨number, _, digits_of_rest fits whole, .inl ⟨rfl, inside⟩⟩

/-- A number is read as it was written, or pad bytes cut its digits short. -/
theorem digits_of_blanked {room number : Nat} (fits : number < 2 * 128 ^ room)
    (blanked : Blanked (varintBytes number ++ back) reader.rest) :
    ∃ found next, reader.digits room = .ok (found, next) ∧
      ReadsTo number back found next.rest := by
  induction room generalizing reader number with
  | zero => exact digits_of_blanked_of_lt (by omega) fits blanked
  | succ room ih =>
    by_cases small : number < 128
    · exact digits_of_blanked_of_lt small fits blanked
    · have shape := varintBytes_of_le (Nat.not_lt.mp small)
      have value : (number % 128 + 128).toUInt8.toNat = number % 128 + 128 := by
        rw [Nat.toUInt8, UInt8.toNat_ofNat']
        omega
      have fewer : number / 128 < 2 * 128 ^ room := by
        rw [Nat.pow_succ] at fits
        omega
      rw [shape, List.cons_append] at blanked
      rcases blanked.cons_cases with ⟨count, ahead, enough⟩ | ⟨rest, ahead, inside⟩
      · rw [List.length_append] at enough
        exact ⟨0, _, digits_of_pad ahead, .inr ⟨Nat.zero_le _, count, by omega, rfl⟩⟩
      · obtain ⟨high, next, read, reads⟩ :=
          @ih (reader.after [(number % 128 + 128).toUInt8] rest) _ fewer inside
        refine ⟨number % 128 + 128 * high, next, ?_, ?_⟩
        · rw [digits, byte_of_rest ahead]
          simp only [value]
          rw [if_neg (by omega), read, Nat.add_sub_cancel]
        · rcases reads with ⟨rfl, behind⟩ | ⟨less, blank⟩
          · exact .inl ⟨by omega, behind⟩
          · exact .inr ⟨by omega, blank⟩

/-- A number is read as it was written, or as a smaller one where it is blanked. -/
theorem varint_of_blanked {number : Nat} (fits : number < 2 ^ 64)
    (blanked : Blanked (varintBytes number ++ back) reader.rest) :
    ∃ found next, reader.varint = .ok (found, next) ∧ ReadsTo number back found next.rest :=
  digits_of_blanked fits blanked

/-- Reading a number that may be blanked comes to stand behind it. -/
theorem reaches_varint {number : Nat} (fits : number < 2 ^ 64)
    (blanked : Blanked (varintBytes number ++ back) reader.rest) (more : back ≠ []) :
    Reaches varint reader back := by
  obtain ⟨found, next, read, reads⟩ := varint_of_blanked fits blanked
  exact .inr ⟨found, next, read, reads.blanked more⟩

/-- Behind the length of a payload there are as many bytes as were read to be there, and then what
follows the payload. -/
theorem reaches_payload {payload : Bytes} {later : Nat → Step α}
    (sized : payload.length < 2 ^ 64)
    (blanked : Blanked (varintBytes payload.length ++ (payload ++ back)) reader.rest)
    (more : back ≠ [])
    (taken : ∀ (held : Bytes) (next : Reader), Blanked (held ++ back) next.rest →
      Reaches (later held.length) next back) :
    Reaches (valueLength >>= later) reader back := by
  obtain ⟨found, next, read, reads⟩ := varint_of_blanked sized blanked
  have measured : valueLength reader = if maxValueLength < found then
      .error (.flaw (.valueTooLong found)) else .ok (found, next) := by rw [valueLength, read]
  by_cases long : maxValueLength < found
  · rw [if_pos long] at measured
    exact .inl ⟨_, by rw [bind_apply, measured]⟩
  · rw [if_neg long] at measured
    obtain ⟨held, rfl, behind⟩ : ∃ held : Bytes, held.length = found ∧
        Blanked (held ++ back) next.rest := by
      rcases reads with ⟨rfl, behind⟩ | ⟨less, count, enough, blank⟩
      · exact ⟨payload, rfl, behind⟩
      · rw [List.length_append] at enough
        have size : (payload.take found).length = found := by
          rw [List.length_take]
          omega
        refine ⟨payload.take found, size, ?_⟩
        rw [blank]
        refine .of_replicate (List.append_ne_nil_of_right_ne_nil _ more) ?_
        rw [List.length_append, size]
        omega
    exact Reaches.bind_of_ok measured (taken held next behind)

/-- Reading a value that may be blanked comes to stand behind it. -/
theorem reaches_value {value : StoredValue} (sized : value.Sized version)
    (blanked : Blanked (varintBytes value.lead ++ (value.payload ++ back)) reader.rest)
    (more : back ≠ []) : Reaches (·.value value.kind) reader back := by
  cases value with
  | integer number =>
    change Reaches (·.value .integer) reader back
    rw [value_integer_eq]
    refine (reaches_varint (zigzag_lt number) blanked more).bind fun _ next behind => ?_
    exact reaches_pure behind
  | text text =>
    change Reaches (·.value .text) reader back
    rw [value_text_eq]
    refine reaches_payload sized.sized blanked more fun held next behind => ?_
    refine (run_of_blanked behind more).bind fun taken _ behind => ?_
    split
    · exact reaches_throw _
    · exact reaches_pure behind
  | bytes payload =>
    change Reaches (·.value .bytes) reader back
    rw [value_bytes_eq]
    refine reaches_payload sized.sized blanked more fun held next behind => ?_
    exact (run_of_blanked behind more).bind fun _ _ behind => reaches_pure behind
  | hosted payload =>
    change Reaches (·.value .hosted) reader back
    rw [value_hosted_eq]
    refine reaches_payload sized.sized blanked more fun held next behind => ?_
    have start : Reaches (look position) next (held ++ back) := .inr ⟨_, next, rfl, behind⟩
    refine start.bind fun _ _ behind => ?_
    exact (run_of_blanked behind more).bind fun _ _ behind => reaches_pure behind

/-- A pad byte is no tag. -/
theorem junction_of_pad {next : Reader} (read : reader.byte = .ok (padByte, next)) :
    reader.junction version = .error (.flaw (.unknownTag padByte version.number)) := by
  rw [junction, read]
  simp only [kind?_padByte]

/-- Reading a junction that may be blanked comes to stand behind it. -/
theorem reaches_junction {junction : Key × StoredValue} (sized : junction.2.Sized version)
    (blanked : Blanked (junctionBytes junction ++ back) reader.rest) (more : back ≠ []) :
    Reaches (Reader.junction version) reader back := by
  rw [junctionBytes, junctionLead, List.cons_append, List.cons_append, List.append_assoc,
    List.append_assoc] at blanked
  rcases byte_of_blanked blanked with ⟨_, read⟩ | ⟨_, read, inside⟩
  · exact .inl ⟨_, junction_of_pad read⟩
  · have further := List.append_ne_nil_of_right_ne_nil (varintBytes junction.2.lead)
      (List.append_ne_nil_of_right_ne_nil junction.2.payload more)
    rw [junction_eq]
    refine Reaches.bind_of_ok read ?_
    simp only [sized.known]
    refine (reaches_varint junction.1.toNat_lt inside further).bind fun key next behind => ?_
    exact (reaches_value sized behind more).bind fun _ _ behind => reaches_pure behind

/-- Among junctions, a pad byte is a flaw. -/
theorem junctions_of_pad {rest : Bytes} {held : Junctions}
    (ahead : reader.rest = padByte :: rest) : reader.junctions version held =
      .error (.flaw (.unknownTag padByte version.number)) := by
  have unmarked : reader.atMark = false := by
    rw [atMark, ahead]
    rfl
  rw [junctions_of_not_atMark unmarked, moreJunctions, bind_apply,
    junction_of_pad (byte_of_rest ahead)]

/-- Junctions are read up to the mark behind them, or up to a pad byte, which is a flaw. -/
theorem reaches_junctions {values : List (Key × StoredValue)} {held : Junctions} {mark : UInt8}
    (sized : ∀ junction ∈ values, junction.2.Sized version)
    (known : mark = atomMark ∨ mark = atomsEnd)
    (blanked : Blanked (values.flatMap junctionBytes ++ mark :: back) reader.rest) :
    Reaches (·.junctions version held) reader (mark :: back) := by
  induction values generalizing reader held with
  | nil =>
    rcases Blanked.cons_cases blanked with ⟨_, ahead, _⟩ | ⟨_, ahead, _⟩
    · exact .inl ⟨_, junctions_of_pad ahead⟩
    · have marked : reader.atMark = true := by
        rw [atMark, ahead, Bool.or_eq_true, beq_iff_eq, beq_iff_eq]
        exact known
      exact .inr ⟨held, reader, junctions_of_atMark marked, blanked⟩
  | cons junction later ih =>
    obtain ⟨first, others⟩ := List.forall_mem_cons.mp sized
    rw [List.flatMap_cons, List.append_assoc] at blanked
    rcases Blanked.cons_cases blanked with ⟨_, ahead, _⟩ | ⟨_, ahead, _⟩
    · exact .inl ⟨_, junctions_of_pad ahead⟩
    · have unmarked : reader.atMark = false := by
        obtain ⟨notAtom, notEnd⟩ := tag_ne_mark junction.2.kind
        rw [atMark, ahead, Bool.or_eq_false_iff, beq_eq_false_iff_ne, beq_eq_false_iff_ne]
        exact ⟨notAtom, notEnd⟩
      have further := List.append_ne_nil_of_right_ne_nil (later.flatMap junctionBytes)
        (List.cons_ne_nil mark back)
      have more : Reaches (moreJunctions version held) reader (mark :: back) := by
        refine (reaches_junction first blanked further).bind fun found next behind => ?_
        split
        · exact reaches_throw _
        · exact ih others behind
      exact more.congr (junctions_of_not_atMark unmarked)

/-- Reading an atom that may be blanked comes to stand at the mark behind it. -/
theorem reaches_atom {atom : StoredAtom} {mark : UInt8} (sized : atom.Sized version)
    (known : mark = atomMark ∨ mark = atomsEnd)
    (blanked : Blanked
      (varintBytes atom.id ++ (atom.values.flatMap junctionBytes ++ mark :: back)) reader.rest) :
    Reaches (Reader.atom version) reader (mark :: back) := by
  have further := List.append_ne_nil_of_right_ne_nil (atom.values.flatMap junctionBytes)
    (List.cons_ne_nil mark back)
  rw [atom_eq]
  refine (reaches_varint sized.numbered blanked further).bind fun id next behind => ?_
  exact (reaches_junctions sized.sized known behind).bind fun _ _ behind => reaches_pure behind

/-- A pad byte is no mark. -/
theorem atoms_of_pad {next : Reader} (read : reader.byte = .ok (padByte, next)) :
    reader.atoms version = .error (.flaw (.unknownTag padByte version.number)) := by
  rw [atoms_eq, read]
  simp only
  rw [if_neg (by decide), if_neg (by decide), kind?_padByte]

/-- Behind an atom there is the mark of the next one, or the end of the atoms. -/
theorem exists_mark (atoms : List StoredAtom) (rest : Bytes) :
    ∃ mark more, atoms.flatMap atomBytes ++ atomsEnd :: rest = mark :: more ∧
      (mark = atomMark ∨ mark = atomsEnd) := by
  cases atoms with
  | nil => exact ⟨atomsEnd, rest, rfl, .inr rfl⟩
  | cons atom later => exact ⟨atomMark, _, rfl, .inl rfl⟩

/-- Reading atoms that may be blanked comes to stand behind them. -/
theorem reaches_atoms {atoms : List StoredAtom} (sized : ∀ atom ∈ atoms, atom.Sized version)
    (blanked : Blanked (atoms.flatMap atomBytes ++ atomsEnd :: back) reader.rest) :
    Reaches (Reader.atoms version) reader back := by
  induction atoms generalizing reader with
  | nil =>
    rcases byte_of_blanked blanked with ⟨_, read⟩ | ⟨next, read, behind⟩
    · exact .inl ⟨_, atoms_of_pad read⟩
    · refine .inr ⟨[], next, ?_, behind⟩
      rw [atoms_eq, read]
      rfl
  | cons atom later ih =>
    obtain ⟨first, others⟩ := List.forall_mem_cons.mp sized
    obtain ⟨mark, more, shape, known⟩ := exists_mark later back
    rw [List.flatMap_cons, List.append_assoc, shape, atomBytes, atomLead, List.cons_append,
      List.cons_append, List.append_assoc] at blanked
    rcases byte_of_blanked blanked with ⟨_, read⟩ | ⟨next, read, inside⟩
    · exact .inl ⟨_, atoms_of_pad read⟩
    · rw [atoms_eq_steps]
      refine Reaches.bind_of_ok read ?_
      rw [if_neg (by decide), if_pos rfl]
      refine (reaches_atom first known inside).bind fun draft next behind => ?_
      rw [← shape] at behind
      exact (ih others behind).bind fun _ _ behind => reaches_pure behind

/-- A pad byte does not end a record. -/
theorem closing_of_blanked {stored : Bytes} (four : stored.length = 4)
    (blanked : Blanked (stored ++ [recordEnd]) reader.rest) :
    ∃ fault, fault ≠ .ended ∧ reader.closing = .error fault := by
  obtain ⟨enough, behind⟩ := blanked.drop (List.cons_ne_nil recordEnd [])
  rw [four] at enough behind
  rcases behind.cons_cases with ⟨count, ahead, _⟩ | ⟨rest, _, nothing⟩
  · have size : (reader.rest.take 4).length = 4 := by
      rw [List.length_take]
      omega
    have split : reader.rest =
        reader.rest.take 4 ++ padByte :: List.replicate count padByte := by
      rw [← ahead, List.take_append_drop]
    exact closing_of_wrong size split (.inr (by decide))
  · exact absurd nothing Blanked.not_nil

/-- A record of which the end has been replaced by pad bytes is not read, and it does not seem to be
cut short. -/
theorem record_of_blanked {record : StoredRecord} (sized : record.Sized version)
    {behind rest : Bytes} (shape : record.bytes = recordMark :: behind)
    (blanked : Blanked behind rest) (offset : Nat) :
    ∃ fault, fault ≠ .ended ∧ (behindMark rest offset).record version offset = .error fault := by
  obtain ⟨ucn, atoms, ucn_pos⟩ := record
  let sum := wordBytes (Checksum.ofBytes (coveredBytes ucn atoms))
  have parts : behind =
      varintBytes ucn ++ (atoms.flatMap atomBytes ++ atomsEnd :: (sum ++ [recordEnd])) := by
    apply (List.cons.inj (shape.symm.trans _)).2
    · exact recordMark
    · simp only [StoredRecord.bytes, recordBytes, coveredBytes, recordLead, sum, List.cons_append,
        List.append_assoc, List.nil_append]
  rw [parts] at blanked
  have further := List.append_ne_nil_of_right_ne_nil (atoms.flatMap atomBytes)
    (List.cons_ne_nil atomsEnd (sum ++ [recordEnd]))
  have start : Blanked _ (behindMark rest offset).rest := blanked
  rw [record_eq]
  refine (reaches_varint sized.counted start further).fails fun found inside behind => ?_
  split
  · refine (reaches_atoms sized.sized behind).fails fun drafts covered behind => ?_
    obtain ⟨fault, unlike, failed⟩ := closing_of_blanked rfl behind
    exact ⟨fault, unlike, by rw [bind_apply, close, failed]; rfl⟩
  · exact ⟨.flaw .withoutUcn, flaw_ne_ended _, rfl⟩

end Reader

/-- A scan that comes to a record with pad bytes in place of its end fails there, and not for want
of bytes. -/
theorem StoredRecord.Sized.scanFrom_blanked {version : Version} {record : StoredRecord}
    (sized : record.Sized version) {kept lost : Bytes} (split : record.bytes = kept ++ lost)
    (some : kept ≠ []) (missing : lost ≠ []) {count : Nat} (enough : lost.length ≤ count)
    (last position : Nat) :
    ∃ error, (error = .recordChecksum position ∨ ∃ wrong, error = .corrupt position wrong) ∧
      scanFrom version last position (kept ++ List.replicate count padByte) =
        ⟨[], .error error⟩ := by
  obtain ⟨first, inside, rfl⟩ := List.exists_cons_of_ne_nil some
  obtain rfl : recordMark = first := (List.cons.inj split).1
  have blanked : Blanked (inside ++ lost) (inside ++ List.replicate count padByte) :=
    ⟨inside, lost, count, missing, rfl, enough, rfl⟩
  obtain ⟨fault, unlike, failed⟩ := Reader.record_of_blanked sized split blanked position
  exact scanFrom_of_fault unlike failed last

/-- A scan of records in front of one with pad bytes in place of its end. -/
theorem Spans.scanFrom_blanked {version : Version} {position stop : Nat} {bytes : Bytes}
    {records : List Record} (spans : Spans version position bytes records stop [])
    {record : StoredRecord} (sized : record.Sized version) {kept lost : Bytes}
    (split : record.bytes = kept ++ lost) (some : kept ≠ []) (missing : lost ≠ []) {count : Nat}
    (enough : lost.length ≤ count) (last : Nat) :
    ∃ error, (error = .recordChecksum stop ∨ ∃ wrong, error = .corrupt stop wrong) ∧
      scanFrom version last position (bytes ++ (kept ++ List.replicate count padByte)) =
        ⟨records, .error error⟩ := by
  obtain ⟨ends, scanned⟩ := spans.scanFrom_behind last
  obtain ⟨error, cause, failed⟩ := sized.scanFrom_blanked split some missing enough ends stop
  refine ⟨error, cause, ?_⟩
  rw [scanned, List.nil_append, failed, List.append_nil]

end AtomStore.Log
