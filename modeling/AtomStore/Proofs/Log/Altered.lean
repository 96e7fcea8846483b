import AtomStore.Proofs.Checksum
import AtomStore.Proofs.Log.Layout
import Mathlib.Data.List.Forall2

/-!
# Records with one byte changed

A byte of a record is a mark, a tag or a digit of a length, which decide what the bytes behind it
are read as; or it is a digit of some other number, of which only the high bit does so; or it is
part of a payload, of the checksum, or the end. When bytes are changed without touching what the
others are read as, every part of the record is read up to the same place, or a flaw is found on the
way. The checksum then tells that one byte has been changed.
-/

namespace AtomStore.Log

/-- What a byte of a record may be changed to without the others being read as something else. -/
inductive ByteRole where
  /-- A mark, a tag or a digit of a length: nothing else. -/
  | fixed
  /-- A digit of a UCN, a slot, a key or an integer: another digit that goes on if this one does. -/
  | digit
  /-- A byte of a payload or behind what the checksum covers: any byte. -/
  | free
  deriving DecidableEq

/-- Whether a byte in a role may be changed to another. -/
def ByteRole.Allows (old new : UInt8) : ByteRole → Prop
  | fixed => new = old
  | digit => new.toNat < 128 ↔ old.toNat < 128
  | free => True

/-- A byte and its role. -/
abbrev Field := ByteRole × UInt8

/-- Bytes that all have one role. -/
def fields (role : ByteRole) (bytes : Bytes) : List Field := bytes.map (Prod.mk role)

/-- The role of the number in front of a value's bytes, which is an integer itself or a length. -/
def StoredValue.leadRole : StoredValue → ByteRole
  | integer _ => .digit
  | _ => .fixed

def junctionFields (junction : Key × StoredValue) : List Field :=
  (.fixed, junction.2.kind.tag) ::
    (fields .digit (varintBytes junction.1.toNat) ++
      (fields junction.2.leadRole (varintBytes junction.2.lead) ++
        fields .free junction.2.payload))

def atomFields (atom : StoredAtom) : List Field :=
  (.fixed, atomMark) ::
    (fields .digit (varintBytes atom.id) ++ atom.values.flatMap junctionFields)

def coveredFields (ucn : Nat) (atoms : List StoredAtom) : List Field :=
  (.fixed, recordMark) ::
    (fields .digit (varintBytes ucn) ++ (atoms.flatMap atomFields ++ [(.fixed, atomsEnd)]))

/-- The bytes of a record with their roles. -/
def StoredRecord.fields (record : StoredRecord) : List Field :=
  coveredFields record.ucn record.atoms ++
    Log.fields .free
      (wordBytes (Checksum.ofBytes (coveredBytes record.ucn record.atoms)) ++ [recordEnd])

theorem map_snd_fields (role : ByteRole) (bytes : Bytes) :
    (fields role bytes).map Prod.snd = bytes := by
  rw [fields, List.map_map]
  exact List.map_id _

/-- The roles of a junction are given to the bytes that are written for it. -/
theorem map_snd_junctionFields (junction : Key × StoredValue) :
    (junctionFields junction).map Prod.snd = junctionBytes junction := by
  simp only [junctionFields, List.map_cons, List.map_append, map_snd_fields, junctionBytes,
    junctionLead, List.cons_append, List.append_assoc]

/-- The roles of an atom are given to the bytes that are written for it. -/
theorem map_snd_atomFields (atom : StoredAtom) :
    (atomFields atom).map Prod.snd = atomBytes atom := by
  simp only [atomFields, List.map_cons, List.map_append, map_snd_fields, List.map_flatMap,
    map_snd_junctionFields, atomBytes, atomLead, List.cons_append]

/-- The roles of what the checksum covers are given to the bytes that are written for it. -/
theorem map_snd_coveredFields (ucn : Nat) (atoms : List StoredAtom) :
    (coveredFields ucn atoms).map Prod.snd = coveredBytes ucn atoms := by
  simp only [coveredFields, List.map_cons, List.map_append, map_snd_fields, List.map_flatMap,
    map_snd_atomFields, List.map_nil, coveredBytes, recordLead, List.cons_append,
    List.append_assoc]

/-- The roles are given to the bytes that are written. -/
theorem StoredRecord.map_snd_fields (record : StoredRecord) :
    record.fields.map Prod.snd = record.bytes := by
  simp only [fields, List.map_append, map_snd_coveredFields, Log.map_snd_fields, bytes, recordBytes,
    List.append_assoc]

/-- The last byte of a record may become any other. -/
theorem StoredRecord.exists_last_field (record : StoredRecord) :
    ∃ place : Nat, record.fields[place]? = some (ByteRole.free, recordEnd) := by
  apply List.getElem?_of_mem
  apply List.mem_append_right
  apply List.mem_map_of_mem
  exact List.mem_append_right _ List.mem_cons_self

/-- Whether bytes are what others may be changed to. -/
def Altered (given : List Field) (bytes : Bytes) : Prop :=
  List.Forall₂ (fun field byte => field.1.Allows field.2 byte) given bytes

namespace Altered

variable {front back given : List Field} {bytes old : Bytes}

/-- Bytes changed in two parts are parts that are changed. -/
theorem split (altered : Altered (front ++ back) bytes) :
    ∃ first second, bytes = first ++ second ∧ Altered front first ∧ Altered back second := by
  induction front generalizing bytes with
  | nil => exact ⟨[], bytes, rfl, .nil, altered⟩
  | cons field rest ih =>
    obtain ⟨byte, others, allowed, later, rfl⟩ := List.forall₂_cons_left_iff.mp altered
    obtain ⟨first, second, rfl, own, behind⟩ := ih later
    exact ⟨byte :: first, second, rfl, .cons allowed own, behind⟩

/-- A fixed byte in front stays what it is. -/
theorem fixed_cons {byte : UInt8} (altered : Altered ((.fixed, byte) :: back) bytes) :
    ∃ rest, bytes = byte :: rest ∧ Altered back rest := by
  obtain ⟨new, rest, same, later, rfl⟩ := List.forall₂_cons_left_iff.mp altered
  exact ⟨rest, congrArg (· :: rest) same, later⟩

/-- Fixed bytes stay what they are. -/
theorem fixed (altered : Altered (fields .fixed old) bytes) : bytes = old := by
  induction old generalizing bytes with
  | nil => exact List.forall₂_nil_left_iff.mp altered
  | cons byte rest ih =>
    obtain ⟨others, rfl, later⟩ := fixed_cons altered
    rw [ih later]

/-- Changes replace bytes and do not move them. -/
theorem length_eq {role : ByteRole} (altered : Altered (fields role old) bytes) :
    bytes.length = old.length := by
  rw [← List.Forall₂.length_eq altered, fields, List.length_map]

/-- Bytes may stay as they are. -/
theorem refl (given : List Field) : Altered given (given.map Prod.snd) := by
  apply List.forall₂_map_right_iff.mpr
  apply List.forall₂_same.mpr
  rintro ⟨role, byte⟩ _
  cases role with
  | fixed => exact rfl
  | digit => exact Iff.rfl
  | free => exact trivial

/-- One byte is changed. -/
theorem set {place : Nat} {role : ByteRole} {byte new : UInt8}
    (found : given[place]? = some (role, byte)) (allowed : role.Allows byte new) :
    Altered given ((given.map Prod.snd).set place new) := by
  induction given generalizing place with
  | nil => cases found
  | cons field rest ih =>
    cases place with
    | zero =>
      obtain rfl := Option.some.inj found
      exact .cons allowed (refl rest)
    | succ place =>
      obtain ⟨same, _⟩ := List.forall₂_cons.mp (refl (field :: rest))
      exact .cons same (ih found)

end Altered

namespace Reader

variable {α β : Type} {version : Version} {reader : Reader} {front back taken rest : Bytes}

theorem flaw_ne_ended (wrong : RecordFlaw) : ReadFault.flaw wrong ≠ .ended := by
  intro same
  cases same

theorem checksum_ne_ended : ReadFault.checksum ≠ .ended := by
  intro same
  cases same

/-- Whether a step comes to stand behind some bytes, unless it finds a flaw before. -/
def PassesAt (step : Step α) (reader : Reader) (taken rest : Bytes) : Prop :=
  (∃ wrong, step reader = .error (.flaw wrong)) ∨
    ∃ found, step reader = .ok (found, reader.after taken rest)

namespace PassesAt

variable {step : Step α} {later : α → Step β}

/-- Steps that agree here pass to the same place. -/
theorem congr {other : Step α} (passes : PassesAt step reader taken rest)
    (same : other reader = step reader) : PassesAt other reader taken rest := by
  rw [PassesAt, same]
  exact passes

/-- One step that finds something known, and then another. -/
theorem bind_of_ok {found : α}
    (began : step reader = .ok (found, reader.after front (back ++ rest)))
    (second : PassesAt (later found) (reader.after front (back ++ rest)) back rest) :
    PassesAt (step >>= later) reader (front ++ back) rest := by
  apply second.imp
  · rintro ⟨wrong, failed⟩
    exact ⟨wrong, by rw [bind_apply, began]; exact failed⟩
  · rintro ⟨last, ended⟩
    refine ⟨last, ?_⟩
    rw [after_after] at ended
    rw [bind_apply, began]
    exact ended

/-- One step, and then another whatever the first one has found. -/
theorem bind (first : PassesAt step reader front (back ++ rest))
    (second : ∀ found, PassesAt (later found) (reader.after front (back ++ rest)) back rest) :
    PassesAt (step >>= later) reader (front ++ back) rest := by
  rcases first with ⟨wrong, failed⟩ | ⟨found, began⟩
  · left
    exact ⟨wrong, by rw [bind_apply, failed]⟩
  · exact bind_of_ok began (second found)

/-- One step, and then another that takes nothing. -/
theorem check (first : PassesAt step reader taken rest)
    (second : ∀ found, PassesAt (later found) (reader.after taken rest) [] rest) :
    PassesAt (step >>= later) reader taken rest := by
  have both : PassesAt (step >>= later) reader (taken ++ []) rest := bind first second
  rw [List.append_nil] at both
  exact both

/-- One step, and then another that fails but does not run out of bytes. -/
theorem fails (first : PassesAt step reader taken rest)
    (second : ∀ found, ∃ fault, fault ≠ .ended ∧
      later found (reader.after taken rest) = .error fault) :
    ∃ fault, fault ≠ .ended ∧ (step >>= later) reader = .error fault := by
  rcases first with ⟨wrong, failed⟩ | ⟨found, began⟩
  · exact ⟨.flaw wrong, flaw_ne_ended wrong, by rw [bind_apply, failed]⟩
  · obtain ⟨fault, unlike, failed⟩ := second found
    exact ⟨fault, unlike, by rw [bind_apply, began]; exact failed⟩

end PassesAt

/-- A step that reads nothing stays where it is. -/
theorem passes_pure (found : α) : PassesAt (pure found) (reader.after taken rest) [] rest := by
  right
  refine ⟨found, ?_⟩
  rw [after_after, List.append_nil]
  rfl

/-- A step that finds a flaw passes anywhere. -/
theorem passes_throw (wrong : RecordFlaw) :
    PassesAt (throw (.flaw wrong) : Step α) reader taken rest :=
  .inl ⟨wrong, rfl⟩

/-- Digits are passed when each of them goes on where it did. -/
theorem passes_digits {room number : Nat} (fits : number < 2 * 128 ^ room)
    (altered : Altered (fields .digit (varintBytes number)) taken)
    (ahead : reader.rest = taken ++ rest) : PassesAt (·.digits room) reader taken rest := by
  induction room generalizing reader number taken with
  | zero =>
    rw [varintBytes_of_lt (by omega)] at altered
    obtain ⟨last, others, _, nothing, rfl⟩ := List.forall₂_cons_left_iff.mp altered
    obtain rfl := List.forall₂_nil_left_iff.mp nothing
    rw [digits_zero_eq]
    refine PassesAt.check (.inr ⟨last, byte_of_rest ahead⟩) fun last => ?_
    split
    · exact passes_pure _
    · exact passes_throw _
  | succ room ih =>
    rw [digits_succ_eq]
    by_cases small : number < 128
    · rw [varintBytes_of_lt small] at altered
      obtain ⟨low, others, same, nothing, rfl⟩ := List.forall₂_cons_left_iff.mp altered
      obtain rfl := List.forall₂_nil_left_iff.mp nothing
      have ends : low.toNat < 128 := by
        apply same.mpr
        rw [Nat.toUInt8, UInt8.toNat_ofNat']
        omega
      change PassesAt _ reader ([low] ++ []) rest
      refine PassesAt.bind_of_ok (byte_of_rest ahead) ?_
      rw [if_pos ends]
      exact passes_pure _
    · rw [varintBytes_of_le (Nat.not_lt.mp small)] at altered
      obtain ⟨low, others, same, higher, rfl⟩ := List.forall₂_cons_left_iff.mp altered
      have goes_on : ¬low.toNat < 128 := by
        intro ends
        have ended := same.mp ends
        rw [Nat.toUInt8, UInt8.toNat_ofNat'] at ended
        omega
      have fewer : number / 128 < 2 * 128 ^ room := by
        rw [Nat.pow_succ] at fits
        omega
      change PassesAt _ reader ([low] ++ others) rest
      refine PassesAt.bind_of_ok (byte_of_rest ahead) ?_
      rw [if_neg goes_on]
      exact (ih fewer higher (after_rest ..)).check fun _ => passes_pure _

/-- The digits of a number are passed however they are changed. -/
theorem passes_varint {number : Nat} (fits : number < 2 ^ 64)
    (altered : Altered (fields .digit (varintBytes number)) taken)
    (ahead : reader.rest = taken ++ rest) : PassesAt varint reader taken rest :=
  passes_digits fits altered ahead

/-- A value is passed when its length is as it was, or its digits go on where they did. -/
theorem passes_value {value : StoredValue} (short : value.payload.length ≤ maxValueLength)
    (lead : Altered (fields value.leadRole (varintBytes value.lead)) front)
    (payload : Altered (fields .free value.payload) back)
    (ahead : reader.rest = front ++ (back ++ rest)) :
    PassesAt (·.value value.kind) reader (front ++ back) rest := by
  have size := payload.length_eq
  have ran (other : Reader) (next : other.rest = back ++ rest) :
      other.run value.payload.length = .ok (back, other.after back rest) := by
    rw [← size]
    exact run_of_rest next
  cases value with
  | integer number =>
    obtain rfl := List.eq_nil_of_length_eq_zero size
    change PassesAt (·.value .integer) reader (front ++ []) rest
    rw [value_integer_eq, List.append_nil]
    exact (passes_varint (zigzag_lt number) lead ahead).check fun _ => passes_pure _
  | text text =>
    obtain rfl := lead.fixed
    change PassesAt (·.value .text) reader _ rest
    rw [value_text_eq]
    refine PassesAt.bind_of_ok (valueLength_of_rest short ahead) ?_
    refine PassesAt.check (.inr ⟨back, ran _ (after_rest ..)⟩) fun taken => ?_
    split
    · exact passes_throw _
    · exact passes_pure _
  | bytes held =>
    obtain rfl := lead.fixed
    change PassesAt (·.value .bytes) reader _ rest
    rw [value_bytes_eq]
    refine PassesAt.bind_of_ok (valueLength_of_rest short ahead) ?_
    exact PassesAt.check (.inr ⟨back, ran _ (after_rest ..)⟩) fun _ => passes_pure _
  | hosted held =>
    obtain rfl := lead.fixed
    change PassesAt (·.value .hosted) reader _ rest
    rw [value_hosted_eq]
    refine PassesAt.bind_of_ok (valueLength_of_rest short ahead) ?_
    change PassesAt _ _ ([] ++ back) rest
    refine PassesAt.bind_of_ok rfl ?_
    exact PassesAt.check (.inr ⟨back, ran _ (after_rest ..)⟩) fun _ => passes_pure _

/-- A junction is passed however its bytes are changed. -/
theorem passes_junction {junction : Key × StoredValue} (fits : junction.2.Fits version)
    (altered : Altered (junctionFields junction) taken) (ahead : reader.rest = taken ++ rest) :
    PassesAt (Reader.junction version) reader taken rest := by
  obtain ⟨others, rfl, inside⟩ := altered.fixed_cons
  obtain ⟨key, behind, rfl, keyed, valued⟩ := inside.split
  obtain ⟨lead, payload, rfl, led, held⟩ := valued.split
  rw [junction_eq]
  change PassesAt _ reader ([junction.2.kind.tag] ++ (key ++ (lead ++ payload))) rest
  refine PassesAt.bind_of_ok (byte_of_rest ahead) ?_
  simp only [fits.known]
  refine PassesAt.bind (passes_varint junction.1.toNat_lt keyed ?_) fun found => ?_
  · rw [after_rest, List.append_assoc]
  · refine (passes_value fits.short led held ?_).check fun _ => passes_pure _
    rw [after_rest, List.append_assoc]

/-- Junctions are passed up to the mark behind them, unless a key comes to be repeated. -/
theorem passes_junctions {values : List (Key × StoredValue)} {held : Junctions}
    (fitting : ∀ junction ∈ values, junction.2.Fits version)
    (altered : Altered (values.flatMap junctionFields) taken)
    (marked : ∀ other : Reader, other.rest = rest → other.atMark = true)
    (ahead : reader.rest = taken ++ rest) :
    PassesAt (·.junctions version held) reader taken rest := by
  induction values generalizing reader held taken with
  | nil =>
    obtain rfl := List.forall₂_nil_left_iff.mp altered
    have here : reader.rest = rest := ahead
    right
    refine ⟨held, ?_⟩
    rw [← here]
    exact junctions_of_atMark (marked reader here)
  | cons junction later ih =>
    obtain ⟨fits, others⟩ := List.forall_mem_cons.mp fitting
    obtain ⟨own, behind, rfl, here, further⟩ := Altered.split altered
    rw [List.append_assoc] at ahead
    have unmarked : reader.atMark = false := by
      obtain ⟨notAtom, notEnd⟩ := tag_ne_mark junction.2.kind
      obtain ⟨inside, rfl, _⟩ := here.fixed_cons
      rw [atMark, ahead, List.cons_append, Bool.or_eq_false_iff, beq_eq_false_iff_ne,
        beq_eq_false_iff_ne]
      exact ⟨notAtom, notEnd⟩
    have more : PassesAt (moreJunctions version held) reader (own ++ behind) rest := by
      refine PassesAt.bind (passes_junction fits here ahead) fun found => ?_
      split
      · exact passes_throw _
      · exact ih others further (after_rest ..)
    exact more.congr (junctions_of_not_atMark unmarked)

/-- An atom is passed however its bytes are changed, up to the mark behind it. -/
theorem passes_atom {atom : StoredAtom} (fits : atom.Fits version)
    (numbered : Altered (fields .digit (varintBytes atom.id)) front)
    (bound : Altered (atom.values.flatMap junctionFields) back)
    (marked : ∀ other : Reader, other.rest = rest → other.atMark = true)
    (ahead : reader.rest = front ++ (back ++ rest)) :
    PassesAt (Reader.atom version) reader (front ++ back) rest := by
  rw [atom_eq]
  refine PassesAt.bind (passes_varint fits.numbered numbered ahead) fun id => ?_
  exact (passes_junctions fits.fitting bound marked (after_rest ..)).check fun _ => passes_pure _

/-- Changed atoms still begin with a mark. -/
theorem atMark_of_altered {atoms : List StoredAtom}
    (altered : Altered (atoms.flatMap atomFields ++ [(.fixed, atomsEnd)]) taken)
    (ahead : reader.rest = taken ++ rest) : reader.atMark = true := by
  cases atoms with
  | nil =>
    obtain ⟨others, rfl, _⟩ := Altered.fixed_cons altered
    simp only [atMark, ahead, List.cons_append, BEq.rfl, Bool.or_true]
  | cons atom later =>
    obtain ⟨others, rfl, _⟩ := Altered.fixed_cons altered
    simp only [atMark, ahead, List.cons_append, BEq.rfl, Bool.true_or]

/-- The atoms of a record are passed however their bytes are changed. -/
theorem passes_atoms {atoms : List StoredAtom} (fitting : ∀ atom ∈ atoms, atom.Fits version)
    (altered : Altered (atoms.flatMap atomFields ++ [(.fixed, atomsEnd)]) taken)
    (ahead : reader.rest = taken ++ rest) :
    PassesAt (Reader.atoms version) reader taken rest := by
  induction atoms generalizing reader taken with
  | nil =>
    obtain ⟨others, rfl, nothing⟩ := Altered.fixed_cons altered
    obtain rfl := List.forall₂_nil_left_iff.mp nothing
    right
    refine ⟨[], ?_⟩
    rw [atoms_eq, byte_of_rest ahead]
    rfl
  | cons atom later ih =>
    obtain ⟨fits, others⟩ := List.forall_mem_cons.mp fitting
    rw [List.flatMap_cons, List.append_assoc] at altered
    obtain ⟨own, behind, rfl, here, further⟩ := altered.split
    obtain ⟨inside, rfl, within⟩ := here.fixed_cons
    obtain ⟨number, values, rfl, numbered, bound⟩ := within.split
    have marked (other : Reader) (next : other.rest = behind ++ rest) : other.atMark = true :=
      atMark_of_altered further next
    rw [atoms_eq_steps]
    change PassesAt _ reader ([atomMark] ++ ((number ++ values) ++ behind)) rest
    refine PassesAt.bind_of_ok (byte_of_rest ahead) ?_
    rw [if_neg (by decide), if_pos rfl]
    refine PassesAt.bind (passes_atom fits numbered bound marked ?_) fun draft => ?_
    · simp only [after_rest, List.append_assoc]
    · exact (ih others further (after_rest ..)).check fun _ => passes_pure _

theorem after_register (reader : Reader) (taken rest : Bytes) :
    (reader.after taken rest).register = Checksum.updateAll reader.register taken := rfl

/-- A checksum or a last byte that does not fit what was read does not close a record. -/
theorem closing_of_wrong {stored : Bytes} {last : UInt8}
    (four : stored.length = 4) (ahead : reader.rest = stored ++ last :: rest)
    (wrong : stored ≠ wordBytes (Checksum.finish reader.register) ∨ last ≠ recordEnd) :
    ∃ fault, fault ≠ .ended ∧ reader.closing = .error fault := by
  have summed := run_of_rest ahead
  rw [four] at summed
  rw [closing, summed]
  simp only
  rw [byte_of_rest (after_rest ..)]
  simp only
  by_cases unlike : stored ≠ wordBytes (Checksum.finish reader.register)
  · rw [if_pos unlike]
    exact ⟨.checksum, checksum_ne_ended, rfl⟩
  · rw [if_neg unlike, if_pos (wrong.resolve_left unlike)]
    exact ⟨.flaw (.notAtEnd last), flaw_ne_ended _, rfl⟩

/-- A record whose bytes are altered, and whose checksum or last byte does not fit them, is not
read, and it does not seem to be cut short. -/
theorem record_of_altered {record : StoredRecord} (fits : record.Fits version)
    {covered stored : Bytes} {last : UInt8}
    (altered : Altered (coveredFields record.ucn record.atoms) covered) (four : stored.length = 4)
    (wrong : stored ≠ wordBytes (Checksum.ofBytes covered) ∨ last ≠ recordEnd)
    (offset : Nat) (rest : Bytes) :
    ∃ behind fault, covered = recordMark :: behind ∧ fault ≠ .ended ∧
      (behindMark (behind ++ (stored ++ last :: rest)) offset).record version offset =
        .error fault := by
  obtain ⟨others, rfl, inside⟩ := altered.fixed_cons
  obtain ⟨number, body, rfl, numbered, gathered⟩ := inside.split
  suffices failed : ∃ fault, fault ≠ .ended ∧
      (behindMark (number ++ body ++ (stored ++ last :: rest)) offset).record version offset =
        .error fault by
    obtain ⟨fault, unlike, failed⟩ := failed
    exact ⟨number ++ body, fault, rfl, unlike, failed⟩
  have start : (behindMark (number ++ body ++ (stored ++ last :: rest)) offset).rest =
      number ++ (body ++ (stored ++ last :: rest)) := List.append_assoc ..
  rw [record_eq]
  refine PassesAt.fails (passes_varint fits.counted numbered start) fun ucn => ?_
  split
  · refine PassesAt.fails (passes_atoms fits.fitting gathered (after_rest ..)) fun drafts => ?_
    rw [behindMark_eq, after_after, after_after, List.singleton_append]
    rw [Checksum.ofBytes, ← after_register ⟨[], offset, Checksum.initial⟩
      (recordMark :: (number ++ body)) (stored ++ last :: rest)] at wrong
    obtain ⟨fault, unlike, failed⟩ := closing_of_wrong four (after_rest ..) wrong
    exact ⟨fault, unlike, by rw [bind_apply, close, failed]; rfl⟩
  · exact ⟨.flaw .withoutUcn, flaw_ne_ended _, rfl⟩

end Reader

/-- A scan ends at a record that cannot be read though its bytes do not run out. -/
theorem scanFrom_of_fault {version : Version} {rest : Bytes} {position : Nat} {fault : ReadFault}
    (unlike : fault ≠ .ended)
    (failed : (Reader.behindMark rest position).record version position = .error fault)
    (last : Nat) :
    ∃ error, (error = .recordChecksum position ∨ ∃ wrong, error = .corrupt position wrong) ∧
      scanFrom version last position (recordMark :: rest) = ⟨[], .error error⟩ := by
  refine ⟨fault.at position, ?_, by rw [scanFrom_mark, failed]⟩
  cases fault with
  | ended => exact absurd rfl unlike
  | checksum => exact .inl rfl
  | flaw wrong => exact .inr ⟨wrong, rfl⟩

/-- Bytes and their checksum do not fit each other when one byte of either is changed. -/
theorem Altered.set_summed {given : List Field} {place : Nat} {role : ByteRole} {old new : UInt8}
    (found : (given ++ fields .free (wordBytes (Checksum.ofBytes (given.map Prod.snd)) ++
      [recordEnd]))[place]? = some (role, old)) (allowed : role.Allows old new)
    (changed : new ≠ old) :
    ∃ covered stored last,
      (given.map Prod.snd ++ (wordBytes (Checksum.ofBytes (given.map Prod.snd)) ++
        [recordEnd])).set place new = covered ++ (stored ++ [last]) ∧
      Altered given covered ∧ stored.length = 4 ∧
      (stored ≠ wordBytes (Checksum.ofBytes covered) ∨ last ≠ recordEnd) := by
  have four : (wordBytes (Checksum.ofBytes (given.map Prod.snd))).length = 4 := rfl
  have size : (given.map Prod.snd).length = given.length := List.length_map _
  by_cases inside : place < given.length
  · rw [List.getElem?_append_left inside] at found
    have byte : (given.map Prod.snd)[place]? = some old := by
      rw [List.getElem?_map, found]
      rfl
    refine ⟨(given.map Prod.snd).set place new, _, _, List.set_append_left _ _ (size ▸ inside),
      .set found allowed, four, .inl ?_⟩
    intro same
    exact Checksum.ofBytes_set_ne byte changed (wordBytes_injective same).symm
  · have behind : given.length ≤ place := Nat.le_of_not_lt inside
    rw [List.getElem?_append_right behind, fields, List.getElem?_map,
      Option.map_eq_some_iff] at found
    obtain ⟨byte, found, same⟩ := found
    obtain ⟨_, rfl⟩ := Prod.mk.inj same
    rw [List.set_append_right _ _ (size ▸ behind), size]
    generalize place - given.length = further at found
    generalize total : wordBytes (Checksum.ofBytes (given.map Prod.snd)) = sum at *
    refine ⟨given.map Prod.snd, ?_⟩
    by_cases summed : further < sum.length
    · rw [List.getElem?_append_left summed] at found
      rw [List.set_append_left _ _ summed, total]
      exact ⟨_, _, rfl, .refl given, by rw [List.length_set, four],
        .inl (Checksum.set_ne found changed)⟩
    · have last : sum.length ≤ further := Nat.le_of_not_lt summed
      rw [List.getElem?_append_right last] at found
      obtain ⟨here, rfl⟩ := List.getElem?_eq_some_iff.mp found
      have zero : further - sum.length = 0 := Nat.lt_one_iff.mp here
      rw [List.set_append_right _ _ last, zero]
      refine ⟨sum, new, rfl, .refl given, four, .inr ?_⟩
      simp only [zero, List.getElem_cons_zero] at changed
      exact changed

namespace StoredRecord

variable {version : Version} {record : StoredRecord} {place : Nat} {role : ByteRole}
  {old new : UInt8}

/-- A record with one byte changed is what the checksum covers, altered, and a checksum and a last
byte that do not fit it. -/
theorem set_bytes (found : record.fields[place]? = some (role, old)) (allowed : role.Allows old new)
    (changed : new ≠ old) :
    ∃ covered stored last, record.bytes.set place new = covered ++ (stored ++ [last]) ∧
      Altered (coveredFields record.ucn record.atoms) covered ∧ stored.length = 4 ∧
      (stored ≠ wordBytes (Checksum.ofBytes covered) ∨ last ≠ recordEnd) := by
  have whole : record.bytes = (coveredFields record.ucn record.atoms).map Prod.snd ++
      (wordBytes (Checksum.ofBytes ((coveredFields record.ucn record.atoms).map Prod.snd)) ++
        [recordEnd]) := by
    rw [map_snd_coveredFields, bytes, recordBytes, List.append_assoc]
  rw [fields, ← map_snd_coveredFields] at found
  rw [whole]
  exact Altered.set_summed found allowed changed

/-- A scan that comes to a record with one byte changed fails there, and not for want of bytes. -/
theorem scanFrom_set (fits : record.Fits version)
    (found : record.fields[place]? = some (role, old)) (allowed : role.Allows old new)
    (changed : new ≠ old) (last position : Nat) (rest : Bytes) :
    ∃ error, (error = .recordChecksum position ∨ ∃ wrong, error = .corrupt position wrong) ∧
      scanFrom version last position (record.bytes.set place new ++ rest) =
        ⟨[], .error error⟩ := by
  obtain ⟨covered, stored, ending, parts, altered, four, wrong⟩ := set_bytes found allowed changed
  obtain ⟨behind, fault, rfl, unlike, failed⟩ :=
    Reader.record_of_altered fits altered four wrong position rest
  have shape : record.bytes.set place new ++ rest =
      recordMark :: (behind ++ (stored ++ ending :: rest)) := by
    rw [parts]
    simp only [List.cons_append, List.append_assoc, List.nil_append]
  rw [shape]
  exact scanFrom_of_fault unlike failed last

end StoredRecord

end AtomStore.Log
