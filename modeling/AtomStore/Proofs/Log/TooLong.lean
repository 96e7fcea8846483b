import AtomStore.Proofs.Log.RoundTrip

/-!
# Values that are too long

Values of any length are written, but the reader refuses those that are longer than a limit. A
record in which all numbers have 64 bits is read back, or it is refused for the first of its values
that is too long, whatever follows it.
-/

namespace AtomStore.Log

/-- The first of some lengths that is refused. -/
def tooLong? (lengths : List Nat) : Option Nat := lengths.find? (maxValueLength < ·)

/-- No length is too long when all are short enough. -/
theorem tooLong?_eq_none_iff {lengths : List Nat} :
    tooLong? lengths = none ↔ ∀ length ∈ lengths, length ≤ maxValueLength := by
  simp only [tooLong?, List.find?_eq_none, decide_eq_true_eq, Nat.not_lt]

/-- The first length that is too long is among the first ones, or else among the others. -/
theorem tooLong?_append (first second : List Nat) :
    tooLong? (first ++ second) = (tooLong? first).or (tooLong? second) :=
  List.find?_append

theorem tooLong?_cons_of_lt {length : Nat} (long : maxValueLength < length) (rest : List Nat) :
    tooLong? (length :: rest) = some length :=
  List.find?_cons_of_pos (decide_eq_true long)

theorem tooLong?_cons_of_le {length : Nat} (short : length ≤ maxValueLength) (rest : List Nat) :
    tooLong? (length :: rest) = tooLong? rest := by
  apply List.find?_cons_of_neg
  rw [decide_eq_true_eq]
  exact Nat.not_lt.mpr short

/-- A value of any length that a version can hold. -/
structure StoredValue.Sized (version : Version) (value : StoredValue) : Prop where
  known : version.kind? value.kind.tag = some value.kind
  sized : value.payload.length < 2 ^ 64

/-- An atom with ascending keys and values of any length. -/
structure StoredAtom.Sized (version : Version) (atom : StoredAtom) : Prop where
  numbered : atom.id < 2 ^ 64
  ascending : atom.values.Pairwise fun a b => compare a.1 b.1 = .lt
  sized : ∀ junction ∈ atom.values, junction.2.Sized version

/-- A record of atoms with values of any length. -/
structure StoredRecord.Sized (version : Version) (record : StoredRecord) : Prop where
  counted : record.ucn < 2 ^ 64
  sized : ∀ atom ∈ record.atoms, atom.Sized version

def StoredAtom.lengths (atom : StoredAtom) : List Nat := atom.values.map (·.2.payload.length)

def StoredRecord.lengths (record : StoredRecord) : List Nat :=
  record.atoms.flatMap StoredAtom.lengths

variable {version : Version}

/-- A value that can be written fits when its payload is not too long. -/
theorem StoredValue.Sized.fits {value : StoredValue} (sized : value.Sized version)
    (short : value.payload.length ≤ maxValueLength) : value.Fits version :=
  ⟨sized.known, short⟩

/-- An atom that can be written fits when no payload is too long. -/
theorem StoredAtom.Sized.fits {atom : StoredAtom} (sized : atom.Sized version)
    (short : tooLong? atom.lengths = none) : atom.Fits version :=
  ⟨sized.numbered, sized.ascending, fun junction member => (sized.sized junction member).fits
    (tooLong?_eq_none_iff.mp short _ (List.mem_map_of_mem member))⟩

/-- A record that can be written fits when no payload is too long. -/
theorem StoredRecord.Sized.fits {record : StoredRecord} (sized : record.Sized version)
    (short : tooLong? record.lengths = none) : record.Fits version := by
  refine ⟨sized.counted, fun atom member => (sized.sized atom member).fits ?_⟩
  rw [tooLong?_eq_none_iff] at short ⊢
  exact fun length inside => short length (List.mem_flatMap.mpr ⟨atom, member, inside⟩)

namespace Reader

variable {reader : Reader} {rest : Bytes} {length : Nat}

/-- A length beyond the limit is a flaw. -/
theorem valueLength_of_long (long : maxValueLength < length) (sized : length < 2 ^ 64)
    (ahead : reader.rest = varintBytes length ++ rest) :
    reader.valueLength = .error (.flaw (.valueTooLong length)) := by
  rw [valueLength, varint_of_rest sized ahead]
  simp only
  rw [if_pos long]

/-- A value with a payload beyond the limit is a flaw. -/
theorem value_of_long {value : StoredValue} (long : maxValueLength < value.payload.length)
    (sized : value.payload.length < 2 ^ 64)
    (ahead : reader.rest = varintBytes value.lead ++ rest) :
    reader.value value.kind = .error (.flaw (.valueTooLong value.payload.length)) := by
  cases value with
  | integer number => exact absurd long (Nat.not_lt_zero _)
  | text text =>
    simp only [StoredValue.kind, StoredValue.lead, StoredValue.payload, Reader.value]
      at ahead long sized ⊢
    rw [valueLength_of_long long sized ahead]
  | bytes payload =>
    simp only [StoredValue.kind, StoredValue.lead, StoredValue.payload, Reader.value]
      at ahead long sized ⊢
    rw [valueLength_of_long long sized ahead]
  | hosted payload =>
    simp only [StoredValue.kind, StoredValue.lead, StoredValue.payload, Reader.value]
      at ahead long sized ⊢
    rw [valueLength_of_long long sized ahead]

/-- A junction with a payload beyond the limit is a flaw. -/
theorem junction_of_long {key : Key} {value : StoredValue}
    (long : maxValueLength < value.payload.length) (sized : value.Sized version)
    (ahead : reader.rest = junctionBytes (key, value) ++ rest) :
    reader.junction version = .error (.flaw (.valueTooLong value.payload.length)) := by
  have split : reader.rest = value.kind.tag ::
      (varintBytes key.toNat ++ (varintBytes value.lead ++ (value.payload ++ rest))) := by
    rw [ahead]
    simp only [junctionBytes, junctionLead, List.cons_append, List.append_assoc]
  rw [junction, byte_of_rest split]
  simp only [sized.known]
  rw [varint_of_rest key.toNat_lt (after_rest ..)]
  simp only
  rw [value_of_long long sized.sized (after_rest ..)]

/-- Junctions are flawed by the first payload beyond the limit. -/
theorem junctions_of_long {held : Junctions} {values : List (Key × StoredValue)}
    (sized : ∀ junction ∈ values, junction.2.Sized version)
    (distinct : (held.keys ++ values.map Prod.fst).Nodup)
    (long : tooLong? (values.map (·.2.payload.length)) = some length)
    (ahead : reader.rest = values.flatMap junctionBytes ++ rest) :
    reader.junctions version held = .error (.flaw (.valueTooLong length)) := by
  induction values generalizing reader held with
  | nil => cases long
  | cons junction later ih =>
    obtain ⟨key, value⟩ := junction
    obtain ⟨first, others⟩ := List.forall_mem_cons.mp sized
    have next : reader.rest = junctionBytes (key, value) ++
        (later.flatMap junctionBytes ++ rest) := by
      rw [ahead, List.flatMap_cons, List.append_assoc]
    rw [List.map_cons] at long
    by_cases short : value.payload.length ≤ maxValueLength
    · rw [tooLong?_cons_of_le short] at long
      obtain ⟨absent, apart⟩ := distinct_insert distinct
        (value.placed (reader.position + (junctionLead key value).length))
      rw [junctions_cons (first.fits short) absent next, ih others apart long (after_rest ..)]
    · have beyond : maxValueLength < value.payload.length := Nat.not_le.mp short
      rw [tooLong?_cons_of_lt beyond] at long
      rw [junctions_eq, if_neg (by rw [atMark_of_junction next]; exact Bool.false_ne_true),
        junction_of_long beyond first next, Option.some.inj long]

/-- An atom is flawed by the first payload beyond the limit. -/
theorem atom_of_long {atom : StoredAtom} (sized : atom.Sized version)
    (long : tooLong? atom.lengths = some length)
    (ahead : reader.rest = varintBytes atom.id ++ (atom.values.flatMap junctionBytes ++ rest)) :
    reader.atom version = .error (.flaw (.valueTooLong length)) := by
  have distinct : ((SortedMap.empty : Junctions).keys ++ atom.values.map Prod.fst).Nodup :=
    List.pairwise_map.mpr (sized.ascending.imp SortedMap.ne_of_compare_lt)
  rw [Reader.atom, varint_of_rest sized.numbered ahead]
  simp only
  rw [junctions_of_long sized.sized distinct long (after_rest ..)]

/-- Atoms are flawed by the first payload beyond the limit. -/
theorem atoms_of_long {atoms : List StoredAtom} (sized : ∀ atom ∈ atoms, atom.Sized version)
    (long : tooLong? (atoms.flatMap StoredAtom.lengths) = some length)
    (ahead : reader.rest = atoms.flatMap atomBytes ++ atomsEnd :: rest) :
    reader.atoms version = .error (.flaw (.valueTooLong length)) := by
  induction atoms generalizing reader with
  | nil => cases long
  | cons atom later ih =>
    obtain ⟨first, others⟩ := List.forall_mem_cons.mp sized
    rw [List.flatMap_cons, tooLong?_append] at long
    cases own : tooLong? atom.lengths with
    | none =>
      rw [own, Option.none_or] at long
      rw [atoms_cons (first.fits own) ahead, ih others long (after_rest ..)]
    | some beyond =>
      rw [own, Option.some_or] at long
      have mark : reader.rest = atomMark ::
          (varintBytes atom.id ++ (atom.values.flatMap junctionBytes ++
            (later.flatMap atomBytes ++ atomsEnd :: rest))) := by
        rw [ahead]
        simp only [List.flatMap_cons, atomBytes, atomLead, List.cons_append, List.append_assoc]
      rw [atoms_cons_eq mark, atom_of_long first own (after_rest ..), Option.some.inj long]

/-- A record with a value that is too long is refused behind its mark. -/
theorem record_of_long {record : StoredRecord} (sized : record.Sized version)
    (long : tooLong? record.lengths = some length) (offset : Nat) (rest : Bytes) :
    ∃ behind, record.bytes = recordMark :: behind ∧
      (behindMark (behind ++ rest) offset).record version offset =
        .error (.flaw (.valueTooLong length)) := by
  obtain ⟨ucn, atoms, ucn_pos⟩ := record
  refine ⟨varintBytes ucn ++ (atoms.flatMap atomBytes ++ atomsEnd ::
    (wordBytes (Checksum.ofBytes (coveredBytes ucn atoms)) ++ [recordEnd])), ?_, ?_⟩
  · simp only [StoredRecord.bytes, recordBytes, coveredBytes, recordLead, List.cons_append,
      List.append_assoc, List.nil_append]
  · rw [List.append_assoc, List.append_assoc, List.cons_append, behindMark_eq, Reader.record,
      varint_of_rest sized.counted (after_rest ..)]
    simp only [ucn_pos, ↓reduceDIte]
    rw [atoms_of_long sized.sized long (after_rest ..)]

end Reader

end AtomStore.Log
