import AtomStore.Log.Commit
import AtomStore.Proofs.Log.Varint
import AtomStore.Proofs.SortedMap

/-!
# Records read back

What is written of a value, a junction, an atom or a record is read back as it is, whatever follows
it. Runs of bytes that stay in the file come back as their place: the position at which the first
payload byte was written, and their number.
-/

namespace AtomStore.Log

/-- The particle that a value reads back as when its payload is at a position. -/
def StoredValue.placed (position : Nat) : StoredValue → Particle
  | integer value => .integer value
  | text value => .text value
  | bytes payload => .bytes payload
  | hosted payload => .hosted position payload.length

/-- The junctions that values read back as when the first one is written at a position. -/
def placedJunctions (position : Nat) : List (Key × StoredValue) → List (Key × Particle)
  | [] => []
  | (key, value) :: rest =>
    let start := position + (junctionLead key value).length
    (key, value.placed start) :: placedJunctions (start + value.payload.length) rest

/-- The draft that an atom written at a position reads back as. -/
def placedAtom (position : Nat) (atom : StoredAtom) : Draft :=
  { id := atom.id
    junctions := .ofList (placedJunctions (position + (atomLead atom.id).length) atom.values) }

/-- The drafts that atoms read back as when the first one is written at a position. -/
def placedAtoms (position : Nat) : List StoredAtom → List Draft
  | [] => []
  | atom :: rest =>
    placedAtom position atom :: placedAtoms (position + (atomBytes atom).length) rest

/-- A record ready to be written. -/
structure StoredRecord where
  ucn : Nat
  atoms : List StoredAtom
  ucn_pos : 0 < ucn

namespace StoredRecord

def bytes (record : StoredRecord) : Bytes := recordBytes record.ucn record.atoms

/-- The record that is read back when this one is written at an offset. -/
def placed (offset : Nat) (record : StoredRecord) : Record :=
  ⟨offset, record.ucn,
    (placedAtoms (offset + (recordLead record.ucn).length) record.atoms).map
      (·.toAtom record.ucn record.ucn_pos)⟩

end StoredRecord

/-- A value that a version can hold and that is not too long. -/
structure StoredValue.Fits (version : Version) (value : StoredValue) : Prop where
  known : version.kind? value.kind.tag = some value.kind
  short : value.payload.length ≤ maxValueLength

/-- An atom whose number has 64 bits, whose keys ascend and whose values fit. -/
structure StoredAtom.Fits (version : Version) (atom : StoredAtom) : Prop where
  numbered : atom.id < 2 ^ 64
  ascending : atom.values.Pairwise fun a b => compare a.1 b.1 = .lt
  fitting : ∀ junction ∈ atom.values, junction.2.Fits version

/-- A record whose UCN has 64 bits and whose atoms fit. -/
structure StoredRecord.Fits (version : Version) (record : StoredRecord) : Prop where
  counted : record.ucn < 2 ^ 64
  fitting : ∀ atom ∈ record.atoms, atom.Fits version

/-- No tag is one of the marks among atoms. -/
theorem tag_ne_mark (kind : ValueKind) : kind.tag ≠ atomMark ∧ kind.tag ≠ atomsEnd := by
  cases kind <;> decide

/-- Junctions are placed under their own keys. -/
theorem map_fst_placedJunctions (position : Nat) (values : List (Key × StoredValue)) :
    (placedJunctions position values).map Prod.fst = values.map Prod.fst := by
  induction values generalizing position with
  | nil => rfl
  | cons junction rest ih => rw [placedJunctions, List.map_cons, List.map_cons, ih]

/-- Junctions are placed in the order of their keys. -/
theorem ascending_placedJunctions {values : List (Key × StoredValue)} (position : Nat)
    (ascending : values.Pairwise fun a b => compare a.1 b.1 = .lt) :
    (placedJunctions position values).Pairwise fun a b => compare a.1 b.1 = .lt := by
  have keys : ((placedJunctions position values).map Prod.fst).Pairwise
      fun a b => compare a b = .lt := by
    rw [map_fst_placedJunctions]
    exact List.pairwise_map.mpr ascending
  exact List.pairwise_map.mp keys

/-- A placed junction is one that was written, at some place. -/
theorem mem_placedJunctions {position : Nat} {values : List (Key × StoredValue)} {key : Key}
    {particle : Particle} (member : (key, particle) ∈ placedJunctions position values) :
    ∃ value, (key, value) ∈ values ∧ ∃ start, particle = value.placed start := by
  induction values generalizing position with
  | nil => cases member
  | cons junction rest ih =>
    rcases List.mem_cons.mp member with same | later
    · obtain ⟨rfl, placed⟩ := Prod.ext_iff.mp same
      exact ⟨junction.2, List.mem_cons_self, _, placed⟩
    · obtain ⟨value, inside, placed⟩ := ih later
      exact ⟨value, List.mem_cons_of_mem _ inside, placed⟩

/-- A placed atom is one that was written, at some place. -/
theorem mem_placedAtoms {position : Nat} {atoms : List StoredAtom} {draft : Draft}
    (member : draft ∈ placedAtoms position atoms) :
    ∃ atom ∈ atoms, ∃ start, draft = placedAtom start atom := by
  induction atoms generalizing position with
  | nil => cases member
  | cons atom rest ih =>
    rcases List.mem_cons.mp member with same | later
    · exact ⟨atom, List.mem_cons_self, position, same⟩
    · obtain ⟨found, inside, placed⟩ := ih later
      exact ⟨found, List.mem_cons_of_mem _ inside, placed⟩

/-- Only versions with room for them give back byte runs that stay in the file. -/
theorem hosts_of_placed {version : Version} {record : StoredRecord} {offset : Nat} {atom : Atom}
    {junction : Key × Particle} (fits : record.Fits version)
    (member : atom ∈ (record.placed offset).atoms) (bound : junction ∈ atom.junctions.entries)
    (hosted : junction.2.isHosted = true) : version.hosts = true := by
  obtain ⟨draft, inside, rfl⟩ := List.mem_map.mp member
  obtain ⟨written, among, start, rfl⟩ := mem_placedAtoms inside
  have fit := fits.fitting written among
  have listed : junction ∈
      placedJunctions (start + (atomLead written.id).length) written.values := by
    rw [← SortedMap.entries_ofList (ascending_placedJunctions _ fit.ascending)]
    exact bound
  obtain ⟨value, holding, place, placed⟩ := mem_placedJunctions listed
  have known := (fit.fitting _ holding).known
  rw [placed] at hosted
  cases value with
  | integer => cases hosted
  | text => cases hosted
  | bytes => cases hosted
  | hosted payload =>
    cases version with
    | one => cases known
    | two => rfl

namespace Reader

/-- A value is read back where it was written, hosted bytes as their place. -/
theorem value_of_rest {reader : Reader} {value : StoredValue} {rest : Bytes}
    (short : value.payload.length ≤ maxValueLength)
    (ahead : reader.rest = varintBytes value.lead ++ (value.payload ++ rest)) :
    reader.value value.kind =
      .ok (value.placed (reader.position + (varintBytes value.lead).length),
        reader.after (varintBytes value.lead ++ value.payload) rest) := by
  cases value with
  | integer number =>
    simp only [StoredValue.kind, StoredValue.lead, StoredValue.payload, Reader.value,
      List.nil_append, List.append_nil] at ahead ⊢
    rw [varint_of_rest (zigzag_lt number) ahead]
    simp only [unzigzag_zigzag, StoredValue.placed]
  | text text =>
    simp only [StoredValue.kind, StoredValue.lead, StoredValue.payload, Reader.value]
      at ahead short ⊢
    rw [valueLength_of_rest short ahead]
    simp only [run_of_rest (after_rest ..), Text.ofUtf8?_utf8, after_after, StoredValue.placed]
  | bytes payload =>
    simp only [StoredValue.kind, StoredValue.lead, StoredValue.payload, Reader.value]
      at ahead short ⊢
    rw [valueLength_of_rest short ahead]
    simp only [run_of_rest (after_rest ..), after_after, StoredValue.placed]
  | hosted payload =>
    simp only [StoredValue.kind, StoredValue.lead, StoredValue.payload, Reader.value]
      at ahead short ⊢
    rw [valueLength_of_rest short ahead]
    simp only [skip_of_rest (after_rest ..), after_after, after_position, StoredValue.placed]

/-- A junction is read back where it was written. -/
theorem junction_of_rest {version : Version} {reader : Reader} {key : Key} {value : StoredValue}
    {rest : Bytes} (fits : value.Fits version)
    (ahead : reader.rest = junctionBytes (key, value) ++ rest) :
    reader.junction version =
      .ok ((key, value.placed (reader.position + (junctionLead key value).length)),
        reader.after (junctionBytes (key, value)) rest) := by
  have split : reader.rest =
      value.kind.tag ::
        (varintBytes key.toNat ++ (varintBytes value.lead ++ (value.payload ++ rest))) := by
    rw [ahead]
    simp only [junctionBytes, junctionLead, List.cons_append, List.append_assoc]
  have lead : (junctionLead key value).length =
      1 + (varintBytes key.toNat).length + (varintBytes value.lead).length := by
    simp only [junctionLead, List.length_cons, List.length_append]
    omega
  rw [junction, byte_of_rest split]
  simp only [fits.known]
  rw [varint_of_rest key.toNat_lt (after_rest ..)]
  simp only
  rw [value_of_rest fits.short (after_rest ..)]
  simp only [UInt64.ofNat_toNat, after_after, after_position, lead, List.length_singleton,
    List.length_append, Nat.add_assoc]
  simp only [junctionBytes, junctionLead, List.cons_append, List.append_assoc, List.nil_append]

/-- Junctions are read one by one up to a mark, and no key may come twice. -/
theorem junctions_eq (version : Version) (reader : Reader) (held : Junctions) :
    reader.junctions version held =
      if reader.atMark then .ok (held, reader)
      else
        match reader.junction version with
        | .error fault => .error fault
        | .ok (found, next) =>
          if (held.get? found.1).isSome then .error (.flaw (.repeatedKey found.1.toNat))
          else next.junctions version (held.insert found.1 found.2) := by
  rw [junctions]
  split
  · rfl
  · split <;> rename_i read <;> rw [read]

theorem atMark_of_junction {reader : Reader} {junction : Key × StoredValue} {rest : Bytes}
    (ahead : reader.rest = junctionBytes junction ++ rest) : reader.atMark = false := by
  obtain ⟨notAtom, notEnd⟩ := tag_ne_mark junction.2.kind
  simp only [atMark, ahead, junctionBytes, junctionLead, List.cons_append, Bool.or_eq_false_iff,
    beq_eq_false_iff_ne]
  exact ⟨notAtom, notEnd⟩

/-- A junction under a new key is taken, and the reader goes on behind it. -/
theorem junctions_cons {version : Version} {reader : Reader} {held : Junctions} {key : Key}
    {value : StoredValue} {rest : Bytes} (fits : value.Fits version)
    (absent : held.get? key = none) (ahead : reader.rest = junctionBytes (key, value) ++ rest) :
    reader.junctions version held =
      (reader.after (junctionBytes (key, value)) rest).junctions version
        (held.insert key (value.placed (reader.position + (junctionLead key value).length))) := by
  rw [junctions_eq, if_neg (by rw [atMark_of_junction ahead]; exact Bool.false_ne_true),
    junction_of_rest fits ahead]
  simp only [absent, Option.isSome_none, Bool.false_eq_true, ↓reduceIte]

/-- The first of some keys that are unlike each other and those held is not held, and the others are
unlike those held with it. -/
theorem distinct_insert {held : Junctions} {key : Key} {later : List Key}
    (distinct : (held.keys ++ key :: later).Nodup) (particle : Particle) :
    held.get? key = none ∧ ((held.insert key particle).keys ++ later).Nodup := by
  obtain ⟨_, others, apart⟩ := List.nodup_append.mp distinct
  obtain ⟨unlike, rest⟩ := List.nodup_cons.mp others
  refine ⟨?_, List.nodup_append.mpr ⟨SortedMap.nodup_keys _, rest, ?_⟩⟩
  · rw [SortedMap.get?_eq_none_iff]
    intro member
    exact apart key member key List.mem_cons_self rfl
  · intro bound member other inside
    rcases SortedMap.mem_keys_insert.mp member with rfl | before
    · rintro rfl
      exact unlike inside
    · exact apart bound before other (List.mem_cons_of_mem _ inside)

/-- Junctions with ascending keys above those held are read back behind them. -/
theorem junctions_of_rest {version : Version} {reader : Reader} {held : Junctions}
    {values : List (Key × StoredValue)} {rest : Bytes}
    (fitting : ∀ junction ∈ values, junction.2.Fits version)
    (distinct : (held.keys ++ values.map Prod.fst).Nodup)
    (marked : ∀ reader : Reader, reader.rest = rest → reader.atMark = true)
    (ahead : reader.rest = values.flatMap junctionBytes ++ rest) :
    reader.junctions version held =
      .ok ((placedJunctions reader.position values).foldl
          (fun held found => held.insert found.1 found.2) held,
        reader.after (values.flatMap junctionBytes) rest) := by
  induction values generalizing reader held with
  | nil =>
    have here : reader.rest = rest := ahead
    rw [junctions_eq, if_pos (marked reader here), ← here]
    rfl
  | cons junction later ih =>
    obtain ⟨key, value⟩ := junction
    obtain ⟨fits, others⟩ := List.forall_mem_cons.mp fitting
    have next : reader.rest = junctionBytes (key, value) ++
        (later.flatMap junctionBytes ++ rest) := by
      rw [ahead, List.flatMap_cons, List.append_assoc]
    obtain ⟨absent, apart⟩ := distinct_insert distinct
      (value.placed (reader.position + (junctionLead key value).length))
    rw [junctions_cons fits absent next, ih others apart (after_rest ..)]
    simp only [after_after, after_position, placedJunctions, List.foldl_cons, List.flatMap_cons,
      junctionBytes, List.length_append, Nat.add_assoc]

/-- An atom is read back where it was written, up to the mark behind it. -/
theorem atom_of_rest {version : Version} {reader : Reader} {atom : StoredAtom} {rest : Bytes}
    (fits : atom.Fits version)
    (marked : ∀ reader : Reader, reader.rest = rest → reader.atMark = true)
    (ahead : reader.rest =
      varintBytes atom.id ++ (atom.values.flatMap junctionBytes ++ rest)) :
    reader.atom version =
      .ok ({ id := atom.id,
             junctions := .ofList (placedJunctions
              (reader.position + (varintBytes atom.id).length) atom.values) },
        reader.after (varintBytes atom.id ++ atom.values.flatMap junctionBytes) rest) := by
  have distinct : ((SortedMap.empty : Junctions).keys ++ atom.values.map Prod.fst).Nodup :=
    List.pairwise_map.mpr (fits.ascending.imp SortedMap.ne_of_compare_lt)
  rw [Reader.atom, varint_of_rest fits.numbered ahead]
  simp only
  rw [junctions_of_rest fits.fitting distinct marked (after_rest ..)]
  simp only [after_after, after_position, SortedMap.ofList]

/-- Atoms are read one by one up to the mark that ends them. -/
theorem atoms_eq (version : Version) (reader : Reader) :
    reader.atoms version =
      match reader.byte with
      | .error fault => .error fault
      | .ok (mark, inside) =>
        if mark = atomsEnd then .ok ([], inside)
        else if mark = atomMark then
          match inside.atom version with
          | .error fault => .error fault
          | .ok (draft, next) =>
            match next.atoms version with
            | .error fault => .error fault
            | .ok (drafts, last) => .ok (draft :: drafts, last)
        else
          match version.kind? mark with
          | none => .error (.flaw (.unknownTag mark version.number))
          | some _ => .error (.flaw .junctionOutsideAtom) := by
  rw [atoms]
  split
  · rename_i failed
    rw [failed]
  · rename_i inside read
    rw [read]
    simp only
    split
    · rfl
    · split
      · rcases inside.atom version with refused | ⟨draft, next⟩
        · rfl
        · rfl
      · rfl

/-- The atoms of a record begin with a mark. -/
theorem atMark_of_atoms {reader : Reader} {atoms : List StoredAtom} {rest : Bytes}
    (ahead : reader.rest = atoms.flatMap atomBytes ++ atomsEnd :: rest) :
    reader.atMark = true := by
  cases atoms with
  | nil =>
    simp only [List.flatMap_nil, List.nil_append] at ahead
    simp only [atMark, ahead, BEq.rfl, Bool.or_true]
  | cons atom later =>
    simp only [List.flatMap_cons, atomBytes, atomLead, List.cons_append] at ahead
    simp only [atMark, ahead, BEq.rfl, Bool.true_or]

/-- The mark of an atom is taken, and then the atom. -/
theorem atoms_cons_eq {version : Version} {reader : Reader} {rest : Bytes}
    (ahead : reader.rest = atomMark :: rest) :
    reader.atoms version =
      match (reader.after [atomMark] rest).atom version with
      | .error fault => .error fault
      | .ok (draft, next) =>
        match next.atoms version with
        | .error fault => .error fault
        | .ok (drafts, last) => .ok (draft :: drafts, last) := by
  rw [atoms_eq, byte_of_rest ahead]
  simp only
  rw [if_neg (by decide), if_pos True.intro]

/-- An atom is taken, and the reader goes on behind it. -/
theorem atoms_cons {version : Version} {reader : Reader} {atom : StoredAtom}
    {later : List StoredAtom} {rest : Bytes} (fits : atom.Fits version)
    (ahead : reader.rest = (atom :: later).flatMap atomBytes ++ atomsEnd :: rest) :
    reader.atoms version =
      match (reader.after (atomBytes atom)
          (later.flatMap atomBytes ++ atomsEnd :: rest)).atoms version with
      | .error fault => .error fault
      | .ok (drafts, last) => .ok (placedAtom reader.position atom :: drafts, last) := by
  have mark : reader.rest = atomMark ::
      (varintBytes atom.id ++ (atom.values.flatMap junctionBytes ++
        (later.flatMap atomBytes ++ atomsEnd :: rest))) := by
    rw [ahead]
    simp only [List.flatMap_cons, atomBytes, atomLead, List.cons_append, List.append_assoc]
  have marked : ∀ other : Reader, other.rest = later.flatMap atomBytes ++ atomsEnd :: rest →
      other.atMark = true := fun _ => atMark_of_atoms
  rw [atoms_cons_eq mark, atom_of_rest fits marked (after_rest ..)]
  simp only [after_after, after_position, placedAtom, atomBytes, atomLead, List.length_cons,
    List.length_nil, List.cons_append, List.nil_append, Nat.add_assoc, Nat.add_comm 1, Nat.zero_add]

/-- The atoms of a record are read back where they were written. -/
theorem atoms_of_rest {version : Version} {reader : Reader} {atoms : List StoredAtom}
    {rest : Bytes} (fitting : ∀ atom ∈ atoms, atom.Fits version)
    (ahead : reader.rest = atoms.flatMap atomBytes ++ atomsEnd :: rest) :
    reader.atoms version =
      .ok (placedAtoms reader.position atoms,
        reader.after (atoms.flatMap atomBytes ++ [atomsEnd]) rest) := by
  induction atoms generalizing reader with
  | nil =>
    rw [atoms_eq, byte_of_rest ahead]
    rfl
  | cons atom later ih =>
    obtain ⟨fits, others⟩ := List.forall_mem_cons.mp fitting
    rw [atoms_cons fits ahead, ih others (after_rest ..)]
    simp only [after_after, after_position, placedAtoms, List.flatMap_cons, List.append_assoc]

/-- A checksum and a last byte that fit what was read close a record. -/
theorem closing_of_rest {reader : Reader} {rest : Bytes}
    (ahead : reader.rest = wordBytes (Checksum.finish reader.register) ++ recordEnd :: rest) :
    reader.closing =
      .ok (reader.after (wordBytes (Checksum.finish reader.register) ++ [recordEnd]) rest) := by
  have four : (wordBytes (Checksum.finish reader.register)).length = 4 := rfl
  have summed := run_of_rest ahead
  rw [four] at summed
  rw [closing, summed]
  simp only
  rw [byte_of_rest (after_rest ..)]
  simp only [ne_eq, not_true_eq_false, ↓reduceIte, after_after]

/-- A reader behind the mark of a record has taken the mark into its checksum. -/
theorem behindMark_eq (rest : Bytes) (offset : Nat) :
    behindMark rest offset =
      (Reader.mk [] offset Checksum.initial).after [recordMark] rest := by
  simp only [behindMark, after, Checksum.updateAll, List.foldl_cons, List.foldl_nil,
    List.length_singleton]

/-- A record is read back behind its mark. -/
theorem record_of_rest {version : Version} {record : StoredRecord} (fits : record.Fits version)
    (offset : Nat) (rest : Bytes) :
    ∃ behind, record.bytes = recordMark :: behind ∧
      (behindMark (behind ++ rest) offset).record version offset =
        .ok (record.placed offset,
          (Reader.mk [] offset Checksum.initial).after record.bytes rest) := by
  obtain ⟨ucn, atoms, ucn_pos⟩ := record
  let start : Reader := ⟨[], offset, Checksum.initial⟩
  let covered := coveredBytes ucn atoms
  let sum := wordBytes (Checksum.ofBytes covered)
  have shape : recordBytes ucn atoms = recordMark ::
      (varintBytes ucn ++ (atoms.flatMap atomBytes ++ atomsEnd :: (sum ++ [recordEnd]))) := by
    simp only [recordBytes, coveredBytes, recordLead, covered, sum, List.cons_append,
      List.append_assoc, List.nil_append]
  refine ⟨_, shape, ?_⟩
  have tail : varintBytes ucn ++ (atoms.flatMap atomBytes ++ atomsEnd :: (sum ++ [recordEnd])) ++
        rest =
      varintBytes ucn ++ (atoms.flatMap atomBytes ++ atomsEnd :: (sum ++ recordEnd :: rest)) := by
    simp only [List.append_assoc, List.cons_append, List.nil_append]
  rw [tail, behindMark_eq, Reader.record, varint_of_rest fits.counted (after_rest ..)]
  simp only [ucn_pos, ↓reduceDIte]
  rw [atoms_of_rest fits.fitting (after_rest ..)]
  -- what has been taken up to here is what the checksum covers
  have gathered : ∀ ahead, ((start.after [recordMark] (varintBytes ucn ++
      (atoms.flatMap atomBytes ++ atomsEnd :: ahead))).after (varintBytes ucn)
        (atoms.flatMap atomBytes ++ atomsEnd :: ahead)).after
          (atoms.flatMap atomBytes ++ [atomsEnd]) ahead = start.after covered ahead := by
    intro ahead
    simp only [after_after, covered, coveredBytes, recordLead, List.append_assoc,
      List.cons_append, List.nil_append]
  have closed : (start.after covered (sum ++ recordEnd :: rest)).closing =
      .ok ((start.after covered (sum ++ recordEnd :: rest)).after (sum ++ [recordEnd]) rest) :=
    closing_of_rest (after_rest ..)
  simp only [start, covered] at gathered closed
  simp only [gathered, closed]
  simp only [StoredRecord.placed, StoredRecord.bytes, recordBytes, after_after, after_position,
    recordLead, List.singleton_append, List.append_assoc, sum, covered]

end Reader
end AtomStore.Log
