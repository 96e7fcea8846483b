import AtomStore.Proofs.Log.Versions

/-!
# Passing over payloads

The reader of records passes over hosted bytes chunk by chunk and keeps only their place. A reader
that takes them in one piece and holds them goes the same way through the same bytes: behind every
value both stand at the same place with the same register, and both accept the same records and
refuse the others for the same faults. What the one holds stands at the place that the other keeps.
-/

namespace AtomStore

/-- The draft with every value changed in the same way. -/
def Draft.mapValues (change : Particle → Particle) (draft : Draft) : Draft :=
  { draft with junctions := draft.junctions.mapValues change }

/-- The atom with every value changed in the same way. -/
def Atom.mapValues (change : Particle → Particle) (atom : Atom) : Atom :=
  { atom with junctions := atom.junctions.mapValues change }

/-- The record with every value of its atoms changed in the same way. -/
def Log.Record.mapValues (change : Particle → Particle) (record : Log.Record) : Log.Record :=
  { record with atoms := record.atoms.map (·.mapValues change) }

/-- A record whose values stay as they are is the same. -/
theorem Log.Record.mapValues_id (record : Log.Record) : record.mapValues id = record := by
  have same (atom : Atom) : atom.mapValues id = atom := by
    rw [Atom.mapValues, SortedMap.mapValues_id]
  rw [mapValues, funext same, List.map_id']

namespace Log
namespace Reader

variable {α β γ δ : Type} {version : Version} {origin reader : Reader} {count sight : Nat}

/-- A run is passed over just when it can be taken, and the reader comes to stand at one place. -/
theorem skip_eq_ok_iff {next : Reader} :
    reader.skip count = .ok next ↔ ∃ taken, reader.run count = .ok (taken, next) := by
  rw [skip_eq_run]
  constructor
  · intro passed
    rcases ran : reader.run count with fault | ⟨taken, last⟩
    · rw [ran] at passed
      cases passed
    · rw [ran] at passed
      cases passed
      exact ⟨taken, rfl⟩
  · rintro ⟨taken, ran⟩
    rw [ran]
    rfl

/-- A run is not taken just when the bytes end within it. -/
theorem run_eq_error_iff {fault : ReadFault} :
    reader.run count = .error fault ↔ fault = .ended ∧ reader.rest.length < count := by
  rw [run_eq]
  split
  · rename_i short
    rw [Except.error.injEq]
    exact ⟨fun same => ⟨same.symm, short⟩, fun ended => ended.1.symm⟩
  · rename_i enough
    exact ⟨nofun, fun ended => absurd ended.2 enough⟩

/-- A run is skipped with the fault that taking it has. -/
theorem skip_eq_error_iff {fault : ReadFault} :
    reader.skip count = .error fault ↔ reader.run count = .error fault := by
  rw [skip_eq_run]
  cases reader.run count <;> simp only [Except.map, Except.error.injEq, reduceCtorEq]

/-- Whether a reader stands somewhere in the bytes that another one has ahead. -/
def Within (origin reader : Reader) : Prop :=
  ∃ taken, origin.rest = taken ++ reader.rest ∧ reader = origin.after taken reader.rest

theorem Within.refl (reader : Reader) : Within reader reader := ⟨[], rfl, rfl⟩

/-- A step does not leave the bytes ahead. -/
theorem Within.next {step : Step α} {found : α} {next : Reader} (within : Within origin reader)
    (sequential : Sequential sight step) (read : step reader = .ok (found, next)) :
    Within origin next := by
  obtain ⟨front, ahead, reached⟩ := within
  obtain ⟨back, behind, stopped⟩ := (sequential reader).takes read
  refine ⟨front ++ back, ?_, ?_⟩
  · rw [ahead, behind, List.append_assoc]
  · rw [reached, after_after] at stopped
    exact stopped

/-- The bytes of a run that stands somewhere ahead of a reader. -/
def ahead (reader : Reader) (position length : Nat) : Bytes :=
  (reader.rest.drop (position - reader.position)).take length

/-- The bytes ahead of a reader are those that the reader further back has there. -/
theorem Within.ahead_eq (within : Within origin reader) (length : Nat) :
    origin.ahead reader.position length = reader.rest.take length := by
  obtain ⟨taken, all, reached⟩ := within
  rw [ahead, all, reached, after_position, Nat.add_sub_cancel_left, List.drop_left, after_rest]

/-- The particle with its bytes in place of where they stand ahead of a reader. -/
def loaded (origin : Reader) : Particle → Particle
  | .hosted position length => .bytes (origin.ahead position length)
  | particle => particle

/-- Loading changes nothing but hosted particles. -/
theorem loaded_of_not_isHosted {particle : Particle} (held : ¬ particle.isHosted = true) :
    origin.loaded particle = particle := by
  cases particle with
  | hosted => exact absurd rfl held
  | integer => rfl
  | text => rfl
  | bytes => rfl

/-- Whether a step goes the same way as another one, but for a change in what is found. -/
def Mirrors (change : α → β) (step : Step α) (other : Step β) (reader : Reader) : Prop :=
  other reader = (step reader).map fun found => (change found.1, found.2)

namespace Mirrors

variable {change : α → β} {step : Step α} {other : Step β}

/-- A step that reads nothing is mirrored by one that finds what it found, changed. -/
theorem pure (change : α → β) (found : α) :
    Mirrors change (pure found) (pure (change found)) reader := rfl

/-- A step that fails is mirrored by the same failure. -/
theorem throw (change : α → β) (fault : ReadFault) :
    Mirrors change (throw fault) (throw fault) reader := rfl

/-- A step that finds nothing but what the change leaves as it is. -/
theorem fixed {change : α → α} {step : Step α}
    (kept : ∀ {found next}, step reader = .ok (found, next) → change found = found) :
    Mirrors change step step reader := by
  change step reader = _
  cases read : step reader with
  | error fault => rfl
  | ok found => rw [Except.map, kept read]

/-- Every step mirrors itself. -/
theorem same (step : Step α) : Mirrors id step step reader := fixed fun {_ _} _ => rfl

/-- Mirroring depends only on what the steps do here. -/
theorem congr {place : Reader} {left : Step α} {right : Step β}
    (mirrors : Mirrors change step other place) (first : left reader = step place)
    (second : right reader = other place) : Mirrors change left right reader :=
  second.trans (mirrors.trans (congrArg _ first.symm))

/-- One step and then another. -/
theorem bind {alter : γ → δ} {left : α → Step γ} {right : β → Step δ}
    (begins : Mirrors change step other reader)
    (later : ∀ {found middle}, step reader = .ok (found, middle) →
      Mirrors alter (left found) (right (change found)) middle) :
    Mirrors alter (step >>= left) (other >>= right) reader := by
  rw [Mirrors, bind_apply, bind_apply, begins]
  rcases began : step reader with fault | ⟨found, middle⟩
  · rfl
  · exact later began

/-- A step that both take, and then another one. -/
theorem after {alter : γ → δ} (step : Step α) {left : α → Step γ} {right : α → Step δ}
    (later : ∀ {found middle}, step reader = .ok (found, middle) →
      Mirrors alter (left found) (right found) middle) :
    Mirrors alter (step >>= left) (step >>= right) reader :=
  (same step).bind later

end Mirrors

end Reader

/-- A way of taking the values of a record, by their kinds. A value takes up at least a byte. -/
structure ValueReader where
  take : ValueKind → Reader.Step Particle
  shortens : ∀ {kind reader particle next}, take kind reader = .ok (particle, next) →
    next.rest.length < reader.rest.length

namespace ValueReader

open Reader (Step Within Mirrors bind_apply bind_eq_ok ite_step)

variable {version : Version} {values : ValueReader} {origin reader next : Reader}

/-- Takes a junction: the tag of its value, its key and its value. -/
def junction (values : ValueReader) (version : Version) : Step (Key × Particle) := do
  let tag ← Reader.byte
  match version.kind? tag with
  | none => throw (.flaw (.unknownTag tag version.number))
  | some kind => do
    let key ← Reader.varint
    let particle ← values.take kind
    pure (UInt64.ofNat key, particle)

/-- Reading a junction takes bytes. -/
theorem length_junction {found : Key × Particle}
    (read : values.junction version reader = .ok (found, next)) :
    next.rest.length < reader.rest.length := by
  obtain ⟨tag, tagged, marked, later⟩ := bind_eq_ok read
  have first := Reader.length_byte marked
  cases known : version.kind? tag with
  | none =>
    simp only [known] at later
    cases later
  | some kind =>
    simp only [known] at later
    obtain ⟨key, keyed, numbered, last⟩ := bind_eq_ok later
    obtain ⟨particle, stop, valued, ⟨⟩⟩ := bind_eq_ok last
    have second := Reader.length_varint numbered
    have third := values.shortens valued
    omega

/-- Takes junctions up to the next mark, in addition to those already held. -/
def junctions (values : ValueReader) (version : Version) (held : Junctions) (reader : Reader) :
    Except ReadFault (Junctions × Reader) :=
  if reader.atMark then .ok (held, reader)
  else
    match _ : values.junction version reader with
    | .error fault => .error fault
    | .ok (found, next) =>
      if (held.get? found.1).isSome then .error (.flaw (.repeatedKey found.1.toNat))
      else values.junctions version (held.insert found.1 found.2) next
  termination_by reader.rest.length
  decreasing_by exact length_junction ‹_›

/-- Reading junctions gives no bytes back. -/
theorem length_junctions {held found : Junctions}
    (read : values.junctions version held reader = .ok (found, next)) :
    next.rest.length ≤ reader.rest.length := by
  fun_induction junctions values version held reader with
  | case1 =>
    cases read
    exact Nat.le_refl _
  | case2 => cases read
  | case3 => cases read
  | case4 held reader _ another middle taken _ ih =>
    have first := length_junction taken
    have later := ih read
    omega

/-- Takes an atom behind its mark: its slot and its junctions. -/
def atom (values : ValueReader) (version : Version) : Step Draft := do
  let id ← Reader.varint
  let junctions ← values.junctions version .empty
  pure { id, junctions }

/-- Reading an atom takes bytes. -/
theorem length_atom {draft : Draft} (read : values.atom version reader = .ok (draft, next)) :
    next.rest.length < reader.rest.length := by
  obtain ⟨id, inside, numbered, later⟩ := bind_eq_ok read
  obtain ⟨junctions, stop, bound, ⟨⟩⟩ := bind_eq_ok later
  have first := Reader.length_varint numbered
  have second := length_junctions bound
  omega

/-- Takes the atoms of a record and the byte that ends them. -/
def atoms (values : ValueReader) (version : Version) (reader : Reader) :
    Except ReadFault (List Draft × Reader) :=
  match _ : reader.byte with
  | .error fault => .error fault
  | .ok (mark, inside) =>
    if mark = atomsEnd then .ok ([], inside)
    else if mark = atomMark then
      match _ : values.atom version inside with
      | .error fault => .error fault
      | .ok (draft, next) =>
        match values.atoms version next with
        | .error fault => .error fault
        | .ok (drafts, last) => .ok (draft :: drafts, last)
    else
      match version.kind? mark with
      | none => .error (.flaw (.unknownTag mark version.number))
      | some _ => .error (.flaw .junctionOutsideAtom)
  termination_by reader.rest.length
  decreasing_by
    have first := Reader.length_byte ‹_›
    have second := length_atom ‹_›
    omega

/-- Takes the record at an offset, from the byte behind its mark on. -/
def record (values : ValueReader) (version : Version) (offset : Nat) : Step Record := do
  let ucn ← Reader.varint
  if ucn_pos : 0 < ucn then do
    let drafts ← values.atoms version
    Reader.close
    pure ⟨offset, ucn, drafts.map (·.toAtom ucn ucn_pos)⟩
  else throw (.flaw .withoutUcn)

/-- Takes a junction and those behind it, in addition to those already held. -/
def moreJunctions (values : ValueReader) (version : Version) (held : Junctions) :
    Step Junctions := do
  let found ← values.junction version
  if (held.get? found.1).isSome then throw (.flaw (.repeatedKey found.1.toNat))
  else values.junctions version (held.insert found.1 found.2)

/-- At a mark there are no more junctions. -/
theorem junctions_of_atMark {held : Junctions} (marked : reader.atMark = true) :
    values.junctions version held reader = .ok (held, reader) := by
  rw [junctions, if_pos marked]

/-- Elsewhere there is another junction. -/
theorem junctions_of_not_atMark {held : Junctions} (unmarked : reader.atMark = false) :
    values.junctions version held reader = values.moreJunctions version held reader := by
  rw [junctions, if_neg (by rw [unmarked]; exact Bool.false_ne_true)]
  simp only [moreJunctions, bind_apply, ite_step]
  split
  · rename_i read
    rw [read]
  · rename_i read
    rw [read]
    rfl

/-- Reading atoms as a composition of steps. -/
theorem atoms_eq_steps : values.atoms version = (do
    let mark ← Reader.byte
    if mark = atomsEnd then pure []
    else if mark = atomMark then do
      let draft ← values.atom version
      let drafts ← values.atoms version
      pure (draft :: drafts)
    else
      match version.kind? mark with
      | none => throw (.flaw (.unknownTag mark version.number))
      | some _ => throw (.flaw .junctionOutsideAtom) : Step (List Draft)) := by
  funext reader
  rw [atoms]
  simp only [bind_apply, ite_step]
  split
  · rename_i read
    rw [read]
  · rename_i mark inside read
    rw [read]
    simp only
    split
    · rfl
    · split
      · split
        · rename_i taken
          rw [taken]
        · rename_i draft next taken
          rw [taken]
          simp only
          cases values.atoms version next <;> rfl
      · cases version.kind? mark <;> rfl

/-- Whether the values ahead of a reader are taken as the reader of records takes them, but for a
change in what is found. -/
def Mirroring (values : ValueReader) (change : Particle → Particle) (origin : Reader) : Prop :=
  ∀ ⦃kind reader⦄, Within origin reader → Mirrors change (·.value kind) (values.take kind) reader

namespace Mirroring

variable {change : Particle → Particle}

/-- Junctions are read alike but for their values. -/
theorem junction (mirroring : values.Mirroring change origin) (within : Within origin reader) :
    Mirrors (Prod.map id change) (Reader.junction version) (values.junction version) reader := by
  rw [Reader.junction_eq, ValueReader.junction]
  refine .after Reader.byte fun {tag tagged} marked => ?_
  have inside := within.next Reader.sequential_byte marked
  cases version.kind? tag with
  | none => exact .throw _ _
  | some kind =>
    refine .after Reader.varint fun {key keyed} numbered => ?_
    refine (mirroring (inside.next Reader.sequential_varint numbered)).bind fun _ => ?_
    exact .pure (Prod.map id change) _

/-- Both see the same marks and hold the same keys, so they go on or stop together. -/
theorem junctions {held : Junctions} (mirroring : values.Mirroring change origin)
    (within : Within origin reader) :
    Mirrors (SortedMap.mapValues change) (·.junctions version held)
      (values.junctions version (held.mapValues change)) reader := by
  induction count : reader.rest.length using Nat.strongRecOn generalizing reader held with
  | ind count ih =>
    subst count
    cases mark : reader.atMark with
    | true =>
      have found : Mirrors (SortedMap.mapValues change) (pure held)
          (pure (held.mapValues change)) reader := .pure _ held
      exact found.congr (Reader.junctions_of_atMark mark) (junctions_of_atMark mark)
    | false =>
      have others : Mirrors (SortedMap.mapValues change) (Reader.moreJunctions version held)
          (values.moreJunctions version (held.mapValues change)) reader := by
        refine (mirroring.junction within).bind fun {found middle} read => ?_
        have inside := within.next Reader.sequential_junction read
        rw [Prod.map_fst, id_eq, SortedMap.get?_mapValues, Option.isSome_map]
        split
        · exact .throw _ _
        · rw [Prod.map_snd, ← SortedMap.mapValues_insert]
          exact ih _ (Reader.length_junction read) inside rfl
      exact others.congr (Reader.junctions_of_not_atMark mark) (junctions_of_not_atMark mark)

/-- Atoms are read alike but for their values. -/
theorem atom (mirroring : values.Mirroring change origin) (within : Within origin reader) :
    Mirrors (Draft.mapValues change) (Reader.atom version) (values.atom version) reader := by
  rw [Reader.atom_eq, ValueReader.atom]
  refine .after Reader.varint fun {id inside} numbered => ?_
  have begun := within.next Reader.sequential_varint numbered
  refine Mirrors.bind (mirroring.junctions begun) fun {junctions _} _ => ?_
  exact .pure (Draft.mapValues change) ⟨id, junctions⟩

/-- The atoms of a record are read alike but for their values. -/
theorem atoms (mirroring : values.Mirroring change origin) (within : Within origin reader) :
    Mirrors (List.map (Draft.mapValues change)) (Reader.atoms version) (values.atoms version)
      reader := by
  induction count : reader.rest.length using Nat.strongRecOn generalizing reader with
  | ind count ih =>
    subst count
    rw [Reader.atoms_eq_steps, atoms_eq_steps]
    refine .after Reader.byte fun {mark inside} marked => ?_
    have begun := within.next Reader.sequential_byte marked
    split
    · exact .pure (List.map (Draft.mapValues change)) []
    · split
      · refine (mirroring.atom begun).bind fun {draft next} taken => ?_
        have first := Reader.length_byte marked
        have second := Reader.length_atom taken
        have others := ih _ (by omega) (begun.next Reader.sequential_atom taken) rfl
        exact others.bind fun {drafts _} _ => .pure (List.map (Draft.mapValues change)) _
      · cases version.kind? mark <;> exact .throw _ _

/-- Records are read alike but for their values. -/
theorem record (mirroring : values.Mirroring change origin) (within : Within origin reader)
    (offset : Nat) :
    Mirrors (Record.mapValues change) (Reader.record version offset)
      (values.record version offset) reader := by
  rw [Reader.record_eq, ValueReader.record]
  refine .after Reader.varint fun {ucn inside} numbered => ?_
  have begun := within.next Reader.sequential_varint numbered
  split
  · rename_i counted
    refine (mirroring.atoms begun).bind fun {drafts covered} _ => ?_
    refine .after Reader.close fun _ => ?_
    have same : (drafts.map (Draft.mapValues change)).map (·.toAtom ucn counted) =
        (drafts.map (·.toAtom ucn counted)).map (·.mapValues change) := by
      rw [List.map_map, List.map_map]
      rfl
    rw [same]
    exact .pure (Record.mapValues change) ⟨offset, ucn, _⟩
  · exact .throw _ _

end Mirroring

/-- Takes values as the reader of records does, which passes over hosted bytes. -/
def passing : ValueReader := ⟨fun kind => (·.value kind), Reader.length_value⟩

/-- The reader of records is the one that passes over hosted bytes. -/
theorem passing_record (reader : Reader) (offset : Nat) :
    passing.record version offset reader = reader.record version offset := by
  have mirroring : passing.Mirroring id reader := fun _ _ _ => .same _
  have mirrors : passing.record version offset reader = _ := mirroring.record (.refl reader) offset
  rw [mirrors]
  cases reader.record version offset with
  | error fault => rfl
  | ok found => rw [Except.map, Record.mapValues_id]

/-- Takes a value and holds its bytes: those of a hosted one are taken in one piece. -/
def heldValue (kind : ValueKind) : Step Particle :=
  if kind = .hosted then do
    let length ← Reader.valueLength
    let payload ← (·.run length)
    pure (.bytes payload)
  else (·.value kind)

/-- Reading a value into memory takes bytes. -/
theorem length_heldValue {kind : ValueKind} {particle : Particle}
    (read : heldValue kind reader = .ok (particle, next)) :
    next.rest.length < reader.rest.length := by
  unfold heldValue at read
  split at read
  · rw [← Reader.value_bytes_eq] at read
    exact Reader.length_value read
  · exact Reader.length_value read

/-- Takes values and holds the bytes of all of them. -/
def holding : ValueReader := ⟨heldValue, length_heldValue⟩

/-- The bytes of a hosted value that are held stand at the place that is kept in their stead. -/
theorem holding_mirroring (origin : Reader) : holding.Mirroring origin.loaded origin := by
  intro kind reader within
  change Mirrors origin.loaded (·.value kind) (heldValue kind) reader
  unfold heldValue
  by_cases hosted : kind = .hosted
  · rw [if_pos hosted, hosted, Reader.value_hosted_eq]
    refine .after Reader.valueLength fun {length inside} measured => ?_
    have begun := within.next Reader.sequential_valueLength measured
    -- the place is looked at in front of the payload, where the length has been taken
    change Mirrors origin.loaded ((·.run length) >>= fun _ => pure (.hosted inside.position length))
      _ inside
    refine .after (·.run length) fun {payload next} ran => ?_
    obtain ⟨rest, rfl, ahead, _⟩ := Reader.run_eq_ok_iff.mp ran
    have found : origin.loaded (.hosted inside.position payload.length) = .bytes payload := by
      rw [Reader.loaded, begun.ahead_eq, ahead, List.take_left]
    rw [← found]
    exact .pure origin.loaded _
  · rw [if_neg hosted]
    refine .fixed fun {particle _} read => Reader.loaded_of_not_isHosted ?_
    rwa [Reader.isHosted_of_value read]

end ValueReader

/-- Passing over a run of any length succeeds just when taking it does, and leaves the same bytes
ahead at the same position with the same register; both fail just when the bytes end within the run,
and for that reason. So the reader of records, which passes over hosted bytes, and one that takes
them in one piece accept the same records, leave the same bytes ahead in the same way, and refuse
the others for the same faults; and what they find differs only in that the one holds the bytes of
which the other keeps the place. -/
theorem passing_over_agrees (reader : Reader) :
    (∀ (length : Nat) (next : Reader),
      reader.skip length = .ok next ↔ ∃ payload, reader.run length = .ok (payload, next)) ∧
    (∀ (length : Nat) (fault : ReadFault),
      (reader.skip length = .error fault ↔ fault = .ended ∧ reader.rest.length < length) ∧
      (reader.run length = .error fault ↔ fault = .ended ∧ reader.rest.length < length)) ∧
    ∀ (version : Version) (offset : Nat),
      ValueReader.passing.record version offset reader = reader.record version offset ∧
      ValueReader.holding.record version offset reader =
        (reader.record version offset).map fun found =>
          (found.1.mapValues reader.loaded, found.2) := by
  refine ⟨fun length next => Reader.skip_eq_ok_iff, fun length fault => ⟨?_, ?_⟩,
    fun version offset => ⟨?_, ?_⟩⟩
  · rw [Reader.skip_eq_error_iff, Reader.run_eq_error_iff]
  · exact Reader.run_eq_error_iff
  · exact ValueReader.passing_record reader offset
  · exact (ValueReader.holding_mirroring reader).record (.refl reader) offset

end Log
end AtomStore
