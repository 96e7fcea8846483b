import AtomStore.Proofs.Log.RoundTrip

/-!
# Readers as sequences of steps

Every part of a record is read by a sequence of steps, each of which goes on where the one before it
has come to stand and depends on what that one has found. What holds of single steps and of
sequences then holds of the reader of records.
-/

namespace AtomStore.Log
namespace Reader

/-- A reading step, as a computation with the reader as its state. -/
abbrev Step (α : Type) := StateT Reader (Except ReadFault) α

variable {α β : Type} {version : Version} {reader : Reader}

/-- What a composition of steps does at a reader. -/
theorem bind_apply (step : Step α) (later : α → Step β) (reader : Reader) :
    (step >>= later) reader = match step reader with
      | .error fault => .error fault
      | .ok (found, next) => later found next := by
  change (step reader).bind _ = _
  cases step reader <;> rfl

theorem ite_step (condition : Prop) [Decidable condition] (first second : Step α)
    (reader : Reader) : (if condition then first else second) reader =
      if condition then first reader else second reader := by
  split <;> rfl

/-- A composition of steps that finds something has found something in between. -/
theorem bind_eq_ok {step : Step α} {later : α → Step β} {last : β} {next : Reader}
    (read : (step >>= later) reader = .ok (last, next)) :
    ∃ found middle, step reader = .ok (found, middle) ∧ later found middle = .ok (last, next) := by
  rw [bind_apply] at read
  rcases began : step reader with fault | ⟨found, middle⟩
  · rw [began] at read
    cases read
  · rw [began] at read
    exact ⟨found, middle, rfl, read⟩

/-- Looks at the reader and takes nothing. -/
def look (see : Reader → α) : Step α := fun reader => .ok (see reader, reader)

theorem digits_zero_eq : (·.digits 0) = (do
    let last ← byte
    if last.toNat ≤ 1 then pure last.toNat else throw (.flaw .varintOverflow) : Step Nat) := by
  funext reader
  simp only [digits, bind_apply, ite_step]
  cases reader.byte <;> rfl

/-- Reading digits with more room, as a composition of steps. -/
theorem digits_succ_eq (room : Nat) : (·.digits (room + 1)) = (do
    let low ← byte
    if low.toNat < 128 then pure low.toNat
    else do
      let high ← (·.digits room)
      pure (low.toNat - 128 + 128 * high) : Step Nat) := by
  funext reader
  simp only [digits, bind_apply, ite_step]
  rcases reader.byte with fault | ⟨low, next⟩
  · rfl
  · simp only
    cases next.digits room <;> rfl

/-- Reading a length, as a composition of steps. -/
theorem valueLength_eq : valueLength = (do
    let length ← varint
    if maxValueLength < length then throw (.flaw (.valueTooLong length))
    else pure length : Step Nat) := by
  funext reader
  simp only [valueLength, bind_apply, ite_step]
  cases reader.varint <;> rfl

/-- Reading an integer, as a composition of steps. -/
theorem value_integer_eq : (·.value .integer) = (do
    let number ← varint
    pure (.integer (unzigzag number)) : Step Particle) := by
  funext reader
  simp only [value, bind_apply]
  cases reader.varint <;> rfl

/-- Reading a text, as a composition of steps. -/
theorem value_text_eq : (·.value .text) = (do
    let length ← valueLength
    let taken ← (·.run length)
    match Text.ofUtf8? taken with
    | none => throw (.flaw .notUtf8)
    | some text => pure (.text text) : Step Particle) := by
  funext reader
  simp only [value, bind_apply]
  rcases reader.valueLength with fault | ⟨length, inside⟩
  · rfl
  · simp only
    rcases inside.run length with fault | ⟨taken, next⟩
    · rfl
    · simp only
      cases Text.ofUtf8? taken <;> rfl

/-- Reading bytes, as a composition of steps. -/
theorem value_bytes_eq : (·.value .bytes) = (do
    let length ← valueLength
    let taken ← (·.run length)
    pure (.bytes taken) : Step Particle) := by
  funext reader
  simp only [value, bind_apply]
  rcases reader.valueLength with fault | ⟨length, inside⟩
  · rfl
  · simp only
    cases inside.run length <;> rfl

/-- Reading hosted bytes, as a composition of steps: the payload is passed over. -/
theorem value_hosted_eq : (·.value .hosted) = (do
    let length ← valueLength
    let start ← look Reader.position
    let _ ← (·.run length)
    pure (.hosted start length) : Step Particle) := by
  funext reader
  simp only [value, bind_apply, skip_eq_run]
  rcases reader.valueLength with fault | ⟨length, inside⟩
  · rfl
  · simp only [look]
    cases inside.run length <;> rfl

/-- Reading a junction, as a composition of steps. -/
theorem junction_eq : junction version = (do
    let tag ← byte
    match version.kind? tag with
    | none => throw (.flaw (.unknownTag tag version.number))
    | some kind => do
      let key ← varint
      let particle ← (·.value kind)
      pure (UInt64.ofNat key, particle) : Step (Key × Particle)) := by
  funext reader
  simp only [junction, bind_apply]
  rcases reader.byte with fault | ⟨tag, tagged⟩
  · rfl
  · simp only
    cases version.kind? tag with
    | none => rfl
    | some kind =>
      simp only [bind_apply]
      rcases tagged.varint with fault | ⟨key, keyed⟩
      · rfl
      · simp only
        cases keyed.value kind <;> rfl

/-- Takes a junction and those behind it, in addition to those already held. -/
def moreJunctions (version : Version) (held : Junctions) : Step Junctions := do
  let found ← junction version
  if (held.get? found.1).isSome then throw (.flaw (.repeatedKey found.1.toNat))
  else (·.junctions version (held.insert found.1 found.2))

/-- At a mark there are no more junctions. -/
theorem junctions_of_atMark {held : Junctions} (marked : reader.atMark = true) :
    reader.junctions version held = .ok (held, reader) := by
  rw [junctions_eq, if_pos marked]

/-- Elsewhere there is another junction. -/
theorem junctions_of_not_atMark {held : Junctions} (unmarked : reader.atMark = false) :
    reader.junctions version held = moreJunctions version held reader := by
  rw [junctions_eq, if_neg (by rw [unmarked]; exact Bool.false_ne_true)]
  simp only [moreJunctions, bind_apply, ite_step]
  cases reader.junction version <;> rfl

/-- Reading an atom, as a composition of steps. -/
theorem atom_eq : Reader.atom version = (do
    let id ← varint
    let junctions ← (·.junctions version .empty)
    pure { id, junctions } : Step Draft) := by
  funext reader
  simp only [Reader.atom, bind_apply]
  rcases reader.varint with fault | ⟨id, inside⟩
  · rfl
  · simp only
    cases inside.junctions version .empty <;> rfl

/-- Reading atoms, as a composition of steps. -/
theorem atoms_eq_steps : atoms version = (do
    let mark ← byte
    if mark = atomsEnd then pure []
    else if mark = atomMark then do
      let draft ← Reader.atom version
      let drafts ← atoms version
      pure (draft :: drafts)
    else
      match version.kind? mark with
      | none => throw (.flaw (.unknownTag mark version.number))
      | some _ => throw (.flaw .junctionOutsideAtom) : Step (List Draft)) := by
  funext reader
  rw [atoms_eq]
  simp only [bind_apply, ite_step]
  rcases reader.byte with fault | ⟨mark, inside⟩
  · rfl
  · simp only
    rcases inside.atom version with fault | ⟨draft, next⟩
    · cases version.kind? mark <;> rfl
    · simp only
      cases next.atoms version <;> cases version.kind? mark <;> rfl

/-- Closing a record, as a step that finds nothing. -/
def close : Step Unit := fun reader => reader.closing.map fun next => ((), next)

/-- Closing a record, as a composition of steps: the checksum is judged once all bytes are there. -/
theorem close_eq : close = (do
    let register ← look Reader.register
    let stored ← (·.run 4)
    let last ← byte
    if stored ≠ wordBytes (Checksum.finish register) then throw .checksum
    else if last ≠ recordEnd then throw (.flaw (.notAtEnd last))
    else pure () : Step Unit) := by
  funext reader
  simp only [close, closing, bind_apply, ite_step, look]
  rcases reader.run 4 with fault | ⟨stored, summed⟩
  · rfl
  · simp only
    rcases summed.byte with fault | ⟨last, next⟩
    · rfl
    · simp only
      split
      · rfl
      · split <;> rfl

/-- Reading a record, as a composition of steps. -/
theorem record_eq (offset : Nat) : Reader.record version offset = (do
    let ucn ← varint
    if ucn_pos : 0 < ucn then do
      let drafts ← atoms version
      close
      pure ⟨offset, ucn, drafts.map (·.toAtom ucn ucn_pos)⟩
    else throw (.flaw .withoutUcn) : Step Record) := by
  funext reader
  simp only [Reader.record, bind_apply]
  rcases reader.varint with fault | ⟨ucn, inside⟩
  · rfl
  · simp only
    split
    · simp only [bind_apply]
      rcases inside.atoms version with fault | ⟨drafts, covered⟩
      · rfl
      · simp only [close]
        cases covered.closing <;> rfl
    · rfl

end Reader
end AtomStore.Log
