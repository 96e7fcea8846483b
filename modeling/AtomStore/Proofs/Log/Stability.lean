import AtomStore.Proofs.Log.Steps

/-!
# Reading from a front part

A reading step takes bytes from the front and sees at most a fixed number of bytes behind them. So
what it finds does not change when more bytes follow, unless it ran out of bytes, and bytes out of
its sight are not missed. A record is read from exactly its own bytes, and a cut one is seen as cut
and as nothing else.
-/

namespace AtomStore.Log
namespace Reader

variable {α β : Type} {version : Version} {reader : Reader} {sight near : Nat}

/-- The reader with more bytes behind those ahead. -/
def extend (reader : Reader) (more : Bytes) : Reader :=
  { reader with rest := reader.rest ++ more }

/-- How a step reads that sees at most a number of bytes behind those that it takes. -/
structure SequentialAt (sight : Nat) (step : Step α) (reader : Reader) : Prop where
  /-- What is taken was ahead, and the reader comes to stand behind it. -/
  takes : ∀ {found next}, step reader = .ok (found, next) →
    ∃ taken, reader.rest = taken ++ next.rest ∧ next = reader.after taken next.rest
  /-- Bytes added behind those ahead change nothing for a step that does not run out of bytes. -/
  stable : ∀ more, step reader = .error .ended ∨
    step (reader.extend more) = (step reader).map fun found => (found.1, found.2.extend more)
  /-- A step does not run out of bytes when those that it neither takes nor sees are missing. -/
  enough : ∀ {more found next}, step (reader.extend more) = .ok (found, next) →
    more.length + sight ≤ next.rest.length → step reader ≠ .error .ended

/-- A step that reads in this way wherever the reader stands. -/
def Sequential (sight : Nat) (step : Step α) : Prop := ∀ reader, SequentialAt sight step reader

namespace SequentialAt

variable {step : Step α}

/-- A sequential step runs out of bytes, or fails with and without more bytes, or succeeds with and
without them. -/
theorem settle (sequential : SequentialAt sight step reader) (more : Bytes) :
    step reader = .error .ended ∨
      (∃ fault, step reader = .error fault ∧ step (reader.extend more) = .error fault) ∨
      ∃ found next, step reader = .ok (found, next) ∧
        step (reader.extend more) = .ok (found, next.extend more) := by
  rcases sequential.stable more with ended | grown
  · exact .inl ended
  · cases read : step reader with
    | error fault => exact .inr (.inl ⟨fault, rfl, by rw [grown, read]; rfl⟩)
    | ok found => exact .inr (.inr ⟨found.1, found.2, rfl, by rw [grown, read]; rfl⟩)

/-- What a step finds it also finds with more bytes. -/
theorem grow (sequential : SequentialAt sight step reader) {found : α} {next : Reader}
    (read : step reader = .ok (found, next)) (more : Bytes) :
    step (reader.extend more) = .ok (found, next.extend more) := by
  rcases sequential.stable more with ended | grown
  · rw [read] at ended
    cases ended
  · rw [grown, read]
    rfl

/-- What a step finds it also finds without the bytes that it neither takes nor sees. -/
theorem front (sequential : SequentialAt sight step reader) {more : Bytes} {found : α}
    {next : Reader} (read : step (reader.extend more) = .ok (found, next))
    (left : more.length + sight ≤ next.rest.length) :
    ∃ last, step reader = .ok (found, last) ∧ next = last.extend more := by
  rcases sequential.settle more with ended | ⟨fault, _, grown⟩ | ⟨other, last, read', grown⟩
  · exact absurd ended (sequential.enough read left)
  · rw [read] at grown
    cases grown
  · rw [read] at grown
    cases grown
    exact ⟨last, read', rfl⟩

/-- Steps that agree here, with and without more bytes, read alike. -/
theorem congr {other : Step α} (sequential : SequentialAt sight step reader)
    (same : other reader = step reader)
    (grown : ∀ more, other (reader.extend more) = step (reader.extend more)) :
    SequentialAt sight other reader := by
  refine ⟨fun read => ?_, fun more => ?_, fun {more _ _} read left => ?_⟩
  · exact sequential.takes (same ▸ read)
  · rw [same, grown]
    exact sequential.stable more
  · rw [same]
    exact sequential.enough (grown more ▸ read) left

/-- One step and then another, which takes what the first one sees. -/
theorem bind {later : α → Step β} (first : SequentialAt near step reader)
    (second : ∀ {found next}, step reader = .ok (found, next) →
      SequentialAt sight (later found) next)
    (covers : ∀ {other found middle last next}, step other = .ok (found, middle) →
      later found middle = .ok (last, next) →
      next.rest.length + near ≤ middle.rest.length + sight) :
    SequentialAt sight (step >>= later) reader := by
  refine ⟨fun {last next} read => ?_, fun more => ?_, fun {more last next} read left => ?_⟩
  · obtain ⟨found, middle, began, ended⟩ := bind_eq_ok read
    obtain ⟨front, ahead, reached⟩ := first.takes began
    obtain ⟨back, behind, stopped⟩ := (second began).takes ended
    refine ⟨front ++ back, ?_, ?_⟩
    · rw [ahead, behind, List.append_assoc]
    · rw [reached, after_after] at stopped
      exact stopped
  · rw [bind_apply, bind_apply]
    rcases first.settle more with ended | ⟨fault, began, grown⟩ | ⟨found, middle, began, grown⟩
    · left
      rw [ended]
    · right
      rw [began, grown]
      rfl
    · rw [began, grown]
      exact (second began).stable more
  · obtain ⟨found, middle, began, ended⟩ := bind_eq_ok read
    have seen := covers began ended
    obtain ⟨short, early, grown⟩ := first.front began (by omega)
    rw [bind_apply, early]
    rw [grown] at ended
    exact (second early).enough ended left

end SequentialAt

namespace Sequential

variable {step : Step α}

/-- Steps that are sequential one after the other are sequential together. -/
theorem bind {later : α → Step β} (first : Sequential near step)
    (second : ∀ found, Sequential sight (later found)) (wider : near ≤ sight := by omega) :
    Sequential sight (step >>= later) := by
  intro reader
  refine (first reader).bind (fun _ => second _ _) fun {_ found middle _ _} _ read => ?_
  obtain ⟨taken, ahead, _⟩ := (second found middle).takes read
  rw [ahead, List.length_append]
  omega

/-- A step that succeeds ends early on every front part that stops short of what it takes. -/
theorem cut (sequential : Sequential sight step) {front back : Bytes} {position : Nat}
    {register : UInt32} {found : α} {next : Reader}
    (read : step ⟨front ++ back, position, register⟩ = .ok (found, next))
    (short : next.rest.length < back.length) :
    step ⟨front, position, register⟩ = .error .ended := by
  rcases (sequential ⟨front, position, register⟩).settle back with
    ended | ⟨fault, _, grown⟩ | ⟨other, last, _, grown⟩
  · exact ended
  · rw [extend, read] at grown
    cases grown
  · rw [extend, read] at grown
    cases grown
    simp only [extend, List.length_append] at short
    omega

end Sequential

/-- Looking at what does not depend on the bytes ahead is sequential. -/
theorem sequential_look {see : Reader → α}
    (blind : ∀ reader more, see (reader.extend more) = see reader) :
    Sequential sight (look see) := by
  intro reader
  refine ⟨fun read => ?_, fun more => .inr ?_, fun _ _ => nofun⟩
  · cases read
    exact ⟨[], rfl, rfl⟩
  · rw [look, blind]
    rfl

theorem sequential_pure (found : α) : Sequential sight (pure found) :=
  sequential_look fun _ _ => rfl

theorem sequential_throw (fault : ReadFault) : Sequential sight (throw fault : Step α) := by
  intro reader
  refine ⟨fun read => ?_, fun more => .inr rfl, fun read _ _ => ?_⟩
  · cases read
  · cases read

/-- A byte is read front to back. -/
theorem sequential_byte : Sequential 0 byte := by
  intro reader
  obtain ⟨rest, position, register⟩ := reader
  cases rest with
  | nil =>
    refine ⟨nofun, fun _ => .inl rfl, fun read left => ?_⟩
    have taken := length_byte read
    simp only [extend, List.nil_append] at taken
    omega
  | cons first rest =>
    refine ⟨fun read => ?_, fun _ => .inr rfl, fun _ _ => nofun⟩
    cases read
    exact ⟨[first], rfl, rfl⟩

/-- A run is read front to back. -/
theorem sequential_run (count : Nat) : Sequential 0 (·.run count) := by
  intro reader
  refine ⟨fun read => ?_, fun more => ?_, fun read left => ?_⟩
  · rw [run_eq] at read
    split at read
    · cases read
    · cases read
      exact ⟨reader.rest.take count, (List.take_append_drop ..).symm, rfl⟩
  · simp only [run_eq, extend, List.length_append]
    by_cases short : reader.rest.length < count
    · left
      rw [if_pos short]
    · right
      rw [if_neg short, if_neg (by omega), List.take_append_of_le_length (by omega),
        List.drop_append_of_le_length (by omega)]
      rfl
  · have taken := length_run read
    simp only [extend, List.length_append] at taken
    rw [run_eq, if_neg (by omega)]
    exact nofun

/-- Digits are read front to back. -/
theorem sequential_digits (room : Nat) : Sequential 0 (·.digits room) := by
  induction room with
  | zero =>
    rw [digits_zero_eq]
    refine sequential_byte.bind fun last => ?_
    split
    · exact sequential_pure _
    · exact sequential_throw _
  | succ room ih =>
    rw [digits_succ_eq]
    refine sequential_byte.bind fun low => ?_
    split
    · exact sequential_pure _
    · exact ih.bind fun high => sequential_pure _

theorem sequential_varint : Sequential 0 varint := sequential_digits 9

/-- A length is read front to back. -/
theorem sequential_valueLength : Sequential 0 valueLength := by
  rw [valueLength_eq]
  refine sequential_varint.bind fun length => ?_
  split
  · exact sequential_throw _
  · exact sequential_pure _

/-- A value is read front to back. -/
theorem sequential_value (kind : ValueKind) : Sequential 0 (·.value kind) := by
  cases kind with
  | integer =>
    rw [value_integer_eq]
    exact sequential_varint.bind fun number => sequential_pure _
  | text =>
    rw [value_text_eq]
    refine sequential_valueLength.bind fun length => ?_
    refine (sequential_run length).bind fun taken => ?_
    split
    · exact sequential_throw _
    · exact sequential_pure _
  | bytes =>
    rw [value_bytes_eq]
    refine sequential_valueLength.bind fun length => ?_
    exact (sequential_run length).bind fun taken => sequential_pure _
  | hosted =>
    have here : Sequential 0 (look Reader.position) := sequential_look fun _ _ => rfl
    rw [value_hosted_eq]
    refine sequential_valueLength.bind fun length => ?_
    refine here.bind fun start => ?_
    exact (sequential_run length).bind fun taken => sequential_pure _

/-- A junction is read front to back. -/
theorem sequential_junction : Sequential 0 (junction version) := by
  rw [junction_eq]
  refine sequential_byte.bind fun tag => ?_
  split
  · exact sequential_throw _
  · rename_i kind _
    refine sequential_varint.bind fun key => ?_
    exact (sequential_value kind).bind fun particle => sequential_pure _

/-- A mark ahead stays ahead, and only a reader without bytes can come to stand before one. -/
theorem atMark_extend (more : Bytes) (some : reader.rest ≠ []) :
    (reader.extend more).atMark = reader.atMark := by
  obtain ⟨rest, position, register⟩ := reader
  cases rest with
  | nil => exact absurd rfl some
  | cons first rest => rfl

/-- Junctions end in front of a mark, which is seen and not taken. -/
theorem sequential_junctions (held : Junctions) : Sequential 1 (·.junctions version held) := by
  intro reader
  induction count : reader.rest.length using Nat.strongRecOn generalizing reader held with
  | ind count ih =>
    subst count
    by_cases empty : reader.rest = []
    · have ended : reader.junctions version held = .error .ended := by
        rw [junctions_of_not_atMark (by rw [atMark, empty]), moreJunctions]
        simp only [bind_apply, junction, byte, empty]
      refine ⟨fun read => ?_, fun more => .inl ended, fun read left => ?_⟩
      · rw [ended] at read
        cases read
      · -- a mark may be the first of the bytes added, but then only those are left
        have kept := length_junctions read
        simp only [extend, empty, List.nil_append] at kept
        omega
    · cases mark : reader.atMark with
      | true =>
        refine (sequential_pure held reader).congr (junctions_of_atMark mark) fun more => ?_
        exact junctions_of_atMark (by rw [atMark_extend more empty, mark])
      | false =>
        have others : SequentialAt 1 (moreJunctions version held) reader := by
          refine (sequential_junction reader).bind (fun {found next} read => ?_) fun _ read => ?_
          · split
            · exact sequential_throw _ next
            · exact ih _ (length_junction read) _ next rfl
          · rw [ite_step] at read
            split at read
            · cases read
            · have kept := length_junctions read
              omega
        refine others.congr (junctions_of_not_atMark mark) fun more => ?_
        exact junctions_of_not_atMark (by rw [atMark_extend more empty, mark])

/-- An atom is read front to back, with a look at the byte behind it. -/
theorem sequential_atom : Sequential 1 (Reader.atom version) := by
  rw [atom_eq]
  refine sequential_varint.bind fun id => ?_
  exact (sequential_junctions .empty).bind fun held => sequential_pure _

/-- The atoms of a record are read front to back, the end mark included. -/
theorem sequential_atoms : Sequential 0 (atoms version) := by
  intro reader
  induction count : reader.rest.length using Nat.strongRecOn generalizing reader with
  | ind count ih =>
    subst count
    rw [atoms_eq_steps]
    refine (sequential_byte reader).bind (fun {mark inside} marked => ?_) fun began read => ?_
    · split
      · exact sequential_pure _ inside
      · split
        · refine (sequential_atom inside).bind (fun {draft next} taken => ?_) fun _ read => ?_
          · have first := length_byte marked
            have second := length_atom taken
            refine (ih _ (by omega) next rfl).bind (fun _ => sequential_pure _ _) fun _ done => ?_
            cases done
            exact Nat.le_refl _
          · obtain ⟨drafts, last, gathered, done⟩ := bind_eq_ok read
            cases done
            exact length_atoms gathered
        · split <;> exact sequential_throw _ inside
    · have first := length_byte began
      have all := length_atoms (atoms_eq_steps ▸ (bind_apply ..).trans (by rw [began]; exact read))
      omega

/-- The checksum and the end mark are read front to back. -/
theorem sequential_close : Sequential 0 close := by
  rw [close_eq]
  have seen : Sequential 0 (look Reader.register) := sequential_look fun _ _ => rfl
  refine seen.bind fun register => ?_
  refine (sequential_run 4).bind fun stored => ?_
  refine sequential_byte.bind fun last => ?_
  split
  · exact sequential_throw _
  · split
    · exact sequential_throw _
    · exact sequential_pure _

/-- A record is read front to back. -/
theorem sequential_record (offset : Nat) : Sequential 0 (Reader.record version offset) := by
  rw [record_eq]
  refine sequential_varint.bind fun ucn => ?_
  split
  · refine sequential_atoms.bind fun drafts => ?_
    exact sequential_close.bind fun _ => sequential_pure _
  · exact sequential_throw _

end Reader
end AtomStore.Log
