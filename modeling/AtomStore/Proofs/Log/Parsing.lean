import AtomStore.Proofs.Log.Grammar
import AtomStore.Proofs.Log.Spans

/-!
# Reading trees

Every step of the reader takes the trees of one rule of the grammar and no other bytes: it finds
what a tree stands for where bytes begin with those of the tree, and fails on all others. The trees
of numbers and values end by themselves; the junctions of an atom end where a mark is found.
-/

namespace AtomStore.Log

namespace Reader

variable {α β : Type} {version : Version} {reader next : Reader}

/-- Two steps find something just when the first one does and the second one does behind it. -/
theorem bind_eq_ok_iff {step : Step α} {later : α → Step β} {last : β} :
    (step >>= later) reader = .ok (last, next) ↔
      ∃ found middle, step reader = .ok (found, middle) ∧
        later found middle = .ok (last, next) := by
  constructor
  · exact bind_eq_ok
  · intro given
    obtain ⟨found, middle, began, ended⟩ := given
    rw [bind_apply, began]
    exact ended

/-- A byte is read just when there is one. -/
theorem byte_eq_ok_iff {first : UInt8} :
    reader.byte = .ok (first, next) ↔
      ∃ rest, reader.rest = first :: rest ∧ next = reader.after [first] rest := by
  constructor
  · intro read
    have ahead := rest_of_byte read
    rw [byte_of_rest ahead] at read
    exact ⟨next.rest, ahead, (Prod.mk.inj (Except.ok.inj read)).2.symm⟩
  · intro given
    obtain ⟨rest, ahead, rfl⟩ := given
    exact byte_of_rest ahead

/-- A run is read just when there are enough bytes, and then it is the first of them. -/
theorem run_eq_ok_iff {count : Nat} {taken : Bytes} :
    reader.run count = .ok (taken, next) ↔
      ∃ rest, taken.length = count ∧ reader.rest = taken ++ rest ∧
        next = reader.after taken rest := by
  constructor
  · intro read
    rw [run_eq] at read
    split at read
    · cases read
    · cases read
      exact ⟨_, by rw [List.length_take]; omega, (List.take_append_drop ..).symm, rfl⟩
  · intro given
    obtain ⟨rest, rfl, ahead, rfl⟩ := given
    exact run_of_rest ahead

end Reader

namespace Grammar

variable {τ α : Type} {version : Version} {reader inside next : Reader} {rest : Bytes}

/-- Whether a step takes just the trees of a rule, and finds what they stand for. -/
def Parses (bytes : τ → Bytes) (place : Nat → τ → α) (step : Reader.Step α) : Prop :=
  ∀ reader found next, step reader = .ok (found, next) ↔
    ∃ tree rest, reader.rest = bytes tree ++ rest ∧ found = place reader.position tree ∧
      next = reader.after (bytes tree) rest

/-- Whether digits stand for a number that is read with room for so many digits before the last. -/
structure Counted (room number : Nat) (leading : Bytes) (last : UInt8) : Prop where
  marked : ∀ digit ∈ leading, 128 ≤ digit.toNat
  unmarked : last.toNat < 128
  short : leading.length ≤ room
  bounded : number < 2 * 128 ^ room
  value : number =
    leading.foldr (fun digit higher => digit.toNat - 128 + 128 * higher) last.toNat

/-- A number of one digit is that digit. -/
theorem counted_nil_iff {room number : Nat} {last : UInt8} :
    Counted room number [] last ↔
      last.toNat < 128 ∧ last.toNat < 2 * 128 ^ room ∧ number = last.toNat := by
  constructor
  · intro counted
    obtain ⟨_, unmarked, _, bounded, rfl⟩ := counted
    exact ⟨unmarked, bounded, rfl⟩
  · intro given
    obtain ⟨unmarked, bounded, rfl⟩ := given
    exact ⟨List.forall_mem_nil _, unmarked, Nat.zero_le _, bounded, rfl⟩

/-- A number of several digits is its lowest one and a number with less room. -/
theorem counted_cons_iff {room number : Nat} {low last : UInt8} {leading : Bytes} :
    Counted (room + 1) number (low :: leading) last ↔
      128 ≤ low.toNat ∧ ∃ higher, Counted room higher leading last ∧
        number = low.toNat - 128 + 128 * higher := by
  have narrow := low.toNat_lt
  have wider : 2 * 128 ^ (room + 1) = 128 * (2 * 128 ^ room) := by
    rw [Nat.pow_succ]
    omega
  constructor
  · intro counted
    obtain ⟨marked, unmarked, short, bounded, rfl⟩ := counted
    obtain ⟨large, others⟩ := List.forall_mem_cons.mp marked
    rw [List.foldr_cons, wider] at bounded
    exact ⟨large, _, ⟨others, unmarked, Nat.le_of_succ_le_succ short, by omega, rfl⟩, rfl⟩
  · intro given
    obtain ⟨large, _, ⟨others, unmarked, short, bounded, rfl⟩, rfl⟩ := given
    refine ⟨List.forall_mem_cons.mpr ⟨large, others⟩, unmarked, Nat.succ_le_succ short, ?_, rfl⟩
    omega

/-- Digits are read just where a number stands that has the room. -/
theorem digits_eq_ok_iff {room number : Nat} :
    reader.digits room = .ok (number, next) ↔
      ∃ leading last rest, Counted room number leading last ∧
        reader.rest = leading ++ last :: rest ∧ next = reader.after (leading ++ [last]) rest := by
  induction room generalizing reader number with
  | zero =>
    rw [Reader.digits]
    constructor
    · intro read
      split at read
      · cases read
      · rename_i last after taken
        obtain ⟨rest, ahead, rfl⟩ := Reader.byte_eq_ok_iff.mp taken
        split at read
        · cases read
          exact ⟨[], last, rest, counted_nil_iff.mpr ⟨by omega, by omega, rfl⟩, ahead, rfl⟩
        · cases read
    · intro given
      obtain ⟨leading, last, rest, counted, ahead, rfl⟩ := given
      obtain rfl := List.eq_nil_of_length_eq_zero (Nat.le_zero.mp counted.short)
      obtain ⟨_, small, rfl⟩ := counted_nil_iff.mp counted
      rw [List.nil_append] at ahead
      rw [Reader.byte_of_rest ahead]
      simp only
      rw [if_pos (by omega)]
      rfl
  | succ room ih =>
    rw [Reader.digits]
    constructor
    · intro read
      split at read
      · cases read
      · rename_i low middle taken
        obtain ⟨behind, ahead, rfl⟩ := Reader.byte_eq_ok_iff.mp taken
        split at read
        · rename_i small
          cases read
          have := Nat.one_le_pow room 128 (by omega)
          refine ⟨[], low, behind, counted_nil_iff.mpr ⟨small, ?_, rfl⟩, ahead, rfl⟩
          rw [Nat.pow_succ]
          omega
        · rename_i large
          split at read
          · cases read
          · rename_i higher last found
            cases read
            obtain ⟨leading, final, rest, counted, later, rfl⟩ := ih.mp found
            obtain rfl : behind = leading ++ final :: rest := later
            have grown := counted_cons_iff.mpr ⟨Nat.le_of_not_lt large, higher, counted, rfl⟩
            exact ⟨low :: leading, final, rest, grown, ahead, Reader.after_after ..⟩
    · intro given
      obtain ⟨leading, last, rest, counted, ahead, rfl⟩ := given
      cases leading with
      | nil =>
        obtain ⟨unmarked, _, rfl⟩ := counted_nil_iff.mp counted
        rw [List.nil_append] at ahead
        rw [Reader.byte_of_rest ahead]
        simp only
        rw [if_pos unmarked]
        rfl
      | cons low leading =>
        obtain ⟨large, higher, fewer, rfl⟩ := counted_cons_iff.mp counted
        rw [List.cons_append] at ahead
        have found := ih.mpr ⟨leading, last, rest, fewer,
          Reader.after_rest reader [low] (leading ++ last :: rest),
          (Reader.after_after reader [low] (leading ++ [last]) _ rest).symm⟩
        rw [Reader.byte_of_rest ahead]
        simp only
        rw [if_neg (Nat.not_lt.mpr large), found]

/-- A number is read just where the grammar has one. -/
theorem parses_varint : Parses Numeral.bytes (fun _ numeral => numeral.value) Reader.varint := by
  intro reader found next
  constructor
  · intro read
    obtain ⟨leading, last, rest, ⟨marked, unmarked, short, bounded, rfl⟩, ahead, reached⟩ :=
      digits_eq_ok_iff.mp read
    refine ⟨⟨leading, last, marked, unmarked, short, bounded⟩, rest, ?_, rfl, reached⟩
    rw [ahead, Numeral.bytes, List.append_assoc]
    rfl
  · intro given
    obtain ⟨⟨leading, last, marked, unmarked, short, bounded⟩, rest, ahead, rfl, rfl⟩ := given
    rw [Numeral.bytes, List.append_assoc] at ahead
    exact digits_eq_ok_iff.mpr
      ⟨leading, last, rest, ⟨marked, unmarked, short, bounded, rfl⟩, ahead, rfl⟩

/-- A length is read just where a number stands that is not too large. -/
theorem valueLength_eq_ok_iff {length : Nat} :
    reader.valueLength = .ok (length, next) ↔
      ∃ (numeral : Numeral) (rest : Bytes), length ≤ maxValueLength ∧ numeral.value = length ∧
        reader.rest = numeral.bytes ++ rest ∧ next = reader.after numeral.bytes rest := by
  rw [Reader.valueLength]
  constructor
  · intro read
    split at read
    · cases read
    · rename_i taken
      split at read
      · cases read
      · rename_i short
        cases read
        obtain ⟨numeral, rest, ahead, rfl, reached⟩ := (parses_varint reader _ _).mp taken
        exact ⟨numeral, rest, Nat.not_lt.mp short, rfl, ahead, reached⟩
  · intro given
    obtain ⟨numeral, rest, short, rfl, ahead, rfl⟩ := given
    rw [(parses_varint reader _ _).mpr ⟨numeral, rest, ahead, rfl, rfl⟩]
    simp only
    rw [if_neg (Nat.not_lt.mpr short)]

/-- A length and as many bytes are a run. -/
theorem run_iff {length : Nat} {taken : Bytes} :
    (reader.valueLength = .ok (length, inside) ∧ inside.run length = .ok (taken, next)) ↔
      ∃ (run : Run) (rest : Bytes), reader.rest = run.bytes ++ rest ∧ taken = run.payload ∧
        length = run.payload.length ∧
        inside = reader.after run.length.bytes (run.payload ++ rest) ∧
        next = reader.after run.bytes rest := by
  constructor
  · intro given
    obtain ⟨measured, ran⟩ := given
    obtain ⟨numeral, behind, short, value, ahead, rfl⟩ := valueLength_eq_ok_iff.mp measured
    obtain ⟨rest, rfl, same, rfl⟩ := Reader.run_eq_ok_iff.mp ran
    obtain rfl : behind = taken ++ rest := same
    refine ⟨⟨numeral, taken, value, short⟩, rest, ?_, rfl, rfl, rfl, Reader.after_after ..⟩
    rw [ahead, Run.bytes, List.append_assoc]
  · intro given
    obtain ⟨run, rest, ahead, rfl, rfl, rfl, rfl⟩ := given
    rw [Run.bytes, List.append_assoc] at ahead
    exact ⟨valueLength_eq_ok_iff.mpr ⟨run.length, _, run.short, run.measured, ahead, rfl⟩,
      Reader.run_eq_ok_iff.mpr ⟨rest, rfl, rfl, (Reader.after_after ..).symm⟩⟩

/-- A value is read just where the grammar has one of its kind. -/
theorem parses_value (kind : ValueKind) :
    Parses (Value.written : Value kind → Bytes) (fun position => Value.placed position)
      (·.value kind) := by
  intro reader found next
  cases kind with
  | integer =>
    rw [Reader.value_integer_eq, Reader.bind_eq_ok_iff]
    constructor
    · intro given
      obtain ⟨number, middle, taken, ⟨⟩⟩ := given
      obtain ⟨folded, rest, ahead, rfl, reached⟩ := (parses_varint reader _ _).mp taken
      exact ⟨.integer folded, rest, ahead, rfl, reached⟩
    · intro given
      obtain ⟨⟨folded⟩, rest, ahead, rfl, rfl⟩ := given
      exact ⟨_, _, (parses_varint reader _ _).mpr ⟨folded, rest, ahead, rfl, rfl⟩, rfl⟩
  | text =>
    rw [Reader.value_text_eq, Reader.bind_eq_ok_iff]
    constructor
    · intro given
      obtain ⟨length, inside, measured, later⟩ := given
      obtain ⟨taken, last, ran, later⟩ := Reader.bind_eq_ok_iff.mp later
      obtain ⟨run, rest, ahead, rfl, rfl, rfl, rfl⟩ := run_iff.mp ⟨measured, ran⟩
      cases decoded : Text.ofUtf8? run.payload with
      | none =>
        rw [decoded] at later
        cases later
      | some text =>
        rw [decoded] at later
        cases later
        exact ⟨.text run text (Text.eq_utf8_of_ofUtf8? decoded), rest, ahead, rfl, rfl⟩
    · intro given
      obtain ⟨tree, rest, ahead, rfl, rfl⟩ := given
      cases tree with
      | text run text encoded =>
        obtain ⟨measured, ran⟩ := run_iff.mpr ⟨run, rest, ahead, rfl, rfl, rfl, rfl⟩
        refine ⟨_, _, measured, Reader.bind_eq_ok_iff.mpr ⟨_, _, ran, ?_⟩⟩
        rw [encoded, Text.ofUtf8?_utf8]
        rfl
  | bytes =>
    rw [Reader.value_bytes_eq, Reader.bind_eq_ok_iff]
    constructor
    · intro given
      obtain ⟨length, inside, measured, later⟩ := given
      obtain ⟨taken, last, ran, ⟨⟩⟩ := Reader.bind_eq_ok_iff.mp later
      obtain ⟨run, rest, ahead, rfl, rfl, rfl, rfl⟩ := run_iff.mp ⟨measured, ran⟩
      exact ⟨.bytes run, rest, ahead, rfl, rfl⟩
    · intro given
      obtain ⟨tree, rest, ahead, rfl, rfl⟩ := given
      cases tree with
      | bytes run =>
        obtain ⟨measured, ran⟩ := run_iff.mpr ⟨run, rest, ahead, rfl, rfl, rfl, rfl⟩
        exact ⟨_, _, measured, Reader.bind_eq_ok_iff.mpr ⟨_, _, ran, rfl⟩⟩
  | hosted =>
    rw [Reader.value_hosted_eq, Reader.bind_eq_ok_iff]
    constructor
    · intro given
      obtain ⟨length, inside, measured, later⟩ := given
      obtain ⟨start, same, ⟨⟩, later⟩ := Reader.bind_eq_ok_iff.mp later
      obtain ⟨taken, last, ran, ⟨⟩⟩ := Reader.bind_eq_ok_iff.mp later
      obtain ⟨run, rest, ahead, rfl, rfl, rfl, rfl⟩ := run_iff.mp ⟨measured, ran⟩
      exact ⟨.hosted run, rest, ahead, rfl, rfl⟩
    · intro given
      obtain ⟨tree, rest, ahead, rfl, rfl⟩ := given
      cases tree with
      | hosted run =>
        obtain ⟨measured, ran⟩ := run_iff.mpr ⟨run, rest, ahead, rfl, rfl, rfl, rfl⟩
        exact ⟨_, _, measured, Reader.bind_eq_ok_iff.mpr ⟨_, _, rfl,
          Reader.bind_eq_ok_iff.mpr ⟨_, _, ran, rfl⟩⟩⟩

/-- A tag is known just when it is that of a kind which the version can hold. -/
theorem kind?_eq_some_iff {tag : UInt8} {kind : ValueKind} :
    version.kind? tag = some kind ↔
      tag = kind.tag ∧ (kind = .hosted → version.hosts = true) := by
  constructor
  · intro known
    unfold Version.kind? at known
    split at known
    · cases known
      exact ⟨‹_›, fun clash => by cases clash⟩
    · split at known
      · cases known
        exact ⟨‹_›, fun clash => by cases clash⟩
      · split at known
        · cases known
          exact ⟨‹_›, fun clash => by cases clash⟩
        · split at known
          · rename_i both
            cases known
            exact ⟨both.1, fun _ => both.2⟩
          · cases known
  · intro given
    obtain ⟨rfl, allowed⟩ := given
    cases version with
    | one => cases kind <;> first | rfl | exact absurd (allowed rfl) Bool.false_ne_true
    | two => cases kind <;> rfl

/-- A junction is read just where the grammar has one. -/
theorem parses_junction :
    Parses (Junction.bytes : Junction version → Bytes) Junction.placed
      (Reader.junction version) := by
  intro reader found next
  rw [Reader.junction_eq, Reader.bind_eq_ok_iff]
  constructor
  · intro given
    obtain ⟨tag, tagged, taken, later⟩ := given
    obtain ⟨behind, ahead, rfl⟩ := Reader.byte_eq_ok_iff.mp taken
    cases known : version.kind? tag with
    | none =>
      rw [known] at later
      cases later
    | some kind =>
      rw [known] at later
      obtain ⟨key, keyed, numbered, later⟩ := Reader.bind_eq_ok_iff.mp later
      obtain ⟨particle, last, valued, ⟨⟩⟩ := Reader.bind_eq_ok_iff.mp later
      obtain ⟨number, front, shape, rfl, rfl⟩ := (parses_varint _ _ _).mp numbered
      obtain ⟨value, rest, same, rfl, rfl⟩ := (parses_value kind _ _ _).mp valued
      obtain rfl : behind = number.bytes ++ front := shape
      obtain rfl : front = value.written ++ rest := same
      obtain ⟨rfl, allowed⟩ := kind?_eq_some_iff.mp known
      refine ⟨⟨kind, allowed, number, value⟩, rest, ?_, rfl, ?_⟩
      · rw [ahead, Junction.bytes, List.cons_append, List.append_assoc]
      · rw [Reader.after_after, Reader.after_after]
        rfl
  · intro given
    obtain ⟨⟨kind, allowed, number, value⟩, rest, ahead, rfl, rfl⟩ := given
    rw [Junction.bytes, List.cons_append, List.append_assoc] at ahead
    refine ⟨_, _, Reader.byte_of_rest ahead, ?_⟩
    rw [kind?_eq_some_iff.mpr ⟨rfl, allowed⟩]
    let tagged := reader.after [kind.tag] (number.bytes ++ (value.written ++ rest))
    let keyed := tagged.after number.bytes (value.written ++ rest)
    have reached : keyed.after value.written rest =
        reader.after (Junction.bytes ⟨kind, allowed, number, value⟩) rest := by
      rw [Reader.after_after, Reader.after_after]
      rfl
    have numbered := (parses_varint tagged _ keyed).mpr ⟨number, _, rfl, rfl, rfl⟩
    have valued := (parses_value kind keyed _ _).mpr ⟨value, rest, rfl, rfl, reached.symm⟩
    exact Reader.bind_eq_ok_iff.mpr ⟨_, _, numbered, Reader.bind_eq_ok_iff.mpr ⟨_, _, valued, rfl⟩⟩

/-- A reader stands at a mark when the junctions of an atom end there. -/
theorem atMark_iff : reader.atMark = true ↔ Marked reader.rest := by
  unfold Reader.atMark
  constructor
  · intro given
    split at given
    · cases given
    · rename_i mark rest ahead
      rw [Bool.or_eq_true, beq_iff_eq, beq_iff_eq] at given
      exact ⟨mark, rest, ahead, given⟩
  · intro given
    obtain ⟨mark, rest, ahead, given⟩ := given
    rw [ahead, Bool.or_eq_true, beq_iff_eq, beq_iff_eq]
    exact given

/-- Binding a new key keeps the keys apart. -/
theorem nodup_keys_cons {held : Junctions} {key : Key} {particle : Particle} {later : List Key}
    (absent : held.get? key = none)
    (distinct : ((held.insert key particle).keys ++ later).Nodup) :
    (held.keys ++ key :: later).Nodup := by
  obtain ⟨_, others, apart⟩ := List.nodup_append.mp distinct
  have outside : key ∉ held.keys := SortedMap.get?_eq_none_iff.mp absent
  have kept {bound : Key} (member : bound ∈ held.keys) : bound ∈ (held.insert key particle).keys :=
    SortedMap.mem_keys_insert.mpr (.inr member)
  have unlike : key ∉ later := fun inside =>
    apart key (SortedMap.mem_keys_insert.mpr (.inl rfl)) key inside rfl
  refine List.nodup_append.mpr ⟨SortedMap.nodup_keys held, List.nodup_cons.mpr ⟨unlike, others⟩, ?_⟩
  intro bound member other inside
  rcases List.mem_cons.mp inside with rfl | later
  · rintro rfl
    exact outside member
  · exact apart bound (kept member) other later

/-- Junctions are taken up to a mark when no key is repeated among them and those held. -/
theorem junctions_eq_ok_iff {held found : Junctions} :
    reader.junctions version held = .ok (found, next) ↔
      ∃ (junctions : List (Junction version)) (rest : Bytes),
        (held.keys ++ junctions.map Junction.key).Nodup ∧ Marked rest ∧
        reader.rest = junctions.flatMap Junction.bytes ++ rest ∧
        found = (placeAll Junction.bytes Junction.placed reader.position junctions).foldl
          (fun held binding => held.insert binding.1 binding.2) held ∧
        next = reader.after (junctions.flatMap Junction.bytes) rest := by
  constructor
  · intro read
    fun_induction Reader.junctions version reader held with
    | case1 reader held marked =>
      cases read
      refine ⟨[], _, ?_, atMark_iff.mp marked, rfl, rfl, rfl⟩
      rw [List.map_nil, List.append_nil]
      exact SortedMap.nodup_keys _
    | case2 => cases read
    | case3 => cases read
    | case4 reader held _ key particle middle taken absent ih =>
      obtain ⟨junctions, rest, distinct, marked, behind, rfl, rfl⟩ := ih read
      obtain ⟨junction, front, ahead, same, rfl⟩ := (parses_junction _ _ _).mp taken
      obtain ⟨rfl, rfl⟩ := Prod.mk.inj same
      obtain rfl : front = junctions.flatMap Junction.bytes ++ rest := behind
      rw [Bool.not_eq_true, Option.isSome_eq_false_iff, Option.isNone_iff_eq_none] at absent
      refine ⟨junction :: junctions, rest, nodup_keys_cons absent distinct, marked, ?_, rfl,
        Reader.after_after ..⟩
      rw [ahead, List.flatMap_cons, List.append_assoc]
  · intro given
    obtain ⟨junctions, rest, distinct, marked, ahead, rfl, rfl⟩ := given
    induction junctions generalizing reader held with
    | nil =>
      have here : reader.rest = rest := ahead
      rw [Reader.junctions_of_atMark (atMark_iff.mpr (here ▸ marked)), ← here]
      rfl
    | cons junction later ih =>
      rw [List.flatMap_cons, List.append_assoc] at ahead
      have taken := (parses_junction reader _ _).mpr ⟨junction, _, ahead, rfl, rfl⟩
      obtain ⟨absent, apart⟩ := Reader.distinct_insert distinct
        (junction.placed reader.position).2
      have unmarked : ¬ reader.atMark = true := by
        intro marked
        exact (atMark_iff.mp marked).barred junction _ ahead
      rw [Reader.junctions_eq, if_neg unmarked, taken]
      simp only
      rw [if_neg (by rw [Junction.placed, absent]; exact Bool.false_ne_true)]
      have onward := ih apart (Reader.after_rest reader junction.bytes _)
      rw [Reader.after_after] at onward
      exact onward

/-- An atom is taken up to a mark. -/
theorem atom_eq_ok_iff {draft : Draft} :
    reader.atom version = .ok (draft, next) ↔
      ∃ (atom : Atom version) (rest : Bytes), Marked rest ∧ reader.rest = atom.body ++ rest ∧
        draft = atom.drafted reader.position ∧ next = reader.after atom.body rest := by
  rw [Reader.atom_eq, Reader.bind_eq_ok_iff]
  constructor
  · intro given
    obtain ⟨id, inside, numbered, later⟩ := given
    obtain ⟨found, last, bound, ⟨⟩⟩ := Reader.bind_eq_ok_iff.mp later
    obtain ⟨number, front, ahead, rfl, rfl⟩ := (parses_varint _ _ _).mp numbered
    obtain ⟨junctions, rest, distinct, marked, same, rfl, rfl⟩ := junctions_eq_ok_iff.mp bound
    obtain rfl : front = junctions.flatMap Junction.bytes ++ rest := same
    refine ⟨⟨number, junctions, distinct⟩, rest, marked, ?_, rfl, Reader.after_after ..⟩
    rw [ahead, Atom.body, List.append_assoc]
  · intro given
    obtain ⟨⟨number, junctions, distinct⟩, rest, marked, ahead, rfl, rfl⟩ := given
    rw [Atom.body, List.append_assoc] at ahead
    have fresh : ((SortedMap.empty : Junctions).keys ++ junctions.map Junction.key).Nodup :=
      distinct
    have bound := junctions_eq_ok_iff.mpr ⟨junctions, rest, fresh, marked,
      Reader.after_rest reader number.bytes _, rfl, (Reader.after_after ..).symm⟩
    exact ⟨_, _, (parses_varint _ _ _).mpr ⟨number, _, ahead, rfl, rfl⟩,
      Reader.bind_eq_ok_iff.mpr ⟨_, _, bound, rfl⟩⟩

/-- Atoms are read just where the grammar has them, up to the mark that ends them. -/
theorem atoms_eq_ok_iff {drafts : List Draft} :
    reader.atoms version = .ok (drafts, next) ↔
      ∃ (atoms : List (Atom version)) (rest : Bytes),
        reader.rest = atoms.flatMap Atom.bytes ++ atomsEnd :: rest ∧
        drafts = placeAll Atom.bytes Atom.placed reader.position atoms ∧
        next = reader.after (atoms.flatMap Atom.bytes ++ [atomsEnd]) rest := by
  constructor
  · intro read
    fun_induction Reader.atoms version reader generalizing drafts next with
    | case1 => cases read
    | case2 reader inside taken =>
      cases read
      obtain ⟨rest, ahead, rfl⟩ := Reader.byte_eq_ok_iff.mp taken
      exact ⟨[], rest, ahead, rfl, rfl⟩
    | case3 => cases read
    | case4 => cases read
    | case5 reader inside draft middle taken found last gathered marked _ ih =>
      cases read
      obtain ⟨behind, ahead, rfl⟩ := Reader.byte_eq_ok_iff.mp marked
      obtain ⟨atom, front, _, shape, rfl, moved⟩ := atom_eq_ok_iff.mp taken
      rw [Reader.after_after] at moved
      obtain rfl : middle = reader.after atom.bytes front := moved
      obtain ⟨atoms, rest, same, rfl, rfl⟩ := ih gathered
      obtain rfl : behind = atom.body ++ front := shape
      obtain rfl : front = atoms.flatMap Atom.bytes ++ atomsEnd :: rest := same
      refine ⟨atom :: atoms, rest, ?_, rfl, ?_⟩
      · rw [ahead, List.flatMap_cons, Atom.bytes, List.append_assoc, List.cons_append]
      · rw [Reader.after_after, List.flatMap_cons, List.append_assoc]
    | case6 => cases read
    | case7 => cases read
  · intro given
    obtain ⟨atoms, rest, ahead, rfl, rfl⟩ := given
    induction atoms generalizing reader with
    | nil =>
      rw [Reader.atoms_eq, Reader.byte_of_rest ahead]
      rfl
    | cons atom later ih =>
      rw [List.flatMap_cons, Atom.bytes, List.cons_append, List.cons_append,
        List.append_assoc] at ahead
      have moved : reader.after atom.bytes (later.flatMap Atom.bytes ++ atomsEnd :: rest) =
          (reader.after [atomMark] _).after atom.body _ :=
        (Reader.after_after reader [atomMark] atom.body
          (atom.body ++ (later.flatMap Atom.bytes ++ atomsEnd :: rest)) _).symm
      have taken := atom_eq_ok_iff.mpr ⟨atom, _, marked_atoms later rest,
        Reader.after_rest reader [atomMark] _, rfl, moved⟩
      have onward := ih (Reader.after_rest reader atom.bytes _)
      rw [Reader.after_after, ← List.append_assoc, ← List.flatMap_cons] at onward
      rw [Reader.atoms_cons_eq ahead, taken]
      simp only
      rw [onward]
      rfl

/-- A record is closed just by the checksum of what was read and the end mark. -/
theorem closing_eq_ok_iff :
    reader.closing = .ok next ↔
      ∃ rest, reader.rest = wordBytes (Checksum.finish reader.register) ++ recordEnd :: rest ∧
        next = reader.after (wordBytes (Checksum.finish reader.register) ++ [recordEnd]) rest := by
  constructor
  · intro read
    have ahead := Reader.rest_of_closing read
    rw [Reader.closing_of_rest ahead] at read
    exact ⟨next.rest, ahead, (Except.ok.inj read).symm⟩
  · intro given
    obtain ⟨rest, ahead, rfl⟩ := given
    exact Reader.closing_of_rest ahead

/-- The UCN and the atoms of a record are read just where the grammar has them. -/
theorem body_eq_ok_iff {ucn : Nat} {drafts : List Draft} :
    Reader.body version reader = .ok ((ucn, drafts), next) ↔
      ∃ (number : Numeral) (atoms : List (Atom version)) (rest : Bytes),
        reader.rest = number.bytes ++ (atoms.flatMap Atom.bytes ++ atomsEnd :: rest) ∧
        ucn = number.value ∧
        drafts = placeAll Atom.bytes Atom.placed (reader.position + number.bytes.length) atoms ∧
        next = reader.after (number.bytes ++ (atoms.flatMap Atom.bytes ++ [atomsEnd])) rest := by
  rw [Reader.body, Reader.bind_eq_ok_iff]
  constructor
  · intro given
    obtain ⟨found, inside, numbered, later⟩ := given
    obtain ⟨gathered, last, taken, ⟨⟩⟩ := Reader.bind_eq_ok_iff.mp later
    obtain ⟨number, front, ahead, rfl, rfl⟩ := (parses_varint _ _ _).mp numbered
    obtain ⟨atoms, rest, same, rfl, rfl⟩ := atoms_eq_ok_iff.mp taken
    obtain rfl : front = atoms.flatMap Atom.bytes ++ atomsEnd :: rest := same
    exact ⟨number, atoms, rest, ahead, rfl, rfl, Reader.after_after ..⟩
  · intro given
    obtain ⟨number, atoms, rest, ahead, rfl, rfl, rfl⟩ := given
    have taken := atoms_eq_ok_iff.mpr ⟨atoms, rest, Reader.after_rest reader number.bytes _, rfl,
      (Reader.after_after ..).symm⟩
    exact ⟨_, _, (parses_varint _ _ _).mpr ⟨number, _, ahead, rfl, rfl⟩,
      Reader.bind_eq_ok_iff.mpr ⟨_, _, taken, rfl⟩⟩

/-- A record is read behind its mark just where its tree begins at the mark. -/
theorem record_eq_ok_iff {offset : Nat} {bytes : Bytes} {found : Log.Record} :
    (Reader.behindMark bytes offset).record version offset = .ok (found, next) ↔
      ∃ (record : Record version) (rest : Bytes), recordMark :: bytes = record.bytes ++ rest ∧
        found = record.placed offset ∧
        next = (Reader.mk [] offset Checksum.initial).after record.bytes rest := by
  constructor
  · intro read
    obtain ⟨ucn, drafts, covered, ucn_pos, taken, closed, rfl⟩ := Reader.record_eq_ok read
    obtain ⟨number, atoms, front, ahead, rfl, rfl, reached⟩ := body_eq_ok_iff.mp taken
    let record : Record version := ⟨number, ucn_pos, atoms⟩
    have shape : recordMark :: bytes = record.covered ++ front := by
      obtain rfl : bytes = _ := ahead
      simp only [record, Record.covered, List.cons_append, List.append_assoc, List.nil_append]
    rw [Reader.behindMark_eq, Reader.after_after] at reached
    obtain rfl : covered = (Reader.mk [] offset Checksum.initial).after record.covered front :=
      reached
    obtain ⟨rest, same, rfl⟩ := closing_eq_ok_iff.mp closed
    obtain rfl : front = wordBytes (Checksum.ofBytes record.covered) ++ recordEnd :: rest := same
    refine ⟨record, rest, ?_, rfl, Reader.after_after ..⟩
    rw [shape, Record.bytes]
    simp only [List.append_assoc, List.cons_append, List.nil_append]
  · intro given
    obtain ⟨record, rest, ahead, rfl, rfl⟩ := given
    let front := wordBytes (Checksum.ofBytes record.covered) ++ recordEnd :: rest
    have shape : bytes = record.number.bytes ++
        (record.atoms.flatMap Atom.bytes ++ atomsEnd :: front) := by
      simp only [Record.bytes, Record.covered, List.append_assoc, List.cons_append,
        List.nil_append] at ahead
      exact (List.cons.inj ahead).2
    have reached : (Reader.mk [] offset Checksum.initial).after record.covered front =
        (Reader.behindMark bytes offset).after (record.number.bytes ++
          (record.atoms.flatMap Atom.bytes ++ [atomsEnd])) front := by
      rw [Reader.behindMark_eq, Reader.after_after]
      rfl
    have taken := body_eq_ok_iff.mpr ⟨record.number, record.atoms, front, shape, rfl, rfl, reached⟩
    have closed := closing_eq_ok_iff.mpr ⟨rest, Reader.after_rest
      (Reader.mk [] offset Checksum.initial) record.covered front, (Reader.after_after ..).symm⟩
    exact Reader.record_of_body taken record.counted closed

end Grammar
end AtomStore.Log
