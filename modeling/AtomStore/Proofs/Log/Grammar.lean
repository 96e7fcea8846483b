import AtomStore.Log.Scan

/-!
# The grammar of records

What may stand behind the header of a data file is pad bytes and records, and this is said here
without a reader. A syntax tree keeps all that the bytes of a record leave open: the digits of a
number, which need not be the fewest, and the payloads of values. A tree that can be built is well
formed. No two trees have the same bytes, and where a tree ends does not depend on what follows it.
-/

namespace AtomStore.Log.Grammar

/-- A number of at most ten base-128 digits, lowest first, and of at most 64 bits. Every digit but
the last has its high bit set. -/
structure Numeral where
  leading : Bytes
  last : UInt8
  marked : ∀ digit ∈ leading, 128 ≤ digit.toNat
  unmarked : last.toNat < 128
  short : leading.length ≤ 9
  bounded : leading.foldr (fun digit higher => digit.toNat - 128 + 128 * higher) last.toNat <
    UInt64.size

namespace Numeral

def bytes (numeral : Numeral) : Bytes := numeral.leading ++ [numeral.last]

def value (numeral : Numeral) : Nat :=
  numeral.leading.foldr (fun digit higher => digit.toNat - 128 + 128 * higher) numeral.last.toNat

end Numeral

/-- A payload behind its length. -/
structure Run where
  length : Numeral
  payload : Bytes
  measured : length.value = payload.length
  short : payload.length ≤ maxValueLength

def Run.bytes (run : Run) : Bytes := run.length.bytes ++ run.payload

/-- A value of some kind. -/
inductive Value : ValueKind → Type where
  | integer (folded : Numeral) : Value .integer
  | text (run : Run) (text : String) (encoded : run.payload = Text.utf8 text) : Value .text
  | bytes (run : Run) : Value .bytes
  | hosted (run : Run) : Value .hosted

namespace Value

def written : {kind : ValueKind} → Value kind → Bytes
  | _, integer folded => folded.bytes
  | _, text run _ _ => run.bytes
  | _, bytes run => run.bytes
  | _, hosted run => run.bytes

/-- The particle that a value at a position stands for; hosted bytes stand for the place of their
payload. -/
def placed (position : Nat) : {kind : ValueKind} → Value kind → Particle
  | _, integer folded => .integer (unzigzag folded.value)
  | _, .text _ found _ => .text found
  | _, bytes run => .bytes run.payload
  | _, hosted run => .hosted (position + run.length.bytes.length) run.payload.length

end Value

/-- A value that a version can hold, behind its tag and its key. -/
structure Junction (version : Version) where
  kind : ValueKind
  allowed : kind = .hosted → version.hosts = true
  number : Numeral
  value : Value kind

namespace Junction

variable {version : Version}

def key (junction : Junction version) : Key := UInt64.ofNat junction.number.value

def bytes (junction : Junction version) : Bytes :=
  junction.kind.tag :: (junction.number.bytes ++ junction.value.written)

def placed (position : Nat) (junction : Junction version) : Key × Particle :=
  (junction.key, junction.value.placed (position + 1 + junction.number.bytes.length))

end Junction

/-- What trees stand for that follow each other from a position on. -/
def placeAll {τ α : Type} (bytes : τ → Bytes) (place : Nat → τ → α) (position : Nat) :
    List τ → List α
  | [] => []
  | tree :: rest =>
    place position tree :: placeAll bytes place (position + (bytes tree).length) rest

/-- An atom with its slot and its junctions, in which no key is repeated. -/
structure Atom (version : Version) where
  number : Numeral
  junctions : List (Junction version)
  distinct : (junctions.map Junction.key).Nodup

namespace Atom

variable {version : Version}

def body (atom : Atom version) : Bytes :=
  atom.number.bytes ++ atom.junctions.flatMap Junction.bytes

def bytes (atom : Atom version) : Bytes := atomMark :: atom.body

/-- The draft that an atom stands for when its number is at a position. -/
def drafted (position : Nat) (atom : Atom version) : Draft :=
  { id := atom.number.value
    junctions := .ofList (placeAll Junction.bytes Junction.placed
      (position + atom.number.bytes.length) atom.junctions) }

def placed (position : Nat) (atom : Atom version) : Draft := atom.drafted (position + 1)

end Atom

/-- A record with its UCN and its atoms. -/
structure Record (version : Version) where
  number : Numeral
  counted : 0 < number.value
  atoms : List (Atom version)

namespace Record

variable {version : Version}

/-- The bytes that the checksum of a record covers. -/
def covered (record : Record version) : Bytes :=
  recordMark :: (record.number.bytes ++ (record.atoms.flatMap Atom.bytes ++ [atomsEnd]))

def bytes (record : Record version) : Bytes :=
  record.covered ++ (wordBytes (Checksum.ofBytes record.covered) ++ [recordEnd])

/-- The record that is read where this one is at an offset. -/
def placed (offset : Nat) (record : Record version) : Log.Record where
  offset := offset
  ucn := record.number.value
  atoms := (placeAll Atom.bytes Atom.placed (offset + 1 + record.number.bytes.length)
    record.atoms).map (·.toAtom record.number.value record.counted)

end Record

/-- What may follow the header and each other. -/
inductive Piece (version : Version) where
  | pad
  | record (record : Record version)

namespace Piece

variable {version : Version}

def bytes : Piece version → Bytes
  | pad => [padByte]
  | record found => found.bytes

/-- The records in pieces of which the first is at a position. -/
def records (position : Nat) : List (Piece version) → List Log.Record
  | [] => []
  | pad :: rest => records (position + 1) rest
  | record found :: rest =>
    found.placed position :: records (position + found.bytes.length) rest

/-- The end of the last record in pieces of which the first is at a position, when the last record
before them ended at `last`. -/
def ends (last position : Nat) : List (Piece version) → Nat
  | [] => last
  | pad :: rest => ends last (position + 1) rest
  | record found :: rest =>
    ends (position + found.bytes.length) (position + found.bytes.length) rest

end Piece

/-- Whether a tree is found in front of any bytes in at most one way. -/
def Unambiguous {τ : Type} (bytes : τ → Bytes) : Prop :=
  ∀ left right first second, bytes left ++ first = bytes right ++ second →
    left = right ∧ first = second

/-- Whether no tree is found in front of some bytes. -/
def Barred {τ : Type} (bytes : τ → Bytes) (rest : Bytes) : Prop :=
  ∀ tree tail, rest ≠ bytes tree ++ tail

variable {version : Version}

/-- Trees that follow each other are found in at most one way up to where no more is found. -/
theorem Unambiguous.flatMap {τ : Type} {bytes : τ → Bytes} (once : Unambiguous bytes)
    {left right : List τ} {first second : Bytes} (here : Barred bytes first)
    (there : Barred bytes second)
    (same : left.flatMap bytes ++ first = right.flatMap bytes ++ second) :
    left = right ∧ first = second := by
  induction left generalizing right with
  | nil =>
    cases right with
    | nil => exact ⟨rfl, same⟩
    | cons tree rest =>
      rw [List.flatMap_cons, List.append_assoc] at same
      exact absurd same (here tree _)
  | cons tree rest ih =>
    cases right with
    | nil =>
      rw [List.flatMap_cons, List.append_assoc] at same
      exact absurd same.symm (there tree _)
    | cons other more =>
      rw [List.flatMap_cons, List.flatMap_cons, List.append_assoc, List.append_assoc] at same
      obtain ⟨rfl, behind⟩ := once _ _ _ _ same
      obtain ⟨rfl, ends⟩ := ih behind
      exact ⟨rfl, ends⟩

/-- A number ends at its first digit without a mark. -/
theorem unambiguous_numeral : Unambiguous Numeral.bytes := by
  have digits {leading other : Bytes} {last final : UInt8} {first second : Bytes}
      (marked : ∀ digit ∈ leading, 128 ≤ digit.toNat) (unmarked : last.toNat < 128)
      (signed : ∀ digit ∈ other, 128 ≤ digit.toNat) (unsigned : final.toNat < 128)
      (same : leading ++ last :: first = other ++ final :: second) :
      leading = other ∧ last = final ∧ first = second := by
    induction leading generalizing other with
    | nil =>
      cases other with
      | nil => exact ⟨rfl, List.cons.inj same⟩
      | cons digit rest =>
        obtain ⟨rfl, _⟩ := List.cons.inj same
        exact absurd (signed last List.mem_cons_self) (Nat.not_le.mpr unmarked)
    | cons digit rest ih =>
      cases other with
      | nil =>
        obtain ⟨rfl, _⟩ := List.cons.inj same
        exact absurd (marked digit List.mem_cons_self) (Nat.not_le.mpr unsigned)
      | cons other more =>
        obtain ⟨rfl, behind⟩ := List.cons.inj same
        obtain ⟨rfl, ends⟩ := ih (fun digit member => marked digit (List.mem_cons_of_mem _ member))
          (fun digit member => signed digit (List.mem_cons_of_mem _ member)) behind
        exact ⟨rfl, ends⟩
  intro left right first second same
  obtain ⟨leading, last, marked, unmarked, _, _⟩ := left
  obtain ⟨other, final, signed, unsigned, _, _⟩ := right
  simp only [Numeral.bytes, List.append_assoc, List.singleton_append] at same
  obtain ⟨rfl, rfl, ends⟩ := digits marked unmarked signed unsigned same
  exact ⟨rfl, ends⟩

/-- A run ends where its length says. -/
theorem unambiguous_run : Unambiguous Run.bytes := by
  intro left right first second same
  obtain ⟨length, payload, measured, _⟩ := left
  obtain ⟨other, content, counted, _⟩ := right
  simp only [Run.bytes, List.append_assoc] at same
  obtain ⟨rfl, behind⟩ := unambiguous_numeral _ _ _ _ same
  obtain ⟨rfl, ends⟩ := List.append_inj behind (measured.symm.trans counted)
  exact ⟨rfl, ends⟩

/-- A value of a known kind ends where its number or its length says. -/
theorem unambiguous_value (kind : ValueKind) :
    Unambiguous (Value.written : Value kind → Bytes) := by
  intro left right first second same
  cases left with
  | integer folded =>
    cases right with
    | integer other =>
      obtain ⟨rfl, ends⟩ := unambiguous_numeral _ _ _ _ same
      exact ⟨rfl, ends⟩
  | text run text encoded =>
    cases right with
    | text other content stored =>
      obtain ⟨rfl, ends⟩ := unambiguous_run _ _ _ _ same
      have equal : some text = some content := by
        rw [← Text.ofUtf8?_utf8, ← encoded, stored, Text.ofUtf8?_utf8]
      obtain rfl := Option.some.inj equal
      exact ⟨rfl, ends⟩
  | bytes run =>
    cases right with
    | bytes other =>
      obtain ⟨rfl, ends⟩ := unambiguous_run _ _ _ _ same
      exact ⟨rfl, ends⟩
  | hosted run =>
    cases right with
    | hosted other =>
      obtain ⟨rfl, ends⟩ := unambiguous_run _ _ _ _ same
      exact ⟨rfl, ends⟩

theorem tag_injective : Function.Injective ValueKind.tag := by
  intro left right same
  cases left <;> cases right <;> first | rfl | cases same

/-- A junction is told by its tag, its key and its value. -/
theorem unambiguous_junction : Unambiguous (Junction.bytes : Junction version → Bytes) := by
  intro left right first second same
  obtain ⟨kind, _, number, value⟩ := left
  obtain ⟨other, _, different, content⟩ := right
  simp only [Junction.bytes, List.cons_append, List.append_assoc] at same
  obtain ⟨tags, behind⟩ := List.cons.inj same
  obtain rfl := tag_injective tags
  obtain ⟨rfl, later⟩ := unambiguous_numeral _ _ _ _ behind
  obtain ⟨rfl, ends⟩ := unambiguous_value kind _ _ _ _ later
  exact ⟨rfl, ends⟩

/-- Whether the junctions of an atom end in front of some bytes. -/
def Marked (rest : Bytes) : Prop :=
  ∃ mark tail, rest = mark :: tail ∧ (mark = atomMark ∨ mark = atomsEnd)

/-- No junction begins with the mark of an atom or of the end of atoms. -/
theorem Marked.barred {rest : Bytes} (marked : Marked rest) :
    Barred (Junction.bytes : Junction version → Bytes) rest := by
  rintro ⟨kind, _, number, value⟩ tail rfl
  obtain ⟨mark, _, same, ends⟩ := marked
  obtain ⟨rfl, _⟩ := List.cons.inj same
  rcases ends with ends | ends <;> cases kind <;> cases ends

/-- Atoms and the end of atoms begin with a mark. -/
theorem marked_atoms (atoms : List (Atom version)) (rest : Bytes) :
    Marked (atoms.flatMap Atom.bytes ++ atomsEnd :: rest) := by
  cases atoms with
  | nil => exact ⟨atomsEnd, rest, rfl, .inr rfl⟩
  | cons atom later => exact ⟨atomMark, _, rfl, .inl rfl⟩

/-- The atoms of a record are found in at most one way, since each one ends where the next one or
the end of the atoms is marked. -/
theorem eq_of_atoms {left right : List (Atom version)} {first second : Bytes}
    (same : left.flatMap Atom.bytes ++ atomsEnd :: first =
      right.flatMap Atom.bytes ++ atomsEnd :: second) : left = right ∧ first = second := by
  induction left generalizing right with
  | nil =>
    cases right with
    | nil => exact ⟨rfl, (List.cons.inj same).2⟩
    | cons atom rest =>
      obtain ⟨clash, _⟩ := List.cons.inj same
      cases clash
  | cons atom rest ih =>
    cases right with
    | nil =>
      obtain ⟨clash, _⟩ := List.cons.inj same
      cases clash
    | cons other more =>
      obtain ⟨number, junctions, _⟩ := atom
      obtain ⟨different, bound, _⟩ := other
      simp only [List.flatMap_cons, Atom.bytes, Atom.body, List.cons_append,
        List.append_assoc] at same
      obtain ⟨rfl, behind⟩ := unambiguous_numeral _ _ _ _ (List.cons.inj same).2
      obtain ⟨rfl, later⟩ := unambiguous_junction.flatMap (marked_atoms _ _).barred
        (marked_atoms _ _).barred behind
      obtain ⟨rfl, ends⟩ := ih later
      exact ⟨rfl, ends⟩

/-- A record is found in front of any bytes in at most one way. -/
theorem unambiguous_record : Unambiguous (Record.bytes : Record version → Bytes) := by
  intro left right first second same
  obtain ⟨number, _, atoms⟩ := left
  obtain ⟨other, _, more⟩ := right
  simp only [Record.bytes, Record.covered, List.append_assoc, List.cons_append,
    List.nil_append] at same
  obtain ⟨rfl, behind⟩ := unambiguous_numeral _ _ _ _ (List.cons.inj same).2
  obtain ⟨rfl, later⟩ := eq_of_atoms behind
  exact ⟨rfl, (List.cons.inj (List.append_cancel_left later)).2⟩

end AtomStore.Log.Grammar
