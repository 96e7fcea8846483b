import AtomStore.Atom
import AtomStore.Log.Reader
import AtomStore.Log.Word
import AtomStore.Text.Utf8

/-!
# Reading records

A record holds the atoms of one commit: its mark and UCN, the atoms with their junctions, the end of
the atoms, the checksum of all that, and the end of the record. The reader here starts behind the
mark. It checks the checksum before the last byte, and refuses a key that an atom repeats.
-/

namespace AtomStore.Log

/-- The atoms of one commit as a data file holds them. -/
structure Record where
  /-- The position of the record's first byte. -/
  offset : Nat
  ucn : Nat
  /-- The atoms in the order in which they were written, sealed with the record's UCN. -/
  atoms : List Atom
  deriving DecidableEq

namespace Reader

/-- Takes a value of a known kind; hosted bytes are passed over and only their place is kept. -/
def value (reader : Reader) : ValueKind → Except ReadFault (Particle × Reader)
  | .integer =>
    match reader.varint with
    | .error fault => .error fault
    | .ok (number, next) => .ok (.integer (unzigzag number), next)
  | .text =>
    match reader.valueLength with
    | .error fault => .error fault
    | .ok (length, inside) =>
      match inside.run length with
      | .error fault => .error fault
      | .ok (taken, next) =>
        match Text.ofUtf8? taken with
        | none => .error (.flaw .notUtf8)
        | some text => .ok (.text text, next)
  | .bytes =>
    match reader.valueLength with
    | .error fault => .error fault
    | .ok (length, inside) =>
      match inside.run length with
      | .error fault => .error fault
      | .ok (taken, next) => .ok (.bytes taken, next)
  | .hosted =>
    match reader.valueLength with
    | .error fault => .error fault
    | .ok (length, inside) =>
      match inside.skip length with
      | .error fault => .error fault
      | .ok next => .ok (.hosted inside.position length, next)

/-- Takes a junction: the tag of its value, its key and its value. -/
def junction (version : Version) (reader : Reader) :
    Except ReadFault ((Key × Particle) × Reader) :=
  match reader.byte with
  | .error fault => .error fault
  | .ok (tag, tagged) =>
    match version.kind? tag with
    | none => .error (.flaw (.unknownTag tag version.number))
    | some kind =>
      match tagged.varint with
      | .error fault => .error fault
      | .ok (key, keyed) =>
        match keyed.value kind with
        | .error fault => .error fault
        | .ok (particle, next) => .ok ((UInt64.ofNat key, particle), next)

/-- Whether the next byte ends the junctions of an atom. -/
def atMark (reader : Reader) : Bool :=
  match reader.rest with
  | [] => false
  | next :: _ => next == atomMark || next == atomsEnd

/-- Taking a value never leaves more bytes. -/
theorem length_value {reader next : Reader} {kind : ValueKind} {particle : Particle}
    (read : reader.value kind = .ok (particle, next)) :
    next.rest.length < reader.rest.length := by
  cases kind with
  | integer =>
    simp only [value] at read
    split at read
    · cases read
    · rename_i taken
      cases read
      exact length_varint taken
  | text =>
    simp only [value] at read
    split at read
    · cases read
    · rename_i measured
      have first := length_valueLength measured
      split at read
      · cases read
      · rename_i ran
        have second := length_run ran
        split at read
        · cases read
        · cases read
          omega
  | bytes =>
    simp only [value] at read
    split at read
    · cases read
    · rename_i measured
      have first := length_valueLength measured
      split at read
      · cases read
      · rename_i ran
        have second := length_run ran
        cases read
        omega
  | hosted =>
    simp only [value] at read
    split at read
    · cases read
    · rename_i measured
      have first := length_valueLength measured
      split at read
      · cases read
      · rename_i skipped
        have second := length_skip skipped
        cases read
        omega

/-- Taking a junction leaves fewer bytes. -/
theorem length_junction {version : Version} {reader next : Reader} {found : Key × Particle}
    (read : reader.junction version = .ok (found, next)) :
    next.rest.length < reader.rest.length := by
  unfold junction at read
  split at read
  · cases read
  · rename_i tagged
    have first := length_byte tagged
    split at read
    · cases read
    · split at read
      · cases read
      · rename_i keyed
        have second := length_varint keyed
        split at read
        · cases read
        · rename_i valued
          have third := length_value valued
          cases read
          omega

/-- Takes junctions up to the next mark, in addition to those already held. -/
def junctions (version : Version) (reader : Reader) (held : Junctions) :
    Except ReadFault (Junctions × Reader) :=
  if reader.atMark then .ok (held, reader)
  else
    match _ : reader.junction version with
    | .error fault => .error fault
    | .ok ((key, particle), next) =>
      if (held.get? key).isSome then .error (.flaw (.repeatedKey key.toNat))
      else next.junctions version (held.insert key particle)
  termination_by reader.rest.length
  decreasing_by exact length_junction ‹_›

/-- Takes an atom behind its mark: its slot and its junctions. -/
def atom (version : Version) (reader : Reader) : Except ReadFault (Draft × Reader) :=
  match reader.varint with
  | .error fault => .error fault
  | .ok (id, inside) =>
    match inside.junctions version .empty with
    | .error fault => .error fault
    | .ok (junctions, next) => .ok ({ id, junctions }, next)

/-- Taking junctions never leaves more bytes. -/
theorem length_junctions {version : Version} {reader next : Reader} {held found : Junctions}
    (read : reader.junctions version held = .ok (found, next)) :
    next.rest.length ≤ reader.rest.length := by
  fun_induction junctions version reader held with
  | case1 =>
    cases read
    exact Nat.le_refl _
  | case2 => cases read
  | case3 => cases read
  | case4 reader held _ key particle next' taken _ ih =>
    have first := length_junction taken
    have later := ih read
    omega

/-- Taking an atom leaves fewer bytes. -/
theorem length_atom {version : Version} {reader next : Reader} {draft : Draft}
    (read : reader.atom version = .ok (draft, next)) :
    next.rest.length < reader.rest.length := by
  unfold atom at read
  split at read
  · cases read
  · rename_i numbered
    have first := length_varint numbered
    split at read
    · cases read
    · rename_i bound
      have second := length_junctions bound
      cases read
      omega

/-- Takes the atoms of a record and the byte that ends them. -/
def atoms (version : Version) (reader : Reader) : Except ReadFault (List Draft × Reader) :=
  match _ : reader.byte with
  | .error fault => .error fault
  | .ok (mark, inside) =>
    if mark = atomsEnd then .ok ([], inside)
    else if mark = atomMark then
      match _ : inside.atom version with
      | .error fault => .error fault
      | .ok (draft, next) =>
        match next.atoms version with
        | .error fault => .error fault
        | .ok (drafts, last) => .ok (draft :: drafts, last)
    else
      match version.kind? mark with
      | none => .error (.flaw (.unknownTag mark version.number))
      | some _ => .error (.flaw .junctionOutsideAtom)
  termination_by reader.rest.length
  decreasing_by
    have first := length_byte ‹_›
    have second := length_atom ‹_›
    omega

/-- Taking the atoms of a record leaves fewer bytes. -/
theorem length_atoms {version : Version} {reader next : Reader} {drafts : List Draft}
    (read : reader.atoms version = .ok (drafts, next)) :
    next.rest.length < reader.rest.length := by
  fun_induction atoms version reader generalizing drafts next with
  | case1 => cases read
  | case2 reader inside marked =>
    cases read
    have := length_byte marked
    omega
  | case3 => cases read
  | case4 => cases read
  | case5 reader inside draft middle taken drafts' last later marked _ ih =>
    cases read
    have first := length_byte marked
    have second := length_atom taken
    have third := ih later
    omega
  | case6 => cases read
  | case7 => cases read

/-- Takes the checksum and the last byte of a record, which must close what the register has seen;
a wrong checksum is found before a wrong last byte. -/
def closing (reader : Reader) : Except ReadFault Reader :=
  match reader.run 4 with
  | .error fault => .error fault
  | .ok (stored, summed) =>
    match summed.byte with
    | .error fault => .error fault
    | .ok (last, next) =>
      if stored ≠ wordBytes (Checksum.finish reader.register) then .error .checksum
      else if last ≠ recordEnd then .error (.flaw (.notAtEnd last))
      else .ok next

/-- Closing a record leaves fewer bytes. -/
theorem length_closing {reader next : Reader} (read : reader.closing = .ok next) :
    next.rest.length < reader.rest.length := by
  unfold closing at read
  split at read
  · cases read
  · rename_i summed
    have first := length_run summed
    split at read
    · cases read
    · rename_i last
      have second := length_byte last
      split at read
      · cases read
      · split at read
        · cases read
        · cases read
          omega

/-- Takes the record at an offset, from the byte behind its mark on. -/
def record (version : Version) (offset : Nat) (reader : Reader) :
    Except ReadFault (Record × Reader) :=
  match reader.varint with
  | .error fault => .error fault
  | .ok (ucn, inside) =>
    if ucn_pos : 0 < ucn then
      match inside.atoms version with
      | .error fault => .error fault
      | .ok (drafts, covered) =>
        match covered.closing with
        | .error fault => .error fault
        | .ok next => .ok (⟨offset, ucn, drafts.map (·.toAtom ucn ucn_pos)⟩, next)
    else .error (.flaw .withoutUcn)

/-- Taking a record leaves fewer bytes. -/
theorem length_record {version : Version} {offset : Nat} {reader next : Reader}
    {found : Record} (read : reader.record version offset = .ok (found, next)) :
    next.rest.length < reader.rest.length := by
  unfold record at read
  split at read
  · cases read
  · rename_i numbered
    have first := length_varint numbered
    split at read
    · split at read
      · cases read
      · rename_i gathered
        have second := length_atoms gathered
        split at read
        · cases read
        · rename_i closed
          have third := length_closing closed
          cases read
          omega
    · cases read

/-- The reader of the bytes behind a record's mark at a position. -/
def behindMark (rest : Bytes) (offset : Nat) : Reader :=
  ⟨rest, offset + 1, Checksum.update Checksum.initial recordMark⟩

end Reader
end AtomStore.Log
