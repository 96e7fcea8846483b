import AtomStore.Log.Header
import AtomStore.Proofs.SortedMap
import Mathlib.Algebra.Order.Ring.Nat

/-!
# Headers read back

A header that is short enough to be written has the length that it states, and it is read back from
its written form as it was, whatever follows it. Whatever bytes a header is read from, those behind
it do not matter.
-/

namespace AtomStore.Log.Header

@[simp] theorem length_wordBytes (word : UInt32) : (wordBytes word).length = 4 := rfl

/-- The bytes of a text are counted by its size. -/
theorem length_utf8 (text : String) : (Text.utf8 text).length = text.utf8ByteSize := by
  rw [Text.utf8, Array.length_toList, ← String.size_toByteArray]
  rfl

theorem toNat_ofNat_of_lt {number : Nat} (fits : number < 2 ^ 32) :
    (UInt32.ofNat number).toNat = number := by
  rw [UInt32.toNat_ofNat']
  exact Nat.mod_eq_of_lt fits

/-- A word is read back from its bytes. -/
theorem readWord_wordBytes (word : UInt32) (rest : Bytes) :
    readWord (wordBytes word ++ rest) = .ok (word, rest) := by
  rw [readWord, readWord?_wordBytes]

/-- A run of known length is read where it stands. -/
theorem readRun_append (taken rest : Bytes) :
    readRun taken.length (taken ++ rest) = .ok (taken, rest) := by
  simp only [readRun, List.take_left, List.drop_left, Nat.lt_irrefl, ↓reduceIte]

/-- A text is read back from its bytes. -/
theorem readText_textBytes {text : String} (fits : text.utf8ByteSize < 2 ^ 32) (rest : Bytes) :
    readText (textBytes text ++ rest) = .ok (text, rest) := by
  have front : (Text.utf8 text ++ rest).take text.utf8ByteSize = Text.utf8 text := by
    rw [← length_utf8, List.take_left]
  have back : (Text.utf8 text ++ rest).drop text.utf8ByteSize = rest := by
    rw [← length_utf8, List.drop_left]
  rw [readText, textBytes, List.append_assoc, readWord_wordBytes]
  simp only [bind, Except.bind, toNat_ofNat_of_lt fits, front, back, length_utf8, Nat.lt_irrefl,
    ↓reduceIte, Text.ofUtf8?_utf8]

/-- Entries are read back one by one, the later ones over the earlier. -/
theorem readEntries_entryBytes {entries : List (String × String)} {held : Metadata}
    (fits : ∀ entry ∈ entries, entry.1.utf8ByteSize < 2 ^ 32 ∧ entry.2.utf8ByteSize < 2 ^ 32) :
    readEntries entries.length held (entries.flatMap entryBytes) =
      .ok (entries.foldl (fun held entry => held.insert entry.1 entry.2) held, []) := by
  induction entries generalizing held with
  | nil => rfl
  | cons entry later ih =>
    obtain ⟨keyFits, valueFits⟩ := fits entry List.mem_cons_self
    rw [List.length_cons, readEntries, List.flatMap_cons, entryBytes, List.append_assoc,
      readText_textBytes keyFits]
    simp only [bind, Except.bind]
    rw [readText_textBytes valueFits]
    apply ih
    intro other member
    exact fits other (List.mem_cons_of_mem _ member)

/-- The length of an entry is that of its bytes. -/
theorem length_entryBytes (entry : String × String) :
    (entryBytes entry).length = entryLength entry := by
  simp only [entryBytes, textBytes, List.length_append, length_wordBytes, length_utf8, entryLength]
  omega

/-- The lengths of entries add up to that of their bytes. -/
theorem foldr_entryLength (entries : List (String × String)) :
    entries.foldr (fun entry total => entryLength entry + total) baseLength =
      (entries.flatMap entryBytes).length + baseLength := by
  induction entries with
  | nil => rw [List.foldr_nil, List.flatMap_nil, List.length_nil, Nat.zero_add]
  | cons entry later ih =>
    rw [List.foldr_cons, ih, List.flatMap_cons, List.length_append, length_entryBytes,
      Nat.add_assoc]

/-- The covered part of a header is all of it but the checksum. -/
theorem length_coveredBytes (header : Header) :
    header.coveredBytes.length + 4 = header.length := by
  have identifier := header.storeId.length_eq
  have signature : magic.length = 8 := rfl
  rw [Header.length, foldr_entryLength, baseLength]
  simp only [coveredBytes, List.length_append, length_wordBytes, identifier, signature]
  omega

/-- No entry is longer than its header. -/
theorem entryLength_le {header : Header} {entry : String × String}
    (member : entry ∈ header.metadata.entries) : entryLength entry ≤ header.length := by
  rw [Header.length]
  generalize header.metadata.entries = entries at member
  induction entries with
  | nil => cases member
  | cons first later ih =>
    rw [List.foldr_cons]
    rcases List.mem_cons.mp member with rfl | among
    · exact Nat.le_add_right ..
    · exact Nat.le_add_left_of_le (ih among)

/-- A header has no more entries than bytes. -/
theorem size_le (header : Header) : header.metadata.size ≤ header.length := by
  rw [SortedMap.size, Header.length]
  induction header.metadata.entries with
  | nil => exact Nat.zero_le _
  | cons first later ih =>
    rw [List.foldr_cons, List.length_cons, entryLength]
    omega

/-- A version is known by its number. -/
theorem ofNumber_number (version : Version) : Version.ofNumber version.number = .ok version := by
  cases version <;> rfl

theorem number_lt (version : Version) : version.number < 2 ^ 32 := by
  cases version <;> decide

/-- What stands between the length of a header and its checksum, around its metadata. -/
def bodyBytes (storeId : StoreId) (number count : UInt32) (listed : Bytes) : Bytes :=
  storeId.bytes ++ (wordBytes number ++ (wordBytes count ++ listed))

/-- What reading a body comes to, once its parts of fixed length are taken. -/
theorem readBody_bodyBytes (storeId : StoreId) (number count : UInt32) (listed : Bytes) :
    readBody (bodyBytes storeId number count listed) = (do
      let version ← Version.ofNumber number.toNat
      let (metadata, rest) ← readEntries count.toNat .empty listed
      if 0 < rest.length then .error (.corruptHeader (.unexpectedBytes rest.length))
      else .ok ⟨storeId, version, metadata⟩) := by
  have identifier := readRun_append storeId.bytes
  rw [storeId.length_eq] at identifier
  rw [readBody, bodyBytes, identifier]
  simp only [bind, Except.bind, readWord_wordBytes, StoreId.ofBytes?, storeId.length_eq,
    ↓reduceDIte]

/-- A header is read back from its body. -/
theorem readBody_of_length_lt {header : Header} (short : header.length < 2 ^ 32) :
    readBody (bodyBytes header.storeId (UInt32.ofNat header.version.number)
      (UInt32.ofNat header.metadata.size) (header.metadata.entries.flatMap entryBytes)) =
        .ok header := by
  have entriesFit : ∀ entry ∈ header.metadata.entries,
      entry.1.utf8ByteSize < 2 ^ 32 ∧ entry.2.utf8ByteSize < 2 ^ 32 := by
    intro entry member
    have bounded := entryLength_le member
    rw [entryLength] at bounded
    omega
  have counted : (UInt32.ofNat header.metadata.size).toNat = header.metadata.entries.length :=
    toNat_ofNat_of_lt (Nat.lt_of_le_of_lt header.size_le short)
  have metadata : header.metadata.entries.foldl (fun held entry => held.insert entry.1 entry.2)
      SortedMap.empty = header.metadata := header.metadata.ofList_entries
  rw [readBody_bodyBytes]
  simp only [bind, Except.bind, toNat_ofNat_of_lt (number_lt _), ofNumber_number, counted,
    readEntries_entryBytes entriesFit, List.length_nil, Nat.lt_irrefl, ↓reduceIte, metadata]

/-- A header that can be written is short enough, and its written form has its length. -/
theorem length_encode {header : Header} {bytes : Bytes} (encoded : header.encode = .ok bytes) :
    header.length ≤ maxHeaderLength ∧ bytes.length = header.length := by
  unfold encode at encoded
  split at encoded
  · cases encoded
  · rename_i short
    cases encoded
    refine ⟨Nat.not_lt.mp short, ?_⟩
    rw [List.length_append, length_wordBytes, length_coveredBytes]

/-- The bytes of a header up to its checksum, around the part that is read last. -/
def frontBytes (body : Bytes) : Bytes :=
  magic ++ (wordBytes (UInt32.ofNat (body.length + 16)) ++ body)

/-- Magic bytes and length stand in front of a body. -/
theorem length_frontBytes (body : Bytes) : (frontBytes body).length = body.length + 12 := by
  have signature : magic.length = 8 := rfl
  simp only [frontBytes, List.length_append, length_wordBytes, signature]
  omega

/-- Behind a front part of a fitting length the checksum is looked at first, and then the body is
read. -/
theorem decode_frontBytes_append {body stored : Bytes} (long : 24 ≤ body.length)
    (short : body.length + 16 ≤ maxHeaderLength) (four : stored.length = 4) (rest : Bytes) :
    decode (frontBytes body ++ (stored ++ rest)) =
      if stored ≠ wordBytes (Checksum.ofBytes (frontBytes body)) then .error .headerChecksum
      else (readBody body).map fun header => (header, body.length + 16) := by
  let size := wordBytes (UInt32.ofNat (body.length + 16))
  have signature : magic.length = 8 := rfl
  have lead : frontBytes body ++ (stored ++ rest) =
      magic ++ (size ++ (body ++ stored ++ rest)) := by
    simp only [frontBytes, size, List.append_assoc]
  have covered : (frontBytes body ++ (stored ++ rest)).take (body.length + 16 - 4) =
      frontBytes body :=
    List.take_left' (length_frontBytes body)
  have signed : (frontBytes body ++ (stored ++ rest)).take 8 = magic := by
    rw [lead, ← signature, List.take_left]
  have behind : (frontBytes body ++ (stored ++ rest)).drop 8 =
      size ++ (body ++ stored ++ rest) := by
    rw [lead, ← signature, List.drop_left]
  have run : readRun (body.length + 16 - leadLength) (body ++ stored ++ rest) =
      .ok (body ++ stored, rest) := by
    have whole : (body ++ stored).length = body.length + 16 - leadLength := by
      rw [List.length_append, four, leadLength]
      omega
    rw [← whole]
    exact readRun_append _ _
  have inside : body.length + 16 - 4 - leadLength = body.length := by
    rw [leadLength]
    omega
  have sensible : ¬ (body.length + 16 < baseLength ∨ maxHeaderLength < body.length + 16) := by
    rw [baseLength]
    omega
  rw [decode, signed, behind]
  simp only [bind, Except.bind, ne_eq, not_true_eq_false, ↓reduceIte, size, readWord_wordBytes,
    toNat_ofNat_of_lt (Nat.lt_of_le_of_lt short (by decide : maxHeaderLength < 2 ^ 32))]
  rw [if_neg sensible, run]
  simp only
  rw [covered, inside, List.drop_left, List.take_left]
  cases readBody body <;> rfl

/-- A header is read from a body of a fitting length that is closed by the right checksum. -/
theorem decode_frontBytes {body : Bytes} {header : Header} (read : readBody body = .ok header)
    (long : 24 ≤ body.length) (short : body.length + 16 ≤ maxHeaderLength) (rest : Bytes) :
    decode (frontBytes body ++ (wordBytes (Checksum.ofBytes (frontBytes body)) ++ rest)) =
      .ok (header, body.length + 16) := by
  rw [decode_frontBytes_append long short rfl, if_neg (not_not.mpr rfl), read]
  rfl

/-- A written header is a front part and its checksum. -/
theorem exists_body_of_encode {header : Header} {bytes : Bytes}
    (encoded : header.encode = .ok bytes) :
    ∃ body, readBody body = .ok header ∧ 24 ≤ body.length ∧ body.length + 16 ≤ maxHeaderLength ∧
      bytes = frontBytes body ++ wordBytes (Checksum.ofBytes (frontBytes body)) := by
  obtain ⟨short, _⟩ := length_encode encoded
  have small : header.length < 2 ^ 32 := Nat.lt_of_le_of_lt short (by decide)
  have covered := header.length_coveredBytes
  let body := bodyBytes header.storeId (UInt32.ofNat header.version.number)
    (UInt32.ofNat header.metadata.size) (header.metadata.entries.flatMap entryBytes)
  have parts : header.coveredBytes =
      magic ++ (wordBytes (UInt32.ofNat header.length) ++ body) := by
    simp only [coveredBytes, body, bodyBytes, List.append_assoc]
  have bodyLength : body.length + 16 = header.length := by
    have signature : magic.length = 8 := rfl
    simp only [parts, List.length_append, length_wordBytes, signature] at covered
    omega
  refine ⟨body, readBody_of_length_lt small, ?_, bodyLength ▸ short, ?_⟩
  · simp only [body, bodyBytes, List.length_append, length_wordBytes, header.storeId.length_eq]
    omega
  · rw [encode, if_neg (Nat.not_lt.mpr short), parts, ← bodyLength] at encoded
    cases encoded
    rfl

/-- A written header is read back with its length. -/
theorem decode_encode {header : Header} {bytes : Bytes} (encoded : header.encode = .ok bytes)
    (rest : Bytes) : decode (bytes ++ rest) = .ok (header, bytes.length) := by
  obtain ⟨body, read, long, short, rfl⟩ := exists_body_of_encode encoded
  rw [List.append_assoc, List.length_append, length_frontBytes, length_wordBytes]
  exact decode_frontBytes read long short rest

variable {bytes front back rest : Bytes}

/-- Two steps succeed when the first does and the second one does with what it found. -/
theorem bind_eq_ok_iff {α β : Type} {first : Except LogError α} {later : α → Except LogError β}
    {last : β} :
    first >>= later = .ok last ↔ ∃ found, first = .ok found ∧ later found = .ok last := by
  constructor
  · intro ran
    cases first with
    | error failure => cases ran
    | ok found => exact ⟨found, rfl, ran⟩
  · rintro ⟨found, rfl, ran⟩
    exact ran

/-- A guarded step succeeds when the guard does not fail and the step succeeds. -/
theorem unless_eq_ok_iff {α : Type} {failing : Prop} [Decidable failing] {failure : LogError}
    {later : Except LogError α} {last : α} :
    (if failing then .error failure else later) = .ok last ↔ ¬ failing ∧ later = .ok last := by
  by_cases fails : failing
  · rw [if_pos fails]
    exact iff_of_false nofun fun both => both.1 fails
  · rw [if_neg fails]
    exact (and_iff_right fails).symm

/-- A run is read when there are enough bytes, and then it is the first of them. -/
theorem readRun_eq_ok_iff {count : Nat} {taken : Bytes} :
    readRun count bytes = .ok (taken, rest) ↔
      count ≤ bytes.length ∧ bytes.take count = taken ∧ bytes.drop count = rest := by
  rw [readRun, unless_eq_ok_iff, List.length_take, Except.ok.injEq, Prod.mk.injEq]
  exact and_congr_left fun _ => by omega

/-- What bytes have passed that a header is read from. -/
theorem decode_eq_ok_iff {header : Header} {length : Nat} :
    decode bytes = .ok (header, length) ↔
      bytes.take 8 = magic ∧ ∃ word sized inside behind,
        readWord (bytes.drop 8) = .ok (word, sized) ∧ word.toNat = length ∧
        baseLength ≤ length ∧ length ≤ maxHeaderLength ∧
        readRun (length - leadLength) sized = .ok (inside, behind) ∧
        inside.drop (length - 4 - leadLength) =
          wordBytes (Checksum.ofBytes (bytes.take (length - 4))) ∧
        readBody (inside.take (length - 4 - leadLength)) = .ok header := by
  rw [decode, unless_eq_ok_iff, not_not]
  refine and_congr_right fun _ => ?_
  simp only [bind_eq_ok_iff, unless_eq_ok_iff, Prod.exists, not_or, Nat.not_lt, not_not,
    Except.ok.injEq, Prod.mk.injEq]
  constructor
  · rintro ⟨word, sized, read, ⟨base, short⟩, inside, behind, ran, closed, _, body, rfl, rfl⟩
    exact ⟨word, sized, inside, behind, read, rfl, base, short, ran, closed, body⟩
  · rintro ⟨word, sized, inside, behind, read, rfl, base, short, ran, closed, body⟩
    exact ⟨word, sized, read, ⟨base, short⟩, inside, behind, ran, closed, _, body, rfl, rfl⟩

/-- A word that is read in front of more bytes is read without them. -/
theorem readWord_append {word : UInt32} (read : readWord (front ++ back) = .ok (word, rest))
    (long : 4 ≤ front.length) :
    ∃ left, readWord front = .ok (word, left) ∧ rest = left ++ back ∧
      left.length + 4 = front.length := by
  match front, long with
  | first :: second :: third :: fourth :: left, _ =>
    cases read
    exact ⟨left, rfl, rfl, rfl⟩

/-- A run that is read in front of more bytes is read without them. -/
theorem readRun_front {count : Nat} {taken : Bytes}
    (read : readRun count (front ++ back) = .ok (taken, rest)) (long : count ≤ front.length) :
    ∃ left, readRun count front = .ok (taken, left) := by
  obtain ⟨_, took, _⟩ := readRun_eq_ok_iff.mp read
  rw [List.take_append_of_le_length long] at took
  exact ⟨_, readRun_eq_ok_iff.mpr ⟨long, took, rfl⟩⟩

/-- A header is read from its own bytes; those behind it do not matter. -/
theorem decode_front {header : Header} {length : Nat}
    (read : decode (front ++ back) = .ok (header, length)) (long : length ≤ front.length) :
    decode front = .ok (header, length) := by
  obtain ⟨signed, word, sized, inside, _, measured, counted, base, short, ran, closed, body⟩ :=
    decode_eq_ok_iff.mp read
  have eight : 8 ≤ front.length := Nat.le_trans (by decide) (Nat.le_trans base long)
  rw [List.take_append_of_le_length eight] at signed
  rw [List.drop_append_of_le_length eight] at measured
  rw [List.take_append_of_le_length (Nat.le_trans (Nat.sub_le ..) long)] at closed
  rw [baseLength] at base
  obtain ⟨left, first, rfl, four⟩ := readWord_append measured (by rw [List.length_drop]; omega)
  rw [List.length_drop] at four
  obtain ⟨last, run⟩ := readRun_front ran (by rw [leadLength]; omega)
  exact decode_eq_ok_iff.mpr
    ⟨signed, word, left, inside, last, first, counted, base, short, run, closed, body⟩

end AtomStore.Log.Header
