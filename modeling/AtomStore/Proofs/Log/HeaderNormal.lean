import AtomStore.Proofs.Log.Accepted

/-!
# Headers in normal form

Metadata may stand in a header in any order, and a key may stand there again. What is read is bound
to each key once, so the header that is read from some bytes is written in at most as many. A header
is written just when its version is supported and all of it is short enough, and what is written is
read back.
-/

namespace AtomStore.Log.Header

variable {bytes rest : Bytes}

/-- A run takes as many bytes as it has. -/
theorem length_of_readRun {count : Nat} {taken : Bytes}
    (read : readRun count bytes = .ok (taken, rest)) :
    taken.length = count ∧ count + rest.length = bytes.length := by
  obtain ⟨long, rfl, rfl⟩ := readRun_eq_ok_iff.mp read
  rw [List.length_take, List.length_drop]
  omega

/-- A text takes its bytes and the four of its length. -/
theorem length_of_readText {text : String} (read : readText bytes = .ok (text, rest)) :
    4 + text.utf8ByteSize + rest.length = bytes.length := by
  rw [readText, bind_eq_ok_iff] at read
  obtain ⟨⟨word, behind⟩, measured, read⟩ := read
  obtain ⟨enough, read⟩ := unless_eq_ok_iff.mp read
  obtain ⟨_, four⟩ := readWord_grow measured []
  split at read
  · cases read
  · rename_i found decoded
    cases read
    have taken := congrArg List.length (Text.eq_utf8_of_ofUtf8? decoded)
    rw [length_utf8, List.length_take] at taken
    rw [List.length_take] at enough
    rw [List.length_drop]
    omega

/-- The bytes that metadata takes up in a header. -/
def metadataLength (metadata : Metadata) : Nat := (metadata.entries.map entryLength).sum

/-- The length of a header is that of its metadata and of all that has a fixed length. -/
theorem length_eq (header : Header) :
    header.length = baseLength + metadataLength header.metadata := by
  rw [Header.length, metadataLength]
  induction header.metadata.entries with
  | nil => rfl
  | cons entry rest ih =>
    rw [List.foldr_cons, ih, List.map_cons, List.sum_cons]
    omega

/-- A binding takes the place of the one its key had, if there was one. -/
theorem metadataLength_insert_le (held : Metadata) (key value : String) :
    metadataLength (held.insert key value) ≤ metadataLength held + entryLength (key, value) := by
  change ((SortedMap.place key value held.entries).map entryLength).sum ≤
    (held.entries.map entryLength).sum + entryLength (key, value)
  induction held.entries with
  | nil => exact Nat.le_add_left ..
  | cons head rest ih =>
    obtain ⟨bound, old⟩ := head
    unfold SortedMap.place
    split
    · simp only [List.map_cons, List.sum_cons]
      omega
    · simp only [List.map_cons, List.sum_cons]
      omega
    · simp only [List.map_cons, List.sum_cons]
      omega

/-- Entries that are read take up no more room when they are written again. -/
theorem metadataLength_of_readEntries {count : Nat} {held found : Metadata}
    (read : readEntries count held bytes = .ok (found, rest)) :
    metadataLength found + rest.length ≤ metadataLength held + bytes.length := by
  induction count generalizing held bytes with
  | zero =>
    cases read
    exact Nat.le_refl _
  | succ count ih =>
    rw [readEntries, bind_eq_ok_iff] at read
    obtain ⟨⟨key, afterKey⟩, named, read⟩ := read
    obtain ⟨⟨value, afterValue⟩, valued, read⟩ := bind_eq_ok_iff.mp read
    have first := length_of_readText named
    have second := length_of_readText valued
    have later := ih read
    have grown : metadataLength (held.insert key value) ≤
        metadataLength held + (8 + key.utf8ByteSize + value.utf8ByteSize) :=
      metadataLength_insert_le held key value
    omega

/-- A header is no longer than the body that it is read from. -/
theorem length_of_readBody {body : Bytes} {header : Header} (read : readBody body = .ok header) :
    header.length ≤ body.length + 16 := by
  rw [readBody, bind_eq_ok_iff] at read
  obtain ⟨⟨identifier, afterId⟩, identified, read⟩ := read
  obtain ⟨⟨number, afterVersion⟩, numbered, read⟩ := bind_eq_ok_iff.mp read
  obtain ⟨version, _, read⟩ := bind_eq_ok_iff.mp read
  obtain ⟨⟨count, afterCount⟩, counted, read⟩ := bind_eq_ok_iff.mp read
  obtain ⟨⟨metadata, behind⟩, listed, read⟩ := bind_eq_ok_iff.mp read
  obtain ⟨_, read⟩ := unless_eq_ok_iff.mp read
  split at read
  · cases read
  · cases read
    have first := (length_of_readRun identified).2
    have second := (readWord_grow numbered []).2
    have third := (readWord_grow counted []).2
    have all := metadataLength_of_readEntries listed
    have none : metadataLength .empty = 0 := rfl
    rw [length_eq, baseLength]
    change 40 + metadataLength metadata ≤ _
    omega

/-- A header that is read is no longer than the bytes it is read from. -/
theorem length_of_decode {header : Header} {length : Nat}
    (read : decode bytes = .ok (header, length)) :
    header.length ≤ length ∧ length ≤ maxHeaderLength := by
  obtain ⟨_, _, _, _, _, _, _, base, short, _, _, body⟩ := decode_eq_ok_iff.mp read
  have bound := length_of_readBody body
  rw [List.length_take, leadLength] at bound
  rw [baseLength] at base
  omega

/-- A header that is made of the parts of another is written as that one. -/
theorem written_eq (header : Header) :
    (make header.storeId header.version.number header.metadata).bind encode = header.encode := by
  rw [make, ofNumber_number]
  rfl

/-- A header that is not too long is written. -/
theorem exists_written {header : Header} (short : header.length ≤ maxHeaderLength) :
    ∃ bytes, (make header.storeId header.version.number header.metadata).bind encode =
      .ok bytes := by
  rw [written_eq, encode, if_neg (Nat.not_lt.mpr short)]
  exact ⟨_, rfl⟩

/-- What is written is a header with the parts that were given. -/
theorem exists_header_of_written {storeId : StoreId} {number : Nat} {metadata : Metadata}
    (written : (make storeId number metadata).bind encode = .ok bytes) :
    ∃ header : Header, header.storeId = storeId ∧ header.version.number = number ∧
      header.metadata = metadata ∧ header.encode = .ok bytes := by
  rw [make, Version.ofNumber] at written
  split at written
  · rename_i first
    exact ⟨⟨storeId, .one, metadata⟩, rfl, first.symm, rfl, written⟩
  · split at written
    · rename_i second
      exact ⟨⟨storeId, .two, metadata⟩, rfl, second.symm, rfl, written⟩
    · cases written

/-- A header is written just when its version is supported and all of it is short enough. What is
written has that length, and is read back as the header it was written for, whatever follows it. A
header that is read from any bytes, whose entries may be in any order and repeated, is written in at
most as many bytes, and these are read as the same header. -/
theorem written_iff_short_and_read_back :
    (∀ (storeId : StoreId) (number : Nat) (metadata : Metadata),
      ((∃ bytes, (make storeId number metadata).bind encode = .ok bytes) ↔
        (number = 1 ∨ number = 2) ∧
          baseLength + metadataLength metadata ≤ maxHeaderLength) ∧
      ∀ bytes, (make storeId number metadata).bind encode = .ok bytes →
        bytes.length = baseLength + metadataLength metadata ∧
          ∃ header : Header, header.storeId = storeId ∧ header.version.number = number ∧
            header.metadata = metadata ∧
            ∀ rest, decode (bytes ++ rest) = .ok (header, bytes.length)) ∧
    ∀ input header length, decode input = .ok (header, length) →
      ∃ bytes, (make header.storeId header.version.number header.metadata).bind encode =
          .ok bytes ∧
        bytes.length ≤ length ∧ ∀ rest, decode (bytes ++ rest) = .ok (header, bytes.length) := by
  refine ⟨fun storeId number metadata => ⟨⟨?_, ?_⟩, ?_⟩, ?_⟩
  · intro given
    obtain ⟨bytes, written⟩ := given
    obtain ⟨header, rfl, rfl, rfl, encoded⟩ := exists_header_of_written written
    refine ⟨?_, header.length_eq ▸ (length_encode encoded).1⟩
    cases header.version
    · exact .inl rfl
    · exact .inr rfl
  · intro given
    obtain ⟨supported, short⟩ := given
    obtain ⟨version, rfl⟩ : ∃ version : Version, number = version.number := by
      rcases supported with rfl | rfl
      · exact ⟨.one, rfl⟩
      · exact ⟨.two, rfl⟩
    have fits : (Header.mk storeId version metadata).length ≤ maxHeaderLength := by
      rw [length_eq]
      exact short
    exact exists_written fits
  · intro bytes written
    obtain ⟨header, rfl, rfl, rfl, encoded⟩ := exists_header_of_written written
    refine ⟨header.length_eq ▸ (length_encode encoded).2, header, rfl, rfl, rfl, ?_⟩
    exact decode_encode encoded
  · intro input header length read
    obtain ⟨below, bounded⟩ := length_of_decode read
    obtain ⟨bytes, written⟩ := exists_written (Nat.le_trans below bounded)
    have encoded : header.encode = .ok bytes := written_eq header ▸ written
    refine ⟨bytes, written, ?_, decode_encode encoded⟩
    rw [(length_encode encoded).2]
    exact below

/-- A header with three entries, out of order and with one key twice, is written again with two. -/
theorem written_again_in_order :
    let body := StoreId.zero.bytes ++ (wordBytes 2 ++ (wordBytes 3 ++
      [("b", "é"), ("a", ""), ("b", "")].flatMap entryBytes))
    let input := frontBytes body ++ (wordBytes (Checksum.ofBytes (frontBytes body)) ++ [])
    let header : Header := ⟨.zero, .two, .ofList [("a", ""), ("b", "")]⟩
    decode input = .ok (header, 69) ∧
      ∃ bytes, (make .zero 2 header.metadata).bind encode = .ok bytes ∧ bytes.length = 58 ∧
        bytes.length ≤ 69 ∧ ∀ rest, decode (bytes ++ rest) = .ok (header, bytes.length) := by
  intro body input header
  have inside : readBody body = .ok header := by decide +kernel
  have read : decode input = .ok (header, 69) :=
    decode_frontBytes inside (by decide +kernel) (by decide +kernel) []
  obtain ⟨written, again⟩ := written_iff_short_and_read_back
  obtain ⟨bytes, encoded, short, back⟩ := again input header 69 read
  exact ⟨read, bytes, encoded, ((written .zero 2 header.metadata).2 bytes encoded).1, short, back⟩

end AtomStore.Log.Header
