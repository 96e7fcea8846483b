import AtomStore.Proofs.Log.HeaderRoundTrip

/-!
# Why a whole header is refused

Of a header whose bytes are all there, the magic bytes, the length and the checksum are looked at
first, and then the version. Its metadata is a row of texts behind their lengths, two for each
entry, and the first place in it where no text stands tells why the header is refused. Only where
the bytes end in front of a length or inside it, the reason given is that they ended early; every
other one is told as a flaw of the header.
-/

namespace AtomStore.Log.Header

variable {bytes rest left : Bytes} {texts : List String} {text : String} {count : Nat}
  {error : LogError}

/-- Texts whose lengths fit into a word. -/
def Measured (texts : List String) : Prop := ∀ text ∈ texts, text.utf8ByteSize < 2 ^ 32

/-- Why no text can be read from the start of some bytes. -/
inductive TextFault : Bytes → LogError → Prop where
  | unmeasured {left : Bytes} (short : left.length < 4) : TextFault left (.io .endedEarly)
  | cut {length : UInt32} {left : Bytes} (short : left.length < length.toNat) :
      TextFault (wordBytes length ++ left) (.corruptHeader .entryPastHeader)
  | garbled {length : UInt32} {payload left : Bytes} (measured : payload.length = length.toNat)
      (garbled : ∀ text, payload ≠ Text.utf8 text) :
      TextFault (wordBytes length ++ (payload ++ left)) (.corruptHeader .notUtf8)

/-- Why some bytes are not a number of texts: one of the texts cannot be read, or bytes are left
behind the last one. -/
inductive ListFault (count : Nat) : Bytes → LogError → Prop where
  | text {texts : List String} {left : Bytes} {error : LogError} (measured : Measured texts)
      (fewer : texts.length < count) (fault : TextFault left error) :
      ListFault count (texts.flatMap textBytes ++ left) error
  | beyond {texts : List String} {left : Bytes} (measured : Measured texts)
      (all : texts.length = count) (more : left ≠ []) :
      ListFault count (texts.flatMap textBytes ++ left)
        (.corruptHeader (.unexpectedBytes left.length))

/-- Four bytes are the bytes of the word that they make. -/
theorem wordBytes_wordOf (first second third fourth : UInt8) :
    wordBytes (wordOf first second third fourth) = [first, second, third, fourth] := by
  have := first.toNat_lt
  have := second.toNat_lt
  have := third.toNat_lt
  have := fourth.toNat_lt
  simp only [wordBytes, wordOf, UInt32.toNat_ofNat', List.cons.injEq, and_true, ← UInt8.toNat_inj,
    Nat.toUInt8, UInt8.toNat_ofNat']
  omega

/-- A word is read just where its bytes stand. -/
theorem readWord_eq_ok_iff {word : UInt32} :
    readWord bytes = .ok (word, rest) ↔ bytes = wordBytes word ++ rest := by
  constructor
  · intro read
    match bytes, read with
    | first :: second :: third :: fourth :: left, read =>
      cases read
      rw [wordBytes_wordOf]
      rfl
  · rintro rfl
    exact readWord_wordBytes word rest

/-- Reading a word fails just when there are fewer than four bytes. -/
theorem readWord_eq_error_iff :
    readWord bytes = .error error ↔ bytes.length < 4 ∧ error = .io .endedEarly := by
  constructor
  · intro failed
    match bytes, failed with
    | [], failed | [_], failed | [_, _], failed | [_, _, _], failed =>
      cases failed
      exact ⟨by simp only [List.length_cons, List.length_nil]; omega, rfl⟩
  · intro given
    obtain ⟨short, rfl⟩ := given
    match bytes, short with
    | [], _ | [_], _ | [_, _], _ | [_, _, _], _ => rfl

/-- Behind the length of a text its bytes are looked at. -/
theorem readText_wordBytes (length : UInt32) (left : Bytes) :
    readText (wordBytes length ++ left) =
      if left.length < length.toNat then .error (.corruptHeader .entryPastHeader)
      else
        match Text.ofUtf8? (left.take length.toNat) with
        | none => .error (.corruptHeader .notUtf8)
        | some text => .ok (text, left.drop length.toNat) := by
  rw [readText, readWord_wordBytes]
  simp only [bind, Except.bind, List.length_take]
  by_cases short : left.length < length.toNat
  · have cut : min length.toNat left.length < length.toNat := by omega
    exact (if_pos cut).trans (if_pos short).symm
  · have enough : ¬ min length.toNat left.length < length.toNat := by omega
    exact (if_neg enough).trans (if_neg short).symm

/-- A text is read just where it stands behind its length. -/
theorem readText_eq_ok_iff :
    readText bytes = .ok (text, rest) ↔
      text.utf8ByteSize < 2 ^ 32 ∧ bytes = textBytes text ++ rest := by
  constructor
  · intro read
    obtain ⟨⟨length, left⟩, measured, _⟩ := bind_eq_ok_iff.mp read
    obtain rfl := readWord_eq_ok_iff.mp measured
    rw [readText_wordBytes, unless_eq_ok_iff] at read
    obtain ⟨enough, read⟩ := read
    split at read
    · cases read
    · rename_i found decoded
      cases read
      have payload := Text.eq_utf8_of_ofUtf8? decoded
      have size : length.toNat = text.utf8ByteSize := by
        rw [← length_utf8, ← payload, List.length_take]
        omega
      refine ⟨size ▸ length.toNat_lt, ?_⟩
      rw [textBytes, ← size, UInt32.ofNat_toNat, List.append_assoc, ← payload,
        List.take_append_drop]
  · rintro ⟨fits, rfl⟩
    exact readText_textBytes fits rest

/-- A text that cannot be read is missing its length or some of its bytes, or they are no UTF-8. -/
theorem readText_eq_error_iff : readText bytes = .error error ↔ TextFault bytes error := by
  constructor
  · intro failed
    rcases measured : readWord bytes with reason | ⟨length, left⟩
    · rw [readText, measured] at failed
      cases failed
      obtain ⟨short, rfl⟩ := readWord_eq_error_iff.mp measured
      exact .unmeasured short
    · obtain rfl := readWord_eq_ok_iff.mp measured
      rw [readText_wordBytes] at failed
      by_cases short : left.length < length.toNat
      · rw [if_pos short] at failed
        cases failed
        exact .cut short
      · rw [if_neg short] at failed
        split at failed
        · rename_i undecoded
          cases failed
          rw [← List.take_append_drop length.toNat left]
          refine .garbled (by rw [List.length_take]; omega) fun text same => ?_
          rw [same, Text.ofUtf8?_utf8] at undecoded
          cases undecoded
        · cases failed
  · intro fault
    cases fault with
    | unmeasured short =>
      rw [readText, readWord_eq_error_iff.mpr ⟨short, rfl⟩]
      rfl
    | cut short => rw [readText_wordBytes, if_pos short]
    | @garbled length payload left measured garbled =>
      have undecoded : Text.ofUtf8? payload = none := by
        apply Option.eq_none_iff_forall_ne_some.mpr
        intro text decoded
        exact garbled text (Text.eq_utf8_of_ofUtf8? decoded)
      rw [readText_wordBytes, if_neg (by rw [List.length_append]; omega), ← measured,
        List.take_left, undecoded]

/-- Texts have lengths that fit when the first one has and the rest have. -/
theorem measured_cons : Measured (text :: texts) ↔ text.utf8ByteSize < 2 ^ 32 ∧ Measured texts :=
  List.forall_mem_cons

/-- A step fails in its first part, or in what follows that. -/
theorem bind_eq_error_iff {α β : Type} {first : Except LogError α} {later : α → Except LogError β} :
    first >>= later = .error error ↔
      first = .error error ∨ ∃ found, first = .ok found ∧ later found = .error error := by
  cases first with
  | error failure =>
    simp only [bind, Except.bind, Except.error.injEq, reduceCtorEq, false_and, exists_false,
      or_false]
  | ok found =>
    simp only [bind, Except.bind, reduceCtorEq, Except.ok.injEq, exists_eq_left', false_or]

theorem flatMap_textBytes_cons (text : String) (texts : List String) (left : Bytes) :
    (text :: texts).flatMap textBytes ++ left =
      textBytes text ++ (texts.flatMap textBytes ++ left) := by
  rw [List.flatMap_cons, List.append_assoc]

/-- A text of a fitting length is read where it stands. -/
theorem readText_measured (fits : text.utf8ByteSize < 2 ^ 32) (left : Bytes) :
    readText ((text :: texts).flatMap textBytes ++ left) =
      .ok (text, texts.flatMap textBytes ++ left) :=
  readText_eq_ok_iff.mpr ⟨fits, flatMap_textBytes_cons text texts left⟩

/-- Metadata is read up to the last text of its last entry. -/
theorem exists_readEntries_iff {held : Metadata} :
    (∃ found, readEntries count held bytes = .ok (found, rest)) ↔
      ∃ texts, Measured texts ∧ texts.length = 2 * count ∧
        bytes = texts.flatMap textBytes ++ rest := by
  induction count generalizing held bytes with
  | zero =>
    constructor
    · rintro ⟨found, read⟩
      cases read
      exact ⟨[], List.forall_mem_nil _, rfl, rfl⟩
    · rintro ⟨texts, _, none, rfl⟩
      obtain rfl := List.eq_nil_of_length_eq_zero none
      exact ⟨held, rfl⟩
  | succ count ih =>
    constructor
    · rintro ⟨found, read⟩
      rw [readEntries, bind_eq_ok_iff] at read
      obtain ⟨⟨key, afterKey⟩, named, others⟩ := read
      obtain ⟨⟨value, afterValue⟩, valued, later⟩ := bind_eq_ok_iff.mp others
      obtain ⟨texts, measured, all, behind⟩ := ih.mp ⟨found, later⟩
      obtain ⟨keyFits, rfl⟩ := readText_eq_ok_iff.mp named
      obtain ⟨valueFits, rfl⟩ := readText_eq_ok_iff.mp valued
      refine ⟨key :: value :: texts,
        measured_cons.mpr ⟨keyFits, measured_cons.mpr ⟨valueFits, measured⟩⟩, ?_, ?_⟩
      · rw [List.length_cons, List.length_cons]
        omega
      · rw [flatMap_textBytes_cons, flatMap_textBytes_cons, behind]
    · rintro ⟨texts, measured, all, rfl⟩
      rcases texts with _ | ⟨key, _ | ⟨value, texts⟩⟩
      · rw [List.length_nil] at all
        omega
      · rw [List.length_singleton] at all
        omega
      · obtain ⟨keyFits, others⟩ := measured_cons.mp measured
        obtain ⟨valueFits, later⟩ := measured_cons.mp others
        rw [List.length_cons, List.length_cons] at all
        obtain ⟨found, read⟩ := (@ih _ (held.insert key value)).mpr ⟨texts, later, by omega, rfl⟩
        refine ⟨found, bind_eq_ok_iff.mpr ⟨_, readText_measured keyFits rest, ?_⟩⟩
        exact bind_eq_ok_iff.mpr ⟨_, readText_measured valueFits rest, read⟩

/-- Metadata is not read where one of its texts is not. -/
theorem readEntries_eq_error_iff {held : Metadata} :
    readEntries count held bytes = .error error ↔
      ∃ texts left, Measured texts ∧ texts.length < 2 * count ∧
        bytes = texts.flatMap textBytes ++ left ∧ TextFault left error := by
  induction count generalizing held bytes with
  | zero =>
    constructor
    · intro failed
      cases failed
    · rintro ⟨_, _, _, fewer, _⟩
      cases fewer
  | succ count ih =>
    rw [readEntries, bind_eq_error_iff, readText_eq_error_iff]
    constructor
    · rintro (fault | ⟨⟨key, afterKey⟩, named, others⟩)
      · exact ⟨[], bytes, List.forall_mem_nil _, Nat.succ_pos _, rfl, fault⟩
      · obtain ⟨keyFits, rfl⟩ := readText_eq_ok_iff.mp named
        rw [bind_eq_error_iff, readText_eq_error_iff] at others
        rcases others with fault | ⟨⟨value, afterValue⟩, valued, later⟩
        · refine ⟨[key], afterKey, List.forall_mem_singleton.mpr keyFits, ?_, ?_, fault⟩
          · rw [List.length_singleton]
            omega
          · rw [flatMap_textBytes_cons]
            rfl
        · obtain ⟨valueFits, rfl⟩ := readText_eq_ok_iff.mp valued
          obtain ⟨texts, left, measured, fewer, rfl, fault⟩ := ih.mp later
          refine ⟨key :: value :: texts, left,
            measured_cons.mpr ⟨keyFits, measured_cons.mpr ⟨valueFits, measured⟩⟩, ?_, ?_, fault⟩
          · rw [List.length_cons, List.length_cons]
            omega
          · rw [flatMap_textBytes_cons, flatMap_textBytes_cons]
    · rintro ⟨texts, left, measured, fewer, rfl, fault⟩
      rcases texts with _ | ⟨key, _ | ⟨value, texts⟩⟩
      · exact .inl fault
      · obtain ⟨keyFits, _⟩ := measured_cons.mp measured
        right
        refine ⟨_, readText_measured keyFits left, ?_⟩
        exact bind_eq_error_iff.mpr (.inl (readText_eq_error_iff.mpr fault))
      · obtain ⟨keyFits, others⟩ := measured_cons.mp measured
        obtain ⟨valueFits, later⟩ := measured_cons.mp others
        rw [List.length_cons, List.length_cons] at fewer
        right
        refine ⟨_, readText_measured keyFits left, ?_⟩
        refine bind_eq_error_iff.mpr (.inr ⟨_, readText_measured valueFits left, ?_⟩)
        exact ih.mpr ⟨texts, left, later, by omega, rfl, fault⟩

variable {storeId : StoreId} {version : Version} {entries : UInt32} {body listed sized : Bytes}
  {word : UInt32}

/-- The body of a header is not read just where its metadata is not all of it. -/
theorem readBody_eq_error_iff :
    readBody (bodyBytes storeId (UInt32.ofNat version.number) entries listed) = .error error ↔
      ListFault (2 * entries.toNat) listed error := by
  rw [readBody_bodyBytes, toNat_ofNat_of_lt (number_lt version), ofNumber_number]
  change (readEntries entries.toNat .empty listed >>= _) = _ ↔ _
  rw [bind_eq_error_iff, readEntries_eq_error_iff]
  constructor
  · rintro (⟨texts, left, measured, fewer, rfl, fault⟩ | ⟨⟨metadata, left⟩, read, failed⟩)
    · exact .text measured fewer fault
    · obtain ⟨texts, measured, all, rfl⟩ := exists_readEntries_iff.mp ⟨metadata, read⟩
      simp only at failed
      split at failed
      · rename_i more
        cases failed
        exact .beyond measured all (List.ne_nil_of_length_pos more)
      · cases failed
  · intro fault
    cases fault with
    | @text texts left _ measured fewer fault =>
      exact .inl ⟨texts, left, measured, fewer, rfl, fault⟩
    | @beyond texts left measured all more =>
      obtain ⟨metadata, read⟩ := exists_readEntries_iff.mpr ⟨texts, measured, all, rfl⟩
      refine .inr ⟨(metadata, left), read, ?_⟩
      exact if_pos (List.length_pos_of_ne_nil more)

/-- A body is read just when its entries are so many pairs of texts and nothing else. -/
theorem exists_readBody_iff :
    (∃ header, readBody (bodyBytes storeId (UInt32.ofNat version.number) entries listed) =
        .ok header) ↔
      ∃ texts, Measured texts ∧ texts.length = 2 * entries.toNat ∧
        listed = texts.flatMap textBytes := by
  rw [readBody_bodyBytes, toNat_ofNat_of_lt (number_lt version), ofNumber_number]
  change (∃ header, (readEntries entries.toNat .empty listed >>= _) = .ok header) ↔ _
  constructor
  · rintro ⟨header, read⟩
    obtain ⟨⟨metadata, left⟩, listing, done⟩ := bind_eq_ok_iff.mp read
    obtain ⟨none, _⟩ := unless_eq_ok_iff.mp done
    obtain rfl := List.eq_nil_of_length_eq_zero (Nat.eq_zero_of_not_pos none)
    obtain ⟨texts, measured, all, shape⟩ := exists_readEntries_iff.mp ⟨metadata, listing⟩
    exact ⟨texts, measured, all, by rw [shape, List.append_nil]⟩
  · rintro ⟨texts, measured, all, shape⟩
    rw [← List.append_nil (texts.flatMap textBytes)] at shape
    obtain ⟨metadata, listing⟩ := exists_readEntries_iff.mpr ⟨texts, measured, all, shape⟩
    exact ⟨_, bind_eq_ok_iff.mpr ⟨_, listing, if_neg (Nat.lt_irrefl 0)⟩⟩

/-- Four bytes begin with a word. -/
theorem exists_word (long : 4 ≤ bytes.length) : ∃ word rest, bytes = wordBytes word ++ rest := by
  rcases read : readWord bytes with reason | ⟨word, rest⟩
  · exact absurd (readWord_eq_error_iff.mp read).1 (Nat.not_lt.mpr long)
  · exact ⟨word, rest, readWord_eq_ok_iff.mp read⟩

/-- A body that is long enough has a place for all that stands in front of its metadata. -/
theorem exists_bodyBytes (long : 24 ≤ body.length) :
    ∃ storeId number entries listed, body = bodyBytes storeId number entries listed := by
  have identified : (body.take 16).length = 16 := by
    rw [List.length_take]
    omega
  have behind : 8 ≤ (body.drop 16).length := by
    rw [List.length_drop]
    omega
  obtain ⟨number, afterNumber, numbered⟩ := exists_word (Nat.le_trans (by decide) behind)
  rw [numbered, List.length_append, length_wordBytes] at behind
  obtain ⟨entries, listed, rfl⟩ := exists_word (Nat.le_of_add_le_add_left (a := 4) behind)
  refine ⟨⟨body.take 16, identified⟩, number, entries, listed, ?_⟩
  rw [bodyBytes, ← numbered, List.take_append_drop]

/-- A body of a version that is not supported is refused for that. -/
theorem exists_version {number : UInt32} {failure : IoFailure}
    (failed : readBody (bodyBytes storeId number entries listed) = .error (.io failure)) :
    ∃ version : Version, number = UInt32.ofNat version.number := by
  rw [readBody_bodyBytes, bind_eq_error_iff, Version.ofNumber] at failed
  by_cases first : number.toNat = 1
  · exact ⟨.one, UInt32.toNat_inj.mp first⟩
  · by_cases second : number.toNat = 2
    · exact ⟨.two, UInt32.toNat_inj.mp second⟩
    · rw [if_neg first, if_neg second] at failed
      rcases failed with unsupported | ⟨_, supported, _⟩
      · cases unsupported
      · cases supported

/-- Bytes that begin with a header of a fitting length whose checksum is right. -/
structure Summed (bytes body : Bytes) : Prop where
  long : 24 ≤ body.length
  short : body.length + 16 ≤ maxHeaderLength
  closed : ∃ rest, bytes =
    frontBytes body ++ (wordBytes (Checksum.ofBytes (frontBytes body)) ++ rest)

namespace Summed

/-- Where the checksum is right, decoding a header is reading its body. -/
theorem decode_eq (summed : Summed bytes body) :
    decode bytes = (readBody body).map fun header => (header, body.length + 16) := by
  obtain ⟨rest, rfl⟩ := summed.closed
  rw [decode_frontBytes_append summed.long summed.short rfl, if_neg (not_not.mpr rfl)]

/-- Where the checksum is right, a header is faulty just when its body is. -/
theorem decode_eq_error_iff (summed : Summed bytes body) :
    decode bytes = .error error ↔ readBody body = .error error := by
  rw [summed.decode_eq]
  cases readBody body with
  | error reason => rw [Except.map, Except.error.injEq, Except.error.injEq]
  | ok header => exact iff_of_false nofun nofun

/-- Where the checksum is right, a header is decoded just when its body is read. -/
theorem exists_decode_iff (summed : Summed bytes body) :
    (∃ found, decode bytes = .ok found) ↔ ∃ header, readBody body = .ok header := by
  rw [summed.decode_eq]
  cases readBody body with
  | error reason => exact iff_of_false nofun nofun
  | ok header => exact iff_of_true ⟨_, rfl⟩ ⟨_, rfl⟩

end Summed

/-- The bytes of a header that are all there are a front part, a checksum and what follows. -/
theorem exists_frontBytes (signed : bytes.take 8 = magic)
    (measured : readWord (bytes.drop 8) = .ok (word, sized))
    (bounded : ¬(word.toNat < baseLength ∨ maxHeaderLength < word.toNat))
    (whole : word.toNat ≤ bytes.length) :
    ∃ body stored rest, stored.length = 4 ∧ body.length + 16 = word.toNat ∧
      bytes = frontBytes body ++ (stored ++ rest) := by
  have lead := readWord_eq_ok_iff.mp measured
  have enough : word.toNat - 12 ≤ sized.length := by
    have total := congrArg List.length lead
    rw [List.length_drop, List.length_append, length_wordBytes] at total
    omega
  rw [baseLength] at bounded
  have size : (sized.take (word.toNat - 16)).length + 16 = word.toNat := by
    rw [List.length_take]
    omega
  refine ⟨sized.take (word.toNat - 16), (sized.drop (word.toNat - 16)).take 4,
    (sized.drop (word.toNat - 16)).drop 4, ?_, size, ?_⟩
  · rw [List.length_take, List.length_drop]
    omega
  · rw [frontBytes, size, UInt32.ofNat_toNat, List.take_append_drop, List.append_assoc,
      List.append_assoc, List.take_append_drop, ← lead, ← signed, List.take_append_drop]

/-- A header whose bytes are all there is refused for its magic bytes, its length or its checksum,
or its body is read. -/
theorem decode_whole_cases (measured : readWord (bytes.drop 8) = .ok (word, sized))
    (whole : word.toNat ≤ bytes.length) :
    decode bytes = .error .badMagic ∨
      decode bytes = .error (.corruptHeader (.implausibleLength word.toNat)) ∨
      decode bytes = .error .headerChecksum ∨ ∃ body, Summed bytes body := by
  by_cases signed : bytes.take 8 = magic
  · by_cases bounded : word.toNat < baseLength ∨ maxHeaderLength < word.toNat
    · right
      left
      rw [decode, if_neg (not_not.mpr signed), measured]
      exact if_pos bounded
    · obtain ⟨body, stored, rest, four, sized, rfl⟩ :=
        exists_frontBytes signed measured bounded whole
      right
      right
      have long : 24 ≤ body.length := by
        rw [baseLength] at bounded
        omega
      have short : body.length + 16 ≤ maxHeaderLength := by omega
      by_cases closed : stored = wordBytes (Checksum.ofBytes (frontBytes body))
      · exact .inr ⟨body, long, short, rest, by rw [closed]⟩
      · left
        rw [decode_frontBytes_append long short four, if_pos closed]
  · left
    rw [decode, if_pos signed]

/-- A header whose bytes are all there, with the right checksum and a supported version, is read
just when its metadata is the texts of its entries, and else is refused for the first place where
this fails. That its bytes ended early is said of it just when its metadata ends in front of the
length of a text or inside it, and is not said of any other header whose bytes are all there. -/
theorem decode_whole_iff (measured : readWord (bytes.drop 8) = .ok (word, sized))
    (whole : word.toNat ≤ bytes.length) :
    (∀ failure, decode bytes = .error (.io failure) ↔ failure = .endedEarly ∧
      ∃ (storeId : StoreId) (version : Version) (entries : UInt32) (listed : Bytes)
        (texts : List String) (left : Bytes),
        Summed bytes (bodyBytes storeId (UInt32.ofNat version.number) entries listed) ∧
        Measured texts ∧ texts.length < 2 * entries.toNat ∧
        listed = texts.flatMap textBytes ++ left ∧ left.length < 4) ∧
    ∀ (storeId : StoreId) (version : Version) (entries : UInt32) (listed : Bytes),
      Summed bytes (bodyBytes storeId (UInt32.ofNat version.number) entries listed) →
        ((∃ found, decode bytes = .ok found) ↔
          ∃ texts, Measured texts ∧ texts.length = 2 * entries.toNat ∧
            listed = texts.flatMap textBytes) ∧
        ∀ error, decode bytes = .error error ↔ ListFault (2 * entries.toNat) listed error := by
  refine ⟨fun failure => ⟨fun failed => ?_, ?_⟩, ?_⟩
  · rcases decode_whole_cases measured whole with other | other | other | ⟨body, summed⟩
    · cases other.symm.trans failed
    · cases other.symm.trans failed
    · cases other.symm.trans failed
    · obtain ⟨storeId, number, entries, listed, rfl⟩ := exists_bodyBytes summed.long
      have inside := summed.decode_eq_error_iff.mp failed
      obtain ⟨version, rfl⟩ := exists_version inside
      cases readBody_eq_error_iff.mp inside with
      | @text texts left _ measured fewer fault =>
        -- every other fault is told as a flaw of the header
        cases fault with
        | unmeasured short =>
          exact ⟨rfl, storeId, version, entries, _, texts, left, summed, measured, fewer, rfl,
            short⟩
  · rintro ⟨rfl, storeId, version, entries, listed, texts, left, summed, measured, fewer, rfl,
      short⟩
    rw [summed.decode_eq_error_iff, readBody_eq_error_iff]
    exact .text measured fewer (.unmeasured short)
  · intro storeId version entries listed summed
    refine ⟨summed.exists_decode_iff.trans exists_readBody_iff, fun error => ?_⟩
    exact summed.decode_eq_error_iff.trans readBody_eq_error_iff

/-- The bytes of a header with a body, its checksum included. -/
def summedBytes (body : Bytes) : Bytes :=
  frontBytes body ++ wordBytes (Checksum.ofBytes (frontBytes body))

/-- A body in front of its own checksum is summed. -/
theorem summed_summedBytes (long : 24 ≤ body.length)
    (short : body.length + 16 ≤ maxHeaderLength) : Summed (summedBytes body) body :=
  ⟨long, short, [], by rw [List.append_nil, summedBytes]⟩

/-- The length of a header stands behind its magic bytes. -/
theorem readWord_summedBytes (body : Bytes) :
    readWord ((summedBytes body).drop 8) = .ok (UInt32.ofNat (body.length + 16),
      body ++ wordBytes (Checksum.ofBytes (frontBytes body))) := by
  have signature : magic.length = 8 := rfl
  rw [summedBytes, readWord_eq_ok_iff]
  nth_rewrite 1 [frontBytes]
  rw [List.append_assoc, ← signature, List.drop_left, List.append_assoc]

theorem length_summedBytes (body : Bytes) : (summedBytes body).length = body.length + 16 := by
  rw [summedBytes, List.length_append, length_frontBytes, length_wordBytes]

/-- A header with one entry, of whose value only a part of the length is there. -/
theorem decode_lackingValue :
    let listed := ["name"].flatMap textBytes ++ [0, 0]
    let bytes := summedBytes (bodyBytes .zero 2 1 listed)
    bytes.length = 50 ∧ (∃ sized, readWord (bytes.drop 8) = .ok (50, sized)) ∧
      decode bytes = .error (.io .endedEarly) ∧ ListFault 2 listed (.io .endedEarly) := by
  intro listed bytes
  have whole : bytes.length = 50 := length_summedBytes _
  have measured := readWord_summedBytes (bodyBytes .zero 2 1 listed)
  have summed : Summed bytes (bodyBytes .zero (UInt32.ofNat Version.two.number) 1 listed) :=
    summed_summedBytes (by decide) (by decide)
  have named : Measured ["name"] := List.forall_mem_singleton.mpr (by decide)
  have faults := decode_whole_iff measured (Nat.le_of_eq whole.symm)
  have ended : decode bytes = .error (.io .endedEarly) := (faults.1 _).mpr
    ⟨rfl, .zero, .two, 1, listed, ["name"], [0, 0], summed, named, by decide, rfl, by decide⟩
  exact ⟨whole, ⟨_, measured⟩, ended, ((faults.2 _ _ _ _ summed).2 _).mp ended⟩

/-- Not every header whose bytes are all there is refused for something else than bytes that ended
early: one that announces an entry and holds none is not. -/
theorem not_decode_whole_ne_io :
    ¬ ∀ (bytes sized : Bytes) (word : UInt32), readWord (bytes.drop 8) = .ok (word, sized) →
      word.toNat ≤ bytes.length → ∀ failure, decode bytes ≠ .error (.io failure) := by
  intro claimed
  let body := bodyBytes .zero (UInt32.ofNat Version.two.number) 1 []
  have summed : Summed (summedBytes body) body := summed_summedBytes (by decide) (by decide)
  have fault : ListFault 2 [] (.io .endedEarly) :=
    .text (List.forall_mem_nil _) (by decide) (.unmeasured (by decide))
  have ended : decode (summedBytes body) = .error (.io .endedEarly) :=
    summed.decode_eq_error_iff.mpr (readBody_eq_error_iff.mpr fault)
  exact claimed _ _ _ (readWord_summedBytes body) (Nat.le_of_eq (length_summedBytes body).symm) _
    ended

end AtomStore.Log.Header
