import AtomStore.Proofs.Checksum
import AtomStore.Proofs.Log.HeaderRoundTrip

/-!
# Headers with one byte changed

The magic bytes of a header are compared first and its checksum next, before anything else that it
says is looked at. A written header with one byte changed is therefore refused for one of the two,
wherever the byte is, unless it belongs to the length that tells where the checksum is.
-/

namespace AtomStore.Log.Header

variable {body rest : Bytes} {place : Nat} {old new : UInt8}

/-- A header with a changed byte among the first eight is none. -/
theorem decode_set_magic (found : magic[place]? = some old) (changed : new ≠ old) :
    decode (magic.set place new ++ rest) = .error .badMagic := by
  have eight : (magic.set place new).length = 8 := List.length_set
  rw [decode, List.take_left' eight, if_pos (Checksum.set_ne found changed)]

/-- A byte behind the length of a header is one of its body. -/
theorem set_frontBytes (behind : 12 ≤ place) :
    (frontBytes body).set place new = frontBytes (body.set (place - 12) new) := by
  have lead : (magic ++ wordBytes (UInt32.ofNat (body.length + 16))).length = 12 := rfl
  rw [frontBytes, frontBytes, List.length_set, ← List.append_assoc, ← List.append_assoc,
    List.set_append_right _ _ (lead.symm ▸ behind), lead]

/-- A byte behind the length of a header does not fit the checksum when it is changed. -/
theorem decode_set_front (long : 24 ≤ body.length) (short : body.length + 16 ≤ maxHeaderLength)
    (found : (frontBytes body)[place]? = some old) (changed : new ≠ old) (behind : 12 ≤ place) :
    decode ((frontBytes body).set place new ++
      (wordBytes (Checksum.ofBytes (frontBytes body)) ++ rest)) = .error .headerChecksum := by
  have unfit : wordBytes (Checksum.ofBytes (frontBytes body)) ≠
      wordBytes (Checksum.ofBytes ((frontBytes body).set place new)) := fun same =>
    Checksum.ofBytes_set_ne found changed (wordBytes_injective same).symm
  rw [set_frontBytes behind] at unfit ⊢
  rw [decode_frontBytes_append (by rwa [List.length_set]) (by rwa [List.length_set]) rfl,
    if_pos unfit]

/-- A written header of which one byte is changed is not read, whatever follows it. One of the magic
bytes makes it no header at all, and behind its length every byte makes its checksum wrong. -/
theorem decode_damaged {header : Header} {bytes : Bytes} (encoded : header.encode = .ok bytes)
    (found : bytes[place]? = some old) (changed : new ≠ old) (outside : place < 8 ∨ 12 ≤ place)
    (rest : Bytes) :
    decode (bytes.set place new ++ rest) =
      .error (if place < 8 then .badMagic else .headerChecksum) := by
  obtain ⟨body, _, long, short, rfl⟩ := exists_body_of_encode encoded
  have signature : magic.length = 8 := rfl
  by_cases signs : place < 8
  · rw [frontBytes, List.append_assoc, List.getElem?_append_left (signature ▸ signs)] at found
    rw [if_pos signs, frontBytes, List.append_assoc, List.set_append_left _ _ (signature ▸ signs),
      List.append_assoc]
    exact decode_set_magic found changed
  · have behind : 12 ≤ place := outside.resolve_left signs
    rw [if_neg signs]
    by_cases covered : place < (frontBytes body).length
    · rw [List.getElem?_append_left covered] at found
      rw [List.set_append_left _ _ covered, List.append_assoc]
      exact decode_set_front long short found changed behind
    · have summed : (frontBytes body).length ≤ place := Nat.le_of_not_lt covered
      rw [List.getElem?_append_right summed] at found
      rw [List.set_append_right _ _ summed, List.append_assoc,
        decode_frontBytes_append long short (by rw [List.length_set, length_wordBytes]),
        if_pos (Checksum.set_ne found changed)]

/-- A header with metadata, of which a magic byte or the last byte of the metadata is changed. -/
theorem decode_damaged_named :
    let header : Header := ⟨.zero, .two, .ofList [("name", "main")]⟩
    ∃ bytes, header.encode = .ok bytes ∧ bytes[0]? = some 0x41 ∧ bytes[51]? = some 0x6E ∧
      ∀ rest, decode (bytes.set 0 0x58 ++ rest) = .error .badMagic ∧
        decode (bytes.set 51 0x6F ++ rest) = .error .headerChecksum := by
  intro header
  let bytes := header.coveredBytes ++ wordBytes (Checksum.ofBytes header.coveredBytes)
  have encoded : header.encode = .ok bytes := rfl
  have first : bytes[0]? = some 0x41 := by decide +kernel
  have last : bytes[51]? = some 0x6E := by decide +kernel
  refine ⟨bytes, encoded, first, last, fun rest => ⟨?_, ?_⟩⟩
  · exact decode_damaged encoded first (by decide) (by decide) rest
  · exact decode_damaged encoded last (by decide) (by decide) rest

end AtomStore.Log.Header
