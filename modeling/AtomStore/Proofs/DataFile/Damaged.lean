import AtomStore.Proofs.DataFile.History
import AtomStore.Proofs.Log.Altered

/-!
# Data files with one byte changed

A byte of a record that stands for itself is changed: one of a payload or of the checksum, the last
one, or a digit of a number that is no length, which still goes on or ends where it did. A replay
delivers the records in front of that record as they were written, and fails at its offset, because
the checksum does not fit or because the record is flawed. It never takes the record for one that is
cut short, and delivers nothing of it.
-/

namespace AtomStore

open Log (ByteRole Chunk StoredRecord)

/-- The directory with one byte of a file changed. -/
def Directory.setByte (directory : Directory) (path : String) (place : Nat) (byte : UInt8) :
    Directory :=
  directory.write path ((directory.content path).set place byte)

namespace DataFile

variable {directory : Directory} {file : DataFile} {start : Bytes} {front back : List Chunk}
  {record : StoredRecord} {trailing place : Nat} {role : ByteRole} {old new : UInt8}

/-- Where a record of a layout is written. -/
def offsetBehind (file : DataFile) (front : List Chunk) : Nat :=
  file.headerLength + (front.flatMap Chunk.bytes).length

namespace Laid

variable (laid : file.Laid directory start (front ++ .record record :: back) trailing)

include laid

/-- The bytes of a file around one of its records. -/
theorem content_around :
    directory.content file.path = (start ++ front.flatMap Chunk.bytes) ++ (record.bytes ++
      (back.flatMap Chunk.bytes ++ List.replicate trailing Log.padByte)) := by
  rw [laid.content_eq]
  simp only [List.flatMap_append, List.flatMap_cons, Chunk.bytes, List.append_assoc]

/-- The place behind some chunks, as a number of bytes. -/
theorem offsetBehind_eq :
    file.offsetBehind front = (start ++ front.flatMap Chunk.bytes).length := by
  rw [offsetBehind, laid.headerLength_eq, List.length_append]

/-- The bytes of a record are found behind its offset. -/
theorem byte_of_record (found : record.bytes[place]? = some old) :
    (directory.content file.path)[file.offsetBehind front + place]? = some old := by
  have inside : place < record.bytes.length := (List.getElem?_eq_some_iff.mp found).1
  rw [laid.content_around, laid.offsetBehind_eq, List.getElem?_append_right (Nat.le_add_right ..),
    Nat.add_sub_cancel_left, List.getElem?_append_left inside]
  exact found

/-- The file with one byte of a record changed. -/
theorem file?_setByte (inside : place < record.bytes.length) (new : UInt8) :
    (directory.setByte file.path (file.offsetBehind front + place) new).file? file.path =
      some (start ++ (front.flatMap Chunk.bytes ++ (record.bytes.set place new ++
        (back.flatMap Chunk.bytes ++ List.replicate trailing Log.padByte)))) := by
  obtain ⟨name, leads⟩ := Directory.place_of_file? laid.file?_eq
  rw [Directory.setByte, Directory.file?_write _ leads, laid.content_around, laid.offsetBehind_eq,
    List.set_append_right _ _ (Nat.le_add_right ..), Nat.add_sub_cancel_left,
    List.set_append_left _ _ inside, List.append_assoc]

/-- A file with one byte changed opens as before. -/
theorem openAt_setByte (inside : place < record.bytes.length) (new : UInt8)
    (sync readOnly : Bool) :
    openAt (directory.setByte file.path (file.offsetBehind front + place) new) file.path sync
        readOnly =
      openAt directory file.path sync readOnly := by
  have size : (start ++ (front.flatMap Chunk.bytes ++ (record.bytes.set place new ++
      (back.flatMap Chunk.bytes ++ List.replicate trailing Log.padByte)))).length =
        (directory.content file.path).length := by
    rw [laid.content_around]
    simp only [List.length_append, List.length_set, Nat.add_assoc]
  rw [laid.openAt_eq, openAt, laid.file?_setByte inside]
  simp only [Log.Header.decode_encode laid.encoded, Except.map, laid.headerLength_eq, size]

/-- A scan finds the records in front of the changed one and fails there. -/
theorem scan_setByte (found : record.fields[place]? = some (role, old))
    (allowed : role.Allows old new) (changed : new ≠ old) (inside : place < record.bytes.length) :
    ∃ error, (error = .recordChecksum (file.offsetBehind front) ∨
        ∃ wrong, error = .corrupt (file.offsetBehind front) wrong) ∧
      file.scan (directory.setByte file.path (file.offsetBehind front + place) new) =
        ⟨Log.placedRecords file.headerLength front, .error error⟩ := by
  have content := Directory.content_of_file? (laid.file?_setByte inside new)
  obtain ⟨earlier, others⟩ := Log.fitting_append.mp laid.fitting
  obtain ⟨error, unlike, failed⟩ := StoredRecord.scanFrom_set (others record List.mem_cons_self)
    found allowed changed (Log.lastEnd file.headerLength file.headerLength front)
    (file.offsetBehind front)
    (back.flatMap Chunk.bytes ++ List.replicate trailing Log.padByte)
  have scanned : Log.scan file.header.version file.headerLength
      (((directory.setByte file.path (file.offsetBehind front + place) new).content
        file.path).drop file.headerLength) =
      ⟨Log.placedRecords file.headerLength front, .error error⟩ := by
    rw [offsetBehind] at failed
    rw [content, laid.headerLength_eq, List.drop_left, ← laid.headerLength_eq, Log.scan,
      Log.scanFrom_layout earlier, failed, List.append_nil]
  refine ⟨error, unlike, ?_⟩
  rw [scan]
  simp only [scanned]
  -- neither failure says that bytes are missing, so no whole record is looked for further on
  rcases unlike with rfl | ⟨wrong, rfl⟩ <;> rfl

/-- What is in front of a changed byte stands for what was written. -/
theorem ofRecord_front (inside : place < record.bytes.length) (new : UInt8) :
    (Log.placedRecords file.headerLength front).map (LogEntry.ofRecord
        (directory.setByte file.path (file.offsetBehind front + place) new) file.path) =
      (front.filterMap Chunk.record?).map LogEntry.ofStored := by
  rw [laid.headerLength_eq]
  exact ofRecord_placedRecords (Log.fitting_append.mp laid.fitting).1
    (Directory.content_of_file? (laid.file?_setByte inside new))

end Laid

/-- Whatever the history of a file, when a byte of one of its records is changed and its role allows
the change, the file opens as before. A replay of it, whether it is opened again or was open all
along, delivers the records in front of that one, with their data as they were committed, and fails
at its offset: the checksum does not fit, or the record is flawed. -/
theorem History.replay_setByte {entries : List LogEntry} {last : Nat}
    (history : History directory file entries last) (sync readOnly : Bool) :
    ∃ fresh records,
      openAt directory file.path sync readOnly = .ok fresh ∧
      records.map LogEntry.ofStored = entries ∧
      ∀ earlier record later, records = earlier ++ record :: later →
        ∃ delivered behind offset,
          (fresh.replay directory collect []).1 =
            delivered ++ StoredRecord.placed offset record :: behind ∧
          ∀ place role old new, record.fields[place]? = some (role, old) → role.Allows old new →
            new ≠ old →
            let damaged := directory.setByte file.path (offset + place) new
            (directory.content file.path)[offset + place]? = some old ∧
            openAt damaged file.path sync readOnly = .ok fresh ∧
            delivered.map (LogEntry.ofRecord damaged file.path) = earlier.map LogEntry.ofStored ∧
            ∃ error, (error = .recordChecksum offset ∨ ∃ wrong, error = .corrupt offset wrong) ∧
              ∀ reading, reading = fresh ∨ reading = file →
                reading.replay damaged collect [] =
                  (delivered, earlier.length,
                    (delivered.map fun record => record.atoms.length).sum, .error error) := by
  obtain ⟨start, chunks, trailing, laid, stored, _⟩ := history.laid
  refine ⟨_, _, laid.openAt_eq sync readOnly, stored, ?_⟩
  intro earlier record later parts
  obtain ⟨front, back, rfl, kept⟩ := Log.chunks_around parts
  have rescan (other : Directory) :
      scan { file with stop := (directory.content file.path).length, sync, readOnly } other =
        file.scan other := rfl
  refine ⟨Log.placedRecords file.headerLength front,
    Log.placedRecords (file.offsetBehind front + record.bytes.length) back,
    file.offsetBehind front, ?_, ?_⟩
  · rw [replay_collect, rescan, laid.scan_eq, Log.placedRecords_append]
    rfl
  · intro place role old new found allowed changed damaged
    have byte : record.bytes[place]? = some old := by
      rw [← record.map_snd_fields, List.getElem?_map, found]
      rfl
    have inside : place < record.bytes.length := (List.getElem?_eq_some_iff.mp byte).1
    obtain ⟨error, unlike, scanned⟩ := laid.scan_setByte found allowed changed inside
    have same := laid.ofRecord_front inside new
    rw [kept] at same
    have count := congrArg List.length same
    rw [List.length_map, List.length_map] at count
    refine ⟨laid.byte_of_record byte, ?_, same, error, unlike, ?_⟩
    · rw [laid.openAt_setByte inside, laid.openAt_eq]
    · intro reading either
      have rescanned : reading.scan damaged = ⟨Log.placedRecords file.headerLength front,
          .error error⟩ := by
        rcases either with rfl | rfl
        · rw [rescan, scanned]
        · exact scanned
      rw [replay_collect, rescanned]
      simp only [count]
      rfl

/-- Two commits of which the last byte of the second one is changed. -/
theorem replay_with_last_byte_changed :
    ∃ directory file last place fresh delivered error,
      History directory file
        [⟨1, [(7, [(1, some (.text "a"))])]⟩, ⟨2, [(8, [(1, some (.integer 5))])]⟩] last ∧
      (directory.content file.path)[place]? = some Log.recordEnd ∧
      openAt (directory.setByte file.path place 0) file.path false false = .ok fresh ∧
      fresh.replay (directory.setByte file.path place 0) collect [] =
        (delivered, 1, (delivered.map fun record => record.atoms.length).sum, .error error) ∧
      delivered.map (LogEntry.ofRecord (directory.setByte file.path place 0) file.path) =
        [⟨1, [(7, [(1, some (.text "a"))])]⟩] := by
  let first : Draft := ⟨7, .ofList [(1, .text "a")]⟩
  let second : Draft := ⟨8, .ofList [(1, .integer 5)]⟩
  obtain ⟨empty, file, created, writable⟩ : ∃ directory file,
      create {} "log" .zero 2 .empty false = .ok (directory, file) ∧ file.readOnly = false :=
    ⟨_, _, rfl, rfl⟩
  obtain ⟨written, grown, places, appended, still⟩ : ∃ written grown places,
      file.append empty 1 [first] 2 = .ok (written, grown, places) ∧ grown.readOnly = false := by
    simp only [append_eq, writable, Bool.false_eq_true, ↓reduceIte]
    exact ⟨_, _, _, rfl, writable⟩
  obtain ⟨directory, longer, others, further⟩ : ∃ directory longer others,
      grown.append written 2 [second] 2 = .ok (directory, longer, others) := by
    simp only [append_eq, still, Bool.false_eq_true, ↓reduceIte]
    exact ⟨_, _, _, rfl⟩
  have firstFits : ∀ draft ∈ [first], draft.Fits :=
    List.forall_mem_singleton.mpr ⟨by decide, by decide⟩
  have secondFits : ∀ draft ∈ [second], draft.Fits :=
    List.forall_mem_singleton.mpr ⟨by decide, by decide⟩
  have history := ((History.created created).appended (by decide) (by decide) firstFits
    appended).appended (by decide) (by decide) secondFits further
  obtain ⟨fresh, records, _, stored, damage⟩ := history.replay_setByte false false
  obtain ⟨earlier, rest, rfl, before, after⟩ := List.map_eq_append_iff.mp stored
  obtain ⟨record, later, rfl, _⟩ := List.map_eq_cons_iff.mp after
  obtain ⟨delivered, behind, offset, _, changed⟩ := damage earlier record later rfl
  obtain ⟨place, found⟩ := record.exists_last_field
  obtain ⟨byte, opened, held, error, _, replayed⟩ :=
    changed place .free Log.recordEnd 0 found trivial (by decide)
  have count : earlier.length = 1 := by
    rw [← List.length_map LogEntry.ofStored, before]
    rfl
  rw [before] at held
  have outcome := replayed fresh (.inl rfl)
  rw [count] at outcome
  exact ⟨directory, longer, _, offset + place, fresh, delivered, error, history, byte, opened,
    outcome, held⟩

end DataFile
end AtomStore
