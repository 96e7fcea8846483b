import AtomStore.Proofs.DataFile.Payload
import AtomStore.Proofs.Log.Accepted
import AtomStore.Proofs.Store.Repair

/-!
# Data files of any origin

A file that was created or opened holds a header and whole records, with nothing but pad bytes up to
the place of the next record and behind it. A record that is written there is the next one, the file
opens again with all of them, and bytes in front of that place never change.
-/

namespace AtomStore

open Log (Header Record Spans StoredRecord)

namespace DataFile

/-- Whether an open file holds some records, the last of which ends at a position in front of the
place of the next one, and no others. -/
structure Whole (file : DataFile) (directory : Directory) (records : List Record) (ends : Nat) :
    Prop where
  file?_eq : directory.file? file.path = some (directory.content file.path)
  decoded : Header.decode (directory.content file.path) = .ok (file.header, file.headerLength)
  scanned : Log.scan file.header.version file.headerLength
    ((directory.content file.path).drop file.headerLength) = ⟨records, .ok ends⟩
  ends_le : ends ≤ file.stop
  stop_le : file.stop ≤ (directory.content file.path).length

variable {file : DataFile} {directory : Directory} {records : List Record} {ends : Nat}

/-- What is written at the place of the next record is put in front of the pad bytes there. -/
theorem file?_writeNext {front : Bytes} {count : Nat}
    (found : directory.file? file.path = some (directory.content file.path))
    (content : directory.content file.path = front ++ List.replicate count Log.padByte)
    (size : front.length = file.stop) (bytes : Bytes) :
    (file.writeNext directory bytes).1.file? file.path =
      some (front ++ (bytes ++ List.replicate (count - bytes.length) Log.padByte)) := by
  obtain ⟨name, leads⟩ := Directory.place_of_file? found
  rw [← overwrite_padding, size, ← content]
  exact Directory.file?_write _ leads

/-- Whether an open file has nothing but pad bytes behind the place of its next record, whatever is
in front of it. -/
structure Clear (file : DataFile) (directory : Directory) : Prop where
  file?_eq : directory.file? file.path = some (directory.content file.path)
  padded : ∃ front count, directory.content file.path = front ++ List.replicate count Log.padByte ∧
    front.length = file.stop
  headerLength_le : file.headerLength ≤ file.stop

namespace Clear

theorem stop_le (clear : file.Clear directory) :
    file.stop ≤ (directory.content file.path).length := by
  obtain ⟨front, count, content, size⟩ := clear.padded
  rw [content, List.length_append]
  omega

/-- Writing at the append position overwrites as much padding as it needs. -/
theorem content_writeNext (clear : file.Clear directory) (bytes : Bytes) :
    ∃ front count, directory.content file.path = front ++ List.replicate count Log.padByte ∧
      front.length = file.stop ∧
      (file.writeNext directory bytes).1.content file.path =
        (front ++ bytes) ++ List.replicate (count - bytes.length) Log.padByte := by
  obtain ⟨front, count, content, size⟩ := clear.padded
  refine ⟨front, count, content, size, ?_⟩
  rw [List.append_assoc]
  exact Directory.content_of_file? (file?_writeNext clear.file?_eq content size bytes)

theorem writeNext (clear : file.Clear directory) (bytes : Bytes) :
    (file.writeNext directory bytes).2.Clear (file.writeNext directory bytes).1 := by
  obtain ⟨front, count, content, size⟩ := clear.padded
  have found := file?_writeNext clear.file?_eq content size bytes
  have held := Directory.content_of_file? found
  refine ⟨held.symm ▸ found, ⟨front ++ bytes, count - bytes.length, ?_, ?_⟩, ?_⟩
  · rw [List.append_assoc]
    exact held
  · change (front ++ bytes).length = file.stop + bytes.length
    rw [List.length_append, size]
  · exact Nat.le_trans clear.headerLength_le (Nat.le_add_right ..)

/-- Writing leaves the bytes in front of it as they are. -/
theorem extends_writeNext (clear : file.Clear directory) (bytes : Bytes) :
    file.Extends (file.writeNext directory bytes).2 directory
      (file.writeNext directory bytes).1 := by
  obtain ⟨front, _, content, size, written⟩ := clear.content_writeNext bytes
  refine ⟨rfl, rfl, Nat.le_add_right _ _, ?_⟩
  change ((file.writeNext directory bytes).1.content file.path).take file.stop = _
  rw [written, content, ← size, List.append_assoc, List.take_left, List.take_left]

end Clear

/-- Whether an open file is in its directory and reaches as far as the place of its next record,
whatever is in it. -/
structure Present (file : DataFile) (directory : Directory) : Prop where
  file?_eq : directory.file? file.path = some (directory.content file.path)
  stop_le : file.stop ≤ (directory.content file.path).length

namespace Present

/-- What a file is written over with is read back. -/
theorem file?_write (present : file.Present directory) (content : Bytes) :
    (directory.write file.path content).file? file.path = some content := by
  obtain ⟨name, leads⟩ := Directory.place_of_file? present.file?_eq
  exact Directory.file?_write content leads

theorem content_write (present : file.Present directory) (content : Bytes) :
    (directory.write file.path content).content file.path = content :=
  Directory.content_of_file? (present.file?_write content)

/-- A file stays present and goes on when the bytes in front of its next record are written again
as they were. -/
theorem rewritten (present : file.Present directory) {content : Bytes} {next : DataFile}
    (path : next.path = file.path) (headerLength : next.headerLength = file.headerLength)
    (further : file.stop ≤ next.stop) (inside : next.stop ≤ content.length)
    (front : content.take file.stop = (directory.content file.path).take file.stop) :
    next.Present (directory.write file.path content) ∧
      file.Extends next directory (directory.write file.path content) := by
  have held := present.content_write content
  refine ⟨⟨?_, ?_⟩, path, headerLength, further, ?_⟩
  · rw [path, held]
    exact present.file?_write content
  · rw [path, held]
    exact inside
  · rw [path, held]
    exact front

/-- Writing at the place of the next record leaves the bytes in front of it as they are. -/
theorem overwrite_eq (present : file.Present directory) (bytes : Bytes) :
    ∃ more, overwrite (directory.content file.path) file.stop bytes =
        (directory.content file.path).take file.stop ++ more ∧
      file.stop + bytes.length ≤
        (overwrite (directory.content file.path) file.stop bytes).length := by
  have size : ((directory.content file.path).take file.stop).length ≤ file.stop :=
    List.length_take_le _ _
  obtain ⟨more, same, longer⟩ := overwrite_behind _ ((directory.content file.path).drop file.stop)
    bytes size (by rw [List.take_append_drop]; exact present.stop_le)
  rw [List.take_append_drop] at same
  exact ⟨more, same, same ▸ longer⟩

theorem take_overwrite (present : file.Present directory) (bytes : Bytes) :
    (overwrite (directory.content file.path) file.stop bytes).take file.stop =
      (directory.content file.path).take file.stop := by
  obtain ⟨more, same, _⟩ := present.overwrite_eq bytes
  rw [same]
  apply List.take_left'
  rw [List.length_take, Nat.min_eq_left present.stop_le]

theorem writeNext (present : file.Present directory) (bytes : Bytes) :
    (file.writeNext directory bytes).2.Present (file.writeNext directory bytes).1 ∧
      file.Extends (file.writeNext directory bytes).2 directory
        (file.writeNext directory bytes).1 := by
  obtain ⟨_, _, longer⟩ := present.overwrite_eq bytes
  exact present.rewritten rfl rfl (Nat.le_add_right _ _) longer (present.take_overwrite bytes)

/-- What is in a file when bytes could not be written: what is in front of the place of the next
record, and behind it nothing, or what has reached the file and was there before. -/
theorem content_failNext (present : file.Present directory) (bytes : Bytes) (fault : WriteFault) :
    (file.failNext directory bytes fault).content file.path =
      if fault.cut then (directory.content file.path).take file.stop
      else overwrite (directory.content file.path) file.stop (bytes.take fault.reached) := by
  obtain ⟨_, _, longer⟩ := present.overwrite_eq (bytes.take fault.reached)
  rw [DataFile.failNext, present.content_write]
  split
  · rw [resize, present.take_overwrite, Nat.sub_eq_zero_of_le (by omega), List.replicate_zero,
      List.append_nil]
  · rfl

/-- Bytes that could not be written leave those in front of them as they are. -/
theorem failNext (present : file.Present directory) (bytes : Bytes) (fault : WriteFault) :
    file.Present (file.failNext directory bytes fault) ∧
      file.Extends file directory (file.failNext directory bytes fault) := by
  have content := present.content_failNext bytes fault
  rw [DataFile.failNext, present.content_write] at content
  rw [DataFile.failNext, content]
  refine present.rewritten rfl rfl (Nat.le_refl _) ?_ ?_
  · split
    · rw [List.length_take, Nat.min_eq_left present.stop_le]
    · obtain ⟨_, _, longer⟩ := present.overwrite_eq (bytes.take fault.reached)
      omega
  · split
    · rw [List.take_take, Nat.min_self]
    · exact present.take_overwrite _

end Present

namespace Whole

/-- A whole file is there. -/
theorem present (whole : file.Whole directory records ends) : file.Present directory :=
  ⟨whole.file?_eq, whole.stop_le⟩

/-- A whole file is scanned to its end. -/
theorem scan_eq (whole : file.Whole directory records ends) :
    file.scan directory = ⟨records, .ok ends⟩ := by
  rw [scan]
  simp only [whole.scanned]

/-- In front of the place of the next record are the header and whole records, behind it pad
bytes. -/
theorem split (whole : file.Whole directory records ends) :
    ∃ front count, directory.content file.path = front ++ List.replicate count Log.padByte ∧
      front.length = file.stop ∧ file.headerLength ≤ front.length ∧
      Header.decode front = .ok (file.header, file.headerLength) ∧
      Spans file.header.version file.headerLength (front.drop file.headerLength) records file.stop
        [] := by
  obtain ⟨count, spans⟩ := Log.spans_of_scan whole.scanned
  obtain ⟨body, behind, place, spans⟩ := spans.front
  have long := (Header.decode_grow whole.decoded []).2
  have total := congrArg List.length behind
  rw [List.length_drop, List.length_append, List.length_replicate] at total
  have ends_le := whole.ends_le
  have stop_le := whole.stop_le
  let padding := file.stop - ends
  let front := (directory.content file.path).take file.headerLength ++
    (body ++ List.replicate padding Log.padByte)
  have head : ((directory.content file.path).take file.headerLength).length =
      file.headerLength := by
    rw [List.length_take, Nat.min_eq_left long]
  have content : directory.content file.path =
      front ++ List.replicate (count - padding) Log.padByte := by
    conv_lhs => rw [← List.take_append_drop file.headerLength (directory.content file.path)]
    rw [behind, List.append_assoc, List.append_assoc, List.replicate_append_replicate]
    congr 4
    omega
  have size : front.length = file.stop := by
    simp only [front, List.length_append, head, List.length_replicate, padding]
    omega
  have rest : front.drop file.headerLength = body ++ List.replicate padding Log.padByte := by
    conv_lhs => rw [← head]
    exact List.drop_left
  refine ⟨front, count - padding, content, size, by omega, ?_, ?_⟩
  · have decoded := whole.decoded
    rw [content] at decoded
    exact Header.decode_front decoded (by omega)
  · have padded : Spans file.header.version ends _ [] _ [] := Spans.padding ends padding []
    rw [List.append_nil, Nat.add_sub_cancel' ends_le] at padded
    have passed := (spans.extend (List.replicate padding Log.padByte)).trans padded
    rw [List.append_nil] at passed
    rw [rest]
    exact passed

theorem headerLength_le (whole : file.Whole directory records ends) :
    file.headerLength ≤ file.stop := by
  obtain ⟨front, _, _, size, long, _⟩ := whole.split
  exact size ▸ long

theorem clear (whole : file.Whole directory records ends) : file.Clear directory := by
  obtain ⟨front, count, content, size, _⟩ := whole.split
  exact ⟨whole.file?_eq, ⟨front, count, content, size⟩, whole.headerLength_le⟩

/-- What is written at the place of the next record is put in front of pad bytes, and the bytes in
front of it stay. -/
theorem content_writeNext (whole : file.Whole directory records ends) (bytes : Bytes) :
    ∃ front count, directory.content file.path = front ++ List.replicate count Log.padByte ∧
      (file.writeNext directory bytes).1.file? file.path =
        some (front ++ (bytes ++ List.replicate (count - bytes.length) Log.padByte)) ∧
      front.length = file.stop ∧ file.headerLength ≤ front.length ∧
      Header.decode front = .ok (file.header, file.headerLength) ∧
      Spans file.header.version file.headerLength (front.drop file.headerLength) records file.stop
        [] := by
  obtain ⟨front, count, content, size, rest⟩ := whole.split
  exact ⟨front, count, content, file?_writeNext whole.file?_eq content size bytes, size, rest⟩

/-- A record that is written at its place is the next one, and the file ends with it. -/
theorem writeNext (whole : file.Whole directory records ends) {record : StoredRecord}
    (fits : record.Fits file.header.version) :
    (file.writeNext directory record.bytes).2.Whole (file.writeNext directory record.bytes).1
      (records ++ [record.placed file.stop]) (file.stop + record.bytes.length) := by
  obtain ⟨front, _, _, found, size, long, decoded, spans⟩ :=
    whole.content_writeNext record.bytes
  have held := Directory.content_of_file? found
  refine ⟨held.symm ▸ found, ?_, ?_, Nat.le_refl _, ?_⟩
  · change Header.decode ((file.writeNext directory record.bytes).1.content file.path) = _
    rw [held]
    exact (Header.decode_grow decoded _).1
  · change Log.scan file.header.version file.headerLength
      (((file.writeNext directory record.bytes).1.content file.path).drop file.headerLength) = _
    rw [held, List.drop_append_of_le_length long]
    exact spans.scanFrom_written fits _ _
  · change file.stop + record.bytes.length ≤
      ((file.writeNext directory record.bytes).1.content file.path).length
    rw [held, List.length_append, List.length_append]
    omega

/-- Writing leaves the payloads of the file as they are. -/
theorem extends_writeNext (whole : file.Whole directory records ends) (bytes : Bytes) :
    file.Extends (file.writeNext directory bytes).2 directory
      (file.writeNext directory bytes).1 :=
  whole.clear.extends_writeNext bytes

/-- A record that is read back from where it is written stands for what was written. -/
theorem ofRecord_writeNext (whole : file.Whole directory records ends) {record : StoredRecord}
    (fits : record.Fits file.header.version) :
    LogEntry.ofRecord (file.writeNext directory record.bytes).1 file.path
      (record.placed file.stop) = LogEntry.ofStored record := by
  obtain ⟨front, _, _, found, size, _⟩ := whole.content_writeNext record.bytes
  rw [← size]
  exact LogEntry.ofRecord_placed fits (Directory.content_of_file? found)

/-- The file opens again with its records, and then ends with the last of them. -/
theorem recover_eq (whole : file.Whole directory records ends) {taken : Slots}
    (recovered : Recovered taken records) (sync readOnly repair : Bool) :
    ∃ fresh, openAt directory file.path sync readOnly = .ok fresh ∧
      fresh.recover directory .empty repair =
        ⟨taken.settle.2, directory, { file with stop := ends, sync, readOnly },
          .ok ⟨records.length, (records.map fun record => record.atoms.length).sum, ends⟩⟩ := by
  let fresh : DataFile :=
    { file with stop := (directory.content file.path).length, sync, readOnly }
  have found : fresh.scan directory = ⟨records, .ok ends⟩ := by
    rw [scan]
    simp only [fresh, whole.scanned]
  exact ⟨fresh, openAt_of_file? whole.file?_eq whole.decoded sync readOnly,
    recover_of_replay (replay_eq_of_recovered recovered found)⟩

/-- A whole file is opened and replayed again to the same table. -/
theorem recover_again (whole : file.Whole directory records ends) {taken : Slots}
    (recovered : Recovered taken records) (sync readOnly repair : Bool) :
    ∃ fresh summary, openAt directory file.path sync readOnly = .ok fresh ∧
      fresh.recover directory .empty repair =
        ⟨taken.settle.2, directory, { file with stop := ends, sync, readOnly }, .ok summary⟩ := by
  obtain ⟨fresh, opened, recovery⟩ := whole.recover_eq recovered sync readOnly repair
  exact ⟨fresh, _, opened, recovery⟩

/-- A file whose next record goes right behind the last one, under any switches. -/
theorem settled (whole : file.Whole directory records ends) (sync readOnly : Bool) :
    Whole { file with stop := ends, sync, readOnly } directory records ends :=
  ⟨whole.file?_eq, whole.decoded, whole.scanned, Nat.le_refl _,
    Nat.le_trans whole.ends_le whole.stop_le⟩

end Whole

/-- A file that has just been created is whole. -/
theorem whole_create {path : String} {storeId : StoreId} {version : Nat} {metadata : Metadata}
    {sync : Bool} {next : Directory}
    (created : create directory path storeId version metadata sync = .ok (next, file)) :
    file.Whole next [] file.stop := by
  obtain ⟨start, laid⟩ := laid_create created
  have content : next.content file.path = start := by
    rw [laid.content_eq, List.flatMap_nil, List.replicate_zero, List.append_nil, List.append_nil]
  have stop : file.stop = start.length := by
    rw [laid.stop_eq, laid.headerLength_eq]
    rfl
  refine ⟨?_, ?_, ?_, Nat.le_refl _, ?_⟩
  · rw [laid.file?_eq, laid.content_eq]
  · have decoded := Header.decode_encode laid.encoded []
    rw [List.append_nil] at decoded
    rw [content, laid.headerLength_eq]
    exact decoded
  · rw [content, laid.headerLength_eq, List.drop_length, Log.scan, Log.scanFrom_nil, stop]
  · rw [content, stop]

/-- A scan that does not report a torn record has met nothing but the records. -/
theorem scan_of_ok {stop : Nat} (ended : (file.scan directory).outcome = .ok stop) :
    Log.scan file.header.version file.headerLength
      ((directory.content file.path).drop file.headerLength) =
        ⟨(file.scan directory).records, .ok stop⟩ := by
  rw [← ended]
  unfold scan at ended ⊢
  simp only at ended ⊢
  split at ended
  · split at ended
    · cases ended
    · rfl
  · rfl

/-- The records of a scan end inside the bytes that are scanned. -/
theorem ends_le_of_scan {version : Log.Version} {bytes : Bytes} {position : Nat}
    (scanned : Log.scan version position bytes = ⟨records, .ok ends⟩) :
    ends ≤ position + bytes.length := by
  obtain ⟨_, spans⟩ := Log.spans_of_scan scanned
  obtain ⟨front, split, place, _⟩ := spans.front
  rw [place, split, List.length_append]
  omega

/-- A file that has been opened and whose scan comes to an end holds the records of the scan. -/
theorem whole_opened {fresh : DataFile} {path : String} {sync readOnly : Bool}
    (opened : openAt directory path sync readOnly = .ok fresh)
    (ended : (fresh.scan directory).outcome = .ok ends) :
    Whole { fresh with stop := ends } directory (fresh.scan directory).records ends := by
  obtain ⟨content, found, held, decoded, path, _⟩ := openAt_eq_ok opened
  have present : directory.file? fresh.path = some content := path ▸ found
  have scanned := scan_of_ok ended
  have within := ends_le_of_scan scanned
  rw [List.length_drop, held, Nat.add_sub_cancel' (Header.decode_grow decoded []).2] at within
  refine ⟨?_, ?_, scanned, Nat.le_refl _, ?_⟩
  · exact held.symm ▸ present
  · exact held.symm ▸ decoded
  · exact held.symm ▸ within

/-- A file from which a torn record has been cut off holds the records in front of it. -/
theorem TornAt.whole_cut {content : Bytes} {offset : Nat}
    (torn : TornAt content file.header file.headerLength records offset)
    (left : directory.file? file.path = some (content.take offset)) :
    ∃ ends, Whole { file with stop := offset } directory records ends := by
  obtain ⟨above, below, _⟩ := torn.front
  obtain ⟨decoded, ends, scanned⟩ := torn.scan_cut
  have kept := Directory.content_of_file? left
  have within := ends_le_of_scan scanned
  rw [List.length_drop, List.length_take, Nat.min_eq_left (Nat.le_of_lt below),
    Nat.add_sub_cancel' above] at within
  refine ⟨ends, kept.symm ▸ left, kept.symm ▸ decoded, kept.symm ▸ scanned, within, ?_⟩
  change offset ≤ (Directory.content _ file.path).length
  rw [kept, List.length_take, Nat.min_eq_left (Nat.le_of_lt below)]

/-- A file that has been opened and replayed, or repaired, holds the records that were replayed. -/
theorem whole_recover {fresh : DataFile} {path : String} {sync readOnly repair : Bool}
    {summary : Log.Summary}
    (opened : openAt directory path sync readOnly = .ok fresh)
    (recovered : (fresh.recover directory .empty repair).outcome = .ok summary) :
    ∃ records ends taken,
      (fresh.recover directory .empty repair).file.Whole
        (fresh.recover directory .empty repair).directory records ends ∧
      Recovered taken records ∧
      (fresh.recover directory .empty repair).slots = taken.settle.2 := by
  obtain ⟨content, found, held, decoded, path, _⟩ := openAt_eq_ok opened
  have present : directory.file? fresh.path = some content := path ▸ found
  obtain ⟨taken, count, atoms, stop, fed, ended, done⟩ |
      ⟨taken, count, atoms, offset, cut, shorter, fed, ended, _, writable, truncated, done⟩ |
      ⟨error, failed, _⟩ := fresh.recover_cases directory .empty repair
  · rw [done]
    exact ⟨_, stop, taken, whole_opened opened ended, Recovered.of_feed .nothing fed, rfl⟩
  · have torn := tornAt_of_scan (held.symm ▸ decoded) ended
    rw [held] at torn
    obtain ⟨_, left, rfl⟩ := torn.of_truncate present truncated
    obtain ⟨ends, whole⟩ := torn.whole_cut left
    rw [done]
    exact ⟨_, ends, taken, whole, Recovered.of_feed .nothing fed, rfl⟩
  · rw [failed] at recovered
    cases recovered

end DataFile
end AtomStore
