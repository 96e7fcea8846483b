import AtomStore.Proofs.Log.Torn
import AtomStore.Proofs.Store.Journal

/-!
# Cut data files

A crash may leave only the first bytes of a data file. Opening such a file with repair gives the
commits whose records are there as a whole, and cuts a torn record off. The one exception is a torn
record whose later bytes hold a whole record, as those of a committed value can: the file then
counts as damaged and stays as it is.
-/

namespace AtomStore

open Log (Chunk StoredRecord)

/-- The commits whose records end within a length. -/
def commitsWithin (length : Nat) (commits : List WrittenCommit) : List WrittenCommit :=
  commits.filter (·.stop ≤ length)

/-- The end of the last of some commits, of which the first starts at a position. -/
def lastStop (position : Nat) (commits : List WrittenCommit) : Nat :=
  (commits.getLast?.map (·.stop)).getD position

namespace Logged

variable {position : Nat} {records : List StoredRecord} {commits : List WrittenCommit}

/-- Every commit that was logged ends behind the place where the log begins. -/
theorem le_stop (logged : Logged position records commits) {commit : WrittenCommit}
    (member : commit ∈ commits) : position ≤ commit.stop := by
  induction records generalizing position commits with
  | nil =>
    cases commits with
    | nil => cases member
    | cons => cases logged
  | cons record rest ih =>
    cases commits with
    | nil => cases member
    | cons head others =>
      obtain ⟨⟨_, _, stop⟩, later⟩ := logged
      rcases List.mem_cons.mp member with rfl | among
      · omega
      · exact Nat.le_of_add_right_le (ih later among)

/-- The last commit that was logged ends where the records do. -/
theorem lastStop_eq (logged : Logged position records commits) :
    lastStop position commits = position + (records.flatMap StoredRecord.bytes).length := by
  induction records generalizing position commits with
  | nil =>
    cases commits with
    | nil => rfl
    | cons => cases logged
  | cons record rest ih =>
    cases commits with
    | nil => cases logged
    | cons head others =>
      obtain ⟨⟨_, _, stop⟩, later⟩ := logged
      have ends : lastStop position (head :: others) = lastStop head.stop others := by
        rw [lastStop, lastStop, List.getLast?_cons, Option.map_some, Option.getD_some]
        cases others.getLast? <;> rfl
      rw [ends, stop, ih later, List.flatMap_cons, List.length_append, Nat.add_assoc]

/-- Records cut at any length are those of the commits within it, with nothing or a torn record
behind them. -/
theorem cut (logged : Logged position records commits) {length : Nat} (above : position ≤ length)
    (below : length ≤ position + (records.flatMap StoredRecord.bytes).length) :
    ∃ count fragment, (records.flatMap StoredRecord.bytes).take (length - position) =
        (records.take count).flatMap StoredRecord.bytes ++ fragment ∧
      Logged position (records.take count) (commitsWithin length commits) ∧
      (fragment = [] ∨ ∃ record ∈ records, record.Torn fragment) := by
  induction records generalizing position commits with
  | nil =>
    cases commits with
    | nil => exact ⟨0, [], List.take_nil, trivial, .inl rfl⟩
    | cons => cases logged
  | cons record rest ih =>
    cases commits with
    | nil => cases logged
    | cons head others =>
      obtain ⟨⟨ucn, atoms, stop⟩, later⟩ := logged
      rw [List.flatMap_cons, List.length_append] at below
      -- the first record is whole and the cut is in the others, or the cut is in the first record
      by_cases within : head.stop ≤ length
      · obtain ⟨count, fragment, taken, kept, torn⟩ := ih later (by omega) (by omega)
        refine ⟨count + 1, fragment, ?_, ?_, ?_⟩
        · have behind : length - position - record.bytes.length =
              length - (position + record.bytes.length) := by omega
          rw [List.flatMap_cons, List.take_append, List.take_of_length_le (by omega), behind, taken,
            List.take_succ_cons, List.flatMap_cons, List.append_assoc]
        · have inside : commitsWithin length (head :: others) =
              head :: commitsWithin length others :=
            List.filter_cons_of_pos (decide_eq_true within)
          rw [inside]
          exact ⟨⟨ucn, atoms, stop⟩, kept⟩
        · apply torn.imp_right
          intro given
          obtain ⟨found, among, cut⟩ := given
          exact ⟨found, List.mem_cons_of_mem _ among, cut⟩
      · have outside : commitsWithin length (head :: others) = [] := by
          apply List.filter_eq_nil_iff.mpr
          intro commit member inside
          have ends := of_decide_eq_true inside
          rcases List.mem_cons.mp member with rfl | among
          · exact within ends
          · have behind := later.le_stop among
            omega
        refine ⟨0, record.bytes.take (length - position), ?_, ?_, ?_⟩
        · rw [List.flatMap_cons, List.take_append_of_le_length (by omega)]
          rfl
        · rw [outside]
          trivial
        · by_cases nothing : length = position
          · rw [nothing, Nat.sub_self, List.take_zero]
            exact .inl rfl
          · refine .inr ⟨record, List.mem_cons_self, ?_, record.bytes.drop (length - position), ?_,
              (List.take_append_drop ..).symm⟩
            · rw [← List.length_pos_iff_ne_nil, List.length_take]
              omega
            · rw [← List.length_pos_iff_ne_nil, List.length_drop]
              omega

end Logged

section

variable {position : Nat} {records : List StoredRecord} {commits : List WrittenCommit}
  {taken : Slots}

end

namespace DataFile

variable {file : DataFile} {directory : Directory} {start fragment : Bytes}
  {records : List StoredRecord} {taken : Slots}

/-- How a scan ends at what is behind the last whole record. A torn record counts as damaged when a
whole record is inside it. -/
def endAt (version : Log.Version) (stop : Nat) (fragment : Bytes) : Except LogError Nat :=
  if fragment = [] then .ok stop
  else
    match Log.wholeRecord? version (stop + 1) fragment.tail with
    | some next => .error (.corrupt stop (.overrunsRecord next))
    | none => .error (.truncated stop)

/-- A file with a fragment behind its records is scanned up to the fragment. -/
theorem scan_torn (headerLength : file.headerLength = start.length)
    (content : directory.content file.path =
      start ++ (records.flatMap StoredRecord.bytes ++ fragment))
    (fitting : Log.Fitting file.header.version (records.map .record))
    (torn : fragment = [] ∨
      ∃ record : StoredRecord, record.Fits file.header.version ∧ record.Torn fragment)
    {stop : Nat} (ends : stop = file.headerLength + (records.flatMap StoredRecord.bytes).length) :
    file.scan directory = ⟨Log.placedRecords file.headerLength (records.map .record),
      endAt file.header.version stop fragment⟩ := by
  have body : (directory.content file.path).drop file.headerLength =
      records.flatMap StoredRecord.bytes ++ fragment := by
    rw [content, headerLength, List.drop_left]
  have behind : (directory.content file.path).drop (stop + 1) = fragment.tail := by
    rw [ends, Nat.add_assoc, ← List.drop_drop, body, ← List.drop_drop, List.drop_left,
      List.drop_one]
  rw [scan, endAt]
  simp only [body, Log.scan_torn fitting torn, ← ends]
  by_cases nothing : fragment = []
  · simp only [nothing, ↓reduceIte]
  · simp only [nothing, ↓reduceIte, behind]
    cases Log.wholeRecord? file.header.version (stop + 1) fragment.tail <;> rfl

/-- The file as it is when it is opened with some settings, before its records are read. -/
def unread (file : DataFile) (settings : Settings) (length : Nat) : DataFile :=
  { file with
    path := settings.path, stop := length, sync := settings.sync, readOnly := settings.readOnly }

end DataFile

namespace Session

/-- What is left of a data file after a cut: its header, whole records, and nothing or a torn
record. -/
structure Remains (file : DataFile) (commits : List WrittenCommit) (content : Bytes)
    (start : Bytes) (records : List StoredRecord) (fragment : Bytes) (taken : Slots) : Prop where
  encoded : file.header.encode = .ok start
  headerLength_eq : file.headerLength = start.length
  content_eq : content = start ++ (records.flatMap StoredRecord.bytes ++ fragment)
  logged : Logged file.headerLength records commits
  recovered : Recovered taken (Log.placedRecords file.headerLength (records.map .record))
  fitting : Log.Fitting file.header.version (records.map .record)
  torn : fragment = [] ∨
    ∃ record : StoredRecord, record.Fits file.header.version ∧ record.Torn fragment

/-- A cut behind the header leaves the commits that end within the length. -/
theorem Journal.remains {session : Session} {commits : List WrittenCommit} {file : DataFile}
    {start : Bytes} {records : List StoredRecord} {taken : Slots}
    (journal : session.Journal commits file start records taken) {length : Nat}
    (above : file.headerLength ≤ length)
    (below : length ≤ (session.host.directory.content file.path).length) :
    ∃ kept fragment earlier, Remains file (commitsWithin length commits)
      ((session.host.directory.content file.path).take length) start kept fragment earlier := by
  have content : session.host.directory.content file.path =
      start ++ records.flatMap StoredRecord.bytes := by
    rw [journal.laid.content_eq, Log.flatMap_bytes_map_record, List.replicate_zero, List.append_nil]
  have header := journal.laid.headerLength_eq
  rw [content, List.length_append, ← header] at below
  obtain ⟨count, fragment, cut, logged, torn⟩ := journal.logged.cut above below
  obtain ⟨earlier, recovered⟩ := journal.recovered.take count
  have fits := Log.fitting_map_record.mp journal.laid.fitting
  refine ⟨records.take count, fragment, earlier, journal.laid.encoded, header, ?_, logged, ?_, ?_,
    ?_⟩
  · rw [content, List.take_append, List.take_of_length_le (by omega), ← header, cut]
  · rw [← Log.take_placedRecords]
    exact recovered
  · apply Log.fitting_map_record.mpr
    intro record member
    exact fits record (List.mem_of_mem_take member)
  · apply torn.imp_right
    intro given
    obtain ⟨record, member, cut⟩ := given
    exact ⟨record, fits record member, cut⟩

namespace Remains

variable {file : DataFile} {commits : List WrittenCommit} {content start fragment : Bytes}
  {records : List StoredRecord} {taken : Slots} {host : Host} {settings : Settings}

/-- The last commit that remains ends in front of the fragment. -/
theorem stop_eq (remains : Remains file commits content start records fragment taken) :
    lastStop file.headerLength commits = (start ++ records.flatMap StoredRecord.bytes).length := by
  rw [remains.logged.lastStop_eq, List.length_append, remains.headerLength_eq]

/-- What remains of a file are its commits and the fragment. -/
theorem length_eq (remains : Remains file commits content start records fragment taken) :
    content.length = lastStop file.headerLength commits + fragment.length := by
  rw [remains.content_eq, ← List.append_assoc, List.length_append, remains.stop_eq]

/-- What remains of a file opens, unread. -/
theorem openAt_eq (remains : Remains file commits content start records fragment taken)
    (found : host.directory.file? settings.path = some content) :
    DataFile.openAt host.directory settings.path settings.sync settings.readOnly =
      .ok (file.unread settings content.length) := by
  have read : Log.Header.decode content = .ok (file.header, file.headerLength) := by
    rw [remains.content_eq, Log.Header.decode_encode remains.encoded, remains.headerLength_eq]
  rw [DataFile.openAt, found]
  simp only [read, Except.map]
  rfl

/-- A replay takes in the whole records and ends by what is behind them. -/
theorem replay_of_found (remains : Remains file commits content start records fragment taken)
    (found : host.directory.file? settings.path = some content) :
    ∃ count atoms, (file.unread settings content.length).replay host.directory Slots.takeRecord
      .empty = (taken, count, atoms,
        (DataFile.endAt file.header.version (lastStop file.headerLength commits) fragment).map
          fun stop =>
            (⟨count, atoms, stop⟩, { file.unread settings content.length with stop })) := by
  have read : host.directory.content settings.path = content := Directory.content_of_file? found
  have header : (file.unread settings content.length).headerLength = start.length :=
    remains.headerLength_eq
  have scanned := DataFile.scan_torn header (read.trans remains.content_eq) remains.fitting
    remains.torn remains.logged.lastStop_eq
  exact ⟨_, _, DataFile.replay_eq_of_recovered remains.recovered scanned⟩

/-- Remains with no whole record inside what is torn open, and a torn record is cut off. -/
theorem openFile_eq_ok (remains : Remains file commits content start records fragment taken)
    (found : host.directory.file? settings.path = some content)
    (repair : settings.repairTornTail = true)
    (free : ∀ place, ¬ Log.HoldsRecord file.header.version
      (lastStop file.headerLength commits + 1) fragment.tail place)
    (writable : settings.readOnly = false ∨ fragment = []) :
    ∃ after store, Store.openFile host settings = (after, .ok store) ∧
      store.state.slots = taken.settle.2 ∧
      after.directory.file? settings.path =
        some (content.take (lastStop file.headerLength commits)) := by
  obtain ⟨count, atoms, replayed⟩ := remains.replay_of_found found
  rw [DataFile.endAt, Log.wholeRecord?_eq_none_iff.mpr free] at replayed
  by_cases whole : fragment = []
  · rw [if_pos whole] at replayed
    obtain ⟨after, store, opened, directory, slots, _⟩ := Store.openFile_eq_ok settings
      (remains.openAt_eq found) (DataFile.recover_of_replay replayed)
    refine ⟨after, store, opened, slots, ?_⟩
    have all := remains.length_eq
    rw [whole, List.length_nil, Nat.add_zero] at all
    rw [directory, found, ← all, List.take_length]
  · rw [if_neg whole] at replayed
    have behind : file.headerLength ≤ lastStop file.headerLength commits := by
      rw [remains.logged.lastStop_eq]
      exact Nat.le_add_right ..
    have recovered := DataFile.recover_of_truncated replayed behind (writable.resolve_right whole)
    rw [← repair] at recovered
    obtain ⟨after, store, opened, directory, slots, _⟩ := Store.openFile_eq_ok settings
      (remains.openAt_eq found) recovered
    refine ⟨after, store, opened, slots, ?_⟩
    obtain ⟨name, leads⟩ := Directory.place_of_file? found
    have short := remains.length_eq
    rw [directory]
    simp only [DataFile.unread]
    rw [Directory.file?_write _ leads, Directory.content_of_file? found, resize,
      Nat.sub_eq_zero_of_le (by omega), List.replicate_zero, List.append_nil]

end Remains

variable {session : Session} {commits : List WrittenCommit}

/-- A record without atoms, and one that holds its bytes as a value. -/
def bare : StoredRecord := ⟨1, [], Nat.one_pos⟩

end Session
end AtomStore
