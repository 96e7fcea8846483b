import AtomStore.Proofs.Log.HeaderRoundTrip
import AtomStore.Proofs.Log.Spans
import AtomStore.Proofs.Store.Journal

/-!
# Repairs

Whatever bytes are in its data file, opening a store leaves them as they are, or cuts off a torn
record where that is asked for and allowed. In front of the cut are only whole records and pad
bytes, and the store holds just the atoms of these records. Behind it no whole record begins. After
a repair the store opens again to the same slots, and nothing more is cut off.
-/

namespace AtomStore

open Log (Header Intact Record Spans)

namespace DataFile

/-- A data file whose last record is torn: a header and whole records reach up to an offset, the
record that begins there runs out of bytes, and no whole record begins behind that. -/
structure TornAt (content : Bytes) (header : Header) (headerLength : Nat) (records : List Record)
    (offset : Nat) : Prop where
  decoded : Header.decode content = .ok (header, headerLength)
  whole : Spans header.version headerLength (content.drop headerLength) records offset
    (content.drop offset)
  torn : ∃ rest, content.drop offset = Log.recordMark :: rest ∧
    (Log.Reader.behindMark rest offset).record header.version offset = .error .ended
  alone : ∀ place, offset < place → ¬ Intact header.version place (content.drop place)

variable {file : DataFile} {directory : Directory} {content : Bytes} {header : Header}
  {headerLength offset : Nat} {records : List Record}

/-- A file that is found to be truncated has no whole record behind that place. -/
theorem scan_of_truncated (ended : (file.scan directory).outcome = .error (.truncated offset)) :
    file.scan directory = Log.scan file.header.version file.headerLength
        ((directory.content file.path).drop file.headerLength) ∧
      Log.wholeRecord? file.header.version (offset + 1)
        ((directory.content file.path).drop (offset + 1)) = none := by
  unfold scan at ended ⊢
  simp only at ended ⊢
  split at ended
  · rename_i other stopped
    split at ended
    · cases ended
    · rename_i alone
      rw [stopped] at ended
      cases ended
      simp only [alone]
      exact ⟨trivial, trivial⟩
  · rename_i unlike
    exact absurd ended (unlike offset)

/-- A scan that reports a torn record has found one. -/
theorem tornAt_of_scan
    (decoded : Header.decode (directory.content file.path) = .ok (file.header, file.headerLength))
    (ended : (file.scan directory).outcome = .error (.truncated offset)) :
    TornAt (directory.content file.path) file.header file.headerLength
      (file.scan directory).records offset := by
  obtain ⟨scanned, alone⟩ := scan_of_truncated ended
  rw [scanned] at ended ⊢
  obtain ⟨rest, spans, torn⟩ := Log.spans_of_truncated ended
  have behind : (directory.content file.path).drop offset = Log.recordMark :: rest := by
    obtain ⟨front, split, rfl, _⟩ := spans.front
    rw [← List.drop_drop, split, List.drop_left]
  refine ⟨decoded, behind ▸ spans, ⟨rest, behind, torn⟩, fun place later intact => ?_⟩
  apply Log.wholeRecord?_eq_none_iff.mp alone place
  rw [Log.holdsRecord_iff_intact, List.drop_drop, Nat.add_sub_cancel' later]
  exact ⟨later, intact⟩

namespace TornAt

/-- What is in front of a torn record is the header and whole records. -/
theorem front (torn : TornAt content header headerLength records offset) :
    headerLength ≤ offset ∧ offset < content.length ∧
      Spans header.version headerLength ((content.take offset).drop headerLength) records offset
        [] := by
  obtain ⟨front, split, ends, spans⟩ := torn.whole.front
  have kept : (content.take offset).drop headerLength = front := by
    rw [List.drop_take, split, ends, Nat.add_sub_cancel_left, List.take_left]
  refine ⟨Nat.le.intro ends.symm, ?_, kept ▸ spans⟩
  obtain ⟨rest, behind, _⟩ := torn.torn
  apply Nat.lt_of_not_le
  intro past
  rw [List.drop_eq_nil_of_le past] at behind
  cases behind

/-- The records in front of a torn one are whole. -/
theorem intact (torn : TornAt content header headerLength records offset) :
    ∀ record ∈ records, record.offset < offset ∧
      Intact header.version record.offset (content.drop record.offset) := by
  intro record member
  obtain ⟨above, below, intact⟩ := torn.whole.intact record member
  rw [List.drop_drop, Nat.add_sub_cancel' above] at intact
  exact ⟨below, intact⟩

/-- A file cut off at a torn record has the same header, and a scan of it finds the same records and
comes to its end. -/
theorem scan_cut (torn : TornAt content header headerLength records offset) :
    Header.decode (content.take offset) = .ok (header, headerLength) ∧
      ∃ stop, Log.scan header.version headerLength ((content.take offset).drop headerLength) =
        ⟨records, .ok stop⟩ := by
  obtain ⟨above, below, spans⟩ := torn.front
  refine ⟨?_, spans.scanFrom_eq headerLength⟩
  have decoded := torn.decoded
  rw [← List.take_append_drop offset content] at decoded
  apply Header.decode_front decoded
  rw [List.length_take]
  omega

/-- Cutting a torn record off leaves the bytes in front of it. -/
theorem of_truncate (torn : TornAt content file.header file.headerLength records offset)
    {cut : Directory} {shorter : DataFile}
    (found : directory.file? file.path = some content)
    (truncated : file.truncate directory offset = .ok (cut, shorter)) :
    cut = directory.write file.path (content.take offset) ∧
      cut.file? file.path = some (content.take offset) ∧
      shorter = { file with stop := offset } := by
  obtain ⟨_, below, _⟩ := torn.front
  obtain ⟨name, leads⟩ := Directory.place_of_file? found
  unfold truncate at truncated
  split at truncated
  · cases truncated
  · split at truncated
    · cases truncated
    · cases truncated
      have kept : resize (directory.content file.path) offset = content.take offset := by
        rw [Directory.content_of_file? found, resize, Nat.sub_eq_zero_of_le (Nat.le_of_lt below),
          List.replicate_zero, List.append_nil]
      rw [kept]
      exact ⟨rfl, Directory.file?_write _ leads, rfl⟩

end TornAt

/-- A file whose scan comes to its end is recovered without a change to the directory. -/
theorem recover_of_scan {taken : Slots} {repair : Bool} {stop : Nat}
    (recovered : Recovered taken records)
    (scanned : Log.scan file.header.version file.headerLength
      ((directory.content file.path).drop file.headerLength) = ⟨records, .ok stop⟩) :
    ∃ summary, file.recover directory .empty repair =
      ⟨taken.settle.2, directory, { file with stop }, .ok summary⟩ := by
  have found : file.scan directory = ⟨records, .ok stop⟩ := by
    rw [scan]
    simp only [scanned]
  exact ⟨_, recover_of_replay (replay_eq_of_recovered recovered found)⟩

/-- A file with a header that is decoded is opened, with its end as append position. -/
theorem openAt_of_file? {path : String} (found : directory.file? path = some content)
    (decoded : Header.decode content = .ok (header, headerLength)) (sync readOnly : Bool) :
    openAt directory path sync readOnly =
      .ok ⟨path, header, headerLength, content.length, sync, readOnly⟩ := by
  rw [openAt, found]
  simp only [decoded, Except.map]

/-- A file that is opened is there and has a header that is decoded. -/
theorem openAt_eq_ok {path : String} {sync readOnly : Bool}
    (opened : openAt directory path sync readOnly = .ok file) :
    ∃ content, directory.file? path = some content ∧ directory.content file.path = content ∧
      Header.decode content = .ok (file.header, file.headerLength) ∧
      file.path = path ∧ file.readOnly = readOnly := by
  unfold openAt at opened
  split at opened
  · rename_i content found
    cases decoded : Header.decode content with
    | error error =>
      rw [decoded] at opened
      cases opened
    | ok header =>
      rw [decoded] at opened
      cases opened
      exact ⟨content, found, Directory.content_of_file? found, decoded, rfl, rfl⟩
  · cases opened

end DataFile

namespace Store

/-- What opening a store has done when it has cut a torn record off its data file: nothing else in
the directory is changed, and the records in front of the cut, all of them whole, are what the store
was recovered from. -/
structure Repaired (host : Host) (settings : Settings) (content : Bytes) (header : Header)
    (records : List Record) (offset : Nat) (after : Host) (store : Store) : Prop where
  asked : settings.repairTornTail = true
  writable : settings.readOnly = false
  found : host.directory.file? settings.path = some content
  torn : ∃ headerLength, DataFile.TornAt content header headerLength records offset
  intact : ∀ record ∈ records, record.offset < offset ∧
    Intact header.version record.offset (content.drop record.offset)
  cut : after.directory = host.directory.write settings.path (content.take offset)
  left : after.directory.file? settings.path = some (content.take offset)
  replayed : ∃ taken, Recovered taken records ∧ store.state.slots = taken.settle.2

variable {host : Host} {settings : Settings} {content : Bytes} {header : Header}
  {records : List Record} {offset : Nat} {after : Host} {store : Store}

/-- A repaired store opens again, with repair or without, to the same slots, and its file stays as
the repair has left it. -/
theorem Repaired.openFile_again
    (repaired : Repaired host settings content header records offset after store) {next : Host}
    {again : Settings} (same : next.directory = after.directory)
    (path : again.path = settings.path) :
    ∃ later reopened, openFile next again = (later, .ok reopened) ∧
      later.directory = next.directory ∧ reopened.state.slots = store.state.slots := by
  obtain ⟨headerLength, torn⟩ := repaired.torn
  obtain ⟨taken, recovered, slots⟩ := repaired.replayed
  obtain ⟨decoded, stop, scanned⟩ := torn.scan_cut
  have found : next.directory.file? again.path = some (content.take offset) := by
    rw [same, path]
    exact repaired.left
  let fresh : DataFile := ⟨again.path, header, headerLength, (content.take offset).length,
    again.sync, again.readOnly⟩
  have opened : DataFile.openAt next.directory again.path again.sync again.readOnly = .ok fresh :=
    DataFile.openAt_of_file? found decoded _ _
  rw [← Directory.content_of_file? found] at scanned
  obtain ⟨summary, recovery⟩ := @DataFile.recover_of_scan fresh next.directory _ _
    again.repairTornTail _ recovered scanned
  obtain ⟨later, reopened, done, kept, held, _⟩ := openFile_eq_ok again opened recovery
  exact ⟨later, reopened, done, kept, held.trans slots.symm⟩

/-- Opening a store leaves the directory as it is, or cuts a torn record off the data file. -/
theorem openFile_unchanged_or_repaired (host : Host) (settings : Settings) :
    match openFile host settings with
    | (after, .error _) => after.directory = host.directory
    | (after, .ok store) => after.directory = host.directory ∨
        ∃ content header records offset,
          Repaired host settings content header records offset after store ∧
            ∀ (next : Host) (again : Settings), next.directory = after.directory →
              again.path = settings.path →
                ∃ later reopened, openFile next again = (later, .ok reopened) ∧
                  later.directory = next.directory ∧
                  reopened.state.slots = store.state.slots := by
  cases opened : DataFile.openAt host.directory settings.path settings.sync settings.readOnly with
  | error error => simp only [openFile, opened]
  | ok file =>
    obtain ⟨content, found, held, decoded, path, readOnly⟩ := DataFile.openAt_eq_ok opened
    rcases file.recover_cases host.directory .empty settings.repairTornTail with
      ⟨taken, count, atoms, stop, _, _, recovered⟩ |
      ⟨taken, count, atoms, offset, cut, shorter, fed, ended, asked, writable, truncated,
        recovered⟩ | ⟨error, failed, kept⟩
    · obtain ⟨after, store, done, kept, _⟩ := openFile_eq_ok settings opened recovered
      rw [done]
      exact .inl kept
    · obtain ⟨after, store, done, directory, slots, _⟩ := openFile_eq_ok settings opened recovered
      rw [done]
      have torn := DataFile.tornAt_of_scan (held.symm ▸ decoded) ended
      rw [held] at torn
      obtain ⟨above, below, _⟩ := torn.front
      have written : cut = host.directory.write settings.path (content.take offset) := by
        rw [DataFile.truncate, if_neg (by rw [writable]; exact Bool.false_ne_true),
          if_neg (Nat.not_lt.mpr above)] at truncated
        cases truncated
        rw [held, path, resize, Nat.sub_eq_zero_of_le (Nat.le_of_lt below), List.replicate_zero,
          List.append_nil]
      obtain ⟨name, leads⟩ := Directory.place_of_file? found
      have repaired : Repaired host settings content file.header
          (file.scan host.directory).records offset after store := {
        asked := asked
        writable := readOnly ▸ writable
        found := found
        torn := ⟨file.headerLength, torn⟩
        intact := torn.intact
        cut := directory.trans written
        left := by
          rw [directory, written]
          exact Directory.file?_write _ leads
        replayed := ⟨taken, Recovered.of_feed .nothing fed, slots⟩ }
      exact .inr ⟨_, _, _, _, repaired, fun _ _ same path => repaired.openFile_again same path⟩
    · simp only [openFile, opened, Host.newState, State.new, failed]
      exact kept

end Store
end AtomStore
