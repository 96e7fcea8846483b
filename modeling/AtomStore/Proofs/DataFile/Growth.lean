import AtomStore.Proofs.DataFile.Buffer
import AtomStore.Proofs.DataFile.History
import AtomStore.Proofs.Store.WholeFile

/-!
# Growing data files

A file that was created, or opened and replayed, grows by commits and pad bytes. Whatever is
appended to it, the bytes in front of the place of the next record stay as they are. As long as the
commits can be read back the file holds whole records. The first commit that cannot ends every
later replay: its UCN is zero, or one of its values is too long.
-/

namespace AtomStore

open Log (Record Spans StoredRecord)

/-- Whether the numbers of a commit have 64 bits, the lengths of its values included. -/
structure Appending.Sized (asked : Appending) : Prop where
  counted : asked.ucn < 2 ^ 64
  sized : ∀ draft ∈ asked.drafts, draft.Sized

/-- Whether a commit can be read back: its UCN is not zero, and its values are not too long. -/
structure Appending.Readable (asked : Appending) : Prop where
  ucn_pos : 0 < asked.ucn
  fits : ∀ draft ∈ asked.drafts, draft.Fits

namespace DataFile

/-- How an open file came about that nothing has been appended to yet. -/
inductive Fresh : Directory → DataFile → Prop where
  | created {directory next : Directory} {file : DataFile} {path : String} {storeId : StoreId}
      {version : Nat} {metadata : Metadata} {sync : Bool}
      (created : create directory path storeId version metadata sync = .ok (next, file)) :
      Fresh next file
  | replayed {directory : Directory} {opened file : DataFile} {path : String}
      {sync readOnly : Bool} {σ : Type} {consume : σ → Record → σ × Option LogError}
      {state final : σ} {records atoms : Nat} {summary : Log.Summary}
      (opening : openAt directory path sync readOnly = .ok opened)
      (replayed : opened.replay directory consume state =
        (final, records, atoms, .ok (summary, file))) :
      Fresh directory file

/-- How a directory and an open file go on by appends and pads that succeed, and the appends among
these. -/
inductive Grows (directory : Directory) (file : DataFile) :
    List Appending → Directory → DataFile → Prop where
  | refl : Grows directory file [] directory file
  | appended {run : List Appending} {asked : Appending} {between next : Directory}
      {middle grown : DataFile} {places : List Log.HostedPlace}
      (before : Grows directory file run between middle) (sized : asked.Sized)
      (appended : middle.append between asked.ucn asked.drafts asked.threshold =
        .ok (next, grown, places)) :
      Grows directory file (run ++ [asked]) next grown
  | padded {run : List Appending} {count : Nat} {between next : Directory}
      {middle grown : DataFile} (before : Grows directory file run between middle)
      (padded : middle.pad between count = .ok (next, grown)) :
      Grows directory file run next grown

variable {directory after : Directory} {file last : DataFile} {records : List Record}
  {ends : Nat} {run : List Appending}

/-- Padding that succeeds writes pad bytes. -/
theorem pad_eq_ok {next : Directory} {grown : DataFile} {count : Nat}
    (padded : file.pad directory count = .ok (next, grown)) :
    file.writeNext directory (List.replicate count Log.padByte) = (next, grown) := by
  unfold pad at padded
  split at padded
  · cases padded
  · exact Except.ok.inj padded

/-- A replay that succeeds has scanned the file to its end. -/
theorem scan_of_deliver {σ : Type} {consume : σ → Record → σ × Option LogError}
    {state final : σ} {taken atoms : Nat} {summary : Log.Summary}
    (replayed : file.replay directory consume state = (final, taken, atoms, .ok (summary, last))) :
    (file.scan directory).outcome = .ok summary.endOffset ∧
      last = { file with stop := summary.endOffset } := by
  rcases delivered : (file.scan directory).deliver consume state with
    ⟨reached, count, held, failure | found⟩
  · rw [replay, delivered] at replayed
    cases replayed
  · rw [replay, delivered] at replayed
    cases replayed
    exact ⟨Log.Scan.outcome_of_deliver delivered, rfl⟩

/-- A file that has just been created or replayed is whole. -/
theorem Fresh.whole (fresh : Fresh directory file) :
    ∃ records ends, file.Whole directory records ends := by
  cases fresh with
  | created created => exact ⟨[], file.stop, whole_create created⟩
  | replayed opening replayed =>
    obtain ⟨ended, rfl⟩ := scan_of_deliver replayed
    exact ⟨_, _, whole_opened opening ended⟩

/-- A front part of a file that has come further is still there. -/
theorem Extends.exists_append {front behind : Bytes}
    (extend : file.Extends last directory after)
    (content : directory.content file.path = front ++ behind) (inside : front.length ≤ file.stop) :
    ∃ more, after.content last.path = front ++ more := by
  have taken := congrArg (List.take front.length) extend.kept
  rw [List.take_take, List.take_take, Nat.min_eq_left inside, content, List.take_left] at taken
  refine ⟨(after.content last.path).drop front.length, ?_⟩
  conv_lhs => rw [← List.take_append_drop front.length (after.content last.path), taken]

/-- What growing keeps, be the commits readable or not. -/
structure Kept (file last : DataFile) (directory after : Directory) : Prop where
  clear : last.Clear after
  extend : file.Extends last directory after
  header_eq : last.header = file.header

/-- Writing at the append position keeps what is in front of it. -/
theorem Kept.writeNext {middle : DataFile} {between : Directory}
    (kept : file.Kept middle directory between) (bytes : Bytes) :
    file.Kept (middle.writeNext between bytes).2 directory (middle.writeNext between bytes).1 :=
  ⟨kept.clear.writeNext bytes, kept.extend.trans (kept.clear.extends_writeNext bytes),
    kept.header_eq⟩

/-- A file keeps its own front part. -/
theorem Clear.kept (clear : file.Clear directory) : file.Kept file directory directory :=
  ⟨clear, Extends.refl file directory, rfl⟩

/-- Growing further is growing. -/
theorem Grows.trans {next : DataFile} {between : Directory} {more : List Appending}
    (first : Grows directory file run between next) (second : Grows between next more after last) :
    Grows directory file (run ++ more) after last := by
  induction second with
  | refl => exact (List.append_nil run).symm ▸ first
  | appended _ sized appended ih =>
    rw [← List.append_assoc]
    exact .appended ih sized appended
  | padded _ padded ih => exact .padded ih padded

/-- A file that grows keeps what was in front of its append position. -/
theorem Grows.kept (clear : file.Clear directory) (grows : Grows directory file run after last) :
    file.Kept last directory after := by
  induction grows with
  | refl => exact clear.kept
  | @appended run asked between next middle grown places _ _ appended ih =>
    obtain ⟨atoms, _, written, _⟩ := append_eq_ok appended
    have kept := ih.writeNext (Log.recordBytes asked.ucn atoms)
    rw [written] at kept
    exact kept
  | @padded run count between next middle grown _ padded ih =>
    have kept := ih.writeNext (List.replicate count Log.padByte)
    rw [pad_eq_ok padded] at kept
    exact kept

/-- Pad bytes add no record. -/
theorem Whole.pad (whole : file.Whole directory records ends) (count : Nat) :
    (file.writeNext directory (List.replicate count Log.padByte)).2.Whole
      (file.writeNext directory (List.replicate count Log.padByte)).1 records ends := by
  obtain ⟨front, padding, content, found, size, long, decoded, spans⟩ :=
    whole.content_writeNext (List.replicate count Log.padByte)
  have held := Directory.content_of_file? found
  have clear := whole.clear.writeNext (List.replicate count Log.padByte)
  obtain ⟨reached, scanned⟩ := spans.scanFrom_behind file.headerLength
  have same : reached = ends := by
    have before := whole.scanned
    rw [content, List.drop_append_of_le_length long, Log.scan, scanned, List.nil_append,
      Log.scanFrom_replicate, List.append_nil] at before
    cases before
    rfl
  refine ⟨clear.file?_eq, ?_, ?_, Nat.le_trans whole.ends_le (Nat.le_add_right ..),
    clear.stop_le⟩
  · change Log.Header.decode ((file.writeNext directory _).1.content file.path) = _
    rw [held]
    exact (Log.Header.decode_grow decoded _).1
  · change Log.scan file.header.version file.headerLength
      (((file.writeNext directory _).1.content file.path).drop file.headerLength) = _
    rw [held, List.replicate_append_replicate, List.drop_append_of_le_length long, Log.scan,
      scanned, List.nil_append, Log.scanFrom_replicate, List.append_nil, same]

/-- Whether a file holds something in front of the place of the next record at which every scan
stops, and some records in front of it. -/
structure Stuck (file : DataFile) (directory : Directory) (records : List Record) : Prop where
  fails : ∃ front behind, directory.content file.path = front ++ behind ∧
    front.length ≤ file.stop ∧ file.headerLength ≤ front.length ∧
    ∀ rest, ∃ error, Log.scan file.header.version file.headerLength
      (front.drop file.headerLength ++ rest) = ⟨records, .error error⟩
  below : ∀ record ∈ records, record.offset < file.stop

/-- A file that has got stuck stays stuck as it grows. -/
theorem Stuck.grow (stuck : file.Stuck directory records)
    (kept : file.Kept last directory after) : last.Stuck after records := by
  obtain ⟨⟨front, behind, content, stop_le, long, fails⟩, below⟩ := stuck
  obtain ⟨_, extend, header⟩ := kept
  refine ⟨?_, fun record member => Nat.lt_of_lt_of_le (below record member) extend.stop_le⟩
  obtain ⟨more, longer⟩ := extend.exists_append content stop_le
  refine ⟨front, more, longer, Nat.le_trans stop_le extend.stop_le,
    extend.headerLength_eq ▸ long, ?_⟩
  rw [header, extend.headerLength_eq]
  exact fails

/-- No scan gets past a commit that cannot be read back. -/
theorem scanFrom_of_unreadable {asked : Appending} {atoms : List Log.StoredAtom}
    (sized : asked.Sized) (unreadable : ¬ asked.Readable)
    (stored : asked.drafts.mapM (file.storedAtom directory (file.hosting asked.threshold)
      asked.threshold) = .ok atoms) (start position : Nat) (rest : Bytes) :
    ∃ error, Log.scanFrom file.header.version start position
      (Log.recordBytes asked.ucn atoms ++ rest) = ⟨[], .error error⟩ := by
  by_cases ucn_pos : 0 < asked.ucn
  · obtain ⟨_, lengths, fitting⟩ := storedAtoms_spec ucn_pos stored
    have long : Log.tooLong? (asked.drafts.flatMap Draft.extents) ≠ none := by
      intro short
      exact unreadable ⟨ucn_pos, (tooLong?_extents sized.sized).mp short⟩
    obtain ⟨length, found⟩ := Option.ne_none_iff_exists'.mp long
    rw [lengths] at found
    exact ⟨_, (Spans.here position []).scanFrom_long (fitting sized.counted sized.sized) found
      start rest⟩
  · obtain zero : asked.ucn = 0 := Nat.eq_zero_of_not_pos ucn_pos
    refine ⟨(Log.ReadFault.flaw .withoutUcn).at position, ?_⟩
    rw [zero, Log.recordBytes, Log.coveredBytes, Log.recordLead]
    simp only [List.cons_append, List.append_assoc]
    rw [Log.scanFrom_mark, Log.Reader.record,
      Log.Reader.varint_of_rest (by decide : 0 < 2 ^ 64) rfl]
    rfl

/-- A file gets stuck when bytes are written that no record begins with. -/
theorem Whole.stuck (whole : file.Whole directory records ends) {bytes : Bytes}
    (fails : ∀ start rest, ∃ error, Log.scanFrom file.header.version start file.stop
      (bytes ++ rest) = ⟨[], .error error⟩) :
    (file.writeNext directory bytes).2.Stuck (file.writeNext directory bytes).1 records := by
  obtain ⟨front, count, _, found, size, long, _, spans⟩ := whole.content_writeNext bytes
  obtain ⟨reached, scanned⟩ := spans.scanFrom_behind file.headerLength
  refine ⟨⟨front ++ bytes, List.replicate (count - bytes.length) Log.padByte, ?_, ?_, ?_, ?_⟩, ?_⟩
  · rw [List.append_assoc]
    exact Directory.content_of_file? found
  · change (front ++ bytes).length ≤ file.stop + bytes.length
    rw [List.length_append, size]
  · change file.headerLength ≤ (front ++ bytes).length
    rw [List.length_append]
    omega
  · intro rest
    obtain ⟨error, failed⟩ := fails reached rest
    refine ⟨error, ?_⟩
    change Log.scan file.header.version file.headerLength
      ((front ++ bytes).drop file.headerLength ++ rest) = _
    rw [List.drop_append_of_le_length long, List.append_assoc, Log.scan, scanned, List.nil_append,
      failed, List.append_nil]
  · intro record member
    obtain ⟨_, below, _⟩ := spans.intact record member
    exact Nat.lt_of_lt_of_le below (Nat.le_add_right ..)

/-- A file that grows holds whole records just when all that was appended can be read back, and
otherwise scans get stuck in front of the first commit that cannot. -/
theorem Grows.whole_or_stuck (whole : file.Whole directory records ends)
    (grows : Grows directory file run after last) :
    ((∀ asked ∈ run, asked.Readable) ∧ ∃ more stop, last.Whole after (records ++ more) stop) ∨
      (¬ ∀ asked ∈ run, asked.Readable) ∧ ∃ more, last.Stuck after (records ++ more) := by
  induction grows with
  | refl => exact .inl ⟨nofun, [], ends, (List.append_nil records).symm ▸ whole⟩
  | @appended run asked between next middle grown places before sized appended ih =>
    obtain ⟨atoms, stored, written, _⟩ := append_eq_ok appended
    rw [List.forall_mem_append, List.forall_mem_singleton]
    rcases ih with ⟨readable, more, stop, middle⟩ | ⟨unreadable, more, stuck⟩
    · by_cases own : asked.Readable
      · obtain ⟨_, fitting⟩ := storedAtoms_sound own.fits own.ucn_pos sized.counted stored
        have grown := middle.writeNext fitting
        rw [StoredRecord.bytes, written, List.append_assoc] at grown
        exact .inl ⟨⟨readable, own⟩, _, _, grown⟩
      · have stuck := middle.stuck fun start rest =>
          scanFrom_of_unreadable sized own stored start _ rest
        rw [written] at stuck
        exact .inr ⟨fun all => own all.2, more, stuck⟩
    · have kept := (before.kept whole.clear).clear.kept.writeNext (Log.recordBytes asked.ucn atoms)
      rw [written] at kept
      exact .inr ⟨fun all => unreadable all.1, more, stuck.grow kept⟩
  | @padded run count between next middle grown before padded ih =>
    rcases ih with ⟨readable, more, stop, middle⟩ | ⟨unreadable, more, stuck⟩
    · have grown := middle.pad count
      rw [pad_eq_ok padded] at grown
      exact .inl ⟨readable, more, stop, grown⟩
    · have kept := (before.kept whole.clear).clear.kept.writeNext
        (List.replicate count Log.padByte)
      rw [pad_eq_ok padded] at kept
      exact .inr ⟨unreadable, more, stuck.grow kept⟩

end DataFile
end AtomStore
