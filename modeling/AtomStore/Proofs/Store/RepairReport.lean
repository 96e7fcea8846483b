import AtomStore.Proofs.Log.CutRecord
import AtomStore.Proofs.Store.WholeFile

/-!
# What a repair reports

A replay that comes to the end of a data file reports the end of the last record. One that cuts a
torn record off reports the place of the cut, which is behind the pad bytes in front of that record.
So a replay of the file as the repair has left it takes in the same records and makes the same table
of them, but it reports an end that is earlier by these pad bytes.
-/

namespace AtomStore

open Log (Header Record padByte)

namespace Log.Grammar.Piece

variable {version : Version} {pieces : List (Piece version)}

/-- Pieces end where the last of them do. -/
theorem ends_append (last position : Nat) (front back : List (Piece version)) :
    ends last position (front ++ back) =
      ends (ends last position front) (position + (front.flatMap bytes).length) back := by
  induction front generalizing last position with
  | nil => rfl
  | cons piece rest ih =>
    cases piece with
    | pad =>
      rw [List.cons_append, ends, ih, ends, List.flatMap_cons, List.length_append, Nat.add_assoc]
      rfl
    | record tree =>
      rw [List.cons_append, ends, ih, ends, List.flatMap_cons, List.length_append, Nat.add_assoc]
      rfl

/-- Padding does not move the end of the last record. -/
theorem ends_padding (last position padding : Nat) :
    ends last position (List.replicate padding (pad : Piece version)) = last := by
  induction padding generalizing position with
  | zero => rfl
  | succ padding ih => exact ih (position + 1)

/-- Whether the last of some pieces is a record, if there are any. -/
def Settled (pieces : List (Piece version)) : Prop := ∀ front, pieces ≠ front ++ [pad]

theorem ends_of_settled (settled : Settled pieces) (position : Nat) :
    ends position position pieces = position + (pieces.flatMap bytes).length := by
  rcases List.eq_nil_or_concat pieces with rfl | ⟨front, piece, rfl⟩
  · rfl
  · rw [List.concat_eq_append] at settled ⊢
    cases piece with
    | pad => exact absurd rfl (settled front)
    | record tree =>
      rw [ends_append, List.flatMap_append, List.length_append, List.flatMap_singleton,
        ← Nat.add_assoc]
      rfl

/-- Pieces are settled ones with padding behind them. -/
theorem exists_settled (pieces : List (Piece version)) :
    ∃ front padding, Settled front ∧ pieces = front ++ List.replicate padding pad := by
  induction pieces using List.reverseRecOn with
  | nil =>
    refine ⟨[], 0, fun front same => ?_, rfl⟩
    exact List.append_ne_nil_of_right_ne_nil front (List.cons_ne_nil _ _) same.symm
  | append_singleton before piece ih =>
    cases piece with
    | pad =>
      obtain ⟨front, padding, settled, rfl⟩ := ih
      refine ⟨front, padding + 1, settled, ?_⟩
      rw [List.replicate_succ', List.append_assoc]
    | record tree =>
      refine ⟨before ++ [.record tree], 0, fun front same => ?_, (List.append_nil _).symm⟩
      cases List.append_inj_right' same rfl

theorem flatMap_padding (padding : Nat) :
    (List.replicate padding (pad : Piece version)).flatMap bytes =
      List.replicate padding padByte := by
  rw [List.flatMap_replicate]
  exact List.flatten_replicate_singleton

/-- A scan that comes to an end has passed over settled pieces, where it ends, and over padding. -/
theorem exists_settled_of_scan {start stop : Nat} {scanned : Bytes}
    (ended : (scan version start scanned).outcome = .ok stop) :
    ∃ (front : List (Piece version)) (padding : Nat), Settled front ∧
      scanned = front.flatMap bytes ++ List.replicate padding padByte ∧
      stop = start + (front.flatMap bytes).length := by
  obtain ⟨pieces, rest, splits, _, ⟨rfl, reached⟩ | ⟨_, fault, failed⟩⟩ :=
    exists_splits version start start scanned
  · obtain ⟨front, padding, settled, rfl⟩ := exists_settled pieces
    refine ⟨front, padding, settled, ?_, ?_⟩
    · rw [splits_nil_iff.mp splits, List.flatMap_append, flatMap_padding]
    · rw [scan, reached, ends_append, ends_padding, ends_of_settled settled] at ended
      exact (Except.ok.inj ended).symm
  · rw [scan, failed] at ended
    cases ended

end Log.Grammar.Piece

namespace DataFile

open Log.Grammar (Piece)

variable {directory : Directory} {path : String} {sync : Bool} {file : DataFile}
  {content : Bytes} {header : Header} {headerLength offset : Nat} {records : List Record}

/-- What a repair reports that cuts a torn record off, and what the next replay reports: one the
place of the cut and the other the end of the last record, and only pad bytes are between them. -/
structure CutBehind (content : Bytes) (header : Header) (headerLength : Nat)
    (summary again : Log.Summary) : Prop where
  torn : ∃ records, TornAt content header headerLength records summary.endOffset
  settled : ∃ (front : List (Piece header.version)) (padding : Nat), Piece.Settled front ∧
    content.take summary.endOffset = content.take headerLength ++
      (front.flatMap Piece.bytes ++ List.replicate padding padByte) ∧
    again.endOffset = headerLength + (front.flatMap Piece.bytes).length ∧
    summary.endOffset = again.endOffset + padding ∧ (again = summary ↔ padding = 0)

/-- Between the last record and the place of a cut there is only padding. -/
theorem TornAt.cutBehind (torn : TornAt content header headerLength records offset) {stop : Nat}
    (ended : (Log.scan header.version headerLength
      ((content.take offset).drop headerLength)).outcome = .ok stop) (count atoms : Nat) :
    CutBehind content header headerLength ⟨count, atoms, offset⟩ ⟨count, atoms, stop⟩ := by
  obtain ⟨above, below, _⟩ := torn.front
  obtain ⟨front, padding, settled, shape, reached⟩ := Piece.exists_settled_of_scan ended
  have lead : (content.take offset).take headerLength = content.take headerLength := by
    rw [List.take_take, Nat.min_eq_left above]
  have split : content.take offset = content.take headerLength ++
      (front.flatMap Piece.bytes ++ List.replicate padding padByte) := by
    rw [← shape, ← lead, List.take_append_drop]
  have apart : offset = stop + padding := by
    have lengths := congrArg List.length split
    simp only [List.length_append, List.length_take, List.length_replicate] at lengths
    omega
  refine ⟨⟨records, torn⟩, front, padding, settled, split, reached, apart, ?_⟩
  simp only [Log.Summary.mk.injEq, true_and]
  omega

/-- After a replay with repair the file opens again, and a replay without repair takes in the same
numbers of records and atoms and makes the same table of them. It reports the same end as well if
nothing was cut off, and if a torn record was, just when no pad bytes are in front of the cut. -/
theorem recover_after_repair {summary : Log.Summary}
    (opened : openAt directory path sync false = .ok file)
    (recovered : (file.recover directory .empty true).outcome = .ok summary)
    (resync readOnly : Bool) :
    let repaired := file.recover directory .empty true
    ∃ next again, openAt repaired.directory path resync readOnly = .ok next ∧
      (next.recover repaired.directory .empty false).outcome = .ok again ∧
      (next.recover repaired.directory .empty false).slots = repaired.slots ∧
      again.records = summary.records ∧ again.atoms = summary.atoms ∧
      ((repaired.directory = directory ∧ again = summary) ∨
        ∃ content, directory.file? path = some content ∧
          repaired.directory = directory.write path (content.take summary.endOffset) ∧
          CutBehind content file.header file.headerLength summary again) := by
  intro repaired
  obtain ⟨content, found, held, decoded, rfl, _⟩ := openAt_eq_ok opened
  rcases file.recover_cases directory .empty true with
    ⟨taken, count, atoms, stop, fed, ended, done⟩ |
    ⟨taken, count, atoms, offset, cut, shorter, fed, ended, _, _, truncated, done⟩ |
    ⟨error, failed, _⟩
  · have table : Recovered taken (file.scan directory).records := .of_feed .nothing fed
    cases table.feed_eq.symm.trans fed
    rw [show repaired = _ from done]
    rw [done] at recovered
    cases recovered
    obtain ⟨next, reopened, replayed⟩ :=
      (whole_opened opened ended).recover_eq table resync readOnly false
    have slots := congrArg Recovery.slots replayed
    exact ⟨next, _, reopened, congrArg Recovery.outcome replayed, slots, rfl, rfl,
      .inl ⟨rfl, rfl⟩⟩
  · have table : Recovered taken (file.scan directory).records := .of_feed .nothing fed
    cases table.feed_eq.symm.trans fed
    rw [show repaired = _ from done]
    rw [done] at recovered
    cases recovered
    have torn := tornAt_of_scan (held.symm ▸ decoded) ended
    rw [held] at torn
    -- the repair takes the end from the cut, the next replay from a scan of what is left
    obtain ⟨written, left, _⟩ := torn.of_truncate found truncated
    obtain ⟨ends, whole⟩ := torn.whole_cut left
    obtain ⟨next, reopened, replayed⟩ := whole.recover_eq table resync readOnly false
    have scanned := whole.scanned
    rw [Directory.content_of_file? left] at scanned
    have slots := congrArg Recovery.slots replayed
    exact ⟨next, _, reopened, congrArg Recovery.outcome replayed, slots, rfl, rfl,
      .inr ⟨content, found, written, torn.cutBehind (congrArg Log.Scan.outcome scanned) _ _⟩⟩
  · rw [failed] at recovered
    cases recovered

/-- A file of pieces is scanned to the end of its last record. -/
theorem scan_of_pieces {front : Bytes} {pieces : List (Piece file.header.version)}
    (content : directory.content file.path = front ++ pieces.flatMap Piece.bytes)
    (size : front.length = file.headerLength) :
    file.scan directory = ⟨Piece.records file.headerLength pieces,
      .ok (Piece.ends file.headerLength file.headerLength pieces)⟩ := by
  have scanned := Log.Grammar.scanFrom_pieces pieces file.headerLength file.headerLength []
  simp only [List.append_nil, Log.scanFrom_nil] at scanned
  rw [scan, content, List.drop_left' size, Log.scan]
  simp only [scanned]

/-- The mark of a record with nothing behind it is a torn record. -/
theorem scan_of_mark {front : Bytes} {pieces : List (Piece file.header.version)}
    (content : directory.content file.path =
      front ++ pieces.flatMap Piece.bytes ++ [Log.recordMark])
    (size : front.length = file.headerLength) :
    file.scan directory = ⟨Piece.records file.headerLength pieces,
      .error (.truncated (front ++ pieces.flatMap Piece.bytes).length)⟩ := by
  have ends : file.headerLength + (pieces.flatMap Piece.bytes).length =
      (front ++ pieces.flatMap Piece.bytes).length := by rw [List.length_append, size]
  have behind : (directory.content file.path).drop
      ((front ++ pieces.flatMap Piece.bytes).length + 1) = [] := by
    rw [content, List.drop_eq_nil_iff, List.length_append, List.length_singleton]
  have torn (last position : Nat) : Log.scanFrom file.header.version last position
      [Log.recordMark] = ⟨[], .error (.truncated position)⟩ := by
    rw [Log.scanFrom_mark]
    rfl
  have scanned := Log.Grammar.scanFrom_pieces pieces file.headerLength file.headerLength
    [Log.recordMark]
  simp only [torn, List.append_nil, ends] at scanned
  have ahead : (directory.content file.path).drop file.headerLength =
      pieces.flatMap Piece.bytes ++ [Log.recordMark] := by
    rw [content, List.append_assoc, List.drop_left' size]
  rw [scan, Log.scan, ahead]
  simp only [scanned, behind, Log.wholeRecord?]

/-- A file with a record between pad bytes and the mark of another record behind them: the repair
reports the place of that mark, and the replay after it the end of the record. -/
theorem exists_padded_cut :
    ∃ directory path file next, openAt directory path false false = .ok file ∧
      (file.recover directory .empty true).outcome = .ok ⟨1, 0, 51⟩ ∧
      openAt (file.recover directory .empty true).directory path false false = .ok next ∧
      (next.recover (file.recover directory .empty true).directory .empty false).outcome =
        .ok ⟨1, 0, 50⟩ := by
  let header : Header := ⟨.zero, .two, .empty⟩
  let front := header.coveredBytes ++ Log.wordBytes (Checksum.ofBytes header.coveredBytes)
  let pieces : List (Piece .two) := Log.Grammar.paddedOne ++ [.pad]
  let kept := front ++ pieces.flatMap Piece.bytes
  have size : front.length = 40 := rfl
  have decoded (behind : Bytes) : Header.decode (front ++ behind) = .ok (header, 40) :=
    Header.decode_encode rfl behind
  have leads : ({} : Directory).place "universe.db" = .file "universe.db" := rfl
  obtain ⟨taken, fed⟩ : ∃ taken, Log.feed Slots.takeRecord .empty 0 0
      (Piece.records 40 pieces) = (taken, 1, 0, none) := ⟨_, rfl⟩
  have table : Recovered taken (Piece.records 40 pieces) := .of_feed .nothing fed
  let directory := Directory.write {} "universe.db" (kept ++ [Log.recordMark])
  have found : directory.file? "universe.db" = some (kept ++ [Log.recordMark]) :=
    Directory.file?_write _ leads
  let file : DataFile :=
    ⟨"universe.db", header, 40, (kept ++ [Log.recordMark]).length, false, false⟩
  have torn := replay_eq_of_recovered table
    (@scan_of_mark directory file front pieces (Directory.content_of_file? found) size)
  let cut := directory.write "universe.db" kept
  have left : cut.file? "universe.db" = some kept :=
    Directory.file?_write _ ((Directory.place_write ..).trans leads)
  have short : resize (directory.content "universe.db") 51 = kept := by
    rw [Directory.content_of_file? found]
    rfl
  have repaired : file.recover directory .empty true =
      ⟨taken.settle.2, cut, { file with stop := 51 }, .ok ⟨1, 0, 51⟩⟩ := by
    rw [recover_of_truncated torn (by decide) rfl]
    exact congrArg (fun left => (⟨taken.settle.2, directory.write "universe.db" left,
      { file with stop := 51 }, .ok ⟨1, 0, 51⟩⟩ : Recovery)) short
  let next : DataFile := ⟨"universe.db", header, 40, kept.length, false, false⟩
  have whole := replay_eq_of_recovered table
    (@scan_of_pieces cut next front pieces (Directory.content_of_file? left) size)
  have again : (next.recover cut .empty false).outcome = .ok ⟨1, 0, 50⟩ := by
    rw [recover_of_replay whole]
    rfl
  refine ⟨directory, "universe.db", file, next, ?_⟩
  rw [repaired]
  exact ⟨openAt_of_file? found (decoded _) false false, rfl,
    openAt_of_file? left (decoded _) false false, again⟩

/-- A repair that cuts a fragment off behind pad bytes reports them as part of the records. -/
theorem recover_after_padded_cut :
    ∃ directory path file content, openAt directory path false false = .ok file ∧
      (file.recover directory .empty true).outcome = .ok ⟨1, 0, 51⟩ ∧
      directory.file? path = some content ∧
      (file.recover directory .empty true).directory = directory.write path (content.take 51) ∧
      CutBehind content file.header file.headerLength ⟨1, 0, 51⟩ ⟨1, 0, 50⟩ := by
  obtain ⟨directory, path, file, next, opened, recovered, reopened, replayed⟩ := exists_padded_cut
  obtain ⟨_, again, same, reported, _, _, _, reports⟩ :=
    recover_after_repair opened recovered false false
  cases same.symm.trans reopened
  cases reported.symm.trans replayed
  rcases reports with ⟨_, clash⟩ | ⟨content, found, cut, behind⟩
  · cases clash
  · exact ⟨directory, path, file, content, opened, recovered, found, cut, behind⟩

/-- A replay with repair does not always report what a later replay without repair does. -/
theorem not_recover_same_summary :
    ¬ ∀ (directory : Directory) (path : String) (sync readOnly : Bool) (file next : DataFile)
      (summary again : Log.Summary), openAt directory path sync false = .ok file →
        (file.recover directory .empty true).outcome = .ok summary →
        openAt (file.recover directory .empty true).directory path sync readOnly = .ok next →
        (next.recover (file.recover directory .empty true).directory .empty false).outcome =
          .ok again → again = summary := by
  intro agreeing
  obtain ⟨directory, path, file, next, opened, recovered, reopened, replayed⟩ := exists_padded_cut
  cases agreeing directory path false false file next _ _ opened recovered reopened replayed

end DataFile
end AtomStore
