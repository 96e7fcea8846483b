import AtomStore.Proofs.DataFile.Content

/-!
# The history of a data file

A data file is created, appended to, padded, opened again and replayed, in any order and as often as
one likes. Whatever its history, opening and replaying it once more gives exactly the commits that
were appended, in order.
-/

namespace AtomStore

open Log (Chunk StoredRecord)

/-- Whether all that a commit stands for is known. -/
def LogEntry.Known (entry : LogEntry) : Prop :=
  ∀ atom ∈ entry.atoms, ∀ junction ∈ atom.2, junction.2.isSome = true

/-- Everything that was stored is known. -/
theorem LogEntry.known_ofStored (record : StoredRecord) : (ofStored record).Known := by
  intro atom member junction bound
  obtain ⟨stored, _, rfl⟩ := List.mem_map.mp member
  obtain ⟨value, _, rfl⟩ := List.mem_map.mp bound
  rfl

namespace DataFile

def collect (seen : List Log.Record) (record : Log.Record) :
    List Log.Record × Option LogError :=
  (seen ++ [record], none)

/-- How a directory and an open file came about since the file was created, the commits appended
meanwhile, and the end of the last of their records. Commits have UCNs of 64 bits other than zero;
atoms come in any order, and the threshold may differ from one commit to the next. -/
inductive History : Directory → DataFile → List LogEntry → Nat → Prop where
  | created {directory next : Directory} {file : DataFile} {path : String} {storeId : StoreId}
      {version : Nat} {metadata : Metadata} {sync : Bool}
      (created : create directory path storeId version metadata sync = .ok (next, file)) :
      History next file [] file.stop
  | appended {directory next : Directory} {file grown : DataFile} {entries : List LogEntry}
      {last ucn threshold : Nat} {drafts : List Draft} {places : List Log.HostedPlace}
      (before : History directory file entries last) (ucn_pos : 0 < ucn) (counted : ucn < 2 ^ 64)
      (fits : ∀ draft ∈ drafts, draft.Fits)
      (appended : file.append directory ucn drafts threshold = .ok (next, grown, places)) :
      History next grown (entries ++ [.ofDrafts directory file.path ucn drafts]) grown.stop
  | padded {directory next : Directory} {file grown : DataFile} {entries : List LogEntry}
      {last count : Nat} (before : History directory file entries last)
      (padded : file.pad directory count = .ok (next, grown)) :
      History next grown entries last
  | opened {directory : Directory} {file fresh : DataFile} {entries : List LogEntry} {last : Nat}
      {sync readOnly : Bool} (before : History directory file entries last)
      (opened : openAt directory file.path sync readOnly = .ok fresh) :
      History directory fresh entries last
  | replayed {directory : Directory} {file read : DataFile} {entries : List LogEntry} {last : Nat}
      {σ : Type} {consume : σ → Log.Record → σ × Option LogError} {state final : σ}
      {records atoms : Nat} {summary : Log.Summary} (before : History directory file entries last)
      (replayed : file.replay directory consume state =
        (final, records, atoms, .ok (summary, read))) :
      History directory read entries last

variable {directory : Directory} {file : DataFile} {start : Bytes} {chunks : List Chunk}
  {trailing : Nat}

namespace Laid

/-- A file that is opened again has its trailing pad bytes in front of the next record. -/
theorem opened (laid : file.Laid directory start chunks trailing) {sync readOnly : Bool}
    {fresh : DataFile} (opened : openAt directory file.path sync readOnly = .ok fresh) :
    fresh.headerLength = file.headerLength ∧
      fresh.Laid directory start (chunks ++ [.pad trailing]) 0 := by
  rw [laid.openAt_eq] at opened
  cases opened
  have bytes : (chunks ++ [Chunk.pad trailing]).flatMap Chunk.bytes =
      chunks.flatMap Chunk.bytes ++ List.replicate trailing Log.padByte := by
    rw [List.flatMap_append, List.flatMap_cons, List.flatMap_nil, List.append_nil, Chunk.bytes]
  refine ⟨rfl, laid.encoded, laid.headerLength_eq, ?_, ?_, ?_⟩
  · rw [bytes, List.replicate_zero, List.append_nil]
    exact laid.file?_eq
  · rw [bytes]
    simp only [laid.content_eq, laid.headerLength_eq, List.length_append]
  · exact Log.fitting_append.mpr ⟨laid.fitting, by intro record member; cases member⟩

/-- After a full replay the next record goes behind the last one. -/
theorem replayed (laid : file.Laid directory start chunks trailing) {σ : Type}
    {consume : σ → Log.Record → σ × Option LogError} {state final : σ} {records atoms : Nat}
    {summary : Log.Summary} {read : DataFile}
    (replayed : file.replay directory consume state =
      (final, records, atoms, .ok (summary, read))) :
    read = { file with stop := Log.lastEnd file.headerLength file.headerLength chunks } ∧
      ∃ front padding, read.Laid directory start front padding ∧
        front.filterMap Chunk.record? = chunks.filterMap Chunk.record? ∧
        Log.lastEnd file.headerLength file.headerLength front =
          Log.lastEnd file.headerLength file.headerLength chunks := by
  have same : read =
      { file with stop := Log.lastEnd file.headerLength file.headerLength chunks } := by
    rw [replay, laid.scan_eq] at replayed
    cases delivered : Log.Scan.deliver
        ⟨Log.placedRecords file.headerLength chunks,
          .ok (Log.lastEnd file.headerLength file.headerLength chunks)⟩ consume state with
    | mk reached counts =>
      obtain ⟨taken, held, outcome⟩ := counts
      rw [delivered] at replayed
      cases outcome with
      | error failure => cases replayed
      | ok found =>
        cases replayed
        rw [Except.ok.inj (Log.Scan.outcome_of_deliver delivered)]
  obtain ⟨front, padding, bytes, kept, ends, place⟩ :=
    Log.exists_lastEnd chunks file.headerLength file.headerLength
  refine ⟨same, front, padding + trailing, ?_, kept, ends⟩
  subst same
  refine ⟨laid.encoded, laid.headerLength_eq, ?_, ?_, ?_⟩
  · rw [laid.file?_eq, bytes, List.append_assoc, List.replicate_append_replicate]
  · simp only [place]
    split
    · rename_i none
      rw [none, List.flatMap_nil, List.length_nil, Nat.add_zero]
    · rfl
  · intro record member
    rw [kept] at member
    exact laid.fitting record member

end Laid

/-- A file with a history is laid out in chunks whose records stand for its commits. -/
theorem History.laid {entries : List LogEntry} {last : Nat}
    (history : History directory file entries last) :
    ∃ start chunks trailing, file.Laid directory start chunks trailing ∧
      (chunks.filterMap Chunk.record?).map LogEntry.ofStored = entries ∧
      Log.lastEnd file.headerLength file.headerLength chunks = last := by
  induction history with
  | created created =>
    obtain ⟨start, laid⟩ := laid_create created
    exact ⟨start, [], 0, laid, rfl, laid.stop_eq.symm⟩
  | @appended directory next file grown entries last ucn threshold drafts places _ ucn_pos counted
      fits appended ih =>
    obtain ⟨start, chunks, trailing, laid, records, _⟩ := ih
    obtain ⟨atoms, stored, written, _⟩ := append_eq_ok appended
    obtain ⟨meant, fitting⟩ := storedAtoms_sound fits ucn_pos counted stored
    have later := laid.writeNext (.record ⟨ucn, atoms, ucn_pos⟩)
      (Log.fitting_map_record.mpr (List.forall_mem_singleton.mpr fitting))
    rw [Chunk.bytes, StoredRecord.bytes, written] at later
    refine ⟨start, _, _, later, ?_, ?_⟩
    · rw [List.filterMap_append, List.map_append, records, meant]
      rfl
    · rw [Log.lastEnd_record, later.stop_eq]
  | @padded directory next file grown entries last count _ padded ih =>
    obtain ⟨start, chunks, trailing, laid, records, ends⟩ := ih
    unfold pad at padded
    split at padded
    · cases padded
    · cases padded
      have later := laid.writeNext (.pad count) (by intro record member; cases member)
      refine ⟨start, _, _, later, ?_, ?_⟩
      · rw [List.filterMap_append, List.map_append, records]
        exact List.append_nil _
      · rw [Log.lastEnd_pad]
        exact ends
  | opened _ opened ih =>
    obtain ⟨start, chunks, trailing, laid, records, ends⟩ := ih
    obtain ⟨same, later⟩ := laid.opened opened
    refine ⟨start, _, 0, later, ?_, ?_⟩
    · rw [List.filterMap_append, List.map_append, records]
      exact List.append_nil _
    · rw [Log.lastEnd_pad, same, ends]
  | replayed _ replayed ih =>
    obtain ⟨start, chunks, trailing, laid, records, ends⟩ := ih
    obtain ⟨same, front, padding, later, kept, place⟩ := laid.replayed replayed
    refine ⟨start, front, padding, later, by rw [kept, records], ?_⟩
    rw [same]
    exact place.trans ends

/-- A replay that collects what it is given delivers all that the scan has found. -/
theorem replay_collect (file : DataFile) (directory : Directory) :
    file.replay directory collect [] =
      ((file.scan directory).records, (file.scan directory).records.length,
        ((file.scan directory).records.map fun record => record.atoms.length).sum,
        (file.scan directory).outcome.map fun last =>
          (⟨(file.scan directory).records.length,
            ((file.scan directory).records.map fun record => record.atoms.length).sum, last⟩,
            { file with stop := last })) := by
  have accepting (seen : List Log.Record) (record : Log.Record) :
      collect seen record = (seen ++ [record], none) := rfl
  have gathered := Log.feed_of_accepting accepting [] 0 0 (file.scan directory).records
  rw [List.foldl_append_eq_append, List.nil_append, ← List.flatMap_def, List.flatMap_singleton',
    Nat.zero_add, Nat.zero_add] at gathered
  rw [replay, Log.Scan.deliver, gathered]
  cases (file.scan directory).outcome <;> rfl

/-- Opening and replaying a file delivers exactly the commits of its history: their UCNs, their
atoms in order and the data of their values, each of which is known. Only a version that has room
for them gives back byte runs that stay in the file; their places hold the data. The summary counts
the commits and their atoms and ends where the last record does. -/
theorem History.replay_eq {entries : List LogEntry} {last : Nat}
    (history : History directory file entries last) (sync readOnly : Bool) :
    ∃ fresh records,
      openAt directory file.path sync readOnly = .ok fresh ∧
      fresh.replay directory collect [] =
        (records, entries.length, (entries.map fun entry => entry.atoms.length).sum,
          .ok (⟨entries.length, (entries.map fun entry => entry.atoms.length).sum, last⟩,
            { fresh with stop := last })) ∧
      records.map (LogEntry.ofRecord directory file.path) = entries ∧
      (∀ entry ∈ entries, entry.Known) ∧
      ∀ record ∈ records, ∀ atom ∈ record.atoms, ∀ junction ∈ atom.junctions.entries,
        junction.2.isHosted = true → file.header.version.hosts = true := by
  obtain ⟨start, chunks, trailing, laid, stored, ends⟩ := history.laid
  have delivered : (Log.placedRecords file.headerLength chunks).map
      (LogEntry.ofRecord directory file.path) = entries := by
    rw [← stored, laid.headerLength_eq]
    exact ofRecord_placedRecords laid.fitting laid.content_eq
  refine ⟨_, _, laid.openAt_eq sync readOnly, ?_, delivered, ?_, ?_⟩
  · have scanned : scan { file with stop := (directory.content file.path).length, sync, readOnly }
        directory = file.scan directory := rfl
    have count : (Log.placedRecords file.headerLength chunks).length = entries.length := by
      rw [← delivered, List.length_map]
    have held : ((Log.placedRecords file.headerLength chunks).map
        fun record => record.atoms.length) = entries.map fun entry => entry.atoms.length := by
      rw [← delivered, List.map_map]
      apply List.map_congr_left
      intro record _
      exact (List.length_map ..).symm
    rw [replay_collect, scanned, laid.scan_eq]
    simp only [count, held, ends]
    rfl
  · rw [← stored]
    intro entry member
    obtain ⟨record, _, rfl⟩ := List.mem_map.mp member
    exact LogEntry.known_ofStored record
  · intro record member atom inside junction bound hosted
    obtain ⟨written, among, offset, rfl⟩ := Log.mem_placedRecords member
    exact Log.hosts_of_placed (laid.fitting written among) inside bound hosted

/-- A commit of a run of bytes that stays in the file and of a text, then pad bytes, read back. -/
theorem replay_commit_and_pad :
    ∃ directory file last fresh records,
      History directory file
        [⟨1, [(7, [(1, some (.bytes [1, 2, 3])), (2, some (.text "a"))])]⟩] last ∧
      openAt directory file.path false false = .ok fresh ∧
      fresh.replay directory collect [] =
        (records, 1, 1, .ok (⟨1, 1, last⟩, { fresh with stop := last })) ∧
      records.map (LogEntry.ofRecord directory file.path) =
        [⟨1, [(7, [(1, some (.bytes [1, 2, 3])), (2, some (.text "a"))])]⟩] := by
  let draft : Draft := ⟨7, .ofList [(1, .bytes [1, 2, 3]), (2, .text "a")]⟩
  obtain ⟨empty, file, created, writable⟩ : ∃ directory file,
      create {} "log" .zero 2 .empty false = .ok (directory, file) ∧ file.readOnly = false :=
    ⟨_, _, rfl, rfl⟩
  obtain ⟨written, grown, places, appended, open_⟩ : ∃ written grown places,
      file.append empty 1 [draft] 2 = .ok (written, grown, places) ∧ grown.readOnly = false := by
    simp only [append_eq, writable, Bool.false_eq_true, ↓reduceIte]
    exact ⟨_, _, _, rfl, writable⟩
  obtain ⟨directory, longer, padded⟩ : ∃ directory longer,
      grown.pad written 3 = .ok (directory, longer) := by
    simp only [pad, open_, Bool.false_eq_true, ↓reduceIte]
    exact ⟨_, _, rfl⟩
  have fits : ∀ draft' ∈ [draft], draft'.Fits := by
    intro draft' member
    obtain rfl := List.mem_singleton.mp member
    exact ⟨by decide, by decide⟩
  have history := ((History.created created).appended (by decide) (by decide) fits appended).padded
    padded
  obtain ⟨fresh, records, opened, replayed, same, _⟩ := history.replay_eq false false
  exact ⟨directory, longer, _, fresh, records, history, opened, replayed, same⟩

end DataFile
end AtomStore
