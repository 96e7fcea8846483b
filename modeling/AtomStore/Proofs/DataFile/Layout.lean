import AtomStore.DataFile
import AtomStore.Proofs.Log.HeaderRoundTrip
import AtomStore.Proofs.Log.Layout
import Mathlib.Data.List.Induction

/-!
# The layout of data files

A data file is laid out as its header, then chunks up to the place of the next record, and pad bytes
behind that place. Creating a file, appending, padding, and opening it again with a full replay keep
such a layout; a replay delivers exactly the records of the layout.
-/

namespace AtomStore

open Log (Chunk StoredRecord)

/-- A file whose bytes are the written form of its header, then chunks up to the place of the next
record, and then only pad bytes. -/
structure DataFile.Laid (file : DataFile) (directory : Directory) (start : Bytes)
    (chunks : List Chunk) (trailing : Nat) : Prop where
  encoded : file.header.encode = .ok start
  headerLength_eq : file.headerLength = start.length
  file?_eq : directory.file? file.path =
    some (start ++ (chunks.flatMap Chunk.bytes ++ List.replicate trailing Log.padByte))
  stop_eq : file.stop = file.headerLength + (chunks.flatMap Chunk.bytes).length
  fitting : Log.Fitting file.header.version chunks

/-- A file that is there is at a path that leads to a file. -/
theorem Directory.place_of_file? {directory : Directory} {path : String} {content : Bytes}
    (present : directory.file? path = some content) :
    ∃ name, directory.place path = .file name := by
  unfold file? at present
  split at present
  · rename_i name leads
    exact ⟨name, leads⟩
  · cases present

/-- The content of a file that is there is what the file holds. -/
theorem Directory.content_of_file? {directory : Directory} {path : String} {content : Bytes}
    (present : directory.file? path = some content) : directory.content path = content := by
  rw [Directory.content, present, Option.getD_some]

/-- Bytes written into a run of pad bytes take the place of as many of them. -/
theorem overwrite_padding (front bytes : Bytes) (trailing : Nat) :
    overwrite (front ++ List.replicate trailing Log.padByte) front.length bytes =
      front ++ (bytes ++ List.replicate (trailing - bytes.length) Log.padByte) := by
  cases bytes with
  | nil => rfl
  | cons first rest =>
    have gap : front.length - (front ++ List.replicate trailing Log.padByte).length = 0 := by
      rw [List.length_append]
      omega
    rw [overwrite, if_neg (by exact Bool.false_ne_true), List.take_left, gap, List.replicate_zero,
      List.nil_append, ← List.drop_drop, List.drop_left, List.drop_replicate]

/-- Bytes written behind the first part of a file leave it as it is. -/
theorem overwrite_behind (kept rest bytes : Bytes) {offset : Nat} (behind : kept.length ≤ offset)
    (inside : offset ≤ (kept ++ rest).length) :
    ∃ more, overwrite (kept ++ rest) offset bytes = kept ++ more ∧
      offset + bytes.length ≤ (kept ++ more).length := by
  cases bytes with
  | nil => exact ⟨rest, rfl, inside⟩
  | cons first others =>
    have gap : offset - (kept ++ rest).length = 0 := Nat.sub_eq_zero_of_le inside
    rw [overwrite, if_neg (by exact Bool.false_ne_true), gap, List.replicate_zero, List.nil_append,
      List.take_append, List.take_of_length_le behind, List.append_assoc]
    refine ⟨_, rfl, ?_⟩
    rw [List.length_append] at inside
    simp only [List.length_append, List.length_take]
    omega

namespace DataFile

variable {file : DataFile} {directory : Directory} {start : Bytes} {chunks : List Chunk}
  {trailing : Nat}

namespace Laid

/-- A file that is laid out in chunks holds these and pad bytes behind them. -/
theorem content_eq (laid : file.Laid directory start chunks trailing) :
    directory.content file.path =
      start ++ (chunks.flatMap Chunk.bytes ++ List.replicate trailing Log.padByte) :=
  Directory.content_of_file? laid.file?_eq

/-- Writing a chunk lays it behind the others, over the pad bytes that are there. -/
theorem writeNext (laid : file.Laid directory start chunks trailing) (chunk : Chunk)
    (fitting : Log.Fitting file.header.version [chunk]) :
    (file.writeNext directory chunk.bytes).2.Laid (file.writeNext directory chunk.bytes).1 start
      (chunks ++ [chunk]) (trailing - chunk.bytes.length) := by
  obtain ⟨name, leads⟩ := Directory.place_of_file? laid.file?_eq
  have place : file.stop = (start ++ chunks.flatMap Chunk.bytes).length := by
    rw [laid.stop_eq, laid.headerLength_eq, List.length_append]
  refine ⟨laid.encoded, laid.headerLength_eq, ?_, ?_, ?_⟩
  · simp only [DataFile.writeNext, Directory.file?_write _ leads, laid.content_eq, place]
    rw [← List.append_assoc, overwrite_padding]
    simp only [List.flatMap_append, List.flatMap_cons, List.flatMap_nil, List.append_nil,
      List.append_assoc]
  · simp only [DataFile.writeNext, laid.stop_eq, List.flatMap_append, List.flatMap_cons,
      List.flatMap_nil, List.append_nil, List.length_append, Nat.add_assoc]
  · exact Log.fitting_append.mpr ⟨laid.fitting, fitting⟩

/-- The records of a file that is laid out in chunks are those among the chunks. -/
theorem scan_eq (laid : file.Laid directory start chunks trailing) :
    file.scan directory =
      ⟨Log.placedRecords file.headerLength chunks,
        .ok (Log.lastEnd file.headerLength file.headerLength chunks)⟩ := by
  have body : (directory.content file.path).drop file.headerLength =
      chunks.flatMap Chunk.bytes ++ List.replicate trailing Log.padByte := by
    rw [laid.content_eq, laid.headerLength_eq, List.drop_left]
  simp only [DataFile.scan, body, Log.scan_layout laid.fitting]

/-- A laid-out file opens with the same header; until it is replayed, the next record would go to
its end. -/
theorem openAt_eq (laid : file.Laid directory start chunks trailing) (sync readOnly : Bool) :
    DataFile.openAt directory file.path sync readOnly =
      .ok { file with stop := (directory.content file.path).length, sync, readOnly } := by
  rw [openAt, laid.file?_eq, laid.content_eq]
  simp only [Log.Header.decode_encode laid.encoded, Except.map, laid.headerLength_eq]

end Laid

/-- A file that is created is written anew, with its header alone. -/
theorem create_eq_ok {path : String} {storeId : StoreId} {version : Nat} {metadata : Metadata}
    {sync : Bool} {next : Directory}
    (created : create directory path storeId version metadata sync = .ok (next, file)) :
    ∃ header bytes name, Log.Header.encode header = .ok bytes ∧
      directory.place path = .file name ∧ next = directory.write path bytes ∧
      file = { path, header, headerLength := bytes.length, stop := bytes.length, sync,
               readOnly := false } := by
  unfold create at created
  cases made : Log.Header.make storeId version metadata with
  | error error =>
    rw [made] at created
    cases created
  | ok header =>
    cases encoded : header.encode with
    | error error =>
      simp only [made, bind, Except.bind, encoded] at created
      cases created
    | ok bytes =>
      simp only [made, bind, Except.bind, encoded] at created
      split at created
      · cases created
      · cases created
      · cases created
      · rename_i name leads
        split at created
        · cases created
        · cases created
          exact ⟨header, bytes, name, encoded, leads, rfl, rfl⟩

/-- A new file holds its header and nothing else. -/
theorem laid_create {path : String} {storeId : StoreId} {version : Nat} {metadata : Metadata}
    {sync : Bool} {next : Directory}
    (created : create directory path storeId version metadata sync = .ok (next, file)) :
    ∃ start, file.Laid next start [] 0 := by
  obtain ⟨header, bytes, name, encoded, leads, rfl, rfl⟩ := create_eq_ok created
  refine ⟨bytes, encoded, rfl, ?_, rfl, ?_⟩
  · rw [Directory.file?_write _ leads, List.flatMap_nil, List.replicate_zero,
      List.append_nil, List.append_nil]
  · intro record member
    cases member

/-- Every list of chunks that fit is what some file is laid out in. -/
theorem exists_laid {chunks : List Chunk} (fitting : Log.Fitting .two chunks) :
    ∃ (directory : Directory) (file : DataFile) (start : Bytes),
      file.Laid directory start chunks 0 ∧ file.header.version = .two := by
  induction chunks using List.reverseRecOn with
  | nil =>
    obtain ⟨directory, file, created, version⟩ : ∃ directory file,
        create {} "log" .zero 2 .empty false = .ok (directory, file) ∧
          file.header.version = .two := ⟨_, _, rfl, rfl⟩
    obtain ⟨start, laid⟩ := laid_create created
    exact ⟨directory, file, start, laid, version⟩
  | append_singleton front last ih =>
    obtain ⟨earlier, own⟩ := Log.fitting_append.mp fitting
    obtain ⟨directory, file, start, laid, version⟩ := ih earlier
    have grown := laid.writeNext last (by rw [version]; exact own)
    rw [Nat.zero_sub] at grown
    exact ⟨_, _, start, grown, version⟩

end DataFile

end AtomStore
