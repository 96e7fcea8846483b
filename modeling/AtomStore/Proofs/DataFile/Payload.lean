import AtomStore.Proofs.DataFile.Content
import AtomStore.Store.Basic

/-!
# Payloads

A particle has a payload in an open file when it is a run of bytes, or a place between the header
and the place of the next record. What is written for a record has its payloads inside the record,
and a payload stays the same as long as the bytes in front of the next record do.
-/

namespace AtomStore

open Log (StoredValue StoredAtom StoredRecord)

/-- Whether the bytes of a particle are at hand or between two places of the file. -/
def Particle.Inside (lower upper : Nat) : Particle → Prop
  | hosted offset length => lower ≤ offset ∧ offset + length ≤ upper
  | _ => True

/-- What lies inside some bounds lies inside wider ones. -/
theorem Particle.Inside.mono {particle : Particle} {lower upper below above : Nat}
    (inside : particle.Inside lower upper) (first : below ≤ lower) (last : upper ≤ above) :
    particle.Inside below above := by
  cases particle with
  | hosted offset length => exact ⟨Nat.le_trans first inside.1, Nat.le_trans inside.2 last⟩
  | integer => trivial
  | text => trivial
  | bytes => trivial

/-- The bytes of a particle in an open file. -/
def DataFile.payload? (file : DataFile) (directory : Directory) : Particle → Option Bytes
  | .bytes payload => some payload
  | .hosted offset length => (file.readHosted directory offset length).toOption
  | .integer _ => none
  | .text _ => none

namespace Log

variable {version : Version}

/-- The hosted values of placed junctions lie inside their bytes. -/
theorem inside_placedJunctions {position : Nat} {values : List (Key × StoredValue)} :
    ∀ junction ∈ placedJunctions position values,
      junction.2.Inside position (position + (values.flatMap junctionBytes).length) := by
  induction values generalizing position with
  | nil => exact nofun
  | cons first rest ih =>
    obtain ⟨key, value⟩ := first
    have total : (((key, value) :: rest).flatMap junctionBytes).length =
        (junctionLead key value).length + value.payload.length +
          (rest.flatMap junctionBytes).length := by
      rw [List.flatMap_cons, List.length_append, junctionBytes, List.length_append]
    intro junction member
    rw [total]
    rcases List.mem_cons.mp member with rfl | later
    · cases value with
      | hosted payload =>
        change position ≤ _ ∧ _ + payload.length ≤ _
        rw [StoredValue.payload]
        omega
      | integer => trivial
      | text => trivial
      | bytes => trivial
    · exact (ih junction later).mono (by omega) (by omega)

/-- The hosted values of placed atoms lie inside their bytes. -/
theorem inside_placedAtoms {position : Nat} {atoms : List StoredAtom}
    (fitting : ∀ atom ∈ atoms, atom.Fits version) :
    ∀ draft ∈ placedAtoms position atoms, ∀ junction ∈ draft.junctions.entries,
      junction.2.Inside position (position + (atoms.flatMap atomBytes).length) := by
  induction atoms generalizing position with
  | nil => exact nofun
  | cons atom rest ih =>
    obtain ⟨fits, others⟩ := List.forall_mem_cons.mp fitting
    have total : ((atom :: rest).flatMap atomBytes).length =
        (atomLead atom.id).length + (atom.values.flatMap junctionBytes).length +
          (rest.flatMap atomBytes).length := by
      rw [List.flatMap_cons, List.length_append, atomBytes, List.length_append]
    have own : (atomBytes atom).length =
        (atomLead atom.id).length + (atom.values.flatMap junctionBytes).length :=
      List.length_append
    intro draft member junction bound
    rw [total]
    rcases List.mem_cons.mp member with rfl | later
    · rw [placedAtom,
        SortedMap.entries_ofList (ascending_placedJunctions _ fits.ascending)] at bound
      exact (inside_placedJunctions junction bound).mono (by omega) (by omega)
    · exact (ih others draft later junction bound).mono (by omega) (by omega)

/-- The bytes of a record that is read back are inside what was written of it. -/
theorem inside_placed {record : StoredRecord} (fits : record.Fits version) (offset : Nat) :
    ∀ atom ∈ (record.placed offset).atoms, ∀ junction ∈ atom.junctions.entries,
      junction.2.Inside offset (offset + record.bytes.length) := by
  intro atom member junction bound
  obtain ⟨draft, inside, rfl⟩ := List.mem_map.mp member
  have total : (recordLead record.ucn).length + (record.atoms.flatMap atomBytes).length ≤
      record.bytes.length := by
    simp only [StoredRecord.bytes, recordBytes, coveredBytes, List.length_append]
    omega
  exact (inside_placedAtoms fits.fitting draft inside junction bound).mono (by omega) (by omega)

end Log

namespace DataFile

variable {file next : DataFile} {directory after : Directory} {particle : Particle}
  {payload : Bytes}

/-- A particle has a payload when it reads as one and lies inside the records. -/
theorem payload?_eq_some_iff : file.payload? directory particle = some payload ↔
    particle.datum? directory file.path = some (.bytes payload) ∧
      particle.Inside file.headerLength file.stop := by
  cases particle with
  | integer number => exact iff_of_false nofun nofun
  | text text => exact iff_of_false nofun nofun
  | bytes held => simp [payload?, Particle.datum?, Particle.Inside]
  | hosted offset length =>
    simp only [payload?, readHosted, Particle.datum?, Particle.Inside]
    split
    · rename_i inside
      simp [inside]
    · rename_i outside
      simp [outside, Except.toOption]

/-- Whether a file has come further, with the same bytes in front of where it was. -/
structure Extends (file next : DataFile) (directory after : Directory) : Prop where
  path_eq : next.path = file.path
  headerLength_eq : next.headerLength = file.headerLength
  stop_le : file.stop ≤ next.stop
  kept : (after.content next.path).take file.stop = (directory.content file.path).take file.stop

/-- Every file extends itself. -/
theorem Extends.refl (file : DataFile) (directory : Directory) :
    file.Extends file directory directory :=
  ⟨rfl, rfl, Nat.le_refl _, rfl⟩

/-- A file that has grown twice has grown. -/
theorem Extends.trans {last : DataFile} {between : Directory}
    (first : file.Extends next directory between) (second : next.Extends last between after) :
    file.Extends last directory after := by
  refine ⟨second.path_eq.trans first.path_eq, second.headerLength_eq.trans first.headerLength_eq,
    Nat.le_trans first.stop_le second.stop_le, ?_⟩
  have kept := congrArg (List.take file.stop) second.kept
  rw [List.take_take, List.take_take, Nat.min_eq_left first.stop_le] at kept
  exact kept.trans first.kept

/-- A range in front of a cut is what it was. -/
theorem take_drop_take {content : Bytes} {stop offset length : Nat}
    (inside : offset + length ≤ stop) :
    ((content.take stop).drop offset).take length = (content.drop offset).take length := by
  rw [List.drop_take, List.take_take, Nat.min_eq_left (by omega)]

/-- A payload stays as it is while the file grows. -/
theorem payload?_extends (extend : file.Extends next directory after)
    (held : file.payload? directory particle = some payload) :
    next.payload? after particle = some payload := by
  obtain ⟨datum, inside⟩ := payload?_eq_some_iff.mp held
  refine payload?_eq_some_iff.mpr
    ⟨?_, inside.mono (Nat.le_of_eq extend.headerLength_eq) extend.stop_le⟩
  cases particle with
  | integer number => cases held
  | text text => cases held
  | bytes run => exact datum
  | hosted offset length =>
    have same : after.readRange next.path offset length =
        directory.readRange file.path offset length := by
      rw [Directory.readRange, Directory.readRange, ← take_drop_take inside.2, extend.kept,
        take_drop_take inside.2]
    rw [← datum, Particle.datum?, Particle.datum?, same]

end DataFile

/-- A store reads the payloads of its file. -/
theorem Store.readBytes_of_payload? {store : Store} {directory : Directory} {file : DataFile}
    {particle : Particle} {payload : Bytes} (present : store.file = some file)
    (inside : file.stop ≤ (directory.content file.path).length)
    (held : file.payload? directory particle = some payload) :
    store.readBytes directory particle = .ok payload := by
  cases particle with
  | integer number => cases held
  | text text => cases held
  | bytes run =>
    cases held
    rfl
  | hosted offset length =>
    cases read : file.readHosted directory offset length with
    | error failure =>
      rw [DataFile.payload?, read] at held
      cases held
    | ok found =>
      rw [DataFile.payload?, read] at held
      cases held
      rw [DataFile.readHosted] at read
      split at read
      · rename_i bounds
        have fits : (file.hostedReader).headerLength ≤ offset ∧
            offset + length ≤ (directory.content (file.hostedReader).path).length :=
          ⟨bounds.1, Nat.le_trans bounds.2 inside⟩
        have found : file.hostedReader.read directory offset length = .ok payload := by
          rw [HostedReader.read, if_pos fits]
          exact read
        simp only [readBytes, present, found]
      · cases read

end AtomStore
