import AtomStore.Proofs.DataFile.Layout
import AtomStore.Proofs.Log.TooLong
import Mathlib.Data.List.Forall2

/-!
# What records stand for

A particle stands for an integer, a text or a run of bytes, and a place in the data file stands for
the bytes that are there. Appending writes values that stand for the same data as the particles of
the drafts did, and a record that is read back from the file stands for the data that were written.
-/

namespace AtomStore

open Log (Chunk StoredValue StoredAtom StoredRecord)

/-- What a value stands for, wherever its bytes are kept. -/
inductive Datum where
  | integer (value : Int64)
  | text (value : String)
  | bytes (payload : Bytes)
  deriving DecidableEq

/-- What a particle stands for when its bytes may be in the file at a path. -/
def Particle.datum? (directory : Directory) (path : String) : Particle → Option Datum
  | integer value => some (.integer value)
  | text value => some (.text value)
  | bytes payload => some (.bytes payload)
  | hosted offset length => (directory.readRange path offset length).toOption.map .bytes

/-- The number of bytes of a text or of a run of bytes. -/
def Particle.extent : Particle → Nat
  | integer _ => 0
  | text value => value.utf8ByteSize
  | bytes payload => payload.length
  | hosted _ length => length

/-- A draft whose number has 64 bits and whose values are not too long to be read back. -/
structure Draft.Fits (draft : Draft) : Prop where
  numbered : draft.id < 2 ^ 64
  short : ∀ junction ∈ draft.junctions.entries, junction.2.extent ≤ Log.maxValueLength

def Draft.extents (draft : Draft) : List Nat := draft.junctions.entries.map (·.2.extent)

/-- A draft whose number has 64 bits, with values of any length. -/
structure Draft.Sized (draft : Draft) : Prop where
  numbered : draft.id < 2 ^ 64
  sized : ∀ extent ∈ draft.extents, extent < 2 ^ 64

/-- The values of a draft that fits are no longer than the format can hold. -/
theorem Draft.Fits.extent_le {draft : Draft} (fits : draft.Fits) :
    ∀ extent ∈ draft.extents, extent ≤ Log.maxValueLength :=
  List.forall_mem_map.mpr fits.short

/-- What fits has sizes that the format can write. -/
theorem Draft.Fits.sized {draft : Draft} (fits : draft.Fits) : draft.Sized :=
  ⟨fits.numbered, fun extent member =>
    Nat.lt_of_le_of_lt (fits.extent_le extent member) (by decide)⟩

/-- What the format can write fits when its values are not too long. -/
theorem Draft.Sized.fits {draft : Draft} (sized : draft.Sized)
    (short : ∀ extent ∈ draft.extents, extent ≤ Log.maxValueLength) : draft.Fits :=
  ⟨sized.numbered, List.forall_mem_map.mp short⟩

/-- Drafts with values of any length fit when none of these is too long. -/
theorem tooLong?_extents {drafts : List Draft} (sized : ∀ draft ∈ drafts, draft.Sized) :
    Log.tooLong? (drafts.flatMap Draft.extents) = none ↔ ∀ draft ∈ drafts, draft.Fits := by
  simp only [Log.tooLong?_eq_none_iff, List.mem_flatMap, forall_exists_index, and_imp]
  constructor
  · intro short draft member
    exact (sized draft member).fits fun extent inside => short extent draft member inside
  · intro fits extent draft member
    exact (fits draft member).extent_le extent

/-- A record that is written for drafts that fit fits. -/
theorem Log.StoredRecord.Sized.fits_of_drafts {version : Log.Version} {record : StoredRecord}
    {drafts : List Draft} (sized : record.Sized version)
    (same : drafts.flatMap Draft.extents = record.lengths) (fits : ∀ draft ∈ drafts, draft.Fits) :
    record.Fits version :=
  sized.fits (same ▸ (tooLong?_extents fun draft member => (fits draft member).sized).mpr fits)

/-- What a written value stands for. -/
def Log.StoredValue.datum : StoredValue → Datum
  | integer value => .integer value
  | text value => .text value
  | bytes payload => .bytes payload
  | hosted payload => .bytes payload

/-- A commit as it is meant: its UCN, and its atoms in order with what their values stand for. -/
structure LogEntry where
  ucn : Nat
  atoms : List (Nat × List (Key × Option Datum))
  deriving DecidableEq

namespace LogEntry

def data (directory : Directory) (path : String) (junctions : List (Key × Particle)) :
    List (Key × Option Datum) :=
  junctions.map fun junction => (junction.1, junction.2.datum? directory path)

def ofDrafts (directory : Directory) (path : String) (ucn : Nat) (drafts : List Draft) :
    LogEntry :=
  ⟨ucn, drafts.map fun draft => (draft.id, data directory path draft.junctions.entries)⟩

def ofRecord (directory : Directory) (path : String) (record : Log.Record) : LogEntry :=
  ⟨record.ucn,
    record.atoms.map fun atom => (atom.id, data directory path atom.junctions.entries)⟩

def ofStored (record : StoredRecord) : LogEntry :=
  ⟨record.ucn, record.atoms.map fun atom =>
    (atom.id, atom.values.map fun junction => (junction.1, some junction.2.datum))⟩

end LogEntry

/-- Steps over a list succeed when each of them does. -/
theorem mapM_eq_ok_iff {α β ε : Type} {step : α → Except ε β} {given : List α} {made : List β} :
    given.mapM step = .ok made ↔ List.Forall₂ (fun a b => step a = .ok b) given made := by
  induction given generalizing made with
  | nil =>
    rw [List.mapM_nil, List.forall₂_nil_left_iff]
    constructor
    · intro same
      cases same
      rfl
    · rintro rfl
      rfl
  | cons first rest ih =>
    rw [List.mapM_cons]
    constructor
    · intro succeeded
      cases head : step first with
      | error failure =>
        rw [head] at succeeded
        cases succeeded
      | ok value =>
        cases tail : rest.mapM step with
        | error failure =>
          rw [head, tail] at succeeded
          cases succeeded
        | ok values =>
          rw [head, tail] at succeeded
          cases succeeded
          exact .cons head (ih.mp tail)
    · rintro (_ | ⟨head, tail⟩)
      rw [head, ih.mpr tail]
      rfl

theorem map_eq_of_forall₂ {α β γ : Type} {left : α → γ} {right : β → γ} {given : List α}
    {made : List β} (agree : List.Forall₂ (fun a b => left a = right b) given made) :
    given.map left = made.map right := by
  induction agree with
  | nil => rfl
  | cons same _ ih => rw [List.map_cons, List.map_cons, same, ih]

theorem exists_of_forall₂ {α β : Type} {related : α → β → Prop} {given : List α} {made : List β}
    (agree : List.Forall₂ related given made) : ∀ a ∈ given, ∃ b, related a b := by
  induction agree with
  | nil => exact nofun
  | cons first _ ih => exact List.forall_mem_cons.mpr ⟨⟨_, first⟩, ih⟩

theorem forall_mem_of_forall₂ {α β : Type} {good : β → Prop} {given : List α} {made : List β}
    (agree : List.Forall₂ (fun _ b => good b) given made) : ∀ b ∈ made, good b := by
  induction agree with
  | nil => exact nofun
  | cons fine _ ih => exact List.forall_mem_cons.mpr ⟨fine, ih⟩

namespace DataFile

variable {file : DataFile} {directory : Directory}

/-- A file under a positive threshold hosts bytes only in a version that has room for them. -/
theorem kind?_of_hosting {threshold : Nat} (hosting : file.hosting threshold = true) :
    file.header.version.kind? Log.ValueKind.hosted.tag = some .hosted := by
  rw [DataFile.hosting, Bool.and_eq_true] at hosting
  cases version : file.header.version with
  | one =>
    rw [version] at hosting
    cases hosting.2
  | two => rfl

/-- Hosted bytes that are read are a range of the file, of the length asked for. -/
theorem readRange_of_readHosted {offset length : Nat} {payload : Bytes}
    (read : file.readHosted directory offset length = .ok payload) :
    directory.readRange file.path offset length = .ok payload ∧ payload.length = length := by
  unfold readHosted at read
  split at read
  · refine ⟨read, ?_⟩
    simp only [Directory.readRange] at read
    split at read
    · cases read
    · rename_i enough
      cases read
      rw [List.length_take] at enough ⊢
      omega
  · cases read

/-- A value is written so that it stands for what the particle did, and in the same length. -/
theorem storedValue_spec {threshold : Nat} {particle : Particle} {value : StoredValue}
    (stored : file.storedValue directory (file.hosting threshold) threshold particle = .ok value) :
    particle.datum? directory file.path = some value.datum ∧
      file.header.version.kind? value.kind.tag = some value.kind ∧
      particle.extent = value.payload.length := by
  cases particle with
  | integer number =>
    cases stored
    exact ⟨rfl, rfl, rfl⟩
  | text text =>
    cases stored
    exact ⟨rfl, rfl, (Log.Header.length_utf8 text).symm⟩
  | bytes payload =>
    rw [storedValue] at stored
    by_cases hosts : file.hosting threshold = true ∧ threshold < payload.length
    · rw [if_pos hosts] at stored
      cases stored
      exact ⟨rfl, kind?_of_hosting hosts.1, rfl⟩
    · rw [if_neg hosts] at stored
      cases stored
      exact ⟨rfl, rfl, rfl⟩
  | hosted offset length =>
    cases read : file.readHosted directory offset length with
    | error failure =>
      rw [storedValue, read] at stored
      cases stored
    | ok payload =>
      obtain ⟨ranged, total⟩ := readRange_of_readHosted read
      have held : (Particle.hosted offset length).datum? directory file.path =
          some (.bytes payload) := by
        rw [Particle.datum?, ranged]
        rfl
      rw [storedValue, read, Except.map] at stored
      by_cases hosts : file.hosting threshold = true
      · rw [if_pos hosts] at stored
        cases stored
        exact ⟨held, kind?_of_hosting hosts, total.symm⟩
      · rw [if_neg hosts] at stored
        cases stored
        exact ⟨held, rfl, total.symm⟩

/-- A junction is stored under its own key. -/
theorem storedJunction_eq_ok {hosting : Bool} {threshold : Nat} {junction : Key × Particle}
    {written : Key × StoredValue}
    (stored : file.storedJunction directory hosting threshold junction = .ok written) :
    written.1 = junction.1 ∧
      file.storedValue directory hosting threshold junction.2 = .ok written.2 := by
  unfold storedJunction at stored
  cases value : file.storedValue directory hosting threshold junction.2 with
  | error failure =>
    rw [value] at stored
    cases stored
  | ok value =>
    simp only [value, Except.map] at stored
    cases stored
    exact ⟨rfl, rfl⟩

/-- An atom is stored under its own number, junction by junction. -/
theorem storedAtom_eq_ok {hosting : Bool} {threshold : Nat} {draft : Draft} {atom : StoredAtom}
    (stored : file.storedAtom directory hosting threshold draft = .ok atom) :
    atom.id = draft.id ∧ List.Forall₂ (fun junction written =>
      file.storedJunction directory hosting threshold junction = .ok written)
        draft.junctions.entries atom.values := by
  unfold storedAtom at stored
  cases values : draft.junctions.entries.mapM (file.storedJunction directory hosting threshold) with
  | error failure =>
    rw [values] at stored
    cases stored
  | ok values =>
    simp only [values, Except.map] at stored
    cases stored
    exact ⟨rfl, mapM_eq_ok_iff.mp values⟩

/-- The keys of a draft are stored in their order. -/
theorem ascending_of_storedAtom {hosting : Bool} {threshold : Nat} {draft : Draft}
    {atom : StoredAtom}
    (stored : file.storedAtom directory hosting threshold draft = .ok atom) :
    draft.junctions.entries.map Prod.fst = atom.values.map Prod.fst ∧
      atom.values.Pairwise fun a b => compare a.1 b.1 = .lt := by
  have keys : draft.junctions.entries.map Prod.fst = atom.values.map Prod.fst :=
    map_eq_of_forall₂ ((storedAtom_eq_ok stored).2.imp
      fun _ _ pair => (storedJunction_eq_ok pair).1.symm)
  have ascending : (atom.values.map Prod.fst).Pairwise fun a b => compare a b = .lt := by
    rw [← keys]
    exact List.pairwise_map.mpr draft.junctions.ascending
  exact ⟨keys, List.pairwise_map.mp ascending⟩

/-- An atom stores what its draft reads as, with payloads of the lengths that the draft has. -/
theorem storedAtom_spec {threshold : Nat} {draft : Draft} {atom : StoredAtom}
    (stored : file.storedAtom directory (file.hosting threshold) threshold draft = .ok atom) :
    (draft.id, LogEntry.data directory file.path draft.junctions.entries) =
        (atom.id, atom.values.map fun junction => (junction.1, some junction.2.datum)) ∧
      draft.extents = atom.lengths ∧ (draft.Sized → atom.Sized file.header.version) := by
  obtain ⟨same, values⟩ := storedAtom_eq_ok stored
  have matched : List.Forall₂ (fun (junction : Key × Particle) (written : Key × StoredValue) =>
      (junction.1, junction.2.datum? directory file.path) =
        (written.1, some written.2.datum) ∧
      file.header.version.kind? written.2.kind.tag = some written.2.kind ∧
      junction.2.extent = written.2.payload.length) draft.junctions.entries atom.values := by
    refine values.imp fun junction written stored => ?_
    obtain ⟨key, value⟩ := storedJunction_eq_ok stored
    obtain ⟨held, known, total⟩ := storedValue_spec value
    exact ⟨Prod.ext key.symm held, known, total⟩
  have data := map_eq_of_forall₂ (matched.imp fun _ _ pair => pair.1)
  have total : draft.extents = atom.lengths :=
    map_eq_of_forall₂ (matched.imp fun _ _ pair => pair.2.2)
  refine ⟨Prod.ext same.symm data, total, fun sized => ⟨same ▸ sized.numbered,
    (ascending_of_storedAtom stored).2, fun junction member => ⟨?_, ?_⟩⟩⟩
  · exact forall_mem_of_forall₂ (matched.imp fun _ _ pair => pair.2.1) junction member
  · apply sized.sized
    rw [total]
    exact List.mem_map_of_mem (f := fun junction : Key × StoredValue => junction.2.payload.length)
      member

/-- The record that is written for drafts stands for what they do, in the same lengths. -/
theorem storedAtoms_spec {threshold ucn : Nat} {drafts : List Draft} {atoms : List StoredAtom}
    (ucn_pos : 0 < ucn)
    (stored : drafts.mapM (file.storedAtom directory (file.hosting threshold) threshold) =
      .ok atoms) :
    LogEntry.ofDrafts directory file.path ucn drafts = LogEntry.ofStored ⟨ucn, atoms, ucn_pos⟩ ∧
      drafts.flatMap Draft.extents = StoredRecord.lengths ⟨ucn, atoms, ucn_pos⟩ ∧
      (ucn < 2 ^ 64 → (∀ draft ∈ drafts, draft.Sized) →
        StoredRecord.Sized file.header.version ⟨ucn, atoms, ucn_pos⟩) := by
  have matched := (mapM_eq_ok_iff.mp stored).imp fun _ _ pair => storedAtom_spec pair
  refine ⟨?_, ?_, fun counted sized => ⟨counted, ?_⟩⟩
  · rw [LogEntry.ofDrafts, LogEntry.ofStored,
      map_eq_of_forall₂ (matched.imp fun _ _ pair => pair.1)]
  · rw [StoredRecord.lengths, List.flatMap_def, List.flatMap_def,
      map_eq_of_forall₂ (matched.imp fun _ _ pair => pair.2.1)]
  · exact forall_mem_of_forall₂ (((List.forall₂_and_left _ _).mpr ⟨sized, matched⟩).imp
      fun _ _ pair => pair.2.2.2 pair.1)

/-- The record that is written for drafts that fit stands for what they do, and fits. -/
theorem storedAtoms_sound {threshold ucn : Nat} {drafts : List Draft} {atoms : List StoredAtom}
    (fits : ∀ draft ∈ drafts, draft.Fits) (ucn_pos : 0 < ucn) (counted : ucn < 2 ^ 64)
    (stored : drafts.mapM (file.storedAtom directory (file.hosting threshold) threshold) =
      .ok atoms) :
    LogEntry.ofDrafts directory file.path ucn drafts = LogEntry.ofStored ⟨ucn, atoms, ucn_pos⟩ ∧
      StoredRecord.Fits file.header.version ⟨ucn, atoms, ucn_pos⟩ := by
  obtain ⟨same, lengths, sized⟩ := storedAtoms_spec ucn_pos stored
  exact ⟨same, (sized counted fun draft member => (fits draft member).sized).fits_of_drafts lengths
    fits⟩

/-- A file that has been appended to was open for writing. -/
theorem readOnly_of_append {next : Directory} {grown : DataFile} {ucn threshold : Nat}
    {drafts : List Draft} {places : List Log.HostedPlace}
    (appended : file.append directory ucn drafts threshold = .ok (next, grown, places)) :
    file.readOnly = false := by
  rw [append_eq] at appended
  split at appended
  · cases appended
  · rename_i writable
    exact eq_false_of_ne_true writable

/-- An append that succeeds writes one record of the drafts as stored, and reports where its hosted
values are. -/
theorem append_eq_ok {next : Directory} {grown : DataFile} {ucn threshold : Nat}
    {drafts : List Draft} {places : List Log.HostedPlace}
    (appended : file.append directory ucn drafts threshold = .ok (next, grown, places)) :
    ∃ atoms, drafts.mapM (file.storedAtom directory (file.hosting threshold) threshold) =
        .ok atoms ∧
      file.writeNext directory (Log.recordBytes ucn atoms) = (next, grown) ∧
      places = Log.hostedPlaces file.stop ucn atoms := by
  rw [append_eq] at appended
  split at appended
  · cases appended
  · cases stored : drafts.mapM (file.storedAtom directory (file.hosting threshold) threshold) with
    | error failure =>
      rw [stored] at appended
      cases appended
    | ok atoms =>
      rw [stored] at appended
      cases appended
      exact ⟨atoms, rfl, rfl, rfl⟩

end DataFile

section ReadBack

variable {directory : Directory} {path : String}

/-- A range of a file is read where it stands. -/
theorem Directory.readRange_of_content {front payload back : Bytes}
    (content : directory.content path = front ++ (payload ++ back)) :
    directory.readRange path front.length payload.length = .ok payload := by
  simp only [readRange, content, List.drop_left, List.take_left, Nat.lt_irrefl, ↓reduceIte]

/-- A value reads as what was stored, from the place where its payload stands. -/
theorem datum?_placed {front back : Bytes} {value : StoredValue}
    (content : directory.content path = front ++ (value.payload ++ back)) :
    (value.placed front.length).datum? directory path = some value.datum := by
  cases value with
  | integer => rfl
  | text => rfl
  | bytes => rfl
  | hosted payload =>
    have taken : directory.readRange path front.length payload.length = .ok payload :=
      Directory.readRange_of_content content
    rw [StoredValue.placed, Particle.datum?, taken]
    rfl

/-- Junctions read back from where they are written stand for what was written. -/
theorem data_placedJunctions {values : List (Key × StoredValue)} {front back : Bytes}
    (content : directory.content path =
      front ++ (values.flatMap Log.junctionBytes ++ back)) :
    LogEntry.data directory path (Log.placedJunctions front.length values) =
      values.map fun junction => (junction.1, some junction.2.datum) := by
  induction values generalizing front with
  | nil => rfl
  | cons junction rest ih =>
    obtain ⟨key, value⟩ := junction
    have here : directory.content path = (front ++ Log.junctionLead key value) ++
        (value.payload ++ (rest.flatMap Log.junctionBytes ++ back)) := by
      rw [content]
      simp only [List.flatMap_cons, Log.junctionBytes, List.append_assoc]
    have behind : directory.content path = (front ++ Log.junctionLead key value ++ value.payload) ++
        (rest.flatMap Log.junctionBytes ++ back) := by
      rw [here]
      simp only [List.append_assoc]
    have datum := datum?_placed here
    have later := ih behind
    simp only [List.length_append] at datum later
    rw [LogEntry.data] at later ⊢
    rw [Log.placedJunctions, List.map_cons, List.map_cons, datum, later]

/-- Atoms read as what was stored, from the place where their bytes stand. -/
theorem data_placedAtoms {version : Log.Version} {atoms : List StoredAtom} {front back : Bytes}
    (fits : ∀ atom ∈ atoms, atom.Fits version)
    (content : directory.content path = front ++ (atoms.flatMap Log.atomBytes ++ back)) :
    (Log.placedAtoms front.length atoms).map
        (fun draft => (draft.id, LogEntry.data directory path draft.junctions.entries)) =
      atoms.map fun atom =>
        (atom.id, atom.values.map fun junction => (junction.1, some junction.2.datum)) := by
  induction atoms generalizing front with
  | nil => rfl
  | cons atom rest ih =>
    have fit := fits atom List.mem_cons_self
    have here : directory.content path = (front ++ Log.atomLead atom.id) ++
        (atom.values.flatMap Log.junctionBytes ++ (rest.flatMap Log.atomBytes ++ back)) := by
      rw [content]
      simp only [List.flatMap_cons, Log.atomBytes, List.append_assoc]
    have behind : directory.content path = (front ++ Log.atomBytes atom) ++
        (rest.flatMap Log.atomBytes ++ back) := by
      rw [content]
      simp only [List.flatMap_cons, List.append_assoc]
    have data := data_placedJunctions here
    have later := ih (fun atom member => fits atom (List.mem_cons_of_mem _ member)) behind
    simp only [List.length_append] at data later
    rw [Log.placedAtoms, List.map_cons, List.map_cons, later]
    simp only [Log.placedAtom,
      SortedMap.entries_ofList (Log.ascending_placedJunctions _ fit.ascending), data]

/-- A record found in a file tells of the same data as the record that was stored. -/
theorem LogEntry.ofRecord_placed {version : Log.Version} {record : StoredRecord}
    {front back : Bytes} (fits : record.Fits version)
    (content : directory.content path = front ++ (record.bytes ++ back)) :
    ofRecord directory path (record.placed front.length) = ofStored record := by
  obtain ⟨last, content⟩ : ∃ last, directory.content path =
      (front ++ Log.recordLead record.ucn) ++ (record.atoms.flatMap Log.atomBytes ++ last) := by
    simp only [StoredRecord.bytes, Log.recordBytes, Log.coveredBytes, List.append_assoc] at content
    exact ⟨_, by rw [List.append_assoc, content]⟩
  have data := data_placedAtoms fits.fitting content
  rw [List.length_append] at data
  rw [ofRecord, ofStored, StoredRecord.placed, ← data, List.map_map]
  rfl

/-- The records of a layout that are read back from where they are written stand for what was
written. -/
theorem ofRecord_placedRecords {version : Log.Version} {chunks : List Chunk} {front back : Bytes}
    (fitting : Log.Fitting version chunks)
    (content : directory.content path = front ++ (chunks.flatMap Chunk.bytes ++ back)) :
    (Log.placedRecords front.length chunks).map (LogEntry.ofRecord directory path) =
      (chunks.filterMap Chunk.record?).map LogEntry.ofStored := by
  induction chunks generalizing front with
  | nil => rfl
  | cons chunk rest ih =>
    have behind : directory.content path =
        (front ++ chunk.bytes) ++ (rest.flatMap Chunk.bytes ++ back) := by
      rw [content]
      simp only [List.flatMap_cons, List.append_assoc]
    cases chunk with
    | record written =>
      have fits : written.Fits version := fitting written List.mem_cons_self
      have here : directory.content path =
          front ++ (written.bytes ++ (rest.flatMap Chunk.bytes ++ back)) := by
        rw [behind, Chunk.bytes, List.append_assoc]
      have later := ih (fun record member => fitting record (List.mem_cons_of_mem _ member)) behind
      rw [List.length_append, Chunk.bytes] at later
      rw [Log.placedRecords, List.map_cons, later, LogEntry.ofRecord_placed fits here]
      rfl
    | pad count =>
      have later := ih fitting behind
      rw [List.length_append, Chunk.bytes, List.length_replicate] at later
      rw [Log.placedRecords, later]
      rfl

end ReadBack

end AtomStore
