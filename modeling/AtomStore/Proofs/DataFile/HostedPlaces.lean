import AtomStore.Proofs.DataFile.Growth
import AtomStore.Proofs.Log.Delivery

/-!
# Hosted places

The places that an append gives back are those of the hosted values that are decoded from its
record, one by one in the order of the atoms and their keys. Every one of them holds its payload
from the append on, however the file grows behind it.
-/

namespace AtomStore

open Log (HostedPlace Record StoredAtom StoredRecord StoredValue)

theorem forall₂_comp {α β γ : Type} {first : α → β → Prop} {second : β → γ → Prop}
    {both : α → γ → Prop} (compose : ∀ a b c, first a b → second b c → both a c) {given : List α}
    {between : List β} {made : List γ} (front : List.Forall₂ first given between)
    (back : List.Forall₂ second between made) : List.Forall₂ both given made := by
  induction front generalizing made with
  | nil =>
    cases back
    exact .nil
  | cons head _ ih =>
    cases back with
    | cons later rest => exact .cons (compose _ _ _ head later) (ih rest)

/-- The place of a value of an atom, if the value stays in the file. -/
def Log.hostedPlace? (atom : Nat) (junction : Key × Particle) : Option HostedPlace :=
  match junction.2 with
  | .hosted offset length => some ⟨atom, junction.1, offset, length⟩
  | _ => none

/-- The places of the values of a record that stay in the file, in the order of its atoms and of
their keys. -/
def Log.Record.places (record : Record) : List HostedPlace :=
  record.atoms.flatMap fun atom => atom.junctions.entries.filterMap (Log.hostedPlace? atom.id)

namespace Log

variable {version : Version}

/-- The hosted values among written junctions are those found among the placed ones. -/
theorem hostedInJunctions_eq (atom position : Nat) (values : List (Key × StoredValue)) :
    hostedInJunctions atom position values =
      (placedJunctions position values).filterMap (hostedPlace? atom) := by
  induction values generalizing position with
  | nil => rfl
  | cons junction rest ih =>
    obtain ⟨key, value⟩ := junction
    rw [placedJunctions]
    cases value <;>
      simp only [hostedInJunctions, StoredValue.placed, hostedPlace?, List.filterMap_cons, ih]

/-- The hosted values among written atoms are those found among the placed ones. -/
theorem hostedInAtoms_eq {atoms : List StoredAtom} (fitting : ∀ atom ∈ atoms, atom.Fits version)
    (position : Nat) :
    hostedInAtoms position atoms = (placedAtoms position atoms).flatMap fun draft =>
      draft.junctions.entries.filterMap (hostedPlace? draft.id) := by
  induction atoms generalizing position with
  | nil => rfl
  | cons atom rest ih =>
    obtain ⟨fits, others⟩ := List.forall_mem_cons.mp fitting
    rw [hostedInAtoms, placedAtoms, List.flatMap_cons, ih others, hostedInJunctions_eq]
    simp only [placedAtom,
      SortedMap.entries_ofList (ascending_placedJunctions _ fits.ascending)]

/-- The writer tells the places that the reader finds. -/
theorem places_placed {record : StoredRecord} (fits : record.Fits version) (offset : Nat) :
    (record.placed offset).places = hostedPlaces offset record.ucn record.atoms := by
  rw [hostedPlaces, hostedInAtoms_eq fits.fitting, Record.places, StoredRecord.placed,
    List.flatMap_map]
  rfl

/-- Whether a particle is what a value reads back as whose payload stands in bytes from an offset
on. -/
def StandsIn (bytes : Bytes) (offset : Nat) (written : StoredValue) (found : Particle) : Prop :=
  ∃ before behind, bytes = before ++ (written.payload ++ behind) ∧
    found = written.placed (offset + before.length)

/-- A value that stands in some bytes stands in bytes around them. -/
theorem StandsIn.within {bytes front : Bytes} {offset : Nat} {written : StoredValue}
    {found : Particle} (stands : StandsIn bytes (offset + front.length) written found)
    (back : Bytes) : StandsIn (front ++ (bytes ++ back)) offset written found := by
  obtain ⟨before, behind, rfl, rfl⟩ := stands
  refine ⟨front ++ before, behind ++ back, ?_, ?_⟩
  · simp only [List.append_assoc]
  · rw [List.length_append, Nat.add_assoc]

/-- Whether junctions are read back, key by key, from where their values stand in some bytes. -/
def AllStandIn (bytes : Bytes) (offset : Nat) : List (Key × StoredValue) → List (Key × Particle) →
    Prop :=
  List.Forall₂ fun written found =>
    found.1 = written.1 ∧ StandsIn bytes offset written.2 found.2

/-- Values that stand in some bytes stand in bytes around them. -/
theorem AllStandIn.within {bytes front : Bytes} {offset : Nat} {written : List (Key × StoredValue)}
    {found : List (Key × Particle)} (stand : AllStandIn bytes (offset + front.length) written found)
    (back : Bytes) : AllStandIn (front ++ (bytes ++ back)) offset written found :=
  stand.imp fun _ _ pair => ⟨pair.1, pair.2.within back⟩

/-- Junctions stand where they are placed. -/
theorem allStandIn_placedJunctions (position : Nat) (values : List (Key × StoredValue)) :
    AllStandIn (values.flatMap junctionBytes) position values
      (placedJunctions position values) := by
  induction values generalizing position with
  | nil => exact .nil
  | cons junction rest ih =>
    obtain ⟨key, value⟩ := junction
    have first : StandsIn (junctionBytes (key, value) ++ rest.flatMap junctionBytes) position value
        (value.placed (position + (junctionLead key value).length)) := by
      refine ⟨junctionLead key value, rest.flatMap junctionBytes, ?_, rfl⟩
      rw [junctionBytes, List.append_assoc]
    have later := ih (position + (junctionBytes (key, value)).length)
    have behind := later.within []
    rw [List.append_nil] at behind
    rw [junctionBytes, List.length_append, ← Nat.add_assoc] at behind
    exact .cons ⟨rfl, first⟩ behind

/-- Atoms stand where they are placed, each under its own number. -/
theorem forall₂_placedAtoms {atoms : List StoredAtom}
    (fitting : ∀ atom ∈ atoms, atom.Fits version) (position : Nat) :
    List.Forall₂ (fun written found => found.id = written.id ∧
        AllStandIn (atoms.flatMap atomBytes) position written.values found.junctions.entries)
      atoms (placedAtoms position atoms) := by
  induction atoms generalizing position with
  | nil => exact .nil
  | cons atom rest ih =>
    obtain ⟨fits, others⟩ := List.forall_mem_cons.mp fitting
    refine .cons ⟨rfl, ?_⟩ ?_
    · have own := (allStandIn_placedJunctions (position + (atomLead atom.id).length)
        atom.values).within (rest.flatMap atomBytes)
      rw [← List.append_assoc] at own
      rw [placedAtom, SortedMap.entries_ofList (ascending_placedJunctions _ fits.ascending)]
      exact own
    · refine (ih others _).imp fun written found pair => ⟨pair.1, ?_⟩
      have behind := pair.2.within []
      rw [List.append_nil] at behind
      exact behind

/-- The values of a record are read back, atom by atom and key by key, from where they stand in what
was written of it. -/
theorem forall₂_placed {record : StoredRecord} (fits : record.Fits version) (offset : Nat) :
    List.Forall₂ (fun written found => found.id = written.id ∧
        AllStandIn record.bytes offset written.values found.junctions.entries)
      record.atoms (record.placed offset).atoms := by
  obtain ⟨last, shape⟩ : ∃ last, record.bytes =
      recordLead record.ucn ++ (record.atoms.flatMap atomBytes ++ last) := by
    simp only [StoredRecord.bytes, recordBytes, coveredBytes, List.append_assoc]
    exact ⟨_, rfl⟩
  rw [StoredRecord.placed, List.forall₂_map_right_iff, shape]
  exact (forall₂_placedAtoms fits.fitting _).imp fun _ _ pair => ⟨pair.1, pair.2.within last⟩

/-- A scan finds no record in front of the place where it begins. -/
theorem le_offset_of_mem {position last : Nat} {bytes : Bytes} {found : Record}
    (member : found ∈ (scanFrom version last position bytes).records) :
    position ≤ found.offset := by
  obtain ⟨pieces, rest, _, records, _⟩ := Grammar.exists_splits version last position bytes
  rw [records] at member
  obtain ⟨front, tree, back, _, rfl⟩ := Grammar.exists_of_mem_records member
  exact Nat.le_add_right ..

end Log

namespace DataFile

variable {file next last : DataFile} {directory written after : Directory} {threshold : Nat}

/-- Whether a particle is the place of a payload, which is read there through an open file and
through a separate reader of it. -/
def Hosts (file : DataFile) (directory : Directory) (payload : Bytes) (found : Particle) : Prop :=
  ∃ offset, found = .hosted offset payload.length ∧
    file.readHosted directory offset payload.length = .ok payload ∧
    file.hostedReader.read directory offset payload.length = .ok payload

/-- Whether a particle is what has become, in a file, of a particle that was committed to an earlier
one under a threshold. A run of bytes is hosted when the threshold is positive and the run is
longer; one that was in the file already is copied, and is hosted under any positive threshold. -/
def Became (file : DataFile) (directory : Directory) (threshold : Nat) (last : DataFile)
    (after : Directory) : Particle → Particle → Prop
  | .integer value, found => found = .integer value
  | .text value, found => found = .text value
  | .bytes payload, found =>
    if 0 < threshold ∧ threshold < payload.length then last.Hosts after payload found
    else found = .bytes payload
  | .hosted offset length, found => ∃ payload,
    file.readHosted directory offset length = .ok payload ∧
      if 0 < threshold then last.Hosts after payload found else found = .bytes payload

/-- The records of a file are those behind its header. -/
theorem scan_records (file : DataFile) (directory : Directory) :
    (file.scan directory).records = (Log.scan file.header.version file.headerLength
      ((directory.content file.path).drop file.headerLength)).records := by
  unfold scan
  simp only
  split
  · split <;> rfl
  · rfl

/-- Whether bytes are in an open file at an offset, between its header and the place of the next
record. -/
structure Holds (file : DataFile) (directory : Directory) (offset : Nat) (bytes : Bytes) : Prop where
  clear : file.Clear directory
  content : ∃ front behind, directory.content file.path = front ++ (bytes ++ behind) ∧
    front.length = offset
  headerLength_le : file.headerLength ≤ offset
  inside : offset + bytes.length ≤ file.stop

/-- What is written next is held from then on. -/
theorem holds_of_kept {bytes : Bytes} (clear : file.Clear directory)
    (kept : (file.writeNext directory bytes).2.Kept last (file.writeNext directory bytes).1 after) :
    last.Holds after file.stop bytes := by
  obtain ⟨front, count, _, size, written⟩ := clear.content_writeNext bytes
  have total : (front ++ bytes).length = file.stop + bytes.length := by
    rw [List.length_append, size]
  obtain ⟨more, content⟩ := kept.extend.exists_append written (Nat.le_of_eq total)
  refine ⟨kept.clear, ⟨front, more, ?_, size⟩, ?_, kept.extend.stop_le⟩
  · rw [content, List.append_assoc]
  · rw [kept.extend.headerLength_eq]
    exact clear.headerLength_le

variable {offset : Nat} {bytes : Bytes} {found : Particle}

/-- A hosted value of a record that a file holds is hosted by the file. -/
theorem Holds.hosts (holds : last.Holds after offset bytes) {payload : Bytes}
    (stands : Log.StandsIn bytes offset (.hosted payload) found) :
    last.Hosts after payload found := by
  obtain ⟨clear, ⟨front, behind, content, rfl⟩, long, inside⟩ := holds
  obtain ⟨before, rest, rfl, rfl⟩ := stands
  have held : after.content last.path = (front ++ before) ++ (payload ++ (rest ++ behind)) := by
    rw [content]
    simp only [StoredValue.payload, List.append_assoc]
  have read := Directory.readRange_of_content held
  rw [List.length_append] at read
  have stop_le := clear.stop_le
  simp only [StoredValue.payload, List.length_append] at inside
  refine ⟨front.length + before.length, rfl, ?_, ?_⟩
  · rw [readHosted, if_pos (by omega)]
    exact read
  · rw [HostedReader.read, if_pos]
    · exact read
    · change last.headerLength ≤ _ ∧ _ ≤ (after.content last.path).length
      omega

/-- What is written of a particle, and where it stands, tell what has become of the particle. -/
theorem Holds.became (holds : last.Holds after offset bytes) {value : StoredValue}
    {particle : Particle} (hosts : file.header.version = .two)
    (stored : file.storedValue directory (file.hosting threshold) threshold particle = .ok value)
    (stands : Log.StandsIn bytes offset value found) :
    file.Became directory threshold last after particle found := by
  have hosting : file.hosting threshold = true ↔ 0 < threshold := by
    rw [DataFile.hosting, hosts, Bool.and_eq_true, decide_eq_true_eq]
    exact and_iff_left rfl
  cases particle with
  | integer number =>
    cases stored
    obtain ⟨_, _, _, rfl⟩ := stands
    rfl
  | text text =>
    cases stored
    obtain ⟨_, _, _, rfl⟩ := stands
    rfl
  | bytes payload =>
    simp only [storedValue, hosting] at stored
    rw [Became]
    split at stored
    · rename_i long
      cases stored
      rw [if_pos long]
      exact holds.hosts stands
    · rename_i short
      cases stored
      rw [if_neg short]
      obtain ⟨_, _, _, rfl⟩ := stands
      rfl
  | hosted place length =>
    rw [storedValue] at stored
    rw [Became]
    cases read : file.readHosted directory place length with
    | error failure =>
      rw [read] at stored
      cases stored
    | ok payload =>
      refine ⟨payload, rfl, ?_⟩
      simp only [read, Except.map, hosting] at stored
      split at stored
      · rename_i positive
        cases stored
        rw [if_pos positive]
        exact holds.hosts stands
      · rename_i zero
        cases stored
        rw [if_neg zero]
        obtain ⟨_, _, _, rfl⟩ := stands
        rfl

/-- Whether atoms are what has become of drafts, one by one and key by key. -/
def AllBecame (file : DataFile) (directory : Directory) (threshold : Nat) (last : DataFile)
    (after : Directory) : List Draft → List Atom → Prop :=
  List.Forall₂ fun draft atom => atom.id = draft.id ∧
    List.Forall₂ (fun junction found => found.1 = junction.1 ∧
        file.Became directory threshold last after junction.2 found.2)
      draft.junctions.entries atom.junctions.entries

/-- The drafts of a record that a file holds have become its atoms. -/
theorem Holds.allBecame {record : StoredRecord} (holds : last.Holds after offset record.bytes)
    (fits : record.Fits file.header.version) (hosts : file.header.version = .two)
    {drafts : List Draft}
    (stored : drafts.mapM (file.storedAtom directory (file.hosting threshold) threshold) =
      .ok record.atoms) :
    file.AllBecame directory threshold last after drafts (record.placed offset).atoms := by
  refine forall₂_comp (fun draft written atom stored placed => ?_) (mapM_eq_ok_iff.mp stored)
    (Log.forall₂_placed fits offset)
  obtain ⟨sameId, values⟩ := storedAtom_eq_ok stored
  obtain ⟨id, stand⟩ := placed
  refine ⟨id.trans sameId, forall₂_comp (fun junction value found stored placed => ?_) values
    stand⟩
  obtain ⟨sameKey, stored⟩ := storedJunction_eq_ok stored
  obtain ⟨key, stands⟩ := placed
  exact ⟨key.trans sameKey, holds.became hosts stored stands⟩

variable {start : Directory} {base : DataFile} {run more : List Appending}

/-- A record that is written behind whole records is read there from then on, between these and
records that begin behind it. -/
theorem Whole.records_of_kept {records : List Record} {ends : Nat} {record : StoredRecord}
    (whole : file.Whole directory records ends) (fits : record.Fits file.header.version)
    (kept : (file.writeNext directory record.bytes).2.Kept last
      (file.writeNext directory record.bytes).1 after) :
    (∀ earlier ∈ records, earlier.offset < file.stop) ∧
      ∃ later, (last.scan after).records = records ++ record.placed file.stop :: later ∧
        ∀ found ∈ later, file.stop < found.offset := by
  obtain ⟨front, count, _, found, size, long, _, spans⟩ := whole.content_writeNext record.bytes
  rw [← List.append_assoc] at found
  have total : (front ++ record.bytes).length = file.stop + record.bytes.length := by
    rw [List.length_append, size]
  obtain ⟨rest, content⟩ := kept.extend.exists_append (Directory.content_of_file? found)
    (Nat.le_of_eq total)
  obtain ⟨reached, scanned⟩ := spans.scanFrom_behind file.headerLength
  have header : last.header = file.header := kept.header_eq
  have headerLength : last.headerLength = file.headerLength := kept.extend.headerLength_eq
  refine ⟨fun earlier member => (spans.intact earlier member).2.1, ?_⟩
  rw [scan_records, content, header, headerLength, List.append_assoc,
    List.drop_append_of_le_length long, Log.scan, scanned, List.nil_append,
    Log.scanFrom_record fits]
  refine ⟨_, rfl, fun later member => Nat.lt_of_lt_of_le ?_ (Log.le_offset_of_mem member)⟩
  obtain ⟨inside, shape, _⟩ := Log.Reader.record_of_rest fits file.stop []
  rw [shape, List.length_cons]
  omega

/-- The replay of a file that has got stuck finds the records in front of that place, and fails
there. -/
theorem Stuck.scan_eq {records : List Record} (stuck : file.Stuck directory records) :
    (file.scan directory).records = records ∧
      ∃ error, (file.scan directory).outcome = .error error := by
  obtain ⟨⟨front, behind, content, _, long, fails⟩, _⟩ := stuck
  obtain ⟨error, failed⟩ := fails behind
  have plain : Log.scan file.header.version file.headerLength
      ((directory.content file.path).drop file.headerLength) = ⟨records, .error error⟩ := by
    rw [content, List.drop_append_of_le_length long]
    exact failed
  refine ⟨by rw [scan_records, plain], ?_⟩
  cases ended : (file.scan directory).outcome with
  | error failure => exact ⟨failure, rfl⟩
  | ok stop =>
    rw [scan_of_ok ended] at plain
    cases plain

/-- A replay of a file that has grown succeeds just when all that was appended can be read back. -/
theorem Grows.replay_ok_iff (fresh : Fresh start base) (grows : Grows start base run after last) :
    (∃ result, (last.replay after collect []).2.2.2 = .ok result) ↔
      ∀ asked ∈ run, asked.Readable := by
  obtain ⟨records, ends, whole⟩ := fresh.whole
  rw [replay_collect]
  rcases grows.whole_or_stuck whole with ⟨readable, more, stop, whole⟩ | ⟨unreadable, more, stuck⟩
  · rw [whole.scan_eq]
    exact iff_of_true ⟨_, rfl⟩ readable
  · obtain ⟨_, error, failed⟩ := stuck.scan_eq
    refine iff_of_false ?_ unreadable
    rw [failed]
    exact nofun

/-- The places that an append to a file of the second version gives back are, in order and one for
one, those of the hosted values that are decoded from its record. -/
theorem append_places (fresh : Fresh start base) (grows : Grows start base run directory file)
    (hosts : file.header.version = .two) {ucn : Nat} {drafts : List Draft}
    (ucn_pos : 0 < ucn) (counted : ucn < 2 ^ 64) (fits : ∀ draft ∈ drafts, draft.Fits)
    {places : List HostedPlace}
    (appended : file.append directory ucn drafts threshold = .ok (written, next, places)) :
    ∃ record : Record, record.offset = file.stop ∧ record.ucn = ucn ∧ places = record.places ∧
      ∀ more after last, Grows written next more after last →
        file.AllBecame directory threshold last after drafts record.atoms ∧
        (∀ found ∈ (last.replay after collect []).1, found.offset = file.stop → found = record) ∧
        (record ∈ (last.replay after collect []).1 ↔ ∀ asked ∈ run, asked.Readable) ∧
        ((∃ result, (last.replay after collect []).2.2.2 = .ok result) ↔
          ∀ asked ∈ run ++ more, asked.Readable) := by
  let asked : Appending := ⟨ucn, drafts, threshold⟩
  have sized : asked.Sized := ⟨counted, fun draft member => (fits draft member).sized⟩
  have own : asked.Readable := ⟨ucn_pos, fits⟩
  have step : Grows directory file [asked] written next := Grows.refl.appended sized appended
  obtain ⟨atoms, stored, wrote, rfl⟩ := append_eq_ok appended
  let record : StoredRecord := ⟨ucn, atoms, ucn_pos⟩
  obtain ⟨_, fitting⟩ : _ ∧ record.Fits file.header.version :=
    storedAtoms_sound fits ucn_pos counted stored
  obtain rfl : (file.writeNext directory record.bytes).1 = written := congrArg Prod.fst wrote
  obtain rfl : (file.writeNext directory record.bytes).2 = next := congrArg Prod.snd wrote
  obtain ⟨records, ends, whole⟩ := fresh.whole
  have clear := (grows.kept whole.clear).clear
  refine ⟨record.placed file.stop, rfl, rfl, (Log.places_placed fitting file.stop).symm, ?_⟩
  intro more after last later
  have kept := later.kept (clear.writeNext record.bytes)
  refine ⟨(holds_of_kept clear kept).allBecame fitting hosts stored, ?_⟩
  rw [← and_assoc]
  constructor
  · rw [replay_collect]
    rcases grows.whole_or_stuck whole with
      ⟨readable, _, stop, whole⟩ | ⟨unreadable, before, stuck⟩
    · obtain ⟨below, behind, scanned, above⟩ := whole.records_of_kept fitting kept
      rw [scanned]
      refine ⟨fun found member place => ?_, iff_of_true ?_ readable⟩
      · rcases List.mem_append.mp member with early | late
        · exact absurd place (Nat.ne_of_lt (below found early))
        · rcases List.mem_cons.mp late with here | late
          · exact here
          · exact absurd place (Nat.ne_of_gt (above found late))
      · exact List.mem_append_right _ List.mem_cons_self
    · have scanned := (stuck.grow ((step.trans later).kept clear)).scan_eq.1
      rw [scanned]
      refine ⟨fun found member place => ?_, iff_of_false (fun member => ?_) unreadable⟩
      · exact absurd place (Nat.ne_of_lt (stuck.below found member))
      · exact Nat.lt_irrefl _ (stuck.below _ member)
  · rw [(((grows.trans step).trans later).replay_ok_iff fresh), List.append_assoc]
    simp only [List.forall_mem_append, List.forall_mem_singleton, and_iff_right own]

/-- A run of three bytes, committed in memory first and then, behind pad bytes, under a threshold of
two. -/
theorem append_places_behind_commit :
    let draft : Draft := ⟨7, .ofList [(1, .bytes [1, 2, 3])]⟩
    ∃ start base directory file written next places record,
      Fresh start base ∧ Grows start base [⟨1, [draft], 0⟩] directory file ∧
      file.header.version = .two ∧
      file.append directory 2 [draft] 2 = .ok (written, next, places) ∧
      record.offset = file.stop ∧ places = Log.Record.places record ∧
      file.AllBecame directory 2 next written [draft] record.atoms ∧
      record ∈ (next.replay written collect []).1 := by
  intro draft
  obtain ⟨start, base, created, writable, hosts⟩ : ∃ start base,
      create {} "log" .zero 2 .empty false = .ok (start, base) ∧ base.readOnly = false ∧
        base.header.version = .two := ⟨_, _, rfl, rfl, rfl⟩
  obtain ⟨between, middle, _, appended, writable, hosts⟩ : ∃ between middle places,
      base.append start 1 [draft] 0 = .ok (between, middle, places) ∧ middle.readOnly = false ∧
        middle.header.version = .two := by
    simp only [append_eq, writable, Bool.false_eq_true, ↓reduceIte]
    exact ⟨_, _, _, rfl, writable, hosts⟩
  obtain ⟨directory, file, padded, writable, hosts⟩ : ∃ directory file,
      middle.pad between 3 = .ok (directory, file) ∧ file.readOnly = false ∧
        file.header.version = .two := by
    simp only [pad, writable, Bool.false_eq_true, ↓reduceIte]
    exact ⟨_, _, rfl, writable, hosts⟩
  obtain ⟨written, next, places, hosting⟩ : ∃ written next places,
      file.append directory 2 [draft] 2 = .ok (written, next, places) := by
    simp only [append_eq, writable, Bool.false_eq_true, ↓reduceIte]
    exact ⟨_, _, _, rfl⟩
  have fits : ∀ draft' ∈ [draft], draft'.Fits :=
    List.forall_mem_singleton.mpr ⟨by decide, by decide⟩
  have sized : Appending.Sized ⟨1, [draft], 0⟩ :=
    ⟨by decide, fun draft' member => (fits draft' member).sized⟩
  have readable : ∀ asked ∈ [(⟨1, [draft], 0⟩ : Appending)], asked.Readable :=
    List.forall_mem_singleton.mpr ⟨by decide, fits⟩
  have fresh := Fresh.created created
  have grows := (Grows.refl.appended sized appended).padded padded
  obtain ⟨record, place, _, same, later⟩ :=
    append_places fresh grows hosts (by decide) (by decide) fits hosting
  obtain ⟨became, _, read, _⟩ := later [] written next .refl
  exact ⟨start, base, directory, file, written, next, places, record, fresh, grows, hosts, hosting,
    place, same, became, read.mpr readable⟩

end DataFile
end AtomStore
