import AtomStore.DataFile

/-!
# The shared buffer

A record can be put together piece by piece in a buffer that one append leaves to the next. The
buffer is emptied first; a value that cannot be read stops the filling and leaves a part of the
record in it. Such appends do what an append does that looks all values up before it writes
anything, also after others that have failed.
-/

namespace AtomStore

open Log (StoredAtom StoredValue HostedPlace)

namespace Log

/-- The hosted values of some junctions are those of the first one and, further on, those of the
rest. -/
theorem hostedInJunctions_cons (atom position : Nat) (junction : Key × StoredValue)
    (rest : List (Key × StoredValue)) :
    hostedInJunctions atom position (junction :: rest) =
      hostedInJunctions atom position [junction] ++
        hostedInJunctions atom (position + (junctionBytes junction).length) rest := by
  obtain ⟨key, value⟩ := junction
  rw [junctionBytes, List.length_append, ← Nat.add_assoc]
  cases value <;> rfl

/-- The hosted values of some atoms are those of the first one and, further on, those of the
rest. -/
theorem hostedInAtoms_cons (position : Nat) (atom : StoredAtom) (rest : List StoredAtom) :
    hostedInAtoms position (atom :: rest) =
      hostedInAtoms position [atom] ++ hostedInAtoms (position + (atomBytes atom).length) rest := by
  rw [hostedInAtoms, hostedInAtoms, hostedInAtoms, List.append_nil]

/-- The place of hosted bytes when what is before them grows. -/
def HostedPlace.shift (distance : Nat) (place : HostedPlace) : HostedPlace :=
  { place with offset := place.offset + distance }

/-- Junctions written further on have their hosted values further on. -/
theorem hostedInJunctions_shift (atom position distance : Nat)
    (values : List (Key × StoredValue)) :
    hostedInJunctions atom (position + distance) values =
      (hostedInJunctions atom position values).map (HostedPlace.shift distance) := by
  induction values generalizing position with
  | nil => rfl
  | cons junction rest ih =>
    obtain ⟨key, value⟩ := junction
    rw [hostedInJunctions_cons, hostedInJunctions_cons atom position, List.map_append, ← ih,
      Nat.add_right_comm]
    congr 1
    cases value with
    | hosted payload => simp only [hostedInJunctions, List.map_cons, List.map_nil,
        HostedPlace.shift, Nat.add_right_comm]
    | _ => rfl

/-- Atoms written further on have their hosted values further on. -/
theorem hostedInAtoms_shift (position distance : Nat) (atoms : List StoredAtom) :
    hostedInAtoms (position + distance) atoms =
      (hostedInAtoms position atoms).map (HostedPlace.shift distance) := by
  induction atoms generalizing position with
  | nil => rfl
  | cons atom rest ih =>
    rw [hostedInAtoms, hostedInAtoms, List.map_append, ← ih, Nat.add_right_comm,
      hostedInJunctions_shift, Nat.add_right_comm]

end Log

/-- A buffer that is being filled, with the places of the hosted bytes in it so far. -/
structure Filling where
  buffer : Bytes
  places : List HostedPlace

namespace Filling

/-- Pushes items one after the other until one of them fails. -/
def pushAll {α : Type} (push : Filling → α → Filling × Option LogError) (filling : Filling) :
    List α → Filling × Option LogError
  | [] => (filling, none)
  | item :: rest =>
    match push filling item with
    | (next, none) => pushAll push next rest
    | (stopped, some error) => (stopped, some error)

/-- Pushing an item fails when it cannot be stored, and otherwise puts the bytes of what is stored
behind the buffer. -/
structure Pushes {α β : Type} (push : Filling → α → Filling × Option LogError)
    (store : α → Except LogError β) (bytes : β → Bytes)
    (places : Nat → β → List HostedPlace) : Prop where
  failed : ∀ filling item error, store item = .error error → (push filling item).2 = some error
  pushed : ∀ filling item stored, store item = .ok stored → push filling item =
    (⟨filling.buffer ++ bytes stored, filling.places ++ places filling.buffer.length stored⟩, none)

/-- Pushing items one by one writes their bytes behind each other, and stops at the first that
cannot be stored. -/
theorem Pushes.all {α β : Type} {push : Filling → α → Filling × Option LogError}
    {store : α → Except LogError β} {bytes : β → Bytes} {places : Nat → List β → List HostedPlace}
    (pushes : Pushes push store bytes fun position stored => places position [stored])
    (nothing : ∀ position, places position [] = [])
    (several : ∀ position first rest, places position (first :: rest) =
      places position [first] ++ places (position + (bytes first).length) rest) :
    Pushes (pushAll push) (fun items => items.mapM store) (fun stored => stored.flatMap bytes)
      places where
  failed filling items error stopped := by
    induction items generalizing filling with
    | nil => cases stopped
    | cons item rest ih =>
      simp only [List.mapM_cons] at stopped
      cases head : store item with
      | error failure =>
        rw [head] at stopped
        cases stopped
        have here := pushes.failed filling item error head
        rw [pushAll]
        split
        · rename_i went
          rw [went] at here
          cases here
        · rename_i went
          rw [went] at here
          exact here
      | ok stored =>
        rw [pushAll, pushes.pushed filling item stored head]
        cases tail : rest.mapM store with
        | error failure =>
          rw [head, tail] at stopped
          cases stopped
          exact ih _ tail
        | ok others =>
          rw [head, tail] at stopped
          cases stopped
  pushed filling items stored kept := by
    induction items generalizing filling stored with
    | nil =>
      simp only [List.mapM_nil] at kept
      cases kept
      rw [pushAll, List.flatMap_nil, nothing, List.append_nil, List.append_nil]
    | cons item rest ih =>
      rw [List.mapM_cons] at kept
      cases head : store item with
      | error failure =>
        rw [head] at kept
        cases kept
      | ok first =>
        cases tail : rest.mapM store with
        | error failure =>
          rw [head, tail] at kept
          cases kept
        | ok others =>
          rw [head, tail] at kept
          cases kept
          rw [pushAll, pushes.pushed filling item first head]
          simp only
          rw [ih _ others tail, List.flatMap_cons, several _ first others, List.length_append,
            List.append_assoc, List.append_assoc]

end Filling

namespace DataFile

variable (file : DataFile) (directory : Directory) (hosting : Bool) (threshold : Nat)

/-- Pushes a junction of an atom; hosted bytes leave their place. -/
def pushJunction (atom : Nat) (filling : Filling) (junction : Key × Particle) :
    Filling × Option LogError :=
  match file.storedValue directory hosting threshold junction.2 with
  | .error error => (filling, some error)
  | .ok value =>
    let lead := filling.buffer ++ Log.junctionLead junction.1 value
    let places := match value with
      | .hosted payload => [⟨atom, junction.1, lead.length, payload.length⟩]
      | _ => []
    (⟨lead ++ value.payload, filling.places ++ places⟩, none)

def pushAtom (filling : Filling) (draft : Draft) : Filling × Option LogError :=
  Filling.pushAll (file.pushJunction directory hosting threshold draft.id)
    { filling with buffer := filling.buffer ++ Log.atomLead draft.id } draft.junctions.entries

/-- Fills an empty buffer with a record. -/
def fillRecord (ucn : Nat) (drafts : List Draft) : Filling × Option LogError :=
  match Filling.pushAll (file.pushAtom directory hosting threshold) ⟨Log.recordLead ucn, []⟩
      drafts with
  | (filling, some error) => (filling, some error)
  | (filling, none) =>
    let covered := filling.buffer ++ [Log.atomsEnd]
    (⟨covered ++ Log.wordBytes (Checksum.ofBytes covered) ++ [Log.recordEnd], filling.places⟩, none)

/-- A junction is pushed as it is stored, or refused with the error of storing it. -/
theorem pushes_junction (atom : Nat) :
    Filling.Pushes (file.pushJunction directory hosting threshold atom)
      (file.storedJunction directory hosting threshold) Log.junctionBytes
      fun position stored => Log.hostedInJunctions atom position [stored] where
  failed filling junction error stopped := by
    rw [storedJunction] at stopped
    cases stored : file.storedValue directory hosting threshold junction.2 with
    | error failure =>
      rw [stored] at stopped
      cases stopped
      rw [pushJunction, stored]
    | ok value =>
      rw [stored] at stopped
      cases stopped
  pushed filling junction written kept := by
    rw [storedJunction] at kept
    cases stored : file.storedValue directory hosting threshold junction.2 with
    | error failure =>
      rw [stored] at kept
      cases kept
    | ok value =>
      rw [stored] at kept
      cases kept
      rw [pushJunction, stored]
      simp only [Log.junctionBytes, List.append_assoc, List.length_append]
      cases value <;> rfl

/-- An atom is pushed as it is stored, or refused with the error of storing it. -/
theorem pushes_atom :
    Filling.Pushes (file.pushAtom directory hosting threshold)
      (file.storedAtom directory hosting threshold) Log.atomBytes
      fun position stored => Log.hostedInAtoms position [stored] where
  failed filling draft error stopped := by
    rw [storedAtom] at stopped
    cases stored : draft.junctions.entries.mapM (file.storedJunction directory hosting threshold)
    with
    | error failure =>
      rw [stored] at stopped
      cases stopped
      exact ((file.pushes_junction directory hosting threshold draft.id).all (fun _ => rfl)
        (Log.hostedInJunctions_cons draft.id)).failed _ _ _ stored
    | ok values =>
      rw [stored] at stopped
      cases stopped
  pushed filling draft written kept := by
    rw [storedAtom] at kept
    cases stored : draft.junctions.entries.mapM (file.storedJunction directory hosting threshold)
    with
    | error failure =>
      rw [stored] at kept
      cases kept
    | ok values =>
      rw [stored] at kept
      cases kept
      have pushed := ((file.pushes_junction directory hosting threshold draft.id).all
        (fun _ => rfl) (Log.hostedInJunctions_cons draft.id)).pushed
          { filling with buffer := filling.buffer ++ Log.atomLead draft.id } _ _ stored
      rw [pushAtom, pushed, Log.atomBytes, Log.hostedInAtoms, Log.hostedInAtoms, List.append_nil,
        List.length_append, List.append_assoc]

/-- When all drafts can be stored, the buffer is filled with their record and nothing else. -/
theorem fillRecord_eq_ok {ucn : Nat} {drafts : List Draft} {atoms : List StoredAtom}
    (stored : drafts.mapM (file.storedAtom directory hosting threshold) = .ok atoms) :
    file.fillRecord directory hosting threshold ucn drafts =
      (⟨Log.recordBytes ucn atoms, Log.hostedPlaces 0 ucn atoms⟩, none) := by
  have pushed := ((file.pushes_atom directory hosting threshold).all (fun _ => rfl)
    Log.hostedInAtoms_cons).pushed ⟨Log.recordLead ucn, []⟩ drafts atoms stored
  rw [fillRecord, pushed]
  simp only [Log.recordBytes, Log.coveredBytes, Log.hostedPlaces, List.nil_append, Nat.zero_add]

/-- A draft that cannot be stored stops the filling with its error. -/
theorem fillRecord_eq_error (ucn : Nat) {drafts : List Draft} {error : LogError}
    (stopped : drafts.mapM (file.storedAtom directory hosting threshold) = .error error) :
    ∃ filling, file.fillRecord directory hosting threshold ucn drafts = (filling, some error) := by
  have failed := ((file.pushes_atom directory hosting threshold).all (fun _ => rfl)
    Log.hostedInAtoms_cons).failed ⟨Log.recordLead ucn, []⟩ drafts error stopped
  rw [fillRecord]
  split
  · rename_i went
    rw [went] at failed
    exact ⟨_, congrArg _ failed⟩
  · rename_i went
    rw [went] at failed
    cases failed

end DataFile

structure BufferedFile where
  file : DataFile
  buffer : Bytes

namespace BufferedFile

/-- Appends the record of a commit through the buffer, which keeps whatever was put into it. -/
def append (buffered : BufferedFile) (directory : Directory) (ucn : Nat) (drafts : List Draft)
    (threshold : Nat) : Directory × BufferedFile × Except LogError (List HostedPlace) :=
  let file := buffered.file
  if file.readOnly then (directory, buffered, .error .readOnly)
  else
    match file.fillRecord directory (file.hosting threshold) threshold ucn drafts with
    | (filling, some error) => (directory, ⟨file, filling.buffer⟩, .error error)
    | (filling, none) =>
      let (written, next) := file.writeNext directory filling.buffer
      (written, ⟨next, filling.buffer⟩, .ok (filling.places.map (.shift file.stop)))

/-- Appending through a buffer does what appending does, whatever the buffer holds. -/
theorem append_eq (buffered : BufferedFile) (directory : Directory) (ucn : Nat)
    (drafts : List Draft) (threshold : Nat) :
    ∃ left, buffered.append directory ucn drafts threshold =
      match buffered.file.append directory ucn drafts threshold with
      | .ok (written, next, places) => (written, ⟨next, left⟩, .ok places)
      | .error error => (directory, ⟨buffered.file, left⟩, .error error) := by
  obtain ⟨file, buffer⟩ := buffered
  rw [append, DataFile.append_eq]
  cases readOnly : file.readOnly with
  | true => exact ⟨buffer, rfl⟩
  | false =>
    simp only [Bool.false_eq_true, ↓reduceIte]
    cases stored : drafts.mapM (file.storedAtom directory (file.hosting threshold) threshold) with
    | error failure =>
      obtain ⟨filling, stopped⟩ := file.fillRecord_eq_error directory _ threshold ucn stored
      rw [stopped]
      exact ⟨filling.buffer, rfl⟩
    | ok atoms =>
      rw [file.fillRecord_eq_ok directory _ threshold stored]
      refine ⟨Log.recordBytes ucn atoms, ?_⟩
      have shifted := Log.hostedInAtoms_shift (Log.recordLead ucn).length file.stop atoms
      simp only [Log.hostedPlaces, Except.map, Nat.zero_add, ← shifted,
        Nat.add_comm file.stop]

end BufferedFile

/-- What an append is asked to write. -/
structure Appending where
  ucn : Nat
  drafts : List Draft
  threshold : Nat

/-- The appends of a run, one after the other. One that fails leaves the file as it was. -/
def DataFile.appendAll (file : DataFile) (directory : Directory) :
    List Appending → Directory × DataFile × List (Except LogError (List HostedPlace))
  | [] => (directory, file, [])
  | next :: rest =>
    match file.append directory next.ucn next.drafts next.threshold with
    | .ok (written, grown, places) =>
      let (last, reached, results) := grown.appendAll written rest
      (last, reached, .ok places :: results)
    | .error error =>
      let (last, reached, results) := file.appendAll directory rest
      (last, reached, .error error :: results)

namespace BufferedFile

/-- The same run through one buffer. -/
def appendAll (buffered : BufferedFile) (directory : Directory) :
    List Appending → Directory × BufferedFile × List (Except LogError (List HostedPlace))
  | [] => (directory, buffered, [])
  | next :: rest =>
    let (written, grown, result) :=
      buffered.append directory next.ucn next.drafts next.threshold
    let (last, reached, results) := grown.appendAll written rest
    (last, reached, result :: results)

/-- A run of appends through one buffer does what the run does without it: nothing that an append
has put into the buffer, be it a whole record or a part of one, gets into the file later. -/
theorem appendAll_eq (buffered : BufferedFile) (directory : Directory) (run : List Appending) :
    ∃ left, buffered.appendAll directory run =
      ((buffered.file.appendAll directory run).1,
        ⟨(buffered.file.appendAll directory run).2.1, left⟩,
        (buffered.file.appendAll directory run).2.2) := by
  induction run generalizing buffered directory with
  | nil => exact ⟨buffered.buffer, rfl⟩
  | cons next rest ih =>
    obtain ⟨between, appended⟩ :=
      buffered.append_eq directory next.ucn next.drafts next.threshold
    rw [appendAll, appended, DataFile.appendAll]
    cases buffered.file.append directory next.ucn next.drafts next.threshold with
    | error failure =>
      obtain ⟨left, later⟩ := ih ⟨buffered.file, between⟩ directory
      exact ⟨left, by simp only [later]⟩
    | ok done =>
      obtain ⟨written, grown, places⟩ := done
      obtain ⟨left, later⟩ := ih ⟨grown, between⟩ written
      exact ⟨left, by simp only [later]⟩

/-- Appends that fail leave nothing for the next one to write: through whatever is in the buffer it
writes the record that it writes alone. -/
theorem appendAll_of_failed {file grown : DataFile} {directory written : Directory}
    {asked : Appending} {places : List HostedPlace} {run : List Appending}
    (appended : file.append directory asked.ucn asked.drafts asked.threshold =
      .ok (written, grown, places))
    (failed : ∀ result ∈ (file.appendAll directory run).2.2, ∃ error, result = .error error)
    (buffer : Bytes) :
    ∃ left, (BufferedFile.mk file buffer).appendAll directory (run ++ [asked]) =
      (written, ⟨grown, left⟩, (file.appendAll directory run).2.2 ++ [.ok places]) := by
  have plain : file.appendAll directory (run ++ [asked]) =
      (written, grown, (file.appendAll directory run).2.2 ++ [.ok places]) := by
    induction run with
    | nil =>
      have alone : file.appendAll directory [asked] = (written, grown, [.ok places]) := by
        simp only [DataFile.appendAll, appended]
      exact alone
    | cons next rest ih =>
      rw [DataFile.appendAll] at failed
      rw [List.cons_append, DataFile.appendAll, DataFile.appendAll]
      cases step : file.append directory next.ucn next.drafts next.threshold with
      | ok result =>
        obtain ⟨between, middle, held⟩ := result
        rw [step] at failed
        obtain ⟨error, impossible⟩ := failed _ List.mem_cons_self
        cases impossible
      | error error =>
        rw [step] at failed
        simp only
        rw [ih fun result member => failed result (List.mem_cons_of_mem _ member)]
        rfl
  obtain ⟨left, through⟩ := (BufferedFile.mk file buffer).appendAll_eq directory (run ++ [asked])
  exact ⟨left, by rw [through, plain]⟩

end BufferedFile
end AtomStore
