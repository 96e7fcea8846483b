import AtomStore.Proofs.Store.Slots
import AtomStore.Store.Recovery
import Mathlib.Algebra.Order.Ring.Nat

/-!
# Tables made of records

A table of slots is recovered from records by taking them in, one after the other, from an empty
table on. Their UCNs ascend and no slot is filled twice, so none is refused; the table then holds
exactly the atoms of the records, and its next UCN is behind that of the last one.
-/

namespace AtomStore

/-- A table that has taken in some records, none of which was refused. -/
inductive Recovered : Slots → List Log.Record → Prop where
  | nothing : Recovered .empty []
  | taken {slots next : Slots} {records : List Log.Record} {record : Log.Record}
      (before : Recovered slots records) (ordered : slots.ucn ≤ record.ucn)
      (distinct : (record.atoms.map (·.id)).Nodup)
      (free : ∀ atom ∈ record.atoms, slots.atom? atom.id = none)
      (took : slots.takeRecord record = (next, none)) :
      Recovered next (records ++ [record])

namespace Recovered

variable {slots : Slots} {records : List Log.Record}

/-- One more record with a later UCN and free slots can be taken in. -/
theorem next {record : Log.Record} (before : Recovered slots records)
    (ordered : slots.ucn ≤ record.ucn) (distinct : (record.atoms.map (·.id)).Nodup)
    (free : ∀ atom ∈ record.atoms, slots.atom? atom.id = none) :
    ∃ next, Recovered next (records ++ [record]) ∧ next.ucn = record.ucn + 1 ∧
      next.committed = slots.committed + record.atoms.length ∧
      ∀ id, next.atom? id = (atomFor? record.atoms id).or (slots.atom? id) := by
  obtain ⟨next, took, counts⟩ := Slots.takeRecord_of_free ordered distinct free
  exact ⟨next, .taken before ordered distinct free took, counts⟩

/-- The first records of a table are those of a table. -/
theorem take (recovered : Recovered slots records) (count : Nat) :
    ∃ earlier, Recovered earlier (records.take count) := by
  induction recovered with
  | nothing =>
    rw [List.take_nil]
    exact ⟨.empty, .nothing⟩
  | @taken slots next records record before ordered distinct free took ih =>
    by_cases all : records.length < count
    · rw [List.take_of_length_le (by rw [List.length_append, List.length_singleton]; omega)]
      exact ⟨next, .taken before ordered distinct free took⟩
    · rw [List.take_append_of_le_length (Nat.le_of_not_lt all)]
      exact ih

/-- The table holds exactly the atoms of the records. -/
theorem atom?_eq_some_iff (recovered : Recovered slots records) {id : Nat} {atom : Atom} :
    slots.atom? id = some atom ↔ ∃ record ∈ records, atom ∈ record.atoms ∧ atom.id = id := by
  induction recovered with
  | nothing =>
    constructor
    · intro held
      cases held
    · intro given
      obtain ⟨_, impossible, _⟩ := given
      cases impossible
  | @taken slots next records record before ordered distinct free took ih =>
    obtain ⟨same, taken, _, _, held⟩ := Slots.takeRecord_of_free ordered distinct free
    obtain rfl : same = next := (Prod.mk.inj (taken.symm.trans took)).1
    rw [held]
    cases found : atomFor? record.atoms id with
    | some other =>
      obtain ⟨inside, numbered⟩ := (atomFor?_eq_some_iff distinct).mp found
      rw [Option.some_or, Option.some.injEq]
      constructor
      · rintro rfl
        exact ⟨record, List.mem_append_right _ List.mem_cons_self, inside, numbered⟩
      · intro given
        obtain ⟨holder, among, member, rfl⟩ := given
        rcases List.mem_append.mp among with earlier | last
        · have present := ih.mpr ⟨holder, earlier, member, rfl⟩
          rw [← numbered, free other inside] at present
          cases present
        · obtain rfl := List.mem_singleton.mp last
          have again := (atomFor?_eq_some_iff distinct).mpr ⟨member, rfl⟩
          exact Option.some.inj (found.symm.trans again)
    | none =>
      rw [Option.none_or, ih]
      constructor
      · intro given
        obtain ⟨holder, earlier, member⟩ := given
        exact ⟨holder, List.mem_append_left _ earlier, member⟩
      · intro given
        obtain ⟨holder, among, member, same⟩ := given
        rcases List.mem_append.mp among with earlier | last
        · exact ⟨holder, earlier, member, same⟩
        · obtain rfl := List.mem_singleton.mp last
          exact absurd same (atomFor?_eq_none_iff.mp found atom member)

/-- A recovered table goes on behind the UCN of its last record. -/
theorem ucn_eq (recovered : Recovered slots records) :
    slots.ucn = (records.getLast?.map (·.ucn + 1)).getD 1 := by
  cases recovered with
  | nothing => rfl
  | taken before ordered distinct free took =>
    obtain ⟨next, taken, ucn, _⟩ := Slots.takeRecord_of_free ordered distinct free
    rw [(Prod.mk.inj (taken.symm.trans took)).1] at ucn
    rw [ucn, List.getLast?_concat]
    rfl

end Recovered

/-- Records may be fed in two parts. -/
theorem Log.feed_append {σ : Type} {consume : σ → Log.Record → σ × Option LogError}
    {state reached : σ} {taken held count atoms : Nat} {first : List Log.Record}
    (fed : Log.feed consume state taken held first = (reached, count, atoms, none))
    (second : List Log.Record) :
    Log.feed consume state taken held (first ++ second) =
      Log.feed consume reached count atoms second := by
  induction first generalizing state taken held with
  | nil =>
    cases fed
    rfl
  | cons record rest ih =>
    rw [List.cons_append, Log.feed]
    rw [Log.feed] at fed
    cases consumed : consume state record with
    | mk next refusal =>
      rw [consumed] at fed
      cases refusal with
      | some reason => cases fed
      | none => exact ih fed

/-- A replay of the records takes in all of them. -/
theorem Recovered.feed_eq {slots : Slots} {records : List Log.Record}
    (recovered : Recovered slots records) :
    Log.feed Slots.takeRecord .empty 0 0 records =
      (slots, records.length, (records.map fun record => record.atoms.length).sum, none) := by
  induction recovered with
  | nothing => rfl
  | @taken slots next records record before ordered distinct free took ih =>
    rw [Log.feed_append ih, Log.feed, took]
    simp only [Log.feed, List.length_append, List.length_singleton, List.map_append, List.map_cons,
      List.map_nil, List.sum_append, List.sum_singleton]

/-- A replay that refuses no record has recovered the table from all of them. -/
theorem Recovered.of_feed {slots taken : Slots} {earlier records : List Log.Record}
    {held total count atoms : Nat} (before : Recovered slots earlier)
    (fed : Log.feed Slots.takeRecord slots held total records = (taken, count, atoms, none)) :
    Recovered taken (earlier ++ records) := by
  induction records generalizing slots earlier held total with
  | nil =>
    cases fed
    rw [List.append_nil]
    exact before
  | cons record rest ih =>
    rw [Log.feed] at fed
    cases took : slots.takeRecord record with
    | mk next refusal =>
      rw [took] at fed
      cases refusal with
      | some reason => cases fed
      | none =>
        obtain ⟨ordered, distinct, free⟩ := Slots.free_of_takeRecord took
        have all := ih (.taken before ordered distinct free took) fed
        rw [List.append_assoc] at all
        exact all

namespace DataFile

variable {file : DataFile} {directory : Directory} {slots taken : Slots} {count atoms : Nat}
  {repair : Bool}

/-- A replay into an empty table takes in all records that the scan finds. -/
theorem replay_eq_of_recovered {placed : List Log.Record} {outcome : Except LogError Nat}
    (recovered : Recovered taken placed) (scanned : file.scan directory = ⟨placed, outcome⟩) :
    file.replay directory Slots.takeRecord .empty =
      (taken, placed.length, (placed.map fun record => record.atoms.length).sum,
        outcome.map fun stop =>
          (⟨placed.length, (placed.map fun record => record.atoms.length).sum, stop⟩,
            { file with stop })) := by
  rw [replay, scanned, Log.Scan.deliver, recovered.feed_eq]
  cases outcome <;> rfl

/-- A replay that succeeds leaves the directory, and gives up missing slots. -/
theorem recover_of_replay {summary : Log.Summary} {read : DataFile}
    (replayed : file.replay directory Slots.takeRecord slots =
      (taken, count, atoms, .ok (summary, read))) :
    file.recover directory slots repair = ⟨taken.settle.2, directory, read, .ok summary⟩ := by
  rw [recover, replayed]

/-- A torn record is cut off a file that may be written. -/
theorem recover_of_truncated {offset : Nat}
    (replayed : file.replay directory Slots.takeRecord slots =
      (taken, count, atoms, .error (.truncated offset)))
    (behind : file.headerLength ≤ offset) (writable : file.readOnly = false) :
    file.recover directory slots true =
      ⟨taken.settle.2, directory.write file.path (resize (directory.content file.path) offset),
        { file with stop := offset }, .ok ⟨count, atoms, offset⟩⟩ := by
  rw [recover, replayed]
  simp only [writable, Bool.not_false, Bool.and_self, ↓reduceIte, truncate, Bool.false_eq_true,
    Nat.not_lt.mpr behind]

/-- Every other failure of the replay is reported and nothing is changed. -/
theorem recover_of_error {error : LogError}
    (replayed : file.replay directory Slots.takeRecord slots = (taken, count, atoms, .error error))
    (kept : (∀ offset, error ≠ .truncated offset) ∨ file.readOnly = true) :
    file.recover directory slots repair = ⟨taken, directory, file, .error error⟩ := by
  rw [recover, replayed]
  cases error with
  | truncated offset =>
    have fixed : file.readOnly = true := kept.resolve_left fun other => other offset rfl
    simp only [fixed, Bool.not_true, Bool.and_false, Bool.false_eq_true, ↓reduceIte]
  | _ => rfl

/-- A refused record is never reported as cut short. -/
theorem refusal_of_feed {state last : Slots} {records : List Log.Record} {held total : Nat}
    {refusal : LogError}
    (fed : Log.feed Slots.takeRecord state held total records = (last, count, atoms, some refusal))
    (offset : Nat) : refusal ≠ .truncated offset := by
  induction records generalizing state held total with
  | nil => cases fed
  | cons record rest ih =>
    rw [Log.feed] at fed
    cases consumed : state.takeRecord record with
    | mk next refused =>
      rw [consumed] at fed
      cases refused with
      | none => exact ih fed
      | some reason =>
        cases fed
        intro same
        rw [same, Slots.takeRecord] at consumed
        split at consumed
        · cases consumed
        · split at consumed
          · cases consumed
          · cases consumed

/-- A recovery takes in all records that the scan finds, and then has met the end, or has cut off a
torn record as it was asked to. Otherwise it fails and leaves the directory as it is. -/
theorem recover_cases (file : DataFile) (directory : Directory) (slots : Slots) (repair : Bool) :
    (∃ taken count atoms stop,
        Log.feed Slots.takeRecord slots 0 0 (file.scan directory).records =
          (taken, count, atoms, none) ∧
        (file.scan directory).outcome = .ok stop ∧
        file.recover directory slots repair =
          ⟨taken.settle.2, directory, { file with stop }, .ok ⟨count, atoms, stop⟩⟩) ∨
      (∃ taken count atoms offset cut shorter,
        Log.feed Slots.takeRecord slots 0 0 (file.scan directory).records =
          (taken, count, atoms, none) ∧
        (file.scan directory).outcome = .error (.truncated offset) ∧
        repair = true ∧ file.readOnly = false ∧
        file.truncate directory offset = .ok (cut, shorter) ∧
        file.recover directory slots repair =
          ⟨taken.settle.2, cut, shorter, .ok ⟨count, atoms, offset⟩⟩) ∨
      ∃ error, (file.recover directory slots repair).outcome = .error error ∧
        (file.recover directory slots repair).directory = directory := by
  rw [recover, replay, Log.Scan.deliver]
  cases fed : Log.feed Slots.takeRecord slots 0 0 (file.scan directory).records with
  | mk taken rest =>
    obtain ⟨count, atoms, refusal⟩ := rest
    cases refusal with
    | some refusal =>
      right
      right
      have unlike := refusal_of_feed fed
      cases refusal with
      | truncated offset => exact absurd rfl (unlike offset)
      | _ => exact ⟨_, rfl, rfl⟩
    | none =>
      cases ended : (file.scan directory).outcome with
      | ok stop => exact .inl ⟨taken, count, atoms, stop, rfl, rfl, rfl⟩
      | error error =>
        right
        cases error with
        | truncated offset =>
          by_cases allowed : (repair && !file.readOnly) = true
          · obtain ⟨asked, writable⟩ := Bool.and_eq_true_iff.mp allowed
            cases done : file.truncate directory offset with
            | error error =>
              right
              simp only [Except.map, allowed, ↓reduceIte, done]
              exact ⟨error, rfl, trivial⟩
            | ok result =>
              obtain ⟨cut, shorter⟩ := result
              left
              have fixed : file.readOnly = false := by
                rw [Bool.not_eq_true'] at writable
                exact writable
              refine ⟨taken, count, atoms, offset, cut, shorter, rfl, rfl, asked, fixed, done, ?_⟩
              simp only [Except.map, allowed, ↓reduceIte, done]
          · right
            simp only [Except.map, allowed, Bool.false_eq_true, ↓reduceIte]
            exact ⟨_, rfl, trivial⟩
        | _ => exact .inr ⟨_, rfl, rfl⟩

/-- A recovery that succeeds leaves the file as writable as it was. -/
theorem readOnly_of_recover {file : DataFile} {directory : Directory} {slots : Slots}
    {repair : Bool} {summary : Log.Summary}
    (recovered : (file.recover directory slots repair).outcome = .ok summary) :
    (file.recover directory slots repair).file.readOnly = file.readOnly := by
  rcases file.recover_cases directory slots repair with ⟨_, _, _, _, _, _, done⟩ |
    ⟨_, _, _, _, _, _, _, _, _, _, truncated, done⟩ | ⟨_, failed, _⟩
  · rw [done]
  · rw [done]
    unfold truncate at truncated
    split at truncated
    · cases truncated
    · split at truncated
      · cases truncated
      · cases truncated
        rfl
  · rw [failed] at recovered
    cases recovered

end DataFile
end AtomStore
