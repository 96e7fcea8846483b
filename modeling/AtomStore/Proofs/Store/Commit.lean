import AtomStore.Proofs.SortedMap
import AtomStore.Proofs.Store.Slots
import AtomStore.Store.Transaction

/-!
# Commits

A transaction that owns its reserved slots ends in one of three ways. Its commit fails and leaves
nothing behind but empty slots; nothing is left to commit; or the record of its kept drafts is
written, if the store has a file, and the drafts are published. A store never refuses to publish
them.
-/

namespace AtomStore

/-- What a commit that publishes nothing leaves of a transaction with some slots: all is as before,
but those slots are empty for good. -/
structure CommitReport.Undone (report : CommitReport) (directory : Directory) (store : Store)
    (ids : List Nat) : Prop where
  directory_eq : report.directory = directory
  file_eq : report.store.file = store.file
  settings_eq : report.store.settings = store.settings
  indices_eq : report.store.state.indices = store.state.indices
  ucn_eq : report.store.ucn = store.ucn
  committed_eq : report.store.state.slots.committed = store.state.slots.committed
  own : ∀ id ∈ ids, report.store.state.slots.slot id = .never
  others : ∀ id, id ∉ ids → report.store.state.slots.slot id = store.state.slots.slot id

def Store.sealedAtoms (store : Store) (drafts : List Draft) : List Atom :=
  drafts.map (·.toAtom store.state.slots.ucn store.state.slots.ucn_pos)

/-- What a commit that publishes drafts does to the memory of a store, when it drops some slots. -/
structure CommitReport.Published (report : CommitReport) (store : Store) (dropped : List Nat)
    (drafts : List Draft) : Prop where
  outcome_eq : report.outcome = .ok ⟨some store.ucn, store.sealedAtoms drafts⟩
  announced_eq : report.announced = some (store.sealedAtoms drafts)
  settings_eq : report.store.settings = store.settings
  ucn_eq : report.store.ucn = store.ucn + 1
  committed_eq :
    report.store.state.slots.committed = store.state.slots.committed + drafts.length
  slot_eq : ∀ id, report.store.state.slots.slot id =
    if id ∈ dropped then .never
    else ((atomFor? (store.sealedAtoms drafts) id).map Slot.committed).getD
      (store.state.slots.slot id)

/-- What drafts are sealed as depends on the UCN alone. -/
theorem Store.sealedAtoms_congr {store other : Store} (same : store.ucn = other.ucn)
    (drafts : List Draft) : store.sealedAtoms drafts = other.sealedAtoms drafts := by
  have atoms {left right : Nat} (equal : left = right) (left_pos : 0 < left)
      (right_pos : 0 < right) :
      drafts.map (·.toAtom left left_pos) = drafts.map (·.toAtom right right_pos) := by
    subst equal
    rfl
  exact atoms same _ _

/-- Drafts are sealed in their own slots. -/
theorem Store.map_id_sealedAtoms (store : Store) (drafts : List Draft) :
    (store.sealedAtoms drafts).map (·.id) = drafts.map (·.id) := by
  rw [sealedAtoms, List.map_map]
  rfl

namespace Transaction

variable {transaction : Transaction} {directory : Directory} {store : Store}

/-- Whether each draft has the number of its slot. -/
def Numbered (transaction : Transaction) : Prop :=
  ∀ entry ∈ transaction.pending.entries, entry.2.draft.id = entry.1

/-- The drafts that are kept are in the slots that are not discarded. -/
theorem map_id_kept (numbered : transaction.Numbered) :
    transaction.kept.map (·.id) = (transaction.pending.entries.filter
      fun entry => entry.2.mark != .discarded).map Prod.fst := by
  rw [kept, List.map_map]
  apply List.map_congr_left
  intro entry member
  exact numbered entry (List.mem_filter.mp member).1

/-- The slots of a transaction are those that are dropped and those that are kept. -/
theorem mem_keys_iff_dropped_or_kept (numbered : transaction.Numbered) (id : Nat) :
    id ∈ transaction.pending.keys ↔
      id ∈ transaction.dropped ∨ id ∈ transaction.kept.map (·.id) := by
  rw [map_id_kept numbered, dropped, SortedMap.keys]
  constructor
  · intro member
    obtain ⟨entry, listed, rfl⟩ := List.mem_map.mp member
    by_cases discarded : entry.2.mark = .discarded
    · exact .inl (List.mem_map_of_mem (List.mem_filter.mpr ⟨listed, beq_iff_eq.mpr discarded⟩))
    · exact .inr (List.mem_map_of_mem (List.mem_filter.mpr ⟨listed, bne_iff_ne.mpr discarded⟩))
  · rintro (member | member)
    all_goals
      obtain ⟨entry, listed, rfl⟩ := List.mem_map.mp member
      exact List.mem_map_of_mem (List.mem_filter.mp listed).1

/-- No two drafts that are kept share a slot. -/
theorem nodup_kept (numbered : transaction.Numbered) : (transaction.kept.map (·.id)).Nodup := by
  rw [map_id_kept numbered]
  exact (List.filter_sublist.map _).nodup (SortedMap.nodup_keys transaction.pending)

/-- What is kept is not dropped. -/
theorem not_mem_dropped_of_kept (numbered : transaction.Numbered) {id : Nat}
    (member : id ∈ transaction.kept.map (·.id)) : id ∉ transaction.dropped := by
  rw [map_id_kept numbered] at member
  intro gone
  obtain ⟨entry, listed, rfl⟩ := List.mem_map.mp member
  obtain ⟨other, among, same⟩ := List.mem_map.mp gone
  obtain ⟨inside, keep⟩ := List.mem_filter.mp listed
  obtain ⟨present, drop⟩ := List.mem_filter.mp among
  have equal : entry = other := by
    have first := SortedMap.get?_eq_some_iff.mpr inside
    have second := SortedMap.get?_eq_some_iff.mpr present
    rw [same] at second
    exact Prod.ext same.symm (Option.some.inj (first.symm.trans second))
  rw [equal] at keep
  exact bne_iff_ne.mp keep (beq_iff_eq.mp drop)

/-- The answers of verifiers that read no index: they all see the same store. -/
def verify (directory : Directory) (store : Store) :
    List Verifier → List String × Option (List String)
  | [] => ([], none)
  | verifier :: rest =>
    match verifier.check directory store with
    | .error reasons => ([verifier.label], some reasons)
    | .ok () =>
      let (ran, objection) := verify directory store rest
      (verifier.label :: ran, objection)

/-- Where the system can write, a commit appends its record, and each draft is pointed to its own
places. -/
def write (directory : Directory) (store : Store) (drafts : List Draft) :
    Except LogError (Directory × Store × List Draft) :=
  match store.file with
  | none => .ok (directory, store, drafts)
  | some file =>
    (file.append directory store.ucn drafts store.settings.hostedThreshold).map
      fun (written, next, places) =>
        (written, { store with file := some next }, drafts.map (pointed places))

/-- When nothing is read, asking the verifiers leaves the store alone. -/
theorem ask_nil (directory : Directory) (store : Store) (verifiers : List Verifier) :
    ask directory store [] verifiers =
      ((verify directory store verifiers).1, store, (verify directory store verifiers).2) := by
  induction verifiers with
  | nil => rfl
  | cons first rest ih =>
    have unread : store.withReads [] = store := rfl
    rw [ask, verify]
    cases first.check directory store with
    | error reasons => rfl
    | ok => simp only [List.headD_nil, unread, List.tail_nil, ih]

/-- Recording either fails and leaves the directory as it was, or succeeds as `write` does. -/
theorem record_eq (directory : Directory) (store : Store) (drafts : List Draft) :
    record {} directory store drafts =
      match write directory store drafts with
      | .error error => (directory, .error error)
      | .ok (written, recorded, pointing) => (written, .ok (recorded, pointing)) := by
  rw [record, write]
  cases store.file with
  | none => rfl
  | some file =>
    simp only [DataFile.append, DataFile.appendUnder]
    split
    · rfl
    · split <;> rfl

/-- How a commit goes where the system can write and nobody reads an index meanwhile. -/
theorem commit_eq (transaction : Transaction) (directory : Directory) (store : Store) :
    transaction.commit directory store =
      if store.readOnly then
        ⟨directory, transaction.rollback store, [], none, .error .readOnly⟩
      else
        let cleared := store.release transaction.dropped
        let kept := transaction.kept
        let abandoned := cleared.release (kept.map (·.id))
        match verify directory cleared transaction.verifiers with
        | (ran, some reasons) => ⟨directory, abandoned, ran, none, .error (.verification reasons)⟩
        | (ran, none) =>
          if kept.isEmpty then ⟨directory, cleared, ran, some [], .ok ⟨none, []⟩⟩
          else
            match write directory cleared kept with
            | .error error => ⟨directory, abandoned, ran, none, .error (.durability error)⟩
            | .ok (written, recorded, drafts) =>
              match publish recorded drafts with
              | .error error => ⟨written, recorded, ran, none, .error (.store error)⟩
              | .ok (published, committed) =>
                ⟨written, published, ran, some committed.atoms, .ok committed⟩ := by
  have unread (store : Store) : store.withReads [] = store := rfl
  rw [commit, commitUnder]
  split
  · rfl
  · simp only [ask_nil, record_eq, unread]
    cases verify directory (store.release transaction.dropped) transaction.verifiers with
    | mk ran objection =>
      cases objection with
      | some reasons => rfl
      | none =>
        simp only
        split
        · rfl
        · cases write directory (store.release transaction.dropped) transaction.kept with
          | error failure => rfl
          | ok result => rfl

/-- Writing changes neither the table of slots nor the numbers of the drafts. -/
theorem write_eq_ok {drafts pointing : List Draft} {written : Directory} {recorded : Store}
    (wrote : write directory store drafts = .ok (written, recorded, pointing)) :
    (store.file = none ∧ written = directory ∧ recorded = store ∧ pointing = drafts) ∨
      ∃ file next places, store.file = some file ∧
        file.append directory store.ucn drafts store.settings.hostedThreshold =
          .ok (written, next, places) ∧
        recorded = { store with file := some next } ∧ pointing = drafts.map (pointed places) := by
  cases present : store.file with
  | none =>
    simp only [write, present] at wrote
    cases wrote
    exact .inl ⟨rfl, rfl, rfl, rfl⟩
  | some file =>
    cases appended : file.append directory store.ucn drafts store.settings.hostedThreshold with
    | error failure =>
      simp only [write, present, appended] at wrote
      cases wrote
    | ok result =>
      obtain ⟨made, next, places⟩ := result
      simp only [write, present, appended] at wrote
      cases wrote
      exact .inr ⟨file, next, places, rfl, appended, rfl, rfl⟩

/-- Writing leaves the state of the store and the slots of the drafts. -/
theorem map_id_of_write {drafts pointing : List Draft} {written : Directory} {recorded : Store}
    (wrote : write directory store drafts = .ok (written, recorded, pointing)) :
    recorded.state = store.state ∧ recorded.settings = store.settings ∧
      pointing.map (·.id) = drafts.map (·.id) := by
  obtain ⟨_, _, rfl, rfl⟩ | ⟨file, next, places, _, _, rfl, rfl⟩ := write_eq_ok wrote
  · exact ⟨rfl, rfl, rfl⟩
  · refine ⟨rfl, rfl, ?_⟩
    rw [List.map_map]
    apply List.map_congr_left
    intro draft _
    exact id_pointed places draft

/-- A store that gives up reserved slots in two steps is otherwise as before. -/
theorem undone_of_release {report : CommitReport} {ids : List Nat} (first second : List Nat)
    (same : report.directory = directory)
    (kept : report.store = (store.release first).release second)
    (parts : ∀ id, id ∈ ids ↔ id ∈ first ∨ id ∈ second)
    (pending : ∀ id ∈ ids, store.state.slots.slot id = .pending) :
    report.Undone directory store ids := by
  obtain ⟨ucn, committed, _⟩ := store.state.slots.releaseAll_counts first
  obtain ⟨ucn', committed', _⟩ := (store.state.slots.releaseAll first).releaseAll_counts second
  have slot (id : Nat) : report.store.state.slots.slot id =
      ((store.state.slots.releaseAll first).releaseAll second).slot id := by
    rw [kept]
    rfl
  refine ⟨same, ?_, ?_, ?_, ?_, ?_, ?_, ?_⟩
  · rw [kept]
    rfl
  · rw [kept]
    rfl
  · rw [kept]
    rfl
  · rw [kept]
    exact ucn'.trans ucn
  · rw [kept]
    exact committed'.trans committed
  · intro id member
    have reserved := pending id member
    rw [slot, Slots.slot_releaseAll, Slots.slot_releaseAll, reserved]
    rcases (parts id).mp member with dropped | later
    · rw [if_pos (c := id ∈ first ∧ _) ⟨dropped, rfl⟩]
      exact if_neg nofun
    · by_cases dropped : id ∈ first
      · rw [if_pos (c := id ∈ first ∧ _) ⟨dropped, rfl⟩]
        exact if_neg nofun
      · rw [if_neg (c := id ∈ first ∧ _) fun both => dropped both.1]
        exact if_pos ⟨later, rfl⟩
  · intro id absent
    rw [slot, Slots.slot_releaseAll, Slots.slot_releaseAll]
    rw [if_neg (c := id ∈ second ∧ _) fun both => absent ((parts id).mpr (.inr both.1)),
      if_neg fun both => absent ((parts id).mpr (.inl both.1))]

/-- Publishing changes the table of slots of a store, and otherwise at most its indices. -/
theorem publish_eq_ok {drafts : List Draft} {slots : Slots} (reads : List Nat)
    (done : store.state.slots.publish (store.sealedAtoms drafts) = .ok slots) :
    ∃ published, publish store drafts reads =
        .ok (published, ⟨some store.ucn, store.sealedAtoms drafts⟩) ∧
      published.file = store.file ∧ published.settings = store.settings ∧
      published.state.slots = slots := by
  let state : State := { store.state with slots }.refreshEach reads
  let kept := if store.defaultIndexing then state.refreshAll else state
  have table : kept.slots = slots := by
    by_cases indexing : store.defaultIndexing = true
    · simp only [kept, if_pos indexing]
      exact State.slots_refreshEach ..
    · simp only [kept, if_neg indexing]
      exact State.slots_refreshEach ..
  refine ⟨{ store with state := kept }, ?_, rfl, rfl, table⟩
  rw [publish, ← Store.sealedAtoms, done]
  rfl

/-- A store that has published drafts has admitted all of their atoms. -/
theorem publish_of_publish {drafts : List Draft} {reads : List Nat} {published : Store}
    {committed : Committed} (done : publish store drafts reads = .ok (published, committed)) :
    committed = ⟨some store.ucn, store.sealedAtoms drafts⟩ ∧
      published.file = store.file ∧ published.settings = store.settings ∧
      store.state.slots.publish (store.sealedAtoms drafts) = .ok published.state.slots := by
  cases filled : store.state.slots.publish (store.sealedAtoms drafts) with
  | error refusal =>
    rw [publish, ← Store.sealedAtoms, filled] at done
    cases done
  | ok slots =>
    obtain ⟨other, same, file, settings, rfl⟩ := publish_eq_ok reads filled
    rw [done] at same
    cases same
    exact ⟨rfl, file, settings, rfl⟩

/-- The state refuses drafts for the first of them whose slot is not reserved. -/
theorem publish_eq_error {drafts : List Draft} {reads : List Nat} {refusal : StoreError}
    (refused : publish store drafts reads = .error refusal) :
    ∃ front id back, drafts.map (·.id) = front ++ id :: back ∧ refusal = .slotNotPending id ∧
      store.state.slots.slot id ≠ .pending ∧ ∀ other ∈ front,
        store.state.slots.slot other = .pending := by
  have checks : (fun atom => !store.state.slots.admits atom) ∘
      (·.toAtom store.state.slots.ucn store.state.slots.ucn_pos) =
        (fun id => !store.state.slots.isPending id) ∘ fun draft : Draft => draft.id := by
    funext draft
    simp only [Function.comp, Slots.admits, Draft.toAtom, BEq.rfl, Bool.and_true]
  simp only [publish, Slots.publish, List.find?_map, checks] at refused
  cases found : drafts.find? ((fun id => !store.state.slots.isPending id) ∘ (·.id)) with
  | none =>
    rw [found] at refused
    cases refused
  | some draft =>
    rw [found] at refused
    cases refused
    have first : (drafts.map (·.id)).find? (fun id => !store.state.slots.isPending id) =
        some draft.id := by
      rw [List.find?_map, found]
      rfl
    obtain ⟨free, front, back, split, reserved⟩ := List.find?_eq_some_iff_append.mp first
    refine ⟨front, draft.id, back, split, rfl, fun pending => ?_, fun other member => ?_⟩
    · rw [Slots.isPending_iff.mpr pending] at free
      cases free
    · have held := reserved other member
      rw [Bool.not_not] at held
      exact Slots.isPending_iff.mp held

/-- Once dropped slots are released, publishing drafts in other reserved slots succeeds. -/
theorem publish_released {recorded : Store} {dropped : List Nat} (drafts : List Draft)
    (reads : List Nat) (slots : recorded.state.slots = store.state.slots.releaseAll dropped)
    (distinct : (drafts.map (·.id)).Nodup)
    (reserved : ∀ id ∈ dropped, store.state.slots.slot id = .pending)
    (pending : ∀ id ∈ drafts.map (·.id), store.state.slots.slot id = .pending)
    (apart : ∀ id ∈ drafts.map (·.id), id ∉ dropped) :
    ∃ published, publish recorded drafts reads =
        .ok (published, ⟨some store.ucn, store.sealedAtoms drafts⟩) ∧
      published.file = recorded.file ∧ published.settings = recorded.settings ∧
      published.ucn = store.ucn + 1 ∧
      published.state.slots.committed = store.state.slots.committed + drafts.length ∧
      ∀ id, published.state.slots.slot id =
        if id ∈ dropped then .never
        else ((atomFor? (store.sealedAtoms drafts) id).map Slot.committed).getD
          (store.state.slots.slot id) := by
  obtain ⟨ucn, committed, _⟩ := store.state.slots.releaseAll_counts dropped
  have counted : recorded.ucn = store.ucn := by
    rw [Store.ucn, slots, ucn]
    rfl
  have atoms : recorded.sealedAtoms drafts = store.sealedAtoms drafts :=
    Store.sealedAtoms_congr counted drafts
  have waiting : ∀ atom ∈ store.sealedAtoms drafts,
      recorded.state.slots.slot atom.id = .pending ∧ atom.ucn = recorded.state.slots.ucn := by
    intro atom member
    obtain ⟨draft, listed, rfl⟩ := List.mem_map.mp member
    have here : draft.id ∈ drafts.map (·.id) := List.mem_map_of_mem listed
    refine ⟨?_, counted.symm⟩
    rw [slots, Slots.slot_releaseAll, if_neg fun both => apart _ here both.1]
    exact pending _ here
  have done := Slots.publish_eq_ok waiting
  rw [← atoms] at done
  obtain ⟨published, ended, file, settings, filled⟩ := publish_eq_ok reads done
  rw [counted, atoms] at ended
  refine ⟨published, ended, file, settings, ?_, ?_, ?_⟩
  · rw [Store.ucn, filled]
    exact congrArg (· + 1) counted
  · rw [filled, atoms, slots]
    simp only [committed, Store.sealedAtoms, List.length_map]
  · intro id
    rw [filled, atoms, Slots.slot]
    rw [Slots.slot_fill (by rw [Store.map_id_sealedAtoms]; exact distinct)
      fun atom member => (waiting atom member).1, slots, Slots.slot_releaseAll]
    by_cases gone : id ∈ dropped
    · have absent : atomFor? (store.sealedAtoms drafts) id = none := by
        rw [atomFor?_eq_none_iff]
        rintro atom member rfl
        obtain ⟨draft, listed, rfl⟩ := List.mem_map.mp member
        exact apart _ (List.mem_map_of_mem listed) gone
      rw [absent, if_pos gone, if_pos ⟨gone, reserved id gone⟩]
      rfl
    · rw [if_neg gone, if_neg fun both => gone both.1]

/-- A read-only store refuses every commit and only rolls it back. -/
theorem commit_of_readOnly (readOnly : store.readOnly = true) (transaction : Transaction)
    (directory : Directory) :
    transaction.commit directory store =
      ⟨directory, transaction.rollback store, [], none, .error .readOnly⟩ := by
  rw [commit_eq, if_pos readOnly]

section Writable

variable (writable : store.readOnly = false) {ran : List String}

include writable

/-- A commit ends at the first verifier that objects, and all of its slots are released. -/
theorem commit_of_objection {reasons : List String}
    (verified : verify directory (store.release transaction.dropped) transaction.verifiers =
      (ran, some reasons)) :
    transaction.commit directory store =
      ⟨directory, (store.release transaction.dropped).release (transaction.kept.map (·.id)), ran,
        none, .error (.verification reasons)⟩ := by
  simp only [commit_eq, writable, verified, Bool.false_eq_true, ↓reduceIte]

variable (verified : verify directory (store.release transaction.dropped) transaction.verifiers =
  (ran, none))

include verified

/-- A commit with nothing to publish gives up the dropped slots and succeeds without a UCN. -/
theorem commit_of_nothing_kept (empty : transaction.kept = []) :
    transaction.commit directory store =
      ⟨directory, store.release transaction.dropped, ran, some [], .ok ⟨none, []⟩⟩ := by
  simp only [commit_eq, writable, verified, empty, Bool.false_eq_true, ↓reduceIte, List.isEmpty_nil]

/-- A commit whose record is not written gives up all of its slots. -/
theorem commit_of_unwritten (some : transaction.kept ≠ []) {failure : LogError}
    (failed : write directory (store.release transaction.dropped) transaction.kept =
      .error failure) :
    transaction.commit directory store =
      ⟨directory, (store.release transaction.dropped).release (transaction.kept.map (·.id)), ran,
        none, .error (.durability failure)⟩ := by
  have filled : transaction.kept.isEmpty = false := List.isEmpty_eq_false_iff.mpr some
  simp only [commit_eq, writable, verified, filled, failed, Bool.false_eq_true, ↓reduceIte]

/-- A commit whose record is written and published succeeds with its atoms. -/
theorem commit_of_published (filled : transaction.kept ≠ []) {written : Directory}
    {recorded published : Store} {drafts : List Draft} {committed : Committed}
    (wrote : write directory (store.release transaction.dropped) transaction.kept =
      .ok (written, recorded, drafts))
    (done : publish recorded drafts = .ok (published, committed)) :
    transaction.commit directory store =
      ⟨written, published, ran, some committed.atoms, .ok committed⟩ := by
  have filled : transaction.kept.isEmpty = false := List.isEmpty_eq_false_iff.mpr filled
  simp only [commit_eq, writable, verified, filled, wrote, done, Bool.false_eq_true, ↓reduceIte]

end Writable

/-- How a commit ends when the drafts have the numbers of their slots and these are reserved. -/
theorem commit_spec (directory : Directory) (numbered : transaction.Numbered)
    (pending : ∀ id ∈ transaction.pending.keys, store.state.slots.slot id = .pending) :
    ((transaction.commit directory store).Undone directory store transaction.pending.keys ∧
        (transaction.commit directory store).announced = none ∧
        ∃ failure, (transaction.commit directory store).outcome = .error failure ∧
          ∀ refusal, failure ≠ .store refusal) ∨
      ((transaction.commit directory store).Undone directory store transaction.pending.keys ∧
        transaction.kept = [] ∧
        (transaction.commit directory store).outcome = .ok ⟨none, []⟩) ∨
      ∃ written recorded drafts,
        write directory (store.release transaction.dropped) transaction.kept =
          .ok (written, recorded, drafts) ∧
        (transaction.commit directory store).directory = written ∧
        (transaction.commit directory store).store.file = recorded.file ∧
        (transaction.commit directory store).Published store transaction.dropped drafts := by
  have parts := transaction.mem_keys_iff_dropped_or_kept numbered
  by_cases readOnly : store.readOnly = true
  · rw [transaction.commit_of_readOnly readOnly]
    refine .inl ⟨undone_of_release _ [] rfl rfl ?_ pending, rfl, .readOnly, rfl, nofun⟩
    exact fun id => (or_iff_left List.not_mem_nil).symm
  have writable : store.readOnly = false := eq_false_of_ne_true readOnly
  cases verified : verify directory (store.release transaction.dropped) transaction.verifiers with
  | mk ran objection =>
    cases objection with
    | some reasons =>
      rw [commit_of_objection writable verified]
      exact .inl ⟨undone_of_release _ _ rfl rfl parts pending, rfl, .verification reasons, rfl,
        nofun⟩
    | none =>
      by_cases empty : transaction.kept = []
      · have ended : transaction.commit directory store =
            ⟨directory, store.release transaction.dropped, ran, some [], .ok ⟨none, []⟩⟩ := by
          simp only [commit_eq, writable, verified, empty, Bool.false_eq_true, ↓reduceIte,
            List.isEmpty_nil]
        rw [ended]
        refine .inr (.inl ⟨undone_of_release _ [] rfl rfl ?_ pending, empty, rfl⟩)
        intro id
        rw [parts, empty]
        exact Iff.rfl
      cases wrote : write directory (store.release transaction.dropped) transaction.kept with
      | error failure =>
        rw [commit_of_unwritten writable verified empty wrote]
        exact .inl ⟨undone_of_release _ _ rfl rfl parts pending, rfl, .durability failure, rfl,
          nofun⟩
      | ok result =>
        obtain ⟨written, recorded, drafts⟩ := result
        obtain ⟨state, settings, ids⟩ := map_id_of_write wrote
        obtain ⟨published, done, file, kept, ucn, committed, slot⟩ :=
          publish_released drafts [] (congrArg State.slots state) (by rw [ids]; exact nodup_kept numbered)
            (fun id member => pending id ((parts id).mpr (.inl member)))
            (fun id member => pending id ((parts id).mpr (.inr (ids ▸ member))))
            (fun id member => not_mem_dropped_of_kept numbered (ids ▸ member))
        rw [commit_of_published writable verified empty wrote done]
        exact .inr (.inr ⟨written, recorded, drafts, rfl, rfl, file, rfl, rfl,
          kept.trans settings, ucn, committed, slot⟩)

end Transaction

/-- After a commit there are its atoms and those that were there before. -/
theorem CommitReport.Published.atom?_eq {report : CommitReport} {store : Store}
    {dropped : List Nat} {drafts : List Draft} (published : report.Published store dropped drafts)
    (reserved : ∀ id ∈ dropped, store.state.slots.slot id = .pending)
    (apart : ∀ id ∈ drafts.map (·.id), id ∉ dropped) (id : Nat) :
    report.store.state.slots.atom? id =
      (atomFor? (store.sealedAtoms drafts) id).or (store.state.slots.atom? id) := by
  rw [Slots.atom?_eq, Slots.atom?_eq, published.slot_eq]
  by_cases gone : id ∈ dropped
  · have absent : atomFor? (store.sealedAtoms drafts) id = none := by
      rw [atomFor?_eq_none_iff]
      rintro atom member rfl
      apply apart atom.id _ gone
      rw [← Store.map_id_sealedAtoms store]
      exact List.mem_map_of_mem member
    rw [if_pos gone, absent, reserved id gone]
    rfl
  · rw [if_neg gone]
    cases atomFor? (store.sealedAtoms drafts) id <;> rfl

end AtomStore
