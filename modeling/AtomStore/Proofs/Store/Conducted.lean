import AtomStore.Proofs.Store.Session

/-!
# What a transaction comes to

The calls on a transaction and their answers tell what its commit does, whatever else happens to the
store meanwhile. A draft is dropped when it was discarded and never referred to, in any order of the
two. The verifiers are asked in the order in which they were added, when the dropped slots are empty
already, up to the first that objects. If none does, the other drafts are published with the
junctions that their edits have left them.
-/

namespace AtomStore

open Session (Edit)

/-- What an edit makes of the junctions of a draft. -/
def Session.Edit.onJunctions (junctions : Junctions) : Edit → Junctions
  | bind key value => junctions.insert key value
  | unbind key => junctions.erase key
  | setJunctions others => others
  | discard => junctions
  | refer => junctions

namespace Transaction

/-- A call on an open transaction. -/
inductive Call where
  | createAtom
  | edit (id : Nat) (change : Edit)
  | addVerifier (verifier : Verifier)

inductive Answer where
  | created (id : Nat)
  | done
  | refused (refusal : StoreError)

/-- The answer to a call, and the store and the transaction behind it. -/
def Call.run (transaction : Transaction) (store : Store) :
    Call → Answer × Store × Transaction
  | createAtom =>
    let (id, next, changed) := transaction.createAtom store
    (.created id, next, changed)
  | edit id change =>
    match change.run transaction id with
    | .ok changed => (.done, store, changed)
    | .error refusal => (.refused refusal, store, transaction)
  | addVerifier verifier => (.done, store, transaction.addVerifier verifier)

/-- Calls made one after the other, with their answers. -/
def Call.runAll (transaction : Transaction) (store : Store) :
    List Call → List (Call × Answer) × Store × Transaction
  | [] => ([], store, transaction)
  | call :: rest =>
    let (answer, next, changed) := call.run transaction store
    let (answers, last, ended) := runAll changed next rest
    ((call, answer) :: answers, last, ended)

/-- The calls on a transaction since it began, with their answers, and the store and the transaction
as they are then. Others may use the store meanwhile, if they leave the slots of the transaction
reserved. -/
inductive Conducted : List (Call × Answer) → Store → Transaction → Prop where
  | begun (store : Store) : Conducted [] store (start store)
  | called {calls : List (Call × Answer)} {store : Store} {transaction : Transaction}
      (before : Conducted calls store transaction) (call : Call) :
      Conducted (calls ++ [(call, (call.run transaction store).1)])
        (call.run transaction store).2.1 (call.run transaction store).2.2
  | elsewhere {calls : List (Call × Answer)} {store : Store} {transaction : Transaction}
      (before : Conducted calls store transaction) (next : Store)
      (kept : ∀ id ∈ transaction.pending.keys, next.state.slots.slot id = .pending) :
      Conducted calls next transaction

/-- Calls may be made one after the other. -/
theorem Conducted.runAll {calls : List (Call × Answer)} {store : Store} {transaction : Transaction}
    (conducted : Conducted calls store transaction) (more : List Call) :
    Conducted (calls ++ (Call.runAll transaction store more).1)
      (Call.runAll transaction store more).2.1 (Call.runAll transaction store more).2.2 := by
  induction more generalizing calls store transaction with
  | nil =>
    rw [Call.runAll, List.append_nil]
    exact conducted
  | cons call rest ih =>
    have further := ih (conducted.called call)
    rw [List.append_assoc] at further
    exact further

/-- The slots that were reserved, in order. -/
def created (calls : List (Call × Answer)) : List Nat :=
  calls.filterMap fun
    | (_, .created id) => some id
    | _ => none

/-- The edits that were made of the draft in a slot, in order. -/
def edits (calls : List (Call × Answer)) (id : Nat) : List Edit :=
  calls.filterMap fun
    | (.edit other change, .done) => if other = id then some change else none
    | _ => none

/-- The verifiers that were added, in order. -/
def added (calls : List (Call × Answer)) : List Verifier :=
  calls.filterMap fun
    | (.addVerifier verifier, _) => some verifier
    | _ => none

theorem created_append (calls last : List (Call × Answer)) :
    created (calls ++ last) = created calls ++ created last :=
  List.filterMap_append

/-- The edits of a draft by some calls and more calls are those by each of them. -/
theorem edits_append (calls last : List (Call × Answer)) (id : Nat) :
    edits (calls ++ last) id = edits calls id ++ edits last id :=
  List.filterMap_append

theorem added_append (calls last : List (Call × Answer)) :
    added (calls ++ last) = added calls ++ added last :=
  List.filterMap_append

/-- Whether the draft in a slot was discarded and never referred to. -/
def Abandoned (calls : List (Call × Answer)) (id : Nat) : Prop :=
  id ∈ created calls ∧ .discard ∈ edits calls id ∧ .refer ∉ edits calls id

/-- The junctions that edits leave of none. -/
def junctionsOf (edits : List Edit) : Junctions := edits.foldl Edit.onJunctions .empty

/-- What an edit says of a key: nothing, or the value that it is bound to from now on, if any. -/
def binding? (key : Key) : Edit → Option (Option Particle)
  | .bind other value => if key = other then some (some value) else none
  | .unbind other => if key = other then some none else none
  | .setJunctions others => some (others.get? key)
  | .discard => none
  | .refer => none

/-- An edit binds a key as it says, and leaves the keys of which it says nothing. -/
theorem get?_onJunctions (junctions : Junctions) (edit : Edit) (key : Key) :
    (edit.onJunctions junctions).get? key = (binding? key edit).getD (junctions.get? key) := by
  cases edit with
  | bind other value =>
    rw [Edit.onJunctions, SortedMap.get?_insert, binding?]
    split <;> rfl
  | unbind other =>
    rw [Edit.onJunctions, SortedMap.get?_erase, binding?]
    split <;> rfl
  | setJunctions others => rfl
  | discard => rfl
  | refer => rfl

/-- The last edit that says anything of a key decides what it is bound to. -/
theorem get?_junctionsOf (edits : List Edit) (key : Key) :
    (junctionsOf edits).get? key = (edits.reverse.findSome? (binding? key)).getD none := by
  induction edits using List.reverseRecOn with
  | nil => rfl
  | append_singleton earlier last ih =>
    rw [junctionsOf, List.foldl_append, List.foldl_cons, List.foldl_nil, get?_onJunctions,
      ← junctionsOf, ih, List.reverse_concat, List.findSome?_cons]
    cases binding? key last <;> rfl

/-- What edits make of a new draft in a slot. -/
def built (id : Nat) (edits : List Edit) : PendingAtom := edits.foldl Edit.apply { draft := { id } }

/-- Edits change the junctions of a draft and never its slot. -/
theorem draft_foldl (atom : PendingAtom) (edits : List Edit) :
    (edits.foldl Edit.apply atom).draft =
      ⟨atom.draft.id, edits.foldl Edit.onJunctions atom.draft.junctions⟩ := by
  induction edits generalizing atom with
  | nil => rfl
  | cons edit rest ih =>
    rw [List.foldl_cons, List.foldl_cons, ih]
    cases edit <;> rfl

/-- A new draft that is edited has the junctions that the edits leave. -/
theorem draft_built (id : Nat) (edits : List Edit) :
    (built id edits).draft = ⟨id, junctionsOf edits⟩ :=
  draft_foldl _ edits

/-- The order of discarding a draft and referring to it does not matter. -/
theorem mark_foldl (atom : PendingAtom) (edits : List Edit) :
    (edits.foldl Edit.apply atom).mark = .discarded ↔
      atom.mark ≠ .referred ∧ (atom.mark = .discarded ∨ .discard ∈ edits) ∧ .refer ∉ edits := by
  induction edits generalizing atom with
  | nil => cases mark : atom.mark <;> simp [mark]
  | cons edit rest ih =>
    rw [List.foldl_cons, ih]
    cases edit <;> cases mark : atom.mark <;> simp [Edit.apply, mark, Mark.afterDiscard]

/-- A new draft is marked as discarded just when it was discarded and never referred to. -/
theorem mark_built (id : Nat) (edits : List Edit) :
    (built id edits).mark = .discarded ↔ .discard ∈ edits ∧ .refer ∉ edits := by
  rw [built, mark_foldl]
  simp

/-- What a transaction that has reserved some slots has become by the edits of its drafts. -/
structure Follows (ids : List Nat) (made : Nat → List Edit) (verifiers : List Verifier)
    (store : Store) (transaction : Transaction) : Prop where
  pending_eq : ∀ id, transaction.pending.get? id =
    if id ∈ ids then some (built id (made id)) else none
  verifiers_eq : transaction.verifiers = verifiers
  reserved : ∀ id ∈ ids, store.state.slots.slot id = .pending
  unedited : ∀ id, id ∉ ids → made id = []

namespace Follows

variable {ids : List Nat} {made : Nat → List Edit} {verifiers : List Verifier} {store : Store}
  {transaction : Transaction}

/-- What a transaction follows depends only on its slots, edits and verifiers. -/
theorem congr {others : List Nat} {done : Nat → List Edit} {more : List Verifier}
    (follows : Follows ids made verifiers store transaction) (slots : others = ids)
    (same : ∀ id, done id = made id) (checks : more = verifiers) :
    Follows others done more store transaction := by
  obtain rfl := funext same
  rw [slots, checks]
  exact follows

/-- The drafts of a transaction are in the slots that it has reserved. -/
theorem mem_keys_iff (follows : Follows ids made verifiers store transaction) {id : Nat} :
    id ∈ transaction.pending.keys ↔ id ∈ ids := by
  rw [SortedMap.mem_keys_iff]
  constructor
  · intro given
    obtain ⟨atom, present⟩ := given
    rw [follows.pending_eq] at present
    split at present
    · assumption
    · cases present
  · intro member
    exact ⟨_, (follows.pending_eq id).trans (if_pos member)⟩

/-- A new draft has no edits yet, since its slot was not reserved before. -/
theorem createAtom (follows : Follows ids made verifiers store transaction) :
    Follows (ids ++ [(transaction.createAtom store).1]) made verifiers
      (transaction.createAtom store).2.1 (transaction.createAtom store).2.2 := by
  let fresh := store.state.slots.size
  have absent : fresh ∉ ids := by
    intro member
    have held := follows.reserved fresh member
    rw [Slots.slot_size] at held
    cases held
  refine ⟨fun id => ?_, follows.verifiers_eq, fun id member => ?_, fun id unmade => ?_⟩
  · change (transaction.pending.insert fresh { draft := { id := fresh } }).get? id =
      if id ∈ ids ++ [fresh] then some (built id (made id)) else none
    rw [SortedMap.get?_insert]
    by_cases here : id = fresh
    · rw [if_pos here, if_pos (List.mem_append_right _ (List.mem_singleton.mpr here)), here,
        follows.unedited fresh absent]
      rfl
    · simp only [here, ↓reduceIte, follows.pending_eq, List.mem_append, List.mem_singleton,
        or_false]
  · refine (Slots.slot_reserve store.state.slots id).trans ?_
    rcases List.mem_append.mp member with before | here
    · rw [follows.reserved id before]
      exact ite_self _
    · exact if_pos (List.mem_singleton.mp here)
  · exact follows.unedited id fun before => unmade (List.mem_append_left _ before)

/-- An edit of a draft comes behind its other edits. -/
theorem edit (follows : Follows ids made verifiers store transaction) {id : Nat}
    (member : id ∈ ids) (change : Edit) :
    Follows ids (Function.update made id (made id ++ [change])) verifiers store
      { transaction with
        pending := transaction.pending.insert id (change.apply (built id (made id))) } := by
  refine ⟨fun other => ?_, follows.verifiers_eq, follows.reserved, fun other absent => ?_⟩
  · rw [SortedMap.get?_insert]
    by_cases here : other = id
    · rw [if_pos here, here, if_pos member, Function.update_self, built, built, List.foldl_append]
      rfl
    · rw [if_neg here, follows.pending_eq, Function.update_of_ne here]
  · have unlike : other ≠ id := fun here => absent (here ▸ member)
    rw [Function.update_of_ne unlike, follows.unedited other absent]

/-- A verifier comes behind the others. -/
theorem addVerifier (follows : Follows ids made verifiers store transaction)
    (verifier : Verifier) :
    Follows ids made (verifiers ++ [verifier]) store (transaction.addVerifier verifier) :=
  ⟨follows.pending_eq, congrArg (· ++ [verifier]) follows.verifiers_eq, follows.reserved,
    follows.unedited⟩

/-- An edit is answered just when the slot is one of the transaction. -/
theorem run_edit (follows : Follows ids made verifiers store transaction) (id : Nat)
    (change : Edit) :
    (Call.edit id change).run transaction store =
      if id ∈ ids then (.done, store, { transaction with
        pending := transaction.pending.insert id (change.apply (built id (made id))) })
      else (.refused (.unknownAtom id), store, transaction) := by
  rw [Call.run, edit_eq, Transaction.change, follows.pending_eq]
  by_cases member : id ∈ ids
  · simp only [if_pos member]
  · simp only [if_neg member]

end Follows

/-- A transaction has become what its calls have made of it. -/
theorem Conducted.follows {calls : List (Call × Answer)} {store : Store}
    {transaction : Transaction} (conducted : Conducted calls store transaction) :
    Follows (created calls) (edits calls) (added calls) store transaction := by
  induction conducted with
  | begun store => exact ⟨fun _ => rfl, rfl, nofun, fun _ _ => rfl⟩
  | @called calls store transaction _ call ih =>
    cases call with
    | createAtom =>
      refine ih.createAtom.congr (created_append ..) (fun other => ?_) ?_
      · exact (edits_append ..).trans (List.append_nil _)
      · exact (added_append ..).trans (List.append_nil _)
    | edit id change =>
      rw [ih.run_edit]
      by_cases member : id ∈ created calls
      · rw [if_pos member]
        refine (ih.edit member change).congr ?_ (fun other => ?_) ?_
        · exact (created_append ..).trans (List.append_nil _)
        · rw [edits_append]
          by_cases here : other = id
          · rw [here, Function.update_self]
            simp only [edits, List.filterMap_cons, List.filterMap_nil, ↓reduceIte]
          · rw [Function.update_of_ne here]
            simp only [edits, List.filterMap_cons, List.filterMap_nil, Ne.symm here, ↓reduceIte,
              List.append_nil]
        · exact (added_append ..).trans (List.append_nil _)
      · rw [if_neg member]
        refine ih.congr ?_ (fun other => ?_) ?_
        · exact (created_append ..).trans (List.append_nil _)
        · exact (edits_append ..).trans (List.append_nil _)
        · exact (added_append ..).trans (List.append_nil _)
    | addVerifier verifier =>
      refine (ih.addVerifier verifier).congr ?_ (fun other => ?_) (added_append ..)
      · exact (created_append ..).trans (List.append_nil _)
      · exact (edits_append ..).trans (List.append_nil _)
  | elsewhere _ next kept ih =>
    exact ⟨ih.pending_eq, ih.verifiers_eq, fun id member => kept id (ih.mem_keys_iff.mpr member),
      ih.unedited⟩

namespace Follows

variable {ids : List Nat} {made : Nat → List Edit} {verifiers : List Verifier} {store : Store}
  {transaction : Transaction}

/-- The drafts of a transaction are those that its edits have built. -/
theorem mem_entries_iff (follows : Follows ids made verifiers store transaction)
    {entry : Nat × PendingAtom} :
    entry ∈ transaction.pending.entries ↔
      entry.1 ∈ ids ∧ entry.2 = built entry.1 (made entry.1) := by
  rw [← SortedMap.get?_eq_some_iff, follows.pending_eq]
  by_cases member : entry.1 ∈ ids
  · rw [if_pos member, Option.some.injEq, eq_comm]
    exact (and_iff_right member).symm
  · rw [if_neg member]
    exact iff_of_false nofun fun both => member both.1

/-- Each draft has the number of its slot. -/
theorem numbered (follows : Follows ids made verifiers store transaction) :
    transaction.Numbered := by
  intro entry member
  rw [(follows.mem_entries_iff.mp member).2, draft_built]

/-- What is dropped was discarded and never referred to. -/
theorem mem_dropped_iff (follows : Follows ids made verifiers store transaction) {id : Nat} :
    id ∈ transaction.dropped ↔ id ∈ ids ∧ .discard ∈ made id ∧ .refer ∉ made id := by
  rw [dropped, List.mem_map]
  constructor
  · rintro ⟨entry, member, rfl⟩
    obtain ⟨listed, mark⟩ := List.mem_filter.mp member
    obtain ⟨inside, made_eq⟩ := follows.mem_entries_iff.mp listed
    rw [beq_iff_eq, made_eq, mark_built] at mark
    exact ⟨inside, mark⟩
  · intro given
    obtain ⟨member, mark⟩ := given
    refine ⟨(id, built id (made id)), List.mem_filter.mpr ⟨?_, ?_⟩, rfl⟩
    · exact follows.mem_entries_iff.mpr ⟨member, rfl⟩
    · exact beq_iff_eq.mpr ((mark_built id _).mpr mark)

/-- What is kept has the junctions that its edits leave. -/
theorem mem_kept_iff (follows : Follows ids made verifiers store transaction) {draft : Draft} :
    draft ∈ transaction.kept ↔
      draft.id ∈ ids ∧ draft.id ∉ transaction.dropped ∧
        draft.junctions = junctionsOf (made draft.id) := by
  rw [kept, List.mem_map, follows.mem_dropped_iff]
  constructor
  · rintro ⟨entry, member, rfl⟩
    obtain ⟨listed, mark⟩ := List.mem_filter.mp member
    obtain ⟨inside, made_eq⟩ := follows.mem_entries_iff.mp listed
    rw [bne_iff_ne, made_eq, ne_eq, mark_built] at mark
    rw [made_eq, draft_built]
    exact ⟨inside, fun gone => mark gone.2, rfl⟩
  · intro given
    obtain ⟨member, stays, junctions⟩ := given
    refine ⟨(draft.id, built draft.id (made draft.id)), List.mem_filter.mpr ⟨?_, ?_⟩, ?_⟩
    · exact follows.mem_entries_iff.mpr ⟨member, rfl⟩
    · rw [bne_iff_ne, ne_eq, mark_built]
      exact fun mark => stays ⟨member, mark⟩
    · rw [draft_built, ← junctions]

/-- The drafts that are kept are in the order of their slots. -/
theorem ascending_kept (follows : Follows ids made verifiers store transaction) :
    (transaction.kept.map (·.id)).Pairwise (· < ·) := by
  rw [map_id_kept follows.numbered]
  refine List.pairwise_map.mpr ((transaction.pending.ascending.filter _).imp ?_)
  exact Nat.compare_eq_lt.mp

end Follows

/-- Either a verifier is the first to object, or none does. -/
theorem verify_cases (directory : Directory) (store : Store) (verifiers : List Verifier) :
    (∃ passed objector rest reasons, verifiers = passed ++ objector :: rest ∧
        (∀ verifier ∈ passed, verifier.check directory store = .ok ()) ∧
        objector.check directory store = .error reasons ∧
        verify directory store verifiers =
          ((passed ++ [objector]).map (·.label), some reasons)) ∨
      (∀ verifier ∈ verifiers, verifier.check directory store = .ok ()) ∧
        verify directory store verifiers = (verifiers.map (·.label), none) := by
  induction verifiers with
  | nil => exact .inr ⟨nofun, rfl⟩
  | cons first rest ih =>
    cases checked : first.check directory store with
    | error reasons =>
      exact .inl ⟨[], first, rest, reasons, rfl, nofun, checked, by rw [verify, checked]; rfl⟩
    | ok =>
      rcases ih with ⟨passed, objector, later, reasons, rfl, fine, objects, asked⟩ | ⟨fine, asked⟩
      · refine .inl ⟨first :: passed, objector, later, reasons, rfl, ?_, objects, ?_⟩
        · exact List.forall_mem_cons.mpr ⟨checked, fine⟩
        · rw [verify, checked, asked]
          rfl
      · refine .inr ⟨List.forall_mem_cons.mpr ⟨checked, fine⟩, ?_⟩
        rw [verify, checked, asked]
        rfl

/-- The store that the verifiers of a commit see: as it was, but with the slots of abandoned drafts
empty for good. -/
structure Cleared (calls : List (Call × Answer)) (store cleared : Store) : Prop where
  rest_eq : cleared = store.withSlots cleared.state.slots
  ucn_eq : cleared.ucn = store.ucn
  committed_eq : cleared.state.slots.committed = store.state.slots.committed
  size_eq : cleared.state.slots.size = store.state.slots.size
  gone : ∀ id, Abandoned calls id → cleared.state.slots.slot id = .never
  others : ∀ id, ¬ Abandoned calls id → cleared.state.slots.slot id = store.state.slots.slot id

/-- How a commit ends at the first verifier that objects: all of its slots are empty for good, and
nothing else has changed. -/
structure Rejected (calls : List (Call × Answer)) (directory : Directory) (store cleared : Store)
    (report : CommitReport) : Prop where
  asked : ∃ passed objector rest reasons, added calls = passed ++ objector :: rest ∧
    (∀ verifier ∈ passed, verifier.check directory cleared = .ok ()) ∧
    objector.check directory cleared = .error reasons ∧
    report.ran = (passed ++ [objector]).map (·.label) ∧
    report.outcome = .error (.verification reasons)
  announced_eq : report.announced = none
  undone : report.Undone directory store (created calls)

/-- How a commit ends that no verifier objects to: the drafts that were not abandoned are published
in the order of their slots, under one UCN or, if there are none, without one. -/
structure Passed (calls : List (Call × Answer)) (directory : Directory) (store cleared : Store)
    (report : CommitReport) (atoms : List Atom) : Prop where
  asked : ∀ verifier ∈ added calls, verifier.check directory cleared = .ok ()
  ran_eq : report.ran = (added calls).map (·.label)
  announced_eq : report.announced = some atoms
  outcome_eq : report.outcome = .ok ⟨if atoms = [] then none else some store.ucn, atoms⟩
  directory_eq : report.directory = directory
  ucn_eq : report.store.ucn = if atoms = [] then store.ucn else store.ucn + 1
  ascending : (atoms.map (·.id)).Pairwise (· < ·)
  published : ∀ id, id ∈ atoms.map (·.id) ↔ id ∈ created calls ∧ ¬ Abandoned calls id
  content : ∀ atom ∈ atoms, atom.ucn = store.ucn ∧
    atom.junctions = junctionsOf (edits calls atom.id)
  found : ∀ atom ∈ atoms, report.store.state.slots.atom? atom.id = some atom
  gone : ∀ id ∈ created calls, report.store.state.slots.slot id = .never ↔ Abandoned calls id
  others : ∀ id, id ∉ created calls →
    report.store.state.slots.slot id = store.state.slots.slot id

section Ends

variable {calls : List (Call × Answer)} {store : Store} {transaction : Transaction}
  {directory : Directory}

/-- The verifiers see the store with the abandoned drafts gone. -/
theorem Follows.cleared
    (follows : Follows (created calls) (edits calls) (added calls) store transaction) :
    Cleared calls store (store.release transaction.dropped) := by
  obtain ⟨ucn, committed, size⟩ := store.state.slots.releaseAll_counts transaction.dropped
  refine ⟨rfl, ucn, committed, size, fun id gone => ?_, fun id stays => ?_⟩
  · refine (Slots.slot_releaseAll ..).trans (if_pos ⟨follows.mem_dropped_iff.mpr gone, ?_⟩)
    exact follows.reserved id gone.1
  · refine (Slots.slot_releaseAll ..).trans (if_neg fun both => ?_)
    exact stays (follows.mem_dropped_iff.mp both.1)

/-- What is published, and what the slots hold then, when the drafts that are kept are sealed and
put into their slots. -/
theorem Follows.passed_of_slots
    (follows : Follows (created calls) (edits calls) (added calls) store transaction)
    {cleared : Store} {report : CommitReport}
    (asked : ∀ verifier ∈ added calls, verifier.check directory cleared = .ok ())
    (ran : report.ran = (added calls).map (·.label))
    (announced : report.announced = some (store.sealedAtoms transaction.kept))
    (outcome : report.outcome = .ok ⟨if store.sealedAtoms transaction.kept = [] then none
      else some store.ucn, store.sealedAtoms transaction.kept⟩)
    (same : report.directory = directory)
    (ucn : report.store.ucn =
      if store.sealedAtoms transaction.kept = [] then store.ucn else store.ucn + 1)
    (slot : ∀ id, report.store.state.slots.slot id =
      if id ∈ transaction.dropped then .never
      else ((atomFor? (store.sealedAtoms transaction.kept) id).map Slot.committed).getD
        (store.state.slots.slot id)) :
    Passed calls directory store cleared report (store.sealedAtoms transaction.kept) := by
  have distinct : ((store.sealedAtoms transaction.kept).map (·.id)).Nodup := by
    rw [Store.map_id_sealedAtoms]
    exact nodup_kept follows.numbered
  have kept_iff (id : Nat) : id ∈ (store.sealedAtoms transaction.kept).map (·.id) ↔
      id ∈ created calls ∧ ¬ Abandoned calls id := by
    rw [Store.map_id_sealedAtoms, List.mem_map]
    constructor
    · rintro ⟨draft, member, rfl⟩
      obtain ⟨inside, stays, _⟩ := follows.mem_kept_iff.mp member
      exact ⟨inside, fun gone => stays (follows.mem_dropped_iff.mpr gone)⟩
    · intro given
      obtain ⟨inside, stays⟩ := given
      refine ⟨⟨id, junctionsOf (edits calls id)⟩, follows.mem_kept_iff.mpr ?_, rfl⟩
      exact ⟨inside, fun gone => stays (follows.mem_dropped_iff.mp gone), rfl⟩
  have here {atom : Atom} (member : atom ∈ store.sealedAtoms transaction.kept) :
      report.store.state.slots.slot atom.id = .committed atom := by
    have stays := ((kept_iff atom.id).mp (List.mem_map_of_mem member)).2
    rw [slot, if_neg fun gone => stays (follows.mem_dropped_iff.mp gone),
      (atomFor?_eq_some_iff distinct).mpr ⟨member, rfl⟩]
    rfl
  refine ⟨asked, ran, announced, outcome, same, ucn, ?_, kept_iff, fun atom member => ?_,
    fun atom member => Slots.atom?_eq_some_iff.mpr (here member), fun id member => ?_,
    fun id absent => ?_⟩
  · rw [Store.map_id_sealedAtoms]
    exact follows.ascending_kept
  · obtain ⟨draft, listed, rfl⟩ := List.mem_map.mp member
    exact ⟨rfl, (follows.mem_kept_iff.mp listed).2.2⟩
  · constructor
    · intro never
      by_contra stays
      obtain ⟨atom, listed, rfl⟩ := List.mem_map.mp ((kept_iff id).mpr ⟨member, stays⟩)
      rw [here listed] at never
      cases never
    · intro gone
      rw [slot, if_pos (follows.mem_dropped_iff.mpr gone)]
  · have unnamed : atomFor? (store.sealedAtoms transaction.kept) id = none := by
      rw [← Option.not_isSome_iff_eq_none, isSome_atomFor?]
      exact fun named => absent ((kept_iff id).mp named).1
    rw [slot, if_neg fun gone => absent (follows.mem_dropped_iff.mp gone).1, unnamed]
    rfl

/-- A commit that no verifier objects to publishes the drafts that were not abandoned. -/
theorem Follows.passed
    (follows : Follows (created calls) (edits calls) (added calls) store transaction)
    (memory : store.file = none) (writable : store.readOnly = false)
    (asked : ∀ verifier ∈ added calls,
      verifier.check directory (store.release transaction.dropped) = .ok ())
    (verified : verify directory (store.release transaction.dropped) transaction.verifiers =
      ((added calls).map (·.label), none)) :
    Passed calls directory store (store.release transaction.dropped)
      (transaction.commit directory store) (store.sealedAtoms transaction.kept) := by
  have reserved {id : Nat} (member : id ∈ transaction.pending.keys) :
      store.state.slots.slot id = .pending :=
    follows.reserved id (follows.mem_keys_iff.mp member)
  have parts := mem_keys_iff_dropped_or_kept follows.numbered
  by_cases empty : transaction.kept = []
  · have none : store.sealedAtoms transaction.kept = [] := by
      rw [empty]
      rfl
    rw [commit_of_nothing_kept writable verified empty]
    refine follows.passed_of_slots asked rfl ?_ ?_ rfl ?_ fun id => ?_
    · rw [none]
    · rw [none]
      rfl
    · rw [none]
      exact (store.state.slots.releaseAll_counts transaction.dropped).1
    · rw [none]
      refine (Slots.slot_releaseAll ..).trans ?_
      by_cases gone : id ∈ transaction.dropped
      · rw [if_pos gone, if_pos ⟨gone, reserved ((parts id).mpr (.inl gone))⟩]
      · rw [if_neg gone, if_neg fun both => gone both.1]
        rfl
  · have some : store.sealedAtoms transaction.kept ≠ [] := by
      rw [Store.sealedAtoms, ne_eq, List.map_eq_nil_iff]
      exact empty
    have wrote : write directory (store.release transaction.dropped) transaction.kept =
        .ok (directory, store.release transaction.dropped, transaction.kept) := by
      have none : (store.release transaction.dropped).file = none := memory
      simp only [write, none]
    obtain ⟨published, done, _, _, ucn, _, slot⟩ :=
      publish_released transaction.kept [] (Eq.refl (store.release transaction.dropped).state.slots)
        (nodup_kept follows.numbered)
        (fun id member => reserved ((parts id).mpr (.inl member)))
        (fun id member => reserved ((parts id).mpr (.inr member)))
        (fun id member => not_mem_dropped_of_kept follows.numbered member)
    rw [commit_of_published writable verified empty wrote done]
    refine follows.passed_of_slots asked rfl rfl ?_ rfl ?_ slot
    · rw [if_neg some]
    · rw [if_neg some]
      exact ucn

/-- What a commit in memory comes to is told by the calls of its transaction. An edit of a slot that
the transaction has not reserved is refused and changes nothing, and every other one is made. The
commit asks the verifiers in order when the abandoned drafts are gone, and publishes the other ones
if none objects. -/
theorem Conducted.commit_ends (conducted : Conducted calls store transaction)
    (memory : store.file = none) (writable : store.readOnly = false) (directory : Directory) :
    (∀ id ∉ created calls, ∀ change, (Call.edit id change).run transaction store =
      (.refused (.unknownAtom id), store, transaction)) ∧
    (∀ id ∈ created calls, ∀ change,
      ((Call.edit id change).run transaction store).1 = .done) ∧
    ∃ cleared, Cleared calls store cleared ∧
      (Rejected calls directory store cleared (transaction.commit directory store) ∨
        ∃ atoms, Passed calls directory store cleared (transaction.commit directory store)
          atoms) := by
  have follows := conducted.follows
  refine ⟨fun id absent change => ?_, fun id member change => ?_, ?_⟩
  · rw [follows.run_edit, if_neg absent]
  · rw [follows.run_edit, if_pos member]
  · refine ⟨_, follows.cleared, ?_⟩
    have checks := follows.verifiers_eq
    rcases verify_cases directory (store.release transaction.dropped) (added calls) with
      ⟨passed, objector, rest, reasons, split, fine, objects, verified⟩ | ⟨asked, verified⟩
    · rw [← checks] at verified
      rw [commit_of_objection writable verified]
      refine .inl ⟨⟨passed, objector, rest, reasons, split, fine, objects, rfl, rfl⟩, rfl, ?_⟩
      refine undone_of_release _ _ rfl rfl (fun id => ?_) follows.reserved
      rw [← follows.mem_keys_iff]
      exact mem_keys_iff_dropped_or_kept follows.numbered id
    · rw [← checks] at verified
      exact .inr ⟨_, follows.passed memory writable asked (checks ▸ verified)⟩

/-- A verifier that wants a slot to be empty for good. -/
def wantsEmpty (id : Nat) : Verifier where
  label := "empty"
  check _ store := if store.state.slots.slot id = .never then .ok () else .error ["in use"]

/-- Of three drafts, two are discarded and referred to, in either order, and one is only discarded,
which a verifier finds done; a slot that was not reserved is refused. Of the two keys that are bound
in the first draft, one is unbound again. -/
theorem commit_ends_in_any_order :
    ∃ store transaction cleared atoms,
      let calls : List (Call × Answer) := [(.createAtom, .created 0), (.createAtom, .created 1),
        (.createAtom, .created 2), (.edit 0 (.bind 5 (.text "five")), .done),
        (.edit 0 .discard, .done), (.edit 1 .discard, .done), (.addVerifier (wantsEmpty 1), .done),
        (.edit 2 .refer, .done), (.edit 0 (.bind 4 (.integer 4)), .done), (.edit 0 .refer, .done),
        (.edit 0 (.unbind 5), .done), (.edit 2 .discard, .done),
        (.edit 3 .discard, .refused (.unknownAtom 3))]
      Conducted calls store transaction ∧ store.file = none ∧ store.readOnly = false ∧
        Cleared calls store cleared ∧
        Passed calls {} store cleared (transaction.commit {} store) atoms ∧
        atoms.map (fun atom => (atom.id, atom.junctions.entries)) =
          [(0, [(4, .integer 4)]), (2, [])] := by
  have conducted := (Conducted.begun (Store.inMemory {} {}).1).runAll [.createAtom, .createAtom,
    .createAtom, .edit 0 (.bind 5 (.text "five")), .edit 0 .discard, .edit 1 .discard,
    .addVerifier (wantsEmpty 1), .edit 2 .refer, .edit 0 (.bind 4 (.integer 4)), .edit 0 .refer,
    .edit 0 (.unbind 5), .edit 2 .discard, .edit 3 .discard]
  obtain ⟨cleared, gone, rejected | ⟨atoms, passed⟩⟩ := (conducted.commit_ends rfl rfl {}).2.2
  · have unreferred : Edit.refer ∉ [Edit.discard] := by
      simp only [List.mem_singleton, reduceCtorEq, not_false_eq_true]
    have accepted : (wantsEmpty 1).check {} cleared = .ok () :=
      if_pos (gone.gone 1 ⟨.tail _ (.head _), .head _, unreferred⟩)
    obtain ⟨passed, objector, rest, _, split, _, objects, _⟩ := rejected.asked
    have only : [wantsEmpty 1] = passed ++ objector :: rest := split
    have named : objector = wantsEmpty 1 := by
      cases passed with
      | nil => exact (List.cons.inj only).1.symm
      | cons first later =>
        exact absurd (List.cons.inj only).2.symm
          (List.append_ne_nil_of_right_ne_nil _ (List.cons_ne_nil _ _))
    rw [named, accepted] at objects
    cases objects
  · refine ⟨_, _, cleared, atoms, conducted, rfl, rfl, gone, passed, ?_⟩
    obtain rfl := (Option.some.inj passed.announced_eq).symm
    rfl

end Ends

end Transaction
end AtomStore
