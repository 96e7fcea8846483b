import AtomStore.Proofs.DataFile.Content
import AtomStore.Proofs.Store.IndexExact

/-!
# Commits of one atom

A transaction of one draft whose values are integers and texts has one of two ends. In a store that
is read-only it fails, and its slot is empty for good. In any other store it succeeds: nothing in
such a draft is read from a file or stays in one, so nothing can fail.
-/

namespace AtomStore

namespace Slots

variable (slots : Slots)

/-- The slots with one more behind them. -/
def push (slot : Slot) : Slots := { slots with table := slots.table.push slot }

theorem size_push (slot : Slot) : (slots.push slot).size = slots.size + 1 := Array.size_push _

theorem atoms_push (slot : Slot) :
    (slots.push slot).atoms = slots.atoms ++ slot.atom?.toList := by
  rw [atoms, push, Array.toList_push, List.filterMap_append]
  cases slot <;> rfl

theorem setIfInBounds_push (first last : Slot) :
    (slots.table.push first).setIfInBounds slots.size last = slots.table.push last := by
  apply Array.ext'
  rw [Array.toList_setIfInBounds, Array.toList_push, Array.toList_push, size,
    ← Array.length_toList, List.set_append_right _ _ (Nat.le_refl _), Nat.sub_self]
  rfl

theorem slot_reserve_self : slots.reserve.2.slot slots.size = .pending := by
  rw [slot_reserve, if_pos rfl]

theorem releaseAll_reserve : slots.reserve.2.releaseAll [slots.size] = slots.push .never := by
  have table := slots.setIfInBounds_push .pending .never
  rw [releaseAll, List.foldl_cons, List.foldl_nil, release,
    if_pos (isPending_iff.mpr slots.slot_reserve_self), Except.toOption, Option.getD_some, push,
    ← table]
  rfl

/-- The slot reserved last takes an atom with the UCN of the next commit. -/
theorem publish_reserve {atom : Atom} (here : atom.id = slots.size) (now : atom.ucn = slots.ucn) :
    slots.reserve.2.publish [atom] =
      .ok { slots.push (.committed atom) with
        ucn := slots.ucn + 1
        committed := slots.committed + 1
        ucn_pos := Nat.succ_pos slots.ucn } := by
  have admitted : ∀ other ∈ [atom],
      slots.reserve.2.slot other.id = .pending ∧ other.ucn = slots.reserve.2.ucn := by
    intro other member
    rw [List.mem_singleton.mp member, here]
    exact ⟨slots.slot_reserve_self, now⟩
  have filled : fill slots.reserve.2.table [atom] = slots.table.push (.committed atom) := by
    rw [fill, List.foldl_cons, List.foldl_nil, here]
    exact slots.setIfInBounds_push .pending (.committed atom)
  rw [publish_eq_ok admitted]
  simp only [filled]
  rfl

end Slots

namespace DataFile

variable {file : DataFile}

/-- Integers and texts are written as they are, and none of them stays in the file. -/
theorem storedJunctions_of_inline (file : DataFile) (directory : Directory) (hosting : Bool)
    (threshold : Nat) {junctions : List (Key × Particle)}
    (inline : ∀ binding ∈ junctions, binding.2.byteLength? = none) :
    ∃ values, junctions.mapM (file.storedJunction directory hosting threshold) = .ok values ∧
      ∀ id position, Log.hostedInJunctions id position values = [] := by
  induction junctions with
  | nil => exact ⟨[], rfl, fun _ _ => rfl⟩
  | cons binding rest ih =>
    obtain ⟨key, particle⟩ := binding
    obtain ⟨short, others⟩ := List.forall_mem_cons.mp inline
    obtain ⟨values, stored, hostless⟩ := ih others
    rw [List.mapM_cons, stored]
    cases particle with
    | integer value =>
      exact ⟨(key, .integer value) :: values, rfl, fun id position => hostless id _⟩
    | text value => exact ⟨(key, .text value) :: values, rfl, fun id position => hostless id _⟩
    | bytes payload => cases short
    | hosted offset length => cases short

/-- A draft without bytes is always appended. -/
theorem append_of_inline {draft : Draft} (writable : file.readOnly = false)
    (inline : ∀ binding ∈ draft.junctions.entries, binding.2.byteLength? = none)
    (directory : Directory) (ucn threshold : Nat) :
    ∃ written next, file.append directory ucn [draft] threshold = .ok (written, next, []) ∧
      next.readOnly = false := by
  obtain ⟨values, stored, hostless⟩ :=
    storedJunctions_of_inline file directory (file.hosting threshold) threshold inline
  have atoms : [draft].mapM (file.storedAtom directory (file.hosting threshold) threshold) =
      .ok [⟨draft.id, values⟩] := by
    rw [List.mapM_cons, List.mapM_nil, storedAtom, stored]
    rfl
  have places : Log.hostedPlaces file.stop ucn [⟨draft.id, values⟩] = [] := by
    rw [Log.hostedPlaces, Log.hostedInAtoms, hostless]
    rfl
  let result := file.writeNext directory (Log.recordBytes ucn [⟨draft.id, values⟩])
  refine ⟨result.1, result.2, ?_, writable⟩
  rw [append_eq, if_neg (by rw [writable]; exact Bool.false_ne_true), atoms, ← places]
  rfl

end DataFile

namespace Transaction

variable {transaction : Transaction} {draft : Draft} {store : Store}

/-- A transaction with one draft and nothing to verify. -/
structure Single (transaction : Transaction) (draft : Draft) : Prop where
  entries_eq : transaction.pending.entries = [(draft.id, { draft })]
  verifiers_eq : transaction.verifiers = []

/-- A transaction reserves the next slot and has one draft in it. -/
theorem single_of_createAtom (store : Store) (junctions : Junctions) :
    ∃ started transaction, (start store).createAtom store =
        (store.state.slots.size, store.withSlots store.state.slots.reserve.2, started) ∧
      started.setJunctions store.state.slots.size junctions = .ok transaction ∧
      transaction.Single ⟨store.state.slots.size, junctions⟩ := by
  have created : ((start store).createAtom store).2.2.pending.get? store.state.slots.size =
      some { draft := { id := store.state.slots.size } } := SortedMap.get?_insert_self ..
  refine ⟨((start store).createAtom store).2.2, ?_⟩
  rw [setJunctions, change, created]
  refine ⟨_, rfl, rfl, ?_, rfl⟩
  change SortedMap.place _ _ [(store.state.slots.size, _)] = _
  have tie : compare store.state.slots.size store.state.slots.size = .eq :=
    Std.ReflCmp.compare_self
  rw [SortedMap.place, tie]

namespace Single

theorem keys_eq (single : transaction.Single draft) : transaction.pending.keys = [draft.id] := by
  rw [SortedMap.keys, single.entries_eq]
  rfl

theorem dropped_eq (single : transaction.Single draft) : transaction.dropped = [] := by
  rw [dropped, single.entries_eq]
  rfl

theorem kept_eq (single : transaction.Single draft) : transaction.kept = [draft] := by
  rw [kept, single.entries_eq]
  rfl

end Single

/-- A store that is read-only loses the slot of the transaction. -/
theorem Single.commit_locked (single : transaction.Single draft)
    (last : draft.id = store.state.slots.size) (readOnly : store.readOnly = true)
    (directory : Directory) :
    transaction.commit directory (store.withSlots store.state.slots.reserve.2) =
      ⟨directory, store.withSlots (store.state.slots.push .never), [], none,
        .error .readOnly⟩ := by
  have locked : (store.withSlots store.state.slots.reserve.2).readOnly = true := readOnly
  rw [transaction.commit_of_readOnly locked, rollback, single.keys_eq, last,
    ← Slots.releaseAll_reserve]
  rfl

/-- A draft without bytes is always written. -/
theorem write_of_inline (writable : ∀ file ∈ store.file, file.readOnly = false)
    (inline : ∀ binding ∈ draft.junctions.entries, binding.2.byteLength? = none)
    (directory : Directory) :
    ∃ written file, write directory store [draft] = .ok (written, { store with file }, [draft]) ∧
      ∀ found ∈ file, found.readOnly = false := by
  cases present : store.file with
  | none =>
    refine ⟨directory, store.file, ?_, writable⟩
    rw [write]
    split
    · rfl
    · rename_i found
      rw [present] at found
      cases found
  | some file =>
    obtain ⟨written, next, appended, unlocked⟩ := DataFile.append_of_inline
      (writable file present) inline directory store.ucn store.settings.hostedThreshold
    refine ⟨written, some next, ?_, fun found member => by cases member; exact unlocked⟩
    rw [write, present]
    simp only [appended]
    rfl

/-- The draft in the slot that was reserved last is published. -/
theorem publish_last (last : draft.id = store.state.slots.size) (file : Option DataFile) :
    ∃ state,
      publish { store.withSlots store.state.slots.reserve.2 with file } [draft] =
        .ok ({ store with file, state },
          ⟨some store.ucn, [draft.toAtom store.state.slots.ucn store.state.slots.ucn_pos]⟩) ∧
      state.slots.atoms = store.state.slots.atoms ++
        [draft.toAtom store.state.slots.ucn store.state.slots.ucn_pos] ∧
      state.slots.size = store.state.slots.size + 1 ∧ state.slots.ucn = store.ucn + 1 ∧
      (state.indices = store.state.indices ∨
        state.indices = store.state.indices.map (·.refresh state.slots)) := by
  let atom := draft.toAtom store.state.slots.ucn store.state.slots.ucn_pos
  let slots : Slots := { store.state.slots.push (.committed atom) with
    ucn := store.state.slots.ucn + 1
    committed := store.state.slots.committed + 1
    ucn_pos := Nat.succ_pos store.state.slots.ucn }
  let state : State := { store.state with slots }
  have filled : store.state.slots.reserve.2.publish [atom] = .ok slots :=
    store.state.slots.publish_reserve last rfl
  have published : publish { store.withSlots store.state.slots.reserve.2 with file } [draft] =
      .ok ({ store with file, state := if store.defaultIndexing then state.refreshAll else state },
        ⟨some store.ucn, [atom]⟩) := by
    rw [publish]
    change (store.state.slots.reserve.2.publish [atom]).map _ = _
    rw [filled]
    rfl
  have atoms := store.state.slots.atoms_push (.committed atom)
  have size := store.state.slots.size_push (.committed atom)
  by_cases indexing : store.defaultIndexing = true
  · rw [if_pos indexing] at published
    exact ⟨state.refreshAll, published, atoms, size, rfl, .inr rfl⟩
  · rw [if_neg indexing] at published
    exact ⟨state, published, atoms, size, rfl, .inl rfl⟩

/-- A store that is not read-only takes the atom of the transaction into its slot. -/
theorem Single.commit_of_inline (single : transaction.Single draft)
    (last : draft.id = store.state.slots.size) (unlocked : store.readOnly = false)
    (writable : ∀ file ∈ store.file, file.readOnly = false)
    (inline : ∀ binding ∈ draft.junctions.entries, binding.2.byteLength? = none)
    (directory : Directory) :
    ∃ written file state,
      transaction.commit directory (store.withSlots store.state.slots.reserve.2) =
        ⟨written, { store with file, state }, [],
          some [draft.toAtom store.state.slots.ucn store.state.slots.ucn_pos],
          .ok ⟨some store.ucn, [draft.toAtom store.state.slots.ucn store.state.slots.ucn_pos]⟩⟩ ∧
      (∀ found ∈ file, found.readOnly = false) ∧
      state.slots.atoms = store.state.slots.atoms ++
        [draft.toAtom store.state.slots.ucn store.state.slots.ucn_pos] ∧
      state.slots.size = store.state.slots.size + 1 ∧ state.slots.ucn = store.ucn + 1 ∧
      (state.indices = store.state.indices ∨
        state.indices = store.state.indices.map (·.refresh state.slots)) := by
  let reserved := store.withSlots store.state.slots.reserve.2
  have free : ∀ file ∈ reserved.file, file.readOnly = false := writable
  obtain ⟨written, file, wrote, others⟩ := write_of_inline free inline directory
  obtain ⟨state, published, after⟩ := publish_last last file
  refine ⟨written, file, state, ?_, others, after⟩
  have cleared : reserved.release [] = reserved := rfl
  have open' : ¬reserved.readOnly = true := by
    change ¬store.readOnly = true
    rw [unlocked]
    exact Bool.false_ne_true
  change transaction.commit directory reserved = _
  rw [commit_eq, if_neg open']
  simp only [single.verifiers_eq, single.kept_eq, single.dropped_eq, cleared, verify, wrote,
    List.isEmpty_cons, Bool.false_eq_true, ↓reduceIte]
  rw [published]

end Transaction

end AtomStore
