import AtomStore.Proofs.Store.Occupied
import AtomStore.Proofs.Store.Turns

/-!
# Slots under construction

A slot that is handed out to a transaction is its own until the transaction ends, and then it holds
an atom or is empty for good. So in every session in which drafts keep the numbers of their slots, the
reserved slots are those in which an open transaction has a draft.
-/

namespace AtomStore

namespace Session

/-- The slot that an action hands out, behind the name of its transaction. -/
def handed? (session : Session) : Action → Option (Nat × Nat)
  | .createAtom name => (session.transactions name).map fun transaction =>
      (name, (transaction.createAtom session.store).1)
  | _ => none

/-- The transaction that an action ends. -/
def Action.ended? : Action → Option Nat
  | .commit name => some name
  | .rollback name => some name
  | _ => none

/-- Whether an open transaction has a draft in a slot. -/
def Building (session : Session) (name id : Nat) : Prop :=
  ∃ transaction, session.transactions name = some transaction ∧ id ∈ transaction.pending.keys

/-- The slot that a turn hands out, behind the name of its transaction. -/
def handedBy? (session : Session) : Turn → Option (Nat × Nat)
  | .act action => session.handed? action
  | .exchange .. | .commit .. => none

/-- The transaction that a turn ends. -/
def Turn.ended? : Turn → Option Nat
  | act action => action.ended?
  | exchange .. => none
  | commit name _ => some name

variable {session : Session} {name id : Nat}

/-- After one transaction has been replaced, only what that one builds may differ. -/
theorem building_of_update {after : Session} {other : Nat} {found : Option Transaction}
    (changed : after.transactions = Function.update session.transactions other found) :
    after.Building name id ↔
      name = other ∧ (∃ transaction, found = some transaction ∧ id ∈ transaction.pending.keys) ∨
        name ≠ other ∧ session.Building name id := by
  rw [Building, changed]
  by_cases same : name = other
  · rw [same, Function.update_self]
    simp only [true_and, ne_eq, not_true_eq_false, false_and, or_false]
  · rw [Function.update_of_ne same]
    simp only [same, false_and, ne_eq, not_false_eq_true, true_and, false_or, Building]

/-- A transaction whose slots stay the same builds in the same slots. -/
theorem building_of_keys {after : Session} {other : Nat} {before next : Transaction}
    (present : session.transactions other = some before)
    (changed : after.transactions = Function.update session.transactions other (some next))
    (keys : ∀ id, id ∈ next.pending.keys ↔ id ∈ before.pending.keys) :
    after.Building name id ↔ session.Building name id := by
  rw [building_of_update changed]
  by_cases same : name = other
  · subst same
    simp only [Option.some.injEq, exists_eq_left', true_and, keys, ne_eq, not_true_eq_false,
      false_and, or_false, Building, present]
  · simp only [same, false_and, ne_eq, not_false_eq_true, true_and, false_or]

/-- A transaction that has ended builds nothing more. -/
theorem building_of_ended {after : Session} {other : Nat}
    (changed : after.transactions = Function.update session.transactions other none) :
    after.Building name id ↔ session.Building name id ∧ some other ≠ some name := by
  rw [building_of_update changed, and_comm (a := session.Building name id)]
  simp only [reduceCtorEq, false_and, exists_false, and_false, false_or, ne_eq, Option.some.injEq,
    eq_comm (a := other)]

/-- An atom that is created is built by its transaction from then on. -/
theorem building_of_created {after : Session} {other : Nat} {transaction : Transaction}
    {store : Store} (present : session.transactions other = some transaction)
    (changed : after.transactions = Function.update session.transactions other
      (some (transaction.createAtom store).2.2)) :
    after.Building name id ↔
      session.Building name id ∨ (other, (transaction.createAtom store).1) = (name, id) := by
  rw [building_of_update changed, Prod.mk.injEq]
  have keys : id ∈ (transaction.createAtom store).2.2.pending.keys ↔
      id = (transaction.createAtom store).1 ∨ id ∈ transaction.pending.keys :=
    SortedMap.mem_keys_insert
  by_cases same : name = other
  · subst same
    simp only [Option.some.injEq, exists_eq_left', true_and, keys, ne_eq, not_true_eq_false,
      false_and, or_false, Building, present, eq_comm (a := id)]
    exact or_comm
  · simp only [same, false_and, ne_eq, not_false_eq_true, true_and, false_or, Ne.symm same,
      or_false]

/-- A transaction that has begun builds nothing yet. -/
theorem building_of_started {after : Session} {other : Nat} {store : Store}
    (absent : session.transactions other = none)
    (changed : after.transactions = Function.update session.transactions other
      (some (.start store))) :
    after.Building name id ↔ session.Building name id := by
  rw [building_of_update changed]
  have keys : (Transaction.start store).pending.keys = [] := rfl
  by_cases same : name = other
  · subst same
    simp only [Option.some.injEq, exists_eq_left', keys, List.not_mem_nil, and_false, ne_eq,
      not_true_eq_false, false_and, or_false, Building, absent, reduceCtorEq, exists_false]
  · simp only [same, false_and, ne_eq, not_false_eq_true, true_and, false_or]

/-- A transaction that is not open builds nowhere. -/
theorem building_of_absent {other : Nat} (absent : session.transactions other = none) :
    session.Building name id ↔ session.Building name id ∧ some other ≠ some name := by
  refine ⟨fun building => ⟨building, fun same => ?_⟩, And.left⟩
  obtain ⟨transaction, present, _⟩ := building
  rw [← Option.some.inj same, absent] at present
  cases present

/-- Transactions build in the slots that are handed out to them until they end. -/
theorem building_step_iff {action : Action} (stays : ∀ settings, action ≠ .reopen settings) :
    (session.step action).Building name id ↔
      (session.Building name id ∨ session.handed? action = some (name, id)) ∧
        action.ended? ≠ some name := by
  have kept (ended : action.ended? = none) (handed : session.handed? action = none)
      (same : (session.step action).Building name id ↔ session.Building name id) :
      (session.step action).Building name id ↔
        (session.Building name id ∨ session.handed? action = some (name, id)) ∧
          action.ended? ≠ some name := by
    rw [same, ended, handed]
    simp only [reduceCtorEq, or_false, ne_eq, not_false_eq_true, and_true]
  cases action with
  | begin other =>
    refine kept rfl rfl ?_
    cases present : session.transactions other with
    | some transaction => simp only [step, present]
    | none =>
      simp only [step, present]
      exact building_of_started present rfl
  | createAtom other =>
    cases present : session.transactions other with
    | none =>
      refine kept rfl ?_ ?_
      · rw [handed?, present]
        rfl
      · simp only [step, present]
    | some transaction =>
      simp only [step, present, handed?, Option.map_some, Option.some.injEq, Action.ended?, ne_eq,
        reduceCtorEq, not_false_eq_true, and_true]
      exact building_of_created present rfl
  | edit other slot edit =>
    refine kept rfl rfl ?_
    cases present : session.transactions other with
    | none => simp only [step, present]
    | some transaction =>
      cases edited : edit.run transaction slot with
      | error refusal => simp only [step, present, edited]
      | ok next =>
        simp only [step, present, edited]
        refine building_of_keys present rfl fun id => ?_
        obtain ⟨atom, changed, held, _, rfl⟩ := Transaction.edit_eq_ok edited
        rw [SortedMap.mem_keys_insert, or_iff_right_iff_imp]
        rintro rfl
        exact SortedMap.mem_keys_iff.mpr ⟨atom, held⟩
  | addVerifier other verifier =>
    refine kept rfl rfl ?_
    cases present : session.transactions other with
    | none => simp only [step, present]
    | some transaction =>
      simp only [step, present]
      exact building_of_keys present rfl fun id => Iff.rfl
  | commit other =>
    cases present : session.transactions other with
    | none =>
      simp only [step, present, handed?, reduceCtorEq, or_false]
      exact building_of_absent present
    | some transaction =>
      simp only [step, present, handed?, reduceCtorEq, or_false]
      exact building_of_ended rfl
  | rollback other =>
    cases present : session.transactions other with
    | none =>
      simp only [step, present, handed?, reduceCtorEq, or_false]
      exact building_of_absent present
    | some transaction =>
      simp only [step, present, handed?, reduceCtorEq, or_false]
      exact building_of_ended rfl
  | setReadOnly readOnly =>
    refine kept rfl rfl ?_
    rw [step]
    split <;> exact Iff.rfl
  | setDefaultIndexing indexing => exact kept rfl rfl Iff.rfl
  | createIndex info =>
    refine kept rfl rfl ?_
    rw [step]
    split <;> exact Iff.rfl
  | refresh index => exact kept rfl rfl Iff.rfl
  | reopen settings => exact absurd rfl (stays settings)

/-- A slot that is reserved after a commit was reserved before, and not for its transaction. -/
theorem Owned.pending_ended (owned : session.Owned) {transaction : Transaction}
    {course : Transaction.Course} (present : session.transactions name = some transaction)
    (pending : (transaction.commitUnder course session.host.directory
      session.store).store.state.slots.slot id = .pending) :
    session.store.state.slots.slot id = .pending ∧ id ∉ transaction.pending.keys := by
  have numbered := owned.numbered name transaction present
  have reserved := owned.pending name transaction present
  have absent : id ∉ transaction.pending.keys := fun member =>
    Transaction.slot_commitUnder_ne_pending numbered reserved member pending
  exact ⟨(Transaction.slot_commitUnder_of_not_mem numbered reserved absent).symm.trans pending,
    absent⟩

/-- A transaction without a slot does not build in it. -/
theorem not_building_of_not_mem {transaction : Transaction} {other : Nat}
    (present : session.transactions other = some transaction)
    (absent : id ∉ transaction.pending.keys) :
    ∀ name, some other = some name → ¬ session.Building name id := by
  rintro name same ⟨found, here, member⟩
  rw [← Option.some.inj same, present] at here
  exact absent (Option.some.inj here ▸ member)

/-- A slot that is reserved after an action has just been handed out, or it was reserved before for
a transaction that goes on. -/
theorem Owned.pending_step (owned : session.Owned) {action : Action}
    (stays : ∀ settings, action ≠ .reopen settings)
    (pending : (session.step action).store.state.slots.slot id = .pending) :
    (∃ name, session.handed? action = some (name, id)) ∨
      session.store.state.slots.slot id = .pending ∧
        ∀ name, action.ended? = some name → ¬ session.Building name id := by
  have none_ends (open_after : action.ended? = none) :
      ∀ name, action.ended? = some name → ¬ session.Building name id := by
    intro name same
    rw [open_after] at same
    cases same
  cases action with
  | createAtom other =>
    cases present : session.transactions other with
    | none =>
      simp only [Session.step, present] at pending
      exact .inr ⟨pending, none_ends rfl⟩
    | some transaction =>
      simp only [Session.step, present] at pending
      have reserved := (Slots.slot_reserve session.store.state.slots id).symm.trans pending
      split at reserved
      · rename_i last
        refine .inl ⟨other, ?_⟩
        rw [handed?, present, last]
        rfl
      · exact .inr ⟨reserved, none_ends rfl⟩
  | commit other =>
    cases present : session.transactions other with
    | none =>
      simp only [Session.step, present] at pending
      refine .inr ⟨pending, ?_⟩
      rintro name same ⟨found, here, _⟩
      rw [← Option.some.inj same, present] at here
      cases here
    | some transaction =>
      rw [step_commit present] at pending
      obtain ⟨reserved, absent⟩ := owned.pending_ended present pending
      exact .inr ⟨reserved, not_building_of_not_mem present absent⟩
  | rollback other =>
    cases present : session.transactions other with
    | none =>
      simp only [Session.step, present] at pending
      refine .inr ⟨pending, ?_⟩
      rintro name same ⟨found, here, _⟩
      rw [← Option.some.inj same, present] at here
      cases here
    | some transaction =>
      simp only [Session.step, present] at pending
      have left := (Slots.slot_releaseAll session.store.state.slots transaction.pending.keys
        id).symm.trans pending
      split at left
      · cases left
      · rename_i kept
        exact .inr ⟨left, not_building_of_not_mem present fun member => kept ⟨member, left⟩⟩
  | begin other =>
    refine .inr ⟨?_, none_ends rfl⟩
    rw [Session.step] at pending
    split at pending <;> exact pending
  | edit other slot edit =>
    refine .inr ⟨?_, none_ends rfl⟩
    rw [Session.step] at pending
    split at pending
    · exact pending
    · split at pending <;> exact pending
  | addVerifier other verifier =>
    refine .inr ⟨?_, none_ends rfl⟩
    rw [Session.step] at pending
    split at pending <;> exact pending
  | setReadOnly readOnly =>
    refine .inr ⟨?_, none_ends rfl⟩
    rw [Session.step] at pending
    split at pending
    · rename_i store done
      obtain rfl := Store.setReadOnly_eq_ok done
      exact pending
    · exact pending
  | setDefaultIndexing indexing => exact .inr ⟨pending, none_ends rfl⟩
  | createIndex info =>
    refine .inr ⟨?_, none_ends rfl⟩
    rw [Session.step] at pending
    split at pending
    · rename_i index store host done
      obtain ⟨_, indices, rfl⟩ := Store.createIndex_eq_ok done
      exact pending
    · exact pending
  | refresh index => exact .inr ⟨pending, none_ends rfl⟩
  | reopen settings => exact absurd rfl (stays settings)

/-- Transactions build in the slots that are handed out to them until they end, whatever becomes of
their drafts. -/
theorem building_take_iff {turn : Turn} (stays : turn.Stays) :
    (session.take turn).Building name id ↔
      (session.Building name id ∨ session.handedBy? turn = some (name, id)) ∧
        turn.ended? ≠ some name := by
  cases turn with
  | act action => exact building_step_iff stays.action
  | exchange other slot draft =>
    have same : (session.take (.exchange other slot draft)).Building name id ↔
        session.Building name id := by
      rw [take]
      split
      · exact Iff.rfl
      · rename_i transaction present
        split
        · rename_i next exchanged
          obtain ⟨atom, held, rfl⟩ := Transaction.change_eq_ok exchanged
          refine building_of_keys present rfl fun id => ?_
          rw [SortedMap.mem_keys_insert, or_iff_right_iff_imp]
          rintro rfl
          exact SortedMap.mem_keys_iff.mpr ⟨atom, held⟩
        · exact Iff.rfl
    rw [same, handedBy?, Turn.ended?]
    simp only [reduceCtorEq, or_false, ne_eq, not_false_eq_true, and_true]
  | commit other course =>
    simp only [handedBy?, reduceCtorEq, or_false]
    cases present : session.transactions other with
    | none =>
      simp only [take, present]
      exact building_of_absent present
    | some transaction =>
      simp only [take, present]
      exact building_of_ended rfl

/-- A slot that is reserved after a turn has just been handed out, or it was reserved before for a
transaction that goes on, as long as drafts keep their numbers. -/
theorem Owned.pending_take (owned : session.Owned) {turn : Turn} (stays : turn.Stays)
    (pending : (session.take turn).store.state.slots.slot id = .pending) :
    (∃ name, session.handedBy? turn = some (name, id)) ∨
      session.store.state.slots.slot id = .pending ∧
        ∀ name, turn.ended? = some name → ¬ session.Building name id := by
  cases turn with
  | act action => exact owned.pending_step stays.action pending
  | exchange other slot draft =>
    refine .inr ⟨?_, nofun⟩
    rw [Session.take] at pending
    split at pending
    · exact pending
    · split at pending <;> exact pending
  | commit other course =>
    right
    cases present : session.transactions other with
    | none =>
      simp only [Session.take, present] at pending
      refine ⟨pending, fun name same building => ?_⟩
      exact ((building_of_absent present).mp building).2 same
    | some transaction =>
      simp only [Session.take, present] at pending
      obtain ⟨reserved, absent⟩ := owned.pending_ended present pending
      exact ⟨reserved, not_building_of_not_mem present absent⟩

/-- A turn in an open store keeps the count right. -/
theorem Owned.counted_take (owned : session.Owned) (counted : session.store.state.slots.Counted)
    {turn : Turn} (stays : turn.Stays) : (session.take turn).store.state.slots.Counted := by
  obtain ⟨_, unwritten⟩ | ⟨name, transaction, course, _, present, _, moved⟩ :=
    session.take_cases turn
  · have unwritten := unwritten stays
    exact counted.of_atom?_eq unwritten.committed_eq unwritten.atom?_eq
  · rw [moved]
    have numbered := owned.numbered name transaction present
    have pending := owned.pending name transaction present
    have parts := transaction.mem_keys_iff_dropped_or_kept numbered
    obtain ⟨emptied, _⟩ | ⟨emptied, _⟩ | ⟨drafts, ids, _, _, published⟩ :=
      Transaction.commitUnder_spec course session.host.directory numbered pending
    · exact counted.of_atom?_eq emptied.committed_eq emptied.atom?_eq
    · exact counted.of_atom?_eq emptied.committed_eq emptied.atom?_eq
    · refine published.counted counted ?_ ?_ ?_ ?_
      · rw [ids]
        exact transaction.nodup_kept numbered
      · exact fun id member => pending id ((parts id).mpr (.inl member))
      · exact fun id member => pending id ((parts id).mpr (.inr (ids ▸ member)))
      · exact fun id member => Transaction.not_mem_dropped_of_kept numbered (ids ▸ member)

/-- What holds of the slots of every session: a reserved one has a transaction that builds in it,
and the committed ones are counted. -/
structure Accounted (session : Session) : Prop where
  claimed : ∀ id, session.store.state.slots.slot id = .pending → ∃ name, session.Building name id
  counted : session.store.state.slots.Counted

/-- A store without reserved slots is accounted for when its counts are right. -/
theorem accounted_fresh {host : Host} {store : Store} (counted : store.state.slots.Counted)
    (settled : ∀ id, store.state.slots.slot id ≠ .pending) : (fresh host store).Accounted :=
  ⟨fun id pending => absurd pending (settled id), counted⟩

/-- A store that has been opened is accounted for. -/
theorem accounted_opened {host next : Host} {settings : Settings} {store : Store}
    (opened : Store.openFile host settings = (next, .ok store)) : (fresh next store).Accounted := by
  obtain ⟨counted, settled⟩ := Store.counted_openFile opened
  exact accounted_fresh counted settled

/-- A store that has been created is accounted for. -/
theorem accounted_created {host next : Host} {settings : Settings} {storeId : StoreId}
    {metadata : Metadata} {store : Store}
    (created : Store.create host settings storeId metadata = (next, .ok store)) :
    (fresh next store).Accounted := by
  unfold Store.create at created
  split at created <;> cases created
  exact accounted_fresh Slots.counted_empty nofun

/-- Turns that stay in the store keep it accounted for. -/
theorem Owned.accounted_take (owned : session.Owned) (accounted : session.Accounted) {turn : Turn}
    (stays : turn.Stays) : (session.take turn).Accounted := by
  refine ⟨fun id pending => ?_, owned.counted_take accounted.counted stays⟩
  rcases owned.pending_take stays pending with ⟨name, handed⟩ | ⟨before, goes⟩
  · have ended : turn.ended? = none := by
      cases turn with
      | act action =>
        cases action with
        | createAtom other => rfl
        | _ => cases handed
      | _ => cases handed
    refine ⟨name, (building_take_iff stays).mpr ⟨.inr handed, ?_⟩⟩
    rw [ended]
    exact nofun
  · obtain ⟨name, building⟩ := accounted.claimed id before
    exact ⟨name, (building_take_iff stays).mpr ⟨.inl building, fun same => goes name same building⟩⟩

/-- Opening the file of a session again keeps an account of its slots. -/
theorem Accounted.reopen (accounted : session.Accounted) (settings : Settings) :
    (session.step (.reopen settings)).Accounted := by
  obtain same | ⟨_, _, _, _, opened, same⟩ := session.step_reopen settings
  · rw [same]
    exact accounted
  · rw [same]
    exact accounted_opened opened

/-- In sessions whose drafts keep to their slots, the store is accounted for. -/
theorem Reachable.accounted (reachable : session.Reachable) : session.Accounted := by
  induction reachable with
  | inMemory host settings => exact accounted_fresh Slots.counted_empty nofun
  | created created => exact accounted_created created
  | opened opened => exact accounted_opened opened
  | @step session before action ih =>
    by_cases reopens : ∃ settings, action = .reopen settings
    · obtain ⟨settings, rfl⟩ := reopens
      exact ih.reopen settings
    · have stays : (Turn.act action).Stays := by
        rintro settings ⟨⟩
        exact reopens ⟨settings, rfl⟩
      exact before.owned.accounted_take ih stays

/-- In every session in which drafts keep their numbers, the slots are accounted for. -/
theorem Attained.accounted {allowed : Turn → Prop} (attained : session.Attained allowed)
    (keeps : ∀ turn, allowed turn → turn.KeepsNumbers) : session.Accounted := by
  induction attained with
  | inMemory host settings => exact accounted_fresh Slots.counted_empty nofun
  | created created => exact accounted_created created
  | opened opened => exact accounted_opened opened
  | @step session before turn _ _ ih =>
    by_cases reopens : ∃ settings, turn = .act (.reopen settings)
    · obtain ⟨settings, rfl⟩ := reopens
      exact ih.reopen settings
    · exact (before.owned keeps).accounted_take ih (not_exists.mp reopens)

end Session
end AtomStore
