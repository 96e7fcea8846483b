import AtomStore.Proofs.Store.Course
import AtomStore.Proofs.Store.IndexRefresh
import AtomStore.Proofs.Store.Session
import Mathlib.Logic.Relation

/-!
# Steps of a state

Whatever is done in an open store changes its state by single steps: slots are reserved, released or
published, an index is added, or indices are refreshed. Every step keeps a state consistent, so that
all indices follow the table of slots, and lets tables and indices only grow.

A commit takes several steps, and others may come between them: its verifiers and its observer may
read indices, and other users may begin transactions and give them up. So what is shown of all series
of steps holds at every point of every operation.
-/

namespace AtomStore

/-- What can happen to the state of an open store. -/
inductive StateStep : State → State → Prop where
  | reserve (state : State) : StateStep state { state with slots := state.slots.reserve.2 }
  | release (state : State) (ids : List Nat) :
      StateStep state { state with slots := state.slots.releaseAll ids }
  | publish {state : State} {atoms : List Atom} {slots : Slots}
      (done : state.slots.publish atoms = .ok slots) : StateStep state { state with slots }
  | addIndex {state next : State} {id : Nat} {info : IndexInfo} {index : Index}
      (added : state.addIndex id info = .ok (index, next)) : StateStep state next
  | refresh (state : State) (id : Nat) : StateStep state (state.refresh id)
  | refreshAll (state : State) : StateStep state state.refreshAll

/-- What a series of steps can lead to. -/
abbrev StateSteps : State → State → Prop := Relation.ReflTransGen StateStep

/-- What users ask of the state of an open store, at one go each. -/
inductive StateAction where
  | reserve
  | release (ids : List Nat)
  | publish (atoms : List Atom)
  | addIndex (id : Nat) (info : IndexInfo)
  | refresh (id : Nat)
  | refreshAll

/-- The state after an action; one that is refused changes nothing. -/
def State.act (state : State) : StateAction → State
  | .reserve => { state with slots := state.slots.reserve.2 }
  | .release ids => { state with slots := state.slots.releaseAll ids }
  | .publish atoms =>
    match state.slots.publish atoms with
    | .ok slots => { state with slots }
    | .error _ => state
  | .addIndex id info =>
    match state.addIndex id info with
    | .ok (_, next) => next
    | .error _ => state
  | .refresh id => state.refresh id
  | .refreshAll => state.refreshAll

def State.actAll (state : State) (actions : List StateAction) : State := actions.foldl act state

/-- An action is a step or changes nothing. -/
theorem State.steps_act (state : State) (action : StateAction) :
    StateSteps state (state.act action) := by
  cases action with
  | reserve => exact .single (.reserve state)
  | release ids => exact .single (.release state ids)
  | publish atoms =>
    rw [act]
    split
    · rename_i slots done
      exact .single (.publish done)
    · exact .refl
  | addIndex id info =>
    rw [act]
    split
    · rename_i index next added
      exact .single (.addIndex added)
    · exact .refl
  | refresh id => exact .single (.refresh state id)
  | refreshAll => exact .single (.refreshAll state)

/-- Every step is made by an action. -/
theorem StateStep.exists_act {before after : State} (step : StateStep before after) :
    ∃ action, before.act action = after := by
  cases step with
  | reserve => exact ⟨.reserve, rfl⟩
  | release ids => exact ⟨.release ids, rfl⟩
  | @publish atoms slots done =>
    refine ⟨.publish atoms, ?_⟩
    rw [State.act, done]
  | @addIndex _ id info index added =>
    refine ⟨.addIndex id info, ?_⟩
    rw [State.act, added]
  | refresh id => exact ⟨.refresh id, rfl⟩
  | refreshAll => exact ⟨.refreshAll, rfl⟩

namespace State

/-- Whether the table of a state is sound and all indices follow it. -/
structure Consistent (state : State) : Prop where
  sound : state.slots.Sound
  follows : ∀ index ∈ state.indices, index.Follows state.slots

/-- How a state can have changed: its table is a later one, and every index is in its place and has
grown. -/
structure Grows (before after : State) : Prop where
  slots_later : before.slots.Later after.slots
  index_grows : ∀ (place : Nat) (index : Index), before.indices[place]? = some index →
    ∃ grown, after.indices[place]? = some grown ∧ index.Grows grown

theorem Grows.refl (state : State) : state.Grows state :=
  ⟨.refl _, fun _ index found => ⟨index, found, .refl index⟩⟩

theorem Grows.trans {first second third : State} (earlier : first.Grows second)
    (later : second.Grows third) : first.Grows third := by
  refine ⟨earlier.slots_later.trans later.slots_later, fun place index found => ?_⟩
  obtain ⟨middle, known, grows⟩ := earlier.index_grows place index found
  obtain ⟨last, present, more⟩ := later.index_grows place middle known
  exact ⟨last, present, grows.trans more⟩

variable {state : State}

theorem consistent_new (indexId : Nat) (order : UcnOrder) (slots : Slots) (sound : slots.Sound) :
    Consistent { State.new indexId order with slots } := by
  refine ⟨sound, fun index member => ?_⟩
  rw [List.mem_singleton.mp member]
  exact Index.follows_new ..

/-- A new table that is sound and later keeps a state consistent. -/
theorem Consistent.withSlots (consistent : state.Consistent) {slots : Slots}
    (sound : slots.Sound) (later : state.slots.Later slots) :
    Consistent { state with slots } :=
  ⟨sound, fun index member => (consistent.follows index member).later later⟩

theorem grows_withSlots {slots : Slots} (later : state.slots.Later slots) :
    state.Grows { state with slots } :=
  ⟨later, fun _ index found => ⟨index, found, .refl index⟩⟩

/-- The state with those of its indices brought up to date that are chosen. -/
def refreshed (state : State) (chosen : Index → Bool) : State :=
  let update (index : Index) : Index := bif chosen index then index.refresh state.slots else index
  { state with indices := state.indices.map update }

/-- Refreshing some of the indices keeps a state consistent. -/
theorem Consistent.refreshed (consistent : state.Consistent) (chosen : Index → Bool) :
    (state.refreshed chosen).Consistent := by
  refine ⟨consistent.sound, fun index member => ?_⟩
  obtain ⟨before, among, rfl⟩ := List.mem_map.mp member
  have follows := consistent.follows before among
  cases chosen before with
  | true => exact (follows.refresh consistent.sound).1
  | false => exact follows

/-- The index at a place, once some of the indices have been refreshed. -/
theorem getElem?_refreshed (state : State) (chosen : Index → Bool) (place : Nat) :
    (state.refreshed chosen).indices[place]? = state.indices[place]?.map fun index =>
      bif chosen index then index.refresh state.slots else index :=
  List.getElem?_map

theorem grows_refreshed (state : State) (chosen : Index → Bool) :
    state.Grows (state.refreshed chosen) := by
  refine ⟨.refl _, fun place index found => ?_⟩
  rw [getElem?_refreshed, found]
  refine ⟨bif chosen index then index.refresh state.slots else index, rfl, ?_⟩
  cases chosen index with
  | true => exact index.grows_refresh state.slots
  | false => exact .refl index

theorem refresh_eq (state : State) (id : Nat) :
    state.refresh id = state.refreshed fun index => decide (index.id = id) := by
  simp only [refresh, refreshed, Bool.cond_decide]

/-- An index is added behind the others, empty. -/
theorem addIndex_eq_ok {next : State} {id : Nat} {info : IndexInfo} {index : Index}
    (added : state.addIndex id info = .ok (index, next)) :
    index = { id, info } ∧ next = { state with indices := state.indices ++ [{ id, info }] } := by
  unfold addIndex at added
  split at added
  · cases added
  · cases added
    exact ⟨rfl, rfl⟩

end State

namespace StateStep

variable {before after : State}

theorem consistent (step : StateStep before after) (consistent : before.Consistent) :
    after.Consistent := by
  have sound := consistent.sound
  cases step with
  | reserve => exact consistent.withSlots sound.reserve before.slots.later_reserve
  | release ids =>
    exact consistent.withSlots (sound.releaseAll ids) (before.slots.later_releaseAll ids)
  | publish done => exact consistent.withSlots (sound.publish done) (Slots.later_publish done)
  | addIndex added =>
    obtain ⟨_, rfl⟩ := State.addIndex_eq_ok added
    refine ⟨sound, fun index member => ?_⟩
    rcases List.mem_append.mp member with old | new
    · exact consistent.follows index old
    · rw [List.mem_singleton.mp new]
      exact Index.follows_new ..
  | refresh id =>
    rw [State.refresh_eq]
    exact consistent.refreshed _
  | refreshAll => exact consistent.refreshed fun _ => true

theorem grows (step : StateStep before after) : before.Grows after := by
  cases step with
  | reserve => exact State.grows_withSlots before.slots.later_reserve
  | release ids => exact State.grows_withSlots (before.slots.later_releaseAll ids)
  | publish done => exact State.grows_withSlots (Slots.later_publish done)
  | addIndex added =>
    obtain ⟨_, rfl⟩ := State.addIndex_eq_ok added
    refine ⟨.refl _, fun place index found => ⟨index, ?_, .refl index⟩⟩
    rw [List.getElem?_append_left (List.getElem?_eq_some_iff.mp found).1, found]
  | refresh id =>
    rw [State.refresh_eq]
    exact before.grows_refreshed _
  | refreshAll => exact before.grows_refreshed fun _ => true

end StateStep

namespace StateSteps

variable {before after : State}

theorem consistent (steps : StateSteps before after) (consistent : before.Consistent) :
    after.Consistent := by
  induction steps with
  | refl => exact consistent
  | tail _ step ih => exact step.consistent ih

theorem grows (steps : StateSteps before after) : before.Grows after := by
  induction steps with
  | refl => exact .refl before
  | tail _ step ih => exact ih.trans step.grows

end StateSteps

/-- Bringing indices up to date is a series of steps. -/
theorem State.steps_refreshEach (state : State) (ids : List Nat) :
    StateSteps state (state.refreshEach ids) := by
  induction ids generalizing state with
  | nil => exact .refl
  | cons id rest ih => exact .head (.refresh state id) (ih _)

namespace Transaction

/-- Publishing is a step, and so is each reading of an index and, with indexing, their refresh. -/
theorem steps_publish {store published : Store} {drafts : List Draft} {reads : List Nat}
    {committed : Committed} (done : publish store drafts reads = .ok (published, committed)) :
    StateSteps store.state published.state := by
  rw [publish] at done
  cases filled : store.state.slots.publish
      (drafts.map (·.toAtom store.state.slots.ucn store.state.slots.ucn_pos)) with
  | error refusal =>
    rw [filled] at done
    cases done
  | ok slots =>
    rw [filled] at done
    cases done
    have first := Relation.ReflTransGen.single (StateStep.publish filled)
    have observed := first.trans (State.steps_refreshEach _ reads)
    simp only
    split
    · exact observed.tail (.refreshAll _)
    · exact observed

/-- In every course a commit changes a state by single steps. -/
theorem steps_commitUnder (course : Course) (transaction : Transaction) (directory : Directory)
    (store : Store) :
    StateSteps store.state (transaction.commitUnder course directory store).store.state := by
  have released (ids : List Nat) : StateSteps store.state (store.release ids).state :=
    .single (.release store.state ids)
  have seen (reads : List Nat) :
      StateSteps store.state ((store.release transaction.dropped).withReads reads).state :=
    (released transaction.dropped).trans (State.steps_refreshEach _ reads)
  have ends := commitUnder_ends course transaction directory store
  generalize transaction.commitUnder course directory store = report at ends ⊢
  cases ends with
  | refused => exact released transaction.pending.keys
  | @rejected _ _ reads => exact (seen reads).tail (.release _ _)
  | @empty _ reads => exact seen reads
  | @unwritten _ reads => exact (seen reads).tail (.release _ _)
  | @unpublished _ reads _ recorded _ _ wrote =>
    rw [(state_of_record wrote).1]
    exact seen reads
  | @published _ reads _ recorded published _ _ _ wrote done =>
    refine Relation.ReflTransGen.trans ?_ (steps_publish done)
    rw [(state_of_record wrote).1]
    exact seen reads

/-- A commit takes a state there by steps. -/
theorem steps_commit (transaction : Transaction) (directory : Directory) (store : Store) :
    StateSteps store.state (transaction.commit directory store).store.state :=
  steps_commitUnder {} transaction directory store

end Transaction

namespace Store

variable {host next : Host} {settings : Settings} {store : Store}

theorem consistent_create {storeId : StoreId} {metadata : Metadata}
    (created : create host settings storeId metadata = (next, .ok store)) :
    store.state.Consistent := by
  rw [create] at created
  split at created
  · cases created
  · cases created
    exact State.consistent_new host.nextIndex settings.globalOrder .empty Slots.sound_empty

theorem consistent_openFile (opened : openFile host settings = (next, .ok store)) :
    store.state.Consistent := by
  rw [openFile] at opened
  split at opened
  · cases opened
  · rename_i file _
    simp only at opened
    split at opened
    · cases opened
    · rename_i summary recovered
      cases opened
      exact State.consistent_new host.nextIndex settings.globalOrder _
        (DataFile.sound_recover Slots.sound_empty recovered)

end Store

namespace State

/-- States of stores in use: those of a new store and of a file that opens, and what any steps make of
them, as long as the UCN of the next commit is a 64-bit number. -/
inductive Attained : State → Prop where
  | new (indexId : Nat) (order : UcnOrder) : Attained (.new indexId order)
  | opened {host next : Host} {settings : Settings} {store : Store}
      (opened : Store.openFile host settings = (next, .ok store)) (word : store.ucn < 2 ^ 64) :
      Attained store.state
  | step {before after : State} (attained : before.Attained) (step : StateStep before after)
      (word : after.slots.ucn < 2 ^ 64) : after.Attained

variable {state : State}

/-- A state in use is consistent. -/
theorem Attained.consistent (attained : state.Attained) : state.Consistent := by
  induction attained with
  | new indexId order => exact consistent_new indexId order .empty Slots.sound_empty
  | opened opened => exact Store.consistent_openFile opened
  | step _ step _ ih => exact step.consistent ih

/-- The next UCN of a state in use is a 64-bit number. -/
theorem Attained.word (attained : state.Attained) : state.slots.ucn < 2 ^ 64 := by
  cases attained with
  | new => exact Nat.one_lt_two_pow (by decide)
  | opened _ word => exact word
  | step _ _ word => exact word

/-- In a state in use all UCNs are 64-bit numbers with a successor. -/
theorem Attained.ucn_le (attained : state.Attained) {atom : Atom}
    (held : state.slots.Holds atom) : atom.ucn ≤ Text.maxWord := by
  have below := attained.consistent.sound.ucn_lt atom.id atom held
  have word := attained.word
  have last : Text.maxWord + 1 = 2 ^ 64 := rfl
  omega

theorem steps_actAll (state : State) (actions : List StateAction) :
    StateSteps state (state.actAll actions) := by
  induction actions generalizing state with
  | nil => exact .refl
  | cons action rest ih => exact (state.steps_act action).trans (ih _)

/-- Several steps lead from a state in use to another one if the last UCN is a 64-bit number. -/
theorem Attained.steps {after : State} (attained : state.Attained)
    (steps : StateSteps state after) (word : after.slots.ucn < 2 ^ 64) : after.Attained := by
  induction steps with
  | refl => exact attained
  | tail _ step ih =>
    exact .step (ih (Nat.lt_of_le_of_lt step.grows.slots_later.ucn_le word)) step word

end State

namespace Session

variable {session : Session}

/-- An action in an open store changes its state by single steps. -/
theorem steps_step (session : Session) {action : Action}
    (stays : ∀ settings, action ≠ .reopen settings) :
    StateSteps session.store.state (session.step action).store.state := by
  cases action with
  | begin name =>
    rw [step]
    split <;> exact .refl
  | createAtom name =>
    rw [step]
    split
    · exact .refl
    · exact .single (.reserve session.store.state)
  | edit name id edit =>
    rw [step]
    split
    · exact .refl
    · split <;> exact .refl
  | addVerifier name verifier =>
    rw [step]
    split <;> exact .refl
  | commit name =>
    rw [step]
    split
    · exact .refl
    · exact Transaction.steps_commit ..
  | rollback name =>
    rw [step]
    split
    · exact .refl
    · rename_i transaction _
      exact .single (.release session.store.state transaction.pending.keys)
  | setReadOnly readOnly =>
    rw [step]
    split
    · rename_i store done
      obtain rfl := Store.setReadOnly_eq_ok done
      exact .refl
    · exact .refl
  | setDefaultIndexing indexing => exact .refl
  | createIndex info =>
    rw [step]
    split
    · rename_i index store host done
      unfold Store.createIndex at done
      cases added : session.store.state.addIndex session.host.nextIndex info with
      | error refusal =>
        rw [added] at done
        cases done
      | ok made =>
        obtain ⟨found, state⟩ := made
        rw [added] at done
        cases done
        have first := Relation.ReflTransGen.single (StateStep.addIndex added)
        simp only
        split
        · exact first.tail (.refresh _ _)
        · exact first
    · exact .refl
  | refresh index => exact .single (.refresh session.store.state index)
  | reopen settings => exact absurd rfl (stays settings)

/-- In every session the state is consistent. -/
theorem Reachable.consistent (reachable : session.Reachable) :
    session.store.state.Consistent := by
  induction reachable with
  | inMemory host settings =>
    exact State.consistent_new host.nextIndex settings.globalOrder .empty Slots.sound_empty
  | created created => exact Store.consistent_create created
  | opened opened => exact Store.consistent_openFile opened
  | @step session _ action ih =>
    by_cases reopens : ∃ settings, action = .reopen settings
    · obtain ⟨settings, rfl⟩ := reopens
      rw [Session.step]
      split
      · exact ih
      · split
        · rename_i opened
          exact Store.consistent_openFile opened
        · exact ih
    · have stays : ∀ settings, action ≠ .reopen settings := fun settings same =>
        reopens ⟨settings, same⟩
      exact (session.steps_step stays).consistent ih

end Session
end AtomStore
