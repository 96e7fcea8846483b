import AtomStore.Proofs.Store.IndexExact
import AtomStore.Proofs.Store.Precedence
import Mathlib.Data.List.Perm.Basic

/-!
# Walks are snapshots

A walk through an index gives the atoms that were committed before it began, each once and in the
order of the index, whatever is done in the store between its steps. What the index takes in later
has a UCN of a later commit, and the walk passes over it.
-/

namespace AtomStore

namespace IndexWalk

/-- Passes over the next entry if the walk does not give its atom. -/
def pass (walk : IndexWalk) (index : Index) : IndexWalk :=
  match walk.cursor.next index.entries with
  | (some entry, cursor) => if (walk.visible? entry).isSome then walk else { walk with cursor }
  | (none, _) => walk

variable {walk : IndexWalk} {entries : TieredSet IndexEntry}

/-- With steps enough, a walk gives the first atom that is left, and leaves the others. -/
theorem seek_spec (valid : entries.Valid) {steps : Nat} (tied : walk.cursor.Tied entries)
    (enough : (walk.cursor.remaining entries).length < steps) :
    (walk.seek entries steps).1 =
        ((walk.cursor.remaining entries).filterMap walk.visible?).head? ∧
      ((walk.seek entries steps).2.cursor.remaining entries).filterMap walk.visible? =
        ((walk.cursor.remaining entries).filterMap walk.visible?).tail ∧
      (walk.seek entries steps).2.cursor.Tied entries ∧
      (walk.seek entries steps).2.snapshot = walk.snapshot := by
  induction steps generalizing walk with
  | zero => exact absurd enough (Nat.not_lt_zero _)
  | succ steps ih =>
    obtain ⟨given, left, tied'⟩ := Cursor.next_spec valid tied
    rw [seek]
    cases found : walk.cursor.next entries with
    | mk entry? cursor =>
      rw [found] at given left tied'
      cases ahead : walk.cursor.remaining entries with
      | nil =>
        rw [ahead] at given left
        obtain rfl : entry? = none := given
        simp only at left ⊢
        rw [left]
        exact ⟨rfl, rfl, tied', trivial⟩
      | cons entry rest =>
        rw [ahead] at given left enough
        obtain rfl : entry? = some entry := given
        simp only at left ⊢
        cases shown : walk.visible? entry with
        | some atom =>
          simp only [List.filterMap_cons, shown]
          rw [left]
          exact ⟨rfl, rfl, tied', trivial⟩
        | none =>
          simp only [List.filterMap_cons, shown]
          have fewer : (cursor.remaining entries).length < steps := by
            rw [left]
            exact Nat.lt_of_succ_lt_succ enough
          have later := @ih { walk with cursor } tied' fewer
          rw [left] at later
          exact later

/-- No more is left of a walk than the set has elements. -/
theorem length_remaining_le (valid : entries.Valid) (cursor : Cursor IndexEntry) :
    (cursor.remaining entries).length ≤ entries.size := by
  rw [valid.size_eq, Cursor.remaining]
  split
  · exact Nat.zero_le _
  · exact (List.dropWhile_sublist _).length_le

/-- A step of a walk gives the first atom that is left, and leaves the others. -/
theorem next_spec {index : Index} (valid : index.entries.Valid)
    (tied : walk.cursor.Tied index.entries) :
    (walk.next index).1 = (walk.remaining index).head? ∧
      (walk.next index).2.remaining index = (walk.remaining index).tail ∧
      (walk.next index).2.cursor.Tied index.entries ∧
      (walk.next index).2.snapshot = walk.snapshot := by
  have enough := Nat.lt_succ_of_le (length_remaining_le valid walk.cursor)
  obtain ⟨given, left, tied', same⟩ := seek_spec valid tied enough
  refine ⟨given, ?_, tied', same⟩
  have shown : (walk.next index).2.visible? = walk.visible? := by
    funext entry
    exact congrArg (fun snapshot => (IndexWalk.mk walk.cursor snapshot).visible? entry) same
  rw [remaining, shown]
  exact left

/-- Passing over an entry leaves the same atoms. -/
theorem pass_spec {index : Index} (valid : index.entries.Valid)
    (tied : walk.cursor.Tied index.entries) :
    (walk.pass index).remaining index = walk.remaining index ∧
      (walk.pass index).cursor.Tied index.entries ∧
      (walk.pass index).snapshot = walk.snapshot := by
  obtain ⟨given, left, tied'⟩ := Cursor.next_spec valid tied
  rw [pass]
  cases found : walk.cursor.next index.entries with
  | mk entry? cursor =>
    rw [found] at given left tied'
    cases entry? with
    | none => exact ⟨rfl, tied, rfl⟩
    | some entry =>
      simp only at given left tied' ⊢
      split
      · exact ⟨rfl, tied, rfl⟩
      · rename_i hidden
        refine ⟨?_, tied', rfl⟩
        have split : walk.cursor.remaining index.entries =
            entry :: cursor.remaining index.entries := by
          rw [left]
          exact (List.cons_head?_tail given.symm).symm
        rw [remaining, remaining, split,
          List.filterMap_cons_none (Option.not_isSome_iff_eq_none.mp hidden)]
        rfl

/-- What is left comes from the entries whose atoms the walk gives. -/
theorem remaining_eq {index : Index} (valid : index.entries.Valid)
    (notEnded : walk.cursor.ended = false) :
    walk.remaining index = ((index.entries.toList.filter fun entry =>
      (walk.visible? entry).isSome).filter fun entry =>
        !walk.cursor.passed entry).filterMap walk.visible? := by
  rw [remaining, Cursor.remaining_of_open valid notEnded, List.filter_comm,
    List.filterMap_filter (p := fun entry => (walk.visible? entry).isSome)]
  apply List.filterMap_congr
  intro entry _
  cases walk.visible? entry <;> rfl

/-- What is left depends on the entries whose atoms the walk gives, and on no others. -/
theorem remaining_congr {before after : Index} (valid : before.entries.Valid)
    (valid' : after.entries.Valid)
    (same : (after.entries.toList.filter fun entry => (walk.visible? entry).isSome) =
      before.entries.toList.filter fun entry => (walk.visible? entry).isSome) :
    walk.remaining after = walk.remaining before := by
  cases ended : walk.cursor.ended with
  | true =>
    rw [remaining, remaining, Cursor.remaining, Cursor.remaining, if_pos ended, if_pos ended]
  | false => rw [remaining_eq valid ended, remaining_eq valid' ended, same]

/-- The entries whose atoms a walk gives stay the same while the index grows. -/
theorem shown_of_grows {before after : Index} {earlier later : Slots}
    (follows : before.Follows earlier) (follows' : after.Follows later)
    (grows : before.Grows after) (grown : earlier.Later later)
    (current : walk.snapshot ≤ before.lastUcn) :
    (after.entries.toList.filter fun entry => (walk.visible? entry).isSome) =
      before.entries.toList.filter fun entry => (walk.visible? entry).isSome := by
  have shown {info : IndexInfo} {atom : Atom} :
      (walk.visible? (info.entry atom)).isSome = true ↔ atom.ucn < walk.snapshot := by
    change ((some atom).filter fun atom => decide (atom.ucn < walk.snapshot)).isSome = true ↔ _
    rw [Option.filter_some]
    by_cases old : atom.ucn < walk.snapshot
    · rw [decide_eq_true old]
      exact iff_of_true rfl old
    · rw [decide_eq_false old]
      exact iff_of_false Bool.false_ne_true old
  apply (follows'.valid.ascending_toList.filter _).eq_of_mem_iff
    (follows.valid.ascending_toList.filter _)
  intro entry
  rw [List.mem_filter, List.mem_filter, follows.mem_iff, follows'.mem_iff, grows.info_eq]
  constructor
  · rintro ⟨⟨atom, held, accepts, _, rfl⟩, visible⟩
    have old := Nat.lt_of_lt_of_le (shown.mp visible) current
    have there := (grown.holds_iff (Nat.lt_of_lt_of_le old follows.lastUcn_le)).mp held
    exact ⟨⟨atom, there, accepts, old, rfl⟩, visible⟩
  · rintro ⟨⟨atom, held, accepts, old, rfl⟩, visible⟩
    exact ⟨⟨atom, grown.holds held, accepts, Nat.lt_of_lt_of_le old grows.lastUcn_le, rfl⟩, visible⟩

end IndexWalk

namespace Index

variable {index : Index} {slots : Slots}

/-- A walk that begins at an index up to date has the committed atoms ahead that the index accepts
and that are not below the sample, in the order of the index. -/
theorem Follows.walkBy_remaining (follows : index.Follows slots) (sound : slots.Sound)
    (current : index.lastUcn = slots.ucn) (sample? : Option Junctions) :
    ((index.walkBy sample?).remaining index).Perm (slots.atoms.filter fun atom =>
        index.info.accepts atom && sample?.all fun sample =>
          (compare (index.info.fields atom.junctions) (index.info.fields sample)).isGE) ∧
      Run.Ascending (((index.walkBy sample?).remaining index).map index.info.entry) := by
  have perm := (follows.exact sound current).perm
  rw [← follows.formed.map_entry_held] at perm
  have held := (List.map_perm_map_iff (entry_injective index.info)).mp perm
  rw [follows.remaining_walkBy]
  constructor
  · refine (held.filter _).trans (.of_eq ?_)
    rw [List.filter_filter]
    exact List.filter_congr fun atom _ => Bool.and_comm ..
  · have ascending := List.pairwise_map.mp follows.formed.ascending_held
    exact List.pairwise_map.mpr (ascending.filter _)

end Index

/-- What can happen while a walk goes on: something is done to the state of the store, the walk passes
over an entry, or it is asked for the next atom. -/
inductive WalkEvent where
  | act (action : StateAction)
  | pass
  | next

def WalkEvent.isNext : WalkEvent → Bool
  | next => true
  | _ => false

/-- What an event does to the state of the store. -/
def WalkEvent.action? : WalkEvent → Option StateAction
  | act action => some action
  | _ => none

/-- A walk through an index of a store in use, with the atoms it has given and whether it has met
the end. -/
structure Walking where
  state : State
  walk : IndexWalk
  given : List Atom := []
  finished : Bool := false

namespace Walking

/-- A walk through the index at a place, after an event. -/
def event (place : Nat) (walking : Walking) : WalkEvent → Walking
  | .act action => { walking with state := walking.state.act action }
  | .pass =>
    match walking.state.indices[place]? with
    | none => walking
    | some index => { walking with walk := walking.walk.pass index }
  | .next =>
    match walking.state.indices[place]? with
    | none => walking
    | some index =>
      match walking.walk.next index with
      | (some atom, walk) => { walking with walk, given := walking.given ++ [atom] }
      | (none, walk) => { walking with walk, finished := true }

def run (place : Nat) (walking : Walking) (events : List WalkEvent) : Walking :=
  events.foldl (event place) walking

/-- The steps of a walk leave the state of the store alone. -/
theorem state_run (place : Nat) (walking : Walking) (events : List WalkEvent) :
    (walking.run place events).state =
      walking.state.actAll (events.filterMap WalkEvent.action?) := by
  induction events generalizing walking with
  | nil => rfl
  | cons first rest ih =>
    rw [run, List.foldl_cons, ← run, ih]
    cases first with
    | act action => rfl
    | pass =>
      rw [event]
      split <;> rfl
    | next =>
      rw [event]
      split
      · rfl
      · split <;> rfl

/-- What holds throughout a walk that gives some expected atoms: its index is up to date with the
time when the walk began, and what is left follows what has been given. -/
structure Keeps (place : Nat) (expected : List Atom) (walking : Walking) (index : Index) :
    Prop where
  consistent : walking.state.Consistent
  registered : walking.state.indices[place]? = some index
  current : walking.walk.snapshot ≤ index.lastUcn
  tied : walking.walk.cursor.Tied index.entries
  complete : walking.given ++ walking.walk.remaining index = expected
  finished : walking.finished = true → walking.walk.remaining index = []

namespace Keeps

variable {place : Nat} {expected : List Atom} {walking : Walking} {index : Index}

/-- The index of a walk follows the slots. -/
theorem follows (keeps : walking.Keeps place expected index) :
    index.Follows walking.state.slots :=
  keeps.consistent.follows index (List.mem_of_getElem? keeps.registered)

/-- Whatever is done in the store, the walk keeps what it has ahead. -/
theorem act (keeps : walking.Keeps place expected index) (action : StateAction) :
    ∃ grown, (walking.event place (.act action)).Keeps place expected grown := by
  have steps := walking.state.steps_act action
  have consistent := steps.consistent keeps.consistent
  obtain ⟨slots, indices⟩ := steps.grows
  obtain ⟨grown, registered, grows⟩ := indices place index keeps.registered
  have follows := consistent.follows grown (List.mem_of_getElem? registered)
  have same : walking.walk.remaining grown = walking.walk.remaining index :=
    IndexWalk.remaining_congr keeps.follows.valid follows.valid
      (IndexWalk.shown_of_grows keeps.follows follows grows slots keeps.current)
  refine ⟨grown, consistent, registered, Nat.le_trans keeps.current grows.lastUcn_le,
    keeps.tied.later grows.entries_later, ?_, fun ended => same.trans (keeps.finished ended)⟩
  exact (congrArg (walking.given ++ ·) same).trans keeps.complete

/-- A step of the iterator keeps the walk in order. -/
theorem pass (keeps : walking.Keeps place expected index) :
    (walking.event place .pass).Keeps place expected index := by
  obtain ⟨same, tied, snapshot⟩ := IndexWalk.pass_spec keeps.follows.valid keeps.tied
  simp only [event, keeps.registered]
  refine ⟨keeps.consistent, keeps.registered, ?_, tied, ?_,
    fun ended => same.trans (keeps.finished ended)⟩
  · exact Nat.le_trans (Nat.le_of_eq snapshot) keeps.current
  · exact (congrArg (walking.given ++ ·) same).trans keeps.complete

/-- Each call gives one more atom, or the walk is over. -/
theorem next (keeps : walking.Keeps place expected index) :
    (walking.event place .next).Keeps place expected index ∧
      ((walking.event place .next).finished = true ∨
        (walking.event place .next).given.length = walking.given.length + 1) := by
  obtain ⟨given, left, tied, snapshot⟩ := IndexWalk.next_spec keeps.follows.valid keeps.tied
  have current := Nat.le_trans (Nat.le_of_eq snapshot) keeps.current
  have complete := keeps.complete
  simp only [event, keeps.registered]
  cases asked : walking.walk.next index with
  | mk atom? walk =>
    rw [asked] at given left tied current
    cases atom? with
    | none =>
      have nothing := List.head?_eq_none_iff.mp given.symm
      rw [nothing] at left complete
      refine ⟨⟨keeps.consistent, keeps.registered, current, tied, ?_, fun _ => left⟩, .inl rfl⟩
      exact (congrArg (walking.given ++ ·) left).trans complete
    | some atom =>
      have split := List.cons_head?_tail given.symm
      rw [← left] at split
      refine ⟨⟨keeps.consistent, keeps.registered, current, tied, ?_, fun finished => ?_⟩,
        .inr List.length_append⟩
      · change (walking.given ++ [atom]) ++ walk.remaining index = expected
        rw [List.append_assoc, List.singleton_append, split, complete]
      · rw [keeps.finished finished] at split
        cases split

end Keeps

/-- A walk that has met the end is over for good. -/
theorem finished_run {place : Nat} {walking : Walking} (events : List WalkEvent)
    (finished : walking.finished = true) : (walking.run place events).finished = true := by
  induction events generalizing walking with
  | nil => exact finished
  | cons first rest ih =>
    apply ih
    cases first with
    | act action => exact finished
    | pass =>
      rw [event]
      split <;> exact finished
    | next =>
      rw [event]
      split
      · exact finished
      · split
        · exact finished
        · rfl

/-- Throughout a walk what it has to give stays the same, and each call gives one more atom until
the walk is over. -/
theorem Keeps.run {place : Nat} {expected : List Atom} {walking : Walking} {index : Index}
    (keeps : walking.Keeps place expected index) (events : List WalkEvent) :
    (∃ last, (walking.run place events).Keeps place expected last) ∧
      ((walking.run place events).finished = true ∨ (walking.run place events).given.length =
        walking.given.length + events.countP WalkEvent.isNext) := by
  induction events generalizing walking index with
  | nil => exact ⟨⟨index, keeps⟩, .inr rfl⟩
  | cons first rest ih =>
    rw [Walking.run, List.foldl_cons, ← Walking.run]
    cases first with
    | act action =>
      obtain ⟨grown, next⟩ := keeps.act action
      exact ih next
    | pass =>
      have next := keeps.pass
      obtain ⟨last, counted⟩ := ih next
      refine ⟨last, ?_⟩
      have same : (walking.event place .pass).given = walking.given := by
        simp only [event, keeps.registered]
      rw [same] at counted
      exact counted
    | next =>
      obtain ⟨next, ended | more⟩ := keeps.next
      · exact ⟨(ih next).1, .inl (finished_run rest ended)⟩
      · obtain ⟨last, counted⟩ := ih next
        refine ⟨last, counted.imp_right fun length => ?_⟩
        rw [length, more, List.countP_cons_of_pos rfl]
        omega

end Walking

namespace State

variable {state : State}

/-- A walk begun at an index that has just been brought up to date. -/
def walking (state : State) (index : Index) (sample? : Option Junctions) : Walking :=
  { state := state.refresh index.id
    walk := (index.refresh state.slots).walkBy sample? }

/-- An index that is brought up to date stays in its place. -/
theorem getElem?_refresh {place : Nat} {index : Index}
    (registered : state.indices[place]? = some index) :
    (state.refresh index.id).indices[place]? = some (index.refresh state.slots) := by
  rw [refresh_eq, getElem?_refreshed, registered, Option.map_some, decide_eq_true rfl]
  rfl

/-- The order of the entries of an index is the order of their atoms. -/
theorem Attained.pairwise_earlier (attained : state.Attained) {info : IndexInfo}
    {atoms : List Atom} (held : ∀ atom ∈ atoms, state.slots.Holds atom)
    (ascending : Run.Ascending (atoms.map info.entry)) : atoms.Pairwise info.Earlier := by
  refine (List.pairwise_map.mp ascending).imp_of_mem fun {left right} inside among less => ?_
  rw [IndexInfo.earlier_iff, ← IndexInfo.compare_entry_eq_lt_iff
    (attained.ucn_le (held left inside)) (attained.ucn_le (held right among))]
  exact less

/-- A walk gives the atoms that were committed before it began, whose UCN is in the range of the index,
which its condition accepts and whose sort key values are not below those of the sample, each once and
in the order of the index. It gives no others, whatever is done to the store meanwhile, and is over
after one call more than there are atoms. -/
theorem Attained.walk_snapshot (attained : state.Attained) {place : Nat} {index : Index}
    (registered : state.indices[place]? = some index) (sample? : Option Junctions) :
    ∃ expected : List Atom,
      (∀ atom, atom ∈ expected ↔ state.slots.slot atom.id = .committed atom ∧
        index.info.minUcn ≤ atom.ucn ∧ atom.ucn < index.info.maxUcn ∧
        index.info.condition.accepts atom = true ∧
        ∀ sample ∈ sample?, ¬ JunctionsBelow index.info.sortKeys atom.junctions sample) ∧
      expected.Nodup ∧ expected.Pairwise index.info.Earlier ∧
      ∀ events walking, (state.walking index sample?).run place events = walking →
        walking.state.slots.ucn < 2 ^ 64 →
        walking.given <+: expected ∧ (walking.finished = true → walking.given = expected) ∧
          (expected.length < events.countP WalkEvent.isNext → walking.finished = true) := by
  have consistent := attained.consistent
  let fresh := index.refresh state.slots
  have before := consistent.follows index (List.mem_of_getElem? registered)
  obtain ⟨follows, current⟩ := before.refresh consistent.sound
  have info : fresh.info = index.info := (index.grows_refresh _).info_eq
  obtain ⟨perm, ascending⟩ := follows.walkBy_remaining consistent.sound current sample?
  rw [info] at perm ascending
  have keeps : (state.walking index sample?).Keeps place
      ((fresh.walkBy sample?).remaining fresh) fresh := by
    have refreshed : (state.refresh index.id).Consistent :=
      (StateStep.refresh state index.id).consistent consistent
    refine ⟨refreshed, getElem?_refresh registered, ?_, ?_, rfl, nofun⟩
    · cases sample? <;> exact Nat.le_refl _
    · cases sample? <;> exact Cursor.Tied.of_generation_eq_none rfl
  have mem_iff (atom : Atom) : atom ∈ (fresh.walkBy sample?).remaining fresh ↔
      state.slots.slot atom.id = .committed atom ∧ index.info.minUcn ≤ atom.ucn ∧
        atom.ucn < index.info.maxUcn ∧ index.info.condition.accepts atom = true ∧
        ∀ sample ∈ sample?, ¬ JunctionsBelow index.info.sortKeys atom.junctions sample := by
    have above : (sample?.all fun sample =>
        (compare (index.info.fields atom.junctions) (index.info.fields sample)).isGE) = true ↔
        ∀ sample ∈ sample?, ¬ JunctionsBelow index.info.sortKeys atom.junctions sample := by
      cases sample? with
      | none => exact iff_of_true rfl nofun
      | some sample =>
        simp only [Option.all_some, IndexInfo.isGE_compare_iff, Option.mem_def, Option.some.injEq,
          forall_eq']
    rw [perm.mem_iff, List.mem_filter, Slots.mem_atoms consistent.sound, Slots.Holds,
      Bool.and_eq_true, above, IndexInfo.accepts, Bool.and_eq_true, Bool.and_eq_true,
      decide_eq_true_iff, decide_eq_true_iff, and_assoc, and_assoc]
  refine ⟨_, mem_iff, ?_, ?_, fun events walking reached _ => ?_⟩
  · exact perm.nodup_iff.mpr ((Slots.nodup_atoms consistent.sound).filter _)
  · exact attained.pairwise_earlier (fun atom member => ((mem_iff atom).mp member).1) ascending
  subst reached
  obtain ⟨⟨last, kept⟩, counted⟩ := keeps.run events
  have front : ((state.walking index sample?).run place events).given <+:
      (fresh.walkBy sample?).remaining fresh := ⟨_, kept.complete⟩
  refine ⟨front, fun finished => ?_, fun enough => ?_⟩
  · have complete := kept.complete
    rw [kept.finished finished, List.append_nil] at complete
    exact complete
  · rcases counted with finished | length
    · exact finished
    · have bound := front.length_le
      rw [length] at bound
      exact absurd enough (Nat.not_lt.mpr (Nat.le_trans (Nat.le_add_left _ _) bound))

/-- What is done to the store after a walk has begun: another atom is committed, with a value that the
index accepts, and the index is brought up to date. -/
def anotherCommit : List WalkEvent :=
  [.act .reserve, .act (.publish [⟨4, 3, .ofList [(1, .integer 6)], Nat.succ_pos 2⟩]),
    .act (.refresh 2)]

/-- A walk from a sample through an index with a condition and a sort key. One atom has no value under
the key and one has a lesser value than the sample; one is committed while the walk goes on. -/
theorem walk_snapshot_while_committing :
    let state := (State.new 1 .descending).actAll lateCommit
    let sample : Junctions := .ofList [(1, .integer 4)]
    state.Attained ∧ state.slots.atoms = [valuedLate, valuedFirst, valueless] ∧
      ∃ index, state.indices[1]? = some index ∧ index.info = valuedInfo ∧
        ((state.walking index (some sample)).run 1
          (.next :: anotherCommit ++ [.next])).given = [valuedFirst] := by
  intro state sample
  have attained : state.Attained :=
    (Attained.new 1 .descending).steps (steps_actAll _ lateCommit) (by decide)
  have second : state.indices[1]?.map Index.info = some valuedInfo := rfl
  obtain ⟨index, found, info⟩ := Option.map_eq_some_iff.mp second
  obtain ⟨expected, mem_iff, distinct, _, runs⟩ := attained.walk_snapshot found (some sample)
  have single : expected = [valuedFirst] := by
    apply List.perm_singleton.mp
    apply (List.perm_ext_iff_of_nodup distinct (List.nodup_singleton _)).mpr
    intro atom
    rw [mem_iff, info, ← Slots.Holds, ← Slots.mem_atoms attained.consistent.sound]
    have below : JunctionsBelow [1] valuedLate.junctions sample :=
      .here (.integers (by decide))
    have notBelow : ¬ JunctionsBelow [1] valuedFirst.junctions sample :=
      (@IndexInfo.isGE_compare_iff valuedInfo _ _).mp rfl
    have refused : valuedInfo.condition.accepts valueless = false := rfl
    constructor
    · rintro ⟨held, _, _, accepts, above⟩
      have listed : atom ∈ [valuedLate, valuedFirst, valueless] := held
      rcases List.mem_cons.mp listed with rfl | listed
      · exact absurd below (above sample rfl)
      · rcases List.mem_cons.mp listed with rfl | listed
        · exact List.mem_cons_self
        · rw [List.mem_singleton.mp listed, refused] at accepts
          cases accepts
    · intro only
      obtain rfl := List.mem_singleton.mp only
      refine ⟨List.mem_cons_of_mem _ List.mem_cons_self, Nat.zero_le _, by decide, rfl, ?_⟩
      rintro _ ⟨⟩
      exact notBelow
  have word : ((state.walking index (some sample)).run 1
      (.next :: anotherCommit ++ [.next])).state.slots.ucn < 2 ^ 64 := by
    rw [Walking.state_run]
    exact (by decide : (4 : Nat) < 2 ^ 64)
  obtain ⟨_, whole, ends⟩ := runs _ _ rfl word
  rw [single] at whole ends
  exact ⟨attained, rfl, index, found, info, whole (ends (by decide))⟩

end State
end AtomStore
