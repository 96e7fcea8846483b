import AtomStore.Proofs.TieredSet.Cursor
import AtomStore.Proofs.TieredSet.Plain

/-!
# Steps as successor queries

Between the steps of a cursor its set may be added to, loaded in bulk and rearranged in any way.
Each step still asks the set as it is then for the least element above the one given last, and the
walk ends exactly when there is none. So the elements given ascend strictly, and a walk that has
ended has given every element that was ahead of it when it began. A step for which the set stays
locked tells so and ends the walk where it is.
-/

namespace AtomStore

/-- What can happen while a cursor walks through a set. -/
inductive SharedEvent (α : Type) where
  | change (change : SetChange α)
  /-- The short run is moved into the long one. -/
  | settle
  | next

namespace SharedEvent

variable {α : Type}

def change? : SharedEvent α → Option (SetChange α)
  | .change made => some made
  | _ => none

/-- The changes of the set among some events. -/
def changes (events : List (SharedEvent α)) : List (SetChange α) := events.filterMap change?

/-- The changes among some events are those of the first one and of the rest. -/
theorem changes_cons (event : SharedEvent α) (rest : List (SharedEvent α)) :
    changes (event :: rest) = event.change?.toList ++ changes rest := by
  cases event <;> rfl

end SharedEvent

/-- A set, a cursor in it and the elements that the cursor has given. -/
structure SharedWalk (α : Type) where
  set : TieredSet α
  cursor : Cursor α
  given : List α := []

namespace SharedWalk

variable {α : Type}

/-- A walk that begins at a bound, or at the first element. -/
def start (set : TieredSet α) (lower : Option α) : SharedWalk α :=
  { set, cursor := { start := lower } }

def event [Ord α] (walk : SharedWalk α) : SharedEvent α → SharedWalk α
  | .change change => { walk with set := walk.set.change change }
  | .settle => { walk with set := walk.set.settle }
  | .next =>
    let (found, cursor) := walk.cursor.next walk.set
    { walk with cursor, given := walk.given ++ found.toList }

def run [Ord α] (walk : SharedWalk α) (events : List (SharedEvent α)) : SharedWalk α :=
  events.foldl event walk

end SharedWalk

/-- What can happen to a walk while writers may hold its set during a step. -/
inductive ContendedEvent (α : Type) where
  | shared (event : SharedEvent α)
  /-- A step for which the set stays locked at every attempt. -/
  | locked

namespace SharedWalk

variable {α : Type} [Ord α]

def contend (walk : SharedWalk α) : ContendedEvent α → SharedWalk α
  | .shared event => walk.event event
  | .locked => { walk with cursor := walk.cursor.nextLocked.2 }

def contendAll (walk : SharedWalk α) (events : List (ContendedEvent α)) : SharedWalk α :=
  events.foldl contend walk

/-- A walk that has ended gives nothing more, whatever happens to its set. -/
theorem contendAll_of_ended (walk : SharedWalk α) (ended : walk.cursor.ended = true)
    (events : List (ContendedEvent α)) :
    (walk.contendAll events).given = walk.given ∧
      (walk.contendAll events).cursor = walk.cursor := by
  induction events generalizing walk with
  | nil => exact ⟨rfl, rfl⟩
  | cons event rest ih =>
    have still : (walk.contend event).given = walk.given ∧
        (walk.contend event).cursor = walk.cursor := by
      cases event with
      | locked =>
        refine ⟨rfl, ?_⟩
        rw [contend, Cursor.nextLocked, if_pos ended]
      | shared event =>
        cases event with
        | change change => exact ⟨rfl, rfl⟩
        | settle => exact ⟨rfl, rfl⟩
        | next =>
          rw [contend, SharedWalk.event, Cursor.next, if_pos ended]
          exact ⟨List.append_nil walk.given, rfl⟩
    obtain ⟨given, cursor⟩ := ih (walk.contend event) (by rw [still.2, ended])
    exact ⟨given.trans still.1, cursor.trans still.2⟩

/-- The first step for which the set stays locked ends a walk that had not come to its end: that step
tells of the conflict, and the walk has given what the steps before it gave. -/
theorem contendAll_locked (walk : SharedWalk α) (before : List (SharedEvent α))
    (later : List (ContendedEvent α)) :
    let reached := walk.run before
    let left := walk.contendAll (before.map .shared ++ .locked :: later)
    reached.cursor.nextLocked.1 =
        (if reached.cursor.ended then .ok none else .error ⟨Cursor.maxAttempts⟩) ∧
      left.given = reached.given ∧ left.cursor = { reached.cursor with ended := true } := by
  intro reached left
  have met : left = (reached.contend .locked).contendAll later := by
    change (before.map ContendedEvent.shared ++ .locked :: later).foldl contend walk = _
    rw [List.foldl_append, List.foldl_map]
    rfl
  have stopped : reached.cursor.nextLocked.2 = { reached.cursor with ended := true } := by
    rw [Cursor.nextLocked]
    split
    · rename_i ended
      rw [← ended]
    · rfl
  obtain ⟨given, cursor⟩ :=
    contendAll_of_ended (reached.contend .locked) (congrArg Cursor.ended stopped) later
  refine ⟨?_, by rw [met, given]; rfl, by rw [met, cursor]; exact stopped⟩
  rw [Cursor.nextLocked]
  split <;> rfl

end SharedWalk

variable {α : Type} [LinearOrder α]

/-- Whether an element comes after all that have been given: it is above the last of them or, before
the first one, not below the bound. -/
def Ahead (lower : Option α) (given : List α) (x : α) : Prop :=
  match given.getLast? with
  | some last => last < x
  | none => ∀ bound ∈ lower, bound ≤ x

/-- The elements of a set that are ahead. -/
def successors (contents : Finset α) (lower : Option α) (given : List α) : Set α :=
  {x | x ∈ contents ∧ Ahead lower given x}

/-- An element that is ahead is above all that have been given. -/
theorem Ahead.pairwise_concat {lower : Option α} {given : List α} {x : α}
    (ahead : Ahead lower given x) (ascending : given.Pairwise (· < ·)) :
    (given ++ [x]).Pairwise (· < ·) := by
  rcases List.eq_nil_or_concat given with rfl | ⟨before, last, rfl⟩
  · exact List.pairwise_singleton _ x
  · rw [List.concat_eq_append] at ahead ascending ⊢
    rw [Ahead, List.getLast?_concat] at ahead
    refine List.pairwise_append.mpr
      ⟨ascending, List.pairwise_singleton _ x, fun y member z last => ?_⟩
    obtain rfl := List.mem_singleton.mp last
    rcases List.mem_append.mp member with inside | final
    · exact ((List.pairwise_append.mp ascending).2.2 y inside _ List.mem_cons_self).trans ahead
    · rw [List.mem_singleton.mp final]
      exact ahead

/-- Settling keeps a set in step with a plain one, which does not notice. -/
theorem TieredSet.Tracks.settle {set : TieredSet α} {plain : PlainSet α}
    (tracks : set.Tracks plain) : set.settle.Tracks plain := by
  have valid := tracks.valid
  refine ⟨valid_settle valid.settled_ascending valid.recent_ascending, fun element => ?_,
    tracks.collected_eq⟩
  rw [toList_settle, ← Run.interleave_eq_merge valid.apart]
  exact tracks.mem_iff element

/-- Settling replaces the long run by a later one. -/
theorem TieredSet.Later.settle (set : TieredSet α) : set.Later set.settle :=
  ⟨Nat.le_succ _, fun same => absurd same (Nat.ne_of_lt (Nat.lt_succ_self _))⟩

/-- A change keeps the long run, or replaces it by a later one. -/
theorem TieredSet.Later.change (set : TieredSet α) (change : SetChange α) :
    set.Later (set.change change) := by
  cases change with
  | add element => exact .add set element
  | startLoading => exact .startLoading set
  | stopLoading => exact .stopLoading set

/-- Changes take nothing out of a set. -/
theorem PlainSet.contents_subset_change (plain : PlainSet α) (change : SetChange α) :
    plain.contents ⊆ (plain.change change).contents := by
  cases change with
  | add element =>
    rw [PlainSet.change]
    split
    · exact Finset.Subset.refl _
    · exact Finset.subset_insert element plain.contents
  | startLoading => exact Finset.Subset.refl _
  | stopLoading => exact Finset.subset_union_left

namespace SharedWalk

/-- What holds throughout a walk: its set has come as far as a plain set, its cursor is behind the
elements given, which ascend, and every element that was ahead at first has been given or is still
ahead. -/
structure Keeps (walk : SharedWalk α) (lower : Option α) (first : Finset α) (plain : PlainSet α) :
    Prop where
  tracks : walk.set.Tracks plain
  tied : walk.cursor.Tied walk.set
  start_eq : walk.cursor.start = lower
  last_eq : walk.cursor.last = walk.given.getLast?
  ascending : walk.given.Pairwise (· < ·)
  kept : first ⊆ plain.contents
  covered : ∀ x ∈ first, Ahead lower [] x →
    x ∈ walk.given ∨ walk.cursor.ended = false ∧ Ahead lower walk.given x

variable {walk : SharedWalk α} {lower : Option α} {first : Finset α} {plain : PlainSet α}

namespace Keeps

/-- What the cursor has not passed is ahead. -/
theorem not_passed_iff (keeps : walk.Keeps lower first plain) {x : α} :
    (!walk.cursor.passed x) = true ↔ Ahead lower walk.given x := by
  rw [Cursor.passed, keeps.last_eq, keeps.start_eq, Ahead]
  cases walk.given.getLast? with
  | some last => rw [Run.not_isLE_compare_iff, compare_lt_iff_lt]
  | none =>
    cases lower with
    | none => simp only [Bool.not_false, Option.mem_def, reduceCtorEq, false_implies, implies_true]
    | some bound => simp only [TieredSet.not_isLT_compare_iff, Option.mem_def, Option.some.injEq,
        forall_eq']

/-- What is left is what the set holds ahead. -/
theorem mem_remaining_iff (keeps : walk.Keeps lower first plain)
    (running : walk.cursor.ended = false) {x : α} :
    x ∈ walk.cursor.remaining walk.set ↔ x ∈ plain.contents ∧ Ahead lower walk.given x := by
  rw [Cursor.remaining_of_open keeps.tracks.valid running, List.mem_filter, keeps.not_passed_iff,
    keeps.tracks.mem_iff]

/-- What is left ascends. -/
theorem ascending_remaining (keeps : walk.Keeps lower first plain)
    (running : walk.cursor.ended = false) :
    Run.Ascending (walk.cursor.remaining walk.set) := by
  rw [Cursor.remaining_of_open keeps.tracks.valid running]
  exact keeps.tracks.valid.ascending_toList.filter _

/-- A step keeps the elements given in order and passes over none. -/
theorem stepped (keeps : walk.Keeps lower first plain) :
    (walk.event .next).Keeps lower first plain := by
  have valid := keeps.tracks.valid
  have tied := (Cursor.next_spec valid keeps.tied).2.2
  have start := (Cursor.start_next walk.cursor walk.set).trans keeps.start_eq
  cases ended : walk.cursor.ended with
  | true =>
    have same : walk.cursor.next walk.set = (none, walk.cursor) := by
      rw [Cursor.next, if_pos ended]
    have still : walk.event .next = walk := by
      rw [event, same]
      simp only [Option.toList_none, List.append_nil]
    rw [still]
    exact keeps
  | false =>
    have covered {x : α} (inside : x ∈ first) (ahead : Ahead lower [] x) :
        x ∈ walk.given ∨ x ∈ walk.cursor.remaining walk.set := by
      rw [keeps.mem_remaining_iff ended]
      exact (keeps.covered x inside ahead).imp_right fun later => ⟨keeps.kept inside, later.2⟩
    cases left : walk.cursor.remaining walk.set with
    | nil =>
      have last : (walk.cursor.next walk.set).2.last = walk.given.getLast? := by
        rw [Cursor.next_of_nil valid keeps.tied ended left]
        exact (Cursor.last_located walk.cursor walk.set).trans keeps.last_eq
      have given : (walk.event .next).given = walk.given := by
        rw [event, Cursor.next_of_nil valid keeps.tied ended left]
        exact List.append_nil walk.given
      refine ⟨keeps.tracks, tied, start, ?_, ?_, keeps.kept, fun x inside ahead => .inl ?_⟩
      · rw [given]
        exact last
      · rw [given]
        exact keeps.ascending
      · rw [given]
        refine (covered inside ahead).resolve_right ?_
        rw [left]
        exact List.not_mem_nil
    | cons x rest =>
      obtain ⟨found, running, last, -⟩ := Cursor.next_of_cons valid keeps.tied ended left
      have given : (walk.event .next).given = walk.given ++ [x] := by
        change walk.given ++ (walk.cursor.next walk.set).1.toList = _
        rw [found]
        rfl
      have ahead : Ahead lower walk.given x := by
        refine ((keeps.mem_remaining_iff ended).mp ?_).2
        rw [left]
        exact List.mem_cons_self
      refine ⟨keeps.tracks, tied, start, ?_, ?_, keeps.kept, fun y inside before => ?_⟩
      · rw [given, List.getLast?_concat]
        exact last
      · rw [given]
        exact ahead.pairwise_concat keeps.ascending
      · rw [given, List.mem_append, List.mem_singleton]
        rcases covered inside before with given | remains
        · exact .inl (.inl given)
        · rw [left] at remains
          rcases List.mem_cons.mp remains with rfl | later
          · exact .inl (.inr rfl)
          · have order := keeps.ascending_remaining ended
            rw [left] at order
            have above := compare_lt_iff_lt.mp ((List.pairwise_cons.mp order).1 y later)
            refine .inr ⟨running, ?_⟩
            rw [Ahead, List.getLast?_concat]
            exact above

/-- A step gives the least element ahead, and ends the walk just when there is none. -/
theorem next (keeps : walk.Keeps lower first plain) (running : walk.cursor.ended = false) :
    (∀ x, (walk.cursor.next walk.set).1 = some x ↔
        IsLeast (successors plain.contents lower walk.given) x) ∧
      ((walk.cursor.next walk.set).1 = none ↔ successors plain.contents lower walk.given = ∅) ∧
      ((walk.cursor.next walk.set).2.ended = true ↔
        successors plain.contents lower walk.given = ∅) := by
  have given := (Cursor.next_spec keeps.tracks.valid keeps.tied).1
  have nothing : walk.cursor.remaining walk.set = [] ↔
      successors plain.contents lower walk.given = ∅ := by
    rw [List.eq_nil_iff_forall_not_mem, Set.eq_empty_iff_forall_notMem]
    exact forall_congr' fun x => not_congr (keeps.mem_remaining_iff running)
  refine ⟨fun x => ?_, ?_, ?_⟩
  · rw [given, (keeps.ascending_remaining running).head?_eq_some_iff,
      keeps.mem_remaining_iff running]
    refine and_congr_right' (forall_congr' fun y => ?_)
    rw [keeps.mem_remaining_iff running, TieredSet.isLE_compare_iff]
    rfl
  · rw [given, List.head?_eq_none_iff, nothing]
  · rw [Cursor.ended_next keeps.tracks.valid keeps.tied running, nothing]

/-- Whatever happens keeps the walk in order. -/
theorem event (keeps : walk.Keeps lower first plain) (event : SharedEvent α) :
    (walk.event event).Keeps lower first (plain.changed event.change?.toList) := by
  cases event with
  | change change =>
    exact ⟨(keeps.tracks.change change).1, keeps.tied.later (.change walk.set change),
      keeps.start_eq, keeps.last_eq, keeps.ascending,
      keeps.kept.trans (plain.contents_subset_change change), keeps.covered⟩
  | settle =>
    exact ⟨keeps.tracks.settle, keeps.tied.later (.settle walk.set), keeps.start_eq, keeps.last_eq,
      keeps.ascending, keeps.kept, keeps.covered⟩
  | next => exact keeps.stepped

/-- A run of events keeps the walk in order. -/
theorem run (keeps : walk.Keeps lower first plain) (events : List (SharedEvent α)) :
    (walk.run events).Keeps lower first (plain.changed (SharedEvent.changes events)) := by
  induction events generalizing walk plain with
  | nil => exact keeps
  | cons event rest ih =>
    rw [SharedEvent.changes_cons, PlainSet.changed_append]
    exact ih (keeps.event event)

end Keeps

/-- A walk begins in order. -/
theorem keeps_start {set : TieredSet α} (tracks : set.Tracks plain) (lower : Option α) :
    (start set lower).Keeps lower plain.contents plain :=
  ⟨tracks, .of_generation_eq_none rfl, rfl, rfl, .nil, Finset.Subset.refl _,
    fun _ _ ahead => .inr ⟨rfl, ahead⟩⟩

/-- A step of a walk that has not ended gives the least element ahead in the set as it is then,
whatever has happened to the set since the walk began, and ends the walk exactly when there is none.
So the elements given ascend, and in the end nothing that was in the set at the beginning has been
passed over. -/
theorem run_successors (threshold : Nat) (changes : List (SetChange α)) (lower : Option α)
    (events : List (SharedEvent α)) :
    let walk := (start ((TieredSet.withThreshold threshold).changed changes) lower).run events
    let contents := (PlainSet.changed {} (changes ++ SharedEvent.changes events)).contents
    let ahead := successors contents lower walk.given
    walk.set.Represents contents ∧
      (walk.cursor.ended = false →
        (∀ x, (walk.cursor.next walk.set).1 = some x ↔ IsLeast ahead x) ∧
          ((walk.cursor.next walk.set).1 = none ↔ ahead = ∅) ∧
          ((walk.cursor.next walk.set).2.ended = true ↔ ahead = ∅)) ∧
      walk.given.Pairwise (· < ·) ∧
      (walk.cursor.ended = true → ∀ x ∈ (PlainSet.changed {} changes).contents,
        (∀ bound ∈ lower, bound ≤ x) → x ∈ walk.given) := by
  intro walk contents ahead
  have tracks := ((TieredSet.tracks_withThreshold threshold).changed changes).1
  have keeps := (keeps_start tracks lower).run events
  rw [← PlainSet.changed_append] at keeps
  refine ⟨keeps.tracks.represents, keeps.next, keeps.ascending, fun ended x inside before => ?_⟩
  refine (keeps.covered x inside before).resolve_right fun left => ?_
  exact Bool.false_ne_true (left.1.symm.trans ended)

end SharedWalk
end AtomStore
