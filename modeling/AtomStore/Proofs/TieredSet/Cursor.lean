import AtomStore.Proofs.TieredSet.Growth
import AtomStore.TieredSet.Cursor

/-!
# Walks through sets that change

A cursor is tied to a set when its place in the long run, if it is one of the long run the set has
now, is behind the elements that the cursor has passed. Changes of the set keep the tie, and so do
steps. A step of a tied cursor gives the first element that is left and leaves the others.
-/

namespace AtomStore

variable {α : Type}

namespace TieredSet

/-- Whether a set has the long run of another, or one that has come later. -/
structure Later (before after : TieredSet α) : Prop where
  generation_le : before.generation ≤ after.generation
  settled_eq : before.generation = after.generation → after.settled = before.settled

namespace Later

theorem refl (set : TieredSet α) : set.Later set := ⟨Nat.le_refl _, fun _ => rfl⟩

theorem trans {first second third : TieredSet α} (earlier : first.Later second)
    (later : second.Later third) : first.Later third := by
  have behind := earlier.generation_le
  have ahead := later.generation_le
  refine ⟨Nat.le_trans behind ahead, fun same => ?_⟩
  rw [later.settled_eq (by omega), earlier.settled_eq (by omega)]

/-- A bulk load begins with the long run as it is. -/
theorem startLoading (set : TieredSet α) : set.Later set.startLoading :=
  ⟨Nat.le_refl _, fun _ => rfl⟩

variable [Ord α]

/-- Adding an element keeps the long run, or replaces it by a later one. -/
theorem add (set : TieredSet α) (element : α) : set.Later (set.add element).2 := by
  rw [TieredSet.add]
  split
  · exact ⟨Nat.le_refl _, fun _ => rfl⟩
  · split
    · exact .refl set
    · simp only
      split
      · exact ⟨Nat.le_succ _, fun same => absurd same (Nat.ne_of_lt (Nat.lt_succ_self _))⟩
      · exact ⟨Nat.le_refl _, fun _ => rfl⟩

/-- Adding elements keeps the long run, or replaces it by a later one. -/
theorem addAll (set : TieredSet α) (elements : List α) : set.Later (set.addAll elements) := by
  induction elements generalizing set with
  | nil => exact .refl set
  | cons element rest ih => exact (add set element).trans (ih (set.add element).2)

/-- The end of a bulk load keeps the long run, or replaces it by a later one. -/
theorem stopLoading (set : TieredSet α) : set.Later set.stopLoading := by
  rw [TieredSet.stopLoading]
  split
  · exact .refl set
  · split
    · exact ⟨Nat.le_refl _, fun _ => rfl⟩
    · exact ⟨Nat.le_succ _, fun same => absurd same (Nat.ne_of_lt (Nat.lt_succ_self _))⟩

end Later
end TieredSet

namespace Run

variable [Ord α] [Std.TransOrd α] {run rest : List α} {test : α → Bool} {x : α}

theorem not_isLE_compare_iff {x y : α} : (!(compare y x).isLE) = true ↔ compare x y = .lt := by
  rw [Bool.not_eq_true', Ordering.isLE_eq_false, Std.OrientedCmp.gt_iff_lt]

/-- Behind the first element of an ascending run that fails a test, all are above it. -/
theorem filter_above_head (ascending : Ascending run) (downward : Downward test)
    (left : (run.filter fun y => !test y) = x :: rest) :
    (run.filter fun y => !(compare y x).isLE) = rest := by
  have order := ascending.filter fun y => !test y
  rw [left] at order
  obtain ⟨above, tail⟩ := List.pairwise_cons.mp order
  have listed {y : α} : y ∈ x :: rest ↔ y ∈ run ∧ (!test y) = true := by
    rw [← left, List.mem_filter]
  apply (ascending.filter _).eq_of_mem_iff tail
  intro y
  rw [List.mem_filter, not_isLE_compare_iff]
  constructor
  · rintro ⟨member, less⟩
    have fails : (!test y) = true := by
      rw [Bool.not_eq_true', ← Bool.not_eq_true]
      intro passes
      have failed := (listed.mp List.mem_cons_self).2
      rw [downward x y less passes] at failed
      cases failed
    rcases List.mem_cons.mp (listed.mpr ⟨member, fails⟩) with rfl | later
    · exact absurd less (Std.OrientedCmp.not_lt_of_lt less)
    · exact later
  · intro later
    exact ⟨(listed.mp (List.mem_cons_of_mem x later)).1, above y later⟩

/-- An element that fails a test and is below all others that fail it comes right before them. -/
theorem filter_above_lower (downward : Downward test) (fails : test x = false)
    (below : ∀ y ∈ run, test y = false → compare x y = .lt) :
    (run.filter fun y => !(compare y x).isLE) = run.filter fun y => !test y := by
  apply List.filter_congr
  intro y member
  rw [Bool.eq_iff_iff, not_isLE_compare_iff, Bool.not_eq_true']
  refine ⟨fun less => ?_, below y member⟩
  rw [← Bool.not_eq_true]
  intro passes
  rw [downward x y less passes] at fails
  cases fails

end Run

namespace Cursor

variable [Ord α]

/-- Whether the place of a cursor, if it is in the long run of a set, is behind the elements that
the cursor has passed. -/
structure Tied (cursor : Cursor α) (set : TieredSet α) : Prop where
  generation_le : ∀ generation, cursor.generation = some generation →
    generation ≤ set.generation
  drop_place : cursor.generation = some set.generation →
    set.settled.toList.drop cursor.place = set.settled.toList.dropWhile cursor.passed

variable {cursor : Cursor α} {set : TieredSet α}

/-- Changes of a set keep cursors tied to it. -/
theorem Tied.later {after : TieredSet α} (tied : cursor.Tied set) (later : set.Later after) :
    cursor.Tied after := by
  refine ⟨fun generation known => ?_, fun known => ?_⟩
  · exact Nat.le_trans (tied.generation_le generation known) later.generation_le
  · have same : set.generation = after.generation :=
      Nat.le_antisymm later.generation_le (tied.generation_le after.generation known)
    rw [later.settled_eq same]
    exact tied.drop_place (by rw [known, same])

/-- A cursor that has not begun is tied to every set. -/
theorem Tied.of_generation_eq_none (fresh : cursor.generation = none) : cursor.Tied set := by
  refine ⟨fun generation known => ?_, fun known => ?_⟩
  · rw [fresh] at known
    cases known
  · rw [fresh] at known
    cases known

/-- Finding its place leaves what a cursor has passed. -/
theorem passed_located (cursor : Cursor α) (set : TieredSet α) :
    (cursor.located set).passed = cursor.passed := by
  rw [located]
  split <;> rfl

/-- A cursor that has found its place is in the long run that the set has now. -/
theorem generation_located (cursor : Cursor α) (set : TieredSet α) :
    (cursor.located set).generation = some set.generation := by
  rw [located]
  split
  · assumption
  · rfl

/-- Finding its place does not end a walk. -/
theorem ended_located (cursor : Cursor α) (set : TieredSet α) :
    (cursor.located set).ended = cursor.ended := by
  rw [located]
  split <;> rfl

/-- Finding its place leaves the element given last. -/
theorem last_located (cursor : Cursor α) (set : TieredSet α) :
    (cursor.located set).last = cursor.last := by
  rw [located]
  split <;> rfl

theorem start_located (cursor : Cursor α) (set : TieredSet α) :
    (cursor.located set).start = cursor.start := by
  rw [located]
  split <;> rfl

/-- Steps leave the bound of the first element. -/
theorem start_next (cursor : Cursor α) (set : TieredSet α) :
    (cursor.next set).2.start = cursor.start := by
  rw [next]
  split
  · rfl
  · simp only
    split
    · split <;> exact start_located cursor set
    · exact start_located cursor set
    · exact start_located cursor set
    · exact start_located cursor set

/-- A cursor has passed all that is no higher than the element given last. -/
theorem passed_of_last {given : α} (last : cursor.last = some given) (x : α) :
    cursor.passed x = (compare x given).isLE := by
  rw [passed, last]

variable [Std.TransOrd α]

/-- What is below a passed element has been passed. -/
theorem downward_passed (cursor : Cursor α) : Run.Downward cursor.passed := by
  intro x y less passes
  cases last : cursor.last with
  | some last =>
    simp only [passed, last] at passes ⊢
    exact Run.downward_isLE _ x y less passes
  | none =>
    cases start : cursor.start with
    | some start =>
      simp only [passed, last, start] at passes ⊢
      exact Run.downward_isLT _ x y less passes
    | none =>
      simp only [passed, last, start, Bool.false_eq_true] at passes

/-- Until a walk ends, all that has not been passed is left. -/
theorem remaining_of_open (valid : set.Valid) (notEnded : cursor.ended = false) :
    cursor.remaining set = set.toList.filter fun x => !cursor.passed x := by
  rw [remaining, notEnded]
  exact (cursor.downward_passed.closed valid.ascending_toList).dropWhile_eq_filter

/-- Finding its place again ties a cursor. -/
theorem drop_located (valid : set.Valid) (tied : cursor.Tied set) :
    set.settled.toList.drop (cursor.located set).place =
      set.settled.toList.filter fun x => !cursor.passed x := by
  have closed := cursor.downward_passed.closed valid.settled_ascending
  rw [located]
  split
  · rename_i known
    rw [tied.drop_place known, closed.dropWhile_eq_filter]
  · rw [Run.drop_prefixLength closed, closed.dropWhile_eq_filter]

/-- A cursor in the long run of a set is tied when its place is behind the elements that are not
above the one it has given last. -/
theorem tied_of_last (valid : set.Valid) {given : α} (last : cursor.last = some given)
    (known : cursor.generation = some set.generation)
    (behind : set.settled.toList.drop cursor.place =
      set.settled.toList.filter fun x => !(compare x given).isLE) : cursor.Tied set := by
  refine ⟨fun generation same => ?_, fun _ => ?_⟩
  · rw [known] at same
    exact Nat.le_of_eq (Option.some.inj same).symm
  · rw [behind, (cursor.downward_passed.closed valid.settled_ascending).dropWhile_eq_filter]
    simp only [passed_of_last last]

/-- What comes next in the long run. -/
theorem settled_located (valid : set.Valid) (tied : cursor.Tied set) :
    set.settled[(cursor.located set).place]? =
      (set.settled.toList.filter fun y => !cursor.passed y).head? := by
  rw [← drop_located valid tied, List.head?_drop, Array.getElem?_toList]

/-- What comes next in the runs is what comes next in the contents. -/
theorem least_located (valid : set.Valid) (tied : cursor.Tied set)
    (notEnded : cursor.ended = false) :
    Run.least set.settled[(cursor.located set).place]?
        (set.recent.find? fun y => !(cursor.located set).passed y) =
      (cursor.remaining set).head? := by
  rw [settled_located valid tied, passed_located, ← List.head?_filter,
    Run.least_head? (valid.apart_filter _), ← valid.filter_toList,
    remaining_of_open valid notEnded]

/-- Giving an element of the long run keeps a cursor tied. -/
theorem tied_giveSettled (valid : set.Valid) (tied : cursor.Tied set) {x : α}
    (found : set.settled[(cursor.located set).place]? = some x) :
    ((cursor.located set).giveSettled x).2.Tied set := by
  refine tied_of_last valid rfl (generation_located cursor set) ?_
  have split : (set.settled.toList.filter fun y => !cursor.passed y) =
      x :: set.settled.toList.drop ((cursor.located set).place + 1) := by
    rw [← drop_located valid tied, List.drop_eq_getElem?_toList_append, Array.getElem?_toList,
      found]
    rfl
  exact (Run.filter_above_head valid.settled_ascending cursor.downward_passed split).symm

/-- Giving an element of the short run that comes before those left of the long run keeps a cursor
tied. -/
theorem tied_giveRecent (valid : set.Valid) (tied : cursor.Tied set) {x : α}
    (found : set.recent.find? (fun y => !(cursor.located set).passed y) = some x)
    (below : ∀ y ∈ set.settled.toList, cursor.passed y = false → compare x y = .lt) :
    ((cursor.located set).giveRecent x).2.Tied set := by
  refine tied_of_last valid rfl (generation_located cursor set) ?_
  have fails : cursor.passed x = false := by
    have failed := List.find?_some found
    rw [passed_located, Bool.not_eq_true'] at failed
    exact failed
  exact (drop_located valid tied).trans
    (Run.filter_above_lower cursor.downward_passed fails below).symm

/-- A step gives the first element that is left, and the cursor has then passed the elements that
are not above it. -/
theorem next_of_cons (valid : set.Valid) (tied : cursor.Tied set) (notEnded : cursor.ended = false)
    {x : α} {rest : List α} (left : cursor.remaining set = x :: rest) :
    (cursor.next set).1 = some x ∧ (cursor.next set).2.ended = false ∧
      (cursor.next set).2.last = some x ∧ (cursor.next set).2.Tied set := by
  have running : (cursor.located set).ended = false := (ended_located cursor set).trans notEnded
  have least := least_located valid tied notEnded
  have fromSettled := tied_giveSettled valid tied (x := x)
  have fromRecent := tied_giveRecent valid tied (x := x)
  have below (member : x ∈ set.recent) :
      ∀ y ∈ set.settled.toList, cursor.passed y = false → compare x y = .lt := by
    intro y inside failed
    have ascending := valid.ascending_toList.filter fun y => !cursor.passed y
    rw [← remaining_of_open valid notEnded, left] at ascending
    have listed : y ∈ x :: rest := by
      rw [← left, remaining_of_open valid notEnded, List.mem_filter, valid.mem_toList, failed]
      exact ⟨.inl inside, rfl⟩
    rcases List.mem_cons.mp listed with rfl | later
    · exact absurd Std.ReflCmp.compare_self (valid.apart y inside y member)
    · exact (List.pairwise_cons.mp ascending).1 y later
  have recent {b : α} (found : set.recent.find? (fun y => !(cursor.located set).passed y) =
      some b) : b ∈ set.recent := List.mem_of_find?_eq_some found
  rw [left] at least
  rw [next, if_neg (by rw [notEnded]; exact Bool.false_ne_true)]
  simp only
  split
  · rename_i a b foundA foundB
    rw [foundA, foundB, Run.least] at least
    split
    · rename_i less
      rw [if_pos less] at least
      obtain rfl := Option.some.inj least
      exact ⟨rfl, running, rfl, fromRecent foundB (below (recent foundB))⟩
    · rename_i less
      rw [if_neg less] at least
      obtain rfl := Option.some.inj least
      exact ⟨rfl, running, rfl, fromSettled foundA⟩
  · rename_i a foundA foundB
    rw [foundA, foundB] at least
    obtain rfl := Option.some.inj least
    exact ⟨rfl, running, rfl, fromSettled foundA⟩
  · rename_i b foundA foundB
    rw [foundA, foundB] at least
    obtain rfl := Option.some.inj least
    exact ⟨rfl, running, rfl, fromRecent foundB (below (recent foundB))⟩
  · rename_i foundA foundB
    rw [foundA, foundB] at least
    cases least

/-- A step gives nothing when nothing is left, and ends the walk. -/
theorem next_of_nil (valid : set.Valid) (tied : cursor.Tied set)
    (notEnded : cursor.ended = false) (left : cursor.remaining set = []) :
    cursor.next set = (none, { cursor.located set with ended := true }) := by
  have least := least_located valid tied notEnded
  rw [left] at least
  rw [next, if_neg (by rw [notEnded]; exact Bool.false_ne_true)]
  simp only
  split
  · rename_i a b foundA foundB
    rw [foundA, foundB, Run.least] at least
    split at least <;> cases least
  · rename_i a foundA foundB
    rw [foundA, foundB] at least
    cases least
  · rename_i b foundA foundB
    rw [foundA, foundB] at least
    cases least
  · rfl

/-- A step ends a walk exactly when nothing is left. -/
theorem ended_next (valid : set.Valid) (tied : cursor.Tied set) (notEnded : cursor.ended = false) :
    (cursor.next set).2.ended = true ↔ cursor.remaining set = [] := by
  cases left : cursor.remaining set with
  | nil =>
    rw [next_of_nil valid tied notEnded left]
    exact iff_of_true rfl rfl
  | cons x rest =>
    rw [(next_of_cons valid tied notEnded left).2.1]
    exact iff_of_false Bool.false_ne_true (List.cons_ne_nil x rest)

/-- A cursor that has found its place is tied. -/
theorem tied_located (valid : set.Valid) (tied : cursor.Tied set) :
    (cursor.located set).Tied set := by
  refine ⟨fun generation same => ?_, fun _ => ?_⟩
  · rw [generation_located] at same
    exact Nat.le_of_eq (Option.some.inj same).symm
  · rw [drop_located valid tied, passed_located,
      (cursor.downward_passed.closed valid.settled_ascending).dropWhile_eq_filter]

/-- A step gives the first element that is left, and leaves the others. -/
theorem next_spec (valid : set.Valid) (tied : cursor.Tied set) :
    (cursor.next set).1 = (cursor.remaining set).head? ∧
      (cursor.next set).2.remaining set = (cursor.remaining set).tail ∧
      (cursor.next set).2.Tied set := by
  cases ended : cursor.ended with
  | true =>
    have nothing : cursor.remaining set = [] := by rw [remaining, if_pos ended]
    rw [next, if_pos ended, nothing]
    exact ⟨rfl, rfl, tied⟩
  | false =>
    cases left : cursor.remaining set with
    | nil =>
      rw [next_of_nil valid tied ended left]
      have located := tied_located valid tied
      exact ⟨rfl, if_pos rfl, located.generation_le, located.drop_place⟩
    | cons x rest =>
      obtain ⟨given, running, last, tied'⟩ := next_of_cons valid tied ended left
      refine ⟨given, ?_, tied'⟩
      rw [remaining_of_open valid ended] at left
      rw [remaining_of_open valid running]
      simp only [passed_of_last last]
      exact Run.filter_above_head valid.ascending_toList cursor.downward_passed left

end Cursor
end AtomStore
