import AtomStore.Proofs.TieredSet.Run
import AtomStore.TieredSet.Basic

/-!
# The contents of sets in two tiers

In every set that is built by its operations the two runs ascend and share no element, and the short
run is within its bound. The contents of such a set are listed by merging the runs, and every query
is answered as by a search through that list.
-/

namespace AtomStore

variable {α : Type} [Ord α]

namespace Run

/-- Whether a test that an element passes is passed by all lesser ones. -/
def Downward (test : α → Bool) : Prop :=
  ∀ x y, compare x y = .lt → test y = true → test x = true

/-- What a downward test accepts of an ascending run is its front part. -/
theorem Downward.closed {test : α → Bool} (downward : Downward test) {run : List α}
    (ascending : Ascending run) : Closed test run :=
  ascending.imp fun less passes => downward _ _ less passes

/-- Where a test is passed by all that is below what passes it, the first element to pass it is the
first one or none. -/
theorem Ascending.filter_head? {run : List α} (ascending : Ascending run) {test : α → Bool}
    (unbroken : ∀ x ∈ run, ∀ y, compare x y = .lt → test y = true → test x = true) :
    run.head?.filter test = (run.filter test).head? := by
  cases run with
  | nil => rfl
  | cons first rest =>
    have below := (List.pairwise_cons.mp ascending).1
    cases passes : test first with
    | true =>
      rw [List.filter_cons_of_pos passes, List.head?_cons, Option.filter_some, if_pos passes]
      rfl
    | false =>
      have fails : ¬test first = true := Bool.not_eq_true _ ▸ passes
      have none : rest.filter test = [] := by
        rw [List.filter_eq_nil_iff]
        intro later member also
        exact fails (unbroken first List.mem_cons_self later (below later member) also)
      rw [List.filter_cons_of_neg fails, none, List.head?_cons, Option.filter_some, if_neg fails]
      rfl

variable [Std.TransOrd α]

/-- Being below a bound is inherited downward. -/
theorem downward_isLT (bound : α) : Downward fun x => (compare x bound).isLT := by
  intro x y less below
  rw [Ordering.isLT_iff_eq_lt] at below ⊢
  exact Std.TransCmp.lt_trans less below

/-- Being no higher than a bound is inherited downward. -/
theorem downward_isLE (bound : α) : Downward fun x => (compare x bound).isLE := by
  intro x y less below
  exact Ordering.isLE_of_eq_lt (Std.TransCmp.lt_of_lt_of_isLE less below)

/-- The least element of runs that are apart is the lesser of their first ones. -/
theorem least_head? {left right : List α} (apart : Apart left right) :
    least left.head? right.head? = (merge left right).head? := by
  cases left with
  | nil =>
    rw [nil_merge]
    cases right <;> rfl
  | cons a left =>
    cases right with
    | nil =>
      rw [merge_nil]
      rfl
    | cons b right =>
      rw [merge, List.head?_cons, List.head?_cons, least]
      cases order : compare a b with
      | lt =>
        rw [Std.OrientedCmp.gt_of_lt order]
        rfl
      | eq => exact absurd order (apart a List.mem_cons_self b List.mem_cons_self)
      | gt =>
        rw [Std.OrientedCmp.lt_of_gt order]
        rfl

/-- The first element of an ascending run is its least one. -/
theorem Ascending.head?_eq_some_iff {run : List α} (ascending : Ascending run) {x : α} :
    run.head? = some x ↔ x ∈ run ∧ ∀ y ∈ run, (compare x y).isLE = true := by
  cases run with
  | nil => exact ⟨nofun, fun given => absurd given.1 List.not_mem_nil⟩
  | cons head rest =>
    have below := (List.pairwise_cons.mp ascending).1
    constructor
    · rintro ⟨⟩
      refine ⟨List.mem_cons_self, fun y member => ?_⟩
      rcases List.mem_cons.mp member with rfl | later
      · exact Ordering.isLE_of_eq_eq Std.ReflCmp.compare_self
      · exact Ordering.isLE_of_eq_lt (below y later)
    · intro given
      obtain ⟨member, least⟩ := given
      rcases List.mem_cons.mp member with rfl | later
      · rfl
      · exact absurd (least head List.mem_cons_self)
          (Std.OrientedCmp.not_isLE_of_lt (below x later))

/-- The last element of an ascending run is its greatest one. -/
theorem Ascending.getLast?_eq_some_iff {run : List α} (ascending : Ascending run) {x : α} :
    run.getLast? = some x ↔ x ∈ run ∧ ∀ y ∈ run, (compare y x).isLE = true := by
  constructor
  · intro last
    obtain ⟨front, rfl⟩ := List.getLast?_eq_some_iff.mp last
    obtain ⟨_, _, below⟩ := List.pairwise_append.mp ascending
    refine ⟨List.mem_append_right _ List.mem_cons_self, fun y member => ?_⟩
    rcases List.mem_append.mp member with before | same
    · exact Ordering.isLE_of_eq_lt (below y before x List.mem_cons_self)
    · obtain rfl := List.mem_singleton.mp same
      exact Ordering.isLE_of_eq_eq Std.ReflCmp.compare_self
  · intro given
    obtain ⟨member, greatest⟩ := given
    obtain ⟨last, found⟩ := Option.ne_none_iff_exists'.mp
      (mt List.getLast?_eq_none_iff.mp (List.ne_nil_of_mem member))
    obtain ⟨front, rfl⟩ := List.getLast?_eq_some_iff.mp found
    obtain ⟨_, _, below⟩ := List.pairwise_append.mp ascending
    rw [found]
    rcases List.mem_append.mp member with before | same
    · have less := below x before last List.mem_cons_self
      have upper := greatest last (List.mem_append_right _ List.mem_cons_self)
      exact absurd upper (Std.OrientedCmp.not_isLE_of_lt less)
    · rw [List.mem_singleton.mp same]

end Run

namespace TieredSet

open Run (Ascending Apart)

/-- What all sets have in common that are built by the operations. -/
structure Valid (set : TieredSet α) : Prop where
  settled_ascending : Ascending set.settled.toList
  recent_ascending : Ascending set.recent
  apart : Apart set.settled.toList set.recent
  bounded : set.recent.length ≤ set.threshold

/-- A new set is in order. -/
theorem valid_withThreshold (threshold : Nat) : (withThreshold threshold : TieredSet α).Valid :=
  ⟨List.Pairwise.nil, List.Pairwise.nil, nofun, Nat.zero_le _⟩

/-- A new set is empty. -/
theorem toList_withThreshold (threshold : Nat) :
    (withThreshold threshold : TieredSet α).toList = [] :=
  List.merge_right _

variable {set : TieredSet α}

/-- The contents of a set are its two runs merged. -/
theorem Valid.toList_eq (valid : set.Valid) :
    set.toList = Run.merge set.settled.toList set.recent :=
  Run.interleave_eq_merge valid.apart

/-- Parts of the two runs hold no equal elements. -/
theorem Valid.apart_filter (valid : set.Valid) (test : α → Bool) :
    Apart (set.settled.toList.filter test) (set.recent.filter test) := fun a inside b among =>
  valid.apart a (List.mem_filter.mp inside).1 b (List.mem_filter.mp among).1

variable [Std.TransOrd α]

namespace Valid

/-- The contents of a set ascend. -/
theorem ascending_toList (valid : set.Valid) : Ascending set.toList := by
  rw [valid.toList_eq]
  exact Run.ascending_merge valid.settled_ascending valid.recent_ascending

/-- The contents of a set are the elements of its two runs. -/
theorem mem_toList (valid : set.Valid) {x : α} :
    x ∈ set.toList ↔ x ∈ set.settled.toList ∨ x ∈ set.recent := by
  rw [valid.toList_eq]
  exact Run.mem_merge_of_apart valid.settled_ascending valid.recent_ascending valid.apart

/-- The size of a set is the number of its elements. -/
theorem size_eq (valid : set.Valid) : set.size = set.toList.length := by
  rw [valid.toList_eq, Run.length_merge valid.settled_ascending valid.recent_ascending valid.apart,
    size, Array.length_toList, Nat.add_comm]

/-- A set is empty just when it has no elements. -/
theorem isEmpty_iff (valid : set.Valid) : set.isEmpty = true ↔ set.toList = [] := by
  rw [← List.length_eq_zero_iff, ← valid.size_eq, size, isEmpty, Bool.and_eq_true,
    List.isEmpty_iff_length_eq_zero, Array.isEmpty_iff_size_eq_zero, Nat.add_eq_zero_iff]

/-- What is kept of the contents is what is kept of the runs. -/
theorem filter_toList (valid : set.Valid) (test : α → Bool) :
    set.toList.filter test =
      Run.merge (set.settled.toList.filter test) (set.recent.filter test) := by
  have first := valid.settled_ascending.filter test
  have second := valid.recent_ascending.filter test
  apply Ascending.eq_of_mem_iff (valid.ascending_toList.filter test)
    (Run.ascending_merge first second)
  intro x
  rw [Run.mem_merge_of_apart first second (valid.apart_filter test), List.mem_filter,
    List.mem_filter, List.mem_filter, valid.mem_toList, or_and_right]

/-- The lesser of what comes next in the two runs is what comes next in the contents. -/
theorem least_eq (valid : set.Valid) {test : α → Bool} (downward : Run.Downward test) :
    Run.least set.settled[Run.prefixLength test set.settled]?
        (set.recent.find? fun x => !test x) =
      (set.toList.filter fun x => !test x).head? := by
  rw [Run.getElem?_prefixLength (downward.closed valid.settled_ascending), ← List.head?_filter,
    Run.least_head? (valid.apart_filter _), ← valid.filter_toList]

/-- A search finds the first element that is not below the bound. -/
theorem ceiling?_eq (valid : set.Valid) (lower : α) :
    set.ceiling? lower = (set.toList.filter fun x => !(compare x lower).isLT).head? :=
  valid.least_eq (Run.downward_isLT lower)

/-- It is enough to try the first element of each run that is not below the bound when a test that
such an element passes is passed by all those in front of it. -/
theorem ceilingWhere?_eq (valid : set.Valid) {lower : α} {test : α → Bool}
    (unbroken : ∀ x y, (compare x lower).isLT = false → compare x y = .lt → test y = true →
      test x = true) :
    set.ceilingWhere? lower test =
      (set.toList.filter fun x => test x && !(compare x lower).isLT).head? := by
  have tried {run : List α} (ascending : Ascending run) :
      (run.filter fun x => !(compare x lower).isLT).head?.filter test =
        (run.filter fun x => test x && !(compare x lower).isLT).head? := by
    rw [← List.filter_filter]
    apply (ascending.filter _).filter_head?
    intro x member
    have above := (List.mem_filter.mp member).2
    rw [Bool.not_eq_true'] at above
    exact fun y => unbroken x y above
  rw [ceilingWhere?, settledFrom, recentFrom,
    Run.getElem?_prefixLength ((Run.downward_isLT lower).closed valid.settled_ascending),
    ← List.head?_filter, tried valid.settled_ascending, tried valid.recent_ascending,
    Run.least_head? (valid.apart_filter _), ← valid.filter_toList]

/-- A listing from a bound on leaves out what is below it. -/
theorem listFrom_eq (valid : set.Valid) (lower : α) :
    set.listFrom lower = set.toList.filter fun x => !(compare x lower).isLT := by
  have downward := Run.downward_isLT lower
  have settled := downward.closed valid.settled_ascending
  rw [listFrom, Run.drop_prefixLength settled, settled.dropWhile_eq_filter,
    (downward.closed valid.recent_ascending).dropWhile_eq_filter,
    Run.interleave_eq_merge (valid.apart_filter _), ← valid.filter_toList]

/-- The first element of a set is the first of its contents. -/
theorem first?_eq (valid : set.Valid) : set.first? = set.toList.head? := by
  have front : set.settled[0]? = set.settled.toList.head? := by
    rw [List.head?_eq_getElem?, Array.getElem?_toList]
  rw [first?, valid.toList_eq, ← Run.least_head? valid.apart, front]

/-- The last element of a set is the last of its contents. -/
theorem last?_eq (valid : set.Valid) : set.last? = set.toList.getLast? := by
  have greatest {x : α} (member : x ∈ set.toList)
      (settled : ∀ y ∈ set.settled.toList, (compare y x).isLE = true)
      (recent : ∀ y ∈ set.recent, (compare y x).isLE = true) :
      set.toList.getLast? = some x := by
    refine valid.ascending_toList.getLast?_eq_some_iff.mpr ⟨member, fun y among => ?_⟩
    exact (valid.mem_toList.mp among).elim (settled y) (recent y)
  rw [last?, ← Array.getLast?_toList]
  cases first : set.settled.toList.getLast? with
  | none =>
    have empty := List.getLast?_eq_none_iff.mp first
    have same : set.toList = set.recent := by rw [valid.toList_eq, empty, Run.nil_merge]
    rw [same]
    rfl
  | some a =>
    obtain ⟨inside, above⟩ := valid.settled_ascending.getLast?_eq_some_iff.mp first
    cases second : set.recent.getLast? with
    | none =>
      rw [List.getLast?_eq_none_iff.mp second] at greatest
      exact (greatest (valid.mem_toList.mpr (.inl inside)) above nofun).symm
    | some b =>
      obtain ⟨among, most⟩ := valid.recent_ascending.getLast?_eq_some_iff.mp second
      rw [Run.greatest]
      by_cases greater : compare b a = .gt
      · rw [if_pos (by rw [greater]; rfl)]
        have less := Std.OrientedCmp.lt_of_gt greater
        refine (greatest (valid.mem_toList.mpr (.inr among)) (fun y member => ?_) most).symm
        exact Ordering.isLE_of_eq_lt (Std.TransCmp.lt_of_isLE_of_lt (above y member) less)
      · rw [if_neg (by rw [Ordering.isGT_iff_eq_gt]; exact greater)]
        have below : (compare b a).isLE = true := Ordering.isLE_iff_ne_gt.mpr greater
        refine (greatest (valid.mem_toList.mpr (.inl inside)) above fun y member => ?_).symm
        exact Std.TransCmp.isLE_trans (most y member) below

/-- An element counts as contained when the contents have an equal one. -/
theorem contains_iff (valid : set.Valid) {element : α} :
    set.contains element = true ↔ ∃ x ∈ set.toList, compare x element = .eq := by
  have found : (set.settledFrom element).any (fun found => compare found element == .eq) = true ↔
      ∃ x ∈ set.settled.toList, compare x element = .eq := by
    rw [settledFrom, Run.getElem?_prefixLength
      ((Run.downward_isLT element).closed valid.settled_ascending), Option.any_eq_true]
    constructor
    · intro given
      obtain ⟨x, first, equal⟩ := given
      have member := List.mem_of_head? first
      exact ⟨x, (List.mem_filter.mp member).1, beq_iff_eq.mp equal⟩
    · intro given
      obtain ⟨x, member, equal⟩ := given
      have kept : x ∈ set.settled.toList.filter fun x => !(compare x element).isLT :=
        List.mem_filter.mpr ⟨member, by rw [equal]; rfl⟩
      obtain ⟨first, rest, split⟩ := List.exists_cons_of_ne_nil (List.ne_nil_of_mem kept)
      have ascending := valid.settled_ascending.filter fun x => !(compare x element).isLT
      have inside : first ∈ set.settled.toList.filter fun x => !(compare x element).isLT := by
        rw [split]
        exact List.mem_cons_self
      rw [split] at kept ascending ⊢
      refine ⟨first, rfl, ?_⟩
      rcases List.mem_cons.mp kept with rfl | later
      · exact beq_iff_eq.mpr equal
      · -- a first element below the one found would not have been kept
        have less := Std.TransCmp.lt_of_lt_of_eq
          ((List.pairwise_cons.mp ascending).1 x later) equal
        have above := (List.mem_filter.mp inside).2
        rw [less] at above
        cases above
  rw [contains, Bool.or_eq_true, found, List.any_eq_true]
  constructor
  · rintro (⟨x, member, equal⟩ | ⟨x, member, equal⟩)
    · exact ⟨x, valid.mem_toList.mpr (.inl member), equal⟩
    · exact ⟨x, valid.mem_toList.mpr (.inr member), beq_iff_eq.mp equal⟩
  · intro given
    obtain ⟨x, member, equal⟩ := given
    rcases valid.mem_toList.mp member with inside | among
    · exact .inl ⟨x, inside, equal⟩
    · exact .inr ⟨x, among, beq_iff_eq.mpr equal⟩

end Valid

end TieredSet
end AtomStore
