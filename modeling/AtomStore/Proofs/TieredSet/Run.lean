import AtomStore.TieredSet.Run
import Mathlib.Data.List.TakeWhile
import Mathlib.Logic.Basic

/-!
# Ascending runs

Placing an element, merging and removing repetitions give ascending runs with the elements that are
expected, up to equality in the order. Where a test holds up to some place of a run and fails from
there on, halving finds that place.
-/

namespace AtomStore.Run

section

variable {α : Type}

/-- Whether a test that fails at an element of a list fails at all later ones. -/
def Closed (test : α → Bool) (run : List α) : Prop :=
  run.Pairwise fun earlier later => test later = true → test earlier = true

/-- A test that fails from some place of a list on keeps what is behind the elements that pass. -/
theorem Closed.dropWhile_eq_filter {test : α → Bool} {run : List α} (closed : Closed test run) :
    run.dropWhile test = run.filter fun x => !test x := by
  induction run with
  | nil => rfl
  | cons head rest ih =>
    obtain ⟨here, later⟩ := List.pairwise_cons.mp closed
    cases passes : test head with
    | true =>
      rw [List.dropWhile_cons_of_pos passes, ih later, List.filter_cons_of_neg]
      rw [passes]
      exact Bool.false_ne_true
    | false =>
      have none : ∀ x ∈ rest, (!test x) = true := by
        intro x member
        rw [Bool.not_eq_true']
        apply eq_false_of_ne_true
        intro passed
        rw [here x member passed] at passes
        cases passes
      rw [List.dropWhile_cons_of_neg (by rw [passes]; exact Bool.false_ne_true),
        List.filter_cons_of_pos (by rw [passes]; rfl), List.filter_eq_self.mpr none]

/-- Halving finds the place from which on a test fails. -/
theorem halve_spec {test : α → Bool} {run : Array α} {low high : Nat} (bound : high ≤ run.size)
    (closed : Closed test run.toList) (ordered : low ≤ high)
    (passing : ∀ i (inside : i < run.size), i < low → test run[i] = true)
    (failing : ∀ i (inside : i < run.size), high ≤ i → test run[i] = false) :
    halve test run low high bound ≤ run.size ∧
      (∀ i (inside : i < run.size), i < halve test run low high bound → test run[i] = true) ∧
      ∀ i (inside : i < run.size), halve test run low high bound ≤ i → test run[i] = false := by
  have earlier (i j : Nat) (inside : j < run.size) (before : i < j) (passes : test run[j] = true) :
      test run[i] = true :=
    List.pairwise_iff_getElem.mp closed i j (Nat.lt_trans before inside) inside before passes
  clear closed
  fun_induction halve test run low high bound with
  | case1 low high bound narrow middle inside passes ih =>
    refine ih (by omega) ?_ failing earlier
    intro i within below
    by_cases same : i = middle
    · subst same
      exact passes
    · exact earlier i middle inside (by omega) passes
  | case2 low high bound narrow middle inside fails ih =>
    refine ih (by omega) passing ?_ earlier
    intro i within above
    apply eq_false_of_ne_true
    intro passes
    apply fails
    by_cases same : i = middle
    · subst same
      exact passes
    · exact earlier middle i within (by omega) passes
  | case3 low high bound narrow =>
    obtain rfl : low = high := by omega
    exact ⟨bound, passing, failing⟩

/-- Behind the leading elements that pass a test comes what the test leaves of a run. -/
theorem drop_prefixLength {test : α → Bool} {run : Array α} (closed : Closed test run.toList) :
    run.toList.drop (prefixLength test run) = run.toList.dropWhile test := by
  obtain ⟨bound, passing, failing⟩ :=
    halve_spec (Nat.le_refl run.size) closed (Nat.zero_le _) nofun
      (fun i inside above => absurd inside (Nat.not_lt.mpr above))
  rw [← prefixLength] at bound passing failing
  have front : ∀ x ∈ run.toList.take (prefixLength test run), test x = true := by
    intro x member
    obtain ⟨i, short, rfl⟩ := List.mem_iff_getElem.mp member
    rw [List.length_take] at short
    rw [List.getElem_take]
    exact passing i (by rw [← Array.length_toList]; omega) (by omega)
  have stop : (run.toList.drop (prefixLength test run)).dropWhile test =
      run.toList.drop (prefixLength test run) := by
    rw [List.dropWhile_eq_self_iff]
    intro some
    rw [List.length_drop] at some
    rw [List.getElem_drop, Bool.not_eq_true]
    exact failing _ (by rw [← Array.length_toList]; omega) (Nat.le_add_right ..)
  calc run.toList.drop (prefixLength test run)
    _ = (run.toList.drop (prefixLength test run)).dropWhile test := stop.symm
    _ = (run.toList.take (prefixLength test run) ++
          run.toList.drop (prefixLength test run)).dropWhile test :=
      (List.dropWhile_append_of_pos front).symm
    _ = run.toList.dropWhile test := by rw [List.take_append_drop]

/-- The element at the place that halving finds is the first one that fails the test. -/
theorem getElem?_prefixLength {test : α → Bool} {run : Array α}
    (closed : Closed test run.toList) :
    run[prefixLength test run]? = (run.toList.filter fun x => !test x).head? := by
  rw [← closed.dropWhile_eq_filter, ← drop_prefixLength closed, List.head?_drop,
    Array.getElem?_toList]

end

variable {α : Type} [Ord α]

/-- Whether the elements of a list ascend strictly. -/
def Ascending (run : List α) : Prop :=
  run.Pairwise fun earlier later => compare earlier later = .lt

/-- Whether no element of one list equals an element of another in the order. -/
def Apart (left right : List α) : Prop := ∀ a ∈ left, ∀ b ∈ right, compare a b ≠ .eq

/-- A part of an ascending run ascends. -/
theorem Ascending.filter {run : List α} (ascending : Ascending run) (test : α → Bool) :
    Ascending (run.filter test) :=
  List.Pairwise.filter test ascending

/-- A new element is placed among the others. -/
theorem place_perm {element : α} {run : List α} (new : ∀ x ∈ run, compare element x ≠ .eq) :
    (place element run).Perm (element :: run) := by
  induction run with
  | nil => exact .refl _
  | cons head rest ih =>
    rw [place]
    split
    · exact .refl _
    · rename_i equal
      exact absurd equal (new head List.mem_cons_self)
    · exact ((ih fun x member => new x (List.mem_cons_of_mem _ member)).cons head).trans
        (.swap element head rest)

/-- What is in a run after placing an element is that element or was there. -/
theorem mem_of_mem_place {element x : α} {run : List α} (member : x ∈ place element run) :
    x = element ∨ x ∈ run := by
  induction run with
  | nil => exact .inl (List.mem_singleton.mp member)
  | cons head rest ih =>
    rw [place] at member
    split at member
    · exact List.mem_cons.mp member
    · exact .inr member
    · rcases List.mem_cons.mp member with rfl | later
      · exact .inr List.mem_cons_self
      · exact (ih later).imp_right (List.mem_cons_of_mem _)

/-- Of each group of equal neighbours in a list in order, one is kept. -/
theorem mem_of_mem_distinct {x : α} {elements : List α} (member : x ∈ distinct elements) :
    x ∈ elements := by
  fun_induction distinct elements with
  | case1 => cases member
  | case2 head rest ih =>
    rcases List.mem_cons.mp member with rfl | later
    · exact List.mem_cons_self
    · exact List.mem_cons_of_mem _ ((List.dropWhile_sublist _).mem (ih later))

/-- What is in a run that is made of a list is in the list. -/
theorem mem_of_mem_ofList {x : α} {elements : List α} (member : x ∈ ofList elements) :
    x ∈ elements :=
  (List.mergeSort_perm elements _).mem_iff.mp (mem_of_mem_distinct member)

theorem nil_merge (run : List α) : merge [] run = run := by
  rw [merge]

theorem merge_nil (run : List α) : merge run [] = run := by
  cases run with
  | nil => exact nil_merge []
  | cons head rest =>
    rw [merge]
    exact List.cons_ne_nil head rest

/-- Runs that are apart are interleaved by merging them. -/
theorem interleave_eq_merge {left right : List α} (apart : Apart left right) :
    interleave left right = merge left right := by
  fun_induction merge left right with
  | case1 right => exact List.nil_merge right
  | case2 left => exact List.merge_right left
  | case3 a left b right less ih =>
    rw [← ih fun x inside => apart x (List.mem_cons_of_mem a inside)]
    exact List.cons_merge_cons_pos _ _ _ (by rw [less]; rfl)
  | case4 a left b right equal =>
    exact absurd equal (apart a List.mem_cons_self b List.mem_cons_self)
  | case5 a left b right greater ih =>
    rw [← ih fun x inside y among => apart x inside y (List.mem_cons_of_mem b among)]
    exact List.cons_merge_cons_neg _ _ _ (by rw [greater]; exact Bool.false_ne_true)

variable [Std.TransOrd α]

/-- No element of an ascending run comes twice. -/
theorem Ascending.nodup {run : List α} (ascending : Ascending run) : run.Nodup := by
  apply ascending.imp
  rintro a _ less rfl
  exact Std.OrientedCmp.not_lt_of_lt less less

/-- An ascending run is determined by its elements. -/
theorem Ascending.eq_of_mem_iff {left right : List α} (ascending : Ascending left)
    (other : Ascending right) (same : ∀ x, x ∈ left ↔ x ∈ right) : left = right := by
  apply List.Perm.eq_of_pairwise _ ascending other
  · exact (List.perm_ext_iff_of_nodup ascending.nodup other.nodup).mpr same
  · intro a b _ _ less greater
    exact absurd greater (Std.OrientedCmp.not_lt_of_lt less)

/-- Placing an element keeps a run ascending. -/
theorem ascending_place {run : List α} (element : α) (ascending : Ascending run) :
    Ascending (place element run) := by
  induction run with
  | nil => exact List.pairwise_singleton _ _
  | cons head rest ih =>
    obtain ⟨below, tail⟩ := List.pairwise_cons.mp ascending
    rw [place]
    split
    · rename_i less
      refine List.pairwise_cons.mpr ⟨fun x member => ?_, ascending⟩
      rcases List.mem_cons.mp member with rfl | later
      · exact less
      · exact Std.TransCmp.lt_trans less (below x later)
    · exact ascending
    · rename_i greater
      refine List.pairwise_cons.mpr ⟨fun x member => ?_, ih tail⟩
      rcases mem_of_mem_place member with rfl | before
      · exact Std.OrientedCmp.lt_of_gt greater
      · exact below x before

/-- What is below the first element of an ascending run is below all of them. -/
theorem Ascending.lt_of_lt_head {x head : α} {rest : List α} (ascending : Ascending (head :: rest))
    (less : compare x head = .lt) : ∀ y ∈ head :: rest, compare x y = .lt := by
  intro y member
  rcases List.mem_cons.mp member with rfl | later
  · exact less
  · exact Std.TransCmp.lt_trans less ((List.pairwise_cons.mp ascending).1 y later)

/-- A merged run has the elements of the second run, and those of the first that equal none of
them. -/
theorem mem_merge {left right : List α} (first : Ascending left) (second : Ascending right)
    {x : α} : x ∈ merge left right ↔
      x ∈ right ∨ x ∈ left ∧ ∀ y ∈ right, compare x y ≠ .eq := by
  fun_induction merge left right with
  | case1 right => simp only [List.not_mem_nil, false_and, or_false]
  | case2 left => simp only [List.not_mem_nil, false_or, false_imp_iff, implies_true, and_true]
  | case3 a left b right less ih =>
    have below := second.lt_of_lt_head less
    rw [List.mem_cons, ih (List.pairwise_cons.mp first).2 second, List.mem_cons (a := x) (b := a)]
    constructor
    · rintro (rfl | inside | ⟨member, apart⟩)
      · refine .inr ⟨.inl rfl, fun y among equal => ?_⟩
        cases (below y among).symm.trans equal
      · exact .inl inside
      · exact .inr ⟨.inr member, apart⟩
    · rintro (inside | ⟨rfl | member, apart⟩)
      · exact .inr (.inl inside)
      · exact .inl rfl
      · exact .inr (.inr ⟨member, apart⟩)
  | case4 a left b right equal ih =>
    obtain ⟨below, tail⟩ := List.pairwise_cons.mp first
    rw [List.mem_cons, ih tail (List.pairwise_cons.mp second).2, List.mem_cons (a := x) (b := b),
      List.mem_cons (a := x) (b := a)]
    constructor
    · rintro (rfl | inside | ⟨member, apart⟩)
      · exact .inl (.inl rfl)
      · exact .inl (.inr inside)
      · refine .inr ⟨.inr member, List.forall_mem_cons.mpr ⟨fun same => ?_, apart⟩⟩
        have less := Std.TransCmp.lt_of_lt_of_eq (below x member) same
        cases less.symm.trans equal
    · rintro ((rfl | inside) | ⟨rfl | member, apart⟩)
      · exact .inl rfl
      · exact .inr (.inl inside)
      · exact absurd equal (apart b List.mem_cons_self)
      · exact .inr (.inr ⟨member, (List.forall_mem_cons.mp apart).2⟩)
  | case5 a left b right greater ih =>
    have below := first.lt_of_lt_head (Std.OrientedCmp.lt_of_gt greater)
    rw [List.mem_cons, ih first (List.pairwise_cons.mp second).2, List.mem_cons (a := x) (b := b)]
    constructor
    · rintro (rfl | inside | ⟨member, apart⟩)
      · exact .inl (.inl rfl)
      · exact .inl (.inr inside)
      · refine .inr ⟨member, List.forall_mem_cons.mpr ⟨fun same => ?_, apart⟩⟩
        cases (below x member).symm.trans (Std.OrientedCmp.eq_comm.mp same)
    · rintro ((rfl | inside) | ⟨member, apart⟩)
      · exact .inl rfl
      · exact .inr (.inl inside)
      · exact .inr (.inr ⟨member, (List.forall_mem_cons.mp apart).2⟩)

/-- Merged runs ascend. -/
theorem ascending_merge {left right : List α} (first : Ascending left)
    (second : Ascending right) : Ascending (merge left right) := by
  fun_induction merge left right with
  | case1 right => exact second
  | case2 left => exact first
  | case3 a left b right less ih =>
    obtain ⟨below, tail⟩ := List.pairwise_cons.mp first
    refine List.pairwise_cons.mpr ⟨fun x member => ?_, ih tail second⟩
    rcases (mem_merge tail second).mp member with inside | ⟨inside, _⟩
    · exact second.lt_of_lt_head less x inside
    · exact below x inside
  | case4 a left b right equal ih =>
    obtain ⟨below, tail⟩ := List.pairwise_cons.mp first
    obtain ⟨behind, later⟩ := List.pairwise_cons.mp second
    refine List.pairwise_cons.mpr ⟨fun x member => ?_, ih tail later⟩
    rcases (mem_merge tail later).mp member with inside | ⟨inside, _⟩
    · exact behind x inside
    · exact Std.TransCmp.lt_of_eq_of_lt (Std.OrientedCmp.eq_comm.mp equal) (below x inside)
  | case5 a left b right greater ih =>
    obtain ⟨behind, later⟩ := List.pairwise_cons.mp second
    refine List.pairwise_cons.mpr ⟨fun x member => ?_, ih first later⟩
    rcases (mem_merge first later).mp member with inside | ⟨inside, _⟩
    · exact behind x inside
    · exact first.lt_of_lt_head (Std.OrientedCmp.lt_of_gt greater) x inside

/-- The elements of runs that are apart are all in the merged run. -/
theorem mem_merge_of_apart {left right : List α} (first : Ascending left)
    (second : Ascending right) (apart : Apart left right) {x : α} :
    x ∈ merge left right ↔ x ∈ left ∨ x ∈ right := by
  rw [mem_merge first second, or_comm]
  exact or_congr_left (and_iff_left_of_imp fun inside => apart x inside)

/-- Runs without equal elements have as many elements together when they are merged. -/
theorem length_merge {left right : List α} (first : Ascending left) (second : Ascending right)
    (apart : Apart left right) : (merge left right).length = left.length + right.length := by
  have disjoint : ∀ x ∈ left, ∀ y ∈ right, x ≠ y := by
    rintro x inside _ among rfl
    exact apart x inside x among Std.ReflCmp.compare_self
  have perm : (merge left right).Perm (left ++ right) := by
    apply (List.perm_ext_iff_of_nodup (ascending_merge first second).nodup
      (List.nodup_append.mpr ⟨first.nodup, second.nodup, disjoint⟩)).mpr
    intro x
    rw [mem_merge_of_apart first second apart, List.mem_append]
  rw [perm.length_eq, List.length_append]

/-- An element that is left out is equal to one that stays. -/
theorem exists_mem_distinct {x : α} {elements : List α} (member : x ∈ elements) :
    ∃ y ∈ distinct elements, compare x y = .eq := by
  fun_induction distinct elements with
  | case1 => cases member
  | case2 head rest ih =>
    by_cases equal : compare x head = .eq
    · exact ⟨head, List.mem_cons_self, equal⟩
    · have later : x ∈ rest := by
        rcases List.mem_cons.mp member with rfl | later
        · exact absurd Std.ReflCmp.compare_self equal
        · exact later
      have left : x ∈ rest.dropWhile fun next => compare head next == .eq := by
        rw [← List.takeWhile_append_dropWhile (p := fun next => compare head next == .eq)
          (l := rest)] at later
        rcases List.mem_append.mp later with front | behind
        · have same := List.mem_takeWhile_imp (p := fun next => compare head next == .eq) front
          exact absurd (Std.OrientedCmp.eq_comm.mp (beq_iff_eq.mp same)) equal
        · exact behind
      obtain ⟨y, kept, same⟩ := ih left
      exact ⟨y, List.mem_cons_of_mem _ kept, same⟩

/-- A list in order ascends when repeated elements are left out. -/
theorem ascending_distinct {elements : List α}
    (ordered : elements.Pairwise fun a b => (compare a b).isLE = true) :
    Ascending (distinct elements) := by
  fun_induction distinct elements with
  | case1 => exact List.Pairwise.nil
  | case2 head rest ih =>
    obtain ⟨below, tail⟩ := List.pairwise_cons.mp ordered
    have left := tail.sublist (List.dropWhile_sublist fun next => compare head next == .eq)
    refine List.pairwise_cons.mpr ⟨fun x member => ?_, ih left⟩
    have behind := mem_of_mem_distinct member
    -- the first element left is above the head, and all later ones are not below it
    cases rest' : rest.dropWhile fun next => compare head next == .eq with
    | nil =>
      rw [rest'] at behind
      cases behind
    | cons first others =>
      rw [rest'] at behind left
      have unlike := List.head_dropWhile_not (fun next => compare head next == .eq)
        (l := rest) (by rw [rest']; exact List.cons_ne_nil _ _)
      simp only [rest', List.head_cons] at unlike
      have inside : first ∈ rest := by
        apply (List.dropWhile_sublist fun next => compare head next == .eq).mem
        rw [rest']
        exact List.mem_cons_self
      have above : compare head first = .lt := by
        have under := below first inside
        revert under unlike
        cases compare head first <;> decide
      rcases List.mem_cons.mp behind with rfl | later
      · exact above
      · exact Std.TransCmp.lt_of_lt_of_isLE above ((List.pairwise_cons.mp left).1 x later)

/-- The run of a list ascends and has its elements up to equality in the order. -/
theorem ascending_ofList (elements : List α) : Ascending (ofList elements) := by
  apply ascending_distinct
  apply List.pairwise_mergeSort
  · intro a b c
    exact Std.TransCmp.isLE_trans
  · intro a b
    rw [Bool.or_eq_true, or_iff_not_imp_left]
    intro above
    exact Ordering.isLE_of_eq_lt (Std.OrientedCmp.lt_of_not_isLE above)

/-- An element of a list is equal to one of the run that is made of it. -/
theorem exists_mem_ofList {x : α} {elements : List α} (member : x ∈ elements) :
    ∃ y ∈ ofList elements, compare x y = .eq :=
  exists_mem_distinct ((List.mergeSort_perm elements _).mem_iff.mpr member)

end AtomStore.Run
