import AtomStore.Proofs.TieredSet.Growth
import Mathlib.Data.Finset.Sort
import Mathlib.Data.Finset.Union
import Mathlib.Order.Bounds.Basic
import Mathlib.Order.Compare

/-!
# Sets in two tiers as plain finite sets

A plain set is a finite set with what a bulk load has collected so far. A set in two tiers goes
through the same changes as a plain set, whatever its threshold, and answers every query as the
finite set does.
-/

namespace AtomStore

/-- What can be done to a set. -/
inductive SetChange (α : Type) where
  | add (element : α)
  | startLoading
  | stopLoading

/-- The addition of elements one by one. -/
def SetChange.additions {α : Type} (elements : List α) : List (SetChange α) := elements.map .add

/-- The addition of elements in a bulk load. -/
def SetChange.load {α : Type} (elements : List α) : List (SetChange α) :=
  [.startLoading] ++ additions elements ++ [.stopLoading]

/-- A finite set and, during a bulk load, the elements that it takes in when the load ends. -/
structure PlainSet (α : Type) where
  contents : Finset α := ∅
  collected : Option (Finset α) := none

/-- A set after a change. -/
def TieredSet.change {α : Type} [Ord α] (set : TieredSet α) : SetChange α → TieredSet α
  | .add element => (set.add element).2
  | .startLoading => set.startLoading
  | .stopLoading => set.stopLoading

/-- A set after a series of changes. -/
def TieredSet.changed {α : Type} [Ord α] (set : TieredSet α) (changes : List (SetChange α)) :
    TieredSet α :=
  changes.foldl change set

variable {α : Type} [LinearOrder α]

namespace PlainSet

/-- A plain set after a change. -/
def change (plain : PlainSet α) : SetChange α → PlainSet α
  | .add element =>
    match plain.collected with
    | some collected => { plain with collected := some (insert element collected) }
    | none => { plain with contents := insert element plain.contents }
  | .startLoading => { plain with collected := plain.collected.or (some ∅) }
  | .stopLoading => ⟨plain.contents ∪ plain.collected.getD ∅, none⟩

/-- A plain set after a series of changes. -/
def changed (plain : PlainSet α) (changes : List (SetChange α)) : PlainSet α :=
  changes.foldl change plain

/-- Changes in a row may be made in two parts. -/
theorem changed_append (plain : PlainSet α) (first second : List (SetChange α)) :
    plain.changed (first ++ second) = (plain.changed first).changed second :=
  List.foldl_append

/-- Outside a bulk load elements are taken in at once. -/
theorem changed_add_of_idle {plain : PlainSet α} (idle : plain.collected = none)
    (elements : List α) :
    plain.changed (SetChange.additions elements) = ⟨plain.contents ∪ elements.toFinset, none⟩ := by
  induction elements generalizing plain with
  | nil =>
    rw [List.toFinset_nil, Finset.union_empty, ← idle]
    rfl
  | cons element rest ih =>
    have next : plain.change (.add element) = ⟨insert element plain.contents, none⟩ := by
      rw [change, idle]
    rw [SetChange.additions, List.map_cons, changed, List.foldl_cons, ← changed, next,
      ← SetChange.additions, ih rfl, List.toFinset_cons, Finset.insert_union, Finset.union_insert]

/-- During a bulk load elements are collected. -/
theorem changed_add_of_loading {plain : PlainSet α} {collected : Finset α}
    (loading : plain.collected = some collected) (elements : List α) :
    plain.changed (SetChange.additions elements) =
      ⟨plain.contents, some (collected ∪ elements.toFinset)⟩ := by
  induction elements generalizing plain collected with
  | nil =>
    rw [List.toFinset_nil, Finset.union_empty, ← loading]
    rfl
  | cons element rest ih =>
    have next : plain.change (.add element) =
        ⟨plain.contents, some (insert element collected)⟩ := by
      rw [change, loading]
    rw [SetChange.additions, List.map_cons, changed, List.foldl_cons, ← changed, next,
      ← SetChange.additions, ih rfl, List.toFinset_cons, Finset.insert_union, Finset.union_insert]

/-- A bulk load ends with the same contents as single additions. -/
theorem contents_changed_load {plain : PlainSet α} (idle : plain.collected = none)
    (elements : List α) :
    (plain.changed (SetChange.load elements)).contents =
      (plain.changed (SetChange.additions elements)).contents := by
  have loading : (plain.changed [.startLoading]).collected = some ∅ := by
    change plain.collected.or _ = _
    rw [idle]
    rfl
  rw [changed_add_of_idle idle, SetChange.load, changed_append, changed_append,
    changed_add_of_loading loading, Finset.empty_union]
  rfl

end PlainSet

namespace TieredSet

/-- Whether a set answers every query as a finite set does. -/
structure Represents (set : TieredSet α) (contents : Finset α) : Prop where
  contains_iff : ∀ element, set.contains element = true ↔ element ∈ contents
  size_eq : set.size = contents.card
  isEmpty_iff : set.isEmpty = true ↔ contents = ∅
  first?_eq_some_iff : ∀ element, set.first? = some element ↔ IsLeast ↑contents element
  last?_eq_some_iff : ∀ element, set.last? = some element ↔ IsGreatest ↑contents element
  ceiling?_eq_some_iff : ∀ lower element, set.ceiling? lower = some element ↔
    IsLeast {x | x ∈ contents ∧ lower ≤ x} element
  toList_eq : set.toList = contents.sort
  listFrom_eq : ∀ lower, set.listFrom lower = (contents.filter (lower ≤ ·)).sort

/-- Whether two sets answer every query alike. -/
structure Alike (left right : TieredSet α) : Prop where
  contains_eq : ∀ element, left.contains element = right.contains element
  size_eq : left.size = right.size
  isEmpty_eq : left.isEmpty = right.isEmpty
  first?_eq : left.first? = right.first?
  last?_eq : left.last? = right.last?
  ceiling?_eq : ∀ lower, left.ceiling? lower = right.ceiling? lower
  toList_eq : left.toList = right.toList
  listFrom_eq : ∀ lower, left.listFrom lower = right.listFrom lower

/-- Whether a set has the runs, the answers and the state of loading that belong to a plain set, and
a short run within a bound. -/
structure Mirrors (set : TieredSet α) (bound : Nat) (plain : PlainSet α) : Prop where
  settled_lt : set.settled.toList.Pairwise (· < ·)
  disjoint : ∀ element ∈ set.settled.toList, element ∉ set.recent
  length_recent_le : set.recent.length ≤ bound
  represents : set.Represents plain.contents
  isSome_loading : set.loading.isSome = plain.collected.isSome
  add_iff : ∀ element, (set.add element).1 = true ↔
    plain.collected.isSome = true ∨ element ∉ plain.contents

/-- A finite set listed in order ascends. -/
theorem ascending_sort (contents : Finset α) : Run.Ascending contents.sort :=
  (Finset.sortedLT_sort contents).pairwise.imp compare_lt_iff_lt.mpr

/-- Comparing tells the order. -/
theorem isLE_compare_iff {x y : α} : (compare x y).isLE = true ↔ x ≤ y :=
  Ordering.isLE_iff_ne_gt.trans compare_le_iff_le

/-- An element that is not below a bound is not less than it. -/
theorem not_isLT_compare_iff {x lower : α} : (!(compare x lower).isLT) = true ↔ lower ≤ x := by
  rw [Bool.not_eq_true', ← Bool.not_eq_true, Ordering.isLT_iff_eq_lt]
  exact compare_ge_iff_ge

/-- A well-formed set with the elements of a finite set answers as that one. -/
theorem Valid.represents {set : TieredSet α} {contents : Finset α} (valid : set.Valid)
    (same : ∀ element, element ∈ set.toList ↔ element ∈ contents) : set.Represents contents := by
  have sorted : set.toList = contents.sort := by
    apply valid.ascending_toList.eq_of_mem_iff (ascending_sort contents)
    intro x
    rw [same, Finset.mem_sort]
  refine ⟨?_, ?_, ?_, ?_, ?_, ?_, sorted, ?_⟩
  · intro element
    rw [valid.contains_iff, ← same]
    constructor
    · rintro ⟨x, member, equal⟩
      rw [← compare_eq_iff_eq.mp equal]
      exact member
    · intro member
      exact ⟨element, member, compare_eq_iff_eq.mpr rfl⟩
  · rw [valid.size_eq, sorted, Finset.length_sort]
  · rw [valid.isEmpty_iff, List.eq_nil_iff_forall_not_mem, Finset.eq_empty_iff_forall_notMem]
    exact forall_congr' fun x => not_congr (same x)
  · intro element
    rw [valid.first?_eq, valid.ascending_toList.head?_eq_some_iff, same]
    refine and_congr_right' (forall_congr' fun x => ?_)
    rw [same, isLE_compare_iff]
    rfl
  · intro element
    rw [valid.last?_eq, valid.ascending_toList.getLast?_eq_some_iff, same]
    refine and_congr_right' (forall_congr' fun x => ?_)
    rw [same, isLE_compare_iff]
    rfl
  · intro lower element
    rw [valid.ceiling?_eq, (valid.ascending_toList.filter _).head?_eq_some_iff, List.mem_filter,
      not_isLT_compare_iff, same]
    refine and_congr_right' (forall_congr' fun x => ?_)
    rw [List.mem_filter, not_isLT_compare_iff, same, isLE_compare_iff]
    rfl
  · intro lower
    rw [valid.listFrom_eq]
    apply (valid.ascending_toList.filter _).eq_of_mem_iff (ascending_sort _)
    intro x
    rw [List.mem_filter, not_isLT_compare_iff, same, Finset.mem_sort, Finset.mem_filter]

/-- Sets that represent one finite set cannot be told apart by queries. -/
theorem Represents.alike {left right : TieredSet α} {contents : Finset α}
    (first : left.Represents contents) (second : right.Represents contents) :
    left.Alike right := by
  refine ⟨fun element => ?_, ?_, ?_, ?_, ?_, fun lower => ?_, ?_, fun lower => ?_⟩
  · rw [Bool.eq_iff_iff, first.contains_iff, second.contains_iff]
  · rw [first.size_eq, second.size_eq]
  · rw [Bool.eq_iff_iff, first.isEmpty_iff, second.isEmpty_iff]
  · ext element
    exact (first.first?_eq_some_iff element).trans (second.first?_eq_some_iff element).symm
  · ext element
    exact (first.last?_eq_some_iff element).trans (second.last?_eq_some_iff element).symm
  · ext element
    exact (first.ceiling?_eq_some_iff lower element).trans
      (second.ceiling?_eq_some_iff lower element).symm
  · rw [first.toList_eq, second.toList_eq]
  · rw [first.listFrom_eq, second.listFrom_eq]

/-- Whether a well-formed set has come as far as a plain set. -/
structure Tracks (set : TieredSet α) (plain : PlainSet α) : Prop where
  valid : set.Valid
  mem_iff : ∀ element, element ∈ set.toList ↔ element ∈ plain.contents
  collected_eq : set.loading.map (fun collected => collected.toList.toFinset) = plain.collected

namespace Tracks

variable {set : TieredSet α} {plain : PlainSet α}

/-- A bulk load is going on in both sets or in neither. -/
theorem loading_eq_none_iff (tracks : set.Tracks plain) :
    set.loading = none ↔ plain.collected = none := by
  rw [← tracks.collected_eq, Option.map_eq_none_iff]

/-- What a set takes in, a finite set takes in by union. -/
theorem of_takes {added : List α} {next : TieredSet α} (tracks : set.Tracks plain)
    (takes : set.Takes added next) :
    next.Tracks ⟨plain.contents ∪ added.toFinset, none⟩ := by
  refine ⟨takes.valid, fun element => ?_, by rw [takes.idle]; rfl⟩
  rw [takes.absorbs.mem_iff fun _ _ _ _ => compare_eq_iff_eq.mp, tracks.mem_iff,
    Finset.mem_union, List.mem_toFinset]

/-- One change keeps a set in step with a plain one. -/
theorem change (tracks : set.Tracks plain) (change : SetChange α) :
    (set.change change).Tracks (plain.change change) ∧
      (set.change change).threshold = set.threshold := by
  have same := tracks.collected_eq
  cases change with
  | add element =>
    rw [TieredSet.change, PlainSet.change]
    cases loading : set.loading with
    | none =>
      have takes := (tracks.valid.add loading element).2
      rw [← same, loading]
      refine ⟨?_, takes.threshold_eq⟩
      have next := tracks.of_takes takes
      rw [Finset.union_comm, List.toFinset_cons, List.toFinset_nil, Finset.insert_union,
        Finset.empty_union] at next
      exact next
    | some collected =>
      rw [← same, loading, add_of_loading loading]
      refine ⟨⟨?_, tracks.mem_iff, ?_⟩, rfl⟩
      · exact ⟨tracks.valid.settled_ascending, tracks.valid.recent_ascending, tracks.valid.apart,
          tracks.valid.bounded⟩
      · change some (collected.push element).toList.toFinset = _
        rw [Array.toList_push, List.toFinset_append, List.toFinset_cons, List.toFinset_nil,
          Finset.union_comm, Finset.insert_union, Finset.empty_union]
        rfl
  | startLoading =>
    refine ⟨⟨tracks.valid.startLoading, tracks.mem_iff, ?_⟩, rfl⟩
    rw [PlainSet.change, ← same]
    cases loading : set.loading with
    | none =>
      rw [TieredSet.change, TieredSet.startLoading, loading]
      rfl
    | some collected =>
      rw [TieredSet.change, TieredSet.startLoading, loading]
      rfl
  | stopLoading =>
    rw [TieredSet.change, PlainSet.change]
    cases loading : set.loading with
    | none =>
      rw [stopLoading, loading, ← same, loading]
      refine ⟨⟨tracks.valid, fun element => ?_, by rw [loading]; rfl⟩, rfl⟩
      rw [tracks.mem_iff]
      exact (Finset.ext_iff.mp (Finset.union_empty plain.contents) element).symm
    | some collected =>
      have takes := tracks.valid.takes_stopLoading loading
      rw [← same, loading]
      exact ⟨tracks.of_takes takes, takes.threshold_eq⟩

/-- A series of changes keeps a set in step with a plain one. -/
theorem changed (tracks : set.Tracks plain) (changes : List (SetChange α)) :
    (set.changed changes).Tracks (plain.changed changes) ∧
      (set.changed changes).threshold = set.threshold := by
  induction changes generalizing set plain with
  | nil => exact ⟨tracks, rfl⟩
  | cons change rest ih =>
    obtain ⟨next, threshold⟩ := tracks.change change
    obtain ⟨last, same⟩ := ih next
    exact ⟨last, same.trans threshold⟩

/-- A set in step with a plain one has its contents. -/
theorem represents (tracks : set.Tracks plain) : set.Represents plain.contents :=
  tracks.valid.represents tracks.mem_iff

/-- A set in step with a plain one answers like it. -/
theorem mirrors (tracks : set.Tracks plain) : set.Mirrors set.threshold plain := by
  have valid := tracks.valid
  refine ⟨valid.settled_ascending.imp compare_lt_iff_lt.mp, fun element inside among => ?_,
    valid.bounded, tracks.represents, ?_, fun element => ?_⟩
  · exact valid.apart element inside element among (compare_eq_iff_eq.mpr rfl)
  · rw [← tracks.collected_eq, Option.isSome_map]
  · cases loading : set.loading with
    | none =>
      rw [(valid.add loading element).1, tracks.loading_eq_none_iff.mp loading, Bool.not_eq_true',
        ← Bool.not_eq_true, tracks.represents.contains_iff]
      exact (or_iff_right Bool.false_ne_true).symm
    | some collected =>
      rw [add_of_loading loading, ← tracks.collected_eq, loading]
      exact iff_of_true rfl (.inl rfl)

end Tracks

/-- A new set is in step with the empty one. -/
theorem tracks_withThreshold (threshold : Nat) :
    (withThreshold threshold : TieredSet α).Tracks {} := by
  refine ⟨valid_withThreshold threshold, fun element => ?_, rfl⟩
  rw [toList_withThreshold]
  exact iff_of_false List.not_mem_nil (Finset.notMem_empty element)

/-- After any changes a set mirrors the plain set that has gone through the same ones. So its
answers depend neither on its threshold nor on whether elements come one by one or in a bulk
load. -/
theorem changed_mirrors (threshold : Nat) (changes : List (SetChange α)) :
    ((withThreshold threshold).changed changes).Mirrors (max threshold 1)
        (PlainSet.changed {} changes) ∧
      ∀ other, ((withThreshold threshold).changed changes).Alike
          ((withThreshold other).changed changes) ∧
        ((PlainSet.changed {} changes).collected = none → ∀ elements : List α,
          ((withThreshold threshold).changed (changes ++ SetChange.load elements)).Alike
            ((withThreshold other).changed (changes ++ SetChange.additions elements))) := by
  have tracks (bound : Nat) (changes : List (SetChange α)) :=
    (tracks_withThreshold bound).changed changes
  obtain ⟨tracked, same⟩ := tracks threshold changes
  refine ⟨?_, fun other => ⟨?_, fun idle elements => ?_⟩⟩
  · have mirrors := tracked.mirrors
    rw [same] at mirrors
    exact mirrors
  · exact tracked.represents.alike (tracks other changes).1.represents
  · have loaded := (tracks threshold (changes ++ SetChange.load elements)).1.represents
    have added := (tracks other (changes ++ SetChange.additions elements)).1.represents
    rw [PlainSet.changed_append, PlainSet.contents_changed_load idle,
      ← PlainSet.changed_append] at loaded
    exact loaded.alike added

end TieredSet
end AtomStore
