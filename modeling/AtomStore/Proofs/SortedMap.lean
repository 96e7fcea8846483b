import AtomStore.SortedMap
import Mathlib.Data.List.Basic
import Mathlib.Data.List.Pairwise

/-!
# Laws of finite maps

What a key is bound to after a binding is added or left out or the values are changed, how bindings
and lookups determine each other, and which map a list of bindings gives: one whose keys ascend is
kept as it is.
-/

namespace AtomStore.SortedMap

variable {κ ν : Type} [Ord κ]

section
variable {ω : Type}

/-- The map with every value changed in the same way. -/
def mapValues (change : ν → ω) (map : SortedMap κ ν) : SortedMap κ ω :=
  ⟨map.entries.map (Prod.map id change), map.ascending.map _ fun _ _ less => less⟩

/-- Changing all values changes the one that is found. -/
theorem lookup_map (change : ν → ω) (key : κ) (bindings : List (κ × ν)) :
    lookup key (bindings.map (Prod.map id change)) = (lookup key bindings).map change := by
  induction bindings with
  | nil => rfl
  | cons head rest ih =>
    rw [List.map_cons, lookup, lookup, ih, apply_ite (Option.map change)]
    rfl

/-- The value of a key in a map with changed values. -/
@[simp] theorem get?_mapValues (change : ν → ω) (map : SortedMap κ ν) (key : κ) :
    (map.mapValues change).get? key = (map.get? key).map change :=
  lookup_map change key map.entries

theorem mapValues_id (map : SortedMap κ ν) : map.mapValues id = map := by
  apply eq_of_entries
  change map.entries.map (Prod.map id id) = map.entries
  rw [Prod.map_id, List.map_id]

/-- Placing a binding and changing all values can be done in either order. -/
theorem place_map (change : ν → ω) (key : κ) (value : ν) (bindings : List (κ × ν)) :
    place key (change value) (bindings.map (Prod.map id change)) =
      (place key value bindings).map (Prod.map id change) := by
  induction bindings with
  | nil => rfl
  | cons head rest ih =>
    simp only [List.map_cons, place, Prod.map_fst, id_eq]
    cases compare key head.1 with
    | lt => rfl
    | eq => rfl
    | gt => exact congrArg (Prod.map id change head :: ·) ih

/-- Binding a key and changing all values can be done in either order. -/
theorem mapValues_insert [Std.TransOrd κ] (change : ν → ω) (map : SortedMap κ ν) (key : κ)
    (value : ν) :
    (map.insert key value).mapValues change = (map.mapValues change).insert key (change value) :=
  eq_of_entries (place_map change key value map.entries).symm

end

theorem without_cons (key : κ) (head : κ × ν) (rest : List (κ × ν)) :
    without key (head :: rest) =
      if compare key head.1 = .eq then without key rest else head :: without key rest := by
  by_cases same : compare key head.1 = .eq
  · simp only [without, List.filter_cons, same, bne_self_eq_false, Bool.false_eq_true, ↓reduceIte]
  · simp only [without, List.filter_cons, bne_iff_ne, ne_eq, same, not_false_eq_true, ↓reduceIte]

/-- A key that is left out is not found. -/
theorem lookup_without_self (key : κ) (bindings : List (κ × ν)) :
    lookup key (without key bindings) = none := by
  induction bindings with
  | nil => rfl
  | cons head rest ih =>
    rw [without_cons]
    by_cases same : compare key head.1 = .eq
    · rw [if_pos same, ih]
    · rw [if_neg same, lookup, if_neg same, ih]

section
variable [Std.LawfulEqOrd κ]

/-- Placing a binding leaves what other keys are bound to. -/
theorem lookup_place_of_ne {key other : κ} (value : ν) (bindings : List (κ × ν))
    (different : other ≠ key) :
    lookup other (place key value bindings) = lookup other bindings := by
  have apart : compare other key ≠ .eq := fun same =>
    different (Std.LawfulEqCmp.eq_of_compare same)
  induction bindings with
  | nil => simp only [place, lookup, apart, ↓reduceIte]
  | cons head rest ih =>
    unfold place
    split
    · rw [lookup, if_neg apart]
    · rename_i same
      have equal : key = head.1 := Std.LawfulEqCmp.eq_of_compare same
      rw [lookup, if_neg apart, lookup, if_neg (equal ▸ apart)]
    · rw [lookup, lookup, ih]

/-- Leaving out a key leaves what other keys are bound to. -/
theorem lookup_without_of_ne {key other : κ} (bindings : List (κ × ν)) (different : other ≠ key) :
    lookup other (without key bindings) = lookup other bindings := by
  induction bindings with
  | nil => rfl
  | cons head rest ih =>
    rw [without_cons]
    by_cases same : compare key head.1 = .eq
    · have equal : key = head.1 := Std.LawfulEqCmp.eq_of_compare same
      have apart : compare other head.1 ≠ .eq := fun here =>
        different ((Std.LawfulEqCmp.eq_of_compare here).trans equal.symm)
      rw [if_pos same, ih, lookup, if_neg apart]
    · rw [if_neg same, lookup, lookup, ih]

/-- Unbinding a key leaves what the other keys are bound to. -/
theorem get?_erase [DecidableEq κ] (map : SortedMap κ ν) (key other : κ) :
    (map.erase key).get? other = if other = key then none else map.get? other := by
  by_cases same : other = key
  · rw [if_pos same, same]
    exact lookup_without_self key map.entries
  · rw [if_neg same]
    exact lookup_without_of_ne map.entries same

/-- Nothing is found for just the keys that are not bound. -/
theorem lookup_eq_none_iff {key : κ} {bindings : List (κ × ν)} :
    lookup key bindings = none ↔ key ∉ bindings.map Prod.fst := by
  induction bindings with
  | nil => simp only [lookup, List.map_nil, List.not_mem_nil, not_false_eq_true]
  | cons head rest ih =>
    rw [lookup, List.map_cons, List.mem_cons, not_or]
    by_cases same : compare key head.1 = .eq
    · have equal : key = head.1 := Std.LawfulEqCmp.eq_of_compare same
      rw [if_pos same]
      constructor
      · intro absent
        cases absent
      · intro apart
        exact absurd equal apart.1
    · have apart : key ≠ head.1 := fun equal => same (equal ▸ Std.ReflCmp.compare_self)
      rw [if_neg same, ih]
      exact ⟨fun absent => ⟨apart, absent⟩, fun absent => absent.2⟩

theorem get?_eq_none_iff {map : SortedMap κ ν} {key : κ} :
    map.get? key = none ↔ key ∉ map.keys :=
  lookup_eq_none_iff

/-- The keys of a map are those with a value. -/
theorem mem_keys_iff {map : SortedMap κ ν} {key : κ} :
    key ∈ map.keys ↔ ∃ value, map.get? key = some value := by
  rw [← Option.isSome_iff_exists, ← Option.not_isNone, Bool.not_eq_true', ← not_iff_not,
    Bool.not_eq_false, Option.isNone_iff_eq_none, get?_eq_none_iff]

end

section
variable [Std.TransOrd κ]

theorem ne_of_compare_lt {left right : κ} (less : compare left right = .lt) : left ≠ right := by
  rintro rfl
  have same : compare left left = .eq := Std.ReflCmp.compare_self
  rw [same] at less
  cases less

/-- No key is bound twice. -/
theorem nodup_keys (map : SortedMap κ ν) : map.keys.Nodup := by
  exact List.pairwise_map.mpr (map.ascending.imp ne_of_compare_lt)

/-- A binding whose key is above all others is placed behind them. -/
theorem place_eq_append {key : κ} {value : ν} {bindings : List (κ × ν)}
    (above : ∀ binding ∈ bindings, compare binding.1 key = .lt) :
    place key value bindings = bindings ++ [(key, value)] := by
  induction bindings with
  | nil => rfl
  | cons head rest ih =>
    have greater : compare key head.1 = .gt :=
      Std.OrientedCmp.gt_of_lt (above head List.mem_cons_self)
    rw [place, greater]
    simp only [List.cons_append, List.cons.injEq, true_and]
    apply ih
    intro binding member
    exact above binding (List.mem_cons_of_mem _ member)

/-- Binding ascending keys above those of a map puts their bindings behind its own. -/
theorem entries_foldl_insert {map : SortedMap κ ν} {bindings : List (κ × ν)}
    (ascending : (map.entries ++ bindings).Pairwise fun a b => compare a.1 b.1 = .lt) :
    (bindings.foldl (fun held binding => held.insert binding.1 binding.2) map).entries =
      map.entries ++ bindings := by
  induction bindings generalizing map with
  | nil => rw [List.foldl_nil, List.append_nil]
  | cons head rest ih =>
    have above : ∀ binding ∈ map.entries, compare binding.1 head.1 = .lt := by
      intro binding member
      exact (List.pairwise_append.mp ascending).2.2 binding member head List.mem_cons_self
    have placed : (map.insert head.1 head.2).entries = map.entries ++ [head] :=
      place_eq_append above
    have further : ((map.insert head.1 head.2).entries ++ rest).Pairwise
        fun a b => compare a.1 b.1 = .lt := by
      rw [placed, List.append_assoc]
      exact ascending
    rw [List.foldl_cons, ih further, placed, List.append_assoc]
    rfl

/-- A list with ascending keys is a map as it stands. -/
theorem entries_ofList {bindings : List (κ × ν)}
    (ascending : bindings.Pairwise fun a b => compare a.1 b.1 = .lt) :
    (ofList bindings).entries = bindings :=
  entries_foldl_insert (by exact ascending)

/-- A map is made anew of its own bindings. -/
theorem ofList_entries (map : SortedMap κ ν) : ofList map.entries = map :=
  eq_of_entries (entries_ofList map.ascending)

/-- Bindings with ascending keys that have the same members are the same. -/
theorem eq_of_mem_iff {left right : List (κ × ν)}
    (leftAscending : left.Pairwise fun a b => compare a.1 b.1 = .lt)
    (rightAscending : right.Pairwise fun a b => compare a.1 b.1 = .lt)
    (same : ∀ binding, binding ∈ left ↔ binding ∈ right) : left = right := by
  have distinct {bindings : List (κ × ν)}
      (ascending : bindings.Pairwise fun a b => compare a.1 b.1 = .lt) : bindings.Nodup := by
    apply ascending.imp
    intro earlier later less equal
    exact ne_of_compare_lt less (congrArg Prod.fst equal)
  have permuted : left.Perm right :=
    (List.perm_ext_iff_of_nodup (distinct leftAscending) (distinct rightAscending)).mpr same
  refine permuted.eq_of_pairwise ?_ leftAscending rightAscending
  intro a b _ _ less greater
  exact absurd (Std.OrientedCmp.gt_of_lt less) (by rw [greater]; exact Ordering.noConfusion)

end

variable [Std.TransOrd κ] [Std.LawfulEqOrd κ]

/-- Binding a key leaves what the other keys are bound to. -/
theorem get?_insert [DecidableEq κ] (map : SortedMap κ ν) (key other : κ) (value : ν) :
    (map.insert key value).get? other = if other = key then some value else map.get? other := by
  by_cases same : other = key
  · rw [if_pos same, same, get?_insert_self]
  · rw [if_neg same]
    exact lookup_place_of_ne value map.entries same

/-- Binding the distinct keys of a list overrides what a map holds of them. -/
theorem get?_foldl_insert [DecidableEq κ] (bindings : List (κ × ν))
    (distinct : (bindings.map Prod.fst).Nodup) (map : SortedMap κ ν) (key : κ) :
    (bindings.foldl (fun held binding => held.insert binding.1 binding.2) map).get? key =
      (lookup key bindings).or (map.get? key) := by
  induction bindings generalizing map with
  | nil => rfl
  | cons binding rest ih =>
    obtain ⟨apart, distinct⟩ := List.nodup_cons.mp distinct
    rw [List.foldl_cons, ih distinct, get?_insert, lookup]
    by_cases same : key = binding.1
    · have absent : lookup key rest = none := by
        rw [lookup_eq_none_iff, same]
        exact apart
      rw [absent, if_pos same, same, if_pos Std.ReflCmp.compare_self]
      rfl
    · have unlike : compare key binding.1 ≠ .eq := fun equal =>
        same (Std.LawfulEqCmp.eq_of_compare equal)
      rw [if_neg same, if_neg unlike]

/-- A value is found for a key just when the two are a binding of the list. -/
theorem lookup_eq_some_iff {key : κ} {value : ν} {bindings : List (κ × ν)}
    (ascending : bindings.Pairwise fun a b => compare a.1 b.1 = .lt) :
    lookup key bindings = some value ↔ (key, value) ∈ bindings := by
  induction bindings with
  | nil => simp only [lookup, List.not_mem_nil, reduceCtorEq]
  | cons head rest ih =>
    obtain ⟨below, tail⟩ := List.pairwise_cons.mp ascending
    rw [lookup, List.mem_cons]
    by_cases same : compare key head.1 = .eq
    · have equal : key = head.1 := Std.LawfulEqCmp.eq_of_compare same
      rw [if_pos same, Option.some.injEq]
      constructor
      · intro found
        exact Or.inl (Prod.ext equal found.symm)
      · rintro (first | later)
        · rw [← first]
        · exact absurd equal.symm (ne_of_compare_lt (below _ later))
    · rw [if_neg same, ih tail]
      constructor
      · exact Or.inr
      · rintro (first | later)
        · exact absurd (by rw [← first]; exact Std.ReflCmp.compare_self) same
        · exact later

/-- A key has a value just when the two are a binding of the map. -/
theorem get?_eq_some_iff {map : SortedMap κ ν} {key : κ} {value : ν} :
    map.get? key = some value ↔ (key, value) ∈ map.entries :=
  lookup_eq_some_iff map.ascending

/-- Binding a key adds it to the keys. -/
theorem mem_keys_insert [DecidableEq κ] {map : SortedMap κ ν} {key other : κ} {value : ν} :
    other ∈ (map.insert key value).keys ↔ other = key ∨ other ∈ map.keys := by
  rw [mem_keys_iff, mem_keys_iff]
  by_cases same : other = key
  · simp only [same, get?_insert_self, Option.some.injEq, exists_eq', true_or]
  · simp only [get?_insert, same, ↓reduceIte, false_or]

/-- What a map made of a list binds is in the list. -/
theorem mem_of_get?_ofList [DecidableEq κ] {bindings : List (κ × ν)} {key : κ} {value : ν}
    (bound : (ofList bindings).get? key = some value) : (key, value) ∈ bindings := by
  have grown (later : List (κ × ν)) (held : SortedMap κ ν)
      (found : (later.foldl (fun held binding => held.insert binding.1 binding.2) held).get? key =
        some value) : (key, value) ∈ later ∨ held.get? key = some value := by
    induction later generalizing held with
    | nil => exact .inr found
    | cons binding rest ih =>
      rcases ih _ found with inside | before
      · exact .inl (List.mem_cons_of_mem _ inside)
      · rw [get?_insert] at before
        split at before
        · rename_i same
          cases before
          exact .inl (same ▸ List.mem_cons_self)
        · exact .inr before
  rcases grown bindings .empty bound with inside | before
  · exact inside
  · rw [get?_empty] at before
    cases before

/-- Maps with the same values are the same. -/
theorem ext_get? {left right : SortedMap κ ν} (same : ∀ key, left.get? key = right.get? key) :
    left = right := by
  apply eq_of_entries
  apply eq_of_mem_iff left.ascending right.ascending
  intro given
  obtain ⟨key, value⟩ := given
  rw [← lookup_eq_some_iff left.ascending, ← lookup_eq_some_iff right.ascending]
  exact iff_of_eq (congrArg (· = some value) (same key))

end AtomStore.SortedMap
