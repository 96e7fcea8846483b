/-!
# Finite maps in key order

A map is the list of its bindings with strictly ascending keys, so two maps with the same bindings
are equal. Adding a binding replaces the one its key had.
-/

namespace AtomStore

/-- Bindings listed by strictly ascending key. -/
structure SortedMap (κ ν : Type) [Ord κ] where
  entries : List (κ × ν)
  ascending : entries.Pairwise fun earlier later => compare earlier.1 later.1 = .lt

namespace SortedMap

variable {κ ν : Type} [Ord κ]

/-- The bindings determine a map. -/
theorem eq_of_entries {left right : SortedMap κ ν} (same : left.entries = right.entries) :
    left = right := by
  cases left
  cases right
  cases same
  rfl

instance [DecidableEq κ] [DecidableEq ν] : DecidableEq (SortedMap κ ν) := fun left right =>
  decidable_of_iff (left.entries = right.entries) ⟨eq_of_entries, congrArg entries⟩

/-- The value bound to a key in a list of bindings. -/
def lookup (key : κ) : List (κ × ν) → Option ν
  | [] => none
  | (k, v) :: rest => if compare key k = .eq then some v else lookup key rest

/-- Places a binding in front of the first greater key, or in the place of an equal one. -/
def place (key : κ) (value : ν) : List (κ × ν) → List (κ × ν)
  | [] => [(key, value)]
  | (k, v) :: rest =>
    match compare key k with
    | .lt => (key, value) :: (k, v) :: rest
    | .eq => (key, value) :: rest
    | .gt => (k, v) :: place key value rest

/-- Leaves out the binding of a key. -/
def without (key : κ) (bindings : List (κ × ν)) : List (κ × ν) :=
  bindings.filter fun binding => compare key binding.1 != .eq

/-- A key of a list after placing a binding is the placed key or was there before. -/
theorem mem_place {key : κ} {value : ν} {bindings : List (κ × ν)} {binding : κ × ν}
    (member : binding ∈ place key value bindings) :
    binding = (key, value) ∨ binding ∈ bindings := by
  induction bindings with
  | nil => exact Or.inl (List.mem_singleton.mp member)
  | cons head rest ih =>
    unfold place at member
    split at member
    · rcases List.mem_cons.mp member with placed | before
      · exact Or.inl placed
      · exact Or.inr before
    · rcases List.mem_cons.mp member with placed | before
      · exact Or.inl placed
      · exact Or.inr (List.mem_cons_of_mem _ before)
    · rcases List.mem_cons.mp member with same | later
      · exact Or.inr (same ▸ List.mem_cons_self)
      · exact (ih later).imp_right (List.mem_cons_of_mem _)

/-- Placing a binding keeps the keys strictly ascending. -/
theorem ascending_place [Std.TransOrd κ] {bindings : List (κ × ν)} (key : κ) (value : ν)
    (ascending : bindings.Pairwise fun a b => compare a.1 b.1 = .lt) :
    (place key value bindings).Pairwise fun a b => compare a.1 b.1 = .lt := by
  induction bindings with
  | nil => exact List.pairwise_singleton _ _
  | cons head rest ih =>
    obtain ⟨below, tail⟩ := List.pairwise_cons.mp ascending
    unfold place
    split
    · rename_i less
      refine List.pairwise_cons.mpr ⟨?_, ascending⟩
      intro binding member
      rcases List.mem_cons.mp member with same | later
      · exact same ▸ less
      · exact Std.TransCmp.lt_trans less (below binding later)
    · rename_i same
      refine List.pairwise_cons.mpr ⟨?_, tail⟩
      intro binding member
      exact Std.TransCmp.lt_of_eq_of_lt same (below binding member)
    · rename_i greater
      refine List.pairwise_cons.mpr ⟨?_, ih tail⟩
      intro binding member
      rcases mem_place member with placed | before
      · exact placed ▸ Std.OrientedCmp.lt_of_gt greater
      · exact below binding before

/-- The map without bindings. -/
def empty : SortedMap κ ν := ⟨[], List.Pairwise.nil⟩

instance : Inhabited (SortedMap κ ν) := ⟨empty⟩

/-- The value bound to a key. -/
def get? (map : SortedMap κ ν) (key : κ) : Option ν := lookup key map.entries

/-- Binds a key, in place of the value it had. -/
def insert [Std.TransOrd κ] (map : SortedMap κ ν) (key : κ) (value : ν) : SortedMap κ ν :=
  ⟨place key value map.entries, ascending_place key value map.ascending⟩

/-- Unbinds a key. -/
def erase (map : SortedMap κ ν) (key : κ) : SortedMap κ ν :=
  ⟨without key map.entries, map.ascending.filter _⟩

/-- Binds the keys of a list in its order, so that the last value of a key stays. -/
def ofList [Std.TransOrd κ] (bindings : List (κ × ν)) : SortedMap κ ν :=
  bindings.foldl (fun map binding => map.insert binding.1 binding.2) empty

/-- The keys in ascending order. -/
def keys (map : SortedMap κ ν) : List κ := map.entries.map Prod.fst

/-- The number of bindings. -/
def size (map : SortedMap κ ν) : Nat := map.entries.length

/-- A key just bound has the value it was bound to. -/
theorem lookup_place_self [Std.TransOrd κ] (key : κ) (value : ν) (bindings : List (κ × ν)) :
    lookup key (place key value bindings) = some value := by
  induction bindings with
  | nil => simp [place, lookup]
  | cons head rest ih =>
    unfold place
    split
    · simp [lookup]
    · simp [lookup]
    · rename_i greater
      simp [lookup, greater, ih]

@[simp] theorem get?_insert_self [Std.TransOrd κ] (map : SortedMap κ ν) (key : κ) (value : ν) :
    (map.insert key value).get? key = some value :=
  lookup_place_self key value map.entries

@[simp] theorem get?_empty (key : κ) : (empty : SortedMap κ ν).get? key = none := rfl

end SortedMap
end AtomStore
