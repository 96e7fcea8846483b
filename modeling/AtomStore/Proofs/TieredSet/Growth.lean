import AtomStore.Proofs.TieredSet.Contents

/-!
# Additions to sets in two tiers

An addition, a series of additions and the end of a bulk load keep a set well-formed and bring in
what was added and nothing else, up to equality in the order. While a bulk load goes on, the
contents stay as they are.
-/

namespace AtomStore

variable {α : Type} [Ord α]

namespace Run

/-- Whether a list has the elements of another and some added ones, up to equality in the order, and
nothing else. -/
structure Absorbs (before added after : List α) : Prop where
  old_or_added : ∀ x ∈ after, x ∈ before ∨ x ∈ added
  kept : ∀ x, x ∈ before ∨ x ∈ added → ∃ y ∈ after, compare x y = .eq

/-- Where equal elements are the same, all of them are there. -/
theorem Absorbs.mem_iff {before added after : List α} (absorbs : Absorbs before added after)
    (same : ∀ x y, x ∈ before ∨ x ∈ added → y ∈ before ∨ y ∈ added → compare x y = .eq → x = y)
    {x : α} : x ∈ after ↔ x ∈ before ∨ x ∈ added := by
  refine ⟨absorbs.old_or_added x, fun present => ?_⟩
  obtain ⟨y, member, equal⟩ := absorbs.kept x present
  rw [same x y present (absorbs.old_or_added y member) equal]
  exact member

variable [Std.TransOrd α]

theorem Absorbs.refl (elements : List α) : Absorbs elements [] elements :=
  ⟨fun _ => .inl, fun x present =>
    ⟨x, present.resolve_right List.not_mem_nil, Std.ReflCmp.compare_self⟩⟩

/-- What is absorbed in two parts is absorbed together. -/
theorem Absorbs.trans {before first second middle after : List α}
    (earlier : Absorbs before first middle) (later : Absorbs middle second after) :
    Absorbs before (first ++ second) after := by
  refine ⟨fun x member => ?_, fun x present => ?_⟩
  · rw [List.mem_append, ← or_assoc]
    exact (later.old_or_added x member).imp_left (earlier.old_or_added x)
  · rw [List.mem_append, ← or_assoc] at present
    rcases present with present | added
    · obtain ⟨y, member, equal⟩ := earlier.kept x present
      obtain ⟨z, inside, same⟩ := later.kept y (.inl member)
      exact ⟨z, inside, Std.TransCmp.eq_trans equal same⟩
    · exact later.kept x (.inr added)

/-- An element of the first run stays in a merged run, or an equal one does. -/
theorem exists_mem_merge {left right : List α} (first : Ascending left)
    (second : Ascending right) {x : α} (present : x ∈ left ∨ x ∈ right) :
    ∃ y ∈ merge left right, compare x y = .eq := by
  by_cases replaced : ∃ y ∈ right, compare x y = .eq
  · obtain ⟨y, inside, equal⟩ := replaced
    exact ⟨y, (mem_merge first second).mpr (.inl inside), equal⟩
  · have unlike : ∀ y ∈ right, compare x y ≠ .eq := fun y inside equal =>
      replaced ⟨y, inside, equal⟩
    have stays : x ∈ merge left right := by
      apply (mem_merge first second).mpr
      exact present.symm.imp_right fun inside => ⟨inside, unlike⟩
    exact ⟨x, stays, Std.ReflCmp.compare_self⟩

end Run

namespace TieredSet

open Run (Ascending Apart Absorbs)

/-- Whether a set has become another one by taking in some elements at once. -/
structure Takes (set : TieredSet α) (added : List α) (next : TieredSet α) : Prop where
  valid : next.Valid
  absorbs : Absorbs set.toList added next.toList
  idle : next.loading = none
  threshold_eq : next.threshold = set.threshold

variable {set : TieredSet α}

/-- During a bulk load an addition changes nothing but what is collected. -/
theorem add_of_loading {collected : Array α} (loading : set.loading = some collected)
    (element : α) :
    set.add element = (true, { set with loading := some (collected.push element) }) := by
  rw [add, loading]

/-- During a bulk load elements are only collected. -/
theorem addAll_of_loading {collected : Array α} (loading : set.loading = some collected)
    (elements : List α) :
    set.addAll elements = { set with loading := some (collected ++ elements.toArray) } := by
  induction elements generalizing set collected with
  | nil =>
    change set = { set with loading := some (collected ++ #[]) }
    rw [Array.append_empty, ← loading]
  | cons element rest ih =>
    have joined : collected.push element ++ rest.toArray = collected ++ (element :: rest).toArray :=
      List.push_append_toArray
    rw [addAll, List.foldl_cons, ← addAll, add_of_loading loading, ← joined]
    exact ih rfl

/-- The beginning of a bulk load keeps a set in order. -/
theorem Valid.startLoading (valid : set.Valid) : set.startLoading.Valid :=
  ⟨valid.settled_ascending, valid.recent_ascending, valid.apart, valid.bounded⟩

/-- Settling a set merges its runs. -/
theorem toList_settle (set : TieredSet α) :
    set.settle.toList = Run.merge set.settled.toList set.recent :=
  List.merge_right _

variable [Std.TransOrd α]

theorem Takes.refl (valid : set.Valid) (idle : set.loading = none) : set.Takes [] set :=
  ⟨valid, .refl _, idle, rfl⟩

/-- What a set takes in two parts it takes together. -/
theorem Takes.trans {middle next : TieredSet α} {first second : List α}
    (earlier : set.Takes first middle) (later : middle.Takes second next) :
    set.Takes (first ++ second) next :=
  ⟨later.valid, earlier.absorbs.trans later.absorbs, later.idle,
    later.threshold_eq.trans earlier.threshold_eq⟩

/-- Moving the short run into the long one keeps the contents. -/
theorem valid_settle (first : Ascending set.settled.toList) (second : Ascending set.recent) :
    set.settle.Valid :=
  ⟨Run.ascending_merge first second, List.Pairwise.nil, fun _ _ => nofun, Nat.zero_le _⟩

/-- An addition outside a bulk load tells whether the element was new, and brings it in. -/
theorem Valid.add (valid : set.Valid) (idle : set.loading = none) (element : α) :
    (set.add element).1 = !set.contains element ∧ set.Takes [element] (set.add element).2 := by
  rw [TieredSet.add, idle]
  by_cases known : set.contains element = true
  · obtain ⟨x, member, equal⟩ := valid.contains_iff.mp known
    simp only [known, ↓reduceIte, Bool.not_true, true_and]
    refine ⟨valid, ⟨fun _ => .inl, fun y present => ?_⟩, idle, rfl⟩
    rcases present with present | added
    · exact ⟨y, present, Std.ReflCmp.compare_self⟩
    · rw [List.mem_singleton.mp added]
      exact ⟨x, member, Std.OrientedCmp.eq_comm.mp equal⟩
  · simp only [known, Bool.false_eq_true, ↓reduceIte, Bool.not_false, true_and]
    have new : ∀ x ∈ set.toList, compare element x ≠ .eq := by
      intro x member equal
      exact known (valid.contains_iff.mpr ⟨x, member, Std.OrientedCmp.eq_comm.mp equal⟩)
    have placed := Run.place_perm fun x inside => new x (valid.mem_toList.mpr (.inr inside))
    have ascending := Run.ascending_place element valid.recent_ascending
    have apart : Apart set.settled.toList (Run.place element set.recent) := by
      intro a inside b among
      rcases List.mem_cons.mp (placed.mem_iff.mp among) with rfl | before
      · exact fun equal =>
          new a (valid.mem_toList.mpr (.inl inside)) (Std.OrientedCmp.eq_comm.mp equal)
      · exact valid.apart a inside b before
    have contents {x : α} :
        x ∈ Run.merge set.settled.toList (Run.place element set.recent) ↔
          x ∈ set.toList ∨ x ∈ [element] := by
      rw [Run.mem_merge_of_apart valid.settled_ascending ascending apart, placed.mem_iff,
        valid.mem_toList, List.mem_cons, List.mem_singleton, or_assoc, or_comm (a := x = element)]
    have absorbs {after : List α}
        (same : after = Run.merge set.settled.toList (Run.place element set.recent)) :
        Absorbs set.toList [element] after := by
      rw [same]
      exact ⟨fun x => contents.mp, fun x present =>
        ⟨x, contents.mpr present, Std.ReflCmp.compare_self⟩⟩
    split
    · exact ⟨valid_settle valid.settled_ascending ascending, absorbs (toList_settle _), rfl, rfl⟩
    · rename_i short
      exact ⟨⟨valid.settled_ascending, ascending, apart, Nat.le_of_not_lt short⟩,
        absorbs (Run.interleave_eq_merge apart), rfl, rfl⟩

/-- A set takes in all elements that are added. -/
theorem Valid.takes_addAll (valid : set.Valid) (idle : set.loading = none) (elements : List α) :
    set.Takes elements (set.addAll elements) := by
  induction elements generalizing set with
  | nil => exact .refl valid idle
  | cons element rest ih =>
    have first := (valid.add idle element).2
    exact first.trans (ih first.valid first.idle)

/-- The end of a bulk load brings in what was collected. -/
theorem Valid.takes_stopLoading (valid : set.Valid) {collected : Array α}
    (loading : set.loading = some collected) :
    set.Takes collected.toList set.stopLoading := by
  rw [stopLoading, loading]
  by_cases empty : collected.isEmpty = true
  · simp only [empty, ↓reduceIte]
    rw [Array.isEmpty_iff.mp empty]
    exact ⟨⟨valid.settled_ascending, valid.recent_ascending, valid.apart, valid.bounded⟩, .refl _,
      rfl, rfl⟩
  simp only [empty, Bool.false_eq_true, ↓reduceIte]
  let fresh := (Run.ofList collected.toList).filter fun element =>
    !set.recent.any fun found => compare found element == .eq
  have ascending : Ascending fresh := (Run.ascending_ofList collected.toList).filter _
  have merged := Run.ascending_merge valid.settled_ascending ascending
  have apart : Apart (Run.merge set.settled.toList fresh) set.recent := by
    intro a inside b among equal
    rcases (Run.mem_merge valid.settled_ascending ascending).mp inside with new | ⟨old, _⟩
    · have unlike := (List.mem_filter.mp new).2
      rw [Bool.not_eq_true', List.any_eq_false] at unlike
      exact unlike b among (beq_iff_eq.mpr (Std.OrientedCmp.eq_comm.mp equal))
    · exact valid.apart a old b among equal
  have valid' : Valid { set with
      loading := none
      settled := (Run.merge set.settled.toList fresh).toArray
      generation := set.generation + 1 } :=
    ⟨merged, valid.recent_ascending, apart, valid.bounded⟩
  refine ⟨valid', ⟨fun x member => ?_, fun x present => ?_⟩, rfl, rfl⟩
  · rw [valid.mem_toList]
    rcases valid'.mem_toList.mp member with inside | recent
    · rcases (Run.mem_merge valid.settled_ascending ascending).mp inside with new | ⟨old, _⟩
      · exact .inr (Run.mem_of_mem_ofList (List.mem_filter.mp new).1)
      · exact .inl (.inl old)
    · exact .inl (.inr recent)
  · -- an element found again in the short run stays there, any other goes to the long one
    have settles {y : α} (given : y ∈ set.settled.toList ∨ y ∈ fresh) (equal : compare x y = .eq) :
        ∃ z ∈ TieredSet.toList { set with
          loading := none
          settled := (Run.merge set.settled.toList fresh).toArray
          generation := set.generation + 1 }, compare x z = .eq := by
      obtain ⟨z, inside, same⟩ := Run.exists_mem_merge valid.settled_ascending ascending given
      exact ⟨z, valid'.mem_toList.mpr (.inl inside), Std.TransCmp.eq_trans equal same⟩
    rcases present with old | added
    · rcases valid.mem_toList.mp old with inside | recent
      · exact settles (.inl inside) Std.ReflCmp.compare_self
      · exact ⟨x, valid'.mem_toList.mpr (.inr recent), Std.ReflCmp.compare_self⟩
    · obtain ⟨y, kept, equal⟩ := Run.exists_mem_ofList added
      cases again : set.recent.any fun found => compare found y == .eq with
      | true =>
        obtain ⟨z, recent, same⟩ := List.any_eq_true.mp again
        have back := Std.OrientedCmp.eq_comm.mp (beq_iff_eq.mp same)
        exact ⟨z, valid'.mem_toList.mpr (.inr recent), Std.TransCmp.eq_trans equal back⟩
      | false => exact settles (.inr (List.mem_filter.mpr ⟨kept, by rw [again]; rfl⟩)) equal

/-- A bulk load brings in the same as a series of additions. -/
theorem Valid.takes_load (valid : set.Valid) (idle : set.loading = none) (elements : List α) :
    set.Takes elements (set.startLoading.addAll elements).stopLoading := by
  have loading : set.startLoading.loading = some #[] := by
    rw [TieredSet.startLoading, idle]
    rfl
  rw [addAll_of_loading loading, Array.empty_append]
  have collecting : Valid { set.startLoading with loading := some elements.toArray } :=
    ⟨valid.settled_ascending, valid.recent_ascending, valid.apart, valid.bounded⟩
  have taken := collecting.takes_stopLoading rfl
  exact ⟨taken.valid, taken.absorbs, taken.idle, taken.threshold_eq⟩

end TieredSet
end AtomStore
