import AtomStore.Proofs.Store.Walk

/-!
# Indices and sorting

An index that is up to date lists the atoms that it accepts as sorting the committed atoms would,
and a search through it gives the first of them whose sort keys have the values of the sample.
-/

namespace AtomStore

/-- A list that ascends without ties is what sorting any list of its elements gives. -/
theorem eq_mergeSort_of_perm {α : Type} {order : α → α → Ordering} [Std.TransCmp order]
    {found given : List α} (perm : found.Perm given)
    (ascending : found.Pairwise fun left right => order left right = .lt) :
    found = given.mergeSort fun left right => (order left right).isLE := by
  have total (left right : α) : ((order left right).isLE || (order right left).isLE) = true := by
    cases place : order left right with
    | lt => rfl
    | eq => rfl
    | gt => rw [Std.OrientedCmp.lt_of_gt place]; rfl
  have sorted : (given.mergeSort fun left right => (order left right).isLE).Pairwise
      fun left right => (order left right).isLE = true :=
    List.pairwise_mergeSort (fun _ _ _ => Std.TransCmp.isLE_trans) total given
  have same : found.Perm (given.mergeSort fun left right => (order left right).isLE) :=
    perm.trans (List.mergeSort_perm ..).symm
  have apart (left : α) (inside : left ∈ found) (right : α) (among : right ∈ found) :
      left = right ∨ order left right = .lt ∨ order right left = .lt := by
    obtain ⟨i, first, rfl⟩ := List.mem_iff_getElem.mp inside
    obtain ⟨j, second, rfl⟩ := List.mem_iff_getElem.mp among
    have below := List.pairwise_iff_getElem.mp ascending
    rcases Nat.lt_trichotomy i j with before | rfl | behind
    · exact .inr (.inl (below i j first second before))
    · exact .inl rfl
    · exact .inr (.inr (below j i second first behind))
  refine same.eq_of_pairwise ?_ (ascending.imp Ordering.isLE_of_eq_lt) sorted
  intro left right inside among below above
  rcases apart left inside right (same.mem_iff.mpr among) with equal | less | less
  · exact equal
  · exact absurd above (Std.OrientedCmp.not_isLE_of_lt less)
  · exact absurd below (Std.OrientedCmp.not_isLE_of_lt less)

namespace Index

variable {index : Index} {slots : Slots}

/-- A search gives the first atom of a walk whose sort keys have the values of the sample. -/
theorem Follows.find?_eq (follows : index.Follows slots) (sample : Junctions) :
    index.find? sample = ((index.walk.remaining index).filter fun atom =>
      index.info.fields atom.junctions == index.info.fields sample).head? := by
  have all : index.walk.remaining index = index.held :=
    (follows.remaining_walkBy none).trans (List.filter_eq_self.mpr fun _ _ => rfl)
  rw [all, follows.formed.find?_eq, List.head?_filter]

/-- Some of the atoms of an index that is up to date are listed as sorting those that it accepts
would list them. -/
theorem Follows.filter_remaining_eq (follows : index.Follows slots) (sound : slots.Sound)
    (current : index.lastUcn = slots.ucn) (chosen : Atom → Bool)
    {order : Atom → Atom → Ordering} [Std.TransCmp order]
    (agree : ∀ left ∈ slots.atoms, ∀ right ∈ slots.atoms,
      chosen left = true → chosen right = true →
      compare (index.info.entry left) (index.info.entry right) = order left right) :
    (index.walk.remaining index).filter chosen =
      (slots.atoms.filter fun atom => chosen atom && index.info.accepts atom).mergeSort
        fun left right => (order left right).isLE := by
  obtain ⟨perm, ascending⟩ := follows.walkBy_remaining sound current none
  have known : ((index.walk.remaining index).filter chosen).Perm
      (slots.atoms.filter fun atom => chosen atom && index.info.accepts atom) := by
    rw [← List.filter_filter]
    refine (perm.filter chosen).trans (.of_eq ?_)
    congr 2
    funext atom
    exact Bool.and_true _
  apply eq_mergeSort_of_perm known
  have listed := (List.pairwise_map.mp ascending).filter chosen
  refine listed.imp_of_mem ?_
  intro left right inside among less
  obtain ⟨here, first⟩ := List.mem_filter.mp (known.mem_iff.mp inside)
  obtain ⟨there, second⟩ := List.mem_filter.mp (known.mem_iff.mp among)
  rw [← agree left here right there (Bool.and_eq_true_iff.mp first).1
    (Bool.and_eq_true_iff.mp second).1]
  exact less

end Index
end AtomStore
