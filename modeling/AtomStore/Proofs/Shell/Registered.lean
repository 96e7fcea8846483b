import AtomStore.Proofs.Shell.Plain
import AtomStore.Proofs.Store.IndexSearch

/-!
# The indices of a shell

A shell has the index over all atoms, which comes first, and one for each key that was searched by,
under a name that tells the key. All have numbers of their own, by which they are found again.
-/

namespace AtomStore

namespace Shell

/-- Indices by different keys have different names. -/
theorem keyIndex_name_injective {key other : Key}
    (same : (keyIndex key).name = (keyIndex other).name) : key = other := by
  have digits : Nat.toDigits 10 key.toNat = Nat.toDigits 10 other.toNat := by
    have texts := congrArg String.toList same
    simp only [keyIndex, String.toList_append, List.append_cancel_left_eq] at texts
    simpa only [Nat.toString_eq_repr, Nat.toList_repr] using texts
  have values := congrArg (fun digits => Nat.ofDigitChars 10 digits 0) digits
  simp only [Nat.ofDigitChars_toDigits (by decide : 1 < 10) (Nat.le_refl 10)] at values
  exact UInt64.toNat_inj.mp values

/-- No index by a key has the name of the index over all atoms. -/
theorem keyIndex_name_ne (key : Key) : (keyIndex key).name ≠ IndexInfo.globalName := by
  intro same
  have first := congrArg (fun name => name.toList.head?) same
  simp only [keyIndex, IndexInfo.globalName, String.toList_append] at first
  cases first

/-- An index by a key compares atoms by what they hold under that key. -/
theorem compare_fields_keyIndex (key : Key) (left right : Junctions) :
    compare ((keyIndex key).fields left) ((keyIndex key).fields right) =
      compare (left.get? key) (right.get? key) := by
  change compare [left.get? key] [right.get? key] = _
  rw [List.compare_cons_cons]
  exact Ordering.then_eq

end Shell

/-- Entries are compared by their sort keys, and then as their atoms are, since no UCN is above the
greatest word. -/
theorem IndexInfo.compare_entry (info : IndexInfo) {left right : Atom}
    (first : left.ucn ≤ Text.maxWord) (second : right.ucn ≤ Text.maxWord) :
    compare (info.entry left) (info.entry right) =
      (compare (info.fields left.junctions) (info.fields right.junctions)).then
        (info.order.compareAtoms left right) := by
  change ((compare (info.fields left.junctions) (info.fields right.junctions)).then
    (compare (info.rank left.ucn) (info.rank right.ucn))).then (compare left.id right.id) = _
  rw [Ordering.then_assoc, rank, rank]
  cases info.order with
  | ascending => rfl
  | descending =>
    have turned : compare (Text.maxWord - left.ucn) (Text.maxWord - right.ucn) =
        compare right.ucn left.ucn := by
      rcases Nat.lt_trichotomy left.ucn right.ucn with less | same | more
      · rw [Nat.compare_eq_gt.mpr less, Nat.compare_eq_gt.mpr (by omega)]
      · rw [Nat.compare_eq_eq.mpr same.symm, Nat.compare_eq_eq.mpr (by omega)]
      · rw [Nat.compare_eq_lt.mpr more, Nat.compare_eq_lt.mpr (by omega)]
    simp only [turned, UcnOrder.compareAtoms]

/-- Whether indices are the one over all atoms and others for single keys, under numbers of their
own below the next one. -/
structure Registered (order : UcnOrder) (next : Nat) (indices : List Index) : Prop where
  first : ∃ global, indices.head? = some global ∧ global.info = .global order
  known : ∀ index ∈ indices, index.info = .global order ∨ ∃ key, index.info = Shell.keyIndex key
  distinct : (indices.map (·.id)).Nodup
  below : ∀ index ∈ indices, index.id < next

namespace Registered

variable {order : UcnOrder} {next : Nat} {indices : List Index}

/-- Indices that grow stay registered. -/
theorem update (registered : Registered order next indices) {change : Index → Index}
    (grows : ∀ index : Index, index.Grows (change index)) :
    Registered order next (indices.map change) := by
  obtain ⟨global, head, info⟩ := registered.first
  refine ⟨⟨change global, ?_, (grows global).info_eq.trans info⟩, ?_, ?_, ?_⟩
  · rw [List.head?_map, head]
    rfl
  · intro index member
    obtain ⟨before, among, rfl⟩ := List.mem_map.mp member
    rw [(grows before).info_eq]
    exact registered.known before among
  · have same : (indices.map change).map (·.id) = indices.map (·.id) := by
      rw [List.map_map]
      exact List.map_congr_left fun index _ => (grows index).id_eq
    rw [same]
    exact registered.distinct
  · intro index member
    obtain ⟨before, among, rfl⟩ := List.mem_map.mp member
    rw [(grows before).id_eq]
    exact registered.below before among

/-- An index by a key is registered behind the others. -/
theorem add (registered : Registered order next indices) (key : Key) :
    Registered order (next + 1) (indices ++ [{ id := next, info := Shell.keyIndex key }]) := by
  obtain ⟨global, head, info⟩ := registered.first
  refine ⟨⟨global, ?_, info⟩, ?_, ?_, ?_⟩
  · rw [List.head?_append, head]
    rfl
  · intro index member
    rcases List.mem_append.mp member with before | added
    · exact registered.known index before
    · exact .inr ⟨key, by rw [List.mem_singleton.mp added]⟩
  · rw [List.map_append, List.nodup_append]
    refine ⟨registered.distinct, List.nodup_singleton _, ?_⟩
    intro id among other added
    obtain ⟨index, member, rfl⟩ := List.mem_map.mp among
    rw [List.mem_singleton.mp added]
    exact Nat.ne_of_lt (registered.below index member)
  · intro index member
    rcases List.mem_append.mp member with before | added
    · exact Nat.lt_succ_of_lt (registered.below index before)
    · rw [List.mem_singleton.mp added]
      exact Nat.lt_succ_self next

/-- No index of a shell looks at the UCN of an atom that is below the greatest word. -/
theorem accepts_eq (registered : Registered order next indices) {index : Index}
    (member : index ∈ indices) {atom : Atom} (below : atom.ucn < Text.maxWord) :
    index.info.accepts atom = index.info.condition.accepts atom := by
  have bounds : index.info.minUcn = 0 ∧ index.info.maxUcn = Text.maxWord := by
    rcases registered.known index member with info | ⟨key, info⟩
    · rw [info]
      exact ⟨rfl, rfl⟩
    · rw [info]
      exact ⟨rfl, rfl⟩
  rw [IndexInfo.accepts, bounds.1, bounds.2, decide_eq_true (Nat.zero_le _), decide_eq_true below]
  rfl

/-- An index is found by its number. -/
theorem find?_id (registered : Registered order next indices) {index : Index}
    (member : index ∈ indices) :
    (indices.find? fun other => other.id == index.id) = some index := by
  have distinct := registered.distinct
  clear registered
  induction indices with
  | nil => cases member
  | cons head rest ih =>
    obtain ⟨unlike, later⟩ := List.nodup_cons.mp distinct
    rcases List.mem_cons.mp member with rfl | inside
    · rw [List.find?_cons, beq_iff_eq.mpr rfl]
    · rw [List.find?_cons, beq_eq_false_iff_ne.mpr, ih inside later]
      intro same
      exact unlike (List.mem_map.mpr ⟨index, inside, same.symm⟩)

/-- The index that goes by the name of that for a key is over the atoms that hold the key. -/
theorem info_of_name (registered : Registered order next indices) {index : Index}
    (member : index ∈ indices) {key : Key} (named : index.info.name = (Shell.keyIndex key).name) :
    index.info = Shell.keyIndex key := by
  rcases registered.known index member with global | ⟨other, info⟩
  · rw [global] at named
    exact absurd named.symm (Shell.keyIndex_name_ne key)
  · rw [info] at named
    rw [info, Shell.keyIndex_name_injective named]

end Registered
end AtomStore
