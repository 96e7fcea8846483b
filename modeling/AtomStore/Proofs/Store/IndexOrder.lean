import AtomStore.Store.Index

/-!
# The order of an index

Particles and the places of an index are totally ordered. Entries that tie are those of one slot, so
the order tells committed atoms apart; and the entries from the bound of a sample on are those whose
sort keys have values not below the ones of the sample.
-/

namespace AtomStore

namespace Particle

def hostedOffset? : Particle → Option Nat
  | hosted offset _ => some offset
  | _ => none

def hostedLength? : Particle → Option Nat
  | hosted _ length => some length
  | _ => none

/-- Particles are compared by kind, and then by what particles of their kind hold. -/
theorem compare_eq_compareLex : (compare : Particle → Particle → Ordering) =
    compareLex (compareOn kindRank) (compareLex (compareOn integer?) (compareLex (compareOn text?)
      (compareLex (compareOn bytes?)
        (compareLex (compareOn hostedOffset?) (compareOn hostedLength?))))) := by
  funext left right
  cases left <;> cases right
  case integer.integer => exact Ordering.then_eq.symm
  case text.text => exact Ordering.then_eq.symm
  case bytes.bytes => exact Ordering.then_eq.symm
  all_goals rfl

instance : Std.TransOrd Particle := by
  rw [Std.TransOrd, compare_eq_compareLex]
  infer_instance

/-- Particles that tie are the same. -/
instance : Std.LawfulEqOrd Particle where
  eq_of_compare {left right} tie := by
    cases left <;> cases right
    case integer.integer left right =>
      exact congrArg integer (Std.LawfulEqOrd.eq_of_compare (a := left) tie)
    case text.text left right =>
      exact congrArg text (Std.LawfulEqOrd.eq_of_compare (a := left) tie)
    case bytes.bytes left right =>
      exact congrArg bytes (Std.LawfulEqOrd.eq_of_compare (a := left) tie)
    case hosted.hosted offset length offset' length' =>
      obtain ⟨offsets, lengths⟩ := Ordering.then_eq_eq.mp tie
      obtain rfl : offset = offset' := Std.LawfulEqOrd.eq_of_compare offsets
      obtain rfl : length = length' := Std.LawfulEqOrd.eq_of_compare lengths
      rfl
    all_goals cases tie

end Particle

instance : Std.TransOrd IndexKey :=
  inferInstanceAs (Std.TransCmp (compareLex
    (compareLex (compareOn IndexKey.fields) (compareOn IndexKey.rank)) (compareOn IndexKey.id)))

instance : Std.TransOrd IndexEntry :=
  inferInstanceAs (Std.TransCmp (compareOn IndexEntry.key))

/-- Entries that tie are those of one slot. -/
theorem IndexEntry.id_eq_of_compare {left right : IndexEntry}
    (equal : compare left right = .eq) : left.key.id = right.key.id :=
  Std.LawfulEqCmp.eq_of_compare (Ordering.then_eq_eq.mp equal).2

namespace IndexInfo

variable {info : IndexInfo}

/-- The entry of an atom is not below the bound of a sample when its sort keys are not. -/
theorem not_isLT_compare_bound (atom : Atom) (sample : Junctions) :
    (!(compare (info.entry atom) (info.bound sample)).isLT) =
      (compare (info.fields atom.junctions) (info.fields sample)).isGE := by
  have least (n : Nat) : (compare n 0).isGE = true := by
    cases n <;> rfl
  change (!(((compare (info.fields atom.junctions) (info.fields sample)).then
    (compare (info.rank atom.ucn) 0)).then (compare atom.id 0)).isLT) = _
  have first := least (info.rank atom.ucn)
  have second := least atom.id
  revert first second
  cases compare (info.fields atom.junctions) (info.fields sample) <;>
    cases compare (info.rank atom.ucn) 0 <;> cases compare atom.id 0 <;> decide

end IndexInfo
end AtomStore
