import AtomStore.Atom

/-!
# Conditions

A condition decides which atoms an index holds. Conditions combine as formulas over tests of single
junctions; a custom condition is any test of the atom.
-/

namespace AtomStore

/-- A test of an atom's junctions. -/
inductive Condition where
  | always
  | hasKey (key : Key)
  | equals (key : Key) (value : Particle)
  | all (parts : List Condition)
  | any (parts : List Condition)
  | not (part : Condition)
  | custom (test : Atom → Bool)
  deriving Inhabited

namespace Condition

mutual

/-- Whether an atom passes the test. -/
def accepts (atom : Atom) : Condition → Bool
  | always => true
  | hasKey key => (atom.get? key).isSome
  | equals key value => atom.get? key == some value
  | all parts => acceptedByAll atom parts
  | any parts => acceptedByAny atom parts
  | not part => !accepts atom part
  | custom test => test atom

/-- Whether an atom passes every test of a list. -/
def acceptedByAll (atom : Atom) : List Condition → Bool
  | [] => true
  | part :: rest => accepts atom part && acceptedByAll atom rest

/-- Whether an atom passes some test of a list. -/
def acceptedByAny (atom : Atom) : List Condition → Bool
  | [] => false
  | part :: rest => accepts atom part || acceptedByAny atom rest

end

mutual

/-- The inspection text of a condition; a custom test has no text of its own. -/
def inspect : Condition → String
  | always => "Always"
  | hasKey key => s!"HasKey({key.toNat})"
  | equals key value => s!"Equals({key.toNat}, {value.render})"
  | all parts => s!"And([{inspectAll parts}])"
  | any parts => s!"Or([{inspectAll parts}])"
  | not part => s!"Not({inspect part})"
  | custom _ => "Custom(..)"

/-- The inspection texts of a list, separated by commas. -/
def inspectAll : List Condition → String
  | [] => ""
  | [part] => inspect part
  | part :: rest => inspect part ++ ", " ++ inspectAll rest

end

/-- Passing a list of tests is passing each of them. -/
theorem acceptedByAll_eq_all (atom : Atom) (parts : List Condition) :
    acceptedByAll atom parts = parts.all (accepts atom) := by
  induction parts with
  | nil => rfl
  | cons part rest ih => simp [acceptedByAll, ih]

/-- Passing some test of a list is passing one of its members. -/
theorem acceptedByAny_eq_any (atom : Atom) (parts : List Condition) :
    acceptedByAny atom parts = parts.any (accepts atom) := by
  induction parts with
  | nil => rfl
  | cons part rest ih => simp [acceptedByAny, ih]

end Condition
end AtomStore
