import AtomStore.Proofs.Store.IndexOrder
import Mathlib.Data.String.Basic

/-!
# Which atom comes first

The order of an index in words. Values of one kind go by what they hold and others by kind, and a
missing value comes first. Lists of values go by the first place where they differ. Atoms with the
same values go by UCN in the direction of the index, and those of one commit by slot. The keys that
an index compares put atoms into exactly this order.
-/

namespace AtomStore

/-- Lists are compared by the first elements that differ. -/
theorem compare_lists_eq_lt_iff {α : Type} [Ord α] [Std.LawfulEqOrd α] {below : α → α → Prop}
    (agree : ∀ {left right : α}, compare left right = .lt ↔ below left right)
    {left right : List α} : compare left right = .lt ↔ List.Lex below left right := by
  rw [List.compare_eq_compareLex]
  induction left generalizing right with
  | nil =>
    cases right with
    | nil => exact ⟨nofun, nofun⟩
    | cons b right => exact iff_of_true List.compareLex_nil_cons .nil
  | cons a left ih =>
    cases right with
    | nil =>
      rw [List.compareLex_cons_nil]
      exact ⟨nofun, nofun⟩
    | cons b right =>
      rw [List.compareLex_cons_cons, Ordering.then_eq_lt, agree, ih]
      constructor
      · rintro (first | ⟨tie, later⟩)
        · exact .rel first
        · obtain rfl := Std.LawfulEqOrd.eq_of_compare tie
          exact .cons later
      · intro lesser
        cases lesser with
        | rel first => exact .inl first
        | cons later => exact .inr ⟨Std.ReflCmp.compare_self, later⟩

/-- A missing value is below all others. -/
theorem compare_options_eq_lt_iff {α : Type} [Ord α] {below : α → α → Prop}
    (agree : ∀ {left right : α}, compare left right = .lt ↔ below left right)
    {left right : Option α} : compare left right = .lt ↔ Option.lt below left right := by
  cases left with
  | none =>
    cases right with
    | none => exact ⟨nofun, nofun⟩
    | some value => exact iff_of_true rfl trivial
  | some value =>
    cases right with
    | none => exact ⟨nofun, nofun⟩
    | some other => exact agree

namespace Particle

/-- Whether a particle comes before another: integers by value, texts and bytes as in a dictionary,
hosted bytes by place and then by number, and the kinds in this order. -/
inductive Below : Particle → Particle → Prop where
  | integers {left right : Int64} (less : left < right) : Below (integer left) (integer right)
  | texts {left right : String} (less : left < right) : Below (text left) (text right)
  | bytes {left right : Bytes} (less : List.Lex (· < ·) left right) :
      Below (bytes left) (bytes right)
  | offsets {offset offset' length length' : Nat} (less : offset < offset') :
      Below (hosted offset length) (hosted offset' length')
  | lengths {offset length length' : Nat} (less : length < length') :
      Below (hosted offset length) (hosted offset length')
  | kinds {left right : Particle} (less : left.kindRank < right.kindRank) : Below left right

theorem compare_of_kindRank_lt {left right : Particle} (less : left.kindRank < right.kindRank) :
    compare left right = .lt := by
  cases left <;> cases right
  case integer.integer | text.text | bytes.bytes | hosted.hosted =>
    exact absurd less (Nat.lt_irrefl _)
  all_goals exact Nat.compare_eq_lt.mpr less

/-- Comparing particles tells their order. -/
theorem compare_eq_lt_iff {left right : Particle} :
    compare left right = .lt ↔ Below left right := by
  constructor
  · intro lesser
    cases left <;> cases right
    case integer.integer => exact .integers (Std.compare_eq_lt.mp lesser)
    case text.text => exact .texts (compare_lt_iff_lt.mp lesser)
    case bytes.bytes => exact .bytes ((compare_lists_eq_lt_iff Std.compare_eq_lt).mp lesser)
    case hosted.hosted =>
      rcases Ordering.then_eq_lt.mp lesser with less | ⟨tie, less⟩
      · exact .offsets (Nat.compare_eq_lt.mp less)
      · obtain rfl := Nat.compare_eq_eq.mp tie
        exact .lengths (Nat.compare_eq_lt.mp less)
    all_goals exact .kinds (Nat.compare_eq_lt.mp lesser)
  · intro lesser
    cases lesser with
    | @integers left right less =>
      change compare left right = .lt
      exact Std.compare_eq_lt.mpr less
    | @texts left right less =>
      change compare left right = .lt
      exact compare_lt_iff_lt.mpr less
    | bytes less => exact (compare_lists_eq_lt_iff Std.compare_eq_lt).mpr less
    | offsets less => exact Ordering.then_eq_lt.mpr (.inl (Nat.compare_eq_lt.mpr less))
    | lengths less =>
      exact Ordering.then_eq_lt.mpr (.inr ⟨Nat.compare_eq_eq.mpr rfl, Nat.compare_eq_lt.mpr less⟩)
    | kinds less => exact compare_of_kindRank_lt less

end Particle

/-- Whether a list of sort key values comes before another. -/
def FieldsBelow : List (Option Particle) → List (Option Particle) → Prop :=
  List.Lex (Option.lt Particle.Below)

/-- Comparing sort keys tells their order. -/
theorem compare_fields_eq_lt_iff {left right : List (Option Particle)} :
    compare left right = .lt ↔ FieldsBelow left right :=
  compare_lists_eq_lt_iff (compare_options_eq_lt_iff Particle.compare_eq_lt_iff)

theorem isGE_compare_fields_iff {left right : List (Option Particle)} :
    (compare left right).isGE = true ↔ ¬ FieldsBelow left right := by
  rw [← compare_fields_eq_lt_iff, Ordering.isGE_iff_ne_lt]

/-- Whether junctions come before others on some keys, compared in turn: the first key on which their
values differ decides, and a missing value is below all others. -/
inductive JunctionsBelow : List Key → Junctions → Junctions → Prop where
  | here {key : Key} {keys : List Key} {left right : Junctions}
      (less : Option.lt Particle.Below (left.get? key) (right.get? key)) :
      JunctionsBelow (key :: keys) left right
  | later {key : Key} {keys : List Key} {left right : Junctions}
      (same : left.get? key = right.get? key) (below : JunctionsBelow keys left right) :
      JunctionsBelow (key :: keys) left right

/-- The order of the lists of sort key values is that of the junctions they are taken from. -/
theorem fieldsBelow_map_iff {keys : List Key} {left right : Junctions} :
    FieldsBelow (keys.map left.get?) (keys.map right.get?) ↔ JunctionsBelow keys left right := by
  rw [FieldsBelow]
  induction keys with
  | nil => exact ⟨nofun, nofun⟩
  | cons key keys ih =>
    rw [List.map_cons, List.map_cons, List.cons_lex_cons_iff, ih]
    constructor
    · rintro (less | ⟨same, below⟩)
      · exact .here less
      · exact .later same below
    · intro lesser
      cases lesser with
      | here less => exact .inl less
      | later same below => exact .inr ⟨same, below⟩

/-- Whether a UCN comes before another in an order. -/
def UcnOrder.Before : UcnOrder → Nat → Nat → Prop
  | ascending, left, right => left < right
  | descending, left, right => right < left

namespace IndexInfo

variable {info : IndexInfo} {left right : Atom}

/-- Whether an atom comes before another in an index. -/
def Precedes (info : IndexInfo) (left right : Atom) : Prop :=
  FieldsBelow (info.fields left.junctions) (info.fields right.junctions) ∨
    info.fields left.junctions = info.fields right.junctions ∧
      (info.order.Before left.ucn right.ucn ∨ left.ucn = right.ucn ∧ left.id < right.id)

/-- Whether an atom comes before another in an index, told by the junctions, UCNs and slots of the
two. -/
def Earlier (info : IndexInfo) (left right : Atom) : Prop :=
  JunctionsBelow info.sortKeys left.junctions right.junctions ∨
    (∀ key ∈ info.sortKeys, left.junctions.get? key = right.junctions.get? key) ∧
      (info.order.Before left.ucn right.ucn ∨ left.ucn = right.ucn ∧ left.id < right.id)

/-- An index puts one atom in front of another just when the declared order does. -/
theorem earlier_iff : info.Earlier left right ↔ info.Precedes left right := by
  rw [Earlier, Precedes, fields, fields, fieldsBelow_map_iff, List.map_inj_left]

/-- An atom is not below a sample in the comparison of an index if its junctions are not on the sort
keys. -/
theorem isGE_compare_iff {junctions sample : Junctions} :
    (compare (info.fields junctions) (info.fields sample)).isGE = true ↔
      ¬ JunctionsBelow info.sortKeys junctions sample := by
  rw [isGE_compare_fields_iff, fields, fields, fieldsBelow_map_iff]

/-- The rank of a UCN tells its order. -/
theorem rank_lt_iff {earlier later : Nat} (first : earlier ≤ Text.maxWord)
    (second : later ≤ Text.maxWord) :
    info.rank earlier < info.rank later ↔ info.order.Before earlier later := by
  rw [rank, rank]
  cases info.order with
  | ascending => exact Iff.rfl
  | descending =>
    change Text.maxWord - earlier < Text.maxWord - later ↔ later < earlier
    omega

theorem rank_eq_iff {earlier later : Nat} (first : earlier ≤ Text.maxWord)
    (second : later ≤ Text.maxWord) : info.rank earlier = info.rank later ↔ earlier = later := by
  rw [rank, rank]
  cases info.order with
  | ascending => exact Iff.rfl
  | descending =>
    change Text.maxWord - earlier = Text.maxWord - later ↔ earlier = later
    omega

/-- The entries of atoms are in the order of the atoms, as long as the UCNs are words. -/
theorem compare_entry_eq_lt_iff (first : left.ucn ≤ Text.maxWord)
    (second : right.ucn ≤ Text.maxWord) :
    compare (info.entry left) (info.entry right) = .lt ↔ info.Precedes left right := by
  change ((compare (info.fields left.junctions) (info.fields right.junctions)).then
    (compare (info.rank left.ucn) (info.rank right.ucn))).then (compare left.id right.id) = .lt ↔ _
  rw [Ordering.then_eq_lt, Ordering.then_eq_lt, Ordering.then_eq_eq, compare_fields_eq_lt_iff,
    Std.LawfulEqOrd.compare_eq_iff_eq, Nat.compare_eq_lt, Nat.compare_eq_eq, Nat.compare_eq_lt,
    rank_lt_iff first second, rank_eq_iff first second, Precedes, and_or_left, or_assoc, and_assoc]

end IndexInfo
end AtomStore
