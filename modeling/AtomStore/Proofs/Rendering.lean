import AtomStore.Shell
import AtomStore.Proofs.Text.Quoted

/-!
# Shown atoms

What is shown of an atom whose values are integers and texts tells all of it, and where it stands in
an output it ends in one place only. So no text that an atom holds can pass for another junction of
it, or for another atom in the answer to a command.
-/

namespace AtomStore

open Text (Clear clear_cons toDigits_append_inj toDigits_append_ne_cons repr_append_inj
  repr_append_ne_cons quoted_append_inj)

/-- Whether a particle is shown in full, which a run of bytes is not. -/
def Particle.Legible : Particle → Prop
  | integer _ => True
  | text _ => True
  | bytes _ => False
  | hosted _ _ => False

instance : DecidablePred Particle.Legible
  | .integer _ => .isTrue trivial
  | .text _ => .isTrue trivial
  | .bytes _ => .isFalse id
  | .hosted _ _ => .isFalse id

/-- Whether all values of an atom are shown in full. -/
def Atom.Legible (atom : Atom) : Prop :=
  ∀ junction ∈ atom.junctions.entries, junction.2.Legible

instance : DecidablePred Atom.Legible := fun atom =>
  inferInstanceAs (Decidable (∀ junction ∈ atom.junctions.entries, junction.2.Legible))

variable {first second : List Char}

/-- The shown form of a particle tells where it ends and which particle it is. -/
theorem Particle.render_append_inj {left right : Particle} (here : left.Legible)
    (there : right.Legible) (clear : Clear first) (free : Clear second)
    (same : left.render.toList ++ first = right.render.toList ++ second) :
    left = right ∧ first = second := by
  have apart (value : Int) (content : String) (rest behind : List Char) :
      value.repr.toList ++ rest ≠ (Text.quoted content).toList ++ behind := by
    rw [Text.toList_quoted, List.cons_append]
    exact repr_append_ne_cons rfl (by decide)
  cases left with
  | integer value =>
    cases right with
    | integer other =>
      obtain ⟨equal, ends⟩ := repr_append_inj clear free same
      exact ⟨congrArg integer (Int64.toInt_inj.mp equal), ends⟩
    | text other => exact (apart _ _ _ _ same).elim
    | bytes other => exact there.elim
    | hosted offset length => exact there.elim
  | text value =>
    cases right with
    | integer other => exact (apart _ _ _ _ same.symm).elim
    | text other =>
      obtain ⟨equal, ends⟩ := quoted_append_inj same
      exact ⟨congrArg text equal, ends⟩
    | bytes other => exact there.elim
    | hosted offset length => exact there.elim
  | bytes value => exact here.elim
  | hosted offset length => exact here.elim

namespace Atom

/-- A junction is shown as its key and its particle. -/
theorem toList_renderJunction (junction : Key × Particle) :
    (renderJunction junction).toList =
      Nat.toDigits 10 junction.1.toNat ++ '=' :: junction.2.render.toList := by
  simp [renderJunction, toString]

/-- The shown form of a junction tells where it ends and which junction it is. -/
theorem renderJunction_append_inj {left right : Key × Particle} (here : left.2.Legible)
    (there : right.2.Legible) (clear : Clear first) (free : Clear second)
    (same : (renderJunction left).toList ++ first = (renderJunction right).toList ++ second) :
    left = right ∧ first = second := by
  rw [toList_renderJunction, toList_renderJunction, List.append_assoc, List.append_assoc,
    List.cons_append, List.cons_append] at same
  obtain ⟨keys, behind⟩ := toDigits_append_inj (by decide) (by decide) (clear_cons rfl)
    (clear_cons rfl) same
  obtain ⟨values, ends⟩ := Particle.render_append_inj here there clear free
    (List.cons.inj behind).2
  exact ⟨Prod.ext (UInt64.toNat_inj.mp keys) values, ends⟩

/-- The shown form of the junctions behind the first one. -/
def renderMore (junctions : List (Key × Particle)) : List Char :=
  junctions.flatMap fun junction => ',' :: ' ' :: (renderJunction junction).toList

/-- What follows the first junction does not go on with its particle. -/
theorem clear_renderMore (junctions : List (Key × Particle)) (rest : List Char) :
    Clear (renderMore junctions ++ '\x7d' :: rest) := by
  cases junctions with
  | nil => exact clear_cons rfl
  | cons => exact clear_cons rfl

/-- Junctions are shown with a comma between them. -/
theorem toList_intercalate_cons (junction : Key × Particle) (rest : List (Key × Particle)) :
    (String.intercalate ", " ((junction :: rest).map renderJunction)).toList =
      (renderJunction junction).toList ++ renderMore rest := by
  induction rest generalizing junction with
  | nil => simp [renderMore]
  | cons next later ih =>
    have onward := ih next
    rw [List.map_cons] at onward
    rw [List.map_cons, List.map_cons, String.intercalate_cons_cons, String.toList_append, onward]
    simp [renderMore]

/-- The junctions behind the first one are told apart up to the brace that ends them. -/
theorem renderMore_append_inj {left right : List (Key × Particle)}
    (here : ∀ junction ∈ left, junction.2.Legible)
    (there : ∀ junction ∈ right, junction.2.Legible)
    (same : renderMore left ++ '\x7d' :: first = renderMore right ++ '\x7d' :: second) :
    left = right ∧ first = second := by
  induction left generalizing right with
  | nil =>
    cases right with
    | nil => exact ⟨rfl, (List.cons.inj same).2⟩
    | cons => exact absurd (List.cons.inj same).1 (by decide)
  | cons junction rest ih =>
    cases right with
    | nil => exact absurd (List.cons.inj same).1 (by decide)
    | cons other more =>
      obtain ⟨own, later⟩ := List.forall_mem_cons.mp here
      obtain ⟨different, others⟩ := List.forall_mem_cons.mp there
      have behind : (renderJunction junction).toList ++ (renderMore rest ++ '\x7d' :: first) =
          (renderJunction other).toList ++ (renderMore more ++ '\x7d' :: second) := by
        rw [← List.append_assoc, ← List.append_assoc]
        exact (List.cons.inj (List.cons.inj same).2).2
      obtain ⟨rfl, onward⟩ := renderJunction_append_inj own different (clear_renderMore _ _)
        (clear_renderMore _ _) behind
      obtain ⟨rfl, ends⟩ := ih later others onward
      exact ⟨rfl, ends⟩

/-- The junctions of an atom are told apart up to the brace that ends them. -/
theorem intercalate_append_inj {left right : List (Key × Particle)}
    (here : ∀ junction ∈ left, junction.2.Legible)
    (there : ∀ junction ∈ right, junction.2.Legible)
    (same : (String.intercalate ", " (left.map renderJunction)).toList ++ '\x7d' :: first =
      (String.intercalate ", " (right.map renderJunction)).toList ++ '\x7d' :: second) :
    left = right ∧ first = second := by
  -- a junction begins with the digits of its key, so it is never taken for the brace
  have begun (junction : Key × Particle) (more : List (Key × Particle)) (rest behind : List Char) :
      '\x7d' :: behind ≠
        (String.intercalate ", " ((junction :: more).map renderJunction)).toList ++ rest := by
    intro clash
    rw [toList_intercalate_cons, toList_renderJunction, List.append_assoc, List.append_assoc]
      at clash
    exact toDigits_append_ne_cons (by decide) (by decide) rfl clash.symm
  cases left with
  | nil =>
    cases right with
    | nil => exact ⟨rfl, (List.cons.inj same).2⟩
    | cons other more => exact (begun _ _ _ _ same).elim
  | cons junction rest =>
    cases right with
    | nil => exact (begun _ _ _ _ same.symm).elim
    | cons other more =>
      obtain ⟨own, later⟩ := List.forall_mem_cons.mp here
      obtain ⟨different, others⟩ := List.forall_mem_cons.mp there
      rw [toList_intercalate_cons, toList_intercalate_cons, List.append_assoc,
        List.append_assoc] at same
      obtain ⟨rfl, behind⟩ := renderJunction_append_inj own different (clear_renderMore _ _)
        (clear_renderMore _ _) same
      obtain ⟨rfl, ends⟩ := renderMore_append_inj later others behind
      exact ⟨rfl, ends⟩

/-- An atom is shown as its slot, its UCN and its junctions in braces. -/
theorem toList_render (atom : Atom) :
    atom.render.toList = '#' :: (Nat.toDigits 10 atom.id ++ '@' :: (Nat.toDigits 10 atom.ucn ++
      ' ' :: '\x7b' ::
        ((String.intercalate ", " (atom.junctions.entries.map renderJunction)).toList ++
          ['\x7d']))) := by
  simp [render, toString]

/-- A shown atom is told apart from whatever follows it. -/
theorem render_append_inj {left right : Atom} (here : left.Legible) (there : right.Legible)
    (same : left.render.toList ++ first = right.render.toList ++ second) :
    left = right ∧ first = second := by
  obtain ⟨id, ucn, junctions, _⟩ := left
  obtain ⟨other, number, bound, _⟩ := right
  simp only [toList_render, List.cons_append, List.append_assoc, List.nil_append, List.cons.injEq,
    true_and] at same
  obtain ⟨rfl, counted⟩ := toDigits_append_inj (by decide) (by decide) (clear_cons rfl)
    (clear_cons rfl) same
  obtain ⟨rfl, braced⟩ := toDigits_append_inj (by decide) (by decide) (clear_cons rfl)
    (clear_cons rfl) (List.cons.inj counted).2
  obtain ⟨entries, ends⟩ := intercalate_append_inj here there
    (List.cons.inj (List.cons.inj braced).2).2
  obtain rfl := SortedMap.eq_of_entries entries
  exact ⟨rfl, ends⟩

/-- Atoms are shown on lines of their own. -/
theorem toList_lines (atoms : List Atom) :
    (String.join ((atoms.map render).map (· ++ "\n"))).toList =
      atoms.flatMap fun atom => atom.render.toList ++ ['\n'] := by
  simp [List.flatMap_map]

/-- Atoms on lines of their own are told apart up to where no further atom is shown. -/
theorem lines_append_inj {left right : List Atom} (here : ∀ atom ∈ left, atom.Legible)
    (there : ∀ atom ∈ right, atom.Legible) (stop : first.head? ≠ some '#')
    (halt : second.head? ≠ some '#')
    (same : (left.flatMap fun atom => atom.render.toList ++ ['\n']) ++ first =
      (right.flatMap fun atom => atom.render.toList ++ ['\n']) ++ second) :
    left = right ∧ first = second := by
  induction left generalizing right with
  | nil =>
    cases right with
    | nil => exact ⟨rfl, same⟩
    | cons other more =>
      rw [List.flatMap_cons, toList_render] at same
      exact absurd (congrArg List.head? same) stop
  | cons atom rest ih =>
    cases right with
    | nil =>
      rw [List.flatMap_cons, toList_render] at same
      exact absurd (congrArg List.head? same).symm halt
    | cons other more =>
      obtain ⟨own, later⟩ := List.forall_mem_cons.mp here
      obtain ⟨different, others⟩ := List.forall_mem_cons.mp there
      simp only [List.flatMap_cons, List.append_assoc] at same
      obtain ⟨rfl, behind⟩ := render_append_inj own different same
      obtain ⟨rfl, ends⟩ := ih later others (List.cons.inj behind).2
      exact ⟨rfl, ends⟩

/-- Atoms that are shown alike are the same. -/
theorem render_inj {left right : Atom} (here : left.Legible) (there : right.Legible)
    (same : left.render = right.render) : left = right := by
  have texts : left.render.toList ++ [] = right.render.toList ++ [] := by rw [same]
  exact (render_append_inj here there texts).1

/-- Atoms of integers and texts that are shown alike have the same slot, the same UCN and the same
junctions. So have those that are shown for a search or a slot, where an atom is never taken for the
note that there is none. And where atoms are shown line by line, at the front of two outputs that
agree, they are the same atoms, and so is what follows them, however the texts in them may look. -/
theorem render_unambiguous :
    (∀ left right : Atom, left.Legible → right.Legible →
      (left.render = right.render ↔
        left.id = right.id ∧ left.ucn = right.ucn ∧ left.junctions = right.junctions)) ∧
    (∀ left right : Option Atom, (∀ atom ∈ left, atom.Legible) → (∀ atom ∈ right, atom.Legible) →
      (Shell.showAtom left = Shell.showAtom right ↔ left = right)) ∧
    ∀ (left right : List Atom) (first second : String),
      (∀ atom ∈ left, atom.Legible) → (∀ atom ∈ right, atom.Legible) →
      first.toList.head? ≠ some '#' → second.toList.head? ≠ some '#' →
      String.join ((left.map render).map (· ++ "\n")) ++ first =
        String.join ((right.map render).map (· ++ "\n")) ++ second →
      left = right ∧ first = second := by
  refine ⟨fun left right here there => ?_, fun left right here there => ?_,
    fun left right first second here there stop halt same => ?_⟩
  · constructor
    · intro same
      obtain rfl := render_inj here there same
      exact ⟨rfl, rfl, rfl⟩
    · obtain ⟨id, ucn, junctions, _⟩ := left
      obtain ⟨other, number, bound, _⟩ := right
      rintro ⟨rfl, rfl, rfl⟩
      rfl
  · have unlike (atom : Atom) : Shell.showAtom none ≠ Shell.showAtom (some atom) := by
      intro same
      have shown := congrArg String.toList (List.cons.inj (Reply.lines.inj same)).1
      rw [toList_render] at shown
      exact absurd (List.cons.inj shown).1 (by decide)
    constructor
    · intro same
      cases left with
      | none =>
        cases right with
        | none => rfl
        | some other => exact absurd same (unlike other)
      | some atom =>
        cases right with
        | none => exact absurd same.symm (unlike atom)
        | some other =>
          have shown := (List.cons.inj (Reply.lines.inj same)).1
          exact congrArg some (render_inj (here atom rfl) (there other rfl) shown)
    · rintro rfl
      rfl
  · have texts := congrArg String.toList same
    rw [String.toList_append, String.toList_append, toList_lines, toList_lines] at texts
    obtain ⟨atoms, ends⟩ := lines_append_inj here there stop halt texts
    exact ⟨atoms, String.toList_inj.mp ends⟩

/-- A text that spells out the end of its own quotes and another junction is not shown as the two
junctions, neither alone nor among the lines of an answer in front of the prompt. -/
theorem render_unambiguous_imitation :
    let imitation : Atom := ⟨3, 8, .ofList [(1, .text "a\", 2=\"b")], by decide⟩
    let genuine : Atom := ⟨3, 8, .ofList [(1, .text "a"), (2, .text "b")], by decide⟩
    imitation.Legible ∧ genuine.Legible ∧ imitation.render ≠ genuine.render ∧
      Shell.showAtom imitation ≠ Shell.showAtom genuine ∧
      String.join (([genuine, imitation].map render).map (· ++ "\n")) ++ "> " ≠
        String.join (([genuine, genuine].map render).map (· ++ "\n")) ++ "> " := by
  intro imitation genuine
  have here : imitation.Legible := by decide
  have there : genuine.Legible := by decide
  have unlike : imitation.junctions ≠ genuine.junctions := by decide
  refine ⟨here, there, ?_, ?_, ?_⟩
  · intro same
    exact unlike ((render_unambiguous.1 imitation genuine here there).mp same).2.2
  · intro same
    have found := (render_unambiguous.2.1 imitation genuine (by simpa using here)
      (by simpa using there)).mp same
    exact unlike (congrArg junctions (Option.some.inj found))
  · intro same
    have found := (render_unambiguous.2.2 [genuine, imitation] [genuine, genuine] "> " "> "
      (by simpa using ⟨there, here⟩) (by simpa using there) (by decide) (by decide) same).1
    exact unlike (congrArg junctions (List.cons.inj (List.cons.inj found).2).1)

end Atom
end AtomStore
