import AtomStore.Proofs.SortedMap
import AtomStore.Proofs.Store.IndexOrder
import AtomStore.Shell

/-!
# A shell over a list

What a shell answers, said without indices, files and transactions. A plain shell has the list of
the committed atoms and the number of slots that are used up. It goes through the whole list for
every answer, and sorts what it shows.
-/

namespace AtomStore

/-- The place of atoms with regard to each other by UCN, and by slot when they tie. -/
def UcnOrder.compareAtoms (order : UcnOrder) (left right : Atom) : Ordering :=
  match order with
  | .ascending => (compare left.ucn right.ucn).then (compare left.id right.id)
  | .descending => (compare right.ucn left.ucn).then (compare left.id right.id)

/-- The place of atoms with regard to each other by their values under a key; of those that tie the
newest comes first. -/
def Atom.compareUnder (key : Key) (left right : Atom) : Ordering :=
  (compare (left.get? key) (right.get? key)).then (UcnOrder.descending.compareAtoms left right)

instance (order : UcnOrder) : Std.TransCmp order.compareAtoms := by
  cases order with
  | ascending =>
    exact inferInstanceAs (Std.TransCmp (compareLex (compareOn Atom.ucn) (compareOn Atom.id)))
  | descending =>
    have : Std.TransCmp fun left right => compareOn Atom.ucn right left := .opposite
    exact inferInstanceAs (Std.TransCmp
      (compareLex (fun left right => compareOn Atom.ucn right left) (compareOn Atom.id)))

instance (key : Key) : Std.TransCmp (Atom.compareUnder key) :=
  inferInstanceAs (Std.TransCmp (compareLex (compareOn fun atom => atom.get? key)
    UcnOrder.descending.compareAtoms))

/-- The bindings that no later one of the same key replaces. -/
def lastBindings : List (Key × Particle) → List (Key × Particle)
  | [] => []
  | binding :: rest =>
    if rest.any fun later => later.1 == binding.1 then lastBindings rest
    else binding :: lastBindings rest

/-- What a key is bound to after some bindings does not depend on what it was bound to before, if
they bind it. -/
theorem get?_foldl_congr {bindings : List (Key × Particle)} {held other : Junctions} {key : Key}
    (agree : held.get? key = other.get? key ∨ key ∈ bindings.map Prod.fst) :
    (bindings.foldl (fun held binding => held.insert binding.1 binding.2) held).get? key =
      (bindings.foldl (fun held binding => held.insert binding.1 binding.2) other).get? key := by
  induction bindings generalizing held other with
  | nil => exact agree.resolve_right List.not_mem_nil
  | cons binding rest ih =>
    apply ih
    rw [SortedMap.get?_insert, SortedMap.get?_insert]
    by_cases same : key = binding.1
    · rw [if_pos same, if_pos same]
      exact .inl rfl
    · rw [if_neg same, if_neg same]
      exact agree.imp_right fun member => (List.mem_cons.mp member).resolve_left same

/-- Only the last binding of each key counts. -/
theorem ofList_lastBindings (bindings : List (Key × Particle)) :
    SortedMap.ofList (lastBindings bindings) = SortedMap.ofList bindings := by
  suffices general : ∀ (held : Junctions) (key : Key),
      ((lastBindings bindings).foldl (fun held binding => held.insert binding.1 binding.2)
        held).get? key =
      (bindings.foldl (fun held binding => held.insert binding.1 binding.2) held).get? key from
    SortedMap.ext_get? (general .empty)
  induction bindings with
  | nil => exact fun _ _ => rfl
  | cons binding rest ih =>
    intro held key
    rw [lastBindings]
    split
    · rename_i later
      rw [ih, List.foldl_cons]
      apply get?_foldl_congr
      rw [SortedMap.get?_insert]
      by_cases same : key = binding.1
      · obtain ⟨other, member, equal⟩ := List.any_eq_true.mp later
        right
        rw [same, ← beq_iff_eq.mp equal]
        exact List.mem_map_of_mem member
      · rw [if_neg same]
        exact .inl rfl
    · exact ih (held.insert binding.1 binding.2) key

/-- The committed atoms of a store, in the order of their slots, and the number of slots used up. -/
structure PlainShell where
  atoms : List Atom
  used : Nat

namespace PlainShell

/-- What is settled when a shell begins: in which order all atoms are shown, whether atoms may be
put, and the UCN of the first commit, which the atoms do not tell because a record without atoms has
a UCN as well. -/
structure Terms where
  order : UcnOrder
  readOnly : Bool
  firstUcn : Nat
  firstUcn_pos : 0 < firstUcn

variable (terms : Terms) (plain : PlainShell)

/-- The UCN of the next commit, which is above those of all atoms. -/
def nextUcn : Nat :=
  plain.atoms.foldl (fun next atom => max next (atom.ucn + 1)) terms.firstUcn

/-- The next UCN is not zero. -/
theorem nextUcn_pos : 0 < plain.nextUcn terms := by
  rw [nextUcn]
  have positive := terms.firstUcn_pos
  generalize terms.firstUcn = first at positive
  induction plain.atoms generalizing first with
  | nil => exact positive
  | cons atom rest ih => exact ih _ (Nat.lt_of_lt_of_le positive (Nat.le_max_left ..))

/-- The next UCN is above that of an atom that is added. -/
theorem nextUcn_append (atoms : List Atom) (atom : Atom) (used : Nat) :
    nextUcn terms ⟨atoms ++ [atom], used⟩ = max (nextUcn terms ⟨atoms, used⟩) (atom.ucn + 1) := by
  rw [nextUcn, List.foldl_append]
  rfl

/-- The next commit is the first when all atoms are from before. -/
theorem nextUcn_eq_firstUcn (below : ∀ atom ∈ plain.atoms, atom.ucn < terms.firstUcn) :
    plain.nextUcn terms = terms.firstUcn := by
  rw [nextUcn]
  generalize plain.atoms = atoms at below
  induction atoms with
  | nil => rfl
  | cons atom rest ih =>
    obtain ⟨first, others⟩ := List.forall_mem_cons.mp below
    rw [List.foldl_cons, Nat.max_eq_left first]
    exact ih others

/-- The atom that bindings make in the next slot. -/
def sealed (bindings : List (Key × Particle)) : Atom :=
  { id := plain.used
    ucn := plain.nextUcn terms
    junctions := .ofList (lastBindings bindings)
    ucn_pos := plain.nextUcn_pos terms }

/-- Puts one atom into the next slot under the next UCN; a read-only store only loses the slot. -/
def put (arguments : List String) : Reply × PlainShell :=
  if arguments.isEmpty then (.lines ["ERR usage: PUT key=value [key=value ...]"], plain)
  else
    match Shell.readJunctions arguments with
    | .error text => (.lines [s!"ERR bad junction: {text}"], plain)
    | .ok bindings =>
      if terms.readOnly then
        (.lines ["ERR put failed: store is read-only"], { plain with used := plain.used + 1 })
      else
        let atom := plain.sealed terms bindings
        (.lines [s!"OK id={atom.id} ucn={atom.ucn}"], ⟨plain.atoms ++ [atom], plain.used + 1⟩)

/-- Shows the atom of a slot. -/
def get (arguments : List String) : Reply :=
  match arguments.head?.bind Text.word? with
  | none => .lines ["ERR usage: GET id"]
  | some id => Shell.showAtom (plain.atoms.find? fun atom => atom.id == id)

/-- Shows the newest atom that has a value under a key. -/
def find (arguments : List String) : Reply :=
  match arguments.head?.bind Shell.readJunction? with
  | none => .lines ["ERR usage: FIND key=value"]
  | some (key, value) =>
    let found := plain.atoms.filter fun atom => atom.get? key == some value
    let newest := found.mergeSort fun left right =>
      (UcnOrder.descending.compareAtoms left right).isLE
    Shell.showAtom newest.head?

/-- Shows atoms and their number. -/
def list (atoms : List Atom) : Reply :=
  if atoms.isEmpty then .lines ["(empty)"]
  else .lines (atoms.map Atom.render ++ [s!"({atoms.length} atoms)"])

/-- Shows all atoms by UCN, or those that hold a key by their values. -/
def scan (arguments : List String) : Reply :=
  match arguments.head? with
  | none => list (plain.atoms.mergeSort fun left right =>
      (terms.order.compareAtoms left right).isLE)
  | some text =>
    match Text.word? text with
    | none => .lines ["ERR usage: SCAN [key]"]
    | some word =>
      let key := UInt64.ofNat word
      let holding := plain.atoms.filter fun atom => (atom.get? key).isSome
      list (holding.mergeSort fun left right => (left.compareUnder key right).isLE)

/-- The answer to a line, if it is one of the four commands, and the shell after it. -/
def execute (line : String) : Option Reply × PlainShell :=
  match Text.words line with
  | [] => (none, plain)
  | word :: arguments =>
    let command := Text.upper word
    if command = "PUT" then (some (plain.put terms arguments).1, (plain.put terms arguments).2)
    else if command = "GET" then (some (plain.get arguments), plain)
    else if command = "FIND" then (some (plain.find arguments), plain)
    else if command = "SCAN" then (some (plain.scan terms arguments), plain)
    else (none, plain)

/-- No line lowers the UCN of the next commit. -/
theorem nextUcn_le_execute (line : String) :
    plain.nextUcn terms ≤ (plain.execute terms line).2.nextUcn terms := by
  have kept : plain.nextUcn terms ≤ plain.nextUcn terms := Nat.le_refl _
  have grown (arguments : List String) :
      plain.nextUcn terms ≤ (plain.put terms arguments).2.nextUcn terms := by
    rw [put]
    split
    · exact kept
    · split
      · exact kept
      · split
        · exact kept
        · rw [nextUcn_append]
          exact Nat.le_max_left ..
  rw [execute]
  split
  · exact kept
  · simp only
    split_ifs
    · exact grown _
    · exact kept
    · exact kept
    · exact kept
    · exact kept

/-- The shell after some lines. -/
def after (lines : List String) : PlainShell :=
  lines.foldl (fun plain line => (plain.execute terms line).2) plain

/-- The next UCN never goes back. -/
theorem nextUcn_le_after (lines : List String) :
    plain.nextUcn terms ≤ (plain.after terms lines).nextUcn terms := by
  induction lines generalizing plain with
  | nil => exact Nat.le_refl _
  | cons line rest ih => exact Nat.le_trans (plain.nextUcn_le_execute terms line) (ih _)

/-- The answers to lines, each of which the shell after those before it gives. -/
def replies (terms : Terms) (plain : PlainShell) : List String → List (Option Reply)
  | [] => []
  | line :: rest => (plain.execute terms line).1 :: replies terms (plain.execute terms line).2 rest

end PlainShell

namespace Shell

/-- A shell after some lines. -/
def after (shell : Shell) (lines : List String) : Shell :=
  lines.foldl (fun shell line => (shell.execute line).2) shell

/-- The answers of a shell to lines. -/
def replies (shell : Shell) : List String → List Reply
  | [] => []
  | line :: rest => (shell.execute line).1 :: (shell.execute line).2.replies rest

end Shell

end AtomStore
