import AtomStore.Proofs.Shell.Registered
import AtomStore.Proofs.Store.SingleCommit

/-!
# Shells in step with lists

A shell stands where a plain one does when its slots hold the atoms of the list, the next commits of
both have the same UCN, and its indices follow the slots. It still does when an atom is put, when an
index is brought up to date, and when one is registered for a key.
-/

namespace AtomStore

namespace Slots

/-- The atom of a slot is the one in the list of atoms that has its number. -/
theorem find?_atoms {slots : Slots} (sound : slots.Sound) (id : Nat) :
    (slots.atoms.find? fun atom => atom.id == id) = slots.atom? id := by
  cases found : slots.atoms.find? fun atom => atom.id == id with
  | some atom =>
    have held := (mem_atoms sound).mp (List.mem_of_find?_eq_some found)
    have named := List.find?_some found
    rw [Slots.Holds, beq_iff_eq.mp named] at held
    exact (atom?_eq_some_iff.mpr held).symm
  | none =>
    cases held : slots.atom? id with
    | none => rfl
    | some atom =>
      have present := atom?_eq_some_iff.mp held
      have member := (mem_atoms sound).mpr (sound.holds present)
      exact absurd (beq_iff_eq.mpr (sound.id_eq id atom present))
        (List.find?_eq_none.mp found atom member)

end Slots

/-- Whether a shell stands where a plain one does under some terms. -/
structure Shell.Mirrors (shell : Shell) (terms : PlainShell.Terms) (plain : PlainShell) : Prop where
  consistent : shell.store.state.Consistent
  atoms_eq : shell.store.state.slots.atoms = plain.atoms
  size_eq : shell.store.state.slots.size = plain.used
  ucn_eq : shell.store.ucn = plain.nextUcn terms
  readOnly_eq : shell.store.readOnly = terms.readOnly
  writable : terms.readOnly = false → ∀ file ∈ shell.store.file, file.readOnly = false
  registered : Registered terms.order shell.host.nextIndex shell.store.state.indices

namespace Shell

/-- A junction that is typed in holds an integer or a text. -/
theorem byteLength?_of_readJunction? {text : String} {binding : Key × Particle}
    (read : readJunction? text = some binding) : binding.2.byteLength? = none := by
  obtain ⟨⟨key, value⟩, _, rest⟩ := Option.bind_eq_some_iff.mp read
  obtain ⟨word, _, same⟩ := Option.bind_eq_some_iff.mp rest
  obtain rfl := Option.some.inj same
  rw [readValue]
  split <;> rfl

/-- Junctions that are typed in hold integers and texts. -/
theorem byteLength?_of_readJunctions {arguments : List String} {bindings : List (Key × Particle)}
    (read : readJunctions arguments = .ok bindings) :
    ∀ binding ∈ bindings, binding.2.byteLength? = none := by
  induction arguments generalizing bindings with
  | nil =>
    cases read
    exact List.forall_mem_nil _
  | cons text rest ih =>
    rw [readJunctions] at read
    cases first : readJunction? text with
    | none =>
      rw [first] at read
      cases read
    | some binding =>
      rw [first] at read
      cases later : readJunctions rest with
      | error refused =>
        rw [later] at read
        cases read
      | ok others =>
        rw [later] at read
        cases read
        exact List.forall_mem_cons.mpr ⟨byteLength?_of_readJunction? first, ih later⟩

namespace Mirrors

variable {shell : Shell} {terms : PlainShell.Terms} {plain : PlainShell}

/-- Both shells find the same atom. -/
theorem get (mirrors : shell.Mirrors terms plain) (arguments : List String) :
    shell.get arguments = plain.get arguments := by
  rw [Shell.get, PlainShell.get]
  cases arguments.head?.bind Text.word? with
  | none => rfl
  | some id => simp only [← Slots.find?_atoms mirrors.consistent.sound, mirrors.atoms_eq]

/-- A shell that has changed nothing but its indices stands where it did. -/
theorem of_indices (mirrors : shell.Mirrors terms plain) {state : State} {next : Nat}
    (slots : state.slots = shell.store.state.slots) (consistent : state.Consistent)
    (registered : Registered terms.order next state.indices) :
    Mirrors ⟨{ shell.host with nextIndex := next }, { shell.store with state }⟩ terms plain := by
  refine ⟨consistent, ?_, ?_, ?_, mirrors.readOnly_eq, mirrors.writable, registered⟩
  · exact (congrArg Slots.atoms slots).trans mirrors.atoms_eq
  · exact (congrArg Slots.size slots).trans mirrors.size_eq
  · exact (congrArg Slots.ucn slots).trans mirrors.ucn_eq

/-- A commit keeps the state of the store in order. -/
theorem consistent_commit (mirrors : shell.Mirrors terms plain) (transaction : Transaction) :
    (transaction.commit shell.host.directory
      (shell.store.withSlots shell.store.state.slots.reserve.2)).store.state.Consistent := by
  have reserved : StateSteps shell.store.state
      (shell.store.withSlots shell.store.state.slots.reserve.2).state :=
    .single (.reserve shell.store.state)
  have committed := transaction.steps_commit shell.host.directory
    (shell.store.withSlots shell.store.state.slots.reserve.2)
  exact StateSteps.consistent (reserved.trans committed) mirrors.consistent

/-- A shell that is read-only loses a slot. -/
theorem put_of_readOnly (mirrors : shell.Mirrors terms plain) (locked : terms.readOnly = true)
    {arguments : List String} (given : ¬arguments.isEmpty = true)
    {bindings : List (Key × Particle)} (read : readJunctions arguments = .ok bindings) :
    (shell.put arguments).1 = .lines ["ERR put failed: store is read-only"] ∧
      (shell.put arguments).2.Mirrors terms { plain with used := plain.used + 1 } := by
  obtain ⟨started, transaction, reserved, made, single⟩ :=
    Transaction.single_of_createAtom shell.store (.ofList bindings)
  have consistent := mirrors.consistent_commit transaction
  have ended := single.commit_locked rfl (mirrors.readOnly_eq.trans locked) shell.host.directory
  rw [ended] at consistent
  rw [Shell.put, if_neg given, read]
  simp only [reserved, made, ended]
  refine ⟨rfl, ⟨consistent, ?_, ?_, mirrors.ucn_eq, mirrors.readOnly_eq, mirrors.writable,
    mirrors.registered⟩⟩
  · rw [← mirrors.atoms_eq]
    exact (shell.store.state.slots.atoms_push .never).trans (List.append_nil _)
  · rw [← mirrors.size_eq]
    exact shell.store.state.slots.size_push .never

/-- A shell that is not read-only takes the atom into the next slot. -/
theorem put_of_writable (mirrors : shell.Mirrors terms plain) (unlocked : terms.readOnly = false)
    {arguments : List String} (given : ¬arguments.isEmpty = true)
    {bindings : List (Key × Particle)} (read : readJunctions arguments = .ok bindings) :
    (shell.put arguments).1 = .lines [s!"OK id={plain.used} ucn={plain.nextUcn terms}"] ∧
      (shell.put arguments).2.Mirrors terms
        ⟨plain.atoms ++ [plain.sealed terms bindings], plain.used + 1⟩ := by
  have inline : ∀ binding ∈ (SortedMap.ofList bindings).entries,
      binding.2.byteLength? = none := by
    intro binding member
    apply byteLength?_of_readJunctions read
    exact SortedMap.mem_of_get?_ofList (SortedMap.get?_eq_some_iff.mpr member)
  obtain ⟨started, transaction, reserved, made, single⟩ :=
    Transaction.single_of_createAtom shell.store (.ofList bindings)
  have consistent := mirrors.consistent_commit transaction
  obtain ⟨written, file, state, ended, writable, atoms, size, ucn, indices⟩ :=
    single.commit_of_inline rfl (mirrors.readOnly_eq.trans unlocked) (mirrors.writable unlocked)
      inline shell.host.directory
  rw [ended] at consistent
  rw [Shell.put, if_neg given, read]
  simp only [reserved, made, ended]
  refine ⟨?_, ⟨consistent, ?_, ?_, ?_, mirrors.readOnly_eq, fun _ => writable, ?_⟩⟩
  · rw [Option.getD_some, mirrors.size_eq, mirrors.ucn_eq]
  · have same : plain.sealed terms bindings =
        Draft.toAtom ⟨shell.store.state.slots.size, .ofList bindings⟩
          shell.store.state.slots.ucn shell.store.state.slots.ucn_pos := by
      have now : shell.store.state.slots.ucn = plain.nextUcn terms := mirrors.ucn_eq
      simp only [PlainShell.sealed, Draft.toAtom, ofList_lastBindings, mirrors.size_eq, now]
    rw [same, ← mirrors.atoms_eq]
    exact atoms
  · rw [size, mirrors.size_eq]
  · rw [PlainShell.nextUcn_append, Store.ucn, ucn, mirrors.ucn_eq]
    exact (Nat.max_eq_right (Nat.le_succ (plain.nextUcn terms))).symm
  · rcases indices with kept | current
    · rw [kept]
      exact mirrors.registered
    · rw [current]
      exact mirrors.registered.update fun index => index.grows_refresh state.slots

/-- Putting an atom has the same answer, and leads to where putting it into the list does. -/
theorem put (mirrors : shell.Mirrors terms plain) (arguments : List String) :
    (shell.put arguments).1 = (plain.put terms arguments).1 ∧
      (shell.put arguments).2.Mirrors terms (plain.put terms arguments).2 := by
  by_cases empty : arguments.isEmpty = true
  · rw [Shell.put, PlainShell.put, if_pos empty, if_pos empty]
    exact ⟨rfl, mirrors⟩
  cases read : readJunctions arguments with
  | error text =>
    rw [Shell.put, PlainShell.put, if_neg empty, if_neg empty, read]
    exact ⟨rfl, mirrors⟩
  | ok bindings =>
    rw [PlainShell.put, if_neg empty, read]
    simp only
    split
    · rename_i locked
      exact mirrors.put_of_readOnly locked empty read
    · rename_i open'
      exact mirrors.put_of_writable (eq_false_of_ne_true open') empty read

/-- An index of a shell is brought up to date and given, and the shell stands where it did. -/
theorem refreshed (mirrors : shell.Mirrors terms plain) {index : Index}
    (member : index ∈ shell.store.state.indices) :
    (shell.refreshed index.id).1 = some (index.refresh shell.store.state.slots) ∧
      index.refresh shell.store.state.slots ∈
        (shell.refreshed index.id).2.store.state.indices ∧
      (shell.refreshed index.id).2.Mirrors terms plain := by
  have consistent : (shell.store.state.refresh index.id).Consistent :=
    (StateStep.refresh shell.store.state index.id).consistent mirrors.consistent
  let update (other : Index) : Index :=
    if other.id = index.id then other.refresh shell.store.state.slots else other
  have grows (other : Index) : other.Grows (update other) := by
    simp only [update]
    split
    · exact other.grows_refresh shell.store.state.slots
    · exact .refl other
  have registered : Registered terms.order shell.host.nextIndex
      (shell.store.state.indices.map update) := mirrors.registered.update grows
  have current : update index = index.refresh shell.store.state.slots := if_pos rfl
  have known : index.refresh shell.store.state.slots ∈ shell.store.state.indices.map update :=
    List.mem_map.mpr ⟨index, member, current⟩
  refine ⟨?_, known, mirrors.of_indices rfl consistent registered⟩
  rw [← registered.find?_id known, (index.grows_refresh shell.store.state.slots).id_eq]
  rfl

/-- There is an index for every key, and the shell that has it stands where it did before. -/
theorem indexFor (mirrors : shell.Mirrors terms plain) (key : Key) :
    ∃ index next, shell.indexFor key = .ok (index.id, next) ∧ next.Mirrors terms plain ∧
      index ∈ next.store.state.indices ∧ index.info = keyIndex key := by
  cases named : shell.store.state.indexNamed? (keyIndex key).name with
  | some index =>
    have member : index ∈ shell.store.state.indices := List.mem_of_find?_eq_some named
    have same : (index.info.name == (keyIndex key).name) = true := by
      rw [State.indexNamed?] at named
      apply List.find?_some named
    refine ⟨index, shell, ?_, mirrors, member, ?_⟩
    · rw [Shell.indexFor, named]
    · exact mirrors.registered.info_of_name member (beq_iff_eq.mp same)
  | none =>
    let fresh : Index := { id := shell.host.nextIndex, info := keyIndex key }
    let state : State :=
      { shell.store.state with indices := shell.store.state.indices ++ [fresh] }
    have added : shell.store.state.addIndex shell.host.nextIndex (keyIndex key) =
        .ok (fresh, state) := by
      rw [State.addIndex, named]
      rfl
    let wider : Shell := ⟨{ shell.host with nextIndex := shell.host.nextIndex + 1 },
      { shell.store with state }⟩
    have stands : wider.Mirrors terms plain := mirrors.of_indices rfl
      ((StateStep.addIndex added).consistent mirrors.consistent) (mirrors.registered.add key)
    have member : fresh ∈ state.indices :=
      List.mem_append_right _ (List.mem_singleton_self fresh)
    have created : shell.indexFor key = .ok (fresh.id, ⟨wider.host, { shell.store with
        state := if shell.store.defaultIndexing then state.refresh fresh.id else state }⟩) := by
      rw [Shell.indexFor, named, Store.createIndex, added]
      rfl
    by_cases indexing : shell.store.defaultIndexing = true
    · obtain ⟨_, inside, later⟩ := stands.refreshed member
      have grows := fresh.grows_refresh state.slots
      refine ⟨fresh.refresh state.slots, (wider.refreshed fresh.id).2, ?_, later, inside,
        grows.info_eq⟩
      rw [created, if_pos indexing, grows.id_eq]
      rfl
    · refine ⟨fresh, wider, ?_, stands, member, rfl⟩
      rw [created, if_neg indexing]

end Mirrors
end Shell
end AtomStore
