import AtomStore.Proofs.Shell.Mirror
import AtomStore.Proofs.Store.Repair

/-!
# Answers of a shell

A shell answers as one that only has a list of atoms. Every search and every listing goes through an
index that has just been brought up to date, and so gives what going through the list would.
-/

namespace AtomStore
namespace Shell
namespace Mirrors

variable {shell : Shell} {terms : PlainShell.Terms} {plain : PlainShell}

/-- Some of the atoms of an index, once it is up to date, are what sorting those of the list that
its condition admits would give. -/
theorem filter_listed (mirrors : shell.Mirrors terms plain)
    (room : plain.nextUcn terms ≤ Text.maxWord) {index : Index}
    (member : index ∈ shell.store.state.indices) (chosen : Atom → Bool)
    (order : Atom → Atom → Ordering) [Std.TransCmp order]
    (agree : ∀ left right, chosen left = true → chosen right = true →
      (compare (index.info.fields left.junctions) (index.info.fields right.junctions)).then
        (index.info.order.compareAtoms left right) = order left right) :
    ((index.refresh shell.store.state.slots).walk.remaining
        (index.refresh shell.store.state.slots)).filter chosen =
      (plain.atoms.filter fun atom => chosen atom && index.info.condition.accepts atom).mergeSort
        fun left right => (order left right).isLE := by
  have sound := mirrors.consistent.sound
  have bounded : ∀ atom ∈ shell.store.state.slots.atoms, atom.ucn < Text.maxWord := by
    intro atom inside
    have below := sound.ucn_lt atom.id atom ((Slots.mem_atoms sound).mp inside)
    have next : shell.store.state.slots.ucn = plain.nextUcn terms := mirrors.ucn_eq
    omega
  obtain ⟨follows, current⟩ := (mirrors.consistent.follows index member).refresh sound
  have info : (index.refresh shell.store.state.slots).info = index.info :=
    (index.grows_refresh shell.store.state.slots).info_eq
  have placed : ∀ left ∈ shell.store.state.slots.atoms, ∀ right ∈ shell.store.state.slots.atoms,
      chosen left = true → chosen right = true →
      compare ((index.refresh shell.store.state.slots).info.entry left)
        ((index.refresh shell.store.state.slots).info.entry right) = order left right := by
    intro left inside right among first second
    rw [info, index.info.compare_entry (bounded left inside).le (bounded right among).le]
    exact agree left right first second
  rw [follows.filter_remaining_eq sound current chosen placed, ← mirrors.atoms_eq, info]
  congr 1
  apply List.filter_congr
  intro atom inside
  rw [mirrors.registered.accepts_eq member (bounded atom inside)]

/-- An index shows the atoms of the list that its condition admits. -/
theorem listed (mirrors : shell.Mirrors terms plain)
    (room : plain.nextUcn terms ≤ Text.maxWord) {index : Index}
    (member : index ∈ shell.store.state.indices)
    (order : Atom → Atom → Ordering) [Std.TransCmp order]
    (agree : ∀ left right,
      (compare (index.info.fields left.junctions) (index.info.fields right.junctions)).then
        (index.info.order.compareAtoms left right) = order left right) :
    (shell.list index.id).1 = PlainShell.list
        ((plain.atoms.filter index.info.condition.accepts).mergeSort
          fun left right => (order left right).isLE) ∧
      (shell.list index.id).2.Mirrors terms plain := by
  obtain ⟨current, _, later⟩ := mirrors.refreshed member
  have shown := mirrors.filter_listed room member (fun _ => true) order
    fun left right _ _ => agree left right
  rw [List.filter_eq_self.mpr fun _ _ => rfl] at shown
  simp only [Bool.true_and] at shown
  rw [Shell.list, PlainShell.list, ← shown]
  simp only [current]
  split
  · exact ⟨rfl, later⟩
  · exact ⟨rfl, later⟩

/-- A search through the index for a key gives the newest atom of the list with the value. -/
theorem find?_refresh (mirrors : shell.Mirrors terms plain)
    (room : plain.nextUcn terms ≤ Text.maxWord) {index : Index}
    (member : index ∈ shell.store.state.indices) {key : Key} (info : index.info = keyIndex key)
    (value : Particle) :
    (index.refresh shell.store.state.slots).find? (SortedMap.empty.insert key value) =
      ((plain.atoms.filter fun atom => atom.get? key == some value).mergeSort
        fun left right => (UcnOrder.descending.compareAtoms left right).isLE).head? := by
  let sample : Junctions := SortedMap.empty.insert key value
  let chosen (atom : Atom) : Bool :=
    (keyIndex key).fields atom.junctions == (keyIndex key).fields sample
  have tied : ∀ left right, chosen left = true → chosen right = true →
      (compare (index.info.fields left.junctions) (index.info.fields right.junctions)).then
        (index.info.order.compareAtoms left right) =
          UcnOrder.descending.compareAtoms left right := by
    intro left right first second
    have equal : compare ((keyIndex key).fields sample) ((keyIndex key).fields sample) = .eq :=
      Std.ReflCmp.compare_self
    rw [info, beq_iff_eq.mp first, beq_iff_eq.mp second, equal]
    rfl
  have fits (atom : Atom) : (chosen atom && (keyIndex key).condition.accepts atom) =
      (atom.get? key == some value) := by
    have bound : sample.get? key = some value := SortedMap.get?_insert_self ..
    change ([atom.get? key] == [sample.get? key] && (atom.get? key).isSome) = _
    rw [bound]
    cases atom.get? key with
    | none => rfl
    | some held => simp only [List.cons_beq_cons, BEq.rfl, Bool.and_true, Option.isSome_some]
  obtain ⟨follows, _⟩ := (mirrors.consistent.follows index member).refresh mirrors.consistent.sound
  have listed := mirrors.filter_listed room member chosen UcnOrder.descending.compareAtoms tied
  rw [info] at listed
  simp only [fits] at listed
  rw [follows.find?_eq, (index.grows_refresh shell.store.state.slots).info_eq, info, ← listed]

/-- A search has the same answer. -/
theorem find (mirrors : shell.Mirrors terms plain)
    (room : plain.nextUcn terms ≤ Text.maxWord) (arguments : List String) :
    (shell.find arguments).1 = plain.find arguments ∧
      (shell.find arguments).2.Mirrors terms plain := by
  rw [Shell.find, PlainShell.find]
  cases arguments.head?.bind readJunction? with
  | none => exact ⟨rfl, mirrors⟩
  | some binding =>
    obtain ⟨key, value⟩ := binding
    obtain ⟨index, indexed, known, stands, member, info⟩ := mirrors.indexFor key
    obtain ⟨current, _, later⟩ := stands.refreshed member
    simp only [known, current, Option.bind_some]
    refine ⟨?_, later⟩
    rw [stands.find?_refresh room member info value]

/-- A listing has the same answer. -/
theorem scan (mirrors : shell.Mirrors terms plain)
    (room : plain.nextUcn terms ≤ Text.maxWord) (arguments : List String) :
    (shell.scan arguments).1 = plain.scan terms arguments ∧
      (shell.scan arguments).2.Mirrors terms plain := by
  rw [Shell.scan, PlainShell.scan]
  cases arguments.head? with
  | none =>
    obtain ⟨global, first, info⟩ := mirrors.registered.first
    have member : global ∈ shell.store.state.indices := List.mem_of_head? first
    have all : plain.atoms.filter global.info.condition.accepts = plain.atoms := by
      rw [info]
      exact List.filter_eq_self.mpr fun _ _ => rfl
    have shown := mirrors.listed room member terms.order.compareAtoms ?_
    · rw [all] at shown
      simp only [first]
      exact shown
    · intro left right
      rw [info]
      rfl
  | some text =>
    simp only
    cases Text.word? text with
    | none => exact ⟨rfl, mirrors⟩
    | some word =>
      obtain ⟨index, indexed, found, stands, member, info⟩ :=
        mirrors.indexFor (UInt64.ofNat word)
      simp only [found]
      have shown := stands.listed room member (Atom.compareUnder (UInt64.ofNat word)) ?_
      · rw [info] at shown
        exact shown
      · intro left right
        rw [info, compare_fields_keyIndex]
        rfl

/-- Listing the indices leaves a shell where it stands. -/
theorem indices (mirrors : shell.Mirrors terms plain) : shell.indices.2.Mirrors terms plain :=
  mirrors.of_indices rfl
    ((StateStep.refreshAll shell.store.state).consistent mirrors.consistent)
    (mirrors.registered.update fun index => index.grows_refresh shell.store.state.slots)

/-- A line has the same answer, if it is one of the four commands, and leads to where it leads the
plain shell. -/
theorem execute (mirrors : shell.Mirrors terms plain)
    (room : plain.nextUcn terms ≤ Text.maxWord) (line : String) :
    (∀ expected ∈ (plain.execute terms line).1, (shell.execute line).1 = expected) ∧
      (shell.execute line).2.Mirrors terms (plain.execute terms line).2 := by
  have unasked (reply : Reply) : ∀ expected ∈ (none : Option Reply), reply = expected := by
    intro expected impossible
    cases impossible
  have asked {reply answer : Reply} (same : reply = answer) :
      ∀ expected ∈ some answer, reply = expected := by
    intro expected given
    rw [same, Option.mem_some.mp given]
  rw [Shell.execute, PlainShell.execute]
  cases Text.words line with
  | nil => exact ⟨unasked _, mirrors⟩
  | cons word arguments =>
    simp only
    split_ifs
    · obtain ⟨same, later⟩ := mirrors.put arguments
      exact ⟨asked same, later⟩
    · exact ⟨asked (mirrors.get arguments), mirrors⟩
    · obtain ⟨same, later⟩ := mirrors.find room arguments
      exact ⟨asked same, later⟩
    · obtain ⟨same, later⟩ := mirrors.scan room arguments
      exact ⟨asked same, later⟩
    · exact ⟨unasked _, mirrors.indices⟩
    · exact ⟨unasked _, mirrors⟩
    · exact ⟨unasked _, mirrors⟩
    · exact ⟨unasked _, mirrors⟩

/-- Lines have the same answers, one after the other, and lead to where they lead the plain
shell. -/
theorem replies (mirrors : shell.Mirrors terms plain) (lines : List String)
    (room : (plain.after terms lines).nextUcn terms ≤ Text.maxWord) :
    List.Forall₂ (fun reply answer => ∀ expected ∈ answer, reply = expected)
        (shell.replies lines) (plain.replies terms lines) ∧
      (shell.after lines).Mirrors terms (plain.after terms lines) := by
  induction lines generalizing shell plain with
  | nil => exact ⟨.nil, mirrors⟩
  | cons line rest ih =>
    have here := (plain.nextUcn_le_after terms (line :: rest)).trans room
    obtain ⟨answer, stands⟩ := mirrors.execute here line
    obtain ⟨answers, later⟩ := ih stands room
    exact ⟨.cons answer answers, later⟩

end Mirrors

/-- Shells that begin with a store in memory, a new file or a file that opens, where commits and the
indexing at commits may have been switched off or on. -/
inductive Begun : Shell → Prop where
  | inMemory (host : Host) (settings : Settings) :
      Begun ⟨(Store.inMemory host settings).2, (Store.inMemory host settings).1⟩
  | created {host next : Host} {settings : Settings} {storeId : StoreId} {metadata : Metadata}
      {store : Store}
      (created : Store.create host settings storeId metadata = (next, .ok store)) :
      Begun ⟨next, store⟩
  | opened {host next : Host} {settings : Settings} {store : Store}
      (opened : Store.openFile host settings = (next, .ok store)) : Begun ⟨next, store⟩
  | setReadOnly {shell : Shell} (begun : Begun shell) {readOnly : Bool} {store : Store}
      (done : shell.store.setReadOnly readOnly = .ok store) : Begun ⟨shell.host, store⟩
  | setDefaultIndexing {shell : Shell} (begun : Begun shell) (defaultIndexing : Bool) :
      Begun ⟨shell.host, { shell.store with defaultIndexing }⟩

/-- What is settled when a shell begins. -/
def terms (shell : Shell) : PlainShell.Terms :=
  { order := shell.store.settings.globalOrder
    readOnly := shell.store.readOnly
    firstUcn := shell.store.ucn
    firstUcn_pos := shell.store.state.slots.ucn_pos }

/-- The list of the committed atoms of a shell, with the number of its slots. -/
def plain (shell : Shell) : PlainShell :=
  ⟨shell.store.state.slots.atoms, shell.store.state.slots.size⟩

/-- A store that is put together anew begins where the list of its atoms does. -/
theorem mirrors_assemble (host : Host) (settings : Settings) (directory : Directory)
    {slots : Slots} (sound : slots.Sound) {file : Option DataFile}
    (writable : settings.readOnly = false → ∀ found ∈ file, found.readOnly = false)
    {shell : Shell} (begins : shell = ⟨{ directory, nextIndex := host.nextIndex + 1 },
      Store.assemble settings { State.new host.nextIndex settings.globalOrder with slots } file⟩) :
    shell.Mirrors shell.terms shell.plain := by
  subst begins
  refine ⟨State.consistent_new host.nextIndex settings.globalOrder slots sound, rfl, rfl, ?_, rfl,
    writable, ⟨⟨_, rfl, rfl⟩, ?_, ?_, ?_⟩⟩
  · symm
    apply PlainShell.nextUcn_eq_firstUcn
    intro atom member
    exact sound.ucn_lt atom.id atom ((Slots.mem_atoms sound).mp member)
  · intro index member
    rw [List.mem_singleton.mp member]
    exact .inl rfl
  · exact List.nodup_singleton _
  · intro index member
    rw [List.mem_singleton.mp member]
    exact Nat.lt_succ_self _

/-- A store that has been created begins where the list of its atoms does. -/
theorem mirrors_create {host next : Host} {settings : Settings} {storeId : StoreId}
    {metadata : Metadata} {store : Store}
    (created : Store.create host settings storeId metadata = (next, .ok store)) :
    Mirrors ⟨next, store⟩ (terms ⟨next, store⟩) (plain ⟨next, store⟩) := by
  cases made : DataFile.create host.directory settings.path storeId Store.currentVersion metadata
      settings.sync with
  | error failure =>
    simp only [Store.create, made] at created
    cases created
  | ok result =>
    obtain ⟨directory, file⟩ := result
    simp only [Store.create, made] at created
    cases created
    obtain ⟨header, bytes, name, _, _, _, rfl⟩ := DataFile.create_eq_ok made
    refine mirrors_assemble host settings directory Slots.sound_empty ?_ rfl
    intro _ file present
    cases present
    rfl

/-- A store that has been opened begins where the list of its atoms does. -/
theorem mirrors_openFile {host next : Host} {settings : Settings} {store : Store}
    (opened : Store.openFile host settings = (next, .ok store)) :
    Mirrors ⟨next, store⟩ (terms ⟨next, store⟩) (plain ⟨next, store⟩) := by
  rw [Store.openFile] at opened
  split at opened
  · cases opened
  · rename_i fresh found
    simp only at opened
    split at opened
    · cases opened
    · rename_i summary recovered
      cases opened
      have sound := DataFile.sound_recover Slots.sound_empty recovered
      obtain ⟨_, _, _, _, _, kept⟩ := DataFile.openAt_eq_ok found
      refine mirrors_assemble host settings _ sound ?_ rfl
      intro writable file present
      cases present
      rw [DataFile.readOnly_of_recover recovered, kept, writable]

/-- A switched store begins where the list of its atoms does. -/
theorem Mirrors.setReadOnly {shell : Shell} {readOnly : Bool} {store : Store}
    (mirrors : shell.Mirrors shell.terms shell.plain)
    (done : shell.store.setReadOnly readOnly = .ok store) :
    Mirrors ⟨shell.host, store⟩ (terms ⟨shell.host, store⟩) (plain ⟨shell.host, store⟩) := by
  obtain rfl := Store.setReadOnly_eq_ok done
  refine ⟨mirrors.consistent, rfl, rfl, mirrors.ucn_eq, rfl, ?_, mirrors.registered⟩
  intro (writable : readOnly = false) file present
  cases fixed : file.readOnly with
  | false => rfl
  | true =>
    have guarded : shell.store.file.any (·.readOnly) = true := by
      rw [Option.mem_def.mp present, Option.any_some, fixed]
    rw [Store.setReadOnly, writable, guarded] at done
    cases done

/-- A shell begins in step with the list of its atoms. -/
theorem Begun.mirrors {shell : Shell} (begun : shell.Begun) :
    shell.Mirrors shell.terms shell.plain := by
  induction begun with
  | inMemory host settings =>
    refine mirrors_assemble host settings host.directory Slots.sound_empty ?_ rfl
    intro _ file present
    cases present
  | created created => exact mirrors_create created
  | opened opened => exact mirrors_openFile opened
  | setReadOnly _ done ih => exact ih.setReadOnly done
  | setDefaultIndexing _ _ ih =>
    exact ⟨ih.consistent, rfl, rfl, ih.ucn_eq, rfl, ih.writable, ih.registered⟩

/-- Whatever store a shell begins with and whatever lines it is given, it answers the four commands
as going through a list of atoms does, and in the end has the atoms and the slots of the list. The
UCN of the commit after the last one has to have 64 bits, too. -/
theorem Begun.replies_eq_plain {shell : Shell} (begun : shell.Begun) (lines : List String)
    (room : (shell.plain.after shell.terms lines).nextUcn shell.terms ≤ Text.maxWord) :
    List.Forall₂ (fun reply answer => ∀ expected ∈ answer, reply = expected)
        (shell.replies lines) (shell.plain.replies shell.terms lines) ∧
      (shell.after lines).plain = shell.plain.after shell.terms lines := by
  obtain ⟨answers, later⟩ := begun.mirrors.replies lines room
  refine ⟨answers, ?_⟩
  rw [plain, later.atoms_eq, later.size_eq]

/-- The later of two values of a key is kept, and each atom is found and listed by its own key. -/
theorem replies_of_replaced_value :
    ∃ (shell : Shell) (lines : List String), shell.Begun ∧
      (shell.plain.after shell.terms lines).nextUcn shell.terms ≤ Text.maxWord ∧
      List.Forall₂ (fun reply answer => ∀ expected ∈ answer, reply = expected)
        (shell.replies lines)
        [some (.lines ["OK id=0 ucn=1"]), some (.lines ["OK id=1 ucn=2"]),
          some (.lines ["#0@1 \x7b1=7\x7d"]), none,
          some (.lines ["#1@2 \x7b2=8\x7d", "(1 atoms)"]), some (.lines ["(nil)"])] := by
  let shell : Shell := ⟨(Store.inMemory {} {}).2, (Store.inMemory {} {}).1⟩
  let lines := ["PUT 1=a 1=7", "PUT 2=8", "find 1=7", "INDICES", "SCAN 2", "GET 2"]
  have begun : shell.Begun := .inMemory {} {}
  have room : (shell.plain.after shell.terms lines).nextUcn shell.terms ≤ Text.maxWord := by
    decide +kernel
  have expected : shell.plain.replies shell.terms lines =
      [some (.lines ["OK id=0 ucn=1"]), some (.lines ["OK id=1 ucn=2"]),
        some (.lines ["#0@1 \x7b1=7\x7d"]), none,
        some (.lines ["#1@2 \x7b2=8\x7d", "(1 atoms)"]), some (.lines ["(nil)"])] := by
    decide +kernel
  have answers := (begun.replies_eq_plain lines room).1
  rw [expected] at answers
  exact ⟨shell, lines, begun, room, answers⟩

end Shell
end AtomStore
