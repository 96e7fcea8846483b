import AtomStore.Proofs.Store.Journal

/-!
# Journal and memory agree

At every point of a session that starts with the creation of a file, a replay of that file into an
empty table gives what the store holds in memory: the next UCN, the number of committed atoms, and
every slot, where a slot that is still reserved comes out as empty for good.
-/

namespace AtomStore

/-- An atom without hosted values is recorded as it is, and with hosting on every atom is. -/
theorem Atom.recorded_eq_self {hosting : Bool} {directory : Directory} {path : String} {atom : Atom}
    (inline : hosting = false →
      ∀ junction ∈ atom.junctions.entries, junction.2.isHosted = false) :
    atom.recorded hosting directory path = atom := by
  rw [recorded, recordedJunctions_eq_self inline]

namespace Session

variable {session : Session} {commits : List WrittenCommit}

/-- Each written commit is recorded by the rule of the file at that time. -/
theorem Journaled.recorded_eq (journaled : session.Journaled commits) {commit : WrittenCommit}
    (member : commit ∈ commits) :
    ∃ directory path, commit.recorded =
      commit.atoms.map (Atom.recorded commit.hosting directory path) := by
  induction journaled with
  | created => cases member
  | step before action fits ih =>
    rcases List.mem_append.mp member with earlier | last
    · exact ih earlier
    · obtain ⟨file, _, _, recorded⟩ := recorded_of_mem_written last
      exact ⟨_, file.path, recorded⟩

/-- When no bytes elsewhere in the file are committed while the file does not host any, the file
and the memory of a store agree after every action: the file opens, and a replay into an empty table
succeeds and gives the same counts and slots, where reserved slots are empty for good. -/
theorem Journaled.recover_agrees (journaled : session.Journaled commits)
    (inline : ∀ commit ∈ commits, commit.hosting = false → ∀ atom ∈ commit.atoms,
      ∀ junction ∈ atom.junctions.entries, junction.2.isHosted = false)
    (sync readOnly repair : Bool) :
    ∃ file fresh summary slots, session.store.file = some file ∧
      DataFile.openAt session.host.directory file.path sync readOnly = .ok fresh ∧
      fresh.recover session.host.directory .empty repair =
        ⟨slots, session.host.directory, { file with sync, readOnly }, .ok summary⟩ ∧
      slots.ucn = session.store.ucn ∧
      slots.committed = session.store.state.slots.committed ∧
      ∀ id, slots.slot id = Slots.settled (session.store.state.slots.slot id) := by
  obtain ⟨file, start, records, taken, journal⟩ := journaled.journal
  obtain ⟨fresh, summary, opened, recovered⟩ := journal.recover_eq sync readOnly repair
  have faithful : ∀ commit ∈ commits, commit.recorded = commit.atoms := by
    intro commit member
    obtain ⟨directory, path, recorded⟩ := journaled.recorded_eq member
    rw [recorded]
    refine (List.map_congr_left fun atom inside => ?_).trans (List.map_id _)
    apply Atom.recorded_eq_self
    intro off
    exact inline commit member off atom inside
  refine ⟨file, fresh, summary, taken.settle.2, journal.file_eq, opened, recovered, journal.ucn_eq,
    journal.committed_eq, fun id => ?_⟩
  rw [Slots.slot_settle, Slots.settled_slot, Slots.settled_slot, journal.agreeing faithful]

/-- A text is committed and another atom is pending: only the text is recovered. -/
theorem recover_after_commit :
    ∃ session commits atom, Journaled session commits ∧
      session.store.state.slots.slot 0 = .committed atom ∧
      session.store.state.slots.slot 1 = .pending ∧
      ∃ file fresh summary slots, session.store.file = some file ∧
        DataFile.openAt session.host.directory file.path false false = .ok fresh ∧
        fresh.recover session.host.directory .empty false =
          ⟨slots, session.host.directory, { file with sync := false, readOnly := false },
            .ok summary⟩ ∧
        slots.ucn = 2 ∧ slots.slot 0 = .committed atom ∧ slots.slot 1 = .never := by
  obtain ⟨host, indices, path, header, sync, created, version, _⟩ := Store.exists_created 1
  let file : DataFile := ⟨path, header, 40, 40, sync, false⟩
  have hosts : file.hosting 1 = true := by
    rw [DataFile.hosting, version]
    rfl
  let building := binding host
    ⟨{ hostedThreshold := 1 }, ⟨.empty, indices⟩, some file, false, false⟩ (.text "a")
  have built : building.Journaled [] := journaled_binding created _
  have fits : building.Fits (.commit 0) := fits_binding created (by decide)
  let session := ((building.step (.commit 0)).step (.begin 1)).step (.createAtom 1)
  have begins : (building.step (.commit 0)).Fits (.begin 1) := fun _ _ _ same => by cases same
  have creates : ((building.step (.commit 0)).step (.begin 1)).Fits (.createAtom 1) :=
    fun _ _ _ same => by cases same
  have journaled : session.Journaled ([] ++ building.written (.commit 0) ++ [] ++ []) :=
    ((built.step (.commit 0) fits).step (.begin 1) begins).step (.createAtom 1) creates
  obtain ⟨atom, published⟩ : ∃ atom, session.store.state.slots.slot 0 = .committed atom :=
    ⟨_, rfl⟩
  have pending : session.store.state.slots.slot 1 = .pending := rfl
  have inline : ∀ commit ∈ building.written (.commit 0), commit.hosting = true := by
    intro commit member
    obtain ⟨found, opened, hosting, _⟩ := recorded_of_mem_written member
    obtain rfl : file = found := Option.some.inj opened
    exact hosting.trans hosts
  obtain ⟨kept, again, summary, slots, opened, read, recovered, ucn, _, slot⟩ :=
    journaled.recover_agrees (by
      intro commit member off
      rw [List.append_nil, List.append_nil, List.nil_append] at member
      rw [inline commit member] at off
      cases off) false false false
  have first := slot 0
  have second := slot 1
  rw [published] at first
  rw [pending] at second
  exact ⟨session, _, atom, journaled, published, pending, kept, again, summary, slots, opened, read,
    recovered, ucn, first, second⟩

end Session
end AtomStore
