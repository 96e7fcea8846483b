import AtomStore.Proofs.Store.Spoiled

/-!
# Bytes copied from the file

A value can point to bytes that are in the data file already, which are then copied into the record
of the commit. Where the file hosts byte runs, the published atom is pointed to the copy, and an
atom read back from the record is the same. Where it does not, the copy is read back as bytes at
hand, but the published atom goes on pointing to where the bytes came from.
-/

namespace AtomStore

open Log (Record HostedPlace)

/-- A draft that is pointed to its bytes in the file still has bytes there under each key that had
some. -/
theorem Draft.hosted_pointed {own : List HostedPlace} {draft : Draft} {key : Key}
    (hosted : ∃ offset length, draft.junctions.get? key = some (.hosted offset length)) :
    ∃ offset length, (own.foldl (fun changed place => changed.bind place.key place.particle)
      draft).junctions.get? key = some (.hosted offset length) := by
  induction own generalizing draft with
  | nil => exact hosted
  | cons place rest ih =>
    apply ih
    have bound := SortedMap.get?_insert draft.junctions place.key key place.particle
    change ∃ offset length, (draft.junctions.insert place.key place.particle).get? key = _
    rw [bound]
    split
    · exact ⟨_, _, rfl⟩
    · exact hosted

/-- Bytes that are copied within a file have been read from it. -/
theorem DataFile.readHosted_of_append {file grown : DataFile} {directory next : Directory}
    {ucn threshold : Nat} {drafts : List Draft} {places : List HostedPlace}
    (appended : file.append directory ucn drafts threshold = .ok (next, grown, places))
    {draft : Draft} (member : draft ∈ drafts) {key : Key} {offset length : Nat}
    (bound : draft.junctions.get? key = some (.hosted offset length)) :
    ∃ payload, file.readHosted directory offset length = .ok payload := by
  obtain ⟨atoms, stored, _⟩ := append_eq_ok appended
  obtain ⟨atom, written⟩ := exists_of_forall₂ (mapM_eq_ok_iff.mp stored) draft member
  obtain ⟨junction, kept⟩ := exists_of_forall₂ (storedAtom_eq_ok written).2 _
    (SortedMap.get?_eq_some_iff.mp bound)
  have value := (storedJunction_eq_ok kept).2
  cases read : file.readHosted directory offset length with
  | ok payload => exact ⟨payload, rfl⟩
  | error failure =>
    rw [storedValue, read] at value
    cases value

/-- A record of a file that does not host byte runs holds the bytes themselves. -/
theorem Atom.get?_recorded {directory : Directory} {file : DataFile} {atom : Atom} {key : Key}
    {offset length : Nat} {payload : Bytes}
    (bound : atom.get? key = some (.hosted offset length))
    (read : file.readHosted directory offset length = .ok payload) :
    (atom.recorded false directory file.path).get? key = some (.bytes payload) := by
  rw [← DataFile.inlined_of_readHosted read]
  apply SortedMap.get?_eq_some_iff.mpr
  exact List.mem_map.mpr ⟨_, SortedMap.get?_eq_some_iff.mp bound, rfl⟩

namespace Session

variable {session : Session} {file : DataFile}

/-- A draft with bytes that are in the file already is published as an atom that points to some, or
to just those if the file does not host byte runs. -/
theorem Owned.published_hosted (owned : session.Owned) {name : Nat} {transaction : Transaction}
    {committed : Committed} (present : session.transactions name = some transaction)
    (succeeded : (transaction.commit session.host.directory session.store).outcome = .ok committed)
    (opened : session.store.file = some file) {draft : Draft} (kept : draft ∈ transaction.kept)
    {key : Key} {offset length : Nat}
    (bound : draft.junctions.get? key = some (.hosted offset length)) :
    ∃ payload, file.readHosted session.host.directory offset length = .ok payload ∧
      ∃ atom ∈ committed.atoms, atom.id = draft.id ∧
        (∃ start size, atom.get? key = some (.hosted start size)) ∧
        (file.hosting session.store.settings.hostedThreshold = false →
          atom.get? key = some (.hosted offset length)) := by
  obtain ⟨empty, _⟩ | ⟨written, recorded, drafts, wrote, _, _, _, published, atoms⟩ :=
    owned.commit_succeeded present succeeded
  · rw [empty] at kept
    cases kept
  obtain ⟨absent, _⟩ | ⟨found, next, places, held, appended, _, rfl⟩ :=
    Transaction.write_eq_ok wrote
  · have missing : session.store.file = none := absent
    rw [opened] at missing
    cases missing
  obtain rfl : file = found := Option.some.inj (opened.symm.trans held)
  obtain ⟨payload, read⟩ := DataFile.readHosted_of_append appended kept bound
  rw [atoms]
  refine ⟨payload, read, _, List.mem_map_of_mem (List.mem_map_of_mem kept), ?_, ?_, ?_⟩
  · exact Transaction.id_pointed places draft
  · exact Draft.hosted_pointed ⟨offset, length, bound⟩
  · intro inline
    rw [DataFile.places_eq_nil appended inline]
    exact bound

/-- What a value that points to bytes in the file is published as, and what it is read back as. -/
theorem Backed.reread_hosted {records : List Record} {ends : Nat} {taken : Slots}
    (backed : session.Backed file records ends taken) (owned : session.Owned) {name : Nat}
    {transaction : Transaction} {committed : Committed}
    (present : session.transactions name = some transaction)
    (succeeded : (transaction.commit session.host.directory session.store).outcome = .ok committed)
    (counted : session.store.ucn < 2 ^ 64) (fits : ∀ draft ∈ transaction.kept, draft.Fits)
    {draft : Draft} (kept : draft ∈ transaction.kept) {key : Key} {offset length : Nat}
    (bound : draft.junctions.get? key = some (.hosted offset length)) (settings : Settings) :
    ∃ payload, file.readHosted session.host.directory offset length = .ok payload ∧
      ∃ host store, Store.openFile (session.step (.commit name)).host
          { settings with path := file.path } = (host, .ok store) ∧
        ∃ atom ∈ committed.atoms, ∃ reread, atom.id = draft.id ∧
          store.state.slots.slot draft.id = .committed reread ∧
          (file.hosting session.store.settings.hostedThreshold = true →
            reread = atom ∧ ∃ start size, atom.get? key = some (.hosted start size)) ∧
          (file.hosting session.store.settings.hostedThreshold = false →
            atom.get? key = some (.hosted offset length) ∧
              reread.get? key = some (.bytes payload)) := by
  obtain ⟨payload, read, atom, member, numbered, pointing, same⟩ :=
    owned.published_hosted present succeeded backed.file_eq kept bound
  obtain ⟨host, store, again, slots⟩ :=
    backed.openFile_of_commit owned present succeeded counted fits settings
  have slot := slots atom member
  rw [numbered] at slot
  refine ⟨payload, read, host, store, again, atom, member, _, numbered, slot, ?_, ?_⟩
  · intro hosting
    rw [hosting]
    exact ⟨rfl, pointing⟩
  · intro hosting
    rw [hosting]
    exact ⟨same hosting, Atom.get?_recorded (same hosting) read⟩

/-- A value that points to bytes in the file is the same in the published atom and in the one that
is read back exactly when the file hosts byte runs. Otherwise it is read back as bytes at hand,
while the published atom goes on pointing to where they came from. -/
theorem Filed.published_eq_reopened_iff (filed : session.Filed) {name : Nat}
    {transaction : Transaction} {committed : Committed}
    (present : session.transactions name = some transaction)
    (succeeded : (transaction.commit session.host.directory session.store).outcome = .ok committed)
    (counted : session.store.ucn < 2 ^ 64) (fits : ∀ draft ∈ transaction.kept, draft.Fits)
    (opened : session.store.file = some file) {draft : Draft} (kept : draft ∈ transaction.kept)
    {key : Key} {offset length : Nat}
    (bound : draft.junctions.get? key = some (.hosted offset length)) (settings : Settings) :
    ∃ payload, file.readHosted session.host.directory offset length = .ok payload ∧
      ∃ host store, Store.openFile (session.step (.commit name)).host
          { settings with path := file.path } = (host, .ok store) ∧
        ∃ atom ∈ committed.atoms, ∃ reread, atom.id = draft.id ∧
          store.state.slots.slot draft.id = .committed reread ∧
          (atom.get? key = reread.get? key ↔
            file.hosting session.store.settings.hostedThreshold = true) ∧
          (file.hosting session.store.settings.hostedThreshold = true →
            reread = atom ∧ ∃ start size, atom.get? key = some (.hosted start size)) ∧
          (file.hosting session.store.settings.hostedThreshold = false →
            atom.get? key = some (.hosted offset length) ∧
              reread.get? key = some (.bytes payload)) := by
  obtain ⟨_, records, ends, taken, backed⟩ := filed.backed
  obtain rfl := Option.some.inj (opened.symm.trans backed.file_eq)
  obtain ⟨payload, read, host, store, again, atom, member, reread, numbered, slot, hosted,
    inline⟩ := backed.reread_hosted filed.reachable.owned present succeeded counted fits kept bound
      settings
  refine ⟨payload, read, host, store, again, atom, member, reread, numbered, slot, ⟨?_, ?_⟩,
    hosted, inline⟩
  · intro same
    by_contra off
    obtain ⟨live, held⟩ := inline (Bool.eq_false_of_not_eq_true off)
    rw [live, held] at same
    cases same
  · intro hosting
    rw [(hosted hosting).1]

/-- A session on a new file, which hosts nothing, that is about to commit a run of no bytes at the
end of the header. -/
theorem exists_copying :
    ∃ (session : Session) (file : DataFile) (transaction : Transaction) (committed : Committed)
      (draft : Draft),
      session.Filed ∧ session.store.file = some file ∧ session.store.ucn < 2 ^ 64 ∧
      session.transactions 0 = some transaction ∧ (∀ other ∈ transaction.kept, other.Fits) ∧
      draft ∈ transaction.kept ∧ draft.id = 0 ∧
      draft.junctions.get? 1 = some (.hosted file.headerLength 0) ∧
      (transaction.commit session.host.directory session.store).outcome = .ok committed ∧
      file.hosting session.store.settings.hostedThreshold = false := by
  obtain ⟨host, indices, path, header, sync, created, _⟩ := Store.exists_created 0
  let session := binding host
    ⟨{ hostedThreshold := 0 }, ⟨.empty, indices⟩,
      some ⟨path, header, 40, 40, sync, false⟩, false, false⟩ (.hosted 40 0)
  have filed : session.Filed := .step (.step (.step (.created created) (.begin 0) nofun)
    (.createAtom 0) nofun) (.edit 0 0 (.bind 1 (.hosted 40 0))) nofun
  have fits : (⟨0, .ofList [(1, .hosted 40 0)]⟩ : Draft).Fits :=
    ⟨by decide, List.forall_mem_singleton.mpr (by decide)⟩
  exact ⟨session, _, _, _, _, filed, rfl, (by decide : 1 < 2 ^ 64), rfl,
    List.forall_mem_singleton.mpr fits, List.mem_cons_self, rfl, rfl, rfl, rfl⟩

/-- The bytes that were copied are read back at hand. -/
theorem published_ne_reopened_of_copying :
    ∃ (session : Session) (file : DataFile) (committed : Committed) (host : Host) (store : Store)
      (atom reread : Atom),
      Filed session ∧ session.store.file = some file ∧ atom ∈ committed.atoms ∧
      Store.openFile (session.step (.commit 0)).host { path := file.path } = (host, .ok store) ∧
      store.state.slots.slot 0 = .committed reread ∧
      atom.get? 1 = some (.hosted file.headerLength 0) ∧
      (reread.get? 1).map Particle.isHosted = some false := by
  obtain ⟨session, file, transaction, committed, draft, filed, opened, counted, present, fits, kept,
    numbered, bound, succeeded, inline⟩ := exists_copying
  obtain ⟨payload, _, host, store, again, atom, member, reread, _, slot, _, _, differ⟩ :=
    filed.published_eq_reopened_iff present succeeded counted fits opened kept bound {}
  obtain ⟨live, held⟩ := differ inline
  rw [numbered] at slot
  refine ⟨session, file, committed, host, store, atom, reread, filed, opened, member, again, slot,
    live, ?_⟩
  rw [held]
  rfl

/-- A published atom need not match what is read back when the file is opened again. -/
theorem not_same_after_reopen :
    ¬ ∀ (session : Session) (file : DataFile) (name : Nat) (transaction : Transaction)
      (committed : Committed) (draft : Draft) (atom reread : Atom) (key : Key)
      (offset length : Nat) (settings : Settings) (host : Host) (store : Store),
      session.Filed → session.store.file = some file →
      session.transactions name = some transaction →
      (transaction.commit session.host.directory session.store).outcome = .ok committed →
      draft ∈ transaction.kept → draft.junctions.get? key = some (.hosted offset length) →
      atom ∈ committed.atoms → atom.id = draft.id →
      Store.openFile (session.step (.commit name)).host { settings with path := file.path } =
        (host, .ok store) →
      store.state.slots.slot draft.id = .committed reread → atom.get? key = reread.get? key := by
  intro same
  obtain ⟨session, file, transaction, committed, draft, filed, opened, counted, present, fits, kept,
    numbered, bound, succeeded, inline⟩ := exists_copying
  obtain ⟨found, records, ends, taken, backed⟩ := filed.backed
  obtain rfl := Option.some.inj (opened.symm.trans backed.file_eq)
  obtain ⟨payload, _, host, store, again, atom, member, reread, here, slot, _, differ⟩ :=
    backed.reread_hosted filed.reachable.owned present succeeded counted fits kept bound {}
  obtain ⟨live, held⟩ := differ inline
  have equal := same session file 0 transaction committed draft atom reread 1 _ _ {} host store
    filed opened present succeeded kept bound member here again slot
  rw [live, held] at equal
  cases equal

end Session
end AtomStore
