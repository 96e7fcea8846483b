import AtomStore.Proofs.Store.Backed
import AtomStore.Proofs.Store.Ledger

/-!
# Payloads over time

The payload of a committed value may be in memory or in the data file, be moved into the file by the
commit or copied from another place in it, and be read back into memory when the store is opened
again. Through all of this it stays the same run of bytes.
-/

namespace AtomStore

open Log (Record StoredRecord)

/-- A record that stands for the same as some drafts holds an atom for each of them, and its values
stand for the same. -/
theorem LogEntry.bound_of_same {directory after : Directory} {path other : String} {ucn : Nat}
    {drafts : List Draft} {record : Record}
    (same : ofDrafts directory path ucn drafts = ofRecord after other record) {draft : Draft}
    (member : draft ∈ drafts) {key : Key} {particle : Particle} {datum : Datum}
    (bound : draft.junctions.get? key = some particle)
    (stands : particle.datum? directory path = some datum) :
    ∃ atom ∈ record.atoms, atom.id = draft.id ∧ ∃ value, atom.get? key = some value ∧
      value.datum? after other = some datum := by
  have listed : (draft.id, data directory path draft.junctions.entries) ∈
      (ofDrafts directory path ucn drafts).atoms :=
    List.mem_map_of_mem (f := fun draft : Draft =>
      (draft.id, data directory path draft.junctions.entries)) member
  rw [same] at listed
  obtain ⟨atom, inside, held⟩ := List.mem_map.mp listed
  obtain ⟨here, values⟩ := Prod.mk.inj held
  have read : (key, some datum) ∈ data directory path draft.junctions.entries :=
    List.mem_map.mpr ⟨(key, particle), SortedMap.get?_eq_some_iff.mp bound,
      congrArg (Prod.mk key) stands⟩
  rw [← values] at read
  obtain ⟨junction, present, stored⟩ := List.mem_map.mp read
  obtain ⟨rfl, stands⟩ := Prod.mk.inj stored
  exact ⟨atom, inside, here, junction.2, SortedMap.get?_eq_some_iff.mpr present, stands⟩

/-- Whether a key of an atom is bound to a value with some payload. -/
def Atom.Carries (atom : Atom) (file : DataFile) (directory : Directory) (key : Key)
    (payload : Bytes) : Prop :=
  ∃ value, atom.get? key = some value ∧ file.payload? directory value = some payload

/-- What an atom carries it carries in the file as it grows. -/
theorem Atom.Carries.extends {atom : Atom} {file next : DataFile} {directory after : Directory}
    {key : Key} {payload : Bytes} (carries : atom.Carries file directory key payload)
    (extend : file.Extends next directory after) : atom.Carries next after key payload := by
  obtain ⟨value, bound, held⟩ := carries
  exact ⟨value, bound, DataFile.payload?_extends extend held⟩

namespace Session

/-- Whether the actions of a session commit what can be read back. -/
def AllFit : Session → List Action → Prop
  | _, [] => True
  | session, action :: rest => session.Fits action ∧ (session.step action).AllFit rest

/-- Whether the atom of a slot carries the payload of the particle that was committed under a key,
both in memory and in the data file, where the particle still has this payload. -/
structure Keeps (session : Session) (id : Nat) (key : Key) (particle : Particle) (payload : Bytes)
    (file : DataFile) (records : List Record) (taken : Slots) : Prop where
  backed : session.Backed file records file.stop taken
  held : file.payload? session.host.directory particle = some payload
  live : ∃ atom, session.store.state.slots.slot id = .committed atom ∧
    atom.Carries file session.host.directory key payload
  recorded : ∃ atom, taken.atom? id = some atom ∧
    atom.Carries file session.host.directory key payload

variable {session : Session} {file : DataFile} {records : List Record} {ends id : Nat}
  {taken : Slots} {key : Key} {particle : Particle} {payload : Bytes}

/-- An atom that is committed carries what its draft did, in memory and in its record. -/
theorem Backed.keeps_committed (backed : session.Backed file records ends taken)
    (owned : session.Owned) {name : Nat} {transaction : Transaction} {committed : Committed}
    (present : session.transactions name = some transaction)
    (succeeded : (transaction.commit session.host.directory session.store).outcome = .ok committed)
    (counted : session.store.ucn < 2 ^ 64) (fits : ∀ draft ∈ transaction.kept, draft.Fits)
    {draft : Draft} (kept : draft ∈ transaction.kept)
    (bound : draft.junctions.get? key = some particle)
    (held : file.payload? session.host.directory particle = some payload) :
    ∃ next history later,
      (session.step (.commit name)).Keeps draft.id key particle payload next history later := by
  obtain ⟨empty, _⟩ | ⟨written, stored, drafts, wrote, directory, opened, stepped, published, _⟩ :=
    owned.commit_succeeded present succeeded
  · exact absurd empty (List.ne_nil_of_mem kept)
  obtain ⟨next, record, later, grown, after, fitting, atoms, same, inline, _⟩ :=
    backed.published owned present wrote directory opened stepped published counted fits
  have extend := backed.whole.extends_writeNext record.bytes
  have read := backed.whole.ofRecord_writeNext fitting
  have stop : (file.writeNext session.host.directory record.bytes).2.stop =
    file.stop + record.bytes.length := rfl
  rw [grown] at extend read stop
  obtain ⟨atom, inside, numbered, value, value_bound, datum⟩ :=
    LogEntry.bound_of_same (same.trans read.symm) kept bound
      (DataFile.payload?_eq_some_iff.mp held).1
  have carried : atom.Carries next (session.step (.commit name)).host.directory key payload := by
    refine ⟨value, value_bound, DataFile.payload?_eq_some_iff.mpr ⟨?_, ?_⟩⟩
    · rw [extend.path_eq]
      exact datum
    · apply (Log.inside_placed fitting file.stop atom inside _
        (SortedMap.get?_eq_some_iff.mp value_bound)).mono
      · rw [extend.headerLength_eq]
        exact backed.whole.headerLength_le
      · exact Nat.le_of_eq stop.symm
  -- in a file that does not host byte runs the published atom is not the recorded one
  obtain ⟨live, member, here, carries⟩ : ∃ live ∈ session.store.sealedAtoms drafts,
      live.id = draft.id ∧
        live.Carries next (session.step (.commit name)).host.directory key payload := by
    cases hosting : file.hosting session.store.settings.hostedThreshold with
    | true =>
      rw [hosting] at atoms
      have unchanged : (record.placed file.stop).atoms = session.store.sealedAtoms drafts :=
        atoms.trans (List.map_id _)
      exact ⟨atom, unchanged ▸ inside, numbered, carried⟩
    | false =>
      rw [inline hosting]
      exact ⟨_, List.mem_map_of_mem kept, rfl, particle, bound,
        DataFile.payload?_extends extend held⟩
  have done : session.committed? (.commit name) =
      some ⟨some session.store.ucn, session.store.sealedAtoms drafts⟩ := by
    rw [committed?, present, Option.bind_some, published.outcome_eq]
    rfl
  have slot := owned.of_committed? (fun _ same => by cases same) done live member
  rw [here] at slot
  exact ⟨next, _, later, after, DataFile.payload?_extends extend held, ⟨live, slot, carries⟩, atom,
    numbered ▸ after.recovered.atom?_eq_some_iff.mpr
      ⟨_, List.mem_append_right _ List.mem_cons_self, inside, rfl⟩, carried⟩

/-- Closing the store and opening its file again reads the atom back from its record. -/
theorem Keeps.reopened (keeps : session.Keeps id key particle payload file records taken)
    (settings : Settings) :
    (session.step (.reopen settings)).Keeps id key particle payload
      { file with sync := settings.sync, readOnly := settings.readOnly } records taken := by
  obtain ⟨backed, same, atoms⟩ := keeps.backed.reopened settings
  obtain ⟨atom, held, carried⟩ := keeps.recorded
  have extend : file.Extends { file with sync := settings.sync, readOnly := settings.readOnly }
      session.host.directory (session.step (.reopen settings)).host.directory := by
    rw [same]
    exact ⟨rfl, rfl, Nat.le_refl _, rfl⟩
  refine ⟨backed, DataFile.payload?_extends extend keeps.held, ⟨atom, ?_, carried.extends extend⟩,
    ⟨atom, held, carried.extends extend⟩⟩
  rw [← Slots.atom?_eq_some_iff, atoms]
  exact held

/-- Every action keeps the payload, as long as what is committed can be read back. -/
theorem Keeps.step (keeps : session.Keeps id key particle payload file records taken)
    (owned : session.Owned) {action : Action} (fits : session.Fits action) :
    ∃ next history later,
      (session.step action).Keeps id key particle payload next history later := by
  by_cases closing : ∃ settings, action = .reopen settings
  · obtain ⟨settings, rfl⟩ := closing
    exact ⟨_, records, taken, keeps.reopened settings⟩
  obtain ⟨atom, slot, carries⟩ := keeps.live
  obtain ⟨written, held, carried⟩ := keeps.recorded
  have stays : (session.step action).store.state.slots.slot id = .committed atom :=
    (session.steps_step (not_exists.mp closing)).grows.slots_later.kept id atom slot
  rcases owned.step_cases (not_exists.mp closing) with unwritten | ⟨name, transaction, directory,
    recorded, drafts, rfl, present, wrote, moved, opened, stepped, published⟩
  · have same := unwritten.directory_eq
    exact ⟨file, records, taken, keeps.backed.of_unwritten unwritten, same ▸ keeps.held,
      ⟨atom, stays, same ▸ carries⟩, written, held, same ▸ carried⟩
  · obtain ⟨counted, short⟩ := fits name transaction _ rfl present published.outcome_eq
    obtain ⟨next, record, later, grown, kept, _⟩ := keeps.backed.published owned present wrote moved
      opened stepped published (by omega) short
    have extend := keeps.backed.whole.extends_writeNext record.bytes
    rw [grown] at extend
    obtain ⟨holder, among, inside, numbered⟩ := keeps.backed.recovered.atom?_eq_some_iff.mp held
    have still : later.atom? id = some written := kept.recovered.atom?_eq_some_iff.mpr
      ⟨holder, List.mem_append_left _ among, inside, numbered⟩
    exact ⟨next, _, later, kept, DataFile.payload?_extends extend keeps.held,
      ⟨atom, stays, carries.extends extend⟩, written, still, carried.extends extend⟩

/-- What is kept under a key is kept through a run of actions. -/
theorem Keeps.run (keeps : session.Keeps id key particle payload file records taken)
    (owned : session.Owned) {actions : List Action} (fits : session.AllFit actions) :
    ∃ next history later,
      (session.run actions).Keeps id key particle payload next history later := by
  induction actions generalizing session file records taken with
  | nil => exact ⟨file, records, taken, keeps⟩
  | cons action rest ih =>
    obtain ⟨first, others⟩ := fits
    obtain ⟨next, history, later, kept⟩ := keeps.step owned first
    exact ih kept (owned.step action) others

/-- Whatever has been committed with a payload has it ever after. A particle is bound to a key of a
draft and stands for a run of bytes, at hand or in the file. If the commit succeeds, then after any
further actions the slot holds an atom whose value under the key is read as these bytes, and so is
the particle. Both have them as their payload in the file, so that this goes for copies of them. -/
theorem Filed.payload_kept (filed : session.Filed) {name : Nat} {transaction : Transaction}
    {committed : Committed} (present : session.transactions name = some transaction)
    (succeeded : (transaction.commit session.host.directory session.store).outcome = .ok committed)
    (counted : session.store.ucn < 2 ^ 64 - 1) (fits : ∀ draft ∈ transaction.kept, draft.Fits)
    {draft : Draft} (kept : draft ∈ transaction.kept)
    (bound : draft.junctions.get? key = some particle) (opened : session.store.file = some file)
    (held : file.payload? session.host.directory particle = some payload) {actions : List Action}
    (fitting : (session.step (.commit name)).AllFit actions) {reached : Session}
    (reaches : (session.step (.commit name)).run actions = reached) :
    ∃ atom value next, reached.store.state.slots.slot draft.id = .committed atom ∧
      atom.get? key = some value ∧
      reached.store.readBytes reached.host.directory value = .ok payload ∧
      reached.store.readBytes reached.host.directory particle = .ok payload ∧
      reached.store.file = some next ∧
      next.payload? reached.host.directory value = some payload ∧
      next.payload? reached.host.directory particle = some payload := by
  obtain ⟨_, records, ends, taken, backed⟩ := filed.backed
  obtain rfl := Option.some.inj (opened.symm.trans backed.file_eq)
  have owned := filed.reachable.owned
  obtain ⟨_, _, _, keeps⟩ :=
    backed.keeps_committed owned present succeeded (by omega) fits kept bound held
  obtain ⟨next, history, later, keeps⟩ := keeps.run (owned.step (.commit name)) fitting
  rw [reaches] at keeps
  obtain ⟨atom, slot, value, value_bound, carried⟩ := keeps.live
  have file_eq := keeps.backed.file_eq
  have inside := keeps.backed.whole.stop_le
  exact ⟨atom, value, next, slot, value_bound, Store.readBytes_of_payload? file_eq inside carried,
    Store.readBytes_of_payload? file_eq inside keeps.held, file_eq, carried, keeps.held⟩

/-- A byte is committed, and read after the store has been opened again. -/
theorem payload_kept_after_reopen :
    ∃ session reached atom value, Filed session ∧
      session.run [.commit 0, .reopen { hostedThreshold := 8 }] = reached ∧
      reached.store.state.slots.slot 0 = .committed atom ∧ atom.get? 1 = some value ∧
      reached.store.readBytes reached.host.directory value = .ok [7] := by
  obtain ⟨session, file, transaction, committed, filed, opened, ucn, present, kept, succeeded, _⟩ :=
    exists_binding [7]
  let draft : Draft := ⟨0, .ofList [(1, .bytes [7])]⟩
  have fits : ∀ draft ∈ transaction.kept, draft.Fits := by
    rw [kept, List.forall_mem_singleton]
    exact ⟨by decide, List.forall_mem_singleton.mpr (by decide)⟩
  have member : draft ∈ transaction.kept := kept ▸ List.mem_cons_self
  have bound : draft.junctions.get? 1 = some (.bytes [7]) := rfl
  have held : file.payload? session.host.directory (.bytes [7]) = some [7] := rfl
  have counted : session.store.ucn < 2 ^ 64 - 1 := by
    rw [ucn]
    decide
  have fitting : (session.step (.commit 0)).AllFit [.reopen { hostedThreshold := 8 }] :=
    ⟨nofun, trivial⟩
  obtain ⟨reached, reaches⟩ : ∃ reached,
      session.run [.commit 0, .reopen { hostedThreshold := 8 }] = reached := ⟨_, rfl⟩
  obtain ⟨atom, value, _, slot, found, read, _⟩ :=
    filed.payload_kept present succeeded counted fits member bound opened held fitting reaches
  exact ⟨session, reached, atom, value, filed, reaches, slot, found, read⟩

/-- The second of two drafts on a new file is exchanged for a copy of the first one with another byte.
The commit succeeds, and the byte of the first draft is gone. -/
theorem copied_draft_overwrites :
    ∃ (session : Session) (file : DataFile) (transaction : Transaction) (committed : Committed)
      (draft : Draft) (atom : Atom),
      session.Attained (fun _ => True) ∧ session.store.file = some file ∧
      session.transactions 0 = some transaction ∧
      (transaction.commit session.host.directory session.store).outcome = .ok committed ∧
      draft ∈ transaction.kept ∧ draft.junctions.get? 1 = some (.bytes [1]) ∧
      (session.step (.commit 0)).store.state.slots.slot draft.id = .committed atom ∧
      atom.get? 1 = some (.bytes [2]) := by
  obtain ⟨host, indices, path, header, sync, created, _⟩ := Store.exists_created 0
  let store : Store := ⟨{ hostedThreshold := 0 }, ⟨.empty, indices⟩,
    some ⟨path, header, 40, 40, sync, false⟩, false, false⟩
  let turns : List Turn := [.act (.begin 0), .act (.createAtom 0), .act (.createAtom 0),
    .act (.edit 0 0 (.bind 1 (.bytes [1]))), .exchange 0 1 ⟨0, .ofList [(1, .bytes [2])]⟩]
  let session := (fresh host store).takeAll turns
  have runs : (fresh host store).Runs (fun _ => True) turns := by
    refine ⟨fun _ _ => trivial, ?_, ?_⟩
    · simp [turns, Turn.Stays]
    · exact Nat.one_lt_two_pow (by decide)
  have attained : session.Attained (fun _ => True) := (Attained.created created).takeAll runs
  let transaction : Transaction := ⟨1, .ofList [(0, { draft := ⟨0, .ofList [(1, .bytes [1])]⟩ }),
    (1, { draft := ⟨0, .ofList [(1, .bytes [2])]⟩ })], []⟩
  let reserved : Store := { store with
    state := ⟨{ table := #[.pending, .pending] }, indices⟩ }
  have present : session.transactions 0 = some transaction := rfl
  have stored : session.store = reserved := rfl
  have housed : session.host = host := rfl
  have kept : transaction.kept =
    [⟨0, .ofList [(1, .bytes [1])]⟩, ⟨0, .ofList [(1, .bytes [2])]⟩] := rfl
  obtain ⟨committed, succeeded⟩ : ∃ committed,
      (transaction.commit host.directory reserved).outcome = .ok committed := ⟨_, rfl⟩
  let last : Atom := Draft.toAtom ⟨0, .ofList [(1, .bytes [2])]⟩ 1 Nat.one_pos
  have slot : (transaction.commit host.directory reserved).store.state.slots.slot 0 =
    .committed last := rfl
  rw [← stored, ← housed] at succeeded slot
  have opened : session.store.file = some ⟨path, header, 40, 40, sync, false⟩ := by
    rw [stored]
  have first : (⟨0, .ofList [(1, .bytes [1])]⟩ : Draft) ∈ transaction.kept := by
    rw [kept]
    exact List.mem_cons_self
  refine ⟨session, _, transaction, committed, _, last, attained, opened, present, succeeded, first,
    rfl, ?_, rfl⟩
  rw [step_commit present]
  generalize transaction.commit session.host.directory session.store = report at slot ⊢
  exact slot

end Session
end AtomStore
