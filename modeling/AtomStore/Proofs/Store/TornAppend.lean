import AtomStore.Proofs.Log.Blanked
import AtomStore.Proofs.Log.HeaderRoundTrip
import AtomStore.Proofs.Store.Spoiled

/-!
# Commits torn in front of pad bytes

The place of the next record is behind the last one, so a record can come to be written over pad
bytes. When only its first bytes get there, the file goes on with pad bytes and does not end inside
the record. The reader meets a flaw or a wrong checksum then: the file counts as damaged and does
not open, whether it may be repaired or not. Only when nothing of the record gets there the file
opens, to what the store held before the commit.
-/

namespace AtomStore

open Log (Header Record StoredRecord)

/-- How a file opens when only some of the first bytes of a record are written at the place of the
next one: to a table when there are none of them, and not at all otherwise. -/
structure DataFile.Torn (file : DataFile) (directory : Directory) (record : Bytes)
    (slots : Slots) : Prop where
  untouched : ∀ torn : Host, torn.directory = (file.writeNext directory (record.take 0)).1 →
    ∀ settings : Settings, ∃ last again,
      Store.openFile torn { settings with path := file.path } = (last, .ok again) ∧
        again.state.slots = slots ∧ last.directory = torn.directory
  begun : ∀ count, 0 < count → count < record.length → ∀ torn : Host,
    torn.directory = (file.writeNext directory (record.take count)).1 →
    ∀ settings : Settings, ∃ last error,
      Store.openFile torn { settings with path := file.path } =
          (last, .error (.dataFile error)) ∧
        (error = .recordChecksum file.stop ∨ ∃ wrong, error = .corrupt file.stop wrong) ∧
        last.directory = torn.directory

namespace DataFile.Whole

variable {file : DataFile} {directory : Directory} {records : List Record} {ends : Nat}
  {taken : Slots} {record : StoredRecord}

/-- Pad bytes that are written at the place of the next record add no record. -/
theorem padded (whole : file.Whole directory records ends) (count : Nat) :
    (file.writeNext directory (List.replicate count Log.padByte)).2.Whole
      (file.writeNext directory (List.replicate count Log.padByte)).1 records ends := by
  obtain ⟨front, before, content, found, size, long, decoded, spans⟩ :=
    whole.content_writeNext (List.replicate count Log.padByte)
  have held := Directory.content_of_file? found
  obtain ⟨last, scanned⟩ := spans.scanFrom_behind file.headerLength
  -- the scan ends with the last record, however many pad bytes there are behind it
  have same : last = ends := by
    have known := whole.scanned
    rw [content, List.drop_append_of_le_length long, Log.scan, scanned, List.nil_append,
      Log.scanFrom_replicate] at known
    exact Except.ok.inj (congrArg Log.Scan.outcome known)
  refine ⟨held.symm ▸ found, ?_, ?_, Nat.le_trans whole.ends_le (Nat.le_add_right ..), ?_⟩
  · change Header.decode ((file.writeNext directory _).1.content file.path) = _
    rw [held]
    exact (Header.decode_grow decoded _).1
  · change Log.scan file.header.version file.headerLength
      (((file.writeNext directory _).1.content file.path).drop file.headerLength) = _
    rw [held, List.drop_append_of_le_length long, Log.scan, scanned, List.nil_append,
      List.replicate_append_replicate, Log.scanFrom_replicate, List.append_nil, same]
  · change file.stop + (List.replicate count Log.padByte).length ≤
      ((file.writeNext directory _).1.content file.path).length
    rw [held, List.length_append, List.length_append]
    omega

/-- A record torn in front of pad bytes that it fits into is refused, for a flaw or for the checksum,
as soon as one byte of it is there. -/
theorem torn (whole : file.Whole directory records ends) (recovered : Recovered taken records)
    (sized : record.Sized file.header.version)
    (room : file.stop + record.bytes.length ≤ (directory.content file.path).length) :
    file.Torn directory record.bytes taken.settle.2 := by
  refine ⟨fun torn written settings => ?_, fun count begun short torn written settings => ?_⟩
  · obtain ⟨fresh, summary, found, recovery⟩ := (whole.padded 0).recover_again recovered
      settings.sync settings.readOnly settings.repairTornTail
    have same : torn.directory =
      (file.writeNext directory (List.replicate 0 Log.padByte)).1 := written
    rw [← same] at found recovery
    obtain ⟨last, again, opened, left, slots, _⟩ :=
      Store.openFile_eq_ok { settings with path := file.path } found recovery
    exact ⟨last, again, opened, slots, left⟩
  · obtain ⟨front, padding, content, found, size, _, decoded, spans⟩ :=
      whole.content_writeNext (record.bytes.take count)
    have kept : (record.bytes.take count).length = count := by
      rw [List.length_take]
      omega
    have missing : (record.bytes.drop count).length = record.bytes.length - count :=
      List.length_drop
    have enough : (record.bytes.drop count).length ≤
        padding - (record.bytes.take count).length := by
      rw [content, List.length_append, List.length_replicate, size] at room
      omega
    obtain ⟨error, cause, scanned⟩ := spans.scanFrom_blanked sized
      (List.take_append_drop count record.bytes).symm
      (List.ne_nil_of_length_pos (by omega)) (List.ne_nil_of_length_pos (by omega)) enough
      file.headerLength
    rw [← written] at found
    have uncut : ∀ offset, error ≠ .truncated offset := by
      rcases cause with rfl | ⟨_, rfl⟩ <;> exact fun _ => nofun
    obtain ⟨after, failed, left⟩ :=
      openFile_of_damaged found decoded recovered scanned uncut settings
    exact ⟨after, error, failed, cause, left⟩

end DataFile.Whole

namespace Session

variable {session : Session} {file : DataFile} {records : List Record} {ends : Nat} {taken : Slots}

/-- What a commit writes at the place of the next record, and how the file opens if only some of the
first bytes of that get there, over pad bytes. -/
theorem Backed.torn (backed : session.Backed file records ends taken)
    (owned : session.Owned) {name : Nat} {transaction : Transaction} {committed : Committed}
    (present : session.transactions name = some transaction)
    (succeeded : (transaction.commit session.host.directory session.store).outcome =
      .ok committed)
    (writes : transaction.kept ≠ []) (counted : session.store.ucn < 2 ^ 64)
    (sized : ∀ draft ∈ transaction.kept, draft.Sized) :
    ∃ record next, record ≠ [] ∧ (session.step (.commit name)).store.file = some next ∧
      file.writeNext session.host.directory record =
        ((session.step (.commit name)).host.directory, next) ∧
      (file.stop + record.length ≤ (session.host.directory.content file.path).length →
        file.Torn session.host.directory record taken.settle.2) := by
  obtain ⟨empty, _⟩ | ⟨written, recorded, drafts, wrote, directory, kept, _⟩ :=
    owned.commit_succeeded present succeeded
  · exact absurd empty writes
  obtain ⟨next, record, moved, here, _, fits, _⟩ := transaction.record_of_write
    (owned.numbered name transaction present) backed.file_eq wrote counted sized
  refine ⟨record.bytes, next, List.cons_ne_nil _ _, kept.trans here, ?_,
    backed.whole.torn backed.recovered fits⟩
  rw [directory]
  exact moved

/-- How a file that ends in pad bytes opens after a commit that has written only some of the first
bytes of its record over them. If it has written none, the file opens under any settings, with what
it held before. Otherwise it is refused at the place of the record, for a flaw or for the checksum,
also when a torn record may be repaired, and stays as it is. -/
theorem Served.openFile_torn (served : session.Served)
    (opened : session.store.file = some file) {prior : Settings} {host : Host} {store : Store}
    (accepted : Store.openFile session.host { prior with path := file.path } = (host, .ok store))
    {name : Nat} {transaction : Transaction} {committed : Committed}
    (present : session.transactions name = some transaction)
    (succeeded : (transaction.commit session.host.directory session.store).outcome =
      .ok committed)
    (writes : transaction.kept ≠ []) (counted : session.store.ucn < 2 ^ 64 - 1)
    (sized : ∀ draft ∈ transaction.kept, draft.Sized) {after : Session}
    (stepped : session.step (.commit name) = after) :
    store.ucn = session.store.ucn ∧
    (∀ id, (store.state.slots.atom? id).isSome = (session.store.state.slots.atom? id).isSome) ∧
    ∃ record next, record ≠ [] ∧ after.store.file = some next ∧
      file.writeNext session.host.directory record = (after.host.directory, next) ∧
      (file.stop + record.length ≤ (session.host.directory.content file.path).length →
        file.Torn session.host.directory record store.state.slots) := by
  rw [← stepped]
  rcases served.backed_or_spoiled with ⟨_, records, ends, taken, backed⟩ |
    ⟨_, front, record, length, ruined⟩
  · obtain rfl := Option.some.inj (opened.symm.trans backed.file_eq)
    have filled : store.state.slots = taken.settle.2 := by
      obtain ⟨_, same, reopened, _, slots, _⟩ := backed.openFile_eq prior
      rw [accepted] at reopened
      cases reopened
      exact slots
    rw [Store.ucn, filled]
    refine ⟨backed.ucn_eq, fun id => ?_, backed.torn served.reachable.owned present succeeded
      writes (by omega) sized⟩
    rw [Slots.atom?_settle, backed.occupied]
  · obtain rfl := Option.some.inj (opened.symm.trans ruined.file_eq)
    obtain ⟨_, failed, _⟩ := ruined.spoiled.openFile_eq prior
    rw [failed] at accepted
    cases accepted

/-- A new file opens when pad bytes are written behind its header. -/
theorem Backed.openFile_padded {host : Host} {store : Store}
    (backed : (fresh host store).Backed file [] file.stop .empty) (count : Nat) {start : Host}
    (written : start.directory =
      (file.writeNext host.directory (List.replicate count Log.padByte)).1) :
    Store.openFile start { path := file.path } =
      ({ start with nextIndex := start.nextIndex + 1 },
        .ok ⟨{ path := file.path }, .new start.nextIndex .descending,
          some { file with sync := true, readOnly := false }, false, false⟩) := by
  obtain ⟨read, summary, found, recovery⟩ :=
    (backed.whole.padded count).recover_again .nothing true false false
  have clear : Slots.empty.settle.2 = .empty := by
    simp only [Slots.settle, Slots.empty, Array.map_empty]
  rw [clear] at recovery
  have accepted : DataFile.openAt start.directory file.path true false = .ok read := by
    rw [written]
    exact found
  have taken : read.recover start.directory .empty false = ⟨.empty, start.directory,
      { file with sync := true, readOnly := false }, .ok summary⟩ := by
    rw [written]
    exact recovery
  simp only [Store.openFile, accepted, Host.newState, State.new, taken]
  rfl

/-- A session on a file with pad bytes behind its header, about to commit a record that they can
take. -/
theorem exists_padded :
    ∃ session file host store transaction committed, ∃ prior : Settings, Filed session ∧
      session.store.file = some file ∧
      Store.openFile session.host { prior with path := file.path } = (host, .ok store) ∧
      session.transactions 0 = some transaction ∧
      (transaction.commit session.host.directory session.store).outcome = .ok committed ∧
      transaction.kept ≠ [] ∧ session.store.ucn = 1 ∧
      (∀ draft ∈ transaction.kept, draft.Sized) ∧
      ∀ record next, (session.step (.commit 0)).store.file = some next →
        file.writeNext session.host.directory record =
          ((session.step (.commit 0)).host.directory, next) →
        1 < record.length ∧
          file.stop + record.length ≤ (session.host.directory.content file.path).length := by
  let count := (Log.recordBytes 1 [⟨0, []⟩]).length
  obtain ⟨host, _, created⟩ : ∃ host store, Store.create {} {} .zero .empty =
    (host, .ok store) := ⟨_, _, rfl⟩
  obtain ⟨file, backed⟩ := backed_created created
  let start : Host := { host with
    directory := (file.writeNext host.directory (List.replicate count Log.padByte)).1 }
  have opened := backed.openFile_padded count (rfl : start.directory = _)
  have filed : Filed _ := .step (.step (.opened opened)
    (.begin 0) fun _ _ _ same => Action.noConfusion same)
    (.createAtom 0) fun _ _ _ same => Action.noConfusion same
  obtain ⟨_, _, _, _, ready⟩ := filed.backed
  obtain rfl := Option.some.inj ready.file_eq
  obtain ⟨last, again, accepted, _⟩ := ready.openFile_eq {}
  refine ⟨_, _, last, again, _, _, {}, filed, ready.file_eq, accepted, rfl, rfl,
    List.cons_ne_nil _ _, rfl,
    List.forall_mem_singleton.mpr ⟨Nat.two_pow_pos 64, List.forall_mem_nil _⟩,
    fun record next stored moved => ?_⟩
  have stop : next.stop = file.stop + count := congrArg DataFile.stop (Option.some.inj stored).symm
  have long : next.stop = file.stop + record.length :=
    congrArg (fun pair => pair.2.stop) moved.symm
  have length : record.length = count := Nat.add_left_cancel (long.symm.trans stop)
  have room : file.stop + (List.replicate count Log.padByte).length ≤
    (start.directory.content file.path).length := (backed.whole.padded count).stop_le
  rw [List.length_replicate] at room
  have summed : 4 < count := by
    simp only [count, Log.recordBytes, List.length_append, Header.length_wordBytes,
      List.length_singleton]
    omega
  exact ⟨by omega, length ▸ room⟩

/-- The record of the first commit covers pad bytes. The file is refused when the first byte of it
gets there alone, although a torn record may be repaired, and opens when no byte does. -/
theorem openFile_torn_first_byte :
    ∃ session file record next, Served session ∧ session.store.file = some file ∧
      1 < record.length ∧ file.writeNext session.host.directory record =
        ((session.step (.commit 0)).host.directory, next) ∧
      (∀ torn : Host,
        torn.directory = (file.writeNext session.host.directory (record.take 1)).1 →
        ∃ last error, Store.openFile torn { path := file.path, repairTornTail := true } =
          (last, .error (.dataFile error)) ∧ last.directory = torn.directory) ∧
      ∀ torn : Host,
        torn.directory = (file.writeNext session.host.directory (record.take 0)).1 →
        ∃ last again, Store.openFile torn { path := file.path } = (last, .ok again) ∧
          again.ucn = 1 := by
  obtain ⟨session, file, host, store, transaction, committed, prior, filed, opened, accepted,
    present, succeeded, writes, ucn, sized, fits⟩ := exists_padded
  have counted : session.store.ucn < 2 ^ 64 - 1 := by
    rw [ucn]
    decide
  obtain ⟨number, _, record, next, _, stored, moved, torn⟩ := filed.served.openFile_torn opened
    accepted present succeeded writes counted sized rfl
  obtain ⟨two, room⟩ := fits record next stored moved
  refine ⟨session, file, record, next, filed.served, opened, two, moved, fun half written => ?_,
    fun bare written => ?_⟩
  · obtain ⟨last, error, failed, _, left⟩ :=
      (torn room).begun 1 Nat.one_pos two half written { repairTornTail := true }
    exact ⟨last, error, failed, left⟩
  · obtain ⟨last, again, reopened, slots, _⟩ := (torn room).untouched bare written {}
    refine ⟨last, again, reopened, ?_⟩
    rw [Store.ucn, slots]
    exact number.trans ucn

/-- A record of which only the first byte is written over pad bytes is not repaired. -/
theorem not_torn_append_repaired :
    ¬ ∀ (session : Session) (file next : DataFile) (prior : Settings) (host : Host) (store : Store)
        (name : Nat) (transaction : Transaction) (committed : Committed) (record : Bytes)
        (count : Nat) (torn : Host),
        session.Served → session.store.file = some file →
        Store.openFile session.host { prior with path := file.path } = (host, .ok store) →
        session.transactions name = some transaction →
        (transaction.commit session.host.directory session.store).outcome = .ok committed →
        file.writeNext session.host.directory record =
          ((session.step (.commit name)).host.directory, next) →
        file.stop + record.length ≤ (session.host.directory.content file.path).length →
        count < record.length →
        torn.directory = (file.writeNext session.host.directory (record.take count)).1 →
        ∃ last again, Store.openFile torn { path := file.path, repairTornTail := true } =
          (last, .ok again) ∧ again.state.slots = store.state.slots := by
  intro repaired
  obtain ⟨session, file, host, store, transaction, committed, prior, filed, opened, accepted,
    present, succeeded, writes, ucn, sized, fits⟩ := exists_padded
  obtain ⟨_, records, ends, taken, backed⟩ := filed.backed
  obtain rfl := Option.some.inj (opened.symm.trans backed.file_eq)
  obtain ⟨record, next, _, stored, moved, torn⟩ := backed.torn filed.reachable.owned present
    succeeded writes (by rw [ucn]; decide) sized
  obtain ⟨two, room⟩ := fits record next stored moved
  let half : Host := { directory := (file.writeNext session.host.directory (record.take 1)).1 }
  obtain ⟨_, _, reopened, _⟩ := repaired session file next prior host store 0 transaction committed
    record 1 half filed.served opened accepted present succeeded moved room two rfl
  obtain ⟨_, _, failed, _⟩ :=
    (torn room).begun 1 Nat.one_pos two half rfl { repairTornTail := true }
  cases failed.symm.trans reopened

end Session
end AtomStore
