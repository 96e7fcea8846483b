import AtomStore.Proofs.Store.Backed
import AtomStore.Proofs.Store.StateSteps

/-!
# Turns of a session

Beside its actions, a session knows two things that a store lets its users do. They may exchange a
draft for another one, whatever number that has, and a commit may take any course: verifiers and its
observer read indices, and the system fails to write the record.

In every session the slots are used up in order and the bytes in front of the place of the next
record stay as they are. That open transactions own their reserved slots holds of the sessions in
which every draft keeps the number of its slot.
-/

namespace AtomStore

/-- A commit that has appended its record leaves the file further on, with the same bytes in front of
where it was. -/
theorem CommitReport.Appended.extends {report : CommitReport} {transaction : Transaction}
    {directory : Directory} {settings : Settings} {ucn : Nat} {file : DataFile}
    (appended : report.Appended transaction directory settings ucn (some file))
    (present : file.Present directory) :
    ∃ next, report.store.file = some next ∧ next.Present report.directory ∧
      file.Extends next directory report.directory := by
  obtain ⟨_, atoms, _, written, grown⟩ := appended
  rw [written]
  exact ⟨_, grown, present.writeNext (Log.recordBytes ucn atoms)⟩

namespace Transaction

/-- In every course a commit leaves the bytes in front of the place of the next record as they
are. -/
theorem extends_commitUnder {course : Course} {transaction : Transaction} {directory : Directory}
    {store : Store} {file : DataFile} (opened : store.file = some file)
    (present : file.Present directory) :
    ∃ next, (transaction.commitUnder course directory store).store.file = some next ∧
      next.Present (transaction.commitUnder course directory store).directory ∧
      file.Extends next directory (transaction.commitUnder course directory store).directory := by
  obtain ⟨_, emptied, same | ⟨found, fault, bytes, here, left⟩⟩ | appended :=
    emptied_or_appended course transaction directory store
  · rw [same]
    exact ⟨file, emptied.file_eq.trans opened, present, .refl file directory⟩
  · obtain rfl := Option.some.inj (here.symm.trans opened)
    rw [left]
    exact ⟨found, emptied.file_eq.trans opened, present.failNext bytes fault⟩
  · exact (opened ▸ appended).extends present

end Transaction

namespace Session

/-- What can be done in a session at one go. -/
inductive Turn where
  | act (action : Action)
  /-- Puts another draft in the place of the one in a slot. -/
  | exchange (name id : Nat) (draft : Draft)
  /-- Commits a transaction in some course. -/
  | commit (name : Nat) (course : Transaction.Course)

namespace Turn

/-- Whether every draft still has the number of its slot if it had before. -/
def KeepsNumbers : Turn → Prop
  | exchange _ id draft => draft.id = id
  | _ => True

/-- Whether the store stays open. -/
def Stays (turn : Turn) : Prop := ∀ settings, turn ≠ .act (.reopen settings)

/-- The transaction that is committed, and the course of that. -/
def commit? : Turn → Option (Nat × Transaction.Course)
  | act (.commit name) => some (name, {})
  | commit name course => some (name, course)
  | _ => none

theorem Stays.action {action : Action} (stays : (act action).Stays) :
    ∀ settings, action ≠ .reopen settings :=
  fun settings same => stays settings (congrArg act same)

end Turn

/-- The session when a commit has ended. -/
def ended (session : Session) (name : Nat) (report : CommitReport) : Session :=
  { session with
    host := { session.host with directory := report.directory }
    store := report.store }.withTransaction name none

/-- The session after a turn; one that is refused changes nothing. -/
def take (session : Session) : Turn → Session
  | .act action => session.step action
  | .exchange name id draft =>
    match session.transactions name with
    | none => session
    | some transaction =>
      match transaction.exchange id draft with
      | .ok next => session.withTransaction name (some next)
      | .error _ => session
  | .commit name course =>
    match session.transactions name with
    | none => session
    | some transaction =>
      session.ended name (transaction.commitUnder course session.host.directory session.store)

def takeAll (session : Session) (turns : List Turn) : Session := turns.foldl take session

/-- How the commit ends that a turn is, if it is one of an open transaction. -/
def report? (session : Session) (turn : Turn) : Option CommitReport :=
  turn.commit?.bind fun (name, course) => (session.transactions name).map fun transaction =>
    transaction.commitUnder course session.host.directory session.store

variable {session : Session} {turn : Turn} {allowed : Turn → Prop}

/-- A turn commits a transaction in some course, or writes nothing as long as the store is open. -/
theorem take_cases (session : Session) (turn : Turn) :
    (session.report? turn = none ∧ (turn.Stays → session.Unwritten (session.take turn))) ∨
      ∃ name transaction course, turn.commit? = some (name, course) ∧
        session.transactions name = some transaction ∧
        session.report? turn =
          some (transaction.commitUnder course session.host.directory session.store) ∧
        session.take turn =
          session.ended name
            (transaction.commitUnder course session.host.directory session.store) := by
  have idle {name : Nat} {course : Transaction.Course} (commits : turn.commit? = some (name, course))
      (absent : session.transactions name = none) (same : session.take turn = session) :
      session.report? turn = none ∧ (turn.Stays → session.Unwritten (session.take turn)) := by
    refine ⟨?_, fun _ => same.symm ▸ .refl session⟩
    rw [report?, commits, Option.bind_some]
    simp only [absent, Option.map_none]
  cases turn with
  | exchange name id draft =>
    refine .inl ⟨rfl, fun _ => ?_⟩
    rw [Session.take]
    split
    · exact .refl session
    · split
      · exact session.unwritten_withTransaction name _
      · exact .refl session
  | commit name course =>
    cases present : session.transactions name with
    | none => exact .inl (idle rfl present (by simp only [Session.take, present]))
    | some transaction =>
      refine .inr ⟨name, transaction, course, rfl, present, ?_, ?_⟩
      · simp only [report?, Turn.commit?, Option.bind_some, present, Option.map_some]
      · simp only [Session.take, present]
  | act action =>
    by_cases commits : ∃ name, action = .commit name
    · obtain ⟨name, rfl⟩ := commits
      cases present : session.transactions name with
      | none => exact .inl (idle rfl present (by simp only [Session.take, step, present]))
      | some transaction =>
        refine .inr ⟨name, transaction, {}, rfl, present, ?_, step_commit present⟩
        simp only [report?, Turn.commit?, Option.bind_some, present, Option.map_some]
    · refine .inl ⟨?_, fun stays => session.unwritten_step (not_exists.mp commits) stays.action⟩
      cases action with
      | commit name => exact absurd ⟨name, rfl⟩ commits
      | _ => rfl

/-- A turn in an open store changes its state by single steps. -/
theorem steps_take (session : Session) (stays : turn.Stays) :
    StateSteps session.store.state (session.take turn).store.state := by
  cases turn with
  | act action => exact session.steps_step stays.action
  | exchange name id draft =>
    rw [Session.take]
    split
    · exact .refl
    · split <;> exact .refl
  | commit name course =>
    rw [Session.take]
    split
    · exact .refl
    · exact Transaction.steps_commitUnder ..

/-- Whether turns are of an allowed kind and can be taken in an open store whose UCNs are 64-bit
numbers. -/
structure Runs (session : Session) (allowed : Turn → Prop) (turns : List Turn) : Prop where
  allows : ∀ turn ∈ turns, allowed turn
  stays : ∀ turn ∈ turns, turn.Stays
  word : (session.takeAll turns).store.ucn < 2 ^ 64

/-- Turns that stay in the store take its state there by steps. -/
theorem steps_takeAll (session : Session) {turns : List Turn}
    (stays : ∀ turn ∈ turns, turn.Stays) :
    StateSteps session.store.state (session.takeAll turns).store.state := by
  induction turns generalizing session with
  | nil => exact .refl
  | cons turn rest ih =>
    exact (session.steps_take (stays turn List.mem_cons_self)).trans
      (ih _ fun turn member => stays turn (List.mem_cons_of_mem _ member))

/-- The first turn of a run and the run behind it. -/
theorem Runs.cons {rest : List Turn} (runs : session.Runs allowed (turn :: rest)) :
    allowed turn ∧ turn.Stays ∧ (session.take turn).store.ucn < 2 ^ 64 ∧
      (session.take turn).Runs allowed rest := by
  have others : ∀ turn ∈ rest, turn.Stays :=
    fun turn member => runs.stays turn (List.mem_cons_of_mem _ member)
  have later : (session.take turn).store.ucn ≤ (session.takeAll (turn :: rest)).store.ucn :=
    ((session.take turn).steps_takeAll others).grows.slots_later.ucn_le
  exact ⟨runs.allows turn List.mem_cons_self, runs.stays turn List.mem_cons_self,
    Nat.lt_of_le_of_lt later runs.word,
    fun turn member => runs.allows turn (List.mem_cons_of_mem _ member), others, runs.word⟩

/-- Open transactions keep their reserved slots as long as drafts keep their numbers. -/
theorem Owned.take (owned : session.Owned) (keeps : turn.KeepsNumbers) :
    (session.take turn).Owned := by
  cases turn with
  | act action => exact owned.step action
  | exchange name id draft =>
    rw [Session.take]
    split
    · exact owned
    · rename_i transaction present
      split
      · rename_i next exchanged
        obtain ⟨atom, held, rfl⟩ := Transaction.change_eq_ok exchanged
        exact owned.insert present held keeps
      · exact owned
  | commit name course =>
    rw [Session.take]
    split
    · exact owned
    · rename_i transaction present
      refine owned.ended present _ _ fun id absent held => ?_
      rw [Transaction.slot_commitUnder_of_not_mem (owned.numbered name transaction present)
        (owned.pending name transaction present) absent, held]

/-- Whether the data file of a session is in its directory, as far as its next record. -/
def FilePresent (session : Session) : Prop :=
  ∀ file, session.store.file = some file → file.Present session.host.directory

/-- A turn in an open store leaves the bytes in front of the place of the next record as they
are. -/
theorem FilePresent.extends_take (present : session.FilePresent) (stays : turn.Stays)
    {file : DataFile}
    (opened : session.store.file = some file) :
    ∃ next, (session.take turn).store.file = some next ∧
      next.Present (session.take turn).host.directory ∧
      file.Extends next session.host.directory (session.take turn).host.directory := by
  have here := present file opened
  obtain ⟨_, unwritten⟩ | ⟨name, transaction, course, _, _, _, moved⟩ := session.take_cases turn
  · have unwritten := unwritten stays
    rw [unwritten.directory_eq]
    exact ⟨file, unwritten.file_eq.trans opened, here, .refl file _⟩
  · rw [moved]
    exact Transaction.extends_commitUnder opened here

/-- A store in memory stays one. -/
theorem file_take_eq_none (stays : turn.Stays) (memory : session.store.file = none) :
    (session.take turn).store.file = none := by
  obtain ⟨_, unwritten⟩ | ⟨name, transaction, course, _, _, _, moved⟩ := session.take_cases turn
  · exact (unwritten stays).file_eq.trans memory
  · rw [moved]
    obtain ⟨_, emptied, _⟩ | appended := Transaction.emptied_or_appended course transaction
      session.host.directory session.store
    · exact emptied.file_eq.trans memory
    · exact (memory ▸ appended).2

/-- A turn that stays in the store leaves its file there. -/
theorem FilePresent.take (present : session.FilePresent) (stays : turn.Stays) :
    (session.take turn).FilePresent := by
  intro file here
  cases before : session.store.file with
  | none =>
    rw [file_take_eq_none stays before] at here
    cases here
  | some found =>
    obtain ⟨next, grown, there, _⟩ := present.extends_take stays before
    obtain rfl := Option.some.inj (grown.symm.trans here)
    exact there

/-- Sessions that start with a store in memory, a new file or a file that opens, and what turns of an
allowed kind make of them, as long as the UCN of the next commit is a 64-bit number. -/
inductive Attained (allowed : Turn → Prop) : Session → Prop where
  | inMemory (host : Host) (settings : Settings) :
      Attained allowed (fresh (Store.inMemory host settings).2 (Store.inMemory host settings).1)
  | created {host next : Host} {settings : Settings} {storeId : StoreId} {metadata : Metadata}
      {store : Store}
      (created : Store.create host settings storeId metadata = (next, .ok store)) :
      Attained allowed (fresh next store)
  | opened {host next : Host} {settings : Settings} {store : Store}
      (opened : Store.openFile host settings = (next, .ok store)) (word : store.ucn < 2 ^ 64) :
      Attained allowed (fresh next store)
  | step {session : Session} (before : Attained allowed session) {turn : Turn}
      (allows : allowed turn) (word : (session.take turn).store.ucn < 2 ^ 64) :
      Attained allowed (session.take turn)

/-- Opening the file of a session again leads to a store that has been opened, or changes nothing. -/
theorem step_reopen (session : Session) (settings : Settings) :
    session.step (.reopen settings) = session ∨
      ∃ host used store next, Store.openFile host used = (next, .ok store) ∧
        session.step (.reopen settings) = fresh next store := by
  rw [step]
  split
  · exact .inl rfl
  · split
    · rename_i opened
      exact .inr ⟨_, _, _, _, opened, rfl⟩
    · exact .inl rfl

theorem filePresent_opened {host next : Host} {settings : Settings} {store : Store}
    (opened : Store.openFile host settings = (next, .ok store)) :
    (fresh next store).FilePresent := by
  obtain ⟨file, _, _, _, backed⟩ := backed_opened opened
  intro found here
  obtain rfl := Option.some.inj (backed.file_eq.symm.trans here)
  exact backed.whole.present

namespace Attained

/-- The state of every session is one of those of stores in use. -/
theorem state (attained : session.Attained allowed) : session.store.state.Attained := by
  induction attained with
  | inMemory host settings => exact .new host.nextIndex settings.globalOrder
  | @created host next settings storeId metadata store created =>
    unfold Store.create at created
    split at created
    · cases created
    · cases created
      exact .new host.nextIndex settings.globalOrder
  | opened opened word => exact .opened opened word
  | @step session _ turn _ word ih =>
    by_cases reopens : ∃ settings, turn = .act (.reopen settings)
    · obtain ⟨settings, rfl⟩ := reopens
      rw [Session.take] at word ⊢
      obtain same | ⟨_, _, _, _, opened, same⟩ := session.step_reopen settings
      · rw [same]
        exact ih
      · rw [same] at word ⊢
        exact .opened opened word
    · exact ih.steps (session.steps_take (not_exists.mp reopens)) word

theorem consistent (attained : session.Attained allowed) : session.store.state.Consistent :=
  attained.state.consistent

theorem filePresent (attained : session.Attained allowed) : session.FilePresent := by
  induction attained with
  | inMemory host settings => rintro _ ⟨⟩
  | created created =>
    obtain ⟨file, backed⟩ := backed_created created
    intro found here
    obtain rfl := Option.some.inj (backed.file_eq.symm.trans here)
    exact backed.whole.present
  | opened opened => exact filePresent_opened opened
  | @step session _ turn _ word ih =>
    by_cases reopens : ∃ settings, turn = .act (.reopen settings)
    · obtain ⟨settings, rfl⟩ := reopens
      rw [Session.take]
      obtain same | ⟨_, _, _, _, opened, same⟩ := session.step_reopen settings
      · rw [same]
        exact ih
      · rw [same]
        exact filePresent_opened opened
    · exact ih.take (not_exists.mp reopens)

/-- In every session in which drafts keep their numbers, open transactions own their slots. -/
theorem owned (attained : session.Attained allowed)
    (keeps : ∀ turn, allowed turn → turn.KeepsNumbers) : session.Owned := by
  induction attained with
  | inMemory host settings => exact owned_fresh _ _
  | created created => exact owned_fresh _ _
  | opened opened => exact owned_fresh _ _
  | step _ allows _ ih => exact ih.take (keeps _ allows)

/-- A run in an attained session leads to an attained one. -/
theorem takeAll (attained : session.Attained allowed) {turns : List Turn}
    (runs : session.Runs allowed turns) : (session.takeAll turns).Attained allowed := by
  induction turns generalizing session with
  | nil => exact attained
  | cons turn rest ih =>
    obtain ⟨allows, _, word, others⟩ := runs.cons
    exact ih (attained.step allows word) others

end Attained

end Session
end AtomStore
