import AtomStore.Proofs.Store.Building
import AtomStore.Proofs.Store.Publication

/-!
# Transactions side by side

Users of a store know of it what their turns have answered: the slots that were handed out and the
commits that succeeded. However the turns of several transactions follow each other, the slots handed
out are new, every commit that is not empty takes one UCN of its own, and a slot that has been filled
or emptied stays as it is.

As long as every draft keeps the number of its slot this is enough to tell the state of every slot:
the slots of unfinished transactions are the reserved ones, and the atoms of all commits stay where
they are. A draft that has been exchanged for one with another number spoils that. Two drafts of a
commit can then fill the same slot, where the last one stays and both are counted.
-/

namespace AtomStore

/-- A slot that holds an atom or is empty for good stays as it is. -/
theorem Slots.Later.slot_eq {before after : Slots} (later : before.Later after) {id : Nat}
    (inside : id < before.size) (decided : before.slot id ≠ .pending) :
    after.slot id = before.slot id := by
  have filled {atom : Atom} (held : before.slot id = .committed atom) :
      after.slot id = .committed atom := later.kept id atom held
  have free : ¬ before.size ≤ id := Nat.not_le.mpr inside
  cases now : after.slot id with
  | pending => exact absurd ((later.pending id now).resolve_right free) decided
  | committed atom =>
    rcases later.committed id atom now with there | ⟨_, reserved⟩
    · exact there.symm
    · exact absurd (reserved.resolve_right free) decided
  | never =>
    cases held : before.slot id with
    | never => rfl
    | pending => exact absurd held decided
    | committed atom => exact now.symm.trans (filled held)

namespace Session

/-- What an action commits, if it is a commit that succeeds. -/
def committed? (session : Session) : Action → Option Committed
  | .commit name => (session.transactions name).bind fun transaction =>
      (transaction.commit session.host.directory session.store).outcome.toOption
  | _ => none

/-- What a turn commits, if it is a commit that succeeds. -/
def committedBy? (session : Session) (turn : Turn) : Option Committed :=
  (session.report? turn).bind (·.outcome.toOption)

variable {session : Session} {name id : Nat} {turn : Turn}

/-- The turn that is an action commits what the action does. -/
theorem committedBy?_act (session : Session) (action : Action) :
    session.committedBy? (.act action) = session.committed? action := by
  cases action with
  | commit name =>
    cases present : session.transactions name with
    | none => simp only [committedBy?, report?, Turn.commit?, committed?, present, Option.bind_some,
        Option.map_none, Option.bind_none]
    | some transaction => simp only [committedBy?, report?, Turn.commit?, committed?, present,
        Option.bind_some, Option.map_some, Transaction.commit]
  | _ => rfl

/-- Slots are handed out behind all others. -/
theorem of_handed? {action : Action} (handed : session.handed? action = some (name, id)) :
    id = session.store.state.slots.size ∧ id < (session.step action).store.state.slots.size := by
  cases action with
  | createAtom other =>
    cases present : session.transactions other with
    | none =>
      rw [handed?, present] at handed
      cases handed
    | some transaction =>
      rw [handed?, present] at handed
      cases handed
      refine ⟨rfl, ?_⟩
      simp only [step, present]
      exact Nat.lt_of_lt_of_eq (Nat.lt_succ_self _) (Array.size_push _).symm
  | _ => cases handed

/-- A slot that is handed out is the first that was not there. -/
theorem of_handedBy? (handed : session.handedBy? turn = some (name, id)) :
    id = session.store.state.slots.size ∧ id < (session.take turn).store.state.slots.size := by
  cases turn with
  | act action => exact of_handed? handed
  | exchange other slot draft => cases handed
  | commit other course => cases handed

/-- What a commit that is not empty does, whatever numbers its drafts have. -/
structure Commits (session : Session) (turn : Turn) (committed : Committed) : Prop where
  committedBy?_eq : session.committedBy? turn = some committed
  ids_eq : ∃ name transaction, session.transactions name = some transaction ∧
    committed.atoms.map (·.id) = transaction.kept.map (·.id)
  ucn_eq : committed.ucn = some session.store.ucn
  filled : committed.atoms ≠ []
  sealed : ∀ atom ∈ committed.atoms, atom.ucn = session.store.ucn
  next_ucn : (session.take turn).store.ucn = session.store.ucn + 1
  origin : ∀ id atom, (session.take turn).store.state.slots.slot id = .committed atom →
    session.store.state.slots.slot id = .committed atom ∨ atom ∈ committed.atoms
  /-- All atoms are found in their slots unless two different ones have the same. -/
  found_iff : (∀ atom ∈ committed.atoms,
      (session.take turn).store.state.slots.slot atom.id = .committed atom) ↔
    ∀ atom ∈ committed.atoms, ∀ other ∈ committed.atoms, atom.id = other.id → atom = other
  /-- The count stays right unless two of them have the same slot. -/
  counted_iff : session.store.state.slots.Counted →
    ((session.take turn).store.state.slots.Counted ↔ (committed.atoms.map (·.id)).Nodup)

/-- A turn in an open store publishes nothing, or is a commit that is not empty. -/
theorem commits_cases (session : Session) (stays : turn.Stays) :
    ((session.take turn).store.ucn = session.store.ucn ∧
        (∀ id, (session.take turn).store.state.slots.atom? id =
          session.store.state.slots.atom? id) ∧
        ∀ committed, session.committedBy? turn = some committed → committed.atoms = []) ∨
      ∃ committed, session.Commits turn committed := by
  obtain ⟨idle, unwritten⟩ | ⟨name, transaction, course, _, present, reported, moved⟩ :=
    session.take_cases turn
  · refine .inl ⟨(unwritten stays).ucn_eq, (unwritten stays).atom?_eq, fun committed done => ?_⟩
    rw [committedBy?, idle] at done
    cases done
  have answer : session.committedBy? turn =
      (transaction.commitUnder course session.host.directory session.store).outcome.toOption := by
    rw [committedBy?, reported, Option.bind_some]
  rw [moved]
  cases outcome : (transaction.commitUnder course session.host.directory session.store).outcome with
  | error failure =>
    rw [outcome] at answer
    have unpublished : ∀ committed,
        (transaction.commitUnder course session.host.directory session.store).outcome =
          .ok committed → committed.ucn = none := by
      intro committed same
      rw [outcome] at same
      cases same
    obtain ⟨_, ucn, _, atoms⟩ := Transaction.unpublished_of_outcome unpublished
    refine .inl ⟨ucn, atoms, fun committed done => ?_⟩
    rw [answer] at done
    cases done
  | ok committed =>
    rw [outcome] at answer
    obtain ⟨_, ⟨_, rfl, emptied, _⟩ | ⟨kept, drafts, ids, rfl, taken, _⟩⟩ :=
      Transaction.of_commitUnder_eq_ok outcome
    · refine .inl ⟨emptied.ucn_eq, emptied.atom?_eq, fun committed done => ?_⟩
      rw [answer] at done
      cases done
      rfl
    right
    let released := session.store.state.slots.releaseAll transaction.dropped
    have before (id : Nat) : released.atom? id = session.store.state.slots.atom? id :=
      Slots.atom?_releaseAll _ _ id
    obtain ⟨ucn, counts, _⟩ := session.store.state.slots.releaseAll_counts transaction.dropped
    obtain ⟨publishes, admitted⟩ := Slots.publishes_of_publish taken
    have numbers := session.store.map_id_sealedAtoms drafts
    refine ⟨_, answer, ⟨name, transaction, present, numbers.trans ids⟩, rfl, ?_, ?_, ?_, ?_, ?_, ?_⟩
    · intro nothing
      have nothing : session.store.sealedAtoms drafts = [] := nothing
      rw [nothing, ids, List.map_nil, eq_comm, List.map_eq_nil_iff] at numbers
      exact kept numbers
    · intro atom member
      obtain ⟨draft, _, rfl⟩ := List.mem_map.mp member
      rfl
    · rw [moved]
      exact publishes.ucn_eq.trans (congrArg (· + 1) ucn)
    · intro id atom held
      rw [moved, ← Slots.atom?_eq_some_iff] at held
      have held := (publishes.atom?_eq id).symm.trans held
      cases found : atomFor? (session.store.sealedAtoms drafts).reverse id with
      | none =>
        rw [found, Option.none_or, before] at held
        exact .inl (Slots.atom?_eq_some_iff.mp held)
      | some other =>
        rw [found, Option.some_or] at held
        obtain rfl := Option.some.inj held
        exact .inr (List.mem_reverse.mp (of_atomFor?_eq_some found).1)
    · rw [moved, ← publishes.found_iff]
      exact forall₂_congr fun atom _ => Slots.atom?_eq_some_iff.symm
    · intro counted
      rw [moved]
      refine publishes.counted_iff (counted.of_atom?_eq counts before) fun atom member => ?_
      rw [Slots.atom?_eq, (admitted atom member).1]
      rfl

/-- The atoms of a commit have slots of their own as long as drafts keep their numbers. -/
theorem Owned.distinct (owned : session.Owned) {committed : Committed}
    (commits : session.Commits turn committed) : (committed.atoms.map (·.id)).Nodup := by
  obtain ⟨name, transaction, present, ids⟩ := commits.ids_eq
  rw [ids]
  exact Transaction.nodup_kept (owned.numbered name transaction present)

/-- Then all of them are found in their slots. -/
theorem Owned.found (owned : session.Owned) {committed : Committed}
    (commits : session.Commits turn committed) : ∀ atom ∈ committed.atoms,
      (session.take turn).store.state.slots.slot atom.id = .committed atom := by
  have distinct := owned.distinct commits
  exact commits.found_iff.mpr fun atom member other among same =>
    List.inj_on_of_nodup_map distinct member among same

/-- Whatever a turn commits has the UCN of the store, which moves on. -/
theorem of_committedBy? (stays : turn.Stays) {committed : Committed}
    (done : session.committedBy? turn = some committed) :
    ∀ atom ∈ committed.atoms, committed.ucn = some atom.ucn ∧ atom.ucn = session.store.ucn ∧
      atom.ucn < (session.take turn).store.ucn := by
  intro atom member
  obtain ⟨_, _, nothing⟩ | ⟨made, commits⟩ := session.commits_cases stays
  · rw [nothing committed done] at member
    cases member
  · obtain rfl := Option.some.inj (commits.committedBy?_eq.symm.trans done)
    have same := commits.sealed atom member
    have next := commits.next_ucn
    exact ⟨commits.ucn_eq.trans (congrArg some same.symm), same, by omega⟩

/-- An atom that is in the slots after a turn was there or has been committed. -/
theorem slot_take (stays : turn.Stays) {atom : Atom}
    (held : (session.take turn).store.state.slots.slot id = .committed atom) :
    session.store.state.slots.slot id = .committed atom ∨
      ∃ committed, session.committedBy? turn = some committed ∧ atom ∈ committed.atoms := by
  obtain ⟨_, same, _⟩ | ⟨committed, commits⟩ := session.commits_cases stays
  · rw [← Slots.atom?_eq_some_iff, same, Slots.atom?_eq_some_iff] at held
    exact .inl held
  · exact (commits.origin id atom held).imp_right fun new =>
      ⟨committed, commits.committedBy?_eq, new⟩

/-- Whatever is committed is in the slots then, as long as drafts keep their numbers. -/
theorem Owned.of_committedBy? (owned : session.Owned) (stays : turn.Stays) {committed : Committed}
    (done : session.committedBy? turn = some committed) : ∀ atom ∈ committed.atoms,
      (session.take turn).store.state.slots.slot atom.id = .committed atom := by
  intro atom member
  obtain ⟨_, _, nothing⟩ | ⟨made, commits⟩ := session.commits_cases stays
  · rw [nothing committed done] at member
    cases member
  · obtain rfl := Option.some.inj (commits.committedBy?_eq.symm.trans done)
    exact owned.found commits atom member

/-- The atoms of a commit are in their slots when drafts keep to theirs. -/
theorem Owned.of_committed? (owned : session.Owned) {action : Action}
    (stays : ∀ settings, action ≠ .reopen settings) {committed : Committed}
    (done : session.committed? action = some committed) : ∀ atom ∈ committed.atoms,
      (session.step action).store.state.slots.slot atom.id = .committed atom := by
  have open_ : (Turn.act action).Stays := by
    rintro settings ⟨⟩
    exact stays settings rfl
  exact owned.of_committedBy? open_ ((session.committedBy?_act action).trans done)

end Session

/-- What users have been told: the slots handed out to them, those among them whose transactions
have not ended, each behind the name of its transaction, and what has been committed. -/
structure Ledger where
  handed : List Nat := []
  unfinished : List (Nat × Nat) := []
  commits : List Committed := []

namespace Ledger

/-- The ledger after one more action. -/
def enter (ledger : Ledger) (session : Session) (action : Session.Action) : Ledger where
  handed := ledger.handed ++ ((session.handed? action).map Prod.snd).toList
  unfinished := (ledger.unfinished ++ (session.handed? action).toList).filter fun entry =>
    action.ended? != some entry.1
  commits := ledger.commits ++ (session.committed? action).toList

/-- The ledger after some more actions. -/
def follow (ledger : Ledger) (session : Session) : List Session.Action → Ledger
  | [] => ledger
  | action :: rest => (ledger.enter session action).follow (session.step action) rest

/-- The ledger after one more turn. -/
def enterTurn (ledger : Ledger) (session : Session) (turn : Session.Turn) : Ledger where
  handed := ledger.handed ++ ((session.handedBy? turn).map Prod.snd).toList
  unfinished := (ledger.unfinished ++ (session.handedBy? turn).toList).filter fun entry =>
    turn.ended? != some entry.1
  commits := ledger.commits ++ (session.committedBy? turn).toList

/-- The ledger after some more turns. -/
def followTurns (ledger : Ledger) (session : Session) : List Session.Turn → Ledger
  | [] => ledger
  | turn :: rest => (ledger.enterTurn session turn).followTurns (session.take turn) rest

/-- A run of actions is a run of turns, and leaves the same ledger. -/
theorem follow_eq (ledger : Ledger) (session : Session) (actions : List Session.Action) :
    ledger.follow session actions = ledger.followTurns session (actions.map .act) ∧
      session.run actions = session.takeAll (actions.map .act) := by
  induction actions generalizing ledger session with
  | nil => exact ⟨rfl, rfl⟩
  | cons action rest ih =>
    obtain ⟨followed, reached⟩ := ih (ledger.enter session action) (session.step action)
    have entered : ledger.enter session action = ledger.enterTurn session (.act action) := by
      rw [enter, enterTurn, session.committedBy?_act]
      rfl
    refine ⟨?_, reached⟩
    rw [follow, followed, entered]
    rfl

/-- Whether a ledger that was begun at the start of a session tells what has been handed out and
committed since, whatever numbers drafts have. -/
structure Recounts (ledger : Ledger) (start session : Session) : Prop where
  size_le : start.store.state.slots.size ≤ session.store.state.slots.size
  ucn_le : start.store.ucn ≤ session.store.ucn
  handed_ascending : ledger.handed.Pairwise (· < ·)
  handed_new : ∀ id ∈ ledger.handed,
    start.store.state.slots.size ≤ id ∧ id < session.store.state.slots.size
  unfinished_iff : ∀ name id, (name, id) ∈ ledger.unfinished ↔ session.Building name id
  ucns_ascending : ledger.commits.Pairwise fun earlier later =>
    ∀ first ∈ earlier.atoms, ∀ second ∈ later.atoms, first.ucn < second.ucn
  sealed : ∀ committed ∈ ledger.commits, ∀ atom ∈ committed.atoms,
    committed.ucn = some atom.ucn ∧ start.store.ucn ≤ atom.ucn ∧ atom.ucn < session.store.ucn
  origin : ∀ id atom, session.store.state.slots.slot id = .committed atom →
    start.store.state.slots.slot id = .committed atom ∨
      ∃ committed ∈ ledger.commits, atom ∈ committed.atoms

/-- Whether it also tells where the atoms are that have been committed. -/
structure Tells (ledger : Ledger) (start session : Session) : Prop
    extends ledger.Recounts start session where
  commits_kept : ∀ committed ∈ ledger.commits, ∀ atom ∈ committed.atoms,
    session.store.state.slots.slot atom.id = .committed atom

variable {ledger : Ledger} {start session : Session} {turn : Session.Turn}

/-- An empty ledger recounts a store that no transaction is open on. -/
theorem recounts_start (idle : ∀ name, start.transactions name = none) :
    Recounts {} start start := by
  refine ⟨Nat.le_refl _, Nat.le_refl _, .nil, nofun, fun name id => ?_, .nil, nofun,
    fun _ _ => .inl⟩
  refine iff_of_false List.not_mem_nil ?_
  rintro ⟨transaction, present, _⟩
  rw [idle name] at present
  cases present

/-- An empty ledger tells of a store that no transaction is open on. -/
theorem tells_start (idle : ∀ name, start.transactions name = none) : Tells {} start start :=
  { recounts_start idle with commits_kept := nofun }

/-- A turn is entered into the ledger. -/
theorem Recounts.enter (recounts : ledger.Recounts start session) (stays : turn.Stays) :
    (ledger.enterTurn session turn).Recounts start (session.take turn) := by
  have later := (session.steps_take stays).grows.slots_later
  have handed {id : Nat} (new : id ∈ ((session.handedBy? turn).map Prod.snd).toList) :
      id = session.store.state.slots.size ∧ id < (session.take turn).store.state.slots.size := by
    obtain ⟨entry, given, rfl⟩ := Option.map_eq_some_iff.mp (Option.mem_toList.mp new)
    exact Session.of_handedBy? given
  refine ⟨recounts.size_le.trans later.size_le, recounts.ucn_le.trans later.ucn_le, ?_, ?_,
    fun name id => ?_, ?_, ?_, ?_⟩
  · refine List.pairwise_append.mpr ⟨recounts.handed_ascending, Option.pairwise_toList, ?_⟩
    intro earlier before id new
    rw [(handed new).1]
    exact (recounts.handed_new earlier before).2
  · intro id member
    rcases List.mem_append.mp member with before | new
    · obtain ⟨behind, inside⟩ := recounts.handed_new id before
      exact ⟨behind, Nat.lt_of_lt_of_le inside later.size_le⟩
    · obtain ⟨last, inside⟩ := handed new
      exact ⟨last ▸ recounts.size_le, inside⟩
  · rw [enterTurn, List.mem_filter, List.mem_append, recounts.unfinished_iff, Option.mem_toList,
      Session.building_take_iff stays, bne_iff_ne]
  · refine List.pairwise_append.mpr ⟨recounts.ucns_ascending, Option.pairwise_toList, ?_⟩
    intro earlier before committed new first among second member
    rw [(Session.of_committedBy? stays (Option.mem_toList.mp new) second member).2.1]
    exact (recounts.sealed earlier before first among).2.2
  · intro committed member atom among
    rcases List.mem_append.mp member with before | new
    · obtain ⟨ucn, behind, below⟩ := recounts.sealed committed before atom among
      exact ⟨ucn, behind, Nat.lt_of_lt_of_le below later.ucn_le⟩
    · obtain ⟨ucn, same, below⟩ :=
        Session.of_committedBy? stays (Option.mem_toList.mp new) atom among
      exact ⟨ucn, same ▸ recounts.ucn_le, below⟩
  · intro id atom held
    rcases Session.slot_take stays held with before | ⟨committed, done, among⟩
    · refine (recounts.origin id atom before).imp_right ?_
      rintro ⟨committed, member, among⟩
      exact ⟨committed, List.mem_append_left _ member, among⟩
    · exact .inr ⟨committed, List.mem_append_right _ (Option.mem_toList.mpr done), among⟩

/-- A run of turns is entered into the ledger. -/
theorem Recounts.follow (recounts : ledger.Recounts start session) {turns : List Session.Turn}
    (stays : ∀ turn ∈ turns, turn.Stays) :
    (ledger.followTurns session turns).Recounts start (session.takeAll turns) := by
  induction turns generalizing ledger session with
  | nil => exact recounts
  | cons turn rest ih =>
    exact ih (recounts.enter (stays turn List.mem_cons_self))
      fun turn member => stays turn (List.mem_cons_of_mem _ member)

/-- A turn of drafts that keep to their slots is entered into the ledger. -/
theorem Tells.enter (tells : ledger.Tells start session) (owned : session.Owned)
    (stays : turn.Stays) : (ledger.enterTurn session turn).Tells start (session.take turn) := by
  refine { tells.toRecounts.enter stays with commits_kept := ?_ }
  intro committed member atom among
  rcases List.mem_append.mp member with before | new
  · exact (session.steps_take stays).grows.slots_later.kept atom.id atom
      (tells.commits_kept committed before atom among)
  · exact owned.of_committedBy? stays (Option.mem_toList.mp new) atom among

end Ledger

namespace Session

variable {start session : Session} {ledger : Ledger}

/-- Whether the transactions of a session keep apart, as a ledger begun at its start tells it. -/
structure Isolated (start session : Session) (ledger : Ledger) : Prop
    extends ledger.Tells start session where
  pending_iff : ∀ id, session.store.state.slots.slot id = .pending ↔
    ∃ name, (name, id) ∈ ledger.unfinished
  owner_unique : ∀ name other id, (name, id) ∈ ledger.unfinished →
    (other, id) ∈ ledger.unfinished → name = other
  owner_open : ∀ name id, (name, id) ∈ ledger.unfinished → session.transactions name ≠ none
  committed_eq : session.store.state.slots.committed = session.store.state.slots.occupied.length

/-- What a ledger tells keeps transactions apart. -/
theorem Isolated.of_tells (tells : ledger.Tells start session) (owned : session.Owned)
    (accounted : session.Accounted) : start.Isolated session ledger := by
  refine ⟨tells, fun id => ?_, fun name other id first second => ?_, fun name id member => ?_,
    accounted.counted⟩
  · simp only [tells.unfinished_iff]
    refine ⟨accounted.claimed id, ?_⟩
    rintro ⟨name, transaction, present, member⟩
    exact owned.pending name transaction present id member
  · obtain ⟨transaction, present, member⟩ := (tells.unfinished_iff name id).mp first
    obtain ⟨different, there, among⟩ := (tells.unfinished_iff other id).mp second
    by_contra apart
    exact owned.apart name transaction other different apart present there id member among
  · obtain ⟨transaction, present, _⟩ := (tells.unfinished_iff name id).mp member
    rw [present]
    exact nofun

/-- In runs in which drafts keep their numbers, transactions keep apart. -/
theorem isolated_takeAll (owned : session.Owned) (accounted : session.Accounted)
    (tells : ledger.Tells start session) {turns : List Turn}
    (keeps : ∀ turn ∈ turns, turn.KeepsNumbers) (stays : ∀ turn ∈ turns, turn.Stays) :
    start.Isolated (session.takeAll turns) (ledger.followTurns session turns) := by
  induction turns generalizing session ledger with
  | nil => exact .of_tells tells owned accounted
  | cons turn rest ih =>
    have open_ := stays turn List.mem_cons_self
    exact ih (owned.take (keeps turn List.mem_cons_self)) (owned.accounted_take accounted open_)
      (tells.enter owned open_) (fun turn member => keeps turn (List.mem_cons_of_mem _ member))
      fun turn member => stays turn (List.mem_cons_of_mem _ member)

/-- A run of actions leads from one reachable session to another. -/
theorem Reachable.run (reachable : session.Reachable) (actions : List Action) :
    (session.run actions).Reachable := by
  induction actions generalizing session with
  | nil => exact reachable
  | cons action rest ih => exact ih (reachable.step action)

/-- Transactions whose drafts are not exchanged keep apart. -/
theorem Reachable.isolated (reachable : start.Reachable)
    (idle : ∀ name, start.transactions name = none) {actions : List Action}
    (stays : ∀ settings, .reopen settings ∉ actions) :
    start.Isolated (start.run actions) (Ledger.follow {} start actions) := by
  obtain ⟨followed, reached⟩ := Ledger.follow_eq {} start actions
  rw [followed, reached]
  refine isolated_takeAll reachable.owned reachable.accounted (Ledger.tells_start idle) ?_ ?_
  · intro turn member
    obtain ⟨action, _, rfl⟩ := List.mem_map.mp member
    trivial
  · rintro turn member settings rfl
    obtain ⟨action, among, same⟩ := List.mem_map.mp member
    cases same
    exact stays settings among

/-- Whether a turn takes a UCN just when it is a commit that is not empty. -/
structure Advances (session : Session) (turn : Turn) : Prop where
  taken : ∀ committed, session.committedBy? turn = some committed → committed.atoms ≠ [] →
    session.Commits turn committed
  kept : (∀ committed, session.committedBy? turn = some committed → committed.atoms = []) →
    (session.take turn).store.ucn = session.store.ucn

/-- Every turn leaves finished slots and moves the UCN forward by a commit alone. -/
theorem advances (session : Session) {turn : Turn} (stays : turn.Stays) :
    session.Advances turn := by
  obtain ⟨ucn, _, nothing⟩ | ⟨made, commits⟩ := session.commits_cases stays
  · exact ⟨fun committed done filled => absurd (nothing committed done) filled, fun _ => ucn⟩
  · refine ⟨fun committed done _ => ?_, fun nothing => ?_⟩
    · obtain rfl := Option.some.inj (commits.committedBy?_eq.symm.trans done)
      exact commits
    · exact absurd (nothing made commits.committedBy?_eq) commits.filled

/-- What is known of the atoms in the slots of a session: each is in the slot with its number, its
UCN has been taken, and those that were there at the start have earlier ones than those committed
since. -/
structure Dated (start session : Session) (ledger : Ledger) : Prop where
  atom_bounds : ∀ id atom, session.store.state.slots.slot id = .committed atom →
    atom.id = id ∧ 1 ≤ atom.ucn ∧ atom.ucn < session.store.ucn
  ucns_new : ∀ id atom, start.store.state.slots.slot id = .committed atom →
    ∀ committed ∈ ledger.commits, ∀ other ∈ committed.atoms, atom.ucn < other.ucn

variable {allowed : Turn → Prop}

/-- However the turns of several transactions follow each other in an open store, the slots handed
out are new and ascend, a slot that has been filled or emptied never changes, and each commit that is
not empty takes the next UCN for its atoms and no other turn takes one. As long as all drafts keep the
numbers of their slots, the reserved slots are those of unfinished transactions, all that has been
committed is in its slots, and the atoms are counted. -/
theorem Attained.isolated_run (attained : start.Attained allowed)
    (idle : ∀ name, start.transactions name = none) {turns : List Turn}
    (runs : start.Runs allowed turns) {reached : Session} (reaches : start.takeAll turns = reached)
    (told : Ledger.followTurns {} start turns = ledger) :
    ledger.Recounts start reached ∧ start.Dated reached ledger ∧
      (∀ later, reached.Runs allowed later → ∀ id < reached.store.state.slots.size,
        reached.store.state.slots.slot id ≠ .pending →
          (reached.takeAll later).store.state.slots.slot id =
            reached.store.state.slots.slot id) ∧
      (∀ turn, reached.Runs allowed [turn] → reached.Advances turn) ∧
      ((∀ turn, allowed turn → turn.KeepsNumbers) → start.Isolated reached ledger) := by
  subst reaches told
  have recounts := (Ledger.recounts_start idle).follow runs.stays
  have sound := (attained.takeAll runs).consistent.sound
  refine ⟨recounts, ⟨fun id atom held => ?_, fun id atom held committed member other among => ?_⟩,
    fun later others id inside decided => ?_, fun turn next => ?_, fun keeps => ?_⟩
  · exact ⟨sound.id_eq id atom held, atom.ucn_pos, sound.ucn_lt id atom held⟩
  · have earlier := attained.consistent.sound.ucn_lt id atom held
    exact Nat.lt_of_lt_of_le earlier (recounts.sealed committed member other among).2.1
  · exact (steps_takeAll _ others.stays).grows.slots_later.slot_eq inside decided
  · exact advances _ (next.stays turn List.mem_cons_self)
  · exact isolated_takeAll (attained.owned keeps) (attained.accounted keeps)
      (Ledger.tells_start idle) (fun turn member => keeps turn (runs.allows turn member)) runs.stays

/-- Two transactions on a store in memory take turns. The second one commits first, while its verifier
and its observer read the index over all atoms, and the first one is rolled back. -/
theorem isolated_run_of_turns :
    ∃ (start reached : Session) (ledger : Ledger), start.Isolated reached ledger ∧
      ledger.handed = [0, 1, 2] ∧ ledger.unfinished = [] ∧
      ledger.commits.map (·.ucn) = [some 1] := by
  let start := fresh (Store.inMemory {} {}).2 (Store.inMemory {} {}).1
  let turns : List Turn := [.act (.begin 0), .act (.begin 1), .act (.createAtom 0),
    .act (.createAtom 1), .act (.createAtom 0), .act (.edit 1 1 (.bind 1 (.integer 5))),
    .exchange 0 2 ⟨2, .ofList [(1, .integer 7)]⟩,
    .act (.addVerifier 1 ⟨"silent", fun _ _ => .ok ()⟩),
    .commit 1 { verifierReads := [[1]], observerReads := [1] }, .act (.rollback 0)]
  have attained : start.Attained Turn.KeepsNumbers := .inMemory {} {}
  have runs : start.Runs Turn.KeepsNumbers turns := by
    refine ⟨?_, ?_, ?_⟩
    · simp [turns, Turn.KeepsNumbers]
    · simp [turns, Turn.Stays]
    · decide +kernel
  obtain ⟨_, _, _, _, isolated⟩ := attained.isolated_run (fun _ => rfl) runs rfl rfl
  refine ⟨start, _, _, isolated fun _ keeps => keeps, ?_, ?_, ?_⟩
  · decide +kernel
  · decide +kernel
  · decide +kernel

/-- One of two drafts of a commit is exchanged for one with the number of the other. The commit
succeeds; one slot holds an atom, two are counted, and the other slot stays reserved when its
transaction has ended. -/
theorem shared_slot_counted_twice :
    ∃ session : Session, session.Attained (fun _ => True) ∧
      (session.committed? (.commit 0)).map (·.ucn) = some (some 1) ∧
      (session.step (.commit 0)).transactions 0 = none ∧
      (session.step (.commit 0)).store.state.slots.committed = 2 ∧
      (session.step (.commit 0)).store.state.slots.occupied = [0] ∧
      (session.step (.commit 0)).store.state.slots.slot 1 = .pending := by
  let turns : List Turn := [.act (.begin 0), .act (.createAtom 0), .act (.createAtom 0),
    .exchange 0 1 { id := 0 }]
  let session := (fresh (Store.inMemory {} {}).2 (Store.inMemory {} {}).1).takeAll turns
  have attained : session.Attained (fun _ => True) := by
    refine (Attained.inMemory {} {}).takeAll ⟨fun _ _ => trivial, ?_, ?_⟩
    · simp [turns, Turn.Stays]
    · decide +kernel
  refine ⟨session, attained, ?_, rfl, ?_, ?_, ?_⟩
  · decide +kernel
  · decide +kernel
  · decide +kernel
  · decide +kernel

end Session
end AtomStore
