import AtomStore.Proofs.Store.EmptySlots
import AtomStore.Proofs.Store.Precedence
import AtomStore.Proofs.Store.Walk

/-!
# Answers of an index

An index answers from the atoms in it, listed in its order: with the first and the last of them, and
with the first whose sort keys have the values of a sample. A walk gives those of them that are older
than the last refresh, from the sample on if there is one. In a table whose atoms are all older than
the next commit these are all, so that all answers agree. A record that is refused when some of its
atoms are in their slots leaves a table with others. An index over it has atoms that no walk gives.
-/

namespace AtomStore

namespace Slots

/-- Whether the atoms of a table are older than the next commit. -/
def Timely (slots : Slots) : Prop :=
  ∀ id atom, slots.slot id = .committed atom → atom.ucn < slots.ucn

end Slots

/-- Whether a call takes in a whole record with atoms of the record's UCN, or nothing. -/
def SlotCall.Whole (slots : Slots) : SlotCall → Prop
  | take record => (slots.takeRecord record).1 = slots ∨
      (slots.takeRecord record).2 = none ∧ ∀ atom ∈ record.atoms, atom.ucn = record.ucn
  | _ => True

/-- Whole calls keep every atom below the next UCN. -/
theorem SlotCall.timely_run {slots : Slots} {call : SlotCall} (timely : slots.Timely)
    (whole : call.Whole slots) : (call.run slots).Timely := by
  intro id atom held
  cases effect_run slots call id with
  | unchanged same =>
    exact Nat.lt_of_lt_of_le (timely id atom (same.symm.trans held)) (call.ucn_le_run slots)
  | opened _ pending => cases held.symm.trans pending
  | emptied _ never => cases held.symm.trans never
  | published _ _ older put =>
    cases held.symm.trans put
    exact older
  | @taken record _ given reaches _ put =>
    cases held.symm.trans put
    subst given
    rcases whole with same | ⟨accepted, sealed⟩
    · refine Nat.lt_of_lt_of_eq (timely id atom ?_) (congrArg Slots.ucn same).symm
      rw [← same]
      exact held
    · -- a record that is taken in moves the UCN past its own
      rcases slots.takeRecord_cases record with ⟨_, took⟩ | ⟨_, _, _, took⟩ |
        ⟨_, _, _, _, _, _, _, _, took⟩
      · rw [took] at accepted
        cases accepted
      · obtain ⟨_, _, parts, _⟩ := reaches.parts
        have among : atom ∈ record.atoms := by
          rw [parts]
          exact List.mem_append_right _ List.mem_cons_self
        rw [run, took, sealed atom among]
        exact Nat.lt_succ_self _
      · rw [took] at accepted
        cases accepted

namespace Slots

/-- Whether calls take in whole records or nothing, each with the table that it meets. -/
def WholeAll (slots : Slots) : List SlotCall → Prop
  | [] => True
  | call :: rest => call.Whole slots ∧ (call.run slots).WholeAll rest

variable {slots : Slots}

/-- Calls in a row are whole when the first ones are and the others are behind them. -/
theorem wholeAll_append {calls more : List SlotCall} : slots.WholeAll (calls ++ more) ↔
    slots.WholeAll calls ∧ (slots.runAll calls).WholeAll more := by
  induction calls generalizing slots with
  | nil => exact ⟨fun whole => ⟨trivial, whole⟩, And.right⟩
  | cons call rest ih =>
    change call.Whole slots ∧ (call.run slots).WholeAll (rest ++ more) ↔ _
    rw [ih, ← and_assoc]
    rfl

/-- A series of whole calls keeps every atom below the next UCN. -/
theorem Timely.runAll (timely : slots.Timely) {calls : List SlotCall}
    (whole : slots.WholeAll calls) : (slots.runAll calls).Timely := by
  induction calls generalizing slots with
  | nil => exact timely
  | cons call rest ih => exact ih (SlotCall.timely_run timely whole.1) whole.2

end Slots

namespace IndexWalk

/-- The atoms that a walk gives in so many steps, up to its end. -/
def collect (walk : IndexWalk) (index : Index) : Nat → List Atom
  | 0 => []
  | steps + 1 =>
    match walk.next index with
    | (none, _) => []
    | (some atom, later) => atom :: later.collect index steps

/-- With steps enough, a walk gives all that is left. -/
theorem collect_eq {index : Index} (valid : index.entries.Valid) {walk : IndexWalk}
    (tied : walk.cursor.Tied index.entries) {steps : Nat}
    (enough : (walk.remaining index).length < steps) :
    walk.collect index steps = walk.remaining index := by
  induction steps generalizing walk with
  | zero => exact absurd enough (Nat.not_lt_zero _)
  | succ steps ih =>
    obtain ⟨given, left, tied', _⟩ := next_spec valid tied
    rw [collect]
    cases asked : walk.next index with
    | mk atom? later =>
      rw [asked] at given left tied'
      cases atom? with
      | none => exact (List.head?_eq_none_iff.mp given.symm).symm
      | some atom =>
        have split := List.cons_head?_tail given.symm
        rw [← left] at split
        rw [← split] at enough ⊢
        exact congrArg (atom :: ·) (ih tied' (Nat.lt_of_succ_lt_succ enough))

end IndexWalk

namespace Index

/-- The atoms that a walk through all of an index gives. -/
def all (index : Index) : List Atom := index.walk.collect index (index.size + 1)

/-- The atoms that a walk from the bound of a sample on gives. -/
def search (index : Index) (sample : Junctions) : List Atom :=
  (index.walkFrom sample).collect index (index.size + 1)

/-- Whether an index lists atoms in its order and answers from this list. -/
structure Answers (index : Index) (listed : List Atom) : Prop where
  ordered : listed.Pairwise index.info.Precedes
  first : index.first? = listed.head?
  last : index.last? = listed.getLast?
  exact : ∀ sample, index.find? sample = listed.find? fun atom =>
    index.info.fields atom.junctions == index.info.fields sample
  missing : ∀ sample, index.find? sample = none ↔
    ∀ atom ∈ listed, index.info.fields atom.junctions ≠ index.info.fields sample

variable {index : Index} {slots : Slots}

/-- A walk without interruption collects all that is left. -/
theorem collect_walkBy (valid : index.entries.Valid) (sample? : Option Junctions) :
    (index.walkBy sample?).collect index (index.size + 1) =
      (index.walkBy sample?).remaining index := by
  have fresh : (index.walkBy sample?).cursor.generation = none := by
    cases sample? <;> rfl
  have few := List.length_filterMap_le (index.walkBy sample?).visible?
    ((index.walkBy sample?).cursor.remaining index.entries)
  have least := IndexWalk.length_remaining_le valid (index.walkBy sample?).cursor
  exact IndexWalk.collect_eq valid (.of_generation_eq_none fresh)
    (Nat.lt_succ_of_le (Nat.le_trans few least))

namespace Formed

variable (formed : index.Formed)

include formed

/-- The iterator over an index gives what it holds below its last UCN. -/
theorem all_eq : index.all = index.held.filter fun atom => decide (atom.ucn < index.lastUcn) := by
  refine (collect_walkBy formed.valid none).trans ?_
  rw [formed.remaining_walkBy]
  exact List.filter_congr fun atom _ => Bool.and_true _

/-- A search gives what the iterator gives, from the sample on. -/
theorem search_eq (sample : Junctions) : index.search sample = index.all.filter fun atom =>
    (compare (index.info.fields atom.junctions) (index.info.fields sample)).isGE := by
  refine (collect_walkBy formed.valid (some sample)).trans ?_
  rw [formed.remaining_walkBy, formed.all_eq, List.filter_filter]
  exact List.filter_congr fun atom _ => Bool.and_comm ..

/-- The atoms below a sample are in front of all others. -/
theorem closed_all (sample : Junctions) : Run.Closed (fun atom : Atom =>
    (compare (index.info.fields atom.junctions) (index.info.fields sample)).isLT) index.all := by
  rw [formed.all_eq]
  refine ((List.pairwise_map.mp formed.ascending_held).filter _).imp fun {earlier later} less => ?_
  have least : (compare (index.info.fields earlier.junctions)
      (index.info.fields later.junctions)).isLE = true := by
    rcases Ordering.then_eq_lt.mp less with first | ⟨tie, _⟩
    · rcases Ordering.then_eq_lt.mp first with lesser | ⟨tie, _⟩
      · exact Ordering.isLE_of_eq_lt lesser
      · exact Ordering.isLE_of_eq_eq tie
    · exact Ordering.isLE_of_eq_eq (Ordering.then_eq_eq.mp tie).1
  rw [Ordering.isLT_iff_eq_lt, Ordering.isLT_iff_eq_lt]
  exact Std.TransCmp.lt_of_isLE_of_lt least

/-- A search is what is left of the walk through all atoms behind those that are below the sample. -/
theorem all_eq_append_search (sample : Junctions) :
    ∃ front, index.all = front ++ index.search sample ∧
      (∀ atom ∈ front,
        FieldsBelow (index.info.fields atom.junctions) (index.info.fields sample)) ∧
      ∀ atom ∈ index.search sample,
        ¬ FieldsBelow (index.info.fields atom.junctions) (index.info.fields sample) := by
  have back : index.search sample = index.all.dropWhile fun atom =>
      (compare (index.info.fields atom.junctions) (index.info.fields sample)).isLT := by
    rw [(formed.closed_all sample).dropWhile_eq_filter, formed.search_eq]
    apply List.filter_congr
    intro atom _
    cases compare (index.info.fields atom.junctions) (index.info.fields sample) <;> rfl
  refine ⟨_, List.takeWhile_append_dropWhile.symm.trans (congrArg _ back.symm), ?_, ?_⟩
  · intro atom member
    have passes := List.mem_takeWhile_imp member
    exact compare_fields_eq_lt_iff.mp (Ordering.isLT_iff_eq_lt.mp passes)
  · intro atom member
    rw [formed.search_eq] at member
    exact isGE_compare_fields_iff.mp (List.mem_filter.mp member).2

/-- An index answers from the atoms in it. -/
theorem answers (words : index.info.maxUcn ≤ Text.maxWord) : index.Answers index.held := by
  have small {atom : Atom} (member : atom ∈ index.held) : atom.ucn ≤ Text.maxWord := by
    have accepts := formed.accepts_of_mem_held member
    rw [IndexInfo.accepts, Bool.and_eq_true, Bool.and_eq_true] at accepts
    exact Nat.le_trans (Nat.le_of_lt (of_decide_eq_true accepts.1.2)) words
  refine ⟨?_, formed.first?_eq, formed.last?_eq, formed.find?_eq, fun sample => ?_⟩
  · exact (List.pairwise_map.mp formed.ascending_held).imp_of_mem fun member among less =>
      (IndexInfo.compare_entry_eq_lt_iff (small member) (small among)).mp less
  · rw [formed.find?_eq, List.find?_eq_none]
    exact forall₂_congr fun atom _ => by rw [beq_iff_eq]

end Formed

/-- An index of which everything is shown gives all that it holds. -/
theorem Formed.all_eq_held (formed : index.Formed) (shown : index.Shown) :
    index.all = index.held := by
  rw [formed.all_eq]
  exact List.filter_eq_self.mpr fun atom member => decide_eq_true (shown atom member)

/-- Bringing an index up to date keeps everything shown, when the slots are timely. -/
theorem Formed.shown_refresh (formed : index.Formed) (idle : index.entries.loading = none)
    (shown : index.Shown) (timely : slots.Timely) : (index.refresh slots).Shown := by
  obtain ⟨_, _, sources⟩ := sources_refresh formed.valid idle slots
  intro atom member
  have listed := (formed.refresh idle slots).entry_mem_of_mem_held member
  rw [(index.grows_refresh slots).info_eq] at listed
  rcases sources _ listed with old | ⟨id, other, here, _, same⟩
  · have among : atom ∈ index.held := List.mem_filterMap.mpr ⟨_, old, rfl⟩
    exact Nat.lt_of_lt_of_le (shown atom among) (index.grows_refresh slots).lastUcn_le
  · obtain rfl := entry_injective _ same
    refine Nat.lt_of_lt_of_le (timely id atom here) ?_
    rw [Index.refresh]
    split
    · assumption
    · exact Nat.le_refl _

/-- However often an index is brought up to date, it stays in order; and its walks leave out none of
its atoms if all calls take in whole records. -/
theorem Formed.refreshAfter (formed : index.Formed) (idle : index.entries.loading = none)
    (slots : Slots) (batches : List (List SlotCall)) :
    (index.refreshAfter slots batches).Formed ∧
      (index.refreshAfter slots batches).info = index.info ∧
      (index.Shown → slots.Timely → slots.WholeAll batches.flatten →
        (index.refreshAfter slots batches).Shown) := by
  induction batches generalizing index slots with
  | nil => exact ⟨formed, rfl, fun shown _ _ => shown⟩
  | cons calls rest ih =>
    obtain ⟨_, idle', _⟩ := sources_refresh formed.valid idle (slots.runAll calls)
    obtain ⟨last, info, shows⟩ := ih (formed.refresh idle _) idle' (slots.runAll calls)
    refine ⟨last, info.trans (index.grows_refresh _).info_eq, fun shown timely whole => ?_⟩
    rw [List.flatten_cons, Slots.wholeAll_append] at whole
    have later := timely.runAll whole.1
    exact shows (formed.shown_refresh idle shown later) later whole.2

/-- Whether two indices give the same answers. -/
structure Agrees (index other : Index) : Prop where
  first : other.first? = index.first?
  last : other.last? = index.last?
  all : other.all = index.all
  exact : ∀ sample, other.find? sample = index.find? sample
  search : ∀ sample, other.search sample = index.search sample

/-- It does not matter for the answers in which run of the set an entry is. -/
theorem Formed.agrees (formed : index.Formed) {entries : TieredSet IndexEntry}
    (valid : entries.Valid) (same : ∀ entry,
      entry ∈ entries.settled.toList ∨ entry ∈ entries.recent ↔
        entry ∈ index.entries.settled.toList ∨ entry ∈ index.entries.recent) :
    index.Agrees { index with entries } := by
  have contents : entries.toList = index.entries.toList := by
    apply valid.ascending_toList.eq_of_mem_iff formed.valid.ascending_toList
    intro entry
    rw [valid.mem_toList, formed.valid.mem_toList, same]
  have other : Formed { index with entries } := by
    refine ⟨valid, fun entry member => formed.source entry ?_⟩
    rw [← contents]
    exact member
  have listed : held { index with entries } = index.held := by
    rw [held, contents]
    rfl
  have all : Index.all { index with entries } = index.all := by
    rw [other.all_eq, formed.all_eq, listed]
  refine ⟨?_, ?_, all, fun sample => ?_, fun sample => ?_⟩
  · rw [other.first?_eq, formed.first?_eq, listed]
  · rw [other.last?_eq, formed.last?_eq, listed]
  · rw [other.find?_eq, formed.find?_eq, listed]
  · rw [other.search_eq, formed.search_eq, all]

/-- What an index answers, whatever happens to a state and however often the index is brought up to
date with it. The atoms in the index are in its order: the first and the last of them are given, and
a sample finds the first of them with its sort key values. The walk through all of it gives those
that are older than the last refresh, and the walk from a sample on what is left of that behind all
that is below the sample. When the state takes in whole records only, the walk gives all atoms, so
that all answers agree with it. It never matters in which run of the set an entry is. -/
theorem answers_refreshAfter (info : IndexInfo) (words : info.maxUcn ≤ Text.maxWord) (id : Nat)
    (slots : Slots) (batches : List (List SlotCall)) {index : Index}
    (reached : ({ id, info } : Index).refreshAfter slots batches = index) :
    index.Answers index.held ∧
    index.all = index.held.filter (fun atom => decide (atom.ucn < index.lastUcn)) ∧
    (∀ sample, ∃ front, index.all = front ++ index.search sample ∧
      (∀ atom ∈ front,
        FieldsBelow (index.info.fields atom.junctions) (index.info.fields sample)) ∧
      ∀ atom ∈ index.search sample,
        ¬ FieldsBelow (index.info.fields atom.junctions) (index.info.fields sample)) ∧
    (slots.Timely → slots.WholeAll batches.flatten → index.Answers index.all) ∧
    ∀ entries : TieredSet IndexEntry, entries.Valid →
      (∀ entry, entry ∈ entries.settled.toList ∨ entry ∈ entries.recent ↔
        entry ∈ index.entries.settled.toList ∨ entry ∈ index.entries.recent) →
      index.Agrees { index with entries } := by
  subst reached
  obtain ⟨formed, same, shows⟩ := (formed_new id info).refreshAfter rfl slots batches
  have answers := formed.answers (by rw [same]; exact words)
  refine ⟨answers, formed.all_eq, formed.all_eq_append_search, fun timely whole => ?_,
    fun entries => formed.agrees⟩
  have empty : Shown { id, info } := by
    intro atom member
    rw [held, show ({ id, info } : Index).entries.toList = [] from
      TieredSet.toList_withThreshold 1000] at member
    cases member
  rw [formed.all_eq_held (shows empty timely whole)]
  exact answers

/-- Two atoms of one commit, of which the first has a value that the second lacks. -/
def valued : List Atom :=
  [⟨0, 1, SortedMap.empty.insert 1 (.integer 7), Nat.one_pos⟩, ⟨1, 1, .empty, Nat.one_pos⟩]

/-- The atom without a value comes first. -/
theorem answers_valued :
    ∃ index : Index, index.info.sortKeys = [1] ∧ index.all.head?.map (·.id) = some 1 ∧
      index.all.getLast?.map (·.id) = some 0 ∧ index.Answers index.all := by
  let index := ({ id := 1, info := { name := "one", sortKeys := [1] } } : Index).refreshAfter .empty
    [[.reserve, .reserve, .call (.publish valued)]]
  obtain ⟨_, _, _, agree, _⟩ := answers_refreshAfter { name := "one", sortKeys := [1] }
    (Nat.le_refl _) 1 .empty [[.reserve, .reserve, .call (.publish valued)]] rfl
  have answers : index.Answers index.all :=
    agree (fun _ _ => nofun) ⟨trivial, trivial, trivial, trivial⟩
  refine ⟨index, rfl, ?_, ?_, answers⟩
  · rw [← answers.first]
    rfl
  · rw [← answers.last]
    rfl

/-- An index has an atom that it gives first, and no walk gives it. -/
theorem not_answers_all :
    ¬ ∀ (info : IndexInfo) (id : Nat) (batches : List (List SlotCall)) (index : Index),
        info.maxUcn ≤ Text.maxWord →
        ({ id, info } : Index).refreshAfter .empty batches = index → index.Answers index.all := by
  intro agree
  have answers := agree (.global .descending) 1 [[.take Slots.repeating]] _ (Nat.le_refl _) rfl
  have first := answers.first
  cases first

end Index

namespace Session

/-- In every session all answers of an index agree with the walk through all of it. -/
theorem Reachable.index_answers {session : Session} (reachable : session.Reachable)
    {index : Index} (registered : index ∈ session.store.state.indices)
    (words : index.info.maxUcn ≤ Text.maxWord) : index.Answers index.all := by
  have follows := reachable.consistent.follows index registered
  rw [follows.formed.all_eq_held follows.shown]
  exact follows.formed.answers words

end Session
end AtomStore
