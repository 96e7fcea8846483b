import AtomStore.Proofs.Log.CutRecord

/-!
# The two versions of the format

A reader of the second version finds all that a reader of the first one does. The two go side by
side up to the tag of a hosted value, which the first version does not know, and no other byte tells
them apart. So bytes that a replay accepts in the first version it accepts in the second one, with
the same records; and bytes that it accepts in the second version it accepts in the first one just
when none of their records holds hosted bytes, and else ends at the first record that does.
-/

namespace AtomStore

/-- Whether some of the values are bytes that stay in the file. -/
def Junctions.Hosting (junctions : Junctions) : Prop :=
  ∃ key particle, junctions.get? key = some particle ∧ particle.isHosted = true

/-- Whether an atom of a record holds bytes that stay in the file. -/
def Log.Record.Hosting (record : Log.Record) : Prop :=
  ∃ atom ∈ record.atoms, Junctions.Hosting atom.junctions

/-- An atom without junctions hosts nothing. -/
theorem Junctions.not_hosting_empty : ¬ Junctions.Hosting .empty := by
  rintro ⟨key, particle, bound, _⟩
  cases bound

namespace Log

/-- Why the first version refuses hosted bytes. -/
def hostedUnknown : RecordFlaw := .unknownTag ValueKind.hosted.tag Version.one.number

namespace Reader

variable {α β : Type} {version : Version} {reader next : Reader} {hosting : α → Prop}

/-- How a step reads in the first version where it reads in some way in the second one: what is
found is found again if nothing of it is hosted, and is else refused for its tag. -/
structure NarrowsAt (hosting : α → Prop) (first second : Step α) (reader : Reader) : Prop where
  plain : ∀ {found next}, second reader = .ok (found, next) → ¬ hosting found →
    first reader = .ok (found, next)
  hosted : ∀ {found next}, second reader = .ok (found, next) → hosting found →
    first reader = .error (.flaw hostedUnknown)
  failed : ∀ {fault}, second reader = .error fault → ∃ other, first reader = .error other

namespace NarrowsAt

variable {first second other more : Step α}

/-- A step that is the same in both versions, and finds nothing hosted. -/
theorem same {step : Step α}
    (plain : ∀ {found next}, step reader = .ok (found, next) → ¬ hosting found) :
    NarrowsAt hosting step step reader := by
  refine ⟨fun read _ => read, fun read hosted => ?_, fun read => ⟨_, read⟩⟩
  exact absurd hosted (plain read)

theorem pure {found : α} (plain : ¬ hosting found) :
    NarrowsAt hosting (pure found) (pure found) reader :=
  same fun {_ _} read hosted => by
    cases read
    exact plain hosted

/-- Steps that fail in both versions narrow, with whatever faults. -/
theorem throw (fault another : ReadFault) :
    NarrowsAt hosting (throw fault) (throw another) reader :=
  ⟨nofun, nofun, fun _ => ⟨fault, rfl⟩⟩

/-- A step that the first version refuses, and that finds nothing in the second version but what is
hosted. -/
theorem refuses (all : ∀ {found next}, second reader = .ok (found, next) → hosting found) :
    NarrowsAt hosting (MonadExcept.throw (.flaw hostedUnknown)) second reader := by
  refine ⟨fun read plain => ?_, fun _ _ => rfl, fun _ => ⟨_, rfl⟩⟩
  exact absurd (all read) plain

/-- How a step narrows depends only on what it does here. -/
theorem congr {place : Reader} (narrows : NarrowsAt hosting first second place)
    (left : other reader = first place) (right : more reader = second place) :
    NarrowsAt hosting other more reader := by
  refine ⟨fun read plain => ?_, fun read hosted => ?_, fun read => ?_⟩
  · exact left.trans (narrows.plain (right.symm.trans read) plain)
  · exact left.trans (narrows.hosted (right.symm.trans read) hosted)
  · rw [left]
    exact narrows.failed (right.symm.trans read)

/-- One step and then another, which loses nothing hosted that the first one finds. -/
theorem bind {hosted : β → Prop} {left right : α → Step β}
    (begins : NarrowsAt hosting first second reader)
    (kept : ∀ {found middle last next}, hosting found →
      right found middle = .ok (last, next) → hosted last)
    (later : ∀ {found middle}, second reader = .ok (found, middle) → ¬ hosting found →
      NarrowsAt hosted (left found) (right found) middle) :
    NarrowsAt hosted (first >>= left) (second >>= right) reader := by
  rcases began : second reader with fault | ⟨found, middle⟩
  · obtain ⟨earlier, stopped⟩ := begins.failed began
    refine ⟨fun read => ?_, fun read => ?_, fun _ => ⟨earlier, ?_⟩⟩
    · rw [bind_apply, began] at read
      cases read
    · rw [bind_apply, began] at read
      cases read
    · rw [bind_apply, stopped]
  · have onward : (second >>= right) reader = right found middle := by rw [bind_apply, began]
    by_cases hosts : hosting found
    · -- the first version has stopped, whatever the second one still finds
      have refused : (first >>= left) reader = .error (.flaw hostedUnknown) := by
        rw [bind_apply, begins.hosted began hosts]
      refine ⟨fun read plain => ?_, fun _ _ => refused, fun _ => ⟨_, refused⟩⟩
      exact absurd (kept hosts (onward.symm.trans read)) plain
    · refine (later began hosts).congr ?_ onward
      rw [bind_apply, begins.plain began hosts]

/-- A step that is the same in both versions, and then another one. -/
theorem after {hosted : β → Prop} (step : Step α) {left right : α → Step β}
    (later : ∀ {found middle}, step reader = .ok (found, middle) →
      NarrowsAt hosted (left found) (right found) middle) :
    NarrowsAt hosted (step >>= left) (step >>= right) reader :=
  have begins : NarrowsAt (fun _ => False) step step reader := same fun _ => id
  begins.bind False.elim fun read _ => later read

end NarrowsAt

/-- The two versions tell all tags alike but the one of hosted values. -/
theorem kind?_one_of_ne {tag : UInt8} (other : tag ≠ ValueKind.hosted.tag) :
    Version.one.kind? tag = Version.two.kind? tag := by
  simp only [Version.kind?, other, false_and, ↓reduceIte]

/-- Only hosted values are read as hosted ones. -/
theorem isHosted_of_value {kind : ValueKind} {particle : Particle}
    (read : reader.value kind = .ok (particle, next)) :
    particle.isHosted = true ↔ kind = .hosted := by
  obtain ⟨value, _, _, rfl, _⟩ := (Grammar.parses_value kind reader particle next).mp read
  cases value <;> simp only [Grammar.Value.placed, Particle.isHosted, reduceCtorEq]

/-- A junction is read in both versions alike, unless it is hosted. -/
theorem narrows_junction :
    NarrowsAt (fun found => found.2.isHosted = true) (junction .one) (junction .two) reader := by
  rw [junction_eq, junction_eq]
  refine .after byte fun {tag tagged} _ => ?_
  by_cases hosted : tag = ValueKind.hosted.tag
  · subst hosted
    refine .refuses fun {found next} read => ?_
    obtain ⟨key, keyed, _, later⟩ := bind_eq_ok read
    obtain ⟨particle, last, valued, ⟨⟩⟩ := bind_eq_ok later
    exact (isHosted_of_value valued).mpr rfl
  · rw [kind?_one_of_ne hosted]
    cases known : Version.two.kind? tag with
    | none => exact .throw _ _
    | some kind =>
      refine .same fun {found next} read => ?_
      obtain ⟨key, keyed, _, later⟩ := bind_eq_ok read
      obtain ⟨particle, last, valued, ⟨⟩⟩ := bind_eq_ok later
      rw [isHosted_of_value valued]
      rintro rfl
      exact hosted (Grammar.kind?_eq_some_iff.mp known).1

/-- Junctions that are held are not lost to those that follow. -/
theorem get?_of_junctions {held found : Junctions} {key : Key} {particle : Particle}
    (read : reader.junctions version held = .ok (found, next))
    (bound : held.get? key = some particle) : found.get? key = some particle := by
  fun_induction junctions version reader held with
  | case1 =>
    cases read
    exact bound
  | case2 => cases read
  | case3 => cases read
  | case4 reader held _ another value middle _ absent ih =>
    refine ih read ?_
    rw [SortedMap.get?_insert, if_neg, bound]
    rintro rfl
    rw [bound] at absent
    exact absent rfl

/-- A hosted value among junctions is the last one or one of the others. -/
theorem hosting_insert {held : Junctions} {key : Key} {particle : Particle}
    (hosting : Junctions.Hosting (held.insert key particle)) :
    particle.isHosted = true ∨ Junctions.Hosting held := by
  obtain ⟨other, value, bound, hosted⟩ := hosting
  rw [SortedMap.get?_insert] at bound
  split at bound
  · cases bound
    exact .inl hosted
  · exact .inr ⟨other, value, bound, hosted⟩

/-- Junctions are read in both versions alike, unless one is hosted. -/
theorem narrows_junctions {held : Junctions} (plain : ¬ Junctions.Hosting held) :
    NarrowsAt Junctions.Hosting (·.junctions .one held) (·.junctions .two held) reader := by
  induction count : reader.rest.length using Nat.strongRecOn generalizing reader held with
  | ind count ih =>
    subst count
    cases mark : reader.atMark with
    | true =>
      have found : NarrowsAt Junctions.Hosting (pure held) (pure held) reader := .pure plain
      exact found.congr (junctions_of_atMark mark) (junctions_of_atMark mark)
    | false =>
      have others : NarrowsAt Junctions.Hosting (moreJunctions .one held)
          (moreJunctions .two held) reader := by
        refine narrows_junction.bind (fun {found middle last next} hosted read => ?_)
          fun {found middle} read unhosted => ?_
        · rw [ite_step] at read
          split at read
          · cases read
          · -- a key is not repeated, so the value is still there in the end
            exact ⟨found.1, found.2, get?_of_junctions read (SortedMap.get?_insert_self ..), hosted⟩
        · split
          · exact .throw _ _
          · refine ih _ (length_junction read) (fun hosting => ?_) rfl
            exact (hosting_insert hosting).elim unhosted plain
      exact others.congr (junctions_of_not_atMark mark) (junctions_of_not_atMark mark)

/-- An atom is read in both versions alike, unless it hosts something. -/
theorem narrows_atom :
    NarrowsAt (fun draft => Junctions.Hosting draft.junctions) (Reader.atom .one)
      (Reader.atom .two) reader := by
  rw [atom_eq, atom_eq]
  refine .after varint fun _ => ?_
  refine (narrows_junctions Junctions.not_hosting_empty).bind (fun hosted read => ?_)
    fun _ plain => ?_
  · cases read
    exact hosted
  · exact .pure plain

/-- Atoms are read in both versions alike, unless one of them hosts something. -/
theorem narrows_atoms :
    NarrowsAt (fun drafts => ∃ draft ∈ drafts, Junctions.Hosting draft.junctions) (atoms .one)
      (atoms .two) reader := by
  induction count : reader.rest.length using Nat.strongRecOn generalizing reader with
  | ind count ih =>
    subst count
    rw [@atoms_eq_steps .one, @atoms_eq_steps .two]
    refine .after byte fun {mark inside} marked => ?_
    split
    · exact .pure fun ⟨_, member, _⟩ => by cases member
    · split
      · refine narrows_atom.bind (fun {draft next last _} hosted read => ?_)
          fun {draft next} taken plain => ?_
        · obtain ⟨drafts, _, _, ⟨⟩⟩ := bind_eq_ok read
          exact ⟨draft, List.mem_cons_self, hosted⟩
        · have first := length_byte marked
          have second := length_atom taken
          refine (ih _ (by omega) rfl).bind (fun hosted read => ?_) fun _ others => ?_
          · cases read
            exact List.exists_mem_cons_of_exists hosted
          · refine .pure fun hosted => ?_
            exact ((List.exists_mem_cons_iff ..).mp hosted).elim plain others
      · split <;> split <;> exact .throw _ _

/-- A record is read in both versions alike, unless it hosts something. -/
theorem narrows_record (offset : Nat) :
    NarrowsAt Record.Hosting (Reader.record .one offset) (Reader.record .two offset) reader := by
  rw [record_eq, record_eq]
  refine .after varint fun {ucn _} _ => ?_
  split
  · rename_i counted
    refine narrows_atoms.bind (fun hosted read => ?_) fun {drafts _} _ plain => ?_
    · obtain ⟨_, _, _, ⟨⟩⟩ := bind_eq_ok read
      obtain ⟨draft, member, hosts⟩ := hosted
      exact ⟨_, List.mem_map_of_mem member, hosts⟩
    · refine .after close fun _ => .pure ?_
      rintro ⟨_, member, hosts⟩
      obtain ⟨draft, inside, rfl⟩ := List.mem_map.mp member
      exact plain ⟨draft, inside, hosts⟩
  · exact .throw _ _

end Reader

variable {start last position : Nat} {bytes : Bytes}

/-- Scans of the same bytes in the first version and in the second one: they have the same records
up to the first one that holds hosted bytes, where the first version stops. -/
inductive Narrows : Scan → Scan → Prop where
  | ended (stop : Nat) : Narrows ⟨[], .ok stop⟩ ⟨[], .ok stop⟩
  | failed (one two : LogError) : Narrows ⟨[], .error one⟩ ⟨[], .error two⟩
  | refused {record : Record} (hosting : record.Hosting) (later : Scan) :
      Narrows ⟨[], .error (.corrupt record.offset hostedUnknown)⟩
        ⟨record :: later.records, later.outcome⟩
  | record {record : Record} {one two : Scan} (plain : ¬ record.Hosting) (later : Narrows one two) :
      Narrows ⟨record :: one.records, one.outcome⟩ ⟨record :: two.records, two.outcome⟩

/-- The first version scans along with the second one. -/
theorem narrows_scanFrom :
    Narrows (scanFrom .one last position bytes) (scanFrom .two last position bytes) := by
  induction count : bytes.length using Nat.strongRecOn generalizing bytes position last with
  | ind count ih =>
    subst count
    cases bytes with
    | nil =>
      rw [scanFrom_nil, scanFrom_nil]
      exact .ended last
    | cons mark rest =>
      by_cases pad : mark = padByte
      · rw [scanFrom, scanFrom, if_pos pad, if_pos pad]
        exact ih rest.length (Nat.lt_succ_self _) rfl
      · by_cases begins : mark = recordMark
        · subst begins
          rw [scanFrom_mark, scanFrom_mark]
          have narrows : Reader.NarrowsAt Record.Hosting _ _ (Reader.behindMark rest position) :=
            Reader.narrows_record position
          rcases read : (Reader.behindMark rest position).record .two position with
            fault | ⟨record, next⟩
          · obtain ⟨other, failed⟩ := narrows.failed read
            rw [failed]
            exact .failed _ _
          · by_cases hosting : record.Hosting
            · rw [narrows.hosted read hosting, ← Reader.offset_of_record read]
              exact .refused hosting _
            · rw [narrows.plain read hosting]
              have fewer : next.rest.length < (recordMark :: rest).length :=
                Nat.lt_succ_of_lt (Reader.length_record read)
              exact .record hosting (ih _ fewer rfl)
        · rw [scanFrom, scanFrom, if_neg pad, if_neg pad, if_neg begins, if_neg begins]
          exact .failed _ _

namespace Narrows

variable {one two : Scan} {stop : Nat}

/-- What the first version accepts the second one finds in the same way, and none of it is
hosted. -/
theorem widens (narrows : Narrows one two) (ended : one.outcome = .ok stop) :
    two = one ∧ ∀ record ∈ one.records, ¬ record.Hosting := by
  induction narrows with
  | ended stop => exact ⟨rfl, fun _ member => by cases member⟩
  | failed first second => cases ended
  | refused hosting later => cases ended
  | record plain later ih =>
    obtain ⟨rfl, others⟩ := ih ended
    exact ⟨rfl, List.forall_mem_cons.mpr ⟨plain, others⟩⟩

/-- What the second version accepts the first one finds in the same way, or a first record holds
hosted bytes and it stops there. -/
theorem narrowed (narrows : Narrows one two) (ended : two.outcome = .ok stop) :
    one = two ∨ ∃ earlier record later, two.records = earlier ++ record :: later ∧
      (∀ found ∈ earlier, ¬ found.Hosting) ∧ record.Hosting ∧
      one = ⟨earlier, .error (.corrupt record.offset hostedUnknown)⟩ := by
  induction narrows with
  | ended stop => exact .inl rfl
  | failed first second => cases ended
  | refused hosting later =>
    exact .inr ⟨[], _, later.records, rfl, fun _ member => (by cases member), hosting, rfl⟩
  | record plain later ih =>
    rcases ih ended with rfl | ⟨earlier, record, others, split, plains, hosting, rfl⟩
    · exact .inl rfl
    · refine .inr ⟨_ :: earlier, record, others, ?_, ?_, hosting, rfl⟩
      · rw [split, List.cons_append]
      · exact List.forall_mem_cons.mpr ⟨plain, plains⟩

end Narrows

/-- What a replay accepts in the first version it accepts in the second one, with the same records
and the same summary. And what it accepts in the second version it accepts in the first one just
when none of the records holds hosted bytes; or else it hands over those in front of the first
record that does, and refuses that one as corrupt for the tag of hosted values. -/
theorem deliver_versions {σ : Type} (consume : σ → Record → σ × Option LogError) (state : σ)
    (start : Nat) (bytes : Bytes) :
    (∀ summary, ((scan .one start bytes).deliver consume state).2.2.2 = .ok summary →
      (scan .two start bytes).records = (scan .one start bytes).records ∧
      (scan .two start bytes).deliver consume state =
        (scan .one start bytes).deliver consume state) ∧
    ∀ summary, ((scan .two start bytes).deliver consume state).2.2.2 = .ok summary →
      ((∃ other, ((scan .one start bytes).deliver consume state).2.2.2 = .ok other) ↔
        ∀ record ∈ (scan .two start bytes).records, ¬ record.Hosting) ∧
      ((∀ record ∈ (scan .two start bytes).records, ¬ record.Hosting) ∨
        ∃ earlier record later, (scan .two start bytes).records = earlier ++ record :: later ∧
          (∀ found ∈ earlier, ¬ found.Hosting) ∧ record.Hosting ∧
          (scan .one start bytes).records = earlier ∧
          (scan .one start bytes).deliver consume state =
            (earlier.foldl (fun state record => (consume state record).1) state, earlier.length,
              (earlier.map fun record => record.atoms.length).sum,
              .error (.corrupt record.offset
                (.unknownTag ValueKind.hosted.tag Version.one.number)))) := by
  have narrows : Narrows (scan .one start bytes) (scan .two start bytes) := narrows_scanFrom
  refine ⟨fun summary accepted => ?_, fun summary accepted => ?_⟩
  · obtain ⟨ended, _⟩ := Scan.of_deliver_ok accepted
    obtain ⟨same, _⟩ := narrows.widens ended
    rw [same]
    exact ⟨rfl, rfl⟩
  · obtain ⟨ended, unrefused⟩ := Scan.of_deliver_ok accepted
    rcases narrows.narrowed ended with same | ⟨earlier, record, later, split, plain, hosting, found⟩
    · have plain := (narrows.widens (same ▸ ended)).2
      rw [same] at plain ⊢
      exact ⟨iff_of_true ⟨summary, accepted⟩ plain, .inl plain⟩
    · rw [split] at unrefused
      have delivered : (scan .one start bytes).deliver consume state =
          (earlier.foldl (fun state record => (consume state record).1) state, earlier.length,
            (earlier.map fun record => record.atoms.length).sum,
            .error (.corrupt record.offset hostedUnknown)) := by
        rw [found, Scan.deliver, feed_of_unrefused (unrefused_front unrefused), Nat.zero_add,
          Nat.zero_add]
        rfl
      refine ⟨iff_of_false ?_ ?_,
        .inr ⟨earlier, record, later, split, plain, hosting, ?_, delivered⟩⟩
      · rintro ⟨other, reached⟩
        rw [delivered] at reached
        cases reached
      · intro none
        refine none record ?_ hosting
        rw [split]
        exact List.mem_append_right _ List.mem_cons_self
      · rw [found]

/-- A record that both versions accept, and one behind it that only the second version does. -/
theorem deliver_versions_hostedOne :
    let collect : List Record → Record → List Record × Option LogError :=
      fun held record => (held ++ [record], none)
    let plain : List (Grammar.Piece .two) := Grammar.paddedOne
    let mixed := plain ++ [.record Grammar.hostedOne]
    let alone := plain.flatMap Grammar.Piece.bytes
    let both := mixed.flatMap Grammar.Piece.bytes
    ((scan .one 8 alone).deliver collect []).2.2.2 = .ok ⟨1, 0, 18⟩ ∧
      (scan .two 8 alone).deliver collect [] = ([⟨9, 1, []⟩], 1, 0, .ok ⟨1, 0, 18⟩) ∧
      ((scan .two 8 both).deliver collect []).2.2.2 = .ok ⟨2, 1, 36⟩ ∧
      (scan .one 8 both).deliver collect [] =
        ([⟨9, 1, []⟩], 1, 0, .error (.corrupt 18 (.unknownTag 0x04 1))) := by
  intro collect plain mixed alone both
  have first : scan .one 8 alone = ⟨[⟨9, 1, []⟩], .ok 18⟩ := by
    let record : Grammar.Record .one := ⟨Grammar.longOne, by decide, []⟩
    have passed := Grammar.scanFrom_pieces [.pad, .record record] 8 8 []
    rw [List.append_nil, scanFrom_nil] at passed
    exact passed
  have found : scan .two 8 both = ⟨[⟨9, 1, []⟩, Grammar.hostedOne.placed 18], .ok 36⟩ := by
    have passed := Grammar.scanFrom_pieces mixed 8 8 []
    rw [List.append_nil, scanFrom_nil] at passed
    exact passed
  have hosting : (Grammar.hostedOne.placed 18).Hosting :=
    ⟨_, List.mem_cons_self, 1, .hosted _ _, rfl, rfl⟩
  have accepted : ((scan .one 8 alone).deliver collect []).2.2.2 = .ok ⟨1, 0, 18⟩ := by
    rw [first]
    rfl
  have later : ((scan .two 8 both).deliver collect []).2.2.2 = .ok ⟨2, 1, 36⟩ := by
    rw [found]
    rfl
  refine ⟨accepted, ?_, later, ?_⟩
  · rw [((deliver_versions collect [] 8 alone).1 _ accepted).2, first]
    rfl
  · obtain ⟨_, plain | ⟨earlier, record, others, split, _, hosts, _, delivered⟩⟩ :=
      (deliver_versions collect [] 8 both).2 _ later
    · rw [found] at plain
      exact absurd hosting (plain _ (List.mem_cons_of_mem _ List.mem_cons_self))
    · rw [found] at split
      rcases earlier with _ | ⟨before, _ | ⟨another, more⟩⟩
      · obtain ⟨rfl, _⟩ := List.cons.inj split
        obtain ⟨_, member, _⟩ := hosts
        cases member
      · obtain ⟨rfl, behind⟩ := List.cons.inj split
        obtain ⟨rfl, _⟩ := List.cons.inj behind
        exact delivered
      · have lengths := congrArg List.length split
        simp only [List.length_append, List.length_cons, List.length_nil] at lengths
        omega

end Log
end AtomStore
