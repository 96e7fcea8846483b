import AtomStore.Proofs.Store.IndexRefresh
import Mathlib.Data.List.Basic

/-!
# The atoms in an index

The entries of an index come from atoms that it accepts, whatever tables it has been brought up to
date with. So it lists those atoms in its order, and every query and every walk is answered from
that list.
-/

namespace AtomStore
namespace Index

/-- A walk through all atoms, or from the bound of a sample on. -/
def walkBy (index : Index) : Option Junctions → IndexWalk
  | none => index.walk
  | some sample => index.walkFrom sample

/-- The atoms in an index, in its order. -/
def held (index : Index) : List Atom := index.entries.toList.filterMap (·.atom?)

/-- Whether the entries of an index are in order and come from atoms that it accepts. -/
structure Formed (index : Index) : Prop where
  valid : index.entries.Valid
  source : ∀ entry ∈ index.entries.toList,
    ∃ atom, index.info.accepts atom = true ∧ entry = index.info.entry atom

variable {index : Index} {slots : Slots}

/-- Atoms with the same entry are the same. -/
theorem entry_injective (info : IndexInfo) : Function.Injective info.entry := by
  intro first second same
  exact Option.some.inj (congrArg IndexEntry.atom? same)

/-- A new index is formed. -/
theorem formed_new (id : Nat) (info : IndexInfo) : Formed { id, info } := by
  refine ⟨TieredSet.valid_withThreshold 1000, fun entry member => ?_⟩
  rw [TieredSet.toList_withThreshold] at member
  cases member

/-- An index that follows some slots is formed. -/
theorem Follows.formed (follows : index.Follows slots) : index.Formed := by
  refine ⟨follows.valid, fun entry member => ?_⟩
  obtain ⟨atom, _, accepts, _, same⟩ := (follows.mem_iff entry).mp member
  exact ⟨atom, accepts, same⟩

/-- What is in an index after a refresh with any table was there before, or comes from a slot. -/
theorem sources_refresh (valid : index.entries.Valid) (idle : index.entries.loading = none)
    (slots : Slots) :
    (index.refresh slots).entries.Valid ∧ (index.refresh slots).entries.loading = none ∧
      ∀ entry ∈ (index.refresh slots).entries.toList, entry ∈ index.entries.toList ∨
        ∃ id atom, slots.slot id = .committed atom ∧ index.info.accepts atom = true ∧
          entry = index.info.entry atom := by
  rw [refresh]
  split
  · exact ⟨valid, idle, fun entry => .inl⟩
  · have takes := takes_withAtoms valid idle
      ((index.visited slots).filterMap fun seen => index.acceptedAtom? seen.2)
    refine ⟨takes.valid, takes.idle, fun entry member => ?_⟩
    refine (takes.absorbs.old_or_added entry member).imp_right fun new => ?_
    obtain ⟨atom, added, rfl⟩ := List.mem_map.mp new
    obtain ⟨id, _, here, accepts⟩ := mem_added.mp added
    exact ⟨id, atom, here, accepts, rfl⟩

/-- Bringing an index up to date keeps it formed. -/
theorem Formed.refresh (formed : index.Formed) (idle : index.entries.loading = none)
    (slots : Slots) : (index.refresh slots).Formed := by
  obtain ⟨valid, _, sources⟩ := sources_refresh formed.valid idle slots
  refine ⟨valid, fun entry member => ?_⟩
  rw [(index.grows_refresh slots).info_eq]
  rcases sources entry member with old | ⟨_, atom, _, accepts, same⟩
  · exact formed.source entry old
  · exact ⟨atom, accepts, same⟩

/-- The entries that a walk has passed before it begins are those below the bound of its sample. -/
theorem passed_walkBy (index : Index) (sample? : Option Junctions) (atom : Atom) :
    (!(index.walkBy sample?).cursor.passed (index.info.entry atom)) = sample?.all fun sample =>
      (compare (index.info.fields atom.junctions) (index.info.fields sample)).isGE := by
  cases sample? with
  | none => rfl
  | some sample => exact IndexInfo.not_isLT_compare_bound atom sample

/-- Entries between two with the same sort key have that sort key. -/
theorem fields_eq_of_compare {left right : IndexEntry} {fields : List (Option Particle)}
    (less : compare left right = .lt) (above : (compare left.key.fields fields).isGE = true)
    (same : right.key.fields = fields) : left.key.fields = fields := by
  change ((compare left.key.fields right.key.fields).then
    (compare left.key.rank right.key.rank)).then (compare left.key.id right.key.id) = .lt at less
  rw [same] at less
  suffices tie : compare left.key.fields fields = .eq from Std.LawfulEqOrd.eq_of_compare tie
  cases order : compare left.key.fields fields with
  | lt =>
    rw [order] at above
    cases above
  | eq => rfl
  | gt =>
    rw [order] at less
    cases less

namespace Formed

variable (formed : index.Formed)

include formed

/-- What an index holds has the entries of its set. -/
theorem map_entry_held : index.held.map index.info.entry = index.entries.toList := by
  rw [held, List.map_filterMap]
  refine (List.filterMap_congr fun entry member => ?_).trans List.filterMap_some
  obtain ⟨atom, _, rfl⟩ := formed.source entry member
  rfl

/-- What an index holds has an entry. -/
theorem entry_mem_of_mem_held {atom : Atom} (member : atom ∈ index.held) :
    index.info.entry atom ∈ index.entries.toList := by
  rw [← formed.map_entry_held]
  exact List.mem_map_of_mem member

/-- What an index holds it accepts. -/
theorem accepts_of_mem_held {atom : Atom} (member : atom ∈ index.held) :
    index.info.accepts atom = true := by
  obtain ⟨source, accepts, same⟩ := formed.source _ (formed.entry_mem_of_mem_held member)
  obtain rfl := entry_injective _ same
  exact accepts

/-- What an index holds is in its order. -/
theorem ascending_held : Run.Ascending (index.held.map index.info.entry) := by
  rw [formed.map_entry_held]
  exact formed.valid.ascending_toList

/-- The first atom of an index is the first that it holds. -/
theorem first?_eq : index.first? = index.held.head? := by
  rw [first?, formed.valid.first?_eq, ← formed.map_entry_held, List.head?_map, Option.bind_map]
  exact Option.bind_fun_some _

/-- The last atom of an index is the last that it holds. -/
theorem last?_eq : index.last? = index.held.getLast? := by
  rw [last?, formed.valid.last?_eq, ← formed.map_entry_held, List.getLast?_map, Option.bind_map]
  exact Option.bind_fun_some _

/-- A search gives the first atom of an index whose sort keys have the values of the sample. -/
theorem find?_eq (sample : Junctions) : index.find? sample = index.held.find? fun atom =>
    index.info.fields atom.junctions == index.info.fields sample := by
  have above {entry : IndexEntry}
      (notBelow : (compare entry (index.info.bound sample)).isLT = false) :
      (compare entry.key.fields (index.info.fields sample)).isGE = true := by
    change (((compare entry.key.fields (index.info.fields sample)).then _).then _).isLT = false
      at notBelow
    cases order : compare entry.key.fields (index.info.fields sample) with
    | lt =>
      rw [order] at notBelow
      cases notBelow
    | eq => rfl
    | gt => rfl
  rw [Index.find?, formed.valid.ceilingWhere?_eq]
  · rw [← formed.map_entry_held, List.filter_map, List.head?_map, Option.bind_map,
      ← List.head?_filter]
    have kept : index.held.filter ((fun entry =>
          entry.key.fields == (index.info.bound sample).key.fields &&
            !(compare entry (index.info.bound sample)).isLT) ∘ index.info.entry) =
        index.held.filter fun atom =>
          index.info.fields atom.junctions == index.info.fields sample := by
      apply List.filter_congr
      intro atom _
      rw [Function.comp, IndexInfo.not_isLT_compare_bound]
      change (index.info.fields atom.junctions == index.info.fields sample && _) = _
      cases same : index.info.fields atom.junctions == index.info.fields sample with
      | false => rfl
      | true =>
        have tie : compare (index.info.fields atom.junctions) (index.info.fields sample) = .eq := by
          rw [beq_iff_eq.mp same]
          exact Std.ReflCmp.compare_self
        rw [tie]
        rfl
    rw [kept]
    exact Option.bind_fun_some _
  · intro left right notBelow less same
    exact beq_iff_eq.mpr (fields_eq_of_compare less (above notBelow) (beq_iff_eq.mp same))

/-- A walk that has just begun has those atoms ahead that are older than the last refresh and not
below the sample. -/
theorem remaining_walkBy (sample? : Option Junctions) :
    (index.walkBy sample?).remaining index = index.held.filter fun atom =>
      decide (atom.ucn < index.lastUcn) && sample?.all fun sample =>
        (compare (index.info.fields atom.junctions) (index.info.fields sample)).isGE := by
  have notEnded : (index.walkBy sample?).cursor.ended = false := by
    cases sample? <;> rfl
  have snapshot : (index.walkBy sample?).snapshot = index.lastUcn := by
    cases sample? <;> rfl
  have shown : (index.walkBy sample?).visible? ∘ index.info.entry =
      Option.guard fun atom => decide (atom.ucn < index.lastUcn) := by
    funext atom
    change (some atom).filter (fun atom => decide (atom.ucn < (index.walkBy sample?).snapshot)) = _
    rw [snapshot, Option.filter_some]
    rfl
  rw [IndexWalk.remaining, Cursor.remaining_of_open formed.valid notEnded, ← formed.map_entry_held,
    List.filter_map, List.filterMap_map, shown, List.filterMap_eq_filter, List.filter_filter]
  apply List.filter_congr
  intro atom _
  rw [Function.comp, passed_walkBy]

end Formed

/-- Whether the atoms in an index are all older than its last refresh, so that walks give them. -/
def Shown (index : Index) : Prop := ∀ atom ∈ index.held, atom.ucn < index.lastUcn

/-- An index that follows some slots shows everything. -/
theorem Follows.shown (follows : index.Follows slots) : index.Shown := by
  intro atom member
  obtain ⟨other, _, _, old, same⟩ :=
    (follows.mem_iff _).mp (follows.formed.entry_mem_of_mem_held member)
  obtain rfl := entry_injective _ same
  exact old

/-- A walk that begins gives what the index holds, from the sample on. -/
theorem Follows.remaining_walkBy (follows : index.Follows slots) (sample? : Option Junctions) :
    (index.walkBy sample?).remaining index = index.held.filter fun atom =>
      sample?.all fun sample =>
        (compare (index.info.fields atom.junctions) (index.info.fields sample)).isGE := by
  rw [follows.formed.remaining_walkBy]
  apply List.filter_congr
  intro atom member
  rw [decide_eq_true (follows.shown atom member), Bool.true_and]

end Index
end AtomStore
