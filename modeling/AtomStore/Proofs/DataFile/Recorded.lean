import AtomStore.Proofs.DataFile.Content
import AtomStore.Store.Transaction

/-!
# What a record holds of published drafts

After a record is written, the drafts of the commit are pointed to the bytes that stay in the file.
Read back, the record holds just those drafts when the file hosts byte runs; otherwise it holds
the bytes themselves in place of those that are kept elsewhere in the file.
-/

namespace AtomStore

open Log (StoredValue StoredAtom HostedPlace)

def Particle.inlined (directory : Directory) (path : String) : Particle → Particle
  | hosted offset length => bytes (((directory.content path).drop offset).take length)
  | particle => particle

/-- The junctions that a record holds of an atom, which depends on whether byte runs stay in the
file at a path. -/
def recordedJunctions (hosting : Bool) (directory : Directory) (path : String)
    (junctions : Junctions) : Junctions :=
  if hosting then junctions
  else
    { entries := junctions.entries.map fun junction =>
        (junction.1, junction.2.inlined directory path)
      ascending := List.pairwise_map.mpr junctions.ascending }

def Draft.recorded (hosting : Bool) (directory : Directory) (path : String) (draft : Draft) :
    Draft :=
  { draft with junctions := recordedJunctions hosting directory path draft.junctions }

/-- Junctions without bytes elsewhere in the file are recorded as they are. -/
theorem recordedJunctions_eq_self {hosting : Bool} {directory : Directory} {path : String}
    {junctions : Junctions} (inline : hosting = false →
      ∀ junction ∈ junctions.entries, junction.2.isHosted = false) :
    recordedJunctions hosting directory path junctions = junctions := by
  cases hosting with
  | true => rfl
  | false =>
    apply SortedMap.eq_of_entries
    have same : ∀ junction ∈ junctions.entries,
        (junction.1, junction.2.inlined directory path) = junction := by
      rintro ⟨key, particle⟩ member
      have here := inline rfl _ member
      cases particle with
      | hosted offset length => cases here
      | integer => rfl
      | text => rfl
      | bytes => rfl
    exact (List.map_congr_left same).trans (List.map_id _)

namespace Log

/-- The hosted values among the junctions of an atom are places of that atom. -/
theorem atom_of_mem_hostedInJunctions {id position : Nat} {values : List (Key × StoredValue)}
    {place : HostedPlace} (member : place ∈ hostedInJunctions id position values) :
    place.atom = id := by
  induction values generalizing position with
  | nil => cases member
  | cons junction rest ih =>
    obtain ⟨key, value⟩ := junction
    cases value with
    | hosted payload =>
      rcases List.mem_cons.mp member with rfl | later
      · rfl
      · exact ih later
    | integer => exact ih member
    | text => exact ih member
    | bytes => exact ih member

/-- The hosted values among some atoms are places of one of them. -/
theorem atom_of_mem_hostedInAtoms {position : Nat} {atoms : List StoredAtom} {place : HostedPlace}
    (member : place ∈ hostedInAtoms position atoms) : ∃ atom ∈ atoms, place.atom = atom.id := by
  induction atoms generalizing position with
  | nil => cases member
  | cons atom rest ih =>
    rcases List.mem_append.mp member with own | others
    · exact ⟨atom, List.mem_cons_self, atom_of_mem_hostedInJunctions own⟩
    · obtain ⟨found, inside, same⟩ := ih others
      exact ⟨found, List.mem_cons_of_mem _ inside, same⟩

end Log

namespace DataFile

variable {file : DataFile} {directory : Directory} {hosting : Bool} {threshold : Nat}

/-- Bytes that can be read from a file take the place of where they are. -/
theorem inlined_of_readHosted {offset length : Nat} {payload : Bytes}
    (read : file.readHosted directory offset length = .ok payload) :
    (Particle.hosted offset length).inlined directory file.path = .bytes payload := by
  obtain ⟨ranged, _⟩ := readRange_of_readHosted read
  simp only [Directory.readRange] at ranged
  split at ranged
  · cases ranged
  · cases ranged
    rfl

/-- A value is written as bytes that stay in the file, or it is read back as the particle it was
written for, with its bytes at hand when the file does not host them. -/
theorem placed_of_storedValue {particle : Particle} {value : StoredValue}
    (stored : file.storedValue directory hosting threshold particle = .ok value) :
    (hosting = true ∧ ∃ payload, value = .hosted payload) ∨
      (∀ payload, value ≠ .hosted payload) ∧ ∀ start, value.placed start =
        if hosting then particle else particle.inlined directory file.path := by
  cases particle with
  | integer number =>
    cases stored
    exact .inr ⟨fun _ same => (by cases same), fun _ => (ite_self _).symm⟩
  | text text =>
    cases stored
    exact .inr ⟨fun _ same => (by cases same), fun _ => (ite_self _).symm⟩
  | bytes payload =>
    rw [storedValue] at stored
    by_cases hosts : hosting = true ∧ threshold < payload.length
    · rw [if_pos hosts] at stored
      cases stored
      exact .inl ⟨hosts.1, payload, rfl⟩
    · rw [if_neg hosts] at stored
      cases stored
      exact .inr ⟨fun _ same => (by cases same), fun _ => (ite_self _).symm⟩
  | hosted offset length =>
    cases read : file.readHosted directory offset length with
    | error failure =>
      rw [storedValue, read] at stored
      cases stored
    | ok payload =>
      rw [storedValue, read] at stored
      cases hosting with
      | true =>
        cases stored
        exact .inl ⟨rfl, payload, rfl⟩
      | false =>
        cases stored
        exact .inr ⟨fun _ same => (by cases same), fun _ => (inlined_of_readHosted read).symm⟩

/-- The bindings that point a draft to its hosted bytes. -/
def pointers (places : List HostedPlace) : List (Key × Particle) :=
  places.map fun place => (place.key, place.particle)

/-- The keys that are pointed anew are keys of the atom, in their order. -/
theorem sublist_pointers (id position : Nat) (values : List (Key × StoredValue)) :
    ((pointers (Log.hostedInJunctions id position values)).map Prod.fst).Sublist
      (values.map Prod.fst) := by
  induction values generalizing position with
  | nil => exact .slnil
  | cons junction rest ih =>
    obtain ⟨key, value⟩ := junction
    cases value with
    | hosted payload => exact (ih _).cons_cons key
    | integer => exact (ih _).cons key
    | text => exact (ih _).cons key
    | bytes => exact (ih _).cons key

/-- A file that does not host writes no bytes to point to. -/
theorem hostedInJunctions_eq_nil {id position : Nat} {junctions : List (Key × Particle)}
    {values : List (Key × StoredValue)}
    (stored : List.Forall₂ (fun junction written =>
      file.storedJunction directory false threshold junction = .ok written) junctions values) :
    Log.hostedInJunctions id position values = [] := by
  induction stored generalizing position with
  | nil => rfl
  | @cons junction written _ _ first _ ih =>
    obtain ⟨_, held⟩ := storedJunction_eq_ok first
    obtain ⟨impossible, _⟩ | ⟨inline, _⟩ := placed_of_storedValue held
    · cases impossible
    · obtain ⟨key, value⟩ := written
      cases value with
      | hosted payload => exact absurd rfl (inline payload)
      | integer => exact ih
      | text => exact ih
      | bytes => exact ih

/-- Without hosting no value is hosted. -/
theorem hostedInAtoms_eq_nil {position : Nat} {drafts : List Draft} {atoms : List StoredAtom}
    (stored : drafts.mapM (file.storedAtom directory false threshold) = .ok atoms) :
    Log.hostedInAtoms position atoms = [] := by
  have pairs := mapM_eq_ok_iff.mp stored
  clear stored
  induction pairs generalizing position with
  | nil => rfl
  | cons first _ ih =>
    rw [Log.hostedInAtoms, hostedInJunctions_eq_nil (storedAtom_eq_ok first).2, ih]
    rfl

/-- An append points nothing to a file that does not host byte runs. -/
theorem places_eq_nil {next : Directory} {grown : DataFile} {ucn : Nat} {drafts : List Draft}
    {places : List HostedPlace}
    (appended : file.append directory ucn drafts threshold = .ok (next, grown, places))
    (inline : file.hosting threshold = false) : places = [] := by
  obtain ⟨atoms, stored, _, rfl⟩ := append_eq_ok appended
  rw [inline] at stored
  exact hostedInAtoms_eq_nil stored

/-- What a key is bound to when junctions are read back: the place of its bytes if they stay in the
file, and otherwise what it was bound to. -/
theorem lookup_placedJunctions {position : Nat} (id : Nat) {junctions : List (Key × Particle)}
    {values : List (Key × StoredValue)}
    (stored : List.Forall₂ (fun junction written =>
      file.storedJunction directory hosting threshold junction = .ok written) junctions values)
    (distinct : (junctions.map Prod.fst).Nodup) (key : Key) :
    SortedMap.lookup key (Log.placedJunctions position values) =
      (SortedMap.lookup key (pointers (Log.hostedInJunctions id position values))).or
        (SortedMap.lookup key (junctions.map fun junction => (junction.1,
          if hosting then junction.2 else junction.2.inlined directory file.path))) := by
  induction stored generalizing position with
  | nil => rfl
  | @cons junction written rest later first others ih =>
    obtain ⟨bound, particle⟩ := junction
    obtain ⟨name, value⟩ := written
    obtain ⟨rfl, held⟩ := storedJunction_eq_ok first
    obtain ⟨apart, tail⟩ := List.nodup_cons.mp distinct
    have keys : rest.map Prod.fst = later.map Prod.fst :=
      map_eq_of_forall₂ (others.imp fun _ _ pair => (storedJunction_eq_ok pair).1.symm)
    have absent (start : Nat) : SortedMap.lookup name
        (pointers (Log.hostedInJunctions id start later)) = none := by
      rw [SortedMap.lookup_eq_none_iff]
      intro member
      exact apart (keys ▸ (sublist_pointers id start later).subset member)
    rw [Log.placedJunctions, List.map_cons, SortedMap.lookup, SortedMap.lookup]
    obtain ⟨_, payload, rfl⟩ | ⟨inline, placed⟩ := placed_of_storedValue held
    · rw [Log.hostedInJunctions, pointers, List.map_cons, SortedMap.lookup]
      by_cases here : compare key name = .eq
      · rw [if_pos here, if_pos here]
        rfl
      · rw [if_neg here, if_neg here, if_neg here, ih tail]
        rfl
    · have same (start : Nat) : Log.hostedInJunctions id start ((name, value) :: later) =
          Log.hostedInJunctions id (start + (Log.junctionLead name value).length +
            value.payload.length) later := by
        cases value with
        | hosted payload => exact absurd rfl (inline payload)
        | integer => rfl
        | text => rfl
        | bytes => rfl
      rw [same]
      by_cases here : compare key name = .eq
      · obtain rfl : key = name := Std.LawfulEqCmp.eq_of_compare here
        rw [if_pos here, if_pos here, absent, placed]
        rfl
      · rw [if_neg here, if_neg here, ih tail]

/-- Pointing a draft to the places of its values changes its junctions alone. -/
theorem foldl_bind (own : List HostedPlace) (draft : Draft) :
    own.foldl (fun changed place => changed.bind place.key place.particle) draft =
      { draft with
        junctions := (pointers own).foldl
          (fun held binding => held.insert binding.1 binding.2) draft.junctions } := by
  induction own generalizing draft with
  | nil => rfl
  | cons place rest ih =>
    rw [List.foldl_cons, ih]
    rfl

/-- An atom is read back as what its record holds of the draft, once that points to its places. -/
theorem placedAtom_eq_recorded {draft : Draft} {atom : StoredAtom}
    (stored : file.storedAtom directory hosting threshold draft = .ok atom) (position : Nat) :
    Log.placedAtom position atom =
      ((Log.hostedInJunctions atom.id (position + (Log.atomLead atom.id).length)
        atom.values).foldl (fun changed place => changed.bind place.key place.particle)
          draft).recorded hosting directory file.path := by
  obtain ⟨same, values⟩ := storedAtom_eq_ok stored
  obtain ⟨keys, ascending⟩ := ascending_of_storedAtom stored
  have distinct := SortedMap.nodup_keys draft.junctions
  generalize start : position + (Log.atomLead atom.id).length = first
  have junctions : SortedMap.ofList (Log.placedJunctions first atom.values) =
      recordedJunctions hosting directory file.path
        ((pointers (Log.hostedInJunctions atom.id first atom.values)).foldl
          (fun held binding => held.insert binding.1 binding.2) draft.junctions) := by
    apply SortedMap.ext_get?
    intro key
    rw [SortedMap.get?, SortedMap.entries_ofList (Log.ascending_placedJunctions _ ascending),
      lookup_placedJunctions atom.id values distinct]
    cases hosting with
    | true =>
      have plain : (draft.junctions.entries.map fun junction => (junction.1, if true then junction.2
          else junction.2.inlined directory file.path)) = draft.junctions.entries :=
        List.map_id _
      have own := (sublist_pointers atom.id first atom.values).nodup (keys ▸ distinct)
      rw [plain]
      exact (SortedMap.get?_foldl_insert _ own draft.junctions key).symm
    | false =>
      rw [hostedInJunctions_eq_nil values]
      rfl
  rw [Log.placedAtom, start, junctions, foldl_bind, same]
  rfl

/-- What a record is read as is what its drafts were recorded as. -/
theorem placedAtoms_eq_recorded {drafts : List Draft} {atoms : List StoredAtom}
    (stored : drafts.mapM (file.storedAtom directory hosting threshold) = .ok atoms)
    (distinct : (drafts.map (·.id)).Nodup) (position : Nat) :
    Log.placedAtoms position atoms =
      drafts.map fun draft => (Transaction.pointed (Log.hostedInAtoms position atoms)
        draft).recorded hosting directory file.path := by
  -- the places in front of those of the remaining atoms belong to others
  suffices general : ∀ before position, (∀ draft ∈ drafts, ∀ place ∈ before,
      place.atom ≠ draft.id) → Log.placedAtoms position atoms =
        drafts.map fun draft => (Transaction.pointed (before ++ Log.hostedInAtoms position atoms)
          draft).recorded hosting directory file.path by
    exact general [] position fun _ _ => nofun
  have pairs := mapM_eq_ok_iff.mp stored
  clear stored
  induction pairs with
  | nil => exact fun _ _ _ => rfl
  | @cons draft atom rest later first others ih =>
    intro before position apart
    obtain ⟨unlike, tail⟩ := List.nodup_cons.mp distinct
    obtain ⟨same, _⟩ := storedAtom_eq_ok first
    have ids : rest.map (·.id) = later.map (·.id) :=
      map_eq_of_forall₂ (others.imp fun _ _ pair => (storedAtom_eq_ok pair).1.symm)
    generalize own : Log.hostedInJunctions atom.id (position + (Log.atomLead atom.id).length)
      atom.values = places
    have mine : ∀ place ∈ places, place.atom = draft.id := by
      rw [← own, ← same]
      intro place member
      exact Log.atom_of_mem_hostedInJunctions member
    have theirs : ∀ start, ∀ place ∈ Log.hostedInAtoms start later, place.atom ≠ draft.id := by
      intro start place member equal
      obtain ⟨other, inside, named⟩ := Log.atom_of_mem_hostedInAtoms member
      apply unlike
      rw [ids]
      exact List.mem_map.mpr ⟨other, inside, named.symm.trans equal⟩
    rw [Log.placedAtoms, List.map_cons, Log.hostedInAtoms, own,
      placedAtom_eq_recorded first, own, ih tail (before ++ places), List.append_assoc]
    · have own_places : (before ++ (places ++ Log.hostedInAtoms
          (position + (Log.atomBytes atom).length) later)).filter
            (fun place => place.atom == draft.id) = places := by
        rw [List.filter_append, List.filter_append,
          List.filter_eq_nil_iff.mpr fun place member found =>
            apart draft List.mem_cons_self place member (beq_iff_eq.mp found),
          List.filter_eq_self.mpr fun place member => beq_iff_eq.mpr (mine place member),
          List.filter_eq_nil_iff.mpr fun place member found =>
            theirs _ place member (beq_iff_eq.mp found),
          List.nil_append, List.append_nil]
      rw [Transaction.pointed, own_places]
    · intro other member place inside
      rcases List.mem_append.mp inside with prior | here
      · exact apart other (List.mem_cons_of_mem _ member) place prior
      · intro equal
        rw [mine place here] at equal
        exact unlike (List.mem_map.mpr ⟨other, member, equal.symm⟩)

end DataFile
end AtomStore
