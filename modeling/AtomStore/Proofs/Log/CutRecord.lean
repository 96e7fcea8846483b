import AtomStore.Proofs.Log.Delivery

/-!
# Bytes that end inside a record

No record is a front part of another one, so where a record stands no part of it is one. Accepted
bytes that are cut inside a record therefore run out there, whatever the cut goes through and
however long the numbers in front of it are written: the records before it are handed over, and the
replay fails with the offset of the record that was cut.
-/

namespace AtomStore.Log

variable {version : Version} {start : Nat} {bytes : Bytes}

section Feeding

variable {σ : Type} {consume : σ → Record → σ × Option LogError} {state : σ} {taken held : Nat}

/-- A consumer that refuses none of some records refuses none of the first of them. -/
theorem unrefused_front {front back : List Record}
    (unrefused : (feed consume state taken held (front ++ back)).2.2.2 = none) :
    (feed consume state taken held front).2.2.2 = none := by
  induction front generalizing state taken held with
  | nil => rfl
  | cons first rest ih =>
    rw [List.cons_append, feed] at unrefused
    rw [feed]
    rcases took : consume state first with ⟨next, _ | refusal⟩
    · rw [took] at unrefused
      exact ih unrefused
    · rw [took] at unrefused
      cases unrefused

/-- A consumer that refuses none of some records takes them all in. -/
theorem feed_of_unrefused {records : List Record}
    (unrefused : (feed consume state taken held records).2.2.2 = none) :
    feed consume state taken held records =
      (records.foldl (fun state record => (consume state record).1) state,
        taken + records.length, held + (records.map fun record => record.atoms.length).sum,
        none) := by
  induction records generalizing state taken held with
  | nil => rfl
  | cons first rest ih =>
    rw [feed] at unrefused ⊢
    rcases took : consume state first with ⟨next, _ | refusal⟩
    · rw [took] at unrefused
      simp only [ih unrefused, List.foldl_cons, took, List.length_cons, List.map_cons,
        List.sum_cons, Nat.add_assoc, Nat.add_comm 1]
    · rw [took] at unrefused
      cases unrefused

/-- A replay that succeeds has come to the end of its scan, and none of the records was refused. -/
theorem Scan.of_deliver_ok {scan : Scan} {summary : Summary}
    (accepted : (scan.deliver consume state).2.2.2 = .ok summary) :
    scan.outcome = .ok summary.endOffset ∧
      (feed consume state 0 0 scan.records).2.2.2 = none := by
  refine ⟨Scan.outcome_of_deliver (Prod.ext rfl (Prod.ext rfl (Prod.ext rfl accepted))), ?_⟩
  rcases fed : feed consume state 0 0 scan.records with ⟨last, records, atoms, _ | refusal⟩
  · rfl
  · rw [Scan.deliver, fed] at accepted
    cases accepted

end Feeding

namespace Grammar

/-- A record whose bytes begin another one is that one. -/
theorem eq_of_isPrefix {left right : Record version} (begins : left.bytes <+: right.bytes) :
    left = right := by
  obtain ⟨tail, same⟩ := begins
  exact (unambiguous_record left right tail [] (by rw [same, List.append_nil])).1

theorem Record.exists_cons (tree : Record version) :
    ∃ inside, tree.bytes = recordMark :: inside := ⟨_, rfl⟩

/-- A scan reads a record where its bytes stand and goes on behind it. -/
theorem scanFrom_tree (tree : Record version) (last position : Nat) (rest : Bytes) :
    scanFrom version last position (tree.bytes ++ rest) =
      let stop := position + tree.bytes.length
      let behind := scanFrom version stop stop rest
      ⟨tree.placed position :: behind.records, behind.outcome⟩ := by
  obtain ⟨inside, shape⟩ := tree.exists_cons
  have ahead : tree.bytes ++ rest = recordMark :: (inside ++ rest) := by
    rw [shape, List.cons_append]
  have read := record_eq_ok_iff.mpr ⟨tree, rest, ahead.symm, Eq.refl (tree.placed position), rfl⟩
  rw [ahead, scanFrom_mark, read]
  rfl

/-- A record of which some bytes are missing runs out of bytes, and nothing else is found. -/
theorem scanFrom_cutTree {tree : Record version} {kept missing : Bytes}
    (split : tree.bytes = kept ++ missing) (some : kept ≠ []) (less : missing ≠ [])
    (last position : Nat) :
    scanFrom version last position kept = ⟨[], .error (.truncated position)⟩ := by
  obtain ⟨inside, shape⟩ := tree.exists_cons
  obtain ⟨first, front, rfl⟩ := List.exists_cons_of_ne_nil some
  rw [shape, List.cons_append] at split
  obtain ⟨rfl, rfl⟩ := List.cons.inj split
  have whole : recordMark :: (front ++ missing) = tree.bytes ++ [] := by
    rw [shape, List.append_nil]
  have read := record_eq_ok_iff.mpr ⟨tree, [], whole, Eq.refl (tree.placed position), rfl⟩
  have short : (0 : Nat) < missing.length := List.length_pos_of_ne_nil less
  rw [scanFrom_mark, Reader.behindMark, (Reader.sequential_record position).cut read short]
  rfl

/-- A scan passes over the pieces that are in front. -/
theorem scanFrom_pieces (pieces : List (Piece version)) (last position : Nat) (rest : Bytes) :
    scanFrom version last position (pieces.flatMap Piece.bytes ++ rest) =
      let behind := scanFrom version (Piece.ends last position pieces)
        (position + (pieces.flatMap Piece.bytes).length) rest
      ⟨Piece.records position pieces ++ behind.records, behind.outcome⟩ := by
  induction pieces generalizing last position with
  | nil => rfl
  | cons piece others ih =>
    rw [List.flatMap_cons, List.append_assoc]
    cases piece with
    | pad =>
      rw [Piece.bytes, List.singleton_append, scanFrom, if_pos rfl, ih]
      simp only [Piece.records, Piece.ends, List.singleton_append, List.length_cons,
        Nat.add_assoc, Nat.add_comm 1]
    | record tree =>
      simp only [Piece.bytes, scanFrom_tree, ih, Piece.records, Piece.ends, List.length_append,
        List.cons_append, Nat.add_assoc]

/-- No record is a front part of another one. And where bytes that a replay accepts are cut inside
one of their records, the replay hands over the records in front of it and finds that one to be
truncated. -/
theorem deliver_take {σ : Type} {consume : σ → Log.Record → σ × Option LogError} {state : σ}
    {summary : Summary} {earlier later : List Log.Record} {record : Log.Record}
    (accepted : ((scan version start bytes).deliver consume state).2.2.2 = .ok summary)
    (split : (scan version start bytes).records = earlier ++ record :: later) :
    (∀ left right : Record version, left.bytes <+: right.bytes → left = right) ∧
    ∃ (front : Bytes) (tree : Record version) (back : Bytes),
      bytes = front ++ (tree.bytes ++ back) ∧ record = tree.placed (start + front.length) ∧
      ∀ count, front.length < count → count < front.length + tree.bytes.length →
        (scan version start (bytes.take count)).records = earlier ∧
        (scan version start (bytes.take count)).deliver consume state =
          (earlier.foldl (fun state record => (consume state record).1) state, earlier.length,
            (earlier.map fun record => record.atoms.length).sum,
            .error (.truncated record.offset)) := by
  refine ⟨fun left right => eq_of_isPrefix, ?_⟩
  obtain ⟨ended, unrefused⟩ := Scan.of_deliver_ok accepted
  obtain ⟨pieces, rest, splits, records, _⟩ := exists_splits version start start bytes
  rw [← scan, split] at records
  obtain ⟨before, tree, behind, rfl, rfl, rfl⟩ := exists_of_records_eq_append records.symm
  let front := before.flatMap Piece.bytes
  have shape : bytes = front ++ (tree.bytes ++ (behind.flatMap Piece.bytes ++ rest)) := by
    rw [splits.shape, List.flatMap_append, List.flatMap_cons, List.append_assoc,
      List.append_assoc]
    rfl
  refine ⟨front, tree, _, shape, rfl, ?_⟩
  intro count above below
  let kept := tree.bytes.take (count - front.length)
  have cut : bytes.take count = front ++ kept := by
    rw [shape, List.take_append, List.take_of_length_le above.le,
      List.take_append_of_le_length (by omega)]
  have found : scan version start (bytes.take count) =
      ⟨Piece.records start before, .error (.truncated (start + front.length))⟩ := by
    have some : kept ≠ [] := by
      apply List.ne_nil_of_length_pos
      rw [List.length_take]
      omega
    have less : tree.bytes.drop (count - front.length) ≠ [] := by
      apply List.ne_nil_of_length_pos
      rw [List.length_drop]
      omega
    have torn (last position : Nat) :
        scanFrom version last position kept = ⟨[], .error (.truncated position)⟩ :=
      scanFrom_cutTree (List.take_append_drop _ _).symm some less last position
    simp only [cut, scan, front, scanFrom_pieces, torn, List.append_nil]
  rw [split] at unrefused
  rw [found]
  refine ⟨rfl, ?_⟩
  rw [Scan.deliver, feed_of_unrefused (unrefused_front unrefused), Nat.zero_add, Nat.zero_add]
  rfl

/-- A pad byte and twice a record of an atom with a hosted byte, cut inside the second record. -/
theorem deliver_take_second :
    let collect : List Log.Record → Log.Record → List Log.Record × Option LogError :=
      fun held record => (held ++ [record], none)
    let bytes : Bytes := [0x00, 0xE5, 0x81, 0x00, 0xA1, 0x81, 0x00, 0x04, 0x81, 0x00, 0x81, 0x00,
      0x04, 0xEA, 0xE6, 0xA0, 0xE1, 0x20, 0xED, 0xE5, 0x81, 0x00, 0xA1, 0x81, 0x00, 0x04, 0x81,
      0x00, 0x81, 0x00, 0x04, 0xEA, 0xE6, 0xA0, 0xE1, 0x20, 0xED]
    let first : Log.Record := ⟨9, 1, [⟨1, 1, .ofList [(1, .hosted 20 1)], Nat.one_pos⟩]⟩
    let second : Log.Record := ⟨27, 1, [⟨1, 1, .ofList [(1, .hosted 38 1)], Nat.one_pos⟩]⟩
    ((scan .two 8 bytes).deliver collect []).2.2.2 = .ok ⟨2, 2, 45⟩ ∧
    (scan .two 8 bytes).records = [first] ++ second :: [] ∧
    ∃ (front : Bytes) (tree : Record .two) (back : Bytes),
      bytes = front ++ (tree.bytes ++ back) ∧ second = tree.placed (8 + front.length) ∧
      ∀ count, front.length < count → count < front.length + tree.bytes.length →
        (scan .two 8 (bytes.take count)).records = [first] ∧
        (scan .two 8 (bytes.take count)).deliver collect [] =
          ([first], 1, 1, .error (.truncated 27)) := by
  intro collect bytes first second
  have found : scan .two 8 bytes = ⟨[first, second], .ok 45⟩ := by
    have passed :=
      scanFrom_pieces ([.pad, .record hostedOne, .record hostedOne] : List (Piece .two)) 8 8 []
    simp only [List.flatMap_cons, List.flatMap_nil, Piece.bytes, bytes_hostedOne, List.append_nil,
      scanFrom_nil] at passed
    exact passed
  have accepted : ((scan .two 8 bytes).deliver collect []).2.2.2 = .ok ⟨2, 2, 45⟩ := by
    rw [found]
    rfl
  have split : (scan .two 8 bytes).records = [first] ++ second :: [] := by
    rw [found]
    rfl
  exact ⟨accepted, split, (deliver_take accepted split).2⟩

end Grammar
end AtomStore.Log
