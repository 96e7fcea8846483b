import AtomStore.Log.Reader

/-!
# Taking bytes

A reader that has taken some bytes stands behind them: its position has moved by their number and
its register has taken them in. Passing over a run chunk by chunk comes to the same as taking it at
once.
-/

namespace AtomStore.Log

namespace Reader

/-- The reader behind some bytes that it has taken, with the rest still to come. -/
def after (reader : Reader) (taken rest : Bytes) : Reader :=
  ⟨rest, reader.position + taken.length, Checksum.updateAll reader.register taken⟩

@[simp] theorem after_rest (reader : Reader) (taken rest : Bytes) :
    (reader.after taken rest).rest = rest := rfl

@[simp] theorem after_position (reader : Reader) (taken rest : Bytes) :
    (reader.after taken rest).position = reader.position + taken.length := rfl

/-- Going on twice is going on behind both runs. -/
theorem after_after (reader : Reader) (front back middle rest : Bytes) :
    (reader.after front middle).after back rest = reader.after (front ++ back) rest := by
  simp only [after, List.length_append, Checksum.updateAll_append, Nat.add_assoc]

/-- The next byte is read. -/
theorem byte_of_rest {reader : Reader} {first : UInt8} {rest : Bytes}
    (ahead : reader.rest = first :: rest) :
    reader.byte = .ok (first, reader.after [first] rest) := by
  unfold byte
  rw [ahead]
  rfl

/-- The bytes ahead are read as a run. -/
theorem run_of_rest {reader : Reader} {taken rest : Bytes} (ahead : reader.rest = taken ++ rest) :
    reader.run taken.length = .ok (taken, reader.after taken rest) := by
  have front : reader.rest.take taken.length = taken := by rw [ahead, List.take_left]
  have back : reader.rest.drop taken.length = rest := by rw [ahead, List.drop_left]
  unfold run
  simp only [front, back, Nat.lt_irrefl, ↓reduceIte]
  rfl

/-- A run either is ahead or ends early. -/
theorem run_eq (reader : Reader) (count : Nat) :
    reader.run count = if reader.rest.length < count then .error .ended
      else .ok (reader.rest.take count,
        reader.after (reader.rest.take count) (reader.rest.drop count)) := by
  unfold run
  simp only [List.length_take]
  by_cases short : reader.rest.length < count
  · rw [if_pos short, if_pos (by omega)]
  · have length : (reader.rest.take count).length = count := by
      rw [List.length_take]
      omega
    rw [if_neg short, if_neg (by omega), after, length]

/-- A run may be taken in two parts. -/
theorem run_add (reader : Reader) (first second : Nat) :
    (reader.run (first + second)).map Prod.snd =
      match reader.run first with
      | .error fault => .error fault
      | .ok (_, next) => (next.run second).map Prod.snd := by
  simp only [run_eq]
  by_cases short : reader.rest.length < first
  · rw [if_pos short, if_pos (by omega)]
    rfl
  · rw [if_neg short]
    simp only [after_rest, List.length_drop]
    by_cases later : reader.rest.length - first < second
    · rw [if_pos later, if_pos (by omega)]
    · rw [if_neg later, if_neg (by omega)]
      simp only [Except.map, after_after, ← List.take_add, List.drop_drop]

/-- Passing over a run is taking it and keeping nothing of it. -/
theorem skip_eq_run (reader : Reader) (count : Nat) :
    reader.skip count = (reader.run count).map Prod.snd := by
  fun_induction skip reader count with
  | case1 reader =>
    rw [run_eq, if_neg (Nat.not_lt_zero _)]
    rfl
  | case2 reader count nonzero fault failed =>
    have split : min count chunkLength + (count - min count chunkLength) = count := by omega
    rw [← split, run_add, failed]
  | case3 reader count nonzero taken next ran ih =>
    have split : min count chunkLength + (count - min count chunkLength) = count := by omega
    rw [ih, ← split, run_add, ran, split]

/-- The bytes ahead are skipped as a run. -/
theorem skip_of_rest {reader : Reader} {taken rest : Bytes} (ahead : reader.rest = taken ++ rest) :
    reader.skip taken.length = .ok (reader.after taken rest) := by
  rw [skip_eq_run, run_of_rest ahead]
  rfl

end Reader
end AtomStore.Log
