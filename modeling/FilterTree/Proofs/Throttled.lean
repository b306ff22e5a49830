import FilterTree.Filter.Run
import FilterTree.Shape
import Mathlib.Algebra.Order.Ring.Nat
import Mathlib.Data.List.Chain

/-!
# A counter withholds less than a step

A counter is told of finished work in portions of any size, and each time it sends one
message or none. What it knows is how much has been done and which percentage it sent
last, and these determine everything it does (`Throttles`): the percentages that were sent
grow by a step at least, zero standing before the first of them, and the percentage that
has been reached is less than a step above the last of them. One more portion either
leaves it there or sends the new percentage, which then is the last one.

So a portion that jumps over several steps is answered by one message, with the
percentage that was reached and not with the steps in between, and where a step does not
divide 100 the end of the work need not be told. Percentages are formed in words; as long
as the total can be multiplied by 100 and the portions be added up there, none of them
overflows.
-/

namespace FilterTree.Counter

/-- Record one portion of finished work after another. -/
def advanceAll (c : Counter) (portions : List Nat) (run : Run) : Counter × Run :=
  portions.foldl (fun state n => state.1.advance n state.2) (c, run)

/-- The message with a percentage. -/
def progressMessage (label : String) (percent : Nat) : Message :=
  ⟨.progress, label ++ s!" {percent}%", some percent⟩

theorem advanceAll_concat {c : Counter} {portions : List Nat} {n : Nat} {run : Run} :
    c.advanceAll (portions ++ [n]) run =
      (c.advanceAll portions run).1.advance n (c.advanceAll portions run).2 := by
  rw [advanceAll, List.foldl_append]
  rfl

theorem percent_le {c : Counter} : c.percent ≤ 100 := by
  have hle : min c.done c.total * 100 ≤ c.total * 100 :=
    Nat.mul_le_mul_right _ (Nat.min_le_right _ _)
  exact Nat.div_le_of_le_mul hle

/-- A counter and its run when some work has been recorded and some percentages were sent. -/
structure Throttles (label : String) (total done : Nat) (run : Run) (sent : List Nat)
    (c : Counter) (run' : Run) : Prop where
  counter_eq : c = ⟨label, total, done, sent.getLastD 0⟩
  step_eq : run'.step = run.step
  messages_eq : run'.messages = run.messages ++ sent.map (progressMessage label)
  bounded : ∀ p ∈ sent, p ≤ 100
  grows : (0 :: sent).IsChain fun p q => p + max run.step 1 ≤ q
  due : c.percent < sent.getLastD 0 + max run.step 1

namespace Throttles

variable {label : String} {total done : Nat} {run run' : Run} {sent : List Nat} {c : Counter}

theorem new : Throttles label total 0 run [] (.new label total) run where
  counter_eq := rfl
  step_eq := rfl
  messages_eq := (List.append_nil _).symm
  bounded := fun _ h => nomatch h
  grows := .singleton 0
  due := by
    have hzero : (Counter.new label total).percent = 0 := by
      simp [Counter.new, percent]
    rw [hzero, List.getLastD_nil]
    omega

theorem lastPercent_le (h : Throttles label total done run sent c run') : c.lastPercent ≤ 100 := by
  obtain ⟨rfl, -, -, hbounded, -, -⟩ := h
  cases sent using List.reverseRecOn with
  | nil => exact Nat.zero_le _
  | append_singleton sent p =>
      show (sent ++ [p]).getLastD 0 ≤ 100
      rw [List.getLastD_concat]
      exact hbounded p List.mem_concat_self

/-- A portion of work changes nothing that was sent, or it adds the percentage reached. -/
theorem advance (h : Throttles label total done run sent c run') (htotal : total ≠ 0) (n : Nat) :
    Throttles label total (done + n) run sent (c.advance n run').1 (c.advance n run').2 ∨
      Throttles label total (done + n) run
        (sent ++ [min (done + n) total * 100 / total]) (c.advance n run').1
        (c.advance n run').2 := by
  obtain ⟨rfl, hstep, hmessages, hbounded, hgrows, -⟩ := h
  obtain ⟨p, hp⟩ : ∃ p, p = min (done + n) total * 100 / total := ⟨_, rfl⟩
  have hle : p ≤ 100 := by
    rw [hp]
    exact percent_le (c := ⟨label, total, done + n, 0⟩)
  rw [Counter.advance, if_neg htotal]
  dsimp only [percent]
  rw [hstep, ← hp]
  split
  · next hdue =>
    refine .inr ⟨?_, ?_, ?_, ?_, ?_, ?_⟩
    · rw [List.getLastD_concat]
    · exact hstep
    · show run'.messages ++ [Message.progress (label ++ s!" {p}%") p] = _
      rw [hmessages, List.map_append, List.append_assoc, Message.progress, min_eq_left hle]
      rfl
    · intro q hq
      rcases List.mem_append.mp hq with hq | hq
      · exact hbounded q hq
      · rwa [List.mem_singleton.mp hq]
    · refine hgrows.append (.singleton p) fun last hlast q hq => ?_
      rw [List.getLast?_cons, Option.mem_some_iff, ← List.getLastD_eq_getLast?] at hlast
      rw [List.head?_singleton, Option.mem_some_iff] at hq
      omega
    · show min (done + n) total * 100 / total < _
      rw [← hp, List.getLastD_concat]
      omega
  · next hearly =>
    refine .inl ⟨rfl, hstep, hmessages, hbounded, hgrows, ?_⟩
    show min (done + n) total * 100 / total < _
    rw [← hp]
    omega

end Throttles

theorem advanceAll_empty {label : String} {portions : List Nat} {run : Run} :
    (Counter.new label 0).advanceAll portions run = (Counter.new label 0, run) := by
  induction portions with
  | nil => rfl
  | cons n portions ih => exact ih

theorem advanceAll_spec {label : String} {total : Nat} {portions : List Nat} {run : Run}
    (htotal : total ≠ 0) : ∃ sent, Throttles label total portions.sum run sent
      ((Counter.new label total).advanceAll portions run).1
      ((Counter.new label total).advanceAll portions run).2 := by
  induction portions using List.reverseRecOn with
  | nil => exact ⟨[], .new⟩
  | append_singleton portions n ih =>
      obtain ⟨sent, hsent⟩ := ih
      rw [advanceAll_concat, List.sum_append, List.sum_singleton]
      rcases hsent.advance htotal n with h | h
      · exact ⟨_, h⟩
      · exact ⟨_, h⟩

/--
What a counter has sent after any portions of work: percentages up to 100, the first at least a
step and each other one at least a step above the one before, where a step of zero counts as
one. The percentage reached is less than a step above the last one sent, and the next portion
sends nothing or the percentage that is reached with it. A counter of no work sends nothing.
As long as the portions can be added up in a word, and so can a hundred times the total, so
can everything else that is computed.
-/
theorem advanceAll_throttles {label : String} {total : Nat} {portions : List Nat}
    {run run' : Run} {c : Counter} (hsum : portions.sum < sizeLimit)
    (htotal : total * 100 < sizeLimit)
    (h : (Counter.new label total).advanceAll portions run = (c, run')) :
    ∃ sent : List Nat, run'.messages = run.messages ++ sent.map (progressMessage label) ∧
      (∀ p ∈ sent, p ≤ 100) ∧
      ((0 :: sent).IsChain fun p q => p + max run.step 1 ≤ q) ∧
      min portions.sum total * 100 / total < sent.getLastD 0 + max run.step 1 ∧
      (∀ n, portions.sum + n < sizeLimit →
        (c.advance n run').2.messages = run'.messages ∨
        (c.advance n run').2.messages = run'.messages ++
          [progressMessage label (min (portions.sum + n) total * 100 / total)]) ∧
      (total = 0 → sent = []) ∧
      c.done < sizeLimit ∧ min c.done c.total * 100 < sizeLimit ∧ c.lastPercent ≤ 100 := by
  have hword : ∀ n, min n total * 100 < sizeLimit := fun n => by omega
  by_cases hzero : total = 0
  · subst hzero
    rw [advanceAll_empty] at h
    cases h
    refine ⟨[], (List.append_nil _).symm, fun _ h => (nomatch h), .singleton 0, ?_,
      fun n _ => .inl rfl, fun _ => rfl, hsum.trans_le' (Nat.zero_le _), hword 0, Nat.zero_le _⟩
    rw [Nat.div_zero, List.getLastD_nil]
    omega
  · obtain ⟨sent, hsent⟩ := @advanceAll_spec label total portions run hzero
    rw [h] at hsent
    dsimp only at hsent
    refine ⟨sent, hsent.messages_eq, hsent.bounded, hsent.grows, ?_, fun n _ => ?_,
      fun hempty => absurd hempty hzero, ?_, ?_, hsent.lastPercent_le⟩
    · have hdue := hsent.due
      rwa [hsent.counter_eq] at hdue
    · rcases hsent.advance hzero n with hnext | hnext
      · exact .inl (hnext.messages_eq.trans hsent.messages_eq.symm)
      · refine .inr ?_
        rw [hnext.messages_eq, hsent.messages_eq, List.map_append, List.append_assoc]
        rfl
    · rw [hsent.counter_eq]
      exact hsum
    · rw [hsent.counter_eq]
      exact hword _

/-- Work that jumps over a step of 40 and ends before the next one. -/
theorem advanceAll_throttles_jump :
    let portions := [2, 5, 2, 1]
    let run' := ((Counter.new "Work" 10).advanceAll portions (.new 40)).2
    portions.sum < sizeLimit ∧ 10 * 100 < sizeLimit ∧
      run'.messages = [progressMessage "Work" 70] ∧
      ∃ sent, run'.messages = sent.map (progressMessage "Work") ∧
        (0 :: sent).IsChain (fun p q => p + 40 ≤ q) ∧ 100 < sent.getLastD 0 + 40 := by
  intro portions run'
  have hsum : portions.sum < sizeLimit := by decide
  have htotal : 10 * 100 < sizeLimit := by decide
  obtain ⟨sent, hmessages, -, hgrows, hdue, -⟩ :=
    @advanceAll_throttles "Work" 10 portions (.new 40) _ _ hsum htotal rfl
  have hreached : min portions.sum 10 * 100 / 10 = 100 := by decide
  rw [hreached] at hdue
  exact ⟨hsum, htotal, by decide, sent, hmessages, hgrows, hdue⟩

end FilterTree.Counter
