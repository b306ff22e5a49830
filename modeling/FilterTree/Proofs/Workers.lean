import FilterTree.Proofs.Angles
import FilterTree.Proofs.Bodies

/-!
# Workers that share the features

However many workers there are, each feature is taken by one of them, at a time that nobody has
said. What is known of them is what a pool of workers can do next (`Pool.Step`): take a feature, or
skip it if the run has been cancelled, finish one, fail with one, or find that somebody else has
cancelled the run. It is over when every feature has been done, or when nobody is at work after a
failure. Which of several failures is kept is not known either, and after a failure some features
may have been left where they were.

So no order can be relied on, and nothing here does. Whatever has been done is right by itself,
and a failure that is kept is the first fault of some feature (`Pool.Sound`); one step preserves
that, and therefore every sharing ends with all entries or with such a fault (`Shared.answers`). One
worker is a way to share (`oneWorker_shared`). It alone fails with the first fault of all.
-/

namespace FilterTree.Builtin.Misorientation

/-- How far a feature has come. -/
inductive Task where
  | waiting
  | taken
  | done (entries : List Float32)
  | failed

/-- What the workers share. -/
structure Pool where
  tasks : Nat → Task
  failure? : Option Failure
  counter : Counter
  run : Run

namespace Pool

/-- No worker has begun. -/
def start (counter : Counter) (run : Run) : Pool := ⟨fun _ => .waiting, none, counter, run⟩

/-- A feature has come somewhere. -/
def put (pool : Pool) (i : Nat) (task : Task) : Pool :=
  { pool with tasks := Function.update pool.tasks i task }

/-- One more feature has been counted. -/
def count (pool : Pool) : Pool :=
  { pool with
    counter := (pool.counter.advance 1 pool.run).1
    run := (pool.counter.advance 1 pool.run).2 }

/-- What can happen next. -/
inductive Step (inputs : Inputs) (lists : List (List Int32)) (pool : Pool) : Pool → Prop
  | take {i : Nat} (hi : i < lists.length) (htask : pool.tasks i = .waiting)
      (hrun : pool.run.cancelled = false) : Step inputs lists pool (pool.put i .taken)
  | skip {i : Nat} (hi : i < lists.length) (htask : pool.tasks i = .waiting)
      (hrun : pool.run.cancelled = true) : Step inputs lists pool (pool.put i (.done []))
  | finish {i : Nat} {neighbors : List Int32} {entries : List Float32}
      (hi : lists[i]? = some neighbors) (htask : pool.tasks i = .taken)
      (hangles : inputs.angles i neighbors = .ok entries) :
      Step inputs lists pool (pool.count.put i (.done entries))
  | fail {i : Nat} {neighbors : List Int32} {f kept : Failure}
      (hi : lists[i]? = some neighbors) (htask : pool.tasks i = .taken)
      (hangles : inputs.angles i neighbors = .error f)
      (hkept : kept = f ∨ pool.failure? = some kept) :
      Step inputs lists pool { pool.count.put i .failed with failure? := some kept }
  | cancel : Step inputs lists pool { pool with run := { pool.run with cancelled := true } }

/-- What the workers come to when none of them is at work any more. -/
inductive Over (lists : List (List Int32)) (pool : Pool) :
    Except Failure (List (List Float32)) × Run → Prop
  | failed {f : Failure} (hidle : ∀ i, pool.tasks i ≠ .taken) (hfailed : pool.failure? = some f) :
      Over lists pool (.error f, pool.run)
  | finished {all : List (List Float32)} (hnone : pool.failure? = none)
      (hlength : all.length = lists.length)
      (hdone : ∀ i entries, all[i]? = some entries → pool.tasks i = .done entries) :
      Over lists pool (.ok all, pool.run)

end Pool

/-- What is collected is what workers that share the features can come to. -/
def Collector.Shared (collect : Collector) : Prop :=
  ∀ inputs lists counter run, ∃ pool,
    Relation.ReflTransGen (Pool.Step inputs lists) (.start counter run) pool ∧
      pool.Over lists (collect inputs lists counter run)

/-! ## Every sharing -/

namespace Pool

variable {r : Rows} {lists : List (List Int32)} {pool pool' : Pool}

/-- What has been done is right, unless the run was cancelled, and what has failed has a fault. -/
structure Sound (r : Rows) (lists : List (List Int32)) (pool : Pool) : Prop where
  done : pool.run.cancelled = true ∨ ∀ i neighbors entries, lists[i]? = some neighbors →
    pool.tasks i = .done entries → neighbors.findSome? (r.fault? i) = none ∧
      List.Forall₂ (fun n x => r.Entry i n.toInt.toNat x) neighbors entries
  failure : ∀ f, pool.failure? = some f → r.Faulty lists f

theorem sound_start {counter : Counter} {run : Run} : Sound r lists (start counter run) where
  done := .inr fun _ _ _ _ htask => nomatch htask
  failure := fun _ hf => nomatch hf

theorem count_cancelled (h : pool.run.cancelled = true) : pool.count.run.cancelled = true :=
  Counter.advance_continues.cancelled h

/-- Where no feature is newly done, what has been done stays right. -/
theorem Sound.put {pool : Pool} (h : Sound r lists pool) {i : Nat} {task : Task}
    (htask : ∀ neighbors entries, lists[i]? = some neighbors → task = .done entries →
      pool.run.cancelled = true ∨ neighbors.findSome? (r.fault? i) = none ∧
        List.Forall₂ (fun n x => r.Entry i n.toInt.toNat x) neighbors entries) :
    Sound r lists (pool.put i task) := by
  refine ⟨?_, h.failure⟩
  rcases h.done with hcancelled | hdone
  · exact .inl hcancelled
  · by_cases hrun : pool.run.cancelled = true
    · exact .inl hrun
    · refine .inr fun j neighbors entries hj hput => ?_
      by_cases hsame : j = i
      · subst hsame
        exact (htask neighbors entries hj (by simpa [Pool.put] using hput)).resolve_left hrun
      · exact hdone j neighbors entries hj (by simpa [Pool.put, hsame] using hput)

theorem Sound.count (h : Sound r lists pool) : Sound r lists pool.count :=
  ⟨h.done.imp count_cancelled id, h.failure⟩

theorem Sound.step (h : Sound r lists pool) (hfits : lists.length ≤ r.phases.size)
    (hstep : Step r.inputs lists pool pool') : Sound r lists pool' := by
  have hanswers : ∀ {i neighbors}, lists[i]? = some neighbors →
      Answers (neighbors.findSome? (r.fault? i))
        (List.Forall₂ (fun n x => r.Entry i n.toInt.toNat x) neighbors)
        (r.inputs.angles i neighbors) := fun hi =>
    Rows.angles_answers ((List.getElem?_eq_some_iff.mp hi).1.trans_le hfits)
  cases hstep with
  | take => exact h.put fun _ _ _ htask => nomatch htask
  | skip _ _ hrun => exact h.put fun _ _ _ _ => .inl hrun
  | finish hi _ hangles =>
      refine h.count.put fun neighbors entries hi' htask => .inr ?_
      cases hi.symm.trans hi'
      cases htask
      have hok := hanswers hi
      rwa [hangles] at hok
  | @fail i neighbors f kept hi _ hangles hkept =>
      have hput : Sound r lists (pool.count.put i .failed) :=
        h.count.put fun _ _ _ htask => nomatch htask
      refine ⟨hput.done, fun g hg => ?_⟩
      cases hg
      rcases hkept with rfl | hkept
      · have herror := hanswers hi
        rw [hangles] at herror
        exact ⟨i, neighbors, hi, herror⟩
      · exact h.failure _ hkept
  | cancel => exact ⟨.inl rfl, h.failure⟩

theorem Sound.steps (h : Sound r lists pool) (hfits : lists.length ≤ r.phases.size)
    (hsteps : Relation.ReflTransGen (Step r.inputs lists) pool pool') : Sound r lists pool' := by
  induction hsteps with
  | refl => exact h
  | tail _ hstep ih => exact ih.step hfits hstep

end Pool

/-- However the features are shared, a failure is a fault, and else all entries are there. -/
theorem Collector.Shared.answers {collect : Collector} (h : collect.Shared) {r : Rows}
    {lists : List (List Int32)} (hfits : lists.length ≤ r.phases.size) {counter : Counter}
    {run run' : Run} {result : Except Failure (List (List Float32))}
    (hcollect : collect r.inputs lists counter run = (result, run')) :
    (∃ f, result = .error f ∧ r.Faulty lists f) ∨
      ∃ all, result = .ok all ∧ (run'.cancelled = true ∨
        (∀ f, ¬ r.Faulty lists f) ∧ Listed r.Entry 0 lists all) := by
  obtain ⟨pool, hsteps, hover⟩ := h r.inputs lists counter run
  rw [hcollect] at hover
  have hsound := Pool.sound_start.steps hfits hsteps
  cases hover with
  | failed _ hfailed => exact .inl ⟨_, rfl, hsound.failure _ hfailed⟩
  | @finished all hnone hlength hdone =>
      refine .inr ⟨all, rfl, hsound.done.imp id fun hright => ⟨?_, ?_⟩⟩
      · rintro f ⟨i, neighbors, hi, hfault⟩
        obtain ⟨hlt, -⟩ := List.getElem?_eq_some_iff.mp hi
        obtain ⟨entries, hentries⟩ : ∃ entries, all[i]? = some entries :=
          ⟨_, List.getElem?_eq_getElem (hlength ▸ hlt)⟩
        cases hfault.symm.trans (hright i neighbors _ hi (hdone i _ hentries)).1
      · refine List.forall₂_iff_get.mpr ⟨by rw [List.length_zipIdx, hlength], fun i hi hi' => ?_⟩
        rw [List.length_zipIdx] at hi
        have hentry := (hright i _ _ (List.getElem?_eq_getElem hi)
          (hdone i _ (List.getElem?_eq_getElem hi'))).2
        simpa using hentry

/-! ## One worker -/

namespace Pool

variable {inputs : Inputs} {all : List (List Int32)}

/-- What one worker comes to from a feature on: how the pool ends and what the answer is of. -/
structure Leads (inputs : Inputs) (all : List (List Int32)) (first : Nat) (pool : Pool)
    (answer : Except Failure (List (List Float32)) × Run) (pool' : Pool) : Prop where
  steps : Relation.ReflTransGen (Step inputs all) pool pool'
  run : pool'.run = answer.2
  idle : ∀ i, pool'.tasks i ≠ .taken
  before : ∀ i < first, pool'.tasks i = pool.tasks i
  failed : ∀ f, answer.1 = .error f → pool'.failure? = some f
  finished : ∀ entries, answer.1 = .ok entries → pool'.failure? = none ∧
    first + entries.length = all.length ∧
    ∀ i e, entries[i]? = some e → pool'.tasks (first + i) = .done e

/-- A feature has been done with, and the worker goes on to the next. -/
theorem Leads.cons {first : Nat} {pool next pool' : Pool} {entries : List Float32}
    {others : Except Failure (List (List Float32))} {run : Run}
    (hsteps : Relation.ReflTransGen (Step inputs all) pool next)
    (hdone : next.tasks first = .done entries)
    (hbefore : ∀ i < first, next.tasks i = pool.tasks i)
    (h : Leads inputs all (first + 1) next (others, run) pool') :
    Leads inputs all first pool (others.map (entries :: ·), run) pool' where
  steps := hsteps.trans h.steps
  run := h.run
  idle := h.idle
  before := fun i hi => (h.before i (by omega)).trans (hbefore i hi)
  failed := fun f hf => by
    cases others with
    | error e =>
        cases hf
        exact h.failed _ rfl
    | ok => cases hf
  finished := fun all' hall => by
    cases others with
    | error e => cases hall
    | ok others =>
        cases hall
        obtain ⟨hnone, hlength, hothers⟩ := h.finished _ rfl
        refine ⟨hnone, by rw [List.length_cons]; omega, fun i e he => ?_⟩
        cases i with
        | zero =>
            cases he
            exact (h.before first (by omega)).trans hdone
        | succ i =>
            rw [show first + (i + 1) = first + 1 + i by omega]
            exact hothers i e he

theorem leads_allAngles {lists : List (List Int32)} {first : Nat} {pool : Pool}
    (hlists : all.drop first = lists) (hwaiting : ∀ i, first ≤ i → pool.tasks i = .waiting)
    (hidle : ∀ i, pool.tasks i ≠ .taken) (hnone : pool.failure? = none)
    (hfirst : first ≤ all.length) : ∃ pool', Leads inputs all first pool
      (inputs.allAngles first lists pool.counter pool.run) pool' := by
  induction lists generalizing first pool with
  | nil =>
      have hlength : all.length = first := by
        have := List.drop_eq_nil_iff.mp hlists
        omega
      refine ⟨pool, .refl, rfl, hidle, fun _ _ => rfl, ?_, ?_⟩
      · intro f hf
        cases hf
      · intro entries hall
        cases hall
        refine ⟨hnone, hlength.symm, fun i e he => ?_⟩
        cases he
  | cons neighbors rest ih =>
      have hi : all[first]? = some neighbors := by
        rw [← List.head?_drop, hlists]
        rfl
      have hrest : all.drop (first + 1) = rest := by
        rw [← List.tail_drop, hlists]
        rfl
      obtain ⟨hlt, -⟩ := List.getElem?_eq_some_iff.mp hi
      have hput : ∀ task i, i ≠ first → Function.update pool.tasks first task i = pool.tasks i :=
        fun task i hne => Function.update_of_ne hne _ _
      have hidle' : ∀ task, task ≠ .taken →
          ∀ i, Function.update pool.tasks first task i ≠ .taken := by
        intro task htask
        rw [Function.forall_update_iff pool.tasks fun _ task => task ≠ .taken]
        exact ⟨htask, fun i _ => hidle i⟩
      rw [Inputs.allAngles]
      by_cases hrun : pool.run.cancelled = true
      · rw [if_pos hrun]
        obtain ⟨pool', h⟩ := @ih (first + 1) (pool.put first (.done [])) hrest
          (fun i hle => (hput _ i (by omega)).trans (hwaiting i (by omega)))
          (hidle' _ (by simp)) hnone hlt
        exact ⟨pool', .cons (.single (.skip hlt (hwaiting _ le_rfl) hrun))
          (Function.update_self _ _ _) (fun i hle => hput _ i (by omega)) h⟩
      · rw [if_neg hrun]
        have htake : Step inputs all pool (pool.put first .taken) :=
          .take hlt (hwaiting _ le_rfl) (Bool.eq_false_iff.mpr hrun)
        have htaken : (pool.put first .taken).tasks first = .taken := Function.update_self _ _ _
        have htwice : ∀ task, ((pool.put first .taken).count.put first task).tasks =
            Function.update pool.tasks first task := fun task => Function.update_idem _ _ _
        dsimp only
        cases hangles : inputs.angles first neighbors with
        | error e =>
            have hfail := Step.fail hi htaken hangles (.inl rfl)
            refine ⟨_, .tail (.single htake) hfail, rfl, ?_, ?_, ?_, ?_⟩
            · rw [htwice]
              exact hidle' .failed (by simp)
            · intro i hle
              rw [htwice]
              exact hput _ i (by omega)
            · intro f hf
              cases hf
              rfl
            · intro entries hall
              cases hall
        | ok entries =>
            have hfinish := Step.finish hi htaken hangles
            have hnext := htwice (.done entries)
            obtain ⟨pool', h⟩ := @ih (first + 1)
              ((pool.put first .taken).count.put first (.done entries)) hrest
              (fun i hle => by rw [hnext, hput _ i (by omega), hwaiting i (by omega)])
              (by rw [hnext]; exact hidle' _ (by simp)) hnone hlt
            exact ⟨pool', .cons (.tail (.single htake) hfinish)
              (by rw [hnext, Function.update_self])
              (fun i hle => by rw [hnext, hput _ i (by omega)]) h⟩

end Pool

theorem oneWorker_shared : Collector.Shared oneWorker := by
  intro inputs lists counter run
  obtain ⟨pool, h⟩ := @Pool.leads_allAngles inputs lists lists 0 (.start counter run) List.drop_zero
    (fun _ _ => rfl) (by simp [Pool.start]) rfl (Nat.zero_le _)
  refine ⟨pool, h.steps, ?_⟩
  have h' : Pool.Leads inputs lists 0 _ (inputs.allAngles 0 lists counter run) pool := h
  show pool.Over lists (inputs.allAngles 0 lists counter run)
  generalize inputs.allAngles 0 lists counter run = answer at h'
  obtain ⟨f | all, last⟩ := answer
  · obtain rfl : pool.run = last := h'.run
    exact .failed h'.idle (h'.failed f rfl)
  · obtain rfl : pool.run = last := h'.run
    obtain ⟨hnone, hlength, hdone⟩ := h'.finished all rfl
    refine .finished hnone (by omega) fun i e he => ?_
    rw [← Nat.zero_add i]
    exact hdone i e he

end FilterTree.Builtin.Misorientation
