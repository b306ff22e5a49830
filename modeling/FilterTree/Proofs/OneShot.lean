import FilterTree.Proofs.Binding
import FilterTree.Proofs.Builtins
import FilterTree.Proofs.Invocation

/-!
# In one go and step by step

A filter can be run in one go, or an instance can be taken through its life
call by call. The two hand on different arguments. Run in one go, a filter binds
what it was given twice, for its plan and for its body; an instance binds it
once and keeps the result, which the plan and the body then bind again. Since
binding what has been bound changes nothing, the gates let the same arguments
through (`gate_bound`), and from there on both drivers do the same things to the
same workspace.
-/

namespace FilterTree

namespace Filter

variable {f : Filter} {args bound : Arguments} {t : Tree} {run run' : Run} {w : Workspace}
  {plan : Plan} {batch : Batch}

/-! ## Running in one go -/

theorem run_of_refused {failures : List Failure}
    (hplan : f.preflight w.tree args w.run = (plan, run'))
    (hout : plan.actions.outcome = .error failures) :
    f.run args w = (⟨.error failures, plan.actions.warnings⟩, ⟨w.tree, run'⟩) := by
  simp only [run, Working.bind_apply, Working.tree_apply, Working.sending, hplan, hout]
  rfl

theorem run_of_rejected {e : BatchError} (hplan : f.preflight w.tree args w.run = (plan, run'))
    (hout : plan.actions.outcome = .ok batch) (happly : batch.apply .execute w.tree = (.error e, t)) :
    f.run args w = (⟨.error [e.failure], plan.actions.warnings⟩, ⟨t, run'⟩) := by
  simp only [run, Working.bind_apply, Working.tree_apply, Working.sending, hplan, hout,
    Working.applyBatch_apply, happly]
  rfl

theorem run_of_applied (hplan : f.preflight w.tree args w.run = (plan, run'))
    (hout : plan.actions.outcome = .ok batch) (happly : batch.apply .execute w.tree = (.ok (), t)) :
    f.run args w = (⟨(f.execute args ⟨t, run'⟩).1.outcome,
      plan.actions.warnings ++ (f.execute args ⟨t, run'⟩).1.warnings⟩,
      (f.execute args ⟨t, run'⟩).2) := by
  simp only [run, Working.bind_apply, Working.tree_apply, Working.sending, hplan, hout,
    Working.applyBatch_apply, happly]
  rfl

/-! ## Behind the gate -/

theorem preflight_of_stopped {failures : List Failure}
    (hgate : (f.gate f.schema.checkBefore args t).outcome = .error failures) :
    (f.preflight t args run).1.actions.outcome = .error failures ∧
      (f.preflight t args run).2 = run := by
  simp only [preflight, hgate]
  exact ⟨rfl, rfl⟩

theorem preflight_of_passed (hgate : (f.gate f.schema.checkBefore args t).outcome = .ok bound) :
    (f.preflight t args run).1.actions.outcome = (f.plan t bound run).1.actions.outcome ∧
      (f.preflight t args run).2 = (f.plan t bound run).2 := by
  simp only [preflight, hgate]
  exact ⟨rfl, rfl⟩

/-- A preflight is valid if the gate lets the arguments through and they can be planned for. -/
theorem preflight_eq_ok {g : Tree → Arguments → Except Failure Plan}
    (hplan : ∀ t bound, f.plan t bound = pure (.ofExcept (g t bound))) :
    (f.preflight t args run).1.actions.outcome = .ok batch ↔
      ∃ bound q, (f.schema.bind args).outcome = .ok bound ∧
        (f.schema.checkBefore bound t).outcome = .ok () ∧ g t bound = .ok q ∧
        q.actions.outcome = .ok batch := by
  constructor
  · intro hok
    cases hgate : (f.gate f.schema.checkBefore args t).outcome with
    | error failures => cases (preflight_of_stopped hgate).1.symm.trans hok
    | ok bound =>
        obtain ⟨hbind, hchecked⟩ := gate_eq_ok.mp hgate
        rw [(preflight_of_passed hgate).1, hplan] at hok
        cases hq : g t bound with
        | error e =>
            rw [hq] at hok
            cases hok
        | ok q =>
            rw [hq] at hok
            exact ⟨bound, q, hbind, hchecked, hq, hok⟩
  · rintro ⟨bound, q, hbind, hchecked, hq, hout⟩
    rw [(preflight_of_passed (gate_eq_ok.mpr ⟨hbind, hchecked⟩)).1, hplan, hq]
    exact hout

theorem execute_of_stopped {failures : List Failure}
    (hgate : (f.gate f.schema.checkAfter args w.tree).outcome = .error failures) :
    (f.execute args w).1.outcome = .error failures ∧ (f.execute args w).2 = w := by
  simp only [execute, Working.bind_apply, Working.tree_apply, hgate]
  exact ⟨rfl, rfl⟩

/-! ## Arguments that have been bound -/

theorem gate_bound (h : f.schema.Consistent) (hbound : (f.schema.bind args).outcome = .ok bound)
    {check : Arguments → Tree → Report Unit} :
    (f.gate check bound t).outcome = (f.gate check args t).outcome := by
  rw [gate, gate, h.bind_bound hbound, Report.andThen, Report.andThen, hbound]
  rfl

/-- A plan for bound arguments is the plan for those they come from, but for warnings. -/
theorem preflight_bound (h : f.schema.Consistent)
    (hbound : (f.schema.bind args).outcome = .ok bound) :
    (f.preflight t bound run).1.actions.outcome = (f.preflight t args run).1.actions.outcome ∧
      (f.preflight t bound run).2 = (f.preflight t args run).2 := by
  have hsame := @gate_bound f args bound t h hbound f.schema.checkBefore
  cases hgate : (f.gate f.schema.checkBefore args t).outcome with
  | error failures =>
      obtain ⟨hout, hrun⟩ := @preflight_of_stopped f args t run _ hgate
      obtain ⟨hout', hrun'⟩ := @preflight_of_stopped f bound t run _ (hsame.trans hgate)
      exact ⟨hout'.trans hout.symm, hrun'.trans hrun.symm⟩
  | ok b =>
      obtain ⟨hout, hrun⟩ := @preflight_of_passed f args b t run hgate
      obtain ⟨hout', hrun'⟩ := @preflight_of_passed f bound b t run (hsame.trans hgate)
      exact ⟨hout'.trans hout.symm, hrun'.trans hrun.symm⟩

theorem execute_bound (h : f.schema.Consistent)
    (hbound : (f.schema.bind args).outcome = .ok bound) :
    (f.execute bound w).1.outcome = (f.execute args w).1.outcome ∧
      (f.execute bound w).2 = (f.execute args w).2 := by
  have hsame := @gate_bound f args bound w.tree h hbound f.schema.checkAfter
  cases hgate : (f.gate f.schema.checkAfter args w.tree).outcome with
  | error failures =>
      obtain ⟨hout, hleft⟩ := execute_of_stopped hgate
      obtain ⟨hout', hleft'⟩ := execute_of_stopped (hsame.trans hgate)
      exact ⟨hout'.trans hout.symm, hleft'.trans hleft.symm⟩
  | ok b =>
      rw [execute_eq hgate, execute_eq (hsame.trans hgate)]
      exact ⟨rfl, rfl⟩

theorem preflight_of_unbound {failures : List Failure}
    (hfailed : (f.schema.bind args).outcome = .error failures) :
    (f.preflight t args run).1.actions.outcome = .error failures ∧
      (f.preflight t args run).2 = run := by
  refine preflight_of_stopped ?_
  rw [gate, Report.andThen, hfailed]

end Filter

/-! ## Step by step -/

/-- The state in which an invocation is left that was taken to its end. -/
def LifeState.ofOutcome : Except (List Failure) Completion → LifeState
  | .ok .finished => .executed
  | .ok .cancelled => .cancelled
  | .error _ => .failed

/-- The state tells apart how a run has ended. -/
theorem LifeState.ofOutcome_cases {o : Except (List Failure) Completion} :
    (ofOutcome o = .executed ↔ o = .ok .finished) ∧
      (ofOutcome o = .cancelled ↔ o = .ok .cancelled) ∧
      (ofOutcome o = .failed ↔ ∃ failures, o = .error failures) := by
  rcases o with failures | _ | _ <;> simp [ofOutcome]

namespace Instance

/-- Carry out calls in a row, up to the first that fails; the last reply is the answer. -/
def callInTurn (i : Instance) (c : Operation) : List Operation → Working (Report Answer × Instance)
  | [] => i.call c
  | next :: rest => do
    let (reply, i) ← i.call c
    match reply.outcome with
    | .error _ => return (reply, i)
    | .ok _ => i.callInTurn next rest

variable {i j : Instance} {c next : Operation} {rest : List Operation} {w v : Workspace}
  {reply : Report Answer}

theorem callInTurn_of_failed {failures : List Failure} (hcall : i.call c w = ((reply, j), v))
    (hout : reply.outcome = .error failures) :
    i.callInTurn c (next :: rest) w = ((reply, j), v) := by
  simp only [callInTurn, Working.bind_apply, hcall, hout]
  rfl

theorem callInTurn_of_ok {answer : Answer} (hcall : i.call c w = ((reply, j), v))
    (hout : reply.outcome = .ok answer) :
    i.callInTurn c (next :: rest) w = j.callInTurn next rest v := by
  simp only [callInTurn, Working.bind_apply, hcall, hout]

/-- What calls in a row leave is what a run in one go leaves: reply, state and workspace. -/
structure Agrees (calls : (Report Answer × Instance) × Workspace)
    (whole : Report Completion × Workspace) : Prop where
  outcome_eq : calls.1.1.outcome = whole.1.outcome.map .ended
  state_eq : calls.1.2.state = .ofOutcome whole.1.outcome
  left_eq : calls.2 = whole.2

variable {f : Filter} {args bound : Arguments} {actions : Option Batch} {batch : Batch}
  {advice : List Advice}

/-- From the body on: the last call runs it as the run in one go does. -/
theorem execute_agrees (h : f.schema.Consistent)
    (hbound : (f.schema.bind args).outcome = .ok bound) {warnings : List Warning} :
    Agrees ((⟨f, .applied, some bound, actions, advice⟩ : Instance).call .execute w)
      (⟨(f.execute args w).1.outcome, warnings⟩, (f.execute args w).2) := by
  obtain ⟨hout, hleft⟩ := @Filter.execute_bound f args bound w h hbound
  rcases hreport : f.execute bound w with ⟨report, v⟩
  rw [hreport] at hout hleft
  have hcall := execute_apply (i := ⟨f, .applied, some bound, actions, advice⟩) rfl hreport
  rw [call]
  simp only [Working.bind_apply, hcall]
  rw [← hout, ← hleft]
  obtain ⟨outcome, _⟩ := report
  rcases outcome with failures | _ | _ <;> exact ⟨rfl, rfl, rfl⟩

/-- From the actions on. -/
theorem apply_agrees (h : f.schema.Consistent)
    (hbound : (f.schema.bind args).outcome = .ok bound) {plan : Plan} {run' : Run}
    (hplan : f.preflight w.tree args w.run = (plan, run'))
    (hout : plan.actions.outcome = .ok batch) :
    Agrees ((⟨f, .preflighted, some bound, some batch, advice⟩ : Instance).callInTurn
      (.apply .execute) [.execute] ⟨w.tree, run'⟩) (f.run args w) := by
  have hstep := @apply_apply ⟨f, .preflighted, some bound, some batch, advice⟩ ⟨w.tree, run'⟩
    rfl batch .execute rfl
  rcases happly : batch.apply .execute w.tree with ⟨e | ⟨⟩, t⟩
  · rw [happly] at hstep
    have hcall : (⟨f, .preflighted, some bound, some batch, advice⟩ : Instance).call
        (.apply .execute) ⟨w.tree, run'⟩ =
        ((.fail e.failure, ⟨f, .failed, some bound, some batch, advice⟩), ⟨t, run'⟩) := by
      simp only [call, Working.bind_apply, hstep]
      rfl
    rw [Filter.run_of_rejected hplan hout happly, callInTurn_of_failed hcall rfl]
    exact ⟨rfl, rfl, rfl⟩
  · rw [happly] at hstep
    have hcall : (⟨f, .preflighted, some bound, some batch, advice⟩ : Instance).call
        (.apply .execute) ⟨w.tree, run'⟩ =
        ((.ok .done, ⟨f, .applied, some bound, some batch, advice⟩), ⟨t, run'⟩) := by
      simp only [call, Working.bind_apply, hstep]
      rfl
    rw [Filter.run_of_applied hplan hout happly, callInTurn_of_ok hcall rfl]
    exact execute_agrees h hbound

/-- From the plan on. -/
theorem preflight_agrees (h : f.schema.Consistent)
    (hbound : (f.schema.bind args).outcome = .ok bound) :
    Agrees ((⟨f, .bound, some bound, none, []⟩ : Instance).callInTurn
      .preflight [.apply .execute, .execute] w) (f.run args w) := by
  obtain ⟨hout, hleft⟩ := @Filter.preflight_bound f args bound w.tree w.run h hbound
  rcases hplan : f.preflight w.tree args w.run with ⟨plan, run'⟩
  rcases hplanned : f.preflight w.tree bound w.run with ⟨planned, run''⟩
  rw [hplan, hplanned] at hout hleft
  dsimp only at hout hleft
  subst hleft
  have hstep := preflight_apply (i := ⟨f, .bound, some bound, none, []⟩) rfl hplanned
  cases hbatch : planned.actions.outcome with
  | error failures =>
      rw [Report.value?, hbatch] at hstep
      have hcall : (⟨f, .bound, some bound, none, []⟩ : Instance).call .preflight w =
          ((planned.actions.map .planned, ⟨f, .failed, some bound, none, []⟩), ⟨w.tree, run''⟩) := by
        simp only [call, Working.bind_apply, Working.tree_apply, Working.sending, hstep]
        rfl
      have hreply : (planned.actions.map Answer.planned).outcome = .error failures :=
        congrArg (Except.map _) hbatch
      rw [Filter.run_of_refused hplan (hout ▸ hbatch), callInTurn_of_failed hcall hreply]
      exact ⟨hreply, rfl, rfl⟩
  | ok batch =>
      rw [Report.value?, hbatch] at hstep
      have hcall : (⟨f, .bound, some bound, none, []⟩ : Instance).call .preflight w =
          ((planned.actions.map .planned, ⟨f, .preflighted, some bound, some batch, planned.advice⟩),
            ⟨w.tree, run''⟩) := by
        simp only [call, Working.bind_apply, Working.tree_apply, Working.sending, hstep]
        rfl
      have hreply : (planned.actions.map Answer.planned).outcome = .ok (.planned batch) :=
        congrArg (Except.map _) hbatch
      rw [callInTurn_of_ok hcall hreply]
      exact apply_agrees h hbound hplan (hout ▸ hbatch)

theorem bind_agrees (h : f.schema.Consistent) :
    Agrees ((Instance.new f).callInTurn (.bind args) [.preflight, .apply .execute, .execute] w)
      (f.run args w) := by
  have hstep := @bind_eq (Instance.new f) rfl args
  cases hbind : (f.schema.bind args).outcome with
  | error failures =>
      rw [show (Instance.new f).filter = f from rfl, Report.value?, hbind] at hstep
      have hcall : (Instance.new f).call (.bind args) w =
          (((f.schema.bind args).discard.map fun _ => .done, ⟨f, .failed, none, none, []⟩), w) := by
        simp only [call, hstep]
        rfl
      have hreply : ((f.schema.bind args).discard.map fun _ => Answer.done).outcome =
          .error failures := by
        rw [Report.discard, Report.map, Report.map, hbind]
        rfl
      obtain ⟨hout, hrun⟩ := @Filter.preflight_of_unbound f args w.tree w.run _ hbind
      rw [Filter.run_of_refused rfl hout, callInTurn_of_failed hcall hreply]
      exact ⟨hreply, rfl, congrArg (Workspace.mk w.tree) hrun.symm⟩
  | ok bound =>
      rw [show (Instance.new f).filter = f from rfl, Report.value?, hbind] at hstep
      have hcall : (Instance.new f).call (.bind args) w =
          (((f.schema.bind args).discard.map fun _ => .done, ⟨f, .bound, some bound, none, []⟩),
            w) := by
        simp only [call, hstep]
        rfl
      have hreply : ((f.schema.bind args).discard.map fun _ => Answer.done).outcome =
          .ok .done := by
        rw [Report.discard, Report.map, Report.map, hbind]
        rfl
      rw [callInTurn_of_ok hcall hreply]
      exact preflight_agrees h hbind

end Instance

/-! ## The built-in filters -/

namespace Builtin

theorem consistent_of_mem {f : Filter} (hf : f ∈ filters) : f.schema.Consistent where
  keyed := by
    have hkeyed : ∀ f ∈ filters, ∀ e ∈ f.schema.params.entries, e.1 = e.2.key := by decide
    exact hkeyed f hf
  problems_eq := by
    have hproblems : ∀ f ∈ filters, f.schema.problems = [] := by decide
    exact hproblems f hf
  accepts_default := by
    have haccepts : ∀ f ∈ filters, ∀ p ∈ f.schema.parameters, p.kind.accepts p.default = true := by
      decide
    exact haccepts f hf

/--
A built-in filter taken through its life call by call, up to the first call that
fails, and the same filter run in one go: they leave the same workspace, and the
last reply and the report tell of the same failures or the same completion. The
instance has been executed, was cancelled or has failed just as the run in one
go finished, was cancelled or failed.
-/
theorem step_by_step_agrees {f : Filter} (hf : f ∈ filters) (args : Arguments) (w : Workspace) :
    ∃ reply i report v,
      (Instance.new f).callInTurn (.bind args) [.preflight, .apply .execute, .execute] w =
        ((reply, i), v) ∧
      f.run args w = (report, v) ∧
      reply.outcome = report.outcome.map .ended ∧
      (i.state = .executed ↔ report.outcome = .ok .finished) ∧
      (i.state = .cancelled ↔ report.outcome = .ok .cancelled) ∧
      (i.state = .failed ↔ ∃ failures, report.outcome = .error failures) := by
  have hagrees := @Instance.bind_agrees w f args (consistent_of_mem hf)
  rcases hsteps : (Instance.new f).callInTurn (.bind args)
    [.preflight, .apply .execute, .execute] w with ⟨⟨reply, i⟩, v⟩
  rcases hwhole : f.run args w with ⟨report, v'⟩
  rw [hsteps, hwhole] at hagrees
  obtain ⟨hout, hstate, rfl⟩ := hagrees
  refine ⟨reply, i, report, v, rfl, rfl, hout, ?_⟩
  rw [show i.state = .ofOutcome report.outcome from hstate]
  exact LifeState.ofOutcome_cases

/-- An array that is created in a run that was cancelled before is left without its values. -/
theorem step_by_step_agrees_cancelled :
    CreateArray.filter ∈ filters ∧ ∃ reply i report v,
      (Instance.new CreateArray.filter).callInTurn
        (.bind (Arguments.none.insert "output_array_path" (.path (.single "phase"))))
        [.preflight, .apply .execute, .execute] ⟨.empty, { Run.new 1 with cancelled := true }⟩ =
        ((reply, i), v) ∧
      CreateArray.filter.run
        (Arguments.none.insert "output_array_path" (.path (.single "phase")))
        ⟨.empty, { Run.new 1 with cancelled := true }⟩ = (report, v) ∧
      reply.outcome = report.outcome.map .ended ∧ report.outcome = .ok .cancelled ∧
      i.state = .cancelled := by
  have hmem : CreateArray.filter ∈ filters := by simp [filters]
  obtain ⟨reply, i, report, v, hsteps, hwhole, hout, -, hcancelled, -⟩ :=
    step_by_step_agrees hmem
      (Arguments.none.insert "output_array_path" (.path (.single "phase")))
      ⟨.empty, { Run.new 1 with cancelled := true }⟩
  have hend : report.outcome = .ok .cancelled := by
    rw [show report = _ from (congrArg Prod.fst hwhole).symm]
    rfl
  exact ⟨hmem, reply, i, report, v, hsteps, hwhole, hout, hend, hcancelled.mpr hend⟩

end Builtin

end FilterTree
