import FilterTree.Proofs.Reasoned

/-!
# Pipelines run piece by piece

A pipeline has no memory besides its workspace. Two rows of filters in one
pipeline therefore do what the first row does and then, if it has completed, the
second row from the workspace that it left; and a disabled filter might as well
not be there. All that tells the pieces from the whole are the places that the
reports carry, so the laws are stated up to a renumbering of them.

They rest on what is known of one filter (`run_shows`): its place shows nowhere
but in the place of its report, and how it ended can be read off that report.
The latter needs filters that never fail without a failure.
-/

namespace FilterTree

/-! ## What a report shows -/

namespace NodeReport

variable {n : NodeReport}

/-- The same report at another place. -/
def placed (n : NodeReport) (index : Nat) : NodeReport := { n with index := index }

/-- The same report with another numbering of the filters. -/
def renumber (place : Nat → Nat) (n : NodeReport) : NodeReport := n.placed (place n.index)

/-- Whether the run was cancelled, before the filter began or in its body. -/
def isCancelled (n : NodeReport) : Bool :=
  n.completion == some .cancelled || !n.skipped && n.actions.isNone && n.failures.isEmpty

/-- How the run of a filter ended, as its report shows it. -/
def status (n : NodeReport) : NodeStatus :=
  if !n.failures.isEmpty then .failed else if n.isCancelled then .cancelled else .passed

theorem status_of_failures (h : n.failures ≠ []) : n.status = .failed := by
  rw [status, if_pos]
  simpa using h

theorem status_of_acted (hfailures : n.failures = []) (hacted : n.actions.isSome = true) :
    n.status = if n.completion = some .cancelled then .cancelled else .passed := by
  have hnone : n.actions.isNone = false := by simpa using hacted
  simp [status, isCancelled, hfailures, hnone]

theorem status_addFailure {f : Failure} : (n.addFailure f).status = .failed :=
  status_of_failures (List.append_ne_nil_of_right_ne_nil _ (List.cons_ne_nil _ _))

theorem status_eq_failed_iff : n.status = .failed ↔ n.failures ≠ [] := by
  refine ⟨fun h hnil => ?_, status_of_failures⟩
  rw [status, hnil] at h
  cases hcancelled : n.isCancelled <;> simp [hcancelled] at h

theorem status_eq_passed_iff : n.status = .passed ↔ n.failures = [] ∧ n.isCancelled = false := by
  cases hfailures : n.failures <;> cases hcancelled : n.isCancelled <;>
    simp [status, hfailures, hcancelled]

end NodeReport

namespace PipelineOutcome

/-- The same ending with another numbering of the filters. -/
def renumber (place : Nat → Nat) : PipelineOutcome → PipelineOutcome
  | completed => completed
  | failed index => failed (place index)
  | cancelled index => cancelled (place index)

/-- How a pipeline ended, as the report of the last filter that was reached shows it. -/
def ofLast : Option NodeReport → PipelineOutcome
  | none => completed
  | some n =>
    match n.status with
    | .passed => completed
    | .failed => failed n.index
    | .cancelled => cancelled n.index

variable {last : Option NodeReport} {i : Nat}

theorem ofLast_eq_failed_iff :
    ofLast last = failed i ↔ ∃ n, last = some n ∧ n.index = i ∧ n.failures ≠ [] := by
  cases last with
  | none => simp [ofLast]
  | some n =>
      rw [ofLast]
      cases hstatus : n.status <;> simp [← NodeReport.status_eq_failed_iff, hstatus]

theorem ofLast_eq_completed_iff :
    ofLast last = completed ↔ ∀ n, last = some n → n.failures = [] ∧ n.isCancelled = false := by
  cases last with
  | none => simp [ofLast]
  | some n =>
      rw [ofLast]
      cases hstatus : n.status <;> simp [← NodeReport.status_eq_passed_iff, hstatus]

end PipelineOutcome

/-! ## One filter -/

namespace PipelineNode

variable {node : PipelineNode} {mode : Mode} {audited : Bool} {index : Nat} {w : Workspace}
  {plan : Plan} {batch : Batch}

theorem failures_planned : (node.planned index plan).failures = plan.actions.failures :=
  List.nil_append _

theorem failures_acting (hout : plan.actions.outcome = .ok batch) :
    (node.acting index plan batch).failures = [] := by
  show (node.planned index plan).failures = []
  rw [failures_planned, Report.failures, hout]

/--
Wherever the body's filter stands it is reported the same, but for the place, and
the report shows how it ended.
-/
theorem runBody_shows (hout : plan.actions.outcome = .ok batch) :
    ∃ (n : NodeReport) (s : NodeStatus) (v : Workspace),
      (∀ index, node.runBody (node.acting index plan batch) w = ((n.placed index, s), v)) ∧
        n.skipped = false ∧ (node.filter.Reasoned → n.status = s) := by
  rcases hbody : node.filter.execute node.arguments w with ⟨result, v⟩
  have hreasoned : node.filter.Reasoned → result.Reasoned := by
    intro hf
    have hexecute : (node.filter.execute node.arguments w).1.Reasoned := hf.execute
    rwa [hbody] at hexecute
  have hfailures :
      ((node.acting 0 plan batch).absorb result).failures = result.failures := by
    show (node.acting 0 plan batch).failures ++ result.failures = _
    rw [failures_acting hout, List.nil_append]
  simp only [runBody, Working.bind_apply, hbody]
  rcases hend : result.outcome with failures | _ | _
  · refine ⟨(node.acting 0 plan batch).absorb result, .failed, v, fun _ => rfl, rfl, fun hf => ?_⟩
    refine NodeReport.status_of_failures ?_
    rw [hfailures, Report.failures, hend]
    exact fun hnil => hreasoned hf (hend.trans (congrArg _ hnil))
  · refine ⟨{ (node.acting 0 plan batch).absorb result with completion := some .finished },
      .passed, v, fun _ => rfl, rfl, fun _ => NodeReport.status_of_acted ?_ rfl⟩
    rw [Report.failures, hend] at hfailures
    exact hfailures
  · refine ⟨{ (node.acting 0 plan batch).absorb result with completion := some .cancelled },
      .cancelled, v, fun _ => rfl, rfl, fun _ => NodeReport.status_of_acted ?_ rfl⟩
    rw [Report.failures, hend] at hfailures
    exact hfailures

/-- So it is with the whole run of a filter. -/
theorem run_shows : ∃ (n : NodeReport) (s : NodeStatus) (v : Workspace),
    (∀ index, node.run mode audited index w = ((n.placed index, s), v)) ∧
      n.skipped = false ∧ (node.filter.Reasoned → n.status = s) := by
  rcases hplan : node.filter.preflight w.tree node.arguments w.run with ⟨plan, run⟩
  cases hout : plan.actions.outcome with
  | error failures =>
      refine ⟨node.planned 0 plan, .failed, ⟨w.tree, run⟩,
        fun _ => run_of_refused hplan hout, rfl, fun hf => NodeReport.status_of_failures ?_⟩
      have hreasoned :
          (node.filter.preflight w.tree node.arguments w.run).1.actions.Reasoned := hf.preflight
      rw [hplan] at hreasoned
      rw [failures_planned, Report.failures, hout]
      exact fun hnil => hreasoned (hout.trans (congrArg _ hnil))
  | ok batch =>
      rcases happly : batch.apply mode w.tree with ⟨e | ⟨⟩, u⟩
      · exact ⟨(node.acting 0 plan batch).addFailure e.failure, .failed, ⟨u, run⟩,
          fun _ => run_of_rejected hplan hout happly, rfl, fun _ => NodeReport.status_addFailure⟩
      · rcases haudit : if audited then u.audit else .ok () with e | ⟨⟩
        · exact ⟨(node.acting 0 plan batch).addFailure (.ofTree e), .failed, ⟨u, run⟩,
            fun _ => run_of_unsound hplan hout happly haudit, rfl,
            fun _ => NodeReport.status_addFailure⟩
        · cases mode with
          | preflight =>
              exact ⟨node.acting 0 plan batch, .passed, ⟨u, run⟩,
                fun _ => run_of_tried hplan hout happly haudit, rfl,
                fun _ => NodeReport.status_of_acted (failures_acting hout) rfl⟩
          | execute =>
              obtain ⟨n, s, v, hbody, hreported⟩ := @runBody_shows node ⟨u, run⟩ plan batch hout
              exact ⟨n, s, v,
                fun index => (run_of_applied hplan hout happly haudit).trans (hbody index),
                hreported⟩

/-! ## Filters in a row -/

variable {ps qs nodes rest : List PipelineNode}

/-- Filters behind others go on in the workspace that those have left, unless they were stopped. -/
theorem runFrom_append :
    runFrom mode audited index (ps ++ qs) w =
      match runFrom mode audited index ps w with
      | ((ns, .completed), v) =>
        ((ns ++ (runFrom mode audited (index + ps.length) qs v).1.1,
          (runFrom mode audited (index + ps.length) qs v).1.2),
          (runFrom mode audited (index + ps.length) qs v).2)
      | stopped => stopped := by
  induction ps generalizing index w with
  | nil => rfl
  | cons node rest ih =>
      have hlength : index + (node :: rest).length = index + 1 + rest.length := by
        rw [List.length_cons]
        omega
      rw [List.cons_append, hlength]
      cases henabled : node.enabled with
      | false =>
          rw [runFrom_of_disabled henabled, runFrom_of_disabled henabled, ih]
          rcases runFrom mode audited (index + 1) rest w with ⟨⟨ns, _ | _ | _⟩, v⟩ <;> rfl
      | true =>
          cases hlive : w.run.cancelled with
          | true => rw [runFrom_of_cancelled henabled hlive, runFrom_of_cancelled henabled hlive]
          | false =>
              rw [runFrom_of_live henabled hlive, runFrom_of_live henabled hlive]
              rcases node.run mode audited index w with ⟨⟨n, _ | _ | _⟩, v⟩
              · -- the filter has passed, so the others go on
                dsimp only
                rw [ih]
                rcases runFrom mode audited (index + 1) rest v with ⟨⟨ns, _ | _ | _⟩, u⟩ <;> rfl
              · rfl
              · rfl

/-- Where the row begins shows nowhere but in the places of the reports. -/
theorem runFrom_add {k : Nat} :
    runFrom mode audited (k + index) nodes w =
      (((runFrom mode audited index nodes w).1.1.map (.renumber (k + ·)),
        (runFrom mode audited index nodes w).1.2.renumber (k + ·)),
        (runFrom mode audited index nodes w).2) := by
  induction nodes generalizing index w with
  | nil => rfl
  | cons node rest ih =>
      cases henabled : node.enabled with
      | false =>
          rw [runFrom_of_disabled henabled, runFrom_of_disabled henabled, Nat.add_assoc, ih]
          rfl
      | true =>
          cases hlive : w.run.cancelled with
          | true =>
              rw [runFrom_of_cancelled henabled hlive, runFrom_of_cancelled henabled hlive]
              rfl
          | false =>
              obtain ⟨n, s, v, hrun, -⟩ := @run_shows node mode audited w
              rw [runFrom_of_live henabled hlive, runFrom_of_live henabled hlive, hrun, hrun]
              cases s with
              | passed =>
                  dsimp only
                  rw [Nat.add_assoc, ih]
                  rfl
              | failed | cancelled => rfl

/-- Without the disabled filters the others do the same; `place` says where they stand then. -/
theorem runFrom_enabled {index' : Nat} {place : Nat → Nat}
    (hplace : ∀ i, place (index + i) = index' + (nodes.take i).countP (·.enabled)) :
    runFrom mode audited index' (nodes.filter (·.enabled)) w =
      ((((runFrom mode audited index nodes w).1.1.filter (!·.skipped)).map (.renumber place),
        (runFrom mode audited index nodes w).1.2.renumber place),
        (runFrom mode audited index nodes w).2) := by
  induction nodes generalizing index index' w with
  | nil => rfl
  | cons node rest ih =>
      have hhere : place index = index' := by simpa using hplace 0
      cases henabled : node.enabled with
      | false =>
          have hrest : ∀ i,
              place (index + 1 + i) = index' + (rest.take i).countP (·.enabled) := by
            intro i
            rw [Nat.add_assoc, Nat.add_comm 1 i, hplace, List.take_succ_cons,
              List.countP_cons_of_neg (by simpa using henabled)]
          rw [List.filter_cons_of_neg (by simpa using henabled), runFrom_of_disabled henabled,
            ih hrest]
          rfl
      | true =>
          have hrest : ∀ i,
              place (index + 1 + i) = index' + 1 + (rest.take i).countP (·.enabled) := by
            intro i
            rw [Nat.add_assoc, Nat.add_comm 1 i, hplace, List.take_succ_cons,
              List.countP_cons_of_pos (by simpa using henabled), Nat.add_assoc, Nat.add_comm 1]
          rw [List.filter_cons_of_pos henabled]
          cases hlive : w.run.cancelled with
          | true =>
              rw [runFrom_of_cancelled henabled hlive, runFrom_of_cancelled henabled hlive, ← hhere]
              rfl
          | false =>
              obtain ⟨n, s, v, hrun, hskipped, -⟩ := @run_shows node mode audited w
              have hskipped : ∀ i, (n.placed i).skipped = false := fun _ => hskipped
              rw [runFrom_of_live henabled hlive, runFrom_of_live henabled hlive, hrun, hrun]
              cases s with
              | passed =>
                  dsimp only
                  rw [ih hrest, List.filter_cons_of_pos (by simp [hskipped]), ← hhere]
                  rfl
              | failed | cancelled =>
                  dsimp only
                  rw [List.filter_cons_of_pos (by simp [hskipped]), ← hhere]
                  rfl

/-! ## What the reports of a row show -/

/-- What the reports of filters from a place on, and how they ended, have to do with each other. -/
structure Coherent (index : Nat) (nodes : List PipelineNode) (ns : List NodeReport)
    (o : PipelineOutcome) : Prop where
  numbered : ∀ (i : Nat) (n : NodeReport), ns[i]? = some n → n.index = index + i
  skipped_eq : ∀ (i : Nat) (n : NodeReport) (node : PipelineNode),
    ns[i]? = some n → nodes[i]? = some node → n.skipped = !node.enabled
  passed : ∀ n ∈ ns.dropLast, n.status = .passed
  outcome_eq : o = .ofLast ns.getLast?
  reached : o = .completed → ns.length = nodes.length

theorem Coherent.cons {n : NodeReport} {ns : List NodeReport} {o : PipelineOutcome}
    (h : Coherent (index + 1) rest ns o) (hindex : n.index = index)
    (hskipped : n.skipped = !node.enabled) (hpassed : n.status = .passed) :
    Coherent index (node :: rest) (n :: ns) o where
  numbered := by
    intro i m hm
    cases i with
    | zero =>
        cases hm
        exact hindex
    | succ i => rw [h.numbered i m hm, Nat.add_assoc, Nat.add_comm 1]
  skipped_eq := by
    intro i m node' hm hnode
    cases i with
    | zero =>
        cases hm
        cases hnode
        exact hskipped
    | succ i => exact h.skipped_eq i m node' hm hnode
  passed := by
    intro m hm
    cases ns with
    | nil => cases hm
    | cons n' ns =>
        rw [List.dropLast_cons_cons] at hm
        rcases List.mem_cons.mp hm with rfl | hm
        · exact hpassed
        · exact h.passed m hm
  outcome_eq := by
    cases ns with
    | nil => rw [h.outcome_eq, List.getLast?_singleton, PipelineOutcome.ofLast, hpassed]; rfl
    | cons n' ns => rw [h.outcome_eq, List.getLast?_cons_cons]
  reached := fun ho => congrArg (· + 1) (h.reached ho)

/-- A filter that has not passed is the last one. -/
theorem Coherent.stopped {n : NodeReport} (hindex : n.index = index)
    (hskipped : n.skipped = !node.enabled) (hstopped : n.status ≠ .passed) :
    Coherent index (node :: rest) [n] (.ofLast (some n)) where
  numbered := by
    intro i m hm
    obtain ⟨rfl, rfl⟩ : i = 0 ∧ n = m := by simpa [List.getElem?_singleton] using hm
    exact hindex
  skipped_eq := by
    intro i m node' hm hnode
    obtain ⟨rfl, rfl⟩ : i = 0 ∧ n = m := by simpa [List.getElem?_singleton] using hm
    cases hnode
    exact hskipped
  passed := fun _ hm => nomatch hm
  outcome_eq := rfl
  reached := by
    intro ho
    rw [PipelineOutcome.ofLast] at ho
    cases hstatus : n.status with
    | passed => exact absurd hstatus hstopped
    | failed => simp [hstatus] at ho
    | cancelled => simp [hstatus] at ho

theorem runFrom_coherent (hf : ∀ node ∈ nodes, node.filter.Reasoned) :
    Coherent index nodes (runFrom mode audited index nodes w).1.1
      (runFrom mode audited index nodes w).1.2 := by
  induction nodes generalizing index w with
  | nil =>
      exact {
        numbered := fun _ _ hn => nomatch hn
        skipped_eq := fun _ _ _ hn => nomatch hn
        passed := fun _ hn => nomatch hn
        outcome_eq := rfl
        reached := fun _ => rfl }
  | cons node rest ih =>
      have hrest := fun n hn => hf n (List.mem_cons_of_mem node hn)
      cases henabled : node.enabled with
      | false =>
          rw [runFrom_of_disabled henabled]
          exact (ih hrest).cons rfl (by rw [henabled]; rfl) rfl
      | true =>
          cases hlive : w.run.cancelled with
          | true =>
              rw [runFrom_of_cancelled henabled hlive]
              exact .stopped (n := NodeReport.blank index node.filter) rfl
                (by rw [henabled]; rfl) (fun h => nomatch h)
          | false =>
              obtain ⟨n, s, v, hrun, hskipped, hstatus⟩ := @run_shows node mode audited w
              have hskipped : (n.placed index).skipped = !node.enabled := by
                rw [henabled]
                exact hskipped
              have hstatus : (n.placed index).status = s := hstatus (hf node List.mem_cons_self)
              rw [runFrom_of_live henabled hlive, hrun]
              cases s with
              | passed => exact (ih hrest).cons rfl hskipped hstatus
              | failed =>
                  have hend : PipelineOutcome.ofLast (some (n.placed index)) = .failed index := by
                    rw [PipelineOutcome.ofLast, hstatus]
                    rfl
                  exact hend ▸ .stopped rfl hskipped (by simp [hstatus])
              | cancelled =>
                  have hend :
                      PipelineOutcome.ofLast (some (n.placed index)) = .cancelled index := by
                    rw [PipelineOutcome.ofLast, hstatus]
                    rfl
                  exact hend ▸ .stopped rfl hskipped (by simp [hstatus])

end PipelineNode

/-! ## Pipelines -/

namespace PipelineReport

/-- One report behind another; `count` filters stand in front of those of the second. -/
def followedBy (count : Nat) (first second : PipelineReport) : PipelineReport where
  name := first.name
  nodes := first.nodes ++ second.nodes.map (.renumber (count + ·))
  outcome := second.outcome.renumber (count + ·)

/-- The report without the filters that were passed over, `place` numbering those that are left. -/
def withoutSkipped (place : Nat → Nat) (r : PipelineReport) : PipelineReport where
  name := r.name
  nodes := (r.nodes.filter (!·.skipped)).map (.renumber place)
  outcome := r.outcome.renumber place

/-- What the reports of the filters of a pipeline and the outcome have to do with each other. -/
structure Coherent (r : PipelineReport) (nodes : List PipelineNode) : Prop where
  numbered : ∀ (i : Nat) (n : NodeReport), r.nodes[i]? = some n → n.index = i
  /-- What is reported as passed over are the disabled filters. -/
  skipped_eq : ∀ (i : Nat) (n : NodeReport) (node : PipelineNode),
    r.nodes[i]? = some n → nodes[i]? = some node → n.skipped = !node.enabled
  blameless : ∀ n ∈ r.nodes.dropLast, n.failures = []
  failed_iff : ∀ i, r.outcome = .failed i ↔
    ∃ n, r.nodes.getLast? = some n ∧ n.index = i ∧ n.failures ≠ []
  completed_iff : r.outcome = .completed ↔
    r.nodes.length = nodes.length ∧
      ∀ n, r.nodes.getLast? = some n → n.failures = [] ∧ n.isCancelled = false

end PipelineReport

namespace Pipeline

open Builtin

variable {p : Pipeline} {ps qs : List PipelineNode} {mode : Mode} {w : Workspace}

/-- The pipeline without its disabled filters. -/
def withoutDisabled (p : Pipeline) : Pipeline := { p with nodes := p.nodes.filter (·.enabled) }

/-- How many enabled filters stand in front of a place. -/
def rank (p : Pipeline) (i : Nat) : Nat := (p.nodes.take i).countP (·.enabled)

/-- Run one row of filters and, if it completes, another one in the workspace that it leaves. -/
def runInTurn (p : Pipeline) (mode : Mode) (ps qs : List PipelineNode) :
    Working PipelineReport := do
  let first ← { p with nodes := ps }.run mode
  if first.outcome = .completed then
    return first.followedBy ps.length (← { p with nodes := qs }.run mode)
  else return first

theorem run_apply : p.run mode w =
    (⟨p.name, (PipelineNode.runFrom mode p.audited 0 p.nodes w).1.1,
      (PipelineNode.runFrom mode p.audited 0 p.nodes w).1.2⟩,
      (PipelineNode.runFrom mode p.audited 0 p.nodes w).2) := rfl

theorem run_append (h : p.nodes = ps ++ qs) : p.run mode w = p.runInTurn mode ps qs w := by
  rw [run_apply, h, PipelineNode.runFrom_append, runInTurn, Working.bind_apply, run_apply]
  dsimp only
  rcases PipelineNode.runFrom mode p.audited 0 ps w with ⟨⟨ns, _ | _ | _⟩, v⟩
  · have hadd := @PipelineNode.runFrom_add mode p.audited 0 v qs ps.length
    rw [Nat.add_zero] at hadd
    dsimp only
    rw [Nat.zero_add, hadd]
    rfl
  · rfl
  · rfl

theorem run_withoutDisabled :
    p.withoutDisabled.run mode w =
      ((p.run mode w).1.withoutSkipped p.rank, (p.run mode w).2) := by
  have henabled := @PipelineNode.runFrom_enabled mode p.audited 0 w p.nodes 0 p.rank fun i => by
    rw [Nat.zero_add, Nat.zero_add, rank]
  rw [run_apply, run_apply, withoutDisabled]
  dsimp only
  rw [henabled]
  rfl

theorem run_coherent (hf : ∀ node ∈ p.nodes, node.filter.Reasoned) :
    (p.run mode w).1.Coherent p.nodes := by
  have h := @PipelineNode.runFrom_coherent mode p.audited 0 w p.nodes hf
  exact {
    numbered := fun i n hn => (h.numbered i n hn).trans (Nat.zero_add i)
    skipped_eq := h.skipped_eq
    blameless := fun n hn => (NodeReport.status_eq_passed_iff.mp (h.passed n hn)).1
    failed_iff := by
      intro i
      rw [run_apply, h.outcome_eq]
      exact PipelineOutcome.ofLast_eq_failed_iff
    completed_iff := by
      rw [run_apply]
      refine ⟨fun ho => ⟨h.reached ho, ?_⟩, fun ⟨_, hlast⟩ => ?_⟩
      · exact PipelineOutcome.ofLast_eq_completed_iff.mp (h.outcome_eq.symm.trans ho)
      · exact h.outcome_eq.trans (PipelineOutcome.ofLast_eq_completed_iff.mpr hlast) }

/--
A pipeline of built-in filters, run for good or tried out, from any workspace. Cut
in two it leaves the same tree and the same run, and reports the same, as its
first part and then, if that has completed, its second part from the workspace
that the first has left, whose filters count on from those of the first. Without
its disabled filters it leaves the same tree and the same run, and reports the
same of the other filters but for their places. And its reports tell where they
belong and how it ended.
-/
theorem compositional (hbuiltin : ∀ node ∈ p.nodes, node.filter ∈ filters) (mode : Mode)
    (w : Workspace) :
    (∀ ps qs, p.nodes = ps ++ qs → p.run mode w = p.runInTurn mode ps qs w) ∧
      p.withoutDisabled.run mode w =
        ((p.run mode w).1.withoutSkipped p.rank, (p.run mode w).2) ∧
      (p.run mode w).1.Coherent p.nodes :=
  ⟨fun _ _ h => run_append h, run_withoutDisabled,
    run_coherent fun node hnode => reasoned_of_mem (hbuiltin node hnode)⟩

/--
A survey that is cancelled upon the message that the array has been filled ends at
the second filter, whether the row is cut behind the first or behind the second.
-/
theorem compositional_survey :
    (∀ node ∈ survey.nodes, node.filter ∈ filters) ∧
      survey.nodes = survey.nodes.take 1 ++ survey.nodes.drop 1 ∧
      survey.run .execute ⟨.empty, ⟨false, some 1, 1, []⟩⟩ =
        survey.runInTurn .execute (survey.nodes.take 1) (survey.nodes.drop 1)
          ⟨.empty, ⟨false, some 1, 1, []⟩⟩ ∧
      (survey.run .execute ⟨.empty, ⟨false, some 1, 1, []⟩⟩).1.outcome = .cancelled 1 ∧
      (survey.withoutDisabled.run .execute ⟨.empty, .new 1⟩).2 =
        (survey.run .execute ⟨.empty, .new 1⟩).2 ∧
      (survey.run .execute ⟨.empty, .new 1⟩).1.outcome = .completed ∧
      (survey.run .execute ⟨.empty, .new 1⟩).1.Coherent survey.nodes := by
  have hbuiltin : ∀ node ∈ survey.nodes, node.filter ∈ filters := by
    simp [survey, filters]
  obtain ⟨hcut, -, -⟩ := compositional hbuiltin .execute ⟨.empty, ⟨false, some 1, 1, []⟩⟩
  obtain ⟨-, hdisabled, hcoherent⟩ := compositional hbuiltin .execute ⟨.empty, .new 1⟩
  exact ⟨hbuiltin, rfl, hcut _ _ rfl, rfl, by rw [hdisabled], rfl, hcoherent⟩

end Pipeline

end FilterTree
