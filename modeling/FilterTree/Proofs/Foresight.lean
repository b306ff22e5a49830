import FilterTree.Pipeline.Basic
import FilterTree.Proofs.Audit
import FilterTree.Proofs.Bodies
import FilterTree.Proofs.Selection

/-!
# What a trial run foresees

A trial run of a pipeline and a run for good go through the same filters on
trees with the same shell. A filter is `Predictable` when its plan depends on
nothing else, when the selections that last pass the second check after the
filter's own actions, and when its body only writes elements. Then the two runs
agree in all they plan, and everything that the run for good does beyond the
trial run goes well, except that a body may fail (`FailsInBody`).

The induction is over the filters of the pipeline. What it carries from one
filter to the next is that both trees are well-formed and have the same shell.
The audit finds nothing in a well-formed tree, so it does not matter that the
trees differ in elements.
-/

namespace FilterTree

namespace Report

variable {α β : Type} {r : Report α}

theorem andThen_eq_ok {f : α → Report β} {b : β} :
    (r.andThen f).outcome = .ok b ↔ ∃ a, r.outcome = .ok a ∧ (f a).outcome = .ok b := by
  rw [andThen]
  cases r.outcome with
  | error fs => exact ⟨fun h => (nomatch h), fun ⟨_, h, _⟩ => (nomatch h)⟩
  | ok a => exact ⟨fun h => ⟨a, rfl, h⟩, fun ⟨_, ha, h⟩ => by cases ha; exact h⟩

theorem map_eq_ok {f : α → β} {b : β} :
    (r.map f).outcome = .ok b ↔ ∃ a, r.outcome = .ok a ∧ f a = b := by
  rw [map, check_map_eq_ok]

theorem ofExcept_eq_ok {r : Except Failure α} {a : α} :
    (ofExcept r).outcome = .ok a ↔ r = .ok a := by
  cases r with
  | error e => exact ⟨fun h => (nomatch h), fun h => (nomatch h)⟩
  | ok b => exact ⟨fun h => congrArg _ (Except.ok.inj h), fun h => congrArg _ (Except.ok.inj h)⟩

end Report

/-! ## Workings as functions of the workspace -/

namespace Working

variable {α β : Type} {w : Workspace}

theorem bind_apply {m : Working α} {k : α → Working β} : (m >>= k) w = k (m w).1 (m w).2 := rfl

theorem tree_apply : Working.tree w = (w.tree, w) := rfl

theorem isCancelled_apply : Working.isCancelled w = (w.run.cancelled, w) := rfl

theorem applyBatch_apply {mode : Mode} {b : Batch} :
    Filter.applyBatch mode b w =
      ((b.apply mode w.tree).1, { w with tree := (b.apply mode w.tree).2 }) := rfl

theorem auditIf_apply {audited : Bool} :
    PipelineNode.auditIf audited w = (if audited then w.tree.audit else .ok (), w) := rfl

end Working

/-! ## Filters -/

namespace Filter

variable {f : Filter} {args bound : Arguments} {t t' u : Tree} {run : Run}

theorem gate_eq_ok {check : Arguments → Tree → Report Unit} :
    (f.gate check args t).outcome = .ok bound ↔
      (f.schema.bind args).outcome = .ok bound ∧ (check bound t).outcome = .ok () := by
  rw [gate, Report.andThen_eq_ok]
  constructor
  · rintro ⟨b, hb, hcheck⟩
    obtain ⟨⟨⟩, hok, rfl⟩ := Report.map_eq_ok.mp hcheck
    exact ⟨hb, hok⟩
  · rintro ⟨hb, hok⟩
    exact ⟨bound, hb, Report.map_eq_ok.mpr ⟨(), hok, rfl⟩⟩

/-- Behind its gate the filter has planned for `t`, and `u` is what its actions made of that. -/
structure ActedOn (f : Filter) (bound : Arguments) (t u : Tree) : Prop where
  wellFormed : t.WellFormed
  checked : (f.schema.checkBefore bound t).outcome = .ok ()
  acted : ∃ plan batch, f.plan t bound = pure plan ∧ plan.actions.outcome = .ok batch ∧
    batch.apply .execute t = (.ok (), u)

/-- A filter of which a trial run shows all but whether the body fails. -/
structure Predictable (f : Filter) : Prop where
  /-- Planning sends no messages. -/
  silent : ∀ t bound, ∃ plan, f.plan t bound = pure plan
  /-- Planning looks at no elements. -/
  blind : ∀ t bound, f.plan t.shell bound = f.plan t bound
  /-- The filter's own actions leave what its body is going to look for. -/
  lasting : ∀ {bound t u}, f.ActedOn bound t u → (f.schema.checkAfter bound u).outcome = .ok ()
  /-- The body writes elements, and it says that it was cancelled only if it was. -/
  refills : ∀ {bound t u run}, f.ActedOn bound t u →
    Workspace.Refilled ⟨u, run⟩ (f.body bound ⟨u, run⟩).2 ∧
      ((f.body bound ⟨u, run⟩).1.outcome = .ok .cancelled →
        (f.body bound ⟨u, run⟩).2.run.cancelled = true)

/-- After the filter's own actions its body cannot fail. -/
def Infallible (f : Filter) : Prop :=
  ∀ ⦃bound t u run failures⦄, f.ActedOn bound t u →
    (f.body bound ⟨u, run⟩).1.outcome ≠ .error failures

theorem ActedOn.wellFormed_after (h : f.ActedOn bound t u) : u.WellFormed := by
  obtain ⟨plan, batch, -, -, happly⟩ := h.acted
  exact (Batch.carries_of_apply h.wellFormed happly).wellFormed h.wellFormed

/-- A predictable filter plans the same for trees with the same shell, and sends nothing. -/
theorem Predictable.preflight_spec (hf : f.Predictable) (h : t.shell = t'.shell) :
    ∃ plan : Plan, f.preflight t args = pure plan ∧ f.preflight t' args = pure plan ∧
      ∀ batch, plan.actions.outcome = .ok batch → ∃ bound,
        (f.schema.bind args).outcome = .ok bound ∧
        (f.schema.checkBefore bound t').outcome = .ok () ∧
        ∃ plan, f.plan t' bound = pure plan ∧ plan.actions.outcome = .ok batch := by
  have hgate : f.gate f.schema.checkBefore args t = f.gate f.schema.checkBefore args t' := by
    rw [gate, gate]
    simp only [Schema.checkBefore_congr h]
  simp only [preflight, hgate]
  cases hbound : (f.gate f.schema.checkBefore args t').outcome with
  | error failures => exact ⟨_, rfl, rfl, fun batch hok => (nomatch hok)⟩
  | ok bound =>
      obtain ⟨hbind, hchecked⟩ := gate_eq_ok.mp hbound
      obtain ⟨plan, hplan⟩ := hf.silent t' bound
      have hsame : f.plan t bound = pure plan := by rw [← hf.blind, h, hf.blind, hplan]
      dsimp only
      rw [hsame, hplan]
      exact ⟨_, rfl, rfl, fun batch hok => ⟨bound, hbind, hchecked, plan, hplan, hok⟩⟩

/-- Behind its gate the body does what it does, and the gate adds only warnings. -/
theorem execute_eq {w : Workspace}
    (hgate : (f.gate f.schema.checkAfter args w.tree).outcome = .ok bound) :
    f.execute args w =
      ({ (f.body bound w).1 with
        warnings := (f.gate f.schema.checkAfter args w.tree).warnings ++
          (f.body bound w).1.warnings }, (f.body bound w).2) := by
  simp only [execute, Working.bind_apply, Working.tree_apply, hgate]
  rfl

end Filter

/-! ## One filter of a pipeline -/

namespace PipelineNode

variable {node : PipelineNode} {mode : Mode} {audited : Bool} {index : Nat} {w : Workspace}
  {plan : Plan} {batch : Batch} {u : Tree}

/-- The report of a filter that has planned. -/
def planned (node : PipelineNode) (index : Nat) (plan : Plan) : NodeReport :=
  { NodeReport.blank index node.filter with advice := plan.advice }.absorb plan.actions

/-- The report of a filter whose actions are known. -/
def acting (node : PipelineNode) (index : Nat) (plan : Plan) (batch : Batch) : NodeReport :=
  { node.planned index plan with actions := some batch }

variable {run : Run}

theorem sending_preflight
    (hplan : node.filter.preflight w.tree node.arguments w.run = (plan, run)) :
    Working.sending (node.filter.preflight w.tree node.arguments) w = (plan, ⟨w.tree, run⟩) := by
  rw [Working.sending, hplan]

theorem run_of_refused {failures : List Failure}
    (hplan : node.filter.preflight w.tree node.arguments w.run = (plan, run))
    (hout : plan.actions.outcome = .error failures) :
    node.run mode audited index w = ((node.planned index plan, .failed), ⟨w.tree, run⟩) := by
  simp only [PipelineNode.run, Working.bind_apply, Working.tree_apply, sending_preflight hplan,
    hout]
  rfl

theorem run_of_rejected {e : BatchError}
    (hplan : node.filter.preflight w.tree node.arguments w.run = (plan, run))
    (hout : plan.actions.outcome = .ok batch) (happly : batch.apply mode w.tree = (.error e, u)) :
    node.run mode audited index w =
      (((node.acting index plan batch).addFailure e.failure, .failed), ⟨u, run⟩) := by
  simp only [PipelineNode.run, Working.bind_apply, Working.tree_apply, sending_preflight hplan,
    hout, Working.applyBatch_apply, happly]
  rfl

theorem run_of_unsound {e : TreeError}
    (hplan : node.filter.preflight w.tree node.arguments w.run = (plan, run))
    (hout : plan.actions.outcome = .ok batch) (happly : batch.apply mode w.tree = (.ok (), u))
    (haudit : (if audited then u.audit else .ok ()) = .error e) :
    node.run mode audited index w =
      (((node.acting index plan batch).addFailure (.ofTree e), .failed), ⟨u, run⟩) := by
  simp only [PipelineNode.run, Working.bind_apply, Working.tree_apply, sending_preflight hplan,
    hout, Working.applyBatch_apply, happly, Working.auditIf_apply, haudit]
  rfl

theorem run_of_tried (hplan : node.filter.preflight w.tree node.arguments w.run = (plan, run))
    (hout : plan.actions.outcome = .ok batch) (happly : batch.apply .preflight w.tree = (.ok (), u))
    (haudit : (if audited then u.audit else .ok ()) = .ok ()) :
    node.run .preflight audited index w = ((node.acting index plan batch, .passed), ⟨u, run⟩) := by
  simp only [PipelineNode.run, Working.bind_apply, Working.tree_apply, sending_preflight hplan,
    hout, Working.applyBatch_apply, happly, Working.auditIf_apply, haudit]
  rfl

theorem run_of_applied (hplan : node.filter.preflight w.tree node.arguments w.run = (plan, run))
    (hout : plan.actions.outcome = .ok batch) (happly : batch.apply .execute w.tree = (.ok (), u))
    (haudit : (if audited then u.audit else .ok ()) = .ok ()) :
    node.run .execute audited index w = node.runBody (node.acting index plan batch) ⟨u, run⟩ := by
  simp only [PipelineNode.run, Working.bind_apply, Working.tree_apply, sending_preflight hplan,
    hout, Working.applyBatch_apply, happly, Working.auditIf_apply, haudit]
  rfl

theorem audited_eq_ok (h : u.audit = .ok ()) : (if audited then u.audit else .ok ()) = .ok () := by
  rw [h, ite_self]

/--
Binding, checks, plan, actions and audit of a filter go well, those of the
second gate too, and then its body fails.
-/
def FailsInBody (node : PipelineNode) (audited : Bool) (w : Workspace) : Prop :=
  ∃ plan run batch u bound failures,
    node.filter.preflight w.tree node.arguments w.run = (plan, run) ∧
    plan.actions.outcome = .ok batch ∧
    batch.apply .execute w.tree = (.ok (), u) ∧
    (audited = true → u.audit = .ok ()) ∧
    (node.filter.gate node.filter.schema.checkAfter node.arguments u).outcome = .ok bound ∧
    (node.filter.body bound ⟨u, run⟩).1.outcome = .error failures

/-- What can become of the body of a predictable filter. -/
theorem runBody_spec {t : Tree} {run : Run} {bound : Arguments} {report : NodeReport}
    (hf : node.filter.Predictable) (hacted : node.filter.ActedOn bound t u)
    (hgate : (node.filter.gate node.filter.schema.checkAfter node.arguments u).outcome =
      .ok bound) :
    ∃ report' status v, node.runBody report ⟨u, run⟩ = ((report', status), v) ∧
      report'.actions = report.actions ∧ report'.advice = report.advice ∧
      Workspace.Refilled ⟨u, run⟩ v ∧
      (status = .passed ∨
        status = .failed ∧ (∃ failures,
          (node.filter.body bound ⟨u, run⟩).1.outcome = .error failures) ∨
        status = .cancelled ∧ v.run.cancelled = true) := by
  have hexecute := Filter.execute_eq (w := ⟨u, run⟩) hgate
  obtain ⟨hrefilled, hcancelled⟩ := @Filter.Predictable.refills _ hf _ _ _ run hacted
  rcases hbody : node.filter.body bound ⟨u, run⟩ with ⟨⟨outcome, warnings⟩, v⟩
  rw [hbody] at hexecute hrefilled hcancelled
  simp only [runBody, Working.bind_apply, hexecute]
  rcases outcome with failures | _ | _
  · exact ⟨_, _, v, rfl, rfl, rfl, hrefilled, .inr (.inl ⟨rfl, failures, rfl⟩)⟩
  · exact ⟨_, _, v, rfl, rfl, rfl, hrefilled, .inl rfl⟩
  · exact ⟨_, _, v, rfl, rfl, rfl, hrefilled, .inr (.inr ⟨rfl, hcancelled rfl⟩)⟩

/-- How a filter ends in a trial run and in a run for good: status and what is left, of each. -/
inductive Ends (node : PipelineNode) (audited : Bool) (w : Workspace) :
    NodeStatus → Tree → NodeStatus → Workspace → Prop where
  | passed {t : Tree} {v : Workspace} (h : v.tree.WellFormed) (hshell : t.shell = v.tree.shell) :
      Ends node audited w .passed t .passed v
  | failed {t : Tree} {v : Workspace} : Ends node audited w .failed t .failed v
  | inBody {t : Tree} {v : Workspace} (hfails : node.FailsInBody audited w)
      (hfallible : ¬ node.filter.Infallible) : Ends node audited w .passed t .failed v
  | cancelled {t : Tree} {v : Workspace} (h : v.run.cancelled = true) :
      Ends node audited w .passed t .cancelled v

/-- The step of the induction: one filter on trees with the same shell. -/
theorem run_foreseen {w' : Workspace} (hf : node.filter.Predictable) (h : w.tree.WellFormed)
    (h' : w'.tree.WellFormed) (hshell : w.tree.shell = w'.tree.shell) :
    ∃ n s t m s' v, node.run .preflight audited index w = ((n, s), ⟨t, w.run⟩) ∧
      node.run .execute audited index w' = ((m, s'), v) ∧ (s = .passed → t.WellFormed) ∧
      w'.run.Continues v.run ∧ n.actions = m.actions ∧ n.advice = m.advice ∧
      node.Ends audited w' s t s' v := by
  obtain ⟨plan, hplan, hplan', hspec⟩ :=
    @Filter.Predictable.preflight_spec _ node.arguments _ _ hf hshell
  have hplan := congrFun hplan w.run
  have hplan' := congrFun hplan' w'.run
  cases hout : plan.actions.outcome with
  | error failures =>
      exact ⟨_, _, w.tree, _, _, w', run_of_refused hplan hout, run_of_refused hplan' hout,
        (nomatch ·), .refl, rfl, rfl, .failed⟩
  | ok batch =>
      obtain ⟨bound, hbind, hchecked, q, hq, hqout⟩ := hspec batch hout
      obtain ⟨hresult, htree⟩ :=
        @Batch.applyFrom_alike .preflight .execute w.tree w'.tree 0 batch hshell
      rcases hon : batch.apply .preflight w.tree with ⟨r, t⟩
      rcases hon' : batch.apply .execute w'.tree with ⟨r', u⟩
      rw [← Batch.apply, ← Batch.apply, hon, hon'] at hresult htree
      dsimp only at hresult htree
      subst hresult
      rcases r with e | ⟨⟩
      · exact ⟨_, _, t, _, _, _, run_of_rejected hplan hout hon, run_of_rejected hplan' hout hon',
          (nomatch ·), .refl, rfl, rfl, .failed⟩
      · have hacted : node.filter.ActedOn bound w'.tree u :=
          ⟨h', hchecked, q, batch, hq, hqout, hon'⟩
        have ht := (Batch.carries_of_apply h hon).wellFormed h
        have hu := hacted.wellFormed_after
        have hgate := Filter.gate_eq_ok.mpr ⟨hbind, hf.lasting hacted⟩
        obtain ⟨m, s', v, hbody, hactions, hadvice, hrefilled, hend⟩ :=
          @runBody_spec node u _ w'.run _ (node.acting index plan batch) hf hacted hgate
        refine ⟨_, _, t, m, s', v, run_of_tried hplan hout hon (audited_eq_ok ht.audit_eq_ok),
          (run_of_applied hplan' hout hon' (audited_eq_ok hu.audit_eq_ok)).trans hbody, fun _ => ht,
          hrefilled.continues, hactions.symm, hadvice.symm, ?_⟩
        rcases hend with rfl | ⟨rfl, failures, hfails⟩ | ⟨rfl, hcancelled⟩
        · exact .passed hrefilled.wellFormed (htree.trans hrefilled.shell_eq.symm)
        · refine .inBody ⟨plan, w'.run, batch, u, bound, failures, hplan', hout, hon',
            fun _ => hu.audit_eq_ok, hgate, hfails⟩ fun hsafe => ?_
          exact hsafe hacted hfails
        · exact .cancelled hcancelled

/-! ## Filters in a row -/

variable {rest : List PipelineNode}

theorem runFrom_of_disabled (h : node.enabled = false) :
    runFrom mode audited index (node :: rest) w =
      (({ NodeReport.blank index node.filter with skipped := true } ::
          (runFrom mode audited (index + 1) rest w).1.1,
        (runFrom mode audited (index + 1) rest w).1.2),
        (runFrom mode audited (index + 1) rest w).2) := by
  simp only [runFrom, h, Bool.not_false, if_true]
  rfl

theorem runFrom_of_cancelled (h : node.enabled = true) (hcancelled : w.run.cancelled = true) :
    runFrom mode audited index (node :: rest) w =
      (([NodeReport.blank index node.filter], .cancelled index), w) := by
  simp only [runFrom, h, Bool.not_true, Bool.false_eq_true, if_false, Working.bind_apply,
    Working.isCancelled_apply, hcancelled, if_true]
  rfl

theorem runFrom_of_live (h : node.enabled = true) (hlive : w.run.cancelled = false) :
    runFrom mode audited index (node :: rest) w =
      match node.run mode audited index w with
      | ((n, .passed), v) =>
        ((n :: (runFrom mode audited (index + 1) rest v).1.1,
          (runFrom mode audited (index + 1) rest v).1.2),
          (runFrom mode audited (index + 1) rest v).2)
      | ((n, .failed), v) => (([n], .failed index), v)
      | ((n, .cancelled), v) => (([n], .cancelled index), v) := by
  simp only [runFrom, h, Bool.not_true, Bool.false_eq_true, if_false, Working.bind_apply,
    Working.isCancelled_apply, hlive]
  rcases node.run mode audited index w with ⟨⟨n, _ | _ | _⟩, v⟩ <;> rfl

theorem live_of_runFrom (h : node.enabled = true) {r : List NodeReport × PipelineOutcome}
    {v : Workspace} (hrun : runFrom mode audited index (node :: rest) w = (r, v))
    (hlive : v.run.cancelled = false) : w.run.cancelled = false := by
  cases hstart : w.run.cancelled with
  | false => rfl
  | true =>
      rw [runFrom_of_cancelled h hstart] at hrun
      cases hrun
      cases hstart.symm.trans hlive

/-- A pipeline fails at one of its filters. -/
theorem le_of_runFrom_failed {nodes : List PipelineNode} {k : Nat}
    (h : (runFrom mode audited index nodes w).1.2 = .failed k) : index ≤ k := by
  induction nodes generalizing index w with
  | nil => cases h
  | cons node rest ih =>
      cases henabled : node.enabled with
      | false =>
          rw [runFrom_of_disabled henabled] at h
          exact Nat.le_of_succ_le (ih h)
      | true =>
          cases hlive : w.run.cancelled with
          | true =>
              rw [runFrom_of_cancelled henabled hlive] at h
              cases h
          | false =>
              rw [runFrom_of_live henabled hlive] at h
              split at h
              · exact Nat.le_of_succ_le (ih h)
              · cases h
                exact Nat.le_refl _
              · cases h

/-- How a pipeline ends in a trial run and in a run for good from `w`: outcome and tree of each. -/
inductive Foreseen (audited : Bool) (index : Nat) (nodes : List PipelineNode) (w : Workspace) :
    PipelineOutcome → Tree → PipelineOutcome → Tree → Prop where
  | completed {t t' : Tree} (hshell : t.shell = t'.shell) :
      Foreseen audited index nodes w .completed t .completed t'
  | failed {t t' : Tree} {k : Nat} : Foreseen audited index nodes w (.failed k) t (.failed k) t'
  | inBody {outcome : PipelineOutcome} {t t' : Tree} {i : Nat} {node : PipelineNode}
      {reports : List NodeReport} {v : Workspace}
      (hlater : ∀ k, outcome = .failed k → index + i ≤ k)
      (hnode : nodes[i]? = some node)
      (hbefore : runFrom .execute audited index (nodes.take i) w = ((reports, .completed), v))
      (hfails : node.FailsInBody audited v) (hfallible : ¬ node.filter.Infallible) :
      Foreseen audited index nodes w outcome t (.failed (index + i)) t'

/-- Reports at the same place show the same actions and the same advice. -/
def SamePlans (ns ms : List NodeReport) : Prop :=
  ∀ (i : Nat) (n m : NodeReport), ns[i]? = some n → ms[i]? = some m →
    n.actions = m.actions ∧ n.advice = m.advice

theorem SamePlans.cons {n m : NodeReport} {ns ms : List NodeReport} (h : SamePlans ns ms)
    (hactions : n.actions = m.actions) (hadvice : n.advice = m.advice) :
    SamePlans (n :: ns) (m :: ms) := by
  intro i n' m' hn hm
  cases i with
  | zero =>
      cases hn
      cases hm
      exact ⟨hactions, hadvice⟩
  | succ i => exact h i n' m' hn hm

theorem SamePlans.nil_right {ns : List NodeReport} : SamePlans ns [] :=
  fun _ _ _ _ hm => (nomatch hm)

/-- One more filter in front, which lets both runs pass on. -/
theorem Foreseen.cons {nodes : List PipelineNode} {w' : Workspace} {o o' : PipelineOutcome}
    {t t' : Tree} (h : Foreseen audited (index + 1) nodes w' o t o' t')
    (hpass : ∀ nodes reports v,
      runFrom .execute audited (index + 1) nodes w' = ((reports, .completed), v) →
      ∃ reports, runFrom .execute audited index (node :: nodes) w = ((reports, .completed), v)) :
    Foreseen audited index (node :: nodes) w o t o' t' := by
  cases h with
  | completed hshell => exact .completed hshell
  | failed => exact .failed
  | @inBody _ _ _ i _ _ _ hlater hnode hbefore hfails hfallible =>
      obtain ⟨reports, hbefore⟩ := hpass _ _ _ hbefore
      rw [Nat.add_right_comm index 1 i] at hlater ⊢
      exact @Foreseen.inBody _ _ _ _ _ _ _ (i + 1) _ reports _ hlater hnode hbefore hfails hfallible

/--
A trial run and a run for good on trees with the same shell, neither of which
is ever cancelled: they plan the same, and if they do not end the same the run
for good has failed earlier, in a body.
-/
theorem runFrom_foreseen {nodes : List PipelineNode} {w w' v v' : Workspace}
    {ns ms : List NodeReport} {o o' : PipelineOutcome}
    (hf : ∀ node ∈ nodes, node.filter.Predictable) (h : w.tree.WellFormed)
    (h' : w'.tree.WellFormed) (hshell : w.tree.shell = w'.tree.shell)
    (htried : runFrom .preflight audited index nodes w = ((ns, o), v))
    (hrun : runFrom .execute audited index nodes w' = ((ms, o'), v'))
    (hlive : v.run.cancelled = false) (hlive' : v'.run.cancelled = false) :
    SamePlans ns ms ∧ Foreseen audited index nodes w' o v.tree o' v'.tree := by
  induction nodes generalizing index w w' ns ms with
  | nil =>
      cases htried
      cases hrun
      exact ⟨SamePlans.nil_right, .completed hshell⟩
  | cons node rest ih =>
      have hrest := fun n hn => hf n (List.mem_cons_of_mem node hn)
      cases henabled : node.enabled with
      | false =>
          rw [runFrom_of_disabled henabled] at htried hrun
          cases htried
          cases hrun
          obtain ⟨hplans, hend⟩ := ih hrest h h' hshell rfl rfl
          refine ⟨hplans.cons rfl rfl, hend.cons fun nodes reports v hv => ?_⟩
          rw [runFrom_of_disabled henabled, hv]
          exact ⟨_, rfl⟩
      | true =>
          have hstart := live_of_runFrom henabled htried hlive
          have hstart' := live_of_runFrom henabled hrun hlive'
          obtain ⟨n, s, t, m, s', u, htry, hdo, ht, -, hactions, hadvice, hends⟩ :=
            @run_foreseen node audited index w w' (hf node List.mem_cons_self) h h' hshell
          rw [runFrom_of_live henabled hstart, htry] at htried
          rw [runFrom_of_live henabled hstart', hdo] at hrun
          cases hends with
          | passed hu hsame =>
              cases htried
              cases hrun
              obtain ⟨hplans, hend⟩ := @ih _ ⟨t, w.run⟩ u _ _ hrest (ht rfl) hu hsame rfl rfl
              refine ⟨hplans.cons hactions hadvice, hend.cons fun nodes reports v hv => ?_⟩
              rw [runFrom_of_live henabled hstart', hdo]
              dsimp only
              rw [hv]
              exact ⟨_, rfl⟩
          | failed =>
              cases htried
              cases hrun
              exact ⟨SamePlans.nil_right.cons hactions hadvice, .failed⟩
          | inBody hfails hfallible =>
              cases htried
              cases hrun
              refine ⟨SamePlans.nil_right.cons hactions hadvice, @Foreseen.inBody
                _ _ _ _ _ _ _ 0 node [] w' (fun k hk => ?_) rfl rfl hfails hfallible⟩
              exact Nat.le_of_succ_le (le_of_runFrom_failed hk)
          | cancelled hcancelled =>
              cases hrun
              cases hcancelled.symm.trans hlive'

/-- A trial run sends no messages. -/
theorem run_of_runFrom_preflight {nodes : List PipelineNode}
    (hf : ∀ node ∈ nodes, node.filter.Predictable) (h : w.tree.WellFormed) :
    (runFrom .preflight audited index nodes w).2.run = w.run := by
  induction nodes generalizing index w with
  | nil => rfl
  | cons node rest ih =>
      have hrest := fun n hn => hf n (List.mem_cons_of_mem node hn)
      cases henabled : node.enabled with
      | false =>
          rw [runFrom_of_disabled henabled]
          exact ih hrest h
      | true =>
          cases hstart : w.run.cancelled with
          | true => rw [runFrom_of_cancelled henabled hstart]
          | false =>
              obtain ⟨n, s, t, _, _, _, htry, _, ht, _⟩ :=
                @run_foreseen node audited index w w (hf node List.mem_cons_self) h h rfl
              rw [runFrom_of_live henabled hstart, htry]
              cases s with
              | passed => exact @ih _ ⟨t, w.run⟩ hrest (ht rfl)
              | failed | cancelled => rfl

/-- Of a run for good the run is left with more messages, and nothing else. -/
theorem runFrom_execute_continues {nodes : List PipelineNode}
    (hf : ∀ node ∈ nodes, node.filter.Predictable) (h : w.tree.WellFormed) :
    w.run.Continues (runFrom .execute audited index nodes w).2.run := by
  induction nodes generalizing index w with
  | nil => exact .refl
  | cons node rest ih =>
      have hrest := fun n hn => hf n (List.mem_cons_of_mem node hn)
      cases henabled : node.enabled with
      | false =>
          rw [runFrom_of_disabled henabled]
          exact ih hrest h
      | true =>
          cases hstart : w.run.cancelled with
          | true =>
              rw [runFrom_of_cancelled henabled hstart]
              exact .refl
          | false =>
              obtain ⟨_, _, _, m, s', v, _, hdo, _, hcontinues, _, _, hends⟩ :=
                @run_foreseen node audited index w w (hf node List.mem_cons_self) h h rfl
              rw [runFrom_of_live henabled hstart, hdo]
              cases hends with
              | passed hv => exact hcontinues.trans (ih hrest hv)
              | failed | inBody | cancelled => exact hcontinues

end PipelineNode

/-! ## Pipelines -/

namespace Pipeline

variable {p : Pipeline} {t : Tree} {run run' : Run}

/-- What a trial run leaves of its copy of a tree. -/
def scratch (p : Pipeline) (t : Tree) (run : Run) : Tree := ((p.run .preflight).run ⟨t, run⟩).2.tree

/-- Nobody cancels a run that is not cancelled at its beginning and whose receiver never does. -/
theorem live_of_undisturbed (hf : ∀ node ∈ p.nodes, node.filter.Predictable) (h : t.WellFormed)
    (hstart : run.cancelled = false) (hnone : run.cancelAfter = none) :
    (p.preflight t run).2.cancelled = false ∧
      (p.execute.run ⟨t, run⟩).2.run.cancelled = false := by
  constructor
  · have htried := @PipelineNode.run_of_runFrom_preflight p.audited 0 ⟨t, run⟩ p.nodes hf h
    exact (congrArg Run.cancelled htried).trans hstart
  · have hcontinues := @PipelineNode.runFrom_execute_continues p.audited 0 ⟨t, run⟩ p.nodes hf h
    exact hcontinues.undisturbed hstart hnone

/-- What a trial run of predictable filters shows of a run for good. -/
theorem foreseen (hf : ∀ node ∈ p.nodes, node.filter.Predictable) (h : t.WellFormed)
    (hlive : (p.preflight t run).2.cancelled = false)
    (hlive' : (p.execute.run ⟨t, run'⟩).2.run.cancelled = false) :
    PipelineNode.SamePlans (p.preflight t run).1.nodes (p.execute.run ⟨t, run'⟩).1.nodes ∧
      PipelineNode.Foreseen p.audited 0 p.nodes ⟨t, run'⟩ (p.preflight t run).1.outcome
        (p.scratch t run) (p.execute.run ⟨t, run'⟩).1.outcome (p.execute.run ⟨t, run'⟩).2.tree :=
  PipelineNode.runFrom_foreseen (w := ⟨t, run⟩) hf h h rfl rfl rfl hlive hlive'

end Pipeline

end FilterTree
