import FilterTree.Proofs.Builtins

/-!
# An audit changes nothing

A pipeline that audits the tree after the actions of each filter fails where the
audit finds a link or a size wrong. With filters whose bodies only write elements
that never happens, and so it cannot be told from a report, or from the tree that
is left, whether there were audits at all.

The audit is made on what a batch has left of a well-formed tree. Whatever
actions the batch is made of, that tree is well-formed, and an audit has nothing
to say about it (`WellFormed.audit_eq_ok`). The rest is an induction over the
filters, which has to carry that the next filter begins on a well-formed tree:
that is so after a filter that has passed, in a trial run as in a run for good.
-/

namespace FilterTree

namespace PipelineNode

variable {node : PipelineNode} {mode : Mode} {audited : Bool} {index : Nat} {w v : Workspace}

/-- The step: one filter runs the same whether or not the tree is audited after its actions. -/
theorem run_audited (hf : node.filter.Predictable) (h : w.tree.WellFormed) :
    node.run mode true index w = node.run mode false index w := by
  obtain ⟨plan, hplan, -, -⟩ :=
    @Filter.Predictable.preflight_spec _ node.arguments w.tree w.tree hf rfl
  have hplan := congrFun hplan w.run
  cases hout : plan.actions.outcome with
  | error failures => rw [run_of_refused hplan hout, run_of_refused hplan hout]
  | ok batch =>
      rcases happly : batch.apply mode w.tree with ⟨e | ⟨⟩, u⟩
      · rw [run_of_rejected hplan hout happly, run_of_rejected hplan hout happly]
      · have hu := (Batch.carries_of_apply h happly).wellFormed h
        cases mode with
        | preflight =>
            rw [run_of_tried hplan hout happly (audited_eq_ok hu.audit_eq_ok),
              run_of_tried hplan hout happly (audited_eq_ok hu.audit_eq_ok)]
        | execute =>
            rw [run_of_applied hplan hout happly (audited_eq_ok hu.audit_eq_ok),
              run_of_applied hplan hout happly (audited_eq_ok hu.audit_eq_ok)]

/-- A filter that has passed leaves a well-formed tree to the next one. -/
theorem wellFormed_of_passed (hf : node.filter.Predictable) (h : w.tree.WellFormed)
    {report : NodeReport} (hrun : node.run mode audited index w = ((report, .passed), v)) :
    v.tree.WellFormed := by
  obtain ⟨n, s, t, m, s', u, htried, hdone, ht, -, -, -, hends⟩ :=
    @run_foreseen node audited index w w hf h h rfl
  cases mode with
  | preflight =>
      cases htried.symm.trans hrun
      exact ht rfl
  | execute =>
      cases hdone.symm.trans hrun
      cases hends with
      | passed hu => exact hu

/-- Filters in a row run the same with audits and without. -/
theorem runFrom_audited {nodes : List PipelineNode}
    (hf : ∀ node ∈ nodes, node.filter.Predictable) (h : w.tree.WellFormed) :
    runFrom mode true index nodes w = runFrom mode false index nodes w := by
  induction nodes generalizing index w with
  | nil => rfl
  | cons node rest ih =>
      have hnode := hf node List.mem_cons_self
      have hrest := fun n hn => hf n (List.mem_cons_of_mem node hn)
      cases henabled : node.enabled with
      | false => rw [runFrom_of_disabled henabled, runFrom_of_disabled henabled, ih hrest h]
      | true =>
          cases hlive : w.run.cancelled with
          | true => rw [runFrom_of_cancelled henabled hlive, runFrom_of_cancelled henabled hlive]
          | false =>
              rw [runFrom_of_live henabled hlive, runFrom_of_live henabled hlive,
                run_audited hnode h]
              rcases hrun : node.run mode false index w with ⟨⟨n, _ | _ | _⟩, v⟩
              · -- only here does another filter follow
                have hv := wellFormed_of_passed hnode h hrun
                simp only [ih hrest hv]
              · rfl
              · rfl

end PipelineNode

namespace Pipeline

open Builtin

variable {p : Pipeline} {t : Tree}

/-- A pipeline of predictable filters runs the same with audits and without. -/
theorem run_audited (mode : Mode) (hf : ∀ node ∈ p.nodes, node.filter.Predictable)
    (h : t.WellFormed) (run : Run) :
    ({ p with audited := true }.run mode).run ⟨t, run⟩ =
      ({ p with audited := false }.run mode).run ⟨t, run⟩ := by
  show (PipelineNode.runFrom mode true 0 p.nodes >>= _) _ =
    (PipelineNode.runFrom mode false 0 p.nodes >>= _) _
  rw [Working.bind_apply, Working.bind_apply, PipelineNode.runFrom_audited hf h]

/--
Whether the tree is audited after the actions of each filter makes no difference
to a pipeline of built-in filters on a well-formed tree: run for good it gives
the same report, sends the same messages and leaves the same tree, and so it does
tried out, in which case the tree that is left is the copy.
-/
theorem audit_invisible (hbuiltin : ∀ node ∈ p.nodes, node.filter ∈ filters) (h : t.WellFormed)
    (run : Run) :
    { p with audited := true }.execute.run ⟨t, run⟩ =
        { p with audited := false }.execute.run ⟨t, run⟩ ∧
      { p with audited := true }.preflight t run = { p with audited := false }.preflight t run ∧
      { p with audited := true }.scratch t run = { p with audited := false }.scratch t run := by
  have hf := fun node hnode => predictable_of_mem (hbuiltin node hnode)
  have htried := run_audited .preflight hf h run
  refine ⟨run_audited .execute hf h run, ?_, ?_⟩
  · rw [preflight, preflight, htried]
  · rw [scratch, scratch, htried]

/-- With audits and without, the survey completes and leaves the same tree, and so it is foreseen. -/
theorem audit_invisible_survey :
    (∀ node ∈ survey.nodes, node.filter ∈ filters) ∧ Tree.empty.WellFormed ∧
      survey.audited = true ∧
      survey.execute.run ⟨.empty, .new 1⟩ =
        { survey with audited := false }.execute.run ⟨.empty, .new 1⟩ ∧
      survey.preflight .empty (.new 1) =
        { survey with audited := false }.preflight .empty (.new 1) ∧
      survey.scratch .empty (.new 1) = { survey with audited := false }.scratch .empty (.new 1) ∧
      ({ survey with audited := false }.execute.run ⟨.empty, .new 1⟩).1.outcome = .completed := by
  have hbuiltin : ∀ node ∈ survey.nodes, node.filter ∈ filters := by
    simp [survey, filters]
  obtain ⟨hdone, htried, hscratch⟩ := audit_invisible hbuiltin Tree.wellFormed_empty (.new 1)
  exact ⟨hbuiltin, Tree.wellFormed_empty, rfl, hdone, htried, hscratch, rfl⟩

end Pipeline

end FilterTree
