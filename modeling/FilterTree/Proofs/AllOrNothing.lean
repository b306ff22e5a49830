import FilterTree.Proofs.Builtins
import FilterTree.Proofs.Deletion
import FilterTree.Proofs.OneShot

/-!
# Filters that do all or nothing

A run of a filter can fail at the first gate or in its plan, which leave the
tree alone, in its actions, at the second gate, or in its body. The last two are
no concern of a predictable filter with a body that cannot fail once the actions
have been applied. So it comes down to the actions, and to whether the first of
them can be carried out and a later one refused. One action alone is carried out
or leaves nothing behind. The only other plan here is that of a deletion of
several objects, and none of its actions is refused.

The two filters that are missing do less. A move of several objects can be
refused in the middle, since one of them may lie below another that has moved
before it (`Move.not_atomic`), and misorientations are computed by a body that
can fail when the arrays for them have been created.
-/

namespace FilterTree

namespace Filter

variable {f : Filter} {args bound : Arguments} {t u : Tree} {w v : Workspace} {plan : Plan}
  {batch : Batch}

/-- Planned actions that are refused leave the tree as it was. -/
def Atomic (f : Filter) : Prop :=
  ∀ ⦃bound t plan batch e u⦄, t.WellFormed → (f.schema.checkBefore bound t).outcome = .ok () →
    f.plan t bound = pure plan → plan.actions.outcome = .ok batch →
    batch.apply .execute t = (.error e, u) → u = t

/-- A filter of which a run that fails leaves the tree as it was. -/
structure Transactional (f : Filter) : Prop where
  predictable : f.Predictable
  infallible : f.Infallible
  atomic : f.Atomic

/-- How a run of such a filter ends. -/
theorem Transactional.run_ends {report : Report Completion} (hf : f.Transactional)
    (h : w.tree.WellFormed) (hrun : f.run args w = (report, v)) :
    report.outcome = .ok .finished ∨
      report.outcome = .ok .cancelled ∧ v.run.cancelled = true ∨
      (∃ failures, report.outcome = .error failures) ∧ v.tree = w.tree := by
  obtain ⟨plan, hplan, -, hspec⟩ :=
    @Predictable.preflight_spec f args w.tree w.tree hf.predictable rfl
  have hplan : f.preflight w.tree args w.run = (plan, w.run) := congrFun hplan w.run
  cases hout : plan.actions.outcome with
  | error failures =>
      rw [run_of_refused hplan hout] at hrun
      cases hrun
      exact .inr (.inr ⟨⟨failures, rfl⟩, rfl⟩)
  | ok batch =>
      obtain ⟨bound, hbind, hchecked, planned, hplanned, hbatch⟩ := hspec batch hout
      rcases happly : batch.apply .execute w.tree with ⟨e | ⟨⟩, u⟩
      · rw [run_of_rejected hplan hout happly] at hrun
        cases hrun
        exact .inr (.inr ⟨⟨[e.failure], rfl⟩,
          hf.atomic h hchecked hplanned hbatch happly⟩)
      · -- from here on only the body could fail
        have hacted : f.ActedOn bound w.tree u :=
          ⟨h, hchecked, planned, batch, hplanned, hbatch, happly⟩
        have hgate := gate_eq_ok.mpr ⟨hbind, hf.predictable.lasting hacted⟩
        obtain ⟨-, hcancelled⟩ := @Predictable.refills f hf.predictable _ _ _ w.run hacted
        have hsafe := fun failures => @hf.infallible _ _ _ w.run failures hacted
        rw [run_of_applied hplan hout happly, execute_eq (w := ⟨u, w.run⟩) hgate] at hrun
        cases hrun
        cases hend : (f.body bound ⟨u, w.run⟩).1.outcome with
        | error failures => exact absurd hend (hsafe failures)
        | ok completion =>
            cases completion with
            | finished => exact .inl rfl
            | cancelled => exact .inr (.inl ⟨rfl, hcancelled hend⟩)

/-! ## Plans of one action -/

/-- What is planned, if anything is, is one action. -/
def PlansOne (r : Except Failure Plan) : Prop :=
  ∀ ⦃plan batch⦄, r = .ok plan → plan.actions.outcome = .ok batch → ∃ a, batch = [a]

theorem PlansOne.bind {α : Type} {x : Except Failure α} {k : α → Except Failure Plan}
    (h : ∀ a, PlansOne (k a)) : PlansOne (x >>= k) := by
  intro plan batch hplan hout
  obtain ⟨a, -, hk⟩ := check_bind_eq_ok.mp hplan
  exact h a hk hout

theorem PlansOne.error {e : Failure} : PlansOne (.error e) := fun _ _ h => (nomatch h)

theorem PlansOne.one {a : Action} (h : plan.actions.outcome = .ok [a]) : PlansOne (.ok plan) := by
  intro _ batch hplan hout
  cases hplan
  exact ⟨a, (Except.ok.inj (h.symm.trans hout)).symm⟩

/-- One action alone does all or nothing. -/
theorem PlansOne.atomic (plan : Tree → Arguments → Except Failure Plan)
    (hone : ∀ t bound, PlansOne (plan t bound))
    (hplan : ∀ t bound, f.plan t bound = pure (.ofExcept (plan t bound))) : f.Atomic := by
  intro bound t _ batch e u h _ hsame hout happly
  obtain ⟨q, hq, hout⟩ := planned_of_pure (hplan t bound) hsame hout
  obtain ⟨a, rfl⟩ := hone t bound hq hout
  rw [Batch.apply, Batch.applyFrom] at happly
  split at happly
  · cases happly
  · next x v ha =>
      cases happly
      exact a.allOrNothing h x u ha

end Filter

namespace Builtin

open FilterTree.Filter

/-! ## The built-in filters -/

variable {t : Tree} {bound : Arguments}

theorem CreateGroup.plansOne : PlansOne (plan bound) :=
  .bind fun _ => .one rfl

theorem CreateMatrix.plansOne : PlansOne (plan bound) :=
  .bind fun _ => .bind fun _ => .bind fun _ => .one rfl

theorem CreateArray.plansOne : PlansOne (plan t bound) := by
  refine .bind fun type => .bind fun components => .bind fun path => .bind fun text => ?_
  dsimp only
  split
  · exact .error
  · split
    · exact .error
    · exact .bind fun _ => .bind fun _ => .one rfl

theorem CreateImage.plansOne : PlansOne (plan bound) := by
  refine .bind fun path => .bind fun dimensions => .bind fun origin => .bind fun spacing =>
    .bind fun cellDataName => ?_
  dsimp only
  split
  · exact .error
  · split
    · exact .error
    · exact .bind fun _ => .one rfl

theorem Rename.plansOne : PlansOne (plan t bound) := by
  refine .bind fun path => .bind fun name => ?_
  cases path.parent? with
  | none => exact .error
  | some parent =>
      refine .bind fun parent => ?_
      dsimp only
      split
      · exact .one rfl
      · split
        · exact .error
        · exact .one rfl

theorem ResizeMatrix.plansOne : PlansOne (plan t bound) :=
  .bind fun _ => .bind fun _ => .bind fun _ => .bind fun _ => .bind fun _ => .one rfl

theorem CreateGroup.transactional : CreateGroup.filter.Transactional where
  predictable := CreateGroup.predictable
  infallible := Idle.infallible fun _ => rfl
  atomic := PlansOne.atomic (fun _ => CreateGroup.plan) (fun _ _ => plansOne) fun _ _ => rfl

theorem CreateMatrix.transactional : CreateMatrix.filter.Transactional where
  predictable := CreateMatrix.predictable
  infallible := Idle.infallible fun _ => rfl
  atomic := PlansOne.atomic (fun _ => CreateMatrix.plan) (fun _ _ => plansOne) fun _ _ => rfl

theorem CreateArray.transactional : CreateArray.filter.Transactional where
  predictable := CreateArray.predictable
  infallible := CreateArray.infallible
  atomic := PlansOne.atomic CreateArray.plan (fun _ _ => plansOne) fun _ _ => rfl

theorem CreateImage.transactional : CreateImage.filter.Transactional where
  predictable := CreateImage.predictable
  infallible := Idle.infallible fun _ => rfl
  atomic := PlansOne.atomic (fun _ => CreateImage.plan) (fun _ _ => plansOne) fun _ _ => rfl

theorem Rename.transactional : Rename.filter.Transactional where
  predictable := Rename.predictable
  infallible := Idle.infallible fun _ => rfl
  atomic := PlansOne.atomic Rename.plan (fun _ _ => plansOne) fun _ _ => rfl

theorem Delete.transactional : Delete.filter.Transactional where
  predictable := Delete.predictable
  infallible := Idle.infallible fun _ => rfl
  atomic := by
    intro bound t _ batch e u h hchecked hsame hout happly
    obtain ⟨q, hq, hout⟩ := planned_of_pure (r := Delete.plan bound) rfl hsame hout
    obtain ⟨paths, hpaths, rfl⟩ := Delete.plan_spec hq hout
    have hfound := Delete.contains_of_checked hchecked hpaths
    obtain ⟨v, hall⟩ := @Batch.applyFrom_deletes .execute t 0 (Delete.kept paths) h
      (fun p hp => hfound p (Delete.mem_of_mem_kept hp)) Delete.pairwise_kept
    cases hall.symm.trans happly

theorem ResizeMatrix.transactional : ResizeMatrix.filter.Transactional where
  predictable := ResizeMatrix.predictable
  infallible := Idle.infallible fun _ => rfl
  atomic := PlansOne.atomic ResizeMatrix.plan (fun _ _ => plansOne) fun _ _ => rfl

namespace Move

/-- Creates a group in a group, and one beside them. -/
def nesting : Batch :=
  [.createGroup (.single "a"), .createGroup ⟨["a", "b"]⟩, .createGroup (.single "c")]

/-- A group in a group, and one beside them. -/
def nested : Tree := (nesting.apply .execute .empty).2

theorem wellFormed_nested : nested.WellFormed :=
  (@Batch.carries_of_apply .execute .empty nested nesting Tree.wellFormed_empty rfl).wellFormed
    Tree.wellFormed_empty

/-- The inner group is no longer at its path when the outer one has been moved. -/
theorem not_atomic : ¬ Move.filter.Atomic := by
  intro hatomic
  let bound := (Arguments.none.insert sourcesKey (.paths [.single "a", ⟨["a", "b"]⟩])).insert
    destinationKey (.path (.single "c"))
  have hsame := @hatomic bound nested _ _ _ _ wellFormed_nested rfl rfl rfl rfl
  cases congrArg (fun t => t.contains (.single "a")) hsame

end Move

/--
A run of a filter that creates a group, a matrix, an array or an image, renames
or deletes objects or resizes a matrix, on a well-formed tree and never
cancelled: it finishes, or it reports failures and has left the tree as it was.
A flag that is raised stays up, so it is enough that it is down at the end.
-/
theorem run_all_or_nothing {f : Filter}
    (hf : f ∈ [CreateGroup.filter, CreateMatrix.filter, CreateArray.filter, CreateImage.filter,
      Rename.filter, Delete.filter, ResizeMatrix.filter]) {t : Tree} (h : t.WellFormed)
    {args : Arguments} {run : Run} {report : Report Completion} {w : Workspace}
    (hrun : f.run args ⟨t, run⟩ = (report, w)) (hlive : w.run.cancelled = false) :
    report.outcome = .ok .finished ∨
      ∃ failures, report.outcome = .error failures ∧ w.tree = t := by
  have htransactional : f.Transactional := by
    simp only [List.mem_cons, List.not_mem_nil, or_false] at hf
    rcases hf with rfl | rfl | rfl | rfl | rfl | rfl | rfl
    · exact CreateGroup.transactional
    · exact CreateMatrix.transactional
    · exact CreateArray.transactional
    · exact CreateImage.transactional
    · exact Rename.transactional
    · exact Delete.transactional
    · exact ResizeMatrix.transactional
  rcases htransactional.run_ends h hrun with hfinished | ⟨-, hcancelled⟩ | ⟨⟨failures, hout⟩, hsame⟩
  · exact .inl hfinished
  · cases hlive.symm.trans hcancelled
  · exact .inr ⟨failures, hout, hsame⟩

/-- A group under an object that is not there is planned and refused, and the tree is left. -/
theorem run_all_or_nothing_orphan :
    CreateGroup.filter ∈ [CreateGroup.filter, CreateMatrix.filter, CreateArray.filter,
      CreateImage.filter, Rename.filter, Delete.filter, ResizeMatrix.filter] ∧
      Tree.cloud.WellFormed ∧ ∃ report w,
        CreateGroup.filter.run
          (Arguments.none.insert "data_object_path" (.path ⟨["dust", "grains"]⟩))
          ⟨.cloud, .new 1⟩ = (report, w) ∧
        w.run.cancelled = false ∧ ∃ failures, report.outcome = .error failures ∧ w.tree = .cloud := by
  have hmem : CreateGroup.filter ∈ [CreateGroup.filter, CreateMatrix.filter, CreateArray.filter,
      CreateImage.filter, Rename.filter, Delete.filter, ResizeMatrix.filter] := List.mem_cons_self
  rcases hrun : CreateGroup.filter.run
    (Arguments.none.insert "data_object_path" (.path ⟨["dust", "grains"]⟩)) ⟨.cloud, .new 1⟩
    with ⟨report, w⟩
  have hlive : w.run.cancelled = false := by
    rw [show w = _ from (congrArg Prod.snd hrun).symm]
    rfl
  refine ⟨hmem, Tree.wellFormed_cloud, report, w, rfl, hlive, ?_⟩
  rcases run_all_or_nothing hmem Tree.wellFormed_cloud hrun hlive with hfinished | hfailed
  · rw [show report = _ from (congrArg Prod.fst hrun).symm] at hfinished
    cases hfinished
  · exact hfailed

end Builtin

end FilterTree
