import FilterTree.Proofs.Builtins

/-!
# Nothing fails without a failure

A report without a value is meant to say why there is none, but nothing in its
type keeps the list of failures from being empty. Where it is read off the
failures of a report that something went wrong, it has to be known that they are
there (`Reasoned`). The gates in front of a plan and a body always give a
failure, so a filter does as soon as its plan and its body do; the built-in
filters fail by one failure at a time.
-/

namespace FilterTree

/-! ## Reports -/

namespace Report

variable {α β : Type} {r : Report α}

/-- A report without a value has a failure. -/
def Reasoned (r : Report α) : Prop := r.outcome ≠ .error []

theorem reasoned_ok {a : α} : (ok a).Reasoned := fun h => nomatch h

theorem reasoned_fail {f : Failure} : (fail f : Report α).Reasoned := fun h => nomatch h

theorem reasoned_ofExcept {x : Except Failure α} : (ofExcept x).Reasoned := by
  cases x with
  | error f => exact reasoned_fail
  | ok a => exact reasoned_ok

theorem reasoned_addFailure {f : Failure} : (r.addFailure f).Reasoned := by
  intro h
  have hnil : r.failures ++ [f] = [] := Except.error.inj h
  simp at hnil

theorem Reasoned.map (h : r.Reasoned) (f : α → β) : (r.map f).Reasoned := by
  obtain ⟨outcome, warnings⟩ := r
  cases outcome with
  | error failures => exact fun hnil => h (congrArg _ (Except.error.inj hnil))
  | ok a => exact fun hnil => nomatch hnil

theorem Reasoned.andThen (h : r.Reasoned) {f : α → Report β} (hf : ∀ a, (f a).Reasoned) :
    (r.andThen f).Reasoned := by
  obtain ⟨outcome, warnings⟩ := r
  cases outcome with
  | error failures => exact fun hnil => h (congrArg _ (Except.error.inj hnil))
  | ok a => exact hf a

end Report

namespace Schema

variable {s : Schema} {args : Arguments} {t : Tree}

theorem reasoned_bind : (s.bind args).Reasoned := by
  have hstep : ∀ (ps : List Parameter) (acc : Report Arguments), acc.Reasoned →
      (ps.foldl (fun acc p => addBound acc p.key
        (bindOne args (s.isActive p.key (s.effective args)) p)) acc).Reasoned := by
    intro ps
    induction ps with
    | nil => exact fun _ hacc => hacc
    | cons p ps ih =>
        intro acc hacc
        refine ih _ ?_
        dsimp only
        cases bindOne args (s.isActive p.key (s.effective args)) p with
        | ok value => exact hacc.map _
        | error e => exact Report.reasoned_addFailure
  exact hstep _ _ fun h => nomatch h

theorem reasoned_checkTree {before : Bool} : (s.checkTree args t before).Reasoned := by
  rw [checkTree]
  split
  · exact Report.reasoned_ok
  · next hnone => exact fun h => hnone (Except.error.inj h)

end Schema

namespace Filter

variable {f : Filter} {args : Arguments} {t : Tree} {run : Run} {w : Workspace}

/-- A filter whose plan and whose body never fail without a failure. -/
structure Reasoned (f : Filter) : Prop where
  plan : ∀ t bound run, (f.plan t bound run).1.actions.Reasoned
  body : ∀ bound w, (f.body bound w).1.Reasoned

theorem reasoned_gate {check : Arguments → Tree → Report Unit}
    (hcheck : ∀ bound, (check bound t).Reasoned) : (f.gate check args t).Reasoned :=
  Schema.reasoned_bind.andThen fun bound => (hcheck bound).map _

theorem Reasoned.preflight (hf : f.Reasoned) :
    (f.preflight t args run).1.actions.Reasoned := by
  have hgate : (f.gate f.schema.checkBefore args t).Reasoned :=
    reasoned_gate fun _ => Schema.reasoned_checkTree
  cases hout : (f.gate f.schema.checkBefore args t).outcome with
  | error failures =>
      simp only [Filter.preflight, hout]
      exact fun h => hgate (hout.trans (congrArg Except.error (Except.error.inj h)))
  | ok bound =>
      simp only [Filter.preflight, hout]
      exact hf.plan t bound run

theorem Reasoned.execute (hf : f.Reasoned) : (f.execute args w).1.Reasoned := by
  have hgate : (f.gate f.schema.checkAfter args w.tree).Reasoned :=
    reasoned_gate fun _ => Schema.reasoned_checkTree
  cases hout : (f.gate f.schema.checkAfter args w.tree).outcome with
  | error failures =>
      simp only [Filter.execute, Working.bind_apply, Working.tree_apply, hout]
      exact fun h => hgate (hout.trans (congrArg Except.error (Except.error.inj h)))
  | ok bound =>
      rw [execute_eq hout]
      exact hf.body bound w

end Filter

/-! ## The built-in filters -/

/-- A plan that does not fail at once has actions, or a failure in their place. -/
def Filter.PlansReasoned (x : Except Failure Plan) : Prop :=
  ∀ plan, x = .ok plan → plan.actions.Reasoned

namespace Filter.PlansReasoned

variable {α : Type}

theorem ok {plan : Plan} (h : plan.actions.Reasoned) : PlansReasoned (.ok plan) :=
  fun _ hplan => Except.ok.inj hplan ▸ h

theorem error {e : Failure} : PlansReasoned (.error e) := fun _ h => nomatch h

theorem bind {x : Except Failure α} {k : α → Except Failure Plan} (h : ∀ a, PlansReasoned (k a)) :
    PlansReasoned (x >>= k) := by
  intro plan hplan
  obtain ⟨a, -, hk⟩ := check_bind_eq_ok.mp hplan
  exact h a plan hk

theorem reasoned {x : Except Failure Plan} (h : PlansReasoned x) :
    (Plan.ofExcept x).actions.Reasoned := by
  cases x with
  | error e => exact Report.reasoned_fail
  | ok plan => exact h plan rfl

end Filter.PlansReasoned

namespace Builtin

open FilterTree.Filter (PlansReasoned)

variable {t : Tree} {bound : Arguments}

theorem CreateGroup.plansReasoned : PlansReasoned (plan bound) :=
  .bind fun _ => .ok Report.reasoned_ok

theorem CreateMatrix.plansReasoned : PlansReasoned (plan bound) :=
  .bind fun _ => .bind fun _ => .bind fun _ => .ok Report.reasoned_ok

theorem CreateArray.plansReasoned : PlansReasoned (plan t bound) := by
  refine .bind fun type => .bind fun components => .bind fun path => .bind fun text => ?_
  dsimp only
  split
  · exact .error
  · split
    · exact .error
    · exact .bind fun _ => .bind fun _ => .ok Report.reasoned_ok

theorem CreateImage.plansReasoned : PlansReasoned (plan bound) := by
  refine .bind fun path => .bind fun dimensions => .bind fun origin => .bind fun spacing =>
    .bind fun cellDataName => ?_
  dsimp only
  split
  · exact .error
  · split
    · exact .error
    · exact .bind fun _ => .ok Report.reasoned_ok

theorem Rename.plansReasoned : PlansReasoned (plan t bound) := by
  refine .bind fun path => .bind fun name => ?_
  cases path.parent? with
  | none => exact .error
  | some parent =>
      refine .bind fun parent => ?_
      dsimp only
      split
      · exact .ok fun h => nomatch h
      · split
        · exact .error
        · exact .ok Report.reasoned_ok

theorem Move.plansReasoned : PlansReasoned (plan t bound) :=
  .bind fun _ => .bind fun _ => .bind fun _ => .ok fun h => nomatch h

theorem Delete.plansReasoned : PlansReasoned (plan bound) := by
  refine .bind fun paths => ?_
  dsimp only
  split
  · exact .error
  · exact .ok fun h => nomatch h

theorem ResizeMatrix.plansReasoned : PlansReasoned (plan t bound) :=
  .bind fun _ => .bind fun _ => .bind fun _ => .bind fun _ => .bind fun _ =>
    .ok fun h => nomatch h

theorem Misorientation.plansReasoned : PlansReasoned (plan t bound) :=
  .bind fun _ => .bind fun _ => .bind fun _ => .ok Report.reasoned_ok

theorem reasoned_of_mem {f : Filter} (hf : f ∈ filters) : f.Reasoned := by
  have hidle : (Report.ok Completion.finished).Reasoned := Report.reasoned_ok
  have hattempt : ∀ (a : Attempt Completion) w, (a.report w).1.Reasoned := fun a w =>
    Report.reasoned_ofExcept
  rcases mem_filters.mp hf with rfl | rfl | rfl | rfl | rfl | rfl | rfl | rfl | rfl
  · exact ⟨fun _ _ _ => CreateGroup.plansReasoned.reasoned, fun _ _ => hidle⟩
  · exact ⟨fun _ _ _ => CreateMatrix.plansReasoned.reasoned, fun _ _ => hidle⟩
  · exact ⟨fun _ _ _ => CreateArray.plansReasoned.reasoned, fun _ _ => hattempt _ _⟩
  · exact ⟨fun _ _ _ => CreateImage.plansReasoned.reasoned, fun _ _ => hidle⟩
  · exact ⟨fun _ _ _ => Rename.plansReasoned.reasoned, fun _ _ => hidle⟩
  · exact ⟨fun _ _ _ => Move.plansReasoned.reasoned, fun _ _ => hidle⟩
  · exact ⟨fun _ _ _ => Delete.plansReasoned.reasoned, fun _ _ => hidle⟩
  · exact ⟨fun _ _ _ => ResizeMatrix.plansReasoned.reasoned, fun _ _ => hidle⟩
  · exact ⟨fun _ _ _ => Misorientation.plansReasoned.reasoned, fun _ _ => hattempt _ _⟩

end Builtin

end FilterTree
