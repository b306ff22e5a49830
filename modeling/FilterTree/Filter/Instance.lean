import FilterTree.Filter.Basic
import FilterTree.Filter.Lifecycle

/-!
# Instances

An instance takes one invocation of a filter through its life step by step and
keeps what the steps hand on: the bound arguments, and the actions and advisory
values of the last plan that succeeded. A step that the state does not allow is
refused and changes nothing. Binding anew drops what was planned for the old
arguments, so actions that are applied always belong to the arguments that are
executed.
-/

namespace FilterTree

/-- One invocation of a filter. -/
structure Instance where
  filter : Filter
  state : LifeState
  arguments : Option Arguments
  actions : Option Batch
  advice : List Advice

namespace Instance

/-- A fresh invocation. -/
def new (f : Filter) : Instance := ⟨f, .unbound, none, none, []⟩

variable (i : Instance)

/-- Go to a state if that is allowed. -/
def goTo (state : LifeState) : Instance :=
  if i.state.allows state then { i with state := state } else i

/-- Go to the failed state if that is allowed. -/
def fail : Instance := i.goTo .failed

/-- Bind arguments. -/
def bind (args : Arguments) : Report Unit × Instance :=
  match i.state.check .bound with
  | .error e => (.fail e.failure, i)
  | .ok _ =>
    let report := i.filter.schema.bind args
    match report.value? with
    | some bound =>
      (report.discard,
        { i with arguments := some bound, actions := none, advice := [] }.goTo .bound)
    | none => (report.discard, i.fail)

/-- Plan for the bound arguments. -/
def preflight (t : Tree) : Sending (Report Batch × Instance) := do
  match i.state.check .preflighted with
  | .error e => return (.fail e.failure, i)
  | .ok _ =>
    let plan ← i.filter.preflight t (i.arguments.getD .none)
    match plan.actions.value? with
    | some actions =>
      return (plan.actions,
        { i with actions := some actions, advice := plan.advice }.goTo .preflighted)
    | none => return (plan.actions, i.fail)

/-- Apply the planned actions. -/
def apply (mode : Mode) : Working (Report Unit × Instance) := do
  match i.state.check .applied with
  | .error e => return (.fail e.failure, i)
  | .ok _ =>
    match i.actions with
    | none => return (.ok (), i)
    | some actions =>
      match ← Filter.applyBatch mode actions with
      | .ok _ => return (.ok (), i.goTo .applied)
      | .error e => return (.fail e.failure, i.fail)

/-- Run the body. -/
def execute : Working (Report Completion × Instance) := do
  match i.state.check .executed with
  | .error e => return (.fail e.failure, i)
  | .ok _ =>
    let report ← i.filter.execute (i.arguments.getD .none)
    match report.value? with
    | some .finished => return (report, i.goTo .executed)
    | some .cancelled => return (report, i.goTo .cancelled)
    | none => return (report, i.fail)

/-- Mark an executed invocation as done. -/
def finish : Except IllegalTransition Unit × Instance :=
  match i.state.check .done with
  | .error e => (.error e, i)
  | .ok _ => (.ok (), { i with state := .done })

end Instance

end FilterTree
