import FilterTree.Action
import FilterTree.Filter.Run
import FilterTree.Parameter.Selection
import FilterTree.Uuid

/-!
# Filters

A filter is a unit of work on a tree in two phases. The plan reads the tree and
the arguments and answers with actions; it never needs the elements of an array
or a list. The body runs after those actions have been applied and writes into
what they created.

Both phases can be entered only through a gate: arguments are bound to the
schema and checked against the tree, and the phase sees nothing but bound
arguments. `run` is plan, actions and body in a row, stopping at the first that
fails; the warnings of all that came before are kept.
-/

namespace FilterTree

/-- A value that a plan shows to the user and nobody else reads. -/
structure Advice where
  name : String
  value : String
deriving DecidableEq, Repr

/-- An advisory value as a record. -/
def Advice.toJson (a : Advice) : Json := .obj [("name", .str a.name), ("value", .str a.value)]

/-- What a plan answers. -/
structure Plan where
  actions : Report Batch
  advice : List Advice

namespace Plan

/-- A plan that is one report of actions. -/
def ofReport (r : Report Batch) : Plan := ⟨r, []⟩

/-- A plan of actions. -/
def ok (b : Batch) : Plan := ofReport (.ok b)

/-- Add an advisory value at the end. -/
def advise (p : Plan) (name value : String) : Plan :=
  { p with advice := p.advice ++ [⟨name, value⟩] }

/-- A plan, or its failure. -/
def ofExcept : Except Failure Plan → Plan
  | .ok p => p
  | .error f => ofReport (.fail f)

end Plan

/-- A computation on the tree that sends messages and may fail. -/
abbrev Attempt (α : Type) : Type := ExceptT Failure (StateM Workspace) α

namespace Attempt

/-- A value, or its failure. -/
def ofExcept (r : Except Failure α) : Attempt α := ExceptT.mk (pure r)

/-- What the tree says, or its refusal as a failure. -/
def ask (f : Tree → Except TreeError α) : Attempt α := do
  ofExcept ((f (← get).tree).mapError Failure.ofTree)

/-- What became of an attempt. -/
def report (attempt : Attempt α) : Working (Report α) := return .ofExcept (← attempt.run)

end Attempt

/-- A unit of work on a tree. -/
structure Filter where
  name : String
  humanName : String
  uuid : Uuid
  tags : List String := []
  schema : Schema
  /-- Version of the schema that arguments are written for. -/
  version : Nat := 1
  /-- The actions wanted for bound arguments. -/
  plan : Tree → Arguments → Sending Plan
  /-- What is left to do after the actions. -/
  body : Arguments → Working (Report Completion) := fun _ => pure (.ok .finished)
  /-- Arguments from a document of the older format. -/
  importLegacy : Json → Report Arguments := fun _ =>
    .fail ⟨.legacyImport, -400, name ++ " has no legacy parameter import"⟩
  /-- Arguments from those of an older version of the schema. -/
  upgradeFrom : Nat → Arguments → Report Arguments := fun older _ =>
    .fail (ArgumentError.olderVersion name older (some version)).failure

namespace Filter

variable (f : Filter)

/-- Default arguments. -/
def defaults : Arguments := f.schema.defaults

/-! ## The phases behind their gates -/

/-- Bind arguments and check them against a tree. -/
def gate (check : Arguments → Tree → Report Unit) (args : Arguments) (t : Tree) :
    Report Arguments :=
  (f.schema.bind args).andThen fun bound => (check bound t).map fun _ => bound

/-- Plan behind the gate. -/
def preflight (t : Tree) (args : Arguments) : Sending Plan := do
  let gate := f.gate f.schema.checkBefore args t
  match gate.outcome with
  | .error failures => return .ofReport ((Report.failed failures).warnAll gate.warnings)
  | .ok bound =>
    let plan ← f.plan t bound
    return { plan with actions := { plan.actions with
      warnings := gate.warnings ++ plan.actions.warnings } }

/-- Run the body behind the gate. -/
def execute (args : Arguments) : Working (Report Completion) := do
  let gate := f.gate f.schema.checkAfter args (← Working.tree)
  match gate.outcome with
  | .error failures => return (Report.failed failures).warnAll gate.warnings
  | .ok bound =>
    let report ← f.body bound
    return { report with warnings := gate.warnings ++ report.warnings }

/-- Apply a batch to the tree of the workspace. -/
def applyBatch (mode : Mode) (b : Batch) : Working (Except BatchError Unit) := do
  let (result, t) := b.apply mode (← Working.tree)
  Working.setTree t
  return result

/-- Plan, apply and run the body. -/
def run (args : Arguments) : Working (Report Completion) := do
  let plan ← Working.sending (f.preflight (← Working.tree) args)
  let warnings := plan.actions.warnings
  match plan.actions.outcome with
  | .error failures => return (Report.failed failures).warnAll warnings
  | .ok actions =>
    match ← applyBatch .execute actions with
    | .error e => return (Report.fail e.failure).warnAll warnings
    | .ok _ =>
      let report ← f.execute args
      return { report with warnings := warnings ++ report.warnings }

/-! ## Versions -/

/-- Bring arguments written for a version of the schema to the current one. -/
def upgrade (version : Nat) (args : Arguments) : Report Arguments :=
  if version = f.version then .ok args
  else if f.version < version then
    .fail (ArgumentError.newerVersion f.name version f.version).failure
  else f.upgradeFrom version args

end Filter

end FilterTree
