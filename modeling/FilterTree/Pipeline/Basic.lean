import FilterTree.Filter.Basic
import FilterTree.Tree.Audit

/-!
# Pipelines

A pipeline runs filters one after the other on the same tree and stops at the
first that fails or is cancelled; a disabled filter is passed over. For every
filter that was reached it keeps what happened: the actions, the advice, the
warnings and failures of all phases, and how the body ended.

Trying a pipeline out (`preflight`) and running it (`execute`) are one function
of the mode. Tried out, actions are applied to a copy of the tree without
elements and no body runs, so a later filter sees the shapes that earlier ones
would leave.
-/

namespace FilterTree

/-- A filter of a pipeline with its arguments. -/
structure PipelineNode where
  filter : Filter
  arguments : Arguments
  enabled : Bool

/-- How the run of a pipeline ended. -/
inductive PipelineOutcome where
  | completed
  | failed (index : Nat)
  | cancelled (index : Nat)
deriving DecidableEq, Repr

/-- An ending as a record. -/
def PipelineOutcome.toJson : PipelineOutcome → Json
  | completed => .obj [("status", .str "completed")]
  | failed index => .obj [("status", .str "failed"), ("index", .nat index)]
  | cancelled index => .obj [("status", .str "cancelled"), ("index", .nat index)]

/-! ## Reports -/

/-- What happened to one filter of a pipeline. -/
structure NodeReport where
  index : Nat
  filter : String
  uuid : Uuid
  skipped : Bool
  actions : Option Batch
  advice : List Advice
  warnings : List Warning
  failures : List Failure
  completion : Option Completion

namespace NodeReport

/-- The report of a filter to which nothing has happened yet. -/
def blank (index : Nat) (f : Filter) : NodeReport where
  index := index
  filter := f.name
  uuid := f.uuid
  skipped := false
  actions := none
  advice := []
  warnings := []
  failures := []
  completion := none

variable (n : NodeReport)

/-- Take over the warnings and failures of a report. -/
def absorb {α : Type} (r : Report α) : NodeReport :=
  { n with warnings := n.warnings ++ r.warnings, failures := n.failures ++ r.failures }

/-- Add a failure. -/
def addFailure (f : Failure) : NodeReport := { n with failures := n.failures ++ [f] }

/-- The report of one filter as a record. -/
def toJson : Json :=
  .obj [("index", .nat n.index), ("filter", .str n.filter), ("uuid", .str n.uuid.toText),
    ("skipped", .bool n.skipped), ("actions", .ofOption Batch.toJson n.actions),
    ("values", .arr (n.advice.map Advice.toJson)),
    ("warnings", .arr (n.warnings.map Warning.toJson)),
    ("errors", .arr (n.failures.map Failure.toJson)),
    ("completion", .ofOption (fun c => .str c.text) n.completion)]

end NodeReport

/-- What happened to a pipeline. -/
structure PipelineReport where
  name : String
  nodes : List NodeReport
  outcome : PipelineOutcome

namespace PipelineReport

variable (r : PipelineReport)

/-- Whether every enabled filter came to its end. -/
def isSuccess : Bool := r.outcome == .completed

/-- The failures of all filters. -/
def failures : List Failure := r.nodes.flatMap NodeReport.failures

/-- The warnings of all filters. -/
def warnings : List Warning := r.nodes.flatMap NodeReport.warnings

/-- A report as a record. -/
def toJson : Json :=
  .obj [("name", .str r.name), ("nodes", .arr (r.nodes.map NodeReport.toJson)),
    ("outcome", r.outcome.toJson)]

end PipelineReport

/-! ## Running -/

/-- Filters that run one after the other. -/
structure Pipeline where
  name : String
  nodes : List PipelineNode
  /-- Audit the tree after the actions of each filter. -/
  audited : Bool

/-- How the run of one filter ended. -/
inductive NodeStatus where
  | passed
  | failed
  | cancelled
deriving DecidableEq, Repr

namespace PipelineNode

/-- Run the body of a filter whose actions have been applied. -/
def runBody (node : PipelineNode) (report : NodeReport) : Working (NodeReport × NodeStatus) := do
  let result ← node.filter.execute node.arguments
  let report := report.absorb result
  match result.outcome with
  | .ok .finished => return ({ report with completion := some .finished }, .passed)
  | .ok .cancelled => return ({ report with completion := some .cancelled }, .cancelled)
  | .error _ => return (report, .failed)

/-- What an audit of the tree finds, if one is asked for. -/
def auditIf (audited : Bool) : Working (Except TreeError Unit) := do
  let t ← Working.tree
  return if audited then t.audit else .ok ()

/-- Run one filter: plan, actions, audit, and the body unless the run is a trial. -/
def run (mode : Mode) (audited : Bool) (index : Nat) (node : PipelineNode) :
    Working (NodeReport × NodeStatus) := do
  let plan ← Working.sending (node.filter.preflight (← Working.tree) node.arguments)
  let report := { NodeReport.blank index node.filter with advice := plan.advice }
  let report := report.absorb plan.actions
  match plan.actions.outcome with
  | .error _ => return (report, .failed)
  | .ok batch =>
    let report := { report with actions := some batch }
    match ← Filter.applyBatch mode batch with
    | .error e => return (report.addFailure e.failure, .failed)
    | .ok _ =>
      match ← auditIf audited with
      | .error e => return (report.addFailure (.ofTree e), .failed)
      | .ok _ =>
        match mode with
        | .preflight => return (report, .passed)
        | .execute => node.runBody report

/-- Run filters from a place of a pipeline on. -/
def runFrom (mode : Mode) (audited : Bool) :
    Nat → List PipelineNode → Working (List NodeReport × PipelineOutcome)
  | _, [] => return ([], .completed)
  | index, node :: rest => do
    let blank := NodeReport.blank index node.filter
    if !node.enabled then
      let (others, outcome) ← runFrom mode audited (index + 1) rest
      return ({ blank with skipped := true } :: others, outcome)
    if ← Working.isCancelled then return ([blank], .cancelled index)
    match ← node.run mode audited index with
    | (report, .failed) => return ([report], .failed index)
    | (report, .cancelled) => return ([report], .cancelled index)
    | (report, .passed) =>
      let (others, outcome) ← runFrom mode audited (index + 1) rest
      return (report :: others, outcome)

end PipelineNode

namespace Pipeline

variable (p : Pipeline)

/-- Run a pipeline in a mode. -/
def run (mode : Mode) : Working PipelineReport := do
  let (nodes, outcome) ← PipelineNode.runFrom mode p.audited 0 p.nodes
  return ⟨p.name, nodes, outcome⟩

/-- Try a pipeline out on a copy of a tree. -/
def preflight (t : Tree) : Sending PipelineReport := fun run =>
  let (report, w) := (p.run .preflight).run ⟨t, run⟩
  (report, w.run)

/-- Run a pipeline on the tree. -/
def execute : Working PipelineReport := p.run .execute

end Pipeline

end FilterTree
