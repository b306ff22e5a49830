import FilterTree.Json.Record
import FilterTree.Text.Blank
import FilterTree.Toml.Reader

/-!
# Settings of a run

What a user may set for all runs: how much is logged and in which form, how many
threads may work, by how much progress has to grow between two messages, and
whether the tree is audited after the actions of each filter. The settings are
read from a TOML text; a key that is absent keeps its default, and a key that is
no setting makes the text unreadable, as does a value of another kind. Values
that can be read are then checked, the step of progress first.
-/

namespace FilterTree

/-- The form of a log. -/
inductive LogFormat where
  | text
  | json
deriving DecidableEq, Repr

/-- Every form of a log by its name. -/
def LogFormat.named : List (String × LogFormat) := [("text", .text), ("json", .json)]

/-- Name of a form of a log. -/
def LogFormat.name : LogFormat → String
  | text => "text"
  | json => "json"

/-- The settings of a run. -/
structure Config where
  logLevel : String := "info"
  logFormat : LogFormat := .text
  /-- Number of threads; zero leaves it open. -/
  workerThreads : Nat := 0
  /-- Least growth of a percentage between two messages. -/
  progressStep : Nat := 5
  /-- Audit the tree after the actions of each filter. -/
  audited : Bool := true
deriving DecidableEq, Repr

/-- Why settings were refused. -/
inductive ConfigError where
  | unreadable
  | progressStepOutOfRange (step : Nat)
  | emptyLogLevel
deriving DecidableEq, Repr

/-- The text of an error of settings. -/
def ConfigError.message : ConfigError → String
  | unreadable => "invalid config: the text does not give values to settings"
  | progressStepOutOfRange step =>
    s!"invalid config value: progress_step_percent must be in 1..=100, got {step}"
  | emptyLogLevel => "invalid config value: log_level must not be empty"

namespace Config

/-- Check the values of settings. -/
def check (c : Config) : Except ConfigError Config :=
  if c.progressStep = 0 ∨ 100 < c.progressStep then .error (.progressStepOutOfRange c.progressStep)
  else if Text.isAllBlank c.logLevel then .error .emptyLogLevel
  else .ok c

/-- Steps of progress are read up to this limit. -/
def stepLimit : Nat := 256

/-- A natural number below a limit. -/
def natBelow? (limit : Nat) (i : Int) : Option Nat :=
  if 0 ≤ i ∧ i < limit then some i.toNat else none

/-- A form of a log: its name, or a table with nothing but an empty value under its name. -/
def formatOf? : Toml.Value → Option LogFormat
  | .text name => LogFormat.named.lookup name
  | .table _ [(name, v)] => if v.isEmpty then LogFormat.named.lookup name else none
  | _ => none

/-- The settings with one of them replaced. -/
def set? (c : Config) : String × Toml.Value → Option Config
  | ("log_level", .text s) => some { c with logLevel := s }
  | ("log_format", v) => (formatOf? v).map fun f => { c with logFormat := f }
  | ("worker_threads", .integer i) =>
    (natBelow? sizeLimit i).map fun n => { c with workerThreads := n }
  | ("progress_step_percent", .integer i) =>
    (natBelow? stepLimit i).map fun n => { c with progressStep := n }
  | ("validate_invariants", .bool b) => some { c with audited := b }
  | _ => none

/-- Read and check settings. -/
def ofText (text : String) : Except ConfigError Config :=
  match (Toml.ofText? text).bind fun entries => entries.foldlM set? {} with
  | some c => c.check
  | none => .error .unreadable

/-- Settings as a record. -/
def toJson (c : Config) : Json :=
  .obj [("log_level", .str c.logLevel), ("log_format", .str c.logFormat.name),
    ("worker_threads", .nat c.workerThreads), ("progress_step_percent", .nat c.progressStep),
    ("validate_invariants", .bool c.audited)]

end Config

end FilterTree
