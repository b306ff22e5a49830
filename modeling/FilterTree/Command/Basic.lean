import FilterTree.Builtin.Catalog
import FilterTree.Command.Files
import FilterTree.Command.Line
import FilterTree.Config.Basic
import FilterTree.Pipeline.Document

/-!
# Commands

What the commands write and the code with which they end, as functions of the
command line and of what its files hold. Settings are read before anything
else. An error names what was being done and what stood in the way, from the
outside in; where one cause explains another, both are written.

The two commands that run a pipeline begin with an empty tree. What is written
as JSON is either a record in the order of its fields, or, where several things
are put together for the occasion, an object in the order of its keys, in which
all numbers have 64 bits.
-/

namespace FilterTree.Command

/-! ## Results -/

/-- What a command writes and the code with which it ends. -/
structure Outcome where
  code : Nat
  output : String
  errors : String
deriving DecidableEq, Repr

namespace Outcome

/-- A command that did what it was to do. -/
def done (output : String) : Outcome := ⟨0, output, ""⟩

/-- A command that ends with an error. -/
def failed (reason : String) : Outcome := ⟨1, "", "error: " ++ reason ++ "\n"⟩

/-- Write a value on lines of its own. -/
def prettyLine (j : Json) : String := j.pretty ++ "\n"

/-- An object in the order of its keys, with numbers of 64 bits. -/
def gathered (fields : List (String × Json)) : Json := (Json.obj fields).sorted.widened

/-- Lines, each with its end. -/
def lines (ls : List String) : String := String.join (ls.map (· ++ "\n"))

end Outcome

open Outcome (done failed prettyLine gathered lines)

/-- A result, or the reason why there is none. -/
abbrev Result : Type := Except String Outcome

/-! ## Listing and describing -/

/-- Text filled up with blanks to a width. -/
def padded (width : Nat) (s : String) : String :=
  s ++ String.ofList (List.replicate (width - s.length) ' ')

/-- A filter as a record. -/
def summary (f : Filter) : Json :=
  .obj [("uuid", .str f.uuid.toText), ("name", .str f.name), ("human_name", .str f.humanName)]

/-- List the filters. -/
def list (r : Registry) (json : Bool) : Outcome :=
  if json then done (prettyLine (.arr (r.filters.map summary)))
  else done (lines (r.filters.map fun f =>
    f.uuid.toText ++ "  " ++ padded 28 f.name ++ " " ++ f.humanName))

/-- The filter with an identifier or a name. -/
def find (r : Registry) (key : String) : Except String Filter :=
  (match Uuid.ofText? key with
    | some uuid => r.get uuid
    | none => r.getNamed key).mapError RegistryError.message

/-- All about a filter. -/
def description (f : Filter) : List (String × Json) :=
  [("uuid", .str f.uuid.toText), ("name", .str f.name), ("human_name", .str f.humanName),
    ("tags", .strs f.tags), ("parameters_version", .nat f.version),
    ("parameters", .arr (f.schema.parameters.map Parameter.toJson)),
    ("default_arguments", f.defaults.toJson)]

/-- One line about a parameter. -/
def parameterLine (p : Parameter) : String :=
  "  " ++ padded 32 p.key ++ " " ++ p.kind.text ++ (if p.required then " required" else "") ++ ": "
    ++ p.label

/-- Describe a filter. -/
def describe (r : Registry) (key : String) (json : Bool) : Result := do
  let f ← find r key
  if json then return done (prettyLine (gathered (description f)))
  else
    let heading := f.humanName ++ " (" ++ f.uuid.toText ++ ") v" ++ Numeral.natText f.version
    return done (lines (heading :: f.schema.parameters.map parameterLine))

/-! ## Pipelines -/

/-- The pipeline of a file. -/
def loadPipeline (r : Registry) (files : Files) (config : Config) (path : String) :
    Except String Pipeline := do
  let text ← (files path).mapError fun e =>
    s!"failed to read pipeline {path}: " ++ e.message ++ ": " ++ e.message
  let document ← (PipelineDocument.ofText text).mapError DocumentError.message
  let (pipeline, _) ← (document.toPipeline r).mapError fun e =>
    s!"cannot build pipeline from {path}: " ++ e.message
      ++ match e with
        | .unknownFilter _ cause => ": " ++ cause.message
        | _ => ""
  return { pipeline with audited := config.audited }

/-- The code for the ending of a pipeline. -/
def exitCode : PipelineOutcome → Nat
  | .completed => 0
  | .failed _ => 1
  | .cancelled _ => 2

/-- How a pipeline ended. -/
def statusText : PipelineOutcome → String
  | .completed => "completed"
  | .failed index => s!"failed at filter {index}"
  | .cancelled index => s!"cancelled at filter {index}"

/-- What became of one filter of a pipeline. -/
def nodeState (n : NodeReport) : String :=
  if n.skipped then "skipped"
  else if !n.failures.isEmpty then "error"
  else Numeral.natText ((n.actions.map List.length).getD 0) ++ " actions"

/-- What happened to one filter, on lines. -/
def nodeLines (n : NodeReport) : List String :=
  ("  [" ++ Numeral.natText n.index ++ "] " ++ n.filter ++ ": " ++ nodeState n)
    :: n.advice.map (fun a => "      " ++ a.name ++ " = " ++ a.value)
    ++ n.warnings.map (fun w => "      " ++ w.text)
    ++ n.failures.map (fun f => "      " ++ f.text)

/-- What happened to a pipeline, on lines. -/
def reportLines (r : PipelineReport) : List String :=
  ("pipeline '" ++ r.name ++ "': " ++ statusText r.outcome) :: r.nodes.flatMap nodeLines

/-- Try a pipeline out. -/
def preflight (r : Registry) (files : Files) (config : Config) (path : String) (json : Bool) :
    Result := do
  let pipeline ← loadPipeline r files config path
  let (report, _) := (pipeline.preflight .empty).run (.new config.progressStep)
  let output := if json then prettyLine report.toJson else lines (reportLines report)
  return ⟨exitCode report.outcome, output, ""⟩

/-- One object of a tree as a record. -/
def treeEntry (entry : Path × ObjectKind) : Json :=
  .obj [("path", .path entry.1), ("kind", .str entry.2.text)]

/-- One object of a tree on a line. -/
def treeLine (entry : Path × ObjectKind) : String :=
  "  " ++ entry.1.toText ++ " (" ++ entry.2.text ++ ")"

/-- Run a pipeline and show the tree that it leaves. -/
def run (r : Registry) (files : Files) (config : Config) (path : String) (json : Bool) :
    Result := do
  let pipeline ← loadPipeline r files config path
  let (report, w) := pipeline.execute.run ⟨.empty, .new config.progressStep⟩
  let output :=
    if json then
      prettyLine (gathered
        [("report", report.toJson), ("tree", .arr (w.tree.listing.map treeEntry))])
    else lines (reportLines report ++ "data structure:" :: w.tree.listing.map treeLine)
  return ⟨exitCode report.outcome, output, ""⟩

/-! ## Older documents -/

/-- Convert a document of the older format. -/
def importLegacy (r : Registry) (files : Files) (key path : String) (json : Bool) : Result := do
  let f ← find r key
  let text ← (files path).mapError fun e => s!"failed to read {path}: " ++ e.message
  let document ← match Json.ofText? text with
    | some document => pure document.sorted
    | none => throw s!"invalid JSON in {path}: the text is no JSON value"
  let report := f.importLegacy document
  let warnings : Json := .arr (report.warnings.map Warning.toJson)
  match report.outcome with
  | .ok args =>
    if json then
      return done (prettyLine (gathered [("uuid", .str f.uuid.toText), ("version", .nat f.version),
        ("args", args.toJson), ("warnings", warnings)]))
    else return ⟨0, prettyLine args.toJson, lines (report.warnings.map Warning.text)⟩
  | .error failures =>
    if json then
      return ⟨1, prettyLine (gathered [("errors", .arr (failures.map Failure.toJson)),
        ("warnings", warnings)]), ""⟩
    else return ⟨1, "", lines (failures.map Failure.text)⟩

/-! ## The program -/

/-- The settings that a command line names, or those that hold when it names none. -/
def loadConfig (files : Files) (path : Option String) : Except String Config :=
  match path with
  | none => .ok {}
  | some path => do
    let text ← (files path).mapError fun e =>
      s!"config {path}: failed to read config {path}: " ++ e.message ++ ": " ++ e.message
    (Config.ofText text).mapError fun e => s!"config {path}: " ++ e.message

/-- Carry out a command. -/
def perform (files : Files) (task : Task) (given : Given) : Result := do
  let config ← loadConfig files given.config
  let r := Builtin.registry
  let operand := given.operand.getD ""
  match task with
  | .list => return list r given.json
  | .describe => describe r operand given.json
  | .preflight => preflight r files config operand given.json
  | .run => run r files config operand given.json
  | .importLegacy => importLegacy r files (given.filter.getD "") operand given.json

/-- What a program that was called in a wrong way says. -/
def misuseText : String :=
  "error: the command line is not understood\n\nFor more information, try '--help'.\n"

/-- Answer a command line. -/
def answer (files : Files) (arguments : List String) : Outcome :=
  match Request.ofArguments arguments with
  | .perform task given =>
    match perform files task given with
    | .ok outcome => outcome
    | .error reason => failed reason
  | .showHelp topic => done topic.text
  | .showVersion => done versionText
  | .misuse => ⟨2, "", misuseText⟩

/-- The files that a command line may have to read. -/
def paths (arguments : List String) : List String :=
  match Request.ofArguments arguments with
  | .perform task given =>
    let operand := if task.operand?.any Operand.isPath then given.operand.toList else []
    given.config.toList ++ operand
  | _ => []

end FilterTree.Command
