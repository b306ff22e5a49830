import FilterTree.Json.Writer
import FilterTree.Pipeline.Basic
import FilterTree.Registry

/-!
# Pipeline documents

A pipeline is kept as a JSON text that names each filter by identifier and says
for which version of its parameters the arguments were written. Version and
arguments may be left out, and so may the mark that a filter is enabled. A
document becomes a pipeline by looking its filters up in a registry and bringing
their arguments to the current version; the first filter for which that cannot
be done is the error.
-/

namespace FilterTree

/-- A filter of a document. -/
structure DocumentEntry where
  uuid : Uuid
  version : Nat
  arguments : Arguments
  enabled : Bool

/-- A pipeline as it is written down. -/
structure PipelineDocument where
  name : String
  filters : List DocumentEntry

/-- Why a text or a document is no pipeline. -/
inductive DocumentError where
  | unreadable
  | unknownFilter (index : Nat) (cause : RegistryError)
  | notUpgraded (index : Nat) (filter : String) (failures : List Failure)

/-- The text of an error of a document. -/
def DocumentError.message : DocumentError → String
  | unreadable => "invalid pipeline document: the text is no JSON record of a pipeline"
  | unknownFilter index cause => s!"filter {index}: " ++ cause.message
  | notUpgraded index filter failures =>
    s!"filter {index} ({filter}): " ++ "; ".intercalate (failures.map Failure.text)

/-! ## Text -/

namespace DocumentEntry

/-- An entry as a record. -/
def toJson (e : DocumentEntry) : Json :=
  .obj [("uuid", .str e.uuid.toText), ("version", .nat e.version),
    ("args", e.arguments.toJson), ("enabled", .bool e.enabled)]

/-- The value of a part, or what it stands for when it is left out. -/
def partOr (default : α) (read : Json → Option α) : Option Json → Option α
  | none => some default
  | some j => read j

/-- What is wanted of the text of an entry. -/
def interest : Json.Interest :=
  .record [("uuid", .whole), ("version", .whole), ("args", .each Argument.interest),
    ("enabled", .whole)]

/-- Read an entry. -/
def ofJson? (j : Json) : Option DocumentEntry := do
  match ← j.parts? ["uuid", "version", "args", "enabled"] with
  | [some uuid, version, arguments, enabled] =>
    let uuid ← Uuid.ofText? (← uuid.asString?)
    let version ← partOr 1 (Json.asIntIn? (.unsigned 32)) version
    let arguments ← partOr Arguments.none Arguments.ofJson? arguments
    let enabled ← partOr true Json.asBool? enabled
    return ⟨uuid, version.toNat, arguments, enabled⟩
  | _ => none

end DocumentEntry

namespace PipelineDocument

/-- A document as a record. -/
def toJson (d : PipelineDocument) : Json :=
  .obj [("name", .str d.name), ("filters", .arr (d.filters.map DocumentEntry.toJson))]

/-- A document as a text. -/
def toText (d : PipelineDocument) : String := d.toJson.pretty

/-- Read a document. -/
def ofJson? (j : Json) : Option PipelineDocument := do
  match ← j.allParts? ["name", "filters"] with
  | [name, filters] => return ⟨← name.asString?, ← filters.asListOf? DocumentEntry.ofJson?⟩
  | _ => none

/-- What is wanted of the text of a document. -/
def interest : Json.Interest :=
  .record [("name", .whole), ("filters", .each DocumentEntry.interest)]

/-- Read a document from a text. -/
def ofText (text : String) : Except DocumentError PipelineDocument :=
  match (Json.ofTextFor? interest text).bind ofJson? with
  | some d => .ok d
  | none => .error .unreadable

/-! ## Pipelines -/

/-- The document of a pipeline, its arguments being of the current versions. -/
def ofPipeline (p : Pipeline) : PipelineDocument where
  name := p.name
  filters := p.nodes.map fun node =>
    ⟨node.filter.uuid, node.filter.version, node.arguments, node.enabled⟩

/-- The filter of an entry with its arguments in the current version, and warnings about them. -/
def toNode (registry : Registry) (index : Nat) (e : DocumentEntry) :
    Except DocumentError (PipelineNode × List Warning) := do
  let f ← (registry.get e.uuid).mapError (.unknownFilter index)
  let upgraded := f.upgrade e.version e.arguments
  let arguments ← upgraded.outcome.mapError (.notUpgraded index f.name)
  return (⟨f, arguments, e.enabled⟩, upgraded.warnings)

/-- The pipeline of a document, and warnings about its arguments. -/
def toPipeline (registry : Registry) (d : PipelineDocument) :
    Except DocumentError (Pipeline × List Warning) := do
  let nodes ← d.filters.zipIdx.mapM fun (e, index) => toNode registry index e
  return (⟨d.name, nodes.map (·.1), false⟩, nodes.flatMap (·.2))

end PipelineDocument

end FilterTree
