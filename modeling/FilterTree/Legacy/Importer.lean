import FilterTree.Legacy.Converter

/-!
# Importing older documents

An importer begins with the defaults of a filter and is told, key by key, how
the document's values become arguments. It collects what goes wrong and goes on.
A key that is absent keeps the default with a warning, or is a failure where it
is required; at the end every key that nobody asked for is a warning too, except
those that describe the document itself.
-/

namespace FilterTree.Legacy

/-- Whether a key of a document has to be there. -/
inductive Requirement where
  | required
  | optional
deriving DecidableEq, Repr

/-- Keys with which a document describes itself. -/
def metadataKeys : List String :=
  ["Filter_Enabled", "Filter_Human_Label", "Filter_Name", "Filter_Uuid", "FilterVersion"]

/-- What happened to a key of a document. -/
inductive Notice where
  | keepsDefault (legacyKey key : String)
  | requiredMissing (legacyKey : String)
  | notConverted (legacyKey : String) (cause : Mismatch)
  | leftOver (legacyKey : String)
  | notAnObject

namespace Notice

/-- The code of a notice. -/
def code : Notice → Int
  | keepsDefault .. => -401
  | requiredMissing .. => -402
  | notConverted .. => -403
  | leftOver .. => -404
  | notAnObject => -405

/-- The text of a notice. -/
def message : Notice → String
  | keepsDefault legacyKey key => s!"legacy key '{legacyKey}' is missing; '{key}' keeps its default"
  | requiredMissing legacyKey => s!"required legacy key '{legacyKey}' is missing"
  | notConverted legacyKey cause => s!"legacy key '{legacyKey}': " ++ cause.message
  | leftOver legacyKey => s!"legacy key '{legacyKey}' was not converted"
  | notAnObject => "legacy parameter document is not a JSON object"

/-- A notice that stands in the way of an import. -/
def failure (n : Notice) : Failure := ⟨.legacyImport, n.code, n.message⟩

/-- A notice that does not. -/
def warning (n : Notice) : Warning := ⟨n.code, n.message⟩

end Notice

/-- An import under way: the document if it is one, and what has come of it so far. -/
structure Importer where
  document : Option (SortedMap String Json)
  arguments : Arguments
  report : Report Unit
  consumed : List String

namespace Importer

/-- Begin with the defaults of a filter. -/
def new (document : Json) (defaults : Arguments) : Importer :=
  match document with
  | .obj fields => ⟨some (.ofList fields), defaults, .ok (), []⟩
  | _ => ⟨none, defaults, .fail Notice.notAnObject.failure, []⟩

/-- Mark a key as understood. -/
def ignore (i : Importer) (legacyKey : String) : Importer :=
  { i with consumed := i.consumed ++ [legacyKey] }

/-- Convert the value of a key of the document to the argument under a key of the filter. -/
def convert (i : Importer) (legacyKey key : String) (converter : Converter)
    (requirement : Requirement) : Importer :=
  match i.document with
  | none => i
  | some document =>
    let i := i.ignore legacyKey
    match document.get? legacyKey, requirement with
    | some value, _ =>
      match converter.convert value with
      | .ok argument => { i with arguments := i.arguments.insert key argument }
      | .error cause =>
        { i with report := i.report.addFailure (Notice.notConverted legacyKey cause).failure }
    | none, .optional =>
      { i with report := i.report.warn (Notice.keepsDefault legacyKey key).warning }
    | none, .required =>
      { i with report := i.report.addFailure (Notice.requiredMissing legacyKey).failure }

/-- The keys that nobody asked for, in the order of the document. -/
def leftOver (i : Importer) : List String :=
  match i.document with
  | none => []
  | some document => document.keys.filter fun key =>
    !i.consumed.contains key && !metadataKeys.contains key

/-- The arguments, or everything that stood in the way. -/
def finish (i : Importer) : Report Arguments :=
  (i.report.warnAll (i.leftOver.map fun key => (Notice.leftOver key).warning)).map fun _ =>
    i.arguments

end Importer

end FilterTree.Legacy
