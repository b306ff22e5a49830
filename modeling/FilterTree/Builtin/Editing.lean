import FilterTree.Filter.Basic
import FilterTree.Legacy.Importer

/-!
# Filters that edit the tree

Renaming, moving and deleting objects, and resizing an attribute matrix. What
they select is consumed: after their actions it has another name or place, or
is gone, so it is not looked for again before their bodies, which are empty.

Where several objects are selected a plan has to see the selection as a whole.
An object that lies below another deleted one must not be deleted a second time,
and two objects of one name must not be moved to one place.
-/

namespace FilterTree.Builtin

open Legacy (Importer)

/-- What the tree refuses, as a failure. -/
def refused (e : TreeError) : Failure := .ofTree e

/-- What the tree says, or its refusal as a failure. -/
def fromTree (r : Except TreeError α) : Except Failure α := r.mapError refused

/-! ## Renaming -/

namespace Rename

/-- Key of the path of the object. -/
def sourceKey : String := "source_data_object_path"
/-- Key of the new name. -/
def nameKey : String := "new_name"

/-- The parameters. -/
def schema : Schema :=
  Schema.empty
    |>.separator "Input Parameter(s)"
    |>.insert (Parameter.objectSelection sourceKey "DataObject to Rename"
        "Object whose name changes" .root).consuming
    |>.insert (Parameter.objectName nameKey "New Name" "Name after renaming" "").mandatory

/-- The new name is the name that the object has. -/
def sameName (path : Path) (name : String) : Warning :=
  ⟨-8050, TreeError.quote path ++ s!" already has the name '{name}'; nothing to do"⟩

/-- One action that renames the object. -/
def plan (t : Tree) (args : Arguments) : Except Failure Plan := do
  let path ← args.get .path sourceKey
  let name ← args.get .string nameKey
  let parent ← match path.parent? with
    | some parent => pure parent
    | none => throw (refused .rootOperation)
  let report := Report.ok [Action.rename path name]
  if path.name? = some name then return .ofReport (report.warn (sameName path name))
  else if t.contains (parent.child name) then throw (refused (.nameCollision parent name))
  else return .ofReport report

/-- Arguments from an older document. -/
def importLegacy (document : Json) : Report Arguments :=
  Importer.new document schema.defaults
    |>.convert "SelectedDataContainerName" sourceKey .containerPath .required
    |>.convert "NewDataContainerName" nameKey .linkedName .required
    |>.finish

/-- Renames an object in its place. -/
def filter : Filter where
  name := "RenameDataObject"
  humanName := "Rename DataObject"
  uuid := .ofNat 0x66b42cee08be4f2293d048cb1ab171c9
  tags := ["Core", "Memory Management", "Data Management", "Rename"]
  schema := schema
  plan t args := return .ofExcept (plan t args)
  importLegacy := importLegacy

end Rename

/-! ## Moving -/

namespace Move

/-- Key of the paths of the objects. -/
def sourcesKey : String := "source_data_paths"
/-- Key of the path of the new parent. -/
def destinationKey : String := "destination_parent_path"

/-- The parameters. -/
def schema : Schema :=
  Schema.empty
    |>.separator "Input Parameter(s)"
    |>.insert (Parameter.objectsSelection sourcesKey "Data to Move" "Objects to reparent"
        []).consuming
    |>.insert (.objectSelection destinationKey "New Parent"
        "Container that receives the moved objects" .root)

/-- The object is where it is to be moved. -/
def inPlace (path destination : Path) : Warning :=
  ⟨-8060, TreeError.quote path ++ " is already inside " ++ TreeError.quote destination⟩

/-- Whether an object is a child of the destination. -/
def isInPlace (destination path : Path) : Bool := path.parent? == some destination

/-- Warnings about objects in place; `incoming` are the names that are to be moved before. -/
def checkSources (t : Tree) (destination : Path) :
    List String → List Path → Except Failure (List Warning)
  | _, [] => .ok []
  | incoming, path :: rest => do
    let name ← match path.name? with
      | some name => pure name
      | none => throw (refused .rootOperation)
    if path.leadsTo destination then throw (refused (.cycle path destination))
    if isInPlace destination path then
      return inPlace path destination :: (← checkSources t destination incoming rest)
    if t.contains (destination.child name) || incoming.contains name then
      throw (refused (.nameCollision destination name))
    checkSources t destination (name :: incoming) rest

/-- An action for every object that is not in place. -/
def plan (t : Tree) (args : Arguments) : Except Failure Plan := do
  let sources ← args.get .paths sourcesKey
  let destination ← args.get .path destinationKey
  let warnings ← checkSources t destination [] sources
  let moving := sources.filter fun path => !isInPlace destination path
  let actions := moving.map fun path => Action.move path destination
  return .ofReport ((Report.ok actions).warnAll warnings)

/-- Arguments from an older document. -/
def importLegacy (document : Json) : Report Arguments :=
  Importer.new document schema.defaults
    |>.convert "DataArraySourcePath" sourcesKey .arrayPaths .required
    |>.convert "DataContainerDestinationName" destinationKey .matrixPath .required
    |>.ignore "WhatToMove"
    |>.finish

/-- Moves objects under another parent; they keep their names. -/
def filter : Filter where
  name := "MoveData"
  humanName := "Move Data"
  uuid := .ofNat 0x20441059437a4508bd3dc54f16c08929
  tags := ["Core", "Memory Management", "Data Management", "Move"]
  schema := schema
  plan t args := return .ofExcept (plan t args)
  importLegacy := importLegacy

end Move

/-! ## Deleting -/

namespace Delete

/-- Key of the paths of the objects. -/
def pathsKey : String := "removed_data_paths"

/-- The parameters. -/
def schema : Schema :=
  (Schema.empty.separator "Input Parameter(s)").insert
    (Parameter.objectsSelection pathsKey "DataPaths to Remove"
      "Objects removed together with their children" []).consuming

/-- Nothing is selected. -/
def nothingSelected : Warning := ⟨-8070, "no objects selected for deletion"⟩

/-- The object goes together with another one. -/
def covered (path : Path) : Warning :=
  ⟨-8071, TreeError.quote path ++ " is already removed with another selection"⟩

/-- Whether a path of a selection goes with another: one above it, or the same one before it. -/
def isCovered (paths : List Path) (index : Nat) (path : Path) : Bool :=
  paths.zipIdx.any fun (other, j) =>
    j != index && (other.isAncestorOf path || (other == path && j < index))

/-- A deletion for every path that does not go with another, which is a warning instead. -/
def plan (args : Arguments) : Except Failure Plan := do
  let paths ← args.get .paths pathsKey
  if paths.any Path.isRoot then throw (refused .rootOperation)
  let (gone, kept) := paths.zipIdx.partition fun (path, i) => isCovered paths i path
  let actions := kept.map fun (path, _) => Action.delete path
  let empty := if paths.isEmpty then [nothingSelected] else []
  return .ofReport ((Report.ok actions).warnAll (empty ++ gone.map fun (path, _) => covered path))

/-- Arguments from an older document. -/
def importLegacy (document : Json) : Report Arguments :=
  ((Importer.new document schema.defaults).convert "DataArraysToRemove" pathsKey .arrayPaths
    .required).finish

/-- Removes objects with all that lies below them. -/
def filter : Filter where
  name := "DeleteData"
  humanName := "Delete Data"
  uuid := .ofNat 0x622deb8030f840f9b7419bbf5ac52ccd
  tags := ["Core", "Memory Management", "Data Management", "Delete", "Remove"]
  schema := schema
  plan _ args := return .ofExcept (plan args)
  importLegacy := importLegacy

end Delete

/-! ## Resizing a matrix -/

namespace ResizeMatrix

/-- Key of the path of the matrix. -/
def pathKey : String := "attribute_matrix_path"
/-- Key of the new tuple shape. -/
def tuplesKey : String := "new_tuple_dimensions"

/-- The parameters. -/
def schema : Schema :=
  Schema.empty
    |>.separator "Input Parameter(s)"
    |>.insert (.matrixSelection pathKey "Attribute Matrix" "Matrix whose tuple shape changes"
        ⟨["DataContainer", "Cell Data"]⟩)
    |>.insert (.tupleShape tuplesKey
        "New Attribute Matrix Dimensions (Slowest to Fastest Dimensions)"
        "Tuple shape applied to the matrix and every array in it" [1])

/-- Tuples at the end are lost. -/
def shrinking (path : Path) (before after : Nat) : Warning :=
  ⟨-8080, TreeError.quote path
    ++ s!" shrinks from {before} to {after} tuples; data in the removed tuples is lost"⟩

/-- The matrix of a geometry's element data keeps the rank that the geometry needs. -/
def checkOwner (t : Tree) (path : Path) (tuples : Shape) : Except Failure Unit :=
  match path.parent?.bind fun parent => (t.geometryAt parent).toOption with
  | none => .ok ()
  | some g =>
    if g.elementData = t.idOf? path ∧ (g.resized? tuples).isNone then
      .error (refused (.geometryShapeMismatch path g.kind tuples))
    else .ok ()

/-- One action that resizes the matrix, and the numbers of tuples as advice. -/
def plan (t : Tree) (args : Arguments) : Except Failure Plan := do
  let path ← args.get .path pathKey
  let tuples ← args.get .shape tuplesKey
  let before := (← fromTree (t.matrixShapeAt path)).size
  let after ← checkedCount (TreeError.quote path ++ " new tuple dimensions") tuples [1]
  checkOwner t path tuples
  let warnings := if after < before then [shrinking path before after] else []
  return (Plan.ofReport ((Report.ok [Action.resizeMatrix path tuples]).warnAll warnings))
    |>.advise "Current Tuple Count" (Numeral.natText before)
    |>.advise "New Tuple Count" (Numeral.natText after)

/-- Arguments from an older document. -/
def importLegacy (document : Json) : Report Arguments :=
  Importer.new document schema.defaults
    |>.convert "AttributeMatrixPath" pathKey .matrixPath .required
    |>.convert "NewDimensions" tuplesKey .tupleShape .required
    |>.finish

/-- Changes the tuple shape of a matrix together with its arrays. -/
def filter : Filter where
  name := "ResizeAttributeMatrix"
  humanName := "Resize Attribute Matrix"
  uuid := .ofNat 0xd035328c8c414050b08dfeb6bac18c90
  tags := ["Core", "Memory Management", "Attribute Matrix", "Resize"]
  schema := schema
  plan t args := return .ofExcept (plan t args)
  importLegacy := importLegacy

end ResizeMatrix

end FilterTree.Builtin
