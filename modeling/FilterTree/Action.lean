import FilterTree.Json.Record
import FilterTree.Report
import FilterTree.Tree.Edit

/-!
# Actions

An action is a change of the tree as a value. A filter answers with the actions
it wants before anything happens, so they can be shown, compared and tried out
first. Applied for trial an action creates arrays and lists without their
elements; applied for good it allocates them. Nothing else about an action
depends on the mode.

A batch is applied in order and stops at the first action that is refused; what
was applied before it stays applied.
-/

namespace FilterTree

/-- Whether a change is tried out or made. -/
inductive Mode where
  | preflight
  | execute
deriving DecidableEq, Repr

/-- Whether arrays and lists get their elements. -/
def Mode.allocates : Mode → Bool
  | preflight => false
  | execute => true

/-- A change of the tree. -/
inductive Action where
  | createGroup (path : Path)
  | createMatrix (path : Path) (tuples : Shape)
  | createArray (path : Path) (type : ElementType) (tuples components : Shape)
  | createList (path : Path) (type : ElementType) (tuples : Shape)
  | createImage (path : Path) (dimensions : Triple Nat) (spacing origin : Triple Float32)
      (cellDataName : String)
  | createVertex (path : Path) (count : Nat) (vertexDataName coordinatesName : String)
  | rename (path : Path) (name : String)
  | move (path newParent : Path)
  | delete (path : Path)
  | resizeMatrix (path : Path) (tuples : Shape)
deriving DecidableEq

namespace Action

/-- The path an action works on. -/
def target : Action → Path
  | createGroup path
  | createMatrix path _
  | createArray path ..
  | createList path ..
  | createImage path ..
  | createVertex path ..
  | rename path _
  | move path _
  | delete path
  | resizeMatrix path _ => path

/-- The paths that there are after an action and were not before. -/
def createdPaths : Action → List Path
  | createGroup path
  | createMatrix path _
  | createArray path ..
  | createList path .. => [path]
  | createImage path _ _ _ cellDataName => [path, path.child cellDataName]
  | createVertex path _ vertexDataName coordinatesName =>
    [path, path.child coordinatesName, path.child vertexDataName]
  | rename path name => [path.withName name]
  | move path newParent => (path.name?.map newParent.child).toList
  | delete _ | resizeMatrix .. => []

/-- Whether an action only adds objects. -/
def isCreate : Action → Bool
  | rename .. | move .. | delete .. | resizeMatrix .. => false
  | _ => true

/-- An action on one line. -/
def text : Action → String
  | createGroup path => "create data group " ++ TreeError.quote path
  | createMatrix path tuples =>
    "create attribute matrix " ++ TreeError.quote path ++ " with tuples " ++ Numeral.natsText tuples
  | createArray path type tuples components =>
    "create " ++ type.name ++ " array " ++ TreeError.quote path ++ " " ++ Numeral.natsText tuples
      ++ " x " ++ Numeral.natsText components
  | createList path type tuples =>
    "create " ++ type.name ++ " neighbor list " ++ TreeError.quote path ++ " "
      ++ Numeral.natsText tuples
  | createImage path dimensions _ _ _ =>
    "create image geometry " ++ TreeError.quote path ++ " " ++ Numeral.natsText dimensions.toList
  | createVertex path count _ _ =>
    "create vertex geometry " ++ TreeError.quote path ++ " with " ++ Numeral.natText count
      ++ " vertices"
  | rename path name => "rename " ++ TreeError.quote path ++ " to '" ++ name ++ "'"
  | move path newParent => "move " ++ TreeError.quote path ++ " into " ++ TreeError.quote newParent
  | delete path => "delete " ++ TreeError.quote path
  | resizeMatrix path tuples =>
    "resize attribute matrix " ++ TreeError.quote path ++ " to " ++ Numeral.natsText tuples

/-! ## Applying -/

/-- Create an object and drop its number. -/
def create (path : Path) (body : Body) : Edit Unit := do let _ ← Edit.create path body

/-- An array or a list that could not be built is refused at its path. -/
def built (path : Path) (r : Except StoreError α) : Edit α :=
  Edit.ask fun _ => r.mapError (TreeError.store path)

/-- Carry out an action. -/
def apply (mode : Mode) : Action → Edit Unit
  | createGroup path => create path .group
  | createMatrix path tuples => create path (.matrix tuples)
  | createArray path type tuples components => do
    let a ← built path (DataArray.fresh type tuples components mode.allocates)
    create path (.array a)
  | createList path type tuples => do
    let l ← built path (NeighborList.fresh type tuples mode.allocates)
    create path (.list l)
  | createImage path dimensions spacing origin cellDataName => do
    let _ ← Edit.createImage path dimensions spacing origin cellDataName
  | createVertex path count vertexDataName coordinatesName => do
    let _ ← Edit.createVertex path count vertexDataName coordinatesName mode.allocates
  | rename path name => Edit.rename path name
  | move path newParent => Edit.move path newParent
  | delete path => do let _ ← Edit.remove path
  | resizeMatrix path tuples => Edit.resizeMatrix path tuples

/-! ## JSON -/

/-- The name of each kind of action and of its parts. -/
def layout : List (String × List String) :=
  [("create_data_group", ["path"]),
    ("create_attribute_matrix", ["path", "tuple_shape"]),
    ("create_array", ["path", "data_type", "tuple_shape", "component_shape"]),
    ("create_neighbor_list", ["path", "data_type", "tuple_shape"]),
    ("create_image_geometry", ["path", "dimensions", "spacing", "origin", "cell_data_name"]),
    ("create_vertex_geometry",
      ["path", "vertex_count", "vertex_data_name", "shared_vertex_list_name"]),
    ("rename", ["path", "new_name"]),
    ("move", ["path", "new_parent"]),
    ("delete", ["path"]),
    ("resize_attribute_matrix", ["path", "tuple_shape"])]

/-- Name of the kind of an action. -/
def kindName : Action → String
  | createGroup .. => "create_data_group"
  | createMatrix .. => "create_attribute_matrix"
  | createArray .. => "create_array"
  | createList .. => "create_neighbor_list"
  | createImage .. => "create_image_geometry"
  | createVertex .. => "create_vertex_geometry"
  | rename .. => "rename"
  | move .. => "move"
  | delete .. => "delete"
  | resizeMatrix .. => "resize_attribute_matrix"

/-- The parts of an action in the order of their names. -/
def partValues : Action → List Json
  | createGroup path => [.path path]
  | createMatrix path tuples => [.path path, .nats tuples]
  | createArray path type tuples components =>
    [.path path, .str type.name, .nats tuples, .nats components]
  | createList path type tuples => [.path path, .str type.name, .nats tuples]
  | createImage path dimensions spacing origin cellDataName =>
    [.path path, .nats dimensions.toList, .arr (spacing.toList.map .single),
      .arr (origin.toList.map .single), .str cellDataName]
  | createVertex path count vertexDataName coordinatesName =>
    [.path path, .nat count, .str vertexDataName, .str coordinatesName]
  | rename path name => [.path path, .str name]
  | move path newParent => [.path path, .path newParent]
  | delete path => [.path path]
  | resizeMatrix path tuples => [.path path, .nats tuples]

/-- An action as a record that begins with its kind. -/
def toJson (a : Action) : Json :=
  let names := (layout.lookup a.kindName).getD []
  .obj (("type", .str a.kindName) :: names.zip a.partValues)

/-- The action of a kind with given parts, which were held back until the kind was known. -/
def ofParts? : String → List Json → Option Action
  | "create_data_group", [path] => do return createGroup (← path.asPath?)
  | "create_attribute_matrix", [path, tuples] => do
    return createMatrix (← path.asPath?) (← tuples.asShape?)
  | "create_array", [path, type, tuples, components] => do
    return createArray (← path.asPath?) (← type.heldBack.asElementType?) (← tuples.asShape?)
      (← components.asShape?)
  | "create_neighbor_list", [path, type, tuples] => do
    return createList (← path.asPath?) (← type.heldBack.asElementType?) (← tuples.asShape?)
  | "create_image_geometry", [path, dimensions, spacing, origin, cellDataName] => do
    return createImage (← path.asPath?) (← dimensions.asTripleOf? Json.asSize?)
      (← spacing.asTripleOf? Json.asSingle?) (← origin.asTripleOf? Json.asSingle?)
      (← cellDataName.asString?)
  | "create_vertex_geometry", [path, count, vertexDataName, coordinatesName] => do
    return createVertex (← path.asPath?) (← count.asSize?) (← vertexDataName.asString?)
      (← coordinatesName.asString?)
  | "rename", [path, name] => do return rename (← path.asPath?) (← name.asString?)
  | "move", [path, newParent] => do return move (← path.asPath?) (← newParent.asPath?)
  | "delete", [path] => do return delete (← path.asPath?)
  | "resize_attribute_matrix", [path, tuples] => do
    return resizeMatrix (← path.asPath?) (← tuples.asShape?)
  | _, _ => none

/-- Read an action: its kind first, then the parts of that kind. -/
def ofJson? (j : Json) : Option Action := do
  let (kind, rest) ← match j with
    | .obj fields =>
      match Json.occurrences "type" fields with
      | [kind] => some (kind, Json.obj (fields.filter fun f => f.1 != "type"))
      | _ => none
    | .arr (kind :: items) => some (kind, Json.arr items)
    | _ => none
  let kind ← kind.asString?
  ofParts? kind (← rest.allParts? (← layout.lookup kind))

end Action

/-! ## Batches -/

/-- Actions in the order in which they are to be applied. -/
abbrev Batch := List Action

/-- The action of a batch that was refused. -/
structure BatchError where
  index : Nat
  action : Action
  cause : TreeError
deriving DecidableEq

namespace BatchError

/-- The text of a refused action. -/
def message (e : BatchError) : String :=
  "action " ++ Numeral.natText e.index ++ " (" ++ e.action.text ++ ") failed: " ++ e.cause.message

/-- A refused action as a failure, with the code of its cause. -/
def failure (e : BatchError) : Failure := ⟨.structural, e.cause.code, e.message⟩

end BatchError

namespace Batch

/-- Every path a batch creates, in order. -/
def createdPaths (b : Batch) : List Path := b.flatMap Action.createdPaths

/-- A batch as JSON. -/
def toJson (b : Batch) : Json := .arr (b.map Action.toJson)

/-- Apply the actions from a place of a batch on, up to the first that is refused. -/
def applyFrom (mode : Mode) : Nat → Batch → Tree → Except BatchError Unit × Tree
  | _, [], t => (.ok (), t)
  | index, a :: rest, t =>
    match (a.apply mode).on t with
    | (.ok (), t) => applyFrom mode (index + 1) rest t
    | (.error e, t) => (.error ⟨index, a, e⟩, t)

/-- Apply a batch. -/
def apply (mode : Mode) (b : Batch) (t : Tree) : Except BatchError Unit × Tree :=
  applyFrom mode 0 b t

end Batch

end FilterTree
