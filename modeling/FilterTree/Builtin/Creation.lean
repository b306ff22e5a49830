import FilterTree.Filter.Basic
import FilterTree.Legacy.Importer

/-!
# Filters that create containers

A group, an attribute matrix, and a regular grid with the matrix of its cell
data. Their plans say all there is to do, so their bodies are empty. That the
new path is free has been checked at the gate; what a plan checks on its own is
what the tree would refuse only later, or never: sizes that overflow, a grid
without cells, cells without extent.
-/

namespace FilterTree.Builtin

open Legacy (Converter Importer)

/-! ## Groups -/

namespace CreateGroup

/-- Key of the path of the group. -/
def pathKey : String := "data_object_path"

/-- The parameters. -/
def schema : Schema :=
  (Schema.empty.separator "Output Data Object").insert
    (.groupCreation pathKey "Data Object Path" "The complete path to the group being created"
      (.single "DataContainer"))

/-- One action that creates the group. -/
def plan (args : Arguments) : Except Failure Plan := do
  let path ← args.get .path pathKey
  return .ok [.createGroup path]

/-- Arguments from an older document. -/
def importLegacy (document : Json) : Report Arguments :=
  ((Importer.new document schema.defaults).convert "CreatedDataContainer" pathKey
    .containerPath .required).finish

/-- Adds an empty group. -/
def filter : Filter where
  name := "CreateDataGroup"
  humanName := "Create Data Group"
  uuid := .ofNat 0x1ffe837a255b4dc997eb45134e1727a0
  tags := ["Core", "Generation", "Create", "Data Structure"]
  schema := schema
  plan _ args := return .ofExcept (plan args)
  importLegacy := importLegacy

end CreateGroup

/-! ## Attribute matrices -/

namespace CreateMatrix

/-- Key of the path of the matrix. -/
def pathKey : String := "data_object_path"
/-- Key of the tuple shape. -/
def tuplesKey : String := "tuple_dimensions"

/-- The parameters. -/
def schema : Schema :=
  Schema.empty
    |>.separator "Input Parameter(s)"
    |>.insert (.groupCreation pathKey "DataObject Path"
        "The complete path to the Attribute Matrix being created"
        ⟨["DataContainer", "Cell Data"]⟩)
    |>.insert (Parameter.tupleShape tuplesKey
        "Attribute Matrix Dimensions (Slowest to Fastest Dimensions)"
        "Slowest to Fastest Dimensions" [1]).optional

/-- One action that creates the matrix, and its number of tuples as advice. -/
def plan (args : Arguments) : Except Failure Plan := do
  let path ← args.get .path pathKey
  let tuples ← args.get .shape tuplesKey
  let count ← checkedCount (TreeError.quote path ++ " tuple dimensions") tuples [1]
  return (Plan.ok [.createMatrix path tuples]).advise "Number of Tuples" (Numeral.natText count)

/-- Arguments from an older document. -/
def importLegacy (document : Json) : Report Arguments :=
  Importer.new document schema.defaults
    |>.convert "TupleDimensions" tuplesKey .tupleShape .optional
    |>.convert "CreatedAttributeMatrix" pathKey .matrixPath .required
    |>.ignore "AttributeMatrixType"
    |>.finish

/-- Adds an attribute matrix with a tuple shape. -/
def filter : Filter where
  name := "CreateAttributeMatrix"
  humanName := "Create Attribute Matrix"
  uuid := .ofNat 0xc3648a2f9a054b5e907c65ab35c88a71
  tags := ["Core", "Generation", "AttributeMatrix", "Create"]
  schema := schema
  plan _ args := return .ofExcept (plan args)
  importLegacy := importLegacy

end CreateMatrix

/-! ## Regular grids -/

namespace CreateImage

/-- Key of the path of the geometry. -/
def pathKey : String := "geometry_path"
/-- Key of the numbers of cells. -/
def dimensionsKey : String := "dimensions"
/-- Key of the corner of the grid. -/
def originKey : String := "origin"
/-- Key of the size of a cell. -/
def spacingKey : String := "spacing"
/-- Key of the name of the matrix of cell data. -/
def cellDataKey : String := "cell_data_name"

/-- What is wrong with a grid. -/
inductive Error where
  | zeroDimension (dimensions : Triple Nat)
  | flatSpacing (spacing : Triple Float32)

/-- A grid that cannot be as a failure. -/
def Error.failure : Error → Failure
  | zeroDimension dimensions =>
    ⟨.argument, -8040,
      "image dimensions must all be non-zero, got " ++ Numeral.natsText dimensions.toList⟩
  | flatSpacing spacing =>
    ⟨.argument, -8041,
      "image spacing must be positive, got " ++ Numeral.listedText32 spacing.toList⟩

/-- The parameters. -/
def schema : Schema :=
  Schema.empty
    |>.separator "Input Parameter(s)"
    |>.insert (.uints3 dimensionsKey "Dimensions" "Number of cells along x, y and z" ⟨1, 1, 1⟩)
    |>.insert (.floats3 originKey "Origin" "Coordinates of the grid corner" ⟨0.0, 0.0, 0.0⟩)
    |>.insert (.floats3 spacingKey "Spacing" "Cell size along x, y and z" ⟨1.0, 1.0, 1.0⟩)
    |>.separator "Output Image Geometry"
    |>.insert (.groupCreation pathKey "Geometry Name" "Path of the geometry to create"
        (.single "Image Geometry"))
    |>.insert (.objectName cellDataKey "Cell Data Name" "Name of the cell attribute matrix"
        "Cell Data")

/-- The first and last coordinate along an axis. -/
def extent (origin spacing : Float32) (cells : Nat) : String :=
  let far := origin + spacing * (UInt64.ofNat cells).toFloat32
  "[" ++ Numeral.messageText32 origin ++ ", " ++ Numeral.messageText32 far ++ "]"

/-- One action that creates the grid, and its number of cells and extents as advice. -/
def plan (args : Arguments) : Except Failure Plan := do
  let path ← args.get .path pathKey
  let dimensions ← args.get .sizes3 dimensionsKey
  let origin ← args.get .singles3 originKey
  let spacing ← args.get .singles3 spacingKey
  let cellDataName ← args.get .string cellDataKey
  if dimensions.toList.contains 0 then throw (Error.zeroDimension dimensions).failure
  if spacing.toList.any fun s => s ≤ 0 then throw (Error.flatSpacing spacing).failure
  let cells ← checkedCount (TreeError.quote path ++ " dimensions") dimensions.toList [1]
  let extents := [extent origin.x spacing.x dimensions.x, extent origin.y spacing.y dimensions.y,
    extent origin.z spacing.z dimensions.z]
  return (Plan.ok [.createImage path dimensions spacing origin cellDataName])
    |>.advise "Number of cells" (Numeral.natText cells)
    |>.advise "Extents" (" x ".intercalate extents)

/-- Arguments from an older document. -/
def importLegacy (document : Json) : Report Arguments :=
  Importer.new document schema.defaults
    |>.convert "SelectedDataContainer" pathKey .containerPath .required
    |>.convert "Dimensions" dimensionsKey .intVector .required
    |>.convert "Origin" originKey .floatVector .optional
    |>.convert "Spacing" spacingKey .floatVector .optional
    |>.convert "ImageCellAttributeMatrixName" cellDataKey .linkedName .optional
    |>.ignore "BoxDimensions"
    |>.finish

/-- Adds a regular grid with the matrix of its cell data. -/
def filter : Filter where
  name := "CreateImageGeometry"
  humanName := "Create Geometry (Image)"
  uuid := .ofNat 0x7febd6bab6c34033a9e09e3f3ef9d96b
  tags := ["Core", "Generation", "Geometry", "Image", "Create"]
  schema := schema
  plan _ args := return .ofExcept (plan args)
  importLegacy := importLegacy

end CreateImage

end FilterTree.Builtin
