import FilterTree.Builtin.Editing

/-!
# The filter that creates an array

The array is created by the filter's action and filled by its body, chunk after
chunk. Before each chunk the body looks whether the run has been cancelled, and
after it the counter may send a message, upon which the run may be cancelled; a
cancelled body therefore leaves whole chunks at the front filled and the rest as
it was.

Inside an attribute matrix the array takes the matrix's tuple shape, whatever
the arguments say. Version 1 of the schema had a number of components where
version 2 has a component shape.
-/

namespace FilterTree.Builtin.CreateArray

open Legacy (Importer)

/-- Key of the element type. -/
def typeKey : String := "numeric_type"
/-- Key of the component shape. -/
def componentsKey : String := "component_shape"
/-- Key of the tuple shape. -/
def tuplesKey : String := "tuple_dimensions"
/-- Key of the path of the array. -/
def outputKey : String := "output_array_path"
/-- Key of the text of the value that fills the array. -/
def valueKey : String := "initialization_value"
/-- Key of the number of components in version 1. -/
def componentCountKey : String := "component_count"

/-- What is wrong with the arguments. -/
inductive Error where
  | zeroComponents (components : Shape)
  | badValue (text : String) (type : ElementType)
  | unreadableValue (text : String)
  | countNotUnsigned (kindName : String)

/-- Wrong arguments as a failure. -/
def Error.failure : Error → Failure
  | zeroComponents components =>
    ⟨.argument, -8020,
      "component dimensions must all be non-zero, got " ++ Numeral.natsText components⟩
  | badValue text type =>
    ⟨.argument, -8021, s!"initialization value '{text}' is not a valid " ++ type.name⟩
  | unreadableValue text => ⟨.argument, -8021, s!"initialization value '{text}' is not valid"⟩
  | countNotUnsigned kindName =>
    ⟨.argument, -202, s!"'{componentCountKey}' must be an unsigned integer, got a {kindName}"⟩

/-- The parameters. -/
def schema : Schema :=
  Schema.empty
    |>.separator "Input Parameter(s)"
    |>.insert (.elementType typeKey "Output Numeric Type" "Numeric type of the created array"
        .int32)
    |>.insert (.string valueKey "Initialization Value" "Value every element is set to" "0")
    |>.insert (.tupleShape componentsKey "Component Dimensions"
        "Slowest to fastest component dimensions" [1])
    |>.insert (.tupleShape tuplesKey "Data Array Dimensions (Slowest to Fastest Dimensions)"
        "Used only when the parent is not an Attribute Matrix" [1])
    |>.separator "Output Data Array"
    |>.insert (.arrayCreation outputKey "Created Array" "Path of the array to create"
        (.single "Data"))

/-- The tuple shape: that of the matrix in which the array is created, else the one given. -/
def tuplesFor (t : Tree) (parent : Path) (args : Arguments) : Except Failure Shape := do
  if parent.isRoot then args.get .shape tuplesKey
  else if (← fromTree (t.kindAt parent)) = .attributeMatrix then
    fromTree (t.matrixShapeAt parent)
  else args.get .shape tuplesKey

/-- One action that creates the array, and its number of values as advice. -/
def plan (t : Tree) (args : Arguments) : Except Failure Plan := do
  let type ← args.get .elementType typeKey
  let components ← args.get .shape componentsKey
  let path ← args.get .path outputKey
  let text ← args.get .string valueKey
  if components.contains 0 then throw (Error.zeroComponents components).failure
  if (type.parse? text).isNone then throw (Error.badValue text type).failure
  let tuples ← tuplesFor t (path.parent?.getD .root) args
  let count ← checkedCount (TreeError.quote path) tuples components
  return (Plan.ok [.createArray path type tuples components]).advise "Number of Values"
    (Numeral.natText count)

/-! ## Filling -/

/-- Number of elements between two looks at whether the run has been cancelled. -/
def chunkSize : Nat := 64 * 1024

/-- The places at which chunks of a row begin. -/
def chunkStarts (size : Nat) : List Nat :=
  (List.range ((size + chunkSize - 1) / chunkSize)).map (· * chunkSize)

/-- Fill one chunk, unless the run has been cancelled. -/
def fillChunk (value : α) (state : Array α × Counter × Run) (start : Nat) :
    Array α × Counter × Run :=
  let (row, counter, run) := state
  if run.cancelled then state
  else
    let stop := min (start + chunkSize) row.size
    (DenseStore.modifyRow (fun _ => value) start stop row, counter.advance (stop - start) run)

/-- Fill a row chunk after chunk. -/
def fillRow (value : α) (row : Array α) (run : Run) : Array α × Run :=
  let counter := Counter.new "Initializing array" row.size
  let (row, _, run) := (chunkStarts row.size).foldl (fillChunk value) (row, counter, run)
  (row, run)

/-- Fill the array at a path with the value of a text. -/
def fill (type : ElementType) (path : Path) (text : String) : Attempt Completion := do
  let value ← match type.parse? text with
    | some value => pure value
    | none => throw (Error.unreadableValue text).failure
  let store ← .ask fun t => t.denseAt path type
  let row ← .ask fun _ => store.row.mapError (TreeError.store path)
  let w ← get
  let (filled, run) := fillRow value row w.run
  let array : DataArray := ⟨type, { store with row? := some filled }⟩
  set (⟨w.tree.setBodyAt path (.array array), run⟩ : Workspace)
  return if run.cancelled then .cancelled else .finished

/-- Read the arguments and fill the array. -/
def work (args : Arguments) : Attempt Completion := do
  let type ← .ofExcept (args.get .elementType typeKey)
  let path ← .ofExcept (args.get .path outputKey)
  let text ← .ofExcept (args.get .string valueKey)
  fill type path text

/-! ## Older arguments -/

/-- The number of components became a shape. -/
def upgradedCount (count : Nat) : Warning :=
  ⟨-8022, s!"'{componentCountKey}' = {count} became '{componentsKey}' = [{count}]"⟩

/-- Arguments from those of version 1. -/
def upgradeFrom (older : Nat) (args : Arguments) : Report Arguments :=
  if older ≠ 1 then .fail (ArgumentError.olderVersion "CreateDataArray" older none).failure
  else match args.get? componentCountKey with
    | none => .ok args
    | some value =>
      let rest := args.erase componentCountKey
      match value.asSize? with
      | some count =>
        (Report.ok (rest.insert componentsKey (.shape [count]))).warn (upgradedCount count)
      | none => .fail (Error.countNotUnsigned value.kindName).failure

/-- Arguments from an older document. -/
def importLegacy (document : Json) : Report Arguments :=
  Importer.new document schema.defaults
    |>.convert "ScalarType" typeKey .scalarType .required
    |>.convert "NumberOfComponents" componentsKey .componentCount .optional
    |>.convert "NewArray" outputKey .arrayPath .required
    |>.convert "InitializationValue" valueKey .string .optional
    |>.ignore "InitializationType"
    |>.ignore "InitializationRange"
    |>.finish

/-- Adds an array and fills it with a value. -/
def filter : Filter where
  name := "CreateDataArray"
  humanName := "Create Data Array"
  uuid := .ofNat 0x6d42caa4ee484753a772ca15395c9e35
  tags := ["Core", "Generation", "Create", "Array", "Initialize"]
  schema := schema
  version := 2
  plan t args := return .ofExcept (plan t args)
  body args := (work args).report
  importLegacy := importLegacy
  upgradeFrom := upgradeFrom

end FilterTree.Builtin.CreateArray
