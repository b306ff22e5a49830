import FilterTree.Argument

/-!
# Parameters

A parameter is one declared input of a filter: a key, what is shown for it, a
default, and a kind that says which values it takes. Two checks belong to a
kind. `accepts` asks only whether a value is of the right sort; `checkValue`
also asks for what the parameter declares about it, and can be answered without
a tree.
-/

namespace FilterTree

/-- Which numbers a number parameter takes. -/
inductive NumberKind where
  | int
  | uint
  | float
deriving DecidableEq, Repr

/-- Name of a sort of number. -/
def NumberKind.name : NumberKind → String
  | int => "int"
  | uint => "u_int"
  | float => "float"

/-- What values a parameter takes. -/
inductive ParameterKind where
  | bool
  | number (kind : NumberKind) (least greatest : Option Float)
  | string
  | objectName
  | choices (choices : List String)
  | elementType
  | tupleShape
  | floats (length : Nat)
  | uints (length : Nat)
  | arraySelection (types : List ElementType) (componentShapes : List Shape)
  | listSelection (types : List ElementType)
  | groupSelection
  | matrixSelection
  | geometrySelection
  | objectSelection
  | objectsSelection
  | groupCreation
  | arrayCreation
deriving DecidableEq

namespace ParameterKind

/-- Whether the value is the path of one object, selected or to be created. -/
def takesPath : ParameterKind → Bool
  | arraySelection .. | listSelection _ | groupSelection | matrixSelection | geometrySelection
  | objectSelection | groupCreation | arrayCreation => true
  | _ => false

/-- Whether the value is the path of an object to be created. -/
def isCreation : ParameterKind → Bool
  | groupCreation | arrayCreation => true
  | _ => false

/-- Whether a value is of the sort that a kind takes. -/
def accepts : ParameterKind → Argument → Bool
  | bool, .bool _ => true
  | string, .string _ => true
  | objectName, .string _ => true
  | choices _, .choice _ => true
  | elementType, .elementType _ => true
  | tupleShape, .shape _ => true
  | tupleShape, .uints _ => true
  | floats _, .floats _ => true
  | uints _, .uints _ => true
  | objectsSelection, .paths _ => true
  | number .int _ _, value => value.asInt64?.isSome
  | number .uint _ _, value => value.asUInt64?.isSome
  | number .float _ _, value => value.asDouble?.isSome
  | kind, .path _ => kind.takesPath
  | _, _ => false

/-- Name of a kind in a message. -/
def text : ParameterKind → String
  | bool => "bool"
  | number .. => "number"
  | string => "string"
  | objectName => "data object name"
  | choices _ => "choices"
  | elementType => "data type"
  | tupleShape => "tuple shape"
  | floats _ => "float vector"
  | uints _ => "uint vector"
  | arraySelection .. => "array selection"
  | listSelection _ => "neighbor list selection"
  | groupSelection => "data group selection"
  | matrixSelection => "attribute matrix selection"
  | geometrySelection => "geometry selection"
  | objectSelection => "data object selection"
  | objectsSelection => "multi object selection"
  | groupCreation => "data group creation"
  | arrayCreation => "array creation"

/-- A kind as a record that begins with its name. -/
def toJson (kind : ParameterKind) : Json :=
  let named (name : String) (fields : List (String × Json)) : Json :=
    .obj (("kind", .str name) :: fields)
  let types (ts : List ElementType) : String × Json :=
    ("allowed_types", .strs (ts.map ElementType.name))
  match kind with
  | bool => named "bool" []
  | number kind least greatest =>
    named "number" [("kind", .str kind.name), ("min", .ofOption .double least),
      ("max", .ofOption .double greatest)]
  | string => named "string" []
  | objectName => named "data_object_name" []
  | choices cs => named "choices" [("choices", .strs cs)]
  | elementType => named "data_type_choice" []
  | tupleShape => named "tuple_shape" []
  | floats n => named "float_vec" [("len", .nat n)]
  | uints n => named "u_int_vec" [("len", .nat n)]
  | arraySelection ts shapes =>
    named "array_selection" [types ts, ("allowed_component_shapes", .arr (shapes.map .nats))]
  | listSelection ts => named "neighbor_list_selection" [types ts]
  | groupSelection => named "data_group_selection" []
  | matrixSelection => named "attribute_matrix_selection" []
  | geometrySelection => named "geometry_selection" []
  | objectSelection => named "data_object_selection" []
  | objectsSelection => named "multi_object_selection" []
  | groupCreation => named "data_group_creation" []
  | arrayCreation => named "array_creation" []

end ParameterKind

/-- A declared input of a filter. -/
structure Parameter where
  key : String
  label : String
  description : String
  default : Argument
  kind : ParameterKind
  /-- Has to be given while active. -/
  required : Bool
  /-- Names objects that the filter's own actions take away or rename. -/
  consumed : Bool
deriving DecidableEq

namespace Parameter

/-- A parameter; one that selects or creates objects is required. -/
def new (key label description : String) (default : Argument) (kind : ParameterKind) :
    Parameter where
  key := key
  label := label
  description := description
  default := default
  kind := kind
  required := kind.takesPath || kind == .objectsSelection
  consumed := false

/-- A parameter whose default is used when the argument is absent. -/
def optional (p : Parameter) : Parameter := { p with required := false }

/-- A parameter that has to be given. -/
def mandatory (p : Parameter) : Parameter := { p with required := true }

/-- A parameter whose selection the filter's own actions take away or rename. -/
def consuming (p : Parameter) : Parameter := { p with consumed := true }

/-- A number parameter with bounds; other parameters stay as they are. -/
def withRange (p : Parameter) (least greatest : Option Float) : Parameter :=
  match p.kind with
  | .number kind _ _ => { p with kind := .number kind least greatest }
  | _ => p

/-- A name has to be valid. -/
def checkName (p : Parameter) (name : String) : Except ArgumentError Unit :=
  if validName name then .ok () else .error (.invalidName p.label name)

/-- Whether a value is what the parameter declares; no tree is needed for that. -/
def checkValue (p : Parameter) (value : Argument) : Except ArgumentError Unit :=
  if !p.kind.accepts value then .error (.unacceptable p.label p.kind.text value.kindName)
  else match p.kind, value with
    | .number _ least greatest, value =>
      let x := value.asDouble?.getD 0
      if least.any (fun l => x < l) || greatest.any (fun g => g < x) then
        .error (.outOfRange p.label x least greatest)
      else .ok ()
    | .choices cs, .choice i =>
      if i < cs.length then .ok () else .error (.invalidChoice p.label i cs.length)
    | .objectName, .string name => p.checkName name
    | .tupleShape, value =>
      let shape := value.asShape?.getD []
      if shape.isEmpty then .error (.emptyShape p.label)
      else match Shape.elementCount shape [1] with
        | .ok _ => .ok ()
        | .error e => .error (.shapeOverflow ("'" ++ p.label ++ "'") e)
    | .floats n, .floats xs =>
      if xs.length = n then .ok () else .error (.wrongLength p.label n xs.length)
    | .uints n, .uints ns =>
      if ns.length = n then .ok () else .error (.wrongLength p.label n ns.length)
    | .groupCreation, .path q | .arrayCreation, .path q => p.checkName (q.name?.getD "")
    | _, _ => .ok ()

/-- A parameter as a record. -/
def toJson (p : Parameter) : Json :=
  .obj [("key", .str p.key), ("label", .str p.label), ("description", .str p.description),
    ("default", p.default.toJson), ("kind", p.kind.toJson), ("required", .bool p.required),
    ("consumed", .bool p.consumed)]

/-! ## The parameters of each kind -/

variable (key label description : String)

/-- A truth value. -/
def bool (default : Bool) : Parameter := new key label description (.bool default) .bool

/-- An integer. -/
def int (default : Int) : Parameter :=
  new key label description (.int default) (.number .int none none)

/-- A natural number. -/
def uint (default : Nat) : Parameter :=
  new key label description (.uint default) (.number .uint none none)

/-- A number. -/
def float (default : Float) : Parameter :=
  new key label description (.float default) (.number .float none none)

/-- A text. -/
def string (default : String) : Parameter := new key label description (.string default) .string

/-- The name of an object to be created next to a selection. -/
def objectName (default : String) : Parameter :=
  new key label description (.string default) .objectName

/-- One of several choices, by its place. -/
def choices (default : Nat) (cs : List String) : Parameter :=
  new key label description (.choice default) (.choices cs)

/-- An element type. -/
def elementType (default : ElementType) : Parameter :=
  new key label description (.elementType default) .elementType

/-- A tuple shape. -/
def tupleShape (default : Shape) : Parameter :=
  new key label description (.shape default) .tupleShape

/-- Three numbers. -/
def floats3 (default : Triple Float) : Parameter :=
  new key label description (.floats default.toList) (.floats 3)

/-- Three natural numbers. -/
def uints3 (default : Triple Nat) : Parameter :=
  new key label description (.uints default.toList) (.uints 3)

/-- An array of some types and component shapes; an empty list allows all. -/
def arraySelection (default : Path) (types : List ElementType) (shapes : List Shape) : Parameter :=
  new key label description (.path default) (.arraySelection types shapes)

/-- A neighbor list of some types; an empty list allows all. -/
def listSelection (default : Path) (types : List ElementType) : Parameter :=
  new key label description (.path default) (.listSelection types)

/-- A group, or a geometry, which can hold what a group holds. -/
def groupSelection (default : Path) : Parameter :=
  new key label description (.path default) .groupSelection

/-- An attribute matrix. -/
def matrixSelection (default : Path) : Parameter :=
  new key label description (.path default) .matrixSelection

/-- A geometry. -/
def geometrySelection (default : Path) : Parameter :=
  new key label description (.path default) .geometrySelection

/-- An object of any kind. -/
def objectSelection (default : Path) : Parameter :=
  new key label description (.path default) .objectSelection

/-- Objects of any kind. -/
def objectsSelection (default : List Path) : Parameter :=
  new key label description (.paths default) .objectsSelection

/-- The path of a group or another container to be created. -/
def groupCreation (default : Path) : Parameter :=
  new key label description (.path default) .groupCreation

/-- The path of an array to be created. -/
def arrayCreation (default : Path) : Parameter :=
  new key label description (.path default) .arrayCreation

end Parameter

end FilterTree
