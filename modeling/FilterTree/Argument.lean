import FilterTree.Json.Reader
import FilterTree.Json.Record
import FilterTree.OrderedMap
import FilterTree.Report

/-!
# Arguments

What a filter is called with: values of twelve kinds under the keys of its
parameters. Some kinds carry the same data, a shape and a list of natural
numbers for instance, and are told apart by the kind alone; JSON therefore
writes a value together with the name of its kind.

A filter asks for an argument by key and by the type it wants. Integers of
either sign convention are taken for each other where the value allows it, and
for a number with a point; nothing else is converted.
-/

namespace FilterTree

/-- A value that a parameter can be given. -/
inductive Argument where
  | bool (value : Bool)
  | int (value : Int)
  | uint (value : Nat)
  | float (value : Float)
  | string (value : String)
  | path (value : Path)
  | paths (values : List Path)
  | shape (dimensions : Shape)
  | floats (values : List Float)
  | uints (values : List Nat)
  | elementType (value : ElementType)
  | choice (index : Nat)
deriving DecidableEq

namespace Argument

/-- Name of the kind of a value. -/
def kindName : Argument → String
  | bool _ => "bool"
  | int _ => "int"
  | uint _ => "uint"
  | float _ => "float"
  | string _ => "string"
  | path _ => "path"
  | paths _ => "paths"
  | shape _ => "shape"
  | floats _ => "float_vec"
  | uints _ => "uint_vec"
  | elementType _ => "data_type"
  | choice _ => "choice"

/-! ## JSON -/

/-- The data of a value. -/
def dataJson : Argument → Json
  | bool b => .bool b
  | int i => .int i
  | uint n => .nat n
  | float x => .double x
  | string s => .str s
  | path p => .path p
  | paths ps => .arr (ps.map .path)
  | shape ns => .nats ns
  | floats xs => .arr (xs.map .double)
  | uints ns => .nats ns
  | elementType t => .str t.name
  | choice n => .nat n

/-- A value with the name of its kind. -/
def toJson (a : Argument) : Json := .obj [("type", .str a.kindName), ("value", a.dataJson)]

/-- The value of a kind with given data. -/
def ofData? (kind : String) (j : Json) : Option Argument :=
  match kind with
  | "bool" => j.asBool?.map bool
  | "int" => j.asInt64?.map int
  | "uint" => j.asSize?.map uint
  | "float" => j.asDouble?.map float
  | "string" => j.asString?.map string
  | "path" => j.asPath?.map path
  | "paths" => (j.asListOf? Json.asPath?).map paths
  | "shape" => j.asShape?.map shape
  | "float_vec" => (j.asListOf? Json.asDouble?).map floats
  | "uint_vec" => j.asShape?.map uints
  | "data_type" => j.asElementType?.map elementType
  | "choice" => j.asSize?.map choice
  | _ => none

/-- The name of the kind in a record: in an object it is an alternative, in an array only a name. -/
def kindIn? (record kind : Json) : Option String :=
  match record with
  | .arr _ => kind.asString?
  | _ => kind.alternative?

/-- Read a value with the name of its kind. -/
def ofJson? (j : Json) : Option Argument := do
  match ← j.allParts? ["type", "value"] with
  | [kind, data] =>
    ofData? (← kindIn? j kind) (if j.precedes "value" "type" then data.heldBack else data)
  | _ => none

/-- What is wanted of the text of a value. -/
def interest : Json.Interest := .record [("type", .whole), ("value", .whole)]

/-- Read a value from a text. -/
def ofText? (text : String) : Option Argument := (Json.ofTextFor? interest text).bind ofJson?

/-! ## Conversions -/

/-- An integer of 64 bits with a sign. -/
def asInt64? : Argument → Option Int
  | int i => some i
  | uint n => (Numeral.IntRange.signed 64).keep? n
  | _ => none

/-- An integer of 32 bits with a sign. -/
def asInt32? (a : Argument) : Option Int :=
  a.asInt64?.bind (Numeral.IntRange.signed 32).keep?

/-- A natural number of 64 bits. -/
def asUInt64? : Argument → Option Nat
  | uint n => some n
  | int i => if 0 ≤ i then some i.toNat else none
  | _ => none

/-- A size or an index. -/
def asSize? : Argument → Option Nat
  | choice n => some n
  | a => a.asUInt64?

/-- A number of 64 bits. -/
def asDouble? : Argument → Option Float
  | float x => some x
  | int i => some (Int64.ofInt i).toFloat
  | uint n => some (UInt64.ofNat n).toFloat
  | _ => none

/-- A shape. -/
def asShape? : Argument → Option Shape
  | shape ns => some ns
  | uints ns => some ns
  | _ => none

end Argument

/-- A type that an argument can be asked for: its name and which values are of it. -/
structure Wanted (α : Type) where
  name : String
  take? : Argument → Option α

namespace Wanted

/-- A truth value. -/
def bool : Wanted Bool := ⟨"bool", fun | .bool b => some b | _ => none⟩
/-- An integer of 64 bits with a sign. -/
def int64 : Wanted Int := ⟨"int", Argument.asInt64?⟩
/-- An integer of 32 bits with a sign. -/
def int32 : Wanted Int := ⟨"int", Argument.asInt32?⟩
/-- A natural number of 64 bits. -/
def uint64 : Wanted Nat := ⟨"uint", Argument.asUInt64?⟩
/-- A size or an index. -/
def size : Wanted Nat := ⟨"uint", Argument.asSize?⟩
/-- A number of 64 bits. -/
def double : Wanted Float := ⟨"float", Argument.asDouble?⟩
/-- A number of 64 bits rounded to 32. -/
def single : Wanted Float32 := ⟨"float", fun a => a.asDouble?.map Float.toFloat32⟩
/-- A text. -/
def string : Wanted String := ⟨"string", fun | .string s => some s | _ => none⟩
/-- A path. -/
def path : Wanted Path := ⟨"path", fun | .path p => some p | _ => none⟩
/-- A list of paths. -/
def paths : Wanted (List Path) := ⟨"paths", fun | .paths ps => some ps | _ => none⟩
/-- A shape. -/
def shape : Wanted Shape := ⟨"shape", Argument.asShape?⟩
/-- A list of numbers. -/
def doubles : Wanted (List Float) := ⟨"float_vec", fun | .floats xs => some xs | _ => none⟩
/-- A list of natural numbers. -/
def uints : Wanted (List Nat) := ⟨"uint_vec", fun | .uints ns => some ns | _ => none⟩
/-- Three numbers rounded to 32 bits. -/
def singles3 : Wanted (Triple Float32) :=
  ⟨"float_vec[3]", fun
    | .floats xs => Triple.ofList? (xs.map Float.toFloat32)
    | _ => none⟩
/-- Three sizes. -/
def sizes3 : Wanted (Triple Nat) :=
  ⟨"uint_vec[3]", fun | .uints ns => Triple.ofList? ns | _ => none⟩
/-- An element type. -/
def elementType : Wanted ElementType :=
  ⟨"data_type", fun | .elementType t => some t | _ => none⟩

end Wanted

/-! ## What can be wrong with arguments -/

/-- What an argument or a parameter was found wrong with. -/
inductive ArgumentError where
  | missing (key : String)
  | missingRequired (key label : String)
  | mistyped (key actual expected : String)
  | unacceptable (label expected actual : String)
  | inactiveUnacceptable (label expected : String)
  | outOfRange (label : String) (value : Float) (least greatest : Option Float)
  | invalidChoice (label : String) (index count : Nat)
  | invalidName (label name : String)
  | wrongLength (label : String) (expected actual : Nat)
  | emptyShape (label : String)
  | shapeOverflow (what : String) (cause : StoreError)
  | newerVersion (filter : String) (version current : Nat)
  | olderVersion (filter : String) (version : Nat) (current : Option Nat)

namespace ArgumentError

/-- The code of an error. -/
def code : ArgumentError → Int
  | missing .. | missingRequired .. => -201
  | mistyped .. | unacceptable .. | inactiveUnacceptable .. => -202
  | outOfRange .. => -203
  | invalidChoice .. => -204
  | invalidName .. => -205
  | wrongLength .. => -208
  | emptyShape .. => -209
  | newerVersion .. => -210
  | olderVersion .. => -211
  | shapeOverflow .. => -212

/-- The text of an error. -/
def message : ArgumentError → String
  | missing key => s!"missing argument '{key}'"
  | missingRequired key label => s!"missing required argument '{key}' ({label})"
  | mistyped key actual expected => s!"argument '{key}' is a {actual}, expected {expected}"
  | unacceptable label expected actual => s!"'{label}' expects a {expected}, got a {actual}"
  | inactiveUnacceptable label expected => s!"'{label}' expects a {expected}"
  | outOfRange label value least greatest =>
    let bound (word : String) : Option Float → String
      | none => word
      | some x => Numeral.messageText x
    s!"'{label}' = " ++ Numeral.messageText value ++ " is outside [" ++ bound "-inf" least ++ ", "
      ++ bound "inf" greatest ++ "]"
  | invalidChoice label index count => s!"'{label}' choice {index} is out of range (0..{count})"
  | invalidName label name => s!"'{label}': " ++ (TreeError.invalidName name).message
  | wrongLength label expected actual => s!"'{label}' needs {expected} values, got {actual}"
  | emptyShape label => s!"'{label}' needs at least one dimension"
  | shapeOverflow what cause => what ++ ": " ++ cause.message
  | newerVersion filter version current =>
    s!"{filter} arguments have parameter version {version}, newer than supported {current}"
  | olderVersion filter version current =>
    s!"{filter} cannot upgrade arguments from parameter version {version}"
      ++ match current with
        | none => ""
        | some current => s!" to {current}"

/-- An error of arguments as a failure. -/
def failure (e : ArgumentError) : Failure := ⟨.argument, e.code, e.message⟩

end ArgumentError

/-- Number of elements of a store, for whatever the message calls it. -/
def checkedCount (what : String) (tuples components : Shape) : Except Failure Nat :=
  (Shape.elementCount tuples components).mapError fun e =>
    (ArgumentError.shapeOverflow what e).failure

/-! ## Argument lists -/

/-- Values under keys, in the order in which the keys were first given. -/
abbrev Arguments : Type := OrderedMap String Argument

namespace Arguments

/-- The arguments without entries. -/
def none : Arguments := OrderedMap.empty

/-- The value under a key as a wanted type. -/
def get (args : Arguments) (wanted : Wanted α) (key : String) : Except Failure α :=
  match args.get? key with
  | .none => .error (ArgumentError.missing key).failure
  | some value =>
    match wanted.take? value with
    | some a => .ok a
    | .none => .error (ArgumentError.mistyped key value.kindName wanted.name).failure

/-- The value under a key as a wanted type, or nothing if the key is absent. -/
def getOptional (args : Arguments) (wanted : Wanted α) (key : String) :
    Except Failure (Option α) :=
  if args.contains key then (args.get wanted key).map some else .ok .none

/-- Take over the arguments of another list; they win over those that are there. -/
def overlay (args other : Arguments) : Arguments := args.insertAll other.entries

/-- Arguments as an object in their order. -/
def toJson (args : Arguments) : Json := .obj (args.entries.map fun (k, v) => (k, v.toJson))

/-- Read an object of arguments; a repeated key keeps its place and takes the last value. -/
def ofJson? : Json → Option Arguments
  | .obj fields => do
    return OrderedMap.ofList (← fields.mapM fun (k, j) => do return (k, ← Argument.ofJson? j))
  | _ => .none

end Arguments

end FilterTree
