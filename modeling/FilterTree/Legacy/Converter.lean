import FilterTree.Argument
import FilterTree.Json.Writer

/-!
# Values of older documents

Before parameters had schemas, their values were kept in flat documents with
conventions of their own: truth values as zero and one, paths as records of
three names, shapes as the first row of a table, vectors as records of x, y and
z, element types as a place in a list. Each convention is a converter from a
JSON value to an argument, or to the reason why the value does not follow it.

The tables of these documents hold integers as numbers of 64 bits, so an integer
is taken from such a number: what has a fraction or a minus sign is refused, and
what does not fit into a size becomes the greatest size.
-/

namespace FilterTree.Legacy

/-- Why a value does not follow a convention. -/
inductive Mismatch where
  | unexpected (wanted found : String)
  | notZeroOrOne (number : String)
  | negativeOrFractional (number : Float)
  | pathLacks (key : String)
  | vectorLacks (key : String)
  | noTable (key : String)
  | unknownScalarType (index : Nat)

/-- The text of a mismatch. -/
def Mismatch.message : Mismatch → String
  | unexpected wanted found => s!"expected {wanted}, got {found}"
  | notZeroOrOne number => s!"expected 0 or 1, got {number}"
  | negativeOrFractional number =>
    "expected a non-negative integer, got " ++ Numeral.messageText number
  | pathLacks key => s!"path object lacks '{key}'"
  | vectorLacks key => s!"vector lacks '{key}'"
  | noTable key => s!"expected a '{key}' table"
  | unknownScalarType index => s!"unknown scalar type {index}"

/-- What sort of JSON value this is. -/
def sortName : Json → String
  | .null => "null"
  | .bool _ => "a boolean"
  | .int _ | .double _ | .single _ => "a number"
  | .str _ => "a string"
  | .arr _ => "an array"
  | .obj _ => "an object"

/-- The value that was wanted, or what was found instead. -/
def expect (wanted : String) (read : Json → Option α) (j : Json) : Except Mismatch α :=
  match read j with
  | some a => .ok a
  | none => .error (.unexpected wanted (sortName j))

/-- The fields of an object. -/
def asObject? : Json → Option Json
  | .obj fields => some (.obj fields)
  | _ => none

/-- The names up to the first empty one, as a path. -/
def namedPath (names : List String) : Path := ⟨names.takeWhile fun name => !name.isEmpty⟩

/-- The path that a record of names stands for. -/
def recordPath (keys : List String) (j : Json) : Except Mismatch Path := do
  let record ← expect "a path object" asObject? j
  let names ← keys.mapM fun key =>
    match (record.field? key).bind Json.asString? with
    | some name => .ok name
    | none => .error (.pathLacks key)
  return namedPath names

/-- The natural number that a number of 64 bits is, if it is one. -/
def wholeNumber? (x : Float) : Option Nat :=
  match Numeral.datum64 x with
  | .finite negative significand exponent =>
    let unit := Nat.pow 2 (-exponent).toNat
    if (negative && significand != 0) || significand % unit != 0 then none
    else some (significand / unit * Nat.pow 2 exponent.toNat)
  | _ => none

/-- An integer that is not negative, as a size. -/
def size (j : Json) : Except Mismatch Nat := do
  let x ← expect "a number" Json.asDouble? j
  match wholeNumber? x with
  | some n => return min n (sizeLimit - 1)
  | none => throw (.negativeOrFractional x)

/-- The three values of a vector. -/
def vector : Json → Except Mismatch (List Json)
  | .arr [x, y, z] => .ok [x, y, z]
  | .obj fields => ["x", "y", "z"].mapM fun key =>
    match (Json.obj fields).field? key with
    | some j => .ok j
    | none => .error (.vectorLacks key)
  | j => .error (.unexpected "a 3-vector" (sortName j))

/-- Key of the rows of a table. -/
def tableKey : String := "Table Data"

/-- The first row of a table. -/
def firstRow? (j : Json) : Option (List Json) :=
  match j.field? tableKey with
  | some (.arr (.arr row :: _)) => some row
  | _ => none

/-- Keys of the names of a path, of which a convention uses the first ones. -/
def pathKeys : List String := ["Data Container Name", "Attribute Matrix Name", "Data Array Name"]

/-- A convention of the older documents. -/
inductive Converter where
  | bool
  | linkedBool
  | int
  | uint
  | float
  | string
  | arrayPath
  | arrayPaths
  | matrixPath
  | containerPath
  | linkedName
  | tupleShape
  | intVector
  | floatVector
  | scalarType
  | componentCount
deriving DecidableEq, Repr

namespace Converter

/-- Zero and one as truth values. -/
def truthValue : Json → Except Mismatch Argument
  | .bool b => .ok (.bool b)
  | .int 0 => .ok (.bool false)
  | .int 1 => .ok (.bool true)
  | .int i => .error (.notZeroOrOne (Numeral.intText i))
  | .double x => .error (.notZeroOrOne (Json.doubleText x))
  | j => .error (.unexpected "a boolean" (sortName j))

/-- The argument that a value stands for. -/
def convert (c : Converter) (j : Json) : Except Mismatch Argument :=
  match c with
  | bool | linkedBool => truthValue j
  | int => (expect "an integer" Json.asInt64? j).map .int
  | uint => (expect "a non-negative integer" Json.asSize? j).map .uint
  | float => (expect "a number" Json.asDouble? j).map .float
  | string | linkedName => (expect "a string" Json.asString? j).map .string
  | arrayPath => (recordPath pathKeys j).map .path
  | arrayPaths => do
    let items ← expect "a list of paths" (Json.asListOf? some) j
    return .paths (← items.mapM (recordPath pathKeys))
  | matrixPath => (recordPath (pathKeys.take 2) j).map .path
  | containerPath =>
    match j with
    | .str name => .ok (.path (namedPath [name]))
    | .obj _ => (recordPath (pathKeys.take 1) j).map .path
    | j => .error (.unexpected "a container name" (sortName j))
  | tupleShape =>
    match firstRow? j with
    | some row => (row.mapM size).map .shape
    | none => .error (.noTable tableKey)
  | intVector => do return .uints (← (← vector j).mapM size)
  | floatVector => do return .floats (← (← vector j).mapM (expect "a number" Json.asDouble?))
  | scalarType => do
    let index ← size j
    match ElementType.ofIndex? index with
    | some t => return .elementType t
    | none => throw (.unknownScalarType index)
  | componentCount => (size j).map fun n => .shape [n]

end Converter

end FilterTree.Legacy
