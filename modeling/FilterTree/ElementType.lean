import FilterTree.Numeral.Reading

/-!
# Element types

An array or a neighbor list holds elements of one of eleven types. The type is
a value, so that it can be a parameter of a filter, and `Carrier` maps it to the
type of its elements, so that a store of one element type cannot be taken for
a store of another: the two meet only where a type is compared at run time.
-/

namespace FilterTree

/-- The type of the elements of an array or a neighbor list. -/
inductive ElementType where
  | int8
  | uint8
  | int16
  | uint16
  | int32
  | uint32
  | int64
  | uint64
  | float32
  | float64
  | boolean
deriving DecidableEq, Repr, Inhabited

namespace ElementType

/-- Every element type; the place in this list is the type's index. -/
def all : List ElementType :=
  [int8, uint8, int16, uint16, int32, uint32, int64, uint64, float32, float64, boolean]

/-- Canonical name. -/
def name : ElementType → String
  | int8 => "int8"
  | uint8 => "uint8"
  | int16 => "int16"
  | uint16 => "uint16"
  | int32 => "int32"
  | uint32 => "uint32"
  | int64 => "int64"
  | uint64 => "uint64"
  | float32 => "float32"
  | float64 => "float64"
  | boolean => "boolean"

/-- Size of one element in bytes. -/
def byteSize : ElementType → Nat
  | int8 | uint8 | boolean => 1
  | int16 | uint16 => 2
  | int32 | uint32 | float32 => 4
  | int64 | uint64 | float64 => 8

/-- Whether the elements are floating-point numbers. -/
def isFloat : ElementType → Bool
  | float32 | float64 => true
  | _ => false

/-- Place in the list of all types. -/
def index (t : ElementType) : Nat := all.idxOf t

/-- The type at a place in the list of all types. -/
def ofIndex? (i : Nat) : Option ElementType := all[i]?

/-- The type with a canonical name. -/
def ofName? (s : String) : Option ElementType := all.find? fun t => t.name = s

/-- A type by its name or a common abbreviation of it, in letters of either case. -/
def ofText? (s : String) : Option ElementType :=
  let folded := Text.foldCase s
  (ofName? folded).or <|
    if folded = "bool" then some boolean
    else if folded = "f32" ∨ folded = "float" then some float32
    else if folded = "f64" ∨ folded = "double" then some float64
    else none

/-- Message about a text that names no type. -/
def unknownText (s : String) : String := s!"unknown data type '{s}'"

/-! ## Elements -/

/-- The elements of a type. -/
def Carrier : ElementType → Type
  | int8 => Int8
  | uint8 => UInt8
  | int16 => Int16
  | uint16 => UInt16
  | int32 => Int32
  | uint32 => UInt32
  | int64 => Int64
  | uint64 => UInt64
  | float32 => Float32
  | float64 => Float
  | boolean => Bool

/-- The element that fresh stores are filled with: zero, or false. -/
def zero : (t : ElementType) → t.Carrier
  | int8 => (0 : Int8)
  | uint8 => (0 : UInt8)
  | int16 => (0 : Int16)
  | uint16 => (0 : UInt16)
  | int32 => (0 : Int32)
  | uint32 => (0 : UInt32)
  | int64 => (0 : Int64)
  | uint64 => (0 : UInt64)
  | float32 => (0 : Float32)
  | float64 => (0 : Float)
  | boolean => false

/-- Whether two elements are the same number; what is not a number differs from itself. -/
def same : (t : ElementType) → t.Carrier → t.Carrier → Bool
  | int8 => fun (a b : Int8) => a == b
  | uint8 => fun (a b : UInt8) => a == b
  | int16 => fun (a b : Int16) => a == b
  | uint16 => fun (a b : UInt16) => a == b
  | int32 => fun (a b : Int32) => a == b
  | uint32 => fun (a b : UInt32) => a == b
  | int64 => fun (a b : Int64) => a == b
  | uint64 => fun (a b : UInt64) => a == b
  | float32 => fun (a b : Float32) => a == b
  | float64 => fun (a b : Float) => a == b
  | boolean => fun (a b : Bool) => a == b

/-- The nearest number of 64 bits; true is one. -/
def toFloat : (t : ElementType) → t.Carrier → Float
  | int8 => fun (a : Int8) => a.toFloat
  | uint8 => fun (a : UInt8) => a.toFloat
  | int16 => fun (a : Int16) => a.toFloat
  | uint16 => fun (a : UInt16) => a.toFloat
  | int32 => fun (a : Int32) => a.toFloat
  | uint32 => fun (a : UInt32) => a.toFloat
  | int64 => fun (a : Int64) => a.toFloat
  | uint64 => fun (a : UInt64) => a.toFloat
  | float32 => fun (a : Float32) => a.toFloat
  | float64 => fun (a : Float) => a
  | boolean => fun (a : Bool) => if a then 1 else 0

/-- An element from its text, blanks at either end left out; `none` if it is not of the type. -/
def parse? (t : ElementType) (s : String) : Option t.Carrier :=
  let cs := Text.trimmed s.toList
  let signed (bits : Nat) := Numeral.integerIn? (.signed bits) cs
  let unsigned (bits : Nat) := Numeral.integerIn? (.unsigned bits) cs
  match t with
  | int8 => (signed 8).map Int8.ofInt
  | uint8 => (unsigned 8).map fun i => UInt8.ofNat i.toNat
  | int16 => (signed 16).map Int16.ofInt
  | uint16 => (unsigned 16).map fun i => UInt16.ofNat i.toNat
  | int32 => (signed 32).map Int32.ofInt
  | uint32 => (unsigned 32).map fun i => UInt32.ofNat i.toNat
  | int64 => (signed 64).map Int64.ofInt
  | uint64 => (unsigned 64).map fun i => UInt64.ofNat i.toNat
  | float32 => (Numeral.binary? .binary32 cs).map Numeral.float32OfBits
  | float64 => (Numeral.binary? .binary64 cs).map Numeral.float64OfBits
  | boolean =>
    let word := Text.foldCase (String.ofList cs)
    if word = "true" ∨ word = "1" then some true
    else if word = "false" ∨ word = "0" then some false
    else none

end ElementType

end FilterTree
