import FilterTree.Json.Basic
import FilterTree.ElementType
import FilterTree.Geometry
import FilterTree.Numeral.Conversion
import FilterTree.Path

/-!
# Records in JSON

A record is written as an object with one field per part. It can be read back
from such an object, whatever the order of its fields and whatever other fields
there are, as long as none of its own is repeated; or from an array of its
parts in their order. A choice between alternatives is written as the name of
the alternative; an object with that name as its only key and null as its value
is the same choice. A part that stands in the text before the kind of its record
is known has to be held back until then, and in what was held back an empty
object counts as null there.

The readers of single values are strict about kinds: a number with a point is
no integer even if it is whole, and an integer that is out of range is refused.
-/

namespace FilterTree.Json

/-- The fields of a name. -/
def occurrences (name : String) (fields : List (String × Json)) : List Json :=
  (fields.filter fun f => f.1 == name).map (·.2)

/-- The parts of a record with these names, each of them if it is there. -/
def parts? (names : List String) : Json → Option (List (Option Json))
  | .obj fields => names.mapM fun name =>
    match occurrences name fields with
    | [] => some none
    | [j] => some (some j)
    | _ => none
  | .arr items =>
    if items.length ≤ names.length then
      some (items.map some ++ List.replicate (names.length - items.length) none)
    else none
  | _ => none

/-- The parts of a record of which all have to be there. -/
def allParts? (names : List String) (j : Json) : Option (List Json) := do
  (← j.parts? names).mapM id

/-- The name of an alternative without parts. -/
def alternative? : Json → Option String
  | .str s => some s
  | .obj [(name, .null)] => some name
  | _ => none

/-- Whether of two fields of an object the first one comes first. -/
def precedes (first second : String) : Json → Bool
  | .obj fields => (fields.find? fun f => f.1 == first || f.1 == second).any fun f => f.1 == first
  | _ => false

/-- A part as it is read after it was held back. -/
def heldBack : Json → Json
  | .obj [(name, .obj [])] => .obj [(name, .null)]
  | j => j

/-- A truth value. -/
def asBool? : Json → Option Bool
  | .bool b => some b
  | _ => none

/-- A string. -/
def asString? : Json → Option String
  | .str s => some s
  | _ => none

/-- An integer of a range. -/
def asIntIn? (range : Numeral.IntRange) : Json → Option Int
  | .int i => range.keep? i
  | _ => none

/-- An integer of 64 bits with a sign. -/
def asInt64? : Json → Option Int := asIntIn? (.signed 64)

/-- A size. -/
def asSize? (j : Json) : Option Nat := (j.asIntIn? (.unsigned 64)).map Int.toNat

/-- A number of 64 bits. -/
def asDouble? : Json → Option Float
  | .double x => some x
  | .single x => some x.toFloat
  | .int i =>
    let magnitude := (UInt64.ofNat i.natAbs).toFloat
    some (if i < 0 then -magnitude else magnitude)
  | _ => none

/-- A number of 32 bits. -/
def asSingle? : Json → Option Float32
  | .double x => some (Numeral.narrowed x)
  | .single x => some x
  | .int i => some (if i < 0 then (Int64.ofInt i).toFloat32 else (UInt64.ofNat i.toNat).toFloat32)
  | _ => none

/-- A list of values of one kind. -/
def asListOf? (read : Json → Option α) : Json → Option (List α)
  | .arr items => items.mapM read
  | _ => none

/-- A shape. -/
def asShape? : Json → Option Shape := asListOf? asSize?

/-- Three values of one kind. -/
def asTripleOf? (read : Json → Option α) (j : Json) : Option (Triple α) := do
  Triple.ofList? (← j.asListOf? read)

/-- A path, from its text. -/
def asPath? (j : Json) : Option Path := do (Path.ofText? (← j.asString?)).toOption

/-- An element type, from its name. -/
def asElementType? (j : Json) : Option ElementType := do ElementType.ofName? (← j.alternative?)

/-- A path as its text. -/
def path (p : Path) : Json := .str p.toText

end FilterTree.Json
