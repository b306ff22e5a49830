import FilterTree.Numeral.Layout

/-!
# Shapes

A shape is a list of dimensions, and its product is the number of places it
has; a shape without dimensions has none. Sizes are natural numbers below
`sizeLimit`: a product is formed dimension by dimension, and as soon as a
partial product does not stay below the limit the shape overflows. That holds
also when a later dimension is zero, so the order of the dimensions matters to
whether a shape overflows, and the functions here keep the order they are
given.
-/

namespace FilterTree

/-- Dimensions, slowest first. -/
abbrev Shape := List Nat

/-- Sizes and counts lie below this limit. -/
def sizeLimit : Nat := UInt64.size

/-- A product, if it stays below the limit. -/
def boundedMul (a b : Nat) : Option Nat := if a * b < sizeLimit then some (a * b) else none

namespace Shape

/-- Number of places, if no partial product overflows. -/
def size? (shape : Shape) : Option Nat :=
  if shape.isEmpty then some 0 else shape.foldlM boundedMul 1

/-- Number of places; the greatest size for a shape that overflows. -/
def size (shape : Shape) : Nat := (size? shape).getD (sizeLimit - 1)

/-- Number of elements of a store with a tuple shape and a component shape, if nothing overflows. -/
def elementCount? (tuples components : Shape) : Option Nat := do
  let t ← size? tuples
  let c ← size? components
  boundedMul t c

end Shape

/-! ## What can go wrong in a store -/

/-- Why a store could not be built or an element of it not be reached. -/
inductive StoreError where
  | indexOutOfRange (index length : Nat)
  | tupleOutOfRange (tuple tuples : Nat)
  | componentOutOfRange (component components : Nat)
  | notAllocated
  | lengthMismatch (expected actual : Nat)
  | shapeOverflow (shape : Shape)
deriving DecidableEq, Repr

/-- The text of a store's error. -/
def StoreError.message : StoreError → String
  | indexOutOfRange index length => s!"index {index} out of range for store of length {length}"
  | tupleOutOfRange tuple tuples => s!"tuple {tuple} out of range for {tuples} tuples"
  | componentOutOfRange component components =>
    s!"component {component} out of range for {components} components"
  | notAllocated => "store has no allocated buffer"
  | lengthMismatch expected actual => s!"expected {expected} values, got {actual}"
  | shapeOverflow shape =>
    "shape " ++ Numeral.natsText shape ++ " overflows the addressable element count"

/-- Number of elements of a store with these shapes. -/
def Shape.elementCount (tuples components : Shape) : Except StoreError Nat :=
  match elementCount? tuples components with
  | some n => .ok n
  | none => .error (.shapeOverflow (tuples ++ components))

end FilterTree
