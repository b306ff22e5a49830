import FilterTree.Shape

/-!
# Dense stores

A dense store holds the same number of components for every tuple. Its elements
lie in one row, tuple after tuple, so component `c` of tuple `t` is at place
`t * components + c`, and a tuple is a stretch of the row.

A store may be without its row. It then only has its shapes: that is how a
change of the tree is tried out before anything is allocated. Both kinds of
store are built by functions that refuse shapes whose count overflows, and
resizing refuses them too, so a size is never computed from a shape that does
not fit.
-/

namespace FilterTree

/-- A row of elements with a tuple shape and a component shape, or the shapes alone. -/
structure DenseStore (α : Type) where
  tupleShape : Shape
  componentShape : Shape
  row? : Option (Array α)

namespace DenseStore

variable {α : Type}

/-! ## Building -/

/-- A store of one repeated element. -/
def filled (tuples components : Shape) (value : α) : Except StoreError (DenseStore α) := do
  let n ← Shape.elementCount tuples components
  return ⟨tuples, components, some (Array.replicate n value)⟩

/-- A store without elements. -/
def shapeOnly (tuples components : Shape) : Except StoreError (DenseStore α) := do
  let _ ← Shape.elementCount tuples components
  return ⟨tuples, components, none⟩

/-- A store of given elements, as many as the shapes ask for. -/
def ofArray (tuples components : Shape) (values : Array α) : Except StoreError (DenseStore α) := do
  let n ← Shape.elementCount tuples components
  if values.size = n then return ⟨tuples, components, some values⟩
  else throw (.lengthMismatch n values.size)

/-- A fresh store of the element `zero`, or one without elements. -/
def fresh (tuples components : Shape) (allocated : Bool) (zero : α) :
    Except StoreError (DenseStore α) :=
  if allocated then filled tuples components zero else shapeOnly tuples components

/-! ## Sizes -/

variable (s : DenseStore α)

/-- Number of tuples. -/
def tupleCount : Nat := s.tupleShape.size

/-- Number of components of a tuple. -/
def componentCount : Nat := s.componentShape.size

/-- Number of elements, whether or not they are allocated. -/
def size : Nat := s.tupleCount * s.componentCount

/-- Whether there is no element. -/
def isEmpty : Bool := s.size == 0

/-- Whether the elements are there. -/
def isAllocated : Bool := s.row?.isSome

/-- Give a store without elements its elements, all of them `zero`. -/
def allocate (zero : α) : DenseStore α :=
  if s.isAllocated then s else { s with row? := some (Array.replicate s.size zero) }

/-! ## Access -/

/-- The row of elements. -/
def row : Except StoreError (Array α) :=
  match s.row? with
  | some row => .ok row
  | none => .error .notAllocated

/-- The element at a place of the row. -/
def get (index : Nat) : Except StoreError α := do
  let row ← s.row
  match row[index]? with
  | some value => return value
  | none => throw (.indexOutOfRange index row.size)

/-- Write the element at a place of the row. -/
def set (index : Nat) (value : α) : Except StoreError (DenseStore α) := do
  let row ← s.row
  if index < row.size then return { s with row? := some (row.setIfInBounds index value) }
  else throw (.indexOutOfRange index row.size)

/-- The place of a component of a tuple. -/
def place (tuple component : Nat) : Except StoreError Nat :=
  if s.tupleCount ≤ tuple then .error (.tupleOutOfRange tuple s.tupleCount)
  else if s.componentCount ≤ component then
    .error (.componentOutOfRange component s.componentCount)
  else .ok (tuple * s.componentCount + component)

/-- A component of a tuple. -/
def getComponent (tuple component : Nat) : Except StoreError α := do
  s.get (← s.place tuple component)

/-- Write a component of a tuple. -/
def setComponent (tuple component : Nat) (value : α) : Except StoreError (DenseStore α) := do
  s.set (← s.place tuple component) value

/-- Refuse a tuple that is out of range. -/
def checkTuple (tuple : Nat) : Except StoreError Unit :=
  if tuple < s.tupleCount then .ok () else .error (.tupleOutOfRange tuple s.tupleCount)

/-- The components of a tuple. -/
def tuple (tuple : Nat) : Except StoreError (Array α) := do
  s.checkTuple tuple
  let row ← s.row
  return row.extract (tuple * s.componentCount) ((tuple + 1) * s.componentCount)

/-- The row with the places from `start` up to `stop` modified. -/
def modifyRow (f : α → α) (start stop : Nat) (row : Array α) : Array α :=
  row.mapIdx fun i a => if start ≤ i ∧ i < stop then f a else a

/-- Modify every component of a tuple. -/
def modifyTuple (tuple : Nat) (f : α → α) : Except StoreError (DenseStore α) := do
  s.checkTuple tuple
  let row ← s.row
  let start := tuple * s.componentCount
  return { s with row? := some (modifyRow f start (start + s.componentCount) row) }

/-- Write into a tuple: each component becomes a function of its number and of what it was. -/
def editTuple (tuple : Nat) (f : Nat → α → α) : Except StoreError (DenseStore α) := do
  s.checkTuple tuple
  let row ← s.row
  let start := tuple * s.componentCount
  let stop := (tuple + 1) * s.componentCount
  let write (i : Nat) (a : α) := if start ≤ i ∧ i < stop then f (i - start) a else a
  return { s with row? := some (row.mapIdx write) }

/-- Write anywhere into the row: each element becomes a function of its place and of what it was. -/
def editRow (f : Nat → α → α) : Except StoreError (DenseStore α) := do
  let row ← s.row
  return { s with row? := some (row.mapIdx f) }

/-- Overwrite every element with one value. -/
def fill (value : α) : Except StoreError (DenseStore α) := do
  let row ← s.row
  return { s with row? := some (row.map fun _ => value) }

/-- Reverse the order of the elements. -/
def reverse : Except StoreError (DenseStore α) := do
  let row ← s.row
  return { s with row? := some row.reverse }

/-- Overwrite all elements with as many others. -/
def overwrite (values : Array α) : Except StoreError (DenseStore α) := do
  let row ← s.row
  if values.size = row.size then return { s with row? := some values }
  else throw (.lengthMismatch row.size values.size)

/-! ## Resizing -/

/-- A row cut or filled up with `zero` to a size. -/
def resizeRow (zero : α) (n : Nat) (row : Array α) : Array α :=
  row.extract 0 n ++ Array.replicate (n - row.size) zero

/-- Change the tuple shape; elements at the end are dropped or added. -/
def resizeTuples (tuples : Shape) (zero : α) : Except StoreError (DenseStore α) := do
  let n ← Shape.elementCount tuples s.componentShape
  return { s with tupleShape := tuples, row? := s.row?.map (resizeRow zero n) }

/-- Compare shapes and elements, the elements with a test of their own. -/
def sameAs (same : α → α → Bool) (t : DenseStore α) : Bool :=
  s.tupleShape == t.tupleShape && s.componentShape == t.componentShape &&
    match s.row?, t.row? with
    | none, none => true
    | some a, some b => a.size == b.size && (a.zip b).all fun (x, y) => same x y
    | _, _ => false

end DenseStore

end FilterTree
