import FilterTree.Shape

/-!
# Geometries

A geometry says where the elements of a data set lie: the cells of a regular
grid, or the vertices of a cloud of points. The data of its elements is kept in
an attribute matrix below the geometry, whose tuple shape has to follow the
geometry's own size, slowest dimension first. A geometry names that matrix, and
a cloud of points also the array of its coordinates, in slots that hold the
number of an object; an empty slot means that there is none, or that it has
been taken away.
-/

namespace FilterTree

/-- Number of an object, given once and never again. -/
abbrev ObjectId := Nat

/-- The three values along x, y and z. -/
structure Triple (α : Type) where
  x : α
  y : α
  z : α
deriving DecidableEq, Repr, BEq

namespace Triple

/-- The values in the order x, y, z. -/
def toList (t : Triple α) : List α := [t.x, t.y, t.z]

/-- Three values in the order x, y, z. -/
def ofList? : List α → Option (Triple α)
  | [x, y, z] => some ⟨x, y, z⟩
  | _ => none

/-- Apply a function to each value. -/
def map (f : α → β) (t : Triple α) : Triple β := ⟨f t.x, f t.y, f t.z⟩

end Triple

/-- What an object is. -/
inductive ObjectKind where
  | dataGroup
  | attributeMatrix
  | dataArray
  | neighborList
  | imageGeometry
  | vertexGeometry
deriving DecidableEq, Repr

namespace ObjectKind

/-- Name of a kind in a message. -/
def text : ObjectKind → String
  | dataGroup => "data group"
  | attributeMatrix => "attribute matrix"
  | dataArray => "data array"
  | neighborList => "neighbor list"
  | imageGeometry => "image geometry"
  | vertexGeometry => "vertex geometry"

/-- Whether objects of a kind may have children. -/
def isContainer : ObjectKind → Bool
  | dataArray | neighborList => false
  | _ => true

/-- Whether objects of a kind are geometries. -/
def isGeometry : ObjectKind → Bool
  | imageGeometry | vertexGeometry => true
  | _ => false

end ObjectKind

/-- A regular grid, or a cloud of points. -/
inductive Geometry where
  /-- Cells along x, y and z, their size, the corner of the grid, and the matrix of cell data. -/
  | image (dimensions : Triple Nat) (spacing origin : Triple Float32) (cellData : Option ObjectId)
  /-- Number of points, the matrix of vertex data and the array of coordinates. -/
  | vertex (count : Nat) (vertexData coordinates : Option ObjectId)
deriving DecidableEq

namespace Geometry

/-- A grid without cell data. -/
def bareImage (dimensions : Triple Nat) (spacing origin : Triple Float32) : Geometry :=
  image dimensions spacing origin none

/-- A cloud of points without vertex data and coordinates. -/
def bareVertex (count : Nat) : Geometry := vertex count none none

/-- What kind of object a geometry is. -/
def kind : Geometry → ObjectKind
  | image .. => .imageGeometry
  | vertex .. => .vertexGeometry

/-- Tuple shape of the matrix of element data. -/
def elementShape : Geometry → Shape
  | image dimensions .. => [dimensions.z, dimensions.y, dimensions.x]
  | vertex count .. => [count]

/-- Number of cells or vertices. -/
def elementCount (g : Geometry) : Nat := g.elementShape.size

/-- The matrix of element data. -/
def elementData : Geometry → Option ObjectId
  | image _ _ _ cellData => cellData
  | vertex _ vertexData _ => vertexData

/-- The array of coordinates. -/
def coordinates : Geometry → Option ObjectId
  | image .. => none
  | vertex _ _ coordinates => coordinates

/-- The geometry with a new size, if the rank of the shape fits. -/
def resized? : Geometry → Shape → Option Geometry
  | image _ spacing origin cellData, [z, y, x] => some (image ⟨x, y, z⟩ spacing origin cellData)
  | vertex _ vertexData coordinates, [n] => some (vertex n vertexData coordinates)
  | _, _ => none

/-- A slot emptied if it names the object. -/
def clearSlot (id : ObjectId) (slot : Option ObjectId) : Option ObjectId :=
  if slot = some id then none else slot

/-- The geometry with every slot that names the object emptied. -/
def forget (id : ObjectId) : Geometry → Geometry
  | image dimensions spacing origin cellData =>
    image dimensions spacing origin (clearSlot id cellData)
  | vertex count vertexData coordinates =>
    vertex count (clearSlot id vertexData) (clearSlot id coordinates)

/-- Whether two geometries agree, their numbers compared as numbers. -/
def sameAs : Geometry → Geometry → Bool
  | image d s o c, image d' s' o' c' => d == d' && s == s' && o == o' && c == c'
  | vertex n v l, vertex n' v' l' => n == n' && v == v' && l == l'
  | _, _ => false

end Geometry

end FilterTree
