import FilterTree.Geometry
import FilterTree.Path
import FilterTree.SortedMap
import FilterTree.Store.Typed

/-!
# Objects of the tree

An object has a name, a parent, children by name, and a body: nothing more for
a group, a tuple shape for an attribute matrix, a store for an array or a list,
or a geometry. Parent and children are numbers of other objects, so that an
object can move without its contents being touched.
-/

namespace FilterTree

/-- What an object holds. -/
inductive Body where
  | group
  | matrix (tupleShape : Shape)
  | array (array : DataArray)
  | list (list : NeighborList)
  | geometry (geometry : Geometry)

namespace Body

/-- What kind of object has such a body. -/
def kind : Body → ObjectKind
  | group => .dataGroup
  | matrix _ => .attributeMatrix
  | array _ => .dataArray
  | list _ => .neighborList
  | geometry g => g.kind

/-- Tuple shape of a matrix, an array or a list. -/
def tupleShape? : Body → Option Shape
  | matrix shape => some shape
  | array a => some a.store.tupleShape
  | list l => some l.store.tupleShape
  | group | geometry _ => none

/-- The body with another tuple shape; a body without one stays as it is. -/
def retuple (shape : Shape) : Body → Except StoreError Body
  | matrix _ => .ok (matrix shape)
  | array a => (a.resizeTuples shape).map array
  | list l => (l.resizeTuples shape).map list
  | group => .ok group
  | geometry g => .ok (geometry g)

/-- The body with its geometry slots for an object emptied. -/
def forget (id : ObjectId) : Body → Body
  | geometry g => geometry (g.forget id)
  | body => body

/-- Whether two bodies agree, their numbers compared as numbers. -/
def sameAs : Body → Body → Bool
  | group, group => true
  | matrix s, matrix t => s == t
  | array a, array b => a.sameAs b
  | list l, list m => l.sameAs m
  | geometry g, geometry h => g.sameAs h
  | _, _ => false

end Body

/-- A node of the tree. -/
structure Object where
  name : String
  parent : Option ObjectId
  children : SortedMap String ObjectId
  body : Body

namespace Object

/-- What kind of object this is. -/
def kind (o : Object) : ObjectKind := o.body.kind

/-- Whether two objects agree in name, links and body. -/
def sameAs (o p : Object) : Bool :=
  o.name == p.name && o.parent == p.parent && o.children == p.children && o.body.sameAs p.body

end Object

/-- The number of an object as a message shows it. -/
def ObjectId.text (id : ObjectId) : String := s!"#{id}"

end FilterTree
