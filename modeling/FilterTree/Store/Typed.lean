import FilterTree.ElementType
import FilterTree.Store.Dense
import FilterTree.Store.Lists

/-!
# Stores of any element type

What an object of the tree holds is a store together with its element type. An
operation that does not look at elements works on any of them; one that does
asks for the type it expects (`as?`) and gets the store only if that is the type
it has. Nothing is converted on the way.
-/

namespace FilterTree

/-- A dense store of some element type. -/
structure DataArray where
  elementType : ElementType
  store : DenseStore elementType.Carrier

/-- A list store of some element type. -/
structure NeighborList where
  elementType : ElementType
  store : ListStore elementType.Carrier

namespace DataArray

/-- A fresh array, with zero elements or without elements. -/
def fresh (t : ElementType) (tuples components : Shape) (allocated : Bool) :
    Except StoreError DataArray :=
  (DenseStore.fresh tuples components allocated t.zero).map fun s => ⟨t, s⟩

variable (a : DataArray)

/-- The store, if its elements are of the type. -/
def as? (t : ElementType) : Option (DenseStore t.Carrier) :=
  if h : a.elementType = t then some (h ▸ a.store) else none

/-- Allocate the elements. -/
def allocate : DataArray := { a with store := a.store.allocate a.elementType.zero }

/-- Change the tuple shape. -/
def resizeTuples (tuples : Shape) : Except StoreError DataArray :=
  (a.store.resizeTuples tuples a.elementType.zero).map fun s => { a with store := s }

/-- The element at a place as a number of 64 bits. -/
def valueAsFloat? (index : Nat) : Option Float :=
  (a.store.get index).toOption.map a.elementType.toFloat

/-- Whether two arrays have the same type, shapes and elements. -/
def sameAs (b : DataArray) : Bool :=
  match b.as? a.elementType with
  | some s => a.store.sameAs a.elementType.same s
  | none => false

end DataArray

namespace NeighborList

/-- A fresh list, with empty lists or without lists. -/
def fresh (t : ElementType) (tuples : Shape) (allocated : Bool) : Except StoreError NeighborList :=
  (ListStore.fresh tuples allocated).map fun s => ⟨t, s⟩

variable (l : NeighborList)

/-- The store, if its values are of the type. -/
def as? (t : ElementType) : Option (ListStore t.Carrier) :=
  if h : l.elementType = t then some (h ▸ l.store) else none

/-- Allocate the lists. -/
def allocate : NeighborList := { l with store := l.store.allocate }

/-- Change the tuple shape. -/
def resizeTuples (tuples : Shape) : Except StoreError NeighborList :=
  (l.store.resizeTuples tuples).map fun s => { l with store := s }

/-- Whether two lists have the same type, shape and values. -/
def sameAs (m : NeighborList) : Bool :=
  match m.as? l.elementType with
  | some s => l.store.sameAs l.elementType.same s
  | none => false

end NeighborList

end FilterTree
