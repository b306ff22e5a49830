import FilterTree.Shape

/-!
# List stores

A list store holds a list of any length for every tuple: the neighbors of each
feature, or a value for each neighbor. Like a dense store it may be without its
lists and then only has its tuple shape.
-/

namespace FilterTree

/-- One list per tuple, or the tuple shape alone. -/
structure ListStore (α : Type) where
  tupleShape : Shape
  lists? : Option (Array (List α))

namespace ListStore

variable {α : Type}

/-- Number of lists that a tuple shape asks for. -/
def listCount (tuples : Shape) : Except StoreError Nat := Shape.elementCount tuples [1]

/-! ## Building -/

/-- A store of empty lists. -/
def new (tuples : Shape) : Except StoreError (ListStore α) := do
  let n ← listCount tuples
  return ⟨tuples, some (Array.replicate n [])⟩

/-- A store without lists. -/
def shapeOnly (tuples : Shape) : Except StoreError (ListStore α) := do
  let _ ← listCount tuples
  return ⟨tuples, none⟩

/-- A store of given lists, one per tuple. -/
def ofLists (tuples : Shape) (lists : Array (List α)) : Except StoreError (ListStore α) := do
  let n ← listCount tuples
  if lists.size = n then return ⟨tuples, some lists⟩ else throw (.lengthMismatch n lists.size)

/-- A fresh store, with empty lists or without lists. -/
def fresh (tuples : Shape) (allocated : Bool) : Except StoreError (ListStore α) :=
  if allocated then new tuples else shapeOnly tuples

/-! ## Sizes -/

variable (s : ListStore α)

/-- Number of tuples. -/
def tupleCount : Nat := s.tupleShape.size

/-- Whether the lists are there. -/
def isAllocated : Bool := s.lists?.isSome

/-- Give a store without lists its lists, all of them empty. -/
def allocate : ListStore α :=
  if s.isAllocated then s else { s with lists? := some (Array.replicate s.tupleCount []) }

/-- Number of values in all lists. -/
def valueCount : Nat := (s.lists?.getD #[]).foldl (fun n l => n + l.length) 0

/-! ## Access -/

/-- The lists in the order of their tuples. -/
def lists : Except StoreError (Array (List α)) :=
  match s.lists? with
  | some lists => .ok lists
  | none => .error .notAllocated

/-- The list of a tuple. -/
def list (tuple : Nat) : Except StoreError (List α) := do
  let lists ← s.lists
  match lists[tuple]? with
  | some l => return l
  | none => throw (.tupleOutOfRange tuple s.tupleCount)

/-- Modify the list of a tuple. -/
def modifyList (tuple : Nat) (f : List α → List α) : Except StoreError (ListStore α) := do
  let lists ← s.lists
  if tuple < lists.size then return { s with lists? := some (lists.modify tuple f) }
  else throw (.tupleOutOfRange tuple s.tupleCount)

/-- Replace the list of a tuple. -/
def setList (tuple : Nat) (values : List α) : Except StoreError (ListStore α) :=
  s.modifyList tuple fun _ => values

/-- Add a value at the end of the list of a tuple. -/
def push (tuple : Nat) (value : α) : Except StoreError (ListStore α) :=
  s.modifyList tuple fun l => l ++ [value]

/-- Write anywhere into the lists: each becomes a function of its tuple and of what it was. -/
def editLists (f : Nat → List α → List α) : Except StoreError (ListStore α) := do
  let lists ← s.lists
  return { s with lists? := some (lists.mapIdx f) }

/-- Reverse the order of the lists. -/
def reverse : Except StoreError (ListStore α) := do
  let lists ← s.lists
  return { s with lists? := some lists.reverse }

/-- Replace all lists, one per tuple; a store without lists gets them this way too. -/
def setLists (lists : Array (List α)) : Except StoreError (ListStore α) :=
  if lists.size = s.tupleCount then .ok { s with lists? := some lists }
  else .error (.lengthMismatch s.tupleCount lists.size)

/-! ## Resizing -/

/-- Change the tuple shape; lists at the end are dropped, or empty ones added. -/
def resizeTuples (tuples : Shape) : Except StoreError (ListStore α) := do
  let n ← listCount tuples
  let resize (lists : Array (List α)) := lists.extract 0 n ++ Array.replicate (n - lists.size) []
  return { s with tupleShape := tuples, lists? := s.lists?.map resize }

/-- Compare shapes and lists, the values with a test of their own. -/
def sameAs (same : α → α → Bool) (t : ListStore α) : Bool :=
  let sameList (a b : List α) := a.length == b.length && (a.zip b).all fun (x, y) => same x y
  s.tupleShape == t.tupleShape &&
    match s.lists?, t.lists? with
    | none, none => true
    | some a, some b => a.size == b.size && (a.zip b).all fun (x, y) => sameList x y
    | _, _ => false

end ListStore

end FilterTree
