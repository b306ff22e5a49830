import FilterTree.Tree.Error

/-!
# The data tree

All objects lie in one map under numbers that are given out in turn and never
again; who contains whom is said by numbers, once in the parent's children and
once in the child. An object is found by walking names down from the top-level
objects (`idOf?`), and its path is found by walking parents up (`pathOf?`). In a
tree whose links agree the two walks are inverse to each other; the walk up
visits at most as many objects as there are, so it also ends where links form
a cycle.

Reading asks for an object at a path and says in its error what is there
instead. None of these functions looks at the elements of an array or a list.
-/

namespace FilterTree

/-- Objects by number, the top-level ones by name, and the next number. -/
structure Tree where
  objects : SortedMap ObjectId Object
  roots : SortedMap String ObjectId
  nextId : ObjectId

namespace Tree

/-- The tree without objects. -/
def empty : Tree := ⟨.empty, .empty, 0⟩

instance : Inhabited Tree := ⟨empty⟩

variable (t : Tree)

/-- Number of objects. -/
def size : Nat := t.objects.size

/-- The object with a number. -/
def object? (id : ObjectId) : Option Object := t.objects.get? id

/-! ## Walking down and up -/

/-- Follow names down from an object. -/
def descend : ObjectId → List String → Option ObjectId
  | id, [] => some id
  | id, name :: names => do
    let o ← t.object? id
    descend (← o.children.get? name) names

/-- The number of the object at a path; the root is no object. -/
def idOf? (path : Path) : Option ObjectId :=
  match path.names with
  | [] => none
  | name :: names => (t.roots.get? name).bind fun id => t.descend id names

/-- The names from an object up to the top, of at most `fuel` objects. -/
def ancestry : Nat → ObjectId → Option (List String)
  | 0, _ => none
  | fuel + 1, id => do
    let o ← t.object? id
    match o.parent with
    | none => some [o.name]
    | some parent => (ancestry fuel parent).map (o.name :: ·)

/-- The path of an object. -/
def pathOf? (id : ObjectId) : Option Path :=
  (t.ancestry t.size id).map fun names => ⟨names.reverse⟩

/-- Whether there is an object at a path. -/
def contains (path : Path) : Bool := (t.idOf? path).isSome

/-- The number of the object at a path, or the error that there is none. -/
def resolve (path : Path) : Except TreeError ObjectId :=
  match t.idOf? path with
  | some id => .ok id
  | none => .error (.pathNotFound path)

/-- The object at a path, or the error that there is none. -/
def objectAt (path : Path) : Except TreeError Object :=
  match (t.idOf? path).bind t.object? with
  | some o => .ok o
  | none => .error (.pathNotFound path)

/-! ## Listing -/

/-- An object and what lies below it, to a depth of `fuel`, each after its parent. -/
def listingBelow : Nat → Path → ObjectId → List (Path × ObjectKind)
  | 0, _, _ => []
  | fuel + 1, path, id =>
    match t.object? id with
    | none => []
    | some o =>
      (path, o.kind)
        :: o.children.entries.flatMap fun (name, child) => listingBelow fuel (path.child name) child

/-- Every object's path and kind, each after its parent and siblings in the order of names. -/
def listing : List (Path × ObjectKind) :=
  t.roots.entries.flatMap fun (name, id) => t.listingBelow t.size (.single name) id

/-- The numbers of an object and of what lies below it, to a depth of `fuel`. -/
def subtree : Nat → ObjectId → List ObjectId
  | 0, _ => []
  | fuel + 1, id =>
    match t.object? id with
    | none => []
    | some o => id :: o.children.values.flatMap (subtree fuel)

/-- The kind of the object at a path. -/
def kindAt (path : Path) : Except TreeError ObjectKind := (t.objectAt path).map Object.kind

/-- The names of the children of a path; those of the root are the top-level names. -/
def childNames (path : Path) : Except TreeError (List String) :=
  if path.isRoot then .ok t.roots.keys else (t.objectAt path).map fun o => o.children.keys

/-! ## Typed access -/

/-- The array at a path. -/
def arrayAt (path : Path) : Except TreeError DataArray := do
  match (← t.objectAt path).body with
  | .array a => return a
  | body => throw (.wrongKind path .dataArray body.kind)

/-- The store of the array at a path, which must have elements of a type. -/
def denseAt (path : Path) (type : ElementType) : Except TreeError (DenseStore type.Carrier) := do
  let a ← t.arrayAt path
  match a.as? type with
  | some s => return s
  | none => throw (.wrongElementType path type a.elementType)

/-- The neighbor list at a path. -/
def listAt (path : Path) : Except TreeError NeighborList := do
  match (← t.objectAt path).body with
  | .list l => return l
  | body => throw (.wrongKind path .neighborList body.kind)

/-- The store of the neighbor list at a path, which must have values of a type. -/
def listsAt (path : Path) (type : ElementType) : Except TreeError (ListStore type.Carrier) := do
  let l ← t.listAt path
  match l.as? type with
  | some s => return s
  | none => throw (.wrongElementType path type l.elementType)

/-- The tuple shape of the attribute matrix at a path. -/
def matrixShapeAt (path : Path) : Except TreeError Shape := do
  match (← t.objectAt path).body with
  | .matrix shape => return shape
  | body => throw (.wrongKind path .attributeMatrix body.kind)

/-- The geometry at a path. -/
def geometryAt (path : Path) : Except TreeError Geometry := do
  match (← t.objectAt path).body with
  | .geometry g => return g
  | body => throw (.notAGeometry path body.kind)

/-- The geometry at a path, which must be of a kind. -/
def geometryOfKindAt (path : Path) (kind : ObjectKind) : Except TreeError Geometry := do
  match (← t.objectAt path).body with
  | .geometry g => if g.kind = kind then return g else throw (.wrongKind path kind g.kind)
  | body => throw (.wrongKind path kind body.kind)

/-- Number of tuples of the matrix, array or list at a path. -/
def tupleCountAt (path : Path) : Except TreeError Nat := do
  let o ← t.objectAt path
  match o.body.tupleShape? with
  | some shape => return shape.size
  | none => throw (.wrongKind path .dataArray o.kind)

/-- The number of tuples that all paths have; no paths have none. -/
def commonTupleCount (paths : List Path) : Except TreeError Nat := do
  let counts ← paths.mapM fun p => return (p, ← t.tupleCountAt p)
  match counts with
  | [] => return 0
  | (_, first) :: _ =>
    if counts.all fun (_, n) => n == first then return first else throw (.tupleCountMismatch counts)

/-- Whether two trees agree in objects, links and next number. -/
def sameAs (u : Tree) : Bool :=
  t.roots == u.roots && t.nextId == u.nextId && t.size == u.size &&
    (t.objects.entries.zip u.objects.entries).all fun ((i, o), (j, p)) => i == j && o.sameAs p

end Tree

end FilterTree
