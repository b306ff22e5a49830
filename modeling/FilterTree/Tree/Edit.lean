import FilterTree.Tree.Basic

/-!
# Editing the tree

An edit is a computation on the tree that may be refused; what it has changed
up to a refusal stays changed. So that nothing does, an edit decides first
whether it can be carried out as a whole and only then begins to write. The
checks are functions of the tree that was found (`checkAttach`,
`checkResize`), the writes are total functions from trees to trees (`attach`,
`detach`), and an edit is a sequence of the two.

Creating a geometry is three insertions in a row and resizing a matrix touches
several objects; there the checks at the beginning have to foresee all that
the later steps could object to.
-/

namespace FilterTree

/-- A computation on the tree that may be refused. -/
abbrev Edit (α : Type) : Type := ExceptT TreeError (StateM Tree) α

/-- Carry out an edit: its result, and the tree it leaves. -/
def Edit.on (e : Edit α) (t : Tree) : Except TreeError α × Tree := (ExceptT.run e).run t

/-- What a function of the tree says, as an edit that changes nothing. -/
def Edit.ask (f : Tree → Except TreeError α) : Edit α := do
  match f (← get) with
  | .ok a => return a
  | .error e => throw e

namespace Tree

/-! ## Links -/

variable (t : Tree)

/-- Modify an object. -/
def modify (id : ObjectId) (f : Object → Object) : Tree :=
  { t with objects := t.objects.modify id f }

/-- Modify the children of a parent, or the top-level objects. -/
def modifyChildren (parent : Option ObjectId)
    (f : SortedMap String ObjectId → SortedMap String ObjectId) : Tree :=
  match parent with
  | none => { t with roots := f t.roots }
  | some id => t.modify id fun o => { o with children := f o.children }

/-- List an object under a name at its parent. -/
def attach (parent : Option ObjectId) (name : String) (id : ObjectId) : Tree :=
  t.modifyChildren parent fun children => children.insert name id

/-- Take a name off the parent's list. -/
def detachName (parent : Option ObjectId) (name : String) : Tree :=
  t.modifyChildren parent fun children => children.erase name

/-- Take an object off its parent's list, and out of the slots of a geometry that is its parent. -/
def detach (id : ObjectId) : Tree :=
  match t.object? id with
  | none => t
  | some o =>
    let t := t.detachName o.parent o.name
    match o.parent with
    | none => t
    | some parent => t.modify parent fun p => { p with body := p.body.forget id }

/-- Replace the body of an object. -/
def setBody (id : ObjectId) (body : Body) : Tree := t.modify id fun o => { o with body := body }

/-- Replace the body of the object at a path, if there is one. -/
def setBodyAt (path : Path) (body : Body) : Tree :=
  match t.idOf? path with
  | some id => t.setBody id body
  | none => t

/-! ## Checks -/

/-- Whether a parent has a child of a name. -/
def hasChild (parent : Option ObjectId) (name : String) : Bool :=
  match parent with
  | none => t.roots.contains name
  | some id => (t.object? id).any fun o => o.children.contains name

/-- Whether a container takes a body: an attribute matrix only arrays and lists of its own shape. -/
def checkContainer (path : Path) (container : Object) (name : String) (body : Body) :
    Except TreeError Unit :=
  if !container.kind.isContainer then .error (.notAContainer path)
  else match container.body with
    | .matrix shape =>
      if body.kind ≠ .dataArray ∧ body.kind ≠ .neighborList then
        .error (.childKindNotAllowed path container.kind body.kind)
      else
        let actual := body.tupleShape?.getD []
        if actual = shape then .ok ()
        else .error (.tupleShapeMismatch (path.child name) shape actual)
    | _ => .ok ()

/-- Whether a body can become a child of a parent under a name. -/
def checkAttach (path : Path) (parent : Option ObjectId) (name : String) (body : Body) :
    Except TreeError Unit := do
  match parent with
  | none => pure ()
  | some id =>
    match t.object? id with
    | none => throw (.pathNotFound path)
    | some container => checkContainer path container name body
  if t.hasChild parent name then throw (.nameCollision path name)

/-- The number of the object at a path that is to be a parent; the root has none. -/
def parentId (path : Path) (missing : TreeError) : Except TreeError (Option ObjectId) :=
  if path.isRoot then .ok none
  else match t.idOf? path with
    | some id => .ok (some id)
    | none => .error missing

/-- A shape that a store at a path is to have must not overflow. -/
def checkShape (path : Path) (shape : Shape) : Except TreeError Unit :=
  match shape.size? with
  | some _ => .ok ()
  | none => .error (.store path (.shapeOverflow shape))

/-- The parent under which a new object may be put. -/
def checkInsert (parent : Path) (name : String) (body : Body) :
    Except TreeError (Option ObjectId) := do
  TreeError.checkName name
  match body.tupleShape? with
  | some shape => checkShape (parent.child name) shape
  | none => pure ()
  let id ← t.parentId parent (.parentNotFound (parent.child name) parent)
  t.checkAttach parent id name body
  return id

/-- Put a new object under a parent, with the next number. -/
def addObject (parent : Option ObjectId) (name : String) (body : Body) : Tree :=
  let id := t.nextId
  let t := { t with nextId := id + 1 }.attach parent name id
  { t with objects := t.objects.insert id ⟨name, parent, .empty, body⟩ }

/-- The parent and the last name of a path; the root has neither. -/
def splitPath (path : Path) : Except TreeError (Path × String) :=
  match path.parent?, path.name? with
  | some parent, some name => .ok (parent, name)
  | _, _ => .error .rootOperation

end Tree

namespace Edit

open FilterTree.Tree (checkShape splitPath)

/-! ## Creating -/

/-- Create an object under a parent; the empty path stands for the top level. -/
def insert (parent : Path) (name : String) (body : Body) : Edit ObjectId := do
  let parentId ← ask fun t => t.checkInsert parent name body
  let id := (← get).nextId
  modify fun t => t.addObject parentId name body
  return id

/-- Create an object at a path. -/
def create (path : Path) (body : Body) : Edit ObjectId := do
  let (parent, name) ← ask fun _ => splitPath path
  insert parent name body

/-- Create a regular grid and the matrix of its cell data. -/
def createImage (path : Path) (dimensions : Triple Nat) (spacing origin : Triple Float32)
    (cellDataName : String) : Edit ObjectId := do
  ask fun _ => TreeError.checkName cellDataName
  let shape := (Geometry.bareImage dimensions spacing origin).elementShape
  ask fun _ => checkShape path shape
  let id ← create path (.geometry (.bareImage dimensions spacing origin))
  let matrix ← insert path cellDataName (.matrix shape)
  modify fun t => t.setBody id (.geometry (.image dimensions spacing origin (some matrix)))
  return id

/-- Create a cloud of points, the array of its coordinates and the matrix of its vertex data. -/
def createVertex (path : Path) (count : Nat) (vertexDataName coordinatesName : String)
    (allocated : Bool) : Edit ObjectId := do
  ask fun _ => TreeError.checkName vertexDataName
  ask fun _ => TreeError.checkName coordinatesName
  if vertexDataName = coordinatesName then throw (.nameCollision path vertexDataName)
  let coordinates ← ask fun _ =>
    (DataArray.fresh .float32 [count] [3] allocated).mapError
      (TreeError.store (path.child coordinatesName))
  let id ← create path (.geometry (.bareVertex count))
  let list ← insert path coordinatesName (.array coordinates)
  let matrix ← insert path vertexDataName (.matrix [count])
  modify fun t => t.setBody id (.geometry (.vertex count (some matrix) (some list)))
  return id

/-! ## Removing, renaming, moving -/

/-- Remove the object at a path with all that lies below it; how many objects those are. -/
def remove (path : Path) : Edit Nat := do
  if path.isRoot then throw .rootOperation
  let id ← ask fun t => t.resolve path
  let t ← get
  let gone := t.subtree t.size id
  let detached := t.detach id
  let rest := { detached with objects := detached.objects.filter fun i _ => !gone.contains i }
  set rest
  return t.size - rest.size

/-- Give the object at a path another name. -/
def rename (path : Path) (name : String) : Edit Unit := do
  let (parent, oldName) ← ask fun _ => splitPath path
  ask fun _ => TreeError.checkName name
  let id ← ask fun t => t.resolve path
  if oldName = name then return
  let t ← get
  let parentId := (t.object? id).bind Object.parent
  if t.hasChild parentId name then throw (.nameCollision parent name)
  set <| ((t.detachName parentId oldName).attach parentId name id).modify id fun o =>
    { o with name := name }

/-- Move the object at a path under another parent; the empty path stands for the top level. -/
def move (path newParent : Path) : Edit Unit := do
  let (_, name) ← ask fun _ => splitPath path
  let id ← ask fun t => t.resolve path
  if path.leadsTo newParent then throw (.cycle path newParent)
  let parentId ← ask fun t => t.parentId newParent (.pathNotFound newParent)
  let o ← ask fun t => t.objectAt path
  if o.parent = parentId then return
  ask fun t => t.checkAttach newParent parentId name o.body
  modify fun t => ((t.detach id).attach parentId name id).modify id fun o =>
    { o with parent := parentId }

end Edit

/-! ## Resizing a matrix -/

namespace Tree

/-- Whether an array could take a tuple shape; the path is the one to report. -/
def checkResize (t : Tree) (path : Path) (shape : Shape) (id : ObjectId) : Except TreeError Unit :=
  match (t.object? id).map Object.body with
  | some (.array a) =>
    ((Shape.elementCount shape a.store.componentShape).mapError (TreeError.store path)).map
      fun _ => ()
  | _ => .ok ()

/-- The geometry that owns a matrix as its element data. -/
def owner? (t : Tree) (id : ObjectId) (parent : Option ObjectId) :
    Option (ObjectId × Geometry) := do
  let p ← parent
  let o ← t.object? p
  match o.body with
  | .geometry g => if g.elementData = some id then some (p, g) else none
  | _ => none

/-- The owner of a matrix with the new size, if the matrix has an owner. -/
def checkOwner (t : Tree) (path : Path) (id : ObjectId) (parent : Option ObjectId) (shape : Shape) :
    Except TreeError (Option (ObjectId × Geometry)) := do
  match t.owner? id parent with
  | none => return none
  | some (ownerId, g) =>
    match g.resized? shape with
    | none => throw (.geometryShapeMismatch path g.kind shape)
    | some resized =>
      match g.coordinates with
      | some list => t.checkResize path shape list
      | none => pure ()
      return some (ownerId, resized)

end Tree

namespace Edit

/-- Give an object another tuple shape; the path is the one to report. -/
def retuple (path : Path) (shape : Shape) (id : ObjectId) : Edit Unit := do
  match (← get).object? id with
  | none => return
  | some o =>
    match o.body.retuple shape with
    | .ok body => modify fun t => t.setBody id body
    | .error e => throw (.store path e)

/--
Give a matrix and the arrays and lists in it another tuple shape. A geometry
whose element data the matrix holds follows, and so do a cloud's coordinates.
-/
def resizeMatrix (path : Path) (shape : Shape) : Edit Unit := do
  let id ← ask fun t => t.resolve path
  let o ← ask fun t => t.objectAt path
  if o.kind ≠ .attributeMatrix then throw (.wrongKind path .attributeMatrix o.kind)
  let children := o.children.values
  ask fun _ => Tree.checkShape path shape
  ask fun t => children.forM (t.checkResize path shape)
  let owner ← ask fun t => t.checkOwner path id o.parent shape
  (id :: children).forM (retuple path shape)
  match owner with
  | none => return
  | some (ownerId, g) =>
    match g.coordinates with
    | some list => retuple path shape list
    | none => pure ()
    modify fun t => t.setBody ownerId (.geometry g)

end Edit

end FilterTree
