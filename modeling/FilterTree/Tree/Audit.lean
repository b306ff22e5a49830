import FilterTree.Tree.Basic

/-!
# Auditing the tree

The audit looks at the links of every object and at nothing else: each
top-level entry, each parent and each child has to be confirmed from the other
side, names have to be valid, leaves have no children, the children of an
attribute matrix have its tuple shape, a geometry has the size of its element
data, and the walk up from every object ends. The first thing found wrong, in
the order of the objects' numbers, is the answer.
-/

namespace FilterTree.Tree

variable (t : Tree)

/-- A broken link as an error. -/
def broken (cause : Inconsistency) : Except TreeError Unit := .error (.inconsistent cause)

/-- A top-level entry names an object without a parent that has the entry's name. -/
def auditRoot (name : String) (id : ObjectId) : Except TreeError Unit :=
  match t.object? id with
  | none => broken (.danglingRoot name id)
  | some o => if o.parent.isSome || o.name != name then broken (.rootMismatch name id) else .ok ()

/-- The parent, or the top level, lists the object under its name. -/
def auditParent (id : ObjectId) (o : Object) : Except TreeError Unit :=
  match o.parent with
  | none => if t.roots.get? o.name = some id then .ok () else broken (.detached id)
  | some parent =>
    if (t.object? parent).any fun p => p.children.get? o.name == some id then .ok ()
    else broken (.unlisted id parent)

/-- A listed child is there, points back, and fits into a matrix. -/
def auditChild (id : ObjectId) (o : Object) (name : String) (childId : ObjectId) :
    Except TreeError Unit :=
  match t.object? childId with
  | none => broken (.missingChild id name)
  | some child =>
    if child.parent ≠ some id ∨ child.name ≠ name then broken (.staleChild id name)
    else match o.body with
      | .matrix shape =>
        let actual := child.body.tupleShape?.getD []
        if actual = shape then .ok ()
        else .error (.tupleShapeMismatch ((t.pathOf? childId).getD .root) shape actual)
      | _ => .ok ()

/-- A geometry has the size of its element data. -/
def auditGeometry (id : ObjectId) (o : Object) : Except TreeError Unit :=
  match o.body with
  | .geometry g =>
    match (g.elementData.bind t.object?).bind fun e => e.body.tupleShape? with
    | some shape => if shape = g.elementShape then .ok () else broken (.geometrySize id)
    | none => .ok ()
  | _ => .ok ()

/-- Everything about one object. -/
def auditObject (id : ObjectId) (o : Object) : Except TreeError Unit := do
  TreeError.checkName o.name
  t.auditParent id o
  if !o.kind.isContainer && !o.children.isEmpty then broken (.leafWithChildren id)
  o.children.entries.forM fun (name, child) => t.auditChild id o name child
  t.auditGeometry id o
  if (t.pathOf? id).isNone then broken (.cyclicAncestry id)

/-- Audit the whole tree. -/
def audit : Except TreeError Unit := do
  t.roots.entries.forM fun (name, id) => t.auditRoot name id
  t.objects.entries.forM fun (id, o) => t.auditObject id o

end FilterTree.Tree
