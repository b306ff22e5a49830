import FilterTree.Parameter.Schema
import FilterTree.Tree.Basic

/-!
# Selections

Bound arguments name objects of a tree: those that a filter reads or changes,
and those that it is about to create. Before a filter plans anything, selected
objects have to be there and to be of the kind that the parameter asks for, and
what is to be created must not be there yet. After the filter's own actions the
created objects are there, and consumed selections may be gone; the second
check leaves both out.

What does not satisfy a parameter is reported with the parameter's label in
front.
-/

namespace FilterTree

/-- What is wrong with a selection. -/
inductive SelectionError where
  | refused (cause : TreeError)
  | typeNotAllowed (path : Path) (actual : ElementType) (allowed : List ElementType)
  | componentsNotAllowed (path : Path) (actual : Shape) (allowed : List Shape)
deriving DecidableEq, Repr

namespace SelectionError

/-- The code of an error. -/
def code : SelectionError → Int
  | refused cause => cause.code
  | typeNotAllowed .. => -206
  | componentsNotAllowed .. => -207

/-- The text of an error. -/
def message : SelectionError → String
  | refused cause => cause.message
  | typeNotAllowed path actual allowed =>
    TreeError.quote path ++ " is " ++ actual.name ++ ", allowed: "
      ++ ", ".intercalate (allowed.map ElementType.name)
  | componentsNotAllowed path actual allowed =>
    TreeError.quote path ++ " has component shape " ++ Numeral.natsText actual ++ ", allowed: "
      ++ Numeral.listText (allowed.map Numeral.natsText)

/-- An error about the selection of a parameter. -/
def failure (label : String) (e : SelectionError) : Failure :=
  ⟨.structural, e.code, label ++ ": " ++ e.message⟩

end SelectionError

namespace Parameter

/-- What the tree says about a selection. -/
def asked (r : Except TreeError α) : Except SelectionError α := r.mapError .refused

/-- The object at a path has to be of an allowed kind. -/
def checkKind (t : Tree) (path : Path) (allowed : ObjectKind → Bool) (expected : ObjectKind) :
    Except SelectionError Unit := do
  let actual ← asked (t.kindAt path)
  if allowed actual then return else throw (.refused (.wrongKind path expected actual))

/-- An element type has to be among the allowed ones; none listed allows all. -/
def checkType (path : Path) (actual : ElementType) (allowed : List ElementType) :
    Except SelectionError Unit :=
  if allowed.isEmpty || allowed.contains actual then .ok ()
  else .error (.typeNotAllowed path actual allowed)

/-- Check one argument of a kind against a tree. -/
def checkSelection (t : Tree) : ParameterKind → Argument → Except SelectionError Unit
  | .arraySelection types shapes, .path path => do
    let a ← asked (t.arrayAt path)
    checkType path a.elementType types
    let components := a.store.componentShape
    if shapes.isEmpty || shapes.contains components then return
    else throw (.componentsNotAllowed path components shapes)
  | .listSelection types, .path path => do
    let l ← asked (t.listAt path)
    checkType path l.elementType types
  | .groupSelection, .path path =>
    checkKind t path (fun k => k == .dataGroup || k.isGeometry) .dataGroup
  | .matrixSelection, .path path => checkKind t path (· == .attributeMatrix) .attributeMatrix
  | .geometrySelection, .path path => do let _ ← asked (t.geometryAt path)
  | .objectSelection, .path path => do let _ ← asked (t.resolve path)
  | .objectsSelection, .paths paths => asked (paths.forM fun p => do let _ ← t.resolve p)
  | .groupCreation, .path path | .arrayCreation, .path path =>
    if t.contains path then
      .error (.refused (.nameCollision (path.parent?.getD .root) (path.name?.getD "")))
    else .ok ()
  | _, _ => .ok ()

end Parameter

namespace Schema

variable (s : Schema)

/-- Whether a parameter is looked at; after the filter's actions some are not. -/
def isChecked (before : Bool) (p : Parameter) : Bool :=
  before || !(p.consumed || p.kind.isCreation)

/-- What is wrong with the argument of one parameter. -/
def selectionFailure? (args : Arguments) (t : Tree) (p : Parameter) : Option Failure :=
  match args.get? p.key with
  | none => none
  | some value =>
    match Parameter.checkSelection t p.kind value with
    | .ok _ => none
    | .error e => some (e.failure p.label)

/-- Check the active parameters against a tree. -/
def checkTree (args : Arguments) (t : Tree) (before : Bool) : Report Unit :=
  let checked := s.parameters.filter fun p => s.isActive p.key args && isChecked before p
  match checked.filterMap (selectionFailure? args t) with
  | [] => .ok ()
  | failures => .failed failures

/-- Check selections and creations before the filter plans. -/
def checkBefore (args : Arguments) (t : Tree) : Report Unit := s.checkTree args t true

/-- Check what is left of the selections after the filter's own actions. -/
def checkAfter (args : Arguments) (t : Tree) : Report Unit := s.checkTree args t false

end Schema

end FilterTree
