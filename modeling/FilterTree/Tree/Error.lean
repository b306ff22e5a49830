import FilterTree.Tree.Object

/-!
# Errors of the tree

Each way in which an operation on the tree can be refused is a constructor; its
arguments say what was asked for and what stood in the way. Every one has a
code that never changes and a text for a message. What an audit of the whole
tree may find wrong with a link is an `Inconsistency`.
-/

namespace FilterTree

/-- A broken link of the tree. -/
inductive Inconsistency where
  | danglingRoot (name : String) (id : ObjectId)
  | rootMismatch (name : String) (id : ObjectId)
  | detached (id : ObjectId)
  | unlisted (id parent : ObjectId)
  | leafWithChildren (id : ObjectId)
  | missingChild (id : ObjectId) (name : String)
  | staleChild (id : ObjectId) (name : String)
  | geometrySize (id : ObjectId)
  | cyclicAncestry (id : ObjectId)
deriving DecidableEq, Repr

/-- The text of a broken link. -/
def Inconsistency.message : Inconsistency → String
  | danglingRoot name id => s!"root '{name}' points to missing #{id}"
  | rootMismatch name id => s!"root entry '{name}' disagrees with #{id}"
  | detached id => s!"#{id} is detached"
  | unlisted id parent => s!"#{id} is not listed by its parent #{parent}"
  | leafWithChildren id => s!"#{id} is a leaf with children"
  | missingChild id name => s!"#{id} lists missing child '{name}'"
  | staleChild id name => s!"child '{name}' of #{id} has a stale link"
  | geometrySize id => s!"#{id} is sized differently from its element data"
  | cyclicAncestry id => s!"#{id} has a cyclic ancestry"

/-- Why an operation on the tree was refused. -/
inductive TreeError where
  | pathNotFound (path : Path)
  | parentNotFound (path parent : Path)
  | nameCollision (parent : Path) (name : String)
  | invalidName (name : String)
  | notAContainer (path : Path)
  | wrongKind (path : Path) (expected actual : ObjectKind)
  | wrongElementType (path : Path) (requested actual : ElementType)
  | tupleShapeMismatch (path : Path) (expected actual : Shape)
  | tupleCountMismatch (counts : List (Path × Nat))
  | cycle (path newParent : Path)
  | rootOperation
  | store (path : Path) (cause : StoreError)
  | childKindNotAllowed (parent : Path) (parentKind child : ObjectKind)
  | inconsistent (cause : Inconsistency)
  | notAGeometry (path : Path) (actual : ObjectKind)
  | geometryShapeMismatch (path : Path) (geometry : ObjectKind) (shape : Shape)
deriving DecidableEq, Repr

namespace TreeError

/-- The code of an error. -/
def code : TreeError → Int
  | pathNotFound .. => -100
  | parentNotFound .. => -101
  | nameCollision .. => -102
  | invalidName .. => -103
  | notAContainer .. => -104
  | wrongKind .. => -105
  | wrongElementType .. => -106
  | tupleShapeMismatch .. => -107
  | tupleCountMismatch .. => -108
  | cycle .. => -109
  | rootOperation => -110
  | store .. => -111
  | childKindNotAllowed .. => -112
  | inconsistent .. => -113
  | notAGeometry .. => -114
  | geometryShapeMismatch .. => -115

/-- A path in quotes. -/
def quote (p : Path) : String := "'" ++ p.toText ++ "'"

/-- The text of an error. -/
def message : TreeError → String
  | pathNotFound path => "object not found at " ++ quote path
  | parentNotFound path parent =>
    "parent " ++ quote parent ++ " of " ++ quote path ++ " does not exist"
  | nameCollision parent name => s!"an object named '{name}' already exists under " ++ quote parent
  | invalidName name => s!"invalid object name '{name}'"
  | notAContainer path => quote path ++ " is not a container"
  | wrongKind path expected actual =>
    quote path ++ " is a " ++ actual.text ++ ", expected " ++ expected.text
  | wrongElementType path requested actual =>
    quote path ++ " holds " ++ actual.name ++ " elements, requested " ++ requested.name
  | tupleShapeMismatch path expected actual =>
    quote path ++ " has tuple shape " ++ Numeral.natsText actual
      ++ " but attribute matrix requires " ++ Numeral.natsText expected
  | tupleCountMismatch counts =>
    "tuple counts differ: "
      ++ ", ".intercalate (counts.map fun (path, n) => quote path ++ " = " ++ Numeral.natText n)
  | cycle path newParent =>
    "cannot move " ++ quote path ++ " into its own descendant " ++ quote newParent
  | rootOperation => "operation not allowed on the root"
  | store path cause => quote path ++ ": " ++ cause.message
  | childKindNotAllowed parent parentKind child =>
    parentKind.text ++ " " ++ quote parent ++ " cannot hold a " ++ child.text
  | inconsistent cause => "inconsistent tree: " ++ cause.message
  | notAGeometry path actual => quote path ++ " is a " ++ actual.text ++ ", expected a geometry"
  | geometryShapeMismatch path geometry shape =>
    quote path ++ " holds the elements of a " ++ geometry.text ++ " and cannot take tuple shape "
      ++ Numeral.natsText shape

/-- The refusal of a name. -/
def ofInvalidName (e : InvalidName) : TreeError := invalidName e.name

/-- Accept a valid name. -/
def checkName (name : String) : Except TreeError Unit :=
  (FilterTree.checkName name).mapError ofInvalidName

end TreeError

end FilterTree
