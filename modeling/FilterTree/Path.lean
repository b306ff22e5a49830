import FilterTree.Text.Blank

/-!
# Paths

An object of the tree is addressed by the names on the way to it from the root;
the empty path is the root itself. As text the names stand between slashes, so
a slash cannot be part of a name, and a name of blanks only would be invisible:
both are what `validName` refuses. Text is split at every slash and each piece
has to be a valid name, which is why a path that can be read can also be
created, one level after the other.

Paths made from names that were read back from the tree are not checked again;
`ofNames?` is for names that come from elsewhere.
-/

namespace FilterTree

/-- The character between the names of a path's text. -/
def separator : Char := '/'

/-- Whether a text may name an object: something other than blanks, and no separator. -/
def validName (name : String) : Bool :=
  !Text.isAllBlank name && !name.toList.contains separator

/-- A name that no object may have. -/
structure InvalidName where
  name : String
deriving DecidableEq, Repr

/-- Accept a valid name. -/
def checkName (name : String) : Except InvalidName Unit :=
  if validName name then .ok () else .error ⟨name⟩

/-- Names from the root to an object. -/
structure Path where
  names : List String
deriving DecidableEq, Repr, Inhabited

namespace Path

/-- The path of the root. -/
def root : Path := ⟨[]⟩

/-- The path of a top-level object. -/
def single (name : String) : Path := ⟨[name]⟩

/-- Whether this is the path of the root. -/
def isRoot (p : Path) : Bool := p.names.isEmpty

/-- Path of the containing object; the root has none. -/
def parent? (p : Path) : Option Path :=
  if p.names.isEmpty then none else some ⟨p.names.dropLast⟩

/-- Last name; the root has none. -/
def name? (p : Path) : Option String := p.names.getLast?

/-- The path of a child. -/
def child (p : Path) (name : String) : Path := ⟨p.names ++ [name]⟩

/-- The same parent and another name; from the root, a top-level path. -/
def withName (p : Path) (name : String) : Path := ⟨p.names.dropLast ++ [name]⟩

/-- The names below an ancestor that leads here. -/
def below? (p ancestor : Path) : Option (List String) :=
  if ancestor.names.isPrefixOf p.names then some (p.names.drop ancestor.names.length) else none

/-- Whether `p` is `q` or one of its ancestors. -/
def leadsTo (p q : Path) : Bool := p.names.isPrefixOf q.names

/-- Whether `p` is an ancestor of `q` other than `q`. -/
def isAncestorOf (p q : Path) : Bool := (q.below? p).any fun rest => !rest.isEmpty

/-- Paths in the order of their names, an ancestor before what lies below it. -/
instance : Ord Path := ⟨fun p q => compare p.names q.names⟩

/-! ## Text -/

/-- The names with a separator between them. -/
def toText (p : Path) : String := separator.toString.intercalate p.names

/-- Cut a row of characters at every separator. -/
def pieces : List Char → List (List Char)
  | [] => [[]]
  | c :: cs =>
    if c = separator then [] :: pieces cs
    else match pieces cs with
      | [] => [[c]]
      | piece :: rest => (c :: piece) :: rest

/-- A path of names that all have to be valid; the first that is not is the error. -/
def ofNames? (names : List String) : Except InvalidName Path := do
  names.forM checkName
  return ⟨names⟩

/-- Read a path; the empty text is the root. -/
def ofText? (s : String) : Except InvalidName Path :=
  if s.isEmpty then .ok root else ofNames? ((pieces s.toList).map String.ofList)

end Path

end FilterTree
