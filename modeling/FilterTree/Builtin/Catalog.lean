import FilterTree.Builtin.Creation
import FilterTree.Builtin.FilledArray
import FilterTree.Builtin.Misorientation
import FilterTree.Registry

/-!
# The built-in filters

The filters that every registry of this library begins with, in the order in
which they are listed.
-/

namespace FilterTree.Builtin

/-- The built-in filters in order. -/
def filters : List Filter :=
  [CreateGroup.filter, CreateMatrix.filter, CreateArray.filter, CreateImage.filter, Rename.filter,
    Move.filter, Delete.filter, ResizeMatrix.filter, Misorientation.filter]

/-- The registry of the built-in filters. -/
def registry : Registry := (Registry.empty.registerAll filters).2

end FilterTree.Builtin
