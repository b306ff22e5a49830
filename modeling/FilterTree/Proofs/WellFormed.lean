import FilterTree.Proofs.Links
import FilterTree.Proofs.SortedMap
import FilterTree.Proofs.Store
import FilterTree.Tree.Basic
import Mathlib.Logic.Relation

/-!
# Well-formed trees

What has to hold of a tree so that every edit can do its work and leave a tree
of which it holds again. The first half is about links (`Linked`): the parent
lists what names it as its parent and nothing else, and every object is reached
by names from the top. The second half is about bodies (`WellFormed`): stores
are sound, the children of an attribute matrix have its tuple shape, and what a
geometry has in its slots are children of the geometry of its own size.

This is more than an audit looks at. An audit sees only whether a geometry and
its element data agree in size; that they still agree after the matrix was
resized needs the matrix to be a child of that geometry and of no other, which
is why the slots are part of the invariant.

Reaching every object is stated by paths and not by the absence of cycles,
because a path is what an edit is given and what it changes. That no object is
its own ancestor follows (`Linked.acyclic`): below an object paths only get
longer, and an object has one path.
-/

namespace FilterTree

open Links

/-! ## Bodies -/

namespace Body

/-- The sizes of a body stay below the limit, and its store holds what its shapes promise. -/
def Sound : Body → Prop
  | matrix shape => shape.size?.isSome
  | array a => a.store.Sound
  | list l => l.store.Sound
  | group | geometry _ => True

/-- An array or a list of a tuple shape: what a matrix of that shape may hold. -/
def HasTuples (shape : Shape) : Body → Prop
  | array a => a.store.tupleShape = shape
  | list l => l.store.tupleShape = shape
  | group | matrix _ | geometry _ => False

/-- An array of coordinates, three to a vertex. -/
def HasCoordinates (shape : Shape) : Body → Prop
  | array a =>
    a.elementType = .float32 ∧ a.store.tupleShape = shape ∧ a.store.componentShape = [3]
  | group | matrix _ | list _ | geometry _ => False

/-- A body that names no other object: the slots of a geometry are empty. -/
def Bare : Body → Prop
  | geometry g => g.elementData = none ∧ g.coordinates = none
  | group | matrix _ | array _ | list _ => True

theorem tupleShape?_of_hasTuples {shape : Shape} {b : Body} (h : b.HasTuples shape) :
    b.tupleShape? = some shape := by
  cases b with
  | array a => exact congrArg some h
  | list l => exact congrArg some h
  | group | matrix _ | geometry _ => cases h

theorem fits_of_sound {b : Body} (h : b.Sound) (shape : Shape) (hb : b.tupleShape? = some shape) :
    shape.size?.isSome := by
  cases b with
  | matrix s =>
      cases hb
      exact h
  | array a =>
      cases hb
      exact Shape.size?_isSome_of_elementCount? (DenseStore.Sound.counted h)
  | list l =>
      cases hb
      exact ListStore.Sound.counted h
  | group | geometry _ => cases hb

end Body

/-! ## Trees -/

/-! ## The path of a child -/

namespace Path

variable {p : Path} {m n : String}

@[simp] theorem name?_child : (p.child n).name? = some n := List.getLast?_concat

@[simp] theorem parent?_child : (p.child n).parent? = some p := by
  simp [parent?, child]

@[simp] theorem withName_child : (p.child m).withName n = p.child n := by
  simp [withName, child]

@[simp] theorem length_names_child : (p.child n).names.length = p.names.length + 1 :=
  List.length_append

end Path

namespace Tree

variable {t : Tree}

/-- What a name leads to from an object, or from the top. -/
def links (t : Tree) : Links
  | none, name => t.roots.get? name
  | some id, name => (t.object? id).bind fun o => o.children.get? name

/-- A place where objects can be listed: the top, or an object. -/
def Has (t : Tree) : Option ObjectId → Prop
  | none => True
  | some id => ∃ o, t.object? id = some o

theorem descend_eq {id : ObjectId} {names : List String} :
    t.descend id names = (t.links.walk (some id) names).join := by
  induction names generalizing id with
  | nil => rfl
  | cons name names ih =>
      rw [descend, walk_cons, links]
      cases t.object? id with
      | none => rfl
      | some o =>
          rw [Option.bind_eq_bind, Option.bind_some, Option.bind_some]
          cases o.children.get? name with
          | none => rfl
          | some child => exact ih

theorem idOf?_eq {path : Path} : t.idOf? path = (t.links.walk none path.names).join := by
  rw [idOf?]
  cases path.names with
  | nil => rfl
  | cons name names =>
      rw [walk_cons, links]
      show ((t.roots.get? name).bind fun id => t.descend id names) = _
      cases t.roots.get? name with
      | none => rfl
      | some id => exact descend_eq

theorem idOf?_eq_some {path : Path} {id : ObjectId} :
    t.idOf? path = some id ↔ t.links.walk none path.names = some (some id) := by
  rw [idOf?_eq, Option.join_eq_some_iff]

/-- Names that lead from the top to an object lead to the object at that path. -/
theorem idOf?_of_walk {names : List String} {id : ObjectId}
    (h : t.links.walk none names = some (some id)) : t.idOf? ⟨names⟩ = some id :=
  idOf?_eq_some.mpr h

/-- The root is no object. -/
theorem names_ne_nil {path : Path} {id : ObjectId} (hid : t.idOf? path = some id) :
    path.names ≠ [] := by
  intro hnil
  rw [idOf?, hnil] at hid
  cases hid

/-- What a path leads to is a child of something, or of the top. -/
theorem eq_child_of_idOf? {path : Path} {id : ObjectId} (hid : t.idOf? path = some id) :
    ∃ (parent : Path) (name : String), path = parent.child name := by
  obtain ⟨xs, name, hnames⟩ := (List.eq_nil_or_concat path.names).resolve_left (names_ne_nil hid)
  exact ⟨⟨xs⟩, name, congrArg Path.mk (hnames.trans List.concat_eq_append)⟩

/--
The links of a tree agree: an object is listed under its name by what it names
as its parent, what is listed is an object that says so, and names lead from
the top to every object.
-/
structure Linked (t : Tree) : Prop where
  listed : ∀ {id o}, t.object? id = some o → t.links o.parent o.name = some id
  stored : ∀ {place name id}, t.links place name = some id →
    ∃ o, t.object? id = some o ∧ o.parent = place ∧ o.name = name
  reached : ∀ {id o}, t.object? id = some o → ∃ path, t.idOf? path = some id

/-- The slots of a geometry hold children of it, of the geometry's own size. -/
structure Slotted (t : Tree) (id : ObjectId) (g : Geometry) : Prop where
  element : ∀ {m}, g.elementData = some m →
    ∃ o, t.object? m = some o ∧ o.parent = some id ∧ o.body = .matrix g.elementShape
  coordinates : ∀ {l}, g.coordinates = some l →
    ∃ o, t.object? l = some o ∧ o.parent = some id ∧ o.body.HasCoordinates g.elementShape

/-- The invariant of the tree. -/
structure WellFormed (t : Tree) : Prop extends Linked t where
  numbered : ∀ {id o}, t.object? id = some o → id < t.nextId
  named : ∀ {id o}, t.object? id = some o → validName o.name = true
  leaf : ∀ {id o}, t.object? id = some o → o.kind.isContainer = false → o.children = .empty
  sound : ∀ {id o}, t.object? id = some o → o.body.Sound
  fitting : ∀ {id o shape name child p}, t.object? id = some o → o.body = .matrix shape →
    t.links (some id) name = some child → t.object? child = some p → p.body.HasTuples shape
  slotted : ∀ {id o g}, t.object? id = some o → o.body = .geometry g → t.Slotted id g

theorem wellFormed_empty : WellFormed empty := by
  have hnone : ∀ id, empty.object? id = none := fun _ => rfl
  have hlinks : ∀ place name, empty.links place name = none := by
    rintro (_ | id) name <;> rfl
  constructor
  · constructor <;> intros <;> simp_all
  all_goals intros; simp_all

/-- The first object is the parent of the second. -/
def IsParent (t : Tree) (p id : ObjectId) : Prop :=
  ∃ o, t.object? id = some o ∧ o.parent = some p

/-! ## What the links give -/

namespace Linked

theorem single (h : Linked t) : t.links.Single := by
  intro p q m n id hp hq
  obtain ⟨o, ho, hparent, hname⟩ := h.stored hp
  obtain ⟨o', ho', hparent', hname'⟩ := h.stored hq
  cases Option.some.inj (ho.symm.trans ho')
  exact ⟨hparent.symm.trans hparent', hname.symm.trans hname'⟩

/-- Where a walk from the top ends objects can be listed. -/
theorem has (h : Linked t) {names : List String} {place : Option ObjectId}
    (hp : t.links.walk none names = some place) : t.Has place := by
  rcases List.eq_nil_or_concat names with rfl | ⟨xs, n, rfl⟩
  · cases hp
    trivial
  · rw [List.concat_eq_append, walk_concat_eq_some] at hp
    obtain ⟨q, id, -, hid, rfl⟩ := hp
    obtain ⟨o, ho, -⟩ := h.stored hid
    exact ⟨o, ho⟩

theorem object_of_idOf? (h : Linked t) {path : Path} {id : ObjectId}
    (hid : t.idOf? path = some id) : ∃ o, t.object? id = some o :=
  h.has (idOf?_eq_some.mp hid)

/-- An object is found below what it names as its parent, under its own name. -/
theorem walk_parent (h : Linked t) {id : ObjectId} {o : Object} {names : List String}
    (ho : t.object? id = some o) (hn : t.links.walk none names = some (some id)) :
    ∃ xs, names = xs ++ [o.name] ∧ t.links.walk none xs = some o.parent := by
  rcases List.eq_nil_or_concat names with rfl | ⟨xs, n, rfl⟩
  · cases hn
  · rw [List.concat_eq_append] at hn ⊢
    rw [walk_concat_eq_some] at hn
    obtain ⟨q, id', hq, hid, heq⟩ := hn
    cases heq
    obtain ⟨rfl, rfl⟩ := h.single hid (h.listed ho)
    exact ⟨xs, rfl, hq⟩

/-- A parent is an object. -/
theorem has_parent (h : Linked t) {id : ObjectId} {o : Object} (ho : t.object? id = some o) :
    t.Has o.parent := by
  obtain ⟨path, hpath⟩ := h.reached ho
  obtain ⟨xs, -, hxs⟩ := h.walk_parent ho (idOf?_eq_some.mp hpath)
  exact h.has hxs

theorem idOf?_unique (h : Linked t) {p q : Path} {id : ObjectId} (hp : t.idOf? p = some id)
    (hq : t.idOf? q = some id) : p = q := by
  have hnames := walk_unique h.single (idOf?_eq_some.mp hp) (idOf?_eq_some.mp hq)
  cases p
  cases q
  exact congrArg Path.mk hnames

/-- Below an ancestor paths are longer. -/
theorem longer_of_ancestor (h : Linked t) {a b : ObjectId}
    (hab : Relation.TransGen t.IsParent a b) :
    ∀ {p q : Path}, t.idOf? p = some a → t.idOf? q = some b → p.names.length < q.names.length := by
  have hstep : ∀ {a b : ObjectId} {p q : Path}, t.IsParent a b → t.idOf? p = some a →
      t.idOf? q = some b → p.names.length < q.names.length := by
    rintro a b p q ⟨o, ho, hparent⟩ hp hq
    obtain ⟨xs, hxs, hwalk⟩ := h.walk_parent ho (idOf?_eq_some.mp hq)
    rw [hparent] at hwalk
    rw [walk_unique h.single (idOf?_eq_some.mp hp) hwalk, hxs, List.length_append]
    exact Nat.lt_succ_self _
  induction hab with
  | single hb => exact hstep hb
  | tail _ hcb ih =>
      intro p q hp hq
      obtain ⟨o, ho, hparent⟩ := hcb
      obtain ⟨c, hc⟩ : t.Has (some _) := hparent ▸ h.has_parent ho
      obtain ⟨p', hp'⟩ := h.reached hc
      exact Nat.lt_trans (ih hp hp') (hstep ⟨o, ho, hparent⟩ hp' hq)

/-- No object is its own ancestor. -/
theorem acyclic (h : Linked t) (id : ObjectId) : ¬ Relation.TransGen t.IsParent id id := by
  intro hcycle
  obtain ⟨_, ⟨o, ho, _⟩⟩ : ∃ a, t.IsParent a id := by
    cases hcycle with
    | single hp => exact ⟨_, hp⟩
    | tail _ hp => exact ⟨_, hp⟩
  obtain ⟨path, hpath⟩ := h.reached ho
  exact Nat.lt_irrefl _ (h.longer_of_ancestor hcycle hpath hpath)

theorem parent_ne (h : Linked t) {id : ObjectId} {o : Object} (ho : t.object? id = some o) :
    o.parent ≠ some id := fun hp => h.acyclic id (.single ⟨o, ho, hp⟩)

/-- A path to an object is no longer than there are objects. -/
theorem length_le_size (h : Linked t) {names : List String} {place : Option ObjectId}
    (hp : t.links.walk none names = some place) : names.length ≤ t.size := by
  have hkeys : t.size = t.objects.keys.length := by
    rw [size, SortedMap.size, SortedMap.keys, List.length_map]
  rw [hkeys]
  refine length_le_of_walk h.single (fun hid => ?_) hp
  obtain ⟨o, ho, -⟩ := h.stored hid
  exact SortedMap.mem_keys_iff.mpr (Option.isSome_of_eq_some ho)

end Linked

end Tree

end FilterTree
