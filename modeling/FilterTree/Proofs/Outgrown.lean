import FilterTree.Proofs.Admitted
import FilterTree.Proofs.AllOrNothing
import FilterTree.Proofs.Retupled

/-!
# What planning a resizing looks at

A plan to resize a matrix looks at three things that the tree looks at as well: that there is a
matrix, that its tuples can be counted in the new shape, and that the shape has the rank that the
owner needs. With these the tree can refuse only for one reason that is left (`Outgrown`). The
arrays that take the shape along with the matrix have components, and there can be too many elements
of them where the tuples alone can still be counted.

The plan looks at none of these arrays, so a plan that has been accepted is carried out exactly if
all of them can be counted. The tree counts them before it changes anything, and where it refuses,
the tree is as it was.
-/

namespace FilterTree

open Edit

namespace Tree

variable {t u : Tree} {path : Path} {shape : Shape} {id : ObjectId} {o : Object}

/-- What takes a shape along with a matrix: what is in it, and the coordinates of its owner. -/
def Along (t : Tree) (id : ObjectId) (o : Object) (c : ObjectId) : Prop :=
  (∃ p, t.object? c = some p ∧ p.parent = some id) ∨
    ∃ p q g, t.Owns p q g id o ∧ g.coordinates = some c

/-- An array along with a matrix is too large in a shape, and the error that says so. -/
def Outgrown (t : Tree) (path : Path) (shape : Shape) (id : ObjectId) (o : Object)
    (e : TreeError) : Prop :=
  ∃ c p a, t.Along id o c ∧ t.object? c = some p ∧ p.body = .array a ∧
    shape.elementCount? a.store.componentShape = none ∧
    e = .store path (.shapeOverflow (shape ++ a.store.componentShape))

structure Foreseen (t : Tree) (shape : Shape) (id : ObjectId) (o : Object) : Prop where
  matrix : o.kind = .attributeMatrix
  counted : shape.size?.isSome
  rank : ∀ {p q g}, t.Owns p q g id o → shape.length = g.rank

theorem Foreseen.takes_iff (hf : t.Foreseen shape id o) :
    t.Takes shape id o ↔ ∀ c, t.Along id o c → t.Counts shape c := by
  constructor
  · rintro ht c (⟨p, hp, hparent⟩ | ⟨p, q, g, hq, hl⟩)
    · exact ht.children hp hparent
    · exact ht.coordinates hq hl
  · intro h
    exact ⟨hf.matrix, hf.counted, fun hp hparent => h _ (.inl ⟨_, hp, hparent⟩), hf.rank,
      fun hq hl => h _ (.inr ⟨_, _, _, hq, hl⟩)⟩

theorem checkResize_refusesFor {c : ObjectId} (hc : t.Along id o c) :
    RefusesFor (t.Outgrown path shape id o) (t.checkResize path shape c) := by
  rw [checkResize]
  split
  · next a ha =>
      obtain ⟨p, hp, hbody⟩ := Option.map_eq_some_iff.mp ha
      refine RefusesFor.map (.mapError fun e he => ⟨c, p, a, hc, hp, hbody, ?_⟩)
      rw [Shape.elementCount] at he
      split at he
      · cases he
      · next hnone =>
          cases he
          exact ⟨hnone, rfl⟩
  · exact .ok

theorem Foreseen.checkOwner_refusesFor (hf : t.Foreseen shape id o) :
    RefusesFor (t.Outgrown path shape id o) (t.checkOwner path id o.parent shape) := by
  rw [checkOwner.eq_def]
  cases howner : t.owner? id o.parent with
  | none => exact .ok
  | some pg =>
      obtain ⟨q, hq⟩ := owner?_iff.mp howner
      obtain ⟨g', hg'⟩ := Option.isSome_iff_exists.mp (Geometry.resized?_isSome.mpr (hf.rank hq))
      dsimp only
      rw [hg']
      dsimp only
      cases hl : pg.2.coordinates with
      | none => exact .ok
      | some l =>
          exact (checkResize_refusesFor (.inr ⟨_, q, _, hq, hl⟩)).bind fun _ _ => .ok

theorem Foreseen.refusesFor (hf : t.Foreseen shape id o) (h : WellFormed t)
    (hid : t.idOf? path = some id) (ho : t.object? id = some o) :
    RefusesFor (t.Outgrown path shape id o) ((resizeMatrix path shape).on t).1 := by
  refine .on_ask_bind (by rw [resolve_eq_ok.mpr hid]; exact .ok) fun id' hid' => ?_
  cases Option.some.inj (hid.symm.trans (resolve_eq_ok.mp hid'))
  refine .on_ask_bind (by rw [objectAt_eq_ok.mpr ⟨id, hid, ho⟩]; exact .ok) fun o' ho' => ?_
  cases Except.ok.inj ((objectAt_eq_ok.mpr ⟨id, hid, ho⟩).symm.trans ho')
  rw [if_neg (not_not.mpr hf.matrix)]
  -- From here on only the arrays can be a reason, and after the checks there is none.
  refine .on_ask_bind (by rw [checkShape_eq_ok.mpr hf.counted]; exact .ok) fun _ hshape => ?_
  refine .on_ask_bind (.forM fun c hc => ?_) fun _ hchildren => ?_
  · exact checkResize_refusesFor (.inl ((mem_children_values h ho).mp hc))
  · refine .on_ask_bind hf.checkOwner_refusesFor fun owner howner => ?_
    have hr := resizable_of_checks ho hf.matrix hshape hchildren howner
    exact .of_succeeds ⟨_, _, follow_on h hr⟩

end Tree

namespace Builtin

open FilterTree.Tree

namespace ResizeMatrix

variable {args bound : Arguments} {t : Tree} {run : Run} {batch : Batch} {path : Path}
  {shape : Shape}

/-- Arguments select a matrix and a shape: they bind, and this is what they bind to. -/
def Selects (args : Arguments) (path : Path) (shape : Shape) : Prop :=
  ∃ bound, (schema.bind args).outcome = .ok bound ∧ bound.get .path pathKey = .ok path ∧
    bound.get .shape tuplesKey = .ok shape

theorem rank_of_checkOwner (h : t.WellFormed) {id : ObjectId} {o : Object}
    (hid : t.idOf? path = some id) (ho : t.object? id = some o)
    (hcheck : checkOwner t path shape = .ok ()) {p : ObjectId} {q : Object} {g : Geometry}
    (hq : t.Owns p q g id o) : shape.length = g.rank := by
  obtain ⟨xs, hnames, hxs⟩ := h.walk_parent ho (idOf?_eq_some.mp hid)
  obtain rfl : path = Path.child ⟨xs⟩ o.name := congrArg Path.mk hnames
  have hparent : t.objectAt ⟨xs⟩ = .ok q :=
    objectAt_eq_ok.mpr ⟨p, idOf?_eq_some.mpr (hq.above ▸ hxs), hq.found⟩
  have hgeometry : t.geometryAt ⟨xs⟩ = .ok g :=
    check_bind_eq_ok.mpr ⟨q, hparent, by rw [hq.geometry]; rfl⟩
  rw [checkOwner, Path.parent?_child, Option.bind_some, hgeometry] at hcheck
  change (if g.elementData = _ ∧ _ then _ else _) = _ at hcheck
  rw [hq.element, hid] at hcheck
  split at hcheck
  · cases hcheck
  · next hfits =>
      exact Geometry.resized?_isSome.mp (Option.isSome_iff_ne_none.mpr fun hnone =>
        hfits ⟨rfl, Option.isNone_iff_eq_none.mpr hnone⟩)

/-- An accepted plan is one resizing, of a matrix that is there. -/
theorem preflight_spec (h : t.WellFormed)
    (hok : (filter.preflight t args run).1.actions.outcome = .ok batch) :
    ∃ path shape id o, Selects args path shape ∧ batch = [.resizeMatrix path shape] ∧
      t.idOf? path = some id ∧ t.object? id = some o ∧ t.Foreseen shape id o := by
  obtain ⟨bound, q, hbind, -, hplan, hout⟩ :=
    (Filter.preflight_eq_ok (g := plan) fun _ _ => rfl).mp hok
  obtain ⟨path, hpath, hplan⟩ := check_bind_eq_ok.mp hplan
  obtain ⟨shape, hshape, hplan⟩ := check_bind_eq_ok.mp hplan
  obtain ⟨old, hold, hplan⟩ := check_bind_eq_ok.mp hplan
  obtain ⟨after, hcount, hplan⟩ := check_bind_eq_ok.mp hplan
  obtain ⟨_, howner, hplan⟩ := check_bind_eq_ok.mp hplan
  cases hplan
  cases hout
  obtain ⟨o, ho, hbody⟩ := matrixShapeAt_eq_ok.mp (check_mapError_eq_ok.mp hold)
  obtain ⟨id, hid, ho⟩ := objectAt_eq_ok.mp ho
  refine ⟨path, shape, id, o, ⟨bound, hbind, hpath, hshape⟩, rfl, hid, ho, ?_, ?_,
    rank_of_checkOwner h hid ho howner⟩
  · exact o.matrix_iff.mpr ⟨old, hbody⟩
  · exact Shape.size?_isSome_of_elementCount? (elementCount?_of_checkedCount hcount)

/-- Arguments that name a matrix and a shape. -/
def given (path : Path) (shape : Shape) : Arguments :=
  (Arguments.none.insert pathKey (.path path)).insert tuplesKey (.shape shape)

/-- A matrix of one tuple, and in it an array of bytes, eight to a tuple. -/
def bytesIn : Batch :=
  [.createMatrix (.single "m") [1], .createArray ⟨["m", "bytes"]⟩ .int8 [1] [8]]

/-- The tree with these two. -/
def bytes : Tree := (bytesIn.apply .execute .empty).2

theorem wellFormed_bytes : bytes.WellFormed :=
  (@Batch.carries_of_apply .execute .empty bytes bytesIn Tree.wellFormed_empty rfl).wellFormed
    Tree.wellFormed_empty

end ResizeMatrix

/--
A valid preflight of a resizing, on a well-formed tree. It is carried out exactly if each array that
takes the shape along with the matrix can be counted in it. If it is not carried out, such an array
is the reason, the error is that of its elements, and the tree has not changed.
-/
theorem resizing_outgrown {t : Tree} {args : Arguments} {run : Run} {batch : Batch}
    (h : t.WellFormed)
    (hok : (ResizeMatrix.filter.preflight t args run).1.actions.outcome = .ok batch) :
    ∃ path shape id o, ResizeMatrix.Selects args path shape ∧
      batch = [.resizeMatrix path shape] ∧ t.idOf? path = some id ∧ t.object? id = some o ∧
      ∀ mode, ((∃ u, batch.apply mode t = (.ok (), u)) ↔
          ∀ c, t.Along id o c → t.Counts shape c) ∧
        ∀ e u, batch.apply mode t = (.error e, u) →
          u = t ∧ e.index = 0 ∧ e.action = .resizeMatrix path shape ∧
            t.Outgrown path shape id o e.cause := by
  obtain ⟨path, shape, id, o, hselects, rfl, hid, ho, hf⟩ := ResizeMatrix.preflight_spec h hok
  refine ⟨path, shape, id, o, hselects, rfl, hid, ho, fun mode => ⟨?_, fun e u happly => ?_⟩⟩
  · rw [← hf.takes_iff]
    constructor
    · rintro ⟨u, happly⟩
      obtain ⟨id', o', owner, hid', hr, -⟩ :=
        resizeMatrix_eq_ok h (Batch.apply_singleton happly)
      cases Option.some.inj (hid.symm.trans hid')
      cases Option.some.inj (ho.symm.trans hr.found)
      exact (takes_iff h ho).mpr ⟨owner, hr⟩
    · intro htakes
      obtain ⟨owner, hr⟩ := (takes_iff h ho).mp htakes
      refine ⟨t.resized shape id o owner, ?_⟩
      rw [Batch.apply, Batch.applyFrom]
      rw [show ((Action.resizeMatrix path shape).apply mode).on t = _ from
        resizeMatrix_on h hid hr]
      rfl
  · obtain ⟨hindex, haction, hedit⟩ := Batch.apply_singleton_eq_error happly
    have hreason : t.Outgrown path shape id o e.cause :=
      hf.refusesFor h hid ho e.cause (congrArg Prod.fst hedit)
    exact ⟨resizeMatrix_allOrNothing h _ _ hedit, hindex, haction, hreason⟩

/-- Two tuples of eight bytes can be counted. -/
theorem resizing_outgrown_bytes :
    ResizeMatrix.bytes.WellFormed ∧ ∃ batch u id o,
      (ResizeMatrix.filter.preflight ResizeMatrix.bytes (ResizeMatrix.given (.single "m") [2])
        (.new 1)).1.actions.outcome = .ok batch ∧
      batch.apply .execute ResizeMatrix.bytes = (.ok (), u) ∧
      ResizeMatrix.bytes.idOf? (.single "m") = some id ∧
      ResizeMatrix.bytes.object? id = some o ∧
      ∀ c, ResizeMatrix.bytes.Along id o c → ResizeMatrix.bytes.Counts [2] c := by
  have hok : (ResizeMatrix.filter.preflight ResizeMatrix.bytes
      (ResizeMatrix.given (.single "m") [2]) (.new 1)).1.actions.outcome =
        .ok [.resizeMatrix (.single "m") [2]] := rfl
  obtain ⟨path, shape, id, o, ⟨bound, hbind, hpath, hshape⟩, -, hid, ho, hall⟩ :=
    resizing_outgrown ResizeMatrix.wellFormed_bytes hok
  cases hbind
  cases hpath
  cases hshape
  exact ⟨ResizeMatrix.wellFormed_bytes, _, _, id, o, hok, rfl, hid, ho,
    (hall .execute).1.mp ⟨_, rfl⟩⟩

/-- So many tuples can be counted that their bytes cannot, and the plan is accepted all the same. -/
theorem resizing_unforeseen_bytes :
    ResizeMatrix.bytes.WellFormed ∧ ∃ batch,
      (ResizeMatrix.filter.preflight ResizeMatrix.bytes
        (ResizeMatrix.given (.single "m") [2 ^ 63]) (.new 1)).1.actions.outcome = .ok batch ∧
      ∀ mode, ∃ e u, batch.apply mode ResizeMatrix.bytes = (.error e, u) ∧
        e.cause = .store (.single "m") (.shapeOverflow [2 ^ 63, 8]) := by
  refine ⟨ResizeMatrix.wellFormed_bytes, _, rfl, fun mode => ?_⟩
  cases mode <;> exact ⟨_, _, rfl, rfl⟩

end Builtin

end FilterTree
