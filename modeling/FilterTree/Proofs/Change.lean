import FilterTree.Action
import FilterTree.Proofs.Resize
import FilterTree.Proofs.Shell

/-!
# What an edit can do to a tree

All that edits ever do is one of a few changes, listed here with the conditions
under which they are made (`Change`). For each edit there is one lemma that
says which change it makes when it is carried out; what holds of every change
then holds of every edit. That is in particular the invariant, and that an
object under an old number is an old object with its body kept, retupled or, if
it is a geometry, with other slots (`Change.object_cases`).

A property of bodies is a parameter of the change: it is what can be said of
the arrays and lists that it brings into the tree.
-/

namespace FilterTree

namespace Tree

variable {P : Body → Prop} {t u : Tree}

/-- A change from one tree to another; arrays and lists that are new have a property. -/
inductive Change (P : Body → Prop) (t : Tree) : Tree → Prop where
  | same : Change P t t
  | added {parent : Path} {name : String} {body : Body} {place : Option ObjectId}
      (hi : t.Insertable parent name body place) (hsound : body.Sound) (hbare : body.Bare)
      (hbody : P body) : Change P t (t.addObject place name body)
  | addedImage {parent : Path} {name : String} {dimensions : Triple Nat}
      {spacing origin : Triple Float32} {cellDataName : String} {place : Option ObjectId}
      (hi : t.Insertable parent name (.geometry (.bareImage dimensions spacing origin)) place)
      (hname : validName cellDataName = true)
      (hshape : (Geometry.bareImage dimensions spacing origin).elementShape.size?.isSome) :
      Change P t (t.addImage place name dimensions spacing origin cellDataName)
  | addedVertex {parent : Path} {name : String} {count : Nat}
      {vertexDataName coordinatesName : String} {place : Option ObjectId} {allocated : Bool}
      {coordinates : DataArray}
      (hi : t.Insertable parent name (.geometry (.bareVertex count)) place)
      (hvertex : validName vertexDataName = true) (hcoordinates : validName coordinatesName = true)
      (hne : vertexDataName ≠ coordinatesName)
      (hfresh : DataArray.fresh .float32 [count] [3] allocated = .ok coordinates)
      (hbody : P (.array coordinates)) :
      Change P t (t.addVertex place name count vertexDataName coordinatesName coordinates)
  | renamed {id : ObjectId} {o : Object} {name : String}
      (hr : t.Relinkable id o o.parent name) :
      Change P t (t.relink id o.parent o.name o.parent name)
  | moved {id : ObjectId} {o : Object} {place : Option ObjectId}
      (hr : (t.release o.parent id).Relinkable id o place o.name) :
      Change P t ((t.release o.parent id).relink id o.parent o.name place o.name)
  | removed {id : ObjectId} {o : Object} {gone : List ObjectId}
      (hp : (t.release o.parent id).Prunable id o gone) :
      Change P t ((t.release o.parent id).prune o.parent o.name gone)
  | resized {shape : Shape} {id : ObjectId} {o : Object} {owner : Option (ObjectId × Geometry)}
      (hr : t.Resizable shape id o owner) : Change P t (t.resized shape id o owner)
  | written {id : ObjectId} {o : Object} {body : Body} (ho : t.object? id = some o)
      (hshell : body.shell = o.body.shell) (hsound : body.Sound) (hbody : P body) :
      Change P t (t.setBody id body)

/-- Numbers are given out upwards: an object below the next number was there before. -/
structure Grows (t u : Tree) : Prop where
  nextId_le : t.nextId ≤ u.nextId
  old : ∀ {i o}, u.object? i = some o → i < t.nextId → t.Has (some i)

namespace Grows

theorem trans {v : Tree} (h : t.Grows u) (h' : u.Grows v) : t.Grows v where
  nextId_le := Nat.le_trans h.nextId_le h'.nextId_le
  old := fun ho hi => by
    obtain ⟨p, hp⟩ := h'.old ho (Nat.lt_of_lt_of_le hi h.nextId_le)
    exact h.old hp hi

theorem refl : t.Grows t := ⟨Nat.le_refl _, fun ho _ => ⟨_, ho⟩⟩

theorem addObject {place : Option ObjectId} {name : String} {body : Body} :
    t.Grows (t.addObject place name body) where
  nextId_le := by simp
  old := fun ho hi => by
    rcases addObject_eq_some ho with ⟨rfl, -⟩ | ⟨-, p, hp, -⟩
    · exact absurd hi (Nat.lt_irrefl _)
    · exact ⟨p, hp⟩

theorem mapBodies {f : ObjectId → Body → Body} : t.Grows (t.mapBodies f) where
  nextId_le := Nat.le_refl _
  old := fun ho _ => by
    obtain ⟨p, hp, -⟩ := mapBodies_eq_some ho
    exact ⟨p, hp⟩

theorem setBody {id : ObjectId} {body : Body} : t.Grows (t.setBody id body) := by
  rw [setBody_eq]
  exact mapBodies

theorem relink {id : ObjectId} {place place' : Option ObjectId} {name name' : String} :
    t.Grows (t.relink id place name place' name') where
  nextId_le := by simp
  old := fun ho _ => by
    obtain ⟨p, hp, -⟩ := relink_eq_some ho
    exact ⟨p, hp⟩

theorem prune {place : Option ObjectId} {name : String} {gone : List ObjectId} :
    t.Grows (t.prune place name gone) where
  nextId_le := Nat.le_of_eq nextId_modifyChildren.symm
  old := fun ho _ => by
    obtain ⟨-, p, hp, -⟩ := prune_eq_some ho
    exact ⟨p, hp⟩

end Grows

/-- The bodies under numbers from some on have a property. -/
def BodiesFrom (n : ObjectId) (Q : Body → Prop) (t : Tree) : Prop :=
  ∀ i o, n ≤ i → t.object? i = some o → Q o.body

namespace BodiesFrom

variable {n : ObjectId} {Q : Body → Prop}

theorem addObject {place : Option ObjectId} {name : String} {body : Body} (h : BodiesFrom n Q t)
    (hbody : Q body) : BodiesFrom n Q (t.addObject place name body) := by
  intro i o hi ho
  rcases addObject_eq_some ho with ⟨-, rfl⟩ | ⟨-, p, hp, -, -, heq, -⟩
  · exact hbody
  · rw [heq]
    exact h i p hi hp

theorem mapBodies {f : ObjectId → Body → Body} (h : BodiesFrom n Q t)
    (hf : ∀ {i o}, t.object? i = some o → Q o.body → Q (f i o.body)) :
    BodiesFrom n Q (t.mapBodies f) := by
  intro i o hi ho
  obtain ⟨p, hp, rfl⟩ := mapBodies_eq_some ho
  exact hf hp (h i p hi hp)

theorem setBody {id : ObjectId} {body : Body} (h : BodiesFrom n Q t) (hbody : Q body) :
    BodiesFrom n Q (t.setBody id body) := by
  rw [setBody_eq]
  refine h.mapBodies fun _ hq => ?_
  split
  · exact hbody
  · exact hq

theorem relink {id : ObjectId} {place place' : Option ObjectId} {name name' : String}
    (h : BodiesFrom n Q t) : BodiesFrom n Q (t.relink id place name place' name') := by
  intro i o hi ho
  obtain ⟨p, hp, heq, -⟩ := relink_eq_some ho
  rw [heq]
  exact h i p hi hp

theorem prune {place : Option ObjectId} {name : String} {gone : List ObjectId}
    (h : BodiesFrom n Q t) : BodiesFrom n Q (t.prune place name gone) := by
  intro i o hi ho
  obtain ⟨-, p, hp, -, -, heq, -⟩ := prune_eq_some ho
  rw [heq]
  exact h i p hi hp

end BodiesFrom

namespace Change

/-- Every change keeps the invariant. -/
theorem wellFormed (hc : Change P t u) (h : WellFormed t) : WellFormed u := by
  cases hc with
  | same => exact h
  | added hi hsound hbare hbody => exact h.addObject hi hsound hbare
  | addedImage hi hname hshape => exact h.addImage hi hname hshape
  | addedVertex hi hvertex hcoordinates hne hfresh hbody =>
      exact h.addVertex hi hvertex hcoordinates hne hfresh
  | renamed hr => exact h.relink hr
  | moved hr => exact h.release.relink hr
  | removed hp => exact h.release.prune hp
  | resized hr => exact h.resized hr
  | written ho hshell hsound hbody => exact h.setBody ho hshell hsound

/-- No change gives out a number again. -/
theorem grows (hc : Change P t u) : t.Grows u := by
  cases hc with
  | same => exact .refl
  | added => exact .addObject
  | addedImage => exact (Grows.addObject.trans .addObject).trans .setBody
  | addedVertex => exact ((Grows.addObject.trans .addObject).trans .addObject).trans .setBody
  | renamed => exact .relink
  | moved => exact Grows.mapBodies.trans .relink
  | removed => exact Grows.mapBodies.trans .prune
  | resized => exact .mapBodies
  | written => exact .setBody

/--
A property of bodies that what is new has, that all groups, matrices and
geometries have, and that retupling keeps, is kept by every change.
-/
theorem bodiesFrom {n : ObjectId} {Q : Body → Prop} (hc : Change P t u)
    (hnew : ∀ {b}, P b → Q b) (hmatrix : ∀ shape, Q (.matrix shape))
    (hgeometry : ∀ g, Q (.geometry g))
    (hretuple : ∀ {b shape}, b.CanRetuple shape → Q b → Q (b.retupled shape))
    (ht : BodiesFrom n Q t) : BodiesFrom n Q u := by
  have hrelease : ∀ {place id}, BodiesFrom n Q (t.release place id) := by
    intro place id
    refine ht.mapBodies fun {i o} _ hq => ?_
    split
    · cases hb : o.body with
      | geometry g => exact hgeometry _
      | group | matrix _ | array _ | list _ =>
          rw [hb] at hq
          exact hq
    · exact hq
  cases hc with
  | same => exact ht
  | added hi hsound hbare hbody => exact ht.addObject (hnew hbody)
  | addedImage =>
      exact ((ht.addObject (hgeometry _)).addObject (hmatrix _)).setBody (hgeometry _)
  | addedVertex hi hvertex hcoordinates hne hfresh hbody =>
      exact (((ht.addObject (hgeometry _)).addObject (hnew hbody)).addObject (hmatrix _)).setBody
        (hgeometry _)
  | renamed => exact ht.relink
  | moved => exact hrelease.relink
  | removed => exact hrelease.prune
  | @resized shape id o owner hr =>
      refine ht.mapBodies fun {i p} hp hq => ?_
      rcases @follow_cases shape id o owner i p.body with ⟨g, -, heq⟩ | ⟨-, ⟨hi, heq⟩ | ⟨-, heq⟩⟩
      · rw [heq]
        exact hgeometry g
      · rw [heq]
        exact hretuple (hr.canRetuple hi p hp) hq
      · rw [heq]
        exact hq
  | written ho hshell hsound hbody => exact ht.setBody (hnew hbody)

end Change

end Tree

/-! ## The change an edit makes -/

namespace Edit

open FilterTree.Tree

variable {α β : Type} {P : Body → Prop} {t u : Tree} {path : Path}

/-- An edit that, when it is carried out, changes the tree in one of the listed ways. -/
def Makes (P : Body → Prop) (e : Edit α) (t : Tree) : Prop :=
  ∀ a u, e.on t = (.ok a, u) → t.Change P u

theorem Makes.bind_pure {e : Edit α} {f : α → β} (h : e.Makes P t) :
    (e >>= fun a => pure (f a)).Makes P t := by
  intro b u hok
  obtain ⟨a, v, ha, hpure⟩ := bind_eq_ok.mp hok
  cases hpure
  exact h a u ha

theorem Makes.ask_bind {f : Tree → Except TreeError α} {k : α → Edit β}
    (h : ∀ a, f t = .ok a → (k a).Makes P t) : (ask f >>= k).Makes P t := by
  intro b u hok
  obtain ⟨a, ha, hok⟩ := ask_bind_eq_ok.mp hok
  exact h a ha b u hok

/-- An edit that is all or nothing makes a change, even if it is refused. -/
theorem Makes.change {e : Edit α} (h : e.Makes P t) (ha : e.AllOrNothing t) :
    t.Change P (e.on t).2 := by
  rcases hon : e.on t with ⟨x | a, u⟩
  · cases ha x u hon
    exact .same
  · exact h a u hon

theorem insert_makes {parent : Path} {name : String} {body : Body}
    (hsound : (∀ shape, body.tupleShape? = some shape → shape.size?.isSome) → body.Sound)
    (hbare : body.Bare) (hbody : P body) : (insert parent name body).Makes P t := by
  intro id u hok
  obtain ⟨place, hi, -, rfl⟩ := insert_eq_ok.mp hok
  exact .added hi (hsound hi.fits) hbare hbody

theorem create_makes {body : Body}
    (hsound : (∀ shape, body.tupleShape? = some shape → shape.size?.isSome) → body.Sound)
    (hbare : body.Bare) (hbody : P body) : (create path body).Makes P t := by
  intro id u hok
  obtain ⟨parent, name, place, -, hi, -, rfl⟩ := create_eq_ok.mp hok
  exact .added hi (hsound hi.fits) hbare hbody

theorem createImage_makes (h : WellFormed t) {dimensions : Triple Nat}
    {spacing origin : Triple Float32} {cellDataName : String} :
    (createImage path dimensions spacing origin cellDataName).Makes P t := by
  intro id u hok
  obtain ⟨parent, name, place, -, hi, hname, hshape, -, rfl⟩ := createImage_eq_ok h hok
  exact .addedImage hi hname hshape

theorem createVertex_makes (h : WellFormed t) {count : Nat}
    {vertexDataName coordinatesName : String} {allocated : Bool}
    (hbody : ∀ a, DataArray.fresh .float32 [count] [3] allocated = .ok a → P (.array a)) :
    (createVertex path count vertexDataName coordinatesName allocated).Makes P t := by
  intro id u hok
  obtain ⟨parent, name, place, coordinates, -, hi, hvertex, hcoordinates, hne, hfresh, -, rfl⟩ :=
    createVertex_eq_ok h hok
  exact .addedVertex hi hvertex hcoordinates hne hfresh (hbody coordinates hfresh)

theorem remove_makes (h : WellFormed t) : (remove path).Makes P t := by
  intro n u hok
  obtain ⟨id, o, -, hp, rfl⟩ := remove_eq_ok h hok
  exact .removed hp

theorem rename_makes (h : WellFormed t) {name : String} : (rename path name).Makes P t := by
  intro _ u hok
  rcases rename_eq_ok h hok with rfl | ⟨id, o, -, hr, rfl⟩
  · exact .same
  · exact .renamed hr

theorem move_makes (h : WellFormed t) {newParent : Path} : (move path newParent).Makes P t := by
  intro _ u hok
  rcases move_eq_ok h hok with rfl | ⟨id, o, place, -, -, hr, rfl⟩
  · exact .same
  · exact .moved hr

theorem resizeMatrix_makes (h : WellFormed t) {shape : Shape} :
    (resizeMatrix path shape).Makes P t := by
  intro _ u hok
  obtain ⟨id, o, owner, -, hr, rfl⟩ := resizeMatrix_eq_ok h hok
  exact .resized hr

end Edit

end FilterTree
