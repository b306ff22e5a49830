import FilterTree.Proofs.Acceptance

/-!
# What creating adds, and that it only adds

Seen through paths, creating is adding: every object stays at its path, with its
number and what it holds, and the paths that there are afterwards are those that
there were and the new ones (`Extends`). Extensions can be put one after the
other, and a geometry with what comes with it is three of them.

What is put together last are the slots. They are written into an object that
did not exist before, so the old objects do not notice (`Extends.setBody`).
-/

namespace FilterTree

open Links

namespace Tree

variable {t u v : Tree} {path r : Path} {id i : ObjectId} {b body : Body} {new new' : List Path}

/-- At a path stands the object with a number, and it holds a body. -/
def Stands (t : Tree) (path : Path) (id : ObjectId) (b : Body) : Prop :=
  t.idOf? path = some id ∧ (t.object? id).map Object.body = some b

/-- Every object stays as it is, and some new paths are all that is added. -/
structure Extends (t u : Tree) (new : List Path) : Prop where
  contains_iff : ∀ r, u.contains r = true ↔ t.contains r = true ∨ r ∈ new
  fresh : ∀ r ∈ new, t.contains r = false
  kept : ∀ {r id b}, t.Stands r id b → u.Stands r id b

theorem Stands.of_idOf? (hid : t.idOf? path = some id) {o : Object} (ho : t.object? id = some o) :
    t.Stands path id o.body :=
  ⟨hid, by rw [ho]; rfl⟩

theorem Stands.objectAt (h : t.Stands path id b) :
    ∃ o, t.objectAt path = .ok o ∧ o.body = b := by
  obtain ⟨o, ho, hbody⟩ := Option.map_eq_some_iff.mp h.2
  exact ⟨o, objectAt_eq_ok.mpr ⟨id, h.1, ho⟩, hbody⟩

/-! ## Bodies that are replaced -/

theorem idOf?_setBody : (t.setBody id b).idOf? path = t.idOf? path := by
  rw [setBody_eq, idOf?_mapBodies]

theorem Stands.setBody_self (h : t.Stands path id b) : (t.setBody id body).Stands path id body := by
  obtain ⟨o, ho, -⟩ := Option.map_eq_some_iff.mp h.2
  refine ⟨idOf?_setBody.trans h.1, ?_⟩
  rw [object?_setBody, ho]
  simp

theorem Stands.setBody_of_ne (h : t.Stands path i b) (hne : i ≠ id) :
    (t.setBody id body).Stands path i b := by
  obtain ⟨o, ho, rfl⟩ := Option.map_eq_some_iff.mp h.2
  refine ⟨idOf?_setBody.trans h.1, ?_⟩
  rw [object?_setBody, ho]
  simp [hne]

theorem objectAt_setBodyAt_self {o : Object} (ho : t.objectAt path = .ok o) :
    (t.setBodyAt path body).objectAt path = .ok { o with body := body } := by
  obtain ⟨id, hid, ho⟩ := objectAt_eq_ok.mp ho
  rw [setBodyAt, hid]
  refine objectAt_eq_ok.mpr ⟨id, idOf?_setBody.trans hid, ?_⟩
  rw [object?_setBody, ho]
  simp

/-- Writing a body at one path changes what is found at no other. -/
theorem objectAt_setBodyAt_of_ne (h : Linked t) {place : Path} (hne : path ≠ place) :
    (t.setBodyAt place body).objectAt path = t.objectAt path := by
  rw [setBodyAt]
  cases hplace : t.idOf? place with
  | none => rfl
  | some id =>
      have hsame : (t.idOf? path).bind (t.setBody id body).object? =
          (t.idOf? path).bind t.object? := by
        cases hid : t.idOf? path with
        | none => rfl
        | some i =>
            have hi : i ≠ id := fun heq => hne (congrArg Path.mk (Links.walk_unique h.single
              (idOf?_eq_some.mp hid) (heq ▸ idOf?_eq_some.mp hplace)))
            rw [Option.bind_some, Option.bind_some, object?_setBody]
            cases ho : t.object? i <;> simp [hi]
      show (t.setBody id body).objectAt path = t.objectAt path
      rw [objectAt, objectAt, idOf?_setBody, hsame]

/-- Where a list was written no array is found, and there was none before. -/
theorem denseAt_setBodyAt_list (h : Linked t) {place : Path} {l l' : NeighborList} {type : ElementType}
    (hl : t.listAt place = .ok l) {s : DenseStore type.Carrier} :
    (t.setBodyAt place (.list l')).denseAt path type = .ok s ↔ t.denseAt path type = .ok s := by
  by_cases hne : path = place
  · subst hne
    obtain ⟨o, ho, hbody⟩ := listAt_eq_ok.mp hl
    rw [denseAt_eq_ok, denseAt_eq_ok, objectAt_setBodyAt_self ho, ho]
    simp [hbody]
  · rw [denseAt_congr (objectAt_setBodyAt_of_ne h hne)]

namespace Extends

theorem trans (h : t.Extends v new) (h' : v.Extends u new') : t.Extends u (new ++ new') where
  contains_iff := fun r => by
    rw [h'.contains_iff, h.contains_iff, List.mem_append, or_assoc]
  fresh := fun r hr => by
    rcases List.mem_append.mp hr with hr | hr
    · exact h.fresh r hr
    · have hgone := h'.fresh r hr
      rw [← Bool.not_eq_true, h.contains_iff] at hgone
      simpa using fun hold => hgone (.inl hold)
  kept := fun hs => h'.kept (h.kept hs)

/-- A body that is replaced under a new number is no matter of the old objects. -/
theorem setBody (h : t.Extends u new) (hnew : t.object? id = none) :
    t.Extends (u.setBody id body) new where
  contains_iff := fun r => by
    rw [contains, idOf?_setBody]
    exact h.contains_iff r
  fresh := h.fresh
  kept := fun {_ i _} hs => by
    refine (h.kept hs).setBody_of_ne ?_
    rintro rfl
    have hbody := hs.2
    rw [hnew] at hbody
    cases hbody

end Extends

/-! ## One object more -/

section addObject

variable {parent : Path} {name : String} {place : Option ObjectId}

theorem WellFormed.stands_addObject (h : WellFormed t) (hi : t.Insertable parent name body place) :
    (t.addObject place name body).Stands (parent.child name) t.nextId body :=
  .of_idOf? (idOf?_eq_some.mpr (walk_addObject h hi)) (object?_addObject_self rfl)

theorem WellFormed.extends_addObject (h : WellFormed t)
    (hi : t.Insertable parent name body place) :
    t.Extends (t.addObject place name body) [parent.child name] := by
  have hlinked := Linked.addObject h hi
  have hold : ∀ {r i}, t.idOf? r = some i → (t.addObject place name body).idOf? r = some i :=
    fun hr => idOf?_eq_some.mpr (walk_mono (links_addObject_of_some h hi) (idOf?_eq_some.mp hr))
  have hnew := (h.stands_addObject hi).1
  refine ⟨fun r => ⟨fun hr => ?_, fun hr => ?_⟩, fun r hr => ?_, fun {r i b} hs => ?_⟩
  · obtain ⟨i, hri⟩ := Option.isSome_iff_exists.mp hr
    obtain ⟨o, ho⟩ := hlinked.object_of_idOf? hri
    rcases addObject_eq_some ho with ⟨rfl, -⟩ | ⟨-, p, hp, -⟩
    · exact .inr (List.mem_singleton.mpr (hlinked.idOf?_unique hri hnew))
    · -- an old object had a path before, and it has no other now
      obtain ⟨q, hq⟩ := h.reached hp
      rw [hlinked.idOf?_unique hri (hold hq)]
      exact .inl (Option.isSome_of_eq_some hq)
  · rcases hr with hr | hr
    · obtain ⟨i, hri⟩ := Option.isSome_iff_exists.mp hr
      exact Option.isSome_of_eq_some (hold hri)
    · rw [List.mem_singleton.mp hr]
      exact Option.isSome_of_eq_some hnew
  · rw [List.mem_singleton.mp hr]
    exact (contains_child_eq_false hi.found).mpr hi.free
  · obtain ⟨o, ho, rfl⟩ := Option.map_eq_some_iff.mp hs.2
    obtain ⟨o', ho', -, -, hbody⟩ := h.kept_addObject ho
    exact hbody ▸ .of_idOf? (hold hs.1) ho'

end addObject

/-! ## A geometry and what comes with it -/

section geometries

variable {parent : Path} {name : String} {place : Option ObjectId}

theorem WellFormed.extends_addImage (h : WellFormed t) {dimensions : Triple Nat}
    {spacing origin : Triple Float32} {cellDataName : String}
    (hi : t.Insertable parent name (.geometry (.bareImage dimensions spacing origin)) place)
    (hname : validName cellDataName = true)
    (hshape : (Geometry.bareImage dimensions spacing origin).elementShape.size?.isSome) :
    let u := t.addImage place name dimensions spacing origin cellDataName
    let path := parent.child name
    t.Extends u [path, path.child cellDataName] ∧
      u.Stands path t.nextId (.geometry (.image dimensions spacing origin (some (t.nextId + 1)))) ∧
      u.Stands (path.child cellDataName) (t.nextId + 1)
        (.matrix [dimensions.z, dimensions.y, dimensions.x]) := by
  intro u path
  have h₁ := h.addObject hi trivial ⟨rfl, rfl⟩
  have hmatrix := hi.below h rfl (fun _ hm => nomatch hm) hname
    (Body.fits_of_sound (show Body.Sound (.matrix _) from hshape))
  have hext := h₁.extends_addObject hmatrix
  have hstands := h₁.stands_addObject hmatrix
  rw [nextId_addObject] at hstands
  exact ⟨((h.extends_addObject hi).trans hext).setBody h.object?_nextId,
    (hext.kept (h.stands_addObject hi)).setBody_self,
    hstands.setBody_of_ne (Nat.succ_ne_self _)⟩

theorem WellFormed.extends_addVertex (h : WellFormed t) {count : Nat}
    {vertexDataName coordinatesName : String} {allocated : Bool} {coordinates : DataArray}
    (hi : t.Insertable parent name (.geometry (.bareVertex count)) place)
    (hvertex : validName vertexDataName = true) (hcoordinates : validName coordinatesName = true)
    (hne : vertexDataName ≠ coordinatesName)
    (hfresh : DataArray.fresh .float32 [count] [3] allocated = .ok coordinates) :
    let u := t.addVertex place name count vertexDataName coordinatesName coordinates
    let path := parent.child name
    t.Extends u [path, path.child coordinatesName, path.child vertexDataName] ∧
      u.Stands path t.nextId
        (.geometry (.vertex count (some (t.nextId + 2)) (some (t.nextId + 1)))) ∧
      u.Stands (path.child coordinatesName) (t.nextId + 1) (.array coordinates) ∧
      u.Stands (path.child vertexDataName) (t.nextId + 2) (.matrix [count]) := by
  intro u path
  obtain ⟨hlist, hmatrix⟩ := hi.below_vertex h hvertex hcoordinates hne hfresh
  have h₁ := h.addObject hi trivial ⟨rfl, rfl⟩
  have h₂ := h₁.addObject hlist (DataArray.of_fresh hfresh).2.2.2 trivial
  have hext₁ := h₁.extends_addObject hlist
  have hext₂ := h₂.extends_addObject hmatrix
  have hstands₁ := h₁.stands_addObject hlist
  have hstands₂ := h₂.stands_addObject hmatrix
  rw [nextId_addObject] at hstands₁
  rw [nextId_addObject, nextId_addObject] at hstands₂
  exact ⟨(((h.extends_addObject hi).trans hext₁).trans hext₂).setBody h.object?_nextId,
    (hext₂.kept (hext₁.kept (h.stands_addObject hi))).setBody_self,
    (hext₂.kept hstands₁).setBody_of_ne (Nat.succ_ne_self _),
    hstands₂.setBody_of_ne (Nat.ne_of_gt (Nat.lt_add_of_pos_right Nat.two_pos))⟩

end geometries

end Tree

end FilterTree
