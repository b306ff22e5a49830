import FilterTree.Proofs.EditLaws
import FilterTree.Proofs.Frame

/-!
# Adding objects

What the checks in front of an insertion ask is collected in `Insertable`, and
an insertion carries it out exactly when that holds (`insert_eq_ok`). Nothing
else about the order or the texts of the checks is used afterwards.

A geometry comes with the matrix of its element data, and a cloud of points
with its coordinates too. These are further insertions below the object that
was just created, and none of them can be refused: the new object is a
container without children, found at the path it was created at, and names and
sizes have been checked before anything was written. So creating a geometry is
one step that is refused as a whole or leaves the tree `addImage` or
`addVertex` describes.
-/

namespace FilterTree

open Links

theorem TreeError.checkName_eq_ok {name : String} :
    TreeError.checkName name = .ok () ↔ validName name = true := by
  rw [TreeError.checkName, FilterTree.checkName]
  split <;> simp_all [Except.mapError]

namespace Tree

variable {t : Tree}

/-! ## The checks -/

theorem parentId_eq_ok {path : Path} {missing : TreeError} {place : Option ObjectId} :
    t.parentId path missing = .ok place ↔ t.links.walk none path.names = some place := by
  rw [parentId, Path.isRoot]
  split
  · next h =>
      rw [List.isEmpty_iff.mp h, walk_nil, Except.ok.injEq, Option.some.injEq]
  · next h =>
      have hne : path.names ≠ [] := fun heq => h (List.isEmpty_iff.mpr heq)
      cases hid : t.idOf? path with
      | some id =>
          rw [idOf?_eq_some] at hid
          rw [hid, Except.ok.injEq, Option.some.injEq]
      | none =>
          refine ⟨fun hbad => (nomatch hbad), fun hwalk => ?_⟩
          cases place with
          | none => exact absurd hwalk (walk_ne_top hne)
          | some id =>
              rw [idOf?_eq_some.mpr hwalk] at hid
              cases hid

theorem checkShape_eq_ok {path : Path} {shape : Shape} :
    checkShape path shape = .ok () ↔ shape.size?.isSome := by
  rw [checkShape]
  cases shape.size? <;> simp

theorem hasChild_eq {place : Option ObjectId} {name : String} :
    t.hasChild place name = (t.links place name).isSome := by
  cases place with
  | none => rfl
  | some id =>
      rw [hasChild, links]
      cases t.object? id <;> rfl

/-- A container takes anything, except that a matrix only takes what has its tuples. -/
def Holds (container : Object) (body : Body) : Prop :=
  container.kind.isContainer = true ∧
    ∀ shape, container.body = .matrix shape → body.HasTuples shape

/-- A place takes a body: the top always does. -/
def Accepts (t : Tree) (place : Option ObjectId) (body : Body) : Prop :=
  ∀ id, place = some id → ∃ o, t.object? id = some o ∧ Holds o body

theorem hasTuples_iff {shape : Shape} {b : Body} :
    b.HasTuples shape ↔
      ¬ (b.kind ≠ .dataArray ∧ b.kind ≠ .neighborList) ∧ b.tupleShape?.getD [] = shape := by
  cases b with
  | array a => simp [Body.HasTuples, Body.kind, Body.tupleShape?]
  | list l => simp [Body.HasTuples, Body.kind, Body.tupleShape?]
  | group => simp [Body.HasTuples, Body.kind]
  | matrix s => simp [Body.HasTuples, Body.kind]
  | geometry g => cases g <;> simp [Body.HasTuples, Body.kind, Geometry.kind]

theorem checkContainer_eq_ok {path : Path} {container : Object} {name : String} {body : Body} :
    checkContainer path container name body = .ok () ↔ Holds container body := by
  rw [checkContainer, Holds]
  cases hkind : container.kind.isContainer with
  | false => simp
  | true =>
      cases hbody : container.body with
      | matrix shape =>
          simp only [Bool.not_true, Bool.false_eq_true, if_false, true_and, Body.matrix.injEq,
            forall_eq', hasTuples_iff]
          split
          · next h => exact ⟨fun hbad => (nomatch hbad), fun hbad => absurd h hbad.1⟩
          · next h =>
              split
              · next heq => exact ⟨fun _ => ⟨h, heq⟩, fun _ => rfl⟩
              · next hne => exact ⟨fun hbad => (nomatch hbad), fun hbad => absurd hbad.2 hne⟩
      | group | array _ | list _ | geometry _ => simp

theorem accepts_some {id : ObjectId} {o : Object} {body : Body} (ho : t.object? id = some o) :
    t.Accepts (some id) body ↔ Holds o body := by
  constructor
  · intro h
    obtain ⟨o', ho', hholds⟩ := h id rfl
    rw [ho] at ho'
    cases ho'
    exact hholds
  · intro hholds i hi
    cases hi
    exact ⟨o, ho, hholds⟩

theorem checkAttach_eq_ok {path : Path} {place : Option ObjectId} {name : String} {body : Body} :
    t.checkAttach path place name body = .ok () ↔
      t.Accepts place body ∧ t.links place name = none := by
  have hfree : (if t.hasChild place name then throw (TreeError.nameCollision path name)
      else pure () : Except TreeError Unit) = .ok () ↔ t.links place name = none := by
    rw [hasChild_eq]
    cases t.links place name with
    | none => exact ⟨fun _ => rfl, fun _ => rfl⟩
    | some id => exact ⟨fun h => (nomatch h), fun h => (nomatch h)⟩
  rw [← hfree]
  cases place with
  | none => exact ⟨fun h => ⟨fun id hid => (nomatch hid), h⟩, And.right⟩
  | some id =>
      rw [checkAttach.eq_def]
      cases ho : t.object? id with
      | none =>
          simp only [ho]
          refine ⟨fun h => (nomatch h), fun h => ?_⟩
          obtain ⟨o, hsome, -⟩ := h.1 id rfl
          rw [ho] at hsome
          cases hsome
      | some o =>
          simp only [ho]
          rw [check_then_eq_ok, accepts_some ho, ← @checkContainer_eq_ok path o name body]

/-- What has to hold for a body to be inserted at a parent that is found at a place. -/
structure Insertable (t : Tree) (parent : Path) (name : String) (body : Body)
    (place : Option ObjectId) : Prop where
  valid : validName name = true
  fits : ∀ shape, body.tupleShape? = some shape → shape.size?.isSome
  found : t.links.walk none parent.names = some place
  accepts : t.Accepts place body
  free : t.links place name = none

theorem checkInsert_eq_ok {parent : Path} {name : String} {body : Body} {place : Option ObjectId} :
    t.checkInsert parent name body = .ok place ↔ t.Insertable parent name body place := by
  have hshape : body.tupleShape?.elim (pure ()) (checkShape (parent.child name)) = Except.ok () ↔
      ∀ shape, body.tupleShape? = some shape → shape.size?.isSome := by
    cases body.tupleShape? with
    | none => exact ⟨fun _ s h => (nomatch h), fun _ => rfl⟩
    | some shape =>
        simp only [Option.some.injEq, forall_eq']
        exact checkShape_eq_ok
  have hsteps : t.checkInsert parent name body = (do
      TreeError.checkName name
      body.tupleShape?.elim (pure ()) (checkShape (parent.child name))
      let id ← t.parentId parent (.parentNotFound (parent.child name) parent)
      t.checkAttach parent id name body
      return id) := by
    rw [checkInsert.eq_def]
    cases body.tupleShape? <;> rfl
  rw [hsteps, check_then_eq_ok, TreeError.checkName_eq_ok, check_then_eq_ok, hshape,
    check_bind_eq_ok]
  simp only [check_then_eq_ok, parentId_eq_ok, checkAttach_eq_ok]
  constructor
  · rintro ⟨hname, hfits, id, hfound, ⟨haccepts, hfree⟩, hid⟩
    cases hid
    exact ⟨hname, hfits, hfound, haccepts, hfree⟩
  · rintro ⟨hname, hfits, hfound, haccepts, hfree⟩
    exact ⟨hname, hfits, place, hfound, ⟨haccepts, hfree⟩, rfl⟩

theorem splitPath_eq_ok {path parent : Path} {name : String} :
    splitPath path = .ok (parent, name) ↔ path = parent.child name := by
  rcases path with ⟨names⟩
  rcases parent with ⟨xs⟩
  rw [splitPath, Path.parent?, Path.name?, Path.child]
  rcases List.eq_nil_or_concat names with rfl | ⟨ys, n, rfl⟩
  · simp
  · simp

/-! ## One object -/

namespace Insertable

variable {parent : Path} {name : String} {body : Body} {place : Option ObjectId}

theorem has (hi : t.Insertable parent name body place) (h : Linked t) : t.Has place :=
  h.has hi.found

theorem place_ne_next (hi : t.Insertable parent name body place) (h : WellFormed t) :
    place ≠ some t.nextId := by
  rintro rfl
  obtain ⟨o, ho⟩ := hi.has h.toLinked
  exact Nat.lt_irrefl _ (h.numbered ho)

end Insertable

/-- There is nothing yet under the next number. -/
theorem WellFormed.object?_nextId (h : WellFormed t) : t.object? t.nextId = none := by
  cases ho : t.object? t.nextId with
  | none => rfl
  | some o => exact absurd (h.numbered ho) (Nat.lt_irrefl _)

theorem object?_addObject_self {place : Option ObjectId} {name : String} {body : Body}
    {i : ObjectId} (hi : i = t.nextId) :
    (t.addObject place name body).object? i = some ⟨name, place, .empty, body⟩ := by
  rw [object?_addObject, if_pos hi]

/-- An object of the tree with one more object: the new one, or an old one with its body. -/
theorem addObject_eq_some {place : Option ObjectId} {name : String} {body : Body} {i : ObjectId}
    {o : Object} (ho : (t.addObject place name body).object? i = some o) :
    i = t.nextId ∧ o = ⟨name, place, .empty, body⟩ ∨
      i ≠ t.nextId ∧ ∃ p, t.object? i = some p ∧ o.name = p.name ∧ o.parent = p.parent ∧
        o.body = p.body ∧ (place ≠ some i → o = p) := by
  rw [object?_addObject] at ho
  split at ho
  · next hi => exact .inl ⟨hi, (Option.some.inj ho).symm⟩
  · next hi =>
      refine .inr ⟨hi, ?_⟩
      split at ho
      · next hplace =>
          obtain ⟨p, hp, rfl⟩ := Option.map_eq_some_iff.mp ho
          exact ⟨p, hp, rfl, rfl, rfl, fun hne => absurd hplace hne⟩
      · exact ⟨o, ho, rfl, rfl, rfl, fun _ => rfl⟩

/-- An object that was there still is, with its name, its parent and its body. -/
theorem object?_addObject_of_some {place : Option ObjectId} {name : String} {body : Body}
    {i : ObjectId} {p : Object} (hp : t.object? i = some p) (hi : i ≠ t.nextId) :
    ∃ o, (t.addObject place name body).object? i = some o ∧ o.name = p.name ∧
      o.parent = p.parent ∧ o.body = p.body := by
  rw [object?_addObject, if_neg hi, hp]
  split
  · exact ⟨_, rfl, rfl, rfl, rfl⟩
  · exact ⟨p, rfl, rfl, rfl, rfl⟩

/-- The new object is there, and so is every other that was. -/
theorem has_addObject {place : Option ObjectId} {name : String} {body : Body} {i : ObjectId}
    (hi : i = t.nextId ∨ t.Has (some i)) : (t.addObject place name body).Has (some i) := by
  by_cases hnew : i = t.nextId
  · exact ⟨_, object?_addObject_self hnew⟩
  · obtain ⟨p, hp⟩ := hi.resolve_left hnew
    obtain ⟨o, ho, -⟩ := object?_addObject_of_some hp hnew
    exact ⟨o, ho⟩

theorem WellFormed.kept_addObject (h : WellFormed t) {place : Option ObjectId} {name : String}
    {body : Body} {i : ObjectId} {p : Object} (hp : t.object? i = some p) :
    ∃ o, (t.addObject place name body).object? i = some o ∧ o.name = p.name ∧
      o.parent = p.parent ∧ o.body = p.body :=
  object?_addObject_of_some hp (Nat.ne_of_lt (h.numbered hp))

/-- Slots stay filled as long as what they name stays with the geometry and keeps its body. -/
theorem Slotted.mono {u : Tree} {id : ObjectId} {g : Geometry} (h : t.Slotted id g)
    (hkept : ∀ {m o}, g.elementData = some m ∨ g.coordinates = some m → t.object? m = some o →
      o.parent = some id → ∃ o', u.object? m = some o' ∧ o'.parent = some id ∧ o'.body = o.body) :
    u.Slotted id g where
  element := fun hm => by
    obtain ⟨o, ho, hparent, hbody⟩ := h.element hm
    obtain ⟨o', ho', hparent', hbody'⟩ := hkept (.inl hm) ho hparent
    exact ⟨o', ho', hparent', hbody'.trans hbody⟩
  coordinates := fun hl => by
    obtain ⟨o, ho, hparent, hbody⟩ := h.coordinates hl
    obtain ⟨o', ho', hparent', hbody'⟩ := hkept (.inr hl) ho hparent
    exact ⟨o', ho', hparent', hbody' ▸ hbody⟩

theorem Slotted.of_empty {id : ObjectId} {g : Geometry} (he : g.elementData = none)
    (hc : g.coordinates = none) : t.Slotted id g where
  element := fun hm => by
    rw [he] at hm
    cases hm
  coordinates := fun hl => by
    rw [hc] at hl
    cases hl

section addObject

variable {parent : Path} {name : String} {body : Body} {place : Option ObjectId}

theorem links_addObject_eq_some (h : WellFormed t) (hi : t.Insertable parent name body place)
    {p : Option ObjectId} {n : String} {id : ObjectId}
    (hid : (t.addObject place name body).links p n = some id) :
    p = place ∧ n = name ∧ id = t.nextId ∨ t.links p n = some id := by
  rw [links_addObject (hi.has h.toLinked) h.object?_nextId, Links.set] at hid
  split at hid
  · next hpn => exact .inl ⟨hpn.1, hpn.2, (Option.some.inj hid).symm⟩
  · exact .inr hid

theorem links_addObject_of_some (h : WellFormed t) (hi : t.Insertable parent name body place)
    {p : Option ObjectId} {n : String} {id : ObjectId} (hid : t.links p n = some id) :
    (t.addObject place name body).links p n = some id := by
  rw [links_addObject (hi.has h.toLinked) h.object?_nextId, set_of_ne, hid]
  rintro ⟨rfl, rfl⟩
  rw [hi.free] at hid
  cases hid

/-- The new object is found below its parent. -/
theorem walk_addObject (h : WellFormed t) (hi : t.Insertable parent name body place) :
    (t.addObject place name body).links.walk none (parent.child name).names =
      some (some t.nextId) := by
  rw [links_addObject (hi.has h.toLinked) h.object?_nextId]
  exact walk_set_self h.single hi.found

theorem Linked.addObject (h : WellFormed t) (hi : t.Insertable parent name body place) :
    Linked (t.addObject place name body) where
  listed := fun ho => by
    rcases addObject_eq_some ho with ⟨rfl, rfl⟩ | ⟨-, p, hp, hname, hparent, -⟩
    · rw [links_addObject (hi.has h.toLinked) h.object?_nextId]
      exact set_self
    · rw [hname, hparent]
      exact links_addObject_of_some h hi (h.listed hp)
  stored := fun hid => by
    rcases links_addObject_eq_some h hi hid with ⟨rfl, rfl, rfl⟩ | hold
    · exact ⟨_, by rw [object?_addObject, if_pos rfl], rfl, rfl⟩
    · obtain ⟨o, ho, hparent, hname⟩ := h.stored hold
      obtain ⟨o', ho', hname', hparent', -⟩ := h.kept_addObject ho
      exact ⟨o', ho', hparent'.trans hparent, hname'.trans hname⟩
  reached := fun ho => by
    rcases addObject_eq_some ho with ⟨rfl, -⟩ | ⟨-, p, hp, -⟩
    · exact ⟨parent.child name, idOf?_of_walk (walk_addObject h hi)⟩
    · obtain ⟨path, hpath⟩ := h.reached hp
      exact ⟨path, idOf?_eq_some.mpr
        (walk_mono (links_addObject_of_some h hi) (idOf?_eq_some.mp hpath))⟩

/-- A body with sound stores and empty slots may be added wherever it may be inserted. -/
theorem WellFormed.addObject (h : WellFormed t) (hi : t.Insertable parent name body place)
    (hsound : body.Sound) (hbare : body.Bare) : WellFormed (t.addObject place name body) where
  toLinked := Linked.addObject h hi
  numbered := fun ho => by
    rw [nextId_addObject]
    rcases addObject_eq_some ho with ⟨rfl, -⟩ | ⟨-, p, hp, -⟩
    · exact Nat.lt_succ_self _
    · exact Nat.lt_succ_of_lt (h.numbered hp)
  named := fun ho => by
    rcases addObject_eq_some ho with ⟨-, rfl⟩ | ⟨-, p, hp, hname, -⟩
    · exact hi.valid
    · rw [hname]
      exact h.named hp
  leaf := fun {i _} ho hleaf => by
    rcases addObject_eq_some ho with ⟨-, rfl⟩ | ⟨-, p, hp, -, -, hbody, hsame⟩
    · rfl
    · rw [Object.kind, hbody] at hleaf
      by_cases hplace : place = some i
      · obtain ⟨o, ho', hcontainer, -⟩ := hi.accepts i hplace
        cases Option.some.inj (hp.symm.trans ho')
        rw [Object.kind, hleaf] at hcontainer
        cases hcontainer
      · rw [hsame hplace]
        exact h.leaf hp hleaf
  sound := fun ho => by
    rcases addObject_eq_some ho with ⟨-, rfl⟩ | ⟨-, p, hp, -, -, hbody, -⟩
    · exact hsound
    · rw [hbody]
      exact h.sound hp
  fitting := fun {i o shape n child q} ho hmatrix hchild hq => by
    rcases links_addObject_eq_some h hi hchild with ⟨hplace, -, rfl⟩ | hold
    · -- the new object in a matrix: that it fits was checked
      rw [object?_addObject, if_pos rfl] at hq
      cases hq
      obtain ⟨c, hc, -, hfits⟩ := hi.accepts i hplace.symm
      rcases addObject_eq_some ho with ⟨rfl, -⟩ | ⟨-, p, hp, -, -, hbody, -⟩
      · exact absurd hplace.symm (hi.place_ne_next h)
      · cases Option.some.inj (hp.symm.trans hc)
        exact hfits shape (hbody.symm.trans hmatrix)
    · obtain ⟨c, hc, -⟩ := h.stored hold
      obtain ⟨c', hc', -, -, hbody'⟩ := h.kept_addObject hc
      cases Option.some.inj (hq.symm.trans hc')
      rw [hbody']
      rcases addObject_eq_some ho with ⟨rfl, -⟩ | ⟨-, p, hp, -, -, hbody, -⟩
      · rw [links, h.object?_nextId] at hold
        cases hold
      · exact h.fitting hp (hbody.symm.trans hmatrix) hold hc
  slotted := fun ho hgeometry => by
    rcases addObject_eq_some ho with ⟨-, rfl⟩ | ⟨-, p, hp, -, -, hbody, -⟩
    · cases hgeometry
      exact .of_empty hbare.1 hbare.2
    · refine (h.slotted hp (hbody.symm.trans hgeometry)).mono fun _ hm hparent => ?_
      obtain ⟨o', ho', -, hparent', hbody'⟩ := h.kept_addObject hm
      exact ⟨o', ho', hparent'.trans hparent, hbody'⟩

end addObject

/-! ## Below an object -/

/-- Under a container that is no matrix anything that fits in can be inserted at a free name. -/
theorem Insertable.of_container {path : Path} {id : ObjectId} {o : Object} {name : String}
    {body : Body} (hfound : t.links.walk none path.names = some (some id))
    (ho : t.object? id = some o) (hcontainer : o.kind.isContainer = true)
    (hmatrix : ∀ shape, o.body ≠ .matrix shape) (hvalid : validName name = true)
    (hfits : ∀ shape, body.tupleShape? = some shape → shape.size?.isSome)
    (hfree : t.links (some id) name = none) : t.Insertable path name body (some id) where
  valid := hvalid
  fits := hfits
  found := hfound
  accepts := (accepts_some ho).mpr ⟨hcontainer, fun shape h => absurd h (hmatrix shape)⟩
  free := hfree

/-- An object that was just added is found empty and can be filled. -/
theorem Insertable.below (h : WellFormed t) {parent : Path} {name child : String}
    {body inner : Body} {place : Option ObjectId} (hi : t.Insertable parent name body place)
    (hcontainer : body.kind.isContainer = true) (hmatrix : ∀ shape, body ≠ .matrix shape)
    (hvalid : validName child = true)
    (hfits : ∀ shape, inner.tupleShape? = some shape → shape.size?.isSome) :
    (t.addObject place name body).Insertable (parent.child name) child inner (some t.nextId) := by
  have hnew : (t.addObject place name body).object? t.nextId =
      some ⟨name, place, .empty, body⟩ := by
    rw [object?_addObject, if_pos rfl]
  refine .of_container (walk_addObject h hi) hnew hcontainer hmatrix hvalid hfits ?_
  rw [links, hnew]
  rfl

/-- What could be inserted next to an object that was just added still can be. -/
theorem Insertable.beside (h : WellFormed t) {parent : Path} {name other : String}
    {body body' : Body} {place : Option ObjectId} (hi : t.Insertable parent name body place)
    (hi' : t.Insertable parent other body' place) (hne : other ≠ name) :
    (t.addObject place name body).Insertable parent other body' place where
  valid := hi'.valid
  fits := hi'.fits
  found := walk_mono (links_addObject_of_some h hi) hi.found
  accepts := fun id hid => by
    obtain ⟨o, ho, hholds⟩ := hi'.accepts id hid
    obtain ⟨o', ho', -, -, hbody⟩ := h.kept_addObject ho
    refine ⟨o', ho', ?_⟩
    rw [Holds, Object.kind, hbody]
    exact hholds
  free := by
    rw [links_addObject (hi.has h.toLinked) h.object?_nextId, set_of_ne fun hn => hne hn.2]
    exact hi'.free

/-- A geometry may get other slots of the same size, if they are filled with what belongs there. -/
theorem WellFormed.setGeometry (h : WellFormed t) {id : ObjectId} {o : Object} {g g' : Geometry}
    (ho : t.object? id = some o) (hg : o.body = .geometry g) (hkind : g'.kind = g.kind)
    (hslots : t.Slotted id g') : WellFormed (t.setBody id (.geometry g')) := by
  rw [setBody_eq]
  refine h.mapGeometries fun {i p} hp => ?_
  split
  · next hi =>
      subst hi
      cases Option.some.inj (hp.symm.trans ho)
      exact .inr ⟨g, g', hg, rfl, hkind, hslots⟩
  · exact .inl rfl

/-! ## A geometry and what comes with it -/

/-- A grid under the next number, and the matrix of its cells under the one after. -/
def addImage (t : Tree) (place : Option ObjectId) (name : String) (dimensions : Triple Nat)
    (spacing origin : Triple Float32) (cellDataName : String) : Tree :=
  let bare := Geometry.bareImage dimensions spacing origin
  let matrix := t.nextId + 1
  ((t.addObject place name (.geometry bare)).addObject (some t.nextId) cellDataName
      (.matrix bare.elementShape)).setBody t.nextId
    (.geometry (.image dimensions spacing origin (some matrix)))

/-- A cloud of points under the next number, then its coordinates and the matrix of its vertices. -/
def addVertex (t : Tree) (place : Option ObjectId) (name : String) (count : Nat)
    (vertexDataName coordinatesName : String) (coordinates : DataArray) : Tree :=
  let list := t.nextId + 1
  let matrix := t.nextId + 2
  (((t.addObject place name (.geometry (.bareVertex count))).addObject (some t.nextId)
      coordinatesName (.array coordinates)).addObject (some t.nextId) vertexDataName
      (.matrix [count])).setBody t.nextId
    (.geometry (.vertex count (some matrix) (some list)))

section geometries

variable {parent : Path} {name : String} {place : Option ObjectId}

/-- A grid with the matrix of its cells leaves the tree well-formed. -/
theorem WellFormed.addImage (h : WellFormed t) {dimensions : Triple Nat}
    {spacing origin : Triple Float32} {cellDataName : String}
    (hi : t.Insertable parent name (.geometry (.bareImage dimensions spacing origin)) place)
    (hname : validName cellDataName = true)
    (hshape : (Geometry.bareImage dimensions spacing origin).elementShape.size?.isSome) :
    WellFormed (t.addImage place name dimensions spacing origin cellDataName) := by
  have h₁ := h.addObject hi trivial ⟨rfl, rfl⟩
  have hmatrix := hi.below h rfl (fun _ hm => nomatch hm) hname
    (Body.fits_of_sound (show Body.Sound (.matrix _) from hshape))
  have h₂ := h₁.addObject hmatrix hshape trivial
  obtain ⟨o, ho, -, -, hbody⟩ := h₁.kept_addObject (object?_addObject_self rfl)
  refine h₂.setGeometry ho hbody rfl ⟨fun hm => ?_, fun hl => nomatch hl⟩
  cases hm
  exact ⟨_, object?_addObject_self nextId_addObject.symm, rfl, rfl⟩

/-- Below a bare cloud of points there is room for its coordinates and then for its matrix. -/
theorem Insertable.below_vertex (h : WellFormed t) {count : Nat}
    {vertexDataName coordinatesName : String} {allocated : Bool} {coordinates : DataArray}
    (hi : t.Insertable parent name (.geometry (.bareVertex count)) place)
    (hvertex : validName vertexDataName = true) (hcoordinates : validName coordinatesName = true)
    (hne : vertexDataName ≠ coordinatesName)
    (hfresh : DataArray.fresh .float32 [count] [3] allocated = .ok coordinates) :
    let t₁ := t.addObject place name (.geometry (.bareVertex count))
    t₁.Insertable (parent.child name) coordinatesName (.array coordinates) (some t.nextId) ∧
      (t₁.addObject (some t.nextId) coordinatesName (.array coordinates)).Insertable
        (parent.child name) vertexDataName (.matrix [count]) (some t.nextId) := by
  intro t₁
  obtain ⟨-, htuples, -, hsound⟩ := DataArray.of_fresh hfresh
  have hfits := Body.fits_of_sound (show Body.Sound (.array coordinates) from hsound)
  have hcount : Body.Sound (.matrix [count]) := hfits [count] (congrArg some htuples)
  have hlist := hi.below h rfl (fun _ hm => nomatch hm) hcoordinates hfits
  -- the matrix goes in next to the coordinates, under another name
  have hmatrix := hi.below h rfl (fun _ hm => nomatch hm) hvertex (Body.fits_of_sound hcount)
  exact ⟨hlist, hlist.beside (h.addObject hi trivial ⟨rfl, rfl⟩) hmatrix hne⟩

/-- A cloud of points with its coordinates and its matrix leaves the tree well-formed. -/
theorem WellFormed.addVertex (h : WellFormed t) {count : Nat}
    {vertexDataName coordinatesName : String} {allocated : Bool} {coordinates : DataArray}
    (hi : t.Insertable parent name (.geometry (.bareVertex count)) place)
    (hvertex : validName vertexDataName = true) (hcoordinates : validName coordinatesName = true)
    (hne : vertexDataName ≠ coordinatesName)
    (hfresh : DataArray.fresh .float32 [count] [3] allocated = .ok coordinates) :
    WellFormed (t.addVertex place name count vertexDataName coordinatesName coordinates) := by
  obtain ⟨htype, htuples, hcomponents, hsound⟩ := DataArray.of_fresh hfresh
  obtain ⟨hlist, hmatrix⟩ := hi.below_vertex h hvertex hcoordinates hne hfresh
  have h₁ := h.addObject hi trivial ⟨rfl, rfl⟩
  have h₂ := h₁.addObject hlist hsound trivial
  have h₃ := h₂.addObject hmatrix (hmatrix.fits _ rfl) trivial
  obtain ⟨o₂, ho₂, -, -, hbody₂⟩ := h₁.kept_addObject (object?_addObject_self rfl)
  obtain ⟨o, ho, -, -, hbody⟩ := h₂.kept_addObject ho₂
  obtain ⟨l, hl, -, hlparent, hlbody⟩ :=
    h₂.kept_addObject (object?_addObject_self (i := t.nextId + 1) nextId_addObject.symm)
  refine h₃.setGeometry ho (hbody.trans hbody₂) rfl ⟨fun hm => ?_, fun hc => ?_⟩
  · cases hm
    exact ⟨_, object?_addObject_self (by rw [nextId_addObject, nextId_addObject]), rfl, rfl⟩
  · cases hc
    exact ⟨l, hl, hlparent, hlbody ▸ ⟨htype, htuples, hcomponents⟩⟩

end geometries

end Tree

/-! ## The edits -/

namespace Edit

open FilterTree.Tree

variable {t u : Tree} {parent path : Path} {name : String} {body : Body} {id : ObjectId}

theorem insert_eq_ok :
    (insert parent name body).on t = (.ok id, u) ↔
      ∃ place, t.Insertable parent name body place ∧ id = t.nextId ∧
        u = t.addObject place name body := by
  rw [insert, ask_bind_eq_ok]
  refine exists_congr fun place => and_congr checkInsert_eq_ok ?_
  show (Except.ok t.nextId, t.addObject place name body) = (Except.ok id, u) ↔ _
  rw [Prod.mk.injEq, Except.ok.injEq, eq_comm, @eq_comm _ u]

theorem insert_allOrNothing : (insert parent name body).AllOrNothing t :=
  .ask_bind fun _ _ => Succeeds.allOrNothing ⟨_, _, rfl⟩

theorem create_eq_ok :
    (create path body).on t = (.ok id, u) ↔
      ∃ parent name place, path = parent.child name ∧ t.Insertable parent name body place ∧
        id = t.nextId ∧ u = t.addObject place name body := by
  rw [create, ask_bind_eq_ok, Prod.exists]
  refine exists_congr fun parent => exists_congr fun name => ?_
  rw [splitPath_eq_ok, insert_eq_ok, exists_and_left]

theorem create_allOrNothing : (create path body).AllOrNothing t :=
  .ask_bind fun _ _ => insert_allOrNothing

theorem createImage_eq_ok (h : WellFormed t) {dimensions : Triple Nat}
    {spacing origin : Triple Float32} {cellDataName : String}
    (hok : (createImage path dimensions spacing origin cellDataName).on t = (.ok id, u)) :
    ∃ parent name place, path = parent.child name ∧
      t.Insertable parent name (.geometry (.bareImage dimensions spacing origin)) place ∧
      validName cellDataName = true ∧
      (Geometry.bareImage dimensions spacing origin).elementShape.size?.isSome ∧
      id = t.nextId ∧ u = t.addImage place name dimensions spacing origin cellDataName := by
  rw [createImage, ask_bind_eq_ok] at hok
  obtain ⟨_, hname, hok⟩ := hok
  rw [ask_bind_eq_ok] at hok
  obtain ⟨_, hshape, hok⟩ := hok
  rw [bind_eq_ok] at hok
  obtain ⟨id', t₁, hcreate, hok⟩ := hok
  obtain ⟨parent, name, place, rfl, hi, rfl, rfl⟩ := create_eq_ok.mp hcreate
  rw [bind_eq_ok] at hok
  obtain ⟨matrix, t₂, hinsert, hok⟩ := hok
  obtain ⟨place₂, hi₂, rfl, rfl⟩ := insert_eq_ok.mp hinsert
  cases Option.some.inj (hi₂.found.symm.trans (walk_addObject h hi))
  cases hok
  refine ⟨parent, name, place, rfl, hi, TreeError.checkName_eq_ok.mp hname,
    checkShape_eq_ok.mp hshape, rfl, ?_⟩
  rw [addImage, nextId_addObject]

theorem createVertex_eq_ok (h : WellFormed t) {count : Nat}
    {vertexDataName coordinatesName : String} {allocated : Bool}
    (hok : (createVertex path count vertexDataName coordinatesName allocated).on t = (.ok id, u)) :
    ∃ parent name place coordinates, path = parent.child name ∧
      t.Insertable parent name (.geometry (.bareVertex count)) place ∧
      validName vertexDataName = true ∧ validName coordinatesName = true ∧
      vertexDataName ≠ coordinatesName ∧
      DataArray.fresh .float32 [count] [3] allocated = .ok coordinates ∧
      id = t.nextId ∧
      u = t.addVertex place name count vertexDataName coordinatesName coordinates := by
  rw [createVertex, ask_bind_eq_ok] at hok
  obtain ⟨_, hvertex, hok⟩ := hok
  rw [ask_bind_eq_ok] at hok
  obtain ⟨_, hcoordinates, hok⟩ := hok
  split at hok
  · cases hok
  · next hne =>
      obtain ⟨coordinates, hfresh, hok⟩ := ask_bind_eq_ok.mp hok
      obtain ⟨id', t₁, hcreate, hok⟩ := bind_eq_ok.mp hok
      obtain ⟨parent, name, place, rfl, hi, rfl, rfl⟩ := create_eq_ok.mp hcreate
      obtain ⟨list, t₂, hinsert, hok⟩ := bind_eq_ok.mp hok
      obtain ⟨place₂, hi₂, rfl, rfl⟩ := insert_eq_ok.mp hinsert
      cases Option.some.inj (hi₂.found.symm.trans (walk_addObject h hi))
      obtain ⟨matrix, t₃, hinsert, hok⟩ := bind_eq_ok.mp hok
      obtain ⟨place₃, hi₃, rfl, rfl⟩ := insert_eq_ok.mp hinsert
      have h₁ := h.addObject hi trivial ⟨rfl, rfl⟩
      have hfound := walk_mono (links_addObject_of_some h₁ hi₂) (walk_addObject h hi)
      cases Option.some.inj (hi₃.found.symm.trans hfound)
      cases hok
      refine ⟨parent, name, place, coordinates, rfl, hi, TreeError.checkName_eq_ok.mp hvertex,
        TreeError.checkName_eq_ok.mp hcoordinates, hne, check_mapError_eq_ok.mp hfresh, rfl, ?_⟩
      rw [addVertex, nextId_addObject, nextId_addObject]

theorem createImage_allOrNothing (h : WellFormed t) {dimensions : Triple Nat}
    {spacing origin : Triple Float32} {cellDataName : String} :
    (createImage path dimensions spacing origin cellDataName).AllOrNothing t := by
  refine .ask_bind fun _ hname => .ask_bind fun _ hshape => ?_
  refine .bind_of_succeeds create_allOrNothing fun id t₁ hcreate => ?_
  obtain ⟨parent, name, place, rfl, hi, rfl, rfl⟩ := create_eq_ok.mp hcreate
  have hbelow := hi.below h rfl (fun _ hm => nomatch hm) (TreeError.checkName_eq_ok.mp hname)
    (Body.fits_of_sound (show Body.Sound (.matrix _) from checkShape_eq_ok.mp hshape))
  exact .bind (insert_eq_ok.mpr ⟨_, hbelow, rfl, rfl⟩) ⟨_, _, rfl⟩

theorem createVertex_allOrNothing (h : WellFormed t) {count : Nat}
    {vertexDataName coordinatesName : String} {allocated : Bool} :
    (createVertex path count vertexDataName coordinatesName allocated).AllOrNothing t := by
  refine .ask_bind fun _ hvertex => .ask_bind fun _ hcoordinates => ?_
  refine .ite (fun _ => .throw) fun hne => .ask_bind fun coordinates hfresh => ?_
  refine .bind_of_succeeds create_allOrNothing fun id t₁ hcreate => ?_
  obtain ⟨parent, name, place, rfl, hi, rfl, rfl⟩ := create_eq_ok.mp hcreate
  have hvertex := TreeError.checkName_eq_ok.mp hvertex
  have hcoordinates := TreeError.checkName_eq_ok.mp hcoordinates
  obtain ⟨hlist, hmatrix⟩ := hi.below_vertex h hvertex hcoordinates hne
    (check_mapError_eq_ok.mp hfresh)
  exact .bind (insert_eq_ok.mpr ⟨_, hlist, rfl, rfl⟩)
    (.bind (insert_eq_ok.mpr ⟨_, hmatrix, rfl, rfl⟩) ⟨_, _, rfl⟩)

end Edit

end FilterTree
