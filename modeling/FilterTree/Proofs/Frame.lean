import FilterTree.Proofs.WellFormed
import FilterTree.Tree.Edit

/-!
# What each write changes, and what it leaves alone

An edit writes through a handful of total functions: it lists a name at a
place, takes a name off, adds an object, or replaces bodies. Each of them is
described twice, once by the objects that are found afterwards and once by the
links, and that is all the preservation proofs see of it.

Bodies and links do not touch each other. Whatever only replaces bodies is a
`mapBodies`, which has the same links, and a tree whose links agree keeps that
property under it (`Linked.mapBodies`).
-/

namespace FilterTree.Tree

open Links

variable {t u : Tree}

/-- Trees with the same objects, the same top level and the same next number are equal. -/
theorem ext_object? (hobjects : ∀ i, t.object? i = u.object? i) (hroots : t.roots = u.roots)
    (hnext : t.nextId = u.nextId) : t = u := by
  cases t
  cases u
  cases hroots
  cases hnext
  congr
  exact SortedMap.ext_get? hobjects

/-! ## Objects after a write -/

theorem object?_modify {id i : ObjectId} {f : Object → Object} :
    (t.modify id f).object? i = if i = id then (t.object? i).map f else t.object? i :=
  SortedMap.get?_modify

theorem modify_congr {id : ObjectId} {f g : Object → Object}
    (h : ∀ o, t.object? id = some o → f o = g o) : t.modify id f = t.modify id g := by
  refine ext_object? (fun i => ?_) rfl rfl
  rw [object?_modify, object?_modify]
  split
  · next hi =>
      subst hi
      exact Option.map_congr h
  · rfl

theorem object?_modifyChildren {place : Option ObjectId} {i : ObjectId}
    {f : SortedMap String ObjectId → SortedMap String ObjectId} :
    (t.modifyChildren place f).object? i =
      if place = some i then (t.object? i).map fun o => { o with children := f o.children }
      else t.object? i := by
  cases place with
  | none => rfl
  | some id =>
      rw [modifyChildren, object?_modify]
      simp only [Option.some.injEq, eq_comm]

theorem modifyChildren_eq_some {place : Option ObjectId} {i : ObjectId} {o : Object}
    {f : SortedMap String ObjectId → SortedMap String ObjectId}
    (ho : (t.modifyChildren place f).object? i = some o) :
    ∃ p, t.object? i = some p ∧ o.name = p.name ∧ o.parent = p.parent ∧ o.body = p.body := by
  rw [object?_modifyChildren] at ho
  split at ho
  · obtain ⟨p, hp, rfl⟩ := Option.map_eq_some_iff.mp ho
    exact ⟨p, hp, rfl, rfl, rfl⟩
  · exact ⟨o, ho, rfl, rfl, rfl⟩

@[simp] theorem nextId_modifyChildren {place : Option ObjectId}
    {f : SortedMap String ObjectId → SortedMap String ObjectId} :
    (t.modifyChildren place f).nextId = t.nextId := by cases place <;> rfl

/-! ## Links after a write -/

theorem links_modifyChildren_of_ne {place p : Option ObjectId} {n : String}
    {f : SortedMap String ObjectId → SortedMap String ObjectId} (h : p ≠ place) :
    (t.modifyChildren place f).links p n = t.links p n := by
  cases p with
  | none =>
      cases place with
      | none => exact absurd rfl h
      | some id => rfl
  | some i => rw [links, object?_modifyChildren, if_neg (Ne.symm h), links]

/-- Listing an object at a place that is there sets one link. -/
theorem links_attach {place : Option ObjectId} {name : String} {id : ObjectId}
    (h : t.Has place) : (t.attach place name id).links = t.links.set place name (some id) := by
  funext p n
  by_cases hp : p = place
  · subst hp
    rw [Links.set, attach]
    cases p with
    | none =>
        show (t.roots.insert name id).get? n = _
        rw [SortedMap.get?_insert]
        simp only [true_and]
        rfl
    | some i =>
        obtain ⟨o, ho⟩ := h
        rw [links, object?_modifyChildren, if_pos rfl, ho]
        show (o.children.insert name id).get? n = _
        rw [SortedMap.get?_insert, links, ho]
        simp only [true_and]
        rfl
  · rw [attach, links_modifyChildren_of_ne hp, set_of_ne fun h => hp h.1]

/-- Taking a name off a list clears one link. -/
theorem links_detachName {place : Option ObjectId} {name : String} :
    (t.detachName place name).links = t.links.set place name none := by
  funext p n
  by_cases hp : p = place
  · subst hp
    rw [Links.set, detachName]
    cases p with
    | none =>
        show (t.roots.erase name).get? n = _
        rw [SortedMap.get?_erase]
        simp only [true_and]
        rfl
    | some i =>
        rw [links, object?_modifyChildren, if_pos rfl, links]
        cases t.object? i with
        | none => exact (ite_self none).symm
        | some o =>
            show (o.children.erase name).get? n = _
            rw [SortedMap.get?_erase]
            simp only [true_and]
            rfl
  · rw [detachName, links_modifyChildren_of_ne hp, set_of_ne fun h => hp h.1]

theorem links_modify {id : ObjectId} {f : Object → Object}
    (hf : ∀ o, (f o).children = o.children) : (t.modify id f).links = t.links := by
  funext p n
  cases p with
  | none => rfl
  | some i =>
      rw [links, links, object?_modify]
      split
      · cases t.object? i with
        | none => rfl
        | some o => exact congrArg (SortedMap.get? · n) (hf o)
      · rfl

/-! ## Replacing bodies -/

/-- The tree with every body replaced by a function of the object's number and itself. -/
def mapBodies (t : Tree) (f : ObjectId → Body → Body) : Tree :=
  { t with objects := t.objects.map fun i o => { o with body := f i o.body } }

theorem object?_mapBodies {f : ObjectId → Body → Body} {i : ObjectId} :
    (t.mapBodies f).object? i = (t.object? i).map fun o => { o with body := f i o.body } :=
  SortedMap.get?_map

theorem object?_mapBodies_of_some {f : ObjectId → Body → Body} {i : ObjectId} {o : Object}
    (ho : t.object? i = some o) :
    (t.mapBodies f).object? i = some { o with body := f i o.body } := by
  rw [object?_mapBodies, ho]
  rfl

theorem links_mapBodies {f : ObjectId → Body → Body} : (t.mapBodies f).links = t.links := by
  funext p n
  cases p with
  | none => rfl
  | some i =>
      rw [links, links, object?_mapBodies]
      cases t.object? i <;> rfl

theorem idOf?_mapBodies {f : ObjectId → Body → Body} {path : Path} :
    (t.mapBodies f).idOf? path = t.idOf? path := by rw [idOf?_eq, idOf?_eq, links_mapBodies]

theorem mapBodies_eq_some {f : ObjectId → Body → Body} {i : ObjectId} {o : Object}
    (h : (t.mapBodies f).object? i = some o) :
    ∃ p, t.object? i = some p ∧ o = { p with body := f i p.body } := by
  rw [object?_mapBodies] at h
  obtain ⟨p, hp, rfl⟩ := Option.map_eq_some_iff.mp h
  exact ⟨p, hp, rfl⟩

theorem setBody_eq {id : ObjectId} {b : Body} :
    t.setBody id b = t.mapBodies fun i x => if i = id then b else x := by
  refine ext_object? (fun i => ?_) rfl rfl
  rw [setBody, object?_modify, object?_mapBodies]
  split
  · rfl
  · cases t.object? i <;> rfl

theorem object?_setBody {id i : ObjectId} {b : Body} :
    (t.setBody id b).object? i =
      (t.object? i).map fun o => { o with body := if i = id then b else o.body } := by
  rw [setBody_eq, object?_mapBodies]

theorem has_setBody {id i : ObjectId} {b : Body} (h : t.Has (some i)) :
    (t.setBody id b).Has (some i) := by
  obtain ⟨o, ho⟩ := h
  exact ⟨_, by rw [object?_setBody, ho]; rfl⟩

theorem mapBodies_mapBodies {f g : ObjectId → Body → Body} :
    (t.mapBodies f).mapBodies g = t.mapBodies fun i b => g i (f i b) := by
  refine ext_object? (fun i => ?_) rfl rfl
  rw [object?_mapBodies, object?_mapBodies, object?_mapBodies, Option.map_map]
  rfl

theorem Linked.mapBodies (h : Linked t) {f : ObjectId → Body → Body} : Linked (t.mapBodies f) where
  listed := fun ho => by
    obtain ⟨p, hp, rfl⟩ := mapBodies_eq_some ho
    rw [links_mapBodies]
    exact (h.listed hp :)
  stored := fun {_ _ id} hid => by
    rw [links_mapBodies] at hid
    obtain ⟨o, ho, hparent, hname⟩ := h.stored hid
    exact ⟨_, object?_mapBodies_of_some ho, hparent, hname⟩
  reached := fun ho => by
    obtain ⟨p, hp, rfl⟩ := mapBodies_eq_some ho
    obtain ⟨path, hpath⟩ := h.reached hp
    exact ⟨path, by rw [idOf?_mapBodies]; exact hpath⟩

/--
Bodies may be replaced when kinds stay, stores stay sound, whatever a matrix
holds keeps following its shape, and slots keep naming what they have to name.
-/
theorem WellFormed.mapBodies (h : WellFormed t) {f : ObjectId → Body → Body}
    (hkind : ∀ {i o}, t.object? i = some o → (f i o.body).kind = o.body.kind)
    (hsound : ∀ {i o}, t.object? i = some o → (f i o.body).Sound)
    (hfits : ∀ {i o shape name child p}, t.object? i = some o → f i o.body = .matrix shape →
      t.links (some i) name = some child → t.object? child = some p →
      (f child p.body).HasTuples shape)
    (hslots : ∀ {i o g}, t.object? i = some o → f i o.body = .geometry g →
      (t.mapBodies f).Slotted i g) : WellFormed (t.mapBodies f) where
  toLinked := h.toLinked.mapBodies
  numbered := fun ho => by
    obtain ⟨p, hp, rfl⟩ := mapBodies_eq_some ho
    exact h.numbered hp
  named := fun ho => by
    obtain ⟨p, hp, rfl⟩ := mapBodies_eq_some ho
    exact (h.named hp :)
  leaf := fun ho hleaf => by
    obtain ⟨p, hp, rfl⟩ := mapBodies_eq_some ho
    rw [Object.kind, hkind hp] at hleaf
    exact (h.leaf hp hleaf :)
  sound := fun ho => by
    obtain ⟨p, hp, rfl⟩ := mapBodies_eq_some ho
    exact hsound hp
  fitting := fun ho hb hchild hp => by
    obtain ⟨o', ho', rfl⟩ := mapBodies_eq_some ho
    obtain ⟨p', hp', rfl⟩ := mapBodies_eq_some hp
    rw [links_mapBodies] at hchild
    exact hfits ho' hb hchild hp'
  slotted := fun ho hb => by
    obtain ⟨p, hp, rfl⟩ := mapBodies_eq_some ho
    exact hslots hp hb

/-- Geometries may be replaced by others of the same kind, if their slots name what they have to. -/
theorem WellFormed.mapGeometries (h : WellFormed t) {f : ObjectId → Body → Body}
    (hf : ∀ {i o}, t.object? i = some o → f i o.body = o.body ∨ ∃ g g', o.body = .geometry g ∧
      f i o.body = .geometry g' ∧ g'.kind = g.kind ∧ t.Slotted i g') :
    WellFormed (t.mapBodies f) := by
  have hkept : ∀ {i o}, t.object? i = some o → (∀ g, o.body ≠ .geometry g) →
      f i o.body = o.body := by
    intro i o ho hne
    rcases hf ho with heq | ⟨g, g', hg, -⟩
    · exact heq
    · exact absurd hg (hne g)
  -- no slot and no matrix holds a geometry, so what they name is not touched
  have hslotted : ∀ {i g}, t.Slotted i g → (t.mapBodies f).Slotted i g := by
    intro i g hs
    constructor
    · intro m hm
      obtain ⟨o, ho, hparent, hbody⟩ := hs.element hm
      refine ⟨_, object?_mapBodies_of_some ho, hparent, ?_⟩
      exact (hkept ho fun g hg => by rw [hbody] at hg; cases hg).trans hbody
    · intro l hl
      obtain ⟨o, ho, hparent, hbody⟩ := hs.coordinates hl
      refine ⟨_, object?_mapBodies_of_some ho, hparent, ?_⟩
      show (f l o.body).HasCoordinates _
      rw [hkept ho fun g hg => by rw [hg] at hbody; exact hbody]
      exact hbody
  refine h.mapBodies ?_ ?_ ?_ ?_
  · intro i o ho
    rcases hf ho with heq | ⟨g, g', hg, hg', hkind, -⟩
    · rw [heq]
    · rw [hg', hg]
      exact hkind
  · intro i o ho
    rcases hf ho with heq | ⟨g, g', hg, hg', -⟩
    · rw [heq]
      exact h.sound ho
    · rw [hg']
      trivial
  · intro i o shape name child p ho hmatrix hchild hp
    rcases hf ho with heq | ⟨g, g', hg, hg', -⟩
    · have hfits := h.fitting ho (heq.symm.trans hmatrix) hchild hp
      rw [hkept hp fun g hg => by rw [hg] at hfits; exact hfits]
      exact hfits
    · rw [hg'] at hmatrix
      cases hmatrix
  · intro i o g ho hgeometry
    rcases hf ho with heq | ⟨g₁, g', hg, hg', -, hs⟩
    · exact hslotted (h.slotted ho (heq.symm.trans hgeometry))
    · cases hg'.symm.trans hgeometry
      exact hslotted hs

/-! ## Adding an object -/

/-- The objects after one was added under the next number. -/
theorem object?_addObject {place : Option ObjectId} {name : String} {body : Body} {i : ObjectId} :
    (t.addObject place name body).object? i =
      if i = t.nextId then some ⟨name, place, .empty, body⟩
      else if place = some i then
        (t.object? i).map fun o => { o with children := o.children.insert name t.nextId }
      else t.object? i := by
  rw [addObject, object?, SortedMap.get?_insert]
  split
  · rfl
  · exact object?_modifyChildren

@[simp] theorem nextId_addObject {place : Option ObjectId} {name : String} {body : Body} :
    (t.addObject place name body).nextId = t.nextId + 1 := nextId_modifyChildren

/-- An object under the next number, where there was none, is one new link. -/
theorem links_addObject {place : Option ObjectId} {name : String} {body : Body} (h : t.Has place)
    (hnew : t.object? t.nextId = none) :
    (t.addObject place name body).links = t.links.set place name (some t.nextId) := by
  have hattach := @links_attach { t with nextId := t.nextId + 1 } place name t.nextId h
  funext p n
  have hthere := congrFun (congrFun hattach p) n
  cases p with
  | none => exact hthere
  | some i =>
      by_cases hi : i = t.nextId
      · subst hi
        have hplace : place ≠ some t.nextId := by
          rintro rfl
          obtain ⟨o, ho⟩ := h
          rw [hnew] at ho
          cases ho
        rw [set_of_ne fun hp => hplace hp.1.symm, links, links, object?_addObject, if_pos rfl,
          hnew]
        rfl
      · rw [← show _ = t.links.set place name (some t.nextId) (some i) n from hthere, links, links]
        show ((t.addObject place name body).object? i).bind _ = _
        rw [object?_addObject, if_neg hi, attach, object?_modifyChildren]
        rfl

end FilterTree.Tree
