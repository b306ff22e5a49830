import FilterTree.Proofs.Insert
import FilterTree.Proofs.Reading

/-!
# Renaming and moving

Both take an object off one list and put it on another, with what lies below
it: one write, `relink`, for the tree and one, `Links.relink`, for the links.
What has to hold for the tree to stay well-formed is that the new place is free,
takes the object's body and does not lie below the object itself; the last is
what a move checks by comparing paths.

A move has one duty more. A geometry that loses its matrix or its coordinates
must not go on naming them, so the slots of the parent are emptied first. That
happens to bodies only and is a step of its own (`WellFormed.forget`).
-/

namespace FilterTree

open Links

namespace Tree

variable {t : Tree}

/-! ## An object listed elsewhere -/

/-- Take an object off its list and list it under a name at a place. -/
def relink (t : Tree) (id : ObjectId) (place : Option ObjectId) (name : String)
    (place' : Option ObjectId) (name' : String) : Tree :=
  ((t.detachName place name).attach place' name' id).modify id fun o =>
    { o with name := name', parent := place' }

variable {id : ObjectId} {place place' : Option ObjectId} {name name' : String}

theorem object?_relink {i : ObjectId} :
    (t.relink id place name place' name').object? i =
      (t.object? i).map fun o =>
        let kept := if place = some i then o.children.erase name else o.children
        { name := if i = id then name' else o.name
          parent := if i = id then place' else o.parent
          children := if place' = some i then kept.insert name' id else kept
          body := o.body } := by
  rw [relink, object?_modify, attach, object?_modifyChildren, detachName, object?_modifyChildren]
  cases t.object? i with
  | none => simp
  | some o => split <;> split <;> split <;> simp [*]

@[simp] theorem nextId_relink : (t.relink id place name place' name').nextId = t.nextId :=
  nextId_modifyChildren.trans nextId_modifyChildren

theorem links_relink (h : t.Has place') :
    (t.relink id place name place' name').links = t.links.relink place name place' name' id := by
  have hhas : (t.detachName place name).Has place' := by
    cases place' with
    | none => trivial
    | some i =>
        obtain ⟨o, ho⟩ := h
        rw [Has, detachName, object?_modifyChildren, ho]
        split <;> exact ⟨_, rfl⟩
  rw [relink, links_modify, links_attach hhas, links_detachName]
  · rfl
  · exact fun _ => rfl

/-- What makes it safe to list the object at a path under a name at a place. -/
structure Relinkable (t : Tree) (id : ObjectId) (o : Object) (place : Option ObjectId)
    (name : String) : Prop where
  found : t.object? id = some o
  valid : validName name = true
  accepts : t.Accepts place o.body
  free : t.links place name = none
  /-- The place does not lie below the object. -/
  apart : ∃ xs ys, t.links.walk none xs = some o.parent ∧ t.links.walk none ys = some place ∧
    ¬ xs ++ [o.name] <+: ys
  /-- A geometry does not name the object unless it keeps it. -/
  released : ∀ {i p g}, t.object? i = some p → p.body = .geometry g → place ≠ some i →
    g.elementData ≠ some id ∧ g.coordinates ≠ some id

namespace Relinkable

variable {o : Object}

theorem has (hr : t.Relinkable id o place' name') (h : Linked t) : t.Has place' := by
  obtain ⟨xs, ys, -, hy, -⟩ := hr.apart
  exact h.has hy

/-- A link afterwards is the new one, or an old one of another object. -/
theorem links_eq_some (hr : t.Relinkable id o place' name') (h : Linked t) {p : Option ObjectId}
    {n : String} {i : ObjectId}
    (hi : (t.relink id o.parent o.name place' name').links p n = some i) :
    p = place' ∧ n = name' ∧ i = id ∨ i ≠ id ∧ t.links p n = some i := by
  rw [links_relink (hr.has h), Links.relink, Links.set] at hi
  split at hi
  · next hpn => exact .inl ⟨hpn.1, hpn.2, (Option.some.inj hi).symm⟩
  · refine .inr ⟨?_, set_none_le hi⟩
    rintro rfl
    obtain ⟨rfl, rfl⟩ := h.single (h.listed hr.found) (set_none_le hi)
    rw [set_self] at hi
    cases hi

theorem links_self (hr : t.Relinkable id o place' name') (h : Linked t) :
    (t.relink id o.parent o.name place' name').links place' name' = some id := by
  rw [links_relink (hr.has h), Links.relink, set_self]

theorem links_of_ne (hr : t.Relinkable id o place' name') (h : Linked t) {p : Option ObjectId}
    {n : String} {i : ObjectId} (hi : t.links p n = some i) (hne : i ≠ id) :
    (t.relink id o.parent o.name place' name').links p n = some i := by
  rw [links_relink (hr.has h), Links.relink, set_of_ne, set_of_ne, hi]
  · rintro ⟨rfl, rfl⟩
    rw [h.listed hr.found] at hi
    exact hne (Option.some.inj hi).symm
  · rintro ⟨rfl, rfl⟩
    rw [hr.free] at hi
    cases hi

/-- What does not lie below the object is found where it was. -/
theorem stays (hr : t.Relinkable id o place' name') (h : Linked t) {xs : List String} {i : ObjectId}
    {path : Path} (hx : t.links.walk none xs = some o.parent) (hpath : t.idOf? path = some i)
    (hapart : ¬ xs ++ [o.name] <+: path.names) :
    (t.relink id o.parent o.name place' name').idOf? path = some i := by
  obtain ⟨xs', ys, hx', hy, hxy⟩ := hr.apart
  cases walk_unique h.single hx hx'
  rw [idOf?_eq_some] at hpath ⊢
  rw [links_relink (hr.has h), walk_relink h.single hx (h.listed hr.found) hy hxy, if_neg,
    if_neg hapart]
  · exact hpath
  · rintro ⟨rest, hrest⟩
    rw [← hrest, walk_append, walk_concat, hy, Option.bind_some, hr.free] at hpath
    cases hpath

/-- Every object is found afterwards: where it was, or below the new place. -/
theorem reached (hr : t.Relinkable id o place' name') (h : Linked t) {i : ObjectId}
    {path : Path} (hpath : t.idOf? path = some i) :
    ∃ path, (t.relink id o.parent o.name place' name').idOf? path = some i := by
  obtain ⟨xs, ys, hx, hy, hapart⟩ := hr.apart
  by_cases hbelow : xs ++ [o.name] <+: path.names
  · obtain ⟨rest, hrest⟩ := hbelow
    refine ⟨⟨ys ++ [name'] ++ rest⟩, idOf?_of_walk ?_⟩
    rw [idOf?_eq_some] at hpath
    rw [links_relink (hr.has h), walk_relink h.single hx (h.listed hr.found) hy hapart,
      if_pos (List.prefix_append _ _)]
    simpa [hrest] using hpath
  · exact ⟨path, hr.stays h hx hpath hbelow⟩

end Relinkable

theorem relink_eq_some {i : ObjectId} {o : Object}
    (ho : (t.relink id place name place' name').object? i = some o) :
    ∃ p, t.object? i = some p ∧ o.body = p.body ∧ (i = id → o.name = name' ∧ o.parent = place') ∧
      (i ≠ id → o.name = p.name ∧ o.parent = p.parent) ∧
      (place' ≠ some i → p.children = .empty → o.children = .empty) := by
  rw [object?_relink] at ho
  obtain ⟨p, hp, rfl⟩ := Option.map_eq_some_iff.mp ho
  refine ⟨p, hp, rfl, fun hi => ⟨if_pos hi, if_pos hi⟩, fun hi => ⟨if_neg hi, if_neg hi⟩, ?_⟩
  intro hplace hempty
  dsimp only
  rw [if_neg hplace, hempty]
  split <;> rfl

theorem object?_relink_of_some {i : ObjectId} {p : Object} (hp : t.object? i = some p) :
    ∃ o, (t.relink id place name place' name').object? i = some o ∧ o.body = p.body ∧
      (i = id → o.name = name' ∧ o.parent = place') ∧
      (i ≠ id → o.name = p.name ∧ o.parent = p.parent) := by
  obtain ⟨o, ho⟩ : ∃ o, (t.relink id place name place' name').object? i = some o := by
    rw [object?_relink, hp]
    exact ⟨_, rfl⟩
  obtain ⟨p', hp', hbody, hself, hother, -⟩ := relink_eq_some ho
  cases Option.some.inj (hp.symm.trans hp')
  exact ⟨o, ho, hbody, hself, hother⟩

theorem Linked.relink {o : Object} (h : Linked t) (hr : t.Relinkable id o place' name') :
    Linked (t.relink id o.parent o.name place' name') where
  listed := fun {i _} hi => by
    obtain ⟨p, hp, -, hself, hother, -⟩ := relink_eq_some hi
    by_cases heq : i = id
    · rw [(hself heq).1, (hself heq).2, heq]
      exact hr.links_self h
    · rw [(hother heq).1, (hother heq).2]
      exact hr.links_of_ne h (h.listed hp) heq
  stored := fun hlink => by
    rcases hr.links_eq_some h hlink with ⟨rfl, rfl, rfl⟩ | ⟨hne, hold⟩
    · obtain ⟨o', ho', -, hself, -⟩ := object?_relink_of_some hr.found
      exact ⟨o', ho', (hself rfl).2, (hself rfl).1⟩
    · obtain ⟨p, hp, hparent, hname⟩ := h.stored hold
      obtain ⟨o', ho', -, -, hother⟩ := object?_relink_of_some hp
      exact ⟨o', ho', (hother hne).2.trans hparent, (hother hne).1.trans hname⟩
  reached := fun hi => by
    obtain ⟨p, hp, -⟩ := relink_eq_some hi
    obtain ⟨path, hpath⟩ := h.reached hp
    exact hr.reached h hpath

/-- Listing an object elsewhere keeps the tree well-formed. -/
theorem WellFormed.relink {o : Object} (h : WellFormed t) (hr : t.Relinkable id o place' name') :
    WellFormed (t.relink id o.parent o.name place' name') where
  toLinked := h.toLinked.relink hr
  numbered := fun hi => by
    obtain ⟨p, hp, -⟩ := relink_eq_some hi
    rw [nextId_relink]
    exact h.numbered hp
  named := fun {i _} hi => by
    obtain ⟨p, hp, -, hself, hother, -⟩ := relink_eq_some hi
    by_cases heq : i = id
    · rw [(hself heq).1]
      exact hr.valid
    · rw [(hother heq).1]
      exact h.named hp
  leaf := fun {i _} hi hleaf => by
    obtain ⟨p, hp, hbody, -, -, hchildren⟩ := relink_eq_some hi
    rw [Object.kind, hbody] at hleaf
    refine hchildren (fun hplace => ?_) (h.leaf hp hleaf)
    obtain ⟨c, hc, hcontainer, -⟩ := hr.accepts i hplace
    cases Option.some.inj (hp.symm.trans hc)
    rw [Object.kind, hleaf] at hcontainer
    cases hcontainer
  sound := fun hi => by
    obtain ⟨p, hp, hbody, -⟩ := relink_eq_some hi
    rw [hbody]
    exact h.sound hp
  fitting := fun {i _ shape n child q} hi hmatrix hchild hq => by
    obtain ⟨p, hp, hbody, -⟩ := relink_eq_some hi
    obtain ⟨c, hc, hbody', -⟩ := relink_eq_some hq
    rw [hbody']
    rw [hbody] at hmatrix
    rcases hr.links_eq_some h.toLinked hchild with ⟨hplace, -, rfl⟩ | ⟨-, hold⟩
    · obtain ⟨m, hm, -, hfits⟩ := hr.accepts i hplace.symm
      cases Option.some.inj (hp.symm.trans hm)
      cases Option.some.inj (hc.symm.trans hr.found)
      exact hfits shape hmatrix
    · exact h.fitting hp hmatrix hold hc
  slotted := fun {i _ g} hi hgeometry => by
    obtain ⟨p, hp, hbody, -⟩ := relink_eq_some hi
    rw [hbody] at hgeometry
    refine (h.slotted hp hgeometry).mono fun {m c} hnamed hc hparent => ?_
    obtain ⟨c', hc', hbody', hself, hother⟩ := object?_relink_of_some hc
    refine ⟨c', hc', ?_, hbody'⟩
    by_cases heq : m = id
    · subst heq
      rw [(hself rfl).2]
      by_contra hplace
      obtain ⟨hm, hl⟩ := hr.released hp hgeometry hplace
      exact hnamed.elim hm hl
    · exact (hother heq).2.trans hparent

/-! ## Slots emptied -/

/-- The tree with the slots of a place, if it is a geometry, emptied of an object. -/
def release (t : Tree) (place : Option ObjectId) (id : ObjectId) : Tree :=
  t.mapBodies fun i b => if place = some i then b.forget id else b

theorem clearSlot_eq_some {slot : Option ObjectId} {m : ObjectId}
    (h : Geometry.clearSlot id slot = some m) : slot = some m ∧ m ≠ id := by
  rw [Geometry.clearSlot] at h
  split at h
  · cases h
  · next hne =>
      subst h
      exact ⟨rfl, fun heq => hne (congrArg some heq)⟩

theorem elementData_forget {g : Geometry} {m : ObjectId} (h : (g.forget id).elementData = some m) :
    g.elementData = some m ∧ m ≠ id := by
  cases g <;> exact clearSlot_eq_some h

theorem coordinates_forget {g : Geometry} {m : ObjectId} (h : (g.forget id).coordinates = some m) :
    g.coordinates = some m ∧ m ≠ id := by
  cases g with
  | image d s o c => cases h
  | vertex n v l => exact clearSlot_eq_some h

@[simp] theorem elementShape_forget {g : Geometry} :
    (g.forget id).elementShape = g.elementShape := by
  cases g <;> rfl

theorem Slotted.forget {i : ObjectId} {g : Geometry} (h : t.Slotted i g) :
    t.Slotted i (g.forget id) where
  element := fun hm => by
    rw [elementShape_forget]
    exact h.element (elementData_forget hm).1
  coordinates := fun hl => by
    rw [elementShape_forget]
    exact h.coordinates (coordinates_forget hl).1

theorem WellFormed.release (h : WellFormed t) : WellFormed (t.release place id) := by
  refine h.mapGeometries fun {i o} ho => ?_
  split
  · cases hbody : o.body with
    | geometry g =>
        refine .inr ⟨g, g.forget id, rfl, rfl, ?_, (h.slotted ho hbody).forget⟩
        cases g <;> rfl
    | group | matrix _ | array _ | list _ => exact .inl rfl
  · exact .inl rfl

@[simp] theorem links_release : (t.release place id).links = t.links := links_mapBodies

theorem release_eq_some {i : ObjectId} {p : Object}
    (hp : (t.release place id).object? i = some p) :
    ∃ q, t.object? i = some q ∧
      p = { q with body := if place = some i then q.body.forget id else q.body } :=
  mapBodies_eq_some hp

theorem object?_release_of_ne {i : ObjectId} (hi : place ≠ some i) :
    (t.release place id).object? i = t.object? i := by
  rw [release, object?_mapBodies]
  simp only [if_neg hi]
  cases t.object? i <;> rfl

/-- Nothing happens to the object that its parent lets go of. -/
theorem object?_release_self (h : Linked t) {o : Object} (ho : t.object? id = some o) :
    (t.release o.parent id).object? id = some o := by
  rw [object?_release_of_ne (h.parent_ne ho), ho]

/-- What takes a body still does when slots have been emptied. -/
theorem Accepts.release {body : Body} {place' : Option ObjectId} (h : t.Accepts place' body) :
    (t.release place id).Accepts place' body := by
  intro i hi
  obtain ⟨c, hc, hcontainer, hfits⟩ := h i hi
  refine ⟨_, object?_mapBodies_of_some hc, ?_⟩
  split
  · cases hbody : c.body with
    | geometry g =>
        refine ⟨?_, fun shape hshape => nomatch hshape⟩
        cases g <;> rfl
    | matrix _ | group | array _ | list _ =>
        refine ⟨?_, fun shape hshape => hfits shape (hbody.trans hshape)⟩
        rw [Object.kind, hbody] at hcontainer
        exact hcontainer
  · exact ⟨hcontainer, hfits⟩

/-- A geometry that let go of an object does not name it. -/
theorem not_named_forget {g : Geometry} :
    (g.forget id).elementData ≠ some id ∧ (g.forget id).coordinates ≠ some id :=
  ⟨fun h => (elementData_forget h).2 rfl, fun h => (coordinates_forget h).2 rfl⟩

/-! ## Taking an object off its list -/

/-- Detaching an object empties the slots that name it and takes it off its parent's list. -/
theorem detach_eq {o : Object} (ho : t.object? id = some o) :
    t.detach id = (t.release o.parent id).detachName o.parent o.name := by
  rw [detach, ho]
  dsimp only
  cases o.parent with
  | none =>
      refine ext_object? (fun i => ?_) rfl rfl
      simp only [release, detachName, object?_mapBodies, object?_modifyChildren, reduceCtorEq,
        if_false]
      cases t.object? i <;> rfl
  | some p =>
      refine ext_object? (fun i => ?_) rfl rfl
      simp only [release, detachName, object?_mapBodies, object?_modify, object?_modifyChildren,
        Option.some.injEq, @eq_comm _ p]
      split <;> cases t.object? i <;> rfl

/-! ## Moving and renaming -/

/-- Whether one path leads to another. -/
theorem leadsTo_iff {p q : Path} : p.leadsTo q = true ↔ p.names <+: q.names :=
  List.isPrefixOf_iff_prefix

/-- An object with its parent, and the path at which it is found. -/
theorem Linked.object_at (h : Linked t) {parent : Path} {name : String}
    (hid : t.idOf? (parent.child name) = some id) :
    ∃ o, t.object? id = some o ∧ o.name = name ∧
      t.links.walk none parent.names = some o.parent := by
  obtain ⟨o, ho⟩ := h.object_of_idOf? hid
  obtain ⟨xs, hxs, hwalk⟩ := h.walk_parent ho (idOf?_eq_some.mp hid)
  obtain ⟨rfl, hname⟩ := List.append_inj' hxs rfl
  exact ⟨o, ho, (List.cons.inj hname).1.symm, hwalk⟩

/-- Where an object is listed, there is room for its body. -/
theorem WellFormed.accepts_child (h : WellFormed t) {o : Object} (ho : t.object? id = some o) :
    t.Accepts o.parent o.body := by
  intro i hi
  have hlisted := h.listed ho
  rw [hi] at hlisted
  obtain ⟨p, hp⟩ : t.Has (some i) := hi ▸ h.has_parent ho
  refine ⟨p, hp, ?_, fun shape hshape => h.fitting hp hshape hlisted ho⟩
  cases hkind : p.kind.isContainer with
  | true => rfl
  | false =>
      rw [links, hp, Option.bind_some, h.leaf hp hkind] at hlisted
      cases hlisted

/-- What a geometry names is a child of it. -/
theorem WellFormed.not_named (h : WellFormed t) {o : Object} (ho : t.object? id = some o)
    {i : ObjectId} {p : Object} {g : Geometry} (hp : t.object? i = some p)
    (hg : p.body = .geometry g) (hparent : o.parent ≠ some i) :
    g.elementData ≠ some id ∧ g.coordinates ≠ some id := by
  have hs := h.slotted hp hg
  constructor
  · intro hm
    obtain ⟨o', ho', hparent', -⟩ := hs.element hm
    cases Option.some.inj (ho.symm.trans ho')
    exact hparent hparent'
  · intro hl
    obtain ⟨o', ho', hparent', -⟩ := hs.coordinates hl
    cases Option.some.inj (ho.symm.trans ho')
    exact hparent hparent'

/-- Once its parent has let go of an object, no geometry names it. -/
theorem WellFormed.released (h : WellFormed t) {o : Object} (ho : t.object? id = some o)
    {i : ObjectId} {p : Object} {g : Geometry}
    (hp : (t.release o.parent id).object? i = some p) (hg : p.body = .geometry g) :
    g.elementData ≠ some id ∧ g.coordinates ≠ some id := by
  obtain ⟨q, hq, rfl⟩ := release_eq_some hp
  dsimp only at hg
  split at hg
  · cases hbody : q.body with
    | geometry g₀ =>
        rw [hbody] at hg
        cases hg
        exact not_named_forget
    | matrix _ | group | array _ | list _ =>
        rw [hbody] at hg
        cases hg
  · next hparent => exact h.not_named ho hq hg hparent

end Tree

namespace Edit

open FilterTree.Tree

variable {t u : Tree} {path : Path} {name : String}

/-- What renaming an object to a valid name comes to. -/
theorem rename_on {parent : Path} {id : ObjectId} {o : Object} (hname : validName name = true)
    (hid : t.idOf? (parent.child o.name) = some id) (ho : t.object? id = some o) :
    (rename (parent.child o.name) name).on t =
      if o.name = name then (.ok (), t)
      else if (t.links o.parent name).isSome then (.error (.nameCollision parent name), t)
      else (.ok (), t.relink id o.parent o.name o.parent name) := by
  have hsplit : splitPath (parent.child o.name) = .ok (parent, o.name) := splitPath_eq_ok.mpr rfl
  simp only [rename, on_ask_bind, hsplit, TreeError.checkName_eq_ok.mpr hname,
    resolve_eq_ok.mpr hid]
  split
  · rfl
  · simp only [on_get_bind, ho, Option.bind_some, hasChild_eq]
    split
    · rfl
    · refine congrArg (Prod.mk (Except.ok ())) (modify_congr fun o' ho' => ?_)
      obtain ⟨p, hp, -, hparent, -⟩ := modifyChildren_eq_some ho'
      obtain ⟨q, hq, -, hparent', -⟩ := modifyChildren_eq_some hp
      cases Option.some.inj (ho.symm.trans hq)
      rw [← hparent', ← hparent]

/-- A renaming is carried out if the name is valid and, unless it is the old one, free. -/
theorem rename_eq_ok_iff (h : Linked t) :
    (rename path name).on t = (.ok (), u) ↔
      validName name = true ∧ ∃ (parent : Path) (id : ObjectId) (o : Object),
        path = parent.child o.name ∧
        t.idOf? path = some id ∧ t.object? id = some o ∧
        (o.name = name ∧ u = t ∨ o.name ≠ name ∧ t.links o.parent name = none ∧
          u = t.relink id o.parent o.name o.parent name) := by
  constructor
  · intro hok
    have hsteps := hok
    rw [rename, ask_bind_eq_ok] at hsteps
    obtain ⟨⟨parent, oldName⟩, hpath, hsteps⟩ := hsteps
    cases splitPath_eq_ok.mp hpath
    rw [ask_bind_eq_ok] at hsteps
    obtain ⟨_, hname, hsteps⟩ := hsteps
    rw [ask_bind_eq_ok] at hsteps
    obtain ⟨id, hid, -⟩ := hsteps
    rw [TreeError.checkName_eq_ok] at hname
    rw [resolve_eq_ok] at hid
    obtain ⟨o, ho, rfl, -⟩ := h.object_at hid
    refine ⟨hname, parent, id, o, rfl, hid, ho, ?_⟩
    rw [rename_on hname hid ho] at hok
    split at hok
    · next hsame =>
        cases hok
        exact .inl ⟨hsame, rfl⟩
    · next hne =>
        split at hok
        · cases hok
        · next hfree =>
            cases hok
            exact .inr ⟨hne, by simpa using hfree, rfl⟩
  · rintro ⟨hname, parent, id, o, rfl, hid, ho, ⟨hsame, rfl⟩ | ⟨hne, hfree, rfl⟩⟩
    · rw [rename_on hname hid ho, if_pos hsame]
    · rw [rename_on hname hid ho, if_neg hne, hfree]
      rfl

/-- A renaming that is carried out leaves the tree as it is, or gives the object a free name. -/
theorem rename_eq_ok (h : WellFormed t) (hok : (rename path name).on t = (.ok (), u)) :
    u = t ∨ ∃ id o, t.idOf? path = some id ∧ t.Relinkable id o o.parent name ∧
      u = t.relink id o.parent o.name o.parent name := by
  obtain ⟨hname, parent, id, o, rfl, hid, ho, ⟨-, rfl⟩ | ⟨hne, hfree, rfl⟩⟩ :=
    (rename_eq_ok_iff h.toLinked).mp hok
  · exact .inl rfl
  · obtain ⟨xs, -, hparent⟩ := h.walk_parent ho (idOf?_eq_some.mp hid)
    exact .inr ⟨id, o, hid, ⟨ho, hname, h.accepts_child ho, hfree,
      ⟨_, _, hparent, hparent, not_concat_prefix⟩, fun hp hg hne => h.not_named ho hp hg hne⟩, rfl⟩

/-- What moving an object to a place that does not lie below it comes to. -/
theorem move_on (h : Linked t) {newParent parent : Path} {id : ObjectId} {o : Object}
    {place : Option ObjectId} (hid : t.idOf? (parent.child o.name) = some id)
    (ho : t.object? id = some o) (hapart : ¬ (parent.child o.name).leadsTo newParent)
    (hplace : t.links.walk none newParent.names = some place) :
    (move (parent.child o.name) newParent).on t =
      if o.parent = place then (.ok (), t)
      else match t.checkAttach newParent place o.name o.body with
        | .ok _ => (.ok (), (t.release o.parent id).relink id o.parent o.name place o.name)
        | .error x => (.error x, t) := by
  have hsplit : splitPath (parent.child o.name) = .ok (parent, o.name) := splitPath_eq_ok.mpr rfl
  simp only [move, on_ask_bind, hsplit, resolve_eq_ok.mpr hid, if_neg hapart,
    parentId_eq_ok.mpr hplace, objectAt_eq_ok.mpr ⟨id, hid, ho⟩]
  split
  · rfl
  · rw [on_ask_bind]
    cases t.checkAttach newParent place o.name o.body with
    | error x => rfl
    | ok _ =>
        refine congrArg (Prod.mk (Except.ok ())) ?_
        show ((t.detach id).attach place o.name id).modify id _ = _
        rw [detach_eq ho]
        refine modify_congr fun o' ho' => ?_
        obtain ⟨p, hp, hname, -⟩ := modifyChildren_eq_some ho'
        obtain ⟨q, hq, hname', -⟩ := modifyChildren_eq_some hp
        cases Option.some.inj ((object?_release_self h ho).symm.trans hq)
        rw [← hname', ← hname]

/--
A move is carried out if the new place does not lie below the object and is the
old one or takes the object.
-/
theorem move_eq_ok_iff (h : Linked t) {newParent : Path} :
    (move path newParent).on t = (.ok (), u) ↔
      ∃ (parent : Path) (id : ObjectId) (o : Object) (place : Option ObjectId),
        path = parent.child o.name ∧ t.idOf? path = some id ∧
        t.object? id = some o ∧ ¬ path.leadsTo newParent ∧
        t.links.walk none newParent.names = some place ∧
        (o.parent = place ∧ u = t ∨ o.parent ≠ place ∧ t.Accepts place o.body ∧
          t.links place o.name = none ∧
          u = (t.release o.parent id).relink id o.parent o.name place o.name) := by
  constructor
  · intro hok
    have hsteps := hok
    rw [move, ask_bind_eq_ok] at hsteps
    obtain ⟨⟨parent, name⟩, hpath, hsteps⟩ := hsteps
    cases splitPath_eq_ok.mp hpath
    rw [ask_bind_eq_ok] at hsteps
    obtain ⟨id, hid, hsteps⟩ := hsteps
    rw [resolve_eq_ok] at hid
    obtain ⟨o, ho, rfl, -⟩ := h.object_at hid
    split at hsteps
    · cases hsteps
    · next hapart =>
        simp only [ask_bind_eq_ok, parentId_eq_ok] at hsteps
        obtain ⟨place, hplace, -⟩ := hsteps
        refine ⟨parent, id, o, place, rfl, hid, ho, hapart, hplace, ?_⟩
        rw [move_on h hid ho hapart hplace] at hok
        split at hok
        · next hsame =>
            cases hok
            exact .inl ⟨hsame, rfl⟩
        · next hne =>
            split at hok
            · next hattach =>
                cases hok
                obtain ⟨haccepts, hfree⟩ := checkAttach_eq_ok.mp hattach
                exact .inr ⟨hne, haccepts, hfree, rfl⟩
            · cases hok
  · rintro ⟨parent, id, o, place, rfl, hid, ho, hapart, hplace, hcases⟩
    rw [move_on h hid ho hapart hplace]
    rcases hcases with ⟨hsame, rfl⟩ | ⟨hne, haccepts, hfree, rfl⟩
    · rw [if_pos hsame]
    · rw [if_neg hne, checkAttach_eq_ok.mpr ⟨haccepts, hfree⟩]

/-- A move that is carried out leaves the tree as it is, or puts the object at a free place. -/
theorem move_eq_ok (h : WellFormed t) {newParent : Path}
    (hok : (move path newParent).on t = (.ok (), u)) :
    u = t ∨ ∃ id o place, t.idOf? path = some id ∧
      t.links.walk none newParent.names = some place ∧
      (t.release o.parent id).Relinkable id o place o.name ∧
      u = (t.release o.parent id).relink id o.parent o.name place o.name := by
  obtain ⟨parent, id, o, place, rfl, hid, ho, hapart, hplace,
    ⟨-, rfl⟩ | ⟨hne, haccepts, hfree, rfl⟩⟩ := (move_eq_ok_iff h.toLinked).mp hok
  · exact .inl rfl
  · have hlinks : (t.release o.parent id).links = t.links := links_release
    obtain ⟨xs, hxs, hparent⟩ := h.walk_parent ho (idOf?_eq_some.mp hid)
    refine .inr ⟨id, o, place, hid, hplace, ⟨object?_release_self h.toLinked ho, h.named ho,
      haccepts.release, ?_, ?_, ?_⟩, rfl⟩
    · rw [hlinks, hfree]
    · rw [hlinks]
      exact ⟨_, _, hparent, hplace, fun hp => hapart (leadsTo_iff.mpr (hxs ▸ hp))⟩
    · exact fun hp hg _ => h.released ho hp hg

/-- What does not lie below a moved object is found where it was. -/
theorem move_stays (h : WellFormed t) {newParent q : Path} {i : ObjectId}
    (hok : (move path newParent).on t = (.ok (), u)) (hq : t.idOf? q = some i)
    (hapart : ¬ path.leadsTo q) : u.idOf? q = some i := by
  rcases move_eq_ok h hok with rfl | ⟨id, o, place, hid, -, hr, rfl⟩
  · exact hq
  · have hrel : Linked (t.release o.parent id) := h.release.toLinked
    have hsame : ∀ path, (t.release o.parent id).idOf? path = t.idOf? path :=
      fun _ => idOf?_mapBodies
    rw [← hsame] at hid hq
    obtain ⟨xs, hxs, hx⟩ := hrel.walk_parent hr.found (idOf?_eq_some.mp hid)
    refine hr.stays hrel hx hq fun hbelow => hapart (leadsTo_iff.mpr ?_)
    rwa [hxs]

theorem rename_allOrNothing : (rename path name).AllOrNothing t := by
  refine .ask_bind fun ⟨parent, oldName⟩ _ => .ask_bind fun _ _ => .ask_bind fun id _ => ?_
  refine .ite (fun _ => .pure) fun _ => .get_bind (.ite (fun _ => .throw) fun _ => ?_)
  exact Succeeds.allOrNothing ⟨_, _, rfl⟩

theorem move_allOrNothing {newParent : Path} : (move path newParent).AllOrNothing t := by
  refine .ask_bind fun ⟨parent, name⟩ _ => .ask_bind fun id _ => .ite (fun _ => .throw) fun _ => ?_
  refine .ask_bind fun place _ => .ask_bind fun o _ => .ite (fun _ => .pure) fun _ => ?_
  exact .ask_bind fun _ _ => Succeeds.allOrNothing ⟨_, _, rfl⟩

end Edit

end FilterTree
