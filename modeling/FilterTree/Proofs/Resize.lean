import FilterTree.Proofs.Remove
import Mathlib.Data.List.Nodup

/-!
# Resizing a matrix

The matrix, everything in it, and the coordinates of the geometry it belongs to
take the new tuple shape, and the geometry takes the new size. The checks at
the beginning are about the bodies that will be retupled, each by itself, and
retupling one does not touch another; so when they have passed nothing is
refused any more, and the whole edit is one replacement of bodies (`resized`).

Who is touched is a matter of links: the matrix, its children, and what its
owner has in its slots. All other bodies are left alone, and the invariant says
of exactly these three kinds that they have to follow the matrix.
-/

namespace FilterTree

open Links

/-! ## Bodies -/

namespace Body

variable {shape : Shape}

/-- A body that takes a tuple shape. -/
def CanRetuple (shape : Shape) (b : Body) : Prop := ∃ b', b.retuple shape = .ok b'

/-- The body with the tuple shape, if it takes it. -/
def retupled (shape : Shape) (b : Body) : Body := (b.retuple shape).toOption.getD b

theorem CanRetuple.eq_ok {b : Body} (h : b.CanRetuple shape) :
    b.retuple shape = .ok (b.retupled shape) := by
  obtain ⟨b', hb⟩ := h
  rw [retupled, hb]
  rfl

theorem CanRetuple.array {a : DataArray} (h : (array a).CanRetuple shape) :
    ∃ s, a.store.resizeTuples shape a.elementType.zero = .ok s ∧
      (Body.array a).retupled shape = .array { a with store := s } := by
  have hok := h.eq_ok
  obtain ⟨a', ha, heq⟩ := check_map_eq_ok.mp hok
  obtain ⟨s, hs, rfl⟩ := check_map_eq_ok.mp ha
  exact ⟨s, hs, heq.symm⟩

theorem CanRetuple.list {l : NeighborList} (h : (list l).CanRetuple shape) :
    ∃ s, l.store.resizeTuples shape = .ok s ∧
      (Body.list l).retupled shape = .list { l with store := s } := by
  have hok := h.eq_ok
  obtain ⟨l', hl, heq⟩ := check_map_eq_ok.mp hok
  obtain ⟨s, hs, rfl⟩ := check_map_eq_ok.mp hl
  exact ⟨s, hs, heq.symm⟩

theorem canRetuple_array {a : DataArray}
    (h : (Shape.elementCount? shape a.store.componentShape).isSome) :
    (array a).CanRetuple shape := by
  obtain ⟨n, hn⟩ := Option.isSome_iff_exists.mp h
  exact ⟨_, check_map_eq_ok.mpr ⟨_, check_map_eq_ok.mpr
    ⟨_, DenseStore.resizeTuples_eq_ok.mpr ⟨n, hn, rfl⟩, rfl⟩, rfl⟩⟩

theorem canRetuple_list {l : NeighborList} (h : shape.size?.isSome) :
    (list l).CanRetuple shape := by
  obtain ⟨n, hn⟩ := Option.isSome_iff_exists.mp h
  exact ⟨_, check_map_eq_ok.mpr ⟨_, check_map_eq_ok.mpr
    ⟨_, ListStore.resizeTuples_eq_ok.mpr ⟨n, hn, rfl⟩, rfl⟩, rfl⟩⟩

@[simp] theorem kind_retupled {b : Body} : (b.retupled shape).kind = b.kind := by
  rw [retupled]
  cases hb : b.retuple shape with
  | error e => rfl
  | ok b' =>
      cases b with
      | array a =>
          obtain ⟨a', -, rfl⟩ := check_map_eq_ok.mp hb
          rfl
      | list l =>
          obtain ⟨l', -, rfl⟩ := check_map_eq_ok.mp hb
          rfl
      | group | matrix _ | geometry _ =>
          cases hb
          rfl

theorem retupled_eq_geometry {b : Body} {g : Geometry} (h : b.retupled shape = .geometry g) :
    b = .geometry g := by
  have hkind := congrArg kind h
  rw [kind_retupled] at hkind
  cases b with
  | geometry g' => exact h
  | group | matrix _ | array _ | list _ => cases g <;> cases hkind

theorem retupled_eq_matrix {b : Body} {s : Shape} (h : b.retupled shape = .matrix s) :
    (∃ old, b = .matrix old) ∧ s = shape := by
  have hkind := congrArg kind h
  rw [kind_retupled] at hkind
  cases b with
  | matrix old =>
      cases h
      exact ⟨⟨old, rfl⟩, rfl⟩
  | geometry g => cases g <;> cases hkind
  | group | array _ | list _ => cases hkind

theorem CanRetuple.sound {b : Body} (h : b.CanRetuple shape) (hb : b.Sound)
    (hshape : shape.size?.isSome) : (b.retupled shape).Sound := by
  cases b with
  | matrix s => exact hshape
  | array a =>
      obtain ⟨s, hs, heq⟩ := h.array
      rw [heq]
      exact DenseStore.Sound.resizeTuples hs
  | list l =>
      obtain ⟨s, hs, heq⟩ := h.list
      rw [heq]
      exact ListStore.Sound.resizeTuples hs
  | group | geometry _ => exact hb

theorem CanRetuple.hasTuples {b : Body} {old : Shape} (h : b.CanRetuple shape)
    (hb : b.HasTuples old) : (b.retupled shape).HasTuples shape := by
  cases b with
  | array a =>
      obtain ⟨s, hs, heq⟩ := h.array
      obtain ⟨n, -, rfl⟩ := DenseStore.resizeTuples_eq_ok.mp hs
      rw [heq]
      rfl
  | list l =>
      obtain ⟨s, hs, heq⟩ := h.list
      obtain ⟨n, -, rfl⟩ := ListStore.resizeTuples_eq_ok.mp hs
      rw [heq]
      rfl
  | group | matrix _ | geometry _ => cases hb

theorem CanRetuple.hasCoordinates {b : Body} {old : Shape} (h : b.CanRetuple shape)
    (hb : b.HasCoordinates old) : (b.retupled shape).HasCoordinates shape := by
  cases b with
  | array a =>
      obtain ⟨s, hs, heq⟩ := h.array
      obtain ⟨n, -, rfl⟩ := DenseStore.resizeTuples_eq_ok.mp hs
      rw [heq]
      exact ⟨hb.1, rfl, hb.2.2⟩
  | list _ | group | matrix _ | geometry _ => cases hb

end Body

namespace Geometry

/-- A resized geometry has the new size and the old slots. -/
theorem resized?_eq_some {g g' : Geometry} {shape : Shape} (h : g.resized? shape = some g') :
    g'.elementShape = shape ∧ g'.kind = g.kind ∧ g'.elementData = g.elementData ∧
      g'.coordinates = g.coordinates := by
  unfold resized? at h
  split at h
  · cases h
    exact ⟨rfl, rfl, rfl, rfl⟩
  · cases h
    exact ⟨rfl, rfl, rfl, rfl⟩
  · cases h

end Geometry

/-! ## The checks -/

namespace Tree

variable {t : Tree} {path : Path} {shape : Shape} {id : ObjectId}

/-- An object that takes a tuple shape, if it is there. -/
def CanRetuple (t : Tree) (shape : Shape) (id : ObjectId) : Prop :=
  ∀ o, t.object? id = some o → o.body.CanRetuple shape

theorem canRetuple_of_checkResize (h : t.checkResize path shape id = .ok ())
    (hshape : shape.size?.isSome) : t.CanRetuple shape id := by
  intro o ho
  rw [checkResize, ho, Option.map_some] at h
  cases hbody : o.body with
  | array a =>
      rw [hbody] at h
      obtain ⟨n, hn, -⟩ := check_map_eq_ok.mp h
      rw [check_mapError_eq_ok, Shape.elementCount] at hn
      refine Body.canRetuple_array ?_
      split at hn
      · next hcount => exact Option.isSome_of_eq_some hcount
      · cases hn
  | list l => exact Body.canRetuple_list hshape
  | group | matrix _ | geometry _ => exact ⟨_, rfl⟩

theorem owner?_eq_some {parent : Option ObjectId} {p : ObjectId} {g : Geometry} :
    t.owner? id parent = some (p, g) ↔
      parent = some p ∧ ∃ o, t.object? p = some o ∧ o.body = .geometry g ∧
        g.elementData = some id := by
  rw [owner?]
  simp only [Option.bind_eq_bind, Option.bind_eq_some_iff]
  constructor
  · rintro ⟨p', rfl, o, ho, h⟩
    split at h
    · next g' hbody =>
        split at h
        · next hdata =>
            cases h
            exact ⟨rfl, o, ho, hbody, hdata⟩
        · cases h
    · cases h
  · rintro ⟨rfl, o, ho, hbody, hdata⟩
    refine ⟨p, rfl, o, ho, ?_⟩
    rw [hbody]
    exact if_pos hdata

/-- The geometry that follows a matrix to its new size: who it is, and what it becomes. -/
def Follows (t : Tree) (id : ObjectId) (parent : Option ObjectId) (shape : Shape) :
    Option (ObjectId × Geometry) → Prop
  | none => t.owner? id parent = none
  | some (p, g') => ∃ g, t.owner? id parent = some (p, g) ∧ g.resized? shape = some g' ∧
      ∀ l, g.coordinates = some l → t.CanRetuple shape l

theorem follows_of_checkOwner {parent : Option ObjectId} {owner : Option (ObjectId × Geometry)}
    (h : t.checkOwner path id parent shape = .ok owner) (hshape : shape.size?.isSome) :
    t.Follows id parent shape owner := by
  rw [checkOwner.eq_def] at h
  split at h
  · next hnone =>
      cases h
      exact hnone
  · next p g hsome =>
      split at h
      · cases h
      · next g' hresized =>
          cases hcoordinates : g.coordinates with
          | none =>
              simp only [hcoordinates] at h
              cases h
              exact ⟨g, hsome, hresized, fun l hl => by rw [hcoordinates] at hl; cases hl⟩
          | some l =>
              simp only [hcoordinates, check_then_eq_ok] at h
              obtain ⟨hresize, h⟩ := h
              cases h
              refine ⟨g, hsome, hresized, fun l' hl => ?_⟩
              cases Option.some.inj (hcoordinates.symm.trans hl)
              exact canRetuple_of_checkResize hresize hshape

/-! ## All bodies at once -/

/-- The tree after some objects took a tuple shape. -/
def retupleAll (t : Tree) (shape : Shape) (ids : List ObjectId) : Tree :=
  t.mapBodies fun i b => if i ∈ ids then b.retupled shape else b

theorem retupleAll_append {xs ys : List ObjectId} (h : ∀ i ∈ xs, i ∉ ys) :
    (t.retupleAll shape xs).retupleAll shape ys = t.retupleAll shape (xs ++ ys) := by
  rw [retupleAll, retupleAll, retupleAll, mapBodies_mapBodies]
  congr 1
  funext i b
  by_cases hx : i ∈ xs
  · simp [hx, h i hx]
  · simp [hx]

theorem CanRetuple.retupleAll {ids : List ObjectId} (h : t.CanRetuple shape id) (hid : id ∉ ids) :
    (t.retupleAll shape ids).CanRetuple shape id := by
  intro o ho
  obtain ⟨p, hp, rfl⟩ := mapBodies_eq_some ho
  rw [if_neg hid]
  exact h p hp

/-- The objects that follow a matrix: itself, its children, and its owner's coordinates. -/
def touched (id : ObjectId) (o : Object) (owner : Option (ObjectId × Geometry)) : List ObjectId :=
  id :: o.children.values ++ (owner.bind fun p => p.2.coordinates).toList

/-- A body after a matrix took a tuple shape: its owner's is replaced, what follows is retupled. -/
def follow (shape : Shape) (ids : List ObjectId) (owner : Option (ObjectId × Geometry))
    (i : ObjectId) (b : Body) : Body :=
  match owner with
  | some (p, g) => if i = p then .geometry g else if i ∈ ids then b.retupled shape else b
  | none => if i ∈ ids then b.retupled shape else b

/-- The tree after a matrix took a tuple shape, with all that follows it. -/
def resized (t : Tree) (shape : Shape) (id : ObjectId) (o : Object)
    (owner : Option (ObjectId × Geometry)) : Tree :=
  t.mapBodies (follow shape (touched id o owner) owner)

theorem resized_none {o : Object} :
    t.resized shape id o none = t.retupleAll shape (id :: o.children.values) := by
  rw [← List.append_nil (id :: o.children.values)]
  rfl

theorem resized_some {o : Object} {p : ObjectId} {g : Geometry} :
    t.resized shape id o (some (p, g)) =
      (t.retupleAll shape (id :: o.children.values ++ g.coordinates.toList)).setBody p
        (.geometry g) := by
  rw [setBody_eq, retupleAll, mapBodies_mapBodies]
  rfl

end Tree

namespace Edit

open FilterTree.Tree

variable {t u : Tree} {path : Path} {shape : Shape}

theorem retuple_on {id : ObjectId} (h : t.CanRetuple shape id) :
    (retuple path shape id).on t = (.ok (), t.retupleAll shape [id]) := by
  rw [retuple, on_get_bind]
  split
  · next hnone =>
      refine congrArg _ (ext_object? (fun i => ?_) rfl rfl)
      rw [retupleAll, object?_mapBodies]
      by_cases hi : i = id
      · rw [hi, hnone]
        rfl
      · cases t.object? i <;> simp [hi]
  · next o ho =>
      rw [(h o ho).eq_ok, on_modify, setBody_eq]
      refine congrArg _ (ext_object? (fun i => ?_) rfl rfl)
      rw [retupleAll, object?_mapBodies, object?_mapBodies]
      by_cases hi : i = id
      · rw [hi, ho]
        simp
      · simp [hi]

/-- Objects that each take the shape take it one after the other. -/
theorem forM_retuple_on {ids : List ObjectId} (hnodup : ids.Nodup)
    (h : ∀ id ∈ ids, t.CanRetuple shape id) :
    (ids.forM (retuple path shape)).on t = (.ok (), t.retupleAll shape ids) := by
  induction ids generalizing t with
  | nil =>
      refine congrArg _ (ext_object? (fun i => ?_) rfl rfl)
      rw [retupleAll, object?_mapBodies]
      cases t.object? i <;> simp
  | cons id ids ih =>
      obtain ⟨hid, hnodup⟩ := List.nodup_cons.mp hnodup
      rw [show (id :: ids).forM (retuple path shape) =
        (retuple path shape id >>= fun _ => ids.forM (retuple path shape)) from rfl, on_bind,
        retuple_on (h id List.mem_cons_self)]
      dsimp only
      have hne : ∀ i ∈ ids, i ∉ [id] := fun i hi heq => hid (List.mem_singleton.mp heq ▸ hi)
      rw [ih hnodup fun i hi => (h i (List.mem_cons_of_mem id hi)).retupleAll (hne i hi),
        retupleAll_append fun i hi hmem => hne i hmem hi]
      rfl

end Edit

namespace Tree

variable {t : Tree} {shape : Shape}

/-- What has to hold so that a matrix can take a tuple shape, with all that follows it. -/
structure Resizable (t : Tree) (shape : Shape) (id : ObjectId) (o : Object)
    (owner : Option (ObjectId × Geometry)) : Prop where
  found : t.object? id = some o
  matrix : ∃ old, o.body = .matrix old
  counted : shape.size?.isSome
  children : ∀ c ∈ o.children.values, t.CanRetuple shape c
  follows : t.Follows id o.parent shape owner

/-- The checks of a resizing ask for what it takes. -/
theorem resizable_of_checks {path : Path} {id : ObjectId} {o : Object}
    {owner : Option (ObjectId × Geometry)} (ho : t.object? id = some o)
    (hkind : o.kind = .attributeMatrix) (hshape : checkShape path shape = .ok ())
    (hchildren : o.children.values.forM (t.checkResize path shape) = .ok ())
    (howner : t.checkOwner path id o.parent shape = .ok owner) : t.Resizable shape id o owner where
  found := ho
  matrix := by
    rw [Object.kind] at hkind
    cases hbody : o.body with
    | matrix old => exact ⟨old, rfl⟩
    | geometry g =>
        rw [hbody] at hkind
        cases g <;> cases hkind
    | group | array _ | list _ =>
        rw [hbody] at hkind
        cases hkind
  counted := checkShape_eq_ok.mp hshape
  children := fun c hc =>
    canRetuple_of_checkResize (check_forM_eq_ok.mp hchildren c hc) (checkShape_eq_ok.mp hshape)
  follows := follows_of_checkOwner howner (checkShape_eq_ok.mp hshape)

namespace Resizable

variable {id : ObjectId} {o : Object} {owner : Option (ObjectId × Geometry)}

theorem mem_children (hr : t.Resizable shape id o owner) {c : ObjectId} :
    c ∈ o.children.values ↔ ∃ name, t.links (some id) name = some c := by
  simp only [SortedMap.mem_values_iff, links, hr.found, Option.bind_some]

/-- The coordinates that follow are a child of the owner, of the owner's old size. -/
theorem coordinates (hr : t.Resizable shape id o owner) (h : WellFormed t) {p : ObjectId}
    {g' : Geometry} (howner : owner = some (p, g')) {l : ObjectId} (hl : g'.coordinates = some l) :
    ∃ q g c, t.object? p = some q ∧ q.body = .geometry g ∧ g'.elementShape = shape ∧
      t.object? l = some c ∧ c.parent = some p ∧ c.body.HasCoordinates g.elementShape := by
  subst howner
  obtain ⟨g, hg, hresized, -⟩ := hr.follows
  obtain ⟨-, q, hq, hbody, -⟩ := owner?_eq_some.mp hg
  obtain ⟨hshape, -, -, hslot⟩ := Geometry.resized?_eq_some hresized
  rw [hslot] at hl
  obtain ⟨c, hc, hparent, hcoordinates⟩ := (h.slotted hq hbody).coordinates hl
  exact ⟨q, g, c, hq, hbody, hshape, hc, hparent, hcoordinates⟩

theorem canRetuple_coordinates (hr : t.Resizable shape id o owner) {p : ObjectId} {g' : Geometry}
    (howner : owner = some (p, g')) {l : ObjectId} (hl : g'.coordinates = some l) :
    t.CanRetuple shape l := by
  subst howner
  obtain ⟨g, -, hresized, hcan⟩ := hr.follows
  obtain ⟨-, -, -, hslot⟩ := Geometry.resized?_eq_some hresized
  rw [hslot] at hl
  exact hcan l hl

/-- Each of the objects that follow takes the shape. -/
theorem canRetuple (hr : t.Resizable shape id o owner) {i : ObjectId}
    (hi : i ∈ touched id o owner) : t.CanRetuple shape i := by
  rcases List.mem_append.mp hi with hi | hi
  · rcases List.mem_cons.mp hi with rfl | hi
    · intro o' ho'
      obtain ⟨old, hold⟩ := hr.matrix
      cases Option.some.inj (hr.found.symm.trans ho')
      rw [hold]
      exact ⟨_, rfl⟩
    · exact hr.children i hi
  · cases owner with
    | none => cases hi
    | some p => exact hr.canRetuple_coordinates rfl (Option.mem_toList.mp hi)

/-- What follows is a matrix, something in it, or coordinates below a geometry. -/
theorem touched_cases (hr : t.Resizable shape id o owner) (h : WellFormed t) {i : ObjectId}
    (hi : i ∈ touched id o owner) :
    i = id ∨ (∃ c old, t.object? i = some c ∧ c.parent = some id ∧ c.body.HasTuples old) ∨
      ∃ p q g c, owner.map Prod.fst = some p ∧ t.object? p = some q ∧ q.body = .geometry g ∧
        t.object? i = some c ∧ c.parent = some p ∧ c.body.HasCoordinates g.elementShape := by
  rcases List.mem_append.mp hi with hi | hi
  · rcases List.mem_cons.mp hi with rfl | hi
    · exact .inl rfl
    · obtain ⟨name, hname⟩ := hr.mem_children.mp hi
      obtain ⟨c, hc, hparent, -⟩ := h.stored hname
      obtain ⟨old, hold⟩ := hr.matrix
      exact .inr (.inl ⟨c, old, hc, hparent, h.fitting hr.found hold hname hc⟩)
  · cases owner with
    | none => cases hi
    | some p =>
        obtain ⟨q, g, c, hq, hbody, -, hc, hparent, hcoordinates⟩ :=
          hr.coordinates h rfl (Option.mem_toList.mp hi)
        exact .inr (.inr ⟨p.1, q, g, c, rfl, hq, hbody, hc, hparent, hcoordinates⟩)

/-- No object follows twice. -/
theorem nodup_touched (hr : t.Resizable shape id o owner) (h : WellFormed t) :
    (touched id o owner).Nodup := by
  have hself : id ∉ o.children.values := by
    intro hmem
    obtain ⟨name, hname⟩ := hr.mem_children.mp hmem
    obtain ⟨o', ho', hparent, -⟩ := h.stored hname
    exact h.acyclic _ (.single ⟨o', ho', hparent⟩)
  have hvalues : o.children.values.Nodup := by
    refine List.Nodup.map_on ?_ SortedMap.nodup_entries
    rintro ⟨m, c⟩ hm ⟨n, d⟩ hn rfl
    have hlink : ∀ {k : String}, (k, c) ∈ o.children.entries → t.links (some id) k = some c := by
      intro k hk
      rw [links, hr.found]
      exact SortedMap.get?_eq_some_iff.mpr hk
    rw [(h.single (hlink hm) (hlink hn)).2]
  refine List.nodup_append.mpr ⟨List.nodup_cons.mpr ⟨hself, hvalues⟩, ?_, ?_⟩
  · exact Option.toList_nodup _
  · rintro i hi l hl rfl
    cases owner with
    | none => cases hl
    | some p =>
        obtain ⟨q, g, c, hq, hbody, -, hc, hparent, hcoordinates⟩ :=
          hr.coordinates h rfl (Option.mem_toList.mp hl)
        obtain ⟨old, hold⟩ := hr.matrix
        rcases List.mem_cons.mp hi with rfl | hi
        · cases Option.some.inj (hc.symm.trans hr.found)
          rw [hold] at hcoordinates
          exact hcoordinates
        · obtain ⟨name, hname⟩ := hr.mem_children.mp hi
          obtain ⟨c', hc', hparent', -⟩ := h.stored hname
          cases Option.some.inj (hc.symm.trans hc')
          cases hparent.symm.trans hparent'
          cases Option.some.inj (hq.symm.trans hr.found)
          rw [hold] at hbody
          cases hbody

end Resizable

/-- An owner is a geometry of the matrix, and its resized form. -/
theorem Resizable.owner {id : ObjectId} {o : Object} {p : ObjectId} {g' : Geometry}
    (hr : t.Resizable shape id o (some (p, g'))) :
    ∃ q g, t.object? p = some q ∧ q.body = .geometry g ∧ o.parent = some p ∧
      g.elementData = some id ∧ g.resized? shape = some g' := by
  obtain ⟨g, hg, hresized, -⟩ := hr.follows
  obtain ⟨hparent, q, hq, hbody, hdata⟩ := owner?_eq_some.mp hg
  exact ⟨q, g, hq, hbody, hparent, hdata, hresized⟩

section resized

variable {id : ObjectId} {o : Object} {owner : Option (ObjectId × Geometry)} {i : ObjectId}
  {p : Object}

/-- A body is replaced by its owner's new one, retupled, or left alone. -/
theorem follow_cases {b : Body} :
    (∃ g, owner = some (i, g) ∧ follow shape (touched id o owner) owner i b = .geometry g) ∨
      (∀ g, owner ≠ some (i, g)) ∧ (i ∈ touched id o owner ∧
        follow shape (touched id o owner) owner i b = b.retupled shape ∨
      i ∉ touched id o owner ∧ follow shape (touched id o owner) owner i b = b) := by
  rw [follow.eq_def]
  cases owner with
  | none =>
      refine .inr ⟨fun g h => (nomatch h), ?_⟩
      by_cases hi : i ∈ touched id o none
      · exact .inl ⟨hi, if_pos hi⟩
      · exact .inr ⟨hi, if_neg hi⟩
  | some q =>
      by_cases hq : i = q.1
      · subst hq
        exact .inl ⟨q.2, rfl, if_pos rfl⟩
      · refine .inr ⟨fun g h => hq (congrArg Prod.fst (Option.some.inj h)).symm, ?_⟩
        by_cases hi : i ∈ touched id o (some q)
        · exact .inl ⟨hi, (if_neg hq).trans (if_pos hi)⟩
        · exact .inr ⟨hi, (if_neg hq).trans (if_neg hi)⟩

theorem Resizable.not_geometry_of_touched (h : WellFormed t) (hr : t.Resizable shape id o owner)
    (hp : t.object? i = some p) (hi : i ∈ touched id o owner) {g : Geometry} :
    p.body ≠ .geometry g := by
  intro hg
  rcases hr.touched_cases h hi with rfl | ⟨c, _, hc, _, hfits⟩ | ⟨_, _, _, c, _, _, _, hc, _, hfits⟩
  · obtain ⟨old, hold⟩ := hr.matrix
    cases Option.some.inj (hp.symm.trans hr.found)
    cases hold.symm.trans hg
  · cases Option.some.inj (hp.symm.trans hc)
    rw [hg] at hfits
    exact hfits
  · cases Option.some.inj (hp.symm.trans hc)
    rw [hg] at hfits
    exact hfits

/-- What follows and is no geometry is retupled. -/
theorem Resizable.follow_of_touched (hr : t.Resizable shape id o owner)
    (hp : t.object? i = some p) (hne : ∀ g, p.body ≠ .geometry g) (hi : i ∈ touched id o owner) :
    follow shape (touched id o owner) owner i p.body = p.body.retupled shape := by
  rcases @follow_cases shape id o owner i p.body with ⟨g, rfl, -⟩ | ⟨-, ⟨-, heq⟩ | ⟨hstays, -⟩⟩
  · obtain ⟨c, g₀, hc, hbody, -⟩ := hr.owner
    cases Option.some.inj (hp.symm.trans hc)
    exact absurd hbody (hne g₀)
  · exact heq
  · exact absurd hi hstays

/-- The children of another matrix are left alone. -/
theorem Resizable.follow_of_fitting (h : WellFormed t) (hr : t.Resizable shape id o owner)
    {m : Object} {old : Shape} (hm : t.object? i = some m) (hmatrix : m.body = .matrix old)
    (hi : i ≠ id) {c : ObjectId} (hp : t.object? c = some p) (hparent : p.parent = some i)
    (hfits : p.body.HasTuples old) :
    follow shape (touched id o owner) owner c p.body = p.body := by
  rcases @follow_cases shape id o owner c p.body with ⟨g, rfl, -⟩ | ⟨-, ⟨hc, -⟩ | ⟨-, heq⟩⟩
  · obtain ⟨q, g₀, hq, hbody, -⟩ := hr.owner
    cases Option.some.inj (hp.symm.trans hq)
    rw [hbody] at hfits
    cases hfits
  · rcases hr.touched_cases h hc with rfl | ⟨c', _, hc', hparent', _⟩ |
      ⟨q, q', g, c', _, hq, hbody, hc', hparent', _⟩
    · obtain ⟨old', hold⟩ := hr.matrix
      cases Option.some.inj (hp.symm.trans hr.found)
      rw [hold] at hfits
      cases hfits
    · cases Option.some.inj (hp.symm.trans hc')
      exact absurd (Option.some.inj (hparent.symm.trans hparent')) hi
    · cases Option.some.inj (hp.symm.trans hc')
      cases hparent.symm.trans hparent'
      cases Option.some.inj (hm.symm.trans hq)
      cases hmatrix.symm.trans hbody
  · exact heq

/-- The slots of the owner are of the new size when all has followed. -/
theorem Resizable.slotted_owner (h : WellFormed t) {g' : Geometry}
    (hr : t.Resizable shape id o (some (i, g'))) :
    (t.resized shape id o (some (i, g'))).Slotted i g' := by
  obtain ⟨q, g, hq, hbody, hparent, hdata, hresized⟩ := hr.owner
  obtain ⟨hshape, -, helement, hcoordinates⟩ := Geometry.resized?_eq_some hresized
  obtain ⟨old, hold⟩ := hr.matrix
  constructor
  · intro m hm
    rw [helement, hdata] at hm
    cases hm
    refine ⟨_, object?_mapBodies_of_some hr.found, hparent, ?_⟩
    dsimp only
    rw [hr.follow_of_touched hr.found (fun g hg => by rw [hold] at hg; cases hg)
      List.mem_cons_self, hold, hshape]
    rfl
  · intro l hl
    obtain ⟨_, _, c, -, -, -, hc, hparent', hhas⟩ := hr.coordinates h rfl hl
    have hcan := hr.canRetuple_coordinates rfl hl
    refine ⟨_, object?_mapBodies_of_some hc, hparent', ?_⟩
    dsimp only
    rw [hr.follow_of_touched hc (fun g hg => by rw [hg] at hhas; exact hhas)
      (List.mem_append_right _ (Option.mem_toList.mpr hl)), hshape]
    exact (hcan c hc).hasCoordinates hhas

/-- What the slots of another geometry hold is left alone. -/
theorem Resizable.slotted_other (h : WellFormed t) (hr : t.Resizable shape id o owner)
    {g : Geometry} (hp : t.object? i = some p) (hg : p.body = .geometry g)
    (howner : ∀ g', owner ≠ some (i, g')) :
    (t.resized shape id o owner).Slotted i g := by
  obtain ⟨old, hold⟩ := hr.matrix
  have hs := h.slotted hp hg
  refine hs.mono fun {m c} hnamed hc hparent => ?_
  refine ⟨_, object?_mapBodies_of_some hc, hparent, ?_⟩
  dsimp only
  rcases @follow_cases shape id o owner m c.body with ⟨g', rfl, -⟩ | ⟨-, ⟨hm, -⟩ | ⟨-, heq⟩⟩
  · -- an owner is a geometry, and slots do not hold any
    obtain ⟨q, g₀, hq, hbody, -⟩ := hr.owner
    cases Option.some.inj (hc.symm.trans hq)
    rcases hnamed with he | hl
    · obtain ⟨c', hc', -, hbody'⟩ := hs.element he
      cases Option.some.inj (hc.symm.trans hc')
      cases hbody.symm.trans hbody'
    · obtain ⟨c', hc', -, hbody'⟩ := hs.coordinates hl
      cases Option.some.inj (hc.symm.trans hc')
      rw [hbody] at hbody'
      cases hbody'
  · rcases hr.touched_cases h hm with rfl | ⟨c', _, hc', hparent', _⟩ |
      ⟨q, q', g', c', hq, -, -, hc', hparent', _⟩
    · -- the matrix itself: then this geometry is its owner
      cases Option.some.inj (hc.symm.trans hr.found)
      rcases hnamed with he | hl
      · have hown := owner?_eq_some.mpr ⟨hparent, p, hp, hg, he⟩
        cases owner with
        | none => cases hr.follows.symm.trans hown
        | some r =>
            obtain ⟨g₀, hg₀, -⟩ := hr.follows
            cases hg₀.symm.trans hown
            exact absurd rfl (howner r.2)
      · obtain ⟨c', hc', -, hbody'⟩ := hs.coordinates hl
        cases Option.some.inj (hc.symm.trans hc')
        rw [hold] at hbody'
        cases hbody'
    · cases Option.some.inj (hc.symm.trans hc')
      cases hparent.symm.trans hparent'
      cases Option.some.inj (hp.symm.trans hr.found)
      cases hold.symm.trans hg
    · cases Option.some.inj (hc.symm.trans hc')
      cases hparent.symm.trans hparent'
      obtain ⟨r, rfl, rfl⟩ := Option.map_eq_some_iff.mp hq
      exact absurd rfl (howner r.2)
  · exact heq

end resized

/-- A matrix that took another shape, with all that follows it, leaves the tree well-formed. -/
theorem WellFormed.resized {id : ObjectId} {o : Object} {owner : Option (ObjectId × Geometry)}
    (h : WellFormed t) (hr : t.Resizable shape id o owner) :
    WellFormed (t.resized shape id o owner) := by
  obtain ⟨old, hold⟩ := hr.matrix
  refine h.mapBodies ?_ ?_ ?_ ?_
  · intro i p hp
    rcases @follow_cases shape id o owner i p.body with ⟨g', rfl, heq⟩ | ⟨-, ⟨-, heq⟩ | ⟨-, heq⟩⟩
    · obtain ⟨q, g, hq, hbody, -, -, hresized⟩ := hr.owner
      cases Option.some.inj (hp.symm.trans hq)
      rw [heq, hbody]
      exact (Geometry.resized?_eq_some hresized).2.1
    · rw [heq, Body.kind_retupled]
    · rw [heq]
  · intro i p hp
    rcases @follow_cases shape id o owner i p.body with ⟨g', rfl, heq⟩ | ⟨-, ⟨hi, heq⟩ | ⟨-, heq⟩⟩
    · rw [heq]
      trivial
    · rw [heq]
      exact (hr.canRetuple hi p hp).sound (h.sound hp) hr.counted
    · rw [heq]
      exact h.sound hp
  · intro i m s name c p hm hmatrix hchild hp
    by_cases hi : i = id
    · -- in the matrix itself everything is retupled
      subst hi
      cases Option.some.inj (hm.symm.trans hr.found)
      rw [hr.follow_of_touched hm (fun g hg => by rw [hold] at hg; cases hg)
        List.mem_cons_self] at hmatrix
      have hfits := h.fitting hm hold hchild hp
      have hc : c ∈ touched i o owner :=
        List.mem_append_left _ (List.mem_cons_of_mem _ (hr.mem_children.mpr ⟨name, hchild⟩))
      rw [hr.follow_of_touched hp (fun g hg => by rw [hg] at hfits; exact hfits) hc,
        (Body.retupled_eq_matrix hmatrix).2]
      exact (hr.canRetuple hc p hp).hasTuples hfits
    · rcases @follow_cases shape id o owner i m.body with
        ⟨g', rfl, heq⟩ | ⟨-, ⟨htouched, heq⟩ | ⟨-, heq⟩⟩
      · cases heq.symm.trans hmatrix
      · obtain ⟨⟨old', hold'⟩, -⟩ := Body.retupled_eq_matrix (heq.symm.trans hmatrix)
        rcases hr.touched_cases h htouched with hi' | ⟨c', _, hc', _, hfits⟩ |
          ⟨_, _, _, c', _, _, _, hc', _, hfits⟩
        · exact absurd hi' hi
        · cases Option.some.inj (hm.symm.trans hc')
          rw [hold'] at hfits
          cases hfits
        · cases Option.some.inj (hm.symm.trans hc')
          rw [hold'] at hfits
          cases hfits
      · have hs := heq.symm.trans hmatrix
        have hfits := h.fitting hm hs hchild hp
        obtain ⟨c', hc', hparent, -⟩ := h.stored hchild
        cases Option.some.inj (hp.symm.trans hc')
        rw [hr.follow_of_fitting h hm hs hi hp hparent hfits]
        exact hfits
  · intro i p g hp hg
    rcases @follow_cases shape id o owner i p.body with
      ⟨g', rfl, heq⟩ | ⟨hother, ⟨hi, heq⟩ | ⟨-, heq⟩⟩
    · cases heq.symm.trans hg
      exact hr.slotted_owner h
    · exact absurd (Body.retupled_eq_geometry (heq.symm.trans hg))
        (hr.not_geometry_of_touched h hp hi)
    · exact hr.slotted_other h hp (heq.symm.trans hg) hother

end Tree

namespace Edit

open FilterTree.Tree

variable {t u : Tree} {path : Path} {shape : Shape}

/-- Once the checks have passed nothing that follows is refused any more. -/
theorem follow_on (h : WellFormed t) {id : ObjectId} {o : Object}
    {owner : Option (ObjectId × Geometry)} (hr : t.Resizable shape id o owner) :
    Edit.on (do
      (id :: o.children.values).forM (retuple path shape)
      match owner with
      | none => return
      | some (ownerId, g) =>
        match g.coordinates with
        | some list => retuple path shape list
        | none => pure ()
        modify fun t => t.setBody ownerId (.geometry g)) t =
      (.ok (), t.resized shape id o owner) := by
  obtain ⟨hnodup, -, hdisjoint⟩ := List.nodup_append.mp (hr.nodup_touched h)
  have hcan : ∀ i ∈ id :: o.children.values, t.CanRetuple shape i := fun i hi =>
    hr.canRetuple (List.mem_append_left _ hi)
  rw [on_bind, forM_retuple_on hnodup hcan]
  cases owner with
  | none =>
      rw [resized_none]
      rfl
  | some p =>
      obtain ⟨p, g⟩ := p
      rw [resized_some]
      dsimp only
      split
      · next l hl =>
          have hmem : l ∈ ((some (p, g)).bind fun q => q.2.coordinates).toList :=
            Option.mem_toList.mpr hl
          have hnew : ∀ i ∈ id :: o.children.values, i ∉ [l] := fun i hi hil =>
            hdisjoint i hi l hmem (List.mem_singleton.mp hil)
          have hl' := (hr.canRetuple (List.mem_append_right _ hmem)).retupleAll
            fun hi => hnew l hi (List.mem_singleton_self l)
          rw [on_bind, retuple_on hl', retupleAll_append hnew, hl]
          rfl
      · next hnone =>
          rw [hnone, Option.toList_none, List.append_nil]
          rfl

/-- A resizing that is carried out resizes the matrix and all that follows it. -/
theorem resizeMatrix_eq_ok (h : WellFormed t) (hok : (resizeMatrix path shape).on t = (.ok (), u)) :
    ∃ id o owner, t.idOf? path = some id ∧ t.Resizable shape id o owner ∧
      u = t.resized shape id o owner := by
  rw [resizeMatrix, ask_bind_eq_ok] at hok
  obtain ⟨id, hid, hok⟩ := hok
  rw [ask_bind_eq_ok] at hok
  obtain ⟨o, ho, hok⟩ := hok
  obtain ⟨id', hid', ho⟩ := objectAt_eq_ok.mp ho
  cases Option.some.inj ((resolve_eq_ok.mp hid).symm.trans hid')
  split at hok
  · cases hok
  · next hkind =>
      simp only [ask_bind_eq_ok] at hok
      obtain ⟨_, hshape, _, hchildren, owner, howner, hok⟩ := hok
      have hr := resizable_of_checks ho (not_not.mp hkind) hshape hchildren howner
      cases (follow_on h hr).symm.trans hok
      exact ⟨id, o, owner, hid', hr, rfl⟩

theorem resizeMatrix_allOrNothing (h : WellFormed t) :
    (resizeMatrix path shape).AllOrNothing t := by
  refine .ask_bind fun id hid => .ask_bind fun o ho => .ite (fun _ => .throw) fun hkind => ?_
  refine .ask_bind fun _ hshape => .ask_bind fun _ hchildren => .ask_bind fun owner howner => ?_
  obtain ⟨id', hid', ho⟩ := objectAt_eq_ok.mp ho
  cases Option.some.inj ((resolve_eq_ok.mp hid).symm.trans hid')
  have hr := resizable_of_checks ho (not_not.mp hkind) hshape hchildren howner
  exact Succeeds.allOrNothing ⟨_, _, follow_on h hr⟩

end Edit

end FilterTree
