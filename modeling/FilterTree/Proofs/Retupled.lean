import FilterTree.Proofs.Batch
import FilterTree.Proofs.Places

/-!
# What resizing a matrix takes and what it does

A matrix takes a new tuple shape together with all that has to follow it: the arrays and lists in
it, the geometry whose element data it holds, and the coordinates of that geometry. Everything that
can go wrong is checked before the first of them is touched, and the checks are about shapes only.
So whether a matrix takes a shape is a condition on the shape, on the components of the arrays that
follow, and on the rank of the owner (`Takes`), and it is no more and no less than what the checks
ask for.

When it does take it, `Retupled` says of every object what has become of it. Each array and each
list is resized by itself, and there the tuples are kept one by one, as resizing a store keeps them.
A geometry follows only the matrix that it names: where its slot has been emptied, it is left alone
like any other object.
-/

namespace FilterTree

/-! ## Bodies that follow -/

namespace Body

variable {shape : Shape} {b : Body}

/-- An array or a list, and what becomes of it when its tuples take another shape. -/
def Resized (shape : Shape) : Body → Body → Prop
  | array a, b => ∃ s, b = array { a with store := s } ∧
      a.store.Resized shape a.elementType.zero s
  | list l, b => ∃ s, b = list { l with store := s } ∧ l.store.Resized shape s
  | group, _ | matrix _, _ | geometry _, _ => False

theorem CanRetuple.resized_array {a : DataArray} (h : (Body.array a).CanRetuple shape)
    (hs : a.store.Sound) : (Body.array a).Resized shape ((Body.array a).retupled shape) := by
  obtain ⟨s, hs', heq⟩ := h.array
  exact ⟨s, heq, hs.resized hs'⟩

theorem CanRetuple.resized (h : b.CanRetuple shape) (hsound : b.Sound) {old : Shape}
    (hfits : b.HasTuples old) : b.Resized shape (b.retupled shape) := by
  cases b with
  | array a => exact h.resized_array hsound
  | list l =>
      obtain ⟨s, hs', heq⟩ := h.list
      exact ⟨s, heq, ListStore.Sound.resized hsound hs'⟩
  | group | matrix _ | geometry _ => cases hfits

theorem CanRetuple.resized_coordinates (h : b.CanRetuple shape) (hsound : b.Sound) {old : Shape}
    (hfits : b.HasCoordinates old) : b.Resized shape (b.retupled shape) := by
  cases b with
  | array a => exact h.resized_array hsound
  | list _ | group | matrix _ | geometry _ => cases hfits

theorem canRetuple_iff (hshape : shape.size?.isSome) :
    b.CanRetuple shape ↔
      ∀ a, b = .array a → (shape.elementCount? a.store.componentShape).isSome := by
  constructor
  · rintro h a rfl
    obtain ⟨s, hs, -⟩ := h.array
    obtain ⟨n, hn, -⟩ := DenseStore.resizeTuples_eq_ok.mp hs
    exact Option.isSome_of_eq_some hn
  · intro h
    cases b with
    | array a => exact canRetuple_array (h a rfl)
    | list l => exact canRetuple_list hshape
    | group | matrix _ | geometry _ => exact ⟨_, rfl⟩

end Body

namespace Geometry

/-- Number of dimensions of the matrix of element data. -/
def rank : Geometry → Nat
  | image .. => 3
  | vertex .. => 1

/-- A geometry and what becomes of it when its elements take another shape. -/
def Followed (shape : Shape) : Geometry → Geometry → Prop
  | image _ spacing origin cellData, g =>
    ∃ dimensions, g = image dimensions spacing origin cellData ∧
      dimensions.toList = shape.reverse
  | vertex _ vertexData coordinates, g =>
    ∃ count, g = vertex count vertexData coordinates ∧ [count] = shape

theorem resized?_isSome {g : Geometry} {shape : Shape} :
    (g.resized? shape).isSome ↔ shape.length = g.rank := by
  unfold resized?
  split
  · exact iff_of_true rfl rfl
  · exact iff_of_true rfl rfl
  · next himage hvertex =>
      refine iff_of_false Bool.false_ne_true fun hlength => ?_
      cases g with
      | image dimensions spacing origin cellData =>
          obtain ⟨z, y, x, rfl⟩ := List.length_eq_three.mp hlength
          exact himage _ _ _ _ _ _ _ rfl rfl
      | vertex count vertexData coordinates =>
          obtain ⟨n, rfl⟩ := List.length_eq_one_iff.mp hlength
          exact hvertex _ _ _ _ rfl rfl

theorem followed_of_resized? {g g' : Geometry} {shape : Shape} (h : g.resized? shape = some g') :
    g.Followed shape g' := by
  unfold resized? at h
  split at h
  · cases h
    exact ⟨_, rfl, rfl⟩
  · cases h
    exact ⟨_, rfl, rfl⟩
  · cases h

end Geometry

theorem Object.matrix_iff (o : Object) :
    o.kind = .attributeMatrix ↔ ∃ old, o.body = .matrix old := by
  rw [Object.kind]
  cases o.body with
  | matrix old => exact iff_of_true rfl ⟨old, rfl⟩
  | geometry g => cases g <;> simp [Body.kind, Geometry.kind]
  | group | array _ | list _ => simp [Body.kind]

namespace Tree

variable {t u : Tree} {path : Path} {shape : Shape} {id : ObjectId} {o : Object}

/-! ## What it takes -/

/-- If the object is an array, its elements can be counted for the tuple shape. -/
def Counts (t : Tree) (shape : Shape) (id : ObjectId) : Prop :=
  ∀ {o a}, t.object? id = some o → o.body = .array a →
    (shape.elementCount? a.store.componentShape).isSome

/-- Object `p` is the geometry above the matrix `id`, and the matrix holds its element data. -/
structure Owns (t : Tree) (p : ObjectId) (q : Object) (g : Geometry) (id : ObjectId) (o : Object) :
    Prop where
  above : o.parent = some p
  found : t.object? p = some q
  geometry : q.body = .geometry g
  element : g.elementData = some id

/-- What a shape has to be so that a matrix can take it, with all that follows it. -/
structure Takes (t : Tree) (shape : Shape) (id : ObjectId) (o : Object) : Prop where
  matrix : o.kind = .attributeMatrix
  counted : shape.size?.isSome
  children : ∀ {c p}, t.object? c = some p → p.parent = some id → t.Counts shape c
  rank : ∀ {p q g}, t.Owns p q g id o → shape.length = g.rank
  coordinates : ∀ {p q g l}, t.Owns p q g id o → g.coordinates = some l → t.Counts shape l

theorem counts_iff (hshape : shape.size?.isSome) : t.Counts shape id ↔ t.CanRetuple shape id := by
  constructor
  · intro h o ho
    exact (Body.canRetuple_iff hshape).mpr fun a ha => h ho ha
  · intro h o a ho ha
    exact (Body.canRetuple_iff hshape).mp (h o ho) a ha

theorem owner?_iff {p : ObjectId} {g : Geometry} :
    t.owner? id o.parent = some (p, g) ↔ ∃ q, t.Owns p q g id o := by
  rw [owner?_eq_some]
  constructor
  · rintro ⟨hparent, q, hq, hbody, hdata⟩
    exact ⟨q, hparent, hq, hbody, hdata⟩
  · rintro ⟨q, hparent, hq, hbody, hdata⟩
    exact ⟨hparent, q, hq, hbody, hdata⟩

theorem mem_children_values (h : WellFormed t) (ho : t.object? id = some o) {c : ObjectId} :
    c ∈ o.children.values ↔ ∃ p, t.object? c = some p ∧ p.parent = some id := by
  have hlinks : c ∈ o.children.values ↔ ∃ name, t.links (some id) name = some c := by
    simp only [SortedMap.mem_values_iff, links, ho, Option.bind_some]
  rw [hlinks]
  constructor
  · rintro ⟨name, hname⟩
    obtain ⟨p, hp, hparent, -⟩ := h.stored hname
    exact ⟨p, hp, hparent⟩
  · rintro ⟨p, hp, hparent⟩
    exact ⟨p.name, hparent ▸ h.listed hp⟩

theorem Takes.follows (ht : t.Takes shape id o) :
    ∃ owner, t.Follows id o.parent shape owner := by
  cases howner : t.owner? id o.parent with
  | none => exact ⟨none, howner⟩
  | some pg =>
      obtain ⟨p, g⟩ := pg
      obtain ⟨q, hq⟩ := owner?_iff.mp howner
      obtain ⟨g', hg'⟩ :=
        Option.isSome_iff_exists.mp (Geometry.resized?_isSome.mpr (ht.rank hq))
      exact ⟨some (p, g'), g, howner, hg', fun l hl =>
        (counts_iff ht.counted).mp (ht.coordinates hq hl)⟩

theorem Follows.of_owns {owner : Option (ObjectId × Geometry)} {p : ObjectId} {q : Object}
    {g : Geometry} (h : t.Follows id o.parent shape owner) (hq : t.Owns p q g id o) :
    ∃ g', owner = some (p, g') ∧ g.resized? shape = some g' ∧
      ∀ l, g.coordinates = some l → t.CanRetuple shape l := by
  have howner := owner?_iff.mpr ⟨q, hq⟩
  cases owner with
  | none => cases h.symm.trans howner
  | some pg =>
      obtain ⟨g₀, hg₀, hresized, hcan⟩ := h
      cases hg₀.symm.trans howner
      exact ⟨pg.2, rfl, hresized, hcan⟩

theorem takes_iff (h : WellFormed t) (ho : t.object? id = some o) :
    t.Takes shape id o ↔ ∃ owner, t.Resizable shape id o owner := by
  constructor
  · intro ht
    obtain ⟨owner, hfollows⟩ := ht.follows
    refine ⟨owner, ho, o.matrix_iff.mp ht.matrix, ht.counted, fun c hc => ?_, hfollows⟩
    obtain ⟨p, hp, hparent⟩ := (mem_children_values h ho).mp hc
    exact (counts_iff ht.counted).mp (ht.children hp hparent)
  · rintro ⟨owner, hr⟩
    refine ⟨o.matrix_iff.mpr hr.matrix, hr.counted, fun hp hparent => ?_, fun hq => ?_,
      fun hq hl => ?_⟩
    · exact (counts_iff hr.counted).mpr
        (hr.children _ ((mem_children_values h ho).mpr ⟨_, hp, hparent⟩))
    · obtain ⟨g', -, hg', -⟩ := hr.follows.of_owns hq
      exact Geometry.resized?_isSome.mp (Option.isSome_of_eq_some hg')
    · obtain ⟨g', -, -, hcan⟩ := hr.follows.of_owns hq
      exact (counts_iff hr.counted).mpr (hcan _ hl)

theorem checkResize_of_canRetuple {path : Path} (h : t.CanRetuple shape id) :
    t.checkResize path shape id = .ok () := by
  rw [checkResize]
  cases ho : t.object? id with
  | none => rfl
  | some o =>
      rw [Option.map_some]
      split
      · next a ha =>
          obtain ⟨s, hs, -⟩ := (Option.some.inj ha ▸ h o ho).array
          obtain ⟨n, hn, -⟩ := DenseStore.resizeTuples_eq_ok.mp hs
          rw [Shape.elementCount, hn]
          rfl
      · rfl

theorem checkOwner_of_follows {path : Path} {parent : Option ObjectId}
    {owner : Option (ObjectId × Geometry)} (h : t.Follows id parent shape owner) :
    t.checkOwner path id parent shape = .ok owner := by
  rw [checkOwner.eq_def]
  cases owner with
  | none =>
      rw [h]
      rfl
  | some pg =>
      obtain ⟨g, hg, hresized, hcan⟩ := h
      rw [hg]
      dsimp only
      rw [hresized]
      dsimp only
      cases hl : g.coordinates with
      | none => rfl
      | some l =>
          dsimp only
          rw [checkResize_of_canRetuple (hcan l hl)]
          rfl

/-! ## What it does -/

/--
A matrix has taken a shape, and with it everything in it, the geometry it belongs to and the
coordinates of that. Nothing else has changed, and no link has.
-/
structure Retupled (t : Tree) (shape : Shape) (id : ObjectId) (o : Object) (u : Tree) : Prop where
  roots : u.roots = t.roots
  nextId : u.nextId = t.nextId
  matrix : u.object? id = some { o with body := .matrix shape }
  child : ∀ {c p}, t.object? c = some p → p.parent = some id →
    ∃ b, u.object? c = some { p with body := b } ∧ p.body.Resized shape b
  owner : ∀ {p q g}, t.Owns p q g id o →
    ∃ g', u.object? p = some { q with body := .geometry g' } ∧ g.Followed shape g'
  coordinates : ∀ {p q g l}, t.Owns p q g id o → g.coordinates = some l →
    ∃ c b, t.object? l = some c ∧ u.object? l = some { c with body := b } ∧ c.body.Resized shape b
  unowned : ∀ {p q g}, o.parent = some p → t.object? p = some q → q.body = .geometry g →
    g.elementData ≠ some id → u.object? p = some q
  others : ∀ {i}, i ≠ id → (∀ p, t.object? i = some p → p.parent ≠ some id) →
    (∀ q g, ¬ t.Owns i q g id o) → (∀ p q g, t.Owns p q g id o → g.coordinates ≠ some i) →
    u.object? i = t.object? i

section resized

variable {owner : Option (ObjectId × Geometry)}

theorem object?_resized {i : ObjectId} {p : Object} (hp : t.object? i = some p) :
    (t.resized shape id o owner).object? i =
      some { p with body := follow shape (touched id o owner) owner i p.body } :=
  object?_mapBodies_of_some hp

theorem object?_resized_of_apart {i : ObjectId} (hi : i ∉ touched id o owner)
    (hne : ∀ g, owner ≠ some (i, g)) :
    (t.resized shape id o owner).object? i = t.object? i := by
  cases hp : t.object? i with
  | none => rw [resized, object?_mapBodies, hp, Option.map_none]
  | some p =>
      rw [object?_resized hp]
      rcases @follow_cases shape id o owner i p.body with ⟨g, howner, -⟩ | ⟨-, ⟨hin, -⟩ | ⟨-, heq⟩⟩
      · exact absurd howner (hne g)
      · exact absurd hin hi
      · rw [heq]

theorem Resizable.owns {p : ObjectId} {g' : Geometry}
    (hr : t.Resizable shape id o (some (p, g'))) :
    ∃ q g, t.Owns p q g id o ∧ g.resized? shape = some g' ∧ g'.coordinates = g.coordinates := by
  obtain ⟨q, g, hq, hg, hparent, hdata, hresized⟩ := hr.owner
  exact ⟨q, g, ⟨hparent, hq, hg, hdata⟩, hresized, (Geometry.resized?_eq_some hresized).2.2.2⟩

theorem Resizable.retupled (h : WellFormed t) (hr : t.Resizable shape id o owner) :
    t.Retupled shape id o (t.resized shape id o owner) where
  roots := rfl
  nextId := rfl
  matrix := by
    obtain ⟨old, hold⟩ := hr.matrix
    rw [object?_resized hr.found, hr.follow_of_touched hr.found
      (fun g hg => by rw [hold] at hg; cases hg) List.mem_cons_self, hold]
    rfl
  child {c p} hp hparent := by
    obtain ⟨old, hold⟩ := hr.matrix
    have hlink := hparent ▸ h.listed hp
    have hfits := h.fitting hr.found hold hlink hp
    have hc : c ∈ touched id o owner :=
      List.mem_append_left _ (List.mem_cons_of_mem _ (hr.mem_children.mpr ⟨p.name, hlink⟩))
    refine ⟨_, object?_resized hp, ?_⟩
    rw [hr.follow_of_touched hp (fun g hg => by rw [hg] at hfits; exact hfits) hc]
    exact (hr.canRetuple hc p hp).resized (h.sound hp) hfits
  owner {p q g} hq := by
    obtain ⟨g', rfl, hg', -⟩ := hr.follows.of_owns hq
    refine ⟨g', ?_, Geometry.followed_of_resized? hg'⟩
    rw [object?_resized hq.found, follow, if_pos rfl]
  coordinates {p q g l} hq hl := by
    obtain ⟨g', rfl, hg', hcan⟩ := hr.follows.of_owns hq
    obtain ⟨c, hc, -, hhas⟩ := (h.slotted hq.found hq.geometry).coordinates hl
    have hl' : g'.coordinates = some l := (Geometry.resized?_eq_some hg').2.2.2.trans hl
    refine ⟨c, _, hc, object?_resized hc, ?_⟩
    rw [hr.follow_of_touched hc (fun g hg => by rw [hg] at hhas; exact hhas)
      (List.mem_append_right _ (Option.mem_toList.mpr hl'))]
    exact (hcan l hl c hc).resized_coordinates (h.sound hc) hhas
  unowned {p q g} hparent hq hg hne := by
    refine (object?_resized_of_apart (fun hmem => ?_) fun g' howner => ?_).trans hq
    · exact hr.not_geometry_of_touched h hq hmem hg
    · -- An owner has the matrix in its slot, and `p` has not.
      subst howner
      obtain ⟨q', g₀, hown, -⟩ := hr.owns
      cases Option.some.inj (hq.symm.trans hown.found)
      cases hg.symm.trans hown.geometry
      exact hne hown.element
  others {i} hi hchild hown hcoordinates := by
    -- The matrix, its children and the coordinates are all that is touched; the owner is apart.
    refine object?_resized_of_apart (fun hmem => ?_) fun g' howner => ?_
    · rcases List.mem_append.mp hmem with hmem | hmem
      · rcases List.mem_cons.mp hmem with rfl | hmem
        · exact hi rfl
        · obtain ⟨p, hp, hparent⟩ := (mem_children_values h hr.found).mp hmem
          exact hchild p hp hparent
      · obtain ⟨⟨p, g'⟩, rfl, hl⟩ := Option.bind_eq_some_iff.mp (Option.mem_toList.mp hmem)
        obtain ⟨q, g, hq, hg', hslot⟩ := hr.owns
        exact hcoordinates p q g hq (hslot ▸ hl)
    · subst howner
      obtain ⟨q, g, hq, -⟩ := hr.owns
      exact hown q g hq

end resized

end Tree

namespace Edit

open FilterTree.Tree

variable {t u : Tree} {path : Path} {shape : Shape}

theorem resizeMatrix_on (h : WellFormed t) {id : ObjectId} {o : Object}
    {owner : Option (ObjectId × Geometry)} (hid : t.idOf? path = some id)
    (hr : t.Resizable shape id o owner) :
    (resizeMatrix path shape).on t = (.ok (), t.resized shape id o owner) := by
  have hchildren : o.children.values.forM (t.checkResize path shape) = .ok () :=
    check_forM_eq_ok.mpr fun c hc => checkResize_of_canRetuple (hr.children c hc)
  rw [resizeMatrix, on_ask_bind, resolve_eq_ok.mpr hid]
  dsimp only
  rw [on_ask_bind, objectAt_eq_ok.mpr ⟨id, hid, hr.found⟩]
  dsimp only
  rw [if_neg (not_not.mpr (o.matrix_iff.mpr hr.matrix)), on_ask_bind,
    checkShape_eq_ok.mpr hr.counted]
  dsimp only
  rw [on_ask_bind, hchildren]
  dsimp only
  rw [on_ask_bind, checkOwner_of_follows hr.follows]
  exact follow_on h hr

end Edit

namespace Tree

/--
A matrix is resized exactly if it takes the shape with all that follows it, and then all of that has
followed and nothing else.
-/
theorem WellFormed.matrix_resizing {t : Tree} (h : WellFormed t) (path : Path) (shape : Shape) :
    ((Edit.resizeMatrix path shape).Succeeds t ↔
      ∃ id o, t.idOf? path = some id ∧ t.object? id = some o ∧ t.Takes shape id o) ∧
    ∀ u, (Edit.resizeMatrix path shape).on t = (.ok (), u) →
      ∃ id o, t.idOf? path = some id ∧ t.object? id = some o ∧ t.Retupled shape id o u := by
  refine ⟨⟨?_, ?_⟩, fun u hok => ?_⟩
  · rintro ⟨_, u, hok⟩
    obtain ⟨id, o, owner, hid, hr, -⟩ := Edit.resizeMatrix_eq_ok h hok
    exact ⟨id, o, hid, hr.found, (takes_iff h hr.found).mpr ⟨owner, hr⟩⟩
  · rintro ⟨id, o, hid, ho, htakes⟩
    obtain ⟨owner, hr⟩ := (takes_iff h ho).mp htakes
    exact ⟨(), _, Edit.resizeMatrix_on h hid hr⟩
  · obtain ⟨id, o, owner, hid, hr, rfl⟩ := Edit.resizeMatrix_eq_ok h hok
    exact ⟨id, o, hid, hr.found, hr.retupled h⟩

/-- The vertex data of a cloud takes three tuples, and its count and its coordinates follow. -/
theorem matrix_resizing_cloud :
    WellFormed cloud ∧ (Edit.resizeMatrix ⟨["cloud", "data"]⟩ [3]).Succeeds cloud ∧
      ∃ u, (Edit.resizeMatrix ⟨["cloud", "data"]⟩ [3]).on cloud = (.ok (), u) ∧
        ∃ id o, cloud.idOf? ⟨["cloud", "data"]⟩ = some id ∧ cloud.object? id = some o ∧
          cloud.Takes [3] id o ∧ cloud.Retupled [3] id o u := by
  obtain ⟨hiff, heffect⟩ := wellFormed_cloud.matrix_resizing ⟨["cloud", "data"]⟩ [3]
  have hok : (Edit.resizeMatrix ⟨["cloud", "data"]⟩ [3]).Succeeds cloud := ⟨(), _, rfl⟩
  obtain ⟨id, o, hid, ho, htakes⟩ := hiff.mp hok
  obtain ⟨id', o', hid', ho', hretupled⟩ := heffect _ rfl
  cases Option.some.inj (hid.symm.trans hid')
  cases Option.some.inj (ho.symm.trans ho')
  exact ⟨wellFormed_cloud, hok, _, rfl, id, o, hid, ho, htakes, hretupled⟩

end Tree

end FilterTree
