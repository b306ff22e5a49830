import FilterTree.Proofs.Deletion
import FilterTree.Proofs.OneShot

/-!
# What deletions leave

A selection of objects to delete can name an object twice, can name something
below another selected object, and comes in some order. Nothing of this can be
seen in the tree that is left. A deletion changes an object that stays in two
respects only: its children are fewer, and if it is a geometry, slots for what
is gone are empty. Both are determined by which objects are still there, so a
tree of which the paths that lead somewhere are known is known altogether
(`Remnant.unique`), and one deletion after the other gives remnants of remnants.

What a plan keeps of a selection is therefore judged by the paths it leads to.
No kept path lies below another, and above every selected path, or at it, there
is a kept one: going from a path to the reason why it is left out leads to a
shorter path, or to an earlier place in the list.
-/

namespace FilterTree

/-! ## Slots for what stays -/

/-- The geometry without the slots for objects that do not stay. -/
def Geometry.keeping (stays : ObjectId → Bool) : Geometry → Geometry
  | image dimensions spacing origin cellData =>
    image dimensions spacing origin (cellData.filter stays)
  | vertex count vertexData coordinates =>
    vertex count (vertexData.filter stays) (coordinates.filter stays)

/-- The body without slots for objects that do not stay. -/
def Body.keeping (stays : ObjectId → Bool) : Body → Body
  | geometry g => geometry (g.keeping stays)
  | body => body

namespace Geometry

variable {g : Geometry} {stays later : ObjectId → Bool} {id : ObjectId}

theorem keeping_keeping (h : ∀ i, later i = true → stays i = true) :
    (g.keeping stays).keeping later = g.keeping later := by
  have hboth : (fun i => stays i && later i) = later := by
    funext i
    cases hi : later i with
    | false => exact Bool.and_false _
    | true => rw [h i hi, Bool.and_self]
  cases g <;> simp only [keeping, Option.filter_filter, hboth]

/-- Only what becomes of the objects in its slots matters to a geometry. -/
theorem keeping_congr
    (h : ∀ m, g.elementData = some m ∨ g.coordinates = some m → stays m = later m) :
    g.keeping stays = g.keeping later := by
  have hslot : ∀ slot : Option ObjectId, (∀ m, slot = some m → stays m = later m) →
      slot.filter stays = slot.filter later := by
    intro slot hslot
    cases slot with
    | none => rfl
    | some m => simp only [Option.filter_some, hslot m rfl]
  cases g with
  | image d s o c => rw [keeping, keeping, hslot c fun m hm => h m (.inl hm)]
  | vertex n v l =>
      rw [keeping, keeping, hslot v fun m hm => h m (.inl hm), hslot l fun m hm => h m (.inr hm)]

theorem keeping_all : g.keeping (fun _ => true) = g := by
  have hslot : ∀ slot : Option ObjectId, slot.filter (fun _ => true) = slot := by
    rintro (_ | m) <;> rfl
  cases g <;> simp only [keeping, hslot]

theorem keeping_all_but : g.keeping (· != id) = g.forget id := by
  have hslot : ∀ slot : Option ObjectId, slot.filter (· != id) = clearSlot id slot := by
    intro slot
    cases slot <;> simp [clearSlot, Option.filter, apply_ite]
  cases g <;> simp only [keeping, forget, hslot]

end Geometry

namespace Tree

open Links

variable {t u v : Tree}

/-- Whether there is an object of a number. -/
def stays (t : Tree) (id : ObjectId) : Bool := (t.object? id).isSome

theorem stays_iff {id : ObjectId} : t.stays id = true ↔ t.Has (some id) :=
  Option.isSome_iff_exists

/-! ## Remnants -/

/--
What is left of a tree: some of its objects, each with its name, its parent and
its payload, but that a geometry has lost the slots for objects that are gone.
-/
structure Remnant (t u : Tree) : Prop where
  nextId : u.nextId = t.nextId
  objects : ∀ {i p}, u.object? i = some p →
    ∃ o, t.object? i = some o ∧ p.name = o.name ∧ p.parent = o.parent ∧
      p.body = o.body.keeping u.stays

/-- What is in a slot of a geometry is a child of it. -/
theorem Slotted.child {i m : ObjectId} {g : Geometry} (h : t.Slotted i g)
    (hm : g.elementData = some m ∨ g.coordinates = some m) :
    ∃ c, t.object? m = some c ∧ c.parent = some i := by
  rcases hm with hm | hm
  · obtain ⟨c, hc, hparent, -⟩ := h.element hm
    exact ⟨c, hc, hparent⟩
  · obtain ⟨c, hc, hparent, -⟩ := h.coordinates hm
    exact ⟨c, hc, hparent⟩

/-- In a well-formed tree slots are for objects that are there. -/
theorem WellFormed.keeping_stays (h : WellFormed t) {i : ObjectId} {o : Object}
    (ho : t.object? i = some o) : o.body.keeping t.stays = o.body := by
  cases hbody : o.body with
  | geometry g =>
      refine congrArg Body.geometry ((Geometry.keeping_congr fun m hm => ?_).trans
        Geometry.keeping_all)
      obtain ⟨c, hc, -⟩ := (h.slotted ho hbody).child hm
      exact stays_iff.mpr ⟨c, hc⟩
  | group | matrix _ | array _ | list _ => rfl

/-- A child of an object that stays goes only if it is itself what is removed. -/
theorem WellFormed.child_mem_subtree (h : WellFormed t) {id i m : ObjectId} {c : Object}
    (hid : t.Has (some id)) (hi : i ∉ t.subtree t.size id) (hc : t.object? m = some c)
    (hparent : c.parent = some i) : m ∈ t.subtree t.size id ↔ m = id := by
  rw [mem_subtree_iff h.toLinked hid] at hi ⊢
  constructor
  · intro hbelow
    rcases Below.parent h.toLinked hbelow (h.listed hc) with rfl | ⟨q, hq, hb⟩
    · rfl
    · cases hparent.symm.trans hq
      exact absurd hb hi
  · rintro rfl
    exact .refl

theorem stays_prune {place : Option ObjectId} {name : String} {gone : List ObjectId}
    {m : ObjectId} {c : Object} (hc : t.object? m = some c) :
    (t.prune place name gone).stays m = true ↔ m ∉ gone := by
  rw [stays_iff]
  refine ⟨fun ⟨d, hd⟩ => (prune_eq_some hd).1, fun hm => ?_⟩
  obtain ⟨d, hd, -⟩ := object?_prune_of_some hc hm
  exact ⟨d, hd⟩

namespace Remnant

theorem refl (h : WellFormed t) : t.Remnant t where
  nextId := rfl
  objects := fun {_ p} hp => ⟨p, hp, rfl, rfl, (h.keeping_stays hp).symm⟩

theorem stays (hr : t.Remnant u) {i : ObjectId} (hi : u.stays i = true) : t.stays i = true := by
  obtain ⟨p, hp⟩ := stays_iff.mp hi
  obtain ⟨o, ho, -⟩ := hr.objects hp
  exact stays_iff.mpr ⟨o, ho⟩

theorem trans (hr : t.Remnant u) (hs : u.Remnant v) : t.Remnant v where
  nextId := hs.nextId.trans hr.nextId
  objects := fun hq => by
    obtain ⟨p, hp, hname, hparent, hbody⟩ := hs.objects hq
    obtain ⟨o, ho, hname', hparent', hbody'⟩ := hr.objects hp
    refine ⟨o, ho, hname.trans hname', hparent.trans hparent', hbody.trans ?_⟩
    rw [hbody']
    cases o.body with
    | geometry g => exact congrArg Body.geometry (Geometry.keeping_keeping fun i => hs.stays)
    | group | matrix _ | array _ | list _ => rfl

/-- A removal leaves a remnant. -/
theorem of_remove {path : Path} {n : Nat} (h : WellFormed t)
    (hok : (Edit.remove path).on t = (.ok n, u)) : t.Remnant u := by
  obtain ⟨id, o, -, ho, rfl, -⟩ := (Edit.remove_eq_ok_iff h.toLinked).mp hok
  constructor
  · show ((t.release o.parent id).detachName o.parent o.name).nextId = t.nextId
    rw [detachName, nextId_modifyChildren]
    rfl
  · intro i p hp
    obtain ⟨hi, q, hq, hname, hparent, hbody, -⟩ := prune_eq_some hp
    obtain ⟨r, hr, rfl⟩ := release_eq_some hq
    refine ⟨r, hr, hname, hparent, hbody.trans ?_⟩
    dsimp only
    cases hg : r.body with
    | geometry g =>
        have hslot : ∀ m, g.elementData = some m ∨ g.coordinates = some m →
            ∃ c, t.object? m = some c ∧ c.parent = some i ∧
              (((t.release o.parent id).prune o.parent o.name (t.subtree t.size id)).stays m =
                true ↔ m ≠ id) := by
          intro m hm
          obtain ⟨c, hc, hcparent⟩ := (h.slotted hr hg).child hm
          refine ⟨c, hc, hcparent, ?_⟩
          exact (stays_prune (t := t.release o.parent id) (object?_mapBodies_of_some hc)).trans
            (not_congr (h.child_mem_subtree ⟨o, ho⟩ hi hc hcparent))
        split
        · refine congrArg Body.geometry (Geometry.keeping_all_but.symm.trans ?_)
          refine Geometry.keeping_congr fun m hm => ?_
          obtain ⟨-, -, -, hstays⟩ := hslot m hm
          rw [Bool.eq_iff_iff, bne_iff_ne, hstays]
        · next hplace =>
            -- the removed object was a child of another one
            refine congrArg Body.geometry (Geometry.keeping_all.symm.trans ?_)
            refine Geometry.keeping_congr fun m hm => ?_
            obtain ⟨c, hc, hcparent, hstays⟩ := hslot m hm
            refine (hstays.mpr ?_).symm
            rintro rfl
            cases Option.some.inj (hc.symm.trans ho)
            exact hplace hcparent
    | group | matrix _ | array _ | list _ => split <;> rfl

/-- Two remnants in which the same paths lead somewhere are the same tree. -/
theorem unique (hu : t.Remnant u) (hv : t.Remnant v) (hlu : Linked u) (hlv : Linked v)
    (h : ∀ r, u.idOf? r = v.idOf? r) : u = v := by
  have hhas : ∀ {u v : Tree}, Linked u → Linked v → (∀ r, u.idOf? r = v.idOf? r) →
      ∀ {i}, u.Has (some i) → v.Has (some i) := by
    rintro u v hlu hlv h i ⟨p, hp⟩
    obtain ⟨path, hpath⟩ := hlu.reached hp
    exact hlv.object_of_idOf? ((h path).symm.trans hpath)
  have hlinks : ∀ {place : Option ObjectId}, u.Has place → ∀ name,
      u.links place name = v.links place name := by
    intro place hplace name
    obtain ⟨names, hnu, hnv⟩ : ∃ names, u.links.walk none names = some place ∧
        v.links.walk none names = some place := by
      cases place with
      | none => exact ⟨[], rfl, rfl⟩
      | some i =>
          obtain ⟨p, hp⟩ := hplace
          obtain ⟨path, hpath⟩ := hlu.reached hp
          exact ⟨path.names, idOf?_eq_some.mp hpath, idOf?_eq_some.mp ((h path).symm.trans hpath)⟩
    have hchild := h (Path.child ⟨names⟩ name)
    rw [idOf?_eq, idOf?_eq, Path.child, walk_concat, walk_concat, hnu, hnv, Option.bind_some,
      Option.bind_some] at hchild
    cases hx : u.links place name <;> cases hy : v.links place name <;> simp_all
  have hstays : u.stays = v.stays := by
    funext i
    rw [Bool.eq_iff_iff, stays_iff, stays_iff]
    exact ⟨hhas hlu hlv h, hhas hlv hlu fun r => (h r).symm⟩
  refine ext_object? (fun i => ?_) (SortedMap.ext_get? (@hlinks none trivial)) ?_
  · cases hp : u.object? i with
    | none =>
        cases hq : v.object? i with
        | none => rfl
        | some q =>
            obtain ⟨p, hp'⟩ := hhas hlv hlu (fun r => (h r).symm) ⟨q, hq⟩
            cases hp.symm.trans hp'
    | some p =>
        obtain ⟨q, hq⟩ := hhas hlu hlv h ⟨p, hp⟩
        obtain ⟨o, ho, hname, hparent, hbody⟩ := hu.objects hp
        obtain ⟨o', ho', hname', hparent', hbody'⟩ := hv.objects hq
        cases Option.some.inj (ho.symm.trans ho')
        have hchildren : p.children = q.children := by
          refine SortedMap.ext_get? fun name => ?_
          have := @hlinks (some i) ⟨p, hp⟩ name
          rwa [links, links, hp, hq] at this
        rw [hq]
        cases p
        cases q
        simp_all
  · exact hu.nextId.trans hv.nextId.symm

end Remnant

end Tree

/-! ## Deletions in a row -/

namespace Batch

open FilterTree.Tree

variable {mode : Mode} {t u : Tree} {paths : List Path}

/-- Deletions leave a remnant, and in it what none of their paths leads to. -/
theorem Carries.deletes (hc : Carries mode (paths.map Action.delete) t u) (h : WellFormed t) :
    t.Remnant u ∧ ∀ r, u.idOf? r = if paths.any (·.leadsTo r) then none else t.idOf? r := by
  induction paths generalizing t with
  | nil =>
      cases hc
      exact ⟨.refl h, fun _ => rfl⟩
  | cons p paths ih =>
      cases hc with
      | cons ha hrest =>
          obtain ⟨n, v, hremove, heq⟩ := Edit.bind_eq_ok.mp ha
          cases heq
          obtain ⟨hremnant, hpaths⟩ := ih hrest (((Action.delete p).makes h _ _ ha).wellFormed h)
          refine ⟨(Remnant.of_remove h hremove).trans hremnant, fun r => ?_⟩
          rw [hpaths, Edit.idOf?_of_remove h hremove, List.any_cons]
          cases p.leadsTo r <;> cases paths.any (·.leadsTo r) <;> rfl

end Batch

/-! ## The selection and its plan -/

theorem Path.leadsTo_refl {p : Path} : p.leadsTo p = true :=
  List.isPrefixOf_iff_prefix.mpr List.prefix_rfl

theorem Path.leadsTo_trans {p q r : Path} (hpq : p.leadsTo q = true) (hqr : q.leadsTo r = true) :
    p.leadsTo r = true :=
  Tree.leadsTo_iff.mpr ((Tree.leadsTo_iff.mp hpq).trans (Tree.leadsTo_iff.mp hqr))

/-- An ancestor leads here, and its path is shorter. -/
theorem Path.isAncestorOf_iff {p q : Path} :
    p.isAncestorOf q = true ↔ p.leadsTo q = true ∧ p.names.length < q.names.length := by
  rw [isAncestorOf, below?, leadsTo]
  split
  · next h =>
      have hle := (List.isPrefixOf_iff_prefix.mp h).length_le
      simp only [Option.any_some, Bool.not_eq_true', List.isEmpty_eq_false_iff, h, true_and,
        ← List.length_pos_iff, List.length_drop]
      omega
  · next h => simp [h]

namespace Builtin.Delete

open FilterTree.Tree

variable {args bound : Arguments} {paths : List Path} {t : Tree} {run : Run} {batch : Batch}

/-- Arguments select objects: they bind, and these are the paths they bind to. -/
def Selects (args : Arguments) (paths : List Path) : Prop :=
  ∃ bound, (schema.bind args).outcome = .ok bound ∧ bound.get .paths pathsKey = .ok paths

/-- To whatever is selected a kept path leads. -/
theorem exists_kept {p : Path} {i : Nat} (hp : (p, i) ∈ paths.zipIdx) :
    ∃ q ∈ kept paths, q.leadsTo p = true := by
  by_cases hcovered : isCovered paths i p = true
  · obtain ⟨⟨other, j⟩, hmem, hreason⟩ := List.any_eq_true.mp hcovered
    simp only [Bool.and_eq_true, Bool.or_eq_true, beq_iff_eq, decide_eq_true_eq] at hreason
    rcases hreason.2 with habove | ⟨hsame, hlt⟩
    · obtain ⟨hleads, hshorter⟩ := Path.isAncestorOf_iff.mp habove
      obtain ⟨q, hq, hqp⟩ := exists_kept hmem
      exact ⟨q, hq, Path.leadsTo_trans hqp hleads⟩
    · rw [hsame] at hmem
      exact exists_kept hmem
  · exact ⟨p, List.mem_map.mpr ⟨(p, i), List.mem_filter.mpr ⟨hp, by simpa using hcovered⟩, rfl⟩,
      Path.leadsTo_refl⟩
termination_by (p.names.length, i)

/-- What is kept leads to the same paths as the selection. -/
theorem any_leadsTo_kept {r : Path} : (kept paths).any (·.leadsTo r) = paths.any (·.leadsTo r) := by
  rw [Bool.eq_iff_iff, List.any_eq_true, List.any_eq_true]
  constructor
  · rintro ⟨p, hp, hr⟩
    exact ⟨p, mem_of_mem_kept hp, hr⟩
  · rintro ⟨p, hp, hr⟩
    obtain ⟨i, hi⟩ := List.mem_iff_getElem?.mp hp
    obtain ⟨q, hq, hqp⟩ := exists_kept (List.mk_mem_zipIdx_iff_getElem?.mpr hi)
    exact ⟨q, hq, Path.leadsTo_trans hqp hr⟩

theorem checked_of_contains (hpaths : bound.get .paths pathsKey = .ok paths)
    (hfound : ∀ p ∈ paths, t.contains p = true) :
    (schema.checkBefore bound t).outcome = .ok () := by
  obtain ⟨value, hvalue, htake⟩ := Arguments.get_eq_ok.mp hpaths
  refine Schema.checkTree_eq_ok.mpr fun p hp _ _ => Schema.selectionFailure?_eq_none.mpr ?_
  obtain rfl : p = (Parameter.objectsSelection pathsKey "DataPaths to Remove"
      "Objects removed together with their children" []).consuming := List.mem_singleton.mp hp
  intro value' hvalue'
  cases Option.some.inj (hvalue.symm.trans hvalue')
  cases value with
  | paths found =>
      cases htake
      refine check_mapError_eq_ok.mpr (check_forM_eq_ok.mpr fun q hq => ?_)
      obtain ⟨id, hid⟩ := Option.isSome_iff_exists.mp (hfound q hq)
      exact check_bind_eq_ok.mpr ⟨id, resolve_eq_ok.mpr hid, rfl⟩
  | _ => cases htake

theorem plan_of_contains (hpaths : bound.get .paths pathsKey = .ok paths)
    (hfound : ∀ p ∈ paths, t.contains p = true) :
    ∃ q, plan bound = .ok q ∧ q.actions.outcome = .ok ((kept paths).map .delete) := by
  have hroot : paths.any Path.isRoot = false := by
    refine List.any_eq_false.mpr fun p hp hroot => ?_
    obtain ⟨id, hid⟩ := Option.isSome_iff_exists.mp (hfound p hp)
    exact names_ne_nil hid (List.isEmpty_iff.mp hroot)
  have hplan : plan bound = .ok (.ofReport ((Report.ok ((kept paths).map Action.delete)).warnAll
      ((if paths.isEmpty then [nothingSelected] else []) ++
        ((paths.zipIdx.filter fun e => isCovered paths e.2 e.1).map fun e => covered e.1)))) := by
    refine check_bind_eq_ok.mpr ⟨paths, hpaths, ?_⟩
    rw [hroot, List.partition_eq_filter_filter, kept, List.map_map]
    rfl
  exact ⟨_, hplan, rfl⟩

/-- A preflight is valid when what is selected is there, and its plan is what is kept. -/
theorem preflight_eq_ok :
    (filter.preflight t args run).1.actions.outcome = .ok batch ↔
      ∃ paths, Selects args paths ∧ (∀ p ∈ paths, t.contains p = true) ∧
        batch = (kept paths).map .delete := by
  rw [Filter.preflight_eq_ok (g := fun _ => plan) fun _ _ => rfl]
  constructor
  · rintro ⟨bound, q, hbind, hchecked, hq, hout⟩
    obtain ⟨paths, hpaths, rfl⟩ := plan_spec hq hout
    exact ⟨paths, ⟨bound, hbind, hpaths⟩, contains_of_checked hchecked hpaths, rfl⟩
  · rintro ⟨paths, ⟨bound, hbind, hpaths⟩, hfound, rfl⟩
    obtain ⟨q, hq, hout⟩ := plan_of_contains hpaths hfound
    exact ⟨bound, q, hbind, checked_of_contains hpaths hfound, hq, hout⟩

/-- Whatever is selected and is there is deleted, for trial and for good alike. -/
theorem apply_kept (mode : Mode) (h : WellFormed t) (hfound : ∀ p ∈ paths, t.contains p = true) :
    ∃ u, Batch.apply mode ((kept paths).map .delete) t = (.ok (), u) ∧ WellFormed u ∧
      t.Remnant u ∧ ∀ r, u.idOf? r = if paths.any (·.leadsTo r) then none else t.idOf? r := by
  obtain ⟨u, hu⟩ := @Batch.applyFrom_deletes mode t 0 (kept paths) h
    (fun p hp => hfound p (mem_of_mem_kept hp)) pairwise_kept
  have hcarries := Batch.carries_of_apply h hu
  obtain ⟨hremnant, hleft⟩ := hcarries.deletes h
  refine ⟨u, hu, hcarries.wellFormed h, hremnant, fun r => ?_⟩
  rw [hleft, any_leadsTo_kept]

end Builtin.Delete

namespace Builtin

open FilterTree.Tree

variable {args : Arguments} {t : Tree} {run : Run} {batch : Batch}

/--
A deletion with a valid preflight, on a well-formed tree. Of the planned paths
none is another one or lies below it. They are a part of the selection, and they
are deleted, for trial and for good alike. In the tree that is left those objects
are missing to which a selected path leads, and every other path leads where it
did. The same paths selected in any other order, and each as often as one likes,
leave the same tree.
-/
theorem deletion_leaves (h : t.WellFormed)
    (hok : (Delete.filter.preflight t args run).1.actions.outcome = .ok batch) :
    ∃ (paths planned : List Path) (u : Tree), Delete.Selects args paths ∧
      (batch = planned.map .delete ∧ (∀ p ∈ planned, p ∈ paths) ∧
        planned.Pairwise fun p q => p.leadsTo q = false ∧ q.leadsTo p = false) ∧
      (∀ mode, batch.apply mode t = (.ok (), u)) ∧
      t.Remnant u ∧
      (∀ i, u.Has (some i) ↔ ∃ r, t.idOf? r = some i ∧ ∀ p ∈ paths, p.leadsTo r = false) ∧
      (∀ r, u.idOf? r = if ∃ p ∈ paths, p.leadsTo r = true then none else t.idOf? r) ∧
      ∀ args' paths' run', Delete.Selects args' paths' → (∀ p, p ∈ paths' ↔ p ∈ paths) →
        ∃ batch', (Delete.filter.preflight t args' run').1.actions.outcome = .ok batch' ∧
          ∀ mode, batch'.apply mode t = (.ok (), u) := by
  obtain ⟨paths, hselects, hfound, rfl⟩ := Delete.preflight_eq_ok.mp hok
  obtain ⟨u, hu, hwell, hremnant, hleft⟩ := Delete.apply_kept .execute h hfound
  -- a tree with the same paths is the same tree, however it came about
  have hsame : ∀ {paths'}, (∀ p, p ∈ paths' ↔ p ∈ paths) → ∀ mode,
      Batch.apply mode ((Delete.kept paths').map .delete) t = (.ok (), u) := by
    intro paths' hmem mode
    obtain ⟨v, hv, hwell', hremnant', hleft'⟩ :=
      Delete.apply_kept mode h fun p hp => hfound p ((hmem p).mp hp)
    have hany : ∀ r : Path, paths'.any (·.leadsTo r) = paths.any (·.leadsTo r) := by
      intro r
      rw [Bool.eq_iff_iff, List.any_eq_true, List.any_eq_true]
      simp only [hmem]
    rw [hremnant'.unique hremnant hwell'.toLinked hwell.toLinked fun r => by
      rw [hleft, hleft', hany]] at hv
    exact hv
  have hpath : ∀ r, u.idOf? r = if ∃ p ∈ paths, p.leadsTo r = true then none else t.idOf? r := by
    intro r
    rw [hleft]
    simp only [List.any_eq_true]
  refine ⟨paths, Delete.kept paths, u, hselects, ⟨rfl, fun _ => Delete.mem_of_mem_kept,
    Delete.apart_kept⟩, hsame fun _ => Iff.rfl, hremnant, ?_, hpath, ?_⟩
  · intro i
    constructor
    · rintro ⟨p, hp⟩
      obtain ⟨r, hr⟩ := hwell.reached hp
      rw [hpath] at hr
      split at hr
      · cases hr
      · next hnone =>
          exact ⟨r, hr, fun p hp => Bool.eq_false_iff.mpr fun hleads => hnone ⟨p, hp, hleads⟩⟩
    · rintro ⟨r, hr, hnone⟩
      refine @Linked.object_of_idOf? u hwell.toLinked r i ?_
      rw [hpath, if_neg, hr]
      rintro ⟨p, hp, hleads⟩
      cases (hnone p hp).symm.trans hleads
  · intro args' paths' run' hselects' hmem
    have hfound' := fun p hp => hfound p ((hmem p).mp hp)
    exact ⟨_, Delete.preflight_eq_ok.mpr ⟨paths', hselects', hfound', rfl⟩, hsame hmem⟩

/-- A cloud of points deleted with its matrix and twice itself, or once. -/
theorem deletion_leaves_nothing :
    Tree.cloud.WellFormed ∧ ∃ batch u,
      (Delete.filter.preflight .cloud (Arguments.none.insert Delete.pathsKey
        (.paths [⟨["cloud", "data"]⟩, .single "cloud", .single "cloud"])) (.new 1)).1.actions.outcome
          = .ok batch ∧
      (∀ mode, batch.apply mode .cloud = (.ok (), u)) ∧ u.idOf? ⟨["cloud", "points"]⟩ = none := by
  have hok : (Delete.filter.preflight .cloud (Arguments.none.insert Delete.pathsKey
      (.paths [⟨["cloud", "data"]⟩, .single "cloud", .single "cloud"])) (.new 1)).1.actions.outcome
        = .ok [.delete (.single "cloud")] := rfl
  obtain ⟨paths, planned, u, hselects, -, happly, -, -, hleft, -⟩ :=
    deletion_leaves wellFormed_cloud hok
  obtain ⟨bound, hbind, hpaths⟩ := hselects
  cases hbind
  cases hpaths
  refine ⟨wellFormed_cloud, _, u, hok, happly, ?_⟩
  rw [hleft, if_pos ⟨.single "cloud", by simp, rfl⟩]

end Builtin

end FilterTree
