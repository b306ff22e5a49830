import FilterTree.Proofs.Batch

/-!
# Renaming and moving take one subtree elsewhere

Seen through paths, an object that is renamed or moved takes all that lies below
it to its new path and touches no other path (`Relocated`). Seen through
objects, nothing is created, nothing is lost, and no payload changes but that of
a geometry that had the object in a slot and is left by it.

Whether a move would close a cycle is decided by comparing paths, and this is
not a matter of spelling: an object has one path, so a path that resolves leads
over an object exactly if it ends below it (`leadsTo_iff_below`). The refusal
comes before anything else that could be wrong with the destination, so it
comes exactly if the object is there and the destination lies below it.
-/

namespace FilterTree

open Links

namespace Tree

variable {t u : Tree} {id : ObjectId} {o : Object}

/--
What was found below one path is found below another, and nothing is left
behind; what lies below neither is found where it was.
-/
structure Relocated (t u : Tree) (p p' : Path) : Prop where
  below : ∀ rest : List String, u.idOf? ⟨p'.names ++ rest⟩ = t.idOf? ⟨p.names ++ rest⟩
  vacated : ∀ r : Path, ¬ p'.leadsTo r → p.leadsTo r → u.idOf? r = none
  elsewhere : ∀ r : Path, ¬ p'.leadsTo r → ¬ p.leadsTo r → u.idOf? r = t.idOf? r

/-- Nothing is relocated to where it is. -/
theorem Relocated.refl {p : Path} : t.Relocated t p p where
  below := fun _ => rfl
  vacated := fun _ hnot hp => absurd hp hnot
  elsewhere := fun _ _ _ => rfl

/-- Listing an object elsewhere relocates it from its path to the new one. -/
theorem Relocated.relink (h : Linked t) {place : Option ObjectId} {name : String} {p q : Path}
    (ho : t.object? id = some o) (hp : t.links.walk none p.names = some o.parent)
    (hq : t.links.walk none q.names = some place) (hapart : ¬ (p.child o.name).leadsTo q) :
    t.Relocated (t.relink id o.parent o.name place name) (p.child o.name) (q.child name) := by
  have hwalk : ∀ names, (t.relink id o.parent o.name place name).links.walk none names =
      if (q.child name).names <+: names then
        t.links.walk none ((p.child o.name).names ++ names.drop (q.names.length + 1))
      else if (p.child o.name).names <+: names then none
      else t.links.walk none names := by
    intro names
    rw [links_relink (h.has hq)]
    exact walk_relink h.single hp (h.listed ho) hq fun hbelow => hapart (leadsTo_iff.mpr hbelow)
  refine ⟨fun rest => ?_, fun r hnew hold => ?_, fun r hnew hold => ?_⟩
  · have hdrop : ((q.child name).names ++ rest).drop (q.names.length + 1) = rest := by
      simp [Path.child]
    rw [idOf?_eq, idOf?_eq, hwalk, if_pos (List.prefix_append _ _), hdrop]
  · rw [leadsTo_iff] at hnew hold
    rw [idOf?_eq, hwalk, if_neg hnew, if_pos hold]
    rfl
  · rw [leadsTo_iff] at hnew hold
    rw [idOf?_eq, idOf?_eq, hwalk, if_neg hnew, if_neg hold]

theorem Relocated.of_release {place : Option ObjectId} {p p' : Path}
    (h : (t.release place id).Relocated u p p') : t.Relocated u p p' := by
  have hsame : ∀ r, (t.release place id).idOf? r = t.idOf? r := fun _ => idOf?_mapBodies
  exact ⟨fun rest => (h.below rest).trans (hsame _), h.vacated,
    fun r hnew hold => (h.elsewhere r hnew hold).trans (hsame r)⟩

/-! ## The payload of objects -/

/-- The same objects are there, each with what a function makes of its payload. -/
structure Kept (t u : Tree) (f : ObjectId → Body → Body) : Prop where
  nextId : u.nextId = t.nextId
  bodies : ∀ i, (u.object? i).map Object.body = (t.object? i).map fun p => f i p.body

theorem Kept.refl : t.Kept t fun _ b => b := ⟨rfl, fun _ => rfl⟩

theorem Kept.relink {place place' : Option ObjectId} {name name' : String} :
    t.Kept (t.relink id place name place' name') fun _ b => b where
  nextId := nextId_relink
  bodies := fun i => by
    rw [object?_relink, Option.map_map]
    rfl

theorem Kept.of_release {place : Option ObjectId} (h : (t.release place id).Kept u fun _ b => b) :
    t.Kept u fun i b => if place = some i then b.forget id else b where
  nextId := h.nextId
  bodies := fun i => by
    rw [h.bodies, release, object?_mapBodies, Option.map_map]
    rfl

/-! ## Below by paths and below by links -/

/-- One path leads to another exactly if the other's object lies below the one's. -/
theorem Linked.leadsTo_iff_below (h : Linked t) {p q : Path} {i : ObjectId}
    (hp : t.idOf? p = some id) (hq : t.idOf? q = some i) : p.leadsTo q ↔ t.Below id i := by
  rw [idOf?_eq_some] at hp hq
  rw [leadsTo_iff]
  constructor
  · rintro ⟨rest, hrest⟩
    rw [← hrest, walk_append, hp, Option.bind_some] at hq
    exact ⟨rest, hq⟩
  · rintro ⟨rest, hrest⟩
    have hlong : t.links.walk none (p.names ++ rest) = some (some i) := by
      rw [walk_append, hp, Option.bind_some, hrest]
    exact ⟨rest, walk_unique h.single hlong hq⟩

end Tree

namespace Edit

open FilterTree.Tree

variable {t u : Tree}

theorem checkContainer_ne_cycle {path a b : Path} {container : Object} {name : String}
    {body : Body} : checkContainer path container name body ≠ .error (.cycle a b) := by
  intro h
  rw [checkContainer] at h
  split at h
  · cases h
  · split at h
    · split at h
      · cases h
      · dsimp only at h
        split at h <;> cases h
    · cases h

theorem checkAttach_ne_cycle {path a b : Path} {place : Option ObjectId} {name : String}
    {body : Body} : t.checkAttach path place name body ≠ .error (.cycle a b) := by
  intro h
  have hfree : (if t.hasChild place name then throw (TreeError.nameCollision path name)
      else pure () : Except TreeError Unit) ≠ .error (.cycle a b) := by
    split <;> intro hbad <;> cases hbad
  cases place with
  | none => exact hfree h
  | some id =>
      rw [checkAttach.eq_def] at h
      cases ho : t.object? id with
      | none =>
          simp only [ho] at h
          cases h
      | some o =>
          simp only [ho] at h
          cases hcontainer : checkContainer path o name body with
          | error x =>
              rw [hcontainer] at h
              cases h
              exact checkContainer_ne_cycle hcontainer
          | ok _ =>
              rw [hcontainer] at h
              exact hfree h

/-- A move is refused for a cycle exactly if the object is there and the destination below it. -/
theorem move_eq_cycle_iff {p q a b : Path} :
    ((move p q).on t).1 = .error (.cycle a b) ↔
      (t.idOf? p).isSome ∧ p.leadsTo q ∧ a = p ∧ b = q := by
  rw [move, ask_bind_eq_error]
  constructor
  · rintro (hbad | ⟨⟨parent, name⟩, hpath, h⟩)
    · rw [splitPath] at hbad
      split at hbad <;> cases hbad
    · rw [ask_bind_eq_error] at h
      obtain hbad | ⟨id, hid, h⟩ := h
      · rw [resolve] at hbad
        split at hbad <;> cases hbad
      · split at h
        · next hbelow =>
            cases h
            exact ⟨Option.isSome_of_eq_some (resolve_eq_ok.mp hid), hbelow, rfl, rfl⟩
        · -- no later check is about cycles
          simp only [ask_bind_eq_error] at h
          obtain hbad | ⟨place, -, hbad | ⟨o, -, h⟩⟩ := h
          · rw [parentId] at hbad
            split at hbad
            · cases hbad
            · split at hbad <;> cases hbad
          · rw [objectAt] at hbad
            split at hbad <;> cases hbad
          · split at h
            · cases h
            · rw [ask_bind_eq_error] at h
              obtain hbad | ⟨_, -, h⟩ := h
              · exact absurd hbad checkAttach_ne_cycle
              · cases h
  · rintro ⟨hp, hbelow, rfl, rfl⟩
    obtain ⟨id, hid⟩ := Option.isSome_iff_exists.mp hp
    obtain ⟨parent, name, hpath⟩ := eq_child_of_idOf? hid
    refine .inr ⟨_, splitPath_eq_ok.mpr hpath, ?_⟩
    rw [ask_bind_eq_error, resolve_eq_ok.mpr hid]
    refine .inr ⟨id, rfl, ?_⟩
    rw [if_pos hbelow]
    rfl

/-- A renaming relocates the object, and no payload changes. -/
theorem rename_relocates (h : Linked t) {p : Path} {name : String}
    (hok : (rename p name).on t = (.ok (), u)) :
    t.Relocated u p (p.withName name) ∧ t.Kept u fun _ b => b := by
  obtain ⟨-, parent, id, o, rfl, hid, ho, hcases⟩ := (rename_eq_ok_iff h).mp hok
  rw [Path.withName_child]
  rcases hcases with ⟨rfl, rfl⟩ | ⟨-, -, rfl⟩
  · exact ⟨.refl, .refl⟩
  · obtain ⟨o', ho', -, hparent⟩ := h.object_at hid
    cases Option.some.inj (ho.symm.trans ho')
    refine ⟨.relink h ho hparent hparent fun hbelow => ?_, .relink⟩
    exact not_concat_prefix (leadsTo_iff.mp hbelow)

/-- A move relocates the object; a geometry that it leaves lets go of it. -/
theorem move_relocates (h : Linked t) {p q : Path} (hok : (move p q).on t = (.ok (), u)) :
    ∃ id name, t.idOf? p = some id ∧ p.name? = some name ∧ t.Relocated u p (q.child name) ∧
      t.Kept u fun i b =>
        if p.parent? ≠ some q ∧ p.parent?.bind t.idOf? = some i then b.forget id else b := by
  obtain ⟨parent, id, o, place, rfl, hid, ho, hapart, hplace, hcases⟩ :=
    (move_eq_ok_iff h).mp hok
  obtain ⟨o', ho', -, hparent⟩ := h.object_at hid
  cases Option.some.inj (ho.symm.trans ho')
  have hfound : t.idOf? parent = o.parent := by
    rw [idOf?_eq, hparent]
    rfl
  refine ⟨id, o.name, hid, Path.name?_child, ?_⟩
  simp only [Path.parent?_child, Option.bind_some, hfound, ne_eq, Option.some.injEq]
  rcases hcases with ⟨rfl, rfl⟩ | ⟨hne, -, -, rfl⟩
  · have hsame : parent = q := congrArg Path.mk (walk_unique h.single hparent hplace)
    subst hsame
    simp only [not_true_eq_false, false_and, if_false]
    exact ⟨.refl, .refl⟩
  · have hother : parent ≠ q := by
      rintro rfl
      exact hne (Option.some.inj (hparent.symm.trans hplace))
    simp only [hother, not_false_eq_true, true_and]
    refine ⟨.of_release (.relink (Linked.mapBodies h) (object?_release_self h ho) ?_ ?_ hapart),
      .of_release .relink⟩
    · rw [links_mapBodies, hparent]
    · rw [links_mapBodies, hplace]

/-- However many moves are made, and whether or not they are carried out. -/
theorem wellFormed_of_moves {moves : List (Path × Path)} {r : Except TreeError Unit}
    (h : WellFormed t) (hrun : (moves.forM fun m => move m.1 m.2).on t = (r, u)) :
    WellFormed u := by
  induction moves generalizing t with
  | nil =>
      cases hrun
      exact h
  | cons m moves ih =>
      have hchange : Change (fun _ => True) t ((move m.1 m.2).on t).2 :=
        (move_makes h).change move_allOrNothing
      have hnext := hchange.wellFormed h
      rw [show (m :: moves).forM (fun m => move m.1 m.2) =
        (move m.1 m.2 >>= fun _ => moves.forM fun m => move m.1 m.2) from rfl, on_bind] at hrun
      split at hrun
      · next a v hon =>
          rw [hon] at hnext
          exact ih hnext hrun
      · next x v hon =>
          rw [hon] at hnext
          cases hrun
          exact hnext

end Edit

namespace Tree

open Edit

variable {t : Tree}

/--
A renaming or a move that is carried out takes one subtree to its new path and
leaves every other path, all objects and all payloads alone, but that a geometry
whose child is moved away lets go of it. A move is refused for a cycle exactly
if the object is there and the destination is the object or below it, by paths
and by objects alike; and whatever moves are made, no object becomes its own
ancestor.
-/
theorem WellFormed.relocates (h : WellFormed t) :
    (∀ p name u, (rename p name).on t = (.ok (), u) →
      t.Relocated u p (p.withName name) ∧ t.Kept u fun _ b => b) ∧
    (∀ p q u, (move p q).on t = (.ok (), u) →
      ∃ id name, t.idOf? p = some id ∧ p.name? = some name ∧ t.Relocated u p (q.child name) ∧
        t.Kept u fun i b =>
          if p.parent? ≠ some q ∧ p.parent?.bind t.idOf? = some i then b.forget id else b) ∧
    (∀ p q a b, ((move p q).on t).1 = .error (.cycle a b) ↔
      (t.idOf? p).isSome ∧ p.leadsTo q ∧ a = p ∧ b = q) ∧
    (∀ p q id i, t.idOf? p = some id → t.idOf? q = some i → (p.leadsTo q ↔ t.Below id i)) ∧
    ∀ (moves : List (Path × Path)) r v, (moves.forM fun m => move m.1 m.2).on t = (r, v) →
      ∀ i, ¬ Relation.TransGen v.IsParent i i :=
  ⟨fun _ _ _ hok => rename_relocates h.toLinked hok,
    fun _ _ _ hok => move_relocates h.toLinked hok,
    fun _ _ _ _ => move_eq_cycle_iff,
    fun _ _ _ _ hp hq => h.leadsTo_iff_below hp hq,
    fun _ _ _ hrun => (wellFormed_of_moves h hrun).acyclic⟩

/-- The coordinates of a cloud of points taken to the top, where the cloud lets go of them. -/
theorem relocates_points :
    WellFormed cloud ∧ ∃ u, (move ⟨["cloud", "points"]⟩ .root).on cloud = (.ok (), u) ∧
      cloud.Relocated u ⟨["cloud", "points"]⟩ ⟨["points"]⟩ ∧
      (u.object? 0).map Object.body = some (.geometry (.vertex 2 (some 2) none)) := by
  refine ⟨wellFormed_cloud, ((move ⟨["cloud", "points"]⟩ .root).on cloud).2, rfl, ?_, rfl⟩
  obtain ⟨id, name, -, hname, hrel, -⟩ :=
    wellFormed_cloud.relocates.2.1 ⟨["cloud", "points"]⟩ .root _ rfl
  cases hname
  exact hrel

end Tree

end FilterTree
