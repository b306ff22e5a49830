import FilterTree.Proofs.Addressing
import FilterTree.Proofs.Relocated

/-!
# Which edits a tree accepts

An edit is a row of checks in front of writes, and which check comes first
decides only what a refusal says. Whether there is a refusal is a condition on
paths, names and kinds that does not know of the checks: `Admits` for what is to
be put under a parent, and from it the conditions of the other edits. Each is
stated in both directions, so that an edit that is carried out was allowed and
one that is allowed is carried out.

A removal answers with a number. It counts the objects that are gone, and since
an object has one path these are as many as there are paths that led over the
removed object (`remove_paths`).
-/

namespace FilterTree

open Links

namespace Tree

variable {t u : Tree}

/-- What may be put under a parent: at the top anything, in a matrix only what has its tuples. -/
structure Admits (t : Tree) (parent : Path) (name : String) (body : Body) : Prop where
  valid : validName name = true
  fits : ∀ shape, body.tupleShape? = some shape → shape.size?.isSome
  container : parent = .root ∨ ∃ id o, t.idOf? parent = some id ∧ t.object? id = some o ∧
    o.kind.isContainer = true ∧ ∀ shape, o.body = .matrix shape → body.HasTuples shape
  free : t.contains (parent.child name) = false

/-! ## Places and paths -/

theorem ne_root_of_idOf? {p : Path} {id : ObjectId} (h : t.idOf? p = some id) : p ≠ .root := by
  rintro rfl
  cases h

theorem idOf?_of_place {p : Path} {place : Option ObjectId}
    (h : t.links.walk none p.names = some place) : t.idOf? p = place := by
  rw [idOf?_eq, h]
  rfl

theorem place_iff {p : Path} :
    (∃ place, t.links.walk none p.names = some place) ↔ p = .root ∨ t.contains p = true := by
  constructor
  · rintro ⟨_ | id, hplace⟩
    · left
      by_contra hroot
      exact walk_ne_top (fun hnil => hroot (congrArg Path.mk hnil)) hplace
    · exact .inr (Option.isSome_of_eq_some (idOf?_eq_some.mpr hplace))
  · rintro (rfl | hp)
    · exact ⟨none, rfl⟩
    · obtain ⟨id, hid⟩ := Option.isSome_iff_exists.mp hp
      exact ⟨some id, idOf?_eq_some.mp hid⟩

theorem contains_child {p : Path} {place : Option ObjectId} {name : String}
    (h : t.links.walk none p.names = some place) :
    t.contains (p.child name) = (t.links place name).isSome := by
  rw [contains, idOf?_eq, Path.child, walk_concat, h, Option.bind_some]
  cases t.links place name <;> rfl

theorem contains_child_eq_false {p : Path} {place : Option ObjectId} {name : String}
    (h : t.links.walk none p.names = some place) :
    t.contains (p.child name) = false ↔ t.links place name = none := by
  rw [contains_child h, Option.isSome_eq_false_iff, Option.isNone_iff_eq_none]

/-- The checks of an insertion ask for what may be put under a parent. -/
theorem admits_iff {parent : Path} {name : String} {body : Body} :
    t.Admits parent name body ↔ ∃ place, t.Insertable parent name body place := by
  constructor
  · rintro ⟨hvalid, hfits, hcontainer, hfree⟩
    rcases hcontainer with rfl | ⟨id, o, hid, ho, hholds⟩
    · have hplace : t.links.walk none Path.root.names = some none := rfl
      exact ⟨none, hvalid, hfits, hplace, fun _ h => (nomatch h),
        (contains_child_eq_false hplace).mp hfree⟩
    · have hplace := idOf?_eq_some.mp hid
      exact ⟨some id, hvalid, hfits, hplace, (accepts_some ho).mpr hholds,
        (contains_child_eq_false hplace).mp hfree⟩
  · rintro ⟨place, hi⟩
    refine ⟨hi.valid, hi.fits, ?_, (contains_child_eq_false hi.found).mpr hi.free⟩
    cases place with
    | none =>
        left
        by_contra hroot
        exact walk_ne_top (fun hnil => hroot (congrArg Path.mk hnil)) hi.found
    | some id =>
        obtain ⟨o, ho, hholds⟩ := hi.accepts id rfl
        exact .inr ⟨id, o, idOf?_eq_some.mpr hi.found, ho, hholds⟩

/-! ## The paths of a tree -/

/-- The paths that lead to objects. -/
def paths (t : Tree) : List Path := t.listing.map (·.1)

theorem mem_paths (h : Linked t) {r : Path} : r ∈ t.paths ↔ t.contains r = true := by
  rw [paths, List.mem_map, contains, Option.isSome_iff_exists]
  constructor
  · rintro ⟨e, he, rfl⟩
    obtain ⟨i, -, hi, -⟩ := (mem_listing h).mp he
    exact ⟨i, hi⟩
  · rintro ⟨i, hi⟩
    obtain ⟨o, ho⟩ := h.object_of_idOf? hi
    exact ⟨(r, o.kind), (mem_listing h).mpr ⟨i, o, hi, ho, rfl⟩, rfl⟩

theorem nodup_paths : t.paths.Nodup := by
  exact List.pairwise_map.mpr (pairwise_listing.imp ne_of_compare_lt)

theorem length_paths (h : Linked t) : t.paths.length = t.size := by
  rw [paths, List.length_map, length_listing h]

end Tree

namespace Edit

open FilterTree.Tree

variable {t u : Tree} {p q : Path} {name : String}

theorem insert_succeeds_iff {body : Body} :
    (insert p name body).Succeeds t ↔ t.Admits p name body := by
  rw [admits_iff]
  constructor
  · rintro ⟨id, u, hok⟩
    obtain ⟨place, hi, -⟩ := insert_eq_ok.mp hok
    exact ⟨place, hi⟩
  · rintro ⟨place, hi⟩
    exact ⟨_, _, insert_eq_ok.mpr ⟨place, hi, rfl, rfl⟩⟩

theorem idOf?_of_insert (h : WellFormed t) {body : Body} {id : ObjectId}
    (hok : (insert p name body).on t = (.ok id, u)) : u.idOf? (p.child name) = some id := by
  obtain ⟨place, hi, rfl, rfl⟩ := insert_eq_ok.mp hok
  exact idOf?_eq_some.mpr (walk_addObject h hi)

theorem rename_succeeds_iff (h : Linked t) :
    (rename p name).Succeeds t ↔ p ≠ .root ∧ t.contains p = true ∧ validName name = true ∧
      (p.name? = some name ∨ t.contains (p.withName name) = false) := by
  have hfree : ∀ {parent : Path} {id : ObjectId} {o : Object},
      t.idOf? (parent.child o.name) = some id → t.object? id = some o →
      ((parent.child o.name).name? = some name ↔ o.name = name) ∧
      (t.contains ((parent.child o.name).withName name) = false ↔
        t.links o.parent name = none) := by
    intro parent id o hid ho
    obtain ⟨o', ho', -, hparent⟩ := h.object_at hid
    cases Option.some.inj (ho.symm.trans ho')
    rw [Path.withName_child, Path.name?_child, contains_child_eq_false hparent]
    exact ⟨Option.some_inj, Iff.rfl⟩
  constructor
  · rintro ⟨_, u, hok⟩
    obtain ⟨hvalid, parent, id, o, rfl, hid, ho, hcases⟩ := (rename_eq_ok_iff h).mp hok
    refine ⟨ne_root_of_idOf? hid, Option.isSome_of_eq_some hid, hvalid, ?_⟩
    rcases hcases with ⟨hsame, -⟩ | ⟨-, hnone, -⟩
    · exact .inl ((hfree hid ho).1.mpr hsame)
    · exact .inr ((hfree hid ho).2.mpr hnone)
  · rintro ⟨-, hp, hvalid, hcases⟩
    obtain ⟨id, hid⟩ := Option.isSome_iff_exists.mp hp
    obtain ⟨parent, last, rfl⟩ := eq_child_of_idOf? hid
    obtain ⟨o, ho, rfl, -⟩ := h.object_at hid
    by_cases hsame : o.name = name
    · exact ⟨(), t, (rename_eq_ok_iff h).mpr ⟨hvalid, parent, id, o, rfl, hid, ho, .inl ⟨hsame, rfl⟩⟩⟩
    · have hnone := (hfree hid ho).2.mp (hcases.resolve_left (mt (hfree hid ho).1.mp hsame))
      exact ⟨(), _, (rename_eq_ok_iff h).mpr
        ⟨hvalid, parent, id, o, rfl, hid, ho, .inr ⟨hsame, hnone, rfl⟩⟩⟩

theorem move_succeeds_iff (h : WellFormed t) :
    (move p q).Succeeds t ↔ p ≠ .root ∧ ∃ id o name, t.idOf? p = some id ∧ t.object? id = some o ∧
      p.name? = some name ∧ ¬ p.leadsTo q ∧ (q = .root ∨ t.contains q = true) ∧
      (o.parent = t.idOf? q ∨ t.Admits q name o.body) := by
  constructor
  · rintro ⟨_, u, hok⟩
    obtain ⟨parent, id, o, place, rfl, hid, ho, hapart, hplace, hcases⟩ :=
      (move_eq_ok_iff h.toLinked).mp hok
    refine ⟨ne_root_of_idOf? hid, id, o, o.name, hid, ho, Path.name?_child, hapart,
      place_iff.mp ⟨place, hplace⟩, ?_⟩
    rw [idOf?_of_place hplace, admits_iff]
    rcases hcases with ⟨hsame, -⟩ | ⟨-, haccepts, hfree, -⟩
    · exact .inl hsame
    · exact .inr ⟨place, h.named ho, Body.fits_of_sound (h.sound ho), hplace, haccepts, hfree⟩
  · rintro ⟨-, id, o, name, hid, ho, hname, hapart, hq, hcases⟩
    obtain ⟨place, hplace⟩ := place_iff.mpr hq
    rw [idOf?_of_place hplace, admits_iff] at hcases
    obtain ⟨parent, last, rfl⟩ := eq_child_of_idOf? hid
    obtain ⟨o', ho', rfl, -⟩ := h.object_at hid
    cases Option.some.inj (ho.symm.trans ho')
    cases Path.name?_child.symm.trans hname
    by_cases hsame : o.parent = place
    · exact ⟨(), t, (move_eq_ok_iff h.toLinked).mpr
        ⟨parent, id, o, place, rfl, hid, ho, hapart, hplace, .inl ⟨hsame, rfl⟩⟩⟩
    · obtain ⟨place', hi⟩ := hcases.resolve_left hsame
      cases Option.some.inj (hplace.symm.trans hi.found)
      exact ⟨(), _, (move_eq_ok_iff h.toLinked).mpr ⟨parent, id, o, place, rfl, hid, ho, hapart,
        hplace, .inr ⟨hsame, hi.accepts, hi.free, rfl⟩⟩⟩

/-! ## Removing -/

theorem remove_succeeds_iff (h : Linked t) :
    (remove p).Succeeds t ↔ p ≠ .root ∧ t.contains p = true := by
  constructor
  · rintro ⟨n, u, hok⟩
    obtain ⟨id, o, hid, -⟩ := (remove_eq_ok_iff h).mp hok
    exact ⟨ne_root_of_idOf? hid, Option.isSome_of_eq_some hid⟩
  · rintro ⟨-, hp⟩
    obtain ⟨id, hid⟩ := Option.isSome_iff_exists.mp hp
    obtain ⟨o, ho⟩ := h.object_of_idOf? hid
    exact ⟨_, _, remove_on hid ho⟩

/-- After a removal the paths that led over the object lead nowhere, and no other has changed. -/
theorem idOf?_of_remove (h : WellFormed t) {n : Nat} (hok : (remove p).on t = (.ok n, u))
    (r : Path) : u.idOf? r = if p.leadsTo r then none else t.idOf? r := by
  obtain ⟨id, o, hid, hprunable, rfl⟩ := remove_eq_ok h hok
  have hrel : Linked (t.release o.parent id) := h.release.toLinked
  have hgone : ∀ {i}, t.idOf? r = some i → (p.leadsTo r ↔ i ∈ t.subtree t.size id) := by
    intro i hi
    obtain ⟨c, hc⟩ := h.object_of_idOf? hid
    rw [mem_subtree_iff h.toLinked ⟨c, hc⟩]
    exact h.leadsTo_iff_below hid hi
  refine Option.ext fun i => ?_
  rw [idOf?_eq_some, hprunable.walk_eq_some hrel, links_release, ← idOf?_eq_some]
  constructor
  · rintro ⟨hi, hstays⟩
    rwa [if_neg (mt (hgone hi).mp hstays)]
  · intro hi
    split at hi
    · cases hi
    · next hapart => exact ⟨hi, mt (hgone hi).mpr hapart⟩

/-- A removal answers with the number of paths that led over the object. -/
theorem remove_paths (h : WellFormed t) {n : Nat} (hok : (remove p).on t = (.ok n, u)) :
    (t.paths.filter p.leadsTo).length = n := by
  have hpaths := idOf?_of_remove h hok
  obtain ⟨id, o, -, ho, rfl, rfl⟩ := (remove_eq_ok_iff h.toLinked).mp hok
  have hlinked := h.release.toLinked.prune (h.prunable ho)
  generalize (t.release o.parent id).prune o.parent o.name (t.subtree t.size id) = u at hpaths hlinked
  have hstays : u.paths.Perm (t.paths.filter fun r => !p.leadsTo r) := by
    refine (List.perm_ext_iff_of_nodup nodup_paths (nodup_paths.filter _)).mpr fun r => ?_
    rw [List.mem_filter, mem_paths hlinked, mem_paths h.toLinked, contains, hpaths]
    split <;> simp_all [contains]
  have hsum := List.length_eq_length_filter_add (l := t.paths) p.leadsTo
  rw [← hstays.length_eq, length_paths hlinked, length_paths h.toLinked] at hsum
  omega

end Edit

namespace Tree

open Edit

/--
When a well-formed tree carries out an insertion, a renaming, a move and a
removal, stated by paths. What was inserted is found where it was put; a removal
answers with the number of paths that led over the object, and these are the
paths that lead nowhere afterwards.
-/
theorem WellFormed.acceptance (h : WellFormed t) :
    (∀ parent name body, (insert parent name body).Succeeds t ↔ t.Admits parent name body) ∧
    (∀ parent name body id u, (insert parent name body).on t = (.ok id, u) →
      u.idOf? (parent.child name) = some id) ∧
    (∀ p name, (rename p name).Succeeds t ↔
      p ≠ .root ∧ t.contains p = true ∧ validName name = true ∧
        (p.name? = some name ∨ t.contains (p.withName name) = false)) ∧
    (∀ p q, (move p q).Succeeds t ↔
      p ≠ .root ∧ ∃ id o name, t.idOf? p = some id ∧ t.object? id = some o ∧ p.name? = some name ∧
        ¬ p.leadsTo q ∧ (q = .root ∨ t.contains q = true) ∧
        (o.parent = t.idOf? q ∨ t.Admits q name o.body)) ∧
    (∀ p, (remove p).Succeeds t ↔ p ≠ .root ∧ t.contains p = true) ∧
    ∀ p n u, (remove p).on t = (.ok n, u) →
      (∃ gone : List Path, gone.Nodup ∧ (∀ r, r ∈ gone ↔ p.leadsTo r ∧ t.contains r) ∧
        gone.length = n) ∧
      ∀ r, u.idOf? r = if p.leadsTo r then none else t.idOf? r := by
  refine ⟨fun _ _ _ => insert_succeeds_iff, fun _ _ _ _ _ hok => idOf?_of_insert h hok,
    fun _ _ => rename_succeeds_iff h.toLinked, fun _ _ => move_succeeds_iff h,
    fun _ => remove_succeeds_iff h.toLinked, ?_⟩
  intro p n u hok
  refine ⟨⟨t.paths.filter p.leadsTo, nodup_paths.filter _, ?_, remove_paths h hok⟩,
    idOf?_of_remove h hok⟩
  intro r
  rw [List.mem_filter, mem_paths h.toLinked, and_comm]

/-- The matrix of a cloud of points takes no group, and the cloud is three objects. -/
theorem acceptance_cloud :
    WellFormed cloud ∧ ¬ (insert ⟨["cloud", "data"]⟩ "cells" .group).Succeeds cloud ∧
      ∃ gone : List Path, gone.Nodup ∧
        (∀ r, r ∈ gone ↔ (Path.single "cloud").leadsTo r ∧ cloud.contains r) ∧ gone.length = 3 := by
  obtain ⟨hinsert, -, -, -, -, hremove⟩ := wellFormed_cloud.acceptance
  refine ⟨wellFormed_cloud, fun hok => ?_, (hremove (.single "cloud") 3 _ rfl).1⟩
  rcases ((hinsert _ _ _).mp hok).container with hroot | ⟨id, o, hid, ho, -, hholds⟩
  · cases hroot
  · cases hid
    cases ho
    exact hholds [2] rfl

end Tree

end FilterTree
