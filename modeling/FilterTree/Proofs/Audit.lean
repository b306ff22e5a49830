import FilterTree.Proofs.Insert
import FilterTree.Tree.Audit

/-!
# A well-formed tree passes the audit

The audit confirms each link from both sides and walks up from every object.
All of that is part of the invariant or follows from it; what has to be argued
is that the walk up ends in time. It undoes the walk down step by step
(`ancestry_eq`), and a walk down is no longer than there are objects, so the
path of an object is the one path at which it is found.
-/

namespace FilterTree.Tree

open Links

variable {t : Tree}

/-! ## The walk up -/

/-- The walk up from an object undoes the walk down to it. -/
theorem ancestry_eq (h : Linked t) {fuel : Nat} {names : List String} {id : ObjectId}
    (hid : t.links.walk none names = some (some id)) (hlen : names.length ≤ fuel) :
    t.ancestry fuel id = some names.reverse := by
  induction fuel generalizing names id with
  | zero =>
      cases List.length_eq_zero_iff.mp (Nat.le_zero.mp hlen)
      cases hid
  | succ fuel ih =>
      obtain ⟨o, ho⟩ := h.has hid
      obtain ⟨xs, rfl, hxs⟩ := h.walk_parent ho hid
      rw [List.length_append, List.length_singleton] at hlen
      rw [ancestry, ho, List.reverse_append]
      simp only [Option.bind_eq_bind, Option.bind_some]
      cases hparent : o.parent with
      | none =>
          rw [hparent] at hxs
          cases xs with
          | nil => rfl
          | cons x xs => exact absurd hxs (walk_ne_top (List.cons_ne_nil x xs))
      | some p =>
          rw [hparent] at hxs
          dsimp only
          rw [ih hxs (Nat.le_of_succ_le_succ hlen)]
          rfl

/-- The path of an object is where it is found. -/
theorem pathOf?_eq_some (h : Linked t) {id : ObjectId} {path : Path}
    (hid : t.idOf? path = some id) : t.pathOf? id = some path := by
  have hwalk := idOf?_eq_some.mp hid
  rw [pathOf?, ancestry_eq h hwalk (h.length_le_size hwalk), Option.map_some, List.reverse_reverse]

/-! ## The audit -/

theorem auditRoot_eq_ok (h : Linked t) {name : String} {id : ObjectId}
    (hid : t.links none name = some id) : t.auditRoot name id = .ok () := by
  obtain ⟨o, ho, hparent, hname⟩ := h.stored hid
  simp [auditRoot, ho, hparent, hname]

theorem auditParent_eq_ok (h : Linked t) {id : ObjectId} {o : Object} (ho : t.object? id = some o) :
    t.auditParent id o = .ok () := by
  have hlisted := h.listed ho
  rw [auditParent]
  split
  · next hparent =>
      rw [hparent] at hlisted
      exact if_pos hlisted
  · next p hparent =>
      rw [hparent] at hlisted
      obtain ⟨q, hq⟩ : t.Has (some p) := hparent ▸ h.has_parent ho
      rw [links, hq, Option.bind_some] at hlisted
      simp [hq, hlisted]

theorem auditChild_eq_ok (h : WellFormed t) {id child : ObjectId} {o : Object} {name : String}
    (ho : t.object? id = some o) (hchild : t.links (some id) name = some child) :
    t.auditChild id o name child = .ok () := by
  obtain ⟨c, hc, hparent, hname⟩ := h.stored hchild
  rw [auditChild, hc]
  dsimp only
  rw [if_neg (by simp [hparent, hname])]
  split
  · next shape hshape =>
      have hfits := h.fitting ho hshape hchild hc
      rw [Body.tupleShape?_of_hasTuples hfits]
      exact if_pos rfl
  · rfl

theorem auditGeometry_eq_ok (h : WellFormed t) {id : ObjectId} {o : Object}
    (ho : t.object? id = some o) : t.auditGeometry id o = .ok () := by
  rw [auditGeometry]
  split
  · next g hg =>
      cases hdata : g.elementData with
      | none => rfl
      | some m =>
          obtain ⟨e, he, -, hbody⟩ := (h.slotted ho hg).element hdata
          simp [he, hbody, Body.tupleShape?]
  · rfl

theorem auditObject_eq_ok (h : WellFormed t) {id : ObjectId} {o : Object}
    (ho : t.object? id = some o) : t.auditObject id o = .ok () := by
  have hleaf : (!o.kind.isContainer && !o.children.isEmpty) = false := by
    cases hkind : o.kind.isContainer with
    | true => rfl
    | false =>
        rw [h.leaf ho hkind]
        rfl
  have hchildren : (o.children.entries.forM fun e => t.auditChild id o e.1 e.2) = .ok () := by
    refine check_forM_eq_ok.mpr fun e hmem => auditChild_eq_ok h ho ?_
    rw [links, ho]
    exact SortedMap.get?_eq_some_iff.mpr hmem
  have hpath : (t.pathOf? id).isNone = false := by
    obtain ⟨path, hid⟩ := h.reached ho
    rw [pathOf?_eq_some h.toLinked hid]
    rfl
  rw [auditObject.eq_def]
  simp only [check_then_eq_ok, hleaf, hpath, Bool.false_eq_true, if_false]
  exact ⟨TreeError.checkName_eq_ok.mpr (h.named ho), auditParent_eq_ok h.toLinked ho, hchildren,
    auditGeometry_eq_ok h ho, rfl⟩

/-- An audit of a well-formed tree finds nothing wrong. -/
theorem WellFormed.audit_eq_ok (h : WellFormed t) : t.audit = .ok () := by
  rw [audit, check_then_eq_ok, check_forM_eq_ok, check_forM_eq_ok]
  constructor
  · rintro ⟨name, id⟩ hmem
    exact auditRoot_eq_ok h.toLinked (SortedMap.get?_eq_some_iff.mpr hmem)
  · rintro ⟨id, o⟩ hmem
    exact auditObject_eq_ok h (SortedMap.get?_eq_some_iff.mpr hmem)

end FilterTree.Tree
