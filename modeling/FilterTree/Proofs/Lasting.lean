import FilterTree.Proofs.Batch
import FilterTree.Proofs.Selection

/-!
# What a filter's own actions leave

A selection that was accepted before a filter planned is looked for again after
its actions. Creating keeps every object at its path and with its body
(`Retains`); a matrix is still one after it was resized, and at the same path;
and moving keeps what does not lie below a moved object (`Edit.move_stays`).
-/

namespace FilterTree

namespace Tree

variable {t u v : Tree}

/-- Every object of a tree is still there, at its path and with its body. -/
def Retains (t u : Tree) : Prop :=
  ∀ (path : Path) (o : Object), t.objectAt path = .ok o →
    ∃ o', u.objectAt path = .ok o' ∧ o'.body = o.body

namespace Retains

theorem refl : t.Retains t := fun _ o ho => ⟨o, ho, rfl⟩

theorem trans (h : t.Retains u) (h' : u.Retains v) : t.Retains v := by
  intro path o ho
  obtain ⟨o', ho', hbody⟩ := h path o ho
  obtain ⟨o'', ho'', hbody'⟩ := h' path o' ho'
  exact ⟨o'', ho'', hbody'.trans hbody⟩

theorem arrayAt (h : t.Retains u) {path : Path} {a : DataArray} (ha : t.arrayAt path = .ok a) :
    u.arrayAt path = .ok a := by
  obtain ⟨o, ho, hbody⟩ := arrayAt_eq_ok.mp ha
  obtain ⟨o', ho', hsame⟩ := h path o ho
  exact arrayAt_eq_ok.mpr ⟨o', ho', hsame.trans hbody⟩

theorem listAt (h : t.Retains u) {path : Path} {l : NeighborList} (hl : t.listAt path = .ok l) :
    u.listAt path = .ok l := by
  obtain ⟨o, ho, hbody⟩ := listAt_eq_ok.mp hl
  obtain ⟨o', ho', hsame⟩ := h path o ho
  exact listAt_eq_ok.mpr ⟨o', ho', hsame.trans hbody⟩

theorem tupleCountAt (h : t.Retains u) {path : Path} {n : Nat} (hn : t.tupleCountAt path = .ok n) :
    u.tupleCountAt path = .ok n := by
  obtain ⟨o, shape, ho, hshape, hsize⟩ := tupleCountAt_eq_ok.mp hn
  obtain ⟨o', ho', hbody⟩ := h path o ho
  exact tupleCountAt_eq_ok.mpr ⟨o', shape, ho', hbody ▸ hshape, hsize⟩

theorem denseAt (h : t.Retains u) {path : Path} {type : ElementType}
    {s : DenseStore type.Carrier}
    (hs : t.denseAt path type = .ok s) : u.denseAt path type = .ok s := by
  obtain ⟨o, ho, hbody⟩ := denseAt_eq_ok.mp hs
  obtain ⟨o', ho', hsame⟩ := h path o ho
  exact denseAt_eq_ok.mpr ⟨o', ho', hsame.trans hbody⟩

end Retains

theorem WellFormed.retains_addObject (h : WellFormed t) {parent : Path} {name : String}
    {body : Body} {place : Option ObjectId} (hi : t.Insertable parent name body place) :
    t.Retains (t.addObject place name body) := by
  intro path o ho
  obtain ⟨id, hid, ho⟩ := objectAt_eq_ok.mp ho
  obtain ⟨o', ho', -, -, hbody⟩ := @WellFormed.kept_addObject _ h place name body _ _ ho
  refine ⟨o', objectAt_eq_ok.mpr ⟨id, idOf?_eq_some.mpr ?_, ho'⟩, hbody⟩
  exact Links.walk_mono (links_addObject_of_some h hi) (idOf?_eq_some.mp hid)

end Tree

/-! ## Edits and actions -/

namespace Edit

open FilterTree.Tree

variable {t u : Tree} {path : Path}

/-- What was created is found at its path, and all else where it was. -/
theorem create_retains (h : WellFormed t) {body : Body} {id : ObjectId}
    (hok : (create path body).on t = (.ok id, u)) :
    t.Retains u ∧ ∃ o, u.objectAt path = .ok o ∧ o.body = body := by
  obtain ⟨parent, name, place, rfl, hi, rfl, rfl⟩ := create_eq_ok.mp hok
  have hat := objectAt_eq_ok.mpr
    ⟨t.nextId, idOf?_of_walk (walk_addObject h hi), object?_addObject_self rfl⟩
  exact ⟨h.retains_addObject hi, _, hat, rfl⟩

/-- A resized matrix is a matrix at its path. -/
theorem resizeMatrix_kindAt (h : WellFormed t) {shape : Shape}
    (hok : (resizeMatrix path shape).on t = (.ok (), u)) :
    u.kindAt path = .ok .attributeMatrix := by
  obtain ⟨id, o, owner, hid, hr, rfl⟩ := resizeMatrix_eq_ok h hok
  obtain ⟨old, hmatrix⟩ := hr.matrix
  have hbody := hr.follow_of_touched hr.found (fun g hg => nomatch hmatrix.symm.trans hg)
    List.mem_cons_self
  have hfound := @object?_mapBodies_of_some _ (follow shape (touched id o owner) owner) _ _ hr.found
  have hat := objectAt_eq_ok.mpr ⟨id, idOf?_mapBodies.trans hid, hfound⟩
  rw [resized, kindAt, hat, hbody]
  show Except.ok (Body.kind _) = _
  rw [Body.kind_retupled, hmatrix]
  rfl

end Edit

namespace Action

open Edit FilterTree.Tree

variable {mode : Mode} {t u : Tree} {path : Path} {type : ElementType} {tuples : Shape}

theorem createArray_retains (h : WellFormed t) {components : Shape}
    (hok : ((createArray path type tuples components).apply mode).on t = (.ok (), u)) :
    t.Retains u ∧ ∃ a, DataArray.fresh type tuples components mode.allocates = .ok a ∧
      u.arrayAt path = .ok a := by
  obtain ⟨a, ha, hok⟩ := ask_bind_eq_ok.mp hok
  obtain ⟨id, v, hcreate, hok⟩ := bind_eq_ok.mp hok
  cases hok
  obtain ⟨hretains, o, ho, hbody⟩ := create_retains h hcreate
  exact ⟨hretains, a, check_mapError_eq_ok.mp ha, arrayAt_eq_ok.mpr ⟨o, ho, hbody⟩⟩

theorem createList_retains (h : WellFormed t)
    (hok : ((createList path type tuples).apply mode).on t = (.ok (), u)) : t.Retains u := by
  obtain ⟨l, -, hok⟩ := ask_bind_eq_ok.mp hok
  obtain ⟨id, v, hcreate, hok⟩ := bind_eq_ok.mp hok
  cases hok
  exact (create_retains h hcreate).1

end Action

/-! ## Checks -/

namespace Parameter

variable {t u : Tree} {value : Argument}

/-- Arrays that are retained are accepted again. -/
theorem checkSelection_array (h : t.Retains u) {types : List ElementType} {shapes : List Shape}
    (hok : checkSelection t (.arraySelection types shapes) value = .ok ()) :
    checkSelection u (.arraySelection types shapes) value = .ok () := by
  cases value with
  | path path =>
      obtain ⟨a, ha, hrest⟩ := check_bind_eq_ok.mp hok
      have hkept := h.arrayAt (check_mapError_eq_ok.mp ha)
      exact check_bind_eq_ok.mpr ⟨a, check_mapError_eq_ok.mpr hkept, hrest⟩
  | _ => rfl

theorem checkSelection_list (h : t.Retains u) {types : List ElementType}
    (hok : checkSelection t (.listSelection types) value = .ok ()) :
    checkSelection u (.listSelection types) value = .ok () := by
  cases value with
  | path path =>
      obtain ⟨l, hl, hrest⟩ := check_bind_eq_ok.mp hok
      have hkept := h.listAt (check_mapError_eq_ok.mp hl)
      exact check_bind_eq_ok.mpr ⟨l, check_mapError_eq_ok.mpr hkept, hrest⟩
  | _ => rfl

end Parameter

end FilterTree
