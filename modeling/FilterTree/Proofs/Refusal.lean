import FilterTree.Proofs.Acceptance

/-!
# Why an object cannot be created

An insertion checks the name, the size, the parent and the room under it, and
each check has an error of its own. `Refusal` is the list of them: what has to be
wrong with the tree for each error, with what the error says. It is complete, so
whoever knows beforehand that some of these things are not wrong knows which
errors are left.

Creating a geometry inserts several objects. Only the first insertion is of
interest for what can be refused, since the others go below an object that is
new; what could be wrong with their names and sizes is checked in front of it.
-/

namespace FilterTree

open Links

/-! ## Edits that refuse for a reason -/

namespace RefusesFor

open Edit

variable {α β : Type} {P : TreeError → Prop} {t : Tree}

/-- A check in front of an edit. -/
theorem on_ask_bind {f : Tree → Except TreeError α} {k : α → Edit β} (hf : RefusesFor P (f t))
    (hk : ∀ a, f t = .ok a → RefusesFor P ((k a).on t).1) :
    RefusesFor P ((ask f >>= k).on t).1 := by
  rw [Edit.on_ask_bind]
  cases hft : f t with
  | error x => exact .error (hf x hft)
  | ok a => exact hk a hft

theorem on_bind {e : Edit α} {k : α → Edit β} (he : RefusesFor P (e.on t).1)
    (hk : ∀ a u, e.on t = (.ok a, u) → RefusesFor P ((k a).on u).1) :
    RefusesFor P ((e >>= k).on t).1 := by
  rw [Edit.on_bind]
  rcases hon : e.on t with ⟨x | a, u⟩
  · rw [hon] at he
    exact .error (he x rfl)
  · exact hk a u hon

theorem of_succeeds {e : Edit α} (h : e.Succeeds t) : RefusesFor P (e.on t).1 := by
  obtain ⟨a, u, hok⟩ := h
  rw [hok]
  exact .ok

end RefusesFor

/-! ## The reasons -/

namespace Tree

/-- Why a body cannot be put under a parent by a name, and the error that says so. -/
inductive Refusal (t : Tree) (parent : Path) (name : String) (body : Body) : TreeError → Prop where
  | invalid (h : validName name = false) : Refusal t parent name body (.invalidName name)
  | tooLarge {shape : Shape} (h : body.tupleShape? = some shape) (hsize : shape.size? = none) :
      Refusal t parent name body (.store (parent.child name) (.shapeOverflow shape))
  | orphan (hroot : parent.isRoot = false) (h : t.contains parent = false) :
      Refusal t parent name body (.parentNotFound (parent.child name) parent)
  | underLeaf {o : Object} (ho : t.objectAt parent = .ok o) (h : o.kind.isContainer = false) :
      Refusal t parent name body (.notAContainer parent)
  | unfit {o : Object} {shape : Shape} (ho : t.objectAt parent = .ok o)
      (hmatrix : o.body = .matrix shape)
      (h : body.kind ≠ .dataArray ∧ body.kind ≠ .neighborList) :
      Refusal t parent name body (.childKindNotAllowed parent o.kind body.kind)
  | mismatched {o : Object} {shape : Shape} (ho : t.objectAt parent = .ok o)
      (hmatrix : o.body = .matrix shape)
      (hfit : ¬ (body.kind ≠ .dataArray ∧ body.kind ≠ .neighborList))
      (h : body.tupleShape?.getD [] ≠ shape) :
      Refusal t parent name body
        (.tupleShapeMismatch (parent.child name) shape (body.tupleShape?.getD []))
  | taken (h : t.contains (parent.child name) = true) :
      Refusal t parent name body (.nameCollision parent name)

variable {t : Tree} {parent : Path} {name : String} {body : Body} {place : Option ObjectId}

theorem objectAt_of_walk {id : ObjectId} {o : Object}
    (hid : t.links.walk none parent.names = some (some id)) (ho : t.object? id = some o) :
    t.objectAt parent = .ok o :=
  objectAt_eq_ok.mpr ⟨id, idOf?_eq_some.mpr hid, ho⟩

theorem checkContainer_refusesFor {o : Object} (ho : t.objectAt parent = .ok o) :
    RefusesFor (Refusal t parent name body) (checkContainer parent o name body) := by
  rw [checkContainer]
  cases hkind : o.kind.isContainer with
  | false => exact .error (.underLeaf ho hkind)
  | true =>
      rw [Bool.not_true, if_neg Bool.false_ne_true]
      split
      · next shape hmatrix =>
          split
          · next hunfit => exact .error (.unfit ho hmatrix hunfit)
          · next hfit =>
              dsimp only
              split
              · exact .ok
              · next hne => exact .error (.mismatched ho hmatrix hfit hne)
      · exact .ok

theorem checkAttach_refusesFor (h : Linked t)
    (hplace : t.links.walk none parent.names = some place) :
    RefusesFor (Refusal t parent name body) (t.checkAttach parent place name body) := by
  have hfree : RefusesFor (Refusal t parent name body)
      (if t.hasChild place name then throw (TreeError.nameCollision parent name) else pure ()) := by
    rw [hasChild_eq, ← contains_child hplace]
    split
    · next htaken => exact .error (.taken htaken)
    · exact .ok
  cases place with
  | none => exact hfree
  | some id =>
      obtain ⟨o, ho⟩ := h.has hplace
      rw [checkAttach.eq_def]
      simp only [ho]
      exact (checkContainer_refusesFor (objectAt_of_walk hplace ho)).bind fun _ _ => hfree

/-- Whatever an insertion is refused with, one of the reasons holds. -/
theorem checkInsert_refusesFor (h : Linked t) :
    RefusesFor (Refusal t parent name body) (t.checkInsert parent name body) := by
  have hname : RefusesFor (Refusal t parent name body) (TreeError.checkName name) := by
    intro e he
    cases hvalid : validName name with
    | true =>
        rw [TreeError.checkName_eq_ok.mpr hvalid] at he
        cases he
    | false =>
        rw [TreeError.checkName, checkName, hvalid] at he
        cases he
        exact .invalid hvalid
  have hparent : RefusesFor (Refusal t parent name body)
      (t.parentId parent (.parentNotFound (parent.child name) parent)) := by
    rw [parentId]
    cases hroot : parent.isRoot with
    | true => exact .ok
    | false =>
        cases hid : t.idOf? parent with
        | some id => exact .ok
        | none => exact .error (.orphan hroot (by rw [contains, hid]; rfl))
  have hrest : RefusesFor (Refusal t parent name body) (do
      let id ← t.parentId parent (.parentNotFound (parent.child name) parent)
      t.checkAttach parent id name body
      return id) :=
    hparent.bind fun id hid =>
      (checkAttach_refusesFor h (parentId_eq_ok.mp hid)).bind fun _ _ => .ok
  rw [checkInsert.eq_def]
  refine hname.bind fun _ _ => ?_
  cases hshape : body.tupleShape? with
  | none => exact hrest
  | some shape =>
      refine RefusesFor.bind (fun e he => ?_) fun _ _ => hrest
      rw [checkShape] at he
      split at he
      · cases he
      · next hsize =>
          cases he
          exact .tooLarge hshape hsize

/-- Next to a child of a parent, what has the same tuples is refused for its name only. -/
theorem Refusal.taken_beside (h : WellFormed t) {sibling : String} {o : Object} {shape : Shape}
    {e : TreeError} (hr : Refusal t parent name body e) (hvalid : validName name = true)
    (ho : t.objectAt (parent.child sibling) = .ok o) (hold : o.body.HasTuples shape)
    (hnew : body.HasTuples shape) : e = .nameCollision parent name := by
  obtain ⟨id, hid, hobj⟩ := objectAt_eq_ok.mp ho
  obtain ⟨o', ho', -, hplace⟩ := h.object_at hid
  cases Option.some.inj (hobj.symm.trans ho')
  have hholds : ∀ c, t.objectAt parent = .ok c → Holds c o.body := by
    intro c hc
    obtain ⟨i, hi, hc⟩ := objectAt_eq_ok.mp hc
    have hparent := Option.some.inj (hplace.symm.trans (idOf?_eq_some.mp hi))
    obtain ⟨c', hc', hholds⟩ := h.accepts_child hobj i hparent
    cases Option.some.inj (hc.symm.trans hc')
    exact hholds
  -- what a matrix asks of the new object it has asked of the old one
  have hfits : ∀ c s, t.objectAt parent = .ok c → c.body = .matrix s → body.HasTuples s := by
    intro c s hc hmatrix
    have hchild := (hholds c hc).2 s hmatrix
    have hsame : s = shape := Option.some.inj
      ((Body.tupleShape?_of_hasTuples hchild).symm.trans (Body.tupleShape?_of_hasTuples hold))
    exact hsame ▸ hnew
  cases hr with
  | invalid hbad => cases hvalid.symm.trans hbad
  | tooLarge hshape hsize =>
      have hsame := (Body.tupleShape?_of_hasTuples hnew).symm.trans hshape
      have hsome := Body.fits_of_sound (h.sound hobj) shape (Body.tupleShape?_of_hasTuples hold)
      rw [Option.some.inj hsame, hsize] at hsome
      cases hsome
  | orphan hroot hgone =>
      rcases place_iff.mp ⟨_, hplace⟩ with rfl | hthere
      · cases hroot
      · cases hthere.symm.trans hgone
  | underLeaf hc hleaf => cases (hholds _ hc).1.symm.trans hleaf
  | unfit hc hmatrix hunfit => exact absurd hunfit (hasTuples_iff.mp (hfits _ _ hc hmatrix)).1
  | mismatched hc hmatrix _ hne => exact absurd (hasTuples_iff.mp (hfits _ _ hc hmatrix)).2 hne
  | taken => rfl

end Tree

/-! ## Edits -/

namespace Edit

open FilterTree.Tree

variable {t : Tree} {parent : Path} {name : String} {body : Body}

theorem insert_refusesFor (h : Linked t) :
    RefusesFor (Refusal t parent name body) ((insert parent name body).on t).1 :=
  .on_ask_bind (checkInsert_refusesFor h) fun _ _ => .of_succeeds ⟨_, _, rfl⟩

theorem create_refusesFor (h : Linked t) :
    RefusesFor (Refusal t parent name body) ((create (parent.child name) body).on t).1 := by
  have hsplit : splitPath (parent.child name) = .ok (parent, name) := splitPath_eq_ok.mpr rfl
  rw [create]
  refine .on_ask_bind (by rw [hsplit]; exact .ok) fun a ha => ?_
  cases hsplit.symm.trans ha
  exact insert_refusesFor h

/-- A grid with a valid name for its matrix and with a size is refused for where it is to be put. -/
theorem createImage_refusesFor (h : WellFormed t) {dimensions : Triple Nat}
    {spacing origin : Triple Float32} {cellDataName : String}
    (hname : validName cellDataName = true)
    (hshape : (Geometry.bareImage dimensions spacing origin).elementShape.size?.isSome) :
    RefusesFor (Refusal t parent name (.geometry (.bareImage dimensions spacing origin)))
      ((createImage (parent.child name) dimensions spacing origin cellDataName).on t).1 := by
  rw [createImage]
  refine .on_ask_bind (by rw [TreeError.checkName_eq_ok.mpr hname]; exact .ok) fun _ _ => ?_
  refine .on_ask_bind (by rw [checkShape_eq_ok.mpr hshape]; exact .ok) fun _ _ => ?_
  refine .on_bind (create_refusesFor h.toLinked) fun id u hcreate => ?_
  obtain ⟨parent', name', place, hpath, hi, rfl, rfl⟩ := create_eq_ok.mp hcreate
  cases (splitPath_eq_ok.mpr rfl).symm.trans (splitPath_eq_ok.mpr hpath)
  have hbelow := hi.below h rfl (fun _ => by simp) hname
    (Body.fits_of_sound (show Body.Sound (.matrix _) from hshape))
  exact .of_succeeds (.bind (insert_eq_ok.mpr ⟨_, hbelow, rfl, rfl⟩) ⟨_, _, rfl⟩)

end Edit

end FilterTree
