import FilterTree.Proofs.Refusal
import FilterTree.Proofs.Typed

/-!
# What an accepted plan leaves open

A plan is accepted before its actions are tried, so something can be left that
only the tree objects to. What that is follows from what has been looked at by
then: the names and that the new paths are free at the gate, the sizes and the
tuples of a matrix around a new array in the plan. For the filters that create,
the parent is left: whether it is there, and whether it takes what is put under
it. For the misorientations, which stand next to the orientations, it is the
other way round. The parent is there and takes them, but nobody has looked
whether their names are free.

Sizes are looked at twice and in two orders. A grid is planned as x, y, z and
stored slowest first, and partial products are what overflows; the order makes
no difference only because a grid without cells has been refused before.
-/

namespace FilterTree

theorem elementCount?_of_checkedCount {what : String} {tuples components : Shape} {n : Nat}
    (h : checkedCount what tuples components = .ok n) :
    (Shape.elementCount? tuples components).isSome = true := by
  have h := check_mapError_eq_ok.mp h
  rw [Shape.elementCount] at h
  split at h
  · next hn => exact Option.isSome_of_eq_some hn
  · cases h

/-! ## What the gate has looked at -/

namespace Parameter

variable {p : Parameter} {t : Tree} {kind : ParameterKind} {path : Path} {name : String}

theorem checkName_eq_ok : p.checkName name = .ok () ↔ validName name = true := by
  rw [checkName]
  split <;> simp_all

theorem checkValue_creation (h : p.kind.isCreation = true) :
    p.checkValue (.path path) = p.checkName (path.name?.getD "") := by
  cases hkind : p.kind with
  | groupCreation | arrayCreation => simp [checkValue, hkind, ParameterKind.accepts,
      ParameterKind.takesPath]
  | _ => simp [hkind, ParameterKind.isCreation] at h

theorem checkSelection_creation (h : kind.isCreation = true) :
    checkSelection t kind (.path path) = .ok () ↔ t.contains path = false := by
  cases kind with
  | groupCreation | arrayCreation => cases hpath : t.contains path <;> simp [checkSelection, hpath]
  | _ => simp [ParameterKind.isCreation] at h

end Parameter

namespace Schema

variable {s : Schema} {p : Parameter} {t : Tree} {bound : Arguments} {key : String}

/-- A parameter is active while one of its links holds. -/
theorem isActive_of_link {group : String} {b : Bool} (hl : ⟨group, key, b⟩ ∈ s.links)
    (hget : bound.get .bool group = .ok b) : s.isActive key bound = true := by
  obtain ⟨value, hvalue, htake⟩ := Arguments.get_eq_ok.mp hget
  have hgroup : s.groupValue? group bound = some b := by
    rw [groupValue?, hvalue]
    exact htake
  have hmem : ⟨group, key, b⟩ ∈ s.links.filter fun l => l.child == key :=
    List.mem_filter.mpr ⟨hl, beq_self_eq_true key⟩
  rw [isActive, Bool.or_eq_true]
  exact .inr (List.any_eq_true.mpr ⟨_, hmem, by simp [hgroup]⟩)

/-- Arguments that have been bound and have passed the check before planning. -/
structure Passes (s : Schema) (t : Tree) (bound : Arguments) : Prop where
  consistent : s.Consistent
  given : ∃ args, (s.bind args).outcome = .ok bound
  checked : (s.checkBefore bound t).outcome = .ok ()

namespace Passes

theorem checkValue (h : s.Passes t bound) (hp : s.params.get? key = some p)
    (hactive : s.isActive key bound = true) {value : Argument}
    (hvalue : bound.get? key = some value) : p.checkValue value = .ok () := by
  obtain ⟨args, hbound⟩ := h.given
  obtain ⟨value', hvalue', -, hchecked⟩ := h.consistent.bound_spec hbound hp
  cases Option.some.inj (hvalue.symm.trans hvalue')
  exact hchecked hactive

theorem checkSelection (h : s.Passes t bound) (hp : s.params.get? key = some p)
    (hactive : s.isActive key bound = true) {value : Argument}
    (hvalue : bound.get? key = some value) :
    Parameter.checkSelection t p.kind value = .ok () := by
  obtain ⟨hmem, rfl⟩ := h.consistent.keyed.mem_of_get? hp
  have hnone := checkTree_eq_ok.mp h.checked p hmem hactive rfl
  exact selectionFailure?_eq_none.mp hnone value hvalue

/-- What is to be created has a valid name, and there is nothing yet at its path. -/
theorem creation (h : s.Passes t bound) (hp : s.params.get? key = some p)
    (hkind : p.kind.isCreation = true) (hactive : s.isActive key bound = true) {path : Path}
    (hget : bound.get .path key = .ok path) :
    ∃ (parent : Path) (name : String), path = parent.child name ∧ validName name = true ∧
      t.contains path = false := by
  have hvalue := Arguments.get?_of_get_path hget
  have hname := h.checkValue hp hactive hvalue
  have hfree := h.checkSelection hp hactive hvalue
  rw [Parameter.checkValue_creation hkind, Parameter.checkName_eq_ok] at hname
  rw [Parameter.checkSelection_creation hkind] at hfree
  rcases List.eq_nil_or_concat path.names with hnil | ⟨names, name, hnames⟩
  · -- the root has no name, and the empty name is not valid
    rw [Path.name?, hnil] at hname
    exact absurd hname (by decide)
  · obtain rfl : path = Path.child ⟨names⟩ name :=
      congrArg Path.mk (hnames.trans List.concat_eq_append)
    exact ⟨_, name, rfl, by simpa using hname, hfree⟩

/-- What is to be created next to a selection has a valid name. -/
theorem objectName (h : s.Passes t bound) (hp : s.params.get? key = some p)
    (hkind : p.kind = .objectName) (hactive : s.isActive key bound = true) {name : String}
    (hget : bound.get .string key = .ok name) : validName name = true := by
  obtain ⟨value, hvalue, htake⟩ := Arguments.get_eq_ok.mp hget
  have hcheck := h.checkValue hp hactive hvalue
  have haccepts := Parameter.accepts_of_checkValue hcheck
  rw [hkind] at haccepts
  cases value with
  | string text =>
      cases htake
      simp only [Parameter.checkValue, hkind, ParameterKind.accepts] at hcheck
      exact Parameter.checkName_eq_ok.mp hcheck
  | _ => cases haccepts

end Passes

end Schema

namespace Filter

variable {f : Filter} {t : Tree} {args : Arguments} {run : Run} {batch : Batch}

/-- What has been planned behind the gate. -/
theorem planned_of_preflight (hconsistent : f.schema.Consistent)
    {plan : Tree → Arguments → Except Failure Plan}
    (hplan : ∀ t bound, f.plan t bound = pure (.ofExcept (plan t bound)))
    (hok : (f.preflight t args run).1.actions.outcome = .ok batch) :
    ∃ bound q, f.schema.Passes t bound ∧ plan t bound = .ok q ∧
      q.actions.outcome = .ok batch := by
  obtain ⟨bound, q, hbound, hchecked, hq, hout⟩ := (preflight_eq_ok hplan).mp hok
  exact ⟨bound, q, ⟨hconsistent, ⟨args, hbound⟩, hchecked⟩, hq, hout⟩

/-- What follows from whatever can be planned behind the gate follows from a preflight. -/
theorem of_preflight {Q : Prop} (hconsistent : f.schema.Consistent)
    (hok : (f.preflight t args run).1.actions.outcome = .ok batch)
    {plan : Tree → Arguments → Except Failure Plan}
    (hplan : ∀ t bound, f.plan t bound = pure (.ofExcept (plan t bound)))
    (hspec : ∀ {bound q}, f.schema.Passes t bound → plan t bound = .ok q →
      q.actions.outcome = .ok batch → Q) : Q := by
  obtain ⟨bound, q, hpass, hq, hout⟩ := planned_of_preflight hconsistent hplan hok
  exact hspec hpass hq hout

end Filter

/-! ## Batches that are refused -/

namespace RefusesFor

variable {P Q : TreeError → Prop} {α : Type} {x : Except TreeError α} {mode : Mode} {t : Tree}
  {a : Action} {rest : Batch}

theorem mono (h : RefusesFor P x) (hPQ : ∀ e, P e → Q e) : RefusesFor Q x :=
  fun e he => hPQ e (h e he)

theorem applyFrom_cons {index : Nat} (ha : RefusesFor P ((a.apply mode).on t).1)
    (hrest : ∀ u, (a.apply mode).on t = (.ok (), u) →
      RefusesFor (fun e : BatchError => P e.cause) (rest.applyFrom mode (index + 1) u).1) :
    RefusesFor (fun e : BatchError => P e.cause)
      (Batch.applyFrom mode index (a :: rest) t).1 := by
  rw [Batch.applyFrom]
  rcases hon : (a.apply mode).on t with ⟨x | ⟨⟩, u⟩
  · rw [hon] at ha
    exact .error (ha x rfl)
  · exact hrest u hon

theorem apply_singleton (ha : RefusesFor P ((a.apply mode).on t).1) :
    RefusesFor (fun e : BatchError => P e.cause) (Batch.apply mode [a] t).1 :=
  .applyFrom_cons ha fun _ _ => .ok

end RefusesFor

/-- An error about the parent: it is not there, is no container, or does not take the child. -/
def TreeError.BlamesParent (e : TreeError) : Prop := e.code = -101 ∨ e.code = -104 ∨ e.code = -112

namespace Tree

variable {t : Tree} {parent : Path} {name : String} {body : Body}

/-- With a valid name, a free path, a size, and the tuples of a matrix, the parent is to blame. -/
theorem Refusal.blamesParent {e : TreeError} (hr : Refusal t parent name body e)
    (hvalid : validName name = true) (hfree : t.contains (parent.child name) = false)
    (hsize : ∀ shape, body.tupleShape? = some shape → shape.size?.isSome)
    (hmatrix : ∀ o shape, t.objectAt parent = .ok o → o.body = .matrix shape →
      ¬ (body.kind ≠ .dataArray ∧ body.kind ≠ .neighborList) →
      body.tupleShape?.getD [] = shape) : e.BlamesParent := by
  cases hr with
  | invalid hbad => cases hvalid.symm.trans hbad
  | tooLarge hshape hnone =>
      have hsome := hsize _ hshape
      rw [hnone] at hsome
      cases hsome
  | orphan => exact .inl rfl
  | underLeaf => exact .inr (.inl rfl)
  | unfit => exact .inr (.inr rfl)
  | mismatched ho hbody hfit hne => exact absurd (hmatrix _ _ ho hbody hfit) hne
  | taken hbad => cases hfree.symm.trans hbad

end Tree

namespace Action

open Edit FilterTree.Tree

variable {t : Tree} {mode : Mode} {parent : Path} {name : String} {type : ElementType}
  {tuples : Shape}

theorem createArray_refusesFor (h : Linked t) {components : Shape}
    (hcount : (Shape.elementCount? tuples components).isSome = true) :
    RefusesFor (fun e => ∃ a : DataArray, a.store.tupleShape = tuples ∧ a.store.Sound ∧
        Refusal t parent name (.array a) e)
      (((createArray (parent.child name) type tuples components).apply mode).on t).1 := by
  obtain ⟨a, ha⟩ : ∃ a, DataArray.fresh type tuples components mode.allocates = .ok a :=
    DataArray.exists_fresh hcount
  obtain ⟨-, hsame, -, hsound⟩ := DataArray.of_fresh ha
  refine .on_ask_bind (by rw [ha]; exact .ok) fun b hb => ?_
  cases ha.symm.trans (check_mapError_eq_ok.mp hb)
  exact .on_bind ((create_refusesFor h).mono fun e hr => ⟨a, hsame, hsound, hr⟩) fun _ _ _ => .ok

theorem createList_refusesFor (h : Linked t) (hsize : (Shape.size? tuples).isSome = true) :
    RefusesFor (fun e => ∃ l : NeighborList, l.store.tupleShape = tuples ∧
        Refusal t parent name (.list l) e)
      (((createList (parent.child name) type tuples).apply mode).on t).1 := by
  obtain ⟨l, hl⟩ : ∃ l, NeighborList.fresh type tuples mode.allocates = .ok l :=
    NeighborList.exists_fresh hsize
  obtain ⟨-, hsame, -⟩ := NeighborList.of_fresh hl
  refine .on_ask_bind (by rw [hl]; exact .ok) fun m hm => ?_
  cases hl.symm.trans (check_mapError_eq_ok.mp hm)
  exact .on_bind ((create_refusesFor h).mono fun e hr => ⟨l, hsame, hr⟩) fun _ _ _ => .ok

end Action

namespace Builtin

open FilterTree.Tree

variable {t : Tree} {mode : Mode} {bound : Arguments} {plan : Plan} {batch : Batch}

/-! ## The filters that create -/

theorem CreateGroup.refusesFor (h : t.WellFormed) (hpass : schema.Passes t bound)
    (hplan : CreateGroup.plan bound = .ok plan) (hout : plan.actions.outcome = .ok batch) :
    RefusesFor (fun e : BatchError => e.cause.BlamesParent) (batch.apply mode t).1 := by
  obtain ⟨path, hpath, hplan⟩ := check_bind_eq_ok.mp hplan
  cases hplan
  cases hout
  obtain ⟨parent, name, rfl, hname, hfree⟩ := hpass.creation rfl rfl rfl hpath
  refine .apply_singleton (.on_bind ((Edit.create_refusesFor h.toLinked).mono fun e hr => ?_)
    fun _ _ _ => .ok)
  exact hr.blamesParent hname hfree (fun _ hshape => nomatch hshape)
    fun _ _ _ _ hfit => absurd (by simp [Body.kind]) hfit

theorem CreateMatrix.refusesFor (h : t.WellFormed) (hpass : schema.Passes t bound)
    (hplan : CreateMatrix.plan bound = .ok plan) (hout : plan.actions.outcome = .ok batch) :
    RefusesFor (fun e : BatchError => e.cause.BlamesParent) (batch.apply mode t).1 := by
  obtain ⟨path, hpath, hplan⟩ := check_bind_eq_ok.mp hplan
  obtain ⟨tuples, -, hplan⟩ := check_bind_eq_ok.mp hplan
  obtain ⟨count, hcount, hplan⟩ := check_bind_eq_ok.mp hplan
  cases hplan
  cases hout
  obtain ⟨parent, name, rfl, hname, hfree⟩ := hpass.creation rfl rfl rfl hpath
  refine .apply_singleton (.on_bind ((Edit.create_refusesFor h.toLinked).mono fun e hr => ?_)
    fun _ _ _ => .ok)
  have hsize := Shape.size?_isSome_of_elementCount? (elementCount?_of_checkedCount hcount)
  exact hr.blamesParent hname hfree (Body.fits_of_sound (show Body.Sound (.matrix _) from hsize))
    fun _ _ _ _ hfit => absurd (by simp [Body.kind]) hfit

theorem CreateImage.refusesFor (h : t.WellFormed) (hpass : schema.Passes t bound)
    (hplan : CreateImage.plan bound = .ok plan) (hout : plan.actions.outcome = .ok batch) :
    RefusesFor (fun e : BatchError => e.cause.BlamesParent) (batch.apply mode t).1 := by
  obtain ⟨path, hpath, hplan⟩ := check_bind_eq_ok.mp hplan
  obtain ⟨dimensions, -, hplan⟩ := check_bind_eq_ok.mp hplan
  obtain ⟨origin, -, hplan⟩ := check_bind_eq_ok.mp hplan
  obtain ⟨spacing, -, hplan⟩ := check_bind_eq_ok.mp hplan
  obtain ⟨cellDataName, hcellData, hplan⟩ := check_bind_eq_ok.mp hplan
  dsimp only at hplan
  split at hplan
  · cases hplan
  · next hcells =>
      split at hplan
      · cases hplan
      · obtain ⟨count, hcount, hplan⟩ := check_bind_eq_ok.mp hplan
        cases hplan
        cases hout
        obtain ⟨parent, name, rfl, hname, hfree⟩ := hpass.creation rfl rfl rfl hpath
        have hcellName := hpass.objectName rfl rfl rfl hcellData
        -- the order in which the dimensions are stored is not the one they were counted in
        have hsize : (Geometry.bareImage dimensions spacing origin).elementShape.size?.isSome :=
          Shape.size?_isSome_of_perm (List.reverse_perm dimensions.toList).symm
            (by simpa using hcells)
            (Shape.size?_isSome_of_elementCount? (elementCount?_of_checkedCount hcount))
        refine .apply_singleton (.on_bind ((Edit.createImage_refusesFor h hcellName hsize).mono
          fun e hr => ?_) fun _ _ _ => .ok)
        exact hr.blamesParent hname hfree (fun _ hshape => nomatch hshape)
          fun _ _ _ _ hfit => absurd (by simp [Body.kind, Geometry.bareImage, Geometry.kind]) hfit

namespace CreateArray

/-- Inside a matrix the tuples are those of the matrix. -/
theorem tuples_of_matrix {parent : Path} {tuples shape : Shape} {o : Object}
    (htuples : tuplesFor t parent bound = .ok tuples) (ho : t.objectAt parent = .ok o)
    (hmatrix : o.body = .matrix shape) : tuples = shape := by
  have hkind : t.kindAt parent = .ok .attributeMatrix := by
    rw [kindAt, ho, Except.map, Object.kind, hmatrix]
    rfl
  have hshape : t.matrixShapeAt parent = .ok shape := matrixShapeAt_eq_ok.mpr ⟨o, ho, hmatrix⟩
  rw [tuplesFor] at htuples
  split at htuples
  · next hroot =>
      obtain ⟨id, hid, -⟩ := objectAt_eq_ok.mp ho
      exact absurd (List.isEmpty_iff.mp hroot) (names_ne_nil hid)
  · rw [hkind, hshape] at htuples
    cases htuples
    rfl

theorem refusesFor (h : t.WellFormed) (hpass : schema.Passes t bound)
    (hplan : CreateArray.plan t bound = .ok plan) (hout : plan.actions.outcome = .ok batch) :
    RefusesFor (fun e : BatchError => e.cause.BlamesParent) (batch.apply mode t).1 := by
  obtain ⟨type, -, hplan⟩ := check_bind_eq_ok.mp hplan
  obtain ⟨components, -, hplan⟩ := check_bind_eq_ok.mp hplan
  obtain ⟨path, hpath, hplan⟩ := check_bind_eq_ok.mp hplan
  obtain ⟨text, -, hplan⟩ := check_bind_eq_ok.mp hplan
  dsimp only at hplan
  split at hplan
  · cases hplan
  · split at hplan
    · cases hplan
    · obtain ⟨tuples, htuples, hplan⟩ := check_bind_eq_ok.mp hplan
      obtain ⟨count, hcount, hplan⟩ := check_bind_eq_ok.mp hplan
      cases hplan
      cases hout
      obtain ⟨parent, name, rfl, hname, hfree⟩ := hpass.creation rfl rfl rfl hpath
      rw [Path.parent?_child, Option.getD_some] at htuples
      refine .apply_singleton ((Action.createArray_refusesFor h.toLinked
        (elementCount?_of_checkedCount hcount)).mono fun e hr => ?_)
      obtain ⟨a, hsame, hsound, hr⟩ := hr
      refine hr.blamesParent hname hfree (Body.fits_of_sound hsound) fun o shape ho hmatrix _ => ?_
      exact hsame.trans (tuples_of_matrix htuples ho hmatrix)

end CreateArray

/-! ## The filter that creates next to a selection -/

namespace Misorientation

/-- Next to an array, an array or a list with its tuples is refused for its name only. -/
theorem refusesFor_beside (h : t.WellFormed) {parent : Path} {sibling name : String}
    {orientations : DataArray} (ha : t.arrayAt (parent.child sibling) = .ok orientations)
    (hname : validName name = true) {body : Body} {e : TreeError}
    (hr : Refusal t parent name body e)
    (hbody : body.HasTuples orientations.store.tupleShape) : e.code = -102 := by
  obtain ⟨o, ho, hold⟩ := arrayAt_eq_ok.mp ha
  have hsame : o.body.HasTuples orientations.store.tupleShape := by
    rw [hold]
    exact rfl
  rw [hr.taken_beside h hname ho hsame hbody]
  rfl

/-- What is created stands next to the orientations and has a valid name. -/
theorem outputs_beside (hpass : schema.Passes t bound) {p : Places} (hplaces : places bound = .ok p)
    {parent : Path} {sibling : String} (hsibling : p.orientations = parent.child sibling) :
    (∃ name, validName name = true ∧ p.list = parent.child name) ∧
      ∀ path ∈ p.average, ∃ name, validName name = true ∧ path = parent.child name := by
  have hspec := places_spec hplaces
  have hparent : p.orientations.parent?.getD .root = parent := by
    rw [hsibling, Path.parent?_child, Option.getD_some]
  constructor
  · obtain ⟨name, hname, hlist⟩ := hspec.list
    exact ⟨name, hpass.objectName rfl rfl rfl hname, hparent ▸ hlist⟩
  · intro path hpath
    obtain ⟨hwanted, name, hname, hpath⟩ := hspec.average path hpath
    have hactive : schema.isActive averageNameKey bound = true :=
      Schema.isActive_of_link List.mem_cons_self hwanted
    exact ⟨name, hpass.objectName rfl rfl hactive hname, hparent ▸ hpath⟩

theorem refusesFor (h : t.WellFormed) (hpass : schema.Passes t bound)
    (hplan : Misorientation.plan t bound = .ok plan) (hout : plan.actions.outcome = .ok batch) :
    RefusesFor (fun e : BatchError => e.cause.code = -102) (batch.apply mode t).1 := by
  obtain ⟨p, a, hplaces, -, ha, rfl⟩ := plan_spec hplan hout
  obtain ⟨o, ho, hbody⟩ := arrayAt_eq_ok.mp ha
  obtain ⟨id, hid, hobj⟩ := objectAt_eq_ok.mp ho
  obtain ⟨parent, sibling, hsibling⟩ := eq_child_of_idOf? hid
  obtain ⟨⟨listName, hlistName, hlist⟩, haverage⟩ := outputs_beside hpass hplaces hsibling
  rw [hsibling] at ha
  have hsize : (Shape.size? a.store.tupleShape).isSome = true :=
    Body.fits_of_sound (h.sound hobj) _ (by rw [hbody]; rfl)
  have hcreatesList : ∀ v : Tree, v.WellFormed → v.arrayAt (parent.child sibling) = .ok a →
      RefusesFor (fun e => e.code = -102)
        (((Action.createList p.list .float32 a.store.tupleShape).apply mode).on v).1 := by
    intro v hv hav
    rw [hlist]
    refine (Action.createList_refusesFor hv.toLinked hsize).mono fun e hr => ?_
    obtain ⟨l, hsame, hr⟩ := hr
    exact refusesFor_beside hv hav hlistName hr hsame
  cases hpath : p.average with
  | none => exact .apply_singleton (hcreatesList t h ha)
  | some path =>
      obtain ⟨name, hname, rfl⟩ := haverage path hpath
      refine .applyFrom_cons ((Action.createArray_refusesFor h.toLinked ?_).mono fun e hr => ?_)
        fun u hu => .applyFrom_cons (hcreatesList u ?_ ?_) fun _ _ => .ok
      · rw [Shape.elementCount?_one]
        exact hsize
      · obtain ⟨b, hsame, -, hr⟩ := hr
        exact refusesFor_beside h ha hname hr hsame
      · exact (Action.makes _ h _ _ hu).wellFormed h
      · exact (Action.createArray_retains h hu).1.arrayAt ha

end Misorientation

/-! ## What is left -/

/--
When the preflight of a filter that creates a group, a matrix, an array or a grid
is accepted, its actions are carried out by the tree it was made for, or refused
because the parent is not there (-101), is no container (-104) or does not take
such a child (-112); never for a name, for what is already there, or for a shape.
When the preflight of the misorientations is accepted, their actions are carried
out or refused because a name is taken (-102).
-/
theorem accepted_leaves_open (h : t.WellFormed) (mode : Mode) (args : Arguments) (run : Run) :
    (∀ f ∈ [CreateGroup.filter, CreateMatrix.filter, CreateArray.filter, CreateImage.filter],
      ∀ batch, (f.preflight t args run).1.actions.outcome = .ok batch →
      ∀ e u, batch.apply mode t = (.error e, u) →
        e.cause.code = -101 ∨ e.cause.code = -104 ∨ e.cause.code = -112) ∧
    ∀ batch, (Misorientation.filter.preflight t args run).1.actions.outcome = .ok batch →
      ∀ e u, batch.apply mode t = (.error e, u) → e.cause.code = -102 := by
  constructor
  · intro f hf batch hok e u herr
    simp only [List.mem_cons, List.not_mem_nil, or_false] at hf
    have hconsistent : f.schema.Consistent := consistent_of_mem (mem_filters.mpr (by tauto))
    have hblames : RefusesFor (fun e : BatchError => e.cause.BlamesParent)
        (batch.apply mode t).1 := by
      rcases hf with rfl | rfl | rfl | rfl
      · exact Filter.of_preflight hconsistent hok (fun _ _ => rfl) (CreateGroup.refusesFor h)
      · exact Filter.of_preflight hconsistent hok (fun _ _ => rfl) (CreateMatrix.refusesFor h)
      · exact Filter.of_preflight hconsistent hok (fun _ _ => rfl) (CreateArray.refusesFor h)
      · exact Filter.of_preflight hconsistent hok (fun _ _ => rfl) (CreateImage.refusesFor h)
    exact hblames e (congrArg Prod.fst herr)
  · intro batch hok e u herr
    have hconsistent := consistent_of_mem (f := Misorientation.filter)
      (mem_filters.mpr (by simp only [or_true]))
    exact Filter.of_preflight hconsistent hok (fun _ _ => rfl) (Misorientation.refusesFor h) e
      (congrArg Prod.fst herr)

/-- What the misorientations of two features need, and a group by the name of their list. -/
def features : Batch :=
  [.createArray (.single "AvgQuats") .float32 [2] [4],
    .createArray (.single "Phases") .int32 [2] [1],
    .createList (.single "Neighbors") .int32 [2],
    .createArray (.single "Structures") .uint32 [2] [1],
    .createGroup (.single "MisorientationList")]

/-- The arguments that name these features. -/
def featureArguments : Arguments :=
  (((Arguments.none.insert "neighbor_list_path" (.path (.single "Neighbors"))).insert
    "avg_quats_path" (.path (.single "AvgQuats"))).insert
    "feature_phases_path" (.path (.single "Phases"))).insert
    "crystal_structures_path" (.path (.single "Structures"))

/-- A group below nothing, and a list where there is a group. -/
theorem accepted_leaves_open_features :
    ∃ t, features.apply .preflight .empty = (.ok (), t) ∧ t.WellFormed ∧
      (∃ batch e u, (CreateGroup.filter.preflight t (Arguments.none.insert "data_object_path"
          (.path ⟨["nowhere", "group"]⟩)) (.new 1)).1.actions.outcome = .ok batch ∧
        batch.apply .execute t = (.error e, u) ∧
        (e.cause.code = -101 ∨ e.cause.code = -104 ∨ e.cause.code = -112)) ∧
      ∃ batch e u, (Misorientation.filter.preflight t featureArguments (.new 1)).1.actions.outcome =
          .ok batch ∧
        batch.apply .execute t = (.error e, u) ∧ e.cause.code = -102 := by
  have hok : features.apply .preflight .empty = (.ok (), (features.apply .preflight .empty).2) :=
    rfl
  have h := (Batch.carries_of_apply wellFormed_empty hok).wellFormed wellFormed_empty
  refine ⟨_, hok, h, ?_, ?_⟩
  · have hplan : (CreateGroup.filter.preflight (features.apply .preflight .empty).2
        (Arguments.none.insert "data_object_path" (.path ⟨["nowhere", "group"]⟩))
        (.new 1)).1.actions.outcome = .ok [.createGroup ⟨["nowhere", "group"]⟩] := rfl
    refine ⟨_, _, _, hplan, rfl, ?_⟩
    exact (accepted_leaves_open h .execute _ (.new 1)).1 _ List.mem_cons_self _ hplan _ _ rfl
  · have hplan : (Misorientation.filter.preflight (features.apply .preflight .empty).2
        featureArguments (.new 1)).1.actions.outcome =
          .ok [.createList (.single "MisorientationList") .float32 [2]] := rfl
    refine ⟨_, _, _, hplan, rfl, ?_⟩
    exact (accepted_leaves_open h .execute _ (.new 1)).2 _ hplan _ _ rfl

end Builtin

end FilterTree
