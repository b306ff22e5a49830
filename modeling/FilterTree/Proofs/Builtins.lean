import FilterTree.Builtin.Catalog
import FilterTree.Proofs.Foresight
import FilterTree.Proofs.Lasting

/-!
# The built-in filters are predictable

The plan of a built-in filter asks the tree for names, kinds and shapes only.
What its body looks for again is there after its own actions: most filters
consume what they select or select nothing, a matrix that was resized is still
one, a destination does not lie below what is moved to it, and where arrays and
lists are read the filter only creates. Seven bodies are empty, and the one that
fills an array finds it as the filter's action has created it. What is left to
fail is the computation of misorientations, which looks at elements.
-/

namespace FilterTree

/-! ## Arguments, plans and bodies -/

theorem Attempt.report_apply {α : Type} {a : Attempt α} {w : Workspace} :
    a.report w = (.ofExcept (a.run w).1, (a.run w).2) := rfl

/-- Only a path is read as a path. -/
theorem Arguments.get?_of_get_path {args : Arguments} {key : String} {path : Path}
    (h : args.get .path key = .ok path) : args.get? key = some (.path path) := by
  obtain ⟨value, hvalue, htake⟩ := Arguments.get_eq_ok.mp h
  cases value with
  | path q =>
      cases htake
      exact hvalue
  | _ => cases htake

theorem Batch.apply_singleton {mode : Mode} {a : Action} {t u : Tree}
    (h : Batch.apply mode [a] t = (.ok (), u)) : (a.apply mode).on t = (.ok (), u) := by
  rw [apply, applyFrom] at h
  split at h
  · next v hv =>
      cases h
      exact hv
  · cases h

theorem Batch.apply_singleton_eq_error {mode : Mode} {a : Action} {t u : Tree} {e : BatchError}
    (h : Batch.apply mode [a] t = (.error e, u)) :
    e.index = 0 ∧ e.action = a ∧ (a.apply mode).on t = (.error e.cause, u) := by
  rw [apply, applyFrom] at h
  split at h
  · cases h
  · next x v hv =>
      cases h
      exact ⟨rfl, rfl, hv⟩

namespace Filter

variable {f : Filter} {bound : Arguments} {t u : Tree}

/-- A body that does nothing. -/
def Idle (f : Filter) : Prop := ∀ bound, f.body bound = pure (.ok .finished)

theorem Idle.infallible (h : f.Idle) : f.Infallible := by
  intro bound t u run failures _ hfails
  rw [h bound] at hfails
  cases hfails

/-- A filter whose plan looks at no elements, whose body does nothing, and whose selections last. -/
theorem Idle.predictable {plan : Tree → Arguments → Except Failure Plan} (h : f.Idle)
    (hplan : ∀ t bound, f.plan t bound = pure (.ofExcept (plan t bound)))
    (hblind : ∀ t bound, plan t.shell bound = plan t bound)
    (hlasting : ∀ {bound t u}, f.ActedOn bound t u →
      (f.schema.checkAfter bound u).outcome = .ok ()) :
    f.Predictable where
  silent := fun t bound => ⟨_, hplan t bound⟩
  blind := fun t bound => by rw [hplan, hplan, hblind]
  lasting := hlasting
  refills := fun {bound _ _ _} hacted => by
    rw [h bound]
    exact ⟨⟨.refl, hacted.wellFormed_after, rfl⟩, fun hout => nomatch hout⟩

theorem planned_of_pure {r : Except Failure Plan} {plan : Plan} {batch : Batch}
    (hplan : f.plan t bound = pure (.ofExcept r)) (hsame : f.plan t bound = pure plan)
    (hout : plan.actions.outcome = .ok batch) :
    ∃ plan, r = .ok plan ∧ plan.actions.outcome = .ok batch := by
  rw [hplan] at hsame
  cases congrArg Prod.fst (congrFun hsame (Run.new 1))
  cases r with
  | error e => cases hout
  | ok plan => exact ⟨plan, rfl, hout⟩

/-- What a filter has planned that has acted. -/
theorem ActedOn.planned (h : f.ActedOn bound t u) {r : Except Failure Plan}
    (hplan : f.plan t bound = pure (.ofExcept r)) :
    ∃ plan batch, r = .ok plan ∧ plan.actions.outcome = .ok batch ∧
      batch.apply .execute t = (.ok (), u) := by
  obtain ⟨_, batch, hsame, hout, happly⟩ := h.acted
  obtain ⟨plan, hr, hout⟩ := planned_of_pure hplan hsame hout
  exact ⟨plan, batch, hr, hout, happly⟩

/-- Where nothing lasts the second check passes. -/
theorem ActedOn.checkAfter_of_none (h : f.ActedOn bound t u) (hnone : f.schema.lasting = []) :
    (f.schema.checkAfter bound u).outcome = .ok () := by
  refine Schema.checkAfter_of_lasting h.checked fun p hp => ?_
  rw [hnone] at hp
  cases hp

end Filter

namespace Builtin

open FilterTree.Filter

/-! ## Creating, renaming, deleting -/

theorem CreateGroup.predictable : CreateGroup.filter.Predictable :=
  Idle.predictable (f := CreateGroup.filter) (fun _ => rfl) (fun _ _ => rfl) (fun _ _ => rfl)
    fun h => h.checkAfter_of_none rfl

theorem CreateMatrix.predictable : CreateMatrix.filter.Predictable :=
  Idle.predictable (f := CreateMatrix.filter) (fun _ => rfl) (fun _ _ => rfl) (fun _ _ => rfl)
    fun h => h.checkAfter_of_none rfl

theorem CreateImage.predictable : CreateImage.filter.Predictable :=
  Idle.predictable (f := CreateImage.filter) (fun _ => rfl) (fun _ _ => rfl) (fun _ _ => rfl)
    fun h => h.checkAfter_of_none rfl

theorem Delete.predictable : Delete.filter.Predictable :=
  Idle.predictable (f := Delete.filter) (fun _ => rfl) (fun _ _ => rfl) (fun _ _ => rfl)
    fun h => h.checkAfter_of_none rfl

theorem Rename.predictable : Rename.filter.Predictable := by
  refine Idle.predictable (f := Rename.filter) (fun _ => rfl) (fun _ _ => rfl) (fun t bound => ?_)
    fun h => h.checkAfter_of_none rfl
  simp only [Rename.plan, Tree.contains_shell]

/-! ## Moving -/

namespace Move

variable {t u : Tree} {destination : Path}

theorem checkSources_shell {incoming : List String} {sources : List Path} :
    checkSources t.shell destination incoming sources =
      checkSources t destination incoming sources := by
  induction sources generalizing incoming with
  | nil => rfl
  | cons path rest ih => simp only [checkSources, Tree.contains_shell, ih]

/-- A source that was accepted: it is in place, or its name is free and nobody else's. -/
theorem checkSources_cons {incoming : List String} {path : Path} {rest : List Path}
    {warnings : List Warning}
    (h : checkSources t destination incoming (path :: rest) = .ok warnings) :
    ∃ name, path.name? = some name ∧ ¬ path.leadsTo destination ∧ ∃ incoming' warnings',
      checkSources t destination incoming' rest = .ok warnings' ∧
        (isInPlace destination path = true ∧ incoming' = incoming ∨
          isInPlace destination path = false ∧ t.contains (destination.child name) = false ∧
            name ∉ incoming ∧ incoming' = name :: incoming) := by
  rw [checkSources] at h
  split at h
  · next name hname =>
      rw [pure_bind] at h
      dsimp only at h
      split at h
      · cases h
      · next hapart =>
          refine ⟨name, hname, hapart, ?_⟩
          split at h
          · next hplace =>
              obtain ⟨ws, hws, -⟩ := check_bind_eq_ok.mp h
              exact ⟨_, ws, hws, .inl ⟨hplace, rfl⟩⟩
          · next hplace =>
              split at h
              · cases h
              · next hfree =>
                  simp only [Bool.or_eq_true, List.contains_iff_mem, not_or] at hfree
                  exact ⟨_, _, h, .inr ⟨Bool.eq_false_iff.mpr hplace,
                    Bool.eq_false_iff.mpr hfree.1, hfree.2, rfl⟩⟩
  · cases h

/-- Nothing is moved below itself. -/
theorem not_leadsTo_of_checkSources {incoming : List String} {sources : List Path}
    {warnings : List Warning} (h : checkSources t destination incoming sources = .ok warnings) :
    ∀ path ∈ sources, ¬ path.leadsTo destination := by
  induction sources generalizing incoming warnings with
  | nil => exact fun _ hp => (nomatch hp)
  | cons path rest ih =>
      obtain ⟨name, -, hapart, incoming, warnings, hrest, -⟩ := checkSources_cons h
      exact List.forall_mem_cons.mpr ⟨hapart, ih hrest⟩

theorem lasting {bound : Arguments} (h : filter.ActedOn bound t u) :
    (filter.schema.checkAfter bound u).outcome = .ok () := by
  obtain ⟨q, batch, hplan, hout, happly⟩ := @ActedOn.planned _ _ _ _ h (plan t bound) rfl
  obtain ⟨sources, -, hplan⟩ := check_bind_eq_ok.mp hplan
  obtain ⟨destination, hdestination, hplan⟩ := check_bind_eq_ok.mp hplan
  obtain ⟨warnings, hsources, hplan⟩ := check_bind_eq_ok.mp hplan
  cases hplan
  cases hout
  have hlasting : schema.lasting = [.objectSelection destinationKey "New Parent"
      "Container that receives the moved objects" .root] := rfl
  refine Schema.checkAfter_of_lasting h.checked fun p hp value hvalue hbefore => ?_
  rw [show filter.schema = schema from rfl, hlasting, List.mem_singleton] at hp
  subst hp
  cases Option.some.inj (hvalue.symm.trans (Arguments.get?_of_get_path hdestination))
  obtain ⟨id, hid, -⟩ := check_bind_eq_ok.mp hbefore
  have hstart := Tree.resolve_eq_ok.mp (check_mapError_eq_ok.mp hid)
  have hcarries := Batch.carries_of_apply h.wellFormed happly
  have hend := hcarries.keeps (I := fun t => t.idOf? destination = some id) h.wellFormed
    (fun a ha t u ht hok hq => by
      obtain ⟨path, hmoving, rfl⟩ := List.mem_map.mp ha
      have hmem := List.mem_of_mem_filter hmoving
      exact Edit.move_stays ht hok hq (not_leadsTo_of_checkSources hsources path hmem)) hstart
  exact check_bind_eq_ok.mpr
    ⟨id, check_mapError_eq_ok.mpr (Tree.resolve_eq_ok.mpr hend), rfl⟩

theorem predictable : Move.filter.Predictable := by
  refine Idle.predictable (f := Move.filter) (fun _ => rfl) (fun _ _ => rfl) (fun t bound => ?_)
    lasting
  simp only [plan, checkSources_shell]

end Move

/-! ## Resizing a matrix -/

namespace ResizeMatrix

variable {t u : Tree}

theorem checkOwner_shell {path : Path} {tuples : Shape} :
    checkOwner t.shell path tuples = checkOwner t path tuples := by
  simp only [checkOwner, Tree.geometryAt_shell, Tree.idOf?_shell]

theorem lasting {bound : Arguments} (h : filter.ActedOn bound t u) :
    (filter.schema.checkAfter bound u).outcome = .ok () := by
  obtain ⟨q, batch, hplan, hout, happly⟩ := @ActedOn.planned _ _ _ _ h (plan t bound) rfl
  obtain ⟨path, hpath, hplan⟩ := check_bind_eq_ok.mp hplan
  obtain ⟨tuples, -, hplan⟩ := check_bind_eq_ok.mp hplan
  obtain ⟨before, -, hplan⟩ := check_bind_eq_ok.mp hplan
  obtain ⟨after, -, hplan⟩ := check_bind_eq_ok.mp hplan
  obtain ⟨_, -, hplan⟩ := check_bind_eq_ok.mp hplan
  cases hplan
  cases hout
  have hlasting : schema.lasting = [.matrixSelection pathKey "Attribute Matrix"
      "Matrix whose tuple shape changes" ⟨["DataContainer", "Cell Data"]⟩] := rfl
  refine Schema.checkAfter_of_lasting h.checked fun p hp value hvalue _ => ?_
  rw [show filter.schema = schema from rfl, hlasting, List.mem_singleton] at hp
  subst hp
  cases Option.some.inj (hvalue.symm.trans (Arguments.get?_of_get_path hpath))
  have hkind := Edit.resizeMatrix_kindAt h.wellFormed (Batch.apply_singleton happly)
  show Parameter.checkKind u path _ _ = _
  rw [Parameter.checkKind, Parameter.asked, hkind]
  rfl

theorem predictable : ResizeMatrix.filter.Predictable := by
  refine Idle.predictable (f := ResizeMatrix.filter) (fun _ => rfl) (fun _ _ => rfl)
    (fun t bound => ?_) lasting
  simp only [plan, Tree.matrixShapeAt_shell, checkOwner_shell]

end ResizeMatrix

/-! ## Creating and filling an array -/

namespace CreateArray

variable {t u : Tree} {bound : Arguments} {run : Run}

theorem tuplesFor_shell {parent : Path} :
    tuplesFor t.shell parent bound = tuplesFor t parent bound := by
  simp only [tuplesFor, Tree.kindAt_shell, Tree.matrixShapeAt_shell]

/-- The filter's own action has created what its body is going to fill. -/
theorem acted_spec (h : filter.ActedOn bound t u) :
    ∃ type path text value store row, bound.get .elementType typeKey = .ok type ∧
      bound.get .path outputKey = .ok path ∧ bound.get .string valueKey = .ok text ∧
      type.parse? text = some value ∧ u.denseAt path type = .ok store ∧ store.row? = some row := by
  obtain ⟨q, batch, hplan, hout, happly⟩ := @ActedOn.planned _ _ _ _ h (plan t bound) rfl
  obtain ⟨type, htype, hplan⟩ := check_bind_eq_ok.mp hplan
  obtain ⟨components, -, hplan⟩ := check_bind_eq_ok.mp hplan
  obtain ⟨path, hpath, hplan⟩ := check_bind_eq_ok.mp hplan
  obtain ⟨text, htext, hplan⟩ := check_bind_eq_ok.mp hplan
  dsimp only at hplan
  split at hplan
  · cases hplan
  · split at hplan
    · cases hplan
    · next hvalue =>
        obtain ⟨tuples, -, hplan⟩ := check_bind_eq_ok.mp hplan
        obtain ⟨count, -, hplan⟩ := check_bind_eq_ok.mp hplan
        cases hplan
        cases hout
        obtain ⟨value, hvalue⟩ :=
          Option.ne_none_iff_exists'.mp (mt Option.isNone_iff_eq_none.mpr hvalue)
        obtain ⟨-, a, ha, hat⟩ :=
          Action.createArray_retains h.wellFormed (Batch.apply_singleton happly)
        obtain ⟨rfl, -⟩ := DataArray.of_fresh ha
        have hrow := DataArray.fresh_of_fresh ha
        exact ⟨_, path, text, value, a.store, _, htype, hpath, htext, hvalue,
          Tree.denseAt_eq_ok.mpr (Tree.arrayAt_eq_ok.mp hat), hrow⟩

/-- The body ends well, or cancelled if the run is. -/
theorem work_spec (h : filter.ActedOn bound t u) :
    ∃ w', (work bound).run ⟨u, run⟩ =
        (.ok (if w'.run.cancelled then .cancelled else .finished), w') ∧
      Workspace.Refilled ⟨u, run⟩ w' := by
  obtain ⟨type, path, text, value, store, row, htype, hpath, htext, hvalue, hstore, hrow⟩ :=
    acted_spec h
  have hget : ∀ {α : Type} {wanted : Wanted α} {key : String} {a : α} {w : Workspace},
      bound.get wanted key = .ok a →
        (Attempt.ofExcept (bound.get wanted key)).run w = (.ok a, w) := by
    intro α wanted key a w ha
    rw [Attempt.run_ofExcept, ha]
  rcases hfill : fillRow value row run with ⟨filled, run'⟩
  obtain ⟨hsize, hcontinues⟩ := fillRow_spec hfill
  refine ⟨⟨u.setBodyAt path (.array ⟨type, { store with row? := some filled }⟩), run'⟩, ?_, ?_⟩
  · refine (Attempt.run_bind_of_ok (hget htype)).trans ?_
    refine (Attempt.run_bind_of_ok (hget hpath)).trans ?_
    refine (Attempt.run_bind_of_ok (hget htext)).trans ?_
    exact fill_run (w := ⟨u, run⟩) hvalue hstore hrow hfill
  · exact Workspace.refilled_array h.wellFormed_after hstore
      (fun hsound => ⟨filled, hsize.trans (hsound.full hrow), rfl⟩) hcontinues

theorem body_spec (h : filter.ActedOn bound t u) :
    ∃ w', filter.body bound ⟨u, run⟩ =
        (.ofExcept (.ok (if w'.run.cancelled then .cancelled else .finished)), w') ∧
      Workspace.Refilled ⟨u, run⟩ w' := by
  obtain ⟨w', hwork, hrefilled⟩ := @work_spec _ _ _ run h
  refine ⟨w', ?_, hrefilled⟩
  show (work bound).report ⟨u, run⟩ = _
  rw [Attempt.report_apply, hwork]

theorem predictable : CreateArray.filter.Predictable where
  silent := fun _ _ => ⟨_, rfl⟩
  blind := fun t bound => by
    show (pure (.ofExcept (plan t.shell bound)) : Sending Plan) = pure (.ofExcept (plan t bound))
    simp only [plan, tuplesFor_shell]
  lasting := fun h => h.checkAfter_of_none rfl
  refills := fun h => by
    obtain ⟨w', hbody, hrefilled⟩ := body_spec h
    rw [hbody]
    refine ⟨hrefilled, fun hout => ?_⟩
    have hend := Except.ok.inj (Report.ofExcept_eq_ok.mp hout)
    split at hend
    · assumption
    · cases hend

theorem infallible : CreateArray.filter.Infallible := by
  intro bound t u run failures h hfails
  obtain ⟨w', hbody, -⟩ := body_spec h
  rw [hbody] at hfails
  cases hfails

end CreateArray

/-! ## Computing misorientations -/

namespace Misorientation

variable {t u : Tree} {bound : Arguments}

theorem checkFeatures_shell {orientations : Path} {features : List Path} :
    checkFeatures t.shell orientations features = checkFeatures t orientations features := by
  simp only [checkFeatures, Tree.arrayAt_shell, Tree.commonTupleCount_shell]
  cases t.arrayAt orientations <;> rfl

theorem plan_shell : plan t.shell bound = plan t bound := by
  simp only [plan, checkFeatures_shell, Tree.arrayAt_shell]
  cases places bound with
  | error e => rfl
  | ok p =>
      show (checkFeatures t _ _ >>= fun _ => _) = (checkFeatures t _ _ >>= fun _ => _)
      refine congrArg _ (funext fun _ => ?_)
      cases t.arrayAt p.orientations <;> rfl

/-- Where everything is, and in terms of which arguments. -/
structure Places.OfArguments (p : Places) (bound : Arguments) : Prop where
  neighbors : bound.get .path neighborsKey = .ok p.neighbors
  orientations : bound.get .path orientationsKey = .ok p.orientations
  phases : bound.get .path phasesKey = .ok p.phases
  structures : bound.get .path structuresKey = .ok p.structures
  list : ∃ name, bound.get .string listNameKey = .ok name ∧
    p.list = (p.orientations.parent?.getD .root).child name
  average : ∀ path ∈ p.average, bound.get .bool averageKey = .ok true ∧
    ∃ name, bound.get .string averageNameKey = .ok name ∧
      path = (p.orientations.parent?.getD .root).child name

theorem places_spec {p : Places} (h : places bound = .ok p) : p.OfArguments bound := by
  obtain ⟨orientations, horientations, h⟩ := check_bind_eq_ok.mp h
  obtain ⟨wanted, hwanted, h⟩ := check_bind_eq_ok.mp h
  -- what follows the choice is the same with a name for the averages and without
  have hrest : ∀ average : Option Path, (do
      let neighbors ← bound.get .path neighborsKey
      let phases ← bound.get .path phasesKey
      let structures ← bound.get .path structuresKey
      let list := (orientations.parent?.getD .root).child (← bound.get .string listNameKey)
      return ({ neighbors, orientations, phases, structures, list, average } : Places)) = .ok p →
      (∀ path ∈ average, bound.get .bool averageKey = .ok true ∧
        ∃ name, bound.get .string averageNameKey = .ok name ∧
          path = (orientations.parent?.getD .root).child name) → p.OfArguments bound := by
    intro average h haverage
    obtain ⟨neighbors, hneighbors, h⟩ := check_bind_eq_ok.mp h
    obtain ⟨phases, hphases, h⟩ := check_bind_eq_ok.mp h
    obtain ⟨structures, hstructures, h⟩ := check_bind_eq_ok.mp h
    obtain ⟨name, hname, h⟩ := check_bind_eq_ok.mp h
    cases h
    exact ⟨hneighbors, horientations, hphases, hstructures, ⟨name, hname, rfl⟩, haverage⟩
  dsimp only at h
  split at h
  · next htrue =>
      obtain ⟨name, hname, h⟩ := check_bind_eq_ok.mp h
      refine hrest _ h fun path hpath => ⟨htrue ▸ hwanted, name, hname, ?_⟩
      exact (Option.mem_some.mp hpath).symm
  · exact hrest none h fun _ hpath => (nomatch hpath)

/-- What is planned is the array of averages, if it is wanted, and the list. -/
theorem plan_spec {q : Plan} {batch : Batch} (hplan : plan t bound = .ok q)
    (hout : q.actions.outcome = .ok batch) :
    ∃ p a, places bound = .ok p ∧
      checkFeatures t p.orientations [p.orientations, p.phases, p.neighbors] = .ok () ∧
      t.arrayAt p.orientations = .ok a ∧
      batch = (p.average.toList.map fun path =>
        Action.createArray path .float32 a.store.tupleShape [1]) ++
          [.createList p.list .float32 a.store.tupleShape] := by
  obtain ⟨p, hplaces, hplan⟩ := check_bind_eq_ok.mp hplan
  obtain ⟨⟨⟩, hfeatures, hplan⟩ := check_bind_eq_ok.mp hplan
  obtain ⟨a, ha, hplan⟩ := check_bind_eq_ok.mp hplan
  cases hplan
  cases hout
  exact ⟨p, a, hplaces, hfeatures, check_mapError_eq_ok.mp ha, rfl⟩

theorem retains_of_actedOn (h : filter.ActedOn bound t u) : t.Retains u := by
  obtain ⟨q, batch, hplan, hout, happly⟩ := @ActedOn.planned _ _ _ _ h (plan t bound) rfl
  obtain ⟨p, a, -, -, -, rfl⟩ := plan_spec hplan hout
  refine (Batch.carries_of_apply h.wellFormed happly).keeps (I := t.Retains) h.wellFormed
    (fun a ha v w hv hok hkept => ?_) .refl
  rcases List.mem_append.mp ha with ha | ha
  · obtain ⟨path, -, rfl⟩ := List.mem_map.mp ha
    exact hkept.trans (Action.createArray_retains hv hok).1
  · cases List.mem_singleton.mp ha
    exact hkept.trans (Action.createList_retains hv hok)

theorem lasting (h : filter.ActedOn bound t u) :
    (filter.schema.checkAfter bound u).outcome = .ok () := by
  have hkept := retains_of_actedOn h
  have hlasting : filter.schema.lasting.map (·.kind) = [.listSelection [.int32],
      .arraySelection [.float32] [[4]], .arraySelection [.int32] [[1]],
      .arraySelection [.uint32] [[1]]] := rfl
  refine Schema.checkAfter_of_lasting h.checked fun p hp value _ hok => ?_
  have hkind : p.kind ∈ filter.schema.lasting.map (·.kind) := List.mem_map_of_mem hp
  simp only [hlasting, List.mem_cons, List.not_mem_nil, or_false] at hkind
  rcases hkind with hkind | hkind | hkind | hkind <;> rw [hkind] at hok ⊢
  · exact Parameter.checkSelection_list hkept hok
  · exact Parameter.checkSelection_array hkept hok
  · exact Parameter.checkSelection_array hkept hok
  · exact Parameter.checkSelection_array hkept hok

theorem predictable : Misorientation.filter.Predictable where
  silent := fun _ _ => ⟨_, rfl⟩
  blind := fun t bound => by
    show (pure (.ofExcept (plan t.shell bound)) : Sending Plan) = pure (.ofExcept (plan t bound))
    rw [plan_shell]
  lasting := lasting
  refills := fun {bound _ u run} h => by
    obtain ⟨hrefilled, hend⟩ := @work_refills ⟨u, run⟩ bound h.wellFormed_after
    show Workspace.Refilled _ ((work oneWorker bound).report _).2 ∧
      (((work oneWorker bound).report _).1.outcome = _ → _)
    rw [Attempt.report_apply]
    exact ⟨hrefilled, fun hout => hend _ (Report.ofExcept_eq_ok.mp hout) rfl⟩

end Misorientation

/-! ## All of them -/

theorem mem_filters {f : Filter} : f ∈ filters ↔
    f = CreateGroup.filter ∨ f = CreateMatrix.filter ∨ f = CreateArray.filter ∨
    f = CreateImage.filter ∨ f = Rename.filter ∨ f = Move.filter ∨ f = Delete.filter ∨
    f = ResizeMatrix.filter ∨ f = Misorientation.filter := by
  simp only [filters, List.mem_cons, List.not_mem_nil, or_false]

theorem predictable_of_mem {f : Filter} (hf : f ∈ filters) : f.Predictable := by
  rcases mem_filters.mp hf with rfl | rfl | rfl | rfl | rfl | rfl | rfl | rfl | rfl
  · exact CreateGroup.predictable
  · exact CreateMatrix.predictable
  · exact CreateArray.predictable
  · exact CreateImage.predictable
  · exact Rename.predictable
  · exact Move.predictable
  · exact Delete.predictable
  · exact ResizeMatrix.predictable
  · exact Misorientation.predictable

/-- Only the computation of misorientations can fail behind its gate. -/
theorem eq_misorientation_of_mem {f : Filter} (hf : f ∈ filters) (hfallible : ¬ f.Infallible) :
    f = Misorientation.filter := by
  rcases mem_filters.mp hf with rfl | rfl | rfl | rfl | rfl | rfl | rfl | rfl | rfl
  · exact absurd (Idle.infallible fun _ => rfl) hfallible
  · exact absurd (Idle.infallible fun _ => rfl) hfallible
  · exact absurd CreateArray.infallible hfallible
  · exact absurd (Idle.infallible fun _ => rfl) hfallible
  · exact absurd (Idle.infallible fun _ => rfl) hfallible
  · exact absurd (Idle.infallible fun _ => rfl) hfallible
  · exact absurd (Idle.infallible fun _ => rfl) hfallible
  · exact absurd (Idle.infallible fun _ => rfl) hfallible
  · rfl

/--
What a built-in filter plans does not depend on elements. For trees with the
same shell the gate reports the same failures and warnings, and the plan has the
same actions, the same warnings and the same advice; no message is sent.
-/
theorem preflight_of_shell_eq {f : Filter} (hf : f ∈ filters) {t t' : Tree}
    (h : t.shell = t'.shell) (args : Arguments) :
    ∃ plan : Plan, f.preflight t args = pure plan ∧ f.preflight t' args = pure plan := by
  obtain ⟨plan, hplan, hplan', -⟩ :=
    @Predictable.preflight_spec _ args _ _ (predictable_of_mem hf) h
  exact ⟨plan, hplan, hplan'⟩

/-- Resizing the vertex data of a cloud is planned for a cloud without coordinates too. -/
theorem preflight_of_shell_eq_cloud :
    ResizeMatrix.filter ∈ filters ∧ Tree.cloud.shell ≠ Tree.cloud ∧
      Tree.cloud.shell.shell = Tree.cloud.shell ∧
      ∃ plan : Plan,
        ResizeMatrix.filter.preflight Tree.cloud.shell
          ((Arguments.none.insert "attribute_matrix_path" (.path ⟨["cloud", "data"]⟩)).insert
            "new_tuple_dimensions" (.shape [3])) = pure plan ∧
        ResizeMatrix.filter.preflight Tree.cloud
          ((Arguments.none.insert "attribute_matrix_path" (.path ⟨["cloud", "data"]⟩)).insert
            "new_tuple_dimensions" (.shape [3])) = pure plan ∧
        plan.actions.outcome = .ok [.resizeMatrix ⟨["cloud", "data"]⟩ [3]] := by
  have hmem : ResizeMatrix.filter ∈ filters := by simp [filters]
  have hshell : Tree.cloud.shell.shell = Tree.cloud.shell := Tree.shell_shell
  obtain ⟨plan, hplan, hplan'⟩ := preflight_of_shell_eq hmem hshell
    ((Arguments.none.insert "attribute_matrix_path" (.path ⟨["cloud", "data"]⟩)).insert
      "new_tuple_dimensions" (.shape [3]))
  refine ⟨hmem, fun hsame => ?_, hshell, plan, hplan, hplan', ?_⟩
  · have hpoints := congrArg (fun t => t.arrayAt ⟨["cloud", "points"]⟩) hsame
    cases hpoints
  · rw [show plan = _ from (congrArg Prod.fst (congrFun hplan' (Run.new 1))).symm]
    rfl

end Builtin

/-! ## Pipelines of them -/

namespace Pipeline

open Builtin PipelineNode

variable {p : Pipeline} {t : Tree} {run run' s : Run} {w : Workspace} {P E : PipelineReport}

/--
What a trial run `P` of built-in filters shows of a run for good `E` on the same
tree, neither of which is ever cancelled: a flag that is raised stays up, so it
is enough that it is down at the end. Filters that both runs have reached plan
the same. Where the trial run fails, the run for good fails there or before;
where it completes the run for good does, unless the body of a computation of
misorientations fails. What both leave, when both complete, differs in elements
only.
-/
theorem preflight_predicts_execute (hbuiltin : ∀ node ∈ p.nodes, node.filter ∈ filters)
    (h : t.WellFormed) (htried : p.preflight t run = (P, s)) (hlive : s.cancelled = false)
    (hrun : p.execute.run ⟨t, run'⟩ = (E, w)) (hlive' : w.run.cancelled = false) :
    (∀ (i : Nat) (n m : NodeReport), P.nodes[i]? = some n → E.nodes[i]? = some m →
      n.actions = m.actions ∧ n.advice = m.advice) ∧
    (∀ k, P.outcome = .failed k → ∃ i ≤ k, E.outcome = .failed i) ∧
    (P.outcome = .completed → E.outcome = .completed ∨
      ∃ i node reports v, E.outcome = .failed i ∧ p.nodes[i]? = some node ∧
        node.filter = Misorientation.filter ∧
        runFrom .execute p.audited 0 (p.nodes.take i) ⟨t, run'⟩ = ((reports, .completed), v) ∧
        node.FailsInBody p.audited v) ∧
    (P.outcome = .completed → E.outcome = .completed →
      (p.scratch t run).shell = w.tree.shell) := by
  have hpredictable : ∀ node ∈ p.nodes, node.filter.Predictable :=
    fun node hnode => predictable_of_mem (hbuiltin node hnode)
  have hforeseen := @foreseen p t run run' hpredictable h (by rw [htried]; exact hlive)
    (by rw [hrun]; exact hlive')
  rw [htried, hrun] at hforeseen
  obtain ⟨hplans, hend⟩ := hforeseen
  dsimp only at hplans hend
  generalize P.outcome = o, E.outcome = o', p.scratch t run = scratch at hend ⊢
  refine ⟨hplans, ?_⟩
  cases hend with
  | completed hshell =>
      exact ⟨fun k hk => (nomatch hk), fun _ => .inl rfl, fun _ _ => hshell⟩
  | @failed _ _ k =>
      refine ⟨fun k' hk => ⟨k, ?_, rfl⟩, fun hk => (nomatch hk), fun hk => (nomatch hk)⟩
      cases hk
      exact Nat.le_refl _
  | @inBody _ _ _ i node reports v hlater hnode hbefore hfails hfallible =>
      refine ⟨fun k hk => ⟨_, hlater k hk, rfl⟩, fun _ => .inr ?_, fun _ hk => (nomatch hk)⟩
      have hmem := hbuiltin node (List.mem_of_getElem? hnode)
      rw [Nat.zero_add]
      exact ⟨i, node, reports, v, rfl, hnode, eq_misorientation_of_mem hmem hfallible, hbefore,
        hfails⟩

/-- A matrix with an array of sevens that is resized afterwards; a group would be deleted. -/
def survey : Pipeline where
  name := "survey"
  nodes := [
    ⟨CreateMatrix.filter,
      (Arguments.none.insert "data_object_path" (.path (.single "grains"))).insert
        "tuple_dimensions" (.shape [3]), true⟩,
    ⟨CreateArray.filter,
      (((Arguments.none.insert "numeric_type" (.elementType .int32)).insert
        "component_shape" (.shape [1])).insert
        "output_array_path" (.path ⟨["grains", "phase"]⟩)).insert
        "initialization_value" (.string "7"), true⟩,
    ⟨Delete.filter, Arguments.none.insert "removed_data_paths" (.paths [.single "raw"]), false⟩,
    ⟨ResizeMatrix.filter,
      (Arguments.none.insert "attribute_matrix_path" (.path (.single "grains"))).insert
        "new_tuple_dimensions" (.shape [5]), true⟩]
  audited := true

/-- Both runs of the survey complete, and with the sevens forgotten they leave the same tree. -/
theorem preflight_predicts_execute_survey :
    (∀ node ∈ survey.nodes, node.filter ∈ filters) ∧ Tree.empty.WellFormed ∧
      (survey.preflight .empty (.new 1)).2.cancelled = false ∧
      (survey.execute.run ⟨.empty, .new 1⟩).2.run.cancelled = false ∧
      (survey.preflight .empty (.new 1)).1.outcome = .completed ∧
      (survey.execute.run ⟨.empty, .new 1⟩).1.outcome = .completed ∧
      (survey.scratch .empty (.new 1)).shell =
        (survey.execute.run ⟨.empty, .new 1⟩).2.tree.shell := by
  have hbuiltin : ∀ node ∈ survey.nodes, node.filter ∈ filters := by
    simp [survey, filters]
  obtain ⟨hlive, hlive'⟩ := @live_of_undisturbed survey .empty (.new 1)
    (fun node hnode => predictable_of_mem (hbuiltin node hnode)) Tree.wellFormed_empty rfl rfl
  have hpredicts := @preflight_predicts_execute survey .empty (.new 1) (.new 1) _ _ _ _ hbuiltin
    Tree.wellFormed_empty rfl hlive rfl hlive'
  exact ⟨hbuiltin, Tree.wellFormed_empty, hlive, hlive', rfl, rfl, hpredicts.2.2.2 rfl rfl⟩

end Pipeline

end FilterTree
