import FilterTree.Proofs.Admitted
import FilterTree.Proofs.AllOrNothing
import FilterTree.Proofs.Extends

/-!
# Created paths are exact

What an action creates is read off the action alone, before it has met a tree.
For an action that creates, the paths it names are exactly those that its tree
gains, and what stands there is what the action describes (`Described`). A
renaming and a move bring one path about, and what stood at the old path.

A batch names the created paths of all its actions, but a later action might
take away what an earlier one has created. It must not, and of the built-in
filters none plans a batch in which one does: those with more than one action
only create, only delete, or move objects to one place. A move to this place
could undo another only if it moved the other's object or what lies above it,
and then the object would be in place already or lie above the place.
-/

namespace FilterTree

/-! ## What an action creates -/

namespace Action

open Edit FilterTree.Tree

variable {mode : Mode} {t u : Tree} {a : Action}

/-- What an action that creates says will stand at the created paths. -/
def Described (mode : Mode) (u : Tree) : Action → Prop
  | createGroup path => ∃ id, u.Stands path id .group
  | createMatrix path tuples => ∃ id, u.Stands path id (.matrix tuples)
  | createArray path type tuples components => ∃ id a, u.Stands path id (.array a) ∧
      a.elementType = type ∧ a.store.tupleShape = tuples ∧ a.store.componentShape = components ∧
      (Body.array a).Fresh mode
  | createList path type tuples => ∃ id l, u.Stands path id (.list l) ∧
      l.elementType = type ∧ l.store.tupleShape = tuples ∧ (Body.list l).Fresh mode
  | createImage path dimensions spacing origin cellDataName => ∃ id matrix,
      u.Stands path id (.geometry (.image dimensions spacing origin (some matrix))) ∧
      u.Stands (path.child cellDataName) matrix
        (.matrix [dimensions.z, dimensions.y, dimensions.x])
  | createVertex path count vertexDataName coordinatesName => ∃ id matrix list a,
      u.Stands path id (.geometry (.vertex count (some matrix) (some list))) ∧
      u.Stands (path.child vertexDataName) matrix (.matrix [count]) ∧
      u.Stands (path.child coordinatesName) list (.array a) ∧
      a.elementType = .float32 ∧ a.store.tupleShape = [count] ∧ a.store.componentShape = [3] ∧
      (Body.array a).Fresh mode
  | rename .. | move .. | delete .. | resizeMatrix .. => True

theorem create_extends (h : WellFormed t) {path : Path} {body : Body}
    (hok : (create path body).on t = (.ok (), u)) :
    t.Extends u [path] ∧ ∃ id, u.Stands path id body := by
  obtain ⟨id, v, hcreate, hpure⟩ := bind_eq_ok.mp hok
  cases hpure
  obtain ⟨parent, name, place, rfl, hi, rfl, rfl⟩ := create_eq_ok.mp hcreate
  exact ⟨h.extends_addObject hi, _, h.stands_addObject hi⟩

/-- An action that creates adds its created paths, with what it describes, and nothing else. -/
theorem extends_of_isCreate (h : WellFormed t) (hcreate : a.isCreate = true)
    (hok : (a.apply mode).on t = (.ok (), u)) :
    t.Extends u a.createdPaths ∧ a.Described mode u := by
  cases a with
  | createGroup path => exact create_extends h hok
  | createMatrix path tuples => exact create_extends h hok
  | createArray path type tuples components =>
      obtain ⟨a, ha, hok⟩ := ask_bind_eq_ok.mp hok
      have ha := check_mapError_eq_ok.mp ha
      obtain ⟨htype, htuples, hcomponents, -⟩ := DataArray.of_fresh ha
      obtain ⟨hext, id, hstands⟩ := create_extends h hok
      exact ⟨hext, id, a, hstands, htype, htuples, hcomponents, DataArray.fresh_of_fresh ha⟩
  | createList path type tuples =>
      obtain ⟨l, hl, hok⟩ := ask_bind_eq_ok.mp hok
      have hl := check_mapError_eq_ok.mp hl
      obtain ⟨htype, htuples, -⟩ := NeighborList.of_fresh hl
      obtain ⟨hext, id, hstands⟩ := create_extends h hok
      exact ⟨hext, id, l, hstands, htype, htuples, NeighborList.fresh_of_fresh hl⟩
  | createImage path dimensions spacing origin cellDataName =>
      obtain ⟨id, v, hcreate, hpure⟩ := bind_eq_ok.mp hok
      cases hpure
      obtain ⟨parent, name, place, rfl, hi, hname, hshape, -, rfl⟩ := createImage_eq_ok h hcreate
      obtain ⟨hext, hgeometry, hmatrix⟩ := h.extends_addImage hi hname hshape
      exact ⟨hext, _, _, hgeometry, hmatrix⟩
  | createVertex path count vertexDataName coordinatesName =>
      obtain ⟨id, v, hcreate, hpure⟩ := bind_eq_ok.mp hok
      cases hpure
      obtain ⟨parent, name, place, coordinates, rfl, hi, hvertex, hcoordinates, hne, hfresh, -,
        rfl⟩ := createVertex_eq_ok h hcreate
      obtain ⟨htype, htuples, hcomponents, -⟩ := DataArray.of_fresh hfresh
      obtain ⟨hext, hgeometry, hlist, hmatrix⟩ :=
        h.extends_addVertex hi hvertex hcoordinates hne hfresh
      exact ⟨hext, _, _, _, coordinates, hgeometry, hmatrix, hlist, htype, htuples, hcomponents,
        DataArray.fresh_of_fresh hfresh⟩
  | rename | move | delete | resizeMatrix => cases hcreate

/-- What a relocation brings about is the new path of what stood at the old one. -/
theorem contains_of_relocated {p p' : Path} {id : ObjectId} (h : t.Relocated u p p')
    (hid : t.idOf? p = some id) : u.contains p' = true := by
  have hbelow := h.below []
  rw [List.append_nil, List.append_nil] at hbelow
  exact Option.isSome_of_eq_some (hbelow.trans hid)

theorem rename_created (h : WellFormed t) {path : Path} {name : String}
    (hok : ((rename path name).apply mode).on t = (.ok (), u)) :
    u.contains (path.withName name) = true := by
  obtain ⟨-, parent, id, o, -, hid, -⟩ := (rename_eq_ok_iff h.toLinked).mp hok
  exact contains_of_relocated (rename_relocates h.toLinked hok).1 hid

theorem move_created (h : WellFormed t) {path newParent : Path}
    (hok : ((move path newParent).apply mode).on t = (.ok (), u)) :
    ∃ r, (move path newParent).createdPaths = [r] ∧ u.contains r = true := by
  obtain ⟨id, name, hid, hname, hrelocated, -⟩ := move_relocates h.toLinked hok
  refine ⟨newParent.child name, ?_, contains_of_relocated hrelocated hid⟩
  rw [createdPaths, hname]
  rfl

/-- The created paths of an action that was carried out are there. -/
theorem contains_created (h : WellFormed t) (hok : (a.apply mode).on t = (.ok (), u)) :
    ∀ r ∈ a.createdPaths, u.contains r = true := by
  intro r hr
  cases hcreate : a.isCreate with
  | true => exact ((extends_of_isCreate h hcreate hok).1.contains_iff r).mpr (.inr hr)
  | false =>
      cases a with
      | rename path name =>
          rw [List.mem_singleton.mp hr]
          exact rename_created h hok
      | move path newParent =>
          obtain ⟨r', hpaths, hthere⟩ := move_created h hok
          rw [hpaths] at hr
          rw [List.mem_singleton.mp hr]
          exact hthere
      | delete | resizeMatrix => cases hr
      | _ => cases hcreate

/-- An action that, wherever it is carried out, leaves something at a path. -/
def Keeps (mode : Mode) (a : Action) (r : Path) : Prop :=
  ∀ t u, WellFormed t → (a.apply mode).on t = (.ok (), u) → t.contains r = true →
    u.contains r = true

theorem keeps_of_isCreate {r : Path} (hcreate : a.isCreate = true) : a.Keeps mode r :=
  fun _ _ h hok hr => ((extends_of_isCreate h hcreate hok).1.contains_iff r).mpr (.inl hr)

theorem keeps_of_not_leadsTo {path newParent r : Path} (hapart : ¬ path.leadsTo r) :
    (move path newParent).Keeps mode r := by
  intro t u h hok hr
  obtain ⟨i, hi⟩ := Option.isSome_iff_exists.mp hr
  exact Option.isSome_of_eq_some (move_stays h hok hi hapart)

end Action

/-! ## What a batch creates -/

namespace Batch

variable {mode : Mode} {t u : Tree} {b : Batch}

/-- No action of a batch takes away what an earlier one has created. -/
def Cumulative (mode : Mode) (b : Batch) : Prop :=
  b.Pairwise fun a later => ∀ r ∈ a.createdPaths, later.Keeps mode r

theorem cumulative_of_forall
    (h : ∀ a ∈ b, ∀ later ∈ b, ∀ r ∈ a.createdPaths, later.Keeps mode r) : b.Cumulative mode :=
  List.pairwise_of_forall_mem_list h

/-- The created paths of a batch that was carried out are there. -/
theorem Carries.contains_created (hc : Carries mode b t u) (h : t.WellFormed)
    (hb : b.Cumulative mode) : ∀ r ∈ b.createdPaths, u.contains r = true := by
  induction hc with
  | nil => exact fun _ hr => nomatch hr
  | @cons a rest t v u ha hrest ih =>
      obtain ⟨hlater, hb⟩ := List.pairwise_cons.mp hb
      have hv := (a.makes h _ _ ha).wellFormed h
      intro r hr
      rcases List.mem_append.mp hr with hr | hr
      · -- what the first action has created, the others keep
        refine hrest.keeps (I := fun t => t.contains r = true) hv
          (fun c hc t u ht hok => hlater c hc r hr t u ht hok) ?_
        exact a.contains_created h ha r hr
      · exact ih hv hb r hr

end Batch

/-! ## What the built-in filters plan -/

/-- One action alone takes nothing away. -/
theorem Filter.PlansOne.cumulative {r : Except Failure Plan} {plan : Plan} {batch : Batch}
    {mode : Mode} (h : PlansOne r) (hplan : r = .ok plan)
    (hout : plan.actions.outcome = .ok batch) : batch.Cumulative mode := by
  obtain ⟨a, rfl⟩ := h hplan hout
  exact List.pairwise_singleton _ _

namespace Builtin

open FilterTree.Tree

variable {mode : Mode} {t : Tree} {bound : Arguments} {plan : Plan} {batch : Batch}

theorem Move.cumulative (hplan : Move.plan t bound = .ok plan)
    (hout : plan.actions.outcome = .ok batch) : batch.Cumulative mode := by
  obtain ⟨sources, -, hplan⟩ := check_bind_eq_ok.mp hplan
  obtain ⟨destination, -, hplan⟩ := check_bind_eq_ok.mp hplan
  obtain ⟨warnings, hsources, hplan⟩ := check_bind_eq_ok.mp hplan
  cases hplan
  cases hout
  have hkeeps : ∀ name, ∀ path ∈ sources, isInPlace destination path = false →
      (Action.move path destination).Keeps mode (destination.child name) := by
    intro name path hpath hplace
    refine Action.keeps_of_not_leadsTo fun hleads => ?_
    rcases List.prefix_concat_iff.mp (leadsTo_iff.mp hleads) with hsame | habove
    · -- the object would be the one at the new path, and in place
      obtain rfl : path = destination.child name := congrArg Path.mk hsame
      simp [isInPlace] at hplace
    · exact not_leadsTo_of_checkSources hsources path hpath (leadsTo_iff.mpr habove)
  refine Batch.cumulative_of_forall fun a ha later hlater r hr => ?_
  obtain ⟨source, -, rfl⟩ := List.mem_map.mp ha
  obtain ⟨path, hpath, rfl⟩ := List.mem_map.mp hlater
  obtain ⟨hmem, hplace⟩ := List.mem_filter.mp hpath
  obtain ⟨name, -, rfl⟩ := Option.map_eq_some_iff.mp (Option.mem_toList.mp hr)
  exact hkeeps name path hmem (by simpa using hplace)

theorem Delete.cumulative (hplan : Delete.plan bound = .ok plan)
    (hout : plan.actions.outcome = .ok batch) : batch.Cumulative mode := by
  obtain ⟨paths, -, rfl⟩ := Delete.plan_spec hplan hout
  refine Batch.cumulative_of_forall fun a ha _ _ r hr => ?_
  obtain ⟨path, -, rfl⟩ := List.mem_map.mp ha
  cases hr

theorem Misorientation.cumulative (hplan : Misorientation.plan t bound = .ok plan)
    (hout : plan.actions.outcome = .ok batch) : batch.Cumulative mode := by
  obtain ⟨p, a, -, -, -, rfl⟩ := plan_spec hplan hout
  refine Batch.cumulative_of_forall fun _ _ later hlater r _ => Action.keeps_of_isCreate ?_
  rcases List.mem_append.mp hlater with hlater | hlater
  · obtain ⟨path, -, rfl⟩ := List.mem_map.mp hlater
    rfl
  · rw [List.mem_singleton.mp hlater]
    rfl

/-- No built-in filter plans to take away what it has created before. -/
theorem cumulative_of_mem {f : Filter} (hf : f ∈ filters) {args : Arguments} {run : Run}
    (hok : (f.preflight t args run).1.actions.outcome = .ok batch) : batch.Cumulative mode := by
  have hconsistent := consistent_of_mem hf
  rcases mem_filters.mp hf with rfl | rfl | rfl | rfl | rfl | rfl | rfl | rfl | rfl <;>
    refine Filter.of_preflight hconsistent hok (fun _ _ => rfl) fun _ => ?_
  · exact CreateGroup.plansOne.cumulative
  · exact CreateMatrix.plansOne.cumulative
  · exact CreateArray.plansOne.cumulative
  · exact CreateImage.plansOne.cumulative
  · exact Rename.plansOne.cumulative
  · exact Move.cumulative
  · exact Delete.cumulative
  · exact ResizeMatrix.plansOne.cumulative
  · exact Misorientation.cumulative

/--
An action that creates adds exactly its created paths to those of a well-formed
tree, none of which was there before; what was there stays under its number with
its body, and at the created paths stands what the action describes. After a
renaming or a move the one path it creates is there. And when the preflight of a
built-in filter is accepted and its batch is carried out by the same tree, in
either mode, every path that the batch creates is there at the end.
-/
theorem created_paths_exact (h : t.WellFormed) (mode : Mode) :
    (∀ (a : Action) u, a.isCreate = true → (a.apply mode).on t = (.ok (), u) →
      t.Extends u a.createdPaths ∧ a.Described mode u) ∧
    (∀ path name u, ((Action.rename path name).apply mode).on t = (.ok (), u) →
      ∃ r, (Action.rename path name).createdPaths = [r] ∧ u.contains r = true) ∧
    (∀ path newParent u, ((Action.move path newParent).apply mode).on t = (.ok (), u) →
      ∃ r, (Action.move path newParent).createdPaths = [r] ∧ u.contains r = true) ∧
    ∀ f ∈ filters, ∀ args run (batch : Batch) u,
      (f.preflight t args run).1.actions.outcome = .ok batch →
      batch.apply mode t = (.ok (), u) → ∀ r ∈ batch.createdPaths, u.contains r = true := by
  refine ⟨fun _ _ hcreate hok => Action.extends_of_isCreate h hcreate hok,
    fun _ _ _ hok => ⟨_, rfl, Action.rename_created h hok⟩,
    fun _ _ _ hok => Action.move_created h hok, ?_⟩
  intro f hf args run batch u hok happly
  exact (Batch.carries_of_apply h happly).contains_created h (cumulative_of_mem hf hok)

/-- A cloud of points in one of three groups, and a group moved there ahead of the one around it. -/
theorem created_paths_exact_nested :
    Move.nested.WellFormed ∧
      (∃ u, ((Action.createVertex ⟨["c", "cloud"]⟩ 2 "data" "points").apply .preflight).on
          Move.nested = (.ok (), u) ∧
        Move.nested.Extends u [⟨["c", "cloud"]⟩, ⟨["c", "cloud", "points"]⟩,
          ⟨["c", "cloud", "data"]⟩]) ∧
      (∃ u, ((Action.rename (.single "a") "d").apply .execute).on Move.nested = (.ok (), u) ∧
        u.contains (.single "d") = true) ∧
      ∃ u, (Move.filter.preflight Move.nested
          ((Arguments.none.insert Move.sourcesKey (.paths [⟨["a", "b"]⟩, .single "a"])).insert
            Move.destinationKey (.path (.single "c"))) (.new 1)).1.actions.outcome =
          .ok [.move ⟨["a", "b"]⟩ (.single "c"), .move (.single "a") (.single "c")] ∧
        Batch.apply .execute [.move ⟨["a", "b"]⟩ (.single "c"), .move (.single "a") (.single "c")]
          Move.nested = (.ok (), u) ∧
        u.contains ⟨["c", "b"]⟩ = true ∧ u.contains ⟨["c", "a"]⟩ = true := by
  have h := Move.wellFormed_nested
  have hmove : Move.filter ∈ filters := mem_filters.mpr (by simp)
  refine ⟨h, ⟨_, rfl, ?_⟩, ⟨_, rfl, ?_⟩, ⟨_, rfl, rfl, ?_⟩⟩
  · exact ((created_paths_exact h .preflight).1 (.createVertex _ 2 "data" "points") _ rfl rfl).1
  · obtain ⟨r, hr, hthere⟩ := (created_paths_exact h .execute).2.1 (.single "a") "d" _ rfl
    cases hr
    exact hthere
  · have hall := (created_paths_exact h .execute).2.2.2 _ hmove
      ((Arguments.none.insert Move.sourcesKey (.paths [⟨["a", "b"]⟩, .single "a"])).insert
        Move.destinationKey (.path (.single "c"))) (.new 1) _ _ rfl rfl
    exact ⟨hall _ List.mem_cons_self, hall _ (List.mem_cons_of_mem _ List.mem_cons_self)⟩

end Builtin

end FilterTree
