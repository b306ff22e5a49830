import FilterTree.Proofs.Change

/-!
# Batches of actions

An action is one edit, so it makes one change when it is carried out and none
when it is refused. A batch carries actions out in order up to the first that
is refused (`Carries`); that nothing of a refused action is left behind is what
makes the tree after a failed batch the tree after its first actions.

What a batch creates is fresh: in a trial run arrays and lists have no elements
at all, and otherwise as many zeros, or empty lists, as their shapes say. An
array that was created earlier in the batch may be resized later in it. It is
fresh afterwards too, because cutting or filling up zeros leaves zeros.
-/

namespace FilterTree

/-! ## Fresh bodies -/

/-- What a mode makes of an array or a list: no elements, or only zeros and empty lists. -/
def Body.Fresh (mode : Mode) : Body → Prop
  | array a =>
    a.store.row? =
      if mode.allocates then some (Array.replicate a.store.size a.elementType.zero) else none
  | list l =>
    l.store.lists? = if mode.allocates then some (Array.replicate l.store.tupleCount []) else none
  | group | matrix _ | geometry _ => True

theorem DataArray.fresh_of_fresh {mode : Mode} {type : ElementType} {tuples components : Shape}
    {a : DataArray} (h : fresh type tuples components mode.allocates = .ok a) :
    (Body.array a).Fresh mode := by
  obtain ⟨s, hs, rfl⟩ := check_map_eq_ok.mp h
  rw [DenseStore.fresh] at hs
  rw [Body.Fresh]
  split at hs
  · next halloc =>
      obtain ⟨n, hn, rfl⟩ := DenseStore.filled_eq_ok.mp hs
      rw [if_pos halloc, DenseStore.size_eq_of_count hn]
  · next halloc =>
      obtain ⟨n, -, rfl⟩ := DenseStore.shapeOnly_eq_ok.mp hs
      rw [if_neg halloc]

theorem NeighborList.fresh_of_fresh {mode : Mode} {type : ElementType} {tuples : Shape}
    {l : NeighborList} (h : fresh type tuples mode.allocates = .ok l) :
    (Body.list l).Fresh mode := by
  obtain ⟨s, hs, rfl⟩ := check_map_eq_ok.mp h
  rw [ListStore.fresh] at hs
  rw [Body.Fresh]
  split at hs
  · next halloc =>
      obtain ⟨n, hn, rfl⟩ := ListStore.new_eq_ok.mp hs
      rw [if_pos halloc, ListStore.tupleCount, Shape.size_of_size? hn]
  · next halloc =>
      obtain ⟨n, -, rfl⟩ := ListStore.shapeOnly_eq_ok.mp hs
      rw [if_neg halloc]

/-- Equal elements cut or filled up with the same are equal elements. -/
theorem extract_append_replicate {α : Type} {a : α} {m n : Nat} :
    (Array.replicate m a).extract 0 n ++ Array.replicate (n - (Array.replicate m a).size) a =
      Array.replicate n a := by
  rw [Array.extract_replicate, Array.replicate_append_replicate, Array.size_replicate]
  congr 1
  omega

/-- A fresh body is fresh with another tuple shape too. -/
theorem Body.Fresh.retupled {mode : Mode} {b : Body} {shape : Shape} (hcan : b.CanRetuple shape)
    (h : b.Fresh mode) : (b.retupled shape).Fresh mode := by
  cases b with
  | array a =>
      obtain ⟨s, hs, heq⟩ := hcan.array
      obtain ⟨n, hn, hs⟩ := DenseStore.resizeTuples_eq_ok.mp hs
      have hsize : s.size = n := DenseStore.size_eq_of_count (by rw [← hs]; exact hn)
      have hrow : s.row? = a.store.row?.map (DenseStore.resizeRow a.elementType.zero n) := by
        rw [← hs]
      rw [Body.Fresh] at h
      rw [heq, Body.Fresh, hsize, hrow, h]
      split
      · rw [Option.map_some, DenseStore.resizeRow, extract_append_replicate]
      · rfl
  | list l =>
      obtain ⟨s, hs, heq⟩ := hcan.list
      obtain ⟨n, hn, hs⟩ := ListStore.resizeTuples_eq_ok.mp hs
      have hcount : s.tupleCount = n := by rw [← hs]; exact Shape.size_of_size? hn
      have hlists : s.lists? = l.store.lists?.map (ListStore.resizeLists n) := by rw [← hs]
      rw [Body.Fresh] at h
      rw [heq, Body.Fresh, hcount, hlists, h]
      split
      · rw [Option.map_some, ListStore.resizeLists, extract_append_replicate]
      · rfl
  | group | matrix _ | geometry _ => trivial

/-! ## Actions -/

namespace Action

open Edit FilterTree.Tree

variable {mode : Mode} {t u : Tree}

/-- An action makes one change, and what it creates is fresh. -/
theorem makes (a : Action) (h : WellFormed t) : (a.apply mode).Makes (Body.Fresh mode) t := by
  cases a with
  | createGroup path =>
      exact (create_makes (fun _ => show Body.Sound .group from trivial) trivial trivial).bind_pure
  | createMatrix path tuples =>
      exact (create_makes (fun hfits => show Body.Sound (.matrix tuples) from hfits tuples rfl)
        trivial trivial).bind_pure
  | createArray path type tuples components =>
      refine .ask_bind fun a ha => ?_
      have hfresh := check_mapError_eq_ok.mp ha
      have hsound : Body.Sound (.array a) := (DataArray.of_fresh hfresh).2.2.2
      exact (create_makes (fun _ => hsound) trivial (DataArray.fresh_of_fresh hfresh)).bind_pure
  | createList path type tuples =>
      refine .ask_bind fun l hl => ?_
      have hfresh := check_mapError_eq_ok.mp hl
      have hsound : Body.Sound (.list l) := (NeighborList.of_fresh hfresh).2.2
      exact (create_makes (fun _ => hsound) trivial (NeighborList.fresh_of_fresh hfresh)).bind_pure
  | createImage => exact (createImage_makes h).bind_pure
  | createVertex =>
      exact (createVertex_makes h fun a ha => DataArray.fresh_of_fresh ha).bind_pure
  | rename => exact rename_makes h
  | move => exact move_makes h
  | delete => exact (remove_makes h).bind_pure
  | resizeMatrix => exact resizeMatrix_makes h

/-- A refused action leaves the tree as it was. -/
theorem allOrNothing (a : Action) (h : WellFormed t) : (a.apply mode).AllOrNothing t := by
  cases a with
  | createGroup | createMatrix => exact create_allOrNothing.bind_pure
  | createArray | createList => exact .ask_bind fun _ _ => create_allOrNothing.bind_pure
  | createImage => exact (createImage_allOrNothing h).bind_pure
  | createVertex => exact (createVertex_allOrNothing h).bind_pure
  | rename => exact rename_allOrNothing
  | move => exact move_allOrNothing
  | delete => exact remove_allOrNothing.bind_pure
  | resizeMatrix => exact resizeMatrix_allOrNothing h

end Action

/-! ## Batches -/

namespace Batch

open FilterTree.Tree

variable {mode : Mode} {t u : Tree}

/-- Every action of a batch is carried out, one after the other. -/
inductive Carries (mode : Mode) : Batch → Tree → Tree → Prop where
  | nil {t : Tree} : Carries mode [] t t
  | cons {a : Action} {rest : Batch} {t v u : Tree} (ha : (a.apply mode).on t = (.ok (), v))
      (hrest : Carries mode rest v u) : Carries mode (a :: rest) t u

theorem Carries.wellFormed {b : Batch} (hc : Carries mode b t u) (h : WellFormed t) :
    WellFormed u := by
  induction hc with
  | nil => exact h
  | @cons a _ _ _ _ ha _ ih => exact ih ((a.makes h _ _ ha).wellFormed h)

/-- What every action of a batch keeps, the batch keeps. -/
theorem Carries.keeps {I : Tree → Prop} {b : Batch} (hc : Carries mode b t u) (h : WellFormed t)
    (hstep : ∀ a ∈ b, ∀ t u, WellFormed t → (a.apply mode).on t = (.ok (), u) → I t → I u)
    (ht : I t) : I u := by
  induction hc with
  | nil => exact ht
  | @cons a rest t v u ha _ ih =>
      refine ih ((a.makes h _ _ ha).wellFormed h) (fun a' ha' => ?_)
        (hstep a List.mem_cons_self t v h ha ht)
      exact hstep a' (List.mem_cons_of_mem a ha')

theorem Carries.bodiesFrom {n : ObjectId} {b : Batch} (hc : Carries mode b t u) (h : WellFormed t)
    (ht : BodiesFrom n (Body.Fresh mode) t) : BodiesFrom n (Body.Fresh mode) u :=
  hc.keeps h (fun a _ _ _ h ha => (a.makes h _ _ ha).bodiesFrom id (fun _ => trivial)
    (fun _ => trivial) Body.Fresh.retupled) ht

theorem Carries.grows {b : Batch} (hc : Carries mode b t u) (h : WellFormed t) : t.Grows u :=
  hc.keeps h (fun a _ _ _ h ha ht => ht.trans (a.makes h _ _ ha).grows) .refl

/-- What a batch that was begun at a place leaves, and how it ends. -/
theorem applyFrom_spec {index : Nat} {b : Batch} (h : WellFormed t) :
    (∃ u, applyFrom mode index b t = (.ok (), u) ∧ Carries mode b t u) ∨
      ∃ (done rest : Batch) (a : Action) (x : TreeError) (u : Tree),
        applyFrom mode index b t = (.error ⟨index + done.length, a, x⟩, u) ∧
        b = done ++ a :: rest ∧ Carries mode done t u ∧ (a.apply mode).on u = (.error x, u) := by
  induction b generalizing index t with
  | nil => exact .inl ⟨t, rfl, .nil⟩
  | cons a b ih =>
      rw [applyFrom]
      split
      · next v ha =>
          rcases ih ((a.makes h _ _ ha).wellFormed h) with
            ⟨u, heq, hc⟩ | ⟨done, rest, a', x, u, heq, rfl, hc, hbad⟩
          · exact .inl ⟨u, heq, .cons ha hc⟩
          · refine .inr ⟨a :: done, rest, a', x, u, ?_, rfl, .cons ha hc, hbad⟩
            rw [heq, List.length_cons, Nat.add_assoc, Nat.add_comm 1]
      · next x v ha =>
          cases a.allOrNothing h x v ha
          exact .inr ⟨[], b, a, x, t, rfl, rfl, .nil, ha⟩

/-- What a batch leaves, and how it ends. -/
theorem apply_spec (mode : Mode) (b : Batch) (h : WellFormed t) :
    (∃ u, b.apply mode t = (.ok (), u) ∧ Carries mode b t u) ∨
      ∃ (done rest : Batch) (a : Action) (x : TreeError) (u : Tree),
        b.apply mode t = (.error ⟨done.length, a, x⟩, u) ∧
        b = done ++ a :: rest ∧ Carries mode done t u ∧ (a.apply mode).on u = (.error x, u) := by
  rcases applyFrom_spec h with hok | ⟨done, rest, a, x, u, herr, hrest⟩
  · exact .inl hok
  · rw [Nat.zero_add] at herr
    exact .inr ⟨done, rest, a, x, u, herr, hrest⟩

theorem carries_of_apply {b : Batch} (h : WellFormed t) (hok : b.apply mode t = (.ok (), u)) :
    Carries mode b t u := by
  rcases apply_spec mode b h with ⟨v, heq, hc⟩ | ⟨_, _, _, _, v, heq, _⟩
  · cases heq.symm.trans hok
    exact hc
  · cases heq.symm.trans hok

/-- However a batch ends, it leaves a well-formed tree. -/
theorem wellFormed_apply {b : Batch} (h : WellFormed t) :
    WellFormed (b.apply mode t).2 := by
  rcases apply_spec mode b h with ⟨u, hu, hc⟩ | ⟨done, rest, a, x, u, hu, -, hc, -⟩
  · rw [hu]
    exact hc.wellFormed h
  · rw [hu]
    exact hc.wellFormed h

end Batch

namespace Tree

open Edit

variable {t : Tree}

/--
In a well-formed tree no edit and no action leaves anything behind when it is
refused. A batch that fails has carried out the actions before the one it
reports, which is refused for the reported reason by the tree they lead to, and
that tree is what remains; a batch that does not fail has carried out all.
-/
theorem WellFormed.all_or_nothing (h : WellFormed t) :
    (∀ parent name body, (insert parent name body).AllOrNothing t) ∧
    (∀ path body, (create path body).AllOrNothing t) ∧
    (∀ path dimensions spacing origin cellDataName,
      (createImage path dimensions spacing origin cellDataName).AllOrNothing t) ∧
    (∀ path count vertexDataName coordinatesName allocated,
      (createVertex path count vertexDataName coordinatesName allocated).AllOrNothing t) ∧
    (∀ path, (remove path).AllOrNothing t) ∧
    (∀ path name, (rename path name).AllOrNothing t) ∧
    (∀ path newParent, (move path newParent).AllOrNothing t) ∧
    (∀ path shape, (resizeMatrix path shape).AllOrNothing t) ∧
    (∀ (mode : Mode) (a : Action), (a.apply mode).AllOrNothing t) ∧
    (∀ (mode : Mode) (b : Batch) (e : BatchError) (u : Tree),
      b.apply mode t = (.error e, u) →
      ∃ done rest : Batch, b = done ++ e.action :: rest ∧ done.length = e.index ∧
        Batch.Carries mode done t u ∧ (e.action.apply mode).on u = (.error e.cause, u)) ∧
    ∀ (mode : Mode) (b : Batch) (u : Tree),
      b.apply mode t = (.ok (), u) → Batch.Carries mode b t u := by
  refine ⟨fun _ _ _ => insert_allOrNothing, fun _ _ => create_allOrNothing,
    fun _ _ _ _ _ => createImage_allOrNothing h, fun _ _ _ _ _ => createVertex_allOrNothing h,
    fun _ => remove_allOrNothing, fun _ _ => rename_allOrNothing, fun _ _ => move_allOrNothing,
    fun _ _ => resizeMatrix_allOrNothing h, fun _ a => a.allOrNothing h, ?_, ?_⟩
  · intro mode b e u hbad
    rcases Batch.apply_spec mode b h with ⟨v, hok, -⟩ | ⟨done, rest, a, x, v, herr, rfl, hc, hx⟩
    · cases hok.symm.trans hbad
    · cases herr.symm.trans hbad
      exact ⟨done, rest, rfl, rfl, hc, hx⟩
  · intro mode b u hok
    rcases Batch.apply_spec mode b h with ⟨v, hok', hc⟩ | ⟨done, rest, a, x, v, herr, -⟩
    · cases hok'.symm.trans hok
      exact hc
    · cases herr.symm.trans hok

/-- A tree with a cloud of points, its coordinates and the matrix of its vertex data. -/
def cloud : Tree :=
  ((createVertex (.single "cloud") 2 "data" "points" true).on .empty).2

theorem wellFormed_cloud : WellFormed cloud :=
  ((createVertex_makes wellFormed_empty fun _ _ => trivial).change
    (createVertex_allOrNothing wellFormed_empty) : Change (fun _ => True) _ _).wellFormed
    wellFormed_empty

/-- Resizing the vertex data of a cloud of points, which touches four objects, all or nothing. -/
theorem resize_cloud_all_or_nothing :
    WellFormed cloud ∧
      ∀ shape, (resizeMatrix ⟨["cloud", "data"]⟩ shape).AllOrNothing cloud :=
  ⟨wellFormed_cloud,
    fun shape => wellFormed_cloud.all_or_nothing.2.2.2.2.2.2.2.1 ⟨["cloud", "data"]⟩ shape⟩

end Tree

end FilterTree
