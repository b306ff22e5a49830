import FilterTree.Proofs.Checks
import FilterTree.Proofs.Shell

/-!
# Reading and writing at a path

What the functions that look for an object of some kind at a path answer, as
conditions on the object that is found there. Writing its elements then changes
one body, and nothing of the object's shell.
-/

namespace FilterTree

theorem DataArray.as?_eq_some {a : DataArray} {type : ElementType} {s : DenseStore type.Carrier} :
    a.as? type = some s ↔ a = ⟨type, s⟩ := by
  obtain ⟨e, store⟩ := a
  rw [as?]
  constructor
  · intro h
    split at h
    · next he =>
        cases he
        cases h
        rfl
    · cases h
  · intro h
    cases h
    exact dif_pos rfl

theorem NeighborList.as?_eq_some {l : NeighborList} {type : ElementType}
    {s : ListStore type.Carrier} : l.as? type = some s ↔ l = ⟨type, s⟩ := by
  obtain ⟨e, store⟩ := l
  rw [as?]
  constructor
  · intro h
    split at h
    · next he =>
        cases he
        cases h
        rfl
    · cases h
  · intro h
    cases h
    exact dif_pos rfl

namespace Tree

variable {t : Tree} {path : Path}

theorem resolve_eq_ok {id : ObjectId} : t.resolve path = .ok id ↔ t.idOf? path = some id := by
  rw [resolve]
  cases t.idOf? path <;> simp

theorem objectAt_eq_ok {o : Object} :
    t.objectAt path = .ok o ↔ ∃ id, t.idOf? path = some id ∧ t.object? id = some o := by
  rw [objectAt, ← Option.bind_eq_some_iff]
  cases (t.idOf? path).bind t.object? <;> simp

theorem arrayAt_eq_ok {a : DataArray} :
    t.arrayAt path = .ok a ↔ ∃ o, t.objectAt path = .ok o ∧ o.body = .array a := by
  rw [arrayAt, check_bind_eq_ok]
  refine exists_congr fun o => and_congr_right fun _ => ?_
  cases o.body with
  | array b =>
      exact ⟨fun h => congrArg Body.array (Except.ok.inj h), fun h => by cases h; rfl⟩
  | group | matrix _ | list _ | geometry _ =>
      exact ⟨fun h => (nomatch h), fun h => (nomatch h)⟩

theorem listAt_eq_ok {l : NeighborList} :
    t.listAt path = .ok l ↔ ∃ o, t.objectAt path = .ok o ∧ o.body = .list l := by
  rw [listAt, check_bind_eq_ok]
  refine exists_congr fun o => and_congr_right fun _ => ?_
  cases o.body with
  | list b =>
      exact ⟨fun h => congrArg Body.list (Except.ok.inj h), fun h => by cases h; rfl⟩
  | group | matrix _ | array _ | geometry _ =>
      exact ⟨fun h => (nomatch h), fun h => (nomatch h)⟩

theorem matrixShapeAt_eq_ok {shape : Shape} :
    t.matrixShapeAt path = .ok shape ↔ ∃ o, t.objectAt path = .ok o ∧ o.body = .matrix shape := by
  rw [matrixShapeAt, check_bind_eq_ok]
  refine exists_congr fun o => and_congr_right fun _ => ?_
  cases o.body with
  | matrix s =>
      exact ⟨fun h => congrArg Body.matrix (Except.ok.inj h), fun h => by cases h; rfl⟩
  | group | array _ | list _ | geometry _ =>
      exact ⟨fun h => (nomatch h), fun h => (nomatch h)⟩

theorem denseAt_eq_ok {type : ElementType} {s : DenseStore type.Carrier} :
    t.denseAt path type = .ok s ↔ ∃ o, t.objectAt path = .ok o ∧ o.body = .array ⟨type, s⟩ := by
  rw [denseAt, check_bind_eq_ok]
  constructor
  · rintro ⟨a, ha, h⟩
    split at h
    · next s' hs =>
        cases h
        rw [DataArray.as?_eq_some.mp hs] at ha
        exact arrayAt_eq_ok.mp ha
    · cases h
  · intro h
    refine ⟨_, arrayAt_eq_ok.mpr h, ?_⟩
    rw [DataArray.as?_eq_some.mpr rfl]
    rfl

theorem listsAt_eq_ok {type : ElementType} {s : ListStore type.Carrier} :
    t.listsAt path type = .ok s ↔ ∃ o, t.objectAt path = .ok o ∧ o.body = .list ⟨type, s⟩ := by
  rw [listsAt, check_bind_eq_ok]
  constructor
  · rintro ⟨l, hl, h⟩
    split at h
    · next s' hs =>
        cases h
        rw [NeighborList.as?_eq_some.mp hs] at hl
        exact listAt_eq_ok.mp hl
    · cases h
  · intro h
    refine ⟨_, listAt_eq_ok.mpr h, ?_⟩
    rw [NeighborList.as?_eq_some.mpr rfl]
    rfl

/-- What is found depends on the object at the path alone. -/
theorem denseAt_congr {u : Tree} {type : ElementType} (h : u.objectAt path = t.objectAt path) :
    u.denseAt path type = t.denseAt path type := by
  rw [denseAt, denseAt, arrayAt, arrayAt, h]

theorem listsAt_congr {u : Tree} {type : ElementType} (h : u.objectAt path = t.objectAt path) :
    u.listsAt path type = t.listsAt path type := by
  rw [listsAt, listsAt, listAt, listAt, h]

/-! ## Counts -/

theorem tupleCountAt_eq_ok {n : Nat} : t.tupleCountAt path = .ok n ↔
    ∃ o shape, t.objectAt path = .ok o ∧ o.body.tupleShape? = some shape ∧ shape.size = n := by
  rw [tupleCountAt, check_bind_eq_ok]
  refine exists_congr fun o => ?_
  cases o.body.tupleShape? with
  | none => exact ⟨fun h => (nomatch h.2), fun ⟨_, _, h, _⟩ => (nomatch h)⟩
  | some shape =>
      constructor
      · rintro ⟨ho, h⟩
        exact ⟨shape, ho, rfl, Except.ok.inj h⟩
      · rintro ⟨_, ho, hshape, rfl⟩
        cases hshape
        exact ⟨ho, rfl⟩

theorem tupleCountAt_of_denseAt {type : ElementType} {s : DenseStore type.Carrier}
    (hs : t.denseAt path type = .ok s) :
    t.tupleCountAt path = .ok s.tupleCount := by
  obtain ⟨o, ho, hbody⟩ := denseAt_eq_ok.mp hs
  exact tupleCountAt_eq_ok.mpr ⟨o, s.tupleShape, ho, by rw [hbody]; rfl, rfl⟩

theorem tupleCountAt_of_listsAt {type : ElementType} {s : ListStore type.Carrier}
    (hs : t.listsAt path type = .ok s) :
    t.tupleCountAt path = .ok s.tupleCount := by
  obtain ⟨o, ho, hbody⟩ := listsAt_eq_ok.mp hs
  exact tupleCountAt_eq_ok.mpr ⟨o, s.tupleShape, ho, by rw [hbody]; rfl, rfl⟩

/-- Paths have a tuple count in common if each of them has it. -/
theorem commonTupleCount_eq_ok {paths : List Path} {n : Nat} (hne : paths ≠ []) :
    t.commonTupleCount paths = .ok n ↔ ∀ path ∈ paths, t.tupleCountAt path = .ok n := by
  have hcount : ∀ {p c}, (do return (p, ← t.tupleCountAt p) : Except TreeError (Path × Nat)) =
      .ok c ↔ t.tupleCountAt p = .ok c.2 ∧ c.1 = p := by
    intro p c
    rw [check_bind_eq_ok]
    constructor
    · rintro ⟨k, hk, h⟩
      cases h
      exact ⟨hk, rfl⟩
    · rintro ⟨hk, rfl⟩
      exact ⟨c.2, hk, rfl⟩
  rw [commonTupleCount, check_bind_eq_ok]
  constructor
  · rintro ⟨counts, hcounts, h⟩
    have hall : ∀ c ∈ counts, c.2 = n := by
      cases counts with
      | nil =>
          rw [check_mapM_eq_ok, List.forall₂_nil_right_iff] at hcounts
          exact absurd hcounts hne
      | cons c rest =>
          dsimp only at h
          split at h
          · next hsame =>
              cases h
              exact fun c hc => by simpa using List.all_eq_true.mp hsame c hc
          · cases h
    rw [check_mapM_eq_ok] at hcounts
    clear h hne
    induction hcounts with
    | nil => exact fun _ hp => nomatch hp
    | cons hc _ ih =>
        obtain ⟨hfirst, hrest⟩ := List.forall_mem_cons.mp hall
        refine List.forall_mem_cons.mpr ⟨?_, ih hrest⟩
        rw [(hcount.mp hc).1, hfirst]
  · intro hall
    refine ⟨paths.map fun p => (p, n), ?_, ?_⟩
    · rw [check_mapM_eq_ok, List.forall₂_map_right_iff, List.forall₂_same]
      exact fun p hp => hcount.mpr ⟨hall p hp, rfl⟩
    · obtain ⟨p, rest, rfl⟩ := List.exists_cons_of_ne_nil hne
      rw [List.map_cons]
      exact if_pos (by simp)

/-! ## Elements -/

theorem WellFormed.sound_denseAt (h : WellFormed t) {type : ElementType} {s : DenseStore type.Carrier}
    (hs : t.denseAt path type = .ok s) : s.Sound := by
  obtain ⟨o, ho, hbody⟩ := denseAt_eq_ok.mp hs
  obtain ⟨id, -, ho⟩ := objectAt_eq_ok.mp ho
  have hsound := h.sound ho
  rwa [hbody] at hsound

theorem WellFormed.sound_listsAt (h : WellFormed t) {type : ElementType} {s : ListStore type.Carrier}
    (hs : t.listsAt path type = .ok s) : s.Sound := by
  obtain ⟨o, ho, hbody⟩ := listsAt_eq_ok.mp hs
  obtain ⟨id, -, ho⟩ := objectAt_eq_ok.mp ho
  have hsound := h.sound ho
  rwa [hbody] at hsound

/-- Where the elements of an array are written: at one object, whose shell and soundness stay. -/
theorem WellFormed.write_denseAt (h : WellFormed t) {type : ElementType}
    {s s' : DenseStore type.Carrier} (hs : t.denseAt path type = .ok s)
    (hw : s.Sound → s.Rewritten s') :
    ∃ id o, t.object? id = some o ∧
      t.setBodyAt path (.array ⟨type, s'⟩) = t.setBody id (.array ⟨type, s'⟩) ∧
      (Body.array ⟨type, s'⟩).shell = o.body.shell ∧ (Body.array ⟨type, s'⟩).Sound := by
  obtain ⟨o, ho, hbody⟩ := denseAt_eq_ok.mp hs
  obtain ⟨id, hid, ho⟩ := objectAt_eq_ok.mp ho
  have hsound := h.sound ho
  rw [hbody] at hsound
  refine ⟨id, o, ho, by rw [setBodyAt, hid], ?_, (hw hsound).sound hsound⟩
  rw [hbody, Body.shell, DataArray.shell, (hw hsound).shell_eq]
  rfl

/-- Where lists are written: at one object, whose shell and soundness stay. -/
theorem WellFormed.write_listsAt (h : WellFormed t) {type : ElementType}
    {s s' : ListStore type.Carrier} (hs : t.listsAt path type = .ok s)
    (hw : s.Sound → s.Rewritten s') :
    ∃ id o, t.object? id = some o ∧
      t.setBodyAt path (.list ⟨type, s'⟩) = t.setBody id (.list ⟨type, s'⟩) ∧
      (Body.list ⟨type, s'⟩).shell = o.body.shell ∧ (Body.list ⟨type, s'⟩).Sound := by
  obtain ⟨o, ho, hbody⟩ := listsAt_eq_ok.mp hs
  obtain ⟨id, hid, ho⟩ := objectAt_eq_ok.mp ho
  have hsound := h.sound ho
  rw [hbody] at hsound
  refine ⟨id, o, ho, by rw [setBodyAt, hid], ?_, (hw hsound).sound hsound⟩
  rw [hbody, Body.shell, NeighborList.shell, (hw hsound).shell_eq]
  rfl

end Tree

end FilterTree
