import FilterTree.Proofs.Extends
import FilterTree.Proofs.Typed
import FilterTree.Proofs.Workers

/-!
# What the body that computes misorientations does

The body works in three parts. It reads four objects (`Sources`), the first of
which without elements ends it; it computes; and it writes the lists and then the
averages. Nothing is written before everything has been computed, so a run can
only end with what is wrong with its sources, cancelled, or with what writing
does when all entries are there (`work_ends`).

What the computing relies on is a matter of the gate. A selection that has passed
it is an array or a list of the right type, and phases have one component; that
the tuples of everything about features have been counted too makes a phase there
for every feature that has a list (`work_spec`).
-/

namespace FilterTree

namespace Attempt

variable {α β : Type} {w w' : Workspace}

theorem run_bind_of_error {a : Attempt α} {k : α → Attempt β} {f : Failure}
    (ha : a.run w = (.error f, w')) : (a >>= k).run w = (.error f, w') := by
  rw [run_bind, ha]

end Attempt

namespace Builtin.Misorientation

open Attempt

variable {w : Workspace} {path : Path} {type : ElementType}

/-! ## Reading -/

/-- The stores of the four objects that the body reads. -/
structure Sources where
  structures : DenseStore UInt32
  orientations : DenseStore Float32
  phases : DenseStore Int32
  neighbors : ListStore Int32

namespace Sources

variable (s : Sources)

/-- The stores stand where they are looked for. -/
structure StandAt (t : Tree) (p : Places) : Prop where
  structures : t.denseAt p.structures .uint32 = .ok s.structures
  orientations : t.denseAt p.orientations .float32 = .ok s.orientations
  phases : t.denseAt p.phases .int32 = .ok s.phases
  neighbors : t.listsAt p.neighbors .int32 = .ok s.neighbors

/-- The rows of the stores. -/
def rows : Rows where
  codes := s.structures.row?.getD #[]
  orientations := s.orientations.row?.getD #[]
  phases := s.phases.row?.getD #[]

/-- The features that each feature touches. -/
def lists : List (List Int32) := (s.neighbors.lists?.getD #[]).toList

/-- The first of the objects whose elements are not there. -/
def unallocated? (p : Places) : Option Path :=
  [(p.structures, s.structures.isAllocated), (p.orientations, s.orientations.isAllocated),
    (p.phases, s.phases.isAllocated), (p.neighbors, s.neighbors.isAllocated)].findSome?
    fun (path, allocated) => if allocated then none else some path

/-- Why the angles cannot be computed, if they cannot. -/
def failure? (p : Places) : Option Failure :=
  match s.unallocated? p with
  | some path => some (refused (.store path .notAllocated))
  | none => s.rows.faultFrom? 0 s.lists

variable {s} {p : Places}

theorem unallocated?_eq_none : s.unallocated? p = none ↔ s.structures.isAllocated ∧
    s.orientations.isAllocated ∧ s.phases.isAllocated ∧ s.neighbors.isAllocated := by
  simp [unallocated?]

theorem failure?_eq_none : s.failure? p = none ↔
    s.unallocated? p = none ∧ s.rows.faultFrom? 0 s.lists = none := by
  rw [failure?]
  cases s.unallocated? p <;> simp

/-- What computing the angles can fail with, whoever comes to it first. -/
inductive Fails (s : Sources) (p : Places) : Failure → Prop
  | unallocated {path : Path} (h : s.unallocated? p = some path) :
      Fails s p (refused (.store path .notAllocated))
  | faulty {f : Failure} (h : s.unallocated? p = none) (hf : s.rows.Faulty s.lists f) : Fails s p f

theorem Fails.kind {f : Failure} (h : s.Fails p f) : f.kind ≠ .crash := by
  cases h with
  | unallocated h => simp [refused, Failure.ofTree]
  | faulty _ hf =>
      rw [hf.kind]
      decide

/-- Computing can fail exactly if there is a first failure. -/
theorem failure?_eq_none_iff : s.failure? p = none ↔ ∀ f, ¬ s.Fails p f := by
  rw [failure?]
  cases hallocated : s.unallocated? p with
  | some path => exact iff_of_false (nomatch ·) fun hnone => hnone _ (.unallocated hallocated)
  | none =>
      refine Rows.faultFrom?_eq_none.trans ⟨fun hnone f hf => ?_, fun hnone f hf => ?_⟩
      · cases hf with
        | unallocated h => cases hallocated.symm.trans h
        | faulty _ hf => exact hnone f hf
      · exact hnone f (.faulty hallocated hf)

end Sources

theorem elements_run {s : DenseStore type.Carrier} (hs : w.tree.denseAt path type = .ok s) :
    (elements path type).run w =
      (match s.row? with
        | some row => .ok row
        | none => .error (refused (.store path .notAllocated)), w) := by
  rw [elements, run_ask, hs]
  show ((s.row.mapError (TreeError.store path)).mapError Failure.ofTree, w) = _
  rw [DenseStore.row]
  cases s.row? <;> rfl

theorem neighbors_run {s : ListStore Int32} (hs : w.tree.listsAt path .int32 = .ok s) :
    (Attempt.ask fun t => do
      ((← t.listsAt path .int32).lists).mapError (TreeError.store path)).run w =
      (match s.lists? with
        | some lists => .ok lists
        | none => .error (refused (.store path .notAllocated)), w) := by
  rw [run_ask, hs]
  show ((s.lists.mapError (TreeError.store path)).mapError Failure.ofTree, w) = _
  rw [ListStore.lists]
  cases s.lists? <;> rfl

variable {collect : Collector} {bound : Arguments} {p : Places} {s : Sources}

theorem compute_run {inputs : Inputs} {neighbors : Array (List Int32)} :
    (compute collect p inputs neighbors).run w =
      match collect inputs neighbors.toList
        (Counter.new "Computing misorientations" neighbors.size) w.run with
      | (.error e, run) => (.error e, ⟨w.tree, run⟩)
      | (.ok lists, run) =>
        if run.cancelled then (.ok .cancelled, ⟨w.tree, run⟩)
        else (write p lists).run ⟨w.tree, run⟩ := by
  refine (run_bind_of_ok run_get).trans ?_
  rcases collect inputs _ _ w.run with ⟨e | lists, run⟩
  · rfl
  · dsimp only
    refine (run_bind_of_ok rfl).trans ((run_bind_of_ok rfl).trans ?_)
    cases run.cancelled <;> rfl

/-- The body reads four objects in turn and computes as soon as it has them. -/
theorem work_run (hplaces : places bound = .ok p)
    (hfeatures : checkFeatures w.tree p.orientations
      ([p.orientations, p.phases, p.neighbors, p.list] ++ p.average.toList) = .ok ())
    (hs : s.StandAt w.tree p) :
    (work collect bound).run w =
      match s.unallocated? p with
      | some path => (.error (refused (.store path .notAllocated)), w)
      | none => (compute collect p s.rows.inputs s.lists.toArray).run w := by
  have hstructures := elements_run hs.structures
  have horientations := elements_run hs.orientations
  have hphases := elements_run hs.phases
  have hneighbors := neighbors_run hs.neighbors
  unfold work
  refine (run_bind_of_ok (by rw [run_ofExcept, hplaces])).trans ?_
  refine (run_bind_of_ok run_get).trans ?_
  refine (run_bind_of_ok (by rw [run_ofExcept, hfeatures])).trans ?_
  -- up to the first object without elements, reading goes on
  rcases hcodes : s.structures.row? with _ | codes <;> rw [hcodes] at hstructures
  · rw [show s.unallocated? p = some p.structures by
      simp [Sources.unallocated?, DenseStore.isAllocated, hcodes]]
    exact run_bind_of_error hstructures
  refine (run_bind_of_ok hstructures).trans ?_
  rcases hrow : s.orientations.row? with _ | orientations <;> rw [hrow] at horientations
  · rw [show s.unallocated? p = some p.orientations by
      simp [Sources.unallocated?, DenseStore.isAllocated, hcodes, hrow]]
    exact run_bind_of_error horientations
  refine (run_bind_of_ok horientations).trans ?_
  rcases hphase : s.phases.row? with _ | phases <;> rw [hphase] at hphases
  · rw [show s.unallocated? p = some p.phases by
      simp [Sources.unallocated?, DenseStore.isAllocated, hcodes, hrow, hphase]]
    exact run_bind_of_error hphases
  refine (run_bind_of_ok hphases).trans ?_
  rcases hlists : s.neighbors.lists? with _ | lists <;> rw [hlists] at hneighbors
  · rw [show s.unallocated? p = some p.neighbors by
      simp [Sources.unallocated?, DenseStore.isAllocated, ListStore.isAllocated, hcodes, hrow,
        hphase, hlists]]
    exact run_bind_of_error hneighbors
  refine (run_bind_of_ok hneighbors).trans ?_
  rw [show s.unallocated? p = none by
    simp [Sources.unallocated?, DenseStore.isAllocated, ListStore.isAllocated, hcodes, hrow,
      hphase, hlists]]
  simp only [Sources.rows, Rows.inputs, Sources.lists, hcodes, hrow, hphase, hlists,
    Option.getD_some]

/--
How the body ends: with a failure of the sources, which is the first of them where one worker
computes, cancelled, or with what it writes when all entries are there. Before it writes the tree is
as it was.
-/
inductive Ends (collect : Collector) (s : Sources) (p : Places) (w : Workspace)
    (result : Except Failure Completion) (w' : Workspace) : Prop
  | failed {f : Failure} (h : s.Fails p f) (hfirst : collect = oneWorker → s.failure? p = some f)
      (hresult : result = .error f) (htree : w'.tree = w.tree)
  | cancelled (h : w'.run.cancelled = true) (hresult : result = .ok .cancelled)
      (htree : w'.tree = w.tree)
  | written {angles : List (List Float32)} {run : Run} (h : s.failure? p = none)
      (hentries : Listed s.rows.Entry 0 s.lists angles)
      (hwrite : (write p angles).run ⟨w.tree, run⟩ = (result, w'))

theorem work_ends (hshared : collect.Shared) (hplaces : places bound = .ok p)
    (hfeatures : checkFeatures w.tree p.orientations
      ([p.orientations, p.phases, p.neighbors, p.list] ++ p.average.toList) = .ok ())
    (hs : s.StandAt w.tree p)
    (hsizes : s.unallocated? p = none → s.lists.length ≤ s.rows.phases.size) :
    Ends collect s p w ((work collect bound).run w).1 ((work collect bound).run w).2 := by
  rw [work_run hplaces hfeatures hs]
  cases hallocated : s.unallocated? p with
  | some path =>
      exact .failed (.unallocated hallocated)
        (fun _ => by rw [Sources.failure?, hallocated]) rfl rfl
  | none =>
      have hfits := hsizes hallocated
      dsimp only
      rw [compute_run]
      rcases hrun : collect s.rows.inputs s.lists.toArray.toList
        (Counter.new "Computing misorientations" s.lists.toArray.size) w.run with ⟨result, run⟩
      rcases hshared.answers hfits hrun with ⟨f, rfl, hfaulty⟩ | ⟨angles, rfl, hcomplete⟩
      · refine .failed (.faulty hallocated hfaulty) ?_ rfl rfl
        rintro rfl
        have hfirst : 0 + s.lists.length ≤ s.rows.phases.size := by omega
        rcases Rows.allAngles_answers hfirst hrun with ⟨-, hok⟩ | hfault
        · cases hok
        · rw [Sources.failure?, hallocated]
          exact hfault
      · dsimp only
        cases hcancelled : run.cancelled with
        | true => exact .cancelled hcancelled rfl rfl
        | false =>
            rcases hcomplete with hcut | ⟨hnone, hentries⟩
            · cases hcancelled.symm.trans hcut
            · refine .written ?_ hentries rfl
              rw [Sources.failure?, hallocated]
              exact Rows.faultFrom?_eq_none.mpr hnone

/-! ## Writing -/

/-- At a path there is a row of numbers. -/
def HasRow (t : Tree) (path : Path) : Prop :=
  ∃ s row, t.denseAt path .float32 = .ok s ∧ s.row? = some row

/-- At a path there is a row into which so many numbers can be copied. -/
def Takes (t : Tree) (path : Path) (n : Nat) : Prop :=
  ∃ s row, t.denseAt path .float32 = .ok s ∧ s.row? = some row ∧ row.size = n

section

variable {t : Tree} {place : Path} {l l' : NeighborList}

theorem hasRow_setBodyAt_list (h : t.Linked) (hl : t.listAt place = .ok l) :
    HasRow (t.setBodyAt place (.list l')) path ↔ HasRow t path := by
  simp only [HasRow, Tree.denseAt_setBodyAt_list h hl]

theorem takes_setBodyAt_list (h : t.Linked) (hl : t.listAt place = .ok l) {n : Nat} :
    Takes (t.setBodyAt place (.list l')) path n ↔ Takes t path n := by
  simp only [Takes, Tree.denseAt_setBodyAt_list h hl]

end

theorem writeElements_run {values : List Float32} {s : DenseStore Float32}
    (hs : w.tree.denseAt path .float32 = .ok s) :
    (writeElements path values).run w =
      match s.row? with
      | none => (.error (refused (.store path .notAllocated)), w)
      | some row =>
        if values.length = row.size then (.ok (), ⟨w.tree.setBodyAt path
          (.array ⟨.float32, { s with row? := some values.toArray }⟩), w.run⟩)
        else (.error (Error.rowsDiffer row.size values.length).failure, w) := by
  have hfound : (ask fun t => t.denseAt path .float32).run w = (.ok s, w) := by
    rw [run_ask, hs]
    rfl
  refine (run_bind_of_ok hfound).trans ?_
  rcases hrow : s.row? with _ | row
  · have hnone : s.overwrite values.toArray = .error .notAllocated := by
      rw [DenseStore.overwrite, DenseStore.row, hrow]
      rfl
    exact run_bind_of_error (congrArg (fun r => (Except.mapError (uncopied path) r, w)) hnone)
  · dsimp only
    split
    · next hsize =>
        have hok : s.overwrite values.toArray = .ok { s with row? := some values.toArray } := by
          rw [DenseStore.overwrite, DenseStore.row, hrow]
          exact if_pos hsize
        refine (run_bind_of_ok ?_).trans rfl
        exact congrArg (fun r => (Except.mapError (uncopied path) r, w)) hok
    · next hsize =>
        have hbad : s.overwrite values.toArray =
            .error (.lengthMismatch row.size values.length) := by
          rw [DenseStore.overwrite, DenseStore.row, hrow]
          exact if_neg hsize
        exact run_bind_of_error (congrArg (fun r => (Except.mapError (uncopied path) r, w)) hbad)

/-- Where they do not fit numbers are not written, and it is a crash if there is a row at all. -/
theorem writeElements_of_not_takes {values : List Float32}
    (h : ¬ Takes w.tree path values.length) :
    ∃ f, (writeElements path values).run w = (.error f, w) ∧
      (f.kind = .crash ↔ HasRow w.tree path) := by
  rcases hs : w.tree.denseAt path .float32 with e | s
  · exact ⟨.ofTree e, run_bind_of_error (by rw [run_ask, hs]; rfl),
      fun hcrash => (nomatch hcrash), fun ⟨_, _, hs', _⟩ => (nomatch hs.symm.trans hs')⟩
  · have hrun := @writeElements_run _ _ values _ hs
    rcases hrow : s.row? with _ | row
    · rw [hrow] at hrun
      refine ⟨_, hrun, fun hcrash => (nomatch hcrash), fun ⟨_, _, hs', hrow'⟩ => ?_⟩
      cases hs.symm.trans hs'
      cases hrow.symm.trans hrow'
    · have hsize : ¬ values.length = row.size := fun heq => h ⟨s, row, hs, hrow, heq.symm⟩
      rw [hrow] at hrun
      exact ⟨_, hrun.trans (if_neg hsize), fun _ => ⟨s, row, hs, hrow⟩, fun _ => rfl⟩

theorem writeLists_run {lists : List (List Float32)} {l : ListStore Float32}
    (hl : w.tree.listsAt path .float32 = .ok l) (hsize : lists.length = l.tupleCount) :
    (writeLists path lists).run w = (.ok (), ⟨w.tree.setBodyAt path
      (.list ⟨.float32, { l with lists? := some lists.toArray }⟩), w.run⟩) := by
  have hfound : (ask fun t => t.listsAt path .float32).run w = (.ok l, w) := by
    rw [run_ask, hl]
    rfl
  have hset : l.setLists lists.toArray = .ok { l with lists? := some lists.toArray } :=
    if_pos hsize
  refine (run_bind_of_ok hfound).trans ((run_bind_of_ok (congrArg (fun r =>
    ((Except.mapError (TreeError.store path) r).mapError Failure.ofTree, w)) hset)).trans rfl)

/-- The lists are written before it is known whether the averages can be. -/
theorem write_of_listed {angles : List (List Float32)} {l : ListStore Float32}
    (hl : w.tree.listsAt p.list .float32 = .ok l) (hsize : angles.length = l.tupleCount) :
    (write p angles).run w =
      match p.average with
      | none => (.ok .finished, ⟨w.tree.setBodyAt p.list
          (.list ⟨.float32, { l with lists? := some angles.toArray }⟩), w.run⟩)
      | some path => (do writeElements path (angles.map average); return .finished : Attempt _).run
          ⟨w.tree.setBodyAt p.list
            (.list ⟨.float32, { l with lists? := some angles.toArray }⟩), w.run⟩ := by
  refine (run_bind_of_ok (writeLists_run hl hsize)).trans ?_
  cases p.average <;> rfl

theorem writeLists_leaves (h : w.tree.WellFormed) {lists : List (List Float32)}
    {l : ListStore Float32} (hl : w.tree.listsAt path .float32 = .ok l)
    (hsize : lists.length = l.tupleCount) :
    ∃ u : Tree, (writeLists path lists).run w = (.ok (), ⟨u, w.run⟩) ∧ u.WellFormed ∧
      u.listsAt path .float32 = .ok { l with lists? := some lists.toArray } ∧
      ∀ q, q ≠ path → u.objectAt q = w.tree.objectAt q := by
  have hset : l.setLists lists.toArray = .ok { l with lists? := some lists.toArray } :=
    if_pos hsize
  obtain ⟨o, ho, -⟩ := Tree.listsAt_eq_ok.mp hl
  refine ⟨_, writeLists_run hl hsize, ?_, ?_, ?_⟩
  · exact (Workspace.refilled_list h hl (.ofSetLists hset)).wellFormed
  · exact Tree.listsAt_eq_ok.mpr ⟨_, Tree.objectAt_setBodyAt_self ho, rfl⟩
  · exact fun q hne => Tree.objectAt_setBodyAt_of_ne h.toLinked hne

theorem writeElements_leaves (h : w.tree.WellFormed) {values : List Float32}
    (htakes : Takes w.tree path values.length) :
    ∃ u : Tree, (writeElements path values).run w = (.ok (), ⟨u, w.run⟩) ∧
      (∃ s, w.tree.denseAt path .float32 = .ok s ∧
        u.denseAt path .float32 = .ok { s with row? := some values.toArray }) ∧
      ∀ q, q ≠ path → u.objectAt q = w.tree.objectAt q := by
  obtain ⟨s, row, hs, hrow, hfits⟩ := htakes
  obtain ⟨o, ho, -⟩ := Tree.denseAt_eq_ok.mp hs
  have hrun := @writeElements_run _ _ values _ hs
  rw [hrow] at hrun
  refine ⟨_, hrun.trans (if_pos hfits.symm), ⟨s, hs, ?_⟩, ?_⟩
  · exact Tree.denseAt_eq_ok.mpr ⟨_, Tree.objectAt_setBodyAt_self ho, rfl⟩
  · exact fun q hne => Tree.objectAt_setBodyAt_of_ne h.toLinked hne

/-- What was computed is in the outputs, and what is found at any other path is as before. -/
structure Written (p : Places) (angles : List (List Float32)) (averages : List Float32)
    (t u : Tree) : Prop where
  lists : ∃ l, t.listsAt p.list .float32 = .ok l ∧
    u.listsAt p.list .float32 = .ok { l with lists? := some angles.toArray }
  averages : ∀ path ∈ p.average, ∃ s, t.denseAt path .float32 = .ok s ∧
    u.denseAt path .float32 = .ok { s with row? := some averages.toArray }
  others : ∀ path, path ≠ p.list → path ∉ p.average → u.objectAt path = t.objectAt path

theorem write_written (h : w.tree.WellFormed) {angles : List (List Float32)}
    {l : ListStore Float32} (hl : w.tree.listsAt p.list .float32 = .ok l)
    (hsize : angles.length = l.tupleCount)
    (htakes : ∀ path ∈ p.average, Takes w.tree path l.tupleCount) :
    ∃ u, (write p angles).run w = (.ok .finished, ⟨u, w.run⟩) ∧
      Written p angles (angles.map average) w.tree u := by
  obtain ⟨v, hfirst, hv, hlist, hothers⟩ := writeLists_leaves h hl hsize
  cases haverage : p.average with
  | none =>
      refine ⟨v, (run_bind_of_ok hfirst).trans ?_, ⟨l, hl, hlist⟩, ?_, fun q hne _ => hothers q hne⟩
      · rw [haverage]
        rfl
      · rw [haverage]
        exact fun _ hpath => nomatch hpath
  | some path =>
      -- an array is not where a list is
      have hapart : path ≠ p.list := by
        rintro rfl
        obtain ⟨s, row, hs, -⟩ := htakes _ haverage
        obtain ⟨o, ho, harray⟩ := Tree.denseAt_eq_ok.mp hs
        obtain ⟨o', ho', hbody⟩ := Tree.listsAt_eq_ok.mp hl
        cases ho.symm.trans ho'
        cases harray.symm.trans hbody
      have hsame := @Tree.denseAt_congr _ path _ .float32 (hothers path hapart)
      have htaken : Takes v path (angles.map average).length := by
        rw [Takes, hsame, List.length_map, hsize]
        exact htakes path haverage
      obtain ⟨u, hsecond, ⟨s, hs, hs'⟩, hrest⟩ := @writeElements_leaves ⟨v, w.run⟩ path hv _ htaken
      refine ⟨u, (run_bind_of_ok hfirst).trans ?_, ⟨l, hl, ?_⟩, ?_, ?_⟩
      · rw [haverage]
        exact (run_bind_of_ok hsecond).trans rfl
      · exact (Tree.listsAt_congr (hrest p.list hapart.symm)).trans hlist
      · intro q hq
        cases haverage.symm.trans hq
        exact ⟨s, hsame ▸ hs, hs'⟩
      · intro q hne hq
        exact (hrest q fun heq => hq (heq ▸ haverage)).trans (hothers q hne)

/-! ## What the gate makes sure of -/

theorem checkType_singleton {actual type : ElementType}
    (h : Parameter.checkType path actual [type] = .ok ()) : actual = type := by
  rw [Parameter.checkType] at h
  split at h
  · next hcontains => simpa using hcontains
  · cases h

theorem exists_dense_of_selected {t : Tree} {type : ElementType} {shape : Shape}
    (h : Parameter.checkSelection t (.arraySelection [type] [shape]) (.path path) = .ok ()) :
    ∃ s, t.denseAt path type = .ok s ∧ s.componentShape = shape := by
  rw [Parameter.checkSelection] at h
  obtain ⟨⟨actual, s⟩, ha, hchecks⟩ := check_bind_eq_ok.mp h
  obtain ⟨htype, hcomponents⟩ := check_then_eq_ok.mp hchecks
  cases checkType_singleton htype
  have harray := Tree.arrayAt_eq_ok.mp (check_mapError_eq_ok.mp ha)
  refine ⟨s, Tree.denseAt_eq_ok.mpr harray, ?_⟩
  dsimp only at hcomponents
  split at hcomponents
  · next hcontains => simpa using hcontains
  · cases hcomponents

theorem exists_lists_of_selected {t : Tree} {type : ElementType}
    (h : Parameter.checkSelection t (.listSelection [type]) (.path path) = .ok ()) :
    ∃ s, t.listsAt path type = .ok s := by
  obtain ⟨⟨actual, s⟩, hl, htype⟩ := check_bind_eq_ok.mp h
  cases checkType_singleton htype
  exact ⟨s, Tree.listsAt_eq_ok.mpr (Tree.listAt_eq_ok.mp (check_mapError_eq_ok.mp hl))⟩

theorem consistent : schema.Consistent :=
  consistent_of_mem (f := filter) (mem_filters.mpr (by simp only [or_true]))

theorem exists_sources {t : Tree} {before : Bool} (hplaces : places bound = .ok p)
    (hchecked : (schema.checkTree bound t before).outcome = .ok ()) :
    ∃ s : Sources, s.StandAt t p ∧ s.orientations.componentShape = [4] ∧
      s.phases.componentShape = [1] := by
  have hselected : ∀ {key param path}, schema.params.get? key = some param →
      schema.isActive key bound = true → param.consumed = false →
      param.kind.isCreation = false → bound.get .path key = .ok path →
      Parameter.checkSelection t param.kind (.path path) = .ok () := by
    intro key param path hparam hactive hconsumed hcreation hget
    obtain ⟨hmem, rfl⟩ := consistent.keyed.mem_of_get? hparam
    have hlooked : Schema.isChecked before param = true := by
      rw [Schema.isChecked, hconsumed, hcreation]
      simp
    have hnone := Schema.checkTree_eq_ok.mp hchecked param hmem hactive hlooked
    exact Schema.selectionFailure?_eq_none.mp hnone _ (Arguments.get?_of_get_path hget)
  obtain ⟨hneighbors, horientations, hphases, hstructures, -, -⟩ := places_spec hplaces
  obtain ⟨structures, hstructures, -⟩ :=
    exists_dense_of_selected (hselected rfl rfl rfl rfl hstructures)
  obtain ⟨orientations, horientations, hfour⟩ :=
    exists_dense_of_selected (hselected rfl rfl rfl rfl horientations)
  obtain ⟨phases, hphases, hone⟩ :=
    exists_dense_of_selected (hselected rfl rfl rfl rfl hphases)
  obtain ⟨neighbors, hneighbors⟩ :=
    exists_lists_of_selected (hselected rfl rfl rfl rfl hneighbors)
  exact ⟨⟨structures, orientations, phases, neighbors⟩,
    ⟨hstructures, horientations, hphases, hneighbors⟩, hfour, hone⟩

/-- With one phase a feature there is a phase for every feature that has a list. -/
theorem sizes_of_checkFeatures {t : Tree} {n : Nat} (h : t.WellFormed) (hs : s.StandAt t p)
    (hone : s.phases.componentShape = [1]) (hphases : t.tupleCountAt p.phases = .ok n)
    (hneighbors : t.tupleCountAt p.neighbors = .ok n) (hallocated : s.unallocated? p = none) :
    s.rows.phases.size = n ∧ s.lists.length = n := by
  rw [Tree.tupleCountAt_of_denseAt hs.phases] at hphases
  rw [Tree.tupleCountAt_of_listsAt hs.neighbors] at hneighbors
  obtain ⟨-, -, hrow, hlists⟩ := Sources.unallocated?_eq_none.mp hallocated
  obtain ⟨row, hrow⟩ := Option.isSome_iff_exists.mp hrow
  obtain ⟨lists, hlists⟩ := Option.isSome_iff_exists.mp hlists
  have hsize : row.size = s.phases.tupleCount :=
    ((h.sound_denseAt hs.phases).full hrow).trans (DenseStore.size_of_single hone)
  have hlength := (h.sound_listsAt hs.neighbors).full hlists
  constructor
  · rw [Sources.rows, hrow, Option.getD_some, hsize]
    exact Except.ok.inj hphases
  · rw [Sources.lists, hlists, Option.getD_some, Array.length_toList]
    exact hlength.trans (Except.ok.inj hneighbors)

theorem checkFeatures_eq_ok {t : Tree} {orientations : Path} {features : List Path}
    (hne : features ≠ []) : checkFeatures t orientations features = .ok () ↔
      (∃ a, t.arrayAt orientations = .ok a ∧ a.store.componentCount = 4) ∧
        ∃ n, ∀ path ∈ features, t.tupleCountAt path = .ok n := by
  simp only [← Tree.commonTupleCount_eq_ok hne]
  rw [checkFeatures, check_bind_eq_ok]
  simp only [fromTree, check_mapError_eq_ok]
  rw [← exists_and_right]
  refine exists_congr fun a => ?_
  rw [and_assoc]
  refine and_congr_right fun _ => ?_
  by_cases hfour : a.store.componentCount = 4
  · simp only [hfour, ne_eq, not_true_eq_false, if_false, true_and]
    cases t.commonTupleCount features with
    | ok n => exact ⟨fun _ => ⟨n, rfl⟩, fun _ => rfl⟩
    | error e => cases e <;> simp [throw, throwThe, MonadExceptOf.throw]
  · simp only [hfour, ne_eq, not_false_eq_true, if_true, false_and, iff_false]
    intro hok
    cases hok

/--
Behind the gate the body has sources. If they have elements, there are as many
lists to read as there are phases and lists to write.
-/
theorem work_spec (hshared : collect.Shared) (h : w.tree.WellFormed)
    (hplaces : places bound = .ok p) (hchecked : (schema.checkAfter bound w.tree).outcome = .ok ())
    (hfeatures : checkFeatures w.tree p.orientations
      ([p.orientations, p.phases, p.neighbors, p.list] ++ p.average.toList) = .ok ()) :
    ∃ s : Sources, s.StandAt w.tree p ∧
      (s.unallocated? p = none → s.lists.length = s.rows.phases.size ∧
        ∀ l, w.tree.listsAt p.list .float32 = .ok l → s.lists.length = l.tupleCount) ∧
      Ends collect s p w ((work collect bound).run w).1 ((work collect bound).run w).2 := by
  obtain ⟨s, hs, -, hone⟩ := exists_sources hplaces hchecked
  obtain ⟨-, n, hcount⟩ := (checkFeatures_eq_ok (List.cons_ne_nil _ _)).mp hfeatures
  have hsizes : s.unallocated? p = none → s.rows.phases.size = n ∧ s.lists.length = n :=
    sizes_of_checkFeatures h hs hone (hcount _ (by simp)) (hcount _ (by simp))
  refine ⟨s, hs, fun hallocated => ⟨?_, fun l hl => ?_⟩, ?_⟩
  · rw [(hsizes hallocated).1, (hsizes hallocated).2]
  · have hlist := hcount p.list (by simp)
    rw [Tree.tupleCountAt_of_listsAt hl] at hlist
    rw [(hsizes hallocated).2, Except.ok.inj hlist]
  · refine work_ends hshared hplaces hfeatures hs fun hallocated => ?_
    have hsame := hsizes hallocated
    omega

theorem execute_work {args : Arguments}
    (hgate : ((filterWith collect).gate (filterWith collect).schema.checkAfter args
      w.tree).outcome = .ok bound) :
    ((filterWith collect).execute args w).1.outcome =
        ((work collect bound).run w).1.mapError ([·]) ∧
      ((filterWith collect).execute args w).2 = ((work collect bound).run w).2 := by
  have hbody : (filterWith collect).body bound w = _ := @report_apply _ (work collect bound) w
  rw [Filter.execute_eq hgate, hbody]
  refine ⟨?_, rfl⟩
  dsimp only
  cases ((work collect bound).run w).1 <;> rfl

end Builtin.Misorientation

end FilterTree
