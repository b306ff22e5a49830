import FilterTree.Proofs.Admitted
import FilterTree.Proofs.Workings

/-!
# Between the two writes

The body that computes misorientations takes everything out of the tree before
it puts anything in, so whatever goes wrong with what it reads leaves the tree as
it was. Then it writes twice: the lists, and after them the averages. Only
there can it stop with one thing done and the other not, and it does if no row
of the right length is at the place of the averages; that place is looked at when
the lists have been written. A missing row is reported, but one of another
length stops the program.

Nothing else can stop the program. The gate has seen that a feature has one
phase, so there is a phase for every list that is read, and the list that is
written has been counted together with them.
-/

namespace FilterTree

/-! ## A gate stops nothing but its own filter -/

theorem Report.crashed_eq_false {α : Type} {r : Report α}
    (h : ∀ failures, r.outcome = .error failures → ∀ f ∈ failures, f.kind ≠ .crash) :
    r.crashed = false := by
  rw [crashed, failures]
  cases hout : r.outcome with
  | ok => rfl
  | error failures => exact List.any_eq_false.mpr fun f hf => by simpa using h failures hout f hf

theorem Report.crashed_of_mapError {α : Type} {r : Report α} {x : Except Failure α}
    (hout : r.outcome = x.mapError ([·])) (h : ∀ f, x = .error f → f.kind ≠ .crash) :
    r.crashed = false := by
  refine crashed_eq_false fun failures hfailed f hf => ?_
  cases x with
  | ok => cases hout.symm.trans hfailed
  | error e =>
      cases hout.symm.trans hfailed
      cases List.mem_singleton.mp hf
      exact h f rfl

namespace Schema

variable {s : Schema} {args : Arguments} {t : Tree} {failures : List Failure} {f : Failure}

theorem Blames.kind {active : String → Bool} {ps : List Parameter}
    (h : Blames args active ps failures) (hf : f ∈ failures) : f.kind = .argument := by
  induction h with
  | nil => cases hf
  | cons hone _ ih =>
      rcases List.mem_cons.mp hf with rfl | hf
      · obtain ⟨e, -, rfl⟩ := hone
        rfl
      · exact ih hf

theorem kind_of_checkTree {before : Bool}
    (hfailed : (s.checkTree args t before).outcome = .error failures) (hf : f ∈ failures) :
    f.kind = .structural := by
  rw [checkTree] at hfailed
  split at hfailed
  · cases hfailed
  · cases hfailed
    obtain ⟨p, -, hp⟩ := List.mem_filterMap.mp hf
    rw [selectionFailure?] at hp
    split at hp
    · cases hp
    · split at hp <;> cases hp
      rfl

end Schema

theorem Filter.kind_of_gate {f : Filter} (h : f.schema.Keyed) {args : Arguments} {t : Tree}
    {failures : List Failure}
    (hfailed : (f.gate f.schema.checkAfter args t).outcome = .error failures)
    {e : Failure} (he : e ∈ failures) : e.kind ≠ .crash := by
  rw [gate, Report.andThen] at hfailed
  cases hbound : (f.schema.bind args).outcome with
  | error blamed =>
      rw [hbound] at hfailed
      cases hfailed
      rw [(h.blames_of_bind hbound).kind he]
      decide
  | ok bound =>
      rw [hbound] at hfailed
      cases hchecked : (f.schema.checkAfter bound t).outcome with
      | error refused =>
          simp only [Report.map, hchecked] at hfailed
          cases hfailed
          rw [Schema.kind_of_checkTree hchecked he]
          decide
      | ok =>
          simp only [Report.map, hchecked] at hfailed
          cases hfailed

namespace Builtin

open Attempt Misorientation FilterTree.Tree

variable {w w' : Workspace} {t : Tree} {p : Places} {path : Path} {args bound : Arguments}

namespace Misorientation

/-! ## Writing -/

/-- The lists have been written to `t`, and the averages cannot be. -/
structure HalfWritten (t : Tree) (p : Places) (path : Path) (u : Tree) (f : Failure) : Prop where
  average : p.average = some path
  listed : ∃ (l : ListStore Float32) (lists : Array (List Float32)),
    t.listsAt p.list .float32 = .ok l ∧ lists.size = l.tupleCount ∧
    u = t.setBodyAt p.list (.list ⟨.float32, { l with lists? := some lists }⟩) ∧
    ¬ Takes t path l.tupleCount
  crash : f.kind = .crash ↔ HasRow t path

theorem write_cases (h : w.tree.WellFormed) {angles : List (List Float32)}
    (hsize : ∀ l, w.tree.listsAt p.list .float32 = .ok l → angles.length = l.tupleCount)
    {result : Except Failure Completion} (hrun : (write p angles).run w = (result, w')) :
    result = .ok .finished ∨ (∃ e : TreeError, result = .error (.ofTree e) ∧ w' = w) ∨
      ∃ path f, result = .error f ∧ HalfWritten w.tree p path w'.tree f := by
  cases hl : w.tree.listsAt p.list .float32 with
  | error e =>
      have hfailed : (write p angles).run w = (.error (.ofTree e), w) :=
        run_bind_of_error (run_bind_of_error (by rw [run_ask, hl]; rfl))
      cases hrun.symm.trans hfailed
      exact .inr (.inl ⟨e, rfl, rfl⟩)
  | ok l =>
      have hlength := hsize l hl
      have hlist := Tree.listAt_eq_ok.mpr (Tree.listsAt_eq_ok.mp hl)
      by_cases hall : ∀ path ∈ p.average, Takes w.tree path l.tupleCount
      · obtain ⟨u, hwritten, -⟩ := write_written h hl hlength hall
        cases hrun.symm.trans hwritten
        exact .inl rfl
      · simp only [not_forall] at hall
        obtain ⟨path, haverage : p.average = some path, htakes⟩ := hall
        rw [write_of_listed hl hlength, haverage] at hrun
        have hshort : ¬ Takes w.tree path (angles.map average).length := by
          rwa [List.length_map, hlength]
        obtain ⟨f, hfailed, hcrash⟩ := @writeElements_of_not_takes ⟨_, w.run⟩ path _
          (mt (takes_setBodyAt_list h.toLinked hlist).mp hshort)
        obtain ⟨rfl, rfl⟩ := Prod.mk.inj (hrun.symm.trans (run_bind_of_error hfailed))
        exact .inr (.inr ⟨path, f, rfl, haverage, ⟨l, angles.toArray, hl, hlength, rfl, htakes⟩,
          hcrash.trans (hasRow_setBodyAt_list h.toLinked hlist)⟩)

/-! ## The whole body -/

theorem work_cases {collect : Collector} (hshared : collect.Shared) (h : w.tree.WellFormed)
    (hbound : (schema.bind args).outcome = .ok bound)
    (hchecked : (schema.checkAfter bound w.tree).outcome = .ok ())
    {result : Except Failure Completion} (hrun : (work collect bound).run w = (result, w')) :
    result = .ok .finished ∨ ((∀ f, result = .error f → f.kind ≠ .crash) ∧ w'.tree = w.tree) ∨
      ∃ p path f, places bound = .ok p ∧ result = .error f ∧
        HalfWritten w.tree p path w'.tree f := by
  cases hplaces : places bound with
  | error f =>
      have hnever : RefusesFor (fun _ => False) (places bound) :=
        places_refusesFor consistent hbound
      exact (hnever f hplaces).elim
  | ok p =>
      cases hfeatures : checkFeatures w.tree p.orientations
        ([p.orientations, p.phases, p.neighbors, p.list] ++ p.average.toList) with
      | error f =>
          have hfailed : (work collect bound).run w = (.error f, w) := by
            refine (run_bind_of_ok (by rw [run_ofExcept, hplaces])).trans ?_
            refine (run_bind_of_ok run_get).trans ?_
            exact run_bind_of_error (by rw [run_ofExcept, hfeatures])
          cases hrun.symm.trans hfailed
          refine .inr (.inl ⟨fun g hg => ?_, rfl⟩)
          cases hg
          exact checkFeatures_refusesFor (P := fun f => f.kind ≠ .crash)
            (fun f hkind _ => by rw [hkind]; decide) f hfeatures
      | ok =>
          obtain ⟨s, hs, hsizes, hends⟩ := work_spec hshared h hplaces hchecked hfeatures
          rw [hrun] at hends
          cases hends with
          | failed hfails _ hresult htree =>
              refine .inr (.inl ⟨fun g hg => ?_, htree⟩)
              cases hresult.symm.trans hg
              exact hfails.kind
          | cancelled _ hresult htree =>
              exact .inr (.inl ⟨fun _ hg => (nomatch hresult.symm.trans hg), htree⟩)
          | @written angles run hnone hentries hwrite =>
              have hfits : ∀ l, w.tree.listsAt p.list .float32 = .ok l →
                  angles.length = l.tupleCount := fun l hl =>
                hentries.length_eq.trans ((hsizes (Sources.failure?_eq_none.mp hnone).1).2 l hl)
              rcases @write_cases ⟨w.tree, run⟩ _ p h angles hfits result hwrite with
                hfinished | ⟨e, hrefused, rfl⟩ | ⟨path, f, hfailed, hhalf⟩
              · exact .inl hfinished
              · refine .inr (.inl ⟨fun g hg => ?_, rfl⟩)
                cases hrefused.symm.trans hg
                exact fun hcrash => nomatch hcrash
              · exact .inr (.inr ⟨p, path, f, rfl, hfailed, hhalf⟩)

end Misorientation

/--
Whatever the tree and the arguments, computing misorientations does not stop the
program and leaves the tree as it was unless it finishes. The exception is a
run that has written the lists when it finds that the averages cannot be
written; then the lists stay, and if a row is there the program has stopped.
-/
theorem misorientations_stop_clean (h : t.WellFormed) (args : Arguments) (run : Run)
    {report : Report Completion}
    (hexecute : Misorientation.filter.execute args ⟨t, run⟩ = (report, w)) :
    (report.crashed = false ∧ (report.outcome ≠ .ok .finished → w.tree = t)) ∨
    ∃ bound p path f, (schema.bind args).outcome = .ok bound ∧ places bound = .ok p ∧
      report.outcome = .error [f] ∧ HalfWritten t p path w.tree f := by
  cases hgate : (filter.gate filter.schema.checkAfter args t).outcome with
  | error failures =>
      obtain ⟨hout, hleft⟩ := @Filter.execute_of_stopped filter args ⟨t, run⟩ failures hgate
      rw [hexecute] at hout hleft
      left
      refine ⟨Report.crashed_eq_false fun fs hfs f hf => ?_, ?_⟩
      · cases hout.symm.trans hfs
        exact Filter.kind_of_gate consistent.keyed hgate hf
      · exact fun _ => congrArg Workspace.tree hleft
  | ok bound =>
      obtain ⟨hbound, hchecked⟩ := Filter.gate_eq_ok.mp hgate
      obtain ⟨hout, hleft⟩ := @execute_work ⟨t, run⟩ oneWorker bound args hgate
      have hexecute : (filterWith oneWorker).execute args ⟨t, run⟩ = (report, w) := hexecute
      rw [hexecute] at hout hleft
      rcases hrun : (work oneWorker bound).run ⟨t, run⟩ with ⟨result, w'⟩
      rw [hrun] at hout hleft
      obtain rfl : w = w' := hleft
      rcases @work_cases ⟨t, run⟩ w args bound _ oneWorker_shared h hbound hchecked result hrun with
        rfl | ⟨hkind, htree⟩ | ⟨p, path, f, hplaces, rfl, hhalf⟩
      · exact .inl ⟨Report.crashed_of_mapError hout fun _ hf => (nomatch hf),
          fun hnot => absurd hout hnot⟩
      · exact .inl ⟨Report.crashed_of_mapError hout hkind, fun _ => htree⟩
      · exact .inr ⟨bound, p, path, f, hbound, hplaces, hout, hhalf⟩

/-- Where the list is to be written there is a group. -/
theorem misorientations_stop_clean_group :
    ∃ report w, (features.apply .preflight .empty).2.WellFormed ∧
      Misorientation.filter.execute featureArguments
        ⟨(features.apply .preflight .empty).2, .new 1⟩ = (report, w) ∧
      report.isValid = false ∧ report.crashed = false ∧
      w.tree = (features.apply .preflight .empty).2 := by
  have h : (features.apply .preflight .empty).2.WellFormed :=
    Batch.wellFormed_apply wellFormed_empty
  refine ⟨_, _, h, rfl, rfl, ?_⟩
  rcases misorientations_stop_clean h featureArguments (.new 1) rfl with
    ⟨hcrashed, hclean⟩ | ⟨bound, p, path, f, hbound, hplaces, -, hhalf⟩
  · exact ⟨hcrashed, hclean fun hfinished => nomatch hfinished⟩
  · -- no averages were asked for
    cases hbound
    cases hplaces
    cases hhalf.average

/-- A feature, and what is to be filled in for it with so many components. -/
def oneFeature (mode : Mode) (components : Nat) : Tree :=
  (Batch.apply mode [.createList (.single "MisorientationList") .float32 [1],
      .createArray (.single "AvgMisorientations") .float32 [1] [components]]
    (Batch.apply .execute [.createArray (.single "AvgQuats") .float32 [1] [4],
      .createArray (.single "Phases") .int32 [1] [1], .createList (.single "Neighbors") .int32 [1],
      .createArray (.single "Structures") .uint32 [1] [1]] .empty).2).2

theorem wellFormed_oneFeature {mode : Mode} {components : Nat} :
    (oneFeature mode components).WellFormed :=
  Batch.wellFormed_apply (Batch.wellFormed_apply wellFormed_empty)

/-- Averages without a row are reported, and averages with three components stop the program. -/
theorem misorientations_stop_halfway :
    (∃ report w, (oneFeature .preflight 1).WellFormed ∧
      Misorientation.filter.execute (featureArguments.insert averageKey (.bool true))
        ⟨oneFeature .preflight 1, .new 1⟩ = (report, w) ∧
      report.isValid = false ∧ report.crashed = false ∧ w.tree ≠ oneFeature .preflight 1) ∧
    ∃ report w, (oneFeature .execute 3).WellFormed ∧
      Misorientation.filter.execute (featureArguments.insert averageKey (.bool true))
        ⟨oneFeature .execute 3, .new 1⟩ = (report, w) ∧
      report.crashed = true := by
  constructor
  · refine ⟨_, _, wellFormed_oneFeature, rfl, rfl, rfl, fun hsame => ?_⟩
    have hlists := congrArg (fun t => ((t.listsAt (.single "MisorientationList") .float32).map
      ListStore.isAllocated).toOption) hsame
    exact absurd hlists (by decide)
  · exact ⟨_, _, wellFormed_oneFeature, rfl, rfl⟩

end Builtin

end FilterTree
