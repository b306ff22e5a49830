import FilterTree.Proofs.Created
import FilterTree.Proofs.HalfWritten

/-!
# The misorientations of a neighborhood

After the filter's own actions the outputs stand next to the orientations, with
as many tuples as these have and with elements (`Outputs`). So the body finds
everything counted that it counts, and both of its writes fit: it ends cancelled,
with the failure that its sources have, or with all entries written.
-/

namespace FilterTree

namespace Builtin

open Misorientation FilterTree.Tree

variable {t u : Tree} {args bound : Arguments} {batch : Batch}

namespace Misorientation

variable {p : Places} {plan : Plan} {path : Path} {tuples : Shape}

/-! ## The outputs after the actions -/

theorem row_of_described
    (h : (Action.createArray path .float32 tuples [1]).Described .execute u) :
    ∃ s row, u.denseAt path .float32 = .ok s ∧ s.tupleCount = tuples.size ∧
      s.row? = some row ∧ row.size = s.tupleCount := by
  obtain ⟨id, ⟨type, s⟩, hstands, rfl, htuples, hcomponents, hfresh⟩ := h
  have hrow : s.row? = some (Array.replicate s.size (ElementType.zero .float32)) := hfresh
  refine ⟨s, _, Tree.denseAt_eq_ok.mpr hstands.objectAt, congrArg Shape.size htuples, hrow, ?_⟩
  rw [Array.size_replicate]
  exact DenseStore.size_of_single hcomponents

theorem lists_of_described (h : (Action.createList path .float32 tuples).Described .execute u) :
    ∃ l, u.listsAt path .float32 = .ok l ∧ l.tupleCount = tuples.size := by
  obtain ⟨id, ⟨type, l⟩, hstands, rfl, htuples, -⟩ := h
  exact ⟨l, Tree.listsAt_eq_ok.mpr hstands.objectAt, congrArg Shape.size htuples⟩

/-- The outputs are there, for so many features and with elements. -/
structure Outputs (u : Tree) (p : Places) (n : Nat) : Prop where
  list : ∃ l, u.listsAt p.list .float32 = .ok l ∧ l.tupleCount = n
  averages : ∀ path ∈ p.average, ∃ s row, u.denseAt path .float32 = .ok s ∧
    s.tupleCount = n ∧ s.row? = some row ∧ row.size = s.tupleCount

theorem outputs_of_apply (h : t.WellFormed)
    (happly : Batch.apply .execute ((p.average.toList.map fun path =>
      Action.createArray path .float32 tuples [1]) ++ [.createList p.list .float32 tuples]) t =
        (.ok (), u)) : Outputs u p tuples.size := by
  have hc := Batch.carries_of_apply h happly
  cases haverage : p.average with
  | none =>
      rw [haverage] at hc
      obtain _ | ⟨hlist, _ | _⟩ := hc
      refine ⟨lists_of_described (Action.extends_of_isCreate h rfl hlist).2, ?_⟩
      rw [haverage]
      exact fun _ hpath => nomatch hpath
  | some path =>
      rw [haverage] at hc
      obtain _ | @⟨_, _, _, v, _, harray, _ | ⟨hlist, _ | _⟩⟩ := hc
      have hv := (Action.makes _ h _ _ harray).wellFormed h
      obtain ⟨s, row, hs, hrest⟩ := row_of_described (Action.extends_of_isCreate h rfl harray).2
      have hkept := (Action.createList_retains hv hlist).denseAt hs
      refine ⟨lists_of_described (Action.extends_of_isCreate hv rfl hlist).2, ?_⟩
      intro q hq
      cases haverage.symm.trans hq
      exact ⟨s, row, hkept, hrest⟩

/-- The body counts its inputs and outputs and finds as many of each. -/
theorem checkFeatures_of_outputs {n : Nat} (hkept : t.Retains u) (houtputs : Outputs u p n)
    (h : checkFeatures t p.orientations [p.orientations, p.phases, p.neighbors] = .ok ())
    (hn : t.tupleCountAt p.orientations = .ok n) :
    checkFeatures u p.orientations
      ([p.orientations, p.phases, p.neighbors, p.list] ++ p.average.toList) = .ok () := by
  obtain ⟨⟨a, ha, hfour⟩, m, hm⟩ := (checkFeatures_eq_ok (List.cons_ne_nil _ _)).mp h
  obtain rfl : n = m := Except.ok.inj (hn.symm.trans (hm _ List.mem_cons_self))
  refine (checkFeatures_eq_ok (by simp)).mpr ⟨⟨a, hkept.arrayAt ha, hfour⟩, n, ?_⟩
  intro path hpath
  simp only [List.mem_append, List.mem_cons, List.not_mem_nil, or_false, Option.mem_toList] at hpath
  rcases hpath with (rfl | rfl | rfl | rfl) | haverage
  · exact hkept.tupleCountAt hn
  · exact hkept.tupleCountAt (hm _ (by simp))
  · exact hkept.tupleCountAt (hm _ (by simp))
  · obtain ⟨l, hl, hcount⟩ := houtputs.list
    rw [Tree.tupleCountAt_of_listsAt hl, hcount]
  · obtain ⟨s, row, hs, hcount, -⟩ := houtputs.averages path haverage
    rw [Tree.tupleCountAt_of_denseAt hs, hcount]

theorem acted_spec (h : filter.ActedOn bound t u) (hplan : Misorientation.plan t bound = .ok plan)
    (hout : plan.actions.outcome = .ok batch) (happly : batch.apply .execute t = (.ok (), u)) :
    ∃ p n, places bound = .ok p ∧ batch.createdPaths = p.average.toList ++ [p.list] ∧
      Outputs u p n ∧ checkFeatures u p.orientations
        ([p.orientations, p.phases, p.neighbors, p.list] ++ p.average.toList) = .ok () := by
  obtain ⟨p, a, hplaces, hfeatures, ha, rfl⟩ := plan_spec hplan hout
  have houtputs := outputs_of_apply h.wellFormed happly
  obtain ⟨o, ho, hbody⟩ := Tree.arrayAt_eq_ok.mp ha
  have hcount : t.tupleCountAt p.orientations = .ok a.store.tupleShape.size :=
    Tree.tupleCountAt_eq_ok.mpr ⟨o, _, ho, by rw [hbody]; rfl, rfl⟩
  refine ⟨p, _, hplaces, ?_, houtputs,
    checkFeatures_of_outputs (retains_of_actedOn h) houtputs hfeatures hcount⟩
  cases p.average <;> rfl

end Misorientation

end Builtin

end FilterTree
