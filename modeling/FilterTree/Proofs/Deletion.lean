import FilterTree.Builtin.Editing
import FilterTree.Proofs.Acceptance
import FilterTree.Proofs.Batch
import FilterTree.Proofs.Selection

/-!
# Deleting several objects

Objects can be deleted one after the other as long as no deletion takes away
what a later one names, and a deletion takes away what its path leads to and
nothing else. A selection is therefore thinned out beforehand: a path goes with
another one that lies above it, or that is the same and comes before it. What is
kept names no object twice and nothing below another kept path, so the deletions
that are planned for a tree with all these objects are carried out by it.
-/

namespace FilterTree

theorem Path.leadsTo_cases {p q : Path} (h : p.leadsTo q = true) :
    p = q ∨ p.isAncestorOf q = true := by
  obtain ⟨rest, hrest⟩ := List.isPrefixOf_iff_prefix.mp h
  cases rest with
  | nil =>
      rw [List.append_nil] at hrest
      exact .inl (congrArg Path.mk hrest)
  | cons name rest =>
      refine .inr ?_
      have hprefix : p.names.isPrefixOf q.names = true := h
      rw [isAncestorOf, below?, if_pos hprefix, ← hrest, List.drop_left]
      rfl

namespace Batch

open FilterTree.Tree Edit

variable {mode : Mode} {t : Tree}

/-- Deletions are carried out one after the other if none takes away what a later one names. -/
theorem applyFrom_deletes {index : Nat} {paths : List Path} (h : WellFormed t)
    (hfound : ∀ p ∈ paths, t.contains p = true)
    (hapart : paths.Pairwise fun p q => p.leadsTo q = false) :
    ∃ u, applyFrom mode index (paths.map Action.delete) t = (.ok (), u) := by
  induction paths generalizing index t with
  | nil => exact ⟨t, rfl⟩
  | cons p paths ih =>
      obtain ⟨hp, hrest⟩ := List.forall_mem_cons.mp hfound
      obtain ⟨hhead, htail⟩ := List.pairwise_cons.mp hapart
      obtain ⟨id, hid⟩ := Option.isSome_iff_exists.mp hp
      obtain ⟨n, u, hremove⟩ := (remove_succeeds_iff h.toLinked).mpr ⟨ne_root_of_idOf? hid, hp⟩
      have hdelete : ((Action.delete p).apply mode).on t = (.ok (), u) :=
        bind_eq_ok.mpr ⟨n, u, hremove, rfl⟩
      have hu := ((Action.delete p).makes h _ _ hdelete).wellFormed h
      rw [List.map_cons, applyFrom, hdelete]
      -- what the other paths name is still there, none of them being below the first
      refine ih hu (fun q hq => ?_) htail
      rw [contains, idOf?_of_remove h hremove, hhead q hq, if_neg Bool.false_ne_true]
      exact hrest q hq

end Batch

/-- The objects of a selection that was accepted are there. -/
theorem Schema.contains_of_checked {s : Schema} {bound : Arguments} {t : Tree} {p : Parameter}
    {paths : List Path} (hchecked : (s.checkBefore bound t).outcome = .ok ())
    (hp : p ∈ s.parameters) (hkind : p.kind = .objectsSelection)
    (hactive : s.isActive p.key bound = true) (hpaths : bound.get .paths p.key = .ok paths) :
    ∀ q ∈ paths, t.contains q = true := by
  obtain ⟨value, hvalue, htake⟩ := Arguments.get_eq_ok.mp hpaths
  have hnone := checkTree_eq_ok.mp hchecked p hp hactive rfl
  have hfound := selectionFailure?_eq_none.mp hnone value hvalue
  rw [hkind] at hfound
  cases value with
  | paths found =>
      cases htake
      intro q hq
      have hq := check_forM_eq_ok.mp (check_mapError_eq_ok.mp hfound) q hq
      obtain ⟨id, hid, -⟩ := check_bind_eq_ok.mp hq
      exact Option.isSome_of_eq_some (Tree.resolve_eq_ok.mp hid)
  | _ => cases htake

namespace Builtin.Delete

open FilterTree.Tree

variable {paths : List Path} {t : Tree} {bound : Arguments} {plan : Plan} {batch : Batch}

/-- The paths of a selection that do not go with another. -/
def kept (paths : List Path) : List Path :=
  ((paths.zipIdx.filter fun (path, i) => !isCovered paths i path)).map Prod.fst

/-- What is kept does not lie below anything else in the selection. -/
theorem not_leadsTo_of_kept {a b : Path × Nat} (ha : a ∈ paths.zipIdx) (hlt : a.2 ≠ b.2)
    (hkept : (!isCovered paths b.2 b.1) = true) (hfirst : a.1 = b.1 → a.2 < b.2) :
    a.1.leadsTo b.1 = false := by
  refine Bool.eq_false_iff.mpr fun hleads => ?_
  -- the other path would be a reason to leave this one out
  have hcovered : isCovered paths b.2 b.1 = true := by
    refine List.any_eq_true.mpr ⟨a, ha, ?_⟩
    rcases Path.leadsTo_cases hleads with hsame | habove
    · simp [hsame, hlt, hfirst hsame]
    · simp [habove, hlt]
  rw [hcovered] at hkept
  cases hkept

/-- No two kept paths lead to each other, one way or the other. -/
theorem apart_kept : (kept paths).Pairwise fun p q => p.leadsTo q = false ∧ q.leadsTo p = false := by
  have hordered : paths.zipIdx.Pairwise fun a b => a.2 < b.2 := by
    rw [← List.pairwise_map (f := Prod.snd), List.zipIdx_map_snd]
    exact List.pairwise_lt_range'
  rw [kept, List.pairwise_map]
  refine (hordered.filter _).imp_of_mem fun {a b} ha hb hlt => ?_
  obtain ⟨hmema, hkepta⟩ := List.mem_filter.mp ha
  obtain ⟨hmemb, hkeptb⟩ := List.mem_filter.mp hb
  have hdown := not_leadsTo_of_kept hmema (Nat.ne_of_lt hlt) hkeptb fun _ => hlt
  refine ⟨hdown, not_leadsTo_of_kept hmemb (Nat.ne_of_gt hlt) hkepta fun hsame => ?_⟩
  -- of two equal paths the later one is not kept
  rw [hsame] at hdown
  cases hdown.symm.trans (List.isPrefixOf_iff_prefix.mpr List.prefix_rfl)

theorem pairwise_kept : (kept paths).Pairwise fun p q => p.leadsTo q = false :=
  apart_kept.imp And.left

theorem mem_of_mem_kept {p : Path} (hp : p ∈ kept paths) : p ∈ paths := by
  obtain ⟨a, ha, rfl⟩ := List.mem_map.mp hp
  exact List.fst_mem_of_mem_zipIdx (List.mem_filter.mp ha).1

/-- What lies below another selected object goes with it, and so does what is selected twice. -/
example : kept [⟨["cloud", "data"]⟩, .single "cloud", .single "dust", .single "cloud"] =
    [.single "cloud", .single "dust"] := by decide

theorem plan_spec (hplan : Delete.plan bound = .ok plan)
    (hout : plan.actions.outcome = .ok batch) :
    ∃ paths, bound.get .paths pathsKey = .ok paths ∧ batch = (kept paths).map .delete := by
  obtain ⟨paths, hpaths, hplan⟩ := check_bind_eq_ok.mp hplan
  refine ⟨paths, hpaths, ?_⟩
  dsimp only at hplan
  split at hplan
  · cases hplan
  · cases hplan
    cases hout
    rw [List.partition_eq_filter_filter, kept, List.map_map]
    rfl

/-- The objects of a selection that was accepted are there. -/
theorem contains_of_checked (hchecked : (schema.checkBefore bound t).outcome = .ok ())
    (hpaths : bound.get .paths pathsKey = .ok paths) : ∀ p ∈ paths, t.contains p = true :=
  Schema.contains_of_checked hchecked (p := (Parameter.objectsSelection pathsKey
    "DataPaths to Remove" "Objects removed together with their children" []).consuming)
    List.mem_cons_self rfl rfl hpaths

end Builtin.Delete

end FilterTree
