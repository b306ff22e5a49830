import FilterTree.Filter.Basic
import FilterTree.Proofs.Alike

/-!
# What selections see of a tree

Selections are checked twice, before a filter plans and after its actions. Both
checks ask for objects, their kinds, types and shapes, so they answer the same
for a tree and for its shell. The second check is made on another tree than the
first. Of what was accepted before, only the selections that the filter does
not consume are looked at again (`Schema.lasting`), and the check passes as soon
as these are still there.
-/

namespace FilterTree

/-! ## Reading a shell -/

namespace Tree

variable {t : Tree} {path : Path}

/-- What is read off an object's links and shapes is read off its shell. -/
theorem objectAt_bind_shell {α : Type} {k : Object → Except TreeError α}
    (hk : ∀ o, k o.shell = k o) : (t.shell.objectAt path >>= k) = (t.objectAt path >>= k) := by
  rw [objectAt_shell]
  cases t.objectAt path with
  | error e => rfl
  | ok o => exact hk o

@[simp] theorem contains_shell : t.shell.contains path = t.contains path := by
  rw [contains, contains, idOf?_shell]

@[simp] theorem kindAt_shell : t.shell.kindAt path = t.kindAt path := by
  rw [kindAt, kindAt, objectAt_shell]
  cases t.objectAt path with
  | error e => rfl
  | ok o => exact congrArg Except.ok Object.kind_shell

@[simp] theorem matrixShapeAt_shell : t.shell.matrixShapeAt path = t.matrixShapeAt path :=
  objectAt_bind_shell fun ⟨_, _, _, body⟩ => by cases body <;> rfl

@[simp] theorem geometryAt_shell : t.shell.geometryAt path = t.geometryAt path :=
  objectAt_bind_shell fun ⟨_, _, _, body⟩ => by cases body <;> rfl

@[simp] theorem tupleCountAt_shell : t.shell.tupleCountAt path = t.tupleCountAt path :=
  objectAt_bind_shell fun ⟨_, _, _, body⟩ => by cases body <;> rfl

@[simp] theorem commonTupleCount_shell {paths : List Path} :
    t.shell.commonTupleCount paths = t.commonTupleCount paths := by
  simp only [commonTupleCount, tupleCountAt_shell]

theorem arrayAt_shell : t.shell.arrayAt path = (t.arrayAt path).map DataArray.shell := by
  rw [arrayAt, arrayAt, objectAt_shell]
  cases t.objectAt path with
  | error e => rfl
  | ok o =>
      obtain ⟨_, _, _, body⟩ := o
      cases body <;> rfl

theorem listAt_shell : t.shell.listAt path = (t.listAt path).map NeighborList.shell := by
  rw [listAt, listAt, objectAt_shell]
  cases t.objectAt path with
  | error e => rfl
  | ok o =>
      obtain ⟨_, _, _, body⟩ := o
      cases body <;> rfl

end Tree

/-! ## Checking against a shell -/

namespace Parameter

variable {t : Tree}

theorem checkKind_shell {path : Path} {allowed : ObjectKind → Bool} {expected : ObjectKind} :
    checkKind t.shell path allowed expected = checkKind t path allowed expected := by
  rw [checkKind, checkKind, Tree.kindAt_shell]

@[simp] theorem checkSelection_shell {kind : ParameterKind} {value : Argument} :
    checkSelection t.shell kind value = checkSelection t kind value := by
  cases value with
  | path path =>
      cases kind with
      | arraySelection types shapes =>
          simp only [checkSelection, Tree.arrayAt_shell]
          cases t.arrayAt path <;> rfl
      | listSelection types =>
          simp only [checkSelection, Tree.listAt_shell]
          cases t.listAt path <;> rfl
      | groupSelection | matrixSelection => exact checkKind_shell
      | geometrySelection => simp only [checkSelection, Tree.geometryAt_shell]
      | objectSelection => simp only [checkSelection, Tree.resolve_shell]
      | groupCreation | arrayCreation => simp only [checkSelection, Tree.contains_shell]
      | _ => rfl
  | paths paths =>
      cases kind with
      | objectsSelection => simp only [checkSelection, Tree.resolve_shell]
      | _ => rfl
  | _ => cases kind <;> rfl

end Parameter

namespace Schema

variable {s : Schema} {args : Arguments} {t u : Tree} {before : Bool}

theorem checkTree_shell : s.checkTree args t.shell before = s.checkTree args t before := by
  have hone : selectionFailure? args t.shell = selectionFailure? args t := by
    funext p
    simp only [selectionFailure?, Parameter.checkSelection_shell]
  rw [checkTree, checkTree, hone]

/-- The check before planning answers the same for trees with the same shell. -/
theorem checkBefore_congr (h : t.shell = u.shell) :
    s.checkBefore args t = s.checkBefore args u := by
  rw [checkBefore, checkBefore, ← checkTree_shell, h, checkTree_shell]

/-! ## The check after the actions -/

end Schema

/-- Whether the value names objects that have to be there. -/
def ParameterKind.selects : ParameterKind → Bool
  | arraySelection .. | listSelection _ | groupSelection | matrixSelection | geometrySelection
  | objectSelection | objectsSelection => true
  | _ => false

theorem Arguments.get_eq_ok {α : Type} {args : Arguments} {wanted : Wanted α} {key : String} {a : α} :
    args.get wanted key = .ok a ↔
      ∃ value, args.get? key = some value ∧ wanted.take? value = some a := by
  rw [get]
  cases args.get? key with
  | none => exact ⟨fun h => (nomatch h), fun ⟨_, h, _⟩ => (nomatch h)⟩
  | some value =>
      simp only [Option.some.injEq, exists_eq_left']
      cases wanted.take? value <;> simp

/-- What neither selects nor creates an object is not looked for in a tree. -/
theorem Parameter.checkSelection_eq_ok {t : Tree} {kind : ParameterKind} {value : Argument}
    (hselects : kind.selects = false) (hcreation : kind.isCreation = false) :
    checkSelection t kind value = .ok () := by
  cases kind with
  | arraySelection | listSelection | groupSelection | matrixSelection | geometrySelection
  | objectSelection | objectsSelection => cases hselects
  | groupCreation | arrayCreation => cases hcreation
  | _ => cases value <;> rfl

namespace Schema

variable {s : Schema} {args : Arguments} {t u : Tree} {before : Bool}

theorem selectionFailure?_eq_none {p : Parameter} :
    selectionFailure? args t p = none ↔
      ∀ value, args.get? p.key = some value → Parameter.checkSelection t p.kind value = .ok () := by
  rw [selectionFailure?]
  cases args.get? p.key with
  | none => exact ⟨fun _ _ h => (nomatch h), fun _ => rfl⟩
  | some value =>
      cases hcheck : Parameter.checkSelection t p.kind value with
      | ok => exact ⟨fun _ _ h => Option.some.inj h ▸ hcheck, fun _ => by simp only [hcheck]⟩
      | error e =>
          refine ⟨fun h => ?_, fun h => ?_⟩
          · simp only [hcheck] at h
            cases h
          · cases hcheck.symm.trans (h value rfl)

theorem checkTree_eq_ok :
    (s.checkTree args t before).outcome = .ok () ↔
      ∀ p ∈ s.parameters, s.isActive p.key args = true → isChecked before p = true →
        selectionFailure? args t p = none := by
  have hnil : ((s.parameters.filter fun p => s.isActive p.key args && isChecked before p).filterMap
      (selectionFailure? args t)) = [] ↔
      ∀ p ∈ s.parameters, s.isActive p.key args = true → isChecked before p = true →
        selectionFailure? args t p = none := by
    simp only [List.filterMap_eq_nil_iff, List.mem_filter, Bool.and_eq_true, and_imp]
  rw [← hnil, checkTree]
  split
  · next h => exact ⟨fun _ => h, fun _ => rfl⟩
  · next h => exact ⟨fun hok => (nomatch hok), fun hnone => absurd hnone h⟩

/-- The selections that are to be there after the filter's own actions. -/
def lasting (s : Schema) : List Parameter :=
  s.parameters.filter fun p => p.kind.selects && !p.consumed

/--
The second check passes if the first one did and if the selections that last
are then still what they have to be.
-/
theorem checkAfter_of_lasting (hbefore : (s.checkBefore args t).outcome = .ok ())
    (h : ∀ p ∈ s.lasting, ∀ value, args.get? p.key = some value →
      Parameter.checkSelection t p.kind value = .ok () →
      Parameter.checkSelection u p.kind value = .ok ()) :
    (s.checkAfter args u).outcome = .ok () := by
  refine checkTree_eq_ok.mpr fun p hp hactive hchecked => ?_
  have hold := checkTree_eq_ok.mp hbefore p hp hactive rfl
  rw [selectionFailure?_eq_none] at hold ⊢
  intro value hvalue
  simp only [isChecked, Bool.false_or, Bool.not_eq_true', Bool.or_eq_false_iff] at hchecked
  cases hselects : p.kind.selects with
  | false => exact Parameter.checkSelection_eq_ok hselects hchecked.2
  | true =>
      refine h p (List.mem_filter.mpr ⟨hp, ?_⟩) value hvalue (hold value hvalue)
      rw [hselects, hchecked.1]
      rfl

end Schema

end FilterTree
