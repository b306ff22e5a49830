import FilterTree.Proofs.OneShot

/-!
# What has been bound can be read

A schema says which sorts of values a parameter takes, and the code of a filter
asks for values by type. The two are written apart from each other. They agree
if no filter, called with arguments that its schema has bound, ever finds one
missing or of another kind than it asks for.

What is known of bound arguments is one statement about each parameter
(`Consistent.bound_spec`): it has a value of its sort, and while it is active a
value of the declared length too. Only lengths need the second half. Which types
can be read off which sort of value is then a table (`Gives`), and reading can
be skipped when the failures of a plan or a body are looked through. What is
left are the failures that the tree, sizes, texts and crystals give rise to.
-/

namespace FilterTree

/-! ## The value of a parameter -/

namespace Parameter

variable {p : Parameter} {value : Argument}

theorem accepts_of_checkValue (h : p.checkValue value = .ok ()) : p.kind.accepts value = true := by
  cases haccepts : p.kind.accepts value with
  | true => rfl
  | false =>
      rw [checkValue.eq_def, haccepts] at h
      cases h

/-- What fits a parameter is of its sort, and while it is active as it is declared. -/
theorem accepts_of_fits {active : Bool} (h : p.fits (some value) active = true) :
    p.kind.accepts value = true ∧ (active = true → p.checkValue value = .ok ()) := by
  cases active with
  | false => exact ⟨h, fun hactive => nomatch hactive⟩
  | true =>
      have hchecked : p.checkValue value = .ok () := by
        cases hcheck : p.checkValue value with
        | ok => rfl
        | error e =>
            simp only [fits, hcheck] at h
            cases h
      exact ⟨accepts_of_checkValue hchecked, fun _ => hchecked⟩

end Parameter

namespace Schema

variable {s : Schema} {p : Parameter} {args bound : Arguments} {key : String}

theorem Keyed.mem_of_get? (h : s.Keyed) (hp : s.params.get? key = some p) :
    p ∈ s.parameters ∧ p.key = key := by
  have hmem := OrderedMap.get?_eq_some_iff.mp hp
  exact ⟨List.mem_map_of_mem (f := Prod.snd) hmem, (h _ hmem).symm⟩

/-- Every parameter has been given a value of its sort, and while it is active one as declared. -/
theorem Consistent.bound_spec (h : s.Consistent) (hbound : (s.bind args).outcome = .ok bound)
    (hp : s.params.get? key = some p) :
    ∃ value, bound.get? key = some value ∧ p.kind.accepts value = true ∧
      (s.isActive key bound = true → p.checkValue value = .ok ()) := by
  obtain ⟨hmem, rfl⟩ := h.keyed.mem_of_get? hp
  obtain ⟨hfits, rfl⟩ := h.keyed.bind_eq_ok.mp hbound
  have hvalue := @Keyed.get?_effective _ _ args h.keyed hmem
  -- the values that were chosen would be bound again
  have hagain := h.fits_effective hmem (hfits p hmem)
  rw [fits, h.keyed.effective_effective, hvalue] at hagain
  exact ⟨_, hvalue, Parameter.accepts_of_fits hagain⟩

end Schema

/-! ## Types and sorts -/

/-- Every value of a kind can be read as a type. -/
def ParameterKind.Gives {α : Type} (kind : ParameterKind) (wanted : Wanted α) : Prop :=
  ∀ value, kind.accepts value = true → ∃ a, wanted.take? value = some a

namespace ParameterKind

variable {kind : ParameterKind}

theorem gives_path (h : kind.takesPath = true) : kind.Gives .path := by
  intro value haccepts
  cases value with
  | path path => exact ⟨path, rfl⟩
  | _ => cases kind <;> simp [takesPath, accepts] at h haccepts

theorem gives_paths : objectsSelection.Gives .paths := by
  intro value haccepts
  cases value with
  | paths paths => exact ⟨paths, rfl⟩
  | _ => cases haccepts

theorem gives_bool : bool.Gives .bool := by
  intro value haccepts
  cases value with
  | bool b => exact ⟨b, rfl⟩
  | _ => cases haccepts

theorem gives_string : string.Gives .string := by
  intro value haccepts
  cases value with
  | string text => exact ⟨text, rfl⟩
  | _ => cases haccepts

theorem gives_name : objectName.Gives .string := by
  intro value haccepts
  cases value with
  | string name => exact ⟨name, rfl⟩
  | _ => cases haccepts

theorem gives_elementType : elementType.Gives .elementType := by
  intro value haccepts
  cases value with
  | elementType type => exact ⟨type, rfl⟩
  | _ => cases haccepts

/-- A shape can be written as a shape or as a list of natural numbers. -/
theorem gives_shape : tupleShape.Gives .shape := by
  intro value haccepts
  cases value with
  | shape shape => exact ⟨shape, rfl⟩
  | uints shape => exact ⟨shape, rfl⟩
  | _ => cases haccepts

end ParameterKind

theorem Triple.ofList?_of_length {α : Type} {l : List α} (h : l.length = 3) :
    ∃ triple, Triple.ofList? l = some triple := by
  obtain ⟨x, y, z, rfl⟩ := List.length_eq_three.mp h
  exact ⟨⟨x, y, z⟩, rfl⟩

namespace Parameter

variable {p : Parameter} {value : Argument}

/-- Three numbers were asked for and checked to be three. -/
theorem gives_singles3 (hkind : p.kind = .floats 3) (h : p.checkValue value = .ok ()) :
    ∃ a, Wanted.singles3.take? value = some a := by
  have haccepts := accepts_of_checkValue h
  rw [hkind] at haccepts
  cases value with
  | floats xs =>
      rw [checkValue.eq_def, hkind] at h
      have hlength : xs.length = 3 := by
        by_contra hne
        simp [ParameterKind.accepts, hne] at h
      exact Triple.ofList?_of_length ((List.length_map _).trans hlength)
  | _ => cases haccepts

theorem gives_sizes3 (hkind : p.kind = .uints 3) (h : p.checkValue value = .ok ()) :
    ∃ a, Wanted.sizes3.take? value = some a := by
  have haccepts := accepts_of_checkValue h
  rw [hkind] at haccepts
  cases value with
  | uints ns =>
      rw [checkValue.eq_def, hkind] at h
      have hlength : ns.length = 3 := by
        by_contra hne
        simp [ParameterKind.accepts, hne] at h
      exact Triple.ofList?_of_length hlength
  | _ => cases haccepts

end Parameter

namespace Schema.Consistent

variable {s : Schema} {p : Parameter} {args bound : Arguments} {key : String} {α : Type}
  {wanted : Wanted α}

/-- An argument can be read whose kind gives the type that is asked for. -/
theorem get_of_gives (h : s.Consistent) (hbound : (s.bind args).outcome = .ok bound)
    (hp : s.params.get? key = some p) (hgives : p.kind.Gives wanted) :
    ∃ a, bound.get wanted key = .ok a := by
  obtain ⟨value, hvalue, haccepts, -⟩ := h.bound_spec hbound hp
  obtain ⟨a, ha⟩ := hgives value haccepts
  exact ⟨a, Arguments.get_eq_ok.mpr ⟨value, hvalue, ha⟩⟩

/-- An argument of an active parameter can be read if what is declared gives the type. -/
theorem get_of_checked (h : s.Consistent) (hbound : (s.bind args).outcome = .ok bound)
    (hp : s.params.get? key = some p) (hactive : s.isActive key bound = true)
    (hgives : ∀ value, p.checkValue value = .ok () → ∃ a, wanted.take? value = some a) :
    ∃ a, bound.get wanted key = .ok a := by
  obtain ⟨value, hvalue, -, hchecked⟩ := h.bound_spec hbound hp
  obtain ⟨a, ha⟩ := hgives value (hchecked hactive)
  exact ⟨a, Arguments.get_eq_ok.mpr ⟨value, hvalue, ha⟩⟩

end Schema.Consistent

/-! ## Failures for other reasons -/

/-- A failure that does not say of an argument that it is missing or of another kind. -/
def Failure.BeyondReading (f : Failure) : Prop := f.code ≠ -201 ∧ f.code ≠ -202

open Failure (BeyondReading)

theorem Failure.beyondReading_ofTree {e : TreeError} : BeyondReading (.ofTree e) := by
  cases e <;> simp [BeyondReading, ofTree, TreeError.code]

theorem Report.hasFailure_eq_false {α : Type} {r : Report α} {code : Int}
    (h : ∀ f ∈ r.failures, f.code ≠ code) : r.hasFailure code = false :=
  List.any_eq_false.mpr fun f hf => by simpa using h f hf

namespace RefusesFor

variable {P : Failure → Prop} {bound : Arguments} {α β : Type} {wanted : Wanted α} {key : String}

/-- An argument that can be read does not count. -/
theorem get_bind {k : α → Except Failure β} (hget : ∃ a, bound.get wanted key = .ok a)
    (hk : ∀ a, RefusesFor P (k a)) : RefusesFor P (bound.get wanted key >>= k) := by
  obtain ⟨a, ha⟩ := hget
  rw [ha]
  exact hk a

theorem get (hget : ∃ a, bound.get wanted key = .ok a) :
    RefusesFor P (bound.get wanted key) := by
  obtain ⟨a, ha⟩ := hget
  rw [ha]
  exact .ok

theorem fromTree {r : Except TreeError α} : RefusesFor BeyondReading (Builtin.fromTree r) :=
  .mapError fun _ _ => Failure.beyondReading_ofTree

theorem checkedCount {what : String} {tuples components : Shape} :
    RefusesFor BeyondReading (checkedCount what tuples components) :=
  .mapError fun _ _ => by simp [BeyondReading, ArgumentError.failure, ArgumentError.code]

end RefusesFor

/-! ## Plans -/

/-- Whatever failures a plan comes with are of a sort. -/
def PlansFor (P : Failure → Prop) (x : Except Failure Plan) : Prop :=
  ∀ f ∈ (Plan.ofExcept x).actions.failures, P f

namespace PlansFor

variable {P : Failure → Prop} {α : Type} {wanted : Wanted α} {key : String} {bound : Arguments}

theorem ok {plan : Plan} (h : plan.actions.failures = []) : PlansFor P (.ok plan) := by
  intro f hf
  rw [show (Plan.ofExcept (.ok plan)).actions.failures = [] from h] at hf
  cases hf

theorem error {f : Failure} (h : P f) : PlansFor P (.error f) := by
  intro g hg
  cases List.mem_singleton.mp hg
  exact h

theorem bind {x : Except Failure α} {k : α → Except Failure Plan} (hx : RefusesFor P x)
    (hk : ∀ a, PlansFor P (k a)) : PlansFor P (x >>= k) := by
  cases hxa : x with
  | error e => exact .error (hx e hxa)
  | ok a => exact hk a

theorem get_bind {k : α → Except Failure Plan} (hget : ∃ a, bound.get wanted key = .ok a)
    (hk : ∀ a, PlansFor P (k a)) : PlansFor P (bound.get wanted key >>= k) :=
  .bind (.get hget) hk

end PlansFor

/-! ## Bodies -/

namespace Attempt

variable {α β : Type} {P : Failure → Prop}

/-- Wherever an attempt begins, it fails for a reason of a sort. -/
def FailsFor (P : Failure → Prop) (a : Attempt α) : Prop := ∀ w, RefusesFor P (a.run w).1

namespace FailsFor

theorem pure {a : α} : (Pure.pure a : Attempt α).FailsFor P := fun _ => .ok

theorem throw {f : Failure} (h : P f) : (MonadExcept.throw f : Attempt α).FailsFor P :=
  fun _ => .error h

theorem get : (MonadState.get : Attempt Workspace).FailsFor P := fun _ => .ok

theorem set {w : Workspace} : (MonadStateOf.set w : Attempt PUnit).FailsFor P := fun _ => .ok

theorem write {f : Workspace → Workspace} : (modify f : Attempt PUnit).FailsFor P := fun _ => .ok

theorem ofExcept {r : Except Failure α} (h : RefusesFor P r) : (Attempt.ofExcept r).FailsFor P :=
  fun _ => h

theorem ask {f : Tree → Except TreeError α} : (Attempt.ask f).FailsFor BeyondReading :=
  fun _ => .mapError fun _ _ => Failure.beyondReading_ofTree

theorem bind {a : Attempt α} {k : α → Attempt β} (ha : a.FailsFor P) (hk : ∀ x, (k x).FailsFor P) :
    (a >>= k).FailsFor P := by
  intro w
  rw [run_bind]
  have hfirst := ha w
  rcases hrun : a.run w with ⟨e | x, v⟩
  · rw [hrun] at hfirst
    exact .error (hfirst e rfl)
  · exact hk x v

theorem failures {a : Attempt α} (h : a.FailsFor P) {w : Workspace} :
    ∀ f ∈ (a.report w).1.failures, P f := by
  intro f hf
  rw [report_apply] at hf
  cases hout : (a.run w).1 with
  | error e =>
      rw [hout] at hf
      cases List.mem_singleton.mp hf
      exact h w _ hout
  | ok x =>
      rw [hout] at hf
      cases hf

end FailsFor

end Attempt

namespace Builtin

open Schema.Consistent ParameterKind

variable {args bound : Arguments} {t : Tree}

/-! ## The plans of the built-in filters -/

theorem CreateGroup.plan_reads (h : schema.Consistent)
    (hbound : (schema.bind args).outcome = .ok bound) : PlansFor BeyondReading (plan bound) :=
  .get_bind (h.get_of_gives hbound rfl (gives_path rfl)) fun _ => .ok rfl

theorem CreateMatrix.plan_reads (h : schema.Consistent)
    (hbound : (schema.bind args).outcome = .ok bound) : PlansFor BeyondReading (plan bound) := by
  refine .get_bind (h.get_of_gives hbound rfl (gives_path rfl)) fun path => ?_
  refine .get_bind (h.get_of_gives hbound rfl gives_shape) fun tuples => ?_
  exact .bind .checkedCount fun _ => .ok rfl

theorem CreateImage.plan_reads (h : schema.Consistent)
    (hbound : (schema.bind args).outcome = .ok bound) : PlansFor BeyondReading (plan bound) := by
  refine .get_bind (h.get_of_gives hbound rfl (gives_path rfl)) fun path => ?_
  refine .get_bind (h.get_of_checked hbound rfl rfl fun _ => Parameter.gives_sizes3 rfl)
    fun dimensions => ?_
  refine .get_bind (h.get_of_checked hbound rfl rfl fun _ => Parameter.gives_singles3 rfl)
    fun origin => ?_
  refine .get_bind (h.get_of_checked hbound rfl rfl fun _ => Parameter.gives_singles3 rfl)
    fun spacing => ?_
  refine .get_bind (h.get_of_gives hbound rfl gives_name) fun cellDataName => ?_
  dsimp only
  split
  · exact .error (by simp [BeyondReading, Error.failure])
  · split
    · exact .error (by simp [BeyondReading, Error.failure])
    · exact .bind .checkedCount fun _ => .ok rfl

theorem Rename.plan_reads (h : schema.Consistent)
    (hbound : (schema.bind args).outcome = .ok bound) : PlansFor BeyondReading (plan t bound) := by
  refine .get_bind (h.get_of_gives hbound rfl (gives_path rfl)) fun path => ?_
  refine .get_bind (h.get_of_gives hbound rfl gives_name) fun name => ?_
  cases path.parent? with
  | none => exact .error Failure.beyondReading_ofTree
  | some parent =>
      refine .bind .ok fun parent => ?_
      dsimp only
      split
      · exact .ok rfl
      · split
        · exact .error Failure.beyondReading_ofTree
        · exact .ok rfl

theorem Move.checkSources_refusesFor {destination : Path} {incoming : List String}
    {sources : List Path} :
    RefusesFor BeyondReading (Move.checkSources t destination incoming sources) := by
  induction sources generalizing incoming with
  | nil => exact .ok
  | cons path rest ih =>
      rw [checkSources]
      split
      · refine .bind .ok fun name _ => ?_
        dsimp only
        split
        · exact .error Failure.beyondReading_ofTree
        · split
          · exact .bind ih fun _ _ => .ok
          · split
            · exact .error Failure.beyondReading_ofTree
            · exact ih
      · exact .error Failure.beyondReading_ofTree

theorem Move.plan_reads (h : schema.Consistent)
    (hbound : (schema.bind args).outcome = .ok bound) : PlansFor BeyondReading (plan t bound) := by
  refine .get_bind (h.get_of_gives hbound rfl gives_paths) fun sources => ?_
  refine .get_bind (h.get_of_gives hbound rfl (gives_path rfl)) fun destination => ?_
  exact .bind checkSources_refusesFor fun _ => .ok rfl

theorem Delete.plan_reads (h : schema.Consistent)
    (hbound : (schema.bind args).outcome = .ok bound) : PlansFor BeyondReading (plan bound) := by
  refine .get_bind (h.get_of_gives hbound rfl gives_paths) fun paths => ?_
  dsimp only
  split
  · exact .error Failure.beyondReading_ofTree
  · exact .ok rfl

theorem ResizeMatrix.plan_reads (h : schema.Consistent)
    (hbound : (schema.bind args).outcome = .ok bound) : PlansFor BeyondReading (plan t bound) := by
  refine .get_bind (h.get_of_gives hbound rfl (gives_path rfl)) fun path => ?_
  refine .get_bind (h.get_of_gives hbound rfl gives_shape) fun tuples => ?_
  refine .bind .fromTree fun before => .bind .checkedCount fun after => ?_
  have howner : RefusesFor BeyondReading (checkOwner t path tuples) := by
    rw [checkOwner]
    split
    · exact .ok
    · split
      · exact .error Failure.beyondReading_ofTree
      · exact .ok
  exact .bind howner fun _ => .ok rfl

namespace CreateArray

theorem tuplesFor_refusesFor (h : schema.Consistent)
    (hbound : (schema.bind args).outcome = .ok bound) {parent : Path} :
    RefusesFor BeyondReading (tuplesFor t parent bound) := by
  have hgiven : ∃ shape, bound.get .shape tuplesKey = .ok shape :=
    h.get_of_gives hbound rfl gives_shape
  rw [tuplesFor]
  split
  · exact .get hgiven
  · refine .bind .fromTree fun kind _ => ?_
    split
    · exact .fromTree
    · exact .get hgiven

theorem plan_reads (h : schema.Consistent) (hbound : (schema.bind args).outcome = .ok bound) :
    PlansFor BeyondReading (plan t bound) := by
  refine .get_bind (h.get_of_gives hbound rfl gives_elementType) fun type => ?_
  refine .get_bind (h.get_of_gives hbound rfl gives_shape) fun components => ?_
  refine .get_bind (h.get_of_gives hbound rfl (gives_path rfl)) fun path => ?_
  refine .get_bind (h.get_of_gives hbound rfl gives_string) fun text => ?_
  dsimp only
  split
  · exact .error (by simp [BeyondReading, Error.failure])
  · split
    · exact .error (by simp [BeyondReading, Error.failure])
    · exact .bind (tuplesFor_refusesFor h hbound) fun _ => .bind .checkedCount fun _ => .ok rfl

/-- The body reads three arguments; the text has to be a number when it is used again. -/
theorem work_failsFor (h : schema.Consistent) (hbound : (schema.bind args).outcome = .ok bound) :
    (work bound).FailsFor BeyondReading := by
  refine .bind (.ofExcept (.get (h.get_of_gives hbound rfl gives_elementType))) fun type => ?_
  refine .bind (.ofExcept (.get (h.get_of_gives hbound rfl (gives_path rfl)))) fun path => ?_
  refine .bind (.ofExcept (.get (h.get_of_gives hbound rfl gives_string))) fun text => ?_
  rw [fill]
  cases type.parse? text with
  | none => exact .throw (by simp [BeyondReading, Error.failure])
  | some value =>
      refine .bind .pure fun value => .bind .ask fun store => .bind .ask fun row => ?_
      refine .bind .get fun w => ?_
      split
      exact .bind .set fun _ => .pure

end CreateArray

namespace Misorientation

/-- Where the objects are can always be read off bound arguments. -/
theorem places_refusesFor {P : Failure → Prop} (h : schema.Consistent)
    (hbound : (schema.bind args).outcome = .ok bound) : RefusesFor P (places bound) := by
  have hpath : ∀ key p, schema.params.get? key = some p → p.kind.takesPath = true →
      ∃ path, bound.get .path key = .ok path :=
    fun key p hp htakes => h.get_of_gives hbound hp (gives_path htakes)
  refine .get_bind (hpath _ _ rfl rfl) fun orientations => ?_
  refine .get_bind (h.get_of_gives hbound rfl gives_bool) fun wanted => ?_
  -- what follows the choice is the same with a name for the averages and without
  have hrest : ∀ average : Option Path, RefusesFor P (do
      let neighbors ← bound.get .path neighborsKey
      let phases ← bound.get .path phasesKey
      let structures ← bound.get .path structuresKey
      let list := (orientations.parent?.getD .root).child (← bound.get .string listNameKey)
      return ({ neighbors, orientations, phases, structures, list, average } : Places)) := by
    intro average
    refine .get_bind (hpath _ _ rfl rfl) fun neighbors => ?_
    refine .get_bind (hpath _ _ rfl rfl) fun phases => ?_
    refine .get_bind (hpath _ _ rfl rfl) fun structures => ?_
    exact .get_bind (h.get_of_gives hbound rfl gives_name) fun _ => .ok
  dsimp only
  split
  · exact .get_bind (h.get_of_gives hbound rfl gives_name) fun _ => hrest _
  · exact hrest none

theorem checkFeatures_refusesFor {P : Failure → Prop} {orientations : Path} {features : List Path}
    (hP : ∀ f, f.kind = .structural → BeyondReading f → P f) :
    RefusesFor P (checkFeatures t orientations features) := by
  have htree : ∀ e : TreeError, P (refused e) := fun e => hP _ rfl Failure.beyondReading_ofTree
  refine .bind (.mapError fun e _ => htree e) fun a _ => ?_
  dsimp only
  split
  · exact .error (hP _ rfl (by simp [BeyondReading, Error.failure]))
  · split
    · exact .ok
    · exact .error (hP _ rfl (by simp [BeyondReading, Error.failure]))
    · exact .error (htree _)

theorem plan_reads (h : schema.Consistent) (hbound : (schema.bind args).outcome = .ok bound) :
    PlansFor BeyondReading (plan t bound) :=
  .bind (places_refusesFor h hbound) fun _ => .bind (checkFeatures_refusesFor fun _ _ h => h)
    fun _ => .bind .fromTree fun _ => .ok rfl

namespace Inputs

variable {inputs : Inputs}

theorem phase_refusesFor {feature : Nat} : RefusesFor BeyondReading (inputs.phase feature) := by
  rw [phase]
  split
  · exact .ok
  · exact .error (by simp [BeyondReading, Error.failure])

theorem angleIn_refusesFor {phase : Int} {a b : Nat} :
    RefusesFor BeyondReading (inputs.angleIn phase a b) := by
  rw [angleIn]
  split
  · exact .error (by simp [BeyondReading, Error.failure])
  · exact .ok
  · exact .error (by simp [BeyondReading, Error.failure])
  · split <;> exact .ok

theorem angle_refusesFor {a b : Nat} : RefusesFor BeyondReading (inputs.angle a b) := by
  refine .bind phase_refusesFor fun phase _ => ?_
  split
  · exact .ok
  · refine .bind phase_refusesFor fun other _ => ?_
    split
    · exact .ok
    · exact angleIn_refusesFor

theorem angles_refusesFor {feature : Nat} {neighbors : List Int32} :
    RefusesFor BeyondReading (inputs.angles feature neighbors) := by
  refine .mapM fun neighbor _ => ?_
  show RefusesFor BeyondReading (if _ then _ else _)
  split
  · exact angle_refusesFor
  · exact .error (by simp [BeyondReading, Error.failure])

theorem allAngles_refusesFor {feature : Nat} {lists : List (List Int32)} {counter : Counter}
    {run : Run} : RefusesFor BeyondReading (inputs.allAngles feature lists counter run).1 := by
  induction lists generalizing feature counter run with
  | nil => exact .ok
  | cons neighbors rest ih =>
      rw [allAngles]
      split
      · exact .map ih
      · dsimp only
        have hfeature := @angles_refusesFor inputs feature neighbors
        cases hangles : inputs.angles feature neighbors with
        | error e => exact .error (hfeature e hangles)
        | ok angles => exact .map ih

end Inputs

theorem uncopied_refusesFor {α : Type} {path : Path} {r : Except StoreError α} :
    RefusesFor BeyondReading (r.mapError (uncopied path)) := by
  cases r with
  | ok _ => exact .ok
  | error e =>
      cases e with
      | lengthMismatch => exact .error (by simp [BeyondReading, uncopied, Error.failure])
      | _ => exact .error Failure.beyondReading_ofTree

theorem write_failsFor {p : Places} {lists : List (List Float32)} :
    (write p lists).FailsFor BeyondReading := by
  have hlists : (writeLists p.list lists).FailsFor BeyondReading :=
    .bind .ask fun _ => .bind .ask fun _ => .write
  have hvalues : ∀ path values, (writeElements path values).FailsFor BeyondReading :=
    fun _ _ => .bind .ask fun _ => .bind (.ofExcept uncopied_refusesFor) fun _ => .write
  refine .bind hlists fun _ => ?_
  cases p.average with
  | none => exact .pure
  | some path => exact .bind (hvalues path _) fun _ => .pure

theorem compute_failsFor {p : Places} {inputs : Inputs} {neighbors : Array (List Int32)} :
    (compute oneWorker p inputs neighbors).FailsFor BeyondReading := by
  refine .bind .get fun w => .bind .write fun _ => ?_
  refine .bind (.ofExcept Inputs.allAngles_refusesFor) fun lists => ?_
  split
  · exact .pure
  · exact write_failsFor

theorem work_failsFor (h : schema.Consistent) (hbound : (schema.bind args).outcome = .ok bound) :
    (work oneWorker bound).FailsFor BeyondReading := by
  refine .bind (.ofExcept (places_refusesFor h hbound)) fun p => .bind .get fun w => ?_
  refine .bind (.ofExcept (checkFeatures_refusesFor fun _ _ h => h)) fun _ => ?_
  refine .bind .ask fun codes => .bind .ask fun orientations => .bind .ask fun phases => ?_
  exact .bind .ask fun neighbors => compute_failsFor

end Misorientation

/-! ## All of them -/

theorem beyondReading_of_plan {f : Filter} (hf : f ∈ filters)
    (hbound : (f.schema.bind args).outcome = .ok bound) {run : Run} :
    ∀ e ∈ (f.plan t bound run).1.actions.failures, BeyondReading e := by
  have h := consistent_of_mem hf
  rcases mem_filters.mp hf with rfl | rfl | rfl | rfl | rfl | rfl | rfl | rfl | rfl
  · exact CreateGroup.plan_reads h hbound
  · exact CreateMatrix.plan_reads h hbound
  · exact CreateArray.plan_reads h hbound
  · exact CreateImage.plan_reads h hbound
  · exact Rename.plan_reads h hbound
  · exact Move.plan_reads h hbound
  · exact Delete.plan_reads h hbound
  · exact ResizeMatrix.plan_reads h hbound
  · exact Misorientation.plan_reads h hbound

theorem beyondReading_of_body {f : Filter} (hf : f ∈ filters)
    (hbound : (f.schema.bind args).outcome = .ok bound) {w : Workspace} :
    ∀ e ∈ (f.body bound w).1.failures, BeyondReading e := by
  have h := consistent_of_mem hf
  have hidle : ∀ e ∈ (Report.ok Completion.finished).failures, BeyondReading e :=
    fun _ he => nomatch he
  rcases mem_filters.mp hf with rfl | rfl | rfl | rfl | rfl | rfl | rfl | rfl | rfl
  · exact hidle
  · exact hidle
  · exact (CreateArray.work_failsFor h hbound).failures
  · exact hidle
  · exact hidle
  · exact hidle
  · exact hidle
  · exact hidle
  · exact (Misorientation.work_failsFor h hbound).failures

/--
Called with arguments that its schema has bound, a built-in filter never finds an
argument missing (-201) or of another kind than it asks for (-202): neither when
it plans, for whatever tree, nor in its body, in whatever workspace.
-/
theorem bound_arguments_read {f : Filter} (hf : f ∈ filters)
    (hbound : (f.schema.bind args).outcome = .ok bound) :
    (∀ t run, (f.plan t bound run).1.actions.hasFailure (-201) = false ∧
      (f.plan t bound run).1.actions.hasFailure (-202) = false) ∧
    ∀ w, (f.body bound w).1.hasFailure (-201) = false ∧
      (f.body bound w).1.hasFailure (-202) = false := by
  constructor
  · intro t run
    have hbeyond : ∀ e ∈ (f.plan t bound run).1.actions.failures, BeyondReading e :=
      beyondReading_of_plan hf hbound
    exact ⟨Report.hasFailure_eq_false fun e he => (hbeyond e he).1,
      Report.hasFailure_eq_false fun e he => (hbeyond e he).2⟩
  · intro w
    have hbeyond : ∀ e ∈ (f.body bound w).1.failures, BeyondReading e :=
      beyondReading_of_body hf hbound
    exact ⟨Report.hasFailure_eq_false fun e he => (hbeyond e he).1,
      Report.hasFailure_eq_false fun e he => (hbeyond e he).2⟩

/--
A component shape may be given as a list of natural numbers. The body then finds
no array to fill, which is what it says, and nothing about its arguments.
-/
theorem bound_arguments_read_unfilled :
    CreateArray.filter ∈ filters ∧ ∃ bound,
      (CreateArray.filter.schema.bind
        ((Arguments.none.insert "output_array_path" (.path (.single "phase"))).insert
          "component_shape" (.uints [3]))).outcome = .ok bound ∧
      (CreateArray.filter.body bound ⟨.empty, .new 1⟩).1.hasFailure (-100) = true ∧
      (CreateArray.filter.body bound ⟨.empty, .new 1⟩).1.hasFailure (-201) = false ∧
      (CreateArray.filter.body bound ⟨.empty, .new 1⟩).1.hasFailure (-202) = false := by
  have hmem : CreateArray.filter ∈ filters := by simp [filters]
  have hbound : (CreateArray.filter.schema.bind
      ((Arguments.none.insert "output_array_path" (.path (.single "phase"))).insert
        "component_shape" (.uints [3]))).outcome = .ok _ := rfl
  obtain ⟨-, hbody⟩ := bound_arguments_read hmem hbound
  exact ⟨hmem, _, hbound, rfl, hbody ⟨.empty, .new 1⟩⟩

end Builtin

end FilterTree
