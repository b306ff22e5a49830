import FilterTree.Parameter.Schema
import FilterTree.Proofs.Checks
import FilterTree.Proofs.OrderedMap

/-!
# Binding arguments

Binding decides which parameters are active on the defaults overlaid with what
was given, and it hands on arguments of its own making. Later stages ask again
which parameters are active, this time under what was handed on, and they bind
again what has been bound. That neither can make a difference rests on one
equation: where binding succeeds, what it hands on is the overlay on which it
decided (`Keyed.bind_eq`). Both are lists of the schema's keys in the schema's
order, so they are equal as soon as they agree at each key.

What can be wrong with a parameter is an `Offence`, and `fits` decides whether
there is one. A schema is `Keyed` as every schema is that was built parameter by
parameter.
-/

namespace FilterTree

/-! ## Reports -/

namespace Report

variable {α : Type} {r : Report α} {f g : α → α} {fs gs : List Failure}

theorem map_map : (r.map f).map g = r.map (g ∘ f) := by
  obtain ⟨outcome, warnings⟩ := r
  cases outcome <;> rfl

theorem addFailures_map : (r.map f).addFailures fs = r.addFailures fs := by
  obtain ⟨outcome, warnings⟩ := r
  cases outcome <;> rfl

theorem map_addFailures : (r.addFailures fs).map f = r.addFailures fs := rfl

theorem addFailures_addFailures : (r.addFailures fs).addFailures gs = r.addFailures (fs ++ gs) :=
  congrArg (fun fs => (⟨.error fs, r.warnings⟩ : Report α)) (List.append_assoc r.failures fs gs)

end Report

/-! ## Schemas that were built -/

/-- A step of building a schema. -/
inductive Declaration where
  | separator (name : String)
  | insert (p : Parameter)
  | insertLinkable (p : Parameter)
  | link (group child : String) (value : Bool)

namespace Schema

/-- Take one more step. -/
def declare (s : Schema) : Declaration → Schema
  | .separator name => s.separator name
  | .insert p => s.insert p
  | .insertLinkable p => s.insertLinkable p
  | .link group child value => s.link group child value

/-- The schema that steps build. -/
def ofDeclarations (ds : List Declaration) : Schema := ds.foldl declare .empty

/-- Every parameter stands under its own key. -/
def Keyed (s : Schema) : Prop := ∀ e ∈ s.params.entries, e.1 = e.2.key

variable {s : Schema} {p : Parameter} {args : Arguments}

theorem Keyed.insert (h : s.Keyed) (p : Parameter) : (s.insert p).Keyed := by
  intro e he
  rcases (OrderedMap.mem_putEntry s.params.nodup).mp he with rfl | ⟨-, he⟩
  · rfl
  · exact h e he

theorem Keyed.declare (h : s.Keyed) (d : Declaration) : (s.declare d).Keyed := by
  cases d with
  | separator | link => exact h
  | insert p => exact h.insert p
  | insertLinkable p => exact @Keyed.insert { s with linkable := s.linkable ++ [p.key] } h p

theorem keyed_ofDeclarations (ds : List Declaration) : (ofDeclarations ds).Keyed := by
  have hall : ∀ s : Schema, s.Keyed → (ds.foldl Schema.declare s).Keyed := by
    induction ds with
    | nil => exact fun _ hs => hs
    | cons d ds ih => exact fun s hs => ih _ (hs.declare d)
  exact hall .empty fun e he => (nomatch he)

theorem Keyed.map_key (h : s.Keyed) : s.parameters.map (·.key) = s.keys := by
  rw [parameters, OrderedMap.values, List.map_map]
  exact List.map_congr_left fun e he => (h e he).symm

theorem Keyed.nodup_key (h : s.Keyed) : (s.parameters.map (·.key)).Nodup :=
  h.map_key ▸ s.params.nodup

theorem Keyed.mem_keys_iff (h : s.Keyed) {key : String} :
    key ∈ s.keys ↔ ∃ p ∈ s.parameters, p.key = key := by
  rw [← h.map_key, List.mem_map]

theorem contains_params_iff {key : String} : s.params.contains key = true ↔ key ∈ s.keys :=
  OrderedMap.contains_iff

/-! ## Defaults and what was given -/

/-- The entries that give every parameter a value are a map of the schema's keys. -/
theorem Keyed.ofList_spec (h : s.Keyed) (value : Parameter → Argument) :
    let m : Arguments := OrderedMap.ofList (s.parameters.map fun p => (p.key, value p))
    m.keys = s.keys ∧ ∀ p ∈ s.parameters, m.get? p.key = some (value p) := by
  have hkeys : (s.parameters.map fun p => (p.key, value p)).map (·.1) = s.parameters.map (·.key) :=
    List.map_map
  have hnodup := hkeys ▸ h.nodup_key
  constructor
  · rw [← h.map_key, ← hkeys]
    exact OrderedMap.keys_insertAll_of_new hnodup fun e _ he => (nomatch he)
  · intro p hp
    exact OrderedMap.get?_insertAll_of_mem hnodup (List.mem_map.mpr ⟨p, hp, rfl⟩)

/-- What was given for a parameter, else its default. -/
def chosen (args : Arguments) (p : Parameter) : Argument := (args.get? p.key).getD p.default

theorem Keyed.keys_effective (h : s.Keyed) : (s.effective args).keys = s.keys := by
  obtain ⟨hkeys, -⟩ := h.ofList_spec Parameter.default
  rw [effective, OrderedMap.keys_insertAll_of_mem, defaults, hkeys]
  intro e he
  rw [defaults, hkeys]
  exact contains_params_iff.mp (List.mem_filter.mp he).2

theorem Keyed.get?_effective (h : s.Keyed) (hp : p ∈ s.parameters) :
    (s.effective args).get? p.key = some (chosen args p) := by
  have hknown : s.params.contains p.key = true :=
    contains_params_iff.mpr (h.mem_keys_iff.mpr ⟨p, hp, rfl⟩)
  rw [effective, chosen]
  cases hgiven : args.get? p.key with
  | some value =>
      refine OrderedMap.get?_insertAll_of_mem (args.nodup.sublist (List.filter_sublist.map _)) ?_
      exact List.mem_filter.mpr ⟨OrderedMap.get?_eq_some_iff.mp hgiven, hknown⟩
  | none =>
      rw [OrderedMap.get?_insertAll_of_not_mem]
      · exact (h.ofList_spec Parameter.default).2 p hp
      · rintro hmem
        obtain ⟨e, he, hkey⟩ := List.mem_map.mp hmem
        refine OrderedMap.get?_eq_none_iff.mp hgiven ?_
        exact List.mem_map.mpr ⟨e, (List.mem_filter.mp he).1, hkey⟩

/-- Arguments that have the schema's keys in order and a value chosen for each are the overlay. -/
theorem Keyed.eq_effective (h : s.Keyed) {m : Arguments} (hkeys : m.keys = s.keys)
    (hget : ∀ p ∈ s.parameters, m.get? p.key = some (chosen args p)) : m = s.effective args := by
  refine OrderedMap.ext_get? (hkeys.trans h.keys_effective.symm) fun key hkey => ?_
  rw [hkeys] at hkey
  obtain ⟨p, hp, rfl⟩ := h.mem_keys_iff.mp hkey
  rw [hget p hp, h.get?_effective hp]

/-- Laying the overlay over the defaults changes nothing. -/
theorem Keyed.effective_effective (h : s.Keyed) :
    s.effective (s.effective args) = s.effective args := by
  refine h.eq_effective h.keys_effective fun p hp => ?_
  rw [h.get?_effective hp, chosen, h.get?_effective hp, Option.getD_some]

end Schema

/-! ## One parameter -/

namespace Parameter

/-- Whether nothing is wrong with what was given for a parameter that is active or not. -/
def fits (p : Parameter) (given : Option Argument) (active : Bool) : Bool :=
  match given with
  | some value => if active then (p.checkValue value).isOk else p.kind.accepts value
  | none => !(p.required && active)

/-- What can be wrong with what was given for a parameter that is active or not. -/
inductive Offence (p : Parameter) : Option Argument → Bool → ArgumentError → Prop where
  | unfit {value : Argument} {e : ArgumentError} (h : p.checkValue value = .error e) :
      Offence p (some value) true e
  | unacceptable {value : Argument} (h : p.kind.accepts value = false) :
      Offence p (some value) false (.inactiveUnacceptable p.label p.kind.text)
  | missing (h : p.required = true) : Offence p none true (.missingRequired p.key p.label)

end Parameter

namespace Schema

variable {s : Schema} {p : Parameter} {args : Arguments} {active : Bool}

theorem bindOne_cases :
    p.fits (args.get? p.key) active = true ∧ bindOne args active p = .ok (chosen args p) ∨
      p.fits (args.get? p.key) active = false ∧
        ∃ e, bindOne args active p = .error e ∧ p.Offence (args.get? p.key) active e := by
  rw [bindOne, chosen]
  cases args.get? p.key with
  | none =>
      simp only [Parameter.fits]
      cases hneeded : p.required && active with
      | false => exact .inl ⟨rfl, rfl⟩
      | true =>
          obtain ⟨hrequired, rfl⟩ := Bool.and_eq_true_iff.mp hneeded
          exact .inr ⟨rfl, _, rfl, .missing hrequired⟩
  | some value =>
      cases active with
      | true =>
          simp only [Parameter.fits, if_true]
          cases hcheck : p.checkValue value with
          | ok => exact .inl ⟨rfl, rfl⟩
          | error e => exact .inr ⟨rfl, e, rfl, .unfit hcheck⟩
      | false =>
          simp only [Parameter.fits, Bool.false_eq_true, if_false]
          cases haccepts : p.kind.accepts value with
          | true => exact .inl ⟨rfl, rfl⟩
          | false => exact .inr ⟨rfl, _, rfl, .unacceptable haccepts⟩

/-! ## All of them -/

/-- Each of the failures is about one of the parameters, in the same order. -/
def Blames (args : Arguments) (active : String → Bool) : List Parameter → List Failure → Prop :=
  List.Forall₂ fun p f => ∃ e, p.Offence (args.get? p.key) (active p.key) e ∧ f = e.failure

/--
Binding one parameter after the other either extends what has been bound by a
value for each, or adds a failure for each that does not fit.
-/
theorem foldl_addBound {active : String → Bool} {ps : List Parameter} {acc : Report Arguments} :
    ∃ failures, Blames args active
        (ps.filter fun p => !p.fits (args.get? p.key) (active p.key)) failures ∧
      ps.foldl (fun acc p => addBound acc p.key (bindOne args (active p.key) p)) acc =
        if ps.all fun p => p.fits (args.get? p.key) (active p.key) then
          acc.map fun bound => bound.insertAll (ps.map fun p => (p.key, chosen args p))
        else acc.addFailures failures := by
  induction ps generalizing acc with
  | nil =>
      refine ⟨[], .nil, ?_⟩
      obtain ⟨outcome, warnings⟩ := acc
      cases outcome <;> rfl
  | cons p ps ih =>
      rw [List.foldl_cons, List.all_cons, List.filter_cons]
      rcases @bindOne_cases p args (active p.key) with ⟨hfits, hone⟩ | ⟨hfits, e, hone, hoffence⟩
      · obtain ⟨failures, hblames, hrest⟩ := @ih (addBound acc p.key (.ok (chosen args p)))
        rw [hone, hrest, hfits]
        refine ⟨failures, hblames, ?_⟩
        rw [Bool.true_and, addBound, Report.map_map, Report.addFailures_map]
        rfl
      · obtain ⟨failures, hblames, hrest⟩ := @ih (addBound acc p.key (.error e))
        rw [hone, hrest, hfits]
        refine ⟨e.failure :: failures, .cons ⟨e, hoffence, rfl⟩ hblames, ?_⟩
        rw [Bool.false_and, if_neg Bool.false_ne_true, addBound, Report.addFailure,
          Report.addFailures_addFailures]
        split
        · next hall =>
            -- nobody else is to blame
            rw [List.filter_eq_nil_iff.mpr fun q hq => by simp [List.all_eq_true.mp hall q hq],
              Blames, List.forall₂_nil_left_iff] at hblames
            rw [hblames, Report.map_addFailures]
        · rfl

/-- Whether nothing is wrong with a parameter, activity being decided on the overlay. -/
def fits (s : Schema) (args : Arguments) (p : Parameter) : Bool :=
  p.fits (args.get? p.key) (s.isActive p.key (s.effective args))

/-- What binding hands on is the overlay on which it has decided activity. -/
theorem Keyed.bind_eq (h : s.Keyed) (args : Arguments) :
    ∃ failures, Blames args (s.isActive · (s.effective args))
        (s.parameters.filter fun p => !s.fits args p) failures ∧
      s.bind args = ⟨if s.parameters.all (s.fits args) then .ok (s.effective args)
        else .error failures, s.unknownKeys args⟩ := by
  obtain ⟨failures, hblames, hbind⟩ := @foldl_addBound args (s.isActive · (s.effective args))
    s.parameters ((Report.ok Arguments.none).warnAll (s.unknownKeys args))
  obtain ⟨hkeys, hget⟩ := h.ofList_spec (chosen args)
  refine ⟨failures, hblames, hbind.trans ?_⟩
  show (if s.parameters.all (s.fits args) then _ else _) = _
  split
  · rw [← h.eq_effective hkeys hget]
    rfl
  · rfl

theorem Keyed.bind_eq_ok (h : s.Keyed) {bound : Arguments} :
    (s.bind args).outcome = .ok bound ↔
      (∀ p ∈ s.parameters, s.fits args p = true) ∧ bound = s.effective args := by
  obtain ⟨failures, -, hbind⟩ := h.bind_eq args
  rw [hbind, ← List.all_eq_true]
  cases s.parameters.all (s.fits args) with
  | true => exact ⟨fun hok => ⟨rfl, (Except.ok.inj hok).symm⟩, fun hok => congrArg _ hok.2.symm⟩
  | false => exact ⟨fun hok => (nomatch hok), fun hok => (nomatch hok.1)⟩

theorem Keyed.warnings_bind (h : s.Keyed) : (s.bind args).warnings = s.unknownKeys args := by
  obtain ⟨failures, -, hbind⟩ := h.bind_eq args
  rw [hbind]

theorem Keyed.blames_of_bind (h : s.Keyed) {failures : List Failure}
    (hfailed : (s.bind args).outcome = .error failures) :
    Blames args (s.isActive · (s.effective args)) (s.parameters.filter fun p => !s.fits args p)
      failures := by
  obtain ⟨blamed, hblames, hbind⟩ := h.bind_eq args
  rw [hbind] at hfailed
  dsimp only at hfailed
  split at hfailed
  · cases hfailed
  · cases hfailed
    exact hblames

/-! ## Binding what has been bound -/

/-- A schema in which nothing is wrong and every default is of the sort that its parameter takes. -/
structure Consistent (s : Schema) : Prop where
  keyed : s.Keyed
  problems_eq : s.problems = []
  accepts_default : ∀ p ∈ s.parameters, p.kind.accepts p.default = true

theorem checkValue_default (h : s.problems = []) (hp : p ∈ s.parameters)
    (hoptional : p.required = false) : p.checkValue p.default = .ok () := by
  rw [problems, List.append_eq_nil_iff, List.flatMap_eq_nil_iff, List.flatMap_eq_nil_iff] at h
  have hnone := h.2 p hp
  rw [defaultProblems, hoptional] at hnone
  split at hnone
  · next hcheck => exact hcheck
  · cases hnone

/-- A value that was chosen for a parameter fits again: if given it did, and a default is in order. -/
theorem Consistent.fits_effective (h : s.Consistent) (hp : p ∈ s.parameters)
    (hfits : s.fits args p = true) : s.fits (s.effective args) p = true := by
  rw [fits] at hfits
  rw [fits, h.keyed.effective_effective, h.keyed.get?_effective hp, chosen]
  cases hgiven : args.get? p.key with
  | some value =>
      rw [hgiven] at hfits
      exact hfits
  | none =>
      rw [hgiven] at hfits
      rw [Option.getD_none]
      cases hactive : s.isActive p.key (s.effective args) with
      | false => exact h.accepts_default p hp
      | true =>
          rw [hactive] at hfits
          have hoptional : p.required = false := by simpa [Parameter.fits] using hfits
          exact congrArg Except.isOk (checkValue_default h.problems_eq hp hoptional)

theorem Keyed.unknownKeys_effective (h : s.Keyed) : s.unknownKeys (s.effective args) = [] := by
  rw [unknownKeys, h.keys_effective, List.map_eq_nil_iff, List.filter_eq_nil_iff]
  intro key hkey
  rw [contains_params_iff.mpr hkey]
  exact Bool.false_ne_true

/-- Binding what has been bound changes nothing and warns of nothing. -/
theorem Consistent.bind_bound (h : s.Consistent) {bound : Arguments}
    (hbound : (s.bind args).outcome = .ok bound) : s.bind bound = .ok bound := by
  obtain ⟨hfits, rfl⟩ := h.keyed.bind_eq_ok.mp hbound
  have hagain : (s.bind (s.effective args)).outcome = .ok (s.effective args) :=
    h.keyed.bind_eq_ok.mpr
      ⟨fun p hp => h.fits_effective hp (hfits p hp), h.keyed.effective_effective.symm⟩
  have hsilent : (s.bind (s.effective args)).warnings = [] :=
    h.keyed.warnings_bind.trans h.keyed.unknownKeys_effective
  calc s.bind (s.effective args)
      = ⟨(s.bind (s.effective args)).outcome, (s.bind (s.effective args)).warnings⟩ := rfl
    _ = .ok (s.effective args) := by rw [hagain, hsilent]; rfl

/--
Binding arguments to a schema, activity being decided on the defaults overlaid
with what was given for keys of the schema. It succeeds if every parameter fits;
otherwise it has one failure for each that does not, in the schema's order.
Either way it warns once of every key that no parameter has, in the order of the
arguments. What it hands on has the schema's keys in order, with what was given
or else the default, and activates the same parameters; binding that again
changes nothing, if nothing is wrong with the schema and its defaults.
-/
theorem binding (ds : List Declaration) (args : Arguments) :
    let s := ofDeclarations ds
    let active := fun key => s.isActive key (s.effective args)
    let fits := fun p : Parameter => p.fits (args.get? p.key) (active p.key)
    ((∃ bound, (s.bind args).outcome = .ok bound) ↔ ∀ p ∈ s.parameters, fits p = true) ∧
    (∀ failures, (s.bind args).outcome = .error failures →
      Blames args active (s.parameters.filter fun p => !fits p) failures) ∧
    (s.bind args).warnings = (args.keys.filter (· ∉ s.keys)).map (fun key : String =>
      ⟨-200, s!"argument '{key}' matches no parameter and was ignored"⟩) ∧
    ∀ bound, (s.bind args).outcome = .ok bound →
      bound.keys = s.keys ∧
      (∀ p ∈ s.parameters, bound.get? p.key = some ((args.get? p.key).getD p.default)) ∧
      (∀ key, s.isActive key bound = active key) ∧
      (s.problems = [] → (∀ p ∈ s.parameters, p.kind.accepts p.default = true) →
        s.bind bound = .ok bound) := by
  intro s active fits
  have h : s.Keyed := keyed_ofDeclarations ds
  refine ⟨?_, fun failures hfailed => h.blames_of_bind hfailed, ?_, ?_⟩
  · exact ⟨fun ⟨_, hok⟩ => (h.bind_eq_ok.mp hok).1, fun hfits => ⟨_, h.bind_eq_ok.mpr ⟨hfits, rfl⟩⟩⟩
  · have hunknown : ∀ key ∈ args.keys, (!s.params.contains key) = decide (key ∉ s.keys) :=
      fun key _ => by simp [← contains_params_iff]
    rw [h.warnings_bind, unknownKeys, List.filter_congr hunknown]
    rfl
  · intro bound hok
    obtain ⟨hfits, rfl⟩ := h.bind_eq_ok.mp hok
    exact ⟨h.keys_effective, fun p hp => h.get?_effective hp, fun _ => rfl,
      fun hproblems haccepts => Consistent.bind_bound ⟨h, hproblems, haccepts⟩ hok⟩

end Schema

end FilterTree
