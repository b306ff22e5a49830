import FilterTree.Legacy.Importer
import FilterTree.Proofs.OrderedMap
import FilterTree.Proofs.SortedMap

/-!
# An import comes to what its rules come to

An importer is told its rules one after another and keeps four things: arguments, failures, warnings
and the keys it was asked for. A rule adds at most one entry to each of them, which one depends on
the document alone, and nothing that was told before has a say in it. So after any row of rules the
importer is known from the rules (`Importer.told`): every new rule adds its own part at the end, a
failing one too, and a key that is asked for twice adds twice.

Whether the import succeeded is not remembered apart from its failures. It has arguments exactly if
no rule failed, and they are the defaults with the bindings of all rules laid over them in order.
-/

namespace FilterTree

/-! ## Reports of failures -/

namespace Report

variable {α : Type} {a b : α} {failures : List Failure} {warnings : List Warning}

/-- The report of a value unless there are failures. -/
def unlessFailed (a : α) (failures : List Failure) (warnings : List Warning) : Report α :=
  ⟨if failures = [] then .ok a else .error failures, warnings⟩

theorem failures_unlessFailed : (unlessFailed a failures warnings).failures = failures := by
  rw [Report.failures, unlessFailed]
  split
  · next hok =>
      split at hok
      · next hnone => exact hnone.symm
      · cases hok
  · next herror =>
      split at herror
      · cases herror
      · exact (Except.error.inj herror).symm

theorem value?_unlessFailed :
    (unlessFailed a failures warnings).value? = some b ↔ failures = [] ∧ b = a := by
  rw [value?, unlessFailed]
  split
  · next hnone => exact ⟨fun h => ⟨hnone, (Option.some.inj h).symm⟩, fun h => h.2 ▸ rfl⟩
  · next hsome => exact iff_of_false (by rintro ⟨⟩) fun h => hsome h.1

theorem isValid_unlessFailed :
    (unlessFailed a failures warnings).isValid = true ↔ failures = [] := by
  rw [isValid, Option.isSome_iff_exists]
  simp only [value?_unlessFailed, exists_and_left, exists_eq, and_true]

theorem addFailure_unlessFailed {f : Failure} : (unlessFailed () failures warnings).addFailure f =
    unlessFailed () (failures ++ [f]) warnings := by
  have hne : failures ++ [f] ≠ [] := List.append_ne_nil_of_right_ne_nil _ (List.cons_ne_nil _ _)
  rw [addFailure, addFailures, failures_unlessFailed, unlessFailed, unlessFailed, if_neg hne]

theorem warn_unlessFailed {w : Warning} :
    (unlessFailed a failures warnings).warn w = unlessFailed a failures (warnings ++ [w]) := rfl

end Report

namespace Legacy

/-! ## Tables of rules -/

/-- A line of the table by which a filter imports. -/
inductive Rule where
  | convert (legacyKey key : String) (converter : Converter) (requirement : Requirement)
  | ignore (legacyKey : String)

/-- Follow a rule. -/
def Importer.follow (i : Importer) : Rule → Importer
  | .convert legacyKey key converter requirement => i.convert legacyKey key converter requirement
  | .ignore legacyKey => i.ignore legacyKey

/-- Follow the rules of a table, from the defaults on. -/
def importBy (rules : List Rule) (defaults : Arguments) (document : Json) : Report Arguments :=
  (rules.foldl Importer.follow (.new document defaults)).finish

/-! ## What a rule comes to -/

namespace Rule

/-- The key of the document that a rule asks for. -/
def legacyKey : Rule → String
  | convert legacyKey .. | ignore legacyKey => legacyKey

/-- What a rule binds, if its key is there and can be converted. -/
def binding? (document : Json) : Rule → Option (String × Argument)
  | convert legacyKey key converter _ => do
    return (key, ← (converter.convert (← document.field? legacyKey)).toOption)
  | ignore _ => none

/-- What a rule fails for: a value that cannot be converted, or a required key that is absent. -/
def failure? (document : Json) : Rule → Option Failure
  | convert legacyKey _ converter requirement =>
    match document.field? legacyKey with
    | some value =>
      match converter.convert value with
      | .ok _ => none
      | .error cause => some (Notice.notConverted legacyKey cause).failure
    | none =>
      if requirement = .required then some (Notice.requiredMissing legacyKey).failure else none
  | ignore _ => none

/-- What a rule warns of: an optional key that is absent. -/
def warning? (document : Json) : Rule → Option Warning
  | convert legacyKey key _ requirement =>
    if requirement = .optional ∧ document.field? legacyKey = none then
      some (Notice.keepsDefault legacyKey key).warning
    else none
  | ignore _ => none

/-- Whether the key of a rule is there if it has to be, and can be converted if it is there. -/
def Succeeds (document : Json) : Rule → Prop
  | convert legacyKey _ converter requirement =>
    (∀ value, document.field? legacyKey = some value →
      ∃ argument, converter.convert value = .ok argument) ∧
    (requirement = .required → ∃ value, document.field? legacyKey = some value)
  | ignore _ => True

variable {document : Json} {rule : Rule}

theorem failure?_eq_none_iff : rule.failure? document = none ↔ rule.Succeeds document := by
  cases rule with
  | ignore => exact iff_of_true rfl trivial
  | convert legacyKey key converter requirement =>
      rw [failure?, Succeeds]
      cases document.field? legacyKey with
      | none => simp
      | some value => cases hvalue : converter.convert value <;> simp [hvalue]

end Rule

/-! ## What rules come to -/

/-- The keys of an object that no rule asks for and that do not describe the object itself. -/
def leftOver (rules : List Rule) (fields : List (String × Json)) : List String :=
  (SortedMap.ofList fields).keys.filter fun key =>
    key ∉ rules.map Rule.legacyKey ∧ key ∉ metadataKeys

namespace Importer

variable {i : Importer} {rule : Rule} {rules : List Rule} {defaults : Arguments}
  {fields : List (String × Json)}

/-- The importer of an object after it was told these rules. -/
def told (fields : List (String × Json)) (defaults : Arguments) (rules : List Rule) :
    Importer where
  document := some (.ofList fields)
  arguments := defaults.insertAll (rules.filterMap (Rule.binding? (.obj fields)))
  report := .unlessFailed () (rules.filterMap (Rule.failure? (.obj fields)))
    (rules.filterMap (Rule.warning? (.obj fields)))
  consumed := rules.map Rule.legacyKey

theorem told_snoc : told fields defaults (rules ++ [rule]) =
    { document := some (.ofList fields)
      arguments := (told fields defaults rules).arguments.insertAll
        (rule.binding? (.obj fields)).toList
      report := .unlessFailed ()
        (rules.filterMap (Rule.failure? (.obj fields)) ++ (rule.failure? (.obj fields)).toList)
        (rules.filterMap (Rule.warning? (.obj fields)) ++ (rule.warning? (.obj fields)).toList)
      consumed := rules.map Rule.legacyKey ++ [rule.legacyKey] } := by
  have hone {α : Type} {f : Rule → Option α} : [rule].filterMap f = (f rule).toList := by
    cases h : f rule <;> simp [h]
  simp only [told, List.filterMap_append, hone, OrderedMap.insertAll_append, List.map_append,
    List.map_singleton]

/-- One more rule adds what it comes to by itself. -/
theorem follow_told :
    (told fields defaults rules).follow rule = told fields defaults (rules ++ [rule]) := by
  have hnone {args : Arguments} : args.insertAll [] = args := rfl
  have hone {args : Arguments} {e : String × Argument} :
      args.insertAll [e] = args.insert e.1 e.2 := rfl
  rw [told_snoc]
  cases rule with
  | ignore legacyKey =>
      simp [follow, ignore, told, Rule.binding?, Rule.failure?, Rule.warning?, Rule.legacyKey,
        hnone]
  | convert legacyKey key converter requirement =>
      have hfield : (SortedMap.ofList fields).get? legacyKey = (Json.obj fields).field? legacyKey :=
        SortedMap.get?_ofList
      rw [follow, convert.eq_def]
      simp only [told, ignore, hfield, Rule.binding?, Rule.failure?, Rule.warning?, Rule.legacyKey]
      cases (Json.obj fields).field? legacyKey with
      | none =>
          cases requirement with
          | required => simp [hnone, Report.addFailure_unlessFailed]
          | optional => simp [hnone, Report.warn_unlessFailed]
      | some value =>
          cases hvalue : converter.convert value with
          | ok argument => simp [hvalue, hone, Except.toOption]
          | error cause => simp [hvalue, hnone, Except.toOption, Report.addFailure_unlessFailed]

theorem foldl_told {rules' : List Rule} :
    rules'.foldl follow (told fields defaults rules) = told fields defaults (rules ++ rules') := by
  induction rules' generalizing rules with
  | nil => rw [List.foldl_nil, List.append_nil]
  | cons rule rules' ih =>
      rw [List.foldl_cons, follow_told, ih, List.append_assoc, List.singleton_append]

theorem leftOver_told :
    (told fields defaults rules).leftOver = Legacy.leftOver rules fields := by
  refine List.filter_congr fun key _ => ?_
  rw [Bool.eq_iff_iff]
  simp only [told, Bool.and_eq_true, Bool.not_eq_true', decide_eq_true_eq, List.contains_eq_mem,
    decide_eq_false_iff_not]

/-- Without a document nothing is converted, so nothing comes of the rules. -/
theorem foldl_follow_without (h : i.document = none) :
    (rules.foldl follow i).document = none ∧ (rules.foldl follow i).report = i.report := by
  induction rules generalizing i with
  | nil => exact ⟨h, rfl⟩
  | cons rule rules ih =>
      have hstep : (i.follow rule).document = none ∧ (i.follow rule).report = i.report := by
        cases rule with
        | ignore => exact ⟨h, rfl⟩
        | convert =>
            rw [follow, convert, h]
            exact ⟨h, rfl⟩
      rw [List.foldl_cons]
      obtain ⟨hdocument, hreport⟩ := ih hstep.1
      exact ⟨hdocument, hreport.trans hstep.2⟩

end Importer

variable {rules : List Rule} {defaults : Arguments}

theorem importBy_obj {fields : List (String × Json)} : importBy rules defaults (.obj fields) =
    .unlessFailed (defaults.insertAll (rules.filterMap (Rule.binding? (.obj fields))))
      (rules.filterMap (Rule.failure? (.obj fields)))
      (rules.filterMap (Rule.warning? (.obj fields)) ++
        (leftOver rules fields).map fun key => (Notice.leftOver key).warning) := by
  have hnew : Importer.new (.obj fields) defaults = .told fields defaults [] := rfl
  rw [importBy, hnew, Importer.foldl_told, List.nil_append, Importer.finish,
    Importer.leftOver_told, Report.map, Report.warnAll, Importer.told]
  simp only [Report.unlessFailed]
  split <;> rfl

theorem importBy_of_not_obj {document : Json} (h : ∀ fields, document ≠ .obj fields) :
    importBy rules defaults document = .fail Notice.notAnObject.failure := by
  have hnew : Importer.new document defaults =
      ⟨none, defaults, .fail Notice.notAnObject.failure, []⟩ := by
    rw [Importer.new.eq_def]
    split
    · next fields => exact absurd rfl (h fields)
    · rfl
  obtain ⟨hdocument, hreport⟩ :=
    @Importer.foldl_follow_without (.new document defaults) rules (by rw [hnew])
  rw [importBy, Importer.finish, hreport, Importer.leftOver, hdocument, hnew]
  rfl

/-- Arguments that were imported are the defaults with what the rules bind. -/
theorem eq_insertAll_of_importBy {document : Json} {args : Arguments}
    (h : (importBy rules defaults document).value? = some args) :
    args = defaults.insertAll (rules.filterMap (Rule.binding? document)) := by
  cases document with
  | obj fields =>
      rw [importBy_obj] at h
      exact (Report.value?_unlessFailed.mp h).2
  | _ =>
      rw [importBy_of_not_obj (by rintro _ ⟨⟩)] at h
      cases h

/--
An import has arguments exactly if the document is an object and all rules succeed. It has one
failure for each rule that does not, in order; what is no object fails for that alone, without a
warning and whatever the rules. The arguments are the defaults with the last value that a rule binds
under each key; the keys of the defaults keep their places and new ones follow in the order of the
rules. The warnings are those of the rules, in order, and then one for each key of the document, in
its order, that no rule asked for and that does not describe the document.
-/
theorem import_accumulates (rules : List Rule) (defaults : Arguments) (document : Json) :
    let report := importBy rules defaults document
    let bindings := rules.filterMap (Rule.binding? document)
    (report.isValid = true ↔
      (∃ fields, document = .obj fields) ∧ ∀ rule ∈ rules, rule.Succeeds document) ∧
    (∀ args, report.value? = some args → args = defaults.insertAll bindings ∧
      args.keys = defaults.keys ++ ((bindings.map (·.1)).filter (· ∉ defaults.keys)).eraseDups ∧
      ∀ key, args.get? key = (bindings.reverse.lookup key).or (defaults.get? key)) ∧
    (∀ rule : Rule, (rule.failure? document).isSome ↔ ¬ rule.Succeeds document) ∧
    (∀ fields, document = .obj fields →
      report.failures = rules.filterMap (Rule.failure? document) ∧
      report.warnings = rules.filterMap (Rule.warning? document) ++
        (leftOver rules fields).map fun key => (Notice.leftOver key).warning) ∧
    ((∀ fields, document ≠ .obj fields) → report = .fail Notice.notAnObject.failure) := by
  intro report bindings
  have hfails : ∀ rule : Rule, (rule.failure? document).isSome ↔ ¬ rule.Succeeds document := by
    intro rule
    rw [← Rule.failure?_eq_none_iff, ← ne_eq, Option.isSome_iff_ne_none]
  have hargs : ∀ args, report.value? = some args → args = defaults.insertAll bindings ∧
      args.keys = defaults.keys ++ ((bindings.map (·.1)).filter (· ∉ defaults.keys)).eraseDups ∧
      ∀ key, args.get? key = (bindings.reverse.lookup key).or (defaults.get? key) := by
    intro args hargs
    obtain rfl := eq_insertAll_of_importBy hargs
    exact ⟨rfl, OrderedMap.keys_insertAll, fun key => OrderedMap.get?_insertAll⟩
  refine ⟨?_, hargs, hfails, ?_, importBy_of_not_obj⟩
  · by_cases hobj : ∃ fields, document = .obj fields
    · have hnone : rules.filterMap (Rule.failure? document) = [] ↔
          ∀ rule ∈ rules, rule.Succeeds document :=
        List.filterMap_eq_nil_iff.trans (forall₂_congr fun rule _ => Rule.failure?_eq_none_iff)
      rw [and_iff_right hobj, ← hnone]
      obtain ⟨fields, rfl⟩ := hobj
      have hreport : report = _ := importBy_obj
      rw [hreport, Report.isValid_unlessFailed]
    · have hreport : report = _ := importBy_of_not_obj (not_exists.mp hobj)
      rw [hreport]
      exact iff_of_false Bool.false_ne_true fun h => hobj h.1
  · rintro fields rfl
    have hreport : report = _ := importBy_obj
    rw [hreport, Report.failures_unlessFailed]
    exact ⟨rfl, rfl⟩

/--
A count that is there, a name that is not, and the count again under a new key. A stray key is left
over; a list is no document.
-/
theorem import_accumulates_count :
    let rules : List Rule := [.convert "Count" "count" .uint .required,
      .convert "Name" "name" .string .optional, .convert "Count" "copies" .uint .optional,
      .ignore "Type"]
    let defaults : Arguments := OrderedMap.ofList [("name", .string "x"), ("count", .uint 1)]
    let document : Json := .obj [("Stray", .bool true), ("Filter_Name", .str "F"),
      ("Count", .int 7)]
    let args : Arguments := OrderedMap.ofList [("name", .string "x"), ("count", .uint 7),
      ("copies", .uint 7)]
    (importBy rules defaults document).value? = some args ∧
      args.keys = ["name", "count", "copies"] ∧ args.get? "name" = some (.string "x") ∧
      (∀ rule ∈ rules, rule.Succeeds document) ∧
      (importBy rules defaults document).warnings =
        [(Notice.keepsDefault "Name" "name").warning, (Notice.leftOver "Stray").warning] ∧
      importBy rules defaults (.arr [document]) = .fail Notice.notAnObject.failure := by
  intro rules defaults document args
  obtain ⟨hvalid, hargs, -, hnotices, -⟩ := import_accumulates rules defaults document
  have hvalue : (importBy rules defaults document).value? = some args := by decide +kernel
  obtain ⟨-, hkeys, hget⟩ := hargs args hvalue
  have hsucceed := (hvalid.mp (by rw [Report.isValid, hvalue]; rfl)).2
  obtain ⟨-, hwarnings⟩ := hnotices _ rfl
  have hlist := (import_accumulates rules defaults (.arr [document])).2.2.2.2 fun fields => nofun
  refine ⟨hvalue, ?_, ?_, hsucceed, ?_, hlist⟩
  · rw [hkeys]
    decide +kernel
  · rw [hget]
    decide +kernel
  · rw [hwarnings]
    decide +kernel

end Legacy

end FilterTree
