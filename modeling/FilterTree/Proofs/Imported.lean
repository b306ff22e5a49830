import FilterTree.Proofs.Accumulated
import FilterTree.Proofs.OneShot
import FilterTree.Proofs.Typed

/-!
# What was imported has the form of the schema

A filter imports an older document by a table: which key of the document is
converted by which convention to the argument under which key. Two things are
written apart from each other there, the convention and the kind of the
parameter, and nothing compares them at run time. It can be done once and for
all: what form a convention gives is known before there is a document
(`Converter.gives`), and so is every default.

An import never changes which arguments there are. It begins with a value for
each key of the schema, what the rules bind is laid over them
(`eq_insertAll_of_importBy`), and what the document decides is only which values
of that form they are.
-/

namespace FilterTree

/-! ## The form of a value -/

namespace ParameterKind

/-- Whether a value has the length that is declared, or is one of the choices there are. -/
def measured : ParameterKind → Argument → Bool
  | choices cs, .choice i => i < cs.length
  | floats n, .floats xs => xs.length == n
  | uints n, .uints ns => ns.length == n
  | _, _ => true

/-- Whether a value is of the sort that a kind takes, and measured. -/
def formed (kind : ParameterKind) (value : Argument) : Bool :=
  kind.accepts value && kind.measured value

theorem formed_path {kind : ParameterKind} {path : Path} (h : kind.takesPath = true) :
    kind.formed (.path path) = true := by
  cases kind with
  | arraySelection | listSelection | groupSelection | matrixSelection | geometrySelection
  | objectSelection | groupCreation | arrayCreation => rfl
  | _ => cases h

end ParameterKind

/-- A failure that does not say of an argument that it is missing or of another form. -/
def Failure.BeyondForm (f : Failure) : Prop := f.code ∉ ([-201, -202, -204, -208] : List Int)

namespace Parameter

variable {p : Parameter} {value : Argument} {e : ArgumentError}

theorem beyondForm_of_checkName {name : String} (h : p.checkName name = .error e) :
    e.failure.BeyondForm := by
  rw [checkName] at h
  split at h
  · cases h
  · cases h
    simp [Failure.BeyondForm, ArgumentError.failure, ArgumentError.code]

/-- What a value of the right form can still be refused for is what it holds. -/
theorem beyondForm_of_checkValue (hformed : p.kind.formed value = true)
    (h : p.checkValue value = .error e) : e.failure.BeyondForm := by
  obtain ⟨haccepts, hmeasured⟩ := Bool.and_eq_true_iff.mp hformed
  rw [checkValue.eq_def, haccepts, Bool.not_true, if_neg Bool.false_ne_true] at h
  split at h
  case h_1 =>
    dsimp only at h
    split at h
    · cases h
      simp [Failure.BeyondForm, ArgumentError.failure, ArgumentError.code]
    · cases h
  case h_2 hkind =>
    rw [hkind, ParameterKind.measured, decide_eq_true_eq] at hmeasured
    rw [if_pos hmeasured] at h
    cases h
  case h_4 =>
    dsimp only at h
    split at h
    · cases h
      simp [Failure.BeyondForm, ArgumentError.failure, ArgumentError.code]
    · split at h
      · cases h
      · cases h
        simp [Failure.BeyondForm, ArgumentError.failure, ArgumentError.code]
  case h_5 hkind | h_6 hkind =>
    rw [hkind, ParameterKind.measured, beq_iff_eq] at hmeasured
    rw [if_pos hmeasured] at h
    cases h
  case h_3 | h_7 | h_8 => exact beyondForm_of_checkName h
  case h_9 => cases h

theorem Offence.beyondForm {active : Bool} (hformed : p.kind.formed value = true)
    (h : p.Offence (some value) active e) : e.failure.BeyondForm := by
  cases h with
  | unfit hcheck => exact beyondForm_of_checkValue hformed hcheck
  | unacceptable hrefused =>
      exact absurd (Bool.and_eq_true_iff.mp hformed).1 (by rw [hrefused]; exact Bool.false_ne_true)

end Parameter

namespace Schema

variable {s : Schema} {args : Arguments}

/-- The keys of a schema in its order, and under each a value of the form its parameter asks for. -/
structure Formed (s : Schema) (args : Arguments) : Prop where
  keys_eq : args.keys = s.keys
  formed : ∀ p ∈ s.parameters, ∀ value, args.get? p.key = some value → p.kind.formed value = true

theorem Formed.failures_bind (h : s.Formed args) (hkeyed : s.Keyed) :
    ∀ f ∈ (s.bind args).failures, f.BeyondForm := by
  rw [Report.failures]
  cases hout : (s.bind args).outcome with
  | ok bound => exact fun f hf => absurd hf List.not_mem_nil
  | error failures =>
      intro f hf
      obtain ⟨i, hi, rfl⟩ := List.mem_iff_getElem.mp hf
      have hblames := hkeyed.blames_of_bind hout
      have hlt := hblames.length_eq.symm ▸ hi
      obtain ⟨e, hoffence, hfailure⟩ := hblames.get hlt hi
      have hp := (List.mem_filter.mp (List.get_mem _ ⟨i, hlt⟩)).1
      -- nothing is missing
      obtain ⟨value, hvalue⟩ := OrderedMap.mem_keys_iff.mp
        (h.keys_eq ▸ hkeyed.mem_keys_iff.mpr ⟨_, hp, rfl⟩)
      rw [hvalue] at hoffence
      rw [show failures[i] = e.failure from hfailure]
      exact hoffence.beyondForm (h.formed _ hp _ hvalue)

theorem Formed.warnings_bind (h : s.Formed args) (hkeyed : s.Keyed) :
    (s.bind args).warnings = [] := by
  rw [hkeyed.warnings_bind, unknownKeys, h.keys_eq, List.map_eq_nil_iff, List.filter_eq_nil_iff]
  intro key hkey
  rw [contains_params_iff.mpr hkey]
  exact Bool.false_ne_true

end Schema

namespace Legacy

/-! ## What conventions give -/

namespace Converter

/-- Whether a convention gives values of the form that a kind asks for. -/
def gives : Converter → ParameterKind → Bool
  | bool, .bool | linkedBool, .bool => true
  | int, .number .int _ _ | uint, .number .uint _ _ | float, .number .float _ _ => true
  | string, .string | string, .objectName | linkedName, .string | linkedName, .objectName => true
  | arrayPath, kind | matrixPath, kind | containerPath, kind => kind.takesPath
  | arrayPaths, .objectsSelection => true
  | tupleShape, .tupleShape | componentCount, .tupleShape => true
  | intVector, .uints n | floatVector, .floats n => n == 3
  | scalarType, .elementType => true
  | _, _ => false

variable {c : Converter} {kind : ParameterKind} {j : Json} {value : Argument}

theorem length_vector {js : List Json} (h : vector j = .ok js) : js.length = 3 := by
  rw [vector.eq_def] at h
  split at h
  · cases h
    rfl
  · exact (check_mapM_eq_ok.mp h).length_eq.symm
  · cases h

theorem convert_truthValue (h : truthValue j = .ok value) : ∃ b, value = .bool b := by
  rw [truthValue.eq_def] at h
  split at h <;> cases h <;> exact ⟨_, rfl⟩

theorem convert_path (hc : c = arrayPath ∨ c = matrixPath ∨ c = containerPath)
    (h : c.convert j = .ok value) : ∃ path, value = .path path := by
  have hrecord : ∀ {keys}, (recordPath keys j).map Argument.path = .ok value →
      ∃ path, value = .path path := by
    intro keys h
    obtain ⟨path, -, rfl⟩ := check_map_eq_ok.mp h
    exact ⟨path, rfl⟩
  rcases hc with rfl | rfl | rfl
  · exact hrecord h
  · exact hrecord h
  · simp only [convert] at h
    split at h
    · cases h
      exact ⟨_, rfl⟩
    · exact hrecord h
    · cases h

/-- A convention gives what it is said to give. -/
theorem formed_convert (hgives : c.gives kind = true) (h : c.convert j = .ok value) :
    kind.formed value = true := by
  rw [gives.eq_def] at hgives
  split at hgives
  case h_1 | h_2 =>
    obtain ⟨b, rfl⟩ := convert_truthValue h
    rfl
  case h_3 =>
    obtain ⟨i, -, rfl⟩ := check_map_eq_ok.mp h
    rfl
  case h_4 | h_5 | h_6 | h_7 | h_8 | h_9 =>
    obtain ⟨a, -, rfl⟩ := check_map_eq_ok.mp h
    rfl
  case h_10 =>
    obtain ⟨path, rfl⟩ := convert_path (.inl rfl) h
    exact ParameterKind.formed_path hgives
  case h_11 =>
    obtain ⟨path, rfl⟩ := convert_path (.inr (.inl rfl)) h
    exact ParameterKind.formed_path hgives
  case h_12 =>
    obtain ⟨path, rfl⟩ := convert_path (.inr (.inr rfl)) h
    exact ParameterKind.formed_path hgives
  case h_13 =>
    obtain ⟨items, -, h⟩ := check_bind_eq_ok.mp h
    obtain ⟨paths, -, h⟩ := check_bind_eq_ok.mp h
    cases h
    rfl
  case h_14 =>
    simp only [convert] at h
    split at h
    · obtain ⟨ns, -, rfl⟩ := check_map_eq_ok.mp h
      rfl
    · cases h
  case h_15 =>
    obtain ⟨n, -, rfl⟩ := check_map_eq_ok.mp h
    rfl
  case h_16 | h_17 =>
    obtain ⟨js, hvector, h⟩ := check_bind_eq_ok.mp h
    obtain ⟨xs, hxs, h⟩ := check_bind_eq_ok.mp h
    cases h
    have hlength := (check_mapM_eq_ok.mp hxs).length_eq.symm.trans (length_vector hvector)
    rw [beq_iff_eq.mp hgives]
    exact beq_iff_eq.mpr hlength
  case h_18 =>
    obtain ⟨index, -, h⟩ := check_bind_eq_ok.mp h
    split at h
    · cases h
      rfl
    · cases h
  case h_19 => cases hgives

end Converter

/-! ## Tables of rules -/

/-- What the rules of a table can put under a key. -/
def Puts (rules : List Rule) (key : String) (value : Argument) : Prop :=
  ∃ legacyKey converter requirement, .convert legacyKey key converter requirement ∈ rules ∧
    ∃ j, converter.convert j = .ok value

theorem puts_of_binding {rules : List Rule} {document : Json} {e : String × Argument}
    (h : e ∈ rules.filterMap (Rule.binding? document)) : Puts rules e.1 e.2 := by
  obtain ⟨rule, hrule, hbinding⟩ := List.mem_filterMap.mp h
  cases rule with
  | ignore => cases hbinding
  | convert legacyKey key converter requirement =>
      obtain ⟨j, -, hvalue⟩ := Option.bind_eq_some_iff.mp hbinding
      obtain ⟨value, hconverted, heq⟩ := Option.bind_eq_some_iff.mp hvalue
      cases heq
      refine ⟨legacyKey, converter, requirement, hrule, j, ?_⟩
      cases hok : converter.convert j with
      | error => rw [hok] at hconverted; cases hconverted
      | ok argument => rw [hok] at hconverted; exact congrArg _ (Option.some.inj hconverted)

/-- An import has the keys of the defaults; their values are defaults or put there by a rule. -/
theorem importBy_spec {rules : List Rule} {defaults args : Arguments} {document : Json}
    (hrules : ∀ key value, Puts rules key value → key ∈ defaults.keys)
    (h : (importBy rules defaults document).outcome = .ok args) :
    args.keys = defaults.keys ∧
      ∀ key value, args.get? key = some value →
        defaults.get? key = some value ∨ Puts rules key value := by
  have hvalue : (importBy rules defaults document).value? = some args := by
    rw [Report.value?, h]
    rfl
  rw [eq_insertAll_of_importBy hvalue]
  refine ⟨OrderedMap.keys_insertAll_of_mem fun e he => hrules _ _ (puts_of_binding he), ?_⟩
  intro key value hget
  rw [OrderedMap.get?_insertAll, Option.or_eq_some_iff] at hget
  rcases hget with hlast | ⟨-, hdefault⟩
  · obtain ⟨before, after, hbindings, -⟩ := List.lookup_eq_some_iff.mp hlast
    have hmem : (key, value) ∈ (rules.filterMap (Rule.binding? document)).reverse :=
      hbindings ▸ List.mem_append_right _ List.mem_cons_self
    exact .inr (puts_of_binding (List.mem_reverse.mp hmem))
  · exact .inl hdefault

/-- Whether a rule gives values of the form that the parameter under its key asks for. -/
def Rule.suits (s : Schema) : Rule → Bool
  | convert _ key converter _ => (s.params.get? key).any fun p => converter.gives p.kind
  | ignore _ => true

theorem Puts.suits {rules : List Rule} {s : Schema} {key : String} {value : Argument}
    (h : Puts rules key value) (hrules : ∀ rule ∈ rules, rule.suits s = true) :
    ∃ p, s.params.get? key = some p ∧ p.kind.formed value = true := by
  obtain ⟨legacyKey, converter, requirement, hmem, j, hconvert⟩ := h
  obtain ⟨p, hp, hgives⟩ := (Option.any_eq_true _ _).mp (hrules _ hmem)
  exact ⟨p, hp, Converter.formed_convert hgives hconvert⟩

end Legacy

/-! ## The built-in filters -/

namespace Builtin

open Legacy (Rule importBy Puts)

/-- Every built-in filter imports by a table of rules that suit its schema. -/
theorem imports_of_mem {f : Filter} (hf : f ∈ filters) : ∃ rules : List Rule,
    f.importLegacy = importBy rules f.defaults ∧ ∀ rule ∈ rules, rule.suits f.schema = true := by
  rcases mem_filters.mp hf with rfl | rfl | rfl | rfl | rfl | rfl | rfl | rfl | rfl
  · exact ⟨[.convert "CreatedDataContainer" CreateGroup.pathKey .containerPath .required], rfl,
      by decide⟩
  · exact ⟨[.convert "TupleDimensions" CreateMatrix.tuplesKey .tupleShape .optional,
      .convert "CreatedAttributeMatrix" CreateMatrix.pathKey .matrixPath .required,
      .ignore "AttributeMatrixType"], rfl, by decide⟩
  · exact ⟨[.convert "ScalarType" CreateArray.typeKey .scalarType .required,
      .convert "NumberOfComponents" CreateArray.componentsKey .componentCount .optional,
      .convert "NewArray" CreateArray.outputKey .arrayPath .required,
      .convert "InitializationValue" CreateArray.valueKey .string .optional,
      .ignore "InitializationType", .ignore "InitializationRange"], rfl, by decide⟩
  · exact ⟨[.convert "SelectedDataContainer" CreateImage.pathKey .containerPath .required,
      .convert "Dimensions" CreateImage.dimensionsKey .intVector .required,
      .convert "Origin" CreateImage.originKey .floatVector .optional,
      .convert "Spacing" CreateImage.spacingKey .floatVector .optional,
      .convert "ImageCellAttributeMatrixName" CreateImage.cellDataKey .linkedName .optional,
      .ignore "BoxDimensions"], rfl, by decide⟩
  · exact ⟨[.convert "SelectedDataContainerName" Rename.sourceKey .containerPath .required,
      .convert "NewDataContainerName" Rename.nameKey .linkedName .required], rfl, by decide⟩
  · exact ⟨[.convert "DataArraySourcePath" Move.sourcesKey .arrayPaths .required,
      .convert "DataContainerDestinationName" Move.destinationKey .matrixPath .required,
      .ignore "WhatToMove"], rfl, by decide⟩
  · exact ⟨[.convert "DataArraysToRemove" Delete.pathsKey .arrayPaths .required], rfl, by decide⟩
  · exact ⟨[.convert "AttributeMatrixPath" ResizeMatrix.pathKey .matrixPath .required,
      .convert "NewDimensions" ResizeMatrix.tuplesKey .tupleShape .required], rfl, by decide⟩
  · exact ⟨[.convert "FindAvgMisors" Misorientation.averageKey .linkedBool .required,
      .convert "NeighborListArrayPath" Misorientation.neighborsKey .arrayPath .required,
      .convert "AvgQuatsArrayPath" Misorientation.orientationsKey .arrayPath .required,
      .convert "FeaturePhasesArrayPath" Misorientation.phasesKey .arrayPath .required,
      .convert "CrystalStructuresArrayPath" Misorientation.structuresKey .arrayPath .required,
      .convert "MisorientationListArrayName" Misorientation.listNameKey .linkedName .required,
      .convert "AvgMisorientationsArrayName" Misorientation.averageNameKey .linkedName .optional],
      rfl, by decide⟩

theorem formed_default {f : Filter} (hf : f ∈ filters) :
    ∀ p ∈ f.schema.parameters, p.kind.formed p.default = true := by
  have hall : ∀ f ∈ filters, ∀ p ∈ f.schema.parameters, p.kind.formed p.default = true := by decide
  exact hall f hf

/-- Rules that suit the schema put nothing under other keys. -/
theorem keys_of_suits {f : Filter} (hf : f ∈ filters) {rules : List Rule}
    (hsuits : ∀ rule ∈ rules, rule.suits f.schema = true) :
    ∀ key value, Puts rules key value → key ∈ f.defaults.keys := by
  intro key value hputs
  obtain ⟨p, hp, -⟩ := hputs.suits hsuits
  obtain ⟨hkeys, -⟩ := (consistent_of_mem hf).keyed.ofList_spec Parameter.default
  exact hkeys ▸ OrderedMap.mem_keys_iff.mpr ⟨p, hp⟩

theorem formed_of_imported {f : Filter} (hf : f ∈ filters) {document : Json} {args : Arguments}
    (h : (f.importLegacy document).outcome = .ok args) : f.schema.Formed args := by
  have hkeyed := (consistent_of_mem hf).keyed
  obtain ⟨hkeys, hdefaults⟩ := hkeyed.ofList_spec Parameter.default
  obtain ⟨rules, himport, hsuits⟩ := imports_of_mem hf
  rw [himport] at h
  obtain ⟨hsame, hvalues⟩ := Legacy.importBy_spec (keys_of_suits hf hsuits) h
  refine ⟨hsame.trans hkeys, fun p hp value hvalue => ?_⟩
  rcases hvalues p.key value hvalue with hdefault | hputs
  · cases hdefault.symm.trans (hdefaults p hp)
    exact formed_default hf p hp
  · obtain ⟨q, hq, hformed⟩ := hputs.suits hsuits
    -- no other parameter has the key
    obtain ⟨hmem, hkey⟩ := hkeyed.mem_of_get? hq
    obtain rfl := List.inj_on_of_nodup_map hkeyed.nodup_key hmem hp hkey
    exact hformed

/--
Arguments that a built-in filter has imported have the keys of its schema, in
order. Binding them warns of nothing, and if they are refused then neither
because one of them is missing nor because of the sort, the length or the index
of a value.
-/
theorem imported_formed {f : Filter} (hf : f ∈ filters) {document : Json} {args : Arguments}
    (h : (f.importLegacy document).outcome = .ok args) :
    args.keys = f.schema.keys ∧ (f.schema.bind args).warnings = [] ∧
      ∀ code ∈ ([-201, -202, -204, -208] : List Int),
        (f.schema.bind args).hasFailure code = false := by
  have hformed := formed_of_imported hf h
  have hkeyed := (consistent_of_mem hf).keyed
  refine ⟨hformed.keys_eq, hformed.warnings_bind hkeyed, fun code hcode => ?_⟩
  exact Report.hasFailure_eq_false fun f hf heq => hformed.failures_bind hkeyed f hf (heq ▸ hcode)

/-- A new name with a separator in it is imported; it is what it says that is refused. -/
theorem imported_formed_rename :
    let document : Json := .obj [("SelectedDataContainerName", .str "Grid"),
      ("NewDataContainerName", .str "a/b"), ("Filter_Enabled", .bool true)]
    let args := (Arguments.none.insert "source_data_object_path" (.path (.single "Grid"))).insert
      "new_name" (.string "a/b")
    Rename.filter ∈ filters ∧ (Rename.filter.importLegacy document).outcome = .ok args ∧
      args.keys = Rename.schema.keys ∧ (Rename.schema.bind args).warnings = [] ∧
      (∀ code ∈ ([-201, -202, -204, -208] : List Int),
        (Rename.schema.bind args).hasFailure code = false) ∧
      (Rename.schema.bind args).hasFailure (-205) = true := by
  intro document args
  have hmem : Rename.filter ∈ filters := by simp [filters]
  have himport : (Rename.filter.importLegacy document).outcome = .ok args := by decide +kernel
  obtain ⟨hkeys, hwarnings, hfailures⟩ := imported_formed hmem himport
  exact ⟨hmem, himport, hkeys, hwarnings, hfailures, by decide +kernel⟩

end Builtin

end FilterTree
