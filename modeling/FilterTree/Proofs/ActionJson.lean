import FilterTree.Action
import FilterTree.Proofs.Documents

/-!
# Actions and arguments survive JSON

An action is a record that begins with the name of its kind. The names of its other parts are known
from the kind, no two of them are the same and none is the name of the kind's own field, so each
part is found under its name; and the kind decides how the part is read. That payloads look alike
does no harm, nor do the paths, which are texts among texts: nothing is guessed from the form of a
part.

The one thing that a text does not keep is the width of a number. A spacing of 32 bits comes back as
a number of 64, or as an integer, and is rounded again. What is read is therefore not the JSON that
was written, and it is shown for any JSON in which numbers of 32 bits are taken for what they were
(`ofJson?_toJsonWith`): the one that was written, and the one that is found in its text.
-/

namespace FilterTree

open Json (wanted_whole)

/-! ## Records -/

namespace Json

variable {names : List String} {values : List Json}

theorem occurrences_cons {name : String} {f : String × Json} {fields : List (String × Json)} :
    occurrences name (f :: fields) =
      if f.1 = name then f.2 :: occurrences name fields else occurrences name fields := by
  by_cases hf : f.1 = name <;> simp [occurrences, hf]

theorem occurrences_of_not_mem {name : String} {fields : List (String × Json)}
    (h : ∀ f ∈ fields, f.1 ≠ name) : occurrences name fields = [] := by
  rw [occurrences, List.filter_eq_nil_iff.mpr fun f hf => by simpa using h f hf, List.map_nil]

/-- Of names that differ each is the name of one field. -/
theorem occurrences_zip (hnodup : names.Nodup) {name : String} {j : Json}
    (h : (name, j) ∈ names.zip values) : occurrences name (names.zip values) = [j] := by
  induction names generalizing values with
  | nil => nomatch h
  | cons first names ih =>
      obtain ⟨hfirst, hnames⟩ := List.nodup_cons.mp hnodup
      cases values with
      | nil => nomatch h
      | cons value values =>
          have hother : ∀ f ∈ names.zip values, f.1 ≠ first :=
            fun f hf heq => hfirst (heq ▸ (List.of_mem_zip hf).1)
          rw [List.zip_cons_cons] at h ⊢
          rcases List.mem_cons.mp h with heq | hrest
          · cases heq
            rw [occurrences_cons, if_pos rfl, occurrences_of_not_mem hother]
          · rw [occurrences_cons, if_neg (hother _ hrest).symm]
            exact ih hnames hrest

/-- The parts of a record are found under their names. -/
theorem allParts?_zip (hnodup : names.Nodup) (hlength : names.length = values.length) :
    (Json.obj (names.zip values)).allParts? names = some values := by
  have hparts : (Json.obj (names.zip values)).parts? names = some (values.map some) := by
    refine mapM_eq_some_iff.mpr (List.forall₂_map_right_iff.mpr ?_)
    refine List.forall₂_iff_zip.mpr ⟨hlength, fun {name j} hj => ?_⟩
    rw [occurrences_zip hnodup hj]
  rw [allParts?, hparts, Option.bind_eq_bind, Option.bind_some]
  exact mapM_map_eq_some_iff.mpr fun _ _ => rfl

theorem asTripleOf?_map {α : Type} {f : α → Json} {read : Json → Option α} {t : Triple α}
    (h : ∀ a ∈ t.toList, read (f a) = some a) :
    (Json.arr (t.toList.map f)).asTripleOf? read = some t := by
  have hitems : (t.toList.map f).mapM read = some t.toList := mapM_map_eq_some_iff.mpr h
  rw [asTripleOf?, asListOf?, hitems]
  rfl

end Json

/-! ## What an action holds -/

namespace Action

variable {a b : Action} {single : Float32 → Json} {depth : Nat}

/-- The sizes that an action gives. -/
def sizes : Action → List Nat
  | createMatrix _ tuples
  | createList _ _ tuples
  | resizeMatrix _ tuples => tuples
  | createArray _ _ tuples components => tuples ++ components
  | createImage _ dimensions .. => dimensions.toList
  | createVertex _ count .. => [count]
  | createGroup _ | rename .. | move .. | delete _ => []

/-- The paths that an action names. -/
def namedPaths : Action → List Path
  | move path newParent => [path, newParent]
  | a => [a.target]

/-- The numbers of 32 bits that an action holds. -/
def singles : Action → List Float32
  | createImage _ _ spacing origin _ => spacing.toList ++ origin.toList
  | _ => []

/-- What can be written down of an action: sizes of 64 bits and paths with valid names. -/
structure Writable (a : Action) : Prop where
  sizes : ∀ n ∈ a.sizes, n < sizeLimit
  valid : ∀ p ∈ a.namedPaths, p.Valid

instance : Decidable a.Writable :=
  decidable_of_iff ((∀ n ∈ a.sizes, n < sizeLimit) ∧ ∀ p ∈ a.namedPaths, p.Valid)
    ⟨fun h => ⟨h.1, h.2⟩, fun h => ⟨h.1, h.2⟩⟩

/-! ## Records of actions -/

/-- The parts of an action, with any JSON for its numbers of 32 bits. -/
def partValuesWith (single : Float32 → Json) : Action → List Json
  | createImage path dimensions spacing origin cellDataName =>
    [.path path, .nats dimensions.toList, .arr (spacing.toList.map single),
      .arr (origin.toList.map single), .str cellDataName]
  | a => a.partValues

/-- The names of the parts of an action. -/
def partNames (a : Action) : List String := (layout.lookup a.kindName).getD []

/-- An action as a record, with any JSON for its numbers of 32 bits. -/
def toJsonWith (single : Float32 → Json) (a : Action) : Json :=
  .obj (("type", .str a.kindName) :: a.partNames.zip (a.partValuesWith single))

theorem toJsonWith_single : a.toJsonWith .single = a.toJson := by
  cases a <;> rfl

theorem lookup_kindName : layout.lookup a.kindName = some a.partNames := by
  cases a <;> rfl

theorem nodup_partNames : ("type" :: a.partNames).Nodup := by
  cases a <;> exact of_decide_eq_true rfl

theorem length_partValuesWith : a.partNames.length = (a.partValuesWith single).length := by
  cases a <;> rfl

/-- The parts of an action are read as the action. -/
theorem ofParts?_partValuesWith (h : a.Writable)
    (hsingle : ∀ x ∈ a.singles, (single x).asSingle? = some x) :
    ofParts? a.kindName (a.partValuesWith single) = some a := by
  have hpath : ∀ p ∈ a.namedPaths, (Json.path p).asPath? = some p :=
    fun p hp => Argument.asPath?_path.mpr (h.valid p hp)
  have hsize : ∀ n ∈ a.sizes, (Json.nat n).asSize? = some n :=
    fun n hn => Argument.asSize?_nat (h.sizes n hn)
  have hshape : ∀ ns ⊆ a.sizes, (Json.nats ns).asShape? = some ns :=
    fun ns hns => mapM_map_eq_some_iff.mpr fun n hn => hsize n (hns hn)
  have htype (type : ElementType) : (Json.str type.name).heldBack.asElementType? = some type :=
    Argument.asElementType?_name type
  cases a with
  | createGroup path | delete path =>
      have hp := hpath path List.mem_cons_self
      simp [kindName, partValuesWith, partValues, ofParts?, hp]
  | createMatrix path tuples | resizeMatrix path tuples =>
      have hp := hpath path List.mem_cons_self
      have hns := hshape tuples (List.Subset.refl _)
      simp [kindName, partValuesWith, partValues, ofParts?, hp, hns]
  | createArray path type tuples components =>
      have hp := hpath path List.mem_cons_self
      have hns := hshape tuples (List.subset_append_left _ _)
      have hcs := hshape components (List.subset_append_right _ _)
      simp [kindName, partValuesWith, partValues, ofParts?, hp, hns, hcs, htype]
  | createList path type tuples =>
      have hp := hpath path List.mem_cons_self
      have hns := hshape tuples (List.Subset.refl _)
      simp [kindName, partValuesWith, partValues, ofParts?, hp, hns, htype]
  | createImage path dimensions spacing origin cellDataName =>
      have hp := hpath path List.mem_cons_self
      have hds : (Json.nats dimensions.toList).asTripleOf? Json.asSize? = some dimensions :=
        Json.asTripleOf?_map hsize
      have hss : (Json.arr (spacing.toList.map single)).asTripleOf? Json.asSingle? = some spacing :=
        Json.asTripleOf?_map fun x hx => hsingle x (List.mem_append_left _ hx)
      have hos : (Json.arr (origin.toList.map single)).asTripleOf? Json.asSingle? = some origin :=
        Json.asTripleOf?_map fun x hx => hsingle x (List.mem_append_right _ hx)
      simp [kindName, partValuesWith, ofParts?, hp, hds, hss, hos, Json.asString?]
  | createVertex path count vertexDataName coordinatesName =>
      have hp := hpath path List.mem_cons_self
      have hn := hsize count List.mem_cons_self
      simp [kindName, partValuesWith, partValues, ofParts?, hp, hn, Json.asString?]
  | rename path name =>
      have hp := hpath path List.mem_cons_self
      simp [kindName, partValuesWith, partValues, ofParts?, hp, Json.asString?]
  | move path newParent =>
      have hp := hpath path List.mem_cons_self
      have hq := hpath newParent (List.mem_cons_of_mem _ List.mem_cons_self)
      simp [kindName, partValuesWith, partValues, ofParts?, hp, hq]

/-- A record of an action is read as the action. -/
theorem ofJson?_toJsonWith (h : a.Writable)
    (hsingle : ∀ x ∈ a.singles, (single x).asSingle? = some x) :
    ofJson? (a.toJsonWith single) = some a := by
  obtain ⟨htype, hnodup⟩ := List.nodup_cons.mp (@nodup_partNames a)
  have hother : ∀ f ∈ a.partNames.zip (a.partValuesWith single), f.1 ≠ "type" :=
    fun f hf heq => htype (heq ▸ (List.of_mem_zip hf).1)
  have hkind : Json.occurrences "type"
      (("type", .str a.kindName) :: a.partNames.zip (a.partValuesWith single)) =
        [.str a.kindName] := by
    rw [Json.occurrences_cons, if_pos rfl, Json.occurrences_of_not_mem hother]
  have hrest : (("type", Json.str a.kindName) :: a.partNames.zip (a.partValuesWith single)).filter
      (fun f => f.1 != "type") = a.partNames.zip (a.partValuesWith single) := by
    rw [List.filter_cons_of_neg (by simp), List.filter_eq_self]
    exact fun f hf => bne_iff_ne.mpr (hother f hf)
  rw [toJsonWith, ofJson?]
  simp only [hkind, hrest, Option.bind_eq_bind, Option.bind_some, Json.asString?, lookup_kindName,
    Json.allParts?_zip hnodup length_partValuesWith, ofParts?_partValuesWith h hsingle]

theorem ofJson?_toJson (h : a.Writable) : ofJson? a.toJson = some a := by
  rw [← toJsonWith_single]
  exact ofJson?_toJsonWith h fun _ _ => rfl

/-! ## Texts of actions -/

/-- In the text of an action its parts are found, numbers of 32 bits as what they are read as. -/
theorem reads_partValuesWith (h : a.Writable) (hexact : ∀ x ∈ a.singles, Json.ExactSingle x) :
    List.Forall₂ (Json.Reads (depth + 2) .whole) (a.partValuesWith .single)
      (a.partValuesWith Json.reread) := by
  have hstr {s : String} : Json.Reads (depth + 2) .whole (.str s) (.str s) := .str wanted_whole
  have hnats : ∀ ns ⊆ a.sizes, Json.Reads (depth + 2) .whole (.nats ns) (.nats ns) :=
    fun ns hns => (legible_map fun n hn => legible_nat (h.sizes n (hns hn))).reads
  cases a with
  | createGroup | delete => exact .cons hstr .nil
  | rename | move => exact .cons hstr (.cons hstr .nil)
  | createMatrix | resizeMatrix =>
      exact .cons hstr (.cons (hnats _ (List.Subset.refl _)) .nil)
  | createArray =>
      have htuples := hnats _ (List.subset_append_left _ _)
      have hcomponents := hnats _ (List.subset_append_right _ _)
      exact .cons hstr (.cons hstr (.cons htuples (.cons hcomponents .nil)))
  | createList =>
      exact .cons hstr (.cons hstr (.cons (hnats _ (List.Subset.refl _)) .nil))
  | createVertex =>
      have hcount := h.sizes _ List.mem_cons_self
      exact .cons hstr (.cons (legible_nat hcount).reads (.cons hstr (.cons hstr .nil)))
  | createImage path dimensions spacing origin =>
      have hdimensions := hnats _ (List.Subset.refl _)
      have hsingles : ∀ xs ⊆ spacing.toList ++ origin.toList, Json.Reads (depth + 2) .whole
          (.arr (xs.map .single)) (.arr (xs.map Json.reread)) := fun xs hxs =>
        .arr wanted_whole fun e he =>
          .single wanted_whole (hexact e.1 (hxs (List.fst_mem_of_mem_zipIdx he)))
      have hspacing := hsingles _ (List.subset_append_left _ _)
      have horigin := hsingles _ (List.subset_append_right _ _)
      exact .cons hstr (.cons hdimensions (.cons hspacing (.cons horigin (.cons hstr .nil))))

/-- An action is read from its text, whatever the layout. -/
theorem ofText?_write (h : a.Writable) (hexact : ∀ x ∈ a.singles, Json.ExactSingle x)
    (level : Option Nat) : (Json.ofText? (a.toJson.write level)).bind ofJson? = some a := by
  have hparts : List.Forall₂ (Json.Reads 127 .whole) (.str a.kindName :: a.partValuesWith .single)
      (.str a.kindName :: a.partValuesWith Json.reread) :=
    .cons (.str wanted_whole) (reads_partValuesWith h hexact)
  have hrecord : Json.Reads Json.depthLimit .whole a.toJson (a.toJsonWith Json.reread) := by
    rw [← toJsonWith_single]
    exact .record ("type" :: a.partNames) hparts
  rw [Json.ofText?, hrecord.ofTextFor? level, Option.bind_some]
  exact ofJson?_toJsonWith h hexact

/-- Where an action has the name of its kind, arguments have a record. -/
theorem toJson_ne_arguments {args : Arguments} : a.toJson ≠ args.toJson := by
  intro h
  have hfields := (Json.obj.inj h).symm
  obtain ⟨e, -, -, he, -⟩ := List.map_eq_cons_iff.mp hfields
  exact nomatch congrArg Prod.snd he

end Action

/-! ## What survives -/

/--
Whether values are read back: from the JSON they are saved as, and from every text of it if the
numbers in it are exact. Then different values are saved as different JSON and different texts.
-/
structure Json.Survive {α : Type} (i : Interest) (save : α → Json) (load : Json → Option α)
    (formed exact : α → Prop) : Prop where
  value : ∀ a, formed a → load (save a) = some a
  text : ∀ a, formed a → exact a → ∀ level,
    (Json.ofTextFor? i ((save a).write level)).bind load = some a
  values_apart : ∀ a b, formed a → formed b → a ≠ b → save a ≠ save b
  texts_apart : ∀ a b, formed a → formed b → exact a → exact b → a ≠ b → ∀ level level',
    (save a).write level ≠ (save b).write level'

/-- What can be read back is told apart by what it is read from. -/
theorem Json.Survive.of_read {α : Type} {i : Interest} {save : α → Json} {load : Json → Option α}
    {formed exact : α → Prop} (hvalue : ∀ a, formed a → load (save a) = some a)
    (htext : ∀ a, formed a → exact a → ∀ level,
      (Json.ofTextFor? i ((save a).write level)).bind load = some a) :
    Survive i save load formed exact where
  value := hvalue
  text := htext
  values_apart a b ha hb hne h := by
    have hsame : load (save a) = some b := h ▸ hvalue b hb
    exact hne (Option.some.inj ((hvalue a ha).symm.trans hsame))
  texts_apart a b ha hb hexact hexact' hne level level' h := by
    have hsame : (Json.ofTextFor? i ((save a).write level)).bind load = some b :=
      h ▸ htext b hb hexact' level'
    exact hne (Option.some.inj ((htext a ha hexact level).symm.trans hsame))

/--
Actions survive, and so do arguments with their order: all that is asked is that their integers fit
into 64 bits and that their paths are valid, and of their texts that the numbers with a point are
read as what they were. And no action is saved as arguments are.
-/
theorem saved_and_read :
    Json.Survive .whole Action.toJson Action.ofJson? Action.Writable
      (fun a => ∀ x ∈ a.singles, Json.ExactSingle x) ∧
    Json.Survive (.each Argument.interest) Arguments.toJson Arguments.ofJson?
      (fun args => args.InWords ∧ ∀ p ∈ args.namedPaths, p.Valid)
      (fun args => ∀ e ∈ args.entries, ∀ x ∈ e.2.floatValues, Json.Exact x) ∧
    ∀ (a : Action) (args : Arguments), a.toJson ≠ args.toJson := by
  refine ⟨.of_read (fun a => Action.ofJson?_toJson) fun a => Action.ofText?_write, .of_read ?_ ?_,
    fun a args => Action.toJson_ne_arguments⟩
  · exact fun args hargs => (Arguments.ofJson?_toJson hargs.1).mpr hargs.2
  · intro args ⟨hwords, hvalid⟩ hexact level
    have hwritable : args.Writable := ⟨hwords, hvalid, hexact⟩
    rw [Json.ofTextFor?_write hwritable.legible, Option.bind_some]
    exact (Arguments.ofJson?_toJson hwords).mpr hvalid

/--
A grid with spacings that have no exact binary form, and arguments in which the same numbers are
a shape, a list and a choice.
-/
theorem saved_and_read_grid :
    let p : Path := ⟨["Data", "Grid"]⟩
    let a : Action := .createImage p ⟨4, 3, 2⟩ ⟨0.1, 0.25, 1⟩ ⟨0, -2.5, 1e20⟩ "Cells"
    let b : Action := .createMatrix p [4, 3, 2]
    let args : Arguments := OrderedMap.ofList [("z", .shape [3]), ("a", .uints [3]),
      ("m", .choice 3), ("p", .path p), ("x", .floats [0.1, 1e300])]
    a.Writable ∧ (∀ x ∈ a.singles, Json.ExactSingle x) ∧
      Action.ofJson? a.toJson = some a ∧
      (Json.ofText? a.toJson.pretty).bind Action.ofJson? = some a ∧
      a.toJson ≠ b.toJson ∧
      Arguments.ofJson? args.toJson = some args ∧
      (Json.ofTextFor? (.each Argument.interest) args.toJson.compact).bind Arguments.ofJson? =
        some args := by
  intro p a b args
  have ha : a.Writable := by decide +kernel
  have hb : b.Writable := by decide +kernel
  have hexact : ∀ x ∈ a.singles, Json.ExactSingle x := by decide +kernel
  have hwords : ∀ e ∈ args.entries, e.2.inWords = true := by decide +kernel
  have hargs : args.InWords ∧ ∀ p ∈ args.namedPaths, p.Valid := ⟨hwords, by decide +kernel⟩
  have hexact' : ∀ e ∈ args.entries, ∀ x ∈ e.2.floatValues, Json.Exact x := by decide +kernel
  obtain ⟨hactions, harguments, -⟩ := saved_and_read
  exact ⟨ha, hexact, hactions.value a ha, hactions.text a ha hexact (some 0),
    hactions.values_apart a b ha hb (by decide), harguments.value args hargs,
    harguments.text args hargs hexact' none⟩

end FilterTree
