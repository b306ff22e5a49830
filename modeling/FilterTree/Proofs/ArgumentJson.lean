import FilterTree.Argument
import FilterTree.Proofs.OrderedMap
import FilterTree.Proofs.PathText

/-!
# Which arguments survive their JSON

A value is written with the name of its kind, so kinds that carry the same data
are told apart, and it is read back as what it was if its data is. Data of most
kinds is, without a condition. An integer has to fit into 64 bits, as it does
wherever it comes from, and a path has to be the one its text stands for
(`Argument.ofJson?_toJson`).

Arguments under keys are an object whose fields are in the order of the keys.
Since no key occurs twice, reading puts every value where it was, and arguments
survive exactly when each of their values does.
-/

namespace FilterTree

/-! ## Reading lists -/

theorem mapM_eq_some_iff {α β : Type} {f : α → Option β} {l : List α} {bs : List β} :
    l.mapM f = some bs ↔ List.Forall₂ (fun a b => f a = some b) l bs := by
  induction l generalizing bs with
  | nil =>
      rw [List.forall₂_nil_left_iff]
      exact ⟨fun h => (Option.some.inj h).symm, fun h => h ▸ rfl⟩
  | cons a l ih =>
      rw [List.mapM_cons, List.forall₂_cons_left_iff, Option.bind_eq_bind, Option.bind_eq_some_iff]
      refine exists_congr fun b => ?_
      rw [Option.bind_eq_bind, Option.bind_eq_some_iff, ← exists_and_left]
      refine exists_congr fun bs' => and_congr_right fun _ => and_congr ih ?_
      exact ⟨fun h => (Option.some.inj h).symm, fun h => congrArg _ h.symm⟩

/-- A list that was written item by item reads back when each of its items does. -/
theorem mapM_map_eq_some_iff {α β : Type} {f : α → β} {g : β → Option α} {l : List α} :
    (l.map f).mapM g = some l ↔ ∀ a ∈ l, g (f a) = some a := by
  rw [mapM_eq_some_iff, List.forall₂_map_left_iff, List.forall₂_same]

theorem Numeral.IntRange.contains_iff {r : IntRange} {i : Int} :
    r.contains i = true ↔ r.least ≤ i ∧ i ≤ r.greatest := by
  rw [contains, Bool.and_eq_true, decide_eq_true_iff, decide_eq_true_iff]

theorem Numeral.IntRange.keep?_of_contains {r : IntRange} {i : Int} (h : r.contains i = true) :
    r.keep? i = some i := if_pos h

theorem Numeral.IntRange.keep?_eq_some_iff {r : IntRange} {i k : Int} :
    r.keep? i = some k ↔ r.contains i = true ∧ i = k := by
  rw [keep?, Option.ite_none_right_eq_some, Option.some_inj]

namespace Argument

open Numeral (IntRange)

variable {a : Argument}

/-- Whether the integers of a value fit into 64 bits, as those of a shape and of an index do. -/
def inWords : Argument → Bool
  | int i => (Numeral.IntRange.signed 64).contains i
  | uint n | choice n => n < sizeLimit
  | shape ns | uints ns => ns.all (· < sizeLimit)
  | _ => true

/-- The paths that a value names. -/
def namedPaths : Argument → List Path
  | path p => [p]
  | paths ps => ps
  | _ => []

/-- The numbers with a point that a value holds. -/
def floatValues : Argument → List Float
  | float x => [x]
  | floats xs => xs
  | _ => []

/-! ## Data -/

theorem asSize?_nat {n : Nat} (h : n < sizeLimit) : (Json.nat n).asSize? = some n := by
  have hlimit : (n : Int) < (sizeLimit : Nat) := Int.ofNat_lt.mpr h
  have hin : (Numeral.IntRange.unsigned 64).contains n = true :=
    IntRange.contains_iff.mpr ⟨Int.natCast_nonneg n, Int.le_sub_one_of_lt hlimit⟩
  rw [Json.nat, Json.asSize?, Json.asIntIn?, IntRange.keep?_of_contains hin]
  rfl

theorem asShape?_nats {ns : List Nat} (h : ns.all (· < sizeLimit) = true) :
    (Json.nats ns).asShape? = some ns :=
  mapM_map_eq_some_iff.mpr fun n hn => asSize?_nat (of_decide_eq_true (List.all_eq_true.mp h n hn))

theorem asPath?_path {p : Path} : (Json.path p).asPath? = some p ↔ p.Valid := by
  rw [← Path.ofText?_toText_iff]
  show (Path.ofText? p.toText).toOption = some p ↔ _
  cases Path.ofText? p.toText with
  | error e => exact ⟨fun h => (nomatch h), fun h => (nomatch h)⟩
  | ok q => exact ⟨fun h => congrArg _ (Option.some.inj h), fun h => congrArg _ (Except.ok.inj h)⟩

theorem asElementType?_name (t : ElementType) : (Json.str t.name).asElementType? = some t := by
  cases t <;> rfl

/-- The data of a value is read back as the value exactly when its paths are. -/
theorem ofData?_dataJson (h : a.inWords = true) :
    ofData? a.kindName a.dataJson = some a ↔ ∀ p ∈ a.namedPaths, p.Valid := by
  have hnone : ∀ p ∈ ([] : List Path), p.Valid := fun p hp => nomatch hp
  cases a with
  | bool | float | string => exact iff_of_true rfl hnone
  | int i =>
      refine iff_of_true ?_ hnone
      show ((Numeral.IntRange.signed 64).keep? i).map int = _
      rw [IntRange.keep?_of_contains h]
      rfl
  | uint n =>
      refine iff_of_true ?_ hnone
      exact congrArg (Option.map uint) (asSize?_nat (of_decide_eq_true h))
  | choice n =>
      refine iff_of_true ?_ hnone
      exact congrArg (Option.map choice) (asSize?_nat (of_decide_eq_true h))
  | shape ns => exact iff_of_true (congrArg (Option.map shape) (asShape?_nats h)) hnone
  | uints ns => exact iff_of_true (congrArg (Option.map uints) (asShape?_nats h)) hnone
  | floats xs =>
      refine iff_of_true ?_ hnone
      have hread : (xs.map Json.double).mapM Json.asDouble? = some xs :=
        mapM_map_eq_some_iff.mpr fun _ _ => rfl
      exact congrArg (Option.map floats) hread
  | elementType t =>
      exact iff_of_true (congrArg (Option.map elementType) (asElementType?_name t)) hnone
  | path p =>
      rw [namedPaths, List.forall_mem_singleton, ← asPath?_path]
      show (Json.path p).asPath?.map path = some (path p) ↔ _
      rw [Option.map_eq_some_iff]
      exact ⟨fun ⟨q, hq, heq⟩ => path.inj heq ▸ hq, fun hq => ⟨p, hq, rfl⟩⟩
  | paths ps =>
      rw [namedPaths, ← forall₂_congr fun p _ => asPath?_path, ← mapM_map_eq_some_iff]
      show ((ps.map Json.path).mapM Json.asPath?).map paths = some (paths ps) ↔ _
      rw [Option.map_eq_some_iff]
      exact ⟨fun ⟨qs, hqs, heq⟩ => paths.inj heq ▸ hqs, fun hqs => ⟨ps, hqs, rfl⟩⟩

/-- A value reads back exactly when each of its paths does. -/
theorem ofJson?_toJson (h : a.inWords = true) :
    ofJson? a.toJson = some a ↔ ∀ p ∈ a.namedPaths, p.Valid :=
  ofData?_dataJson h

end Argument

namespace Arguments

variable {args : Arguments}

/-- Whether the integers of all values fit into 64 bits. -/
def InWords (args : Arguments) : Prop := ∀ e ∈ args.entries, e.2.inWords = true

/-- The paths that the values name. -/
def namedPaths (args : Arguments) : List Path := args.values.flatMap Argument.namedPaths

/-- Read one field of the object. -/
def readField (f : String × Json) : Option (String × Argument) :=
  (Argument.ofJson? f.2).bind fun value => some (f.1, value)

theorem ofJson?_obj {fields : List (String × Json)} :
    ofJson? (.obj fields) = (fields.mapM readField).bind fun l => some (OrderedMap.ofList l) := rfl

theorem readField_eq_some_iff {f : String × Json} {e : String × Argument} :
    readField f = some e ↔ f.1 = e.1 ∧ Argument.ofJson? f.2 = some e.2 := by
  obtain ⟨key, value⟩ := e
  rw [readField, Option.bind_eq_some_iff]
  constructor
  · rintro ⟨a, ha, heq⟩
    cases heq
    exact ⟨rfl, ha⟩
  · rintro ⟨rfl, hvalue⟩
    exact ⟨value, hvalue, rfl⟩

/-- Arguments read back exactly when every value does. -/
theorem ofJson?_toJson_iff_forall :
    ofJson? args.toJson = some args ↔
      ∀ e ∈ args.entries, Argument.ofJson? e.2.toJson = some e.2 := by
  have hentries : (args.entries.map fun e => (e.1, e.2.toJson)).mapM readField = some args.entries ↔
      ∀ e ∈ args.entries, Argument.ofJson? e.2.toJson = some e.2 := by
    rw [mapM_map_eq_some_iff]
    exact forall₂_congr fun e _ => readField_eq_some_iff.trans (and_iff_right rfl)
  rw [← hentries, toJson, ofJson?_obj, Option.bind_eq_some_iff]
  constructor
  · rintro ⟨l, hl, hargs⟩
    -- the keys that were read are those that were written, so each of them once
    have hkeys : l.map (·.1) = args.entries.map (·.1) := by
      have hread := mapM_eq_some_iff.mp hl
      rw [List.forall₂_map_left_iff] at hread
      rw [← List.forall₂_eq_eq_eq, List.forall₂_map_left_iff, List.forall₂_map_right_iff]
      exact hread.flip.imp fun b a h => (readField_eq_some_iff.mp h).1.symm
    have hentries := OrderedMap.entries_ofList (hkeys ▸ args.nodup)
    rw [Option.some.inj hargs] at hentries
    exact hentries ▸ hl
  · intro hl
    exact ⟨args.entries, hl, congrArg some OrderedMap.ofList_entries⟩

/-- Arguments read back exactly when each of their paths does. -/
theorem ofJson?_toJson (h : args.InWords) :
    ofJson? args.toJson = some args ↔ ∀ p ∈ args.namedPaths, p.Valid := by
  rw [ofJson?_toJson_iff_forall, forall₂_congr fun e he => Argument.ofJson?_toJson (h e he),
    namedPaths, OrderedMap.values]
  simp only [List.mem_flatMap, List.mem_map]
  constructor
  · rintro hall p ⟨value, ⟨e, he, rfl⟩, hp⟩
    exact hall e he p hp
  · exact fun hall e he p hp => hall p ⟨e.2, ⟨e, he, rfl⟩, hp⟩

end Arguments

end FilterTree
