import FilterTree.Pipeline.Document
import FilterTree.Proofs.ArgumentJson
import FilterTree.Proofs.Builtins
import FilterTree.Proofs.JsonText

/-!
# Documents are saved and loaded without loss

Saving a pipeline stamps every filter with the version of its parameters that is
current, and arguments that are of the current version are not touched by an
upgrade. A pipeline that was loaded therefore loads again from its own document,
whatever upgrades the first time took: what the second load sees is what the
first one left behind. All it needs is that the registry finds the same filters,
and it does, because a filter is found under its own identifier.

That the text of the document reads back is a matter of its parts. Every part is
wanted by the reader of the part, so nothing is passed over, and the record is
nested seven levels deep, far from the limit.
-/

namespace FilterTree

open Numeral (IntRange)
open Json (Legible wanted_whole wanted_record wanted_each)

/-! ## Arguments as text -/

/--
What can be written down without loss: integers of 64 bits, paths with valid
names, and numbers that are read as what they were, which only finite ones are
(`Json.Exact.finite`).
-/
structure Arguments.Writable (args : Arguments) : Prop where
  inWords : args.InWords
  valid : ∀ p ∈ args.namedPaths, p.Valid
  exact : ∀ e ∈ args.entries, ∀ x ∈ e.2.floatValues, Json.Exact x

variable {depth : Nat}

theorem legible_nat {n : Nat} (h : n < sizeLimit) : Legible depth .whole (.nat n) := by
  have hlimit : (n : Int) < (sizeLimit : Nat) := Int.ofNat_lt.mpr h
  refine .int wanted_whole (IntRange.contains_iff.mpr ⟨?_, Int.le_sub_one_of_lt hlimit⟩)
  exact le_trans (by decide) (Int.natCast_nonneg n)

/-- An array is legible when its items are, wherever they stand in it. -/
theorem legible_map {α : Type} {f : α → Json} {as : List α}
    (h : ∀ a ∈ as, Legible (depth + 1) .whole (f a)) :
    Legible (depth + 2) .whole (.arr (as.map f)) := by
  refine .arr wanted_whole fun e he => ?_
  obtain ⟨a, ha, heq⟩ := List.mem_map.mp (List.fst_mem_of_mem_zipIdx he)
  exact heq ▸ h a ha

theorem legible_nats {ns : List Nat} (h : ns.all (· < sizeLimit) = true) :
    Legible (depth + 2) .whole (.nats ns) :=
  legible_map fun n hn => legible_nat (of_decide_eq_true (List.all_eq_true.mp h n hn))

theorem Argument.legible_data {a : Argument} (hwords : a.inWords = true)
    (hfloats : ∀ x ∈ a.floatValues, Json.Exact x) :
    Legible (depth + 2) .whole a.dataJson := by
  cases a with
  | bool => exact .bool wanted_whole
  | int i =>
      obtain ⟨hleast, hgreatest⟩ := IntRange.contains_iff.mp hwords
      exact .int wanted_whole (IntRange.contains_iff.mpr ⟨hleast, hgreatest.trans (by decide)⟩)
  | uint n | choice n => exact legible_nat (of_decide_eq_true hwords)
  | float x => exact .double wanted_whole (hfloats x List.mem_cons_self)
  | string | path | elementType => exact .str wanted_whole
  | paths ps => exact legible_map fun _ _ => .str wanted_whole
  | shape ns | uints ns => exact legible_nats hwords
  | floats xs => exact legible_map fun x hx => .double wanted_whole (hfloats x hx)

theorem Argument.legible {a : Argument} (hwords : a.inWords = true)
    (hfloats : ∀ x ∈ a.floatValues, Json.Exact x) :
    Legible (depth + 3) Argument.interest a.toJson := by
  refine .obj wanted_record fun f hf => ?_
  rcases List.mem_pair.mp hf with rfl | rfl
  · exact .str wanted_whole
  · exact a.legible_data hwords hfloats

theorem Arguments.Writable.legible {args : Arguments} (h : args.Writable) :
    Legible (depth + 4) (.each Argument.interest) args.toJson := by
  refine .obj wanted_each fun f hf => ?_
  obtain ⟨e, he, rfl⟩ := List.mem_map.mp hf
  exact Argument.legible (h.inWords e he) (h.exact e he)

/-! ## Documents as text -/

namespace DocumentEntry

variable {e : DocumentEntry}

/-- What can be written down of an entry. -/
structure Writable (e : DocumentEntry) : Prop where
  version : (IntRange.unsigned 32).contains e.version = true
  arguments : e.arguments.Writable

theorem Writable.legible (h : e.Writable) : Legible (depth + 5) interest e.toJson := by
  refine .obj wanted_record fun f hf => ?_
  simp only [List.mem_cons, List.not_mem_nil, or_false] at hf
  rcases hf with rfl | rfl | rfl | rfl
  · exact .str wanted_whole
  · obtain ⟨hleast, hgreatest⟩ := IntRange.contains_iff.mp h.version
    refine .int wanted_whole (IntRange.contains_iff.mpr ⟨?_, ?_⟩)
    · exact le_trans (by decide) hleast
    · exact hgreatest.trans (by decide)
  · exact h.arguments.legible
  · exact .bool wanted_whole

theorem Writable.ofJson?_toJson (h : e.Writable) : ofJson? e.toJson = some e := by
  have hversion : (Json.nat e.version).asIntIn? (.unsigned 32) = some e.version :=
    IntRange.keep?_of_contains h.version
  have harguments : Arguments.ofJson? e.arguments.toJson = some e.arguments :=
    (Arguments.ofJson?_toJson h.arguments.inWords).mpr h.arguments.valid
  have hparts : e.toJson.parts? ["uuid", "version", "args", "enabled"] =
      some [some (.str e.uuid.toText), some (.nat e.version), some e.arguments.toJson,
        some (.bool e.enabled)] := by
    simp [toJson, Json.parts?, Json.occurrences]
  rw [ofJson?, hparts, Option.bind_eq_bind, Option.bind_some]
  simp only [Json.asString?, Option.bind_eq_bind, Option.bind_some, Uuid.ofText?_toText, partOr,
    hversion, harguments, Json.asBool?]
  rfl

end DocumentEntry

namespace PipelineDocument

variable {d : PipelineDocument} {registry : Registry} {p : Pipeline}

theorem legible (h : ∀ e ∈ d.filters, e.Writable) : Legible (depth + 7) interest d.toJson := by
  refine .obj wanted_record fun f hf => ?_
  rcases List.mem_pair.mp hf with rfl | rfl
  · exact .str wanted_whole
  · refine .arr wanted_each fun e he => ?_
    obtain ⟨entry, hentry, heq⟩ := List.mem_map.mp (List.fst_mem_of_mem_zipIdx he)
    exact heq ▸ (h entry hentry).legible

theorem ofJson?_toJson (h : ∀ e ∈ d.filters, e.Writable) : ofJson? d.toJson = some d := by
  have hfilters : (d.filters.map DocumentEntry.toJson).mapM DocumentEntry.ofJson? =
      some d.filters := mapM_map_eq_some_iff.mpr fun e he => (h e he).ofJson?_toJson
  show ((d.filters.map DocumentEntry.toJson).mapM DocumentEntry.ofJson?).bind
    (fun filters => some (⟨d.name, filters⟩ : PipelineDocument)) = some d
  rw [hfilters]
  rfl

/-- A document reads back from its text. -/
theorem ofText_toText (h : ∀ e ∈ d.filters, e.Writable) : ofText d.toText = .ok d := by
  have htext : Json.ofTextFor? interest d.toText = some d.toJson :=
    Json.ofTextFor?_write (legible h) (some 0)
  rw [ofText, htext, Option.bind_some, ofJson?_toJson h]

end PipelineDocument

/-! ## Finding filters again -/

namespace Registry

variable {r : Registry} {f : Filter} {uuid : Uuid}

theorem find?_of_get (h : r.get uuid = .ok f) : r.find? uuid = some f := by
  rw [get] at h
  split at h
  · next g hg => exact Except.ok.inj h ▸ hg
  · cases h

theorem uuid_of_get (h : r.get uuid = .ok f) : f.uuid = uuid := by
  simpa using List.find?_some (find?_of_get h)

theorem get_of_mem (h : f ∈ r.filters) : r.get f.uuid = .ok f := by
  obtain ⟨g, hg⟩ : ∃ g, r.find? f.uuid = some g :=
    Option.isSome_iff_exists.mp (List.find?_isSome.mpr ⟨f, h, by simp⟩)
  have huuid : g.uuid = f.uuid := by simpa using List.find?_some hg
  rw [get, hg, List.inj_on_of_nodup_map r.uuidsNodup (List.mem_of_find?_eq_some hg) h huuid]

end Registry

namespace Builtin

theorem registry_filters : registry.filters = filters := rfl

theorem get_registry {f : Filter} (hf : f ∈ filters) : registry.get f.uuid = .ok f :=
  Registry.get_of_mem (registry_filters ▸ hf)

theorem contains_version {f : Filter} (hf : f ∈ filters) :
    (IntRange.unsigned 32).contains f.version = true := by
  rcases mem_filters.mp hf with rfl | rfl | rfl | rfl | rfl | rfl | rfl | rfl | rfl <;> decide

end Builtin

/-! ## Loading what was saved -/

theorem Filter.upgrade_version {f : Filter} {args : Arguments} :
    f.upgrade f.version args = .ok args := if_pos rfl

namespace PipelineDocument

variable {d : PipelineDocument} {registry : Registry} {p : Pipeline}

theorem get_of_toNode {index : Nat} {e : DocumentEntry} {node : PipelineNode}
    {warnings : List Warning} (h : toNode registry index e = .ok (node, warnings)) :
    registry.get node.filter.uuid = .ok node.filter := by
  obtain ⟨f, hget, h⟩ := check_bind_eq_ok.mp h
  obtain ⟨args, -, h⟩ := check_bind_eq_ok.mp h
  cases h
  -- it was found under the identifier of the entry, which is its own
  have hf := check_mapError_eq_ok.mp hget
  rwa [Registry.uuid_of_get hf]

/-- A filter that the registry has is loaded from its own entry with the arguments it had. -/
theorem toNode_of_get {index : Nat} {node : PipelineNode}
    (h : registry.get node.filter.uuid = .ok node.filter) :
    toNode registry index ⟨node.filter.uuid, node.filter.version, node.arguments, node.enabled⟩ =
      .ok (node, []) := by
  rw [toNode, h]
  show ((node.filter.upgrade node.filter.version node.arguments).outcome.mapError _ >>= _) = _
  rw [Filter.upgrade_version]
  rfl

theorem toPipeline_ofPipeline
    (h : ∀ node ∈ p.nodes, registry.get node.filter.uuid = .ok node.filter) :
    (ofPipeline p).toPipeline registry = .ok ({ p with audited := false }, []) := by
  have hnodes : (ofPipeline p).filters.zipIdx.mapM (fun e => toNode registry e.2 e.1) =
      .ok (p.nodes.zipIdx.map fun e => (e.1, [])) := by
    rw [check_mapM_eq_ok, ofPipeline, List.zipIdx_map, List.forall₂_map_left_iff,
      List.forall₂_map_right_iff, List.forall₂_same]
    exact fun e he => toNode_of_get (h e.1 (List.fst_mem_of_mem_zipIdx he))
  have hpipeline : (p.nodes.zipIdx.map fun e => (e.1, ([] : List Warning))).map Prod.fst =
      p.nodes := by
    rw [List.map_map]
    exact List.zipIdx_map_fst 0 p.nodes
  refine check_bind_eq_ok.mpr ⟨_, hnodes, ?_⟩
  rw [hpipeline, List.flatMap_map, List.flatMap_eq_nil_iff.mpr fun _ _ => rfl]
  rfl

/-- The registry from which a pipeline was loaded finds its filters again. -/
theorem get_of_toPipeline {warnings : List Warning}
    (h : d.toPipeline registry = .ok (p, warnings)) :
    ∀ node ∈ p.nodes, registry.get node.filter.uuid = .ok node.filter := by
  obtain ⟨nodes, hnodes, heq⟩ := check_bind_eq_ok.mp h
  have hfound : ∀ n ∈ nodes, registry.get n.1.filter.uuid = .ok n.1.filter :=
    ((List.forall₂_and_left _ _).mp ((check_mapM_eq_ok.mp hnodes).flip.imp fun _ _ hnode =>
      ⟨get_of_toNode hnode, hnode⟩)).1
  cases heq
  exact List.forall_mem_map.mpr hfound

/--
Loading gives a pipeline that its own document stands for. Written as a text and
read again, the document of a pipeline of built-in filters is the same document,
and loading it gives the pipeline without a warning: its name, and its filters in
order with their arguments in order. And whatever document a pipeline was loaded
from, with whatever upgrades, its own document loads it again without a warning.
-/
theorem document_round_trip :
    (∀ p : Pipeline, (∀ node ∈ p.nodes, node.filter ∈ Builtin.filters ∧ node.arguments.Writable) →
      ofText (ofPipeline p).toText = .ok (ofPipeline p) ∧
      (ofPipeline p).toPipeline Builtin.registry = .ok ({ p with audited := false }, [])) ∧
    ∀ (registry : Registry) (d : PipelineDocument) (p : Pipeline) (warnings : List Warning),
      d.toPipeline registry = .ok (p, warnings) →
      (ofPipeline p).toPipeline registry = .ok (p, []) := by
  constructor
  · intro p hp
    refine ⟨ofText_toText fun e he => ?_, toPipeline_ofPipeline fun node hnode => ?_⟩
    · obtain ⟨node, hnode, rfl⟩ := List.mem_map.mp he
      exact ⟨Builtin.contains_version (hp node hnode).1, (hp node hnode).2⟩
    · exact Builtin.get_registry (hp node hnode).1
  · intro registry d p warnings h
    have haudited : p.audited = false := by
      obtain ⟨nodes, -, heq⟩ := check_bind_eq_ok.mp h
      cases heq
      rfl
    rw [toPipeline_ofPipeline (get_of_toPipeline h), ← haudited]

/-- A number of components of version 1 becomes a shape once, and is saved as one. -/
theorem document_round_trip_upgraded :
    let args := Arguments.none.insert Builtin.CreateArray.outputKey (.path (.single "Phases"))
    let upgraded : Arguments := args.insert Builtin.CreateArray.componentsKey (.shape [3])
    let old : PipelineDocument := ⟨"Phases", [⟨Builtin.CreateArray.filter.uuid, 1,
      args.insert Builtin.CreateArray.componentCountKey (.uint 3), true⟩]⟩
    let p : Pipeline := ⟨"Phases", [⟨Builtin.CreateArray.filter, upgraded, true⟩], false⟩
    old.toPipeline Builtin.registry = .ok (p, [Builtin.CreateArray.upgradedCount 3]) ∧
      (∀ node ∈ p.nodes, node.filter ∈ Builtin.filters ∧ node.arguments.Writable) ∧
      ofText (ofPipeline p).toText = .ok (ofPipeline p) ∧
      (ofPipeline p).toPipeline Builtin.registry = .ok (p, []) := by
  intro args upgraded old p
  have hload : old.toPipeline Builtin.registry = .ok (p, [Builtin.CreateArray.upgradedCount 3]) :=
    rfl
  have hwritable : upgraded.Writable := by
    refine ⟨?_, by decide +kernel, ?_⟩
    · exact List.forall_mem_cons.mpr ⟨rfl, List.forall_mem_singleton.mpr rfl⟩
    · exact List.forall_mem_cons.mpr ⟨nofun, List.forall_mem_singleton.mpr nofun⟩
  have hnodes : ∀ node ∈ p.nodes, node.filter ∈ Builtin.filters ∧ node.arguments.Writable :=
    List.forall_mem_singleton.mpr ⟨by simp [Builtin.filters], hwritable⟩
  have hagain := document_round_trip.2 Builtin.registry old p _ hload
  exact ⟨hload, hnodes, (document_round_trip.1 p hnodes).1, hagain⟩

end PipelineDocument

end FilterTree
