import FilterTree.Proofs.ArgumentJson
import FilterTree.Proofs.Imported

/-!
# What was imported can be written down, but for its names

An older document keeps a path as a record of names, and the names are taken as
they are. The JSON of the imported arguments keeps it as one text, which is read
with care. Everything else survives that way: integers were cut to 64 bits when
they were imported. So the arguments read back exactly when every name is one
that an object may have. A blank name is refused when it is read back, and a
name with a separator in it turns into two.
-/

namespace FilterTree

namespace Legacy

variable {c : Converter} {j : Json} {value : Argument}

theorem expect_eq_ok {α : Type} {wanted : String} {read : Json → Option α} {a : α}
    (h : expect wanted read j = .ok a) : read j = some a := by
  rw [expect] at h
  split at h
  · next hread =>
      cases h
      exact hread
  · cases h

theorem size_lt {n : Nat} (h : size j = .ok n) : n < sizeLimit := by
  obtain ⟨x, -, h⟩ := check_bind_eq_ok.mp h
  split at h
  · cases h
    exact Nat.lt_of_le_of_lt (Nat.min_le_right _ _) (by decide)
  · cases h

theorem sizes_lt {js : List Json} {ns : List Nat} (h : js.mapM size = .ok ns) :
    ns.all (· < sizeLimit) = true := by
  rw [List.all_eq_true]
  intro n hn
  obtain ⟨i, hi, rfl⟩ := List.mem_iff_getElem.mp hn
  have hread := check_mapM_eq_ok.mp h
  exact decide_eq_true (size_lt (hread.get (hread.length_eq.symm ▸ hi) hi))

theorem contains_of_asIntIn? {range : Numeral.IntRange} {i : Int}
    (h : j.asIntIn? range = some i) : range.contains i = true := by
  rw [Json.asIntIn?.eq_def] at h
  split at h
  · exact (Numeral.IntRange.keep?_eq_some_iff.mp h).2 ▸ (Numeral.IntRange.keep?_eq_some_iff.mp h).1
  · cases h

theorem toNat_lt_sizeLimit {i : Int} (h : (Numeral.IntRange.unsigned 64).contains i = true) :
    i.toNat < sizeLimit := by
  obtain ⟨hleast, hgreatest⟩ := Numeral.IntRange.contains_iff.mp h
  have hlimit : i < (sizeLimit : Nat) := Int.lt_of_le_sub_one hgreatest
  exact (Int.toNat_lt hleast).mpr hlimit

/-- Integers are taken from 64 bits or cut to them. -/
theorem Converter.inWords_convert (h : c.convert j = .ok value) : value.inWords = true := by
  cases c with
  | bool | linkedBool =>
      obtain ⟨b, rfl⟩ := convert_truthValue h
      rfl
  | int =>
      obtain ⟨i, hi, rfl⟩ := check_map_eq_ok.mp h
      exact contains_of_asIntIn? (expect_eq_ok hi)
  | uint =>
      obtain ⟨n, hn, rfl⟩ := check_map_eq_ok.mp h
      obtain ⟨i, hi, rfl⟩ := Option.map_eq_some_iff.mp (expect_eq_ok hn)
      exact decide_eq_true (toNat_lt_sizeLimit (contains_of_asIntIn? hi))
  | float | string | linkedName =>
      obtain ⟨a, -, rfl⟩ := check_map_eq_ok.mp h
      rfl
  | arrayPath =>
      obtain ⟨path, rfl⟩ := convert_path (.inl rfl) h
      rfl
  | matrixPath =>
      obtain ⟨path, rfl⟩ := convert_path (.inr (.inl rfl)) h
      rfl
  | containerPath =>
      obtain ⟨path, rfl⟩ := convert_path (.inr (.inr rfl)) h
      rfl
  | arrayPaths =>
      obtain ⟨items, -, h⟩ := check_bind_eq_ok.mp h
      obtain ⟨paths, -, h⟩ := check_bind_eq_ok.mp h
      cases h
      rfl
  | tupleShape =>
      simp only [convert] at h
      split at h
      · obtain ⟨ns, hns, rfl⟩ := check_map_eq_ok.mp h
        exact sizes_lt hns
      · cases h
  | intVector =>
      obtain ⟨js, -, h⟩ := check_bind_eq_ok.mp h
      obtain ⟨ns, hns, h⟩ := check_bind_eq_ok.mp h
      cases h
      exact sizes_lt hns
  | floatVector =>
      obtain ⟨js, -, h⟩ := check_bind_eq_ok.mp h
      obtain ⟨xs, -, h⟩ := check_bind_eq_ok.mp h
      cases h
      rfl
  | scalarType =>
      obtain ⟨index, -, h⟩ := check_bind_eq_ok.mp h
      split at h
      · cases h
        rfl
      · cases h
  | componentCount =>
      obtain ⟨n, hn, rfl⟩ := check_map_eq_ok.mp h
      have hlt := decide_eq_true (size_lt hn)
      exact List.all_eq_true.mpr fun m hm => List.mem_singleton.mp hm ▸ hlt

theorem Puts.inWords {rules : List Rule} {key : String} (h : Puts rules key value) :
    value.inWords = true := by
  obtain ⟨legacyKey, converter, requirement, -, j, hconvert⟩ := h
  exact Converter.inWords_convert hconvert

end Legacy

namespace Builtin

variable {f : Filter} {document : Json} {args : Arguments}

theorem inWords_of_imported (hf : f ∈ filters) (h : (f.importLegacy document).outcome = .ok args) :
    args.InWords := by
  have hdefaults : ∀ f ∈ filters, ∀ e ∈ f.defaults.entries, e.2.inWords = true := by decide
  obtain ⟨rules, himport, hsuits⟩ := imports_of_mem hf
  rw [himport] at h
  obtain ⟨-, hvalues⟩ := Legacy.importBy_spec (keys_of_suits hf hsuits) h
  intro e he
  rcases hvalues e.1 e.2 (OrderedMap.get?_eq_some_iff.mpr he) with hdefault | hputs
  · exact hdefaults f hf _ (OrderedMap.get?_eq_some_iff.mp hdefault)
  · exact hputs.inWords

/--
Arguments that a built-in filter has imported read back from their JSON exactly
when each of their paths reads back from its text, and a path does exactly when
all of its names are valid.
-/
theorem imported_reads_back (hf : f ∈ filters)
    (h : (f.importLegacy document).outcome = .ok args) :
    (Arguments.ofJson? args.toJson = some args ↔
      ∀ p ∈ args.namedPaths, Path.ofText? p.toText = .ok p) ∧
    ∀ p ∈ args.namedPaths, Path.ofText? p.toText = .ok p ↔
      ∀ name ∈ p.names, validName name = true := by
  have hvalid : ∀ p ∈ args.namedPaths, Path.ofText? p.toText = .ok p ↔ p.Valid :=
    fun p _ => Path.ofText?_toText_iff
  refine ⟨?_, hvalid⟩
  rw [forall₂_congr hvalid]
  exact Arguments.ofJson?_toJson (inWords_of_imported hf h)

/-- Three names that are valid, in the convention of an array's path. -/
theorem imported_reads_back_delete :
    let document : Json := .obj [("DataArraysToRemove", .arr [.obj [
      ("Data Container Name", .str "Grid"), ("Attribute Matrix Name", .str "Cell Data"),
      ("Data Array Name", .str "phase")]])]
    let path : Path := ⟨["Grid", "Cell Data", "phase"]⟩
    let args : Arguments := Arguments.none.insert "removed_data_paths" (.paths [path])
    Delete.filter ∈ filters ∧ (Delete.filter.importLegacy document).outcome = .ok args ∧
      Path.ofText? path.toText = .ok path ∧ Arguments.ofJson? args.toJson = some args := by
  intro document path args
  have hmem : Delete.filter ∈ filters := by simp [filters]
  have himport : (Delete.filter.importLegacy document).outcome = .ok args := by decide +kernel
  obtain ⟨hargs, hpaths⟩ := imported_reads_back hmem himport
  have hpath : Path.ofText? path.toText = .ok path :=
    (hpaths path (by decide +kernel)).mpr (by decide +kernel)
  refine ⟨hmem, himport, hpath, hargs.mpr fun p hp => ?_⟩
  rw [show args.namedPaths = [path] from rfl, List.mem_singleton] at hp
  exact hp ▸ hpath

/--
A blank name is imported, and a name with a separator in it is. The text of the
first path is refused when it is read, and that of the second is another path.
-/
theorem imported_name_unchecked :
    let document (name : String) : Json := .obj [("CreatedDataContainer", .str name)]
    let args (name : String) : Arguments :=
      Arguments.none.insert "data_object_path" (.path (.single name))
    (CreateGroup.filter.importLegacy (document " ")).outcome = .ok (args " ") ∧
      Path.ofText? (Path.single " ").toText = .error ⟨" "⟩ ∧
      Arguments.ofJson? (args " ").toJson = none ∧
    (CreateGroup.filter.importLegacy (document "a/b")).outcome = .ok (args "a/b") ∧
      Path.ofText? (Path.single "a/b").toText = .ok ⟨["a", "b"]⟩ ∧
      Arguments.ofJson? (args "a/b").toJson ≠ some (args "a/b") := by
  decide +kernel

end Builtin

end FilterTree
