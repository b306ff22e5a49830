import FilterTree.Path
import FilterTree.Proofs.Checks
import Mathlib.Data.List.Find

/-!
# Which paths their texts stand for

The text of a path is its names with separators between them, and reading a text
cuts it at every separator. The two undo each other because a valid name has no
separator in it, and the root is told from a path of one name because a valid
name is not empty. Reading checks the names on its own account, so a path with a
name that is not valid never reads back: validity of the names is not only
enough but needed.

The other way round the text of what was read is the text itself, since joining pieces undoes
cutting them. No piece has a separator in it, so the only way for a piece not to be a name is to be
empty or to consist of blanks, and the first such piece is the one that is reported.
-/

namespace FilterTree

theorem validName_iff {name : String} :
    validName name = true ↔ Text.isAllBlank name = false ∧ separator ∉ name.toList := by
  simp [validName]

theorem checkName_eq_ok {name : String} : checkName name = .ok () ↔ validName name = true := by
  rw [checkName]
  split
  · next h => exact ⟨fun _ => h, fun _ => rfl⟩
  · next h => exact ⟨fun hok => (nomatch hok), fun hvalid => absurd hvalid h⟩

namespace Path

variable {p : Path} {s : String}

/-- Every name may name an object. -/
def Valid (p : Path) : Prop := ∀ name ∈ p.names, validName name = true

instance : Decidable p.Valid := inferInstanceAs (Decidable (∀ name ∈ p.names, _))

theorem pieces_eq_splitOn (cs : List Char) : pieces cs = cs.splitOn separator := by
  induction cs with
  | nil => rfl
  | cons c cs ih =>
      rw [pieces, ih, List.splitOn_cons_eq_if_modifyHead]
      by_cases hc : c = separator
      · rw [if_pos hc, if_pos (beq_iff_eq.mpr hc)]
      · rw [if_neg hc, if_neg (mt beq_iff_eq.mp hc)]
        cases hrest : cs.splitOn separator with
        | nil => exact absurd hrest (List.splitOn_ne_nil _ _)
        | cons piece rest => rfl

theorem ofNames?_eq_ok {names : List String} :
    ofNames? names = .ok p ↔ p.Valid ∧ p = ⟨names⟩ := by
  rw [ofNames?, check_then_eq_ok, check_forM_eq_ok]
  simp only [checkName_eq_ok]
  constructor
  · rintro ⟨hvalid, hp⟩
    cases hp
    exact ⟨hvalid, rfl⟩
  · rintro ⟨hvalid, rfl⟩
    exact ⟨hvalid, rfl⟩

/-- What is read has names that are valid, whatever the text. -/
theorem valid_of_ofText? (h : ofText? s = .ok p) : p.Valid := by
  rw [ofText?] at h
  split at h
  · cases h
    exact fun name hname => nomatch hname
  · exact (ofNames?_eq_ok.mp h).1

theorem pieces_toText (h : p.Valid) (hne : p.names ≠ []) :
    pieces p.toText.toList = p.names.map String.toList := by
  have hnone : ∀ piece ∈ p.names.map String.toList, separator ∉ piece := by
    intro piece hpiece
    obtain ⟨name, hname, rfl⟩ := List.mem_map.mp hpiece
    exact (validName_iff.mp (h name hname)).2
  have htext : p.toText.toList = [separator].intercalate (p.names.map String.toList) :=
    String.toList_intercalate
  rw [pieces_eq_splitOn, htext, List.splitOn_intercalate _ hnone (by simpa using hne)]

theorem ofText?_toText (h : p.Valid) : ofText? p.toText = .ok p := by
  by_cases hne : p.names = []
  · obtain ⟨names⟩ := p
    subst hne
    rfl
  · have hpieces := pieces_toText h hne
    have htext : p.toText.isEmpty = false := by
      by_contra hempty
      rw [Bool.not_eq_false, String.isEmpty_iff] at hempty
      -- the only piece of the empty text is no name
      rw [hempty] at hpieces
      have hname : "" ∈ p.names := by
        have hmem : [] ∈ p.names.map String.toList := hpieces ▸ List.mem_singleton_self _
        obtain ⟨name, hname, hnil⟩ := List.mem_map.mp hmem
        rwa [String.toList_eq_nil_iff.mp hnil] at hname
      exact absurd (h "" hname) (by decide)
    rw [ofText?, htext, if_neg Bool.false_ne_true, hpieces, ofNames?_eq_ok]
    exact ⟨h, by simp⟩

/-- A path reads back exactly when its names are valid. -/
theorem ofText?_toText_iff : ofText? p.toText = .ok p ↔ p.Valid :=
  ⟨valid_of_ofText?, ofText?_toText⟩

/-! ## Reading any text -/

theorem separator_not_mem {cs piece : List Char} (h : piece ∈ pieces cs) : separator ∉ piece := by
  induction cs generalizing piece with
  | nil =>
      rw [pieces, List.mem_singleton] at h
      exact h ▸ List.not_mem_nil
  | cons c cs ih =>
      rw [pieces] at h
      split at h
      · rcases List.mem_cons.mp h with rfl | hrest
        · exact List.not_mem_nil
        · exact ih hrest
      · next hc =>
          split at h
          · rw [List.mem_singleton] at h
            exact h ▸ fun hmem => hc (List.mem_singleton.mp hmem).symm
          · next first rest hpieces =>
              rw [hpieces] at ih
              rcases List.mem_cons.mp h with rfl | hrest
              · rw [List.mem_cons, not_or]
                exact ⟨fun heq => hc heq.symm, ih List.mem_cons_self⟩
              · exact ih (List.mem_cons_of_mem first hrest)

/-- A piece of a text is a name unless there is nothing in it but blanks. -/
theorem validName_piece {cs piece : List Char} (h : piece ∈ pieces cs) :
    validName (String.ofList piece) = !piece.all Text.isBlank := by
  have hnone : piece.contains separator = false := by
    rw [List.contains_eq_mem]
    exact decide_eq_false (separator_not_mem h)
  rw [validName, Text.isAllBlank, String.toList_ofList, hnone, Bool.not_false, Bool.and_true]

theorem forM_checkName (names : List String) :
    names.forM checkName =
      match names.find? fun name => !validName name with
      | some name => .error ⟨name⟩
      | none => .ok () := by
  induction names with
  | nil => rfl
  | cons name names ih =>
      rw [List.find?_cons, show (name :: names).forM checkName =
        (checkName name >>= fun _ => names.forM checkName) from rfl, checkName]
      cases hvalid : validName name with
      | true => exact ih
      | false => rfl

theorem ofNames?_eq_error {names : List String} {e : InvalidName} :
    ofNames? names = .error e ↔ (names.find? fun name => !validName name) = some e.name := by
  rw [ofNames?, forM_checkName]
  cases names.find? fun name => !validName name with
  | none => exact ⟨fun h => (nomatch h), fun h => (nomatch h)⟩
  | some name =>
      constructor
      · intro h
        cases h
        rfl
      · intro h
        cases e
        cases h
        rfl

/-- The text of what was read is the text that was read. -/
theorem toText_of_ofText? (h : ofText? s = .ok p) : p.toText = s := by
  rw [ofText?] at h
  split at h
  · next hempty =>
      cases h
      exact (String.isEmpty_iff.mp hempty).symm
  · obtain ⟨-, rfl⟩ := ofNames?_eq_ok.mp h
    apply String.toList_injective
    rw [toText, String.toList_intercalate, List.map_map,
      show String.toList ∘ String.ofList = id from funext fun _ => String.toList_ofList,
      List.map_id, pieces_eq_splitOn]
    exact List.intercalate_splitOn separator

/-- A text is refused for the first of its pieces that is nothing but blanks. -/
theorem ofText?_eq_error {e : InvalidName} :
    ofText? s = .error e ↔ s ≠ "" ∧ ∃ piece,
      ((s.toList.splitOn separator).find? fun piece => piece.all Text.isBlank) = some piece ∧
        e = ⟨String.ofList piece⟩ := by
  have hbad : ∀ piece ∈ pieces s.toList,
      ((fun name => !validName name) ∘ String.ofList) piece = piece.all Text.isBlank := by
    intro piece hpiece
    rw [Function.comp_apply, validName_piece hpiece, Bool.not_not]
  rw [ofText?, ← pieces_eq_splitOn]
  split
  · next hempty =>
      exact iff_of_false (fun h => nomatch h) fun h => h.1 (String.isEmpty_iff.mp hempty)
  · next hne =>
      rw [ofNames?_eq_error, List.find?_map, List.find?_congr hbad, Option.map_eq_some_iff,
        and_iff_right (fun h => hne (String.isEmpty_iff.mpr h))]
      refine exists_congr fun piece => and_congr_right fun _ => ⟨fun h => ?_, fun h => ?_⟩
      · cases e
        cases h
        rfl
      · rw [h]

theorem toText_injective {q : Path} (hp : p.Valid) (hq : q.Valid) (h : p.toText = q.toText) :
    p = q := by
  have hread := ofText?_toText hp
  rw [h, ofText?_toText hq] at hread
  exact (Except.ok.inj hread).symm

/-- Names are accepted exactly if they are the names of a path that can be read from a text. -/
theorem ofNames?_eq_ok_iff_text {names : List String} :
    ofNames? names = .ok p ↔ p.names = names ∧ ∃ text, ofText? text = .ok p := by
  rw [ofNames?_eq_ok]
  constructor
  · rintro ⟨hvalid, rfl⟩
    exact ⟨rfl, _, ofText?_toText hvalid⟩
  · rintro ⟨rfl, _, h⟩
    exact ⟨valid_of_ofText? h, rfl⟩

end Path

end FilterTree
