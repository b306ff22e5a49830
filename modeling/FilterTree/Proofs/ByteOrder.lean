import FilterTree.Path
import Mathlib.Data.String.Basic

/-!
# Paths are in the order of their bytes

Paths are compared name by name, and names character by character. What is
written out is bytes, and there the order is the same: the bytes of a character
are its number in base 64, the most significant digit first, and the first byte
says by its size how many follow. So of two characters the greater one is the
greater already in the first byte that differs, and there is one before either
runs out (`utf8EncodeChar_lt`). Names and paths inherit this from their
characters.
-/

namespace FilterTree

/-! ## The bytes of a character -/

theorem cons_lt_of_digits {a b : Nat} {xs ys : List UInt8} (ha : a < 256) (hb : b < 256)
    (h : a < b ∨ a = b ∧ xs < ys) : UInt8.ofNat a :: xs < UInt8.ofNat b :: ys := by
  rw [List.cons_lt_cons_iff, UInt8.lt_iff_toNat_lt, ← UInt8.toNat_inj, UInt8.toNat_ofNat',
    UInt8.toNat_ofNat', Nat.mod_eq_of_lt ha, Nat.mod_eq_of_lt hb]
  exact h

section digits

variable {v w : Nat} {xs ys : List UInt8}

theorem one_digit_lt (hlt : v < w) (heq : v / 64 = w / 64) :
    UInt8.ofNat (v % 64 + 128) :: xs < UInt8.ofNat (w % 64 + 128) :: ys :=
  cons_lt_of_digits (by omega) (by omega) (.inl (by omega))

theorem two_digits_lt (hlt : v < w) (heq : v / 4096 = w / 4096) :
    UInt8.ofNat (v / 64 % 64 + 128) :: UInt8.ofNat (v % 64 + 128) :: xs <
      UInt8.ofNat (w / 64 % 64 + 128) :: UInt8.ofNat (w % 64 + 128) :: ys := by
  refine cons_lt_of_digits (by omega) (by omega) ?_
  by_cases h : v / 64 = w / 64
  · exact .inr ⟨by rw [h], one_digit_lt hlt h⟩
  · exact .inl (by omega)

theorem three_digits_lt (hlt : v < w) (heq : v / 262144 = w / 262144) :
    UInt8.ofNat (v / 4096 % 64 + 128) :: UInt8.ofNat (v / 64 % 64 + 128) ::
        UInt8.ofNat (v % 64 + 128) :: xs <
      UInt8.ofNat (w / 4096 % 64 + 128) :: UInt8.ofNat (w / 64 % 64 + 128) ::
        UInt8.ofNat (w % 64 + 128) :: ys := by
  refine cons_lt_of_digits (by omega) (by omega) ?_
  by_cases h : v / 4096 = w / 4096
  · exact .inr ⟨by rw [h], two_digits_lt hlt h⟩
  · exact .inl (by omega)

end digits

/-- The bytes of a greater character are greater, whatever follows. -/
theorem utf8EncodeChar_lt {c d : Char} (h : c < d) (xs ys : List UInt8) :
    String.utf8EncodeChar c ++ xs < String.utf8EncodeChar d ++ ys := by
  have hlt : c.val.toNat < d.val.toNat := h
  have hd : d.val.toNat < 1114112 := by
    rcases d.valid with hd | ⟨-, hd⟩ <;> omega
  generalize hv : c.val.toNat = v at hlt
  generalize hw : d.val.toNat = w at hlt hd
  simp only [String.utf8EncodeChar, hv, hw]
  split_ifs <;> simp only [List.cons_append, List.nil_append] <;>
    refine cons_lt_of_digits (by omega) (by omega) ?_
  -- characters of different lengths differ in the first byte, others perhaps later
  any_goals
    left
    omega
  · by_cases heq : v / 64 = w / 64
    · exact .inr ⟨by rw [heq], one_digit_lt hlt heq⟩
    · exact .inl (by omega)
  · by_cases heq : v / 4096 = w / 4096
    · exact .inr ⟨by rw [heq], two_digits_lt hlt heq⟩
    · exact .inl (by omega)
  · by_cases heq : v / 262144 = w / 262144
    · exact .inr ⟨by rw [heq], three_digits_lt hlt heq⟩
    · exact .inl (by omega)

/-! ## Names and paths -/

theorem flatMap_utf8EncodeChar_lt {l m : List Char} (h : l < m) :
    l.flatMap String.utf8EncodeChar < m.flatMap String.utf8EncodeChar := by
  induction l generalizing m with
  | nil =>
      cases m with
      | nil => cases h
      | cons d m =>
          have hpos : 0 < (String.utf8EncodeChar d).length := by
            rw [String.length_utf8EncodeChar]
            exact Char.utf8Size_pos d
          obtain ⟨b, bs, hbytes⟩ := List.exists_cons_of_length_pos hpos
          rw [List.flatMap_cons, hbytes]
          exact List.nil_lt_cons ..
  | cons c l ih =>
      cases m with
      | nil => cases h
      | cons d m =>
          rw [List.flatMap_cons, List.flatMap_cons]
          rcases List.cons_lt_cons_iff.mp h with hcd | ⟨rfl, hlm⟩
          · exact utf8EncodeChar_lt hcd _ _
          · exact List.append_left_lt (ih hlm)

/-- The bytes of a text. -/
def textBytes (s : String) : List UInt8 := s.toUTF8.data.toList

theorem textBytes_eq (s : String) : textBytes s = s.toList.flatMap String.utf8EncodeChar := by
  rw [textBytes, String.toUTF8_eq_toByteArray, ← String.utf8Encode_toList, List.utf8Encode,
    List.data_toByteArray]

theorem textBytes_lt {m n : String} (h : m < n) : textBytes m < textBytes n := by
  rw [textBytes_eq, textBytes_eq]
  exact flatMap_utf8EncodeChar_lt (String.lt_iff_toList_lt.mp h)

/-- One name comes before another exactly when its bytes do. -/
theorem compare_name_eq_lt {m n : String} : compare m n = .lt ↔ textBytes m < textBytes n := by
  rw [compare_lt_iff_lt]
  refine ⟨textBytes_lt, fun h => ?_⟩
  rcases lt_trichotomy m n with hlt | rfl | hgt
  · exact hlt
  · exact absurd h (List.lt_irrefl _)
  · exact absurd h (List.lt_asymm (textBytes_lt hgt))

theorem compare_name_eq_eq {m n : String} : compare m n = .eq ↔ textBytes m = textBytes n := by
  rw [Std.LawfulEqCmp.compare_eq_iff_eq]
  refine ⟨congrArg textBytes, fun h => ?_⟩
  rcases lt_trichotomy m n with hlt | heq | hgt
  · exact absurd (h ▸ textBytes_lt hlt) (List.lt_irrefl _)
  · exact heq
  · exact absurd (h ▸ textBytes_lt hgt) (List.lt_irrefl _)

/-- The bytes of the names of a path. -/
def Path.bytes (p : Path) : List (List UInt8) := p.names.map textBytes

/-- One path comes before another exactly when its bytes do. -/
theorem compare_path_eq_lt {p q : Path} : compare p q = .lt ↔ p.bytes < q.bytes := by
  rw [Path.bytes, Path.bytes]
  show List.compareLex compare p.names q.names = .lt ↔ _
  generalize p.names = xs, q.names = ys
  induction xs generalizing ys with
  | nil =>
      cases ys with
      | nil => simp [List.compareLex]
      | cons y ys => simp [List.compareLex]
  | cons x xs ih =>
      cases ys with
      | nil => simp [List.compareLex]
      | cons y ys =>
          rw [List.compareLex_cons_cons, Ordering.then_eq_lt, compare_name_eq_lt,
            compare_name_eq_eq, ih, List.map_cons, List.map_cons, List.cons_lt_cons_iff]

end FilterTree
