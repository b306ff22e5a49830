import FilterTree.Numeral.Layout
import FilterTree.Uuid
import Mathlib.Algebra.Ring.Nat

/-!
# Numerals read back

Digits are written by dividing and read by multiplying, least significant digit
last in both, so reading undoes writing one digit at a time: what is read of all
but the last digit is the quotient. Zeros in front change nothing. An identifier
is 32 digits cut into groups, and reading takes the hyphens out again.
-/

namespace FilterTree.Numeral

/-! ## Decimal digits -/

theorem digitsValue_toDigits (n : Nat) : digitsValue (Nat.toDigits 10 n) = n :=
  Nat.ofDigitChars_ten_toDigits

theorem isDigit_toDigits {n : Nat} : ∀ c ∈ Nat.toDigits 10 n, c.isDigit = true :=
  fun _ hc => Nat.isDigit_of_mem_toDigits (by decide) (by decide) hc

/-- No zero stands in front of other digits. -/
theorem head?_toDigits {n : Nat} (h : n ≠ 0) : (Nat.toDigits 10 n).head? ≠ some '0' := by
  induction n using Nat.base_induction 10 (by decide) with
  | single m hm =>
      have hdigits : ∀ m < 10, m ≠ 0 → (Nat.toDigits 10 m).head? ≠ some '0' := by decide
      exact hdigits m hm h
  | digit m k hk hm ih =>
      rw [← Nat.toDigits_append_toDigits (by decide) hm hk]
      obtain ⟨c, cs, hcs⟩ := List.exists_cons_of_ne_nil (Nat.toDigits_ne_nil (n := m) (b := 10))
      rw [hcs] at ih ⊢
      exact ih (by omega)

/-! ## Hexadecimal digits -/

theorem hexValue?_digitChar {d : Nat} (h : d < 16) : hexValue? d.digitChar = some d := by
  have hall : ∀ d < 16, hexValue? (Nat.digitChar d) = some d := by decide
  exact hall d h

theorem hexDigits?_toDigits (n : Nat) : hexDigits? (Nat.toDigits 16 n) = some n := by
  induction n using Nat.base_induction 16 (by decide) with
  | single m hm =>
      rw [Nat.toDigits_of_lt_base hm, hexDigits?]
      simp [hexValue?_digitChar hm]
  | digit m k hk hm ih =>
      rw [← Nat.toDigits_append_toDigits (by decide) hm hk, Nat.toDigits_of_lt_base hk, hexDigits?,
        List.foldlM_append, ← hexDigits?, ih]
      simp [hexValue?_digitChar hk]

theorem hexDigits?_replicate_append {n : Nat} {cs : List Char} :
    hexDigits? (List.replicate n '0' ++ cs) = hexDigits? cs := by
  induction n with
  | zero => rfl
  | succ n ih =>
      rw [List.replicate_succ, List.cons_append, ← ih]
      rfl

theorem hexDigits?_paddedDigits {width n : Nat} :
    hexDigits? (paddedDigits 16 width n).toList = some n := by
  rw [paddedDigits, String.toList_ofList, hexDigits?_replicate_append, hexDigits?_toDigits]

theorem length_paddedDigits {base width n : Nat} (hbase : 1 < base) (hwidth : 0 < width)
    (h : n < base ^ width) : (paddedDigits base width n).toList.length = width := by
  have hle := (Nat.length_toDigits_le_iff hbase hwidth).mpr h
  rw [paddedDigits, String.toList_ofList, List.length_append, List.length_replicate]
  omega

end FilterTree.Numeral

namespace FilterTree.Uuid

/-! ## Identifiers -/

/-- The groups of digits with hyphens between them. -/
def grouped (ns : List Nat) (cs : List Char) : List Char := ['-'].intercalate (split ns cs)

theorem grouped_singleton {n : Nat} {cs : List Char} (h : cs.length = n) :
    grouped [n] cs = cs := by
  simp [grouped, split, ← h]

theorem grouped_cons {n : Nat} {ns : List Nat} {cs : List Char} (h : ns ≠ []) :
    grouped (n :: ns) cs = cs.take n ++ '-' :: grouped ns (cs.drop n) := by
  obtain ⟨m, ns, rfl⟩ := List.exists_cons_of_ne_nil h
  simp [grouped, split]

theorem ungroup?_append {n : Nat} {ns : List Nat} {group rest : List Char}
    (h : group.length = n) (hne : ns ≠ []) :
    ungroup? (n :: ns) (group ++ '-' :: rest) = (ungroup? ns rest).map (group ++ ·) := by
  obtain ⟨m, ns, rfl⟩ := List.exists_cons_of_ne_nil hne
  subst h
  simp [ungroup?]

/-- Taking out the hyphens undoes grouping, and there is one hyphen less than there are groups. -/
theorem grouped_spec {ns : List Nat} {cs : List Char} (hne : ns ≠ []) (h : cs.length = ns.sum) :
    ungroup? ns (grouped ns cs) = some cs ∧
      (grouped ns cs).length + 1 = cs.length + ns.length := by
  induction ns generalizing cs with
  | nil => exact absurd rfl hne
  | cons n ns ih =>
      by_cases hlast : ns = []
      · subst hlast
        have hlength : cs.length = n := by simpa using h
        simp [grouped_singleton hlength, ungroup?, hlength]
      · rw [List.sum_cons] at h
        have htake : (cs.take n).length = n := by rw [List.length_take]; omega
        have hdrop : (cs.drop n).length = ns.sum := by rw [List.length_drop]; omega
        obtain ⟨hungroup, hlength⟩ := ih hlast hdrop
        rw [grouped_cons hlast, ungroup?_append htake hlast, hungroup]
        constructor
        · rw [Option.map_some, List.take_append_drop]
        · simp only [List.length_append, List.length_cons]
          omega

theorem ofText?_of_ungroup? {s : String} {cs : List Char} (hlength : s.toList.length = 36)
    (h : ungroup? groups s.toList = some cs) :
    ofText? s = (Numeral.hexDigits? cs).map ofNat := by
  simp only [ofText?, hlength, h]
  rfl

theorem toList_toText (u : Uuid) :
    u.toText.toList = grouped groups (Numeral.paddedDigits 16 32 u.bits.toNat).toList := by
  have htext : (String.toList ∘ String.ofList) = id := funext fun cs => String.toList_ofList
  rw [toText, String.toList_intercalate, List.map_map, htext, List.map_id]
  rfl

/-- An identifier reads back from its text. -/
theorem ofText?_toText (u : Uuid) : ofText? u.toText = some u := by
  have hlength : (Numeral.paddedDigits 16 32 u.bits.toNat).toList.length = groups.sum :=
    Numeral.length_paddedDigits (by decide) (by decide) u.bits.isLt
  have hne : groups ≠ [] := by decide
  obtain ⟨hungroup, hcount⟩ := grouped_spec hne hlength
  rw [← toList_toText] at hungroup hcount
  rw [hlength, show groups.length = 5 from rfl] at hcount
  rw [ofText?_of_ungroup? (Nat.add_right_cancel hcount) hungroup, Numeral.hexDigits?_paddedDigits,
    Option.map_some, ofNat, BitVec.ofNat_toNat, BitVec.setWidth_eq]

end FilterTree.Uuid
