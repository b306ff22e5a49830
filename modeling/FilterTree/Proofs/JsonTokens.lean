import FilterTree.Json.Reader
import FilterTree.Json.Record
import FilterTree.Json.Writer
import FilterTree.Proofs.Digits
import Mathlib.Tactic.FinCases

/-!
# Tokens read back

A token ends where the reader stops, and where it stops depends on what follows.
A string ends at its own quote, but a number goes on as long as there are
digits. What follows a value in a written text is a comma, a closing bracket or
a line break, or nothing at all; none of them belongs to a number, and that is
all a reader of numbers has to know of the rest (`Ended`).
-/

namespace FilterTree.Json

/-! ## Blanks -/

/-- The characters between tokens that mean nothing. -/
def blanks : List Char := [' ', '\n', '\t', '\r']

theorem skipBlanks_eq (cs : List Char) : skipBlanks cs = cs.dropWhile (· ∈ blanks) := by
  simp [skipBlanks, blanks, Bool.or_assoc]

theorem skipBlanks_append {bs cs : List Char} (h : ∀ c ∈ bs, c ∈ blanks) :
    skipBlanks (bs ++ cs) = skipBlanks cs := by
  rw [skipBlanks_eq, skipBlanks_eq, List.dropWhile_append_of_pos (by simpa using h)]

theorem skipBlanks_cons {c : Char} {cs : List Char} (h : c ∉ blanks) :
    skipBlanks (c :: cs) = c :: cs := by
  rw [skipBlanks_eq, List.dropWhile_cons_of_neg (by simpa using h)]

/-- Nothing follows, or one of the characters that stand behind a value. -/
def Ended (rest : List Char) : Prop := ∀ c ∈ rest.head?, c ∈ [',', ']', '\x7d', '\n']

theorem Ended.not_part {rest : List Char} (h : Ended rest) :
    ∀ c ∈ rest.head?, c.isDigit = false ∧ c ∉ ['.', 'e', 'E'] := by
  intro c hc
  have hcases := h c hc
  fin_cases hcases <;> decide

namespace Number

variable {cs rest ds r : List Char} {n : Number}

/-! ## Numbers -/

theorem readDigits_eq_some_iff : readDigits cs = some (ds, r) ↔
    cs = ds ++ r ∧ ds ≠ [] ∧ (∀ c ∈ ds, c.isDigit = true) ∧ ∀ c ∈ r.head?, c.isDigit = false := by
  have hcs : cs.takeWhile Char.isDigit ++ cs.dropWhile Char.isDigit = cs :=
    List.takeWhile_append_dropWhile
  constructor
  · intro h
    rw [readDigits] at h
    split at h
    · cases h
    · next hne =>
        cases h
        refine ⟨hcs.symm, hne, fun c hc => ?_, fun c hc => ?_⟩
        · exact List.all_eq_true.mp List.all_takeWhile c hc
        · rw [Option.mem_def] at hc
          simpa [hc] using List.head?_dropWhile_not Char.isDigit cs
  · rintro ⟨rfl, hne, hdigits, hrest⟩
    have htake : r.takeWhile Char.isDigit = [] ∧ r.dropWhile Char.isDigit = r := by
      cases r with
      | nil => exact ⟨rfl, rfl⟩
      | cons c r => simp [hrest c rfl]
    obtain ⟨d, ds, rfl⟩ := List.exists_cons_of_ne_nil hne
    rw [readDigits, List.takeWhile_append_of_pos hdigits, List.dropWhile_append_of_pos hdigits,
      htake.1, htake.2, List.append_nil]

theorem readDigits_append (h : readDigits cs = some (ds, r)) (hrest : Ended rest) :
    readDigits (cs ++ rest) = some (ds, r ++ rest) := by
  obtain ⟨rfl, hne, hdigits, hr⟩ := readDigits_eq_some_iff.mp h
  refine readDigits_eq_some_iff.mpr ⟨List.append_assoc .., hne, hdigits, fun c hc => ?_⟩
  cases r with
  | nil => exact (hrest.not_part c hc).1
  | cons d r => exact hr c hc

theorem readWhole_append (h : readWhole cs = some (ds, r)) (hrest : Ended rest) :
    readWhole (cs ++ rest) = some (ds, r ++ rest) := by
  obtain ⟨hread, hwhole⟩ := Option.filter_eq_some_iff.mp h
  exact Option.filter_eq_some_iff.mpr ⟨readDigits_append hread hrest, hwhole⟩

theorem readPlaces_append (h : readPlaces cs = some (ds, r)) (hrest : Ended rest) :
    readPlaces (cs ++ rest) = some (ds, r ++ rest) := by
  have hnone : ∀ cs, cs.head? ≠ some '.' → readPlaces cs = some ([], cs) := by
    intro cs hcs
    rw [readPlaces.eq_def]
    split
    · exact absurd rfl hcs
    · rfl
  by_cases hpoint : cs.head? = some '.'
  · cases cs with
    | nil => cases hpoint
    | cons c cs =>
        cases hpoint
        exact readDigits_append h hrest
  · rw [hnone cs hpoint] at h
    cases h
    refine hnone _ fun hhead => ?_
    cases cs with
    | nil => exact (hrest.not_part '.' hhead).2 (by decide)
    | cons c cs => exact hpoint hhead

theorem sign_append {cs : List Char} (h : cs ≠ []) :
    Numeral.sign (cs ++ rest) = ((Numeral.sign cs).1, (Numeral.sign cs).2 ++ rest) := by
  obtain ⟨c, cs, rfl⟩ := List.exists_cons_of_ne_nil h
  rw [Numeral.sign.eq_def, Numeral.sign.eq_def, List.cons_append]
  split <;> split <;> simp_all

theorem readPower_of_mark {c : Char} (hc : c = 'e' ∨ c = 'E') :
    readPower (c :: cs) = (readDigits (Numeral.sign cs).2).map fun read =>
      (some (if (Numeral.sign cs).1 then -(Numeral.digitsValue read.1 : Int)
        else Numeral.digitsValue read.1), read.2) := by
  rw [readPower, if_pos hc]

theorem readPower_of_none (h : ∀ c ∈ cs.head?, ¬(c = 'e' ∨ c = 'E')) :
    readPower cs = some (none, cs) := by
  cases cs with
  | nil => rfl
  | cons c cs => rw [readPower, if_neg (h c rfl)]

theorem readPower_append {power? : Option Int} (h : readPower cs = some (power?, r))
    (hrest : Ended rest) : readPower (cs ++ rest) = some (power?, r ++ rest) := by
  by_cases hmark : ∀ c ∈ cs.head?, ¬(c = 'e' ∨ c = 'E')
  · rw [readPower_of_none hmark] at h
    cases h
    refine readPower_of_none fun c hc => ?_
    cases cs with
    | nil =>
        have hpart := (hrest.not_part c hc).2
        rintro (rfl | rfl)
        · exact hpart (by decide)
        · exact hpart (by decide)
    | cons d cs => exact hmark c hc
  · push Not at hmark
    obtain ⟨c, hhead, hc⟩ := hmark
    obtain ⟨cs, rfl⟩ := List.head?_eq_some_iff.mp hhead
    rw [readPower_of_mark hc] at h
    obtain ⟨⟨digits, r'⟩, hdigits, heq⟩ := Option.map_eq_some_iff.mp h
    have hne : cs ≠ [] := by
      rintro rfl
      cases hdigits
    cases heq
    rw [List.cons_append, readPower_of_mark hc, sign_append hne, readDigits_append hdigits hrest]
    rfl

/-- A number after its sign. -/
def readUnsigned (negative : Bool) (cs : List Char) : Option (Number × List Char) := do
  let (whole, rest) ← readWhole cs
  let (places, rest) ← readPlaces rest
  let (power?, rest) ← readPower rest
  return (⟨negative, whole, places, power?⟩, rest)

/-- The sign of a number and what follows it. -/
def unsign : List Char → Bool × List Char
  | '-' :: rest => (true, rest)
  | cs => (false, cs)

theorem read_eq (cs : List Char) : read cs = readUnsigned (unsign cs).1 (unsign cs).2 := rfl

theorem read_plain (h : cs.head? ≠ some '-') : read cs = readUnsigned false cs := by
  have hsign : unsign cs = (false, cs) := by
    rw [unsign.eq_def]
    split
    · exact absurd rfl h
    · rfl
  rw [read_eq, hsign]

theorem readUnsigned_eq_some_iff {negative : Bool} :
    readUnsigned negative cs = some (n, r) ↔ ∃ whole places power? r₁ r₂,
      readWhole cs = some (whole, r₁) ∧ readPlaces r₁ = some (places, r₂) ∧
        readPower r₂ = some (power?, r) ∧ n = ⟨negative, whole, places, power?⟩ := by
  simp only [readUnsigned, Option.bind_eq_bind, Option.bind_eq_some_iff, Prod.exists]
  constructor
  · rintro ⟨whole, r₁, hwhole, places, r₂, hplaces, power?, r₃, hpower, heq⟩
    cases heq
    exact ⟨whole, places, power?, r₁, r₂, hwhole, hplaces, hpower, rfl⟩
  · rintro ⟨whole, places, power?, r₁, r₂, hwhole, hplaces, hpower, rfl⟩
    exact ⟨whole, r₁, hwhole, places, r₂, hplaces, power?, r, hpower, rfl⟩

theorem readUnsigned_append {negative : Bool} (h : readUnsigned negative cs = some (n, r))
    (hrest : Ended rest) : readUnsigned negative (cs ++ rest) = some (n, r ++ rest) := by
  obtain ⟨whole, places, power?, r₁, r₂, hwhole, hplaces, hpower, rfl⟩ :=
    readUnsigned_eq_some_iff.mp h
  exact readUnsigned_eq_some_iff.mpr ⟨whole, places, power?, r₁ ++ rest, r₂ ++ rest,
    readWhole_append hwhole hrest, readPlaces_append hplaces hrest,
    readPower_append hpower hrest, rfl⟩

theorem head_of_readUnsigned {negative : Bool} (h : readUnsigned negative cs = some (n, r)) :
    ∃ c ∈ cs.head?, c.isDigit = true := by
  obtain ⟨whole, places, power?, r₁, r₂, hwhole, -⟩ := readUnsigned_eq_some_iff.mp h
  obtain ⟨hdigits, -⟩ := Option.filter_eq_some_iff.mp hwhole
  obtain ⟨rfl, hne, hall, -⟩ := readDigits_eq_some_iff.mp hdigits
  obtain ⟨d, ds, rfl⟩ := List.exists_cons_of_ne_nil hne
  exact ⟨d, rfl, hall d List.mem_cons_self⟩

/-- What is read of a number alone is read of it in front of whatever ends it. -/
theorem read_append (h : read cs = some (n, r)) (hrest : Ended rest) :
    read (cs ++ rest) = some (n, r ++ rest) := by
  by_cases hminus : cs.head? = some '-'
  · obtain ⟨cs, rfl⟩ := List.head?_eq_some_iff.mp hminus
    exact readUnsigned_append h hrest
  · rw [read_plain hminus] at h
    obtain ⟨c, hc, -⟩ := head_of_readUnsigned h
    have hhead : (cs ++ rest).head? = cs.head? := by
      obtain ⟨cs, rfl⟩ := List.head?_eq_some_iff.mp hc
      rfl
    rw [read_plain (hhead ▸ hminus)]
    exact readUnsigned_append h hrest

/-- A number begins with its sign or a digit. -/
theorem head_of_read (h : read cs = some (n, r)) : ∃ c ∈ cs.head?, c = '-' ∨ c.isDigit = true := by
  by_cases hminus : cs.head? = some '-'
  · exact ⟨'-', hminus, .inl rfl⟩
  · rw [read_plain hminus] at h
    obtain ⟨c, hc, hdigit⟩ := head_of_readUnsigned h
    exact ⟨c, hc, .inr hdigit⟩

theorem suffix_of_readDigits (h : readDigits cs = some (ds, r)) : r <:+ cs := by
  obtain ⟨rfl, -⟩ := readDigits_eq_some_iff.mp h
  exact List.suffix_append ds r

theorem suffix_of_readPlaces (h : readPlaces cs = some (ds, r)) : r <:+ cs := by
  rw [readPlaces.eq_def] at h
  split at h
  · exact (suffix_of_readDigits h).trans (List.suffix_cons _ _)
  · cases h
    exact List.suffix_rfl

theorem suffix_of_readPower {power? : Option Int} (h : readPower cs = some (power?, r)) :
    r <:+ cs := by
  by_cases hmark : ∀ c ∈ cs.head?, ¬(c = 'e' ∨ c = 'E')
  · rw [readPower_of_none hmark] at h
    cases h
    exact List.suffix_rfl
  · push Not at hmark
    obtain ⟨c, hhead, hc⟩ := hmark
    obtain ⟨cs, rfl⟩ := List.head?_eq_some_iff.mp hhead
    rw [readPower_of_mark hc] at h
    obtain ⟨⟨digits, r'⟩, hdigits, heq⟩ := Option.map_eq_some_iff.mp h
    cases heq
    have hsign : (Numeral.sign cs).2 <:+ cs := by
      rw [Numeral.sign.eq_def]
      split <;> simp
    exact (suffix_of_readDigits hdigits).trans (hsign.trans (List.suffix_cons _ _))

/-- What is left of a text after a number stood in the text. -/
theorem suffix_of_read (h : read cs = some (n, r)) : r <:+ cs := by
  have hunsigned : ∀ {negative cs}, readUnsigned negative cs = some (n, r) → r <:+ cs := by
    intro negative cs h
    obtain ⟨whole, places, power?, r₁, r₂, hwhole, hplaces, hpower, -⟩ :=
      readUnsigned_eq_some_iff.mp h
    obtain ⟨hdigits, -⟩ := Option.filter_eq_some_iff.mp hwhole
    exact (suffix_of_readPower hpower).trans
      ((suffix_of_readPlaces hplaces).trans (suffix_of_readDigits hdigits))
  by_cases hminus : cs.head? = some '-'
  · obtain ⟨cs, rfl⟩ := List.head?_eq_some_iff.mp hminus
    exact (hunsigned h).trans (List.suffix_cons _ _)
  · exact hunsigned (read_plain hminus ▸ h)

/-! ## Integers -/

theorem readUnsigned_toDigits {negative : Bool} (n : Nat) :
    readUnsigned negative (Nat.toDigits 10 n) =
      some (⟨negative, Nat.toDigits 10 n, [], none⟩, []) := by
  have hdigits : readDigits (Nat.toDigits 10 n) = some (Nat.toDigits 10 n, []) :=
    readDigits_eq_some_iff.mpr ⟨(List.append_nil _).symm, Nat.toDigits_ne_nil,
      Numeral.isDigit_toDigits, fun c hc => nomatch hc⟩
  have hwhole : readWhole (Nat.toDigits 10 n) = some (Nat.toDigits 10 n, []) := by
    refine Option.filter_eq_some_iff.mpr ⟨hdigits, ?_⟩
    by_cases hn : n = 0
    · subst hn
      rfl
    · simp [Numeral.head?_toDigits hn]
  exact readUnsigned_eq_some_iff.mpr ⟨_, [], none, [], [], hwhole, rfl, rfl, rfl⟩

/-- An integer of 64 bits, with a sign or without one, reads back. -/
theorem read_intText {i : Int} (h : Numeral.IntRange.wide.contains i = true) :
    ∃ n, read (Numeral.intText i).toList = some (n, []) ∧ n.value? = some (.int i) := by
  have hkeep : Numeral.IntRange.wide.keep? i = some i := if_pos h
  refine ⟨⟨decide (i < 0), Nat.toDigits 10 i.natAbs, [], none⟩, ?_, ?_⟩
  · rw [Numeral.intText, Numeral.natText]
    by_cases hi : i < 0
    · rw [if_pos hi, decide_eq_true hi]
      simp only [String.toList_append, String.toList_ofList]
      exact readUnsigned_toDigits i.natAbs
    · rw [if_neg hi, decide_eq_false hi, String.toList_ofList, read_plain]
      · exact readUnsigned_toDigits i.natAbs
      · intro hhead
        have hdigit := Numeral.isDigit_toDigits '-' (List.mem_of_mem_head? hhead)
        cases hdigit
  · have hvalue : (if i < 0 then -(i.natAbs : Int) else i.natAbs) = i := by split <;> omega
    have hinteger : integer? ⟨decide (i < 0), Nat.toDigits 10 i.natAbs, [], none⟩ = some i := by
      -- minus zero would not be an integer
      have hzero : (decide (i < 0) && ((i.natAbs : Int) == 0)) = false := by
        simp
        omega
      simp only [integer?, Numeral.digitsValue_toDigits, hzero, decide_eq_true_eq, hvalue, hkeep]
      rfl
    rw [value?, hinteger]

end Number

/-! ## Numbers of 64 bits -/

open Numeral

theorem not_blank_of_isDigit {c : Char} (h : c.isDigit = true) : c ∉ blanks := by
  intro hc
  fin_cases hc <;> cases h

theorem not_blank_natText {n : Nat} : ∀ c ∈ (natText n).toList, c ∉ blanks := by
  rw [natText, String.toList_ofList]
  exact fun c hc => not_blank_of_isDigit (isDigit_toDigits c hc)

theorem not_blank_zeros {n : Nat} : ∀ c ∈ List.replicate n '0', c ∉ blanks := by
  intro c hc
  rw [List.eq_of_mem_replicate hc]
  decide

theorem not_blank_of_all {s : String} (h : (s.toList.all fun c => c ∉ blanks) = true) :
    ∀ c ∈ s.toList, c ∉ blanks := fun c hc => of_decide_eq_true (List.all_eq_true.mp h c hc)

theorem not_blank_writePositional {l : Layout} {d : Decimal} :
    ∀ c ∈ (l.writePositional d).toList, c ∉ blanks := by
  have hdigits := @not_blank_natText d.digits
  have htake := fun k c hc => hdigits c (List.mem_of_mem_take (i := k) hc)
  have hdrop := fun k c hc => hdigits c (List.mem_of_mem_drop (i := k) hc)
  rw [Layout.writePositional]
  dsimp only
  split
  · simp only [String.toList_append, String.toList_ofList, List.forall_mem_append]
    refine ⟨⟨hdigits, not_blank_zeros⟩, ?_⟩
    split <;> exact not_blank_of_all rfl
  · split
    · simp only [String.toList_append, String.toList_ofList, List.forall_mem_append]
      exact ⟨⟨not_blank_of_all rfl, not_blank_zeros⟩, hdigits⟩
    · simp only [String.toList_append, String.toList_ofList, List.forall_mem_append]
      exact ⟨⟨htake _, not_blank_of_all rfl⟩, hdrop _⟩

theorem not_blank_intText {i : Int} : ∀ c ∈ (intText i).toList, c ∉ blanks := by
  rw [intText]
  split
  · simp only [String.toList_append, List.forall_mem_append]
    exact ⟨not_blank_of_all rfl, not_blank_natText⟩
  · exact not_blank_natText

theorem not_blank_writeScientific {l : Layout} {d : Decimal} :
    ∀ c ∈ (l.writeScientific d).toList, c ∉ blanks := by
  have hdigits := @not_blank_natText d.digits
  have htake := fun k c hc => hdigits c (List.mem_of_mem_take (i := k) hc)
  have hdrop := fun k c hc => hdigits c (List.mem_of_mem_drop (i := k) hc)
  rw [Layout.writeScientific]
  simp only [String.toList_append, String.toList_ofList, List.forall_mem_append]
  refine ⟨⟨⟨htake 1, ?_⟩, ?_⟩, not_blank_intText⟩
  · split
    · exact not_blank_of_all rfl
    · simp only [String.toList_append, String.toList_ofList, List.forall_mem_append]
      exact ⟨not_blank_of_all rfl, hdrop 1⟩
  · split <;> exact not_blank_of_all rfl

theorem not_blank_write {l : Layout} {f : Format} {d : Datum} :
    ∀ c ∈ (l.write f d).toList, c ∉ blanks := by
  cases d with
  | nan =>
      rw [Layout.write]
      exact not_blank_of_all rfl
  | infinite negative =>
      rw [Layout.write]
      split <;> exact not_blank_of_all rfl
  | finite negative significand exponent =>
      rw [Layout.write]
      simp only [String.toList_append, List.forall_mem_append]
      constructor
      · split <;> exact not_blank_of_all rfl
      · split
        · exact not_blank_writePositional
        · exact not_blank_writeScientific

theorem not_blank_numberText {l : Layout} {f : Format} {d : Datum} :
    ∀ c ∈ (numberText l f d).toList, c ∉ blanks := by
  rw [numberText]
  split
  · exact not_blank_write
  · exact not_blank_of_all rfl

theorem number_of_readValue {fuel depth : Nat} {cs rest : List Char} {j : Json}
    (h : readValue fuel depth .whole cs = some (j, rest)) (hj : j.asSingle?.isSome) :
    ∃ n, Number.read (skipBlanks cs) = some (n, rest) ∧ n.value? = some j := by
  cases fuel with
  | zero => simp [readValue] at h
  | succ fuel =>
      rw [readValue.eq_def] at h
      dsimp only at h
      split at h
      case h_7 =>
        simp only [Option.bind_eq_bind, Option.bind_eq_some_iff, Prod.exists] at h
        obtain ⟨n, r, hread, value, hvalue, heq⟩ := h
        cases heq
        exact ⟨n, hread, hvalue⟩
      case h_2 | h_3 =>
        split at h
        · cases h
        · split at h <;> simp at h <;> grind [asSingle?]
      all_goals
        -- what any other token stands for is no number
        simp at h
        grind [asSingle?]

/-- A text without blanks that is read as a number is one token. -/
theorem number_of_ofText? {text : String} {j : Json} (hblanks : ∀ c ∈ text.toList, c ∉ blanks)
    (h : ofText? text = some j) (hj : j.asSingle?.isSome) :
    ∃ n, Number.read text.toList = some (n, []) ∧ n.value? = some j := by
  have hskip : ∀ cs, (∀ c ∈ cs, c ∉ blanks) → skipBlanks cs = cs := by
    intro cs hcs
    cases cs with
    | nil => rfl
    | cons c cs => exact skipBlanks_cons (hcs c List.mem_cons_self)
  rw [ofText?, ofTextFor?] at h
  split at h
  · next value rest hread =>
      obtain ⟨hend, hvalue⟩ := Option.ite_none_right_eq_some.mp h
      obtain ⟨n, hn, hnumber⟩ := number_of_readValue (Option.some.inj hvalue ▸ hread) hj
      rw [hskip _ hblanks] at hn
      -- what is left is made of blanks, and there are none
      have hrest : ∀ c ∈ rest, c ∉ blanks :=
        fun c hc => hblanks c ((Number.suffix_of_read hn).subset hc)
      rw [hskip rest hrest, List.isEmpty_iff] at hend
      exact ⟨n, hend ▸ hn, hnumber⟩
  · cases h

/-- Whether a number is what its text is read as; the reader does not always take the nearest. -/
def Exact (x : Float) : Prop := ofText? (doubleText x) = some (.double x)

/-- The number of 64 bits that a value is. -/
def double? : Json → Option Float
  | .double x => some x
  | _ => none

theorem exact_iff {x : Float} : Exact x ↔ (ofText? (doubleText x)).bind double? = some x := by
  rw [Exact, Option.bind_eq_some_iff]
  constructor
  · exact fun h => ⟨_, h, rfl⟩
  · rintro ⟨j, hread, hj⟩
    cases j with
    | double => exact Option.some.inj hj ▸ hread
    | _ => cases hj

instance {x : Float} : Decidable (Exact x) := decidable_of_iff' _ exact_iff

theorem Exact.read {x : Float} (h : Exact x) :
    ∃ n, Number.read (doubleText x).toList = some (n, []) ∧ n.value? = some (.double x) :=
  number_of_ofText? not_blank_numberText h rfl

/-- What the text of a number of 32 bits is read as. -/
def reread (x : Float32) : Json := (ofText? (singleText x)).getD .null

/-- Whether a number of 32 bits is taken for what it was after its text was read. -/
def ExactSingle (x : Float32) : Prop := (reread x).asSingle? = some x

instance {x : Float32} : Decidable (ExactSingle x) :=
  inferInstanceAs (Decidable ((reread x).asSingle? = some x))

theorem ExactSingle.read {x : Float32} (h : ExactSingle x) :
    ∃ n, Number.read (singleText x).toList = some (n, []) ∧ n.value? = some (reread x) := by
  rw [ExactSingle, reread] at h
  cases hread : ofText? (singleText x) with
  | none =>
      rw [hread] at h
      cases h
  | some j =>
      rw [hread, Option.getD_some] at h
      rw [reread, hread, Option.getD_some]
      exact number_of_ofText? not_blank_numberText hread (Option.isSome_of_eq_some h)

/-! ## Strings -/

variable {before rest : List Char}

theorem readString_plain {c : Char} (hquote : c ≠ '"') (hescape : c ≠ '\\')
    (hcontrol : isControl c = false) :
    readString before (c :: rest) = readString (c :: before) rest := by
  rw [readString.eq_def]
  split <;> simp_all

theorem readString_simple {e c : Char} (h : simpleEscape? e = some c) :
    readString before ('\\' :: e :: rest) = readString (c :: before) rest := by
  have hunit : e ≠ 'u' := by
    rintro rfl
    cases h
  rw [readString.eq_def]
  split
  case h_1 heq => cases heq
  case h_2 heq => cases heq
  case h_3 heq =>
    cases heq
    exact absurd rfl hunit
  case h_4 heq =>
    cases heq
    simp only [h]
  case h_5 hne heq =>
    cases heq
    exact absurd rfl (hne _ _ rfl)

theorem readString_unit {n : Nat} {a b c d : Char} (h : Numeral.hexDigits? [a, b, c, d] = some n)
    (hn : n < 0xD800) : readString before ('\\' :: 'u' :: a :: b :: c :: d :: rest) =
      readString (Char.ofNat n :: before) rest := by
  have hunit : ofUnit? n = some (Char.ofNat n) := by
    rw [ofUnit?, if_neg (by omega)]
  rw [readString.eq_def]
  simp only [h, hunit]

/-- The escape of a character is read as the character. -/
theorem readString_escapeChar (c : Char) :
    readString before ((escapeChar c).toList ++ rest) = readString (c :: before) rest := by
  rw [escapeChar.eq_def]
  split
  case h_1 | h_2 | h_3 | h_4 | h_5 | h_6 | h_7 => exact readString_simple rfl
  case h_8 hquote hescape _ _ _ _ _ =>
    split
    · next hcontrol =>
        have hlength : (Numeral.paddedDigits 16 4 c.toNat).toList.length = 4 :=
          Numeral.length_paddedDigits (by decide) (by decide) (by omega)
        have hvalue := @Numeral.hexDigits?_paddedDigits 4 c.toNat
        obtain ⟨d₁, d₂, d₃, d₄, hdigits⟩ := List.length_eq_four.mp hlength
        rw [hdigits] at hvalue
        rw [String.toList_append, hdigits]
        rw [show c = Char.ofNat c.toNat from (Char.ofNat_toNat c).symm]
        exact readString_unit hvalue (by omega)
    · next hcontrol =>
        rw [Char.toString, String.toList_singleton]
        exact readString_plain hquote hescape (by simpa [isControl] using hcontrol)

/-- A string is read up to its own closing quote. -/
theorem readString_quoted (s : String) :
    readString [] ((String.join (s.toList.map escapeChar)).toList ++ '"' :: rest) =
      some (s, rest) := by
  have hall : ∀ (cs before : List Char),
      readString before ((cs.flatMap fun c => (escapeChar c).toList) ++ '"' :: rest) =
        some (String.ofList (before.reverse ++ cs), rest) := by
    intro cs
    induction cs with
    | nil =>
        intro before
        simp [readString]
    | cons c cs ih =>
        intro before
        rw [List.flatMap_cons, List.append_assoc, readString_escapeChar, ih]
        simp
  rw [String.toList_join, List.flatMap_map, hall, List.reverse_nil, List.nil_append,
    String.ofList_toList]

end FilterTree.Json
