import FilterTree.Numeral.Binary
import FilterTree.Numeral.Width
import FilterTree.Text.Blank

/-!
# Reading numerals

A value given as text is an integer or a number of a binary format. Both
grammars are decided on the whole text: a sign, then digits only for an
integer; a sign, then digits with at most one point and at least one digit, and
an optional power of ten for a number, or one of the words for what is not
finite. A numeral that matches is read to its exact value first and rounded
once, so no digit is lost on the way.
-/

namespace FilterTree.Numeral

/-- The value of a row of digits, most significant first. -/
def digitsValue (cs : List Char) : Nat :=
  cs.foldl (fun n c => 10 * n + (c.toNat - '0'.toNat)) 0

/-- The value of a hexadecimal digit. -/
def hexValue? (c : Char) : Option Nat :=
  if c.isDigit then some (c.toNat - '0'.toNat)
  else if 'a' ≤ c ∧ c ≤ 'f' then some (c.toNat - 'a'.toNat + 10)
  else if 'A' ≤ c ∧ c ≤ 'F' then some (c.toNat - 'A'.toNat + 10)
  else none

/-- The value of a row of hexadecimal digits. -/
def hexDigits? (cs : List Char) : Option Nat :=
  cs.foldlM (fun n c => (hexValue? c).map (16 * n + ·)) 0

/-- The value of a nonempty row of digits and nothing else. -/
def natural? (cs : List Char) : Option Nat :=
  if !cs.isEmpty && cs.all Char.isDigit then some (digitsValue cs) else none

/-- An integer with an optional sign. -/
def integer? : List Char → Option Int
  | '+' :: cs => (natural? cs).map Int.ofNat
  | '-' :: cs => (natural? cs).map fun n => -Int.ofNat n
  | cs => (natural? cs).map Int.ofNat

/-- An integer of a range; where the range begins with zero no minus sign is read at all. -/
def integerIn? (range : IntRange) (cs : List Char) : Option Int :=
  if range.least = 0 ∧ cs.head? = some '-' then none else (integer? cs).bind range.keep?

/-- A numeral before rounding: its sign, its digits and its power of ten. -/
structure Scientific where
  negative : Bool
  digits : Nat
  exponent : Int
deriving DecidableEq, Repr

/-- The power of ten after the digits: nothing, or a mark and an integer. -/
def power? : List Char → Option Int
  | [] => some 0
  | c :: cs => if c = 'e' ∨ c = 'E' then integer? cs else none

/-- A numeral without a sign. -/
def unsigned? (negative : Bool) (cs : List Char) : Option Scientific :=
  let whole := cs.takeWhile Char.isDigit
  let rest := cs.dropWhile Char.isDigit
  let (places, rest) := match rest with
    | '.' :: tail => (tail.takeWhile Char.isDigit, tail.dropWhile Char.isDigit)
    | rest => ([], rest)
  if whole.isEmpty && places.isEmpty then none
  else (power? rest).map fun e => ⟨negative, digitsValue (whole ++ places), e - places.length⟩

/-- The sign in front of a numeral and what follows it. -/
def sign : List Char → Bool × List Char
  | '+' :: cs => (false, cs)
  | '-' :: cs => (true, cs)
  | cs => (false, cs)

/-- The bit pattern nearest to a numeral. -/
def Scientific.toBits (f : Format) (n : Scientific) : Nat :=
  f.ofDecimal n.negative n.digits n.exponent

/-- The pattern that a text of a binary format stands for. -/
def binary? (f : Format) (cs : List Char) : Option Nat :=
  let (negative, rest) := sign cs
  let word := rest.map Char.toLower
  if word = "inf".toList ∨ word = "infinity".toList then some (f.infinityBits negative)
  else if word = "nan".toList then some (f.nanBits + f.signBit negative)
  else (unsigned? negative rest).map (Scientific.toBits f)

end FilterTree.Numeral
