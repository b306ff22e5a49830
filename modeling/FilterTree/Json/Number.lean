import FilterTree.Json.Basic
import FilterTree.Numeral.Dyadic
import FilterTree.Numeral.Reading

/-!
# Numbers of JSON texts

A number is written with digits, a fraction and a power of ten. Without the last
two it is an integer if 64 bits can hold it, with a sign or without one; minus
zero and everything else is a number of 64 bits.

Such a number is not always the nearest one to what is written. Its digits are
collected in an integer of 64 bits: whole digits for which there is no room left
count as a power of ten, digits of the fraction are left out. The integer is
rounded, and what is rounded is multiplied or divided by the power of ten,
which is a rounded number itself. One such step reaches 308 places, and below
that there is room for one step more; what is smaller still is zero, and what is
too large is refused.
-/

namespace FilterTree.Json

/-- A number as it is written. -/
structure Number where
  negative : Bool
  /-- The digits before the point. -/
  whole : List Char
  /-- The digits after the point; none if there is no point. -/
  places : List Char
  /-- The power of ten, if one is written. -/
  power? : Option Int
deriving DecidableEq, Repr

namespace Number

/-! ## Reading -/

/-- A row of digits, of which there is at least one. -/
def readDigits (cs : List Char) : Option (List Char × List Char) :=
  match cs.takeWhile Char.isDigit with
  | [] => none
  | digits => some (digits, cs.dropWhile Char.isDigit)

/-- The digits before the point; no zero stands in front of others. -/
def readWhole (cs : List Char) : Option (List Char × List Char) :=
  (readDigits cs).filter fun (digits, _) => digits.length = 1 || digits.head? != some '0'

/-- The point and the digits after it, if there is one. -/
def readPlaces : List Char → Option (List Char × List Char)
  | '.' :: rest => readDigits rest
  | cs => some ([], cs)

/-- The power of ten, if there is one. -/
def readPower : List Char → Option (Option Int × List Char)
  | [] => some (none, [])
  | c :: cs =>
    if c = 'e' ∨ c = 'E' then
      let (minus, rest) := Numeral.sign cs
      (readDigits rest).map fun (digits, rest) =>
        let n : Int := Numeral.digitsValue digits
        (some (if minus then -n else n), rest)
    else some (none, c :: cs)

/-- A number from its sign on. -/
def read (cs : List Char) : Option (Number × List Char) := do
  let (negative, rest) := match cs with
    | '-' :: rest => (true, rest)
    | cs => (false, cs)
  let (whole, rest) ← readWhole rest
  let (places, rest) ← readPlaces rest
  let (power?, rest) ← readPower rest
  return (⟨negative, whole, places, power?⟩, rest)

/-! ## Values -/

/-- The integer that a number is, if it is one. -/
def integer? (n : Number) : Option Int :=
  let value : Int := Numeral.digitsValue n.whole
  if n.places.isEmpty && n.power?.isNone && !(n.negative && value == 0) then
    Numeral.IntRange.wide.keep? (if n.negative then -value else value)
  else none

/-- Append digits to an integer as long as 64 bits hold it; the digits that are left. -/
def collect : Nat → List Char → Nat × List Char
  | n, [] => (n, [])
  | n, c :: cs =>
    let next := 10 * n + Numeral.digitsValue [c]
    if next < Nat.pow 2 64 then collect next cs else (n, c :: cs)

/-- The greatest power of ten among the numbers of 64 bits. -/
def reach : Nat := 308

/-- A rounded integer times a power of ten. -/
def scale? (a : Numeral.Dyadic) (power : Int) : Option Numeral.Dyadic :=
  let f : Numeral.Format := .binary64
  let multiplied (a : Numeral.Dyadic) (n : Nat) := (Numeral.Dyadic.tenTo? f n).bind (a.mul? f)
  let divided (a : Numeral.Dyadic) (n : Nat) := (Numeral.Dyadic.tenTo? f n).bind (a.div? f)
  if a.significand = 0 then some a
  else if reach < power then none
  else if 0 ≤ power then multiplied a power.toNat
  else if -reach ≤ power then divided a (-power).toNat
  else if -(2 * reach) ≤ power then
    (divided a reach).bind fun a => divided a (-power - reach).toNat
  else some ⟨0, 0⟩

/-- The number of 64 bits that is read, unless it is too large. -/
def double? (n : Number) : Option Float := do
  let (digits, dropped) := collect 0 n.whole
  let (digits, ignored) := collect digits n.places
  let power : Int := dropped.length - (n.places.length - ignored.length : Nat) + n.power?.getD 0
  let a ← scale? (← Numeral.Dyadic.nearest? .binary64 digits 1 0) power
  return Numeral.float64OfBits (a.toBits .binary64 n.negative)

/-- The value of a number, unless it is too large. -/
def value? (n : Number) : Option Json :=
  match n.integer? with
  | some i => some (.int i)
  | none => n.double?.map .double

end Number

end FilterTree.Json
