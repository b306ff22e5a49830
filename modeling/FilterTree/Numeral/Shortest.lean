import FilterTree.Numeral.Binary

/-!
# The shortest numeral that reads back

Of the decimal numerals that round to a given number, `shortest` takes one with
the fewest digits, and of those the nearest to the number.

The numerals that round to `m * 2 ^ q` fill an interval around it: half a unit
to either side, a quarter below when `m` is the least full significand, the
ends included when `m` is even, because a half rounds to the even significand.
If a decimal grid meets that interval at all, then one of the two neighbours of
the number on the grid is in it. So grids are tried from the coarsest on, and
the first one with a neighbour inside gives the digits. When both neighbours are
inside and equally near, which of them is written is a convention of the output
and is passed in as `Tie`.
-/

namespace FilterTree.Numeral

/-- Which of two equally near neighbours is taken. -/
inductive Tie where
  | up
  | toEven
deriving DecidableEq, Repr

/-- A decimal number: the digits as a natural number, times a power of ten. -/
structure Decimal where
  digits : Nat
  exponent : Int
deriving DecidableEq, Repr

/-- Strip the zeros at the end of the digits; `fuel` bounds how many. -/
def Decimal.stripZeros : Nat → Decimal → Decimal
  | 0, d => d
  | fuel + 1, d =>
    if d.digits ≠ 0 ∧ d.digits % 10 = 0 then stripZeros fuel ⟨d.digits / 10, d.exponent + 1⟩ else d

/-- A positive quotient of natural numbers together with the interval that rounds to it. -/
structure Target where
  value : Nat
  low : Nat
  high : Nat
  den : Nat
  closed : Bool

namespace Target

/-- The interval of the reals that round to `significand * 2 ^ exponent`. -/
def ofDatum (f : Format) (significand : Nat) (exponent : Int) : Target :=
  let scale := Nat.pow 2 (exponent - 2).toNat
  let narrow := significand = Nat.pow 2 (f.precision - 1) ∧ f.leastExponent < exponent
  { value := 4 * significand * scale
    low := (4 * significand - if narrow then 1 else 2) * scale
    high := (4 * significand + 2) * scale
    den := Nat.pow 2 (2 - exponent).toNat
    closed := significand % 2 = 0 }

/-- Whether `n * 10 ^ e` is in the interval. -/
def holds (t : Target) (n : Nat) (e : Int) : Bool :=
  let n' := n * Nat.pow 10 e.toNat * t.den
  let s := Nat.pow 10 (-e).toNat
  if t.closed then t.low * s ≤ n' && n' ≤ t.high * s else t.low * s < n' && n' < t.high * s

/-- Whether `10 ^ e` is at most the value. -/
def reaches (t : Target) (e : Int) : Bool :=
  Nat.pow 10 e.toNat * t.den ≤ t.value * Nat.pow 10 (-e).toNat

/-- The greatest `e` with `10 ^ e` at most the value: estimated from the binary length. -/
def magnitude (t : Target) : Int :=
  let e := ((t.value.log2 : Int) - t.den.log2) * 30103 / 100000
  if t.reaches (e + 1) then e + 1 else if t.reaches e then e else e - 1

/-- The neighbour of the value on the grid of `10 ^ e` that is to be written, if one rounds back. -/
def neighbour? (t : Target) (tie : Tie) (e : Int) : Option Nat :=
  let num := t.value * Nat.pow 10 (-e).toNat
  let den := t.den * Nat.pow 10 e.toNat
  let below := num / den
  let rest := num % den
  match t.holds below e, t.holds (below + 1) e with
  | false, false => none
  | true, false => some below
  | false, true => some (below + 1)
  | true, true =>
    if 2 * rest < den then some below
    else if den < 2 * rest then some (below + 1)
    else match tie with
      | .up => some (below + 1)
      | .toEven => some (below + below % 2)

/-- Try grids of ever more digits, from the exponent `e` down. -/
def search (t : Target) (tie : Tie) : Nat → Int → Decimal
  | 0, e => ⟨t.value * Nat.pow 10 (-e).toNat / (t.den * Nat.pow 10 e.toNat), e⟩
  | fuel + 1, e =>
    match t.neighbour? tie e with
    | some n => ⟨n, e⟩
    | none => search t tie fuel (e - 1)

end Target

/-- The shortest decimal that rounds to `significand * 2 ^ exponent`, without zeros at its end. -/
def shortest (f : Format) (tie : Tie) (significand : Nat) (exponent : Int) : Decimal :=
  if significand = 0 then ⟨0, 0⟩
  else
    let t := Target.ofDatum f significand exponent
    let enough := f.precision / 3 + 2
    (t.search tie enough t.magnitude).stripZeros (enough + 1)

end FilterTree.Numeral
