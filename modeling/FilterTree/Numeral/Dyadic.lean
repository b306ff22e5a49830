import FilterTree.Numeral.Binary

/-!
# Arithmetic of magnitudes

A magnitude is a number without a sign, kept as the two integers of
`significand * 2 ^ exponent`. Products and quotients of magnitudes are exact
quotients of integers times a power of two, so each of them is rounded once to
the numbers of a format, the way the format's own multiplication and division
round. What is too large for the format has no magnitude.
-/

namespace FilterTree.Numeral

/-- The number `significand * 2 ^ exponent`. -/
structure Dyadic where
  significand : Nat
  exponent : Int
deriving DecidableEq, Repr

namespace Dyadic

/-- The pattern of the number nearest to `num / den * 2 ^ exponent`. -/
def nearestBits (f : Format) (negative : Bool) (num den : Nat) (exponent : Int) : Nat :=
  f.ofQuotient negative (num * Nat.pow 2 exponent.toNat) (den * Nat.pow 2 (-exponent).toNat)

/-- The number of a format nearest to `num / den * 2 ^ exponent`, unless that is infinite. -/
def nearest? (f : Format) (num den : Nat) (exponent : Int) : Option Dyadic :=
  match f.decode (nearestBits f false num den exponent) with
  | .finite _ significand exponent => some ⟨significand, exponent⟩
  | _ => none

/-- The rounded product. -/
def mul? (f : Format) (a b : Dyadic) : Option Dyadic :=
  nearest? f (a.significand * b.significand) 1 (a.exponent + b.exponent)

/-- The rounded quotient; the divisor is not zero. -/
def div? (f : Format) (a b : Dyadic) : Option Dyadic :=
  nearest? f a.significand b.significand (a.exponent - b.exponent)

/-- The power of ten nearest to `10 ^ power`. -/
def tenTo? (f : Format) (power : Nat) : Option Dyadic := nearest? f (Nat.pow 10 power) 1 0

/-- The pattern of a magnitude with a sign. -/
def toBits (f : Format) (negative : Bool) (a : Dyadic) : Nat :=
  nearestBits f negative a.significand 1 a.exponent

end Dyadic

end FilterTree.Numeral
