/-!
# Binary floating-point formats

A number of a binary format is a significand times a power of two. Reading a
decimal numeral and finding the shortest numeral that reads back are both
questions about those two integers, so they are answered here in exact integer
arithmetic and never in floating point itself: a bit pattern is taken apart
(`Format.decode`), and a quotient of natural numbers is rounded to the pattern
of the nearest number, a half going to the even significand
(`Format.ofQuotient`).
-/

namespace FilterTree.Numeral

/-- A binary format: bits of significand, the hidden one included, and bits of exponent. -/
structure Format where
  precision : Nat
  exponentBits : Nat
deriving DecidableEq, Repr

namespace Format

/-- The format of 64 bits. -/
def binary64 : Format := ⟨53, 11⟩

/-- The format of 32 bits. -/
def binary32 : Format := ⟨24, 8⟩

/-- Exponent field of infinities and of what is not a number. -/
def topExponent (f : Format) : Nat := Nat.pow 2 f.exponentBits - 1

/-- Exponent of the unit in the last place of the smallest numbers. -/
def leastExponent (f : Format) : Int :=
  3 - (Nat.pow 2 (f.exponentBits - 1) : Int) - f.precision

end Format

/-- What a bit pattern stands for: `significand * 2 ^ exponent`, with its sign. -/
inductive Datum where
  | nan
  | infinite (negative : Bool)
  | finite (negative : Bool) (significand : Nat) (exponent : Int)
deriving DecidableEq, Repr

namespace Format

/-- Take a bit pattern apart. -/
def decode (f : Format) (bits : Nat) : Datum :=
  let hidden := Nat.pow 2 (f.precision - 1)
  let fraction := bits % hidden
  let field := bits / hidden % Nat.pow 2 f.exponentBits
  let negative := bits / hidden / Nat.pow 2 f.exponentBits % 2 == 1
  if field = f.topExponent then
    if fraction = 0 then .infinite negative else .nan
  else if field = 0 then .finite negative fraction f.leastExponent
  else .finite negative (hidden + fraction) (f.leastExponent + field - 1)

/-- The bit of the sign. -/
def signBit (f : Format) (negative : Bool) : Nat :=
  if negative then Nat.pow 2 (f.precision - 1 + f.exponentBits) else 0

/-- The pattern of an infinity. -/
def infinityBits (f : Format) (negative : Bool) : Nat :=
  f.signBit negative + f.topExponent * Nat.pow 2 (f.precision - 1)

/-- A pattern of something that is not a number. -/
def nanBits (f : Format) : Nat :=
  f.topExponent * Nat.pow 2 (f.precision - 1) + Nat.pow 2 (f.precision - 2)

end Format

/-- The integer nearest to `num / den`; a half goes to the even neighbour. -/
def roundToEven (num den : Nat) : Nat :=
  let q := num / den
  let r := num % den
  if 2 * r < den then q
  else if den < 2 * r then q + 1
  else q + q % 2

namespace Format

/--
The pattern of the number nearest to `num / den`.

With `q` the exponent of the last place, `num / den / 2 ^ q` lies at or above
the least full significand (or `q` is already the least exponent), and one more
step of `q` brings it below the next power of two. Rounding up to that power
carries into the exponent field, which is where the carry belongs.
-/
def ofQuotient (f : Format) (negative : Bool) (num den : Nat) : Nat :=
  if num = 0 then f.signBit negative
  else
    let scaled (q : Int) : Nat × Nat := (num * Nat.pow 2 (-q).toNat, den * Nat.pow 2 q.toNat)
    let q₀ : Int := max f.leastExponent ((num.log2 : Int) - den.log2 - f.precision)
    let (n₀, d₀) := scaled q₀
    let q := if n₀ / d₀ < Nat.pow 2 f.precision then q₀ else q₀ + 1
    let (n, d) := scaled q
    let m := roundToEven n d
    let hidden := Nat.pow 2 (f.precision - 1)
    let magnitude := (q - f.leastExponent).toNat * hidden + m
    if f.topExponent * hidden ≤ magnitude then f.infinityBits negative
    else f.signBit negative + magnitude

/--
The pattern of the number nearest to `digits * 10 ^ exponent`.

Exponents so large that every number of the format is smaller, or so small that
half the least number is larger, are answered without building the power.
-/
def ofDecimal (f : Format) (negative : Bool) (digits : Nat) (exponent : Int) : Nat :=
  let reach : Int := Nat.pow 2 f.exponentBits
  let magnitude : Int := (digits.log2 : Int) / 4 + exponent
  if digits = 0 then f.signBit negative
  else if reach < magnitude then f.infinityBits negative
  else if exponent + digits.log2 + 1 < -reach then f.signBit negative
  else f.ofQuotient negative (digits * Nat.pow 10 exponent.toNat) (Nat.pow 10 (-exponent).toNat)

end Format

/-! ## The two formats as numbers -/

/-- The number of 64 bits with a pattern. -/
def float64OfBits (bits : Nat) : Float := Float.ofBits (UInt64.ofNat bits)

/-- The number of 32 bits with a pattern. -/
def float32OfBits (bits : Nat) : Float32 := Float32.ofBits (UInt32.ofNat bits)

/-- A number of 64 bits, taken apart. -/
def datum64 (x : Float) : Datum := Format.binary64.decode x.toBits.toNat

/-- A number of 32 bits, taken apart. -/
def datum32 (x : Float32) : Datum := Format.binary32.decode x.toBits.toNat

/-- Whether a number is neither infinite nor missing. -/
def Datum.isFinite : Datum → Bool
  | .finite .. => true
  | _ => false

end FilterTree.Numeral
