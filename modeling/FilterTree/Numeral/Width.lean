/-!
# Integers of a fixed width

The integers that so many bits hold, with a sign or without one. Sizes have 64
bits and no sign.
-/

namespace FilterTree.Numeral

/-- The integers from `least` to `greatest`. -/
structure IntRange where
  least : Int
  greatest : Int
deriving DecidableEq, Repr

namespace IntRange

/-- The integers of so many bits with a sign. -/
def signed (bits : Nat) : IntRange :=
  ⟨-(Nat.pow 2 (bits - 1) : Int), (Nat.pow 2 (bits - 1) : Int) - 1⟩

/-- The integers of so many bits without a sign. -/
def unsigned (bits : Nat) : IntRange := ⟨0, (Nat.pow 2 bits : Int) - 1⟩

/-- The integers of 64 bits, with a sign or without one. -/
def wide : IntRange := ⟨(signed 64).least, (unsigned 64).greatest⟩

/-- Whether an integer is in the range. -/
def contains (r : IntRange) (i : Int) : Bool := r.least ≤ i && i ≤ r.greatest

/-- An integer, if it is in the range. -/
def keep? (r : IntRange) (i : Int) : Option Int := if r.contains i then some i else none

end IntRange

end FilterTree.Numeral
