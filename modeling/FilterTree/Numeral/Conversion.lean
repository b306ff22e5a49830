/-!
# From one width to the other

A number of 32 bits is also a number of 64 bits, so widening is exact. The other way a number is
rounded to the nearest that has 32 bits, a half to the even significand, and one that is too large
becomes infinite. Both go by sign, significand and exponent.
-/

namespace FilterTree.Numeral

open Float.Model (UnpackedFloat)

/-- A number in another format, rounded where it has too many digits for it. -/
def inFormat (format : Float.Model.Format) : UnpackedFloat → UnpackedFloat
  | .finite sign significand exponent _ => .round format sign significand exponent
  | x => x

/-- The same number in 64 bits. -/
def widened (x : Float32) : Float := .ofModel (.pack (inFormat .binary64 x.toModel.unpack))

/-- The number of 32 bits nearest to a number of 64 bits. -/
def narrowed (x : Float) : Float32 := .ofModel (.pack (inFormat .binary32 x.toModel.unpack))

end FilterTree.Numeral
