import FilterTree.Numeral.Shortest

/-!
# Layouts of numerals

A number is written in places that do not agree on the layout of the same
digits: inside the text of a message, as a listed value of a message, and as a
number of a JSON text, there according to its width. A `Layout` holds the
decisions, one field each, and `Layout.write` applies them to the shortest
digits of a number; the layouts of this library are the records at the end.

Numbers with a fixed count of decimals (`fixed`) are the other way to write
one: the exact value rounded at a decimal place.
-/

namespace FilterTree.Numeral

/-- A natural number in decimal. -/
def natText (n : Nat) : String := String.ofList (Nat.toDigits 10 n)

/-- An integer in decimal. -/
def intText (i : Int) : String :=
  if i < 0 then "-" ++ natText i.natAbs else natText i.natAbs

/-- The digits of a natural number, with zeros in front up to a width. -/
def paddedDigits (base width n : Nat) : String :=
  let digits := Nat.toDigits base n
  String.ofList (List.replicate (width - digits.length) '0' ++ digits)

/-- How the digits of a number are laid out. -/
structure Layout where
  /-- Least and greatest power of ten of the first digit that is written without an exponent. -/
  positional : Option (Int × Int)
  /-- Whole numbers end in `.0`. -/
  wholePoint : Bool
  /-- A positive exponent carries its sign. -/
  exponentSign : Bool
  /-- Which of two equally near shortest numerals is written. -/
  tie : Tie

namespace Layout

/-- Whether a first digit at `10 ^ power` is written without an exponent. -/
def isPositional (l : Layout) (power : Int) : Bool :=
  match l.positional with
  | none => true
  | some (least, greatest) => least ≤ power && power ≤ greatest

/-- Digits around a decimal point. -/
def writePositional (l : Layout) (d : Decimal) : String :=
  let digits := natText d.digits
  let size : Int := digits.length
  if 0 ≤ d.exponent then
    digits ++ String.ofList (List.replicate d.exponent.toNat '0')
      ++ if l.wholePoint then ".0" else ""
  else if size + d.exponent ≤ 0 then
    "0." ++ String.ofList (List.replicate (-(size + d.exponent)).toNat '0') ++ digits
  else
    let whole := (size + d.exponent).toNat
    String.ofList (digits.toList.take whole) ++ "." ++ String.ofList (digits.toList.drop whole)

/-- One digit, the others after a point, and the power of ten of the first. -/
def writeScientific (l : Layout) (d : Decimal) : String :=
  let digits := (natText d.digits).toList
  let power : Int := d.exponent + digits.length - 1
  let head := String.ofList (digits.take 1)
  let tail := match digits.drop 1 with
    | [] => ""
    | rest => "." ++ String.ofList rest
  let mark := if l.exponentSign && 0 ≤ power then "e+" else "e"
  head ++ tail ++ mark ++ intText power

/-- Write what a bit pattern stands for. -/
def write (l : Layout) (f : Format) : Datum → String
  | .nan => "NaN"
  | .infinite negative => if negative then "-inf" else "inf"
  | .finite negative significand exponent =>
    let d := shortest f l.tie significand exponent
    let power : Int := d.exponent + (natText d.digits).length - 1
    (if negative then "-" else "")
      ++ if significand = 0 || l.isPositional power then l.writePositional d
        else l.writeScientific d

/-- Inside a message: never an exponent, and no point on whole numbers. -/
def message : Layout := ⟨none, false, false, .up⟩

/-- As a listed value of a message: a point on whole numbers, exponents for small and large ones. -/
def listed : Layout := ⟨some (-4, 15), true, false, .up⟩

/-- As a JSON number of 64 bits: exponents carry their sign. -/
def json : Layout := ⟨some (-5, 15), true, true, .toEven⟩

/-- As a JSON number of 32 bits: the same, with exponents in other places. -/
def json32 : Layout := ⟨some (-6, 12), true, true, .toEven⟩

end Layout

/-- A number of 64 bits inside a message. -/
def messageText (x : Float) : String := Layout.message.write .binary64 (datum64 x)

/-- A number of 32 bits inside a message. -/
def messageText32 (x : Float32) : String := Layout.message.write .binary32 (datum32 x)

/-- A list of values between brackets, the form lists take in messages. -/
def listText (items : List String) : String := "[" ++ ", ".intercalate items ++ "]"

/-- A list of sizes as a message shows it. -/
def natsText (ns : List Nat) : String := listText (ns.map natText)

/-- Numbers of 32 bits as a message lists them. -/
def listedText32 (xs : List Float32) : String :=
  listText (xs.map fun x => Layout.listed.write .binary32 (datum32 x))

/-! ## A fixed number of decimals -/

/-- The exact value rounded to `places` decimals; a value that rounds to zero has no sign. -/
def fixed (places : Nat) : Datum → String
  | .nan => "nan"
  | .infinite negative => if negative then "-inf" else "inf"
  | .finite negative significand exponent =>
    let scaled := roundToEven (significand * Nat.pow 10 places * Nat.pow 2 exponent.toNat)
      (Nat.pow 2 (-exponent).toNat)
    let digits := paddedDigits 10 (places + 1) scaled
    let whole := digits.length - places
    let text := String.ofList (digits.toList.take whole)
      ++ if places = 0 then "" else "." ++ String.ofList (digits.toList.drop whole)
    if negative && scaled != 0 then "-" ++ text else text

end FilterTree.Numeral
