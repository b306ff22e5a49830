/-!
# Blanks

A name made of blanks only is no name, and a value in a table cell may be
surrounded by blanks. A blank is a character with the Unicode property
`White_Space`: the ASCII blanks and the separators of every script, listed in
`ranges`. Trimming takes blanks from both ends and leaves those inside alone.
-/

namespace FilterTree.Text

/-- The code points of the Unicode property `White_Space`, as closed ranges. -/
def blankRanges : List (Nat × Nat) :=
  [(0x09, 0x0D), (0x20, 0x20), (0x85, 0x85), (0xA0, 0xA0), (0x1680, 0x1680), (0x2000, 0x200A),
    (0x2028, 0x2029), (0x202F, 0x202F), (0x205F, 0x205F), (0x3000, 0x3000)]

/-- Whether a character is a blank. -/
def isBlank (c : Char) : Bool :=
  blankRanges.any fun r => r.1 ≤ c.toNat && c.toNat ≤ r.2

/-- The characters without the blanks at either end. -/
def trimmed (cs : List Char) : List Char :=
  ((cs.dropWhile isBlank).reverse.dropWhile isBlank).reverse

/-- Whether nothing but blanks is in the text. -/
def isAllBlank (s : String) : Bool := s.toList.all isBlank

/-- ASCII letters in lower case; every other character as it is. -/
def foldCase (s : String) : String := s.map Char.toLower

end FilterTree.Text
