import FilterTree.Numeral.Layout
import FilterTree.Numeral.Reading

/-!
# Identifiers of 128 bits

A filter is known by an identifier that never changes, whatever its name
becomes. The written form groups the 32 hexadecimal digits as 8-4-4-4-12; the
reader also takes the digits without hyphens, and the grouped form in braces or
behind `urn:uuid:`, all with letters of either case. Writing always gives the same
form, so reading what was written gives the identifier back.
-/

namespace FilterTree

/-- An identifier of 128 bits. -/
structure Uuid where
  bits : BitVec 128
deriving DecidableEq, Repr

namespace Uuid

/-- The identifier with a number; what exceeds 128 bits is cut. -/
def ofNat (n : Nat) : Uuid := ⟨BitVec.ofNat 128 n⟩

/-- Lengths of the groups of digits. -/
def groups : List Nat := [8, 4, 4, 4, 12]

/-- Cut a row of characters into groups. -/
def split : List Nat → List Char → List (List Char)
  | [], _ => []
  | n :: ns, cs => cs.take n :: split ns (cs.drop n)

/-- The grouped digits in lower case. -/
def toText (u : Uuid) : String :=
  let digits := (Numeral.paddedDigits 16 32 u.bits.toNat).toList
  "-".intercalate ((split groups digits).map String.ofList)

/-- Remove the hyphens between the groups; `none` if they are not where they belong. -/
def ungroup? : List Nat → List Char → Option (List Char)
  | [], _ => none
  | [n], cs => if cs.length = n then some cs else none
  | n :: ns, cs =>
    match cs.drop n with
    | '-' :: rest => (ungroup? ns rest).map (cs.take n ++ ·)
    | _ => none

/-- Read an identifier in any of its written forms. -/
def ofText? (s : String) : Option Uuid :=
  let cs := s.toList
  let grouped (cs : List Char) : Option Uuid :=
    ((ungroup? groups cs).bind Numeral.hexDigits?).map ofNat
  let urn := "urn:uuid:".toList
  if cs.length = 32 then (Numeral.hexDigits? cs).map ofNat
  else if cs.length = 36 then grouped cs
  else if cs.length = 38 ∧ cs.head? = some '\x7b' ∧ cs.getLast? = some '\x7d' then
    grouped ((cs.drop 1).take 36)
  else if cs.length = 45 ∧ (cs.take 9).map Char.toLower = urn then grouped (cs.drop 9)
  else none

end Uuid

end FilterTree
