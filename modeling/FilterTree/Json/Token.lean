import FilterTree.Numeral.Reading

/-!
# Tokens of JSON texts

Blanks, words and strings, the pieces of a text that hold no values. A reader
takes the characters of a text and hands on those it did not take.

A string is read in two ways. Who wants it gets its characters; for that each
escape has to stand for a character, so that surrogates come in pairs. Who only
wants to get behind it takes any four hexadecimal digits as an escape.
-/

namespace FilterTree.Json

/-- Leave out the blanks between tokens. -/
def skipBlanks (cs : List Char) : List Char :=
  cs.dropWhile fun c => c = ' ' || c = '\n' || c = '\t' || c = '\r'

/-- What follows a word, if the text begins with it. -/
def afterWord? (word : String) (cs : List Char) : Option (List Char) :=
  if word.toList.isPrefixOf cs then some (cs.drop word.length) else none

/-- The character of a UTF-16 unit that is no surrogate. -/
def ofUnit? (unit : Nat) : Option Char :=
  if 0xD800 ≤ unit ∧ unit < 0xE000 then none else some (Char.ofNat unit)

/-- The character of a pair of surrogates, the high one first. -/
def ofPair? (high low : Nat) : Option Char :=
  if 0xD800 ≤ high ∧ high < 0xDC00 ∧ 0xDC00 ≤ low ∧ low < 0xE000 then
    some (Char.ofNat (0x10000 + (high - 0xD800) * 0x400 + (low - 0xDC00)))
  else none

/-- The character of an escape of one letter. -/
def simpleEscape? : Char → Option Char
  | '"' => some '"'
  | '\\' => some '\\'
  | '/' => some '/'
  | 'b' => some '\x08'
  | 'f' => some '\x0c'
  | 'n' => some '\n'
  | 'r' => some '\r'
  | 't' => some '\t'
  | _ => none

/-- Whether a character may not stand in a string. -/
def isControl (c : Char) : Bool := c.toNat < 0x20

/-- A string after its opening quote; the characters read so far come in reverse. -/
def readString (before : List Char) : List Char → Option (String × List Char)
  | [] => none
  | '"' :: rest => some (String.ofList before.reverse, rest)
  | '\\' :: 'u' :: a :: b :: c :: d :: rest =>
    match Numeral.hexDigits? [a, b, c, d] with
    | none => none
    | some unit =>
      match ofUnit? unit, rest with
      | some char, rest => readString (char :: before) rest
      | none, '\\' :: 'u' :: e :: f :: g :: h :: rest =>
        match (Numeral.hexDigits? [e, f, g, h]).bind (ofPair? unit) with
        | some char => readString (char :: before) rest
        | none => none
      | none, _ => none
  | '\\' :: e :: rest =>
    match simpleEscape? e with
    | some char => readString (char :: before) rest
    | none => none
  | c :: rest => if isControl c then none else readString (c :: before) rest

/-- What follows a string that nobody wants, after its opening quote. -/
def afterString? : List Char → Option (List Char)
  | [] => none
  | '"' :: rest => some rest
  | '\\' :: 'u' :: a :: b :: c :: d :: rest =>
    if (Numeral.hexDigits? [a, b, c, d]).isSome then afterString? rest else none
  | '\\' :: e :: rest => if (simpleEscape? e).isSome then afterString? rest else none
  | c :: rest => if isControl c then none else afterString? rest

end FilterTree.Json
