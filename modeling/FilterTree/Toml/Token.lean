import FilterTree.Numeral.Reading

/-!
# Tokens of TOML texts

Ends of lines, texts in quotes, integers and keys.

A text is quoted in one of four ways: with escapes or literally, and on one line
or, between three marks, over several. In the longer form up to two marks may
stand inside the text, also right before the three that end it. A line break in
it is one line feed, however it was written, and an escaped one is left out
together with the blanks and line breaks after it.
-/

namespace FilterTree.Toml

/-! ## Lines -/

/-- Whether a character separates tokens. -/
def isBlank (c : Char) : Bool := c = ' ' || c = '\t'

/-- Whether a character may not be written at all. -/
def isControl (c : Char) : Bool := (c.toNat < 0x20 && c != '\t') || c.toNat = 0x7F

/-- Leave out the blanks between tokens. -/
def skipBlanks (cs : List Char) : List Char := cs.dropWhile isBlank

/-- What follows a line break. -/
def afterBreak? : List Char → Option (List Char)
  | '\n' :: rest => some rest
  | '\r' :: '\n' :: rest => some rest
  | _ => none

/-- What follows the end of a line, which may have a comment. -/
def afterLine? (cs : List Char) : Option (List Char) :=
  let rest := match skipBlanks cs with
    | '#' :: comment => comment.dropWhile fun c => !isControl c
    | rest => rest
  if rest.isEmpty then some [] else afterBreak? rest

/-- Leave out blanks, line breaks and comments. -/
def skipComments : Nat → List Char → List Char
  | 0, cs => cs
  | fuel + 1, cs =>
    match skipBlanks cs with
    | [] => []
    | rest =>
      match afterLine? rest with
      | some rest => skipComments fuel rest
      | none => rest

/-- Leave out blanks and line breaks. -/
def skipLines : List Char → List Char
  | ' ' :: rest | '\t' :: rest | '\n' :: rest => skipLines rest
  | '\r' :: '\n' :: rest => skipLines rest
  | cs => cs

/-! ## Texts -/

/-- A character given by the hexadecimal digits of its number. -/
def readNumbered (width : Nat) (cs : List Char) : Option (Char × List Char) := do
  let digits := cs.take width
  let n ← if digits.length = width then Numeral.hexDigits? digits else none
  if n.isValidChar then some (Char.ofNat n, cs.drop width) else none

/-- The character of an escape. -/
def readEscape : List Char → Option (Char × List Char)
  | '"' :: rest => some ('"', rest)
  | '\\' :: rest => some ('\\', rest)
  | 'b' :: rest => some ('\x08', rest)
  | 'f' :: rest => some ('\x0c', rest)
  | 'n' :: rest => some ('\n', rest)
  | 'r' :: rest => some ('\r', rest)
  | 't' :: rest => some ('\t', rest)
  | 'u' :: rest => readNumbered 4 rest
  | 'U' :: rest => readNumbered 8 rest
  | _ => none

/-- How a text is quoted. -/
structure Quoting where
  mark : Char
  long : Bool
deriving DecidableEq, Repr

/-- Whether a backslash begins an escape. -/
def Quoting.escapes (q : Quoting) : Bool := q.mark = '"'

/-- What follows an escaped line break. -/
def afterFold? (q : Quoting) (cs : List Char) : Option (List Char) :=
  if q.long then (afterBreak? (skipBlanks cs)).map skipLines else none

/-- The characters up to the closing marks; those read so far come in reverse. -/
def readQuoted (q : Quoting) : Nat → List Char → List Char → Option (String × List Char)
  | 0, _, _ => none
  | _, _, [] => none
  | fuel + 1, before, c :: rest =>
    if c = q.mark then
      let marks := ((c :: rest).takeWhile (· = q.mark)).length
      let inside (n : Nat) : List Char := List.replicate n q.mark ++ before
      let after := (c :: rest).drop marks
      if !q.long then some (String.ofList before.reverse, rest)
      else if marks < 3 then readQuoted q fuel (inside marks) after
      else if marks ≤ 5 then some (String.ofList (inside (marks - 3)).reverse, after)
      else none
    else if c = '\\' && q.escapes then
      match afterFold? q rest with
      | some rest => readQuoted q fuel before rest
      | none => do
        let (escaped, rest) ← readEscape rest
        readQuoted q fuel (escaped :: before) rest
    else
      match if q.long then afterBreak? (c :: rest) else none with
      | some rest => readQuoted q fuel ('\n' :: before) rest
      | none => if isControl c then none else readQuoted q fuel (c :: before) rest

/-- A text on one line. -/
def readShort : List Char → Option (String × List Char)
  | c :: rest =>
    if c = '"' || c = '\'' then readQuoted ⟨c, false⟩ (rest.length + 1) [] rest else none
  | [] => none

/-- A text in any of its forms; a line break right after the three marks is left out. -/
def readText (cs : List Char) : Option (String × List Char) :=
  match cs with
  | a :: b :: c :: rest =>
    if (a = '"' || a = '\'') && a = b && b = c then
      readQuoted ⟨a, true⟩ (rest.length + 1) [] ((afterBreak? rest).getD rest)
    else readShort cs
  | cs => readShort cs

/-! ## Integers -/

/-- Digits of a base with single underscores between them; `closed` holds after a digit. -/
def grouped? (base : Nat) : Nat → Bool → List Char → Option Nat
  | n, closed, [] => if closed then some n else none
  | n, closed, c :: cs =>
    if c = '_' then if closed then grouped? base n false cs else none
    else
      match (Numeral.hexValue? c).filter (· < base) with
      | some digit => grouped? base (base * n + digit) true cs
      | none => none

/-- Decimal digits without a zero in front. -/
def decimal? : List Char → Option Nat
  | ['0'] => some 0
  | '0' :: _ => none
  | cs => grouped? 10 0 false cs

/-- An integer of 64 bits. -/
def integer? (cs : List Char) : Option Int :=
  let value : Option Int := match cs with
    | '0' :: 'x' :: digits => (grouped? 16 0 false digits).map Int.ofNat
    | '0' :: 'o' :: digits => (grouped? 8 0 false digits).map Int.ofNat
    | '0' :: 'b' :: digits => (grouped? 2 0 false digits).map Int.ofNat
    | '+' :: digits => (decimal? digits).map Int.ofNat
    | '-' :: digits => (decimal? digits).map fun n => -Int.ofNat n
    | digits => (decimal? digits).map Int.ofNat
  value.bind (Numeral.IntRange.signed 64).keep?

/-! ## Keys -/

/-- Whether a character may be in a key without quotes. -/
def isKeyChar (c : Char) : Bool := c.isAlphanum || c = '_' || c = '-'

/-- A key without dots. -/
def readKey (cs : List Char) : Option (String × List Char) :=
  match cs.takeWhile isKeyChar with
  | [] => readShort cs
  | key => some (String.ofList key, cs.dropWhile isKeyChar)

/-- Keys with dots between them, and the blanks around each of them. -/
def readKeys : Nat → List Char → Option (List String × List Char)
  | 0, _ => none
  | fuel + 1, cs => do
    let (key, rest) ← readKey (skipBlanks cs)
    match skipBlanks rest with
    | '.' :: rest =>
      let (keys, rest) ← readKeys fuel rest
      some (key :: keys, rest)
    | rest => some ([key], rest)

end FilterTree.Toml
