import FilterTree.Proofs.JsonTokens

/-!
# What was written is read

The reader of values inverts the writer, whatever the indentation, for every
value whose numbers read back and that is not nested too deep. It does so also
in front of other text, as long as that text does not go on with a number: this
is what the induction needs, because in a text every value but the outermost
stands in front of more (`Reads`).

Who reads a record does not want all of a text, and where nothing is wanted null
is found. So a value is only found again if all of it is wanted (`Legible`).

What is found is not always what was written: a text does not tell whether a
number was one of 32 bits. So the induction goes from what is found of the parts to
what is found of the whole (`Reads.arr`, `Reads.obj`), whatever was written, and a
legible value is the case in which both are the same.

Items and fields have readers of their own, but both take a member and look for a
comma or the end behind it, and no more is known of them where all members of an
array or an object are read (`Takes`).

The budget of the reader never runs out. Every call is for a piece of text of
its own, and an array or an object, which costs one call more than its members
do, has two brackets to pay for it.
-/

namespace FilterTree.Json

open Numeral (IntRange)

/-! ## Values that can be read -/

/--
Whether all of a value is wanted, and the value is one that a text can hold: its
integers have at most 64 bits, its other numbers are exact, and it is not nested
deeper than the reader goes.
-/
inductive Legible : Nat → Interest → Json → Prop where
  | null {depth : Nat} {i : Interest} (hi : i ≠ .nothing) : Legible depth i .null
  | bool {depth : Nat} {i : Interest} {b : Bool} (hi : i ≠ .nothing) : Legible depth i (.bool b)
  | int {depth : Nat} {i : Interest} {n : Int} (hi : i ≠ .nothing)
      (h : IntRange.wide.contains n = true) : Legible depth i (.int n)
  | double {depth : Nat} {i : Interest} {x : Float} (hi : i ≠ .nothing) (h : Exact x) :
      Legible depth i (.double x)
  | str {depth : Nat} {i : Interest} {s : String} (hi : i ≠ .nothing) : Legible depth i (.str s)
  | arr {depth : Nat} {i : Interest} {items : List Json} (hi : i ≠ .nothing)
      (h : ∀ e ∈ items.zipIdx, Legible (depth + 1) (i.item e.2) e.1) :
      Legible (depth + 2) i (.arr items)
  | obj {depth : Nat} {i : Interest} {fields : List (String × Json)} (hi : i ≠ .nothing)
      (h : ∀ f ∈ fields, Legible (depth + 1) (i.field f.1) f.2) :
      Legible (depth + 2) i (.obj fields)

theorem wanted_whole : Interest.whole ≠ .nothing := by simp

theorem wanted_record {parts : List (String × Interest)} : Interest.record parts ≠ .nothing := by
  simp

theorem wanted_each {part : Interest} : Interest.each part ≠ .nothing := by simp

/-! ## Layout -/

/-- The texts of members with commas and breaks between them. -/
def joined (gap : List Char) (texts : List String) : List Char :=
  (',' :: gap).intercalate (texts.map String.toList)

theorem joined_singleton {gap : List Char} {text : String} : joined gap [text] = text.toList := by
  simp [joined]

theorem joined_cons_cons {gap : List Char} {text text' : String} {texts : List String} :
    joined gap (text :: text' :: texts) =
      text.toList ++ ',' :: (gap ++ joined gap (text' :: texts)) := by
  simp [joined]

theorem joined_append_eq_cons {text : String} {c : Char} (gap : List Char) (texts : List String)
    (rest : List Char) (h : c ∈ text.toList.head?) :
    ∃ cs, joined gap (text :: texts) ++ rest = c :: cs := by
  obtain ⟨cs, hcs⟩ := List.head?_eq_some_iff.mp h
  cases texts with
  | nil => exact ⟨cs ++ rest, by rw [joined_singleton, hcs, List.cons_append]⟩
  | cons => exact ⟨_, by rw [joined_cons_cons, hcs, List.cons_append, List.cons_append]⟩

theorem toList_bracketed_nil {opening closing : String} {level : Option Nat} :
    (bracketed opening closing level []).toList = opening.toList ++ closing.toList :=
  String.toList_append

theorem toList_bracketed {opening closing : String} {level : Option Nat} {members : List String}
    (hne : members ≠ []) : (bracketed opening closing level members).toList =
      opening.toList ++ ((lineBreak (level.map (· + 1))).toList ++
        (joined (lineBreak (level.map (· + 1))).toList members ++
          ((lineBreak level).toList ++ closing.toList))) := by
  rw [bracketed, if_neg (by simpa using hne)]
  simp [String.toList_intercalate, joined]

theorem write_arr {level : Option Nat} {items : List Json} :
    (Json.arr items).write level =
      bracketed "[" "]" level (items.map (write (level.map (· + 1)))) := by
  rw [write]
  exact congrArg (bracketed _ _ _) (List.attach_map_val (f := write _))

/-- A field as it is written. -/
def fieldText (level : Option Nat) (f : String × Json) : String :=
  quoted f.1 ++ colon level ++ f.2.write (level.map (· + 1))

theorem write_obj {level : Option Nat} {fields : List (String × Json)} :
    (Json.obj fields).write level =
      bracketed "\x7b" "\x7d" level (fields.map (fieldText level)) := by
  rw [write]
  exact congrArg (bracketed _ _ _) (List.attach_map_val (f := fieldText level))

/-- A line break with its indentation, or nothing. -/
def IsBreak (bs : List Char) : Prop := (∀ c ∈ bs, c ∈ blanks) ∧ ∀ c ∈ bs.head?, c = '\n'

theorem isBreak_lineBreak (level : Option Nat) : IsBreak (lineBreak level).toList := by
  cases level with
  | none => exact ⟨fun c hc => (nomatch hc), fun c hc => (nomatch hc)⟩
  | some level =>
      rw [lineBreak, String.toList_append]
      simp only [String.toList_ofList]
      constructor
      · rw [List.forall_mem_append]
        refine ⟨List.forall_mem_singleton.mpr (by decide), fun c hc => ?_⟩
        rw [List.eq_of_mem_replicate hc]
        decide
      · rintro c hc
        exact (Option.some.inj hc).symm

theorem IsBreak.ended {bs rest : List Char} {c : Char} (h : IsBreak bs)
    (hc : c ∈ [',', ']', '\x7d', '\n']) : Ended (bs ++ c :: rest) := by
  intro d hd
  cases bs with
  | nil => exact Option.some.inj hd ▸ hc
  | cons b bs =>
      cases h.2 b rfl
      exact Option.some.inj hd ▸ by decide

theorem ended_cons {c : Char} {rest : List Char} (hc : c ∈ [',', ']', '\x7d', '\n']) :
    Ended (c :: rest) := fun _ hd => Option.some.inj hd ▸ hc

/-- What is left after the blanks of a break. -/
theorem IsBreak.skip {bs rest : List Char} {c : Char} (h : IsBreak bs) (hc : c ∉ blanks) :
    skipBlanks (bs ++ c :: rest) = c :: rest := by
  rw [skipBlanks_append h.1, skipBlanks_cons hc]

/-! ## Single steps -/

/-- What is wanted of a value whose first character is the next one. -/
def readToken (fuel depth : Nat) (i : Interest) : List Char → Option (Json × List Char)
  | '"' :: rest => (readString [] rest).map fun (s, rest) => (.str s, rest)
  | '[' :: rest =>
    if depth ≤ 1 then none
    else match skipBlanks rest with
      | ']' :: rest => some (.arr [], rest)
      | rest => (readItems fuel (depth - 1) i 0 rest).map fun (items, rest) => (.arr items, rest)
  | '\x7b' :: rest =>
    if depth ≤ 1 then none
    else match skipBlanks rest with
      | '\x7d' :: rest => some (.obj [], rest)
      | rest => (readFields fuel (depth - 1) i rest).map fun (fields, rest) => (.obj fields, rest)
  | 'n' :: rest => (afterWord? "ull" rest).map (.null, ·)
  | 't' :: rest => (afterWord? "rue" rest).map (.bool true, ·)
  | 'f' :: rest => (afterWord? "alse" rest).map (.bool false, ·)
  | cs => do
    let (number, rest) ← Number.read cs
    return (← number.value?, rest)

variable {fuel depth index : Nat} {i : Interest} {cs bs rest : List Char}

theorem readValue_eq (hi : i ≠ .nothing) :
    readValue (fuel + 1) depth i cs = readToken fuel depth i (skipBlanks cs) := by
  rw [readValue]
  · rfl
  · exact hi

theorem readValue_cons {c : Char} (hi : i ≠ .nothing) (hc : c ∉ blanks) :
    readValue (fuel + 1) depth i (c :: cs) = readToken fuel depth i (c :: cs) := by
  rw [readValue_eq hi, skipBlanks_cons hc]

theorem readValue_skip (hi : i ≠ .nothing) (h : ∀ c ∈ bs, c ∈ blanks) :
    readValue (fuel + 1) depth i (bs ++ cs) = readValue (fuel + 1) depth i cs := by
  rw [readValue_eq hi, readValue_eq hi, skipBlanks_append h]

theorem readValue_bracket {cs' : List Char} {c : Char} (hi : i ≠ .nothing)
    (hcs : skipBlanks cs = c :: cs') : readValue (fuel + 1) (depth + 2) i ('[' :: cs) =
      if c = ']' then some (.arr [], cs')
      else (readItems fuel (depth + 1) i 0 (c :: cs')).map fun read => (.arr read.1, read.2) := by
  rw [readValue_cons hi (by decide)]
  simp only [readToken, hcs]
  rw [if_neg (by omega)]
  split <;> simp_all

theorem readValue_brace {cs' : List Char} {c : Char} (hi : i ≠ .nothing)
    (hcs : skipBlanks cs = c :: cs') : readValue (fuel + 1) (depth + 2) i ('\x7b' :: cs) =
      if c = '\x7d' then some (.obj [], cs')
      else (readFields fuel (depth + 1) i (c :: cs')).map fun read => (.obj read.1, read.2) := by
  rw [readValue_cons hi (by decide)]
  simp only [readToken, hcs]
  rw [if_neg (by omega)]
  split <;> simp_all

theorem readValue_str {s : String} {level : Option Nat} (hi : i ≠ .nothing) :
    readValue (fuel + 1) depth i (((Json.str s).write level).toList ++ rest) =
      some (.str s, rest) := by
  have htext : ((Json.str s).write level).toList ++ rest =
      '"' :: ((String.join (s.toList.map escapeChar)).toList ++ '"' :: rest) := by
    simp [write, quoted]
  rw [htext, readValue_cons hi (by decide), readToken, readString_quoted]
  rfl

theorem readValue_null (hi : i ≠ .nothing) :
    readValue (fuel + 1) depth i ("null".toList ++ cs) = some (.null, cs) :=
  readValue_cons hi (by decide)

theorem readValue_bool {b : Bool} (hi : i ≠ .nothing) :
    readValue (fuel + 1) depth i ((if b then "true" else "false").toList ++ cs) =
      some (.bool b, cs) := by
  cases b with
  | true => exact readValue_cons hi (by decide)
  | false => exact readValue_cons hi (by decide)

theorem readValue_number {n : Number} {value : Json} (hi : i ≠ .nothing)
    (hread : Number.read cs = some (n, rest)) (hvalue : n.value? = some value) :
    readValue (fuel + 1) depth i cs = some (value, rest) := by
  obtain ⟨c, hhead, hc⟩ := Number.head_of_read hread
  obtain ⟨cs, rfl⟩ := List.head?_eq_some_iff.mp hhead
  have hblank : c ∉ blanks := by
    rcases hc with rfl | hc
    · decide
    · exact not_blank_of_isDigit hc
  rw [readValue_cons hi hblank, readToken.eq_def]
  split
  case h_7 => simp [hread, hvalue]
  all_goals
    -- no other token begins like a number
    next heq =>
      cases heq
      exact absurd hc (by decide)

/-! ## Members -/

section Members

variable {α μ : Type} {m : μ} {ms : List μ} {text : μ → String} {value : μ → α} {closing : Char}
  {read : Nat → Nat → List Char → Option (List α × List Char)} {gap last : List Char}
  {level : Option Nat}

/-- What is read behind a member: a comma and more of them, or the end. -/
def readMore (closing : Char) (a : α) (more : List Char → Option (List α × List Char)) :
    List Char → Option (List α × List Char)
  | [] => none
  | c :: rest =>
    if c = ',' then (more rest).map fun read => (a :: read.1, read.2)
    else if c = closing then some ([a], rest)
    else none

/-- The reader of the members of an array or an object takes a member and looks behind it. -/
def Takes (read : Nat → Nat → List Char → Option (List α × List Char)) (closing : Char)
    (text : String) (index : Nat) (a : α) : Prop :=
  ∀ {fuel bs rest}, (∀ c ∈ bs, c ∈ blanks) → text.toList.length ≤ fuel → Ended rest →
    read (fuel + 1) index (bs ++ (text.toList ++ rest)) =
      readMore closing a (read fuel (index + 1)) (skipBlanks rest)

theorem read_joined (bs rest : List Char) (hne : ms ≠ []) (hclosing : closing ∈ [']', '\x7d'])
    (hgap : IsBreak gap) (hlast : IsBreak last)
    (h : ∀ e ∈ ms.zipIdx index, Takes read closing (text e.1) e.2 (value e.1))
    (hbs : ∀ c ∈ bs, c ∈ blanks) (hfuel : (joined gap (ms.map text)).length < fuel) :
    read fuel index (bs ++ (joined gap (ms.map text) ++ (last ++ closing :: rest))) =
      some (ms.map value, rest) := by
  have hends : closing ∈ [',', ']', '\x7d', '\n'] ∧ closing ∉ blanks ∧ closing ≠ ',' := by
    rcases List.mem_pair.mp hclosing with rfl | rfl <;> decide
  induction ms generalizing index fuel bs with
  | nil => exact absurd rfl hne
  | cons m ms ih =>
      obtain ⟨fuel, rfl⟩ : ∃ k, fuel = k + 1 := ⟨fuel - 1, by omega⟩
      have hm : Takes read closing (text m) index (value m) := h (m, index) List.mem_cons_self
      cases ms with
      | nil =>
          rw [List.map_singleton, joined_singleton] at hfuel ⊢
          rw [hm hbs (by omega) (hlast.ended hends.1), hlast.skip hends.2.1, readMore,
            if_neg hends.2.2, if_pos rfl, List.map_singleton]
      | cons m' ms =>
          rw [List.map_cons, List.map_cons, joined_cons_cons, List.length_append,
            List.length_cons, List.length_append] at hfuel
          have hnext : read fuel (index + 1) (gap ++ (joined gap ((m' :: ms).map text) ++
              (last ++ closing :: rest))) = some ((m' :: ms).map value, rest) :=
            ih gap (List.cons_ne_nil _ _) (fun e he => h e (List.mem_cons_of_mem _ he)) hgap.1 (by
              rw [List.map_cons]
              omega)
          rw [List.map_cons (f := text), List.map_cons (f := text), joined_cons_cons,
            List.append_assoc, List.cons_append, List.append_assoc, ← List.map_cons,
            hm hbs (by omega) (ended_cons (by decide)), skipBlanks_cons (by decide), readMore,
            if_pos rfl, hnext]
          rfl

variable (text value) in
/-- Behind an opening bracket stand blanks and members, which are read up to the closing one. -/
theorem read_bracketed {opening closing : String} {o e c : Char} (ho : opening.toList = [o])
    (he : closing.toList = [e]) (hclosing : e ∈ [']', '\x7d'])
    (h : ∀ b ∈ (m :: ms).zipIdx, Takes read e (text b.1) b.2 (value b.1))
    (hc : c ∈ (text m).toList.head?) (hblank : c ∉ blanks)
    (hfuel : (bracketed opening closing level ((m :: ms).map text)).toList.length ≤ fuel + 1) :
    ∃ inner cs, (bracketed opening closing level ((m :: ms).map text)).toList ++ rest =
        o :: inner ∧ skipBlanks inner = c :: cs ∧
        read fuel 0 (c :: cs) = some ((m :: ms).map value, rest) := by
  have hgap : IsBreak (lineBreak (level.map (· + 1))).toList := isBreak_lineBreak _
  have hlast : IsBreak (lineBreak level).toList := isBreak_lineBreak _
  rw [toList_bracketed (by simp), ho, he] at hfuel ⊢
  generalize (lineBreak (level.map (· + 1))).toList = gap at *
  generalize (lineBreak level).toList = last at *
  have hlength : (joined gap ((m :: ms).map text)).length < fuel := by
    simp only [List.length_append, List.length_singleton] at hfuel
    omega
  have hread := read_joined [] rest (List.cons_ne_nil m ms) hclosing hgap hlast h
    (fun c hc => nomatch hc) hlength
  obtain ⟨cs, hcs⟩ := joined_append_eq_cons gap (ms.map text) (last ++ e :: rest) hc
  rw [List.nil_append, List.map_cons, hcs] at hread
  refine ⟨gap ++ c :: cs, cs, ?_, hgap.skip hblank, hread⟩
  simp only [← hcs, List.map_cons, List.append_assoc, List.cons_append, List.nil_append]

end Members

/--
Wherever a value stands in a text, it begins with a token that does not close an
array, this is what is found, and reading stops behind it.
-/
structure Reads (depth : Nat) (i : Interest) (j found : Json) : Prop where
  head : ∀ level, ∃ c ∈ (j.write level).toList.head?, c ∉ blanks ∧ c ≠ ']'
  read : ∀ {level fuel bs rest}, (∀ c ∈ bs, c ∈ blanks) →
    (j.write level).toList.length ≤ fuel → Ended rest →
    readValue fuel depth i (bs ++ ((j.write level).toList ++ rest)) = some (found, rest)

variable {level : Option Nat} {j found : Json}

theorem readMore_of_ne {α : Type} {a : α} {closing : Char}
    {more : List Char → Option (List α × List Char)} (hcomma : ∀ rest, cs ≠ ',' :: rest)
    (hclosing : ∀ rest, cs ≠ closing :: rest) : readMore closing a more cs = none := by
  cases cs with
  | nil => rfl
  | cons c cs =>
      have hc : c ≠ ',' ∧ c ≠ closing :=
        ⟨fun h => hcomma cs (congrArg (· :: cs) h), fun h => hclosing cs (congrArg (· :: cs) h)⟩
      rw [readMore, if_neg hc.1, if_neg hc.2]

theorem takes_item (hj : Reads depth (i.item index) j found) :
    Takes (fun fuel index => readItems fuel depth i index) ']' (j.write level) index found := by
  intro fuel bs rest hbs hfuel hrest
  show readItems (fuel + 1) depth i index _ = _
  rw [readItems, hj.read hbs hfuel hrest, Option.bind_eq_bind, Option.bind_some]
  dsimp only
  split
  · next hskip =>
      rw [hskip]
      exact Option.map_eq_bind.symm
  · next hskip =>
      rw [hskip]
      rfl
  · next hcomma hclosing => exact (readMore_of_ne hcomma hclosing).symm

theorem toList_fieldText {f : String × Json} : (fieldText level f).toList =
    '"' :: ((String.join (f.1.toList.map escapeChar)).toList ++
      '"' :: ':' :: ((if level.isSome then [' '] else []) ++
        (f.2.write (level.map (· + 1))).toList)) := by
  rw [fieldText, quoted, colon]
  cases level <;> simp

theorem takes_field {f : String × Json} (index : Nat) (hf : Reads depth (i.field f.1) f.2 found) :
    Takes (fun fuel _ => readFields fuel depth i) '\x7d' (fieldText level f) index
      (f.1, found) := by
  intro fuel bs rest hbs hfuel hrest
  have hpad : ∀ c ∈ (if level.isSome then [' '] else [] : List Char), c ∈ blanks := by
    cases level <;> simp [blanks]
  have hlength : (f.2.write (level.map (· + 1))).toList.length ≤ fuel := by
    rw [toList_fieldText, List.length_cons, List.length_append, List.length_cons,
      List.length_cons, List.length_append] at hfuel
    omega
  have htext : bs ++ ((fieldText level f).toList ++ rest) =
      bs ++ '"' :: ((String.join (f.1.toList.map escapeChar)).toList ++
        '"' :: ':' :: ((if level.isSome then [' '] else []) ++
          ((f.2.write (level.map (· + 1))).toList ++ rest))) := by
    simp [toList_fieldText]
  show readFields (fuel + 1) depth i _ = _
  rw [htext, readFields, skipBlanks_append hbs, skipBlanks_cons (by decide)]
  show (readString [] _ >>= _) = _
  rw [readString_quoted, Option.bind_eq_bind, Option.bind_some]
  dsimp only
  rw [skipBlanks_cons (by decide)]
  show (readValue _ _ _ _ >>= _) = _
  rw [hf.read hpad hlength hrest, Option.bind_eq_bind, Option.bind_some]
  dsimp only
  split
  · next hskip =>
      rw [hskip]
      exact Option.map_eq_bind.symm
  · next hskip =>
      rw [hskip]
      rfl
  · next hcomma hclosing => exact (readMore_of_ne hcomma hclosing).symm

/-! ## Values -/

theorem head_of_number {n : Number} (h : Number.read cs = some (n, rest)) :
    ∃ c ∈ cs.head?, c ∉ blanks ∧ c ≠ ']' := by
  obtain ⟨c, hc, rfl | hdigit⟩ := Number.head_of_read h
  · exact ⟨_, hc, by decide⟩
  · refine ⟨c, hc, not_blank_of_isDigit hdigit, ?_⟩
    rintro rfl
    cases hdigit

namespace Reads

/-- A value that is read at the beginning of a text is read behind blanks. -/
theorem of_token (hi : i ≠ .nothing)
    (hhead : ∀ level, ∃ c ∈ (j.write level).toList.head?, c ∉ blanks ∧ c ≠ ']')
    (h : ∀ {level fuel rest}, (j.write level).toList.length ≤ fuel + 1 → Ended rest →
      readValue (fuel + 1) depth i ((j.write level).toList ++ rest) = some (found, rest)) :
    Reads depth i j found := by
  refine ⟨hhead, fun {level fuel bs rest} hbs hfuel hrest => ?_⟩
  obtain ⟨c, hc, -⟩ := hhead level
  have hpos : 0 < fuel := (List.length_pos_of_mem (List.mem_of_mem_head? hc)).trans_le hfuel
  obtain ⟨fuel, rfl⟩ := Nat.exists_eq_succ_of_ne_zero hpos.ne'
  rw [readValue_skip hi hbs]
  exact h hfuel hrest

theorem null (hi : i ≠ .nothing) : Reads depth i .null .null := by
  refine of_token hi (fun level => ⟨'n', by simp [write], by decide⟩) fun _ _ => ?_
  rw [write, readValue_null hi]

theorem bool {b : Bool} (hi : i ≠ .nothing) : Reads depth i (.bool b) (.bool b) := by
  refine of_token hi (fun level => ?_) fun _ _ => ?_
  · rw [write]
    split
    · exact ⟨'t', rfl, by decide⟩
    · exact ⟨'f', rfl, by decide⟩
  · rw [write, readValue_bool hi]

theorem str {s : String} (hi : i ≠ .nothing) : Reads depth i (.str s) (.str s) := by
  refine of_token hi (fun level => ⟨'"', by simp [write, quoted], by decide⟩) fun _ _ => ?_
  exact readValue_str hi

/-- A value that is written as one token of a number. -/
theorem number {n : Number} (hi : i ≠ .nothing)
    (hread : ∀ level, Number.read (j.write level).toList = some (n, []))
    (hvalue : n.value? = some found) : Reads depth i j found := by
  refine of_token hi (fun level => head_of_number (hread level)) fun {level _ _} _ hrest => ?_
  exact readValue_number hi (Number.read_append (hread level) hrest) hvalue

variable {μ : Type} {ms : List μ} {written read : μ → Json}

theorem write_arr_map : (Json.arr (ms.map written)).write level =
    bracketed "[" "]" level (ms.map fun m => (written m).write (level.map (· + 1))) := by
  rw [write_arr, List.map_map]
  rfl

theorem write_obj_map {key : μ → String} :
    (Json.obj (ms.map fun m => (key m, written m))).write level =
      bracketed "\x7b" "\x7d" level (ms.map fun m => fieldText level (key m, written m)) := by
  rw [write_obj, List.map_map]
  rfl

/-- Of an array is found what is found of its items. -/
theorem arr (hi : i ≠ .nothing)
    (h : ∀ e ∈ ms.zipIdx, Reads (depth + 1) (i.item e.2) (written e.1) (read e.1)) :
    Reads (depth + 2) i (.arr (ms.map written)) (.arr (ms.map read)) := by
  refine of_token hi (fun level => ⟨'[', ?_, by decide⟩) fun {level fuel rest} hfuel _ => ?_
  · rw [write_arr, bracketed]
    split <;> simp
  rw [write_arr_map] at hfuel ⊢
  cases ms with
  | nil =>
      rw [List.map_nil, toList_bracketed_nil]
      have hclosing : skipBlanks (']' :: rest) = ']' :: rest := skipBlanks_cons (by decide)
      show readValue _ _ _ ('[' :: ']' :: rest) = _
      rw [readValue_bracket hi hclosing, if_pos rfl]
      rfl
  | cons m ms =>
      obtain ⟨c, hc, hblank, hopen⟩ := (h (m, 0) List.mem_cons_self).head (level.map (· + 1))
      have hbrackets : "[".toList = ['['] ∧ "]".toList = [']'] := ⟨rfl, rfl⟩
      have htakes : ∀ e ∈ (m :: ms).zipIdx,
          Takes (fun fuel index => readItems fuel (depth + 1) i index) ']'
            ((written e.1).write (level.map (· + 1))) e.2 (read e.1) :=
        fun e he => takes_item (h e he)
      obtain ⟨inner, cs, htext, hskip, hread⟩ :=
        read_bracketed (fun m => (written m).write (level.map (· + 1))) read hbrackets.1
          hbrackets.2 (by decide) htakes hc hblank hfuel
      rw [htext, readValue_bracket hi hskip, if_neg hopen]
      exact congrArg (Option.map _) hread

/-- Of an object is found what is found of its fields. -/
theorem obj {key : μ → String} (hi : i ≠ .nothing)
    (h : ∀ m ∈ ms, Reads (depth + 1) (i.field (key m)) (written m) (read m)) :
    Reads (depth + 2) i (.obj (ms.map fun m => (key m, written m)))
      (.obj (ms.map fun m => (key m, read m))) := by
  refine of_token hi (fun level => ⟨'\x7b', ?_, by decide⟩) fun {level fuel rest} hfuel _ => ?_
  · rw [write_obj, bracketed]
    split <;> simp
  rw [write_obj_map] at hfuel ⊢
  cases ms with
  | nil =>
      rw [List.map_nil, toList_bracketed_nil]
      have hclosing : skipBlanks ('\x7d' :: rest) = '\x7d' :: rest := skipBlanks_cons (by decide)
      show readValue _ _ _ ('\x7b' :: '\x7d' :: rest) = _
      rw [readValue_brace hi hclosing, if_pos rfl]
      rfl
  | cons m ms =>
      have hc : '"' ∈ (fieldText level (key m, written m)).toList.head? := by
        rw [toList_fieldText]
        rfl
      have hbraces : "\x7b".toList = ['\x7b'] ∧ "\x7d".toList = ['\x7d'] := ⟨rfl, rfl⟩
      have htakes : ∀ e ∈ (m :: ms).zipIdx,
          Takes (fun fuel _ => readFields fuel (depth + 1) i) '\x7d'
            (fieldText level (key e.1, written e.1)) e.2 (key e.1, read e.1) :=
        fun e he => takes_field e.2 (h e.1 (List.fst_mem_of_mem_zipIdx he))
      obtain ⟨inner, cs, htext, hskip, hread⟩ :=
        read_bracketed (fun m => fieldText level (key m, written m)) (fun m => (key m, read m))
          hbraces.1 hbraces.2 (by decide) htakes hc (by decide) hfuel
      rw [htext, readValue_brace hi hskip, if_neg (by decide)]
      exact congrArg (Option.map _) hread

theorem single {x : Float32} (hi : i ≠ .nothing) (h : ExactSingle x) :
    Reads depth i (.single x) (reread x) := by
  obtain ⟨n, hread, hvalue⟩ := h.read
  refine number hi (fun level => ?_) hvalue
  rw [write, hread]

/-- Of a record is found what is found of its parts. -/
theorem record (names : List String) {vs ws : List Json}
    (h : List.Forall₂ (Reads (depth + 1) .whole) vs ws) :
    Reads (depth + 2) .whole (.obj (names.zip vs)) (.obj (names.zip ws)) := by
  obtain ⟨hlength, hparts⟩ := List.forall₂_iff_zip.mp h
  -- the fields of both, each name with what is written and what is found under it
  let fields := names.zip (vs.zip ws)
  have hvs : fields.map (fun f => (f.1, f.2.1)) = names.zip vs := by
    rw [← List.map_fst_zip hlength.le, List.zip_map_right]
    rfl
  have hws : fields.map (fun f => (f.1, f.2.2)) = names.zip ws := by
    rw [← List.map_snd_zip hlength.ge, List.zip_map_right]
    rfl
  have hfields : ∀ f ∈ fields, Reads (depth + 1) .whole f.2.1 f.2.2 :=
    fun f hf => hparts (List.of_mem_zip hf).2
  rw [← hvs, ← hws]
  exact obj wanted_whole hfields

end Reads

/-- What is legible is found wherever it stands. -/
theorem Legible.reads (h : Legible depth i j) : Reads depth i j j := by
  induction h with
  | null hi => exact .null hi
  | bool hi => exact .bool hi
  | str hi => exact .str hi
  | int hi hint =>
      obtain ⟨n, hread, hvalue⟩ := Number.read_intText hint
      refine .number hi (fun level => ?_) hvalue
      rw [write, hread]
  | double hi hdouble =>
      obtain ⟨n, hread, hvalue⟩ := hdouble.read
      refine .number hi (fun level => ?_) hvalue
      rw [write, hread]
  | @arr _ _ items hi _ ih =>
      have hitems : Reads _ _ (.arr (items.map id)) (.arr (items.map id)) := .arr hi ih
      rwa [List.map_id] at hitems
  | @obj _ _ fields hi _ ih =>
      have hfields : Reads _ _ (.obj (fields.map fun f => (f.1, f.2)))
        (.obj (fields.map fun f => (f.1, f.2))) := .obj hi ih
      rwa [List.map_id'] at hfields

/-- A text is read back in any layout. -/
theorem Reads.ofTextFor? (h : Reads depthLimit i j found) (level : Option Nat) :
    ofTextFor? i (j.write level) = some found := by
  have hread : readValue ((j.write level).toList.length + 1) depthLimit i
      ([] ++ ((j.write level).toList ++ [])) = some (found, []) :=
    h.read (fun c hc => nomatch hc) (Nat.le_succ _) (fun c hc => nomatch hc)
  rw [List.nil_append, List.append_nil] at hread
  rw [Json.ofTextFor?, hread]
  rfl

theorem ofTextFor?_write (h : Legible depthLimit i j) (level : Option Nat) :
    ofTextFor? i (j.write level) = some j := h.reads.ofTextFor? level

/-- A number that is not finite is written as null, so it is not what is read. -/
theorem Exact.finite {x : Float} (h : Exact x) : (Numeral.datum64 x).isFinite = true := by
  by_contra hinfinite
  have hnull : doubleText x = Json.null.write none := by
    rw [doubleText, numberText, if_neg hinfinite, write]
  have hread : ofText? (Json.null.write none) = some .null :=
    ofTextFor?_write (.null wanted_whole) none
  rw [Exact, hnull, hread] at h
  cases h

end FilterTree.Json
