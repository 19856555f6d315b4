import Mathlib.Algebra.Field.Rat
import Mathlib.Data.List.Nodup
import Mathlib.Data.List.Forall2

/-!
# A Reader for JSON

JSON values and a reference reader for RFC 8259. Text is a sequence of characters, a string
value is a sequence of Unicode scalar values, a number is exact, and an object keeps its
members in the order of the text. Escaped surrogates are read in pairs; one by itself denotes
no scalar value and is rejected.

`Denotes text value` says that the reader reads the value from the text, whatever follows the
text. Text put together from parts that denote values denotes the value put together from
these.

## Main results

* `denotesString_of_encodes`: encoded characters between quotes denote their string.
* `denotes_natural`: decimal digits denote their number.
* `denotes_array`, `denotes_object`: so do elements and members with commas between them.
* `Denotes.parse`: the reader accepts text that denotes a value.
* `distinctKeys_record`: an object with optional members at distinct keys has no key twice.
-/

/-- Text, character by character. -/
abbrev Text := List Char

/-- A JSON value. -/
inductive Json
  | null
  | bool (b : Bool)
  | number (q : ℚ)
  | string (s : Text)
  | array (items : List Json)
  | object (members : List (Text × Json))

namespace Json

/-! ### Reading strings -/

/-- The value of a hexadecimal digit. -/
def hexValue (c : Char) : Option ℕ :=
  if '0' ≤ c ∧ c ≤ '9' then some (c.toNat - 48)
  else if 'a' ≤ c ∧ c ≤ 'f' then some (c.toNat - 87)
  else if 'A' ≤ c ∧ c ≤ 'F' then some (c.toNat - 55)
  else none

/-- Four hexadecimal digits. -/
def parseHex : Text → Option (ℕ × Text)
  | a :: b :: c :: d :: cs => do
      let a ← hexValue a
      let b ← hexValue b
      let c ← hexValue c
      let d ← hexValue d
      some (((a * 16 + b) * 16 + c) * 16 + d, cs)
  | _ => none

/-- The character behind a backslash and "u"; two surrogates make one character. -/
def parseUnicode (cs : Text) : Option (Char × Text) := do
  let (high, cs) ← parseHex cs
  if 0xD800 ≤ high ∧ high < 0xDC00 then
    match cs with
    | '\\' :: 'u' :: cs => do
        let (low, cs) ← parseHex cs
        if 0xDC00 ≤ low ∧ low < 0xE000 then
          some (Char.ofNat (0x10000 + (high - 0xD800) * 0x400 + (low - 0xDC00)), cs)
        else none
    | _ => none
  else if 0xDC00 ≤ high ∧ high < 0xE000 then none
  else some (Char.ofNat high, cs)

/-- The character that a letter behind a backslash stands for. -/
def simpleEscape (c : Char) : Option Char :=
  if c = '"' ∨ c = '\\' ∨ c = '/' then some c
  else if c = 'b' then some '\x08'
  else if c = 'f' then some '\x0c'
  else if c = 'n' then some '\n'
  else if c = 'r' then some '\r'
  else if c = 't' then some '\t'
  else none

/-- The character behind a backslash. -/
def parseEscape : Text → Option (Char × Text)
  | [] => none
  | c :: cs =>
      if c = 'u' then parseUnicode cs else (simpleEscape c).map fun c => (c, cs)

/-- A character of a string; control characters must be escaped. -/
def parseChar : Text → Option (Char × Text)
  | [] => none
  | c :: cs =>
      if c = '\\' then parseEscape cs
      else if c.toNat < 0x20 then none
      else some (c, cs)

/-- At most `fuel` characters up to the closing quote. -/
def parseChars : ℕ → Text → Option (Text × Text)
  | 0, _ => none
  | fuel + 1, cs =>
      if cs.head? = some '"' then some ([], cs.tail)
      else do
        let (c, cs) ← parseChar cs
        let (s, cs) ← parseChars fuel cs
        some (c :: s, cs)

/-- A string behind its opening quote. -/
def parseString (cs : Text) : Option (Text × Text) := parseChars cs.length cs

/-! ### Reading numbers -/

/-- The digits in front of text, at least one. -/
def parseDigits (cs : Text) : Option (Text × Text) :=
  if cs.takeWhile Char.isDigit = [] then none
  else some (cs.takeWhile Char.isDigit, cs.dropWhile Char.isDigit)

/-- The integral part of a number, without superfluous zeros in front. -/
def parseIntegral (cs : Text) : Option (ℕ × Text) :=
  if cs.head? = some '0' then some (0, cs.tail)
  else (parseDigits cs).map fun (digits, cs) => (Nat.ofDigitChars 10 digits 0, cs)

/-- The fractional part of a number, if there is one. -/
def parseFraction (cs : Text) : Option (ℚ × Text) :=
  if cs.head? = some '.' then
    (parseDigits cs.tail).map fun (digits, cs) =>
      (Nat.ofDigitChars 10 digits 0 / 10 ^ digits.length, cs)
  else some (0, cs)

/-- The exponent of a number, if there is one. -/
def parseExponent (cs : Text) : Option (ℤ × Text) :=
  if cs.head? = some 'e' ∨ cs.head? = some 'E' then
    let cs := cs.tail
    let sign : ℤ := if cs.head? = some '-' then -1 else 1
    let cs := if cs.head? = some '-' ∨ cs.head? = some '+' then cs.tail else cs
    (parseDigits cs).map fun (digits, cs) => (sign * Nat.ofDigitChars 10 digits 0, cs)
  else some (0, cs)

/-- A number. -/
def parseNumber (cs : Text) : Option (ℚ × Text) := do
  let sign : ℚ := if cs.head? = some '-' then -1 else 1
  let (integral, cs) ← parseIntegral (if cs.head? = some '-' then cs.tail else cs)
  let (fraction, cs) ← parseFraction cs
  let (exponent, cs) ← parseExponent cs
  some (sign * (integral + fraction) * 10 ^ exponent, cs)

/-! ### Reading values -/

/-- White space between tokens. -/
def isWhitespace (c : Char) : Bool := c = ' ' ∨ c = '\t' ∨ c = '\n' ∨ c = '\r'

/-- Text without the white space in front. -/
def skipWhitespace (cs : Text) : Text := cs.dropWhile isWhitespace

/-- A value that is written as a word. -/
def parseWord (word : String) (value : Json) (cs : Text) : Option (Json × Text) :=
  if word.toList <+: cs then some (value, cs.drop word.toList.length) else none

mutual

/-- A value, nested at most `fuel` deep. -/
def parseValue : ℕ → Text → Option (Json × Text)
  | 0, _ => none
  | fuel + 1, cs =>
      match skipWhitespace cs with
      | [] => none
      | c :: cs =>
          if c = '"' then (parseString cs).map fun (s, cs) => (.string s, cs)
          else if c = '[' then
            if (skipWhitespace cs).head? = some ']' then
              some (.array [], (skipWhitespace cs).tail)
            else (parseElements fuel cs).map fun (items, cs) => (.array items, cs)
          else if c = '{' then
            if (skipWhitespace cs).head? = some '}' then
              some (.object [], (skipWhitespace cs).tail)
            else (parseMembers fuel cs).map fun (members, cs) => (.object members, cs)
          else if c = 't' then parseWord "true" (.bool true) (c :: cs)
          else if c = 'f' then parseWord "false" (.bool false) (c :: cs)
          else if c = 'n' then parseWord "null" .null (c :: cs)
          else (parseNumber (c :: cs)).map fun (q, cs) => (.number q, cs)

/-- The elements of an array, up to the closing bracket. -/
def parseElements : ℕ → Text → Option (List Json × Text)
  | 0, _ => none
  | fuel + 1, cs => do
      let (item, cs) ← parseValue fuel cs
      match skipWhitespace cs with
      | ']' :: cs => some ([item], cs)
      | ',' :: cs => do
          let (items, cs) ← parseElements fuel cs
          some (item :: items, cs)
      | _ => none

/-- The members of an object, up to the closing brace. -/
def parseMembers : ℕ → Text → Option (List (Text × Json) × Text)
  | 0, _ => none
  | fuel + 1, cs =>
      match skipWhitespace cs with
      | '"' :: cs => do
          let (key, cs) ← parseString cs
          match skipWhitespace cs with
          | ':' :: cs => do
              let (value, cs) ← parseValue fuel cs
              match skipWhitespace cs with
              | '}' :: cs => some ([(key, value)], cs)
              | ',' :: cs => do
                  let (members, cs) ← parseMembers fuel cs
                  some ((key, value) :: members, cs)
              | _ => none
          | _ => none
      | _ => none

end

/-- Read text that holds one value and nothing else. -/
def parse (text : Text) : Option Json :=
  match parseValue (2 * text.length) text with
  | some (value, rest) => if skipWhitespace rest = [] then some value else none
  | none => none

/-! ### Text that denotes a value -/

/-- A number ends in front of such text. -/
def Stops (rest : Text) : Prop :=
  ∀ c ∈ rest.head?, c.isDigit = false ∧ c ≠ '.' ∧ c ≠ 'e' ∧ c ≠ 'E'

/-- The reader reads the value from the text and leaves what follows. -/
def Denotes (text : Text) (value : Json) : Prop :=
  ∀ fuel rest, 2 * text.length ≤ fuel → Stops rest →
    parseValue fuel (text ++ rest) = some (value, rest)

/-- The reader reads the string from the text, which is quoted, and leaves what follows. -/
def DenotesString (text s : Text) : Prop :=
  ∃ body, text = '"' :: body ∧ ∀ rest, parseString (body ++ rest) = some (s, rest)

/-- Text for one character of a string. -/
def Encodes (piece : Text) (c : Char) : Prop :=
  piece ≠ [] ∧ piece.head? ≠ some '"' ∧ ∀ rest, parseChar (piece ++ rest) = some (c, rest)

/-- A number ends at the end of the text. -/
theorem stops_nil : Stops [] := by
  intro c hc
  exact absurd hc (by simp)

/-- A number ends in front of a character that is no digit, no point and no exponent
letter; the instances for the separators follow below. -/
theorem stops_cons {c : Char} (hdigit : c.isDigit = false) (hc : c ≠ '.' ∧ c ≠ 'e' ∧ c ≠ 'E')
    (rest : Text) : Stops (c :: rest) := by
  intro c' hc'
  obtain rfl := Option.some.inj hc'
  exact ⟨hdigit, hc⟩

/-- **The reader accepts text that denotes a value.** -/
theorem Denotes.parse {text : Text} {value : Json} (h : Denotes text value) :
    parse text = some value := by
  have hvalue := h (2 * text.length) [] le_rfl stops_nil
  rw [List.append_nil] at hvalue
  rw [Json.parse, hvalue]
  rfl

/-! ### Strings -/

/-- **The characters of a string**, piece by piece: each piece is read as its character,
and the closing quote ends the string, with fuel for every character. -/
theorem parseChars_pieces {pieces : List Text} {s : Text} (h : List.Forall₂ Encodes pieces s)
    (rest : Text) {fuel : ℕ} (hfuel : s.length < fuel) :
    parseChars fuel (pieces.flatten ++ '"' :: rest) = some (s, rest) := by
  induction h generalizing fuel with
  | nil =>
      obtain ⟨fuel, rfl⟩ := Nat.exists_eq_succ_of_ne_zero (Nat.ne_of_gt hfuel)
      rfl
  | @cons piece c pieces s hpiece _ ih =>
      obtain ⟨fuel, rfl⟩ := Nat.exists_eq_succ_of_ne_zero (Nat.ne_of_gt (Nat.zero_lt_of_lt hfuel))
      obtain ⟨hne, hquote, hread⟩ := hpiece
      have hhead : (piece ++ (pieces.flatten ++ '"' :: rest)).head? ≠ some '"' := by
        rwa [List.head?_append_of_ne_nil _ hne]
      rw [List.flatten_cons, List.append_assoc, parseChars, if_neg hhead, hread]
      have hrest := ih (Nat.lt_of_succ_lt_succ hfuel)
      simp only [bind, Option.bind, hrest]

/-- **Encoded characters between quotes denote their string.** No piece is empty, so the
text is long enough as fuel for all of its characters. -/
theorem denotesString_of_encodes {pieces : List Text} {s : Text}
    (h : List.Forall₂ Encodes pieces s) :
    DenotesString ('"' :: pieces.flatten ++ ['"']) s := by
  refine ⟨pieces.flatten ++ ['"'], rfl, ?_⟩
  intro rest
  rw [List.append_assoc, List.singleton_append, parseString]
  refine parseChars_pieces h rest ?_
  have hlength : s.length ≤ pieces.flatten.length := by
    clear rest
    induction h with
    | nil => exact Nat.zero_le _
    | cons hpiece _ ih =>
        have hpos := List.length_pos_of_ne_nil hpiece.1
        rw [List.flatten_cons, List.length_append, List.length_cons]
        omega
  rw [List.length_append, List.length_cons]
  omega

/-- A character that may stand for itself does so. -/
theorem encodes_self {c : Char} (hquote : c ≠ '"') (hbackslash : c ≠ '\\')
    (hcontrol : 0x20 ≤ c.toNat) : Encodes [c] c := by
  refine ⟨List.cons_ne_nil _ _, fun h => hquote (Option.some.inj h), ?_⟩
  intro rest
  rw [List.singleton_append, parseChar, if_neg hbackslash, if_neg (Nat.not_lt.mpr hcontrol)]

/-- The text of a string denotes the string as a value, since the quote in front of it
settles that it is one. -/
theorem DenotesString.denotes {text s : Text} (h : DenotesString text s) :
    Denotes text (.string s) := by
  obtain ⟨body, rfl, hread⟩ := h
  intro fuel rest hfuel _
  rw [List.length_cons] at hfuel
  obtain ⟨fuel, rfl⟩ := Nat.exists_eq_succ_of_ne_zero (show fuel ≠ 0 by omega)
  rw [List.cons_append, parseValue, show skipWhitespace ('"' :: (body ++ rest)) =
    '"' :: (body ++ rest) from rfl]
  dsimp only
  rw [if_pos rfl, hread]
  rfl

/-! ### Words and numbers -/

/-- The text `true` denotes the truth value. -/
theorem denotes_true : Denotes "true".toList (.bool true) := by
  intro fuel rest hfuel _
  obtain ⟨fuel, rfl⟩ := Nat.exists_eq_succ_of_ne_zero (show fuel ≠ 0 by
    rintro rfl
    exact absurd hfuel (by decide))
  rfl

/-- The text `false` denotes the truth value. -/
theorem denotes_false : Denotes "false".toList (.bool false) := by
  intro fuel rest hfuel _
  obtain ⟨fuel, rfl⟩ := Nat.exists_eq_succ_of_ne_zero (show fuel ≠ 0 by
    rintro rfl
    exact absurd hfuel (by decide))
  rfl

/-- The decimal digits of a natural number. -/
def naturalText (n : ℕ) : Text := Nat.toDigits 10 n

/-- The decimal digits of an integer, behind a minus sign if it is negative. -/
def integerText : ℤ → Text
  | .ofNat n => naturalText n
  | .negSucc n => '-' :: naturalText (n + 1)

/-- The digits of a natural number are digits for the reader. -/
theorem isDigit_of_mem_naturalText {n : ℕ} {c : Char} (hc : c ∈ naturalText n) :
    c.isDigit = true :=
  Nat.isDigit_of_mem_toDigits (by omega) (by omega) hc

/-- A natural number has a digit. -/
theorem naturalText_ne_nil (n : ℕ) : naturalText n ≠ [] := Nat.toDigits_ne_nil

/-- A positive number does not begin with a zero, which the reader would take to be the
whole number. -/
theorem head?_naturalText {n : ℕ} (h : 0 < n) : (naturalText n).head? ≠ some '0' := by
  induction n using Nat.strongRecOn with
  | _ n ih =>
      rw [naturalText, Nat.toDigits_eq_if (by omega)]
      split
      · intro hzero
        have hn := Nat.digitChar_eq_zero.mp (Option.some.inj hzero)
        omega
      · rw [List.head?_append_of_ne_nil _ Nat.toDigits_ne_nil]
        exact ih (n / 10) (by omega) (by omega)

/-- All digits in front of text are taken. The text behind does not begin with a digit. -/
theorem parseDigits_append {digits rest : Text} (hne : digits ≠ [])
    (hall : ∀ c ∈ digits, c.isDigit = true) (hrest : Stops rest) :
    parseDigits (digits ++ rest) = some (digits, rest) := by
  have htake : rest.takeWhile Char.isDigit = [] := by
    cases rest with
    | nil => rfl
    | cons c rest => rw [List.takeWhile_cons, (hrest c rfl).1, if_neg Bool.false_ne_true]
  have hdrop : rest.dropWhile Char.isDigit = rest := by
    cases rest with
    | nil => rfl
    | cons c rest => rw [List.dropWhile_cons, (hrest c rfl).1, if_neg Bool.false_ne_true]
  rw [parseDigits, List.takeWhile_append_of_pos hall, List.dropWhile_append_of_pos hall, htake,
    hdrop, List.append_nil, if_neg hne]

/-- **The integral part reads back**: zero is a digit of its own, and any other number is
a run of digits up to where it ends. -/
theorem parseIntegral_naturalText (n : ℕ) {rest : Text} (hrest : Stops rest) :
    parseIntegral (naturalText n ++ rest) = some (n, rest) := by
  rw [parseIntegral]
  rcases Nat.eq_zero_or_pos n with rfl | hpos
  · rfl
  · rw [List.head?_append_of_ne_nil _ (naturalText_ne_nil n), if_neg (head?_naturalText hpos),
      parseDigits_append (naturalText_ne_nil n) (fun _ => isDigit_of_mem_naturalText) hrest,
      Option.map_some]
    dsimp only
    rw [naturalText, Nat.ofDigitChars_ten_toDigits]

/-- There is no fraction where a number ends. -/
theorem parseFraction_stops {rest : Text} (h : Stops rest) :
    parseFraction rest = some (0, rest) :=
  if_neg fun hdot => (h '.' hdot).2.1 rfl

/-- There is no exponent where a number ends. -/
theorem parseExponent_stops {rest : Text} (h : Stops rest) :
    parseExponent rest = some (0, rest) := by
  refine if_neg ?_
  rintro (he | hE)
  · exact (h 'e' he).2.2.1 rfl
  · exact (h 'E' hE).2.2.2 rfl

/-- **Integers read back**, with their sign, without a fraction and without an
exponent. -/
theorem parseNumber_integerText (z : ℤ) {rest : Text} (hrest : Stops rest) :
    parseNumber (integerText z ++ rest) = some ((z : ℚ), rest) := by
  have hparts : ∀ n : ℕ, parseIntegral (naturalText n ++ rest) = some (n, rest) :=
    fun n => parseIntegral_naturalText n hrest
  cases z with
  | ofNat n =>
      have hsign : (naturalText n ++ rest).head? ≠ some '-' := by
        rw [List.head?_append_of_ne_nil _ (naturalText_ne_nil n)]
        intro hminus
        exact absurd (isDigit_of_mem_naturalText (List.mem_of_head? hminus)) (by decide)
      rw [integerText, parseNumber, if_neg hsign, if_neg hsign]
      simp [hparts, parseFraction_stops hrest, parseExponent_stops hrest]
  | negSucc n =>
      rw [integerText, List.cons_append, parseNumber]
      simp [hparts, parseFraction_stops hrest, parseExponent_stops hrest, Int.negSucc_eq]

/-- A digit or a minus sign begins a number, since it is none of the characters that begin
another kind of value, and no white space. -/
theorem parseValue_number {c : Char} (hc : c.isDigit = true ∨ c = '-') (fuel : ℕ) (cs : Text) :
    parseValue (fuel + 1) (c :: cs) =
      (parseNumber (c :: cs)).map fun (q, cs) => (.number q, cs) := by
  have hother : ∀ d : Char, d.isDigit = false → d ≠ '-' → c ≠ d := by
    rintro d hd hminus rfl
    rcases hc with hc | hc
    · exact absurd hc (by simp [hd])
    · exact hminus hc
  have hspace : skipWhitespace (c :: cs) = c :: cs := by
    refine List.dropWhile_cons_of_neg ?_
    rw [isWhitespace, decide_eq_true_eq]
    rintro (h | h | h | h)
    · exact hother _ (by decide) (by decide) h
    · exact hother _ (by decide) (by decide) h
    · exact hother _ (by decide) (by decide) h
    · exact hother _ (by decide) (by decide) h
  rw [parseValue, hspace]
  dsimp only
  rw [if_neg (hother _ (by decide) (by decide)), if_neg (hother _ (by decide) (by decide)),
    if_neg (hother _ (by decide) (by decide)), if_neg (hother _ (by decide) (by decide)),
    if_neg (hother _ (by decide) (by decide)), if_neg (hother _ (by decide) (by decide))]

/-- **Decimal digits denote their number.** They begin with a digit or a minus sign,
behind which the number is read as a whole. -/
theorem denotes_integer (z : ℤ) : Denotes (integerText z) (.number z) := by
  intro fuel rest hfuel hrest
  have hhead : ∃ c cs, integerText z = c :: cs ∧ (c.isDigit = true ∨ c = '-') := by
    cases z with
    | ofNat n =>
        obtain ⟨c, cs, hcs⟩ := List.exists_cons_of_ne_nil (naturalText_ne_nil n)
        exact ⟨c, cs, hcs, .inl (isDigit_of_mem_naturalText (hcs ▸ List.mem_cons_self))⟩
    | negSucc n => exact ⟨'-', _, rfl, .inr rfl⟩
  obtain ⟨c, cs, hcs, hc⟩ := hhead
  have hpos : fuel ≠ 0 := by
    rw [hcs, List.length_cons] at hfuel
    omega
  obtain ⟨fuel, rfl⟩ := Nat.exists_eq_succ_of_ne_zero hpos
  have hnumber := parseNumber_integerText z hrest
  rw [hcs, List.cons_append] at hnumber ⊢
  rw [parseValue_number hc, hnumber]
  rfl

/-- The digits of a natural number denote it. -/
theorem denotes_natural (n : ℕ) : Denotes (naturalText n) (.number n) :=
  denotes_integer n

/-! ### Arrays and objects -/

/-- Nothing is skipped in front of a character that is no white space. -/
theorem skipWhitespace_cons {c : Char} (h : isWhitespace c = false) (cs : Text) :
    skipWhitespace (c :: cs) = c :: cs :=
  List.dropWhile_cons_of_neg (by simp [h])

/-- A comma is no white space. -/
theorem isWhitespace_comma : isWhitespace ',' = false := by decide

/-- Texts with commas between them. -/
def separated (texts : List Text) : Text := [','].intercalate texts

/-- A single text stands alone. -/
theorem separated_singleton (text : Text) : separated [text] = text :=
  List.intercalate_singleton

/-- A comma stands between a text and the next one. -/
theorem separated_cons_cons (text text' : Text) (texts : List Text) :
    separated (text :: text' :: texts) = text ++ ',' :: separated (text' :: texts) := by
  rw [separated, List.intercalate_cons_of_ne_nil (List.cons_ne_nil _ _), List.append_assoc,
    List.singleton_append, separated]

/-- Every text but the first stands behind a comma. -/
theorem separated_cons (text : Text) (texts : List Text) :
    separated (text :: texts) = text ++ texts.flatMap fun text => ',' :: text := by
  induction texts generalizing text with
  | nil => rw [separated_singleton, List.flatMap_nil, List.append_nil]
  | cons text' texts ih => rw [separated_cons_cons, ih, List.flatMap_cons, List.cons_append]

/-- Text for a member of an object. -/
def DenotesMember (text : Text) (member : Text × Json) : Prop :=
  ∃ keyText valueText, text = keyText ++ ':' :: valueText ∧ DenotesString keyText member.1 ∧
    Denotes valueText member.2

/-- A number ends in front of a comma. -/
theorem stops_comma (rest : Text) : Stops (',' :: rest) :=
  stops_cons (by decide) (by decide) rest

/-- A number ends in front of the end of an array. -/
theorem stops_bracket (rest : Text) : Stops (']' :: rest) :=
  stops_cons (by decide) (by decide) rest

/-- A number ends in front of the end of an object. -/
theorem stops_brace (rest : Text) : Stops ('}' :: rest) :=
  stops_cons (by decide) (by decide) rest

/-- No value begins with a closing bracket. -/
theorem head?_ne_bracket {fuel : ℕ} {cs : Text} {result : Json × Text}
    (h : parseValue fuel cs = some result) : (skipWhitespace cs).head? ≠ some ']' := by
  intro hhead
  obtain ⟨rest, hrest⟩ := List.head?_eq_some_iff.mp hhead
  cases fuel with
  | zero => exact absurd h (by simp [parseValue])
  | succ fuel =>
      rw [parseValue, hrest] at h
      exact absurd h (by simp [parseNumber, parseIntegral, parseDigits, Char.isDigit])

/-- **The elements of an array read back**: each value is read from its text, and the
comma or the bracket behind it says whether another one follows. -/
theorem parseElements_separated {texts : List Text} {values : List Json}
    (h : List.Forall₂ Denotes texts values) (hne : texts ≠ []) (rest : Text) {fuel : ℕ}
    (hfuel : 2 * (separated texts).length < fuel) :
    parseElements fuel (separated texts ++ ']' :: rest) = some (values, rest) := by
  induction h generalizing fuel with
  | nil => exact absurd rfl hne
  | @cons text value texts values htext hrest ih =>
      obtain ⟨fuel, rfl⟩ := Nat.exists_eq_succ_of_ne_zero (Nat.ne_of_gt (Nat.zero_lt_of_lt hfuel))
      rw [parseElements]
      cases hrest with
      | nil =>
          rw [separated_singleton] at hfuel ⊢
          rw [htext fuel _ (Nat.le_of_lt_succ hfuel) (stops_bracket rest)]
          rfl
      | @cons text' value' texts values htext' hrest =>
          rw [separated_cons_cons] at hfuel ⊢
          rw [List.length_append, List.length_cons] at hfuel
          rw [List.append_assoc, List.cons_append,
            htext fuel _ (by omega) (stops_comma _)]
          have hmore := ih (List.cons_ne_nil _ _)
            (show 2 * (separated (text' :: texts)).length < fuel by omega)
          simp only [bind, Option.bind, skipWhitespace_cons isWhitespace_comma, hmore]

/-- **Elements with commas between them denote an array.** Without elements the bracket
closes it at once; otherwise the first character is not the closing bracket, and the
elements are read in turn. -/
theorem denotes_array {texts : List Text} {values : List Json}
    (h : List.Forall₂ Denotes texts values) :
    Denotes ('[' :: separated texts ++ [']']) (.array values) := by
  intro fuel rest hfuel _
  rw [List.cons_append, List.length_cons, List.length_append, List.length_singleton] at hfuel
  obtain ⟨fuel, rfl⟩ := Nat.exists_eq_succ_of_ne_zero (show fuel ≠ 0 by omega)
  rw [List.cons_append, List.cons_append, List.append_assoc, List.singleton_append, parseValue,
    skipWhitespace_cons (by decide)]
  dsimp only
  rw [if_neg (by decide), if_pos rfl]
  by_cases hne : texts = []
  · subst hne
    cases h
    rfl
  · have helements := parseElements_separated h hne rest
      (show 2 * (separated texts).length < fuel by omega)
    have hopen : (skipWhitespace (separated texts ++ ']' :: rest)).head? ≠ some ']' := by
      cases fuel with
      | zero => exact absurd helements (by simp [parseElements])
      | succ fuel =>
          rw [parseElements] at helements
          obtain ⟨result, hresult, -⟩ := Option.bind_eq_some_iff.mp helements
          exact head?_ne_bracket hresult
    rw [if_neg hopen, helements]
    rfl

/-- **The members of an object read back**, as the elements of an array do: a key, a colon
and a value each. -/
theorem parseMembers_separated {texts : List Text} {members : List (Text × Json)}
    (h : List.Forall₂ DenotesMember texts members) (hne : texts ≠ []) (rest : Text) {fuel : ℕ}
    (hfuel : 2 * (separated texts).length < fuel) :
    parseMembers fuel (separated texts ++ '}' :: rest) = some (members, rest) := by
  induction h generalizing fuel with
  | nil => exact absurd rfl hne
  | @cons text member texts members htext hrest ih =>
      obtain ⟨fuel, rfl⟩ := Nat.exists_eq_succ_of_ne_zero (Nat.ne_of_gt (Nat.zero_lt_of_lt hfuel))
      obtain ⟨keyText, valueText, rfl, ⟨key, rfl, hkey⟩, hvalue⟩ := htext
      have hcolon : isWhitespace ':' = false := by decide
      have hquote : isWhitespace '"' = false := by decide
      have hbrace : isWhitespace '}' = false := by decide
      cases hrest with
      | nil =>
          rw [separated_singleton] at hfuel ⊢
          simp only [List.length_append, List.length_cons] at hfuel
          have hread := hvalue fuel _ (by omega) (stops_brace rest)
          rw [parseMembers]
          simp only [List.cons_append, List.append_assoc, skipWhitespace_cons hquote, bind,
            Option.bind, hkey, skipWhitespace_cons hcolon, hread, skipWhitespace_cons hbrace]
      | @cons text' member' texts members htext' hrest =>
          rw [separated_cons_cons] at hfuel ⊢
          simp only [List.length_append, List.length_cons] at hfuel
          have hread := hvalue fuel _ (by omega)
            (stops_comma (separated (text' :: texts) ++ '}' :: rest))
          have hmore := ih (List.cons_ne_nil _ _)
            (show 2 * (separated (text' :: texts)).length < fuel by omega)
          rw [parseMembers]
          simp only [List.cons_append, List.append_assoc, skipWhitespace_cons hquote, bind,
            Option.bind, hkey, skipWhitespace_cons hcolon, hread,
            skipWhitespace_cons isWhitespace_comma, hmore]

/-- **Members with commas between them denote an object.** Without members the brace
closes it at once; otherwise the members are read in turn, each from its key. -/
theorem denotes_object {texts : List Text} {members : List (Text × Json)}
    (h : List.Forall₂ DenotesMember texts members) :
    Denotes ('{' :: separated texts ++ ['}']) (.object members) := by
  intro fuel rest hfuel _
  rw [List.cons_append, List.length_cons, List.length_append, List.length_singleton] at hfuel
  obtain ⟨fuel, rfl⟩ := Nat.exists_eq_succ_of_ne_zero (show fuel ≠ 0 by omega)
  rw [List.cons_append, List.cons_append, List.append_assoc, List.singleton_append, parseValue,
    skipWhitespace_cons (by decide)]
  dsimp only
  rw [if_neg (by decide), if_neg (by decide), if_pos rfl]
  by_cases hne : texts = []
  · subst hne
    cases h
    rfl
  · have hmembers := parseMembers_separated h hne rest
      (show 2 * (separated texts).length < fuel by omega)
    have hopen : (skipWhitespace (separated texts ++ '}' :: rest)).head? ≠ some '}' := by
      intro hbrace
      obtain ⟨cs, hcs⟩ := List.head?_eq_some_iff.mp hbrace
      cases fuel with
      | zero => exact absurd hmembers (by simp [parseMembers])
      | succ fuel =>
          rw [parseMembers, hcs] at hmembers
          exact absurd hmembers (by simp)
    rw [if_neg hopen, hmembers]
    rfl

/-! ### Objects with optional members -/

/-- The members that are present. -/
def present {α : Type*} (fields : List (Text × Option α)) : List (Text × α) :=
  fields.filterMap fun field => field.2.map fun value => (field.1, value)

/-- An object whose members may be absent. -/
def record (fields : List (Text × Option Json)) : Json := .object (present fields)

/-- Text for a member that may be absent, behind a comma if it is there. -/
def DenotesField (piece : Text) (field : Text × Option Json) : Prop :=
  Option.elim field.2 (piece = []) fun value =>
    ∃ text, piece = ',' :: text ∧ DenotesMember text (field.1, value)

/-- The pieces that are not empty denote the members that are present. An absent field has
no piece, and a piece that is there has a comma in front of it. -/
theorem denotesMember_present {pieces : List Text} {fields : List (Text × Option Json)}
    (h : List.Forall₂ DenotesField pieces fields) :
    ∃ texts, pieces.flatten = texts.flatMap (fun text => ',' :: text) ∧
      List.Forall₂ DenotesMember texts (present fields) := by
  induction h with
  | nil => exact ⟨[], rfl, .nil⟩
  | @cons piece field pieces fields hpiece _ ih =>
      obtain ⟨texts, htexts, hall⟩ := ih
      obtain ⟨key, value⟩ := field
      cases value with
      | none =>
          have hempty : piece = [] := hpiece
          exact ⟨texts, by rw [List.flatten_cons, hempty, List.nil_append, htexts], hall⟩
      | some value =>
          obtain ⟨text, rfl, hmember⟩ := hpiece
          exact ⟨text :: texts, by rw [List.flatten_cons, htexts, List.flatMap_cons],
            .cons hmember hall⟩

/-- **Members of which all but the first may be absent denote a record.** -/
theorem denotes_record {first : Text} {key : Text} {value : Json} {pieces : List Text}
    {fields : List (Text × Option Json)} (hfirst : DenotesMember first (key, value))
    (h : List.Forall₂ DenotesField pieces fields) :
    Denotes ('{' :: (first ++ pieces.flatten) ++ ['}']) (record ((key, some value) :: fields)) := by
  obtain ⟨texts, htexts, hall⟩ := denotesMember_present h
  rw [htexts, ← separated_cons]
  exact denotes_object (.cons hfirst hall)

/-- No object in the value has two members with the same key. -/
inductive DistinctKeys : Json → Prop
  | null : DistinctKeys .null
  | bool (b : Bool) : DistinctKeys (.bool b)
  | number (q : ℚ) : DistinctKeys (.number q)
  | string (s : Text) : DistinctKeys (.string s)
  | array {items : List Json} : (∀ item ∈ items, DistinctKeys item) → DistinctKeys (.array items)
  | object {members : List (Text × Json)} : (members.map Prod.fst).Nodup →
      (∀ member ∈ members, DistinctKeys member.2) → DistinctKeys (.object members)

/-- A value that is absent or has no repeated keys. -/
def DistinctIfPresent (value : Option Json) : Prop := ∀ v ∈ value, DistinctKeys v

/-- The names of the fields that are present are some of the names of all fields, in the
same order. -/
theorem present_sublist {α : Type*} (fields : List (Text × Option α)) :
    ((present fields).map Prod.fst).Sublist (fields.map Prod.fst) := by
  induction fields with
  | nil => exact List.Sublist.slnil
  | cons field fields ih =>
      obtain ⟨key, value⟩ := field
      cases value with
      | none => exact ih.cons key
      | some value => exact ih.cons_cons key

/-- **Optional members at distinct keys**: no key occurs twice. The members that are there
are some of all, in their order. -/
theorem distinctKeys_record {fields : List (Text × Option Json)}
    (hkeys : (fields.map Prod.fst).Nodup)
    (hvalues : fields.Forall fun field => DistinctIfPresent field.2) :
    DistinctKeys (record fields) := by
  rw [List.forall_iff_forall_mem] at hvalues
  refine .object ((present_sublist fields).nodup hkeys) ?_
  intro member hmember
  obtain ⟨field, hfield, hsome⟩ := List.mem_filterMap.mp hmember
  obtain ⟨value, hvalue, rfl⟩ := Option.map_eq_some_iff.mp hsome
  exact hvalues field hfield value hvalue

end Json
