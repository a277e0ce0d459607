import MarketDataEngine.JsonText

/-!
# Spellings of JSON

A JSON text as a tree that keeps how everything in it is written: blanks, escapes, and
the order of fields. Such a text has a meaning, where names are strings like any other,
and a value that an on-demand reader presents, where names stand as they are written.
-/

open QuotedWords

namespace SpelledJson

/-! ## Strings -/

/-- A hexadecimal digit, in either case. -/
abbrev HexByte := {byte : UInt8 //
  (48 ≤ byte ∧ byte ≤ 57) ∨ (65 ≤ byte ∧ byte ≤ 70) ∨ (97 ≤ byte ∧ byte ≤ 102)}

def HexByte.value (digit : HexByte) : Nat :=
  if digit.1 ≤ 57 then digit.1.toNat - 48
  else if digit.1 ≤ 70 then digit.1.toNat - 55
  else digit.1.toNat - 87

/-- The four digits of an escaped code unit. -/
structure CodeUnit where
  first : HexByte
  second : HexByte
  third : HexByte
  fourth : HexByte

def CodeUnit.value (unit : CodeUnit) : Nat :=
  16 * (16 * (16 * unit.first.value + unit.second.value) + unit.third.value) + unit.fourth.value

def CodeUnit.text (unit : CodeUnit) : List UInt8 :=
  [92, 117, unit.first, unit.second, unit.third, unit.fourth]

/-- The characters that have an escape of their own. -/
def shortEscape? (letter : UInt8) : Option UInt8 :=
  if letter = 34 ∨ letter = 92 ∨ letter = 47 then some letter
  else if letter = 98 then some 8
  else if letter = 102 then some 12
  else if letter = 110 then some 10
  else if letter = 114 then some 13
  else if letter = 116 then some 9
  else none

/-- Characters that can stand in a string as they are. -/
def Free (c : Char) : Prop := 32 ≤ c.toNat ∧ c ≠ '"' ∧ c ≠ '\\'

instance (c : Char) : Decidable (Free c) := inferInstanceAs (Decidable (_ ∧ _))

/-- How one character of a string is written. -/
inductive Piece where
  | plain (c : Char) (free : Free c)
  | short (letter byte : UInt8) (known : shortEscape? letter = some byte)
  | unit (code : CodeUnit) (scalar : code.value < 0xD800 ∨ 0xDFFF < code.value)
  | pair (high low : CodeUnit) (surrogates : (0xD800 ≤ high.value ∧ high.value ≤ 0xDBFF) ∧
      (0xDC00 ≤ low.value ∧ low.value ≤ 0xDFFF))

namespace Piece

/-- The bytes in the text. -/
def text : Piece → List UInt8
  | plain c _ => String.utf8EncodeChar c
  | short letter _ _ => [92, letter]
  | unit code _ => code.text
  | pair high low _ => high.text ++ low.text

/-- The bytes of the character. -/
def bytes : Piece → List UInt8
  | plain c _ => String.utf8EncodeChar c
  | short _ byte _ => [byte]
  | unit code _ => String.utf8EncodeChar (Char.ofNat code.value)
  | pair high low _ => String.utf8EncodeChar
      (Char.ofNat (0x10000 + 0x400 * (high.value - 0xD800) + (low.value - 0xDC00)))

end Piece

/-- A text whose characters all stand as they are. -/
def spell (text : String) : List Piece :=
  text.toList.filterMap (fun c => if free : Free c then some (.plain c free) else none)

def written (pieces : List Piece) : List UInt8 := pieces.flatMap Piece.text

def decoded (pieces : List Piece) : List UInt8 := pieces.flatMap Piece.bytes

/-- Bytes of a character beyond ASCII are 128 or more. -/
theorem toNat_of_mem_utf8EncodeChar {c : Char} {byte : UInt8}
    (mem : byte ∈ String.utf8EncodeChar c) : byte.toNat = c.toNat ∨ 128 ≤ byte.toNat := by
  have high : ∀ n, 128 ≤ n → n < 256 → 128 ≤ (UInt8.ofNat n).toNat := by
    intro n above below
    rw [UInt8.toNat_ofNat', Nat.mod_eq_of_lt below]
    exact above
  unfold String.utf8EncodeChar at mem
  simp only at mem
  split_ifs at mem with one two three
  · left
    rw [List.mem_singleton.mp mem, UInt8.toNat_ofNat']
    exact Nat.mod_eq_of_lt (by omega)
  · right
    simp only [List.mem_cons, List.not_mem_nil, or_false] at mem
    rcases mem with rfl | rfl
    · exact high _ (by omega) (by omega)
    · exact high _ (by omega) (by omega)
  · right
    simp only [List.mem_cons, List.not_mem_nil, or_false] at mem
    rcases mem with rfl | rfl | rfl
    · exact high _ (by omega) (by omega)
    · exact high _ (by omega) (by omega)
    · exact high _ (by omega) (by omega)
  · right
    simp only [List.mem_cons, List.not_mem_nil, or_false] at mem
    rcases mem with rfl | rfl | rfl | rfl
    · exact high _ (by omega) (by omega)
    · exact high _ (by omega) (by omega)
    · exact high _ (by omega) (by omega)
    · exact high _ (by omega) (by omega)

theorem Free.quiet {c : Char} (free : Free c) :
    34 ∉ String.utf8EncodeChar c ∧ 92 ∉ String.utf8EncodeChar c := by
  obtain ⟨-, quote, escape⟩ := free
  constructor
  · intro mem
    rcases toNat_of_mem_utf8EncodeChar mem with same | high
    · exact quote (Char.toNat_inj.mp same.symm)
    · exact absurd high (by decide)
  · intro mem
    rcases toNat_of_mem_utf8EncodeChar mem with same | high
    · exact escape (Char.toNat_inj.mp same.symm)
    · exact absurd high (by decide)

theorem HexByte.ne_quote (digit : HexByte) : 34 ≠ digit.1 := by
  obtain ⟨byte, range⟩ := digit
  rintro rfl
  exact absurd range (by decide)

theorem CodeUnit.quiet (unit : CodeUnit) : 34 ∉ unit.text := by
  simp [CodeUnit.text, HexByte.ne_quote]

theorem escaped_text (piece : Piece) : Escaped 34 92 piece.text := by
  cases piece with
  | plain c free => exact escaped_of_quiet free.quiet.1
  | short letter byte known =>
    by_cases quote : letter = 34
    · subst quote
      exact escaped_pair (by decide)
    · exact escaped_of_quiet (by simpa [Piece.text, eq_comm] using quote)
  | unit code scalar => exact escaped_of_quiet code.quiet
  | pair high low surrogates =>
    exact (escaped_of_quiet high.quiet).append (escaped_of_quiet low.quiet)

theorem escaped_written (pieces : List Piece) : Escaped 34 92 (written pieces) :=
  escaped_flatMap escaped_text pieces

/-- A piece without a backslash is a character as it is. -/
theorem Piece.bytes_eq_text {piece : Piece} (plain : 92 ∉ piece.text) :
    piece.bytes = piece.text := by
  cases piece with
  | plain c free => rfl
  | short letter byte known => exact absurd List.mem_cons_self plain
  | unit code scalar => exact absurd List.mem_cons_self plain
  | pair high low surrogates => exact absurd (List.mem_append_left _ List.mem_cons_self) plain

/-- What is written without a backslash is meant as it is written. -/
theorem decoded_eq_written {pieces : List Piece} (plain : 92 ∉ written pieces) :
    decoded pieces = written pieces := by
  induction pieces with
  | nil => rfl
  | cons piece rest ih =>
    rw [written, List.flatMap_cons, List.mem_append, not_or] at plain
    rw [decoded, written, List.flatMap_cons, List.flatMap_cons, Piece.bytes_eq_text plain.1]
    exact congrArg _ (ih plain.2)

/-! ## Texts -/

def IsDigits (text : List UInt8) : Prop := text ≠ [] ∧ ∀ byte ∈ text, Json.isDigit byte = true

instance (text : List UInt8) : Decidable (IsDigits text) :=
  @instDecidableAnd _ _ _ (List.decidableBAll _ text)

/-- A number: a sign, digits without a leading zero, a fraction and an exponent. -/
structure Number where
  negative : Bool
  whole : List UInt8
  fraction : Option (List UInt8)
  exponent : Option (UInt8 × List UInt8 × List UInt8)
  wholeDigits : IsDigits whole
  noLeadingZero : whole.head? = some 48 → whole = [48]
  fractionDigits : ∀ digits ∈ fraction, IsDigits digits
  exponentDigits : ∀ e ∈ exponent,
    (e.1 = 101 ∨ e.1 = 69) ∧ (e.2.1 = [] ∨ e.2.1 = [43] ∨ e.2.1 = [45]) ∧ IsDigits e.2.2

def Number.text (number : Number) : List UInt8 :=
  (if number.negative then [45] else []) ++ number.whole ++
    number.fraction.elim [] (fun digits => 46 :: digits) ++
      number.exponent.elim [] (fun e => e.1 :: (e.2.1 ++ e.2.2))

theorem IsDigits.quiet {text : List UInt8} (digits : IsDigits text) : 34 ∉ text := fun mem =>
  absurd (digits.2 34 mem) (by decide)

theorem Number.quiet (number : Number) : 34 ∉ number.text := by
  have sign : 34 ∉ (if number.negative then [45] else [] : List UInt8) := by
    split_ifs <;> decide
  have fraction : 34 ∉ number.fraction.elim [] (fun digits => 46 :: digits) := by
    cases found : number.fraction with
    | none => exact List.not_mem_nil
    | some digits => simp [(number.fractionDigits digits found).quiet]
  have exponent : 34 ∉ number.exponent.elim [] (fun e => e.1 :: (e.2.1 ++ e.2.2)) := by
    cases found : number.exponent with
    | none => exact List.not_mem_nil
    | some e =>
      obtain ⟨mark, sign, digits⟩ := e
      obtain ⟨hmark, hsign, hdigits⟩ := number.exponentDigits _ found
      have noMark : 34 ≠ mark := by
        rcases hmark with rfl | rfl <;> decide
      have noSign : 34 ∉ sign := by
        rcases hsign with rfl | rfl | rfl <;> decide
      simp [noMark, noSign, hdigits.quiet]
  simp [Number.text, sign, number.wholeDigits.quiet, fraction, exponent]

/-- Blanks between the parts of a text. -/
abbrev Blank := {bytes : List UInt8 //
  ∀ byte ∈ bytes, byte = 9 ∨ byte = 10 ∨ byte = 13 ∨ byte = 32}

theorem Blank.separators (blank : Blank) : ∀ byte ∈ blank.1, byte ∈ Json.separators := by
  intro byte mem
  rcases blank.2 byte mem with rfl | rfl | rfl | rfl
  all_goals decide

def noBlank : Blank := ⟨[], fun _ none => absurd none List.not_mem_nil⟩

structure Gap where
  before : Blank
  after : Blank

def noGap : Gap := ⟨noBlank, noBlank⟩

def Gap.around (gap : Gap) (text : List UInt8) : List UInt8 := gap.before.1 ++ (text ++ gap.after.1)

/-- A name with the blanks around it and around its value. -/
structure Key where
  gap : Gap
  name : List Piece
  valueGap : Gap

def plainKey (name : String) : Key := ⟨noGap, spell name, noGap⟩

inductive Text where
  | null
  | bool (value : Bool)
  | number (literal : Number)
  | string (pieces : List Piece)
  | array (blank : Blank) (elements : List (Gap × Text))
  | object (blank : Blank) (fields : List (Key × Text))

namespace Text

mutual

def render : Text → List UInt8
  | .null => ascii "null"
  | .bool true => ascii "true"
  | .bool false => ascii "false"
  | .number literal => literal.text
  | .string pieces => between 34 (written pieces)
  | .array blank elements => 91 :: (blank.1 ++ renderElements elements ++ [93])
  | .object blank fields => 123 :: (blank.1 ++ renderFields fields ++ [125])

def renderElements : List (Gap × Text) → List UInt8
  | [] => []
  | [(gap, element)] => gap.around element.render
  | (gap, element) :: next :: rest =>
    gap.around element.render ++ 44 :: renderElements (next :: rest)

def renderFields : List (Key × Text) → List UInt8
  | [] => []
  | [(key, value)] =>
    key.gap.around (between 34 (written key.name)) ++ 58 :: key.valueGap.around value.render
  | (key, value) :: next :: rest =>
    key.gap.around (between 34 (written key.name)) ++
      58 :: (key.valueGap.around value.render ++ 44 :: renderFields (next :: rest))

end

mutual

/-- The bodies of the strings, as they are written. -/
def strings : Text → List (List UInt8)
  | .string pieces => [written pieces]
  | .array _ elements => stringsOfElements elements
  | .object _ fields => stringsOfFields fields
  | _ => []

def stringsOfElements : List (Gap × Text) → List (List UInt8)
  | [] => []
  | (_, element) :: rest => element.strings ++ stringsOfElements rest

def stringsOfFields : List (Key × Text) → List (List UInt8)
  | [] => []
  | (key, value) :: rest => written key.name :: (value.strings ++ stringsOfFields rest)

end

mutual

/-- The value of a text, with its names read in one way or the other. -/
def value (read : List Piece → List UInt8) : Text → Json
  | .null => .null
  | .bool value => .bool value
  | .number literal => .number literal.text
  | .string pieces => .string (decoded pieces)
  | .array _ elements => .array (valuesOfElements read elements)
  | .object _ fields => .object (valuesOfFields read fields)

def valuesOfElements (read : List Piece → List UInt8) : List (Gap × Text) → List Json
  | [] => []
  | (_, element) :: rest => element.value read :: valuesOfElements read rest

def valuesOfFields (read : List Piece → List UInt8) :
    List (Key × Text) → List (List UInt8 × Json)
  | [] => []
  | (key, value) :: rest => (read key.name, value.value read) :: valuesOfFields read rest

end

/-- What the text means. -/
def meaning (text : Text) : Json := text.value decoded

/-- What an on-demand reader presents of it. -/
def presented (text : Text) : Json := text.value written

/-! ## The strings of a text -/

theorem tokens_around {text : List UInt8} {bodies : List (List UInt8)} (gap : Gap)
    (tokens : Tokens 34 92 Json.separators text bodies) :
    Tokens 34 92 Json.separators (gap.around text) bodies :=
  (tokens.append_blank gap.after.separators (by decide)).blank_append gap.before.separators

mutual

theorem tokens_render : (text : Text) → Tokens 34 92 Json.separators text.render text.strings
  | .null => .plain (by decide)
  | .bool true => .plain (by decide)
  | .bool false => .plain (by decide)
  | .number literal => .plain literal.quiet
  | .string pieces => .string (escaped_written pieces)
  | .array blank elements =>
    Json.enclosed (by decide) (by decide)
      ((tokens_renderElements elements).blank_append blank.separators)
  | .object blank fields =>
    Json.enclosed (by decide) (by decide)
      ((tokens_renderFields fields).blank_append blank.separators)

theorem tokens_renderElements : (elements : List (Gap × Text)) →
    Tokens 34 92 Json.separators (renderElements elements) (stringsOfElements elements)
  | [] => .plain List.not_mem_nil
  | [(gap, element)] => by
    rw [renderElements, stringsOfElements, stringsOfElements, List.append_nil]
    exact tokens_around gap (tokens_render element)
  | (gap, element) :: next :: rest => by
    rw [renderElements, stringsOfElements]
    exact .glue (by decide) (tokens_around gap (tokens_render element))
      (tokens_renderElements (next :: rest))

theorem tokens_renderFields : (fields : List (Key × Text)) →
    Tokens 34 92 Json.separators (renderFields fields) (stringsOfFields fields)
  | [] => .plain List.not_mem_nil
  | [(key, value)] => by
    rw [renderFields, stringsOfFields, stringsOfFields, List.append_nil]
    exact .glue (by decide) (tokens_around key.gap (.string (escaped_written key.name)))
      (tokens_around key.valueGap (tokens_render value))
  | (key, value) :: next :: rest => by
    rw [renderFields, stringsOfFields]
    exact .glue (by decide) (tokens_around key.gap (.string (escaped_written key.name)))
      (.glue (by decide) (tokens_around key.valueGap (tokens_render value))
        (tokens_renderFields (next :: rest)))

end

/-! ## Fields -/

def fields : Text → List (Key × Text)
  | .object _ fields => fields
  | _ => []

/-- The field of a name, with the names of an object read in one way or the other. -/
def find (read : List Piece → List UInt8) (name : List UInt8) (text : Text) : Option Text :=
  (text.fields.find? (fun field => read field.1.name = name)).map Prod.snd

theorem valuesOfFields_eq_map (read : List Piece → List UInt8) (fields : List (Key × Text)) :
    valuesOfFields read fields =
      fields.map (fun field => (read field.1.name, field.2.value read)) := by
  induction fields with
  | nil => rw [valuesOfFields, List.map_nil]
  | cons field rest ih =>
    obtain ⟨key, value⟩ := field
    rw [valuesOfFields, List.map_cons, ih]

theorem field?_value (read : List Piece → List UInt8) (name : List UInt8) (text : Text) :
    (text.value read).field? name = (text.find read name).map (value read) := by
  cases text with
  | object blank fields =>
    rw [value, valuesOfFields_eq_map, Json.field?, List.find?_map, find, Text.fields]
    simp only [Option.map_map]
    rfl
  | _ => simp [value, Json.field?, find, Text.fields]

theorem getString_value (read read' : List Piece → List UInt8) (text : Text) :
    (text.value read).getString = (text.value read').getString := by
  cases text with
  | _ => simp [value, Json.getString]

/-- No two names of an object mean the same. -/
def Distinct (text : Text) : Prop := (text.fields.map (fun field => decoded field.1.name)).Nodup

/-- The name of a field is written without escapes. -/
def Plainly (name : List UInt8) (text : Text) : Prop :=
  ∃ field ∈ text.fields, written field.1.name = name

theorem mem_of_find {read : List Piece → List UInt8} {name : List UInt8} {text found : Text}
    (field : text.find read name = some found) :
    ∃ key, (key, found) ∈ text.fields ∧ read key.name = name := by
  obtain ⟨⟨key, _⟩, hfound, rfl⟩ := Option.map_eq_some_iff.mp field
  exact ⟨key, List.mem_of_find?_eq_some hfound, by simpa using List.find?_some hfound⟩

theorem find_of_mem {text found : Text} {key : Key} (distinct : text.Distinct)
    (mem : (key, found) ∈ text.fields) : text.find decoded (decoded key.name) = some found := by
  have first : text.fields.find? (fun field => decoded field.1.name = decoded key.name) =
      some (key, found) :=
    Json.find?_of_distinct (fun field : Key × Text => decoded field.1.name) distinct mem
  rw [find, first]
  rfl

/-- A field that the reader finds is the one meant. -/
theorem find_decoded_of_written {name : List UInt8} {text found : Text} (distinct : text.Distinct)
    (noEscape : 92 ∉ name) (field : text.find written name = some found) :
    text.find decoded name = some found := by
  obtain ⟨key, mem, same⟩ := mem_of_find field
  rw [← same, ← decoded_eq_written (same ▸ noEscape)]
  exact find_of_mem distinct mem

theorem plainly_of_find {name : List UInt8} {text found : Text}
    (field : text.find written name = some found) : text.Plainly name := by
  obtain ⟨key, mem, same⟩ := mem_of_find field
  exact ⟨_, mem, same⟩

/-- The reader finds a field whose name is written without escapes. -/
theorem find_written {name : List UInt8} {text : Text} (distinct : text.Distinct)
    (noEscape : 92 ∉ name) (plainly : text.Plainly name) :
    text.find written name = text.find decoded name := by
  obtain ⟨field, mem, same⟩ := plainly
  cases found : text.find written name with
  | some found => exact (find_decoded_of_written distinct noEscape found).symm
  | none =>
    rw [find, Option.map_eq_none_iff, List.find?_eq_none] at found
    exact absurd (found field mem) (by simpa using same)

/-- The names of fields are among the strings. -/
theorem name_mem_strings {text : Text} {field : Key × Text} (mem : field ∈ text.fields) :
    written field.1.name ∈ text.strings := by
  have inside : ∀ fields : List (Key × Text), field ∈ fields →
      written field.1.name ∈ stringsOfFields fields := by
    intro fields
    induction fields with
    | nil => exact fun none => absurd none List.not_mem_nil
    | cons first rest ih =>
      intro mem
      obtain ⟨key, value⟩ := first
      rw [stringsOfFields]
      rcases List.mem_cons.mp mem with rfl | later
      · exact List.mem_cons_self
      · exact List.mem_cons_of_mem _ (List.mem_append_right _ (ih later))
  cases text with
  | object blank fields =>
    rw [strings]
    exact inside fields mem
  | _ => cases mem

/-- A part of a text is presented as a part. -/
theorem sizeOf_presented_lt {name : List UInt8} {read : List Piece → List UInt8}
    {text found : Text} (field : text.find read name = some found) :
    sizeOf found.presented < sizeOf text.presented := by
  obtain ⟨key, mem, -⟩ := mem_of_find field
  cases text with
  | object blank fields =>
    have inside : (written key.name, found.presented) ∈ valuesOfFields written fields := by
      rw [valuesOfFields_eq_map]
      exact List.mem_map.mpr ⟨_, mem, rfl⟩
    have smaller := List.sizeOf_lt_of_mem inside
    have whole : (Text.object blank fields).presented =
        .object (valuesOfFields written fields) := by rw [presented, value]
    rw [whole, Json.object.sizeOf_spec]
    simp only [Prod.mk.sizeOf_spec] at smaller
    omega
  | _ => cases mem

end Text

/-- A whole text, with the blanks around it. -/
structure Document where
  gap : Gap
  root : Text

def Document.render (document : Document) : List UInt8 := document.gap.around document.root.render

/-- A quoted word is found in a text where one of its strings shows it as it is written. -/
theorem Document.quoted_infix_iff (document : Document) {word : List UInt8}
    (isWord : Json.IsWord word) :
    Json.quoted word <:+: document.render ↔
      ∃ body ∈ document.root.strings, Shows 34 word body :=
  Json.quoted_infix_iff (Text.tokens_around document.gap (Text.tokens_render document.root)) isWord

end SpelledJson
