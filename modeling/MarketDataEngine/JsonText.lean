import MarketDataEngine.Json
import MarketDataEngine.QuotedWords

/-!
# The strings in a JSON text

What a search for a quoted word finds in a text of JSON depends on the strings written
in it, keys and values alike, at any depth. This is said for the compact text of a value
and for any other spelling of it.
-/

open QuotedWords

namespace Json

/-- Blanks and the punctuation between values. -/
def separators : Set UInt8 := {9, 10, 13, 32, 44, 58, 91, 93, 123, 125}

instance (byte : UInt8) : Decidable (byte ∈ separators) :=
  inferInstanceAs (Decidable (byte = 9 ∨ byte = 10 ∨ byte = 13 ∨ byte = 32 ∨ byte = 44 ∨
    byte = 58 ∨ byte = 91 ∨ byte = 93 ∨ byte = 123 ∨ byte = 125))

/-- A word of small letters. -/
def IsWord (word : List UInt8) : Prop := word ≠ [] ∧ ∀ byte ∈ word, 97 ≤ byte ∧ byte ≤ 122

instance (word : List UInt8) : Decidable (IsWord word) :=
  @instDecidableAnd _ _ _ (List.decidableBAll _ word)

theorem isWord_data : IsWord (ascii "data") := by decide

theorem isWord_trade : IsWord (ascii "trade") := by decide

/-- In a text with these strings a quoted word is found where a string shows it. -/
theorem quoted_infix_iff {text word : List UInt8} {bodies : List (List UInt8)}
    (tokens : Tokens 34 92 separators text bodies) (isWord : IsWord word) :
    quoted word <:+: text ↔ ∃ body ∈ bodies, Shows 34 word body := by
  obtain ⟨nonempty, letters⟩ := isWord
  refine tokens.infix_iff nonempty (fun mem => absurd (letters _ mem) (by decide)) ?_
  intro s sep mem
  have low : s ≠ 34 ∧ ¬ (97 ≤ s ∧ s ≤ 122) := by
    rcases sep with rfl | rfl | rfl | rfl | rfl | rfl | rfl | rfl | rfl | rfl <;> decide
  rcases List.mem_cons.mp mem with quote | inside
  · exact low.1 quote
  · rcases List.mem_append.mp inside with letter | quote
    · exact low.2 (letters _ letter)
    · exact low.1 (List.mem_singleton.mp quote)

/-! ## The compact text -/

mutual

/-- The bodies of the strings in the compact text. -/
def strings : Json → List (List UInt8)
  | .string value => [value.flatMap escapeByte]
  | .array elements => stringsOfElements elements
  | .object fields => stringsOfFields fields
  | _ => []

def stringsOfElements : List Json → List (List UInt8)
  | [] => []
  | element :: rest => element.strings ++ stringsOfElements rest

def stringsOfFields : List (List UInt8 × Json) → List (List UInt8)
  | [] => []
  | (name, value) :: rest => name :: (value.strings ++ stringsOfFields rest)

end

@[simp]
theorem strings_number (literal : List UInt8) : (number literal).strings = [] := by
  simp [strings]

@[simp]
theorem strings_bool (flag : Bool) : (bool flag).strings = [] := by simp [strings]

theorem mem_stringsOfElements {elements : List Json} {body : List UInt8} :
    body ∈ stringsOfElements elements ↔ ∃ element ∈ elements, body ∈ element.strings := by
  induction elements with
  | nil => simp [stringsOfElements]
  | cons element rest ih => simp [stringsOfElements, ih]

theorem mem_stringsOfFields {fields : List (List UInt8 × Json)} {body : List UInt8} :
    body ∈ stringsOfFields fields ↔
      ∃ field ∈ fields, body = field.1 ∨ body ∈ field.2.strings := by
  induction fields with
  | nil => simp [stringsOfFields]
  | cons field rest ih =>
    obtain ⟨name, value⟩ := field
    simp [stringsOfFields, ih, or_assoc]

/-- The compact text of the value consists of its strings. -/
def Written (value : Json) : Prop := Tokens 34 92 separators value.render value.strings

theorem hexDigit_bounds : ∀ n < 16, 48 ≤ hexDigit n ∧ hexDigit n ≠ 92 := by decide

/-- The three kinds of bytes in a string: a quote or backslash, a control character, any other. -/
theorem escapeByte_cases (byte : UInt8) :
    ((byte = 34 ∨ byte = 92) ∧ escapeByte byte = [92, byte]) ∨
    (byte < 32 ∧ ∃ first last, 48 ≤ first ∧ first ≤ 57 ∧ 48 ≤ last ∧ last ≠ 92 ∧
      escapeByte byte = [92, 117, 48, 48, first, last]) ∨
    (byte ≠ 34 ∧ byte ≠ 92 ∧ ¬ byte < 32 ∧ escapeByte byte = [byte]) := by
  by_cases quote : byte = 34
  · exact Or.inl ⟨Or.inl quote, by rw [quote]; rfl⟩
  by_cases escape : byte = 92
  · exact Or.inl ⟨Or.inr escape, by rw [escape]; rfl⟩
  by_cases control : byte < 32
  · have small : byte.toNat < 32 := UInt8.lt_iff_toNat_lt.mp control
    have highs : ∀ n < 2, 48 ≤ hexDigit n ∧ hexDigit n ≤ 57 := by decide
    obtain ⟨low, high⟩ := highs (byte.toNat / 16) (by omega)
    obtain ⟨low', other⟩ := hexDigit_bounds (byte.toNat % 16) (by omega)
    refine Or.inr (Or.inl ⟨control, _, _, low, high, low', other, ?_⟩)
    rw [escapeByte, if_neg quote, if_neg escape, if_pos control]
  · refine Or.inr (Or.inr ⟨quote, escape, control, ?_⟩)
    rw [escapeByte, if_neg quote, if_neg escape, if_neg control]

theorem escaped_escapeByte (byte : UInt8) : Escaped 34 92 (escapeByte byte) := by
  rcases escapeByte_cases byte with ⟨rfl | rfl, same⟩ | ⟨-, first, last, low, -, low', -, same⟩ |
    ⟨quote, -, -, same⟩
  · rw [same]
    exact escaped_pair (by decide)
  · rw [same]
    exact escaped_of_quiet (by decide)
  · rw [same]
    refine escaped_of_quiet ?_
    have apart : ∀ digit : UInt8, 48 ≤ digit → 34 ≠ digit := by
      rintro digit reach rfl
      exact absurd reach (by decide)
    simp [apart first low, apart last low']
  · rw [same]
    exact escaped_of_quiet (by simpa [eq_comm] using quote)

theorem escaped_flatMap_escapeByte (value : List UInt8) :
    Escaped 34 92 (value.flatMap escapeByte) :=
  escaped_flatMap escaped_escapeByte value

theorem concat_suffix_concat_iff {α : Type} {front back : List α} {x y : α} :
    front ++ [x] <:+ back ++ [y] ↔ x = y ∧ front <:+ back := by
  rw [← List.reverse_prefix, List.reverse_append, List.reverse_append, ← List.reverse_prefix]
  exact List.cons_prefix_cons

theorem shows_concat {word body : List UInt8} {letter byte : UInt8} :
    Shows 34 (word ++ [letter]) (body ++ [byte]) ↔ letter = byte ∧ Shows 34 word body := by
  rw [Shows, ← List.cons_append, ← List.cons_append]
  exact concat_suffix_concat_iff

theorem shows_nil_concat {body : List UInt8} {byte : UInt8} :
    Shows 34 [] (body ++ [byte]) ↔ 34 = byte := by
  have ends : [] ++ [34] <:+ (34 :: body) ++ [byte] ↔ _ := concat_suffix_concat_iff
  rw [and_iff_left List.nil_suffix] at ends
  exact ends

/-- A string that ends in a digit shows no word of letters. -/
theorem not_shows_digit {word body : List UInt8} {digit : UInt8}
    (letters : ∀ byte ∈ word, 97 ≤ byte ∧ byte ≤ 122) (low : 48 ≤ digit) (high : digit ≤ 57) :
    ¬ Shows 34 word (body ++ [digit]) := by
  intro shows
  rcases List.eq_nil_or_concat' word with rfl | ⟨word, letter, rfl⟩
  · obtain rfl := shows_nil_concat.mp shows
    exact absurd low (by decide)
  · obtain ⟨rfl, -⟩ := shows_concat.mp shows
    exact absurd (UInt8.le_trans (letters letter (by simp)).1 high) (by decide)

/-- Escaping a string does not change which words of letters it shows. -/
theorem shows_flatMap_escapeByte {word : List UInt8}
    (letters : ∀ byte ∈ word, 97 ≤ byte ∧ byte ≤ 122) (value : List UInt8) :
    Shows 34 word (value.flatMap escapeByte) ↔ Shows 34 word value := by
  induction word using List.reverseRecOn generalizing value with
  | nil =>
    rcases List.eq_nil_or_concat' value with rfl | ⟨value, byte, rfl⟩
    · rfl
    rw [List.flatMap_append, List.flatMap_singleton, shows_nil_concat]
    rcases escapeByte_cases byte with ⟨-, same⟩ | ⟨control, first, last, -, -, low, -, same⟩ |
      ⟨-, -, -, same⟩
    · have split : [92, byte] = [92] ++ [byte] := rfl
      rw [same, split, ← List.append_assoc, shows_nil_concat]
    · have split : [92, 117, 48, 48, first, last] = [92, 117, 48, 48, first] ++ [last] := rfl
      rw [same, split, ← List.append_assoc, shows_nil_concat]
      refine iff_of_false ?_ ?_
      · rintro rfl
        exact absurd low (by decide)
      · rintro rfl
        exact absurd control (by decide)
    · rw [same, shows_nil_concat]
  | append_singleton word letter ih =>
    obtain ⟨low, high⟩ := letters letter (by simp)
    have before : ∀ byte ∈ word, 97 ≤ byte ∧ byte ≤ 122 := fun byte mem =>
      letters byte (List.mem_append_left _ mem)
    rcases List.eq_nil_or_concat' value with rfl | ⟨value, byte, rfl⟩
    · rfl
    rw [List.flatMap_append, List.flatMap_singleton, shows_concat]
    rcases escapeByte_cases byte with ⟨special, same⟩ |
      ⟨control, first, last, low', high', -, -, same⟩ | ⟨-, -, -, same⟩
    · have other : letter ≠ byte := by
        rintro rfl
        rcases special with rfl | rfl
        · exact absurd low (by decide)
        · exact absurd low (by decide)
      have split : [92, byte] = [92] ++ [byte] := rfl
      rw [same, split, ← List.append_assoc, shows_concat]
      exact iff_of_false (fun h => other h.1) (fun h => other h.1)
    · -- the second last character is a digit
      have split : [92, 117, 48, 48, first, last] = [92, 117, 48, 48] ++ [first] ++ [last] := rfl
      rw [same, split, ← List.append_assoc, ← List.append_assoc, shows_concat]
      refine iff_of_false (fun h => not_shows_digit before low' high' h.2) ?_
      rintro ⟨rfl, -⟩
      exact absurd (UInt8.lt_of_le_of_lt low control) (by decide)
    · rw [same, shows_concat]
      exact and_congr_right fun _ => ih before value

theorem written_string (value : List UInt8) : Written (.string value) :=
  .string (escaped_flatMap_escapeByte value)

theorem written_bool (value : Bool) : Written (.bool value) := by
  cases value with
  | true => exact .plain (by decide)
  | false => exact .plain (by decide)

theorem written_number {literal : List UInt8} (quiet : 34 ∉ literal) : Written (.number literal) :=
  .plain quiet

/-- Brackets around a text add no string. -/
theorem enclosed {text : List UInt8} {bodies : List (List UInt8)} {first last : UInt8}
    (opens : first ∈ separators) (closes : last ∈ separators)
    (tokens : Tokens 34 92 separators text bodies) :
    Tokens 34 92 separators (first :: (text ++ [last])) bodies :=
  (tokens.append_blank (List.forall_mem_singleton.mpr closes) (by decide)).blank_append
    (List.forall_mem_singleton.mpr opens)

theorem written_array {elements : List Json} (written : ∀ element ∈ elements, Written element) :
    Written (.array elements) := by
  have inside : Tokens 34 92 separators (renderElements elements) (stringsOfElements elements) := by
    induction elements with
    | nil => exact .plain List.not_mem_nil
    | cons element rest ih =>
      obtain ⟨head, tail⟩ := List.forall_mem_cons.mp written
      cases rest with
      | nil =>
        rw [renderElements, stringsOfElements, stringsOfElements, List.append_nil]
        exact head
      | cons next rest =>
        rw [renderElements, stringsOfElements]
        exact .glue (by decide) head (ih tail)
  exact enclosed (by decide) (by decide) inside

theorem written_object {fields : List (List UInt8 × Json)}
    (written : ∀ field ∈ fields, Escaped 34 92 field.1 ∧ Written field.2) :
    Written (.object fields) := by
  have inside : Tokens 34 92 separators (renderFields fields) (stringsOfFields fields) := by
    induction fields with
    | nil => exact .plain List.not_mem_nil
    | cons field rest ih =>
      obtain ⟨name, value⟩ := field
      obtain ⟨⟨escaped, here⟩, tail⟩ := List.forall_mem_cons.mp written
      cases rest with
      | nil =>
        rw [renderFields, stringsOfFields, stringsOfFields, List.append_nil]
        exact .glue (by decide) (.string escaped) here
      | cons next rest =>
        rw [renderFields, stringsOfFields]
        exact .glue (by decide) (.string escaped) (.glue (by decide) here (ih tail))
  exact enclosed (by decide) (by decide) inside

end Json
