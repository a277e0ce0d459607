import Mathlib.Algebra.Ring.Nat
import Mathlib.Data.List.Infix
import Mathlib.Data.List.Basic

/-!
# JSON values

A JSON value with the typed accessors of an on-demand reader, and its compact text.
Keys stand as they are written between their quotes, and numbers as their literals,
since both are compared and converted as text. The names of an object are taken to
be distinct; of equal ones the first is found.
-/

/-- The bytes of a text in ASCII. -/
def ascii (text : String) : List UInt8 := text.toList.map (fun c => UInt8.ofNat c.toNat)

inductive Json where
  | null
  | bool (value : Bool)
  | number (literal : List UInt8)
  | string (value : List UInt8)
  | array (elements : List Json)
  | object (fields : List (List UInt8 × Json))

namespace Json

/-! ## Accessors -/

/-- `value[name]`, which only an object has. -/
def field? (name : List UInt8) : Json → Option Json
  | .object fields => (fields.find? (fun field => field.1 = name)).map Prod.snd
  | _ => none

/-- In a list without repeated names the entry of a name is the one found. -/
theorem find?_of_distinct {β γ : Type} [DecidableEq γ] (name : β → γ) {entries : List β}
    (distinct : (entries.map name).Nodup) {entry : β} (mem : entry ∈ entries) :
    entries.find? (fun other => name other = name entry) = some entry := by
  induction entries with
  | nil => cases mem
  | cons first rest ih =>
    obtain ⟨fresh, later⟩ := List.nodup_cons.mp distinct
    rcases List.mem_cons.mp mem with rfl | inRest
    · exact List.find?_cons_of_pos (by simp)
    · have other : name first ≠ name entry := fun same =>
        fresh (List.mem_map.mpr ⟨entry, inRest, same.symm⟩)
      rw [List.find?_cons_of_neg (by simpa using other)]
      exact ih later inRest

def getString : Json → Option (List UInt8)
  | .string value => some value
  | _ => none

def getArray : Json → Option (List Json)
  | .array elements => some elements
  | _ => none

def getBool : Json → Option Bool
  | .bool value => some value
  | _ => none

def isDigit (byte : UInt8) : Bool := 48 ≤ byte && byte ≤ 57

/-- The value of a literal of decimal digits. -/
def digitsValue (digits : List UInt8) : Nat :=
  digits.foldl (fun value digit => 10 * value + (digit.toNat - 48)) 0

/-- `get_uint64`: a literal of digits only, below 2^64. -/
def getUint64 : Json → Option UInt64
  | .number literal =>
    if literal ≠ [] ∧ literal.all isDigit ∧ digitsValue literal < 2 ^ 64 then
      some (UInt64.ofNat (digitsValue literal))
    else none
  | _ => none

example : (number (ascii "1672531200000")).getUint64 = some 1672531200000 ∧
    (number (ascii "-1")).getUint64 = none ∧ (number (ascii "1.5")).getUint64 = none := by decide

/-! ## The compact text -/

def hexDigit (n : Nat) : UInt8 := UInt8.ofNat (if n < 10 then 48 + n else 87 + n)

/-- Quotes, backslashes and control characters are escaped. -/
def escapeByte (byte : UInt8) : List UInt8 :=
  if byte = 34 then [92, 34]
  else if byte = 92 then [92, 92]
  else if byte < 32 then
    [92, 117, 48, 48, hexDigit (byte.toNat / 16), hexDigit (byte.toNat % 16)]
  else [byte]

/-- A text between quotes. -/
def quoted (text : List UInt8) : List UInt8 := 34 :: (text ++ [34])

mutual

def render : Json → List UInt8
  | .null => ascii "null"
  | .bool true => ascii "true"
  | .bool false => ascii "false"
  | .number literal => literal
  | .string value => quoted (value.flatMap escapeByte)
  | .array elements => 91 :: (renderElements elements ++ [93])
  | .object fields => 123 :: (renderFields fields ++ [125])

def renderElements : List Json → List UInt8
  | [] => []
  | [element] => element.render
  | element :: next :: rest => element.render ++ 44 :: renderElements (next :: rest)

def renderFields : List (List UInt8 × Json) → List UInt8
  | [] => []
  | [(name, value)] => quoted name ++ 58 :: value.render
  | (name, value) :: next :: rest =>
    quoted name ++ 58 :: (value.render ++ 44 :: renderFields (next :: rest))

end

theorem quoted_infix_renderFields {name : List UInt8} {fields : List (List UInt8 × Json)}
    (mem : name ∈ fields.map Prod.fst) : quoted name <:+: renderFields fields := by
  induction fields with
  | nil => cases mem
  | cons field rest ih =>
    obtain ⟨own, value⟩ := field
    rcases List.mem_cons.mp mem with rfl | later
    · apply List.IsPrefix.isInfix
      cases rest with
      | nil => exact List.prefix_append _ _
      | cons next rest => exact List.prefix_append _ _
    · cases rest with
      | nil => cases later
      | cons next rest =>
        obtain ⟨before, after, split⟩ := ih later
        refine ⟨quoted own ++ 58 :: (value.render ++ 44 :: before), after, ?_⟩
        rw [renderFields, ← split]
        simp

/-- The text of an object shows the names of its fields in quotes. -/
theorem quoted_infix_render {name : List UInt8} {value found : Json}
    (field : value.field? name = some found) : quoted name <:+: value.render := by
  cases value with
  | object fields =>
    obtain ⟨⟨own, _⟩, hfound, rfl⟩ := Option.map_eq_some_iff.mp field
    have same : own = name := by simpa using List.find?_some hfound
    have mem : name ∈ fields.map Prod.fst :=
      List.mem_map.mpr ⟨_, List.mem_of_find?_eq_some hfound, same⟩
    obtain ⟨before, after, split⟩ := quoted_infix_renderFields mem
    refine ⟨123 :: before, after ++ [125], ?_⟩
    rw [render, ← split]
    simp
  | _ => cases field

end Json
