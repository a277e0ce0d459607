import Mathlib.Data.List.Infix
import Mathlib.Data.Set.Basic

/-!
# Searching a text for a quoted word

A text is made of quoted strings between separators. A search for a word between
quotes looks at characters only, and finds the word where it is a whole string or where
a string ends in an escaped quote and the word. Quotes inside of strings are escaped.
-/

namespace QuotedWords

universe u
variable {α : Type u}

/-- A text between quotes. -/
def between (quote : α) (body : List α) : List α := quote :: (body ++ [quote])

/-- Every quote in the body of a string follows an escape. -/
def Escaped (quote escape : α) (body : List α) : Prop :=
  ∀ front back, body = front ++ quote :: back → ∃ rest, front = rest ++ [escape]

/-- A text with the bodies of its strings. -/
inductive Tokens (quote escape : α) (separators : Set α) : List α → List (List α) → Prop
  | plain {text : List α} : quote ∉ text → Tokens quote escape separators text []
  | string {body : List α} : Escaped quote escape body →
      Tokens quote escape separators (between quote body) [body]
  | glue {front back : List α} {bodies bodies' : List (List α)} {separator : α} :
      separator ∈ separators → Tokens quote escape separators front bodies →
      Tokens quote escape separators back bodies' →
      Tokens quote escape separators (front ++ separator :: back) (bodies ++ bodies')

/-- The string is the word, or ends in a quote and the word. -/
def Shows (quote : α) (word body : List α) : Prop := (quote :: word) <:+ (quote :: body)

instance [DecidableEq α] (quote : α) (word body : List α) : Decidable (Shows quote word body) :=
  inferInstanceAs (Decidable (_ <:+ _))

theorem shows_iff {quote : α} {word body : List α} :
    Shows quote word body ↔ body = word ∨ (quote :: word) <:+ body := by
  rw [Shows, List.suffix_cons_iff, List.cons.injEq, and_iff_right rfl]
  exact or_congr_left eq_comm

theorem shows_iff_of_quiet {quote : α} {word body : List α} (quiet : quote ∉ body) :
    Shows quote word body ↔ body = word := by
  refine shows_iff.trans (or_iff_left ?_)
  exact fun ends => quiet (ends.subset List.mem_cons_self)

variable {quote escape : α} {separators : Set α}

theorem escaped_of_quiet {body : List α} (quiet : quote ∉ body) : Escaped quote escape body := by
  rintro front back rfl
  exact absurd (List.mem_append_right _ List.mem_cons_self) quiet

theorem escaped_pair (different : quote ≠ escape) : Escaped quote escape [escape, quote] := by
  intro front back split
  rcases front with _ | ⟨x, _ | ⟨y, rest⟩⟩
  · exact absurd (List.cons.inj split).1.symm different
  · obtain ⟨rfl, -⟩ := List.cons.inj split
    exact ⟨[], rfl⟩
  · simp at split

theorem Escaped.append {front back : List α} (left : Escaped quote escape front)
    (right : Escaped quote escape back) : Escaped quote escape (front ++ back) := by
  intro before after split
  rcases List.append_eq_append_iff.mp split with ⟨middle, rfl, inside⟩ | ⟨middle, rfl, inside⟩
  · obtain ⟨rest, rfl⟩ := right middle after inside
    exact ⟨front ++ rest, List.append_assoc _ _ _ |>.symm⟩
  · cases middle with
    | nil =>
      rw [List.nil_append] at inside
      obtain ⟨rest, nil⟩ := right [] after inside.symm
      simp at nil
    | cons x tail =>
      obtain ⟨rfl, -⟩ := List.cons.inj inside
      exact left before tail rfl

theorem escaped_flatMap {β : Type u} {write : β → List α}
    (escaped : ∀ b, Escaped quote escape (write b)) (bs : List β) :
    Escaped quote escape (bs.flatMap write) := by
  induction bs with
  | nil => exact escaped_of_quiet List.not_mem_nil
  | cons b rest ih =>
    rw [List.flatMap_cons]
    exact (escaped b).append ih

/-- A pattern without the separator lies on one side of it. -/
theorem infix_append_cons_iff {pattern front back : List α} {separator : α}
    (absent : separator ∉ pattern) :
    pattern <:+: front ++ separator :: back ↔ pattern <:+: front ∨ pattern <:+: back := by
  rw [List.infix_append_iff, List.infix_cons_iff]
  constructor
  · rintro (left | (here | right) | ⟨first, second, rfl, hfirst, hsecond⟩)
    · exact Or.inl left
    · cases pattern with
      | nil => exact Or.inl List.nil_infix
      | cons x rest =>
        obtain ⟨rfl, -⟩ := List.cons_prefix_cons.mp here
        exact absurd List.mem_cons_self absent
    · exact Or.inr right
    · cases second with
      | nil =>
        rw [List.append_nil]
        exact Or.inl hfirst.isInfix
      | cons x rest =>
        obtain ⟨rfl, -⟩ := List.cons_prefix_cons.mp hsecond
        exact absurd (List.mem_append_right _ List.mem_cons_self) absent
  · rintro (left | right)
    · exact Or.inl left
    · exact Or.inr (Or.inl (Or.inr right))

/-- Blanks before a text hold no string. -/
theorem Tokens.blank_append {text blank : List α} {bodies : List (List α)}
    (tokens : Tokens quote escape separators text bodies) (blanks : ∀ b ∈ blank, b ∈ separators) :
    Tokens quote escape separators (blank ++ text) bodies := by
  induction blank with
  | nil => exact tokens
  | cons b rest ih =>
    obtain ⟨head, tail⟩ := List.forall_mem_cons.mp blanks
    exact .glue head (.plain List.not_mem_nil) (ih tail)

theorem Tokens.append_blank {text blank : List α} {bodies : List (List α)}
    (tokens : Tokens quote escape separators text bodies) (blanks : ∀ b ∈ blank, b ∈ separators)
    (apart : quote ∉ separators) : Tokens quote escape separators (text ++ blank) bodies := by
  cases blank with
  | nil => rwa [List.append_nil]
  | cons b rest =>
    obtain ⟨head, tail⟩ := List.forall_mem_cons.mp blanks
    have quiet : quote ∉ rest := fun mem => apart (tail quote mem)
    rw [← List.append_nil bodies]
    exact .glue head tokens (.plain quiet)

/-- In one string a quoted word ends where the string does. -/
theorem infix_between_iff {word body : List α} (escaped : Escaped quote escape body)
    (nonempty : word ≠ []) (plain : escape ∉ word) :
    between quote word <:+: between quote body ↔ Shows quote word body := by
  have ends : between quote word = (quote :: word) ++ [quote] := rfl
  have ends' : between quote body = (quote :: body) ++ [quote] := rfl
  constructor
  · rintro ⟨before, after, split⟩
    rcases List.eq_nil_or_concat' after with rfl | ⟨after, last, rfl⟩
    · rw [List.append_nil, ends, ends', ← List.append_assoc] at split
      obtain ⟨same, -⟩ := List.append_inj' split rfl
      exact ⟨before, same⟩
    · -- the closing quote of the word is one inside the string, and follows no escape
      rw [ends, ends', ← List.append_assoc] at split
      obtain ⟨same, -⟩ := List.append_inj' split rfl
      exfalso
      obtain ⟨front, final, hword⟩ := List.eq_nil_or_concat' word |>.resolve_left nonempty
      subst hword
      have inner : ∃ front', body = (front' ++ [final]) ++ quote :: after := by
        cases before with
        | nil =>
          refine ⟨front, ?_⟩
          have tail := (List.cons.inj same).2
          rw [← tail]
          simp
        | cons x rest =>
          refine ⟨rest ++ quote :: front, ?_⟩
          have tail := (List.cons.inj same).2
          rw [← tail]
          simp
      obtain ⟨front', hbody⟩ := inner
      obtain ⟨rest, hrest⟩ := escaped _ _ hbody
      obtain ⟨-, hfinal⟩ := List.append_inj' hrest rfl
      obtain rfl := List.singleton_inj.mp hfinal
      exact plain (List.mem_append_right _ List.mem_cons_self)
  · rintro ⟨before, split⟩
    refine ⟨before, [], ?_⟩
    rw [List.append_nil, ends, ends', ← split, List.append_assoc]

/-- A search for a quoted word finds it exactly where a string shows it. -/
theorem Tokens.infix_iff {text : List α} {bodies : List (List α)}
    (tokens : Tokens quote escape separators text bodies) {word : List α} (nonempty : word ≠ [])
    (plain : escape ∉ word) (apart : ∀ s ∈ separators, s ∉ between quote word) :
    between quote word <:+: text ↔ ∃ body ∈ bodies, Shows quote word body := by
  induction tokens with
  | plain quiet =>
    refine iff_of_false ?_ (by simp)
    intro found
    exact quiet (found.subset List.mem_cons_self)
  | string escaped =>
    rw [infix_between_iff escaped nonempty plain]
    simp
  | glue mem _ _ ihFront ihBack =>
    rw [infix_append_cons_iff (apart _ mem), ihFront, ihBack]
    simp only [List.mem_append, or_and_right, exists_or]

end QuotedWords
