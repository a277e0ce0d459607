import Mathlib.Algebra.Order.Field.Basic
import Mathlib.Algebra.Order.BigOperators.Group.List
import Mathlib.Algebra.BigOperators.Ring.List
import Mathlib.Tactic.Ring

/-!
# Weighted means of finite lists

An entry is a value with its weight. With positive weights the mean lies between
the bounds of the values, and one more value at or below all others pulls it down. The
statements about upper bounds follow from those about lower bounds by negation.
-/

namespace WeightedMean

universe u

section Sums
variable {α : Type u} [Field α]

def weight (entries : List (α × α)) : α := (entries.map Prod.snd).sum

def product (entries : List (α × α)) : α := (entries.map (fun e => e.1 * e.2)).sum

def mean (entries : List (α × α)) : α := product entries / weight entries

/-- The same weights on the negated values. -/
def negated (entries : List (α × α)) : List (α × α) := entries.map (fun e => (-e.1, e.2))

theorem mean_negated (entries : List (α × α)) : mean (negated entries) = -mean entries := by
  have weights : weight (negated entries) = weight entries := by
    rw [weight, negated, List.map_map]
    rfl
  have products : product (negated entries) = -1 * product entries := by
    rw [product, negated, List.map_map, product, ← List.sum_map_mul_left]
    refine congrArg List.sum (List.map_congr_left ?_)
    intro e _
    change -e.1 * e.2 = -1 * (e.1 * e.2)
    ring
  rw [mean, weights, products, neg_one_mul, neg_div]
  rfl

end Sums

variable {α : Type u} [Field α] [LinearOrder α] [IsStrictOrderedRing α]

/-- Entries that have a mean. -/
structure Weighted (entries : List (α × α)) : Prop where
  nonempty : entries ≠ []
  positive : ∀ e ∈ entries, 0 < e.2

omit [IsStrictOrderedRing α] in
theorem Weighted.negated {entries : List (α × α)} (weighted : Weighted entries) :
    Weighted (negated entries) :=
  ⟨fun nil => weighted.nonempty (List.map_eq_nil_iff.mp nil),
    List.forall_mem_map.mpr weighted.positive⟩

theorem Weighted.weight_pos {entries : List (α × α)} (weighted : Weighted entries) :
    0 < weight entries := by
  refine List.sum_pos _ (List.forall_mem_map.mpr weighted.positive) ?_
  exact fun nil => weighted.nonempty (List.map_eq_nil_iff.mp nil)

/-- A lower bound of the values, times the weight, is below the sum of the products. -/
theorem mul_weight_le_product {entries : List (α × α)} {low : α} (positive : ∀ e ∈ entries, 0 < e.2)
    (bound : ∀ e ∈ entries, low ≤ e.1) : low * weight entries ≤ product entries := by
  rw [weight, product, ← List.sum_map_mul_left]
  refine List.sum_le_sum ?_
  intro e mem
  exact mul_le_mul_of_nonneg_right (bound e mem) (positive e mem).le

theorem le_mean {entries : List (α × α)} (weighted : Weighted entries) {low : α}
    (bound : ∀ e ∈ entries, low ≤ e.1) : low ≤ mean entries :=
  (le_div_iff₀ weighted.weight_pos).mpr (mul_weight_le_product weighted.positive bound)

theorem mean_le {entries : List (α × α)} (weighted : Weighted entries) {high : α}
    (bound : ∀ e ∈ entries, e.1 ≤ high) : mean entries ≤ high := by
  rw [← neg_le_neg_iff, ← mean_negated]
  refine le_mean weighted.negated ?_
  exact List.forall_mem_map.mpr (fun e mem => neg_le_neg (bound e mem))

/-- A further value at or below all others does not raise the mean. -/
theorem mean_snoc_le {entries : List (α × α)} (weighted : Weighted entries) {e : α × α}
    (positive : 0 < e.2) (below : ∀ a ∈ entries, e.1 ≤ a.1) :
    mean (entries ++ [e]) ≤ mean entries := by
  have here := weighted.weight_pos
  have lower := mul_weight_le_product weighted.positive below
  have weights : weight (entries ++ [e]) = weight entries + e.2 := by
    simp [weight]
  have products : product (entries ++ [e]) = product entries + e.1 * e.2 := by
    simp [product]
  rw [mean, mean, weights, products, div_le_div_iff₀ (add_pos here positive) here]
  have scaled := mul_le_mul_of_nonneg_right lower positive.le
  calc (product entries + e.1 * e.2) * weight entries
      = product entries * weight entries + e.1 * weight entries * e.2 := by ring
    _ ≤ product entries * weight entries + product entries * e.2 := by gcongr
    _ = product entries * (weight entries + e.2) := by ring

theorem le_mean_snoc {entries : List (α × α)} (weighted : Weighted entries) {e : α × α}
    (positive : 0 < e.2) (above : ∀ a ∈ entries, a.1 ≤ e.1) :
    mean entries ≤ mean (entries ++ [e]) := by
  rw [← neg_le_neg_iff, ← mean_negated, ← mean_negated, WeightedMean.negated, List.map_append]
  refine mean_snoc_le weighted.negated positive ?_
  exact List.forall_mem_map.mpr (fun a mem => neg_le_neg (above a mem))

end WeightedMean
