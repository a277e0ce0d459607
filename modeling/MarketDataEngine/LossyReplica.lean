import Mathlib.Data.List.Induction
import Mathlib.Logic.Function.Basic

/-!
# Replicas behind a lossy channel

The owner of a map announces its writes in batches. A replica gets a beginning of each batch,
which is nothing where the batch is lost. Writes are absolute, so the replica is right at a key
as soon as the last write of this key got through, whatever was lost before.
-/

namespace LossyReplica

universe u v

/-! ## Which of the messages were kept -/

section Marks
variable {α : Type u}

def keptOf (fates : List (α × Bool)) : List α := (fates.filter Prod.snd).map Prod.fst

theorem keptOf_append (fates fates' : List (α × Bool)) :
    keptOf (fates ++ fates') = keptOf fates ++ keptOf fates' := by
  simp [keptOf]

theorem keptOf_cons_true (message : α) (fates : List (α × Bool)) :
    keptOf ((message, true) :: fates) = message :: keptOf fates := rfl

theorem keptOf_lost {fates : List (α × Bool)} (lost : ∀ fate ∈ fates, fate.2 = false) :
    keptOf fates = [] := by
  rw [keptOf, List.map_eq_nil_iff, List.filter_eq_nil_iff]
  intro fate mem
  simp [lost fate mem]

/-- Every part of a list in its order can be marked in the list. -/
theorem marks_of_sublist {kept sent : List α} (part : kept.Sublist sent) :
    ∃ fates : List (α × Bool), fates.map Prod.fst = sent ∧ keptOf fates = kept ∧
      (fates.map Prod.snd).count false + kept.length = sent.length := by
  induction part with
  | slnil => exact ⟨[], rfl, rfl, rfl⟩
  | cons message _ ih =>
    obtain ⟨fates, all, same, count⟩ := ih
    refine ⟨(message, false) :: fates, by rw [List.map_cons, all], same, ?_⟩
    rw [List.map_cons, List.count_cons_self, List.length_cons, ← count]
    omega
  | cons_cons message _ ih =>
    obtain ⟨fates, all, same, count⟩ := ih
    refine ⟨(message, true) :: fates, by rw [List.map_cons, all], ?_, ?_⟩
    · rw [← same]
      rfl
    · rw [List.map_cons, List.count_cons_of_ne (by simp), List.length_cons, List.length_cons,
        ← count, Nat.add_assoc]

end Marks

/-! ## Batches of writes -/

section Batches
variable {K : Type u} {V : Type v}

/-- Some write of the list is one of the key. A write with `none` takes its key out. -/
def Touches (writes : List (K × Option V)) (key : K) : Prop := ∃ w ∈ writes, w.1 = key

theorem touches_append {writes writes' : List (K × Option V)} {key : K} :
    Touches (writes ++ writes') key ↔ Touches writes key ∨ Touches writes' key := by
  simp [Touches, or_and_right, exists_or]

theorem touches_singleton {w : K × Option V} {key : K} : Touches [w] key ↔ w.1 = key := by
  simp [Touches]

/-- A batch of writes, and what the replica gets of it. -/
structure Delivery (K : Type u) (V : Type v) where
  sent : List (K × Option V)
  got : List (K × Option V)
  part : got <+: sent

/-- The writes of a batch that the replica does not get. -/
def Delivery.missing (d : Delivery K V) : List (K × Option V) := d.sent.drop d.got.length

theorem Delivery.got_append_missing (d : Delivery K V) : d.got ++ d.missing = d.sent := by
  obtain ⟨rest, whole⟩ := d.part
  rw [missing, ← whole, List.drop_left]

/-- The last batch that writes the key lost a write of it. -/
def Lost (ds : List (Delivery K V)) (key : K) : Prop :=
  ∃ before d after, ds = before ++ d :: after ∧ Touches d.missing key ∧
    ∀ later ∈ after, ¬ Touches later.sent key

def sent (ds : List (Delivery K V)) : List (K × Option V) := ds.flatMap Delivery.sent

def got (ds : List (Delivery K V)) : List (K × Option V) := ds.flatMap Delivery.got

theorem sent_snoc (ds : List (Delivery K V)) (d : Delivery K V) :
    sent (ds ++ [d]) = sent ds ++ d.sent := by
  simp [sent]

theorem got_snoc (ds : List (Delivery K V)) (d : Delivery K V) :
    got (ds ++ [d]) = got ds ++ d.got := by
  simp [got]

theorem Lost.snoc {ds : List (Delivery K V)} {d : Delivery K V} {key : K} (lost : Lost ds key)
    (untouched : ¬ Touches d.sent key) : Lost (ds ++ [d]) key := by
  obtain ⟨before, d', after, rfl, missing, later⟩ := lost
  refine ⟨before, d', after ++ [d], by simp, missing, ?_⟩
  exact List.forall_mem_append.mpr ⟨later, List.forall_mem_singleton.mpr untouched⟩

end Batches

/-! ## What the writes make of a map -/

variable {K : Type u} {V : Type v} [DecidableEq K]

instance (writes : List (K × Option V)) (key : K) : Decidable (Touches writes key) :=
  inferInstanceAs (Decidable (∃ w ∈ writes, _))

/-- A write gives a key a value, or takes the key out. -/
def write (side : K → Option V) (w : K × Option V) : K → Option V :=
  Function.update side w.1 w.2

def apply (side : K → Option V) (writes : List (K × Option V)) : K → Option V :=
  writes.foldl write side

theorem apply_append (side : K → Option V) (first second : List (K × Option V)) :
    apply side (first ++ second) = apply (apply side first) second :=
  List.foldl_append

theorem apply_snoc (side : K → Option V) (writes : List (K × Option V)) (w : K × Option V)
    (key : K) :
    apply side (writes ++ [w]) key = if key = w.1 then w.2 else apply side writes key := by
  rw [apply_append]
  exact Function.update_apply _ _ _ _

/-- Writes of other keys leave a key alone. -/
theorem apply_untouched (side : K → Option V) {writes : List (K × Option V)} {key : K}
    (untouched : ¬ Touches writes key) : apply side writes key = side key := by
  induction writes using List.reverseRecOn with
  | nil => rfl
  | append_singleton writes w ih =>
    rw [touches_append, touches_singleton, not_or] at untouched
    rw [apply_snoc, if_neg (Ne.symm untouched.2), ih untouched.1]

/-- After a write of a key it does not matter what was there before. -/
theorem apply_touched (side side' : K → Option V) {writes : List (K × Option V)} {key : K}
    (touches : Touches writes key) : apply side writes key = apply side' writes key := by
  induction writes using List.reverseRecOn with
  | nil => exact absurd touches (by simp [Touches])
  | append_singleton writes w ih =>
    rw [apply_snoc, apply_snoc]
    by_cases last : key = w.1
    · rw [if_pos last, if_pos last]
    · rw [if_neg last, if_neg last]
      rw [touches_append, touches_singleton] at touches
      exact ih (touches.resolve_right (Ne.symm last))

/-- At a key that is not written the replica holds what it held before. -/
theorem keeps_of_untouched (side : K → Option V) {ds : List (Delivery K V)} {key : K}
    (untouched : ¬ Touches (sent ds) key) : apply side (got ds) key = side key := by
  apply apply_untouched
  rintro ⟨w, mem, same⟩
  obtain ⟨d, inside, written⟩ := List.mem_flatMap.mp mem
  exact untouched ⟨w, List.mem_flatMap.mpr ⟨d, inside, d.part.subset written⟩, same⟩

/-- Whatever the two held before: at every key that is written the replica agrees with the
owner, or the last batch that writes the key lost a write of it. -/
theorem agree_or_lost (side side' : K → Option V) {ds : List (Delivery K V)} {key : K}
    (touches : Touches (sent ds) key) :
    apply side (got ds) key = apply side' (sent ds) key ∨ Lost ds key := by
  induction ds using List.reverseRecOn with
  | nil => exact absurd touches (by simp [sent, Touches])
  | append_singleton ds d ih =>
    by_cases missing : Touches d.missing key
    · exact Or.inr ⟨ds, d, [], rfl, missing, List.forall_mem_nil _⟩
    rw [got_snoc, sent_snoc, apply_append, apply_append]
    by_cases here : Touches d.got key
    · left
      rw [← d.got_append_missing, apply_append, apply_untouched _ missing]
      exact apply_touched _ _ here
    · have untouched : ¬ Touches d.sent key := by
        rw [← d.got_append_missing, touches_append]
        exact not_or.mpr ⟨here, missing⟩
      rw [sent_snoc, touches_append] at touches
      rw [apply_untouched _ here, apply_untouched _ untouched]
      exact (ih (touches.resolve_right untouched)).imp_right (fun lost => lost.snoc untouched)

end LossyReplica
