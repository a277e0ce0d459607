import MarketDataEngine.FeedHandler
import Mathlib.Data.Nat.ModEq

/-!
# The queue depth a monitor reads

`SPSCQueue::size_approx` of `core/spsc_queue.h`, which the monitoring servers publish
as `queue_depth`. It loads `tail_` and then `head_`, in any interleaving with the
thread that pushes and the one that pops, and subtracts modulo the capacity. The
queue at the two loads and the numbers of items it held during the call are
recorded beside the state; no step reads them.
-/

namespace QueueDepth

open Transition SpscQueue

universe u

/-- Where a monitoring thread is inside `size_approx`. -/
inductive SizePc where
  | ready
  | loadTail
  | loadHead (tail : Nat)
  | returned (value : Nat)
  deriving DecidableEq

def SizePc.busy : SizePc → Bool
  | .loadTail | .loadHead _ => true
  | .ready | .returned _ => false

structure State (T : Type u) where
  queue : SpscQueue.State T
  pc : SizePc
  atTail : SpscQueue.State T
  atHead : SpscQueue.State T
  depths : List Nat

inductive Action (T : Type u) where
  | queue (a : SpscQueue.Action T)
  | callSize
  | size

variable {T : Type u}

/-- `(tail - head) & MASK`, with the difference of two `size_t`. -/
def maskedDifference (cap : Capacity) (tail head : Nat) : Nat :=
  (tail + 2 ^ 64 - head) % 2 ^ 64 &&& cap.mask

/-- The next load of `size_approx`. -/
def sizeStep (cap : Capacity) (s : State T) : Option (State T) :=
  match s.pc with
  | .loadTail => some { s with pc := .loadHead s.queue.tail, atTail := s.queue }
  | .loadHead tail =>
    some { s with
      pc := .returned (maskedDifference cap tail s.queue.head)
      atHead := s.queue }
  | .ready | .returned _ => none

def next (cap : Capacity) (s : State T) : Action T → Option (State T)
  | .queue a =>
    (SpscQueue.next cap s.queue a).map (fun queue =>
      { s with
        queue := queue
        depths := if s.pc.busy then s.depths ++ [held queue] else s.depths })
  | .callSize =>
    if s.pc.busy then none
    else some { s with pc := .loadTail, depths := [held s.queue] }
  | .size => sizeStep cap s

def initial (blank : T) : State T where
  queue := SpscQueue.initial blank
  pc := .ready
  atTail := SpscQueue.initial blank
  atHead := SpscQueue.initial blank
  depths := []

/-- The queue with its two threads and a monitor that calls `size_approx` at any time. -/
def machine (cap : Capacity) (blank : T) : Machine (State T) (Action T) where
  init := initial blank
  next := next cap

/-! ## The difference of the two indices -/

/-- A capacity below `2^64` that is a power of two divides `2^64`. -/
theorem capacity_dvd {cap : Capacity} (fits : cap.val < 2 ^ 64) : cap.val ∣ 2 ^ 64 := by
  obtain ⟨k, power⟩ :=
    (Nat.and_sub_one_eq_zero_iff_isPowerOfTwo (Nat.ne_of_gt cap.positive)).mp cap.power
  rw [power] at fits ⊢
  exact Nat.pow_dvd_pow 2 (Nat.le_of_lt ((Nat.pow_lt_pow_iff_right (by omega)).mp fits))

/-- The difference of the slots of two positions is that of the positions, in either order. -/
theorem maskedDifference_modEq {cap : Capacity} (fits : cap.val < 2 ^ 64) (p q : Nat) :
    maskedDifference cap (p % cap.val) (q % cap.val) + q ≡ p [MOD cap.val] := by
  have divides := capacity_dvd fits
  have below : q % cap.val < 2 ^ 64 := Nat.lt_trans (Nat.mod_lt q cap.positive) fits
  rw [maskedDifference, and_mask, Nat.mod_mod_of_dvd _ divides]
  calc (p % cap.val + 2 ^ 64 - q % cap.val) % cap.val + q
      ≡ (p % cap.val + 2 ^ 64 - q % cap.val) + q % cap.val [MOD cap.val] :=
        (Nat.mod_modEq _ _).add (Nat.mod_modEq _ _).symm
    _ = p % cap.val + 2 ^ 64 := by omega
    _ ≡ p + 0 [MOD cap.val] := (Nat.mod_modEq _ _).add (Nat.modEq_zero_iff_dvd.mpr divides)

theorem maskedDifference_lt (cap : Capacity) (tail head : Nat) :
    maskedDifference cap tail head < cap.val := by
  rw [maskedDifference, and_mask]
  exact Nat.mod_lt _ cap.positive

/-- A head that has not passed the tail is subtracted as it should be. -/
theorem maskedDifference_of_le {cap : Capacity} (fits : cap.val < 2 ^ 64) {p q : Nat}
    (behind : q ≤ p) (near : p < q + cap.val) :
    maskedDifference cap (p % cap.val) (q % cap.val) = p - q := by
  have same : maskedDifference cap (p % cap.val) (q % cap.val) ≡ p - q [MOD cap.val] := by
    refine Nat.ModEq.add_right_cancel' q ?_
    rw [Nat.sub_add_cancel behind]
    exact maskedDifference_modEq fits p q
  exact same.eq_of_lt_of_lt (maskedDifference_lt _ _ _) (by omega)

/-- A head that is `d + 1` positions past the tail wraps the difference around. -/
theorem maskedDifference_passed {cap : Capacity} (fits : cap.val < 2 ^ 64) (p d : Nat) :
    maskedDifference cap (p % cap.val) ((p + (d + 1)) % cap.val) =
      cap.val - 1 - d % cap.val := by
  have rest := Nat.mod_lt d cap.positive
  have same : maskedDifference cap (p % cap.val) ((p + (d + 1)) % cap.val) ≡
      cap.val - 1 - d % cap.val [MOD cap.val] := by
    refine Nat.ModEq.add_right_cancel' (p + (d + 1)) ?_
    refine (maskedDifference_modEq fits p (p + (d + 1))).trans ?_
    have split := Nat.mod_add_div d cap.val
    have whole : cap.val - 1 - d % cap.val + (p + (d + 1)) =
        p + cap.val * (d / cap.val + 1) := by
      rw [Nat.mul_add_one]
      omega
    rw [whole]
    exact (Nat.add_mul_mod_self_left _ _ _).symm
  exact same.eq_of_lt_of_lt (maskedDifference_lt _ _ _) (by omega)

/-! ## What a call has seen -/

/-- Each load saw a state of the queue, the second one no earlier than the first. -/
def CallOk (cap : Capacity) (s : State T) : SizePc → Prop
  | .ready => True
  | .loadTail => held s.queue ∈ s.depths
  | .loadHead tail =>
    SpscQueue.Inv cap s.atTail ∧ s.atTail.popped <+: s.queue.popped ∧
      held s.atTail ∈ s.depths ∧ tail = s.atTail.tail
  | .returned value =>
    SpscQueue.Inv cap s.atTail ∧ SpscQueue.Inv cap s.atHead ∧
      s.atTail.popped <+: s.atHead.popped ∧ held s.atTail ∈ s.depths ∧
      value = maskedDifference cap s.atTail.tail s.atHead.head

theorem refines_queue (cap : Capacity) (blank : T) :
    (machine cap blank).Refines (SpscQueue.machine cap blank) State.queue := by
  refine ⟨rfl, fun s a t _ h => ?_⟩
  cases a with
  | queue a =>
    obtain ⟨queue, moved, rfl⟩ := Option.map_eq_some_iff.mp h
    exact Or.inr ⟨a, moved⟩
  | callSize =>
    simp only [machine, next] at h
    split_ifs at h
    cases h
    exact Or.inl rfl
  | size =>
    simp only [machine, next, sizeStep] at h
    split at h <;> cases h <;> exact Or.inl rfl

theorem queue_inv {cap : Capacity} {blank : T} {s : State T}
    (reached : (machine cap blank).Reachable s) : SpscQueue.Inv cap s.queue :=
  SpscQueue.reachable_inv ((refines_queue cap blank).reachable reached)

theorem next_callOk {cap : Capacity} {s t : State T} {a : Action T}
    (inv : SpscQueue.Inv cap s.queue) (ok : CallOk cap s s.pc)
    (h : next cap s a = some t) : CallOk cap t t.pc := by
  cases a with
  | queue a =>
    obtain ⟨queue, moved, rfl⟩ := Option.map_eq_some_iff.mp h
    have further := step_popped (next_step moved)
    cases pc : s.pc with
    | ready => trivial
    | loadTail => simp [CallOk, SizePc.busy]
    | loadHead tail =>
      rw [pc] at ok
      obtain ⟨atTail, earlier, depth, same⟩ := ok
      exact ⟨atTail, earlier.trans further, List.mem_append_left _ depth, same⟩
    | returned value =>
      rw [pc] at ok
      exact ok
  | callSize =>
    simp only [next] at h
    split_ifs at h
    cases h
    exact List.mem_singleton_self _
  | size =>
    cases pc : s.pc with
    | ready | returned value => simp [next, sizeStep, pc] at h
    | loadTail =>
      simp only [next, sizeStep, pc] at h
      cases h
      rw [pc] at ok
      exact ⟨inv, List.prefix_rfl, ok, rfl⟩
    | loadHead tail =>
      simp only [next, sizeStep, pc] at h
      cases h
      rw [pc] at ok
      obtain ⟨atTail, earlier, depth, rfl⟩ := ok
      exact ⟨atTail, inv, earlier, depth, rfl⟩

theorem reachable_callOk {cap : Capacity} {blank : T} {s : State T}
    (reached : (machine cap blank).Reachable s) : CallOk cap s s.pc :=
  Machine.invariant (machine cap blank) (fun s => CallOk cap s s.pc) trivial
    (fun _ _ _ reached ok h => next_callOk (queue_inv reached) ok h) reached

/-! ## The value against the items held -/

/-- The items the consumer released between the two loads of a finished call. -/
def released (s : State T) : Nat := s.atHead.popped.length - s.atTail.popped.length

/-- A call returns the wrapped difference of what was pushed at its first load and what was
popped at its second. -/
theorem returned_eq {cap : Capacity} {blank : T} {s : State T} {value : Nat}
    (reached : (machine cap blank).Reachable s) (returned : s.pc = .returned value) :
    SpscQueue.Inv cap s.atTail ∧ s.atTail.popped.length ≤ s.atHead.popped.length ∧
      held s.atTail ∈ s.depths ∧
      value = maskedDifference cap (s.atTail.pushed.length % cap.val)
        (s.atHead.popped.length % cap.val) := by
  have ok := reachable_callOk reached
  rw [returned] at ok
  obtain ⟨atTail, atHead, earlier, depth, rfl⟩ := ok
  exact ⟨atTail, earlier.length_le, depth, by rw [atTail.tail_eq, atHead.head_eq]⟩

theorem returned_of_behind {cap : Capacity} {blank : T} {s : State T} {value : Nat}
    (fits : cap.val < 2 ^ 64) (reached : (machine cap blank).Reachable s)
    (returned : s.pc = .returned value) (behind : released s ≤ held s.atTail) :
    value = held s.atTail - released s := by
  obtain ⟨atTail, before, -, rfl⟩ := returned_eq reached returned
  have filled := atTail.fifo.length_le
  have room := atTail.room
  simp only [released, held] at behind ⊢
  rw [maskedDifference_of_le fits (by omega) (by omega)]
  omega

theorem returned_of_passed {cap : Capacity} {blank : T} {s : State T} {value : Nat}
    (fits : cap.val < 2 ^ 64) (reached : (machine cap blank).Reachable s)
    (returned : s.pc = .returned value) (passed : held s.atTail < released s) :
    value = cap.val - 1 - (released s - held s.atTail - 1) % cap.val := by
  obtain ⟨atTail, before, -, rfl⟩ := returned_eq reached returned
  have filled := atTail.fifo.length_le
  have further : s.atHead.popped.length =
      s.atTail.pushed.length + (released s - held s.atTail - 1 + 1) := by
    simp only [released, held] at passed ⊢
    omega
  rw [further, maskedDifference_passed fits]

/-- In every interleaving `size_approx` returns at most what the queue held at some moment
of the call if and only if the consumer released no more between the loads than the queue
held at the first, or passed the loaded tail by so many items that the wrapped difference
is no more than what was held at some moment. -/
theorem size_le_held_iff (cap : Capacity) (fits : cap.val < 2 ^ 64) (blank : T)
    {as : List (Action T)} {s : State T} {value : Nat}
    (run : (machine cap blank).run (initial blank) as = some s)
    (returned : s.pc = .returned value) :
    (∃ depth ∈ s.depths, value ≤ depth) ↔
      released s ≤ held s.atTail ∨
        ∃ depth ∈ s.depths,
          cap.val - 1 - (released s - held s.atTail - 1) % cap.val ≤ depth := by
  have reached : (machine cap blank).Reachable s := ⟨as, run⟩
  rcases Nat.lt_or_ge (held s.atTail) (released s) with passed | behind
  · rw [returned_of_passed fits reached returned passed]
    exact (or_iff_right (Nat.not_le_of_lt passed)).symm
  · refine iff_of_true ?_ (Or.inl behind)
    obtain ⟨-, -, depth, -⟩ := returned_eq reached returned
    refine ⟨held s.atTail, depth, ?_⟩
    rw [returned_of_behind fits reached returned behind]
    exact Nat.sub_le _ _

/-- One whole push and one whole pop. -/
def pushOne : List (Action Nat) :=
  .queue (.callPush .copying 7) :: List.replicate 4 (.queue (.push 0))

def popOne : List (Action Nat) := .queue .callPop :: List.replicate 4 (.queue (.pop 0))

/-- A monitor that sees two items, one of which is taken out before its second load. -/
theorem size_le_held_iff_stale : ∃ s,
    (machine FeedHandler.feedQueue 0).run (initial 0)
      (pushOne ++ pushOne ++ [.callSize, .size] ++ popOne ++ [.size]) = some s ∧
    s.pc = .returned 1 ∧ ∃ depth ∈ s.depths, 1 ≤ depth := by
  have outcome : ((machine FeedHandler.feedQueue 0).run (initial 0)
      (pushOne ++ pushOne ++ [.callSize, .size] ++ popOne ++ [.size])).map
        (fun s => (s.pc, released s, held s.atTail)) = some (.returned 1, 1, 2) := by
    decide +kernel
  obtain ⟨s, run, seen⟩ := Option.map_eq_some_iff.mp outcome
  simp only [Prod.mk.injEq] at seen
  obtain ⟨returned, gone, had⟩ := seen
  refine ⟨s, run, returned, ?_⟩
  exact (size_le_held_iff FeedHandler.feedQueue (by decide) 0 run returned).mpr
    (Or.inl (by omega))

/-- Two pops and a push between the loads: the queue never holds more than one item, and
the monitor is told 8191. -/
theorem size_overtaken : ∃ s,
    (machine FeedHandler.feedQueue 0).run (initial 0)
      (pushOne ++ [.callSize, .size] ++ popOne ++ pushOne ++ popOne ++ [.size]) = some s ∧
    s.pc = .returned 8191 ∧ (∀ depth ∈ s.depths, depth ≤ 1) ∧
    ¬ ∃ depth ∈ s.depths, 8191 ≤ depth := by
  have outcome : ((machine FeedHandler.feedQueue 0).run (initial 0)
      (pushOne ++ [.callSize, .size] ++ popOne ++ pushOne ++ popOne ++ [.size])).map
        (fun s => (s.pc, s.depths)) =
      some (.returned 8191, [1, 1, 1, 1, 1, 0, 0, 0, 0, 0, 1, 1, 1, 1, 1, 0]) := by
    decide +kernel
  obtain ⟨s, run, seen⟩ := Option.map_eq_some_iff.mp outcome
  simp only [Prod.mk.injEq] at seen
  obtain ⟨returned, depths⟩ := seen
  refine ⟨s, run, returned, ?_, ?_⟩ <;> rw [depths] <;> decide

end QueueDepth
