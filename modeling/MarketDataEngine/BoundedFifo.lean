import MarketDataEngine.Transition

/-!
# A bounded first-in first-out channel

The specification a queue between two threads is measured against: items are
sent at the back while there is room and received from the front. The two
histories are kept, so loss, duplication and reordering are visible in a state.
-/

namespace BoundedFifo

open Transition

universe u

structure State (T : Type u) where
  items : List T
  sent : List T
  received : List T

inductive Action (T : Type u) where
  | send (item : T)
  | receive

variable {T : Type u}

/-- Sending needs room below `limit`; receiving needs an item. -/
def next (limit : Nat) (s : State T) : Action T → Option (State T)
  | .send item =>
    if s.items.length < limit then
      some { s with items := s.items ++ [item], sent := s.sent ++ [item] }
    else none
  | .receive =>
    match s.items with
    | [] => none
    | item :: rest => some { s with items := rest, received := s.received ++ [item] }

/-- The channel that holds at most `limit` items, initially empty. -/
def machine (T : Type u) (limit : Nat) : Machine (State T) (Action T) where
  init := ⟨[], [], []⟩
  next := next limit

/-- Nothing sent is lost, repeated or reordered, and the bound is kept. -/
structure Inv (limit : Nat) (s : State T) : Prop where
  conserved : s.received ++ s.items = s.sent
  bounded : s.items.length ≤ limit

theorem next_inv {limit : Nat} {s t : State T} {a : Action T} (inv : Inv limit s)
    (h : next limit s a = some t) : Inv limit t := by
  cases a with
  | send item =>
    simp only [next] at h
    split_ifs at h with room
    cases h
    constructor
    · simp only [← inv.conserved, List.append_assoc]
    · simp only [List.length_append, List.length_singleton]
      omega
  | receive =>
    simp only [next] at h
    cases hitems : s.items with
    | nil => simp [hitems] at h
    | cons item rest =>
      rw [hitems] at h
      cases h
      have conserved := inv.conserved
      have bounded := inv.bounded
      rw [hitems] at conserved bounded
      constructor
      · rw [← conserved]
        simp
      · exact Nat.le_of_succ_le bounded

theorem reachable_inv {limit : Nat} {s : State T}
    (reached : (machine T limit).Reachable s) : Inv limit s :=
  Machine.invariant (machine T limit) (Inv limit) ⟨rfl, Nat.zero_le _⟩
    (fun _ _ _ _ inv h => next_inv inv h) reached

/-- What was received is the front part of what was sent. -/
theorem Inv.received_prefix {limit : Nat} {s : State T} (inv : Inv limit s) :
    s.received <+: s.sent :=
  ⟨s.items, inv.conserved⟩

end BoundedFifo
