import MarketDataEngine.Transition
import Mathlib.Logic.Function.Basic
import Mathlib.Data.List.TakeDrop

/-!
# Subscribers of a growing log

The specification of a broadcast. A subscriber that joins gets what is published from
then on, item by item, until it leaves; an item under way may still arrive after that.
Nothing is published while a subscriber that stays is behind, so what each got is a
contiguous part of the log that begins where it joined.
-/

namespace Subscriptions

open Transition

universe u v

/-- `joined` is the length of the log when the subscriber came. -/
structure Subscriber (T : Type v) where
  joined : Nat
  live : Bool := true
  got : List T := []

/-- How many items of the log a subscriber is past. -/
def Subscriber.upTo {T : Type v} (sub : Subscriber T) : Nat := sub.joined + sub.got.length

structure State (K : Type u) (T : Type v) where
  log : List T
  subs : K → Option (Subscriber T)

inductive Action (K : Type u) (T : Type v) where
  | join (k : K)
  | publish (item : T)
  | deliver (k : K)
  | leave (k : K)

variable {K : Type u} {T : Type v} [DecidableEq K]

/-- Everyone who stays has the whole log. -/
def Current (s : State K T) : Prop :=
  ∀ k sub, s.subs k = some sub → sub.live = true → sub.upTo = s.log.length

open Classical in
noncomputable def next (s : State K T) : Action K T → Option (State K T)
  | .join k =>
    match s.subs k with
    | none => some { s with subs := Function.update s.subs k (some ⟨s.log.length, true, []⟩) }
    | some _ => none
  | .publish item => if Current s then some { s with log := s.log ++ [item] } else none
  | .deliver k =>
    (s.subs k).bind (fun sub => (s.log[sub.upTo]?).map (fun item => { s with
      subs := Function.update s.subs k (some { sub with got := sub.got ++ [item] }) }))
  | .leave k =>
    (s.subs k).map (fun sub => { s with
      subs := Function.update s.subs k (some { sub with live := false }) })

noncomputable def machine (K : Type u) (T : Type v) [DecidableEq K] :
    Machine (State K T) (Action K T) where
  init := ⟨[], fun _ => none⟩
  next := next

/-- A subscriber has a contiguous part of the log from where it joined, and one that
stays lacks at most the last item. -/
structure Served (log : List T) (sub : Subscriber T) : Prop where
  within : sub.upTo ≤ log.length
  slice : sub.got = (log.drop sub.joined).take sub.got.length
  near : sub.live = true → log.length ≤ sub.upTo + 1

def Inv (s : State K T) : Prop := ∀ k sub, s.subs k = some sub → Served s.log sub

/-! ## One subscriber -/

theorem served_joined (log : List T) : Served log ⟨log.length, true, []⟩ where
  within := Nat.le_refl _
  slice := rfl
  near := fun _ => Nat.le_succ _

theorem Served.publish {log : List T} {sub : Subscriber T} (served : Served log sub) (item : T)
    (current : sub.live = true → sub.upTo = log.length) : Served (log ++ [item]) sub where
  within := by
    rw [List.length_append]
    exact Nat.le_add_right_of_le served.within
  slice := by
    have within := served.within
    unfold Subscriber.upTo at within
    rw [List.drop_append_of_le_length (by omega), List.take_append_of_le_length]
    · exact served.slice
    · rw [List.length_drop]
      omega
  near := fun live => by
    rw [List.length_append, List.length_singleton]
    exact Nat.succ_le_succ (Nat.le_of_eq (current live).symm)

theorem Served.deliver {log : List T} {sub : Subscriber T} (served : Served log sub) {item : T}
    (found : log[sub.upTo]? = some item) : Served log { sub with got := sub.got ++ [item] } where
  within := by
    obtain ⟨inside, -⟩ := List.getElem?_eq_some_iff.mp found
    simp only [Subscriber.upTo, List.length_append, List.length_singleton] at inside ⊢
    omega
  slice := by
    have next : (log.drop sub.joined)[sub.got.length]? = some item := by
      rw [List.getElem?_drop]
      exact found
    dsimp only
    rw [List.length_append, List.length_singleton, List.take_add_one, ← served.slice, next]
    rfl
  near := fun live => by
    have near := served.near live
    simp only [Subscriber.upTo, List.length_append] at near ⊢
    omega

theorem Served.leave {log : List T} {sub : Subscriber T} (served : Served log sub) :
    Served log { sub with live := false } where
  within := served.within
  slice := served.slice
  near := fun live => by cases live

/-! ## All of them -/

theorem inv_update {s : State K T} (inv : Inv s) {k : K} {sub : Subscriber T}
    (served : Served s.log sub) : Inv { s with subs := Function.update s.subs k (some sub) } := by
  intro j other found
  by_cases same : j = k
  · subst same
    change Function.update s.subs j (some sub) j = some other at found
    rw [Function.update_self] at found
    exact Option.some.inj found ▸ served
  · change Function.update s.subs k (some sub) j = some other at found
    rw [Function.update_of_ne same] at found
    exact inv j other found

theorem next_inv {s t : State K T} {a : Action K T} (inv : Inv s) (h : next s a = some t) :
    Inv t := by
  cases a with
  | join k =>
    simp only [next] at h
    split at h
    · exact Option.some.inj h ▸ inv_update inv (served_joined s.log)
    · cases h
  | publish item =>
    simp only [next] at h
    split_ifs at h with current
    cases h
    exact fun k sub found => (inv k sub found).publish item (current k sub found)
  | deliver k =>
    obtain ⟨sub, known, delivered⟩ := Option.bind_eq_some_iff.mp h
    obtain ⟨item, found, rfl⟩ := Option.map_eq_some_iff.mp delivered
    exact inv_update inv ((inv k sub known).deliver found)
  | leave k =>
    obtain ⟨sub, known, rfl⟩ := Option.map_eq_some_iff.mp h
    exact inv_update inv (inv k sub known).leave

theorem reachable_inv {s : State K T} (reached : (machine K T).Reachable s) : Inv s :=
  Machine.invariant (machine K T) Inv (fun _ _ found => by cases found)
    (fun _ _ _ _ inv h => next_inv inv h) reached

end Subscriptions
