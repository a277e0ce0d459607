import Mathlib.Algebra.Ring.Nat
import Mathlib.Data.List.Induction

/-!
# Deterministic transition machines

A machine has one start state and a partial step function that an environment
drives by choosing actions. Every interleaving of several threads is one list
of actions, so a property of all interleavings is a property of all lists.
Nothing below is specific to one protocol.
-/

namespace Transition

universe u v w z

/-- `next s a = none` means that the action `a` is not enabled in `s`. -/
structure Machine (σ : Type u) (α : Type v) where
  init : σ
  next : σ → α → Option σ

variable {σ : Type u} {α : Type v} {τ : Type w} {β : Type z}

namespace Machine

/-- The state after a list of actions, if each of them is enabled in turn. -/
def run (M : Machine σ α) : σ → List α → Option σ
  | s, [] => some s
  | s, a :: rest => (M.next s a).bind (fun t => M.run t rest)

/-- The states some list of actions leads to from the start state. -/
def Reachable (M : Machine σ α) (s : σ) : Prop :=
  ∃ as, M.run M.init as = some s

/-- The condition `C` holds of every state and action met along a run. -/
def EachStep (M : Machine σ α) (C : σ → α → Prop) : σ → List α → Prop
  | _, [] => True
  | s, a :: rest => C s a ∧ ∀ t, M.next s a = some t → M.EachStep C t rest

@[simp] theorem run_nil (M : Machine σ α) (s : σ) : M.run s [] = some s := rfl

@[simp] theorem run_cons (M : Machine σ α) (s : σ) (a : α) (rest : List α) :
    M.run s (a :: rest) = (M.next s a).bind (fun t => M.run t rest) := rfl

theorem run_cons_some {M : Machine σ α} {s t : σ} {a : α} {rest : List α} :
    M.run s (a :: rest) = some t ↔ ∃ m, M.next s a = some m ∧ M.run m rest = some t := by
  simp [Option.bind_eq_some_iff]

theorem run_append (M : Machine σ α) (s : σ) (as bs : List α) :
    M.run s (as ++ bs) = (M.run s as).bind (fun t => M.run t bs) := by
  induction as generalizing s with
  | nil => rfl
  | cons a rest ih =>
    simp only [List.cons_append, run_cons]
    cases M.next s a with
    | none => rfl
    | some m => exact ih m

theorem run_snoc_some {M : Machine σ α} {s t : σ} {as : List α} {a : α} :
    M.run s (as ++ [a]) = some t ↔ ∃ m, M.run s as = some m ∧ M.next m a = some t := by
  rw [run_append, Option.bind_eq_some_iff]
  simp

theorem Reachable.start (M : Machine σ α) : M.Reachable M.init := ⟨[], rfl⟩

theorem Reachable.next {M : Machine σ α} {s t : σ} {a : α} (reached : M.Reachable s)
    (h : M.next s a = some t) : M.Reachable t := by
  obtain ⟨as, has⟩ := reached
  exact ⟨as ++ [a], run_snoc_some.mpr ⟨s, has, h⟩⟩

/-- One state leads to another by some list of actions. -/
def Leads (M : Machine σ α) (s t : σ) : Prop := ∃ as, M.run s as = some t

theorem Leads.refl {M : Machine σ α} (s : σ) : M.Leads s s := ⟨[], rfl⟩

theorem Leads.step {M : Machine σ α} {s m t : σ} {a : α} (h : M.next s a = some m)
    (later : M.Leads m t) : M.Leads s t := by
  obtain ⟨as, has⟩ := later
  exact ⟨a :: as, run_cons_some.mpr ⟨m, h, has⟩⟩

theorem Leads.trans {M : Machine σ α} {s m t : σ} (first : M.Leads s m) (later : M.Leads m t) :
    M.Leads s t := by
  obtain ⟨as, has⟩ := first
  obtain ⟨bs, hbs⟩ := later
  refine ⟨as ++ bs, ?_⟩
  rw [run_append, has]
  exact hbs

/-- A reflexive relation that a step in front keeps relates the two ends of every run. -/
theorem Leads.relates {M : Machine σ α} {R : σ → σ → Prop} (refl : ∀ s, R s s)
    (step : ∀ s a m t, M.next s a = some m → R m t → R s t) {s t : σ} (h : M.Leads s t) :
    R s t := by
  obtain ⟨as, run⟩ := h
  induction as generalizing s with
  | nil =>
    cases run
    exact refl _
  | cons a rest ih =>
    obtain ⟨m, first, later⟩ := run_cons_some.mp run
    exact step _ a m t first (ih later)

theorem Reachable.leads {M : Machine σ α} {s t : σ} (reached : M.Reachable s)
    (h : M.Leads s t) : M.Reachable t :=
  Leads.trans reached h

/-- Induction along a run from its start, keeping the list of actions taken. -/
theorem history_invariant (M : Machine σ α) (P : List α → σ → Prop)
    (start : P [] M.init)
    (preserved : ∀ as s a t, M.run M.init as = some s → P as s →
      M.next s a = some t → P (as ++ [a]) t)
    {as : List α} {s : σ} (h : M.run M.init as = some s) : P as s := by
  induction as using List.reverseRecOn generalizing s with
  | nil => cases h; exact start
  | append_singleton as a ih =>
    obtain ⟨m, hm, hnext⟩ := run_snoc_some.mp h
    exact preserved as m a s hm (ih hm) hnext

/-- A property of the start state that every step from a reachable state keeps
holds of every reachable state. -/
theorem invariant (M : Machine σ α) (P : σ → Prop) (start : P M.init)
    (preserved : ∀ s a t, M.Reachable s → P s → M.next s a = some t → P t)
    {s : σ} (reached : M.Reachable s) : P s := by
  obtain ⟨as, has⟩ := reached
  exact history_invariant M (fun _ => P) start
    (fun as s a t hs hp hnext => preserved s a t ⟨as, hs⟩ hp hnext) has

/-- `N` simulates `M` through `f`: a step of `M` is one step of `N` or none. -/
def Refines (M : Machine σ α) (N : Machine τ β) (f : σ → τ) : Prop :=
  f M.init = N.init ∧ ∀ s a t, M.Reachable s → M.next s a = some t →
    f t = f s ∨ ∃ b, N.next (f s) b = some (f t)

/-- Invariants of the simulating machine hold of the image of every run. -/
theorem Refines.reachable {M : Machine σ α} {N : Machine τ β} {f : σ → τ}
    (refines : M.Refines N f) {s : σ} (reached : M.Reachable s) : N.Reachable (f s) := by
  refine invariant M (fun s => N.Reachable (f s)) ?_ ?_ reached
  · rw [refines.1]
    exact Reachable.start N
  · intro s a t hs hr hnext
    rcases refines.2 s a t hs hnext with same | ⟨b, hb⟩
    · rwa [same]
    · exact hr.next hb

/-- What `M` does between two states `N` does between their images. -/
theorem Refines.leads {M : Machine σ α} {N : Machine τ β} {f : σ → τ} (refines : M.Refines N f)
    {s t : σ} (reached : M.Reachable s) (h : M.Leads s t) : N.Leads (f s) (f t) := by
  obtain ⟨as, run⟩ := h
  induction as generalizing s with
  | nil =>
    cases run
    exact Leads.refl _
  | cons a rest ih =>
    obtain ⟨m, first, later⟩ := run_cons_some.mp run
    have onward := ih (reached.next first) later
    rcases refines.2 s a m reached first with same | ⟨b, step⟩
    · rwa [← same]
    · exact onward.step step

theorem eachStep_snoc (M : Machine σ α) (C : σ → α → Prop) (s : σ) (as : List α) (a : α) :
    M.EachStep C s (as ++ [a]) ↔
      M.EachStep C s as ∧ ∀ t, M.run s as = some t → C t a := by
  induction as generalizing s with
  | nil => simp [EachStep]
  | cons b rest ih =>
    simp only [List.cons_append, EachStep, run_cons]
    constructor
    · rintro ⟨hc, tail⟩
      refine ⟨⟨hc, fun t ht => ((ih t).mp (tail t ht)).1⟩, ?_⟩
      intro t ht
      obtain ⟨m, hm, hrun⟩ := Option.bind_eq_some_iff.mp ht
      exact ((ih m).mp (tail m hm)).2 t hrun
    · rintro ⟨⟨hc, tail⟩, last⟩
      refine ⟨hc, fun t ht => (ih t).mpr ⟨tail t ht, fun m hm => last m ?_⟩⟩
      rw [ht]
      exact hm

/-- A measure that pays for every action along a run pays for the whole run. -/
theorem run_budget {M : Machine σ α} {P : σ → Prop} {measure : σ → Nat} {cost : α → Nat}
    (step : ∀ s a t, P s → M.next s a = some t → P t ∧ measure t + cost a ≤ measure s)
    {as : List α} {s t : σ} (holds : P s) (run : M.run s as = some t) :
    P t ∧ measure t + (as.map cost).sum ≤ measure s := by
  induction as generalizing s with
  | nil =>
    cases run
    exact ⟨holds, Nat.le_refl _⟩
  | cons a rest ih =>
    obtain ⟨m, first, later⟩ := run_cons_some.mp run
    obtain ⟨next, paid⟩ := step s a m holds first
    obtain ⟨last, spent⟩ := ih next later
    rw [List.map_cons, List.sum_cons]
    exact ⟨last, by omega⟩

end Machine

/-- One more step of a partial fold, taken at its end. -/
theorem foldlM_snoc_some {f : σ → α → Option σ} {s t : σ} {as : List α} {a : α} :
    (as ++ [a]).foldlM f s = some t ↔ ∃ m, as.foldlM f s = some m ∧ f m a = some t := by
  rw [List.foldlM_append, Option.bind_eq_bind, Option.bind_eq_some_iff]
  simp

end Transition
