import MarketDataEngine.Transition

/-!
# Infinite behaviours under weak fairness

A behaviour of a machine goes on for ever, with moments at which nothing happens. Each action
belongs to a thread or to the environment, and a fair thread does not stay able to step
without ever stepping. What holds sooner or later is shown by a ranking: as long as it does
not hold, some thread is able to step, and nothing but its step has to happen.
Nothing below is specific to one protocol.
-/

namespace Transition

universe u v w

variable {σ : Type u} {α : Type v} {κ : Type w}

/-- Some action of the thread `k` is enabled; `own` gives the thread of an action. -/
def Machine.Enabled (M : Machine σ α) (own : α → Option κ) (k : κ) (s : σ) : Prop :=
  ∃ a t, own a = some k ∧ M.next s a = some t

structure Behaviour (M : Machine σ α) where
  state : Nat → σ
  action : Nat → Option α
  start : state 0 = M.init
  idle : ∀ n, action n = none → state (n + 1) = state n
  taken : ∀ n a, action n = some a → M.next (state n) a = some (state (n + 1))

variable {M : Machine σ α} {own : α → Option κ}

namespace Behaviour

/-- The actions before a moment. -/
def history (b : Behaviour M) (n : Nat) : List α := (List.range n).filterMap b.action

theorem mem_history {b : Behaviour M} {n : Nat} {a : α} :
    a ∈ b.history n ↔ ∃ m, m < n ∧ b.action m = some a := by
  simp [history]

theorem run_history (b : Behaviour M) (n : Nat) :
    M.run M.init (b.history n) = some (b.state n) := by
  induction n with
  | zero => exact congrArg some b.start.symm
  | succ n ih =>
    rw [history, List.range_succ, List.filterMap_append]
    cases act : b.action n with
    | none =>
      rw [b.idle n act, List.filterMap_cons_none act, List.filterMap_nil, List.append_nil]
      exact ih
    | some a =>
      rw [List.filterMap_cons_some act]
      exact Machine.run_snoc_some.mpr ⟨_, ih, b.taken n a act⟩

theorem reachable (b : Behaviour M) (n : Nat) : M.Reachable (b.state n) :=
  ⟨b.history n, b.run_history n⟩

theorem leads (b : Behaviour M) {n m : Nat} (later : n ≤ m) :
    M.Leads (b.state n) (b.state m) := by
  induction m, later using Nat.le_induction with
  | base => exact Machine.Leads.refl _
  | succ m _ ih =>
    cases act : b.action m with
    | none => rwa [b.idle m act]
    | some a => exact ih.trans (.step (b.taken m a act) (.refl _))

/-- Weak fairness to the thread `k`. -/
def Fair (b : Behaviour M) (own : α → Option κ) (k : κ) : Prop :=
  ∀ n, (∀ m, n ≤ m → M.Enabled own k (b.state m)) →
    ∃ m a, n ≤ m ∧ b.action m = some a ∧ own a = some k

/-! ## A run after which nothing happens -/

theorem run_take {as : List α} {s : σ} (run : M.run M.init as = some s) (n : Nat) :
    ∃ m, M.run M.init (as.take n) = some m := by
  rw [← List.take_append_drop n as, Machine.run_append, Option.bind_eq_some_iff] at run
  obtain ⟨m, front, -⟩ := run
  exact ⟨m, front⟩

def ofRun (as : List α) {s : σ} (run : M.run M.init as = some s) : Behaviour M where
  state n := (M.run M.init (as.take n)).getD M.init
  action n := as[n]?
  start := rfl
  idle n none := by
    have beyond := List.getElem?_eq_none_iff.mp none
    rw [List.take_of_length_le beyond, List.take_of_length_le (Nat.le_succ_of_le beyond)]
  taken n a some := by
    obtain ⟨m, front⟩ := run_take run n
    obtain ⟨t, onward⟩ := run_take run (n + 1)
    have last := onward
    rw [List.take_add_one, some] at last
    obtain ⟨m', front', stepped⟩ := Machine.run_snoc_some.mp last
    rw [front] at front'
    cases front'
    rw [front, onward]
    exact stepped

theorem ofRun_state {as : List α} {s : σ} (run : M.run M.init as = some s) {n : Nat}
    (beyond : as.length ≤ n) : (ofRun as run).state n = s := by
  change (M.run M.init (as.take n)).getD M.init = s
  rw [List.take_of_length_le beyond, run]
  rfl

/-- A run that leaves a thread nothing to do is fair to it. -/
theorem fair_ofRun {as : List α} {s : σ} (run : M.run M.init as = some s) {k : κ}
    (stuck : ∀ a, own a = some k → M.next s a = none) : (ofRun as run).Fair own k := by
  intro n enabled
  obtain ⟨a, t, owned, stepped⟩ := enabled (n + as.length) (Nat.le_add_right _ _)
  rw [ofRun_state run (Nat.le_add_left _ _), stuck a owned] at stepped
  cases stepped

end Behaviour

/-! ## Rankings -/

/-- Where `C` always holds and `P` now, `Q` will hold: until then the `helper` can step, and a
step reaches `Q`, lowers the rank, or is not the helper's and changes neither of them. -/
structure Ranking (M : Machine σ α) (own : α → Option κ) (C P Q : σ → Prop) where
  rank : σ → Nat
  helper : σ → κ
  enabled : ∀ {s}, C s → P s → ¬ Q s → M.Enabled own (helper s) s
  step : ∀ {s a t}, C s → C t → P s → ¬ Q s → M.next s a = some t →
    Q t ∨ P t ∧ (rank t < rank s ∨
      rank t = rank s ∧ helper t = helper s ∧ own a ≠ some (helper s))

variable {C P Q : σ → Prop}

/-- A measure that pays for the steps of the threads, and that nothing else raises, is a rank. -/
theorem rank_of_paid {rank : σ → Nat} {helper : σ → κ} {cost : α → Nat} {s t : σ} {a : α}
    (paid : rank t + cost a ≤ rank s) (owned : ∀ k, own a = some k → 0 < cost a)
    (foreign : own a = none → helper t = helper s) :
    rank t < rank s ∨ rank t = rank s ∧ helper t = helper s ∧ own a ≠ some (helper s) := by
  cases thread : own a with
  | some k =>
    have positive := owned k thread
    exact Or.inl (by omega)
  | none =>
    rcases Nat.lt_or_eq_of_le (Nat.le_of_add_right_le paid) with lower | same
    · exact Or.inl lower
    · exact Or.inr ⟨same, foreign thread, by simp⟩

/-- As long as the rank is not lowered, everything stays as it is and the helper waits. -/
theorem Ranking.waits (r : Ranking M own C P Q) {b : Behaviour M} {n : Nat}
    (always : ∀ m, n ≤ m → C (b.state m)) (never : ∀ m, n ≤ m → ¬ Q (b.state m))
    (high : ∀ m, n ≤ m → P (b.state m) → ¬ r.rank (b.state m) < r.rank (b.state n))
    (holds : P (b.state n)) {m : Nat} (later : n ≤ m) :
    P (b.state m) ∧ r.rank (b.state m) = r.rank (b.state n) ∧
      r.helper (b.state m) = r.helper (b.state n) := by
  induction m, later using Nat.le_induction with
  | base => exact ⟨holds, rfl, rfl⟩
  | succ m later ih =>
    obtain ⟨now, rank, helper⟩ := ih
    have after := Nat.le_succ_of_le later
    cases act : b.action m with
    | none =>
      rw [b.idle m act]
      exact ⟨now, rank, helper⟩
    | some a =>
      rcases r.step (always m later) (always _ after) now (never m later) (b.taken m a act) with
        reached | ⟨next, lower | ⟨same, stays, -⟩⟩
      · exact absurd reached (never _ after)
      · exact absurd (rank ▸ lower) (high _ after next)
      · exact ⟨next, same.trans rank, stays.trans helper⟩

theorem Ranking.eventually (r : Ranking M own C P Q) (b : Behaviour M)
    (fair : ∀ k, b.Fair own k) {n : Nat} (always : ∀ m, n ≤ m → C (b.state m))
    (holds : P (b.state n)) : ∃ m, n ≤ m ∧ Q (b.state m) := by
  induction rank : r.rank (b.state n) using Nat.strong_induction_on generalizing n with
  | h _ ih =>
    by_contra never
    have unreached : ∀ m, n ≤ m → ¬ Q (b.state m) := fun m later holds => never ⟨m, later, holds⟩
    have high : ∀ m, n ≤ m → P (b.state m) → ¬ r.rank (b.state m) < r.rank (b.state n) := by
      intro m later now lower
      obtain ⟨l, after, reached⟩ :=
        ih _ (rank ▸ lower) (fun l after => always l (Nat.le_trans later after)) now rfl
      exact unreached l (Nat.le_trans later after) reached
    have waits := fun m later => r.waits (m := m) always unreached high holds later
    -- the helper is able to step for ever, and its step lowers the rank
    obtain ⟨m, a, later, act, owned⟩ := fair (r.helper (b.state n)) n (fun m later => by
      obtain ⟨now, -, helper⟩ := waits m later
      exact helper ▸ r.enabled (always m later) now (unreached m later))
    obtain ⟨now, same, helper⟩ := waits m later
    have after := Nat.le_succ_of_le later
    rcases r.step (always m later) (always _ after) now (unreached m later) (b.taken m a act) with
      reached | ⟨next, lower | ⟨-, -, foreign⟩⟩
    · exact unreached _ after reached
    · exact high _ after next (same ▸ lower)
    · exact foreign (owned.trans (congrArg some helper.symm))

end Transition
