import MarketDataEngine.Transition
import Mathlib.Data.Rat.Floor
import Mathlib.Tactic.Linarith

/-!
# The reconnect delays

`ReconnectPolicy` of `feed/reconnect_policy.h`, which `WsClient::run` asks for a
delay after each lost connection. The product with the multiplier is exact and
truncated; converting it to 32 bits is undefined out of range, and the call then
has no next state. The delays returned are recorded with the resets between them.
-/

open Transition

/-- `ReconnectConfig`; the loader keeps a default where the file has no key. -/
structure ReconnectConfig where
  initialDelayMs : UInt32 := 100
  maxDelayMs : UInt32 := 30000
  multiplier : ℚ := 2

structure ReconnectPolicy where
  initialDelayMs : UInt32
  maxDelayMs : UInt32
  multiplier : ℚ
  currentDelayMs : UInt32

namespace ReconnectPolicy

/-- The constructor, as `WsClient` calls it. -/
def ofConfig (cfg : ReconnectConfig) : ReconnectPolicy where
  initialDelayMs := cfg.initialDelayMs
  maxDelayMs := cfg.maxDelayMs
  multiplier := cfg.multiplier
  currentDelayMs := cfg.initialDelayMs

/-- `static_cast<uint32_t>`, undefined unless the truncated value fits. -/
def toUInt32 (x : ℚ) : Option UInt32 :=
  if -1 < x ∧ x < 2 ^ 32 then some (UInt32.ofNat ⌊x⌋₊) else none

def nextDelayMs (policy : ReconnectPolicy) : Option (UInt32 × ReconnectPolicy) :=
  match toUInt32 (policy.currentDelayMs.toNat * policy.multiplier) with
  | none => none
  | some product =>
    some (policy.currentDelayMs,
      { policy with currentDelayMs := min product policy.maxDelayMs })

def reset (policy : ReconnectPolicy) : ReconnectPolicy :=
  { policy with currentDelayMs := policy.initialDelayMs }

inductive Call where
  | nextDelayMs
  | reset
  deriving DecidableEq

/-- A policy and what its calls returned; `none` stands for a reset. -/
structure State where
  policy : ReconnectPolicy
  log : List (Option UInt32)

def next (s : State) : Call → Option State
  | .nextDelayMs =>
    s.policy.nextDelayMs.map (fun (delay, policy) => ⟨policy, s.log ++ [some delay]⟩)
  | .reset => some ⟨s.policy.reset, s.log ++ [none]⟩

/-- The calls in any order, as long as every conversion is defined. -/
def machine (cfg : ReconnectConfig) : Machine State Call where
  init := ⟨ofConfig cfg, []⟩
  next := next

/-- The backoff law: no conversion goes out of range, no delay exceeds the maximum, the
delays between two resets do not fall, and failures in a row end at the maximum. -/
structure Lawful (cfg : ReconnectConfig) : Prop where
  representable : ∀ calls, ∃ s, (machine cfg).run (machine cfg).init calls = some s
  capped : ∀ s, (machine cfg).Reachable s → ∀ delay, some delay ∈ s.log → delay ≤ cfg.maxDelayMs
  rising : ∀ s, (machine cfg).Reachable s → ∀ delays : List UInt32,
    delays.map some <:+: s.log → delays.Pairwise (· ≤ ·)
  reaches : ∀ s, (machine cfg).Reachable s → ∃ n, ∀ m ≥ n, ∃ t,
    (machine cfg).run s (List.replicate (m + 1) .nextDelayMs) = some t ∧
      t.log.getLast? = some (some cfg.maxDelayMs)

/-- The initial delay is within the maximum, the largest product fits in 32 bits, and the
product of the initial delay is a whole millisecond more, unless that delay is the maximum. -/
structure Growing (cfg : ReconnectConfig) : Prop where
  start : cfg.initialDelayMs ≤ cfg.maxDelayMs
  fits : cfg.maxDelayMs.toNat * cfg.multiplier < 2 ^ 32
  gains : cfg.initialDelayMs = cfg.maxDelayMs ∨
    cfg.initialDelayMs.toNat + 1 ≤ cfg.initialDelayMs.toNat * cfg.multiplier

/-! ## One call -/

theorem toUInt32_eq_some {x : ℚ} {product : UInt32} (positive : 0 ≤ x)
    (h : toUInt32 x = some product) : x < 2 ^ 32 ∧ product.toNat = ⌊x⌋₊ := by
  simp only [toUInt32] at h
  split_ifs at h with range
  cases h
  refine ⟨range.2, UInt32.toNat_ofNat_of_lt' ?_⟩
  exact (Nat.floor_lt positive).mpr (by exact_mod_cast range.2)

theorem toUInt32_of_lt {x : ℚ} (positive : 0 ≤ x) (fits : x < 2 ^ 32) :
    ∃ product, toUInt32 x = some product :=
  ⟨_, if_pos ⟨by linarith, fits⟩⟩

/-- A call returns the current delay and goes on to the truncated product, capped. -/
theorem nextDelayMs_some {policy after : ReconnectPolicy} {delay : UInt32}
    (positive : 0 ≤ policy.multiplier) (h : policy.nextDelayMs = some (delay, after)) :
    delay = policy.currentDelayMs ∧ policy.currentDelayMs.toNat * policy.multiplier < 2 ^ 32 ∧
      after = { policy with currentDelayMs := after.currentDelayMs } ∧
      after.currentDelayMs.toNat =
        min ⌊policy.currentDelayMs.toNat * policy.multiplier⌋₊ policy.maxDelayMs.toNat := by
  simp only [nextDelayMs] at h
  split at h
  · cases h
  · rename_i product converted
    cases h
    obtain ⟨fits, truncated⟩ := toUInt32_eq_some (by positivity) converted
    exact ⟨rfl, fits, rfl, by rw [UInt32.toNat_min, truncated]⟩

/-- The policy of a configuration, wherever its current delay is. -/
def Of (cfg : ReconnectConfig) (policy : ReconnectPolicy) : Prop :=
  policy = { ofConfig cfg with currentDelayMs := policy.currentDelayMs }

theorem next_nextDelayMs {cfg : ReconnectConfig} {s t : State} (positive : 0 ≤ cfg.multiplier)
    (of : Of cfg s.policy) (h : next s .nextDelayMs = some t) :
    Of cfg t.policy ∧ t.log = s.log ++ [some s.policy.currentDelayMs] ∧
      s.policy.currentDelayMs.toNat * cfg.multiplier < 2 ^ 32 ∧
      t.policy.currentDelayMs.toNat =
        min ⌊s.policy.currentDelayMs.toNat * cfg.multiplier⌋₊ cfg.maxDelayMs.toNat := by
  obtain ⟨⟨delay, after⟩, moved, rfl⟩ := Option.map_eq_some_iff.mp h
  have factor : s.policy.multiplier = cfg.multiplier := by rw [of]; rfl
  have most : s.policy.maxDelayMs = cfg.maxDelayMs := by rw [of]; rfl
  obtain ⟨rfl, fits, same, current⟩ := nextDelayMs_some (factor ▸ positive) moved
  rw [factor] at fits current
  rw [most] at current
  refine ⟨?_, rfl, fits, current⟩
  rw [Of, same, of]

theorem exists_next {cfg : ReconnectConfig} {s : State} (of : Of cfg s.policy)
    (positive : 0 ≤ cfg.multiplier)
    (fits : s.policy.currentDelayMs.toNat * cfg.multiplier < 2 ^ 32) :
    ∃ t, next s .nextDelayMs = some t := by
  have factor : s.policy.multiplier = cfg.multiplier := by rw [of]; rfl
  rw [← factor] at fits positive
  obtain ⟨product, converted⟩ := toUInt32_of_lt (by positivity) fits
  refine ⟨⟨{ s.policy with currentDelayMs := min product s.policy.maxDelayMs },
    s.log ++ [some s.policy.currentDelayMs]⟩, ?_⟩
  simp only [next, nextDelayMs, converted, Option.map_some]

/-! ## A log of delays and resets -/

/-- A run of delays at the end of a log with one more entry. -/
theorem suffix_snoc {delays : List UInt32} {log : List (Option UInt32)} {entry : Option UInt32}
    (last : delays.map some <:+ log ++ [entry]) :
    delays = [] ∨ ∃ front delay,
      delays = front ++ [delay] ∧ some delay = entry ∧ front.map some <:+ log := by
  rcases List.suffix_concat_iff.mp last with empty | ⟨before, same, earlier⟩
  · exact Or.inl (List.map_eq_nil_iff.mp empty)
  · obtain ⟨front, back, rfl, rfl, single⟩ := List.map_eq_append_iff.mp same
    obtain ⟨delay, rfl, isEntry⟩ := List.map_eq_singleton_iff.mp single
    exact Or.inr ⟨front, delay, rfl, isEntry, earlier⟩

/-- The delays between two resets do not fall, and those after the last reset stay within
the current one. -/
structure Paced (log : List (Option UInt32)) (current : UInt32) : Prop where
  rising : ∀ delays : List UInt32, delays.map some <:+: log → delays.Pairwise (· ≤ ·)
  latest : ∀ delays : List UInt32, delays.map some <:+ log → ∀ delay ∈ delays, delay ≤ current

theorem paced_nil (current : UInt32) : Paced [] current where
  rising := fun delays inside => by
    rw [List.map_eq_nil_iff.mp (List.infix_nil.mp inside)]
    exact List.Pairwise.nil
  latest := fun delays last delay mem => by
    rw [List.map_eq_nil_iff.mp (List.suffix_nil.mp last)] at mem
    cases mem

theorem Paced.reset {log : List (Option UInt32)} {current : UInt32} (paced : Paced log current)
    (initial : UInt32) : Paced (log ++ [none]) initial where
  rising := by
    intro delays inside
    rcases List.infix_concat_iff.mp inside with last | before
    · rcases suffix_snoc last with rfl | ⟨front, delay, -, same, -⟩
      · exact List.Pairwise.nil
      · cases same
    · exact paced.rising delays before
  latest := by
    intro delays last delay mem
    rcases suffix_snoc last with rfl | ⟨front, delay', -, same, -⟩
    · cases mem
    · cases same

theorem Paced.next {log : List (Option UInt32)} {current following : UInt32}
    (paced : Paced log current) (rises : current ≤ following) :
    Paced (log ++ [some current]) following where
  rising := by
    intro delays inside
    rcases List.infix_concat_iff.mp inside with last | before
    · rcases suffix_snoc last with rfl | ⟨front, delay, rfl, same, earlier⟩
      · exact List.Pairwise.nil
      · cases same
        have within := paced.latest front earlier
        rw [List.pairwise_append]
        refine ⟨paced.rising front earlier.isInfix, List.pairwise_singleton _ _, ?_⟩
        simpa using within
    · exact paced.rising delays before
  latest := by
    intro delays last delay mem
    rcases suffix_snoc last with rfl | ⟨front, delay', rfl, same, earlier⟩
    · cases mem
    · cases same
      rcases List.mem_append.mp mem with before | single
      · exact UInt32.le_trans (paced.latest front earlier delay before) rises
      · rwa [List.mem_singleton.mp single]

/-! ## Configurations that keep the law -/

/-- What holds after any calls of a growing configuration. -/
structure Sound (cfg : ReconnectConfig) (s : State) : Prop where
  of : Of cfg s.policy
  low : cfg.initialDelayMs ≤ s.policy.currentDelayMs
  high : s.policy.currentDelayMs ≤ cfg.maxDelayMs
  capped : ∀ delay, some delay ∈ s.log → delay ≤ cfg.maxDelayMs
  paced : Paced s.log s.policy.currentDelayMs

variable {cfg : ReconnectConfig}

theorem product_lt_of_growing (faster : 1 < cfg.multiplier) (growing : Growing cfg) {n : Nat}
    (high : n ≤ cfg.maxDelayMs.toNat) : (n : ℚ) * cfg.multiplier < 2 ^ 32 := by
  refine lt_of_le_of_lt ?_ growing.fits
  exact mul_le_mul_of_nonneg_right (by exact_mod_cast high) (by linarith)

theorem le_floor_product (faster : 1 < cfg.multiplier) (n : Nat) :
    n ≤ ⌊(n : ℚ) * cfg.multiplier⌋₊ :=
  Nat.le_floor (le_mul_of_one_le_right n.cast_nonneg (le_of_lt faster))

/-- If the initial delay gains a millisecond, so does every later one. -/
theorem succ_le_floor_product (faster : 1 < cfg.multiplier) {n : Nat}
    (low : cfg.initialDelayMs.toNat ≤ n)
    (gains : (cfg.initialDelayMs.toNat : ℚ) + 1 ≤ cfg.initialDelayMs.toNat * cfg.multiplier) :
    n + 1 ≤ ⌊(n : ℚ) * cfg.multiplier⌋₊ := by
  refine Nat.le_floor ?_
  have low : (cfg.initialDelayMs.toNat : ℚ) ≤ n := by exact_mod_cast low
  have more : (cfg.initialDelayMs.toNat : ℚ) * (cfg.multiplier - 1) ≤ n * (cfg.multiplier - 1) :=
    mul_le_mul_of_nonneg_right low (by linarith)
  push_cast
  linarith

theorem sound_init (growing : Growing cfg) : Sound cfg (machine cfg).init where
  of := rfl
  low := UInt32.le_refl _
  high := growing.start
  capped := fun delay mem => by cases mem
  paced := paced_nil _

theorem Sound.reset {s : State} (sound : Sound cfg s) (growing : Growing cfg) :
    Sound cfg ⟨s.policy.reset, s.log ++ [none]⟩ := by
  have initial : s.policy.initialDelayMs = cfg.initialDelayMs := by rw [sound.of]; rfl
  refine ⟨?_, ?_, ?_, ?_, sound.paced.reset _⟩
  · rw [Of, ReconnectPolicy.reset, sound.of]
  · exact initial ▸ UInt32.le_refl _
  · change s.policy.initialDelayMs ≤ cfg.maxDelayMs
    rw [initial]
    exact growing.start
  · intro delay mem
    rcases List.mem_append.mp mem with before | last
    · exact sound.capped delay before
    · simp at last

/-- One more failure of a growing configuration waits for the current delay, and the
current delay does not fall; below the maximum it rises. -/
theorem Sound.next (faster : 1 < cfg.multiplier) (growing : Growing cfg) {s : State}
    (sound : Sound cfg s) :
    ∃ t, next s .nextDelayMs = some t ∧ Sound cfg t ∧
      t.log = s.log ++ [some s.policy.currentDelayMs] ∧
      min cfg.maxDelayMs.toNat (s.policy.currentDelayMs.toNat + 1) ≤
        t.policy.currentDelayMs.toNat := by
  have positive : 0 ≤ cfg.multiplier := by linarith
  have low := UInt32.le_iff_toNat_le.mp sound.low
  have high := UInt32.le_iff_toNat_le.mp sound.high
  have fits := product_lt_of_growing faster growing high
  obtain ⟨t, moved⟩ := exists_next sound.of positive fits
  obtain ⟨of, log, -, current⟩ := next_nextDelayMs positive sound.of moved
  have keeps := le_floor_product faster s.policy.currentDelayMs.toNat
  have rises : s.policy.currentDelayMs ≤ t.policy.currentDelayMs := by
    rw [UInt32.le_iff_toNat_le, current]
    exact Nat.le_min.mpr ⟨keeps, high⟩
  refine ⟨t, moved, ⟨of, UInt32.le_trans sound.low rises, ?_, ?_, ?_⟩, log, ?_⟩
  · rw [UInt32.le_iff_toNat_le, current]
    exact Nat.min_le_right _ _
  · intro delay mem
    rw [log] at mem
    rcases List.mem_append.mp mem with before | last
    · exact sound.capped delay before
    · cases List.mem_singleton.mp last
      exact sound.high
  · rw [log]
    exact sound.paced.next rises
  · rw [current]
    rcases growing.gains with same | gains
    · have top : s.policy.currentDelayMs.toNat = cfg.maxDelayMs.toNat := by
        rw [same] at low
        omega
      omega
    · have more := succ_le_floor_product faster low gains
      omega

theorem reachable_sound (faster : 1 < cfg.multiplier) (growing : Growing cfg) {s : State}
    (reached : (machine cfg).Reachable s) : Sound cfg s := by
  refine Machine.invariant (machine cfg) (Sound cfg) (sound_init growing) ?_ reached
  intro s call t _ sound h
  cases call with
  | nextDelayMs =>
    obtain ⟨t', moved, after, -, -⟩ := sound.next faster growing
    cases moved.symm.trans h
    exact after
  | reset =>
    cases h
    exact sound.reset growing

theorem exists_run (faster : 1 < cfg.multiplier) (growing : Growing cfg) (calls : List Call)
    {s : State} (sound : Sound cfg s) : ∃ t, (machine cfg).run s calls = some t := by
  induction calls generalizing s with
  | nil => exact ⟨s, rfl⟩
  | cons call rest ih =>
    have first : ∃ m, (machine cfg).next s call = some m ∧ Sound cfg m := by
      cases call with
      | nextDelayMs =>
        obtain ⟨m, moved, after, -, -⟩ := sound.next faster growing
        exact ⟨m, moved, after⟩
      | reset => exact ⟨_, rfl, sound.reset growing⟩
    obtain ⟨m, moved, after⟩ := first
    obtain ⟨t, later⟩ := ih after
    exact ⟨t, Machine.run_cons_some.mpr ⟨m, moved, later⟩⟩

/-- Every failure in a row adds a millisecond or more, up to the maximum. -/
theorem failures_reach (faster : 1 < cfg.multiplier) (growing : Growing cfg) {s : State}
    (sound : Sound cfg s) (n : Nat) :
    ∃ t, (machine cfg).run s (List.replicate n .nextDelayMs) = some t ∧ Sound cfg t ∧
      min cfg.maxDelayMs.toNat (s.policy.currentDelayMs.toNat + n) ≤
        t.policy.currentDelayMs.toNat := by
  induction n with
  | zero => exact ⟨s, rfl, sound, Nat.min_le_right _ _⟩
  | succ n ih =>
    obtain ⟨m, run, before, reaches⟩ := ih
    obtain ⟨t, moved, after, -, gains⟩ := before.next faster growing
    refine ⟨t, ?_, after, by omega⟩
    rw [List.replicate_succ']
    exact Machine.run_snoc_some.mpr ⟨m, run, moved⟩

theorem lawful_of_growing (faster : 1 < cfg.multiplier) (growing : Growing cfg) :
    Lawful cfg where
  representable := fun calls => exists_run faster growing calls (sound_init growing)
  capped := fun _ reached => (reachable_sound faster growing reached).capped
  rising := fun _ reached => (reachable_sound faster growing reached).paced.rising
  reaches := by
    intro s reached
    refine ⟨cfg.maxDelayMs.toNat, fun m late => ?_⟩
    obtain ⟨t, run, sound, reaches⟩ :=
      failures_reach faster growing (reachable_sound faster growing reached) m
    obtain ⟨u, moved, -, log, -⟩ := sound.next faster growing
    have high := UInt32.le_iff_toNat_le.mp sound.high
    have top : t.policy.currentDelayMs = cfg.maxDelayMs := UInt32.toNat_inj.mp (by omega)
    refine ⟨u, ?_, ?_⟩
    · rw [List.replicate_succ']
      exact Machine.run_snoc_some.mpr ⟨t, run, moved⟩
    · rw [log, top, List.getLast?_concat]

/-! ## What the law needs -/

theorem reachable_of (positive : 0 ≤ cfg.multiplier) {s : State}
    (reached : (machine cfg).Reachable s) : Of cfg s.policy := by
  refine Machine.invariant (machine cfg) (fun s => Of cfg s.policy) rfl ?_ reached
  intro s call t _ of h
  cases call with
  | nextDelayMs => exact (next_nextDelayMs positive of h).1
  | reset =>
    cases h
    rw [Of, ReconnectPolicy.reset, of]

/-- A delay whose product truncates to itself is never left. -/
theorem failures_stay (positive : 0 ≤ cfg.multiplier)
    (start : cfg.initialDelayMs ≤ cfg.maxDelayMs)
    (stays : ⌊cfg.initialDelayMs.toNat * cfg.multiplier⌋₊ = cfg.initialDelayMs.toNat) (n : Nat)
    {s : State}
    (run : (machine cfg).run (machine cfg).init (List.replicate n .nextDelayMs) = some s) :
    s.policy.currentDelayMs = cfg.initialDelayMs := by
  induction n generalizing s with
  | zero =>
    cases run
    rfl
  | succ n ih =>
    rw [List.replicate_succ'] at run
    obtain ⟨m, before, moved⟩ := Machine.run_snoc_some.mp run
    obtain ⟨-, -, -, current⟩ := next_nextDelayMs positive (reachable_of positive ⟨_, before⟩) moved
    rw [ih before, stays] at current
    have start := UInt32.le_iff_toNat_le.mp start
    exact UInt32.toNat_inj.mp (by omega)

theorem growing_of_lawful (faster : 1 < cfg.multiplier) (lawful : Lawful cfg) : Growing cfg := by
  have positive : 0 ≤ cfg.multiplier := by linarith
  have start : cfg.initialDelayMs ≤ cfg.maxDelayMs := by
    obtain ⟨s, run⟩ := lawful.representable [.nextDelayMs]
    obtain ⟨m, moved, last⟩ := Machine.run_cons_some.mp run
    cases last
    obtain ⟨-, log, -, -⟩ :=
      next_nextDelayMs positive (reachable_of positive (Machine.Reachable.start _)) moved
    refine lawful.capped s ⟨_, run⟩ cfg.initialDelayMs ?_
    rw [log]
    exact List.mem_append_right _ (List.mem_singleton_self _)
  obtain ⟨n, late⟩ := lawful.reaches _ (Machine.Reachable.start _)
  obtain ⟨t, run, top⟩ := late n (Nat.le_refl n)
  rw [List.replicate_succ'] at run
  obtain ⟨m, before, moved⟩ := Machine.run_snoc_some.mp run
  obtain ⟨-, log, fits, -⟩ := next_nextDelayMs positive (reachable_of positive ⟨_, before⟩) moved
  rw [log, List.getLast?_concat] at top
  have reached : m.policy.currentDelayMs = cfg.maxDelayMs := Option.some.inj (Option.some.inj top)
  refine ⟨start, reached ▸ fits, ?_⟩
  by_contra stuck
  obtain ⟨different, short⟩ := not_or.mp stuck
  rw [not_le] at short
  refine different ?_
  rw [← reached]
  refine (failures_stay positive start (Nat.le_antisymm ?_ ?_) n before).symm
  · refine Nat.le_of_lt_succ ((Nat.floor_lt (by positivity)).mpr ?_)
    exact_mod_cast short
  · exact le_floor_product faster _

/-- A multiplier above 1 keeps the backoff law exactly when the initial delay is within the
maximum, the product of the maximum fits in 32 bits, and the initial delay is the maximum or
grows by a whole millisecond. -/
theorem lawful_iff (cfg : ReconnectConfig) (faster : 1 < cfg.multiplier) :
    Lawful cfg ↔ Growing cfg :=
  ⟨growing_of_lawful faster, lawful_of_growing faster⟩

/-- The defaults keep the law. -/
theorem lawful_iff_defaults : Lawful {} := by
  refine (lawful_iff {} (by norm_num)).mpr ⟨by decide, ?_, Or.inr ?_⟩
  · change ((30000 : Nat) : ℚ) * 2 < 2 ^ 32
    norm_num
  · change ((100 : Nat) : ℚ) + 1 ≤ (100 : Nat) * 2
    norm_num

/-- The initial delay is not capped: the first delay is over the maximum and the second
one falls back to it. -/
theorem first_delay_uncapped :
    (∃ s, (machine ⟨60000, 30000, 2⟩).run (machine ⟨60000, 30000, 2⟩).init
      [.nextDelayMs, .nextDelayMs] = some s ∧ s.log = [some 60000, some 30000]) ∧
    ¬ Lawful ⟨60000, 30000, 2⟩ := by
  have logged : ((machine ⟨60000, 30000, 2⟩).run (machine ⟨60000, 30000, 2⟩).init
      [.nextDelayMs, .nextDelayMs]).map State.log = some [some 60000, some 30000] := by
    decide +kernel
  obtain ⟨s, run, log⟩ := Option.map_eq_some_iff.mp logged
  refine ⟨⟨s, run, log⟩, fun lawful => ?_⟩
  have within := lawful.capped s ⟨_, run⟩ 60000 (by rw [log]; exact List.mem_cons_self)
  exact absurd within (by decide)

end ReconnectPolicy
