import MarketDataEngine.Transition
import MarketDataEngine.TradeAggregator
import Mathlib.Algebra.Order.Group.Unbundled.Abs
import Mathlib.Algebra.Order.Field.Rat
import Mathlib.Data.List.Chain

/-!
# Signals and their cooldown

`SignalDetector` of `engine/signal_detector.h`. Thresholds and metrics are exact
rationals; wall-clock readings and cooldowns are the source's 64-bit words, so
an interval between two readings wraps. Nothing is assumed about the readings.
The `book` argument of `evaluate` is not read by the source and is left out.
-/

open MarketTypes Transition

inductive SignalType where
  | spreadWide
  | spreadNarrow
  | imbalanceBid
  | imbalanceAsk
  | priceDeviation
  | tradeImbalanceBuy
  | tradeImbalanceSell
  | volumeSpike
  | bookPressureBid
  | bookPressureAsk
  deriving DecidableEq, Repr

structure SignalCondition where
  type : SignalType
  threshold : ℚ
  cooldownUs : UInt64 := 1000000
  deriving DecidableEq

structure Signal where
  type : SignalType
  symbol : Symbol
  value : ℚ
  threshold : ℚ
  timestampUs : UInt64
  deriving DecidableEq

structure CooldownKey where
  type : SignalType
  symbol : Symbol
  deriving DecidableEq

structure SignalDetector where
  conditions : List SignalCondition
  lastFired : CooldownKey → Option UInt64 := fun _ => none
  signalsFired : Nat := 0
  suppressed : Nat := 0

namespace SignalDetector

/-- One call of `callback_`, with the condition that made it. -/
structure Firing where
  condition : SignalCondition
  signal : Signal
  deriving DecidableEq

def Firing.key (firing : Firing) : CooldownKey := ⟨firing.signal.type, firing.signal.symbol⟩

/-- The arguments of one `evaluate`. `wallUs i` is what `wall_us()` returns if it
is read for the condition at position `i`. -/
structure Call where
  symbol : Symbol
  agg : AggregatorSnapshot
  tradeAgg : Option TradeAggregatorSnapshot
  wallUs : Nat → UInt64

/-- One pass of the loop over the conditions. -/
structure Check where
  condition : SignalCondition
  symbol : Symbol
  agg : AggregatorSnapshot
  tradeAgg : Option TradeAggregatorSnapshot
  nowUs : UInt64

def Check.key (check : Check) : CooldownKey := ⟨check.condition.type, check.symbol⟩

/-- A value that has to lie above a threshold to trigger. -/
def above (value threshold : ℚ) : Option ℚ := if value > threshold then some value else none

/-- A value that has to lie below a threshold to trigger. -/
def below (value threshold : ℚ) : Option ℚ := if value < threshold then some value else none

/-- The `switch`: the value that triggers the condition, if it is triggered. -/
def triggered (cond : SignalCondition) (agg : AggregatorSnapshot)
    (tradeAgg : Option TradeAggregatorSnapshot) : Option ℚ :=
  match cond.type with
  | .spreadWide => above agg.spread cond.threshold
  | .spreadNarrow => if agg.spread > 0 then below agg.spread cond.threshold else none
  | .imbalanceBid => above agg.bidAskImbalance cond.threshold
  | .imbalanceAsk => below agg.bidAskImbalance (-cond.threshold)
  | .priceDeviation =>
    if agg.midPriceSma > 0 then
      above (|agg.midPrice - agg.midPriceSma| / agg.midPriceSma) cond.threshold
    else none
  | .tradeImbalanceBuy => tradeAgg.bind (fun trades =>
      if trades.tradeCount > 0 then above trades.tradeImbalance cond.threshold else none)
  | .tradeImbalanceSell => tradeAgg.bind (fun trades =>
      if trades.tradeCount > 0 then below trades.tradeImbalance (-cond.threshold) else none)
  | .volumeSpike => tradeAgg.bind (fun trades =>
      if trades.volumeSma > 0 then above (trades.totalVolume / trades.volumeSma) cond.threshold
      else none)
  | .bookPressureBid =>
    if agg.sampleCount > 1 then above agg.imbalanceDelta cond.threshold else none
  | .bookPressureAsk =>
    if agg.sampleCount > 1 then below agg.imbalanceDelta (-cond.threshold) else none

/-- The suppression test, in unsigned 64-bit arithmetic. -/
def cooling (detector : SignalDetector) (key : CooldownKey) (nowUs cooldownUs : UInt64) : Bool :=
  match detector.lastFired key with
  | none => false
  | some last => nowUs - last < cooldownUs

/-- The loop body, with the calls of `callback_` so far. -/
def evaluateCondition (state : SignalDetector × List Firing) (check : Check) :
    SignalDetector × List Firing :=
  match triggered check.condition check.agg check.tradeAgg with
  | none => state
  | some value =>
    if cooling state.1 check.key check.nowUs check.condition.cooldownUs then
      ({ state.1 with suppressed := state.1.suppressed + 1 }, state.2)
    else
      ({ state.1 with
          lastFired := Function.update state.1.lastFired check.key (some check.nowUs)
          signalsFired := state.1.signalsFired + 1 },
        state.2 ++ [⟨check.condition, {
          type := check.condition.type
          symbol := check.symbol
          value := value
          threshold := check.condition.threshold
          timestampUs := check.nowUs }⟩])

/-- The passes of the loop, none of them without a sample. -/
def checks (conditions : List SignalCondition) (call : Call) : List Check :=
  if call.agg.sampleCount = 0 then []
  else conditions.zipIdx.map (fun entry =>
    ⟨entry.1, call.symbol, call.agg, call.tradeAgg, call.wallUs entry.2⟩)

/-- `evaluate`, returning what it passes to `callback_` in order. -/
def evaluate (detector : SignalDetector) (call : Call) : SignalDetector × List Firing :=
  (checks detector.conditions call).foldl evaluateCondition (detector, [])

/-- A sequence of `evaluate` calls with everything they pass to `callback_`. -/
def evaluateAll (detector : SignalDetector) (calls : List Call) : SignalDetector × List Firing :=
  calls.foldl (fun state call =>
    ((state.1.evaluate call).1, state.2 ++ (state.1.evaluate call).2)) (detector, [])

/-! ## What one check does -/

/-- What a check passes to `callback_` when it fires with `value`. -/
def Check.firing (check : Check) (value : ℚ) : Firing := ⟨check.condition, {
  type := check.condition.type
  symbol := check.symbol
  value := value
  threshold := check.condition.threshold
  timestampUs := check.nowUs }⟩

/-- A check is quiet, is suppressed, or fires and is remembered. -/
theorem evaluateCondition_cases (state : SignalDetector × List Firing) (check : Check) :
    (triggered check.condition check.agg check.tradeAgg = none ∧
      evaluateCondition state check = state) ∨
    ∃ value, triggered check.condition check.agg check.tradeAgg = some value ∧
      ((cooling state.1 check.key check.nowUs check.condition.cooldownUs = true ∧
        evaluateCondition state check =
          ({ state.1 with suppressed := state.1.suppressed + 1 }, state.2)) ∨
      (cooling state.1 check.key check.nowUs check.condition.cooldownUs = false ∧
        evaluateCondition state check =
          ({ state.1 with
              lastFired := Function.update state.1.lastFired check.key (some check.nowUs)
              signalsFired := state.1.signalsFired + 1 }, state.2 ++ [check.firing value]))) := by
  cases trigger : triggered check.condition check.agg check.tradeAgg with
  | none => exact Or.inl ⟨rfl, by simp [evaluateCondition, trigger]⟩
  | some value =>
    refine Or.inr ⟨value, rfl, ?_⟩
    cases cool : cooling state.1 check.key check.nowUs check.condition.cooldownUs with
    | true => exact Or.inl ⟨rfl, by simp [evaluateCondition, trigger, cool]⟩
    | false => exact Or.inr ⟨rfl, by simp [evaluateCondition, trigger, cool, Check.firing]⟩

theorem evaluateCondition_quiet {state : SignalDetector × List Firing} {check : Check}
    (quiet : triggered check.condition check.agg check.tradeAgg = none) :
    evaluateCondition state check = state := by
  rcases evaluateCondition_cases state check with ⟨-, same⟩ | ⟨_, found, -⟩
  · exact same
  · cases quiet.symm.trans found

theorem evaluateCondition_suppressed {state : SignalDetector × List Firing} {check : Check}
    {value : ℚ} (found : triggered check.condition check.agg check.tradeAgg = some value)
    (cool : cooling state.1 check.key check.nowUs check.condition.cooldownUs = true) :
    evaluateCondition state check =
      ({ state.1 with suppressed := state.1.suppressed + 1 }, state.2) := by
  rcases evaluateCondition_cases state check with ⟨quiet, -⟩ | ⟨_, -, ⟨-, same⟩ | ⟨warm, -⟩⟩
  · cases found.symm.trans quiet
  · exact same
  · cases warm.symm.trans cool

theorem evaluateCondition_fires {state : SignalDetector × List Firing} {check : Check}
    {value : ℚ} (found : triggered check.condition check.agg check.tradeAgg = some value)
    (warm : cooling state.1 check.key check.nowUs check.condition.cooldownUs = false) :
    evaluateCondition state check =
      ({ state.1 with
          lastFired := Function.update state.1.lastFired check.key (some check.nowUs)
          signalsFired := state.1.signalsFired + 1 }, state.2 ++ [check.firing value]) := by
  rcases evaluateCondition_cases state check with ⟨quiet, -⟩ | ⟨_, found', ⟨cool, -⟩ | ⟨-, same⟩⟩
  · cases found.symm.trans quiet
  · cases warm.symm.trans cool
  · obtain rfl := Option.some.inj (found.symm.trans found')
    exact same

/-- A check changes what is remembered at its own key only, to its own reading, and
only if it is triggered. -/
theorem lastFired_cases (state : SignalDetector × List Firing) (check : Check) :
    (evaluateCondition state check).1.lastFired = state.1.lastFired ∨
      (triggered check.condition check.agg check.tradeAgg ≠ none ∧
        (evaluateCondition state check).1.lastFired =
          Function.update state.1.lastFired check.key (some check.nowUs)) := by
  rcases evaluateCondition_cases state check with ⟨-, same⟩ | ⟨value, found, ⟨-, same⟩ | ⟨-, same⟩⟩
  · exact Or.inl (by rw [same])
  · exact Or.inl (by rw [same])
  · exact Or.inr ⟨by simp [found], by rw [same]⟩

theorem checks_symbol (conditions : List SignalCondition) (call : Call) :
    ∀ check ∈ checks conditions call, check.symbol = call.symbol := by
  intro check mem
  unfold checks at mem
  split_ifs at mem
  · cases mem
  · obtain ⟨entry, -, rfl⟩ := List.mem_map.mp mem
    rfl

/-- The passes of a call with a sample, with the clock reading of each. -/
theorem mem_checks {conditions : List SignalCondition} {call : Call}
    (sampled : call.agg.sampleCount ≠ 0) (check : Check) :
    check ∈ checks conditions call ↔ ∃ i condition, conditions[i]? = some condition ∧
      check = ⟨condition, call.symbol, call.agg, call.tradeAgg, call.wallUs i⟩ := by
  rw [checks, if_neg sampled, List.mem_map]
  constructor
  · rintro ⟨⟨condition, i⟩, mem, rfl⟩
    exact ⟨i, condition, List.mk_mem_zipIdx_iff_getElem?.mp mem, rfl⟩
  · rintro ⟨i, condition, found, rfl⟩
    exact ⟨(condition, i), List.mk_mem_zipIdx_iff_getElem?.mpr found, rfl⟩

/-- Whatever `evaluate` fires is for the symbol it was called with. -/
theorem evaluate_symbol (detector : SignalDetector) (call : Call) :
    ∀ firing ∈ (detector.evaluate call).2, firing.signal.symbol = call.symbol := by
  have own := checks_symbol detector.conditions call
  unfold evaluate
  generalize checks detector.conditions call = passes at own ⊢
  induction passes using List.reverseRecOn with
  | nil => exact List.forall_mem_nil _
  | append_singleton rest check ih =>
    have before := ih (fun c hc => own c (List.mem_append_left _ hc))
    have last := own check (by simp)
    rw [List.foldl_append, List.foldl_cons, List.foldl_nil]
    rcases evaluateCondition_cases
      (rest.foldl evaluateCondition (detector, [])) check with
      ⟨-, same⟩ | ⟨value, -, ⟨-, same⟩ | ⟨-, same⟩⟩
    · rwa [same]
    · rwa [same]
    · rw [same]
      intro firing mem
      rcases List.mem_append.mp mem with earlier | now
      · exact before firing earlier
      · obtain rfl := List.mem_singleton.mp now
        exact last

/-! ## Calls as runs of single checks -/

theorem evaluateCondition_conditions (state : SignalDetector × List Firing) (check : Check) :
    (evaluateCondition state check).1.conditions = state.1.conditions := by
  unfold evaluateCondition
  cases triggered check.condition check.agg check.tradeAgg with
  | none => rfl
  | some value => dsimp only; split_ifs <;> rfl

theorem foldl_evaluateCondition_conditions (checks : List Check)
    (state : SignalDetector × List Firing) :
    (checks.foldl evaluateCondition state).1.conditions = state.1.conditions := by
  induction checks generalizing state with
  | nil => rfl
  | cons check rest ih => exact (ih _).trans (evaluateCondition_conditions state check)

theorem evaluate_conditions (detector : SignalDetector) (call : Call) :
    (detector.evaluate call).1.conditions = detector.conditions :=
  foldl_evaluateCondition_conditions _ _

/-- Earlier callbacks have no influence on a check. -/
theorem evaluateCondition_log (detector : SignalDetector) (log : List Firing) (check : Check) :
    evaluateCondition (detector, log) check =
      ((evaluateCondition (detector, []) check).1,
        log ++ (evaluateCondition (detector, []) check).2) := by
  unfold evaluateCondition
  cases triggered check.condition check.agg check.tradeAgg with
  | none => simp
  | some value => dsimp only; split_ifs <;> simp

theorem foldl_evaluateCondition_log (checks : List Check) (detector : SignalDetector)
    (log : List Firing) :
    checks.foldl evaluateCondition (detector, log) =
      ((checks.foldl evaluateCondition (detector, [])).1,
        log ++ (checks.foldl evaluateCondition (detector, [])).2) := by
  induction checks generalizing detector log with
  | nil => simp
  | cons check rest ih =>
    rw [List.foldl_cons, List.foldl_cons, evaluateCondition_log, ih]
    conv_rhs => rw [← Prod.mk.eta (p := evaluateCondition (detector, []) check), ih]
    simp

/-- The loop bodies of a sequence of calls, one after the other. -/
theorem evaluateAll_eq_foldl (detector : SignalDetector) (calls : List Call) :
    detector.evaluateAll calls =
      (calls.flatMap (checks detector.conditions)).foldl evaluateCondition (detector, []) := by
  induction calls using List.reverseRecOn with
  | nil => rfl
  | append_singleton calls call ih =>
    have same : (detector.evaluateAll calls).1.conditions = detector.conditions := by
      rw [ih, foldl_evaluateCondition_conditions]
    have last : detector.evaluateAll (calls ++ [call]) =
        (((detector.evaluateAll calls).1.evaluate call).1,
          (detector.evaluateAll calls).2 ++ ((detector.evaluateAll calls).1.evaluate call).2) := by
      simp [evaluateAll]
    rw [last, List.flatMap_append, List.foldl_append, ← ih, List.flatMap_singleton,
      ← Prod.mk.eta (p := detector.evaluateAll calls), foldl_evaluateCondition_log]
    simp only [evaluate, same]

/-- The loop as a machine that is driven by checks. -/
def machine (conditions : List SignalCondition) : Machine (SignalDetector × List Firing) Check where
  init := ({ conditions }, [])
  next := fun state check => some (evaluateCondition state check)

theorem run_machine (conditions : List SignalCondition) (state : SignalDetector × List Firing)
    (checks : List Check) :
    (machine conditions).run state checks = some (checks.foldl evaluateCondition state) := by
  induction checks generalizing state with
  | nil => rfl
  | cons check rest ih => exact ih _

/-! ## Cooldown -/

/-- Two consecutive firings of one key, as integers. -/
def Spaced (first second : Firing) : Prop :=
  0 < second.condition.cooldownUs.toNat →
    first.signal.timestampUs.toNat + second.condition.cooldownUs.toNat ≤
      second.signal.timestampUs.toNat

/-- Of every two consecutive firings of a key, the second keeps its cooldown. -/
def CooldownRespected (log : List Firing) : Prop :=
  ∀ key, (log.filter (fun firing => firing.key = key)).IsChain Spaced

/-- A clock that stands behind the key's last firing is harmless only when the
wrapped interval is still shorter than the cooldown. -/
def SteadyClock (state : SignalDetector × List Firing) (check : Check) : Prop :=
  ∀ last, triggered check.condition check.agg check.tradeAgg ≠ none →
    state.1.lastFired check.key = some last → 0 < check.condition.cooldownUs.toNat →
    check.nowUs.toNat < last.toNat →
    2 ^ 64 - (last.toNat - check.nowUs.toNat) < check.condition.cooldownUs.toNat

/-- `last_fired_` holds the reading of each key's last firing. -/
def Remembers (state : SignalDetector × List Firing) : Prop :=
  ∀ key, state.1.lastFired key =
    ((state.2.filter (fun firing => firing.key = key)).getLast?).map
      (fun firing => firing.signal.timestampUs)

theorem respected_snoc (log : List Firing) (firing : Firing) :
    CooldownRespected (log ++ [firing]) ↔ CooldownRespected log ∧
      ∀ prev ∈ (log.filter (fun f => f.key = firing.key)).getLast?, Spaced prev firing := by
  constructor
  · intro respected
    refine ⟨fun key => ?_, ?_⟩
    · have chain := respected key
      rw [List.filter_append] at chain
      exact chain.left_of_append
    · have chain := respected firing.key
      rw [List.filter_append, List.isChain_append] at chain
      intro prev hprev
      exact chain.2.2 prev hprev firing (by simp)
  · rintro ⟨respected, last⟩ key
    rw [List.filter_append]
    by_cases same : firing.key = key
    · subst same
      have own : [firing].filter (fun f => f.key = firing.key) = [firing] := by simp
      rw [own]
      refine (respected firing.key).append (List.isChain_singleton _) ?_
      intro prev hprev next hnext
      obtain rfl : firing = next := by simpa using hnext
      exact last prev hprev
    · simpa [same] using respected key

theorem sub_toNat (now last : UInt64) :
    (now - last).toNat =
      if last.toNat ≤ now.toNat then now.toNat - last.toNat
      else 2 ^ 64 - (last.toNat - now.toNat) := by
  have hn := now.toNat_lt
  have hl := last.toNat_lt
  rw [UInt64.toNat_sub]
  split_ifs <;> omega

/-- The key of a check that fires remembers its reading, the other keys what they did. -/
theorem Remembers.fire {state : SignalDetector × List Firing} (remembers : Remembers state)
    (check : Check) (value : ℚ) :
    Remembers ({ state.1 with
      lastFired := Function.update state.1.lastFired check.key (some check.nowUs)
      signalsFired := state.1.signalsFired + 1 }, state.2 ++ [check.firing value]) := by
  intro key
  dsimp only
  rw [List.filter_append]
  by_cases same : key = check.key
  · subst same
    simp [Check.firing, Firing.key, Check.key]
  · have other : (check.firing value).key ≠ key := fun h => same h.symm
    rw [Function.update_of_ne same, remembers key]
    simp [other]

/-- A suppressed check cannot be one whose clock stands too far behind. -/
theorem steadyClock_of_cooling {state : SignalDetector × List Firing} {check : Check}
    (cool : cooling state.1 check.key check.nowUs check.condition.cooldownUs = true) :
    SteadyClock state check := by
  intro last _ hlast _ behind
  have short : check.nowUs - last < check.condition.cooldownUs := by
    simpa [cooling, hlast] using cool
  rw [UInt64.lt_iff_toNat_lt, sub_toNat, if_neg (Nat.not_le.mpr behind)] at short
  exact short

/-- A check that fires keeps the cooldown exactly when its clock is steady. -/
theorem respected_firing {state : SignalDetector × List Firing} (remembers : Remembers state)
    {check : Check} {value : ℚ}
    (found : triggered check.condition check.agg check.tradeAgg = some value)
    (warm : cooling state.1 check.key check.nowUs check.condition.cooldownUs = false) :
    CooldownRespected (state.2 ++ [check.firing value]) ↔
      CooldownRespected state.2 ∧ SteadyClock state check := by
  rw [respected_snoc]
  refine and_congr_right fun _ => ?_
  change (∀ prev ∈ (state.2.filter (fun f => f.key = check.key)).getLast?, _) ↔ _
  have memory := remembers check.key
  cases hprev : (state.2.filter (fun firing => firing.key = check.key)).getLast? with
  | none =>
    rw [hprev, Option.map_none] at memory
    refine iff_of_true (fun prev hmem => by cases hmem) (fun last _ hlast => ?_)
    cases memory.symm.trans hlast
  | some prev =>
    rw [hprev, Option.map_some] at memory
    have long : ¬ check.nowUs - prev.signal.timestampUs < check.condition.cooldownUs := by
      simpa [cooling, memory] using warm
    rw [UInt64.lt_iff_toNat_lt, sub_toNat] at long
    constructor
    · intro spaced last _ hlast positive behind
      obtain rfl : prev.signal.timestampUs = last := Option.some.inj (memory.symm.trans hlast)
      have apart : prev.signal.timestampUs.toNat + check.condition.cooldownUs.toNat ≤
          check.nowUs.toNat := spaced prev rfl positive
      omega
    · intro steady next hmem positive
      obtain rfl : prev = next := Option.some.inj hmem
      have bound := steady _ (by simp [found]) memory positive
      change prev.signal.timestampUs.toNat + check.condition.cooldownUs.toNat ≤
        check.nowUs.toNat
      split_ifs at long <;> omega

/-- One check keeps the memory of the last firings, and it breaks the cooldown
exactly when the clock is not steady. -/
theorem evaluateCondition_respected (state : SignalDetector × List Firing) (check : Check)
    (remembers : Remembers state) :
    Remembers (evaluateCondition state check) ∧
      (CooldownRespected (evaluateCondition state check).2 ↔
        CooldownRespected state.2 ∧ SteadyClock state check) := by
  rcases evaluateCondition_cases state check with
    ⟨quiet, same⟩ | ⟨value, found, ⟨cool, same⟩ | ⟨warm, same⟩⟩
  · rw [same]
    exact ⟨remembers, by simp [SteadyClock, quiet]⟩
  · rw [same]
    exact ⟨remembers, iff_self_and.mpr fun _ => steadyClock_of_cooling cool⟩
  · rw [same]
    exact ⟨remembers.fire check value, respected_firing remembers found warm⟩

/-- Over any run of checks, the cooldown is kept exactly when the clock is steady throughout. -/
theorem foldl_respected_iff (conditions : List SignalCondition) (checks : List Check) :
    Remembers (checks.foldl evaluateCondition ({ conditions }, [])) ∧
      (CooldownRespected (checks.foldl evaluateCondition ({ conditions }, [])).2 ↔
        (machine conditions).EachStep SteadyClock ({ conditions }, []) checks) := by
  induction checks using List.reverseRecOn with
  | nil =>
    refine ⟨fun _ => rfl, iff_of_true (fun key => ?_) trivial⟩
    exact List.isChain_nil
  | append_singleton checks check ih =>
    obtain ⟨remembers, respected⟩ := ih
    rw [List.foldl_append]
    obtain ⟨remembers', step⟩ := evaluateCondition_respected _ check remembers
    refine ⟨remembers', ?_⟩
    rw [Machine.eachStep_snoc, run_machine]
    simp only [List.foldl_cons, List.foldl_nil, step, respected, Option.some.injEq, forall_eq']

/-- For every list of conditions and every sequence of calls, each firing keeps its
cooldown after the previous firing of its key if and only if no triggered condition is
checked while the clock stands behind that firing, by at most 2^64 minus the cooldown. -/
theorem cooldown_respected_iff (conditions : List SignalCondition) (calls : List Call) :
    CooldownRespected (evaluateAll { conditions } calls).2 ↔
      (machine conditions).EachStep SteadyClock ({ conditions }, [])
        (calls.flatMap (checks conditions)) := by
  rw [evaluateAll_eq_foldl]
  exact (foldl_respected_iff conditions _).2

/-- A spread of 10 seen at one wall-clock reading. -/
def wideSpreadAt (reading : UInt64) : Call where
  symbol := []
  agg := { spread := 10, sampleCount := 1 }
  tradeAgg := none
  wallUs := fun _ => reading

/-- The clock steps back by one microsecond and the cooldown of a second is gone. -/
theorem cooldown_bypassed_by_step_back :
    ¬ CooldownRespected
      (evaluateAll { conditions := [{ type := .spreadWide, threshold := 5 }] }
        [wideSpreadAt 5000000, wideSpreadAt 4999999]).2 := by
  intro respected
  have chain := respected ⟨.spreadWide, []⟩
  rw [show List.filter _ _ = [
      ⟨⟨.spreadWide, 5, 1000000⟩, ⟨.spreadWide, [], 10, 5, 5000000⟩⟩,
      ⟨⟨.spreadWide, 5, 1000000⟩, ⟨.spreadWide, [], 10, 5, 4999999⟩⟩] by decide +kernel,
    List.isChain_pair] at chain
  have := chain (by decide)
  revert this
  decide

end SignalDetector
