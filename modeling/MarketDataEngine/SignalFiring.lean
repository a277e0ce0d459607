import MarketDataEngine.SignalDetector

/-!
# When exactly a condition fires

The trigger of each signal type is stated on its own, with the guards of the `switch`, and
compared with the bare comparison that the comments promise. A firing is described by the
firings before it: the loop of `evaluate` remembers one reading for each key, and on a clock
that never runs backwards that one reading decides for all earlier firings of the key.
-/

open MarketTypes SignalDetector

namespace SignalFiring

/-- The trigger of a signal type as the `switch` tests it, with the value it reports. -/
inductive Met (agg : AggregatorSnapshot) (tradeAgg : Option TradeAggregatorSnapshot)
    (threshold : ℚ) : SignalType → ℚ → Prop
  | spreadWide : threshold < agg.spread → Met agg tradeAgg threshold .spreadWide agg.spread
  | spreadNarrow : 0 < agg.spread → agg.spread < threshold →
      Met agg tradeAgg threshold .spreadNarrow agg.spread
  | imbalanceBid : threshold < agg.bidAskImbalance →
      Met agg tradeAgg threshold .imbalanceBid agg.bidAskImbalance
  | imbalanceAsk : agg.bidAskImbalance < -threshold →
      Met agg tradeAgg threshold .imbalanceAsk agg.bidAskImbalance
  | priceDeviation : 0 < agg.midPriceSma →
      threshold < |agg.midPrice - agg.midPriceSma| / agg.midPriceSma →
      Met agg tradeAgg threshold .priceDeviation
        (|agg.midPrice - agg.midPriceSma| / agg.midPriceSma)
  | tradeImbalanceBuy {trades : TradeAggregatorSnapshot} : tradeAgg = some trades →
      0 < trades.tradeCount → threshold < trades.tradeImbalance →
      Met agg tradeAgg threshold .tradeImbalanceBuy trades.tradeImbalance
  | tradeImbalanceSell {trades : TradeAggregatorSnapshot} : tradeAgg = some trades →
      0 < trades.tradeCount → trades.tradeImbalance < -threshold →
      Met agg tradeAgg threshold .tradeImbalanceSell trades.tradeImbalance
  | volumeSpike {trades : TradeAggregatorSnapshot} : tradeAgg = some trades →
      0 < trades.volumeSma → threshold < trades.totalVolume / trades.volumeSma →
      Met agg tradeAgg threshold .volumeSpike (trades.totalVolume / trades.volumeSma)
  | bookPressureBid : 2 ≤ agg.sampleCount → threshold < agg.imbalanceDelta →
      Met agg tradeAgg threshold .bookPressureBid agg.imbalanceDelta
  | bookPressureAsk : 2 ≤ agg.sampleCount → agg.imbalanceDelta < -threshold →
      Met agg tradeAgg threshold .bookPressureAsk agg.imbalanceDelta

theorem above_eq_some_iff {value threshold reported : ℚ} :
    above value threshold = some reported ↔ threshold < value ∧ value = reported := by
  rw [above, Option.ite_none_right_eq_some, Option.some.injEq]

theorem below_eq_some_iff {value threshold reported : ℚ} :
    below value threshold = some reported ↔ value < threshold ∧ value = reported := by
  rw [below, Option.ite_none_right_eq_some, Option.some.injEq]

/-- What the `switch` reports is a trigger that is met, type by type. -/
theorem met_of_triggered {condition : SignalCondition} {agg : AggregatorSnapshot}
    {tradeAgg : Option TradeAggregatorSnapshot} {value : ℚ}
    (found : triggered condition agg tradeAgg = some value) :
    Met agg tradeAgg condition.threshold condition.type value := by
  obtain ⟨type, threshold, cooldownUs⟩ := condition
  cases type with
  | spreadWide =>
    obtain ⟨past, rfl⟩ := above_eq_some_iff.mp found
    exact .spreadWide past
  | spreadNarrow =>
    obtain ⟨positive, found⟩ := Option.ite_none_right_eq_some.mp found
    obtain ⟨under, rfl⟩ := below_eq_some_iff.mp found
    exact .spreadNarrow positive under
  | imbalanceBid =>
    obtain ⟨past, rfl⟩ := above_eq_some_iff.mp found
    exact .imbalanceBid past
  | imbalanceAsk =>
    obtain ⟨under, rfl⟩ := below_eq_some_iff.mp found
    exact .imbalanceAsk under
  | priceDeviation =>
    obtain ⟨positive, found⟩ := Option.ite_none_right_eq_some.mp found
    obtain ⟨past, rfl⟩ := above_eq_some_iff.mp found
    exact .priceDeviation positive past
  | tradeImbalanceBuy =>
    obtain ⟨trades, rfl, found⟩ := Option.bind_eq_some_iff.mp found
    obtain ⟨some', found⟩ := Option.ite_none_right_eq_some.mp found
    obtain ⟨past, rfl⟩ := above_eq_some_iff.mp found
    exact .tradeImbalanceBuy rfl some' past
  | tradeImbalanceSell =>
    obtain ⟨trades, rfl, found⟩ := Option.bind_eq_some_iff.mp found
    obtain ⟨some', found⟩ := Option.ite_none_right_eq_some.mp found
    obtain ⟨under, rfl⟩ := below_eq_some_iff.mp found
    exact .tradeImbalanceSell rfl some' under
  | volumeSpike =>
    obtain ⟨trades, rfl, found⟩ := Option.bind_eq_some_iff.mp found
    obtain ⟨positive, found⟩ := Option.ite_none_right_eq_some.mp found
    obtain ⟨past, rfl⟩ := above_eq_some_iff.mp found
    exact .volumeSpike rfl positive past
  | bookPressureBid =>
    obtain ⟨two, found⟩ := Option.ite_none_right_eq_some.mp found
    obtain ⟨past, rfl⟩ := above_eq_some_iff.mp found
    exact .bookPressureBid two past
  | bookPressureAsk =>
    obtain ⟨two, found⟩ := Option.ite_none_right_eq_some.mp found
    obtain ⟨under, rfl⟩ := below_eq_some_iff.mp found
    exact .bookPressureAsk two under

/-- A trigger that is met is reported by its branch. -/
theorem triggered_of_met {condition : SignalCondition} {agg : AggregatorSnapshot}
    {tradeAgg : Option TradeAggregatorSnapshot} {value : ℚ}
    (met : Met agg tradeAgg condition.threshold condition.type value) :
    triggered condition agg tradeAgg = some value := by
  obtain ⟨type, threshold, cooldownUs⟩ := condition
  cases met with
  | spreadWide past => exact above_eq_some_iff.mpr ⟨past, rfl⟩
  | spreadNarrow positive under =>
    exact (if_pos positive).trans (below_eq_some_iff.mpr ⟨under, rfl⟩)
  | imbalanceBid past => exact above_eq_some_iff.mpr ⟨past, rfl⟩
  | imbalanceAsk under => exact below_eq_some_iff.mpr ⟨under, rfl⟩
  | priceDeviation positive past =>
    exact (if_pos positive).trans (above_eq_some_iff.mpr ⟨past, rfl⟩)
  | tradeImbalanceBuy given some' past =>
    subst given
    exact (if_pos some').trans (above_eq_some_iff.mpr ⟨past, rfl⟩)
  | tradeImbalanceSell given some' under =>
    subst given
    exact (if_pos some').trans (below_eq_some_iff.mpr ⟨under, rfl⟩)
  | volumeSpike given positive past =>
    subst given
    exact (if_pos positive).trans (above_eq_some_iff.mpr ⟨past, rfl⟩)
  | bookPressureBid two past =>
    exact (if_pos two).trans (above_eq_some_iff.mpr ⟨past, rfl⟩)
  | bookPressureAsk two under =>
    exact (if_pos two).trans (below_eq_some_iff.mpr ⟨under, rfl⟩)

/-- The `switch` computes the triggers that are met. -/
theorem triggered_eq_some_iff {condition : SignalCondition} {agg : AggregatorSnapshot}
    {tradeAgg : Option TradeAggregatorSnapshot} {value : ℚ} :
    triggered condition agg tradeAgg = some value ↔
      Met agg tradeAgg condition.threshold condition.type value :=
  ⟨met_of_triggered, triggered_of_met⟩

theorem isSome_triggered_iff {condition : SignalCondition} {agg : AggregatorSnapshot}
    {tradeAgg : Option TradeAggregatorSnapshot} :
    (triggered condition agg tradeAgg).isSome = true ↔
      ∃ value, Met agg tradeAgg condition.threshold condition.type value := by
  rw [Option.isSome_iff_exists]
  exact exists_congr fun _ => triggered_eq_some_iff

instance (agg : AggregatorSnapshot) (tradeAgg : Option TradeAggregatorSnapshot) (threshold : ℚ)
    (type : SignalType) : Decidable (∃ value, Met agg tradeAgg threshold type value) :=
  decidable_of_iff _ (@isSome_triggered_iff ⟨type, threshold, 0⟩ agg tradeAgg)

/-! ## The guards -/

/-- The trigger in the words of the documentation: the comparison alone, for trades on a
snapshot that has data, and for the pressure from the second sample on. -/
inductive Documented (agg : AggregatorSnapshot) (tradeAgg : Option TradeAggregatorSnapshot)
    (threshold : ℚ) : SignalType → ℚ → Prop
  | spreadWide : threshold < agg.spread → Documented agg tradeAgg threshold .spreadWide agg.spread
  | spreadNarrow : agg.spread < threshold →
      Documented agg tradeAgg threshold .spreadNarrow agg.spread
  | imbalanceBid : threshold < agg.bidAskImbalance →
      Documented agg tradeAgg threshold .imbalanceBid agg.bidAskImbalance
  | imbalanceAsk : agg.bidAskImbalance < -threshold →
      Documented agg tradeAgg threshold .imbalanceAsk agg.bidAskImbalance
  | priceDeviation : agg.midPriceSma ≠ 0 →
      threshold < |agg.midPrice - agg.midPriceSma| / agg.midPriceSma →
      Documented agg tradeAgg threshold .priceDeviation
        (|agg.midPrice - agg.midPriceSma| / agg.midPriceSma)
  | tradeImbalanceBuy {trades : TradeAggregatorSnapshot} : tradeAgg = some trades →
      0 < trades.tradeCount → threshold < trades.tradeImbalance →
      Documented agg tradeAgg threshold .tradeImbalanceBuy trades.tradeImbalance
  | tradeImbalanceSell {trades : TradeAggregatorSnapshot} : tradeAgg = some trades →
      0 < trades.tradeCount → trades.tradeImbalance < -threshold →
      Documented agg tradeAgg threshold .tradeImbalanceSell trades.tradeImbalance
  | volumeSpike {trades : TradeAggregatorSnapshot} : tradeAgg = some trades →
      0 < trades.tradeCount → trades.volumeSma ≠ 0 →
      threshold < trades.totalVolume / trades.volumeSma →
      Documented agg tradeAgg threshold .volumeSpike (trades.totalVolume / trades.volumeSma)
  | bookPressureBid : 2 ≤ agg.sampleCount → threshold < agg.imbalanceDelta →
      Documented agg tradeAgg threshold .bookPressureBid agg.imbalanceDelta
  | bookPressureAsk : 2 ≤ agg.sampleCount → agg.imbalanceDelta < -threshold →
      Documented agg tradeAgg threshold .bookPressureAsk agg.imbalanceDelta

/-- The snapshots on which the guards of the `switch` are those of the documentation. -/
def Guarded (agg : AggregatorSnapshot) (tradeAgg : Option TradeAggregatorSnapshot) :
    SignalType → Prop
  | .spreadNarrow => 0 < agg.spread
  | .priceDeviation => 0 < agg.midPriceSma
  | .volumeSpike => ∀ trades ∈ tradeAgg, 0 < trades.tradeCount ∧ 0 < trades.volumeSma
  | _ => True

/-- Behind the guards the code tests what is documented. -/
theorem met_iff_documented {agg : AggregatorSnapshot} {tradeAgg : Option TradeAggregatorSnapshot}
    {threshold : ℚ} {type : SignalType} (guarded : Guarded agg tradeAgg type) {value : ℚ} :
    Met agg tradeAgg threshold type value ↔ Documented agg tradeAgg threshold type value := by
  constructor
  · intro met
    cases met with
    | spreadWide past => exact .spreadWide past
    | spreadNarrow positive under => exact .spreadNarrow under
    | imbalanceBid past => exact .imbalanceBid past
    | imbalanceAsk under => exact .imbalanceAsk under
    | priceDeviation positive past => exact .priceDeviation positive.ne' past
    | tradeImbalanceBuy given some' past => exact .tradeImbalanceBuy given some' past
    | tradeImbalanceSell given some' under => exact .tradeImbalanceSell given some' under
    | volumeSpike given positive past =>
      exact .volumeSpike given (guarded _ given).1 positive.ne' past
    | bookPressureBid two past => exact .bookPressureBid two past
    | bookPressureAsk two under => exact .bookPressureAsk two under
  · intro documented
    cases documented with
    | spreadWide past => exact .spreadWide past
    | spreadNarrow under => exact .spreadNarrow guarded under
    | imbalanceBid past => exact .imbalanceBid past
    | imbalanceAsk under => exact .imbalanceAsk under
    | priceDeviation _ past => exact .priceDeviation guarded past
    | tradeImbalanceBuy given some' past => exact .tradeImbalanceBuy given some' past
    | tradeImbalanceSell given some' under => exact .tradeImbalanceSell given some' under
    | volumeSpike given _ _ past => exact .volumeSpike given (guarded _ given).2 past
    | bookPressureBid two past => exact .bookPressureBid two past
    | bookPressureAsk two under => exact .bookPressureAsk two under

/-! ## One pass, by the firings before it -/

def timeOf (firing : Firing) : Nat := firing.signal.timestampUs.toNat

/-- What a pass of the loop gives to `callback_`. -/
def outcome (detector : SignalDetector) (check : Check) : Option Firing :=
  (evaluateCondition (detector, []) check).2.head?

/-- The clock readings of some passes: only a triggered condition reads the clock. -/
def readingsOf (checks : List Check) : List Nat :=
  (checks.filter (fun check => (triggered check.condition check.agg check.tradeAgg).isSome)).map
    (fun check => check.nowUs.toNat)

theorem outcome_eq_some_iff {detector : SignalDetector} {check : Check} {firing : Firing} :
    outcome detector check = some firing ↔
      ∃ value, triggered check.condition check.agg check.tradeAgg = some value ∧
        cooling detector check.key check.nowUs check.condition.cooldownUs = false ∧
        firing = check.firing value := by
  unfold outcome
  rcases evaluateCondition_cases (detector, []) check with
    ⟨quiet, same⟩ | ⟨value, found, ⟨cool, same⟩ | ⟨warm, same⟩⟩
  · rw [same]
    simp [quiet]
  · rw [same]
    dsimp only at cool
    simp [cool]
  · rw [same]
    dsimp only at warm
    simp [found, warm, eq_comm]

theorem evaluateCondition_outcome (state : SignalDetector × List Firing) (check : Check) :
    (evaluateCondition state check).2 = state.2 ++ (outcome state.1 check).toList := by
  unfold outcome
  rw [← Prod.mk.eta (p := state), evaluateCondition_log]
  rcases evaluateCondition_cases (state.1, []) check with
    ⟨-, same⟩ | ⟨value, -, ⟨-, same⟩ | ⟨-, same⟩⟩
  · rw [same]
    rfl
  · rw [same]
    rfl
  · rw [same]
    rfl

theorem readingsOf_append (before after : List Check) :
    readingsOf (before ++ after) = readingsOf before ++ readingsOf after := by
  rw [readingsOf, List.filter_append, List.map_append]
  rfl

/-- The times of the firings are among the readings, in their order. -/
theorem times_sublist (conditions : List SignalCondition) (checks : List Check) :
    ((checks.foldl evaluateCondition ({ conditions }, [])).2.map timeOf).Sublist
      (readingsOf checks) := by
  induction checks using List.reverseRecOn with
  | nil => exact List.Sublist.refl _
  | append_singleton checks check ih =>
    rw [List.foldl_concat, evaluateCondition_outcome, List.map_append, readingsOf_append]
    refine ih.append ?_
    cases fired : outcome (checks.foldl evaluateCondition ({ conditions }, [])).1 check with
    | none => exact List.nil_sublist _
    | some firing =>
      obtain ⟨value, found, -, rfl⟩ := outcome_eq_some_iff.mp fired
      simp [readingsOf, found, timeOf, Check.firing]

/-- On a clock that never runs backwards, the last firing of a key is cool exactly when every
earlier firing of the key is. -/
theorem warm_iff {state : SignalDetector × List Firing} (remembers : Remembers state)
    (ordered : (state.2.map timeOf).Pairwise (· ≤ ·)) {key : CooldownKey}
    {nowUs cooldownUs : UInt64} (past : ∀ f ∈ state.2, timeOf f ≤ nowUs.toNat) :
    cooling state.1 key nowUs cooldownUs = false ↔
      ∀ f ∈ state.2, f.key = key → timeOf f + cooldownUs.toNat ≤ nowUs.toNat := by
  have memory := remembers key
  cases hlast : (state.2.filter (fun f => f.key = key)).getLast? with
  | none =>
    rw [hlast, Option.map_none] at memory
    have none := List.filter_eq_nil_iff.mp (List.getLast?_eq_none_iff.mp hlast)
    refine iff_of_true (by simp [cooling, memory]) ?_
    intro f mem same
    exact absurd (decide_eq_true same) (none f mem)
  | some last =>
    rw [hlast, Option.map_some] at memory
    obtain ⟨front, split⟩ := List.getLast?_eq_some_iff.mp hlast
    have hmem : last ∈ state.2.filter (fun f => f.key = key) := by simp [split]
    obtain ⟨mem, own⟩ := List.mem_filter.mp hmem
    have reached : last.signal.timestampUs.toNat ≤ nowUs.toNat := past last mem
    have latest : ∀ f ∈ state.2, f.key = key → timeOf f ≤ timeOf last := by
      intro f hf same
      have among : f ∈ state.2.filter (fun f => f.key = key) :=
        List.mem_filter.mpr ⟨hf, decide_eq_true same⟩
      have sorted := (List.pairwise_map.mp ordered).filter (fun f => f.key = key)
      rw [split] at among sorted
      rcases List.mem_append.mp among with earlier | now
      · exact (List.pairwise_append.mp sorted).2.2 f earlier last List.mem_cons_self
      · exact (List.mem_singleton.mp now) ▸ le_rfl
    have apart : cooling state.1 key nowUs cooldownUs = false ↔
        timeOf last + cooldownUs.toNat ≤ nowUs.toNat := by
      simp only [cooling, memory, decide_eq_false_iff_not, UInt64.lt_iff_toNat_lt, sub_toNat,
        if_pos reached, timeOf]
      omega
    rw [apart]
    constructor
    · intro spaced f hf same
      have before := latest f hf same
      omega
    · exact fun all => all last mem (of_decide_eq_true own)

/-- A pass fires exactly when its trigger is met and all earlier firings of its key are
at least its own cooldown ago. -/
theorem outcome_after_iff (conditions : List SignalCondition) (before : List Check) (check : Check)
    (steady : (readingsOf (before ++ [check])).Pairwise (· ≤ ·)) (firing : Firing) :
    outcome (before.foldl evaluateCondition ({ conditions }, [])).1 check = some firing ↔
      ∃ value, Met check.agg check.tradeAgg check.condition.threshold
          check.condition.type value ∧ firing = check.firing value ∧
        ∀ f ∈ (before.foldl evaluateCondition ({ conditions }, [])).2, f.key = check.key →
          timeOf f + check.condition.cooldownUs.toNat ≤ check.nowUs.toNat := by
  obtain ⟨remembers, -⟩ := foldl_respected_iff conditions before
  rw [outcome_eq_some_iff]
  refine exists_congr fun value => ?_
  rw [triggered_eq_some_iff]
  refine and_congr_right fun met => ?_
  rw [and_comm]
  refine and_congr_right fun _ => ?_
  have own : readingsOf [check] = [check.nowUs.toNat] := by
    simp [readingsOf, triggered_eq_some_iff.mpr met]
  rw [readingsOf_append, own] at steady
  obtain ⟨ordered, -, last⟩ := List.pairwise_append.mp steady
  have times := times_sublist conditions before
  refine warm_iff remembers (ordered.sublist times) ?_
  intro f mem
  exact last _ (times.subset (List.mem_map_of_mem mem)) _ List.mem_cons_self

/-! ## The passes of one call and of all calls -/

/-- The passes of the loops before the one for condition `i` in call `c`. -/
def passesBefore (conditions : List SignalCondition) (calls : List Call) (c i : Nat) :
    List Check :=
  (calls.take c).flatMap (checks conditions) ++
    ((calls[c]?.map (checks conditions)).getD []).take i

/-- What call `c` gives to `callback_` for condition `i`. -/
def fires (conditions : List SignalCondition) (calls : List Call) (c i : Nat) : Option Firing := do
  let call ← calls[c]?
  let check ← (checks conditions call)[i]?
  outcome ((passesBefore conditions calls c i).foldl evaluateCondition ({ conditions }, [])).1 check

/-- What the passes of a list give to `callback_`, one after the other. -/
theorem foldl_eq_filterMap (state : SignalDetector × List Firing) (checks : List Check) :
    (checks.foldl evaluateCondition state).2 = state.2 ++
      (List.range checks.length).filterMap (fun i => checks[i]?.bind
        (outcome ((checks.take i).foldl evaluateCondition state).1)) := by
  induction checks using List.reverseRecOn with
  | nil => simp
  | append_singleton checks check ih =>
    have earlier : ∀ i ∈ List.range checks.length,
        (checks ++ [check])[i]?.bind
          (outcome (((checks ++ [check]).take i).foldl evaluateCondition state).1) =
        checks[i]?.bind (outcome ((checks.take i).foldl evaluateCondition state).1) := by
      intro i mem
      have inside := List.mem_range.mp mem
      rw [List.getElem?_append_left inside, List.take_append_of_le_length inside.le]
    rw [List.foldl_concat, evaluateCondition_outcome, ih, List.length_append,
      List.length_singleton, List.range_succ, List.filterMap_append,
      List.filterMap_congr earlier, List.append_assoc]
    simp only [List.filterMap_cons, List.filterMap_nil, List.getElem?_concat_length,
      Option.bind_some, List.take_left]
    cases outcome (checks.foldl evaluateCondition state).1 check with
    | none => rfl
    | some firing => rfl

/-- With a sample every condition has its pass. -/
theorem getElem?_checks {conditions : List SignalCondition} {call : Call} {i : Nat}
    {condition : SignalCondition} (sampled : call.agg.sampleCount ≠ 0)
    (listed : conditions[i]? = some condition) :
    (checks conditions call)[i]? =
      some ⟨condition, call.symbol, call.agg, call.tradeAgg, call.wallUs i⟩ := by
  rw [checks, if_neg sampled, List.getElem?_map, List.getElem?_zipIdx, listed, Nat.zero_add]
  rfl

theorem foldl_passesBefore {conditions : List SignalCondition} {calls : List Call} {c : Nat}
    {call : Call} (found : calls[c]? = some call) (i : Nat) :
    (passesBefore conditions calls c i).foldl evaluateCondition ({ conditions }, []) =
      ((checks conditions call).take i).foldl evaluateCondition
        (evaluateAll { conditions } (calls.take c)) := by
  rw [passesBefore, found, List.foldl_append, ← evaluateAll_eq_foldl]
  rfl

theorem fires_eq {conditions : List SignalCondition} {calls : List Call} {c : Nat} {call : Call}
    (found : calls[c]? = some call) (i : Nat) :
    fires conditions calls c i = (checks conditions call)[i]?.bind
      (outcome (((checks conditions call).take i).foldl evaluateCondition
        (evaluateAll { conditions } (calls.take c))).1) := by
  rw [fires, found, foldl_passesBefore found]
  rfl

/-- What a call fires does not depend on the calls after it. -/
theorem fires_of_lt (conditions : List SignalCondition) {front calls : List Call}
    (isPrefix : front <+: calls) {c : Nat} (inside : c < front.length) (i : Nat) :
    fires conditions calls c i = fires conditions front c i := by
  obtain ⟨rest, rfl⟩ := isPrefix
  have found : front[c]? = some front[c] := List.getElem?_eq_getElem inside
  have found' : (front ++ rest)[c]? = some front[c] := by
    rw [List.getElem?_append_left inside, found]
  rw [fires_eq found', fires_eq found, List.take_append_of_le_length inside.le]

/-- The callbacks of all calls in the order of the calls, and in each call in the order of the
conditions. -/
theorem log_eq (conditions : List SignalCondition) (calls : List Call) :
    (evaluateAll { conditions } calls).2 = (List.range calls.length).flatMap (fun c =>
      (List.range conditions.length).filterMap (fires conditions calls c)) := by
  induction calls using List.reverseRecOn with
  | nil => rfl
  | append_singleton calls call ih =>
    have found : (calls ++ [call])[calls.length]? = some call := List.getElem?_concat_length
    have earlier : ∀ c ∈ List.range calls.length,
        (List.range conditions.length).filterMap (fires conditions (calls ++ [call]) c) =
          (List.range conditions.length).filterMap (fires conditions calls c) := by
      intro c mem
      refine List.filterMap_congr fun i _ => ?_
      exact fires_of_lt conditions (List.prefix_append _ _) (List.mem_range.mp mem) i
    have now : (List.range conditions.length).filterMap
          (fires conditions (calls ++ [call]) calls.length) =
        (List.range (checks conditions call).length).filterMap (fun i =>
          (checks conditions call)[i]?.bind
            (outcome (((checks conditions call).take i).foldl evaluateCondition
              (evaluateAll { conditions } calls)).1)) := by
      simp only [fires_eq found, List.take_left]
      by_cases unsampled : call.agg.sampleCount = 0
      · have nothing : checks conditions call = [] := if_pos unsampled
        simp [nothing]
      · have length : (checks conditions call).length = conditions.length := by
          rw [checks, if_neg unsampled, List.length_map, List.length_zipIdx]
        rw [length]
    rw [evaluateAll_eq_foldl, List.flatMap_append, List.foldl_append, ← evaluateAll_eq_foldl,
      List.flatMap_singleton, foldl_eq_filterMap, ih, List.length_append, List.length_singleton,
      List.range_succ, List.flatMap_append, List.flatMap_congr earlier, List.flatMap_singleton, now]

theorem lt_of_fires {conditions : List SignalCondition} {calls : List Call} {c i : Nat}
    {firing : Firing} (fired : fires conditions calls c i = some firing) :
    i < conditions.length := by
  obtain ⟨call, -, reached⟩ := Option.bind_eq_some_iff.mp fired
  obtain ⟨check, passed, -⟩ := Option.bind_eq_some_iff.mp reached
  have inside := (List.getElem?_eq_some_iff.mp passed).1
  unfold checks at inside
  split_ifs at inside
  · exact absurd inside (Nat.not_lt_zero _)
  · rwa [List.length_map, List.length_zipIdx] at inside

/-- What was fired before a condition is what the conditions before it fired. -/
theorem mem_before_iff {conditions : List SignalCondition} {calls : List Call} {c i : Nat}
    {call : Call} (found : calls[c]? = some call) (inside : i < (checks conditions call).length)
    (firing : Firing) :
    firing ∈ ((passesBefore conditions calls c i).foldl evaluateCondition ({ conditions }, [])).2 ↔
      ∃ c' i', (c' < c ∨ c' = c ∧ i' < i) ∧ fires conditions calls c' i' = some firing := by
  have short : c < calls.length := (List.getElem?_eq_some_iff.mp found).1
  rw [foldl_passesBefore found, foldl_eq_filterMap, List.mem_append, log_eq]
  constructor
  · rintro (earlier | same)
    · obtain ⟨c', hc', mem⟩ := List.mem_flatMap.mp earlier
      obtain ⟨i', -, fired⟩ := List.mem_filterMap.mp mem
      have before := List.mem_range.mp hc'
      rw [← fires_of_lt conditions (List.take_prefix c calls) before] at fired
      rw [List.length_take] at before
      exact ⟨c', i', Or.inl (by omega), fired⟩
    · obtain ⟨i', hi', fired⟩ := List.mem_filterMap.mp same
      have before := List.mem_range.mp hi'
      rw [List.length_take] at before
      refine ⟨c, i', Or.inr ⟨rfl, by omega⟩, ?_⟩
      rw [fires_eq found, ← fired, List.getElem?_take_of_lt (by omega), List.take_take,
        Nat.min_eq_left (by omega)]
  · rintro ⟨c', i', before | ⟨rfl, before⟩, fired⟩
    · left
      have within : c' < (calls.take c).length := by
        rw [List.length_take]
        omega
      refine List.mem_flatMap.mpr ⟨c', List.mem_range.mpr within, ?_⟩
      refine List.mem_filterMap.mpr ⟨i', List.mem_range.mpr (lt_of_fires fired), ?_⟩
      rwa [← fires_of_lt conditions (List.take_prefix c calls) within]
    · right
      refine List.mem_filterMap.mpr ⟨i', List.mem_range.mpr ?_, ?_⟩
      · rw [List.length_take]
        omega
      · rw [← fired, fires_eq found, List.getElem?_take_of_lt before, List.take_take,
          Nat.min_eq_left before.le]

/-- The passes up to a condition are the first ones of all. -/
theorem passesBefore_first {conditions : List SignalCondition} {calls : List Call} {c i : Nat}
    {call : Call} {check : Check} (found : calls[c]? = some call)
    (passed : (checks conditions call)[i]? = some check) :
    passesBefore conditions calls c i ++ [check] <+: calls.flatMap (checks conditions) := by
  obtain ⟨hc, rfl⟩ := List.getElem?_eq_some_iff.mp found
  obtain ⟨hi, rfl⟩ := List.getElem?_eq_some_iff.mp passed
  have split : calls = calls.take c ++ calls[c] :: calls.drop (c + 1) := by
    rw [List.getElem_cons_drop, List.take_append_drop]
  have own : passesBefore conditions calls c i ++ [(checks conditions calls[c])[i]] =
      (calls.take c).flatMap (checks conditions) ++ (checks conditions calls[c]).take (i + 1) := by
    rw [passesBefore, found, List.append_assoc, List.take_succ_eq_append_getElem hi]
    rfl
  rw [own]
  conv_rhs => rw [split, List.flatMap_append, List.flatMap_cons]
  refine (List.prefix_append_right_inj _).mpr ?_
  exact (List.take_prefix _ _).trans (List.prefix_append _ _)

/-! ## The counters -/

/-- Every triggered pass is counted once, as fired or as suppressed. -/
theorem foldl_counters (conditions : List SignalCondition) (checks : List Check) :
    (checks.foldl evaluateCondition ({ conditions }, [])).1.signalsFired =
        (checks.foldl evaluateCondition ({ conditions }, [])).2.length ∧
      (checks.foldl evaluateCondition ({ conditions }, [])).1.signalsFired +
          (checks.foldl evaluateCondition ({ conditions }, [])).1.suppressed =
        checks.countP (fun check =>
          (triggered check.condition check.agg check.tradeAgg).isSome) := by
  induction checks using List.reverseRecOn with
  | nil => exact ⟨rfl, rfl⟩
  | append_singleton checks check ih =>
    obtain ⟨fired, total⟩ := ih
    rw [List.foldl_concat, List.countP_append, List.countP_singleton, ← total]
    rcases evaluateCondition_cases (checks.foldl evaluateCondition ({ conditions }, [])) check with
      ⟨quiet, same⟩ | ⟨value, found, ⟨-, same⟩ | ⟨-, same⟩⟩
    · rw [same, quiet]
      exact ⟨fired, rfl⟩
    · rw [same, found]
      exact ⟨fired, rfl⟩
    · rw [same, found]
      refine ⟨?_, ?_⟩
      · simp [fired]
      · simp [Nat.add_right_comm]

/-- The triggered passes of a call are the conditions whose trigger is met, if it has a sample. -/
theorem countP_checks (conditions : List SignalCondition) (call : Call) :
    (checks conditions call).countP (fun check =>
        (triggered check.condition check.agg check.tradeAgg).isSome) =
      conditions.countP (fun condition : SignalCondition => decide (0 < call.agg.sampleCount ∧
        ∃ value, Met call.agg call.tradeAgg condition.threshold condition.type value)) := by
  unfold checks
  split_ifs with unsampled
  · simp [unsampled]
  · have unzipped : conditions = conditions.zipIdx.map Prod.fst :=
      (List.zipIdx_map_fst 0 conditions).symm
    conv_rhs => rw [unzipped]
    rw [List.countP_map, List.countP_map]
    refine List.countP_congr fun entry _ => ?_
    simp only [Function.comp_apply, isSome_triggered_iff, decide_eq_true_eq,
      Nat.pos_of_ne_zero unsampled, true_and]

/-- On a clock that never runs backwards, each condition fires in a call exactly when the call
has a sample, the trigger is met with its guard and no firing of its type for the symbol, be it
of an earlier call or of an earlier condition, is less than its cooldown ago. The callbacks come
in this order, and the counters add up to the triggers that were met. -/
theorem firing_exact (conditions : List SignalCondition) (calls : List Call)
    (steady : (readingsOf (calls.flatMap (checks conditions))).Pairwise (· ≤ ·)) :
    (∀ c i call condition, calls[c]? = some call → conditions[i]? = some condition → ∀ firing,
      fires conditions calls c i = some firing ↔ 0 < call.agg.sampleCount ∧
        ∃ value, Met call.agg call.tradeAgg condition.threshold condition.type value ∧
          firing = ⟨condition, {
            type := condition.type
            symbol := call.symbol
            value := value
            threshold := condition.threshold
            timestampUs := call.wallUs i }⟩ ∧
          ∀ c' i' earlier, (c' < c ∨ c' = c ∧ i' < i) →
            fires conditions calls c' i' = some earlier →
            earlier.signal.type = condition.type → earlier.signal.symbol = call.symbol →
            earlier.signal.timestampUs.toNat + condition.cooldownUs.toNat ≤
              (call.wallUs i).toNat) ∧
    (evaluateAll { conditions } calls).2 = (List.range calls.length).flatMap (fun c =>
      (List.range conditions.length).filterMap (fires conditions calls c)) ∧
    (evaluateAll { conditions } calls).1.signalsFired =
      (evaluateAll { conditions } calls).2.length ∧
    (evaluateAll { conditions } calls).1.signalsFired +
        (evaluateAll { conditions } calls).1.suppressed =
      (calls.map (fun call => conditions.countP (fun condition : SignalCondition =>
        decide (0 < call.agg.sampleCount ∧ ∃ value,
          Met call.agg call.tradeAgg condition.threshold condition.type value)))).sum := by
  obtain ⟨fired, total⟩ := foldl_counters conditions (calls.flatMap (checks conditions))
  rw [← evaluateAll_eq_foldl] at fired total
  refine ⟨?_, log_eq conditions calls, fired, ?_⟩
  · intro c i call condition found listed firing
    by_cases unsampled : call.agg.sampleCount = 0
    · have nothing : checks conditions call = [] := if_pos unsampled
      refine iff_of_false ?_ (fun h => absurd unsampled h.1.ne')
      rw [fires_eq found, nothing]
      exact nofun
    · have passed := getElem?_checks unsampled listed
      have inside := (List.getElem?_eq_some_iff.mp passed).1
      have upTo := steady.sublist ((passesBefore_first found passed).sublist.filter _ |>.map _)
      have here : fires conditions calls c i =
          outcome ((passesBefore conditions calls c i).foldl evaluateCondition
            ({ conditions }, [])).1
            ⟨condition, call.symbol, call.agg, call.tradeAgg, call.wallUs i⟩ := by
        rw [fires, found]
        exact congrArg (Option.bind · _) passed
      rw [here, outcome_after_iff conditions _ _ upTo]
      simp only [mem_before_iff found inside, Check.firing, Check.key, Firing.key,
        CooldownKey.mk.injEq, Nat.pos_of_ne_zero unsampled, true_and]
      refine exists_congr fun value => and_congr_right fun _ => and_congr_right fun _ => ?_
      constructor
      · intro all c' i' earlier before fired type symbol
        exact all earlier ⟨c', i', before, fired⟩ ⟨type, symbol⟩
      · rintro all f ⟨c', i', before, fired⟩ ⟨type, symbol⟩
        exact all c' i' f before fired type symbol
  · rw [total, List.countP_flatMap]
    refine congrArg List.sum (List.map_congr_left fun call _ => ?_)
    exact countP_checks conditions call

/-- Half a second is inside the cooldown and a second is not. -/
theorem firing_exact_halfSeconds :
    fires [{ type := .spreadWide, threshold := 5 }]
        [wideSpreadAt 5000000, wideSpreadAt 5500000, wideSpreadAt 6000000] 0 0 =
      some ⟨{ type := .spreadWide, threshold := 5 }, ⟨.spreadWide, [], 10, 5, 5000000⟩⟩ ∧
    (evaluateAll { conditions := [{ type := .spreadWide, threshold := 5 }] }
        [wideSpreadAt 5000000, wideSpreadAt 5500000, wideSpreadAt 6000000]).1.signalsFired +
      (evaluateAll { conditions := [{ type := .spreadWide, threshold := 5 }] }
        [wideSpreadAt 5000000, wideSpreadAt 5500000, wideSpreadAt 6000000]).1.suppressed = 3 := by
  obtain ⟨firing, -, -, total⟩ := firing_exact [{ type := .spreadWide, threshold := 5 }]
    [wideSpreadAt 5000000, wideSpreadAt 5500000, wideSpreadAt 6000000] (by decide +kernel)
  refine ⟨(firing 0 0 _ _ rfl rfl _).mpr ⟨by decide, 10, .spreadWide ?_, rfl, ?_⟩, ?_⟩
  · decide +kernel
  · rintro c' i' earlier (before | ⟨-, before⟩)
    · exact absurd before (Nat.not_lt_zero _)
    · exact absurd before (Nat.not_lt_zero _)
  · exact total.trans (by decide +kernel)

/-- A bid above the ask. -/
def crossedBook : OrderBook where
  symbol := []
  bids := OrderedMap.empty.insert 101 1
  asks := OrderedMap.empty.insert 100 1

/-- The call for the first update of the crossed book. -/
def crossedCall : Call where
  symbol := []
  agg := ((Aggregator.update {} crossedBook).map Aggregator.snapshot).getD {}
  tradeAgg := none
  wallUs := fun _ => 5000000

/-- A call whose trade snapshot holds volumes but counts no trade. -/
def uncountedCall : Call where
  symbol := []
  agg := { sampleCount := 1 }
  tradeAgg := some { totalVolume := 4, volumeSma := 1 }
  wallUs := fun _ => 5000000

/-- A spread of -1 is below the threshold of 3 and fires nothing, and volumes without a
counted trade fire a spike. -/
theorem guards_differ :
    (0 < crossedCall.agg.sampleCount ∧
      Documented crossedCall.agg crossedCall.tradeAgg 3 .spreadNarrow (-1) ∧
      fires [{ type := .spreadNarrow, threshold := 3 }] [crossedCall] 0 0 = none) ∧
    (fires [{ type := .volumeSpike, threshold := 3 }] [uncountedCall] 0 0 =
        some ⟨{ type := .volumeSpike, threshold := 3 }, ⟨.volumeSpike, [], 4, 3, 5000000⟩⟩ ∧
      ∀ value, ¬ Documented uncountedCall.agg uncountedCall.tradeAgg 3 .volumeSpike value) := by
  have crossed : crossedCall.agg.spread = -1 := by decide +kernel
  refine ⟨⟨by decide +kernel, ?_, by decide +kernel⟩, by decide +kernel, ?_⟩
  · rw [← crossed]
    refine .spreadNarrow ?_
    rw [crossed]
    decide +kernel
  · intro value documented
    cases documented with
    | volumeSpike given counted _ _ =>
      cases given
      exact absurd counted (Nat.lt_irrefl 0)

end SignalFiring
