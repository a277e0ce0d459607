import MarketDataEngine.SignalDetector

/-!
# Price signals of a book without a price

A book with an empty side has no spread and no mid price, and reports 0 for both.
This module follows one symbol through updates, each followed by the aggregator
and an evaluation, and gives the exact condition under which no condition on
spread or mid price fires on such a book. The average mid price of earlier
two-sided books stays behind, and PRICE_DEVIATION compares the reported 0 with it.
-/

namespace PriceSignals

open MarketTypes SignalDetector

/-- An update with what the evaluation after it meets. -/
structure Observation where
  update : DepthUpdate ℚ
  tradeAgg : Option TradeAggregatorSnapshot
  wallUs : Nat → UInt64

structure State where
  book : OrderBook
  aggregator : Aggregator
  detector : SignalDetector

/-- The book at an evaluation, the detector it began with, and what it fired. -/
structure Evaluation where
  book : OrderBook
  detector : SignalDetector
  wallUs : Nat → UInt64
  firings : List Firing

/-- `apply_update`, then `Aggregator::update`, then `evaluate`. -/
def observe (state : State × List Evaluation) (o : Observation) :
    Option (State × List Evaluation) := do
  let book ← state.1.book.applyUpdate o.update
  let aggregator ← state.1.aggregator.update book
  let (detector, firings) := state.1.detector.evaluate
    ⟨book.symbol, aggregator.snapshot, o.tradeAgg, o.wallUs⟩
  return (⟨book, aggregator, detector⟩,
    state.2 ++ [⟨book, state.1.detector, o.wallUs, firings⟩])

def fresh (symbol : Symbol) (vwapLevels smaWindow : Nat) (conditions : List SignalCondition) :
    State :=
  ⟨{ symbol }, { vwapLevels, smaWindow }, { conditions }⟩

def observeAll (state : State) (observations : List Observation) :
    Option (State × List Evaluation) :=
  observations.foldlM observe (state, [])

/-! ## What is promised, and when -/

/-- A side of the book is empty. -/
def OneSided (book : OrderBook) : Prop := book.bids.entries = [] ∨ book.asks.entries = []

def IsPriceSignal (type : SignalType) : Prop :=
  type = .spreadWide ∨ type = .spreadNarrow ∨ type = .priceDeviation

/-- No price signal fires on a book with an empty side. -/
def NoPhantom (log : List Evaluation) : Prop :=
  ∀ e ∈ log, OneSided e.book → ∀ firing ∈ e.firings, ¬ IsPriceSignal firing.signal.type

/-- Every PRICE_DEVIATION condition that a deviation of 1 exceeds is cooling. -/
def DeviationCooling (conditions : List SignalCondition) (e : Evaluation) : Prop :=
  ∀ i condition, conditions[i]? = some condition → condition.type = .priceDeviation →
    condition.threshold < 1 →
    e.detector.cooling ⟨.priceDeviation, e.book.symbol⟩ (e.wallUs i) condition.cooldownUs = true

/-- At every evaluation on a book with an empty side, if an earlier one saw both sides,
the PRICE_DEVIATION conditions below 1 are cooling. -/
def Guarded (conditions : List SignalCondition) (log : List Evaluation) : Prop :=
  ∀ i e, log[i]? = some e → OneSided e.book → (∃ p ∈ log.take i, ¬ OneSided p.book) →
    DeviationCooling conditions e

/-! ## Which keys fire -/

/-- No check fires for a key exactly when each check of that key is quiet or cooling. -/
theorem silent_iff (key : CooldownKey) (checks : List Check) (detector : SignalDetector) :
    (∀ firing ∈ (checks.foldl evaluateCondition (detector, [])).2, firing.key ≠ key) ↔
      ∀ check ∈ checks, check.key = key →
        triggered check.condition check.agg check.tradeAgg = none ∨
          detector.cooling key check.nowUs check.condition.cooldownUs = true := by
  induction checks generalizing detector with
  | nil => simp
  | cons check rest ih =>
    rw [List.foldl_cons, List.forall_mem_cons]
    rcases evaluateCondition_cases (detector, []) check with
      ⟨quiet, same⟩ | ⟨value, trigger, ⟨cool, same⟩ | ⟨warm, same⟩⟩
    · rw [same, ih]
      simp [quiet]
    · rw [same, ih]
      constructor
      · intro later
        refine ⟨?_, later⟩
        rintro rfl
        exact Or.inr cool
      · exact fun all => all.2
    · rw [same, foldl_evaluateCondition_log]
      simp only [List.nil_append, List.singleton_append, List.forall_mem_cons]
      have own : (check.firing value).key = check.key := rfl
      rw [own]
      by_cases here : check.key = key
      · subst here
        simp [trigger, warm]
      · rw [ih]
        have kept : ∀ now cooldown, SignalDetector.cooling
            { detector with
              lastFired := Function.update detector.lastFired check.key (some check.nowUs)
              signalsFired := detector.signalsFired + 1 } key now cooldown =
            detector.cooling key now cooldown := by
          intro now cooldown
          simp [SignalDetector.cooling, Function.update_of_ne (Ne.symm here)]
        simp only [kept]
        simp [here]

/-! ## Books with positive prices -/

/-- Every level of an update has a positive price. -/
def PositivePrices (update : DepthUpdate ℚ) : Prop :=
  (∀ level ∈ OrderBook.bidEntries update, 0 < level.price) ∧
    ∀ level ∈ OrderBook.askEntries update, 0 < level.price

structure PositiveBook (book : OrderBook) : Prop where
  bids : ∀ e ∈ book.bids.entries, 0 < e.1
  asks : ∀ e ∈ book.asks.entries, 0 < e.1

theorem foldl_applyLevel_positive {r : ℚ → ℚ → Prop} [DecidableRel r] [IsStrictTotalOrder ℚ r]
    {levels : List (PriceLevel ℚ)} (positive : ∀ level ∈ levels, 0 < level.price)
    {side : OrderedMap r ℚ} (before : ∀ e ∈ side.entries, 0 < e.1) :
    ∀ e ∈ (levels.foldl OrderBook.applyLevel side).entries, 0 < e.1 :=
  OrderBook.foldl_applyLevel_forall (fun e => 0 < e.1) (fun level mem _ => positive level mem)
    before

theorem applyUpdate_positive {book next : OrderBook} {update : DepthUpdate ℚ}
    (positive : PositivePrices update) (before : PositiveBook book)
    (applied : book.applyUpdate update = some next) : PositiveBook next := by
  obtain rfl := OrderBook.of_applyUpdate applied
  exact ⟨foldl_applyLevel_positive positive.1 before.bids,
    foldl_applyLevel_positive positive.2 before.asks⟩

/-- With positive prices the mid price is positive exactly when there is one. -/
theorem midPrice_pos_iff {book : OrderBook} (positive : PositiveBook book) :
    0 < book.midPrice ↔ ¬ OneSided book := by
  unfold OrderBook.midPrice OneSided
  split_ifs with oneSided
  · simp [oneSided]
  · rw [not_or] at oneSided
    refine iff_of_true ?_ (not_or.mpr oneSided)
    obtain ⟨bid, bids, hbid⟩ := List.exists_cons_of_ne_nil oneSided.1
    obtain ⟨ask, asks, hask⟩ := List.exists_cons_of_ne_nil oneSided.2
    have bidPos := positive.bids bid (hbid ▸ List.mem_cons_self)
    have askPos := positive.asks ask (hask ▸ List.mem_cons_self)
    simp only [OrderBook.bestBidPrice, OrderBook.bestAskPrice, hbid, hask, List.head?_cons,
      Option.map_some, Option.getD_some]
    exact div_pos (add_pos bidPos askPos) two_pos

theorem oneSided_prices {book : OrderBook} (oneSided : OneSided book) :
    book.spread = 0 ∧ book.midPrice = 0 :=
  ⟨if_pos oneSided, if_pos oneSided⟩

/-! ## What a run keeps -/

/-- The average mid price is positive once both sides were seen, and 0 before. -/
structure Averaged (agg : Aggregator) (seen : Prop) : Prop where
  prices : ∀ x ∈ agg.midPrices, 0 < x
  positive : seen → 0 < agg.snapshot.midPriceSma
  unset : ¬ seen → agg.snapshot.midPriceSma = 0

theorem averaged_update {agg next : Aggregator} {book : OrderBook} {seen : Prop}
    (averaged : Averaged agg seen) (positive : PositiveBook book)
    (updated : agg.update book = some next) : Averaged next (seen ∨ ¬ OneSided book) := by
  obtain ⟨-, -, -, rolled⟩ := Aggregator.update_spec updated
  by_cases oneSided : OneSided book
  · have none : ¬ book.midPrice > 0 := by
      rw [(oneSided_prices oneSided).2]
      exact lt_irrefl 0
    simp only [none, Aggregator.roll, decide_false, Bool.false_eq_true, if_false,
      Option.some.injEq, Prod.mk.injEq] at rolled
    obtain ⟨prices, average⟩ := rolled
    have same : (seen ∨ ¬ OneSided book) ↔ seen := by simp [oneSided]
    rw [same]
    refine ⟨?_, ?_, ?_⟩
    · rw [← prices]
      exact averaged.prices
    · rw [← average]
      exact averaged.positive
    · rw [← average]
      exact averaged.unset
  · have mid := (midPrice_pos_iff positive).mpr oneSided
    rw [decide_eq_true mid] at rolled
    obtain ⟨prices, average⟩ := Aggregator.roll_positive averaged.prices mid rolled
    exact ⟨prices, fun _ => average, fun unseen => absurd (Or.inr oneSided) unseen⟩

/-! ## One evaluation -/

theorem not_priceSignal_iff {firings : List Firing} {symbol : Symbol}
    (own : ∀ firing ∈ firings, firing.signal.symbol = symbol) :
    (∀ firing ∈ firings, ¬ IsPriceSignal firing.signal.type) ↔
      ∀ type, IsPriceSignal type → ∀ firing ∈ firings, firing.key ≠ ⟨type, symbol⟩ := by
  constructor
  · rintro silent type price firing mem key
    have same : firing.signal.type = type := congrArg CooldownKey.type key
    exact silent firing mem (same ▸ price)
  · intro silent firing mem price
    apply silent firing.signal.type price firing mem
    rw [Firing.key, own firing mem]

/-- On a book with an empty side only a deviation from a former average can trigger. -/
theorem triggered_oneSided {condition : SignalCondition} {agg : AggregatorSnapshot}
    {tradeAgg : Option TradeAggregatorSnapshot} (threshold : 0 < condition.threshold)
    (spread : agg.spread = 0) (midPrice : agg.midPrice = 0)
    (price : IsPriceSignal condition.type) :
    triggered condition agg tradeAgg = none ↔
      (condition.type = .priceDeviation → condition.threshold < 1 → ¬ 0 < agg.midPriceSma) := by
  rcases price with wide | narrow | deviation
  · refine iff_of_true ?_ (by simp [wide])
    simp [triggered, wide, above, spread, not_lt.mpr (le_of_lt threshold)]
  · refine iff_of_true ?_ (by simp [narrow])
    simp [triggered, narrow, spread]
  · by_cases average : 0 < agg.midPriceSma
    · have whole : |agg.midPrice - agg.midPriceSma| / agg.midPriceSma = 1 := by
        rw [midPrice, zero_sub, abs_neg, abs_of_pos average]
        exact div_self (ne_of_gt average)
      simp [triggered, deviation, average, whole, above]
    · simp [triggered, deviation, average]

/-- An evaluation on a book with an empty side stays silent about prices exactly when
its deviation conditions are cooling, once there is an average to deviate from. -/
theorem evaluate_silent_iff {detector : SignalDetector} {call : Call} {seen : Prop}
    (thresholds : ∀ condition ∈ detector.conditions, 0 < condition.threshold)
    (sampled : call.agg.sampleCount ≠ 0) (spread : call.agg.spread = 0)
    (midPrice : call.agg.midPrice = 0) (average : 0 < call.agg.midPriceSma ↔ seen) :
    (∀ firing ∈ (detector.evaluate call).2, ¬ IsPriceSignal firing.signal.type) ↔
      (seen → ∀ i condition, detector.conditions[i]? = some condition →
        condition.type = .priceDeviation → condition.threshold < 1 →
        detector.cooling ⟨.priceDeviation, call.symbol⟩ (call.wallUs i) condition.cooldownUs =
          true) := by
  rw [not_priceSignal_iff (evaluate_symbol detector call)]
  simp only [evaluate, silent_iff, mem_checks sampled]
  constructor
  · rintro silent seen i condition found deviation low
    have price : IsPriceSignal .priceDeviation := Or.inr (Or.inr rfl)
    rcases silent .priceDeviation price _ ⟨i, condition, found, rfl⟩ (by
      simp [Check.key, deviation]) with quiet | cool
    · have positive := thresholds condition (List.mem_of_getElem? found)
      have still := (triggered_oneSided positive spread midPrice (deviation ▸ price)).mp quiet
      exact absurd (average.mpr seen) (still deviation low)
    · exact cool
  · rintro cooling type price check ⟨i, condition, found, rfl⟩ key
    obtain rfl : condition.type = type := congrArg CooldownKey.type key
    have positive := thresholds condition (List.mem_of_getElem? found)
    by_cases live : condition.type = .priceDeviation ∧ condition.threshold < 1 ∧
        0 < call.agg.midPriceSma
    · obtain ⟨deviation, low, above⟩ := live
      right
      rw [deviation]
      exact cooling (average.mp above) i condition found deviation low
    · left
      apply (triggered_oneSided positive spread midPrice price).mpr
      rintro deviation low above
      exact live ⟨deviation, low, above⟩

/-! ## Runs -/

theorem noPhantom_snoc (log : List Evaluation) (e : Evaluation) :
    NoPhantom (log ++ [e]) ↔ NoPhantom log ∧
      (OneSided e.book → ∀ firing ∈ e.firings, ¬ IsPriceSignal firing.signal.type) := by
  unfold NoPhantom
  rw [List.forall_mem_append, List.forall_mem_singleton]

theorem guarded_snoc (conditions : List SignalCondition) (log : List Evaluation)
    (e : Evaluation) :
    Guarded conditions (log ++ [e]) ↔ Guarded conditions log ∧
      (OneSided e.book → (∃ p ∈ log, ¬ OneSided p.book) → DeviationCooling conditions e) := by
  constructor
  · intro guarded
    constructor
    · rintro i e' found oneSided earlier
      have inside : i < log.length := (List.getElem?_eq_some_iff.mp found).1
      apply guarded i e' _ oneSided
      · rwa [List.take_append_of_le_length (Nat.le_of_lt inside)]
      · rwa [List.getElem?_append_left inside]
    · intro oneSided earlier
      apply guarded log.length e _ oneSided
      · rwa [List.take_left' rfl]
      · simp
  · rintro ⟨before, last⟩ i e' found oneSided earlier
    rcases Nat.lt_trichotomy i log.length with inside | rfl | outside
    · rw [List.getElem?_append_left inside] at found
      rw [List.take_append_of_le_length (Nat.le_of_lt inside)] at earlier
      exact before i e' found oneSided earlier
    · rw [List.take_left' rfl] at earlier
      obtain rfl : e = e' := by simpa using found
      exact last oneSided earlier
    · rw [List.getElem?_eq_none (by simpa using outside)] at found
      cases found

/-- What holds after every run of observations. -/
structure Sound (conditions : List SignalCondition) (s : State) (log : List Evaluation) :
    Prop where
  book : PositiveBook s.book
  averaged : Averaged s.aggregator (∃ p ∈ log, ¬ OneSided p.book)
  unchanged : s.detector.conditions = conditions
  exact : NoPhantom log ↔ Guarded conditions log

theorem sound_observe {conditions : List SignalCondition} {s t : State}
    {log log' : List Evaluation} {o : Observation}
    (thresholds : ∀ condition ∈ conditions, 0 < condition.threshold)
    (prices : PositivePrices o.update) (sound : Sound conditions s log)
    (step : observe (s, log) o = some (t, log')) : Sound conditions t log' := by
  simp only [observe, Option.bind_eq_bind, Option.bind_eq_some_iff, Option.pure_def,
    Option.some.injEq, Prod.mk.injEq] at step
  obtain ⟨book, applied, aggregator, updated, rfl, rfl⟩ := step
  have positive := applyUpdate_positive prices sound.book applied
  have averaged := averaged_update sound.averaged positive updated
  obtain ⟨spread, midPrice, sampled, -⟩ := Aggregator.update_spec updated
  refine ⟨positive, ?_, ?_, ?_⟩
  · simpa [or_and_right, exists_or] using averaged
  · exact (evaluate_conditions _ _).trans sound.unchanged
  · rw [noPhantom_snoc, guarded_snoc, sound.exact]
    refine and_congr_right fun _ => forall_congr' fun oneSided => ?_
    obtain ⟨noSpread, noMid⟩ := oneSided_prices oneSided
    have average : 0 < aggregator.snapshot.midPriceSma ↔ ∃ p ∈ log, ¬ OneSided p.book := by
      have same : ((∃ p ∈ log, ¬ OneSided p.book) ∨ ¬ OneSided book) ↔
          ∃ p ∈ log, ¬ OneSided p.book := by simp [oneSided]
      rw [same] at averaged
      refine ⟨fun above => ?_, averaged.positive⟩
      by_contra unseen
      rw [averaged.unset unseen] at above
      exact lt_irrefl _ above
    have silent := @evaluate_silent_iff s.detector
      ⟨book.symbol, aggregator.snapshot, o.tradeAgg, o.wallUs⟩ _
      (sound.unchanged ▸ thresholds) (by rw [sampled]; exact Nat.succ_ne_zero _)
      (spread.trans noSpread) (midPrice.trans noMid) average
    rw [silent, DeviationCooling, sound.unchanged]

theorem sound_observeAll {conditions : List SignalCondition} (symbol : Symbol)
    (vwapLevels smaWindow : Nat)
    (thresholds : ∀ condition ∈ conditions, 0 < condition.threshold)
    {observations : List Observation} (prices : ∀ o ∈ observations, PositivePrices o.update)
    {s : State} {log : List Evaluation}
    (run : observeAll (fresh symbol vwapLevels smaWindow conditions) observations =
      some (s, log)) : Sound conditions s log := by
  induction observations using List.reverseRecOn generalizing s log with
  | nil =>
    cases run
    refine ⟨⟨List.forall_mem_nil _, List.forall_mem_nil _⟩,
      ⟨List.forall_mem_nil _, ?_, ?_⟩, rfl, ?_⟩
    · rintro ⟨p, mem, -⟩
      cases mem
    · exact fun _ => rfl
    · refine iff_of_true (List.forall_mem_nil _) ?_
      rintro i e found
      cases found
  | append_singleton observations o ih =>
    obtain ⟨⟨m, before⟩, hm, last⟩ := Transition.foldlM_snoc_some.mp run
    exact sound_observe thresholds (prices o (by simp))
      (ih (fun o ho => prices o (List.mem_append_left _ ho)) hm) last

/-- For every run of updates with positive prices and every list of conditions with
positive thresholds: no price signal fires on a book with an empty side, if and only if,
whenever a side is empty after both were seen, every PRICE_DEVIATION condition below 1
is cooling. -/
theorem noPhantom_iff (symbol : Symbol) (vwapLevels smaWindow : Nat)
    {conditions : List SignalCondition}
    (thresholds : ∀ condition ∈ conditions, 0 < condition.threshold)
    {observations : List Observation} (prices : ∀ o ∈ observations, PositivePrices o.update)
    {s : State} {log : List Evaluation}
    (run : observeAll (fresh symbol vwapLevels smaWindow conditions) observations =
      some (s, log)) : NoPhantom log ↔ Guarded conditions log :=
  (sound_observeAll symbol vwapLevels smaWindow thresholds prices run).exact

/-- A bid of 100 and an ask of 101. -/
def bothSides : DepthUpdate ℚ where
  eventTimeMs := 1000
  firstUpdateId := 1
  lastUpdateId := 2
  symbol := []
  bids := Vector.replicate maxLevels ⟨100, 1⟩
  asks := Vector.replicate maxLevels ⟨101, 1⟩
  bidCount := 1
  askCount := 1

/-- The ask is removed. -/
def askRemoved : DepthUpdate ℚ where
  eventTimeMs := 1100
  firstUpdateId := 3
  lastUpdateId := 3
  symbol := []
  bids := Vector.replicate maxLevels ⟨100, 1⟩
  asks := Vector.replicate maxLevels ⟨101, 0⟩
  bidCount := 0
  askCount := 1

def lostAsk : List Observation :=
  [⟨bothSides, none, fun _ => 1000000⟩, ⟨askRemoved, none, fun _ => 2000000⟩]

/-- Sides and signal types at the evaluations of a run. -/
def outline (log : List Evaluation) : List (List (ℚ × ℚ) × List (ℚ × ℚ) × List SignalType) :=
  log.map (fun e => (e.book.bids.entries, e.book.asks.entries,
    e.firings.map (fun f => f.signal.type)))

/-- The lost ask makes the mid price 0, which is taken for a deviation of 1. -/
theorem lost_ask_fires : ∃ s log,
    observeAll (fresh [] 5 20 [{ type := .priceDeviation, threshold := 1 / 2 }]) lostAsk =
        some (s, log) ∧ ¬ NoPhantom log := by
  have computed : (observeAll (fresh [] 5 20 [{ type := .priceDeviation, threshold := 1 / 2 }])
      lostAsk).map (fun r => outline r.2) =
        some [([(100, 1)], [(101, 1)], []), ([(100, 1)], [], [.priceDeviation])] := by
    decide +kernel
  obtain ⟨⟨s, log⟩, run, shape⟩ := Option.map_eq_some_iff.mp computed
  refine ⟨s, log, run, fun silent => ?_⟩
  obtain ⟨e, mem, same⟩ : ∃ e ∈ log, (e.book.bids.entries, e.book.asks.entries,
      e.firings.map (fun f => f.signal.type)) = ([(100, 1)], [], [.priceDeviation]) := by
    apply List.mem_map.mp
    rw [← outline, shape]
    simp
  simp only [Prod.mk.injEq] at same
  obtain ⟨-, asks, types⟩ := same
  obtain ⟨firing, hfiring, type⟩ := List.mem_map.mp (types ▸ List.mem_singleton_self _)
  exact silent e mem (Or.inr asks) firing hfiring (Or.inr (Or.inr type))

/-- With a threshold above 1 the same updates fire nothing. -/
theorem noPhantom_iff_lostAsk : ∃ s log,
    observeAll (fresh [] 5 20 [{ type := .priceDeviation, threshold := 2 }]) lostAsk =
        some (s, log) ∧ NoPhantom log := by
  have computed : (observeAll (fresh [] 5 20 [{ type := .priceDeviation, threshold := 2 }])
      lostAsk).isSome = true := by decide +kernel
  obtain ⟨⟨s, log⟩, run⟩ := Option.isSome_iff_exists.mp computed
  refine ⟨s, log, run, (noPhantom_iff [] 5 20 ?_ ?_ run).mpr ?_⟩
  · rw [List.forall_mem_singleton]
    decide +kernel
  · unfold lostAsk
    rw [List.forall_mem_cons, List.forall_mem_singleton]
    exact ⟨⟨by decide +kernel, by decide +kernel⟩, by decide +kernel, by decide +kernel⟩
  · rintro i e - - - j condition found - low
    obtain rfl := List.mem_singleton.mp (List.mem_of_getElem? found)
    exact absurd low (by decide +kernel)

end PriceSignals
