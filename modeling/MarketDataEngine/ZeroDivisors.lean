import MarketDataEngine.ProcessingThread

/-!
# The divisors of the analytics

Every division and remainder between a message and the signals it fires, written
out with a division that fails on a zero divisor, but for the halving in
`mid_price`. The other modules give a result to a guarded division and none to an
unguarded one; the two accounts agree, which carries their lemmas over. The
parameters of the two aggregators are any values, as their constructors take them.
-/

namespace ZeroDivisors

open MarketTypes

/-- What stops a step: a zero divisor, or a level count outside its array. -/
inductive Fault where
  | zeroDivisor
  | outOfBounds
  deriving DecidableEq

def divide (a b : ℚ) : Except Fault ℚ := if b = 0 then .error .zeroDivisor else .ok (a / b)

def modulo (a b : UInt64) : Except Fault UInt64 :=
  if b = 0 then .error .zeroDivisor else .ok (a % b)

/-- A partial result, with the fault that its absence stands for. -/
def orFault {α : Type} (fault : Fault) : Option α → Except Fault α
  | none => .error fault
  | some result => .ok result

/-- `b > 0.0 ? a / b : 0.0`. -/
def divideIfPos (a b : ℚ) : Except Fault ℚ := if b > 0 then divide a b else .ok 0

/-! ## The functions with their divisions -/

/-- `bid_vwap` and `ask_vwap`. -/
def vwap (levels : Nat) (entries : List (ℚ × ℚ)) : Except Fault ℚ :=
  let sumPq := ((entries.take levels).map (fun e => e.1 * e.2)).sum
  let sumQ := ((entries.take levels).map Prod.snd).sum
  divideIfPos sumPq sumQ

/-- `std::accumulate(..) / size()`. -/
def mean (values : List ℚ) : Except Fault ℚ := divide values.sum values.length

/-- The average of what there is, or else the last one shown. -/
def meanOr (average : ℚ) (values : List ℚ) : Except Fault ℚ :=
  if values = [] then .ok average else mean values

def roll (window : Nat) (counts : Bool) (values : List ℚ) (value average : ℚ) :
    Except Fault (List ℚ × ℚ) :=
  if counts then do
    let values := Aggregator.pushBounded window values value
    let average ← mean values
    return (values, average)
  else return (values, average)

/-- `Aggregator::update`. -/
def updateBook (agg : Aggregator) (book : OrderBook) : Except Fault Aggregator := do
  let spread := book.spread
  let midPrice := book.midPrice
  let bidVwap ← vwap agg.vwapLevels book.bids.entries
  let askVwap ← vwap agg.vwapLevels book.asks.entries
  let totalBid := book.totalBidQty
  let totalAsk := book.totalAskQty
  let total := totalBid + totalAsk
  let prevImbalance := agg.snapshot.bidAskImbalance
  let imbalance ← divideIfPos (totalBid - totalAsk) total
  let (midPrices, midPriceSma) ←
    roll agg.smaWindow (midPrice > 0) agg.midPrices midPrice agg.snapshot.midPriceSma
  let (spreads, spreadSma) ←
    roll agg.smaWindow (spread ≥ 0) agg.spreads spread agg.snapshot.spreadSma
  return { agg with
    midPrices := midPrices
    spreads := spreads
    snapshot := {
      spread := spread
      midPrice := midPrice
      bidVwap := bidVwap
      askVwap := askVwap
      midPriceSma := midPriceSma
      spreadSma := spreadSma
      bidAskImbalance := imbalance
      imbalanceDelta := imbalance - prevImbalance
      sampleCount := agg.snapshot.sampleCount + 1 } }

/-- The archiving branch of `TradeAggregator::update`. -/
def crossWindow (agg : TradeAggregator) (nowMs : UInt64) : Except Fault TradeAggregator :=
  if nowMs ≥ agg.windowStartMs + agg.windowMs then do
    let rest ← modulo nowMs agg.windowMs
    return { agg with
      completedVolumes :=
        Aggregator.pushBounded agg.smaWindows agg.completedVolumes agg.currentWindowVolume
      snapshot := { agg.snapshot with windowCount := agg.snapshot.windowCount + 1 }
      currentWindowVolume := 0
      windowStartMs := nowMs - rest }
  else return agg

def recompute (agg : TradeAggregator) : Except Fault TradeAggregator := do
  let buyVol := ((agg.trades.filter (fun entry => entry.isBuy)).map TradeEntry.quantity).sum
  let sellVol := ((agg.trades.filter (fun entry => !entry.isBuy)).map TradeEntry.quantity).sum
  let total := buyVol + sellVol
  let tradeImbalance ← divideIfPos (buyVol - sellVol) total
  let volumeSma ← meanOr agg.snapshot.volumeSma agg.completedVolumes
  return { agg with snapshot := { agg.snapshot with
    buyVolume := buyVol
    sellVolume := sellVol
    totalVolume := total
    tradeImbalance := tradeImbalance
    tradeCount := agg.trades.length
    volumeSma := volumeSma } }

/-- `TradeAggregator::update`. -/
def updateTrades (agg : TradeAggregator) (trade : Trade ℚ) : Except Fault TradeAggregator := do
  let nowMs := trade.eventTimeMs
  let started := if agg.windowStartMs = 0 then { agg with windowStartMs := nowMs } else agg
  let crossed ← crossWindow started nowMs
  let expired := crossed.expireOld nowMs
  recompute { expired with
    trades := expired.trades ++ [TradeAggregator.entryOf trade]
    currentWindowVolume := expired.currentWindowVolume + trade.quantity }

/-- The `switch` of `evaluate`. Only two conditions divide. -/
def triggered (cond : SignalCondition) (agg : AggregatorSnapshot)
    (tradeAgg : Option TradeAggregatorSnapshot) : Except Fault (Option ℚ) :=
  match cond.type, tradeAgg with
  | .priceDeviation, _ =>
    if agg.midPriceSma > 0 then do
      let value ← divide |agg.midPrice - agg.midPriceSma| agg.midPriceSma
      return SignalDetector.above value cond.threshold
    else return none
  | .volumeSpike, some trades =>
    if trades.volumeSma > 0 then do
      let value ← divide trades.totalVolume trades.volumeSma
      return SignalDetector.above value cond.threshold
    else return none
  | _, _ => return SignalDetector.triggered cond agg tradeAgg

/-- `evaluate`; what follows the `switch` divides nothing. -/
def evaluate (detector : SignalDetector) (call : SignalDetector.Call) :
    Except Fault (SignalDetector × List SignalDetector.Firing) :=
  (SignalDetector.checks detector.conditions call).foldlM (fun state check => do
    let _ ← triggered check.condition check.agg check.tradeAgg
    return SignalDetector.evaluateCondition state check) (detector, [])

/-! ## The chain behind one symbol -/

/-- What the constructors of `Aggregator` and `TradeAggregator` take. -/
structure Parameters where
  vwapLevels : Nat
  smaWindow : Nat
  windowMs : UInt64
  smaWindows : Nat

/-- The state of one symbol with the detector it reports to. -/
structure Analytics where
  state : SymbolState
  detector : SignalDetector

/-- A message of the symbol; a depth update comes with the clock readings of its signals. -/
inductive Input where
  | depth (update : DepthUpdate ℚ) (wallUs : Nat → UInt64)
  | trade (trade : Trade ℚ)

def start (params : Parameters) (symbol : Symbol) (conditions : List SignalCondition) :
    Analytics where
  state := {
    book := { symbol }
    aggregator := { vwapLevels := params.vwapLevels, smaWindow := params.smaWindow }
    tradeAggregator := { windowMs := params.windowMs, smaWindows := params.smaWindows } }
  detector := { conditions }

/-- The computing part of `process_depth` and `process_trade`. -/
def handle (analytics : Analytics) : Input → Except Fault Analytics
  | .depth update wallUs => do
    let book ← orFault .outOfBounds (analytics.state.book.applyUpdate update)
    let aggregator ← updateBook analytics.state.aggregator book
    let state := { analytics.state with book, aggregator }
    let (detector, _) ← evaluate analytics.detector {
      symbol := update.symbol
      agg := aggregator.snapshot
      tradeAgg := ProcessingThread.tradePtr state
      wallUs := wallUs }
    return ⟨state, detector⟩
  | .trade trade => do
    let tradeAggregator ← updateTrades analytics.state.tradeAggregator trade
    return ⟨{ analytics.state with tradeAggregator }, analytics.detector⟩

def run (params : Parameters) (symbol : Symbol) (conditions : List SignalCondition)
    (inputs : List Input) : Except Fault Analytics :=
  inputs.foldlM handle (start params symbol conditions)

/-! ## Guarded divisions -/

@[simp] theorem ok_bind {α β : Type} (a : α) (f : α → Except Fault β) :
    (Except.ok a >>= f) = f a := rfl

@[simp] theorem error_bind {α β : Type} (fault : Fault) (f : α → Except Fault β) :
    (Except.error fault >>= f) = .error fault := rfl

@[simp] theorem orFault_none {α : Type} (fault : Fault) :
    orFault fault (none : Option α) = .error fault := rfl

@[simp] theorem orFault_some {α : Type} (fault : Fault) (result : α) :
    orFault fault (some result) = .ok result := rfl

theorem divide_of_pos {a b : ℚ} (positive : b > 0) : divide a b = .ok (a / b) :=
  if_neg (ne_of_gt positive)

/-- A quotient behind a test of its divisor's sign is the one the other modules use. -/
theorem divideIfPos_eq (a b : ℚ) : divideIfPos a b = .ok (if b > 0 then a / b else 0) := by
  simp only [divideIfPos]
  split_ifs with positive
  · exact divide_of_pos positive
  · rfl

theorem vwap_eq (levels : Nat) (entries : List (ℚ × ℚ)) :
    vwap levels entries = .ok (OrderBook.vwap levels entries) :=
  divideIfPos_eq _ _

/-- The average of nothing is the one zero divisor among the averages. -/
theorem mean_eq (values : List ℚ) :
    mean values = orFault .zeroDivisor (Aggregator.mean values) := by
  simp only [mean, divide, Aggregator.mean, Nat.cast_eq_zero, List.length_eq_zero_iff]
  split_ifs <;> rfl

theorem meanOr_eq (average : ℚ) (values : List ℚ) :
    meanOr average values =
      .ok (if values = [] then average else values.sum / values.length) := by
  simp only [meanOr, mean_eq, Aggregator.mean]
  split_ifs <;> rfl

theorem roll_eq (window : Nat) (counts : Bool) (values : List ℚ) (value average : ℚ) :
    roll window counts values value average =
      orFault .zeroDivisor (Aggregator.roll window counts values value average) := by
  cases counts with
  | false => rfl
  | true =>
    simp only [roll, Aggregator.roll, mean_eq, if_true]
    cases Aggregator.mean (Aggregator.pushBounded window values value) <;> rfl

theorem updateBook_eq (agg : Aggregator) (book : OrderBook) :
    updateBook agg book = orFault .zeroDivisor (agg.update book) := by
  simp only [updateBook, Aggregator.update, vwap_eq, divideIfPos_eq, roll_eq]
  cases Aggregator.roll agg.smaWindow (book.midPrice > 0) agg.midPrices book.midPrice
      agg.snapshot.midPriceSma with
  | none => rfl
  | some mids =>
    cases Aggregator.roll agg.smaWindow (book.spread ≥ 0) agg.spreads book.spread
        agg.snapshot.spreadSma with
    | none => rfl
    | some spreads => rfl

theorem crossWindow_eq (agg : TradeAggregator) (nowMs : UInt64) :
    crossWindow agg nowMs = orFault .zeroDivisor (agg.crossWindow nowMs) := by
  simp only [crossWindow, TradeAggregator.crossWindow, modulo]
  split_ifs <;> rfl

theorem recompute_eq (agg : TradeAggregator) : recompute agg = .ok agg.recompute := by
  simp only [recompute, divideIfPos_eq, meanOr_eq]
  rfl

theorem updateTrades_eq (agg : TradeAggregator) (trade : Trade ℚ) :
    updateTrades agg trade = orFault .zeroDivisor (agg.update trade) := by
  simp only [updateTrades, TradeAggregator.update, crossWindow_eq, recompute_eq]
  cases TradeAggregator.crossWindow
      (if agg.windowStartMs = 0 then { agg with windowStartMs := trade.eventTimeMs } else agg)
      trade.eventTimeMs <;> rfl

theorem triggered_eq (cond : SignalCondition) (agg : AggregatorSnapshot)
    (tradeAgg : Option TradeAggregatorSnapshot) :
    triggered cond agg tradeAgg = .ok (SignalDetector.triggered cond agg tradeAgg) := by
  simp only [triggered, SignalDetector.triggered]
  cases cond.type with
  | priceDeviation =>
    by_cases positive : agg.midPriceSma > 0
    · simp only [positive, if_true, divide_of_pos positive]
      rfl
    · simp only [positive, if_false]
      rfl
  | volumeSpike =>
    cases tradeAgg with
    | none => rfl
    | some trades =>
      by_cases positive : trades.volumeSma > 0
      · simp only [positive, if_true, divide_of_pos positive, Option.bind_some]
        rfl
      · simp only [positive, if_false, Option.bind_some]
        rfl
  | _ => rfl

/-- Both conditions that divide test their divisor first. -/
theorem evaluate_eq (detector : SignalDetector) (call : SignalDetector.Call) :
    evaluate detector call = .ok (detector.evaluate call) := by
  simp only [evaluate, SignalDetector.evaluate, triggered_eq]
  exact List.foldlM_pure

/-! ## Runs -/

/-- A depth update that stays in its arrays fails only with its book's averages. -/
theorem handle_depth {analytics : Analytics} {update : DepthUpdate ℚ} {book : OrderBook}
    (applied : analytics.state.book.applyUpdate update = some book) (wallUs : Nat → UInt64) :
    (analytics.state.aggregator.update book = none →
      handle analytics (.depth update wallUs) = .error .zeroDivisor) ∧
    ∀ aggregator, analytics.state.aggregator.update book = some aggregator →
      ∃ detector, handle analytics (.depth update wallUs) =
        .ok ⟨{ analytics.state with book, aggregator }, detector⟩ := by
  simp only [handle, applied, orFault_some, ok_bind, updateBook_eq, evaluate_eq]
  constructor
  · intro undefined
    rw [undefined]
    rfl
  · intro aggregator updated
    rw [updated]
    exact ⟨_, rfl⟩

theorem handle_trade (analytics : Analytics) (trade : Trade ℚ) :
    handle analytics (.trade trade) =
      orFault .zeroDivisor ((analytics.state.tradeAggregator.update trade).map
        (fun tradeAggregator =>
          ⟨{ analytics.state with tradeAggregator }, analytics.detector⟩)) := by
  simp only [handle, updateTrades_eq]
  cases analytics.state.tradeAggregator.update trade <;> rfl

/-- Room for a sample and a window of at least a millisecond. -/
def Positive (analytics : Analytics) : Prop :=
  0 < analytics.state.aggregator.smaWindow ∧ analytics.state.tradeAggregator.windowMs ≠ 0

theorem handle_positive {analytics : Analytics} (positive : Positive analytics) (input : Input) :
    handle analytics input = .error .outOfBounds ∨
      ∃ next, handle analytics input = .ok next ∧ Positive next := by
  obtain ⟨samples, window⟩ := positive
  cases input with
  | depth update wallUs =>
    cases applied : analytics.state.book.applyUpdate update with
    | none =>
      left
      simp only [handle, applied]
      rfl
    | some book =>
      obtain ⟨aggregator, updated, same⟩ := Aggregator.update_isSome samples book
      obtain ⟨detector, handled⟩ := (handle_depth applied wallUs).2 aggregator updated
      exact Or.inr ⟨_, handled, same ▸ samples, window⟩
  | trade trade =>
    obtain ⟨next, updated, same, -⟩ := TradeAggregator.update_of_window window trade
    refine Or.inr ⟨⟨{ analytics.state with tradeAggregator := next }, analytics.detector⟩, ?_, ?_⟩
    · rw [handle_trade, updated]
      rfl
    · exact ⟨samples, same ▸ window⟩

theorem foldlM_handle_positive {analytics : Analytics} (positive : Positive analytics)
    (inputs : List Input) : inputs.foldlM handle analytics ≠ .error .zeroDivisor := by
  induction inputs generalizing analytics with
  | nil => simp [pure, Except.pure]
  | cons input rest ih =>
    rw [List.foldlM_cons]
    rcases handle_positive positive input with outside | ⟨next, handled, stays⟩
    · rw [outside]
      simp [bind, Except.bind]
    · rw [handled]
      exact ih stays

/-- An average over a window without samples is 0/0. -/
theorem update_of_no_samples {agg : Aggregator} (zero : agg.smaWindow = 0)
    (empty : agg.spreads = []) {book : OrderBook} (counts : 0 ≤ book.spread) :
    agg.update book = none := by
  have undefined : Aggregator.roll agg.smaWindow (book.spread ≥ 0) agg.spreads book.spread
      agg.snapshot.spreadSma = none := by
    simp [Aggregator.roll, zero, empty, counts, Aggregator.pushBounded, Aggregator.mean]
  simp [Aggregator.update, undefined]

/-- The first trade is always at the end of a window of no length. -/
theorem update_of_no_window {agg : TradeAggregator} (zero : agg.windowMs = 0)
    (fresh : agg.windowStartMs = 0) (trade : Trade ℚ) : agg.update trade = none := by
  simp [TradeAggregator.update, TradeAggregator.crossWindow, zero, fresh]

/-- An update without levels. -/
def noLevels : DepthUpdate ℚ where
  eventTimeMs := 1000
  firstUpdateId := 1
  lastUpdateId := 1
  symbol := []
  bids := Vector.replicate maxLevels ⟨0, 0⟩
  asks := Vector.replicate maxLevels ⟨0, 0⟩
  bidCount := 0
  askCount := 0

theorem run_noLevels {params : Parameters} (zero : params.smaWindow = 0) (symbol : Symbol)
    (conditions : List SignalCondition) (wallUs : Nat → UInt64) :
    run params symbol conditions [.depth noLevels wallUs] = .error .zeroDivisor := by
  have applied : OrderBook.applyUpdate { symbol } noLevels =
      some { symbol, lastUpdateId := 1, updateCount := 1 } := by
    rfl
  have undefined : (start params symbol conditions).state.aggregator.update
      { symbol, lastUpdateId := 1, updateCount := 1 } = none := by
    have flat : OrderBook.spread { symbol, lastUpdateId := 1, updateCount := 1 } = 0 :=
      if_pos (Or.inl rfl)
    exact update_of_no_samples zero rfl (le_of_eq flat.symm)
  rw [run, List.foldlM_cons, (handle_depth applied wallUs).1 undefined]
  rfl

theorem run_trade {params : Parameters} (zero : params.windowMs = 0) (symbol : Symbol)
    (conditions : List SignalCondition) (trade : Trade ℚ) :
    run params symbol conditions [.trade trade] = .error .zeroDivisor := by
  have undefined : (start params symbol conditions).state.tradeAggregator.update trade = none :=
    update_of_no_window zero rfl trade
  rw [run, List.foldlM_cons, handle_trade, undefined]
  rfl

/-- For given parameters no run divides by zero, whatever the messages and the conditions,
if and only if the averages have room for a sample and the fixed windows have a length. The
numbers of levels and of archived windows do not matter. -/
theorem no_zeroDivisor_iff (params : Parameters) :
    (∀ symbol conditions inputs, run params symbol conditions inputs ≠ .error .zeroDivisor) ↔
      params.smaWindow ≠ 0 ∧ params.windowMs ≠ 0 := by
  constructor
  · intro never
    refine ⟨fun zero => ?_, fun zero => ?_⟩
    · exact never [] [] _ (run_noLevels zero [] [] (fun _ => 0))
    · exact never [] [] _ (run_trade zero [] [] ⟨0, 0, [], 0, 0, false, 0, 0, 0, 0⟩)
  · rintro ⟨samples, window⟩ symbol conditions inputs
    exact foldlM_handle_positive ⟨Nat.pos_of_ne_zero samples, window⟩ inputs

/-- An `Aggregator` of no samples fails at the first depth update, and a `TradeAggregator`
of a zero window at the first trade. -/
theorem zero_parameters_divide :
    run ⟨5, 0, 1000, 20⟩ [] [] [.depth noLevels (fun _ => 0)] = .error .zeroDivisor ∧
    run ⟨5, 20, 0, 20⟩ [] [] [.trade ⟨1000, 1, [], 100, 2, false, 0, 0, 0, 0⟩] =
      .error .zeroDivisor :=
  ⟨run_noLevels rfl [] [] _, run_trade rfl [] [] _⟩

end ZeroDivisors
