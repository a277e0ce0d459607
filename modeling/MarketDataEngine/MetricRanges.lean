import MarketDataEngine.ProcessingThread
import MarketDataEngine.TradeExpiry
import MarketDataEngine.ResetEquivalence
import Mathlib.Tactic.Linarith

/-!
# Ranges of the normalised metrics

Both imbalances are a difference over a sum of two amounts. Amounts stay non-negative
as long as the exchange sends no negative quantity, and then the book's imbalance says
exactly which sides are empty. Its changes add up to it, because each is taken to the
value shown before.
-/

open MarketTypes ProcessingThread
open ResetEquivalence (Operation)

namespace MetricRanges

/-! ## A difference over a sum -/

/-- `(total > 0) ? (a - b) / total : 0`. -/
def ratio (a b : ℚ) : ℚ := if a + b > 0 then (a - b) / (a + b) else 0

section Ratio
variable {a b : ℚ}

theorem ratio_bounds (ha : 0 ≤ a) (hb : 0 ≤ b) : -1 ≤ ratio a b ∧ ratio a b ≤ 1 := by
  unfold ratio
  split_ifs with positive
  · rw [le_div_iff₀ positive, div_le_one₀ positive]
    constructor <;> linarith
  · norm_num

theorem ratio_comm (a b : ℚ) : ratio b a = -ratio a b := by
  unfold ratio
  rw [add_comm b a]
  split_ifs
  · rw [← neg_div, neg_sub]
  · exact neg_zero.symm

/-- The ratio is 1 exactly when there is only the first amount. -/
theorem ratio_eq_one_iff (hb : 0 ≤ b) : ratio a b = 1 ↔ 0 < a ∧ b = 0 := by
  unfold ratio
  split_ifs with positive
  · rw [div_eq_one_iff_eq positive.ne']
    constructor
    · intro same
      have zero : b = 0 := by linarith
      exact ⟨by linarith, zero⟩
    · rintro ⟨-, rfl⟩
      rw [sub_zero, add_zero]
  · refine iff_of_false zero_ne_one ?_
    rintro ⟨first, -⟩
    exact positive (add_pos_of_pos_of_nonneg first hb)

theorem ratio_eq_neg_one_iff (ha : 0 ≤ a) : ratio a b = -1 ↔ a = 0 ∧ 0 < b := by
  rw [← neg_eq_iff_eq_neg, ← ratio_comm, ratio_eq_one_iff ha, and_comm]

end Ratio

/-! ## The imbalance of a book -/

theorem sum_nonneg_of_positive {entries : List (ℚ × ℚ)} (positive : ∀ e ∈ entries, 0 < e.2) :
    0 ≤ (entries.map Prod.snd).sum :=
  List.sum_nonneg (List.forall_mem_map.mpr (fun e mem => (positive e mem).le))

theorem sum_pos_iff {entries : List (ℚ × ℚ)} (positive : ∀ e ∈ entries, 0 < e.2) :
    0 < (entries.map Prod.snd).sum ↔ entries ≠ [] := by
  constructor
  · rintro above rfl
    exact lt_irrefl _ above
  · intro nonempty
    refine List.sum_pos _ (List.forall_mem_map.mpr positive) ?_
    exact fun nil => nonempty (List.map_eq_nil_iff.mp nil)

theorem sum_eq_zero_iff {entries : List (ℚ × ℚ)} (positive : ∀ e ∈ entries, 0 < e.2) :
    (entries.map Prod.snd).sum = 0 ↔ entries = [] := by
  rw [← not_iff_not, ← ne_eq, ← (sum_nonneg_of_positive positive).lt_iff_ne', sum_pos_iff positive]

/-- The shown imbalance is in range and is extreme exactly for a book with one side. -/
structure Balanced (book : OrderBook) (imbalance : ℚ) : Prop where
  lower : -1 ≤ imbalance
  upper : imbalance ≤ 1
  bidsOnly : imbalance = 1 ↔ book.bids.entries ≠ [] ∧ book.asks.entries = []
  asksOnly : imbalance = -1 ↔ book.bids.entries = [] ∧ book.asks.entries ≠ []

theorem balanced_ratio {book : OrderBook} (stocked : book.Stocked) :
    Balanced book (ratio book.totalBidQty book.totalAskQty) := by
  have bids : ∀ e ∈ book.bids.entries, 0 < e.2 := fun e mem => (stocked.bids e mem).2
  have asks : ∀ e ∈ book.asks.entries, 0 < e.2 := fun e mem => (stocked.asks e mem).2
  have bidQty : 0 ≤ book.totalBidQty := sum_nonneg_of_positive bids
  have askQty : 0 ≤ book.totalAskQty := sum_nonneg_of_positive asks
  obtain ⟨lower, upper⟩ := ratio_bounds bidQty askQty
  refine ⟨lower, upper, ?_, ?_⟩
  · rw [ratio_eq_one_iff askQty]
    exact and_congr (sum_pos_iff bids) (sum_eq_zero_iff asks)
  · rw [ratio_eq_neg_one_iff bidQty]
    exact and_congr (sum_eq_zero_iff bids) (sum_pos_iff asks)

theorem balanced_fresh (symbol : Symbol) : Balanced { symbol } 0 :=
  ⟨by norm_num, by norm_num, iff_of_false (by norm_num) (fun h => h.1 rfl),
    iff_of_false (by norm_num) (fun h => h.2 rfl)⟩

/-! ## Its changes -/

/-- An aggregator with the changes it has shown since the last reset. -/
def logDelta (state : Aggregator × List ℚ) : Operation OrderBook → Option (Aggregator × List ℚ)
  | .update book => (state.1.update book).map (fun next =>
      (next, state.2 ++ [next.snapshot.imbalanceDelta]))
  | .reset => some (state.1.reset, [])

theorem logDelta_sum {state next : Aggregator × List ℚ} {operation : Operation OrderBook}
    (before : state.2.sum = state.1.snapshot.bidAskImbalance)
    (logged : logDelta state operation = some next) :
    next.2.sum = next.1.snapshot.bidAskImbalance := by
  cases operation with
  | update book =>
    obtain ⟨agg, updated, rfl⟩ := Option.map_eq_some_iff.mp logged
    rw [List.sum_append, List.sum_singleton, before, (Aggregator.update_imbalance updated).2]
    exact add_sub_cancel _ _
  | reset =>
    cases logged
    rfl

/-- From a new aggregator the changes since the last reset add up to the imbalance shown. -/
theorem foldlM_logDelta_sum (vwapLevels smaWindow : Nat) (history : List (Operation OrderBook))
    {state : Aggregator × List ℚ}
    (run : history.foldlM logDelta ({ vwapLevels, smaWindow }, []) = some state) :
    state.2.sum = state.1.snapshot.bidAskImbalance := by
  induction history using List.reverseRecOn generalizing state with
  | nil =>
    cases run
    rfl
  | append_singleton history operation ih =>
    obtain ⟨mid, earlier, logged⟩ := Transition.foldlM_snoc_some.mp run
    exact logDelta_sum (ih earlier) logged

/-- `advanceBook` with the changes of imbalance kept beside it. -/
def advanceLogged (state : OrderBook × Aggregator × List ℚ) (depth : DepthUpdate ℚ) :
    Option (OrderBook × Aggregator × List ℚ) := do
  let book ← state.1.applyUpdate depth
  let logged ← logDelta state.2 (.update book)
  return (book, logged)

/-- What the depth part of a symbol's state shows, with the changes it has shown. -/
structure BookMetrics (book : OrderBook) (shown : AggregatorSnapshot) (deltas : List ℚ) :
    Prop where
  stocked : book.Stocked
  balanced : Balanced book shown.bidAskImbalance
  deltaLower : -2 ≤ shown.imbalanceDelta
  deltaUpper : shown.imbalanceDelta ≤ 2
  sum : deltas.sum = shown.bidAskImbalance

theorem advanceLogged_metrics {book next : OrderBook} {agg nextAgg : Aggregator}
    {deltas : List ℚ} {depth : DepthUpdate ℚ} (offered : OrderBook.Offered depth)
    (metrics : BookMetrics book agg.snapshot deltas)
    (advanced : advanceBook (book, agg) depth = some (next, nextAgg)) :
    ∃ deltas', advanceLogged (book, agg, deltas) depth = some (next, nextAgg, deltas') ∧
      BookMetrics next nextAgg.snapshot deltas' := by
  simp only [advanceBook, Option.bind_eq_bind, Option.bind_eq_some_iff, Option.pure_def,
    Option.some.injEq, Prod.mk.injEq] at advanced
  obtain ⟨next, applied, nextAgg, updated, rfl, rfl⟩ := advanced
  have logged : logDelta (agg, deltas) (.update next) =
      some (nextAgg, deltas ++ [nextAgg.snapshot.imbalanceDelta]) :=
    Option.map_eq_some_iff.mpr ⟨nextAgg, updated, rfl⟩
  obtain ⟨imbalance, delta⟩ := Aggregator.update_imbalance updated
  have stocked := OrderBook.applyUpdate_stocked offered metrics.stocked applied
  have balanced : Balanced next nextAgg.snapshot.bidAskImbalance :=
    imbalance ▸ balanced_ratio stocked
  refine ⟨_, by simp [advanceLogged, applied, logged], stocked, balanced, ?_, ?_,
    logDelta_sum metrics.sum logged⟩
  · rw [delta]
    linarith [balanced.lower, metrics.balanced.upper]
  · rw [delta]
    linarith [balanced.upper, metrics.balanced.lower]

theorem foldlM_advanceLogged (symbol : Symbol) {depths : List (DepthUpdate ℚ)}
    (offered : ∀ depth ∈ depths, OrderBook.Offered depth) {book : OrderBook} {agg : Aggregator}
    (run : depths.foldlM advanceBook ({ symbol }, {}) = some (book, agg)) :
    ∃ deltas, depths.foldlM advanceLogged ({ symbol }, {}, []) = some (book, agg, deltas) ∧
      BookMetrics book agg.snapshot deltas := by
  induction depths using List.reverseRecOn generalizing book agg with
  | nil =>
    cases run
    exact ⟨[], rfl, OrderBook.stocked_fresh symbol, balanced_fresh symbol, by norm_num,
      by norm_num, rfl⟩
  | append_singleton depths depth ih =>
    obtain ⟨⟨mid, midAgg⟩, earlier, advanced⟩ := Transition.foldlM_snoc_some.mp run
    obtain ⟨deltas, logged, metrics⟩ :=
      ih (fun d hd => offered d (List.mem_append_left _ hd)) earlier
    obtain ⟨deltas', step, metrics'⟩ :=
      advanceLogged_metrics (offered depth (by simp)) metrics advanced
    exact ⟨deltas', Transition.foldlM_snoc_some.mpr ⟨_, logged, step⟩, metrics'⟩

/-! ## The trade statistics -/

structure TradeMetrics (shown : TradeAggregatorSnapshot) : Prop where
  lower : -1 ≤ shown.tradeImbalance
  upper : shown.tradeImbalance ≤ 1
  total : shown.buyVolume + shown.sellVolume = shown.totalVolume

theorem volumeOf_nonneg {trades : List (Trade ℚ)} (nonneg : ∀ trade ∈ trades, 0 ≤ trade.quantity) :
    0 ≤ CompletedWindows.volumeOf trades :=
  List.sum_nonneg (List.forall_mem_map.mpr nonneg)

theorem foldlM_tradeMetrics {trades : List (Trade ℚ)}
    (nonneg : ∀ trade ∈ trades, 0 ≤ trade.quantity) {agg : TradeAggregator}
    (run : trades.foldlM TradeAggregator.update {} = some agg) : TradeMetrics agg.snapshot := by
  rcases List.eq_nil_or_concat' trades with rfl | ⟨history, trade, rfl⟩
  · cases run
    exact ⟨by norm_num, by norm_num, by norm_num⟩
  · obtain ⟨_, run', -, htrades, counts⟩ :=
      TradeExpiry.foldlM_update_pushAll 1000 20 (by decide) (history ++ [trade])
    obtain rfl := Option.some.inj (run.symm.trans run')
    obtain ⟨dropped, whole, -⟩ :=
      ExpiringQueue.remains_pushAll CompletedWindows.timeOf (1000 : UInt64).toNat
        (history ++ [trade])
    generalize ExpiringQueue.pushAll CompletedWindows.timeOf _ _ = counted at htrades whole
    have counted_nonneg : ∀ t ∈ counted, 0 ≤ t.quantity := fun t mem =>
      nonneg t (whole ▸ List.mem_append_right dropped mem)
    have buy : 0 ≤ agg.snapshot.buyVolume := by
      rw [counts.buyVolume, htrades, TradeExpiry.sum_buys]
      exact volumeOf_nonneg (fun t mem => counted_nonneg t (List.mem_of_mem_filter mem))
    have sell : 0 ≤ agg.snapshot.sellVolume := by
      rw [counts.sellVolume, htrades, TradeExpiry.sum_sells]
      exact volumeOf_nonneg (fun t mem => counted_nonneg t (List.mem_of_mem_filter mem))
    obtain ⟨_, -, updated⟩ := Transition.foldlM_snoc_some.mp run
    obtain ⟨total, imbalance⟩ := TradeAggregator.update_totals updated
    obtain ⟨lower, upper⟩ := ratio_bounds buy sell
    exact ⟨lower.trans_eq imbalance.symm, imbalance.trans_le upper, total.symm⟩

/-! ## The engine -/

/-- What the exchange is assumed to send. -/
def Sent : QueueMessage Double → Prop
  | .depthUpdate depth => OrderBook.Offered (depth.map Double.toRat)
  | .trade trade => 0 < trade.price.toRat ∧ 0 ≤ trade.quantity.toRat

theorem offered_of_sent {msgs : List (MessageEnv × QueueMessage Double)}
    (sent : ∀ msg ∈ msgs, Sent msg.2) (symbol : Symbol) :
    ∀ depth ∈ depthsOf symbol msgs, OrderBook.Offered depth := by
  intro depth mem
  obtain ⟨⟨env, msg⟩, hmsg, image⟩ := List.mem_filterMap.mp mem
  cases msg with
  | depthUpdate sentDepth =>
    simp only [Option.ite_none_right_eq_some, Option.some.injEq] at image
    exact image.2 ▸ sent _ hmsg
  | trade trade => cases image

theorem nonneg_of_sent {msgs : List (MessageEnv × QueueMessage Double)}
    (sent : ∀ msg ∈ msgs, Sent msg.2) (symbol : Symbol) :
    ∀ trade ∈ tradesOf symbol msgs, 0 ≤ trade.quantity := by
  intro trade mem
  obtain ⟨⟨env, msg⟩, hmsg, image⟩ := List.mem_filterMap.mp mem
  cases msg with
  | depthUpdate depth => cases image
  | trade sentTrade =>
    simp only [Option.ite_none_right_eq_some, Option.some.injEq] at image
    exact image.2 ▸ (sent _ hmsg).2

/-- The metrics of every symbol are in range after any messages of a sound exchange, and
from a new aggregator the changes of imbalance since a reset add up to it. -/
theorem metrics_in_range :
    (∀ (conditions : List SignalCondition) (recorder : Option DiskLogger)
        (msgs : List (MessageEnv × QueueMessage Double)) (engine : ProcessingThread),
      (∀ msg ∈ msgs, Sent msg.2) →
      (create conditions recorder).processAll msgs = some engine →
      ∀ symbol, (∃ deltas,
        (depthsOf symbol msgs).foldlM advanceLogged ({ symbol }, {}, []) =
          some ((engine.getOrCreateState symbol).book,
            (engine.getOrCreateState symbol).aggregator, deltas) ∧
        BookMetrics (engine.getOrCreateState symbol).book
          (engine.getOrCreateState symbol).aggregator.snapshot deltas) ∧
        TradeMetrics (engine.getOrCreateState symbol).tradeAggregator.snapshot) ∧
    ∀ (vwapLevels smaWindow : Nat) (history : List (Operation OrderBook)) (agg : Aggregator)
        (deltas : List ℚ),
      history.foldlM logDelta ({ vwapLevels, smaWindow }, []) = some (agg, deltas) →
      deltas.sum = agg.snapshot.bidAskImbalance := by
  refine ⟨?_, ?_⟩
  · intro conditions recorder msgs engine sent run symbol
    exact ⟨foldlM_advanceLogged symbol (offered_of_sent sent symbol)
        (book_of_depths conditions recorder symbol msgs run),
      foldlM_tradeMetrics (nonneg_of_sent sent symbol)
        (tradeAggregator_of_trades conditions recorder symbol msgs run)⟩
  · intro vwapLevels smaWindow history agg deltas run
    exact foldlM_logDelta_sum vwapLevels smaWindow history run

/-- A bid of one unit at 100 and then a trade at that price. -/
def bidThenTrade : List (MessageEnv × QueueMessage Double) :=
  [({ wallUs := fun _ => 0, write := { wallUs := 0, headerWritten := 0, recordWritten := 0 } },
      .depthUpdate {
        eventTimeMs := 1000
        firstUpdateId := 1
        lastUpdateId := 2
        symbol := []
        bids := Vector.replicate maxLevels ⟨⟨0x4059000000000000⟩, ⟨0x3FF0000000000000⟩⟩
        asks := Vector.replicate maxLevels ⟨⟨0⟩, ⟨0⟩⟩
        bidCount := 1
        askCount := 0 }),
    ({ wallUs := fun _ => 0, write := { wallUs := 0, headerWritten := 0, recordWritten := 0 } },
      .trade {
        eventTimeMs := 1001
        tradeId := 1
        symbol := []
        price := ⟨0x4059000000000000⟩
        quantity := ⟨0x3FF0000000000000⟩
        isBuyerMaker := true })]

theorem metrics_in_range_bidThenTrade :
    ∃ engine, (create [] none).processAll bidThenTrade = some engine ∧
      (engine.getOrCreateState []).aggregator.snapshot.bidAskImbalance ≤ 1 ∧
      -1 ≤ (engine.getOrCreateState []).tradeAggregator.snapshot.tradeImbalance := by
  have sent : ∀ msg ∈ bidThenTrade, Sent msg.2 := by
    unfold bidThenTrade
    rw [List.forall_mem_cons, List.forall_mem_singleton]
    refine ⟨?_, ?_⟩
    · unfold Sent OrderBook.Offered
      decide +kernel
    · unfold Sent
      decide +kernel
  have inBounds : ∀ msg ∈ bidThenTrade, msg.2.InBounds := by
    unfold bidThenTrade
    rw [List.forall_mem_cons, List.forall_mem_singleton]
    exact ⟨⟨by decide, by decide⟩, trivial⟩
  obtain ⟨engine, run, -⟩ := processAll_isSome [] none inBounds
  obtain ⟨⟨deltas, -, metrics⟩, trades⟩ :=
    metrics_in_range.1 [] none bidThenTrade engine sent run []
  exact ⟨engine, run, metrics.balanced.upper, trades.lower⟩

end MetricRanges
