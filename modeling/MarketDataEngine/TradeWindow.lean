import MarketDataEngine.ProcessingThread

/-!
# The trade window at a depth update

Trades expire when a trade arrives, and the statistics are read when a depth
update arrives. This module says exactly when the two agree on the window. Only
the symbol's own messages are taken to be in time order.
-/

namespace TradeWindow

open MarketTypes ProcessingThread

/-- The event times of a symbol's messages, in processing order. -/
def timesOf (symbol : Symbol) (msgs : List (MessageEnv × QueueMessage Double)) : List UInt64 :=
  msgs.filterMap (fun msg =>
    if msg.2.symbol = symbol then
      match msg.2 with
      | .depthUpdate depth => some depth.eventTimeMs
      | .trade trade => some trade.eventTimeMs
    else none)

/-- Every trade the snapshot counts lies in the window that ends at `nowMs`, for
every snapshot that is passed on at all. -/
def OnlyRecent (state : SymbolState) (nowMs : UInt64) : Prop :=
  tradePtr state ≠ none → ∀ entry ∈ state.tradeAggregator.trades,
    nowMs.toNat ≤ entry.timestampMs.toNat + state.tradeAggregator.windowMs.toNat

/-- No trade has left the window of `nowMs` that was still in the last trade's window. -/
def NoneExpiredSince (trades : List (Trade ℚ)) (windowMs nowMs : UInt64) : Prop :=
  ∀ last, trades.getLast? = some last → ∀ trade ∈ trades,
    last.eventTimeMs.toNat ≤ trade.eventTimeMs.toNat + windowMs.toNat →
    nowMs.toNat ≤ trade.eventTimeMs.toNat + windowMs.toNat

theorem tradesOf_times_sublist (symbol : Symbol)
    (msgs : List (MessageEnv × QueueMessage Double)) :
    ((tradesOf symbol msgs).map Trade.eventTimeMs).Sublist (timesOf symbol msgs) := by
  induction msgs with
  | nil => exact List.Sublist.slnil
  | cons msg rest ih =>
    obtain ⟨env, msg⟩ := msg
    rw [tradesOf, timesOf] at ih ⊢
    cases msg with
    | depthUpdate depth =>
      rw [List.filterMap_cons_none rfl]
      by_cases same : depth.symbol = symbol
      · rw [List.filterMap_cons_some (b := depth.eventTimeMs) (by simp [QueueMessage.symbol, same])]
        exact ih.cons _
      · rw [List.filterMap_cons_none (by simp [QueueMessage.symbol, same])]
        exact ih
    | trade trade =>
      by_cases same : trade.symbol = symbol
      · rw [List.filterMap_cons_some (b := trade.map Double.toRat) (by simp [same]),
          List.filterMap_cons_some (b := trade.eventTimeMs) (by simp [QueueMessage.symbol, same])]
        exact ih.cons_cons _
      · rw [List.filterMap_cons_none (by simp [same]),
          List.filterMap_cons_none (by simp [QueueMessage.symbol, same])]
        exact ih

theorem window_eq_nil_iff (windowMs : UInt64) (trades : List (Trade ℚ)) :
    TradeAggregator.window windowMs trades = [] ↔ trades = [] := by
  constructor
  · intro none
    by_contra some
    obtain ⟨last, hlast⟩ := Option.ne_none_iff_exists'.mp (mt List.getLast?_eq_none_iff.mp some)
    have mem : TradeAggregator.entryOf last ∈ TradeAggregator.window windowMs trades := by
      rw [TradeAggregator.window, hlast]
      refine List.mem_filter.mpr ⟨List.mem_map.mpr ⟨last, List.mem_of_getLast? hlast, rfl⟩, ?_⟩
      exact decide_eq_true (Nat.le_add_right _ _)
    rw [none] at mem
    cases mem
  · rintro rfl
    rfl

/-- In every history whose messages of a symbol are in time order, the snapshot counts
exactly the entries kept for the symbol, and those are all recent at a depth update if
and only if no trade expired since the last one. -/
theorem onlyRecent_iff (conditions : List SignalCondition) (recorder : Option DiskLogger)
    (msgs : List (MessageEnv × QueueMessage Double)) (engine : ProcessingThread)
    (depth : DepthUpdate Double)
    (run : (create conditions recorder).processAll msgs = some engine)
    (ordered : (timesOf depth.symbol msgs ++ [depth.eventTimeMs]).Pairwise (· ≤ ·)) :
    TradeAggregator.Counts (engine.getOrCreateState depth.symbol).tradeAggregator ∧
    (OnlyRecent (engine.getOrCreateState depth.symbol) depth.eventTimeMs ↔
      NoneExpiredSince (tradesOf depth.symbol msgs) 1000 depth.eventTimeMs) := by
  have sorted : (tradesOf depth.symbol msgs).Pairwise
      (fun a b => a.eventTimeMs ≤ b.eventTimeMs) :=
    List.pairwise_map.mp
      ((List.pairwise_append.mp ordered).1.sublist (tradesOf_times_sublist depth.symbol msgs))
  obtain ⟨agg, hagg, windowMs, trades, counts⟩ :=
    TradeAggregator.foldlM_update_trades 1000 20 (by decide) _ sorted
  obtain rfl : agg = (engine.getOrCreateState depth.symbol).tradeAggregator :=
    Option.some.inj (hagg.symm.trans
      (tradeAggregator_of_trades conditions recorder depth.symbol msgs run))
  refine ⟨counts, ?_⟩
  rw [OnlyRecent, windowMs, trades, NoneExpiredSince]
  have passed : tradePtr (engine.getOrCreateState depth.symbol) ≠ none ↔
      tradesOf depth.symbol msgs ≠ [] := by
    rw [tradePtr, counts.tradeCount, trades, ← not_iff_not, not_not, not_not,
      ← window_eq_nil_iff 1000]
    simp [List.length_eq_zero_iff]
  constructor
  · intro recent last hlast trade htrade inside
    have some : tradesOf depth.symbol msgs ≠ [] := List.ne_nil_of_mem htrade
    refine recent (passed.mpr some) (TradeAggregator.entryOf trade) ?_
    rw [TradeAggregator.window, hlast]
    exact List.mem_filter.mpr ⟨List.mem_map.mpr ⟨trade, htrade, rfl⟩, decide_eq_true inside⟩
  · intro fresh some entry hentry
    cases hlast : (tradesOf depth.symbol msgs).getLast? with
    | none => exact absurd (List.getLast?_eq_none_iff.mp hlast) (passed.mp some)
    | some last =>
      rw [TradeAggregator.window, hlast] at hentry
      obtain ⟨mem, inside⟩ := List.mem_filter.mp hentry
      obtain ⟨trade, htrade, rfl⟩ := List.mem_map.mp mem
      exact fresh last hlast trade htrade (of_decide_eq_true inside)

def quietEnv : MessageEnv where
  wallUs := fun _ => 0
  write := ⟨0, 0, 0⟩

def earlyTrade : Trade Double where
  eventTimeMs := 1000
  tradeId := 1
  symbol := []
  price := ⟨0⟩
  quantity := ⟨0⟩
  isBuyerMaker := false

def depthAt (eventTimeMs : UInt64) : DepthUpdate Double where
  eventTimeMs := eventTimeMs
  firstUpdateId := 1
  lastUpdateId := 1
  symbol := []
  bids := Vector.replicate maxLevels ⟨⟨0⟩, ⟨0⟩⟩
  asks := Vector.replicate maxLevels ⟨⟨0⟩, ⟨0⟩⟩
  bidCount := 0
  askCount := 0

theorem onlyRecent_iff_earlyTrade :
    ∃ engine, (create [] none).processAll [(quietEnv, .trade earlyTrade)] = some engine ∧
      OnlyRecent (engine.getOrCreateState []) 1500 := by
  have inBounds : ∀ msg ∈ [(quietEnv, QueueMessage.trade earlyTrade)], msg.2.InBounds := by
    simp [QueueMessage.InBounds]
  obtain ⟨engine, run, -⟩ := processAll_isSome [] none inBounds
  refine ⟨engine, run, ((onlyRecent_iff [] none _ engine (depthAt 1500) run (by decide)).2).mpr ?_⟩
  intro last _ trade htrade _
  obtain rfl : trade = earlyTrade.map Double.toRat := by
    simpa [tradesOf, depthAt, earlyTrade] using htrade
  decide

/-- A trade of one second is still counted at a depth update nine seconds later. -/
theorem stale_trade_counted :
    ∃ engine, (create [] none).processAll [(quietEnv, .trade earlyTrade)] = some engine ∧
      ¬ OnlyRecent (engine.getOrCreateState (depthAt 10000).symbol)
        (depthAt 10000).eventTimeMs := by
  refine ⟨_, rfl, ?_⟩
  intro recent
  have counted := recent (by decide +kernel) (TradeAggregator.entryOf (earlyTrade.map Double.toRat))
    (by decide +kernel)
  revert counted
  decide +kernel

end TradeWindow
