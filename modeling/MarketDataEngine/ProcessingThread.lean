import MarketDataEngine.SignalDetector
import MarketDataEngine.DiskReader
import Mathlib.Data.List.AList

/-!
# Processing messages

`ProcessingThread::process` of `engine/processing_thread.h` with its two
handlers, the optional recorder and the published snapshot. Recorded bytes keep
the message's binary64 patterns; books and statistics compute with their exact
values. Log lines are left out. `none` stands for a read outside a level array,
or for an average of nothing; `process_isSome` says that neither happens while
level counts stay inside their arrays.
-/

open MarketTypes

/-- The record `ProcessingThread::SymbolState`. -/
structure SymbolState where
  book : OrderBook
  aggregator : Aggregator := {}
  tradeAggregator : TradeAggregator := {}

structure SymbolSnapshot where
  symbol : Symbol
  bids : OrderedMap (fun a b : ℚ => a > b) ℚ
  asks : OrderedMap (fun a b : ℚ => a < b) ℚ
  aggregation : AggregatorSnapshot
  bestBid : ℚ
  bestAsk : ℚ
  spread : ℚ
  midPrice : ℚ
  updateCount : Nat

structure EngineSnapshot where
  symbols : List SymbolSnapshot := []
  recentSignals : List Signal := []
  processedCount : Nat := 0
  tradesProcessed : Nat := 0
  signalsFired : Nat := 0
  lastParseUs : Int := 0
  lastQueueUs : Int := 0
  lastTotalUs : Int := 0

structure ProcessingThread where
  recorder : Option DiskLogger
  states : AList (fun _ : Symbol => SymbolState) := ∅
  snapshot : EngineSnapshot := {}
  signalDetector : SignalDetector
  recentSignals : List Signal := []
  processed : Nat := 0
  tradesProcessed : Nat := 0
  signalsFired : Nat := 0
  lastParseUs : Int := 0
  lastQueueUs : Int := 0
  lastTotalUs : Int := 0

namespace ProcessingThread

/-- What the handling of one message meets outside the program: the clock readings
of its signal conditions and the two `fwrite` calls of its record. -/
structure MessageEnv where
  wallUs : Nat → UInt64
  write : DiskLogger.WriteEnv

/-- `Clock::elapsed_us`, which truncates toward zero. -/
def elapsedUs (start finish : TimePoint) : Int := (finish - start).tdiv 1000

/-- `MAX_RECENT_SIGNALS`. -/
def maxRecentSignals : Nat := 50

/-- The newest signal goes to the front, and the oldest leaves when there are too many. -/
def pushRecent (recent : List Signal) (signal : Signal) : List Signal :=
  if (signal :: recent).length > maxRecentSignals then (signal :: recent).dropLast
  else signal :: recent

def create (conditions : List SignalCondition) (recorder : Option DiskLogger) :
    ProcessingThread where
  recorder := recorder
  signalDetector := { conditions }

/-- `get_or_create_state`; the handlers store the state they get back in any case. -/
def getOrCreateState (engine : ProcessingThread) (symbol : Symbol) : SymbolState :=
  (engine.states.lookup symbol).getD { book := { symbol } }

/-- `get_order_book`, null for a symbol without a state. -/
def getOrderBook (engine : ProcessingThread) (symbol : Symbol) : Option OrderBook :=
  (engine.states.lookup symbol).map SymbolState.book

/-- `get_aggregator`, null for a symbol without a state. -/
def getAggregator (engine : ProcessingThread) (symbol : Symbol) : Option AggregatorSnapshot :=
  (engine.states.lookup symbol).map (fun state => state.aggregator.snapshot)

/-- The trade snapshot that `process_depth` passes to `evaluate`, null without trades. -/
def tradePtr (state : SymbolState) : Option TradeAggregatorSnapshot :=
  if state.tradeAggregator.snapshot.tradeCount > 0 then some state.tradeAggregator.snapshot
  else none

def processDepth (engine : ProcessingThread) (env : MessageEnv) (depth : DepthUpdate Double) :
    Option ProcessingThread := do
  let recorder := engine.recorder.map (fun logger => (logger.write depth env.write).2)
  let state := engine.getOrCreateState depth.symbol
  let book ← state.book.applyUpdate (depth.map Double.toRat)
  let aggregator ← state.aggregator.update book
  let state := { state with book, aggregator }
  let (signalDetector, firings) := engine.signalDetector.evaluate {
    symbol := depth.symbol
    agg := aggregator.snapshot
    tradeAgg := tradePtr state
    wallUs := env.wallUs }
  return { engine with
    recorder := recorder
    lastParseUs := elapsedUs depth.tsReceived depth.tsParsed
    lastQueueUs := elapsedUs depth.tsParsed depth.tsDequeued
    lastTotalUs := elapsedUs depth.tsReceived depth.tsDequeued
    states := engine.states.insert depth.symbol state
    signalDetector := signalDetector
    signalsFired := engine.signalsFired + firings.length
    recentSignals := firings.foldl (fun recent f => pushRecent recent f.signal)
      engine.recentSignals }

def processTrade (engine : ProcessingThread) (trade : Trade Double) : Option ProcessingThread := do
  let state := engine.getOrCreateState trade.symbol
  let tradeAggregator ← state.tradeAggregator.update (trade.map Double.toRat)
  return { engine with
    tradesProcessed := engine.tradesProcessed + 1
    states := engine.states.insert trade.symbol { state with tradeAggregator } }

def symbolSnapshot (symbol : Symbol) (state : SymbolState) : SymbolSnapshot where
  symbol := symbol
  bids := state.book.bids
  asks := state.book.asks
  aggregation := state.aggregator.snapshot
  bestBid := state.book.bestBidPrice
  bestAsk := state.book.bestAskPrice
  spread := state.book.spread
  midPrice := state.book.midPrice
  updateCount := state.book.updateCount

def updateSnapshot (engine : ProcessingThread) : ProcessingThread :=
  { engine with snapshot := {
    symbols := engine.states.entries.map (fun entry => symbolSnapshot entry.1 entry.2)
    recentSignals := engine.recentSignals
    processedCount := engine.processed
    tradesProcessed := engine.tradesProcessed
    signalsFired := engine.signalsFired
    lastParseUs := engine.lastParseUs
    lastQueueUs := engine.lastQueueUs
    lastTotalUs := engine.lastTotalUs } }

def process (engine : ProcessingThread) (env : MessageEnv) (msg : QueueMessage Double) :
    Option ProcessingThread :=
  let counted := { engine with processed := engine.processed + 1 }
  match msg with
  | .trade trade => (counted.processTrade trade).map updateSnapshot
  | .depthUpdate depth => (counted.processDepth env depth).map updateSnapshot

/-- All messages of a run, in processing order. -/
def processAll (engine : ProcessingThread) (msgs : List (MessageEnv × QueueMessage Double)) :
    Option ProcessingThread :=
  msgs.foldlM (fun engine msg => engine.process msg.1 msg.2) engine

/-! ## What one message changes -/

/-- The part of a symbol's state that depth updates drive. -/
def advanceBook (state : OrderBook × Aggregator) (depth : DepthUpdate ℚ) :
    Option (OrderBook × Aggregator) := do
  let book ← state.1.applyUpdate depth
  let aggregator ← state.2.update book
  return (book, aggregator)

def bookPart (state : SymbolState) : OrderBook × Aggregator := (state.book, state.aggregator)

@[simp] theorem lookup_insert_getD (states : AList (fun _ : Symbol => SymbolState))
    (key symbol : Symbol) (state other : SymbolState) :
    ((states.insert key state).lookup symbol).getD other =
      if symbol = key then state else (states.lookup symbol).getD other := by
  split_ifs with same
  · rw [same, AList.lookup_insert]
    rfl
  · rw [AList.lookup_insert_ne same]

/-- A depth update moves its symbol's book and aggregator, is offered to the
recorder, and touches no other symbol and no trade statistics. -/
theorem process_depthUpdate {engine next : ProcessingThread} {env : MessageEnv}
    {depth : DepthUpdate Double} (h : engine.process env (.depthUpdate depth) = some next) :
    advanceBook (bookPart (engine.getOrCreateState depth.symbol)) (depth.map Double.toRat) =
        some (bookPart (next.getOrCreateState depth.symbol)) ∧
      (∀ symbol, (next.getOrCreateState symbol).tradeAggregator =
        (engine.getOrCreateState symbol).tradeAggregator) ∧
      (∀ symbol, symbol ≠ depth.symbol →
        next.getOrCreateState symbol = engine.getOrCreateState symbol) ∧
      next.recorder = engine.recorder.map (fun logger => (logger.write depth env.write).2) ∧
      next.processed = engine.processed + 1 := by
  simp only [process, processDepth, Option.map_eq_some_iff, Option.bind_eq_bind,
    Option.bind_eq_some_iff, Option.pure_def, Option.some.injEq] at h
  obtain ⟨_, ⟨book, hbook, aggregator, haggregator, rfl⟩, rfl⟩ := h
  refine ⟨?_, ?_, ?_, rfl, rfl⟩
  · simp only [getOrCreateState] at hbook haggregator
    simp [advanceBook, bookPart, getOrCreateState, updateSnapshot, hbook, haggregator]
  · intro symbol
    by_cases same : symbol = depth.symbol
    · subst same
      simp [getOrCreateState, updateSnapshot]
    · simp [getOrCreateState, updateSnapshot, same]
  · intro symbol other
    simp [getOrCreateState, updateSnapshot, other]

/-- A trade moves its symbol's trade statistics and nothing of any book. -/
theorem process_trade {engine next : ProcessingThread} {env : MessageEnv}
    {trade : Trade Double} (h : engine.process env (.trade trade) = some next) :
    (engine.getOrCreateState trade.symbol).tradeAggregator.update (trade.map Double.toRat) =
        some (next.getOrCreateState trade.symbol).tradeAggregator ∧
      (∀ symbol, bookPart (next.getOrCreateState symbol) =
        bookPart (engine.getOrCreateState symbol)) ∧
      (∀ symbol, symbol ≠ trade.symbol →
        next.getOrCreateState symbol = engine.getOrCreateState symbol) ∧
      next.recorder = engine.recorder ∧
      next.processed = engine.processed + 1 := by
  simp only [process, processTrade, Option.map_eq_some_iff, Option.bind_eq_bind,
    Option.bind_eq_some_iff, Option.pure_def, Option.some.injEq] at h
  obtain ⟨_, ⟨tradeAggregator, hupdate, rfl⟩, rfl⟩ := h
  refine ⟨?_, ?_, ?_, rfl, rfl⟩
  · simp only [getOrCreateState] at hupdate
    simp [getOrCreateState, updateSnapshot, hupdate]
  · intro symbol
    by_cases same : symbol = trade.symbol
    · subst same
      simp [getOrCreateState, updateSnapshot, bookPart]
    · simp [getOrCreateState, updateSnapshot, same]
  · intro symbol other
    simp [getOrCreateState, updateSnapshot, other]

/-- No average of a state is over nothing and no window of it is empty. -/
def Exact (state : SymbolState) : Prop :=
  0 < state.aggregator.smaWindow ∧ state.tradeAggregator.windowMs ≠ 0

theorem advanceBook_isSome {state : OrderBook × Aggregator} {depth : DepthUpdate ℚ}
    (inBounds : depth.InBounds) (window : 0 < state.2.smaWindow) :
    ∃ next, advanceBook state depth = some next ∧ next.2.smaWindow = state.2.smaWindow := by
  obtain ⟨book, applied⟩ : ∃ book, state.1.applyUpdate depth = some book :=
    ⟨_, OrderBook.applyUpdate_of_inBounds state.1 inBounds⟩
  obtain ⟨aggregator, updated, same⟩ := Aggregator.update_isSome window book
  exact ⟨(book, aggregator), by simp [advanceBook, applied, updated], same⟩

theorem process_depthUpdate_isSome {engine : ProcessingThread} {depth : DepthUpdate Double}
    {parts : OrderBook × Aggregator} (env : MessageEnv)
    (advanced : advanceBook (bookPart (engine.getOrCreateState depth.symbol))
      (depth.map Double.toRat) = some parts) :
    ∃ next, engine.process env (.depthUpdate depth) = some next := by
  simp only [advanceBook, bookPart, Option.bind_eq_bind, Option.bind_eq_some_iff] at advanced
  obtain ⟨book, hbook, aggregator, haggregator, -⟩ := advanced
  simp only [getOrCreateState] at hbook haggregator
  simp only [process, processDepth, getOrCreateState, hbook, haggregator, Option.bind_eq_bind,
    Option.bind_some]
  exact ⟨_, rfl⟩

theorem process_trade_isSome {engine : ProcessingThread} {trade : Trade Double}
    {updated : TradeAggregator} (env : MessageEnv)
    (h : (engine.getOrCreateState trade.symbol).tradeAggregator.update
      (trade.map Double.toRat) = some updated) :
    ∃ next, engine.process env (.trade trade) = some next := by
  simp only [getOrCreateState] at h
  simp only [process, processTrade, getOrCreateState, h, Option.bind_eq_bind, Option.bind_some]
  exact ⟨_, rfl⟩

/-- A message with level counts inside its arrays is always processed, and the
next one can be. -/
theorem process_isSome {engine : ProcessingThread}
    (exact' : ∀ symbol, Exact (engine.getOrCreateState symbol)) (env : MessageEnv)
    {msg : QueueMessage Double} (inBounds : msg.InBounds) :
    ∃ next, engine.process env msg = some next ∧
      ∀ symbol, Exact (next.getOrCreateState symbol) := by
  cases msg with
  | depthUpdate depth =>
    have window : 0 < (bookPart (engine.getOrCreateState depth.symbol)).2.smaWindow :=
      (exact' depth.symbol).1
    obtain ⟨parts, advanced, window⟩ :=
      advanceBook_isSome ((DepthUpdate.map_inBounds Double.toRat depth).mpr inBounds) window
    obtain ⟨next, hnext⟩ := process_depthUpdate_isSome env advanced
    obtain ⟨moved, trades, others, -⟩ := process_depthUpdate hnext
    refine ⟨next, hnext, fun symbol => ?_⟩
    by_cases same : symbol = depth.symbol
    · subst same
      obtain rfl : parts = _ := Option.some.inj (advanced.symm.trans moved)
      exact ⟨window.symm ▸ (exact' _).1, trades _ ▸ (exact' _).2⟩
    · exact others symbol same ▸ exact' symbol
  | trade trade =>
    obtain ⟨updated, hupdated, window, -⟩ :=
      TradeAggregator.update_of_window (exact' trade.symbol).2 (trade.map Double.toRat)
    obtain ⟨next, hnext⟩ := process_trade_isSome env hupdated
    obtain ⟨moved, books, others, -⟩ := process_trade hnext
    refine ⟨next, hnext, fun symbol => ?_⟩
    by_cases same : symbol = trade.symbol
    · subst same
      obtain rfl : updated = _ := Option.some.inj (hupdated.symm.trans moved)
      refine ⟨?_, window ▸ (exact' _).2⟩
      have kept := congrArg Prod.snd (books trade.symbol)
      exact lt_of_lt_of_eq (exact' _).1 (congrArg Aggregator.smaWindow kept.symm)
    · exact others symbol same ▸ exact' symbol

theorem exact_create (conditions : List SignalCondition) (recorder : Option DiskLogger)
    (symbol : Symbol) : Exact ((create conditions recorder).getOrCreateState symbol) :=
  ⟨Nat.succ_pos 19, show (1000 : UInt64) ≠ 0 by decide⟩

theorem processAll_snoc {engine last : ProcessingThread}
    {msgs : List (MessageEnv × QueueMessage Double)} {msg : MessageEnv × QueueMessage Double} :
    engine.processAll (msgs ++ [msg]) = some last ↔
      ∃ mid, engine.processAll msgs = some mid ∧ mid.process msg.1 msg.2 = some last :=
  Transition.foldlM_snoc_some

/-- Messages with level counts inside their arrays are processed to the end. -/
theorem processAll_isSome (conditions : List SignalCondition) (recorder : Option DiskLogger)
    {msgs : List (MessageEnv × QueueMessage Double)} (inBounds : ∀ msg ∈ msgs, msg.2.InBounds) :
    ∃ engine, (create conditions recorder).processAll msgs = some engine ∧
      ∀ symbol, Exact (engine.getOrCreateState symbol) := by
  induction msgs using List.reverseRecOn with
  | nil => exact ⟨_, rfl, exact_create conditions recorder⟩
  | append_singleton msgs msg ih =>
    obtain ⟨mid, hmid, ready⟩ := ih (fun m hm => inBounds m (List.mem_append_left _ hm))
    obtain ⟨engine, hengine, after⟩ := process_isSome ready msg.1 (inBounds msg (by simp))
    exact ⟨engine, processAll_snoc.mpr ⟨mid, hmid, hengine⟩, after⟩

/-! ## The streams of one symbol -/

/-- The depth updates of a symbol, with exact numbers. -/
def depthsOf (symbol : Symbol) (msgs : List (MessageEnv × QueueMessage Double)) :
    List (DepthUpdate ℚ) :=
  msgs.filterMap (fun msg =>
    match msg.2 with
    | .depthUpdate depth =>
      if depth.symbol = symbol then some (depth.map Double.toRat) else none
    | .trade _ => none)

/-- The trades of a symbol, with exact numbers. -/
def tradesOf (symbol : Symbol) (msgs : List (MessageEnv × QueueMessage Double)) :
    List (Trade ℚ) :=
  msgs.filterMap (fun msg =>
    match msg.2 with
    | .depthUpdate _ => none
    | .trade trade =>
      if trade.symbol = symbol then some (trade.map Double.toRat) else none)

/-- A symbol's book and aggregator are a function of its depth updates alone. -/
theorem book_of_depths (conditions : List SignalCondition) (recorder : Option DiskLogger)
    (symbol : Symbol) (msgs : List (MessageEnv × QueueMessage Double)) {engine : ProcessingThread}
    (run : (create conditions recorder).processAll msgs = some engine) :
    (depthsOf symbol msgs).foldlM advanceBook ({ symbol }, {}) =
      some (bookPart (engine.getOrCreateState symbol)) := by
  induction msgs using List.reverseRecOn generalizing engine with
  | nil => cases run; rfl
  | append_singleton msgs msg ih =>
    obtain ⟨mid, hmid, step⟩ := processAll_snoc.mp run
    have before := ih hmid
    obtain ⟨env, msg⟩ := msg
    rw [depthsOf, List.filterMap_append, List.foldlM_append, ← depthsOf, before]
    cases msg with
    | depthUpdate depth =>
      obtain ⟨advanced, -, others, -⟩ := process_depthUpdate step
      by_cases same : depth.symbol = symbol
      · subst same
        simpa using advanced
      · simp [same, others symbol (Ne.symm same)]
    | trade trade =>
      obtain ⟨-, books, -⟩ := process_trade step
      simp [books symbol]

/-- A symbol's trade statistics are a function of its trades alone. -/
theorem tradeAggregator_of_trades (conditions : List SignalCondition)
    (recorder : Option DiskLogger) (symbol : Symbol)
    (msgs : List (MessageEnv × QueueMessage Double)) {engine : ProcessingThread}
    (run : (create conditions recorder).processAll msgs = some engine) :
    (tradesOf symbol msgs).foldlM TradeAggregator.update {} =
      some (engine.getOrCreateState symbol).tradeAggregator := by
  induction msgs using List.reverseRecOn generalizing engine with
  | nil => cases run; rfl
  | append_singleton msgs msg ih =>
    obtain ⟨mid, hmid, step⟩ := processAll_snoc.mp run
    have before := ih hmid
    obtain ⟨env, msg⟩ := msg
    rw [tradesOf, List.filterMap_append, List.foldlM_append, ← tradesOf, before]
    cases msg with
    | depthUpdate depth =>
      obtain ⟨-, trades, -⟩ := process_depthUpdate step
      simp [trades symbol]
    | trade trade =>
      obtain ⟨updated, -, others, -⟩ := process_trade step
      by_cases same : trade.symbol = symbol
      · subst same
        simpa using updated
      · simp [same, others symbol (Ne.symm same)]

end ProcessingThread
