import MarketDataEngine.ProcessingThread

/-!
# The signals of a run

`process` keeps only the newest fifty signals, so what a run fires is not to be
read off the engine. Here `process` is cut at the calls of `callback_`: `handle`
is the part before them, `callback` one of them, and `runLog` a run together with
every signal it fires. `runLog_processAll` says that nothing else has changed.
-/

namespace SignalLog

open MarketTypes ProcessingThread
open SignalDetector (Firing)

/-- A message with what its handling meets outside the program. -/
abbrev Message := MessageEnv × QueueMessage Double

/-- `process_depth` without its callbacks, which are returned in order. -/
def handleDepth (engine : ProcessingThread) (env : MessageEnv) (depth : DepthUpdate Double) :
    Option (ProcessingThread × List Firing) := do
  let recorder := engine.recorder.map (fun logger => (logger.write depth env.write).2)
  let state := engine.getOrCreateState depth.symbol
  let book ← state.book.applyUpdate (depth.map Double.toRat)
  let aggregator ← state.aggregator.update book
  let state := { state with book, aggregator }
  let (signalDetector, firings) := engine.signalDetector.evaluate {
    symbol := depth.symbol
    agg := aggregator.snapshot
    tradeAgg := tradePtr state
    wallUs := env.wallUs }
  return ({ engine with
    recorder := recorder
    lastParseUs := elapsedUs depth.tsReceived depth.tsParsed
    lastQueueUs := elapsedUs depth.tsParsed depth.tsDequeued
    lastTotalUs := elapsedUs depth.tsReceived depth.tsDequeued
    states := engine.states.insert depth.symbol state
    signalDetector := signalDetector }, firings)

/-- The handler of a message, up to its callbacks; a trade has none. -/
def handleBody (engine : ProcessingThread) (msg : Message) :
    Option (ProcessingThread × List Firing) :=
  match msg.2 with
  | .trade trade => (engine.processTrade trade).map (fun engine => (engine, []))
  | .depthUpdate depth => handleDepth engine msg.1 depth

/-- `processed_.fetch_add(1)`. -/
def count (engine : ProcessingThread) : ProcessingThread :=
  { engine with processed := engine.processed + 1 }

/-- `process` up to the callbacks. -/
def handle (engine : ProcessingThread) (msg : Message) :
    Option (ProcessingThread × List Firing) :=
  handleBody (count engine) msg

/-- The signal callback that the constructor installs. -/
def callback (engine : ProcessingThread) (firing : Firing) : ProcessingThread :=
  { engine with
    signalsFired := engine.signalsFired + 1
    recentSignals := pushRecent engine.recentSignals firing.signal }

/-- The rest of `process`: the callbacks, then `update_snapshot`. -/
def publish (engine : ProcessingThread) (firings : List Firing) : ProcessingThread :=
  (firings.foldl callback engine).updateSnapshot

/-- One message, with the signals fired so far. -/
def processLog (state : ProcessingThread × List Signal) (msg : Message) :
    Option (ProcessingThread × List Signal) :=
  (handle state.1 msg).map (fun handled =>
    (publish handled.1 handled.2, state.2 ++ handled.2.map Firing.signal))

def runLog (engine : ProcessingThread) (msgs : List Message) :
    Option (ProcessingThread × List Signal) :=
  msgs.foldlM processLog (engine, [])

/-! ## What one message does -/

/-- The state of a symbol after one of its depth updates. -/
def advanceState (state : SymbolState) (depth : DepthUpdate ℚ) : Option SymbolState := do
  let book ← state.book.applyUpdate depth
  let aggregator ← state.aggregator.update book
  return { state with book, aggregator }

/-- The call of `evaluate` that follows a depth update. -/
def depthCall (env : MessageEnv) (depth : DepthUpdate Double) (state : SymbolState) :
    SignalDetector.Call where
  symbol := depth.symbol
  agg := state.aggregator.snapshot
  tradeAgg := tradePtr state
  wallUs := env.wallUs

theorem handle_depthUpdate {engine next : ProcessingThread} {env : MessageEnv}
    {depth : DepthUpdate Double} {firings : List Firing} :
    handle engine (env, .depthUpdate depth) = some (next, firings) ↔
      ∃ state, advanceState (engine.getOrCreateState depth.symbol) (depth.map Double.toRat) =
          some state ∧
        next = { engine with
          recorder := engine.recorder.map (fun logger => (logger.write depth env.write).2)
          processed := engine.processed + 1
          lastParseUs := elapsedUs depth.tsReceived depth.tsParsed
          lastQueueUs := elapsedUs depth.tsParsed depth.tsDequeued
          lastTotalUs := elapsedUs depth.tsReceived depth.tsDequeued
          states := engine.states.insert depth.symbol state
          signalDetector := (engine.signalDetector.evaluate (depthCall env depth state)).1 } ∧
        firings = (engine.signalDetector.evaluate (depthCall env depth state)).2 := by
  simp only [handle, handleBody, count, handleDepth, advanceState, getOrCreateState,
    Option.bind_eq_bind, Option.bind_eq_some_iff, Option.pure_def, Option.some.injEq, Prod.mk.injEq]
  constructor
  · rintro ⟨book, hbook, aggregator, haggregator, rfl, rfl⟩
    exact ⟨_, ⟨book, hbook, aggregator, haggregator, rfl⟩, rfl, rfl⟩
  · rintro ⟨_, ⟨book, hbook, aggregator, haggregator, rfl⟩, rfl, rfl⟩
    exact ⟨book, hbook, aggregator, haggregator, rfl, rfl⟩

theorem handle_trade {engine next : ProcessingThread} {env : MessageEnv} {trade : Trade Double}
    {firings : List Firing} :
    handle engine (env, .trade trade) = some (next, firings) ↔
      ∃ tradeAggregator,
        (engine.getOrCreateState trade.symbol).tradeAggregator.update (trade.map Double.toRat) =
          some tradeAggregator ∧
        next = { engine with
          processed := engine.processed + 1
          tradesProcessed := engine.tradesProcessed + 1
          states := engine.states.insert trade.symbol
            { engine.getOrCreateState trade.symbol with tradeAggregator } } ∧
        firings = [] := by
  simp only [handle, handleBody, count, processTrade, getOrCreateState, Option.bind_eq_bind,
    Option.map_eq_some_iff, Option.bind_eq_some_iff, Option.pure_def, Option.some.injEq,
    Prod.mk.injEq]
  constructor
  · rintro ⟨_, ⟨tradeAggregator, updated, rfl⟩, rfl, rfl⟩
    exact ⟨tradeAggregator, updated, rfl, rfl⟩
  · rintro ⟨tradeAggregator, updated, rfl, rfl⟩
    exact ⟨_, ⟨tradeAggregator, updated, rfl⟩, rfl, rfl⟩

/-! ## The cut loses nothing -/

theorem foldl_callback (firings : List Firing) (engine : ProcessingThread) :
    firings.foldl callback engine = { engine with
      signalsFired := engine.signalsFired + firings.length
      recentSignals := firings.foldl (fun recent f => pushRecent recent f.signal)
        engine.recentSignals } := by
  induction firings generalizing engine with
  | nil => rfl
  | cons firing rest ih =>
    rw [List.foldl_cons, ih]
    simp only [callback, List.length_cons, List.foldl_cons, Nat.add_assoc, Nat.add_comm 1]

theorem processDepth_eq (engine : ProcessingThread) (env : MessageEnv)
    (depth : DepthUpdate Double) :
    engine.processDepth env depth =
      (handleDepth engine env depth).map (fun handled => handled.2.foldl callback handled.1) := by
  simp only [processDepth, handleDepth, Option.bind_eq_bind]
  cases hbook : (engine.getOrCreateState depth.symbol).book.applyUpdate
      (depth.map Double.toRat) with
  | none => rfl
  | some book =>
    rw [Option.bind_some, Option.bind_some]
    cases hupdate : (engine.getOrCreateState depth.symbol).aggregator.update book with
    | none => rfl
    | some aggregator =>
      simp only [Option.bind_some, Option.pure_def, Option.map_some, foldl_callback]

theorem process_eq (engine : ProcessingThread) (msg : Message) :
    engine.process msg.1 msg.2 =
      (handle engine msg).map (fun handled => publish handled.1 handled.2) := by
  obtain ⟨env, msg⟩ := msg
  cases msg with
  | trade trade =>
    simp only [process, handle, handleBody, count, Option.map_map]
    rfl
  | depthUpdate depth =>
    simp only [process, handle, handleBody, count, processDepth_eq, Option.map_map]
    rfl

theorem processLog_fst (state : ProcessingThread × List Signal) (msg : Message) :
    (processLog state msg).map Prod.fst = state.1.process msg.1 msg.2 := by
  rw [process_eq, processLog, Option.map_map]
  rfl

theorem runLog_snoc {engine : ProcessingThread} {msgs : List Message} {msg : Message}
    {last : ProcessingThread × List Signal} :
    runLog engine (msgs ++ [msg]) = some last ↔
      ∃ mid handled, runLog engine msgs = some mid ∧ handle mid.1 msg = some handled ∧
        last = (publish handled.1 handled.2, mid.2 ++ handled.2.map Firing.signal) := by
  refine Transition.foldlM_snoc_some.trans ?_
  simp only [processLog, Option.map_eq_some_iff]
  constructor
  · rintro ⟨mid, hmid, handled, hhandled, rfl⟩
    exact ⟨mid, handled, hmid, hhandled, rfl⟩
  · rintro ⟨mid, handled, hmid, hhandled, rfl⟩
    exact ⟨mid, hmid, handled, hhandled, rfl⟩

/-- The engine of a logged run is the engine of the run. -/
theorem runLog_processAll (engine : ProcessingThread) (msgs : List Message) :
    (runLog engine msgs).map Prod.fst = engine.processAll msgs := by
  induction msgs using List.reverseRecOn with
  | nil => rfl
  | append_singleton msgs msg ih =>
    rw [processAll, List.foldlM_append, ← processAll, ← ih, runLog, List.foldlM_append, ← runLog]
    cases runLog engine msgs with
    | none => rfl
    | some mid =>
      simp only [Option.bind_eq_bind, Option.bind_some, Option.map_some, List.foldlM_cons,
        List.foldlM_nil, Option.pure_def, Option.bind_fun_some]
      exact processLog_fst mid msg

theorem exists_runLog {engine last : ProcessingThread} {msgs : List Message}
    (run : engine.processAll msgs = some last) : ∃ log, runLog engine msgs = some (last, log) := by
  rw [← runLog_processAll] at run
  obtain ⟨⟨reached, log⟩, hrun, rfl⟩ := Option.map_eq_some_iff.mp run
  exact ⟨log, hrun⟩

theorem processAll_of_runLog {engine last : ProcessingThread} {msgs : List Message}
    {log : List Signal} (run : runLog engine msgs = some (last, log)) :
    engine.processAll msgs = some last := by
  rw [← runLog_processAll, run]
  rfl

end SignalLog
