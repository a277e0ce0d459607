import MarketDataEngine.SignalLog

/-!
# Symbols do not disturb each other

All symbols share one table of states, one detector and one cooldown map, and a
state is created by whichever kind of message comes first. This module compares
two runs: what one symbol's messages lead to does not depend on the messages of
any other symbol, nor its books on its trades or its trade statistics on its
depth updates.
-/

namespace SymbolIsolation

open MarketTypes ProcessingThread SignalLog
open SignalDetector (Firing Check Call evaluateCondition)

/-! ## The cooldown map -/

/-- Two detectors remember the same firings of a symbol. -/
def SameMemory (symbol : Symbol) (a b : SignalDetector) : Prop :=
  ∀ type, a.lastFired ⟨type, symbol⟩ = b.lastFired ⟨type, symbol⟩

/-- A check goes by the memory of its own symbol only. -/
theorem evaluateCondition_same {check : Check} {a b : SignalDetector} {log : List Firing}
    (memory : SameMemory check.symbol a b) :
    (evaluateCondition (a, log) check).2 = (evaluateCondition (b, log) check).2 ∧
      SameMemory check.symbol (evaluateCondition (a, log) check).1
        (evaluateCondition (b, log) check).1 := by
  have cooling : a.cooling check.key check.nowUs check.condition.cooldownUs =
      b.cooling check.key check.nowUs check.condition.cooldownUs := by
    have last : a.lastFired check.key = b.lastFired check.key := memory _
    simp only [SignalDetector.cooling, last]
  unfold evaluateCondition
  cases SignalDetector.triggered check.condition check.agg check.tradeAgg with
  | none => exact ⟨rfl, memory⟩
  | some value =>
    simp only [cooling]
    split_ifs
    · exact ⟨rfl, memory⟩
    · refine ⟨rfl, fun type => ?_⟩
      by_cases own : (⟨type, check.symbol⟩ : CooldownKey) = check.key
      · simp [own]
      · simp [own, memory type]

/-- A check writes the memory of its own symbol only. -/
theorem evaluateCondition_other {check : Check} {symbol : Symbol}
    (other : check.symbol ≠ symbol) (state : SignalDetector × List Firing) :
    SameMemory symbol (evaluateCondition state check).1 state.1 := by
  intro type
  have key : (⟨type, symbol⟩ : CooldownKey) ≠ check.key := by
    intro same
    exact other (congrArg CooldownKey.symbol same).symm
  rcases SignalDetector.evaluateCondition_cases state check with
    ⟨-, same⟩ | ⟨value, -, ⟨-, same⟩ | ⟨-, same⟩⟩
  all_goals rw [same]
  simp [key]

theorem foldl_evaluateCondition_same {symbol : Symbol} (checks : List Check)
    (own : ∀ check ∈ checks, check.symbol = symbol) {a b : SignalDetector} {log : List Firing}
    (memory : SameMemory symbol a b) :
    (checks.foldl evaluateCondition (a, log)).2 = (checks.foldl evaluateCondition (b, log)).2 ∧
      SameMemory symbol (checks.foldl evaluateCondition (a, log)).1
        (checks.foldl evaluateCondition (b, log)).1 := by
  induction checks generalizing a b log with
  | nil => exact ⟨rfl, memory⟩
  | cons check rest ih =>
    obtain rfl := own check List.mem_cons_self
    obtain ⟨fired, memory⟩ := @evaluateCondition_same check a b log memory
    rw [List.foldl_cons, List.foldl_cons, ← Prod.mk.eta (p := evaluateCondition (a, log) check),
      ← Prod.mk.eta (p := evaluateCondition (b, log) check), fired]
    exact ih (fun c hc => own c (List.mem_cons_of_mem check hc)) memory

/-- `evaluate` for a symbol fires alike on detectors that agree about it. -/
theorem evaluate_same {call : Call} {a b : SignalDetector}
    (conditions : a.conditions = b.conditions)
    (memory : SameMemory call.symbol a b) :
    (a.evaluate call).2 = (b.evaluate call).2 ∧
      SameMemory call.symbol (a.evaluate call).1 (b.evaluate call).1 := by
  unfold SignalDetector.evaluate
  rw [conditions]
  exact foldl_evaluateCondition_same _ (SignalDetector.checks_symbol _ call) memory

theorem foldl_evaluateCondition_other {symbol : Symbol} (checks : List Check)
    (other : ∀ check ∈ checks, check.symbol ≠ symbol) (state : SignalDetector × List Firing) :
    SameMemory symbol (checks.foldl evaluateCondition state).1 state.1 := by
  induction checks generalizing state with
  | nil => exact fun _ => rfl
  | cons check rest ih =>
    intro type
    have later := ih (fun c hc => other c (List.mem_cons_of_mem check hc))
      (evaluateCondition state check) type
    exact later.trans (evaluateCondition_other (other check List.mem_cons_self) state type)

/-- `evaluate` for another symbol leaves the memory of a symbol alone. -/
theorem evaluate_other {call : Call} {symbol : Symbol} (other : call.symbol ≠ symbol)
    (detector : SignalDetector) : SameMemory symbol (detector.evaluate call).1 detector := by
  apply foldl_evaluateCondition_other
  intro check mem
  rw [SignalDetector.checks_symbol _ call check mem]
  exact other

/-! ## Two engines that agree about a symbol -/

/-- The two engines hold the same of one symbol. -/
structure Agree (symbol : Symbol) (a b : ProcessingThread) : Prop where
  state : a.states.lookup symbol = b.states.lookup symbol
  memory : SameMemory symbol a.signalDetector b.signalDetector
  conditions : a.signalDetector.conditions = b.signalDetector.conditions

theorem agree_create (symbol : Symbol) (conditions : List SignalCondition)
    (recorder recorder' : Option DiskLogger) :
    Agree symbol (create conditions recorder) (create conditions recorder') :=
  ⟨rfl, fun _ => rfl, rfl⟩

@[simp] theorem publish_states (engine : ProcessingThread) (firings : List Firing) :
    (publish engine firings).states = engine.states := by
  simp only [publish, foldl_callback]
  rfl

@[simp] theorem publish_signalDetector (engine : ProcessingThread) (firings : List Firing) :
    (publish engine firings).signalDetector = engine.signalDetector := by
  simp only [publish, foldl_callback]
  rfl

theorem Agree.publish {symbol : Symbol} {a b : ProcessingThread} (agree : Agree symbol a b)
    (firings firings' : List Firing) :
    Agree symbol (publish a firings) (publish b firings') where
  state := by simpa using agree.state
  memory := by simpa using agree.memory
  conditions := by simpa using agree.conditions

/-- Engines that agree about the symbol of a message handle it alike. -/
theorem handle_agree {msg : Message} {a b a' : ProcessingThread} {firings : List Firing}
    (agree : Agree msg.2.symbol a b) (handled : handle a msg = some (a', firings)) :
    ∃ b', handle b msg = some (b', firings) ∧ Agree msg.2.symbol a' b' := by
  obtain ⟨env, msg⟩ := msg
  have state : a.getOrCreateState msg.symbol = b.getOrCreateState msg.symbol := by
    simp only [getOrCreateState, agree.state]
  cases msg with
  | trade trade =>
    obtain ⟨updated, hupdated, rfl, rfl⟩ := handle_trade.mp handled
    change a.getOrCreateState trade.symbol = b.getOrCreateState trade.symbol at state
    rw [state] at hupdated
    refine ⟨_, handle_trade.mpr ⟨updated, hupdated, rfl, rfl⟩, ?_, agree.memory, agree.conditions⟩
    simp [QueueMessage.symbol, state]
  | depthUpdate depth =>
    obtain ⟨advanced, hadvanced, rfl, rfl⟩ := handle_depthUpdate.mp handled
    change a.getOrCreateState depth.symbol = b.getOrCreateState depth.symbol at state
    rw [state] at hadvanced
    obtain ⟨fired, memory⟩ := @evaluate_same (depthCall env depth advanced) _ _ agree.conditions
      agree.memory
    rw [fired]
    refine ⟨_, handle_depthUpdate.mpr ⟨advanced, hadvanced, rfl, rfl⟩, ?_, memory, ?_⟩
    · simp [QueueMessage.symbol]
    · simp only [SignalDetector.evaluate_conditions, agree.conditions]

/-- A message leaves everything of another symbol as it was. -/
theorem handle_other {msg : Message} {engine next : ProcessingThread} {firings : List Firing}
    {symbol : Symbol} (other : msg.2.symbol ≠ symbol)
    (handled : handle engine msg = some (next, firings)) : Agree symbol next engine := by
  obtain ⟨env, msg⟩ := msg
  cases msg with
  | trade trade =>
    obtain ⟨updated, -, rfl, -⟩ := handle_trade.mp handled
    exact ⟨AList.lookup_insert_ne other.symm, fun _ => rfl, rfl⟩
  | depthUpdate depth =>
    obtain ⟨advanced, -, rfl, -⟩ := handle_depthUpdate.mp handled
    refine ⟨AList.lookup_insert_ne other.symm, ?_, SignalDetector.evaluate_conditions _ _⟩
    exact @evaluate_other (depthCall env depth advanced) symbol other _

/-- Whatever a message fires is for its own symbol. -/
theorem handle_symbol {msg : Message} {engine next : ProcessingThread} {firings : List Firing}
    (handled : handle engine msg = some (next, firings)) :
    ∀ firing ∈ firings, firing.signal.symbol = msg.2.symbol := by
  obtain ⟨env, msg⟩ := msg
  cases msg with
  | trade trade =>
    obtain ⟨updated, -, -, rfl⟩ := handle_trade.mp handled
    exact List.forall_mem_nil _
  | depthUpdate depth =>
    obtain ⟨advanced, -, -, rfl⟩ := handle_depthUpdate.mp handled
    exact SignalDetector.evaluate_symbol _ (depthCall env depth advanced)

/-! ## Runs -/

/-- A symbol's messages alone lead to the same of that symbol, and fire the same for it. -/
theorem runLog_alone {conditions : List SignalCondition} {recorder : Option DiskLogger}
    (recorder' : Option DiskLogger) (symbol : Symbol) {msgs : List Message}
    {engine : ProcessingThread} {log : List Signal}
    (run : runLog (create conditions recorder) msgs = some (engine, log)) :
    ∃ alone, runLog (create conditions recorder') (msgs.filter (fun m => m.2.symbol = symbol)) =
        some (alone, log.filter (fun signal => signal.symbol = symbol)) ∧
      Agree symbol engine alone := by
  induction msgs using List.reverseRecOn generalizing engine log with
  | nil =>
    cases run
    exact ⟨_, rfl, agree_create symbol conditions recorder recorder'⟩
  | append_singleton msgs msg ih =>
    obtain ⟨⟨mid, before⟩, ⟨next, firings⟩, hmid, handled, same⟩ := runLog_snoc.mp run
    cases same
    obtain ⟨alone, halone, agree⟩ := ih hmid
    have own := handle_symbol handled
    rw [List.filter_append, List.filter_append]
    by_cases here : msg.2.symbol = symbol
    · subst here
      obtain ⟨alone', handled', agree'⟩ := handle_agree agree handled
      refine ⟨publish alone' firings, ?_, agree'.publish firings firings⟩
      have kept : (firings.map Firing.signal).filter (fun s => s.symbol = msg.2.symbol) =
          firings.map Firing.signal := by
        apply List.filter_eq_self.mpr
        simpa using own
      have only : [msg].filter (fun m => m.2.symbol = msg.2.symbol) = [msg] := by simp
      rw [kept, only]
      apply runLog_snoc.mpr
      exact ⟨_, _, halone, handled', rfl⟩
    · have dropped : (firings.map Firing.signal).filter (fun s => s.symbol = symbol) = [] := by
        apply List.filter_eq_nil_iff.mpr
        rintro signal mem
        obtain ⟨firing, hfiring, rfl⟩ := List.mem_map.mp mem
        simpa [own firing hfiring] using here
      have quiet := handle_other here handled
      refine ⟨alone, by simpa [here, dropped] using halone, ?_⟩
      have published := quiet.publish firings []
      refine ⟨?_, fun type => ?_, ?_⟩
      · rw [publish_states, quiet.state, agree.state]
      · rw [publish_signalDetector, quiet.memory type, agree.memory type]
      · rw [publish_signalDetector, quiet.conditions, agree.conditions]

/-- A symbol has a state once a message of it was handled. -/
theorem lookup_isSome_iff {conditions : List SignalCondition} {recorder : Option DiskLogger}
    (symbol : Symbol) {msgs : List Message} {engine : ProcessingThread} {log : List Signal}
    (run : runLog (create conditions recorder) msgs = some (engine, log)) :
    (engine.states.lookup symbol).isSome ↔ ∃ msg ∈ msgs, msg.2.symbol = symbol := by
  induction msgs using List.reverseRecOn generalizing engine log with
  | nil =>
    cases run
    exact iff_of_false (by simp [create]) (by simp)
  | append_singleton msgs msg ih =>
    obtain ⟨⟨mid, before⟩, ⟨next, firings⟩, hmid, handled, same⟩ := runLog_snoc.mp run
    cases same
    rw [publish_states]
    by_cases here : msg.2.symbol = symbol
    · subst here
      refine iff_of_true ?_ ⟨msg, by simp, rfl⟩
      obtain ⟨env, msg⟩ := msg
      cases msg with
      | trade trade =>
        obtain ⟨updated, -, rfl, -⟩ := handle_trade.mp handled
        simp [QueueMessage.symbol]
      | depthUpdate depth =>
        obtain ⟨advanced, -, rfl, -⟩ := handle_depthUpdate.mp handled
        simp [QueueMessage.symbol]
    · rw [(handle_other here handled).state, ih hmid]
      simp [here]

/-- Some message of a symbol is in a sequence when one of its two streams is not empty. -/
theorem streams_eq_nil_iff (symbol : Symbol) (msgs : List Message) :
    (∃ msg ∈ msgs, msg.2.symbol = symbol) ↔
      depthsOf symbol msgs ≠ [] ∨ tradesOf symbol msgs ≠ [] := by
  induction msgs with
  | nil => simp [depthsOf, tradesOf]
  | cons msg rest ih =>
    obtain ⟨env, msg⟩ := msg
    simp only [List.exists_mem_cons_iff, ih]
    cases msg with
    | trade trade =>
      by_cases here : trade.symbol = symbol <;>
        simp [depthsOf, tradesOf, QueueMessage.symbol, here]
    | depthUpdate depth =>
      by_cases here : depth.symbol = symbol <;>
        simp [depthsOf, tradesOf, QueueMessage.symbol, here]

/-- A run only gets past messages with level counts inside their arrays. -/
theorem inBounds_of_runLog {engine last : ProcessingThread} {msgs : List Message}
    {log : List Signal} (run : runLog engine msgs = some (last, log)) :
    ∀ msg ∈ msgs, msg.2.InBounds := by
  induction msgs using List.reverseRecOn generalizing last log with
  | nil => exact List.forall_mem_nil _
  | append_singleton msgs msg ih =>
    obtain ⟨⟨mid, before⟩, ⟨next, firings⟩, hmid, handled, -⟩ := runLog_snoc.mp run
    intro m mem
    rcases List.mem_append.mp mem with earlier | now
    · exact ih hmid m earlier
    · obtain rfl := List.mem_singleton.mp now
      obtain ⟨env, msg⟩ := m
      cases msg with
      | trade trade => trivial
      | depthUpdate depth =>
        obtain ⟨advanced, hadvanced, -⟩ := handle_depthUpdate.mp handled
        by_contra outside
        have undefined := (OrderBook.applyUpdate_eq_none_iff
          (mid.getOrCreateState depth.symbol).book (depth.map Double.toRat)).mpr outside
        simp [advanceState, undefined] at hadvanced

theorem depth_mem_depthsOf {symbol : Symbol} {msgs : List Message} {update : DepthUpdate ℚ} :
    update ∈ depthsOf symbol msgs ↔
      ∃ env depth, (env, QueueMessage.depthUpdate depth) ∈ msgs ∧ depth.symbol = symbol ∧
        depth.map Double.toRat = update := by
  rw [depthsOf, List.mem_filterMap]
  constructor
  · rintro ⟨⟨env, msg⟩, mem, found⟩
    cases msg with
    | trade trade => cases found
    | depthUpdate depth =>
      simp only [Option.ite_none_right_eq_some, Option.some.injEq] at found
      exact ⟨env, depth, mem, found⟩
  · rintro ⟨env, depth, mem, own, rfl⟩
    exact ⟨(env, .depthUpdate depth), mem, if_pos own⟩

/-- The depth updates of a sequence decide whether it stays inside its arrays. -/
theorem inBounds_of_depths {conditions : List SignalCondition} {recorder : Option DiskLogger}
    {msgs msgs' : List Message} {engine : ProcessingThread} {log : List Signal}
    (run : runLog (create conditions recorder) msgs = some (engine, log))
    (depths : ∀ symbol, depthsOf symbol msgs' = depthsOf symbol msgs) :
    ∀ msg ∈ msgs', msg.2.InBounds := by
  rintro ⟨env, msg⟩ mem
  cases msg with
  | trade trade => trivial
  | depthUpdate depth =>
    have there := depth_mem_depthsOf.mpr ⟨env, depth, mem, rfl, rfl⟩
    rw [depths] at there
    obtain ⟨env', depth', mem', -, same⟩ := depth_mem_depthsOf.mp there
    have inside : depth'.InBounds := inBounds_of_runLog run _ mem'
    rw [← DepthUpdate.map_inBounds Double.toRat, same, DepthUpdate.map_inBounds] at inside
    exact inside

/-- Sequences with the same streams are handled alike up to their interleaving. -/
theorem same_states (conditions : List SignalCondition) (recorder : Option DiskLogger)
    {msgs msgs' : List Message} {engine : ProcessingThread} {log : List Signal}
    (run : runLog (create conditions recorder) msgs = some (engine, log))
    (depths : ∀ symbol, depthsOf symbol msgs' = depthsOf symbol msgs)
    (trades : ∀ symbol, tradesOf symbol msgs' = tradesOf symbol msgs) :
    ∃ engine' log', runLog (create conditions recorder) msgs' = some (engine', log') ∧
      ∀ symbol, engine'.states.lookup symbol = engine.states.lookup symbol := by
  obtain ⟨engine', run', -⟩ := processAll_isSome conditions recorder
    (inBounds_of_depths run depths)
  obtain ⟨log', run'⟩ := exists_runLog run'
  refine ⟨engine', log', run', fun symbol => ?_⟩
  have books := book_of_depths conditions recorder symbol msgs (processAll_of_runLog run)
  have books' := book_of_depths conditions recorder symbol msgs' (processAll_of_runLog run')
  have stats := tradeAggregator_of_trades conditions recorder symbol msgs (processAll_of_runLog run)
  have stats' := tradeAggregator_of_trades conditions recorder symbol msgs'
    (processAll_of_runLog run')
  rw [depths symbol, books] at books'
  rw [trades symbol, stats] at stats'
  have known := (lookup_isSome_iff symbol run).trans (streams_eq_nil_iff symbol msgs)
  have known' := (lookup_isSome_iff symbol run').trans (streams_eq_nil_iff symbol msgs')
  rw [depths symbol, trades symbol, ← known] at known'
  simp only [getOrCreateState, Option.some.injEq] at books' stats'
  cases found : engine.states.lookup symbol with
  | none =>
    rw [found] at known'
    simpa using known'
  | some state =>
    rw [found] at known' books' stats'
    obtain ⟨state', found'⟩ := Option.isSome_iff_exists.mp (known'.mpr rfl)
    rw [found', Option.getD_some, Option.getD_some] at books' stats'
    obtain ⟨book, aggregator, tradeAggregator⟩ := state
    obtain ⟨book', aggregator', tradeAggregator'⟩ := state'
    cases books'
    cases stats'
    exact found'

/-- In every run, a symbol's book and statistics are a function of its depth updates, its
trade statistics one of its trades, and the signals fired for it are those of a run of its
messages alone. Interleavings with the same streams lead to the same table of states. -/
theorem isolated (conditions : List SignalCondition) (recorder : Option DiskLogger)
    {msgs : List Message} {engine : ProcessingThread} {log : List Signal}
    (run : runLog (create conditions recorder) msgs = some (engine, log)) :
    (∀ symbol,
      (depthsOf symbol msgs).foldlM advanceBook ({ symbol }, {}) =
          some (bookPart (engine.getOrCreateState symbol)) ∧
        (tradesOf symbol msgs).foldlM TradeAggregator.update {} =
          some (engine.getOrCreateState symbol).tradeAggregator ∧
        ∃ alone, runLog (create conditions recorder) (msgs.filter (fun m => m.2.symbol = symbol)) =
          some (alone, log.filter (fun signal => signal.symbol = symbol))) ∧
      ∀ msgs', (∀ symbol, depthsOf symbol msgs' = depthsOf symbol msgs ∧
          tradesOf symbol msgs' = tradesOf symbol msgs) →
        ∃ engine' log', runLog (create conditions recorder) msgs' = some (engine', log') ∧
          ∀ symbol, engine'.states.lookup symbol = engine.states.lookup symbol := by
  constructor
  · intro symbol
    have processed := processAll_of_runLog run
    obtain ⟨alone, halone, -⟩ := runLog_alone recorder symbol run
    exact ⟨book_of_depths conditions recorder symbol msgs processed,
      tradeAggregator_of_trades conditions recorder symbol msgs processed, alone, halone⟩
  · rintro msgs' streams
    exact same_states conditions recorder run (fun symbol => (streams symbol).1)
      (fun symbol => (streams symbol).2)

/-- A reading of the wall clock, with a recorder that works. -/
def readingAt (nowUs : UInt64) : MessageEnv :=
  { wallUs := fun _ => nowUs, write := DiskReader.sampleWrite.2 }

/-- The update of `sampleWrite` for a symbol, with its spread of 4. -/
def spreadFour (symbol : Symbol) : QueueMessage Double :=
  .depthUpdate { DiskReader.sampleWrite.1 with symbol }

def oneTrade : QueueMessage Double :=
  .trade {
    eventTimeMs := 1000
    tradeId := 1
    symbol := [66]
    price := ⟨0x3FF8000000000000⟩
    quantity := ⟨0x3FF8000000000000⟩
    isBuyerMaker := false }

/-- Updates of two symbols and a trade of the second one, in turns. -/
def twoSymbols : List Message :=
  [(readingAt 0, spreadFour [65]), (readingAt 0, oneTrade), (readingAt 10, spreadFour [66]),
    (readingAt 20, spreadFour [65]), (readingAt 1000000, spreadFour [65])]

/-- The same streams, the trade first and the second symbol last. -/
def regrouped : List Message :=
  [(readingAt 0, oneTrade), (readingAt 0, spreadFour [65]), (readingAt 20, spreadFour [65]),
    (readingAt 1000000, spreadFour [65]), (readingAt 10, spreadFour [66])]

theorem regrouped_streams (symbol : Symbol) :
    depthsOf symbol regrouped = depthsOf symbol twoSymbols ∧
      tradesOf symbol regrouped = tradesOf symbol twoSymbols := by
  by_cases first : symbol = [65]
  · subst first
    exact ⟨rfl, rfl⟩
  · by_cases second : symbol = [66]
    · subst second
      exact ⟨rfl, rfl⟩
    · have first' : ¬ [65] = symbol := Ne.symm first
      have second' : ¬ [66] = symbol := Ne.symm second
      simp [depthsOf, tradesOf, regrouped, twoSymbols, spreadFour, oneTrade, first', second']

/-- The wide spread is signalled for each symbol, and the second update of the first one is
suppressed: alone and in the other order the symbols see the same. -/
theorem isolated_twoSymbols : ∃ engine log alone engine' log',
    runLog (create [{ type := .spreadWide, threshold := 1 }] none) twoSymbols =
        some (engine, log) ∧
      log.map (fun signal => (signal.symbol, signal.timestampUs)) =
        [([65], 0), ([66], 10), ([65], 1000000)] ∧
      runLog (create [{ type := .spreadWide, threshold := 1 }] none)
          (twoSymbols.filter (fun m => m.2.symbol = [66])) =
        some (alone, log.filter (fun signal => signal.symbol = [66])) ∧
      runLog (create [{ type := .spreadWide, threshold := 1 }] none) regrouped =
        some (engine', log') ∧
      ∀ symbol, engine'.states.lookup symbol = engine.states.lookup symbol := by
  have fires : (runLog (create [{ type := .spreadWide, threshold := 1 }] none) twoSymbols).map
      (fun run => run.2.map (fun signal => (signal.symbol, signal.timestampUs))) =
        some [([65], 0), ([66], 10), ([65], 1000000)] := by decide +kernel
  obtain ⟨⟨engine, log⟩, run, signals⟩ := Option.map_eq_some_iff.mp fires
  obtain ⟨streams, orders⟩ := isolated _ none run
  obtain ⟨-, -, alone, own⟩ := streams [66]
  obtain ⟨engine', log', other, same⟩ := orders regrouped regrouped_streams
  exact ⟨engine, log, alone, engine', log', run, signals, own, other, same⟩

end SymbolIsolation
