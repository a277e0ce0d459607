import MarketDataEngine.SymbolIsolation

/-!
# Snapshots for other threads

`take_snapshot` runs on other threads, between any two steps of `process`. The
processing thread takes `snapshot_mutex_` once for every signal it stores and once
to publish, so `process` is cut here at its counters and its critical sections.
The table of states, the detector and the recorder are touched by no other thread;
the handler works on them in one step.
-/

namespace SnapshotCuts

open MarketTypes Transition ProcessingThread SignalLog
open SignalDetector (Firing)

/-! ## The steps of `process` -/

/-- Where the processing thread is inside `process`. -/
inductive Pc where
  | idle
  | counted (msg : Message)
  | firing (rest : List Firing)
  | storing (firing : Firing) (rest : List Firing)

/-- `messages` and `taken` are histories: what was handed to `process`, and what the
calls of `take_snapshot` returned. -/
structure State where
  engine : ProcessingThread
  pc : Pc := .idle
  messages : List Message := []
  taken : List EngineSnapshot := []

inductive Action where
  | deliver (msg : Message)
  | step
  | takeSnapshot

/-- The next step of `process`; it ends in the critical section of `update_snapshot`. -/
def processStep (s : State) : Option State :=
  match s.pc with
  | .idle => none
  | .counted msg => (handleBody s.engine msg).map (fun handled =>
      { s with engine := handled.1, pc := .firing handled.2 })
  | .firing [] => some { s with engine := s.engine.updateSnapshot, pc := .idle }
  | .firing (firing :: rest) => some { s with
      engine := { s.engine with signalsFired := s.engine.signalsFired + 1 }
      pc := .storing firing rest }
  | .storing firing rest => some { s with
      engine := { s.engine with
        recentSignals := pushRecent s.engine.recentSignals firing.signal }
      pc := .firing rest }

def next (s : State) : Action → Option State
  | .deliver msg =>
    match s.pc with
    | .idle => some { s with
        engine := count s.engine
        pc := .counted msg
        messages := s.messages ++ [msg] }
    | _ => none
  | .step => processStep s
  | .takeSnapshot => some { s with taken := s.taken ++ [s.engine.snapshot] }

def machine (conditions : List SignalCondition) (recorder : Option DiskLogger) :
    Machine State Action where
  init := { engine := create conditions recorder }
  next := next

/-! ## What a snapshot has to say -/

/-- The prices of a symbol are those of the two sides it carries. -/
structure DerivedPrices (ss : SymbolSnapshot) : Prop where
  bestBid : ss.bestBid = (ss.bids.entries.head?.map Prod.fst).getD 0
  bestAsk : ss.bestAsk = (ss.asks.entries.head?.map Prod.fst).getD 0
  spread : ss.spread =
    if ss.bids.entries = [] ∨ ss.asks.entries = [] then 0 else ss.bestAsk - ss.bestBid
  midPrice : ss.midPrice =
    if ss.bids.entries = [] ∨ ss.asks.entries = [] then 0 else (ss.bestBid + ss.bestAsk) / 2

/-- A snapshot agrees with itself, with the messages it covers and with what they fired. -/
structure Consistent (snap : EngineSnapshot) (msgs : List Message) (log : List Signal) : Prop where
  processedCount : snap.processedCount = msgs.length
  balance : snap.processedCount =
    snap.tradesProcessed + (snap.symbols.map SymbolSnapshot.updateCount).sum
  once : (snap.symbols.map SymbolSnapshot.symbol).Nodup
  known : ∀ symbol, symbol ∈ snap.symbols.map SymbolSnapshot.symbol ↔
    ∃ msg ∈ msgs, msg.2.symbol = symbol
  prices : ∀ ss ∈ snap.symbols, DerivedPrices ss
  samples : ∀ ss ∈ snap.symbols, ss.aggregation.sampleCount = ss.updateCount
  signalsFired : snap.signalsFired = log.length
  recentSignals : snap.recentSignals = log.reverse.take maxRecentSignals

/-- The snapshot is what the engine shows after the first `k` messages, all of it
computed from them. -/
def Cut (conditions : List SignalCondition) (recorder : Option DiskLogger)
    (msgs : List Message) (snap : EngineSnapshot) (k : Nat) : Prop :=
  k ≤ msgs.length ∧ ∃ engine log,
    runLog (create conditions recorder) (msgs.take k) = some (engine, log) ∧
    snap = engine.updateSnapshot.snapshot ∧ Consistent snap (msgs.take k) log

/-! ## Counters between messages -/

/-- The updates of all books together. -/
def totalUpdates (states : AList (fun _ : Symbol => SymbolState)) : Nat :=
  (states.entries.map (fun entry => entry.2.book.updateCount)).sum

theorem totalUpdates_insert (states : AList (fun _ : Symbol => SymbolState)) (symbol : Symbol)
    (state : SymbolState) :
    totalUpdates (states.insert symbol state) +
        ((states.lookup symbol).getD { book := { symbol } }).book.updateCount =
      totalUpdates states + state.book.updateCount := by
  unfold totalUpdates
  rw [AList.entries_insert, List.map_cons, List.sum_cons]
  by_cases known : symbol ∈ states.entries.keys
  · obtain ⟨old, front, back, fresh, split, erased⟩ := List.exists_of_kerase known
    have found : states.lookup symbol = some old :=
      AList.mem_lookup_iff.mpr (split ▸ List.mem_append_right front List.mem_cons_self)
    rw [erased, found, split]
    simp only [List.map_append, List.map_cons, List.sum_append, List.sum_cons, Option.getD_some]
    omega
  · have absent : states.lookup symbol = none := List.dlookup_eq_none.mpr known
    rw [List.kerase_of_notMem_keys known, absent, Option.getD_none]
    change state.book.updateCount + _ + 0 = _
    omega

theorem mem_entries_insert {states : AList (fun _ : Symbol => SymbolState)} {symbol : Symbol}
    {state : SymbolState} {entry : Sigma (fun _ : Symbol => SymbolState)}
    (mem : entry ∈ (states.insert symbol state).entries) :
    entry = ⟨symbol, state⟩ ∨ entry ∈ states.entries := by
  rw [AList.entries_insert] at mem
  rcases List.mem_cons.mp mem with new | old
  · exact Or.inl new
  · exact Or.inr ((List.kerase_sublist symbol states.entries).subset old)

/-- One more signal in front of the newest fifty. -/
theorem pushRecent_take (log : List Signal) (signal : Signal) :
    pushRecent (log.reverse.take maxRecentSignals) signal =
      (log ++ [signal]).reverse.take maxRecentSignals := by
  rw [List.reverse_append, List.reverse_singleton, List.singleton_append]
  unfold pushRecent
  split_ifs with many
  · rw [List.length_cons, List.length_take] at many
    have enough : maxRecentSignals ≤ log.reverse.length := by omega
    rw [List.dropLast_eq_take, List.length_cons, List.length_take, Nat.min_eq_left enough]
    simp [maxRecentSignals, List.take_take]
  · rw [List.length_cons, List.length_take] at many
    have few : log.reverse.length < maxRecentSignals := by omega
    rw [List.take_of_length_le (Nat.le_of_lt few)]
    exact (List.take_of_length_le (by simpa using few)).symm

theorem foldl_pushRecent (log : List Signal) (firings : List Firing) :
    firings.foldl (fun recent f => pushRecent recent f.signal)
        (log.reverse.take maxRecentSignals) =
      (log ++ firings.map Firing.signal).reverse.take maxRecentSignals := by
  induction firings generalizing log with
  | nil => simp
  | cons firing rest ih =>
    rw [List.foldl_cons, pushRecent_take, ih]
    simp

/-- What the counters and the states of the engine say about the messages counted. -/
structure Counted (engine : ProcessingThread) (msgs : List Message) : Prop where
  processed : engine.processed = msgs.length
  balance : engine.processed = engine.tradesProcessed + totalUpdates engine.states
  samples : ∀ entry ∈ engine.states.entries,
    entry.2.aggregator.snapshot.sampleCount = entry.2.book.updateCount

/-- Between messages, signals and snapshot are up to date as well. -/
structure Balanced (engine : ProcessingThread) (msgs : List Message) (log : List Signal) : Prop
    extends Counted engine msgs where
  signalsFired : engine.signalsFired = log.length
  recentSignals : engine.recentSignals = log.reverse.take maxRecentSignals
  published : engine.snapshot = engine.updateSnapshot.snapshot

theorem samples_getOrCreateState {engine : ProcessingThread}
    (samples : ∀ entry ∈ engine.states.entries,
      entry.2.aggregator.snapshot.sampleCount = entry.2.book.updateCount) (symbol : Symbol) :
    (engine.getOrCreateState symbol).aggregator.snapshot.sampleCount =
      (engine.getOrCreateState symbol).book.updateCount := by
  unfold getOrCreateState
  cases found : engine.states.lookup symbol with
  | none => rfl
  | some state => exact samples _ (AList.mem_lookup_iff.mp found)

/-- A depth update counts once in its book and once in its aggregator. -/
theorem advanceState_counts {state state' : SymbolState} {depth : DepthUpdate ℚ}
    (advanced : advanceState state depth = some state') :
    state'.book.updateCount = state.book.updateCount + 1 ∧
      state'.aggregator.snapshot.sampleCount = state.aggregator.snapshot.sampleCount + 1 := by
  simp only [advanceState, OrderBook.applyUpdate, Aggregator.update, Option.bind_eq_bind,
    Option.bind_eq_some_iff, Option.pure_def, Option.some.injEq] at advanced
  obtain ⟨_, ⟨_, -, _, -, rfl⟩, _, ⟨_, -, _, -, rfl⟩, rfl⟩ := advanced
  exact ⟨rfl, rfl⟩

/-- One message is counted once, in its trades or in one of the books. -/
theorem counted_handle {engine next : ProcessingThread} {msgs : List Message} {msg : Message}
    {firings : List Firing} (counted : Counted engine msgs)
    (handled : handle engine msg = some (next, firings)) : Counted next (msgs ++ [msg]) := by
  have processed : engine.processed + 1 = (msgs ++ [msg]).length := by
    rw [counted.processed, List.length_append, List.length_singleton]
  have balance := counted.balance
  obtain ⟨env, msg⟩ := msg
  cases msg with
  | trade trade =>
    obtain ⟨tradeAggregator, -, rfl, -⟩ := handle_trade.mp handled
    refine ⟨processed, ?_, ?_⟩
    · have total := totalUpdates_insert engine.states trade.symbol
        { engine.getOrCreateState trade.symbol with tradeAggregator }
      simp only [getOrCreateState] at total ⊢
      omega
    · intro entry mem
      rcases mem_entries_insert mem with rfl | old
      · exact samples_getOrCreateState counted.samples trade.symbol
      · exact counted.samples entry old
  | depthUpdate depth =>
    obtain ⟨state, advanced, rfl, -⟩ := handle_depthUpdate.mp handled
    obtain ⟨updates, samples⟩ := advanceState_counts advanced
    refine ⟨processed, ?_, ?_⟩
    · have total := totalUpdates_insert engine.states depth.symbol state
      simp only [getOrCreateState] at total updates ⊢
      omega
    · intro entry mem
      rcases mem_entries_insert mem with rfl | old
      · rw [updates, samples, samples_getOrCreateState counted.samples depth.symbol]
      · exact counted.samples entry old

/-- A handler fires nothing by itself. -/
theorem handle_signals {engine next : ProcessingThread} {msg : Message} {firings : List Firing}
    (handled : handle engine msg = some (next, firings)) :
    next.signalsFired = engine.signalsFired ∧ next.recentSignals = engine.recentSignals ∧
      next.snapshot = engine.snapshot := by
  obtain ⟨env, msg⟩ := msg
  cases msg with
  | trade trade =>
    obtain ⟨tradeAggregator, -, rfl, -⟩ := handle_trade.mp handled
    exact ⟨rfl, rfl, rfl⟩
  | depthUpdate depth =>
    obtain ⟨state, -, rfl, -⟩ := handle_depthUpdate.mp handled
    exact ⟨rfl, rfl, rfl⟩

/-- The callbacks and the publication at the end of a message restore the balance. -/
theorem balanced_publish {engine next : ProcessingThread} {msgs : List Message}
    {log : List Signal} {msg : Message} {firings : List Firing}
    (balanced : Balanced engine msgs log) (handled : handle engine msg = some (next, firings)) :
    Balanced (publish next firings) (msgs ++ [msg]) (log ++ firings.map Firing.signal) := by
  obtain ⟨fired, recent, -⟩ := handle_signals handled
  have counted := counted_handle balanced.toCounted handled
  rw [publish, foldl_callback]
  refine ⟨⟨counted.processed, counted.balance, counted.samples⟩, ?_, ?_, rfl⟩
  · change next.signalsFired + firings.length = _
    rw [fired, balanced.signalsFired, List.length_append, List.length_map]
  · change firings.foldl (fun recent f => pushRecent recent f.signal) next.recentSignals = _
    rw [recent, balanced.recentSignals, foldl_pushRecent]

/-- The counters are balanced after every run. -/
theorem balanced_runLog {conditions : List SignalCondition} {recorder : Option DiskLogger}
    {msgs : List Message} {engine : ProcessingThread} {log : List Signal}
    (run : runLog (create conditions recorder) msgs = some (engine, log)) :
    Balanced engine msgs log := by
  induction msgs using List.reverseRecOn generalizing engine log with
  | nil =>
    cases run
    exact ⟨⟨rfl, rfl, List.forall_mem_nil _⟩, rfl, rfl, rfl⟩
  | append_singleton msgs msg ih =>
    obtain ⟨⟨mid, before⟩, ⟨next, firings⟩, hmid, handled, same⟩ := runLog_snoc.mp run
    cases same
    exact balanced_publish (ih hmid) handled

/-- After a run the engine shows a consistent snapshot, the one it has published. -/
theorem consistent_runLog {conditions : List SignalCondition} {recorder : Option DiskLogger}
    {msgs : List Message} {engine : ProcessingThread} {log : List Signal}
    (run : runLog (create conditions recorder) msgs = some (engine, log)) :
    Consistent engine.updateSnapshot.snapshot msgs log := by
  have balanced := balanced_runLog run
  have keys : engine.updateSnapshot.snapshot.symbols.map SymbolSnapshot.symbol =
      engine.states.entries.keys := by
    change (engine.states.entries.map _).map _ = engine.states.entries.map _
    rw [List.map_map]
    rfl
  refine ⟨balanced.processed, ?_, ?_, ?_, ?_, ?_, balanced.signalsFired, balanced.recentSignals⟩
  · change engine.processed =
      engine.tradesProcessed + ((engine.states.entries.map _).map SymbolSnapshot.updateCount).sum
    rw [List.map_map]
    exact balanced.balance
  · rw [keys]
    exact engine.states.nodupKeys
  · intro symbol
    rw [keys, ← List.dlookup_isSome]
    exact SymbolIsolation.lookup_isSome_iff symbol run
  · intro ss mem
    obtain ⟨entry, -, rfl⟩ := List.mem_map.mp mem
    exact ⟨rfl, rfl, rfl, rfl⟩
  · intro ss mem
    obtain ⟨entry, known, rfl⟩ := List.mem_map.mp mem
    exact balanced.samples entry known

/-! ## All interleavings -/

/-- How far the processing thread has come with the message after `done`. -/
def Standing (base : ProcessingThread) (done : List Message) (s : State) : Prop :=
  match s.pc with
  | .idle => s.messages = done ∧ s.engine = base
  | .counted msg => s.messages = done ++ [msg] ∧ s.engine = count base
  | .firing rest => ∃ msg handled fired, s.messages = done ++ [msg] ∧
      handle base msg = some (handled, fired ++ rest) ∧ s.engine = fired.foldl callback handled
  | .storing firing rest => ∃ msg handled fired, s.messages = done ++ [msg] ∧
      handle base msg = some (handled, fired ++ firing :: rest) ∧
      s.engine = { fired.foldl callback handled with
        signalsFired := (fired.foldl callback handled).signalsFired + 1 }

/-- Until the next publication the snapshot is that of the last whole message. -/
theorem Standing.snapshot {base : ProcessingThread} {done : List Message} {s : State}
    (standing : Standing base done s) :
    s.engine.snapshot = base.snapshot ∧ done <+: s.messages := by
  unfold Standing at standing
  split at standing
  · rw [standing.1, standing.2]
    exact ⟨rfl, List.prefix_rfl⟩
  · rw [standing.1, standing.2]
    exact ⟨rfl, List.prefix_append _ _⟩
  · obtain ⟨msg, handled, fired, messages, begun, engine⟩ := standing
    rw [messages, engine, foldl_callback]
    exact ⟨(handle_signals begun).2.2, List.prefix_append _ _⟩
  · obtain ⟨msg, handled, fired, messages, begun, engine⟩ := standing
    rw [messages, engine, foldl_callback]
    exact ⟨(handle_signals begun).2.2, List.prefix_append _ _⟩

/-- A step of `process` goes on with the message at hand or completes it. -/
theorem processStep_standing {base : ProcessingThread} {done : List Message} {s t : State}
    (standing : Standing base done s) (h : processStep s = some t) :
    t.messages = s.messages ∧ t.taken = s.taken ∧
      (Standing base done t ∨ ∃ msg handled firings, s.messages = done ++ [msg] ∧
        handle base msg = some (handled, firings) ∧
        Standing (publish handled firings) (done ++ [msg]) t) := by
  unfold processStep at h
  unfold Standing at standing
  split at h
  · cases h
  · rename_i msg pc
    rw [pc] at standing
    obtain ⟨⟨handled, firings⟩, body, rfl⟩ := Option.map_eq_some_iff.mp h
    refine ⟨rfl, rfl, Or.inl ⟨msg, handled, [], standing.1, ?_, rfl⟩⟩
    rw [handle, ← standing.2]
    exact body
  · rename_i pc
    rw [pc] at standing
    obtain ⟨msg, handled, fired, messages, begun, engine⟩ := standing
    rw [List.append_nil] at begun
    cases h
    refine ⟨rfl, rfl, Or.inr ⟨msg, handled, fired, messages, begun, messages, ?_⟩⟩
    rw [engine]
    rfl
  · rename_i firing rest pc
    rw [pc] at standing
    obtain ⟨msg, handled, fired, messages, begun, engine⟩ := standing
    cases h
    refine ⟨rfl, rfl, Or.inl ⟨msg, handled, fired, messages, begun, ?_⟩⟩
    rw [engine]
  · rename_i firing rest pc
    rw [pc] at standing
    obtain ⟨msg, handled, fired, messages, begun, engine⟩ := standing
    cases h
    refine ⟨rfl, rfl, Or.inl ⟨msg, handled, fired ++ [firing], messages, ?_, ?_⟩⟩
    · rw [List.append_assoc]
      exact begun
    · rw [List.foldl_append, engine]
      rfl

/-- Every snapshot taken so far is a cut, and none is earlier than the one before it. -/
def Published (conditions : List SignalCondition) (recorder : Option DiskLogger) (s : State) :
    Prop :=
  ∃ done base log, runLog (create conditions recorder) done = some (base, log) ∧
    Standing base done s ∧ ∃ ks : List Nat, ks.Pairwise (fun a b => a ≤ b) ∧
      (∀ k ∈ ks, k ≤ done.length) ∧
      List.Forall₂ (Cut conditions recorder s.messages) s.taken ks

theorem Cut.later {conditions : List SignalCondition} {recorder : Option DiskLogger}
    {msgs : List Message} {snap : EngineSnapshot} {k : Nat}
    (cut : Cut conditions recorder msgs snap k) (msg : Message) :
    Cut conditions recorder (msgs ++ [msg]) snap k := by
  obtain ⟨within, engine, log, run, same, consistent⟩ := cut
  have take : (msgs ++ [msg]).take k = msgs.take k := List.take_append_of_le_length within
  refine ⟨?_, engine, log, ?_, same, ?_⟩
  · rw [List.length_append]
    omega
  · rw [take, run]
  · rw [take]
    exact consistent

/-- A snapshot taken now shows the messages completed so far. -/
theorem Standing.cut {conditions : List SignalCondition} {recorder : Option DiskLogger}
    {base : ProcessingThread} {done : List Message} {log : List Signal} {s : State}
    (standing : Standing base done s)
    (run : runLog (create conditions recorder) done = some (base, log)) :
    Cut conditions recorder s.messages s.engine.snapshot done.length := by
  obtain ⟨published, front⟩ := standing.snapshot
  rw [Cut, ← List.prefix_iff_eq_take.mp front, published, (balanced_runLog run).published]
  exact ⟨front.length_le, base, log, run, rfl, consistent_runLog run⟩

theorem reachable_published {conditions : List SignalCondition} {recorder : Option DiskLogger}
    {s : State} (reached : (machine conditions recorder).Reachable s) :
    Published conditions recorder s := by
  refine Machine.invariant (machine conditions recorder) (Published conditions recorder)
    ?_ ?_ reached
  · exact ⟨[], _, [], rfl, ⟨rfl, rfl⟩, [], List.Pairwise.nil, List.forall_mem_nil _,
      List.Forall₂.nil⟩
  · rintro s a t - ⟨done, base, log, run, standing, ks, ordered, bounded, cuts⟩ h
    cases a with
    | deliver msg =>
      change (match s.pc with | .idle => _ | _ => _) = some t at h
      split at h
      · rename_i pc
        unfold Standing at standing
        rw [pc] at standing
        cases h
        refine ⟨done, base, log, run, ?_, ks, ordered, bounded, ?_⟩
        · exact ⟨by rw [standing.1], by rw [standing.2]⟩
        · exact cuts.imp (fun snap k cut => cut.later msg)
      · cases h
    | step =>
      obtain ⟨messages, taken, same | ⟨msg, handled, firings, begun, handles, completed⟩⟩ :=
        processStep_standing standing h
      · refine ⟨done, base, log, run, same, ks, ordered, bounded, ?_⟩
        rw [messages, taken]
        exact cuts
      · refine ⟨done ++ [msg], _, _, runLog_snoc.mpr ⟨_, _, run, handles, rfl⟩, completed, ks,
          ordered, ?_, ?_⟩
        · intro k mem
          rw [List.length_append]
          exact Nat.le_add_right_of_le (bounded k mem)
        · rw [messages, taken]
          exact cuts
    | takeSnapshot =>
      cases h
      refine ⟨done, base, log, run, standing, ks ++ [done.length], ?_, ?_, ?_⟩
      · apply List.pairwise_append.mpr
        refine ⟨ordered, List.pairwise_singleton _ _, ?_⟩
        rintro k mem last hlast
        obtain rfl := List.mem_singleton.mp hlast
        exact bounded k mem
      · rintro k mem
        rcases List.mem_append.mp mem with earlier | now
        · exact bounded k earlier
        · exact le_of_eq (List.mem_singleton.mp now)
      · exact List.rel_append cuts (List.Forall₂.cons (standing.cut run) List.Forall₂.nil)

/-- In every interleaving, each call of `take_snapshot` returns what the engine shows
after some whole number of messages, never fewer than before: counters, symbols, prices
and signals all belong to these messages. -/
theorem snapshots_consistent (conditions : List SignalCondition) (recorder : Option DiskLogger)
    {s : State} (reached : (machine conditions recorder).Reachable s) :
    ∃ ks : List Nat, ks.Pairwise (fun a b => a ≤ b) ∧
      List.Forall₂ (Cut conditions recorder s.messages) s.taken ks := by
  obtain ⟨-, -, -, -, -, ks, ordered, -, cuts⟩ := reachable_published reached
  exact ⟨ks, ordered, cuts⟩

/-- A cut knows how many messages it covers. -/
theorem Cut.processedCount {conditions : List SignalCondition} {recorder : Option DiskLogger}
    {msgs : List Message} {snap : EngineSnapshot} {k : Nat}
    (cut : Cut conditions recorder msgs snap k) : snap.processedCount = k := by
  obtain ⟨within, _, _, -, -, consistent⟩ := cut
  rw [consistent.processedCount, List.length_take_of_le within]

/-- An update is processed and fires, and a trade behind it. The first snapshot is taken
between the handling of the update and its signal, the second one behind the trade. -/
def cutSchedule : List Action :=
  [.deliver (SymbolIsolation.readingAt 7, SymbolIsolation.spreadFour [66]), .step, .takeSnapshot,
    .step, .step, .step, .deliver (SymbolIsolation.readingAt 8, SymbolIsolation.oneTrade), .step,
    .step, .takeSnapshot]

/-- The first snapshot covers no message, the second one both, with the signal and the trade. -/
theorem snapshots_consistent_early : ∃ s first second,
    (machine [{ type := .spreadWide, threshold := 1 }] none).run
        (machine [{ type := .spreadWide, threshold := 1 }] none).init cutSchedule = some s ∧
      s.taken = [first, second] ∧
      Cut [{ type := .spreadWide, threshold := 1 }] none s.messages first 0 ∧
      Cut [{ type := .spreadWide, threshold := 1 }] none s.messages second 2 ∧
      second.signalsFired = 1 ∧ second.tradesProcessed = 1 := by
  have ends : ((machine [{ type := .spreadWide, threshold := 1 }] none).run
      (machine [{ type := .spreadWide, threshold := 1 }] none).init cutSchedule).map
        (fun s => s.taken.map (fun snap =>
          (snap.processedCount, snap.signalsFired, snap.tradesProcessed))) =
      some [(0, 0, 0), (2, 1, 1)] := by decide +kernel
  obtain ⟨s, run, shown⟩ := Option.map_eq_some_iff.mp ends
  obtain ⟨first, rest, taken, early, shown⟩ := List.map_eq_cons_iff.mp shown
  obtain ⟨second, rest, rfl, late, shown⟩ := List.map_eq_cons_iff.mp shown
  obtain rfl := List.map_eq_nil_iff.mp shown
  simp only [Prod.mk.injEq] at early late
  obtain ⟨ks, -, cuts⟩ := snapshots_consistent _ none ⟨cutSchedule, run⟩
  rw [taken] at cuts
  obtain ⟨k, ks, cut, others, rfl⟩ := List.forall₂_cons_left_iff.mp cuts
  obtain ⟨k', ks, cut', -, rfl⟩ := List.forall₂_cons_left_iff.mp others
  obtain rfl : k = 0 := cut.processedCount.symm.trans early.1
  obtain rfl : k' = 2 := cut'.processedCount.symm.trans late.1
  exact ⟨s, first, second, run, taken, cut, cut', late.2⟩

end SnapshotCuts
