import MarketDataEngine.ReplayControl
import MarketDataEngine.SnapshotCuts
import MarketDataEngine.WireFormat

/-!
# The statistics that are published

`build_stats_json` of `main.cpp`, which the dashboard and the HTTP server show. The value is
built from what its caller reads off the program; the fields stand in the order in which
they are assigned. `dump`, which writes the value down, is left out, and the text of a
floating-point number is a parameter.
-/

namespace StatsJson

open WireFormat (decimal)

/-- `signal_type_name`. -/
def signalTypeName : SignalType → List UInt8
  | .spreadWide => ascii "SPREAD_WIDE"
  | .spreadNarrow => ascii "SPREAD_NARROW"
  | .imbalanceBid => ascii "IMBALANCE_BID"
  | .imbalanceAsk => ascii "IMBALANCE_ASK"
  | .priceDeviation => ascii "PRICE_DEVIATION"
  | .tradeImbalanceBuy => ascii "TRADE_IMBALANCE_BUY"
  | .tradeImbalanceSell => ascii "TRADE_IMBALANCE_SELL"
  | .volumeSpike => ascii "VOLUME_SPIKE"
  | .bookPressureBid => ascii "BOOK_PRESSURE_BID"
  | .bookPressureAsk => ascii "BOOK_PRESSURE_ASK"

/-- The counters of a feed handler. -/
structure FeedCounts where
  received : Nat
  parseErrors : Nat
  queueFull : Nat

/-- What a replay engine says of itself. -/
structure ReplayStatus where
  replayed : Nat
  total : Nat
  finished : Bool
  paused : Bool
  speed : ReplayEngine.PlaybackSpeed

/-- What is read off the program; a feed handler, a replay engine and a recorder need not be
there. -/
structure Readings where
  snapshot : EngineSnapshot
  uptimeS : Int
  queueDepth : Nat
  feed : Option FeedCounts
  replay : Option ReplayStatus
  records : Option Nat

def natural (n : Nat) : Json := .number (decimal n)

def integer : Int → Json
  | .ofNat n => natural n
  | .negSucc n => .number (45 :: decimal (n + 1))

section Builder
variable (real : ℚ → List UInt8)

def double (x : ℚ) : Json := .number (real x)

def levelJson (entry : ℚ × ℚ) : Json := .object [
  (ascii "price", double real entry.1),
  (ascii "qty", double real entry.2)]

/-- `if (++count > 20) break;` in the loop over the levels of a side. -/
def levelLoop : Nat → List (ℚ × ℚ) → List Json
  | _, [] => []
  | count, entry :: rest =>
    if count + 1 > 20 then [] else levelJson real entry :: levelLoop (count + 1) rest

def symbolJson (sym : SymbolSnapshot) : Json := .object [
  (ascii "symbol", .string sym.symbol),
  (ascii "best_bid", double real sym.bestBid),
  (ascii "best_ask", double real sym.bestAsk),
  (ascii "spread", double real sym.spread),
  (ascii "mid_price", double real sym.midPrice),
  (ascii "update_count", natural sym.updateCount),
  (ascii "aggregation", .object [
    (ascii "bid_vwap", double real sym.aggregation.bidVwap),
    (ascii "ask_vwap", double real sym.aggregation.askVwap),
    (ascii "mid_price_sma", double real sym.aggregation.midPriceSma),
    (ascii "spread_sma", double real sym.aggregation.spreadSma),
    (ascii "bid_ask_imbalance", double real sym.aggregation.bidAskImbalance)]),
  (ascii "bids", .array (levelLoop real 0 sym.bids.entries)),
  (ascii "asks", .array (levelLoop real 0 sym.asks.entries))]

def signalJson (sig : Signal) : Json := .object [
  (ascii "type", .string (signalTypeName sig.type)),
  (ascii "symbol", .string sig.symbol),
  (ascii "value", double real sig.value),
  (ascii "threshold", double real sig.threshold),
  (ascii "timestamp_us", natural sig.timestampUs.toNat)]

def feedJson (feed : FeedCounts) : Json := .object [
  (ascii "received", natural feed.received),
  (ascii "parse_errors", natural feed.parseErrors),
  (ascii "queue_full", natural feed.queueFull)]

def replayJson (replay : ReplayStatus) : Json := .object [
  (ascii "replayed", natural replay.replayed),
  (ascii "total", natural replay.total),
  (ascii "finished", .bool replay.finished),
  (ascii "paused", .bool replay.paused),
  (ascii "speed", .string (ReplayControl.speedStr replay.speed))]

def buildStatsJson (r : Readings) : Json := .object (
  [(ascii "uptime_s", integer r.uptimeS),
    (ascii "mode", .string (if r.replay.isSome then ascii "replay" else ascii "live")),
    (ascii "processed", natural r.snapshot.processedCount),
    (ascii "trades_processed", natural r.snapshot.tradesProcessed),
    (ascii "signals_fired", natural r.snapshot.signalsFired),
    (ascii "queue_depth", natural r.queueDepth),
    (ascii "latency", .object [
      (ascii "parse_us", integer r.snapshot.lastParseUs),
      (ascii "queue_us", integer r.snapshot.lastQueueUs),
      (ascii "total_us", integer r.snapshot.lastTotalUs)])] ++
  (r.feed.map (fun feed => (ascii "feed", feedJson feed))).toList ++
  (r.replay.map (fun replay => (ascii "replay", replayJson replay))).toList ++
  (r.records.map (fun n =>
    (ascii "recording", .object [(ascii "records", natural n)]))).toList ++
  [(ascii "recent_signals", .array (r.snapshot.recentSignals.map (signalJson real))),
    (ascii "symbols", .array (r.snapshot.symbols.map (symbolJson real)))])

end Builder

/-! ## Reading the value -/

variable {real : ℚ → List UInt8} {r : Readings}

/-- The counters at the top of the value. -/
theorem field_counts (real : ℚ → List UInt8) (r : Readings) :
    (buildStatsJson real r).field? (ascii "processed") =
        some (natural r.snapshot.processedCount) ∧
      (buildStatsJson real r).field? (ascii "trades_processed") =
        some (natural r.snapshot.tradesProcessed) ∧
      (buildStatsJson real r).field? (ascii "signals_fired") =
        some (natural r.snapshot.signalsFired) ∧
      (buildStatsJson real r).field? (ascii "queue_depth") = some (natural r.queueDepth) :=
  ⟨rfl, rfl, rfl, rfl⟩

/-- What is there in both modes is found behind what is there in one of them. -/
theorem field_lists (real : ℚ → List UInt8) (r : Readings) :
    (buildStatsJson real r).field? (ascii "recent_signals") =
        some (.array (r.snapshot.recentSignals.map (signalJson real))) ∧
      (buildStatsJson real r).field? (ascii "symbols") =
        some (.array (r.snapshot.symbols.map (symbolJson real))) := by
  obtain ⟨snapshot, uptimeS, queueDepth, feed, replay, records⟩ := r
  cases feed <;> cases replay <;> cases records <;> exact ⟨rfl, rfl⟩

theorem field_feed (real : ℚ → List UInt8) (r : Readings) :
    (buildStatsJson real r).field? (ascii "feed") = r.feed.map feedJson := by
  obtain ⟨snapshot, uptimeS, queueDepth, feed, replay, records⟩ := r
  cases feed <;> cases replay <;> cases records <;> rfl

theorem field_replay (real : ℚ → List UInt8) (r : Readings) :
    (buildStatsJson real r).field? (ascii "replay") = r.replay.map replayJson := by
  obtain ⟨snapshot, uptimeS, queueDepth, feed, replay, records⟩ := r
  cases feed <;> cases replay <;> cases records <;> rfl

/-- The loop over a side stops behind the twentieth level. -/
theorem levelLoop_eq (real : ℚ → List UInt8) (count : Nat) (entries : List (ℚ × ℚ)) :
    levelLoop real count entries = (entries.take (20 - count)).map (levelJson real) := by
  induction entries generalizing count with
  | nil => simp [levelLoop]
  | cons entry rest ih =>
    rw [levelLoop, ih]
    split_ifs with past
    · rw [Nat.sub_eq_zero_of_le (by omega)]
      rfl
    · have room : 20 - count = 20 - (count + 1) + 1 := by omega
      rw [room, List.take_succ_cons, List.map_cons]

/-! ## What is shown of a symbol -/

/-- The best levels of the two sides, at most twenty, and the prices that go with them. -/
structure ShowsBook (real : ℚ → List UInt8) (sym : Json) (bids asks : List (ℚ × ℚ)) : Prop where
  bidList : sym.field? (ascii "bids") = some (.array (bids.map (levelJson real)))
  askList : sym.field? (ascii "asks") = some (.array (asks.map (levelJson real)))
  few : bids.length ≤ 20 ∧ asks.length ≤ 20
  falling : bids.Pairwise (fun a b => a.1 > b.1)
  rising : asks.Pairwise (fun a b => a.1 < b.1)
  bestBid : sym.field? (ascii "best_bid") =
    some (double real ((bids.head?.map Prod.fst).getD 0))
  bestAsk : sym.field? (ascii "best_ask") =
    some (double real ((asks.head?.map Prod.fst).getD 0))
  prices : ∀ bid ∈ bids.head?, ∀ ask ∈ asks.head?,
    sym.field? (ascii "spread") = some (double real (ask.1 - bid.1)) ∧
    sym.field? (ascii "mid_price") = some (double real ((bid.1 + ask.1) / 2))

theorem head?_take_twenty (entries : List (ℚ × ℚ)) : (entries.take 20).head? = entries.head? := by
  cases entries <;> rfl

theorem showsBook (real : ℚ → List UInt8) {sym : SymbolSnapshot}
    (derived : SnapshotCuts.DerivedPrices sym) :
    ShowsBook real (symbolJson real sym) (sym.bids.entries.take 20)
      (sym.asks.entries.take 20) := by
  have loops : ∀ entries : List (ℚ × ℚ),
      levelLoop real 0 entries = (entries.take 20).map (levelJson real) :=
    fun entries => levelLoop_eq real 0 entries
  constructor
  case bidList =>
    rw [← loops]
    rfl
  case askList =>
    rw [← loops]
    rfl
  case few => exact ⟨List.length_take_le _ _, List.length_take_le _ _⟩
  case falling => exact sym.bids.sorted.sublist (List.take_sublist _ _)
  case rising => exact sym.asks.sorted.sublist (List.take_sublist _ _)
  case bestBid =>
    rw [head?_take_twenty, ← derived.bestBid]
    rfl
  case bestAsk =>
    rw [head?_take_twenty, ← derived.bestAsk]
    rfl
  case prices =>
    rw [head?_take_twenty, head?_take_twenty]
    intro bid hasBid ask hasAsk
    have bestBid := derived.bestBid
    have bestAsk := derived.bestAsk
    rw [Option.mem_def.mp hasBid] at bestBid
    rw [Option.mem_def.mp hasAsk] at bestAsk
    have both : ¬ (sym.bids.entries = [] ∨ sym.asks.entries = []) := by
      rintro (none | none)
      · simp [none] at hasBid
      · simp [none] at hasAsk
    have spread := derived.spread
    have midPrice := derived.midPrice
    rw [if_neg both, bestBid, bestAsk] at spread midPrice
    have shown : (symbolJson real sym).field? (ascii "spread") = some (double real sym.spread) ∧
        (symbolJson real sym).field? (ascii "mid_price") = some (double real sym.midPrice) :=
      ⟨rfl, rfl⟩
    rwa [spread, midPrice] at shown

/-- Whatever snapshot `build_stats_json` got while the processing thread was at work, what it
publishes is the state after some of the messages, and agrees with itself: these messages are
the trades and the updates of the books, the newest fifty signals are there, no symbol comes
twice, and each shows the best levels of its book in order, with the prices that go with
them. -/
theorem stats_coherent (conditions : List SignalCondition) (recorder : Option DiskLogger)
    (real : ℚ → List UInt8) {s : SnapshotCuts.State}
    (reached : (SnapshotCuts.machine conditions recorder).Reachable s) (r : Readings)
    (taken : r.snapshot ∈ s.taken) :
    ∃ k engine log, k ≤ s.messages.length ∧
      SignalLog.runLog (.create conditions recorder) (s.messages.take k) = some (engine, log) ∧
    ∃ trades : Nat, ∃ recent symbols : List Json, ∃ updates : List Nat,
      (buildStatsJson real r).field? (ascii "processed") = some (natural k) ∧
      (buildStatsJson real r).field? (ascii "trades_processed") = some (natural trades) ∧
      (buildStatsJson real r).field? (ascii "signals_fired") = some (natural log.length) ∧
      (buildStatsJson real r).field? (ascii "recent_signals") = some (.array recent) ∧
      (buildStatsJson real r).field? (ascii "symbols") = some (.array symbols) ∧
      symbols.map (Json.field? (ascii "update_count")) =
        updates.map (fun n => some (natural n)) ∧
      k = trades + updates.sum ∧
      recent = (log.reverse.take 50).map (signalJson real) ∧
      (symbols.map (Json.field? (ascii "symbol"))).Nodup ∧
      ∀ sym ∈ symbols, ∃ name state, engine.states.lookup name = some state ∧
        sym.field? (ascii "symbol") = some (.string name) ∧
        ShowsBook real sym (state.book.bids.entries.take 20) (state.book.asks.entries.take 20) := by
  obtain ⟨done, base, log, -, -, ks, -, -, cuts⟩ := SnapshotCuts.reachable_published reached
  obtain ⟨k, -, cut⟩ : ∃ k ∈ ks, SnapshotCuts.Cut conditions recorder s.messages r.snapshot k := by
    obtain ⟨i, inside, same⟩ := List.mem_iff_getElem.mp taken
    have within : i < ks.length := cuts.length_eq ▸ inside
    refine ⟨ks[i], List.getElem_mem within, ?_⟩
    rw [← same]
    exact cuts.get inside within
  obtain ⟨enough, engine, log, run, same, consistent⟩ := cut
  obtain ⟨processed, trades, fired, -⟩ := field_counts real r
  obtain ⟨recent, symbols⟩ := field_lists real r
  have count : r.snapshot.processedCount = k := by
    rw [consistent.processedCount, List.length_take_of_le enough]
  have balance := consistent.balance
  rw [count] at processed balance
  rw [consistent.signalsFired] at fired
  refine ⟨k, engine, log, enough, run, _, _, _, r.snapshot.symbols.map SymbolSnapshot.updateCount,
    processed, trades, fired, recent, symbols, ?_, balance, ?_, ?_, ?_⟩
  · rw [List.map_map, List.map_map]
    rfl
  · rw [consistent.recentSignals]
    rfl
  · have names : (r.snapshot.symbols.map (symbolJson real)).map (Json.field? (ascii "symbol")) =
        (r.snapshot.symbols.map SymbolSnapshot.symbol).map (fun name => some (.string name)) := by
      rw [List.map_map, List.map_map]
      rfl
    rw [names]
    refine consistent.once.map ?_
    intro a b same
    cases same
    rfl
  · intro sym mem
    obtain ⟨shown, known, rfl⟩ := List.mem_map.mp mem
    have derived := consistent.prices shown known
    rw [same] at known
    obtain ⟨entry, inside, rfl⟩ := List.mem_map.mp known
    exact ⟨entry.1, entry.2, AList.mem_lookup_iff.mpr inside, rfl, showsBook real derived⟩

/-- The update of `sampleWrite` is processed, and a snapshot is taken behind it. -/
def sampleActions : List SnapshotCuts.Action :=
  [.deliver (SymbolIsolation.readingAt 0, .depthUpdate DiskReader.sampleWrite.1), .step, .step,
    .takeSnapshot]

theorem stats_coherent_sampleWrite : ∃ s r symbols, ∃ sym : Json,
    (SnapshotCuts.machine [] none).run (SnapshotCuts.machine [] none).init sampleActions =
      some s ∧
    (buildStatsJson (fun _ => []) r).field? (ascii "symbols") = some (.array symbols) ∧
    r.snapshot ∈ s.taken ∧ sym ∈ symbols ∧
    ∃ bids asks, ShowsBook (fun _ => []) sym bids asks := by
  have ends : ((SnapshotCuts.machine [] none).run (SnapshotCuts.machine [] none).init
      sampleActions).map (fun s => s.taken.map (fun snap => snap.symbols.length)) =
        some [1] := by decide +kernel
  obtain ⟨s, run, lengths⟩ := Option.map_eq_some_iff.mp ends
  obtain ⟨snapshot, taken, one⟩ := List.map_eq_singleton_iff.mp lengths
  let r : Readings := ⟨snapshot, 0, 0, none, none, none⟩
  have mem : r.snapshot ∈ s.taken := by
    rw [taken]
    exact List.mem_singleton_self _
  obtain ⟨k, engine, log, -, -, trades, recent, symbols, updates, -, -, -, -, found, -, -, -, -,
    shows⟩ := stats_coherent [] none (fun _ => []) ⟨sampleActions, run⟩ r mem
  obtain ⟨sym, single⟩ : ∃ sym, symbols = [sym] := by
    have same := found.symm.trans (field_lists (fun _ => []) r).2
    simp only [Option.some.injEq, Json.array.injEq] at same
    apply List.length_eq_one_iff.mp
    rw [same, List.length_map]
    exact one
  obtain ⟨name, state, -, -, book⟩ := shows sym (by rw [single]; exact List.mem_singleton_self _)
  exact ⟨s, r, symbols, sym, run, found, mem, by rw [single]; exact List.mem_singleton_self _,
    _, _, book⟩

end StatsJson
