import MarketDataEngine.RecordingCompleteness
import MarketDataEngine.ReplaySchedule

/-!
# Replaying a recorded run

A live run with an open recorder, the file it leaves, and every replay of that
file into another processing thread. Books and aggregates are driven by depth
updates alone and do not look at latency timestamps, and these updates are what
the file keeps. Trades, signals and latencies are not compared.
-/

namespace RecordReplay

open Transition MarketTypes RecordFormat Pipeline ProcessingThread RecordingCompleteness
open ReplayProgress ReplaySchedule

/-! ## Books without timestamps -/

/-- The depth update of a message, for one symbol and with exact numbers. -/
def depthFor (symbol : Symbol) : QueueMessage Double → Option (DepthUpdate ℚ)
  | .depthUpdate depth =>
    if depth.symbol = symbol then some (depth.map Double.toRat) else none
  | .trade _ => none

theorem depthFor_untimed (symbol : Symbol) (msg : QueueMessage Double) :
    (depthFor symbol msg).map DepthUpdate.untimed = depthFor symbol msg.untimed := by
  cases msg with
  | depthUpdate depth =>
    change (if depth.symbol = symbol then some (depth.map Double.toRat) else none).map
      DepthUpdate.untimed =
        if depth.symbol = symbol then some (depth.untimed.map Double.toRat) else none
    split_ifs <;> rfl
  | trade trade => rfl

theorem depthsOf_eq_filterMap (symbol : Symbol)
    (msgs : List (MessageEnv × QueueMessage Double)) :
    depthsOf symbol msgs = msgs.filterMap (fun msg => depthFor symbol msg.2) := by
  refine List.filterMap_congr ?_
  rintro ⟨env, msg⟩ -
  cases msg <;> rfl

theorem map_untimed_depthsOf (symbol : Symbol)
    (msgs : List (MessageEnv × QueueMessage Double)) :
    (depthsOf symbol msgs).map DepthUpdate.untimed =
      (msgs.map (fun msg => msg.2.untimed)).filterMap (depthFor symbol) := by
  rw [depthsOf_eq_filterMap, List.map_filterMap, List.filterMap_map]
  exact List.filterMap_congr (fun msg _ => depthFor_untimed symbol msg.2)

/-- The depth updates of a run are those it wrote. -/
theorem filterMap_writesOf (symbol : Symbol) (msgs : List (MessageEnv × QueueMessage Double)) :
    ((writesOf msgs).map (fun w => QueueMessage.depthUpdate w.1.untimed)).filterMap
        (depthFor symbol) =
      (msgs.map (fun msg => msg.2.untimed)).filterMap (depthFor symbol) := by
  rw [writesOf, List.map_filterMap, List.filterMap_filterMap, List.filterMap_map]
  refine List.filterMap_congr ?_
  rintro ⟨env, msg⟩ -
  cases msg <;> rfl

theorem foldlM_untimed (depths : List (DepthUpdate ℚ)) (state : OrderBook × Aggregator) :
    (depths.map DepthUpdate.untimed).foldlM advanceBook state =
      depths.foldlM advanceBook state := by
  induction depths generalizing state with
  | nil => rfl
  | cons depth rest ih =>
    have same : advanceBook state depth.untimed = advanceBook state depth := rfl
    simp only [List.map_cons, List.foldlM_cons, same, ih]

/-- Runs with the same depth updates up to timestamps leave the same book and aggregator. -/
theorem bookPart_eq {conditions conditions' : List SignalCondition}
    {recorder recorder' : Option DiskLogger}
    {msgs msgs' : List (MessageEnv × QueueMessage Double)} {engine engine' : ProcessingThread}
    (run : (create conditions recorder).processAll msgs = some engine)
    (run' : (create conditions' recorder').processAll msgs' = some engine') (symbol : Symbol)
    (same : (depthsOf symbol msgs').map DepthUpdate.untimed =
      (depthsOf symbol msgs).map DepthUpdate.untimed) :
    bookPart (engine'.getOrCreateState symbol) = bookPart (engine.getOrCreateState symbol) := by
  have live := book_of_depths conditions recorder symbol msgs run
  have replayed := book_of_depths conditions' recorder' symbol msgs' run'
  rw [← foldlM_untimed, same, foldlM_untimed, live] at replayed
  exact (Option.some.inj replayed).symm

/-! ## Which symbols have a book -/

/-- The symbol has a book with an update in it. -/
def HadDepthUpdate (engine : ProcessingThread) (symbol : Symbol) : Prop :=
  ∃ book, engine.getOrderBook symbol = some book ∧ 0 < book.updateCount

theorem hadDepthUpdate_iff (engine : ProcessingThread) (symbol : Symbol) :
    HadDepthUpdate engine symbol ↔
      0 < (bookPart (engine.getOrCreateState symbol)).1.updateCount := by
  unfold HadDepthUpdate getOrderBook getOrCreateState bookPart
  cases engine.states.lookup symbol <;> simp

theorem updateCount_advance {state next : OrderBook × Aggregator} {depth : DepthUpdate ℚ}
    (h : advanceBook state depth = some next) :
    next.1.updateCount = state.1.updateCount + 1 := by
  simp only [advanceBook, OrderBook.applyUpdate, Option.bind_eq_bind, Option.bind_eq_some_iff,
    Option.pure_def, Option.some.injEq] at h
  obtain ⟨_, ⟨_, _, _, _, rfl⟩, _, _, rfl⟩ := h
  rfl

theorem updateCount_foldlM {depths : List (DepthUpdate ℚ)} {state last : OrderBook × Aggregator}
    (h : depths.foldlM advanceBook state = some last) :
    last.1.updateCount = state.1.updateCount + depths.length := by
  induction depths generalizing state with
  | nil => cases h; rfl
  | cons depth rest ih =>
    rw [List.foldlM_cons, Option.bind_eq_bind, Option.bind_eq_some_iff] at h
    obtain ⟨mid, first, later⟩ := h
    rw [ih later, updateCount_advance first, List.length_cons]
    omega

/-- The symbols with a book that was updated are the symbols of the depth updates. -/
theorem hadDepthUpdate_run {conditions : List SignalCondition} {recorder : Option DiskLogger}
    {msgs : List (MessageEnv × QueueMessage Double)} {engine : ProcessingThread}
    (run : (create conditions recorder).processAll msgs = some engine) (symbol : Symbol) :
    HadDepthUpdate engine symbol ↔
      ∃ env depth, (env, .depthUpdate depth) ∈ msgs ∧ depth.symbol = symbol := by
  have count := updateCount_foldlM (book_of_depths conditions recorder symbol msgs run)
  rw [hadDepthUpdate_iff, count, Nat.zero_add, depthsOf_eq_filterMap,
    List.length_pos_iff_exists_mem]
  constructor
  · rintro ⟨update, mem⟩
    obtain ⟨⟨env, msg⟩, hmsg, found⟩ := List.mem_filterMap.mp mem
    cases msg with
    | depthUpdate depth =>
      refine ⟨env, depth, hmsg, ?_⟩
      by_contra other
      simp [depthFor, other] at found
    | trade trade => cases found
  · rintro ⟨env, depth, hmsg, same⟩
    exact ⟨depth.map Double.toRat, List.mem_filterMap.mpr ⟨_, hmsg, if_pos same⟩⟩

/-- Equal books and aggregators are seen as such through the accessors. -/
theorem accessors_eq {engine engine' : ProcessingThread} {symbol : Symbol}
    (had : HadDepthUpdate engine symbol)
    (same : bookPart (engine'.getOrCreateState symbol) =
      bookPart (engine.getOrCreateState symbol)) :
    engine'.getOrderBook symbol = engine.getOrderBook symbol ∧
      engine'.getAggregator symbol = engine.getAggregator symbol := by
  have had' : HadDepthUpdate engine' symbol := by
    rw [hadDepthUpdate_iff, same]
    exact (hadDepthUpdate_iff engine symbol).mp had
  obtain ⟨book, found, -⟩ := had
  obtain ⟨book', found', -⟩ := had'
  obtain ⟨state, hstate, -⟩ := Option.map_eq_some_iff.mp found
  obtain ⟨state', hstate', -⟩ := Option.map_eq_some_iff.mp found'
  simp only [getOrCreateState, hstate, hstate', Option.getD_some, bookPart, Prod.mk.injEq] at same
  simp [getOrderBook, getAggregator, hstate, hstate', same]

/-! ## The file in between -/

/-- The records a live run leaves behind replay as its depth updates. -/
theorem replayed_recorded {msgs : List (MessageEnv × QueueMessage Double)}
    (recordable : ∀ msg ∈ msgs, Recordable msg.2.symbol) :
    ((writesOf msgs).map (fun w => DiskLogger.frameOf w.1 w.2)).map (fun f => replayed f.2) =
      (writesOf msgs).map (fun w => some (.depthUpdate w.1.untimed)) := by
  rw [List.map_map]
  refine List.map_congr_left ?_
  intro w hw
  obtain ⟨⟨env, msg⟩, hmsg, kept⟩ := List.mem_filterMap.mp hw
  cases msg with
  | depthUpdate depth =>
    obtain rfl := Option.some.inj kept
    simp only [Function.comp_def, DiskLogger.frameOf, replayed,
      fromRecord_toRecord_of_recordable (recordable _ hmsg), Option.map_some]
    rfl
  | trade trade => cases kept

/-- The processing loop stamps each message it takes, and the stamp is no part of it. -/
def Dequeued (msgs : List (MessageEnv × QueueMessage Double))
    (popped : List (QueueMessage Double)) : Prop :=
  List.Forall₂ (fun msg item => ∃ now, msg.2 = item.stampDequeued now) msgs popped

/-- The items with a stamp of the processing loop each. -/
theorem dequeued_stamped (env : MessageEnv) (now : TimePoint)
    (processed : List (QueueMessage Double)) :
    Dequeued (processed.map (fun item => (env, item.stampDequeued now))) processed :=
  List.forall₂_map_left_iff.mpr (List.forall₂_same.mpr fun _ _ => ⟨now, rfl⟩)

theorem untimed_stampDequeued (item : QueueMessage Double) (now : TimePoint) :
    (item.stampDequeued now).untimed = item.untimed := by
  cases item <;> rfl

theorem dequeued_untimed {msgs : List (MessageEnv × QueueMessage Double)}
    {popped : List (QueueMessage Double)} (dequeued : Dequeued msgs popped) :
    msgs.map (fun msg => msg.2.untimed) = popped.map QueueMessage.untimed := by
  induction dequeued with
  | nil => rfl
  | cons stamped _ ih =>
    obtain ⟨now, same⟩ := stamped
    rw [List.map_cons, List.map_cons, ih, same, untimed_stampDequeued]

theorem inBounds_untimed (msg : QueueMessage Double) : msg.untimed.InBounds ↔ msg.InBounds := by
  cases msg <;> rfl

/-- What a completed replay of the recorded file hands to `process`, if it is `live`'s. -/
theorem dequeued_replay {live msgs : List (MessageEnv × QueueMessage Double)}
    (recordable : ∀ msg ∈ live, Recordable msg.2.symbol) {reader : DiskReader}
    (recorded : reader.readAll = (writesOf live).map (fun w => DiskLogger.frameOf w.1 w.2))
    {speed : ReplayEngine.PlaybackSpeed} {cap : SpscQueue.Capacity}
    {blank : QueueMessage Double}
    {s : Pipeline.State ReplayEngine.State (QueueMessage Double)}
    (reached : (replay reader speed cap blank).Reachable s) (completed : Completed s)
    (dequeued : Dequeued msgs s.processed) :
    msgs.map (fun msg => msg.2.untimed) =
      (writesOf live).map (fun w => .depthUpdate w.1.untimed) := by
  have processed := completed_processed reached completed
  rw [recorded, replayed_recorded recordable, delivered] at processed
  have same : (s.processed.map QueueMessage.untimed).map some =
      ((writesOf live).map (fun w => QueueMessage.depthUpdate w.1.untimed)).map some := by
    rw [List.map_map, List.map_map]
    exact processed
  rw [dequeued_untimed dequeued]
  exact List.map_injective_iff.mpr (Option.some_injective _) same

/-- What is replayed of a recording stays inside its arrays when what was recorded did. -/
theorem inBounds_of_untimed {live msgs : List (MessageEnv × QueueMessage Double)}
    (inBounds : ∀ msg ∈ live, msg.2.InBounds)
    (same : msgs.map (fun msg => msg.2.untimed) =
      (writesOf live).map (fun w => .depthUpdate w.1.untimed)) :
    ∀ msg ∈ msgs, msg.2.InBounds := by
  intro msg hmsg
  have mem := List.mem_map_of_mem (f := fun msg => msg.2.untimed) hmsg
  rw [same] at mem
  obtain ⟨w, hw, untimed⟩ := List.mem_map.mp mem
  obtain ⟨⟨env, item⟩, hitem, kept⟩ := List.mem_filterMap.mp hw
  rw [← inBounds_untimed, ← untimed]
  cases item with
  | depthUpdate depth =>
    obtain rfl := Option.some.inj kept
    exact inBounds _ hitem
  | trade trade => cases kept

/-- Record, close, replay to completion: the file opens, a replay can complete, and
whenever one does, at any speed, with any pauses and interleaving, processing what it
delivered gives the symbols with depth updates of the live run, and the same book and
aggregator snapshot for each of them. -/
theorem record_then_replay (conditions : List SignalCondition) (createdUs : UInt64)
    (live : List (MessageEnv × QueueMessage Double))
    (wellFormed : ∀ msg ∈ live, msg.2.InBounds ∧ Recordable msg.2.symbol)
    (complete : ∀ msg ∈ live, msg.1.write.Complete) :
    ∃ engine logger reader,
      (create conditions (some (DiskLogger.fresh createdUs))).processAll live = some engine ∧
      engine.recorder = some logger ∧
      DiskReader.openFile {} (some logger.close.content) = (true, reader) ∧
      ∀ speed blank,
        (∃ s, (replay reader speed FeedHandler.feedQueue blank).Reachable s ∧ Completed s) ∧
        ∀ s, (replay reader speed FeedHandler.feedQueue blank).Reachable s → Completed s →
          ∀ conditions' recorder' msgs, Dequeued msgs s.processed →
            ∃ engine', (create conditions' recorder').processAll msgs = some engine' ∧
              (∀ symbol, HadDepthUpdate engine' symbol ↔ HadDepthUpdate engine symbol) ∧
              ∀ symbol, HadDepthUpdate engine symbol →
                engine'.getOrderBook symbol = engine.getOrderBook symbol ∧
                engine'.getAggregator symbol = engine.getAggregator symbol := by
  have inBounds : ∀ msg ∈ live, msg.2.InBounds := fun msg hmsg => (wellFormed msg hmsg).1
  have recordable : ∀ msg ∈ live, Recordable msg.2.symbol :=
    fun msg hmsg => (wellFormed msg hmsg).2
  obtain ⟨engine, run, -⟩ :=
    processAll_isSome conditions (some (DiskLogger.fresh createdUs)) inBounds
  obtain ⟨reader, opens, -, -, recorded⟩ :=
    DiskReader.readAll_recorded {} createdUs (writesOf_complete complete)
  rw [DiskReader.recorded_fresh] at opens
  refine ⟨engine, _, reader, run, (recorder_of_run conditions _ live run).2, opens, ?_⟩
  intro speed blank
  constructor
  · refine exists_completed (by decide) reader speed blank ?_
    intro f hf
    rw [recorded] at hf
    obtain ⟨w, -, rfl⟩ := List.mem_map.mp hf
    rw [DiskLogger.frameOf, fromRecord_toRecord]
    exact Option.some_ne_none _
  · intro s reached completed conditions' recorder' msgs dequeued
    have same := dequeued_replay recordable recorded reached completed dequeued
    obtain ⟨engine', run', -⟩ := processAll_isSome conditions' recorder'
      (inBounds_of_untimed inBounds same)
    have books : ∀ symbol, bookPart (engine'.getOrCreateState symbol) =
        bookPart (engine.getOrCreateState symbol) := by
      intro symbol
      apply bookPart_eq run run'
      rw [map_untimed_depthsOf, map_untimed_depthsOf, same, filterMap_writesOf]
    refine ⟨engine', run', ?_, ?_⟩
    · intro symbol
      rw [hadDepthUpdate_iff, hadDepthUpdate_iff, books]
    · exact fun symbol had => accessors_eq had (books symbol)

def sampleEnv : MessageEnv := { wallUs := fun _ => 0, write := DiskReader.sampleWrite.2 }

/-- A depth update and a trade of the same symbol. -/
def sampleLive : List (MessageEnv × QueueMessage Double) :=
  [(sampleEnv, .depthUpdate DiskReader.sampleWrite.1),
    (sampleEnv, .trade {
      eventTimeMs := 1001
      tradeId := 1
      symbol := [66, 84, 67]
      price := ⟨0x4059000000000000⟩
      quantity := ⟨0x3FF0000000000000⟩
      isBuyerMaker := false })]

theorem record_then_replay_sampleLive : ∃ engine engine' msgs,
    (create [] (some (DiskLogger.fresh 5))).processAll sampleLive = some engine ∧
    (create [] none).processAll msgs = some engine' ∧
    HadDepthUpdate engine [66, 84, 67] ∧
    engine'.getOrderBook [66, 84, 67] = engine.getOrderBook [66, 84, 67] := by
  have wellFormed : ∀ msg ∈ sampleLive, msg.2.InBounds ∧ Recordable msg.2.symbol := by
    intro msg hmsg
    simp only [sampleLive, List.mem_cons, List.not_mem_nil, or_false] at hmsg
    rcases hmsg with rfl | rfl
    · exact ⟨(by decide : DiskReader.sampleWrite.1.InBounds), by decide⟩
    · exact ⟨trivial, by decide⟩
  obtain ⟨engine, logger, reader, run, -, -, replays⟩ :=
    record_then_replay [] 5 sampleLive wellFormed (by decide)
  obtain ⟨⟨s, reached, completed⟩, all⟩ := replays .fast5x .blank
  have dequeued : Dequeued (s.processed.map (fun item => (sampleEnv, item.stampDequeued 9)))
      s.processed :=
    List.forall₂_map_left_iff.mpr (List.forall₂_same.mpr fun item _ => ⟨9, rfl⟩)
  obtain ⟨engine', run', -, same⟩ := all s reached completed [] none _ dequeued
  have had : HadDepthUpdate engine [66, 84, 67] :=
    (hadDepthUpdate_run run _).mpr ⟨_, _, List.mem_cons_self, rfl⟩
  exact ⟨engine, engine', _, run, run', had, (same _ had).1⟩

end RecordReplay
