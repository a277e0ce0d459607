import MarketDataEngine.LiveSession
import MarketDataEngine.QueueDepth
import MarketDataEngine.StatsJson

/-!
# What a monitor can rely on

The numbers of one published value are read one after the other while all threads go on, so
they belong to different moments. Since `build_stats_json` reads along the way of a message
backwards, from what was processed to what was received, the counters it shows are in order
all the same.
-/

namespace Monitoring

open Transition MarketTypes StatsJson
open WireFormat (decimal)

universe u v w

/-! ## The queue between the reads -/

section Pipeline
variable {π : Type v} {α : Type w} {T : Type u} {P : Pipeline.Producer π α T}
  {cap : SpscQueue.Capacity} {blank : T}

/-- The states at the reads that both modes have: the snapshot, the two loads of
`size_approx` and the counter of the producer. -/
structure Moments (π : Type v) (T : Type u) where
  snapshot : Pipeline.State π T
  tail : Pipeline.State π T
  head : Pipeline.State π T
  counter : Pipeline.State π T

/-- The reads come one after the other in a run. -/
structure Moments.Ordered (m : Moments π T) (P : Pipeline.Producer π α T)
    (cap : SpscQueue.Capacity) (blank : T) : Prop where
  reached : (Pipeline.machine P cap blank).Reachable m.snapshot
  tail : (Pipeline.machine P cap blank).Leads m.snapshot m.tail
  head : (Pipeline.machine P cap blank).Leads m.tail m.head
  counter : (Pipeline.machine P cap blank).Leads m.head m.counter

/-- What `size_approx` returns. -/
def Moments.depth (m : Moments π T) (cap : SpscQueue.Capacity) : Nat :=
  QueueDepth.maskedDifference cap m.tail.queue.tail m.head.queue.head

/-- The consumer has not passed the loaded tail. -/
def Moments.Behind (m : Moments π T) : Prop :=
  m.head.queue.popped.length ≤ m.tail.queue.pushed.length

theorem leads_queue {s t : Pipeline.State π T}
    (reached : (Pipeline.machine P cap blank).Reachable s)
    (h : (Pipeline.machine P cap blank).Leads s t) :
    s.queue.popped.length ≤ t.queue.popped.length ∧
      s.queue.pushed.length ≤ t.queue.pushed.length := by
  obtain ⟨popped, pushed⟩ :=
    SpscQueue.leads_grows ((Pipeline.refines_queue P cap blank).leads reached h)
  exact ⟨popped.length_le, pushed.length_le⟩

theorem processed_le_popped {s : Pipeline.State π T}
    (reached : (Pipeline.machine P cap blank).Reachable s) :
    s.processed.length ≤ s.queue.popped.length := by
  have handled := Pipeline.reachable_handled reached
  rw [Pipeline.Handled] at handled
  rw [← handled, List.length_append]
  omega

/-- What was processed at the first read and what seems to wait in the queue has been
published at the last one. -/
theorem published_covers {m : Moments π T} (ordered : m.Ordered P cap blank)
    (fits : cap.val < 2 ^ 64) :
    m.snapshot.processed.length ≤ m.counter.queue.pushed.length ∧ m.depth cap < cap.val ∧
      (m.Behind →
        m.snapshot.processed.length + m.depth cap ≤ m.counter.queue.pushed.length) := by
  obtain ⟨reached, tail, head, counter⟩ := ordered
  have atTail := reached.leads tail
  have atHead := atTail.leads head
  obtain ⟨popped, pushed⟩ := leads_queue reached tail
  obtain ⟨popped', pushed'⟩ := leads_queue atTail head
  obtain ⟨-, pushed''⟩ := leads_queue atHead counter
  have processed := processed_le_popped reached
  have invTail := Pipeline.queue_inv atTail
  have invHead := Pipeline.queue_inv atHead
  have filled := (Pipeline.queue_inv reached).fifo.length_le
  refine ⟨by omega, QueueDepth.maskedDifference_lt _ _ _, fun behind => ?_⟩
  have room := invTail.room
  have exact : m.depth cap = m.tail.queue.pushed.length - m.head.queue.popped.length := by
    rw [Moments.depth, invTail.tail_eq, invHead.head_eq]
    exact QueueDepth.maskedDifference_of_le fits behind (by omega)
  rw [exact]
  unfold Moments.Behind at behind
  omega

/-- All reads at one moment. -/
def Moments.atOnce (s : Pipeline.State π T) : Moments π T := ⟨s, s, s, s⟩

theorem Moments.atOnce_ordered {s : Pipeline.State π T}
    (reached : (Pipeline.machine P cap blank).Reachable s) :
    (Moments.atOnce s).Ordered P cap blank :=
  ⟨reached, .refl s, .refl s, .refl s⟩

end Pipeline

instance (item : QueueMessage Double) : Decidable item.InBounds :=
  match item with
  | .depthUpdate depth => inferInstanceAs (Decidable depth.InBounds)
  | .trade _ => .isTrue trivial

/-- Messages as the processing loop hands them on. -/
def taken (processed : List (QueueMessage Double)) : List SignalLog.Message :=
  processed.map (fun item => (SymbolIsolation.readingAt 0, item.stampDequeued 9))

theorem dequeued_taken (processed : List (QueueMessage Double)) :
    RecordReplay.Dequeued (taken processed) processed :=
  List.forall₂_map_left_iff.mpr (List.forall₂_same.mpr fun item _ =>
    (⟨9, rfl⟩ : ∃ now, (SymbolIsolation.readingAt 0, item.stampDequeued 9).2 =
      item.stampDequeued now))

/-! ## The two modes -/

/-- The snapshot published behind all messages counts them. -/
theorem processedCount_snapshot {conditions : List SignalCondition} {recorder : Option DiskLogger}
    {msgs : List SignalLog.Message} {engine : ProcessingThread}
    {processed : List (QueueMessage Double)} (dequeued : RecordReplay.Dequeued msgs processed)
    (run : (ProcessingThread.create conditions recorder).processAll msgs = some engine) :
    engine.snapshot.processedCount = processed.length := by
  obtain ⟨log, logged⟩ := SignalLog.exists_runLog run
  have balanced := SnapshotCuts.balanced_runLog logged
  have count : engine.updateSnapshot.snapshot.processedCount = engine.processed := rfl
  rw [balanced.published, count, balanced.processed, dequeued.length_eq]

section Live
variable {Raw : Type u} {cfg : ReconnectConfig} {parse : Raw → Option (QueueMessage Double)}
  {cap : SpscQueue.Capacity} {blank : QueueMessage Double}

/-- The feed thread counts a message before it publishes it. -/
theorem pushed_le_msgCount {s : Pipeline.State (WsClient.State Raw) (QueueMessage Double)}
    (reached : (Pipeline.machine (WsClient.producer cfg parse) cap blank).Reachable s) :
    s.queue.pushed.length ≤ s.producer.feed.msgCount := by
  obtain ⟨as, run⟩ := ((WsClient.refines_feed cfg parse).machine cap blank).reachable reached
  obtain ⟨outcomes, account⟩ := MessageConservation.account_of_run run
  have msgCount : s.producer.feed.msgCount = outcomes.length := account.msgCount
  have delivered := congrArg List.length account.delivered
  rw [List.length_append] at delivered
  have total := MessageConservation.length_outcomes account.parsed
  have pushed : s.queue.pushed.length ≤ (MessageConservation.accepted parse outcomes).length :=
    delivered ▸ Nat.le_add_right _ _
  omega

/-- The readings in live mode. The counters of what was refused are read last. -/
def liveReadings (m : Moments (WsClient.State Raw) (QueueMessage Double))
    (cap : SpscQueue.Capacity) (snapshot : EngineSnapshot) (uptimeS : Int)
    (parseErrors queueFull : Nat) (records : Option Nat) : Readings where
  snapshot := snapshot
  uptimeS := uptimeS
  queueDepth := m.depth cap
  feed := some ⟨m.counter.producer.feed.msgCount, parseErrors, queueFull⟩
  replay := none
  records := records

/-- In every interleaving of the threads with a monitor that reads one number after the
other: what is published in live mode never shows more messages processed than received, nor
a queue beyond its capacity, and unless the consumer passed the tail that `size_approx` had
loaded, the processed messages and the queue together are at most the received ones. -/
theorem live_stats_ordered (cfg : ReconnectConfig) (parse : Raw → Option (QueueMessage Double))
    (cap : SpscQueue.Capacity) (fits : cap.val < 2 ^ 64) (blank : QueueMessage Double)
    {m : Moments (WsClient.State Raw) (QueueMessage Double)}
    (ordered : m.Ordered (WsClient.producer cfg parse) cap blank)
    (conditions : List SignalCondition) (recorder : Option DiskLogger)
    {msgs : List SignalLog.Message} {engine : ProcessingThread}
    (dequeued : RecordReplay.Dequeued msgs m.snapshot.processed)
    (run : (ProcessingThread.create conditions recorder).processAll msgs = some engine)
    {real : ℚ → List UInt8} {uptimeS : Int} {parseErrors queueFull : Nat}
    {records : Option Nat} {json : Json}
    (published : json = buildStatsJson real
      (liveReadings m cap engine.snapshot uptimeS parseErrors queueFull records)) :
    ∃ processed depth received : Nat, processed = m.snapshot.processed.length ∧
      json.field? (ascii "processed") = some (natural processed) ∧
      json.field? (ascii "queue_depth") = some (natural depth) ∧
      (json.field? (ascii "feed")).bind (Json.field? (ascii "received")) =
        some (natural received) ∧
      processed ≤ received ∧ depth < cap.val ∧ (m.Behind → processed + depth ≤ received) := by
  obtain ⟨reached, tail, head, counter⟩ := ordered
  have counted := pushed_le_msgCount (((reached.leads tail).leads head).leads counter)
  obtain ⟨most, below, both⟩ := published_covers ⟨reached, tail, head, counter⟩ fits
  have count := processedCount_snapshot dequeued run
  obtain ⟨processed, -, -, depth⟩ := field_counts real
    (liveReadings m cap engine.snapshot uptimeS parseErrors queueFull records)
  rw [← published] at processed depth
  refine ⟨engine.snapshot.processedCount, m.depth cap, m.counter.producer.feed.msgCount, count,
    processed, depth, ?_, by omega, below, fun behind => ?_⟩
  · rw [published, field_feed]
    rfl
  · have together := both behind
    omega

/-- One message arrives, is published and processed. -/
def liveSchedule :
    List (Pipeline.Action (FeedHandler.Action Unit (QueueMessage Double)) (QueueMessage Double)) :=
  let feed := .producer (.step .blank)
  [feed, feed, .producer .connected, feed, feed, .producer (.receive ()), feed, feed, feed, feed,
    feed] ++ List.replicate 7 (.consumer .blank)

theorem live_stats_ordered_liveSchedule : ∃ s received, ∃ json : Json,
    (Pipeline.machine (WsClient.producer {} (fun (_ : Unit) => some .blank)) FeedHandler.feedQueue
      .blank).run (Pipeline.initial (WsClient.producer {} (fun _ => some .blank)) .blank)
        liveSchedule = some s ∧
    json.field? (ascii "processed") = some (natural 1) ∧
    (json.field? (ascii "feed")).bind (Json.field? (ascii "received")) =
      some (natural received) ∧ 1 ≤ received := by
  have ends : ((Pipeline.machine (WsClient.producer {} (fun (_ : Unit) => some .blank))
      FeedHandler.feedQueue .blank).run (Pipeline.initial
        (WsClient.producer {} (fun _ => some .blank)) .blank) liveSchedule).map
          (fun s => (s.processed.length, decide (∀ item ∈ s.processed, item.InBounds))) =
            some (1, true) := by decide +kernel
  obtain ⟨s, run, same⟩ := Option.map_eq_some_iff.mp ends
  simp only [Prod.mk.injEq, decide_eq_true_eq] at same
  obtain ⟨processed, inBounds⟩ := same
  obtain ⟨engine, handled, -⟩ := ProcessingThread.processAll_isSome [] none
    (LiveSession.dequeued_inBounds (dequeued_taken s.processed) inBounds)
  obtain ⟨_, depth, received, rfl, shown, -, counted, most, -⟩ :=
    live_stats_ordered {} (fun _ => some .blank) FeedHandler.feedQueue (by decide) .blank
      (Moments.atOnce_ordered ⟨liveSchedule, run⟩) [] none (dequeued_taken s.processed) handled
      (rfl : _ = buildStatsJson (fun _ => []) (liveReadings _ _ _ 0 0 0 none))
  have one : (Moments.atOnce s).snapshot.processed.length = 1 := processed
  rw [one] at shown most
  exact ⟨s, received, _, run, shown, counted, most⟩

end Live

section Replay
variable {reader : DiskReader} {speed : ReplayEngine.PlaybackSpeed} {cap : SpscQueue.Capacity}
  {blank : QueueMessage Double}

/-- The replay thread counts a record behind its publication. -/
theorem pushed_le_replayed {s : Pipeline.State ReplayEngine.State (QueueMessage Double)}
    (reached : (Pipeline.machine (ReplayEngine.producer reader speed) cap blank).Reachable s) :
    s.queue.pushed.length ≤ s.producer.replayed + 1 ∧
      s.producer.replayed ≤ reader.readAll.length := by
  have counted := (ReplayDelivery.reachable_counted reached).replayed
  have front := (ReplayProgress.delivered_front reached).length_le
  rw [ReplayProgress.delivered, List.length_map, List.length_map] at front
  have few : ReplayDelivery.uncounted s.queue.pushPc s.producer.pc ≤ 1 := by
    unfold ReplayDelivery.uncounted
    split
    · exact Nat.le_refl _
    · split
      · exact Nat.le_refl _
      · exact Nat.zero_le _
    · exact Nat.zero_le _
  omega

/-- The readings in replay mode. The flags and the speed are read last. -/
def replayReadings (m : Moments ReplayEngine.State (QueueMessage Double))
    (cap : SpscQueue.Capacity) (snapshot : EngineSnapshot) (uptimeS : Int)
    (total : UInt32) (finished paused : Bool) (speed : ReplayEngine.PlaybackSpeed)
    (records : Option Nat) : Readings where
  snapshot := snapshot
  uptimeS := uptimeS
  queueDepth := m.depth cap
  feed := none
  replay := some ⟨m.counter.producer.replayed, total.toNat, finished, paused, speed⟩
  records := records

/-- In every interleaving of the threads, the controls and a monitor: what is published in
replay mode shows no more records replayed than the file has, and at most one message more
processed than replayed, unless the consumer passed the loaded tail even together with the
queue. -/
theorem replay_stats_ordered (reader : DiskReader) (speed : ReplayEngine.PlaybackSpeed)
    (cap : SpscQueue.Capacity) (fits : cap.val < 2 ^ 64) (blank : QueueMessage Double)
    {m : Moments ReplayEngine.State (QueueMessage Double)}
    (ordered : m.Ordered (ReplayEngine.producer reader speed) cap blank)
    (conditions : List SignalCondition) (recorder : Option DiskLogger)
    {msgs : List SignalLog.Message} {engine : ProcessingThread}
    (dequeued : RecordReplay.Dequeued msgs m.snapshot.processed)
    (run : (ProcessingThread.create conditions recorder).processAll msgs = some engine)
    {real : ℚ → List UInt8} {uptimeS : Int} {total : UInt32} {finished paused : Bool}
    {shown : ReplayEngine.PlaybackSpeed} {records : Option Nat} {json : Json}
    (published : json = buildStatsJson real
      (replayReadings m cap engine.snapshot uptimeS total finished paused shown records)) :
    ∃ processed depth replayed : Nat, processed = m.snapshot.processed.length ∧
      json.field? (ascii "processed") = some (natural processed) ∧
      json.field? (ascii "queue_depth") = some (natural depth) ∧
      (json.field? (ascii "replay")).bind (Json.field? (ascii "replayed")) =
        some (natural replayed) ∧
      replayed ≤ reader.readAll.length ∧ processed ≤ replayed + 1 ∧ depth < cap.val ∧
      (m.Behind → processed + depth ≤ replayed + 1) := by
  obtain ⟨reached, tail, head, counter⟩ := ordered
  obtain ⟨counted, within⟩ := pushed_le_replayed (((reached.leads tail).leads head).leads counter)
  obtain ⟨most, below, both⟩ := published_covers ⟨reached, tail, head, counter⟩ fits
  have count := processedCount_snapshot dequeued run
  obtain ⟨processed, -, -, depth⟩ := field_counts real
    (replayReadings m cap engine.snapshot uptimeS total finished paused shown records)
  rw [← published] at processed depth
  refine ⟨engine.snapshot.processedCount, m.depth cap, m.counter.producer.replayed, count,
    processed, depth, ?_, within, by omega, below, fun behind => ?_⟩
  · rw [published, field_replay]
    rfl
  · have together := both behind
    omega

/-- The reader of a file of one record. -/
def sampleReader : DiskReader :=
  (DiskReader.openFile {} (some (ReplaySafety.fileOf
    (DiskLogger.frameOf DiskReader.sampleWrite.1 DiskReader.sampleWrite.2)))).2

/-- The record is published and processed before the replay thread counts it. -/
def replaySchedule : List (Pipeline.Action ReplayEngine.Action (QueueMessage Double)) :=
  List.replicate 10 (.producer (.step .blank 0 0)) ++ List.replicate 7 (.consumer .blank)

theorem replay_stats_ordered_uncounted : ∃ s, ∃ json : Json,
    (Pipeline.machine (ReplayEngine.producer sampleReader .max) FeedHandler.feedQueue .blank).run
      (Pipeline.initial (ReplayEngine.producer sampleReader .max) .blank) replaySchedule =
        some s ∧ s.producer.replayed = 0 ∧
    json.field? (ascii "processed") = some (natural 1) ∧
    ∃ replayed, (json.field? (ascii "replay")).bind (Json.field? (ascii "replayed")) =
      some (natural replayed) ∧ 1 ≤ replayed + 1 := by
  have ends : ((Pipeline.machine (ReplayEngine.producer sampleReader .max) FeedHandler.feedQueue
      .blank).run (Pipeline.initial (ReplayEngine.producer sampleReader .max) .blank)
        replaySchedule).map (fun s => (s.processed.length,
          decide (∀ item ∈ s.processed, item.InBounds), s.producer.replayed)) =
            some (1, true, 0) := by decide +kernel
  obtain ⟨s, run, same⟩ := Option.map_eq_some_iff.mp ends
  simp only [Prod.mk.injEq, decide_eq_true_eq] at same
  obtain ⟨processed, inBounds, replayed⟩ := same
  obtain ⟨engine, handled, -⟩ := ProcessingThread.processAll_isSome [] none
    (LiveSession.dequeued_inBounds (dequeued_taken s.processed) inBounds)
  obtain ⟨_, depth, shown, rfl, processedShown, -, replayedShown, -, most, -⟩ :=
    replay_stats_ordered sampleReader .max FeedHandler.feedQueue (by decide) .blank
      (Moments.atOnce_ordered ⟨replaySchedule, run⟩) [] none (dequeued_taken s.processed) handled
      (rfl : _ = buildStatsJson (fun _ => []) (replayReadings _ _ _ 0 1 false false .max none))
  have one : (Moments.atOnce s).snapshot.processed.length = 1 := processed
  rw [one] at processedShown most
  exact ⟨s, _, run, replayed, processedShown, shown, replayedShown, most⟩

end Replay

end Monitoring
