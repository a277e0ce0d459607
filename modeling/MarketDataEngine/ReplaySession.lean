import MarketDataEngine.RecordReplay
import MarketDataEngine.ReplayMain

/-!
# A recorded session through the program

The file a live session leaves behind, opened again by the program in replay mode. The
program may be paused, resumed and set to any speed while it runs, and ends by itself.
-/

namespace ReplaySession

open Transition MarketTypes RecordFormat Pipeline ProcessingThread RecordingCompleteness
open RecordReplay ReplayMain

/-- A closed recording without faults is loaded with its records and their number. -/
theorem load_recorded (createdUs : UInt64)
    {writes : List (DepthUpdate Double × DiskLogger.WriteEnv)}
    (complete : ∀ w ∈ writes, w.2.Complete) :
    ∃ reader, load (some (DiskReader.recorded createdUs writes).2.close.content) =
        some (reader, UInt32.ofNat writes.length) ∧
      reader.readAll = writes.map (fun w => DiskLogger.frameOf w.1 w.2) := by
  obtain ⟨reader, opens, -, -, records⟩ := DiskReader.readAll_recorded {} createdUs complete
  refine ⟨reader, ?_, records⟩
  have header := opens
  rw [DiskReader.close_recorded, DiskReader.openFile_header {} _ rfl rfl, Prod.mk.injEq] at header
  rw [load, opens, ← header.2, DiskReader.succeeded_complete complete]

/-- A file that is loaded is the one that was opened. -/
theorem opened_of_load {content : Option (List UInt8)} {reader : DiskReader} {total : UInt32}
    (h : load content = some (reader, total)) :
    reader = (DiskReader.openFile {} content).2 := by
  unfold load at h
  split at h
  · cases h
  · rename_i found opens
    obtain ⟨rfl, -⟩ := Prod.mk.inj (Option.some.inj h)
    rw [opens]

/-- A run of the program on the records of a session ends with the books of that session. -/
theorem bookPart_replayed {conditions : List SignalCondition} {recorder : Option DiskLogger}
    {live : List (MessageEnv × QueueMessage Double)} {engine : ProcessingThread}
    (wellFormed : ∀ msg ∈ live, msg.2.InBounds ∧ Recordable msg.2.symbol)
    (run : (create conditions recorder).processAll live = some engine) {reader : DiskReader}
    (records : reader.readAll = (writesOf live).map (fun w => DiskLogger.frameOf w.1 w.2))
    {parse : List UInt8 → Option Json} {speed : ReplayEngine.PlaybackSpeed} {as : List Action}
    {s : State}
    (program : (ReplayMain.machine parse reader speed FeedHandler.feedQueue .blank).run
      (initial reader speed .blank) as = some s)
    (unsignalled : Action.signal ∉ as) (returned : s.main = .returned)
    (conditions' : List SignalCondition) {msgs : List (MessageEnv × QueueMessage Double)}
    (dequeued : Dequeued msgs s.threads.processed) :
    ∃ engine', (create conditions' none).processAll msgs = some engine' ∧
      ∀ symbol, bookPart (engine'.getOrCreateState symbol) =
        bookPart (engine.getOrCreateState symbol) := by
  have inBounds : ∀ msg ∈ live, msg.2.InBounds := fun msg hmsg => (wellFormed msg hmsg).1
  have recordable : ∀ msg ∈ live, Recordable msg.2.symbol :=
    fun msg hmsg => (wellFormed msg hmsg).2
  have threads := reachable_threads ⟨as, program⟩
  obtain ⟨-, -, completed⟩ := completed_of_returned program unsignalled returned
  have same := dequeued_replay recordable records threads completed dequeued
  obtain ⟨engine', run', -⟩ := processAll_isSome conditions' none
    (inBounds_of_untimed inBounds same)
  refine ⟨engine', run', fun symbol => bookPart_eq run run' symbol ?_⟩
  rw [map_untimed_depthsOf, map_untimed_depthsOf, same, filterMap_writesOf]

/-- Record a session whose symbols fit into a record and of which no write is cut short, close
the file, run the program on it: whatever the dashboard sends, a run without a signal that
returns has replayed the number of records the file claims, and processing what it delivered
gives the symbols with depth updates of the session, and the same book and aggregator snapshot
for each of them. -/
theorem session_reproduced (conditions : List SignalCondition) (createdUs : UInt64)
    (live : List (MessageEnv × QueueMessage Double))
    (wellFormed : ∀ msg ∈ live, msg.2.InBounds ∧ Recordable msg.2.symbol)
    (complete : ∀ msg ∈ live, msg.1.write.Complete) (few : live.length < 2 ^ 32) :
    ∃ engine logger reader total,
      (create conditions (some (DiskLogger.fresh createdUs))).processAll live = some engine ∧
      engine.recorder = some logger ∧
      load (some logger.close.content) = some (reader, total) ∧
      ∀ parse speed as s,
        (ReplayMain.machine parse reader speed FeedHandler.feedQueue .blank).run
          (initial reader speed .blank) as = some s →
        Action.signal ∉ as → s.main = .returned →
        s.threads.producer.replayed = total.toNat ∧
        ∀ conditions' msgs, Dequeued msgs s.threads.processed →
          ∃ engine', (create conditions' none).processAll msgs = some engine' ∧
            ∀ symbol, (HadDepthUpdate engine' symbol ↔ HadDepthUpdate engine symbol) ∧
              (HadDepthUpdate engine symbol →
                engine'.getOrderBook symbol = engine.getOrderBook symbol ∧
                engine'.getAggregator symbol = engine.getAggregator symbol) := by
  have inBounds : ∀ msg ∈ live, msg.2.InBounds := fun msg hmsg => (wellFormed msg hmsg).1
  obtain ⟨engine, run, -⟩ :=
    processAll_isSome conditions (some (DiskLogger.fresh createdUs)) inBounds
  obtain ⟨reader, loads, records⟩ := load_recorded createdUs (writesOf_complete complete)
  rw [DiskReader.recorded_fresh] at loads
  refine ⟨engine, _, reader, _, run, (recorder_of_run conditions _ live run).2, loads, ?_⟩
  intro parse speed as s program unsignalled returned
  constructor
  · obtain ⟨-, -, completed⟩ := completed_of_returned program unsignalled returned
    have small := Nat.lt_of_le_of_lt (length_writesOf_le live) few
    rw [replayed_of_finished (reachable_threads ⟨as, program⟩) completed.finished, records,
      List.length_map, UInt32.toNat_ofNat_of_lt' small]
  · intro conditions' msgs dequeued
    obtain ⟨engine', run', books⟩ := bookPart_replayed wellFormed run records program unsignalled
      returned conditions' dequeued
    refine ⟨engine', run', fun symbol => ⟨?_, fun had => accessors_eq had (books symbol)⟩⟩
    rw [hadDepthUpdate_iff, hadDepthUpdate_iff, books]

/-- The reader of the file that the recorder of `sampleLive` leaves. -/
def sampleReader : DiskReader :=
  (DiskReader.openFile {} (some (DiskReader.recorded 5 (writesOf sampleLive)).2.close.content)).2

/-- The record is pushed and processed, and the program ends itself. -/
def sampleSchedule : List Action :=
  let replay := Action.replay .blank 0 0
  let process := Action.process .blank
  let main := Action.main true
  List.replicate 12 replay ++ List.replicate 7 process ++ List.replicate 4 replay ++
    List.replicate 10 main ++ List.replicate 4 process ++ List.replicate 2 main

/-- Replaying the recording of a depth update and a trade gives back the book. -/
theorem session_reproduced_sampleLive : ∃ engine engine' s msgs,
    (ReplayMain.machine (fun _ => none) sampleReader .max FeedHandler.feedQueue .blank).run
      (initial sampleReader .max .blank) sampleSchedule = some s ∧ s.main = .returned ∧
    s.threads.producer.replayed = 1 ∧
    (create [] (some (DiskLogger.fresh 5))).processAll sampleLive = some engine ∧
    (create [] none).processAll msgs = some engine' ∧ HadDepthUpdate engine [66, 84, 67] ∧
    engine'.getOrderBook [66, 84, 67] = engine.getOrderBook [66, 84, 67] := by
  have wellFormed : ∀ msg ∈ sampleLive, msg.2.InBounds ∧ Recordable msg.2.symbol := by
    intro msg hmsg
    simp only [sampleLive, List.mem_cons, List.not_mem_nil, or_false] at hmsg
    rcases hmsg with rfl | rfl
    · exact ⟨(by decide : DiskReader.sampleWrite.1.InBounds), by decide⟩
    · exact ⟨trivial, by decide⟩
  obtain ⟨engine, logger, reader, total, run, recorder, loads, replays⟩ :=
    session_reproduced [] 5 sampleLive wellFormed (by decide) (by decide)
  have recorded : logger = (DiskReader.recorded 5 (writesOf sampleLive)).2 := by
    rw [(recorder_of_run [] _ sampleLive run).2] at recorder
    rw [DiskReader.recorded_fresh]
    exact (Option.some.inj recorder).symm
  obtain ⟨opened, loads', -⟩ :=
    load_recorded 5 (writesOf_complete (by decide : ∀ msg ∈ sampleLive, msg.1.write.Complete))
  have opened_eq : opened = sampleReader := opened_of_load loads'
  rw [recorded, loads', Option.some.injEq, Prod.mk.injEq] at loads
  obtain ⟨rfl, rfl⟩ := loads
  rw [opened_eq] at replays
  have ends : ((ReplayMain.machine (fun _ => none) sampleReader .max FeedHandler.feedQueue
      .blank).run (initial sampleReader .max .blank) sampleSchedule).map State.main =
        some .returned := by decide +kernel
  obtain ⟨s, program, returned⟩ := Option.map_eq_some_iff.mp ends
  obtain ⟨counted, all⟩ := replays _ _ _ s program (by simp [sampleSchedule]) returned
  obtain ⟨engine', run', same⟩ := all [] _ (dequeued_stamped sampleEnv 9 _)
  have had : HadDepthUpdate engine [66, 84, 67] :=
    (hadDepthUpdate_run run _).mpr ⟨_, _, List.mem_cons_self, rfl⟩
  exact ⟨engine, engine', s, _, program, returned, counted, run, run', had, ((same _).2 had).1⟩

end ReplaySession
