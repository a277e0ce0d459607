import MarketDataEngine.ProcessingThread

/-!
# What a recording keeps of a run

A processing thread with an open recorder hands every depth update to it and no
trade. This module gives the exact condition under which the recording is
nevertheless everything that was processed. All writes succeed here.
-/

namespace RecordingCompleteness

open MarketTypes RecordFormat ProcessingThread

/-- The writes a run makes to its recorder. -/
def writesOf (msgs : List (MessageEnv × QueueMessage Double)) :
    List (DepthUpdate Double × DiskLogger.WriteEnv) :=
  msgs.filterMap (fun msg =>
    match msg.2 with
    | .depthUpdate depth => some (depth, msg.1.write)
    | .trade _ => none)

/-- A run counts its messages, and its recorder has written exactly the depth updates. -/
theorem recorder_of_run (conditions : List SignalCondition) (logger : DiskLogger)
    (msgs : List (MessageEnv × QueueMessage Double)) {engine : ProcessingThread}
    (run : (create conditions (some logger)).processAll msgs = some engine) :
    engine.processed = msgs.length ∧
      engine.recorder = some (logger.writeAll (writesOf msgs)).2 := by
  induction msgs using List.reverseRecOn generalizing engine with
  | nil => cases run; exact ⟨rfl, rfl⟩
  | append_singleton msgs msg ih =>
    obtain ⟨mid, hmid, step⟩ := processAll_snoc.mp run
    obtain ⟨processed, recorder⟩ := ih hmid
    obtain ⟨env, msg⟩ := msg
    rw [writesOf, List.filterMap_append, ← writesOf]
    cases msg with
    | depthUpdate depth =>
      obtain ⟨-, -, -, recorder', processed'⟩ := process_depthUpdate step
      refine ⟨by simp [processed', processed], ?_⟩
      rw [recorder', recorder, Option.map_some]
      exact congrArg some (DiskLogger.writeAll_snoc logger (writesOf msgs) depth env.write).symm
    | trade trade =>
      obtain ⟨-, -, -, recorder', processed'⟩ := process_trade step
      refine ⟨by simp [processed', processed], ?_⟩
      rw [recorder', recorder]
      simp

/-- After every message the recorder has counted what was processed, and the closed
file reads back as the sequence of processed messages without their latency stamps. -/
def RecordsEverything (conditions : List SignalCondition) (createdUs : UInt64)
    (msgs : List (MessageEnv × QueueMessage Double)) : Prop :=
  (∀ n ≤ msgs.length, ∃ engine logger,
    (create conditions (some (DiskLogger.fresh createdUs))).processAll (msgs.take n) =
      some engine ∧
    engine.recorder = some logger ∧ logger.recordCount.toNat = engine.processed) ∧
  ∃ engine logger reader,
    (create conditions (some (DiskLogger.fresh createdUs))).processAll msgs = some engine ∧
    engine.recorder = some logger ∧
    DiskReader.openFile {} (some logger.close.content) = (true, reader) ∧
    reader.readAll.map (fun f => (fromRecord f.2).map QueueMessage.depthUpdate) =
      msgs.map (fun msg => some msg.2.untimed)

/-- A message that a record can hold without loss. -/
def KeptWhole : QueueMessage Double → Prop
  | .depthUpdate depth => Recordable depth.symbol
  | .trade _ => False

theorem length_writesOf_le (msgs : List (MessageEnv × QueueMessage Double)) :
    (writesOf msgs).length ≤ msgs.length := List.length_filterMap_le _ _

theorem length_writesOf_lt {msgs : List (MessageEnv × QueueMessage Double)} {env : MessageEnv}
    {trade : Trade Double} (mem : (env, .trade trade) ∈ msgs) :
    (writesOf msgs).length < msgs.length := by
  obtain ⟨front, back, rfl⟩ := List.append_of_mem mem
  have front' := length_writesOf_le front
  have back' := length_writesOf_le back
  simp only [writesOf, List.filterMap_append, List.filterMap_cons, List.length_append,
    List.length_cons] at front' back' ⊢
  omega

theorem length_writesOf_of_kept {msgs : List (MessageEnv × QueueMessage Double)}
    (kept : ∀ msg ∈ msgs, KeptWhole msg.2) : (writesOf msgs).length = msgs.length := by
  induction msgs with
  | nil => rfl
  | cons msg rest ih =>
    obtain ⟨env, msg⟩ := msg
    cases msg with
    | depthUpdate depth =>
      exact congrArg Nat.succ (ih (fun m hm => kept m (List.mem_cons_of_mem _ hm)))
    | trade trade => exact (kept _ List.mem_cons_self).elim

theorem writesOf_complete {msgs : List (MessageEnv × QueueMessage Double)}
    (complete : ∀ msg ∈ msgs, msg.1.write.Complete) : ∀ w ∈ writesOf msgs, w.2.Complete := by
  intro w hw
  obtain ⟨⟨env, msg⟩, hmsg, kept⟩ := List.mem_filterMap.mp hw
  cases msg with
  | depthUpdate depth =>
    obtain rfl := Option.some.inj kept
    exact complete _ hmsg
  | trade trade => cases kept

/-- The messages that the records of a run convert back to. -/
def readBack (msgs : List (MessageEnv × QueueMessage Double)) :
    List (Option (QueueMessage Double)) :=
  (writesOf msgs).map (fun w => (fromRecord (toRecord w.1)).map QueueMessage.depthUpdate)

/-- Without trades, reading back is exact precisely when every symbol is recordable. -/
theorem readBack_eq_iff {msgs : List (MessageEnv × QueueMessage Double)}
    (noTrade : ∀ msg ∈ msgs, ∀ trade, msg.2 ≠ .trade trade) :
    readBack msgs = msgs.map (fun msg => some msg.2.untimed) ↔ ∀ msg ∈ msgs, KeptWhole msg.2 := by
  induction msgs with
  | nil => simp [readBack, writesOf]
  | cons msg rest ih =>
    obtain ⟨env, msg⟩ := msg
    have tail := ih (fun m hm => noTrade m (List.mem_cons_of_mem _ hm))
    cases msg with
    | trade trade => exact absurd rfl (noTrade _ List.mem_cons_self trade)
    | depthUpdate depth =>
      have head : (fromRecord (toRecord depth)).map QueueMessage.depthUpdate =
          some (QueueMessage.depthUpdate depth).untimed ↔ Recordable depth.symbol := by
        rw [fromRecord_toRecord, ← storedSymbol_eq_self_iff]
        simp [QueueMessage.untimed, DepthUpdate.untimed]
      have split : readBack ((env, .depthUpdate depth) :: rest) =
          (fromRecord (toRecord depth)).map QueueMessage.depthUpdate :: readBack rest := rfl
      rw [split, List.map_cons, List.cons.injEq, head, tail, List.forall_mem_cons]
      rfl

theorem recordCount_writesOf (createdUs : UInt64)
    {msgs : List (MessageEnv × QueueMessage Double)}
    (complete : ∀ msg ∈ msgs, msg.1.write.Complete) :
    ((DiskLogger.fresh createdUs).writeAll (writesOf msgs)).2.recordCount.toNat =
      (writesOf msgs).length % 2 ^ 32 := by
  rw [DiskLogger.writeAll_of_open rfl,
    DiskReader.succeeded_complete (writesOf_complete complete)]
  simp [DiskLogger.fresh]

/-- The property in terms of the writes alone. -/
theorem recordsEverything_iff_writes (conditions : List SignalCondition) (createdUs : UInt64)
    (msgs : List (MessageEnv × QueueMessage Double)) (inBounds : ∀ msg ∈ msgs, msg.2.InBounds)
    (complete : ∀ msg ∈ msgs, msg.1.write.Complete) :
    RecordsEverything conditions createdUs msgs ↔
      (∀ n ≤ msgs.length, (writesOf (msgs.take n)).length % 2 ^ 32 = n) ∧
      readBack msgs = msgs.map (fun msg => some msg.2.untimed) := by
  obtain ⟨reader, opens, -, -, readAll⟩ :=
    DiskReader.readAll_recorded {} createdUs (writesOf_complete complete)
  rw [DiskReader.recorded_fresh] at opens
  have back : reader.readAll.map (fun f => (fromRecord f.2).map QueueMessage.depthUpdate) =
      readBack msgs := by
    simp only [readAll, List.map_map, readBack, Function.comp_def, DiskLogger.frameOf]
  refine and_congr (forall₂_congr fun n inside => ?_) ?_
  · have inBounds' : ∀ msg ∈ msgs.take n, msg.2.InBounds :=
      fun msg hmsg => inBounds msg (List.mem_of_mem_take hmsg)
    have complete' : ∀ msg ∈ msgs.take n, msg.1.write.Complete :=
      fun msg hmsg => complete msg (List.mem_of_mem_take hmsg)
    obtain ⟨engine, run, -⟩ := processAll_isSome conditions
      (some (DiskLogger.fresh createdUs)) inBounds'
    obtain ⟨processed, recorder⟩ := recorder_of_run conditions _ _ run
    have count := recordCount_writesOf createdUs complete'
    rw [List.length_take, Nat.min_eq_left inside] at processed
    constructor
    · rintro ⟨engine', logger, run', recorder', same⟩
      rw [run] at run'
      obtain rfl := Option.some.inj run'
      rw [recorder] at recorder'
      obtain rfl := Option.some.inj recorder'
      rw [← count, same, processed]
    · intro same
      exact ⟨engine, _, run, recorder, by rw [count, same, processed]⟩
  · obtain ⟨engine, run, -⟩ := processAll_isSome conditions
      (some (DiskLogger.fresh createdUs)) inBounds
    have recorder := (recorder_of_run conditions _ _ run).2
    rw [← back]
    constructor
    · rintro ⟨engine', logger, reader', run', recorder', opens', same⟩
      rw [run] at run'
      obtain rfl := Option.some.inj run'
      rw [recorder] at recorder'
      obtain rfl := Option.some.inj recorder'
      rw [opens, Prod.mk.injEq] at opens'
      rw [opens'.2, same]
    · exact fun same => ⟨engine, _, reader, run, recorder, opens, same⟩

/-- For messages with level counts inside their arrays and writes that never fail: the
recording is everything that was processed if and only if there was no trade, every
symbol fits its field, and the 32-bit count did not wrap. -/
theorem recordsEverything_iff (conditions : List SignalCondition) (createdUs : UInt64)
    (msgs : List (MessageEnv × QueueMessage Double)) (inBounds : ∀ msg ∈ msgs, msg.2.InBounds)
    (complete : ∀ msg ∈ msgs, msg.1.write.Complete) :
    RecordsEverything conditions createdUs msgs ↔
      (∀ msg ∈ msgs, KeptWhole msg.2) ∧ msgs.length < 2 ^ 32 := by
  rw [recordsEverything_iff_writes conditions createdUs msgs inBounds complete]
  constructor
  · rintro ⟨counts, same⟩
    have count := counts msgs.length (Nat.le_refl _)
    rw [List.take_length] at count
    have few : msgs.length < 2 ^ 32 := count ▸ Nat.mod_lt _ (by decide)
    refine ⟨(readBack_eq_iff ?_).mp same, few⟩
    rintro ⟨env, msg⟩ hmsg trade isTrade
    obtain rfl : msg = .trade trade := isTrade
    have fewer := length_writesOf_lt hmsg
    rw [Nat.mod_eq_of_lt (by omega)] at count
    omega
  · rintro ⟨kept, few⟩
    refine ⟨?_, (readBack_eq_iff ?_).mpr kept⟩
    · intro n inside
      rw [length_writesOf_of_kept (fun msg hmsg => kept msg (List.mem_of_mem_take hmsg)),
        List.length_take, Nat.min_eq_left inside]
      exact Nat.mod_eq_of_lt (by omega)
    · intro msg hmsg trade isTrade
      have := kept msg hmsg
      rw [isTrade] at this
      exact this

def workingEnv : MessageEnv where
  wallUs := fun _ => 0
  write := ⟨7, 12, 2108⟩

def oneTrade : Trade Double where
  eventTimeMs := 1000
  tradeId := 1
  symbol := [66, 84, 67]
  price := ⟨0⟩
  quantity := ⟨0⟩
  isBuyerMaker := false

theorem recordsEverything_iff_sampleWrite :
    RecordsEverything [] 5 [(workingEnv, .depthUpdate DiskReader.sampleWrite.1)] := by
  refine (recordsEverything_iff [] 5 _ ?_ ?_).mpr ⟨?_, by decide⟩
  · simp [QueueMessage.InBounds, DepthUpdate.InBounds, DiskReader.sampleWrite, maxLevels]
  · simp only [List.mem_singleton, forall_eq]
    decide
  · simp only [List.mem_singleton, forall_eq, KeptWhole]
    decide

/-- One trade is processed and the recorder has counted nothing. -/
theorem trade_not_recorded : ¬ RecordsEverything [] 5 [(workingEnv, .trade oneTrade)] := by
  rintro ⟨counts, -⟩
  obtain ⟨engine, logger, run, recorder, count⟩ := counts 1 (Nat.le_refl _)
  obtain ⟨processed, written⟩ := recorder_of_run [] _ _ run
  rw [written] at recorder
  rw [← Option.some.inj recorder, processed] at count
  revert count
  decide

end RecordingCompleteness
