import MarketDataEngine.ReplayProgress

/-!
# A schedule that replays a file

The replay thread and the processing loop take turns, one record at a time. The
schedule shows that every record in front of a faulting one is really pushed and
processed, and that a replay without shutdown can run to completion.
-/

namespace ReplaySchedule

open Transition MarketTypes RecordFormat Pipeline ReplayEngine ReplayProgress

/-- The replay thread behind its queue, in front of the processing loop. -/
abbrev replay (reader : DiskReader) (speed : PlaybackSpeed) (cap : SpscQueue.Capacity)
    (blank : QueueMessage Double) :=
  machine (producer reader speed) cap blank

variable {reader₀ : DiskReader} {speed : PlaybackSpeed} {cap : SpscQueue.Capacity}
  {blank : QueueMessage Double} {queue : SpscQueue.State (QueueMessage Double)}
  {consumer : ConsumerPc (QueueMessage Double)} {thread : ReplayEngine.State}
  {processed : List (QueueMessage Double)}

/-! ## Single turns -/

theorem thread_turn {s : Pipeline.State ReplayEngine.State (QueueMessage Double)}
    (h : threadStep s.running s.queue.pushPc s.producer blank 0 0 = some (thread, none)) :
    (replay reader₀ speed cap blank).next s (.producer (.step blank 0 0)) =
      some { s with producer := thread } := by
  have moves : (producer reader₀ speed).next s.running s.queue.pushPc s.producer
      (.step blank 0 0) = some (thread, none) := h
  simp only [machine, Pipeline.next, producerStep, moves]

/-- A converted record is handed to `try_push`. -/
theorem call_turn {us : Nat} {rec : DepthRecord} {update : DepthUpdate Double}
    (pc : thread.pc = .sleeping us rec) (converted : fromRecord rec = some update)
    (idle : queue.pushPc.idle = true) :
    (replay reader₀ speed cap blank).next ⟨queue, true, consumer, thread, processed⟩
        (.producer (.step blank 0 0)) =
      some ⟨{ queue with pushPc := .loadTail .moving (message update 0 0) }, true, consumer,
        { thread with pc := .pushing }, processed⟩ := by
  have moves : (producer reader₀ speed).next true queue.pushPc thread (.step blank 0 0) =
      some ({ thread with pc := .pushing }, some (.call (message update 0 0))) := by
    simp only [producer, ReplayEngine.next, threadStep, pc, converted]
  simp only [machine, Pipeline.next, producerStep, moves]
  simp [PushAction.toQueue, SpscQueue.next, idle]

/-- The replay thread makes the accesses of its `try_push`. -/
theorem push_turn {queue' : SpscQueue.State (QueueMessage Double)}
    (pc : thread.pc = .pushing) (busy : queue.pushPc.idle = false)
    (accessed : SpscQueue.pushStep cap blank queue = some queue') :
    (replay reader₀ speed cap blank).next ⟨queue, true, consumer, thread, processed⟩
        (.producer (.step blank 0 0)) =
      some ⟨queue', true, consumer, thread, processed⟩ := by
  have moves : (producer reader₀ speed).next true queue.pushPc thread (.step blank 0 0) =
      some (thread, some (.step blank)) := by
    simp only [producer, ReplayEngine.next, threadStep, pc]
    cases call : queue.pushPc with
    | ready | returned => simp [call, SpscQueue.PushPc.idle] at busy
    | _ => rfl
  simp only [machine, Pipeline.next, producerStep, moves]
  simp [PushAction.toQueue, SpscQueue.next, accessed]

theorem consumer_turn {s t : Pipeline.State ReplayEngine.State (QueueMessage Double)}
    (h : consumerStep cap blank s = some t) :
    (replay reader₀ speed cap blank).next s (.consumer blank) = some t := h

/-- In a ring of two slots or more the index after an index is another one. -/
theorem nextIndex_ne (two : 1 < cap.val) (index : Nat) :
    SpscQueue.nextIndex cap index ≠ index := by
  rw [SpscQueue.nextIndex, SpscQueue.and_mask]
  intro same
  have below := Nat.mod_lt (index + 1) cap.positive
  rcases Nat.lt_or_ge (index + 1) cap.val with inside | outside
  · rw [Nat.mod_eq_of_lt inside] at same
    omega
  · have last : index + 1 = cap.val := by omega
    rw [last, Nat.mod_self] at same
    omega

/-! ## One record -/

/-- The replay thread at its loop test goes on to read, unless it is paused. -/
theorem leads_read (pc : thread.pc = .checkRunning) (paused : thread.paused = false) :
    (replay reader₀ speed cap blank).Leads ⟨queue, true, consumer, thread, processed⟩
      ⟨queue, true, consumer, { thread with pc := .read }, processed⟩ := by
  have turn := @thread_turn reader₀ speed cap blank
  refine .step (m := ⟨queue, true, consumer, { thread with pc := .checkPaused }, processed⟩)
    (turn (by simp [threadStep, pc])) ?_
  refine .step (m := ⟨queue, true, consumer, { thread with pc := .checkResume }, processed⟩)
    (turn (by simp [threadStep, paused])) ?_
  exact .step (turn (by simp [threadStep])) (.refl _)

/-- A record that is read is converted after its delay. -/
theorem leads_sleeping (pc : thread.pc = .checkRunning) (paused : thread.paused = false)
    {next : DiskReader} {rhdr : RecordHeader} {rec : DepthRecord}
    (read : thread.reader.readNext = (some (rhdr, rec), next)) :
    ∃ us, (replay reader₀ speed cap blank).Leads ⟨queue, true, consumer, thread, processed⟩
      ⟨queue, true, consumer, { thread with
        pc := .sleeping us rec
        reader := next
        prevWallUs := rhdr.wallTimestampUs }, processed⟩ := by
  have turn := @thread_turn reader₀ speed cap blank
  refine ⟨sleepUs thread.speed thread.prevWallUs rhdr.wallTimestampUs,
    (leads_read pc paused).trans ?_⟩
  refine .step (m := ⟨queue, true, consumer,
    { thread with pc := .delay rhdr rec, reader := next }, processed⟩)
    (turn (by simp [threadStep, read])) ?_
  exact .step (turn (by simp [threadStep])) (.refl _)

/-- A record that converts is handed to `try_push`, with the queue as it was. -/
theorem leads_called (pc : thread.pc = .checkRunning) (paused : thread.paused = false)
    (idle : queue.pushPc.idle = true) {next : DiskReader} {f : RecordHeader × DepthRecord}
    {update : DepthUpdate Double} (read : thread.reader.readNext = (some f, next))
    (converted : fromRecord f.2 = some update) :
    ∃ queue' thread', (replay reader₀ speed cap blank).Leads
        ⟨queue, true, consumer, thread, processed⟩
        ⟨queue', true, consumer, thread', processed⟩ ∧
      (thread'.pc = .pushing ∧ thread'.paused = false ∧ thread'.reader = next) ∧
      queue'.pushPc = .loadTail .moving (message update 0 0) ∧ queue'.head = queue.head ∧
      queue'.tail = queue.tail ∧ queue'.popPc = queue.popPc ∧ queue'.pushed = queue.pushed := by
  obtain ⟨us, fetched⟩ := leads_sleeping pc paused read
  exact ⟨_, _, fetched.trans (.step (call_turn rfl converted idle) (.refl _)),
    ⟨rfl, paused, rfl⟩, rfl, rfl, rfl, rfl, rfl⟩

/-- With room in the queue a `try_push` under way succeeds and the thread goes round. -/
theorem run_pushed (pc : thread.pc = .pushing) {item : QueueMessage Double}
    (call : queue.pushPc = .loadTail .moving item)
    (room : SpscQueue.nextIndex cap queue.tail ≠ queue.head) :
    (replay reader₀ speed cap blank).run ⟨queue, true, consumer, thread, processed⟩
        (List.replicate 6 (.producer (.step blank 0 0))) =
      some ⟨{ queue with
          tail := SpscQueue.nextIndex cap queue.tail
          buffer := Function.update queue.buffer queue.tail item
          pushPc := .returned true blank
          pushed := queue.pushed ++ [item] }, true, consumer,
        { thread with pc := .checkRunning, replayed := thread.replayed + 1 }, processed⟩ := by
  have turn := @thread_turn reader₀ speed cap blank
  have access := @push_turn reader₀ speed cap blank
  refine Machine.run_cons_some.mpr ⟨⟨{ queue with pushPc := .loadHead .moving item queue.tail },
    true, consumer, thread, processed⟩,
    access pc (by simp [call, SpscQueue.PushPc.idle]) (by simp [SpscQueue.pushStep, call]), ?_⟩
  refine Machine.run_cons_some.mpr ⟨⟨{ queue with pushPc := .copy .moving item queue.tail },
    true, consumer, thread, processed⟩, access pc rfl (by simp [SpscQueue.pushStep, room]), ?_⟩
  refine Machine.run_cons_some.mpr ⟨_, access pc rfl rfl, ?_⟩
  refine Machine.run_cons_some.mpr ⟨_, access pc rfl rfl, ?_⟩
  refine Machine.run_cons_some.mpr ⟨⟨_, true, consumer, { thread with pc := .count }, processed⟩,
    turn (by simp only [threadStep, pc]), ?_⟩
  exact Machine.run_cons_some.mpr ⟨_, turn (by simp [threadStep]), rfl⟩

/-- The processing loop takes the next message of a queue that holds one. -/
theorem leads_processed {item : QueueMessage Double} (idle : queue.popPc.idle = true)
    (holds : queue.head ≠ queue.tail) (slot : queue.buffer queue.head = item) :
    (replay reader₀ speed cap blank).Leads ⟨queue, true, .checkRunning, thread, processed⟩
      ⟨{ queue with
          head := SpscQueue.nextIndex cap queue.head
          buffer := Function.update queue.buffer queue.head blank
          popPc := .returned (some item)
          popped := queue.popped ++ [item] }, true, .checkRunning, thread,
        processed ++ [item]⟩ := by
  have turn := @consumer_turn reader₀ speed cap blank
  refine .step (m := ⟨{ queue with popPc := .loadHead }, true, .popping false, thread,
    processed⟩) (turn (by simp [consumerStep, SpscQueue.next, idle])) ?_
  refine .step (m := ⟨{ queue with popPc := .loadTail queue.head }, true, .popping false,
    thread, processed⟩)
    (turn (by simp [consumerStep, SpscQueue.next, SpscQueue.popStep])) ?_
  refine .step (m := ⟨{ queue with popPc := .take queue.head }, true, .popping false, thread,
    processed⟩) (turn (by simp [consumerStep, SpscQueue.next, SpscQueue.popStep, holds])) ?_
  refine .step (m := ⟨{ queue with
      buffer := Function.update queue.buffer queue.head blank
      popPc := .storeHead queue.head item }, true, .popping false, thread, processed⟩)
    (turn (by simp [consumerStep, SpscQueue.next, SpscQueue.popStep, slot])) ?_
  refine .step (m := ⟨{ queue with
      head := SpscQueue.nextIndex cap queue.head
      buffer := Function.update queue.buffer queue.head blank
      popPc := .returned (some item)
      popped := queue.popped ++ [item] }, true, .popping false, thread, processed⟩)
    (turn (by simp [consumerStep, SpscQueue.next, SpscQueue.popStep])) ?_
  exact .step (turn rfl) (.step (turn rfl) (.refl _))

/-- An item handed to an empty queue is pushed, taken out and processed. -/
theorem leads_delivered {item : QueueMessage Double} (two : 1 < cap.val)
    (pc : thread.pc = .pushing) (call : queue.pushPc = .loadTail .moving item)
    (empty : queue.head = queue.tail) (idle : queue.popPc.idle = true) :
    ∃ queue', (replay reader₀ speed cap blank).Leads
        ⟨queue, true, .checkRunning, thread, processed⟩
        ⟨queue', true, .checkRunning,
          { thread with pc := .checkRunning, replayed := thread.replayed + 1 },
          processed ++ [item]⟩ ∧
      queue'.head = queue'.tail ∧ queue'.pushPc.idle = true ∧ queue'.popPc.idle = true ∧
      queue'.pushed = queue.pushed ++ [item] := by
  have room : SpscQueue.nextIndex cap queue.tail ≠ queue.head := empty ▸ nextIndex_ne two _
  refine ⟨_, Machine.Leads.trans ⟨_, run_pushed pc call room⟩
    (leads_processed idle room.symm ?_), ?_⟩
  · simp only [empty, Function.update_self]
  · exact ⟨congrArg (SpscQueue.nextIndex cap) empty, rfl, rfl, rfl⟩

/-- Between two records, with both threads at their loop tests and the queue empty. -/
structure Resting (s : Pipeline.State ReplayEngine.State (QueueMessage Double)) : Prop where
  running : s.running = true
  thread : s.producer.pc = .checkRunning
  paused : s.producer.paused = false
  consumer : s.consumer = .checkRunning
  empty : s.queue.head = s.queue.tail
  push : s.queue.pushPc.idle = true
  pop : s.queue.popPc.idle = true

theorem resting_initial (reader : DiskReader) (speed : PlaybackSpeed)
    (blank : QueueMessage Double) : Resting (initial (producer reader speed) blank) :=
  ⟨rfl, rfl, rfl, rfl, rfl, rfl, rfl⟩

/-- A record that converts is pushed, processed, and followed by the next one. -/
theorem leads_next {s : Pipeline.State ReplayEngine.State (QueueMessage Double)}
    (two : 1 < cap.val) (resting : Resting s) {next : DiskReader}
    {f : RecordHeader × DepthRecord} {update : DepthUpdate Double}
    (read : s.producer.reader.readNext = (some f, next))
    (converted : fromRecord f.2 = some update) :
    ∃ t, (replay reader₀ speed cap blank).Leads s t ∧ Resting t ∧ t.producer.reader = next ∧
      t.queue.pushed = s.queue.pushed ++ [message update 0 0] ∧
      t.processed = s.processed ++ [message update 0 0] := by
  obtain ⟨queue, running, consumer, thread, processed⟩ := s
  obtain ⟨running, pc, paused, consumer, empty, push, pop⟩ := resting
  dsimp only at running pc paused consumer empty push pop read
  subst running consumer
  obtain ⟨handed, thread', called, ⟨pushing, paused', reader⟩, call, head, tail, popPc, same⟩ :=
    leads_called pc paused push read converted
  obtain ⟨queue', delivered, empty', push', pop', pushed⟩ :=
    leads_delivered two pushing call (by rw [head, tail, empty]) (by rw [popPc, pop])
  exact ⟨_, called.trans delivered, ⟨rfl, rfl, paused', rfl, empty', push', pop'⟩, reader,
    same ▸ pushed, rfl⟩

/-! ## A whole file -/

/-- A record that does not convert faults the thread. -/
theorem leads_faulted {s : Pipeline.State ReplayEngine.State (QueueMessage Double)}
    (resting : Resting s) {next : DiskReader} {f : RecordHeader × DepthRecord}
    (read : s.producer.reader.readNext = (some f, next)) (unconverted : fromRecord f.2 = none) :
    ∃ t, (replay reader₀ speed cap blank).Leads s t ∧ t.producer.pc = .faulted := by
  obtain ⟨queue, running, consumer, thread, processed⟩ := s
  obtain ⟨running, pc, paused, -⟩ := resting
  dsimp only at running pc paused read
  subst running
  obtain ⟨us, fetched⟩ := leads_sleeping pc paused read
  refine ⟨_, fetched.trans (.step (m := ⟨queue, true, consumer, { thread with
    pc := .faulted
    reader := next
    prevWallUs := f.1.wallTimestampUs }, processed⟩) (thread_turn ?_) (.refl _)), rfl⟩
  simp only [threadStep, unconverted]

/-- At the end of the file the replay finishes. -/
theorem leads_finished {s : Pipeline.State ReplayEngine.State (QueueMessage Double)}
    (resting : Resting s) {next : DiskReader}
    (refused : s.producer.reader.readNext = (none, next)) :
    ∃ t, (replay reader₀ speed cap blank).Leads s t ∧ t.producer.finished = true ∧
      t.queue = s.queue ∧ t.consumer = s.consumer := by
  obtain ⟨queue, running, consumer, thread, processed⟩ := s
  obtain ⟨running, pc, paused, -⟩ := resting
  dsimp only at running pc paused refused
  subst running
  refine ⟨_, (leads_read pc paused).trans (.step (m := ⟨queue, true, consumer,
    { thread with pc := .exited, reader := next, finished := true }, processed⟩)
    (thread_turn ?_) (.refl _)), rfl, rfl, rfl⟩
  simp only [threadStep, refused]

/-- Every front of the file that converts can be delivered and processed. -/
theorem leads_front {s : Pipeline.State ReplayEngine.State (QueueMessage Double)}
    (two : 1 < cap.val) (resting : Resting s) (front back : List (RecordHeader × DepthRecord))
    (ahead : s.producer.reader.Remaining (front ++ back))
    (converts : ∀ f ∈ front, fromRecord f.2 ≠ none) :
    ∃ t, (replay reader₀ speed cap blank).Leads s t ∧ Resting t ∧
      t.producer.reader.Remaining back := by
  induction front generalizing s with
  | nil => exact ⟨s, .refl s, resting, ahead⟩
  | cons f front ih =>
    cases ahead with
    | more read later =>
      obtain ⟨update, converted⟩ :=
        Option.ne_none_iff_exists'.mp (converts f List.mem_cons_self)
      obtain ⟨m, first, resting, reader, -⟩ :=
        @leads_next reader₀ speed cap blank s two resting _ f update read converted
      obtain ⟨t, rest, resting, ahead⟩ := ih resting (reader ▸ later)
        (fun g hg => converts g (List.mem_cons_of_mem f hg))
      exact ⟨t, first.trans rest, resting, ahead⟩

/-- A file whose records all convert can be replayed to completion. -/
theorem exists_completed (two : 1 < cap.val) (reader : DiskReader) (speed : PlaybackSpeed)
    (blank : QueueMessage Double) (converts : ∀ f ∈ reader.readAll, fromRecord f.2 ≠ none) :
    ∃ s, (replay reader speed cap blank).Reachable s ∧ Completed s := by
  have ahead := reader.remaining_readAll
  rw [← List.append_nil reader.readAll] at ahead
  obtain ⟨s, delivered, resting, last⟩ :=
    leads_front two (resting_initial reader speed blank) reader.readAll [] ahead converts
  cases last with
  | done refused =>
    obtain ⟨t, finishes, finished, queue, consumer⟩ := leads_finished resting refused
    refine ⟨t, delivered.trans finishes, finished, ?_, ?_⟩
    · rw [queue, resting.empty]
    · rw [consumer, resting.consumer]
      rfl

end ReplaySchedule
