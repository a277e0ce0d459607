import MarketDataEngine.ReplayDelivery

/-!
# How far a paused replay still goes

`pause` only sets a flag that `run` reads between two records, so a record that
is past the test when the flag is set still goes through the queue. This module
counts that record, in every interleaving with the processing loop, the other
controls and a shutdown. `stop` clears the same flag as `resume` before it joins
the thread.
-/

namespace PauseBound

open Transition MarketTypes RecordFormat Pipeline ReplayEngine ReplayDelivery

variable {reader : DiskReader} {speed : PlaybackSpeed} {cap : SpscQueue.Capacity}
  {blank : QueueMessage Double}

/-! ## The record past the test -/

/-- The record the thread can still push without another test of the pause flag. At the
test of `running` that ends the pause loop there is one only while the flag is up. -/
def committed (running : Bool) (pushPc : SpscQueue.PushPc (QueueMessage Double)) : Pc → Nat
  | .checkResume => if running then 1 else 0
  | .read | .delay _ _ | .sleeping _ _ | .retryCheck _ => 1
  | .pushing =>
    match pushPc with
    | .returned true _ => 0
    | _ => 1
  | _ => 0

theorem committed_le (running : Bool) (pushPc : SpscQueue.PushPc (QueueMessage Double)) (pc : Pc) :
    committed running pushPc pc + uncounted pushPc pc ≤ 1 := by
  cases pc with
  | checkResume => cases running <;> simp [committed, uncounted]
  | pushing =>
    cases pushPc with
    | returned ok item => cases ok <;> simp [committed, uncounted]
    | _ => simp [committed, uncounted]
  | _ => simp [committed, uncounted]

/-- A shutdown takes the record away from a thread that has not read it yet. -/
theorem committed_down (running : Bool) (pushPc : SpscQueue.PushPc (QueueMessage Double))
    (pc : Pc) : committed false pushPc pc ≤ committed running pushPc pc := by
  cases pc <;> simp [committed]

/-- While the pause flag is set, the tests between two records let no new record through. -/
theorem control_committed {running : Bool} {pushPc : SpscQueue.PushPc (QueueMessage Double)}
    {thread thread' : ReplayEngine.State} {act : Option (PushAction (QueueMessage Double))}
    {left : QueueMessage Double} {now enqueued : TimePoint} (paused : thread.paused = true)
    (before : thread.pc.Control)
    (h : threadStep running pushPc thread left now enqueued = some (thread', act)) :
    committed running pushPc thread'.pc ≤ committed running pushPc thread.pc := by
  cases pc : thread.pc with
  | checkPaused =>
    simp only [threadStep, pc, paused] at h
    cases h
    simp [committed]
  | checkRunning | pausedRunning | checkResume =>
    -- the pause loop is left only with `running` down, and then nothing is read
    simp only [threadStep, pc] at h
    cases h
    cases running <;> simp [committed]
  | _ => simp [pc, Pc.Control] at before

theorem turn_paused {running : Bool} {pushPc : SpscQueue.PushPc (QueueMessage Double)}
    {thread thread' : ReplayEngine.State} {act : Option (PushAction (QueueMessage Double))}
    (turn : Turn running pushPc thread thread' act) : thread'.paused = thread.paused := by
  cases turn <;> rfl

/-- The store to `tail` turns the record past the test into a pushed one. -/
theorem push_committed {running : Bool} {left : QueueMessage Double}
    {queue queue' : SpscQueue.State (QueueMessage Double)}
    (h : SpscQueue.next cap queue (.push left) = some queue') :
    queue'.pushed.length + committed running queue'.pushPc .pushing ≤
      queue.pushed.length + committed running queue.pushPc .pushing := by
  have busy : committed running queue.pushPc .pushing = 1 := by
    cases pc : queue.pushPc with
    | returned ok item => simp [SpscQueue.next, SpscQueue.pushStep, pc] at h
    | _ => rfl
  obtain ⟨-, -, ⟨-, pushed⟩ | ⟨o, item, tail, -, returned, pushed⟩⟩ := SpscQueue.push_frame h
  · have bound := committed_le running queue'.pushPc .pushing
    rw [pushed, busy]
    omega
  · rw [pushed, busy, returned]
    simp [committed]

/-! ## Steps while the flag is set -/

/-- What is pushed, and the record that may follow. -/
def ahead (s : Pipeline.State ReplayEngine.State (QueueMessage Double)) : Nat :=
  s.queue.pushed.length + committed s.running s.queue.pushPc s.producer.pc

theorem turn_ahead {running : Bool} {queue queue' : SpscQueue.State (QueueMessage Double)}
    {thread thread' : ReplayEngine.State} {act : Option (PushAction (QueueMessage Double))}
    {left : QueueMessage Double} {now enqueued : TimePoint} (paused : thread.paused = true)
    (h : threadStep running queue.pushPc thread left now enqueued = some (thread', act))
    (acted : Acted cap queue act queue') :
    queue'.pushed.length + committed running queue'.pushPc thread'.pc ≤
      queue.pushed.length + committed running queue.pushPc thread.pc := by
  cases threadStep_turn h with
  | control before after =>
    obtain rfl : queue' = queue := acted
    exact Nat.add_le_add_left (control_committed paused before h) _
  | finish pc | read pc | delay pc | fault pc | abandon pc | count pc =>
    obtain rfl : queue' = queue := acted
    exact Nat.add_le_add_left (by simp [pc, committed]) _
  | pushed pc returned | refused pc returned =>
    obtain rfl : queue' = queue := acted
    exact Nat.add_le_add_left (by simp [pc, returned, committed]) _
  | push pc | retry pc =>
    obtain rfl := SpscQueue.callPush_frame acted
    exact Nat.add_le_add_left (by simp [pc, committed]) _
  | inPush pc =>
    rw [pc]
    exact push_committed acted

/-- Until `resume`, no step of any thread lets another record past the test. -/
theorem next_ahead {s t : Pipeline.State ReplayEngine.State (QueueMessage Double)}
    {a : Pipeline.Action ReplayEngine.Action (QueueMessage Double)} (handled : Handled s)
    (paused : s.producer.paused = true) (unresumed : a ≠ .producer .resume)
    (h : Pipeline.next (producer reader speed) cap s a = some t) :
    t.producer.paused = true ∧ s.queue.pushed <+: t.queue.pushed ∧ ahead t ≤ ahead s := by
  have front : s.queue.pushed <+: t.queue.pushed := by
    rcases step_pushed handled h with ⟨-, same⟩ | ⟨-, item, more⟩
    · rw [same]
    · exact more ▸ List.prefix_append _ _
  cases a with
  | producer a =>
    obtain ⟨thread, act, queue, moves, acted, rfl⟩ := producerStep_acted h
    cases a with
    | step left now enqueued =>
      exact ⟨(turn_paused (threadStep_turn moves)).trans paused, front,
        turn_ahead paused moves acted⟩
    | resume => exact absurd rfl unresumed
    | pause =>
      cases moves
      obtain rfl : queue = s.queue := acted
      exact ⟨rfl, front, Nat.le_refl _⟩
    | setSpeed speed =>
      cases moves
      obtain rfl : queue = s.queue := acted
      exact ⟨paused, front, Nat.le_refl _⟩
  | consumer left =>
    obtain ⟨-, pushed, pushPc, same, running⟩ := consumerStep_handled handled h
    refine ⟨same ▸ paused, front, ?_⟩
    rw [ahead, ahead, pushed, pushPc, same, running]
  | shutdown =>
    cases h
    exact ⟨paused, front, Nat.add_le_add_left (committed_down _ _ _) _⟩

/-- Along a run without `resume` the pause flag stays set. -/
theorem run_ahead {s t : Pipeline.State ReplayEngine.State (QueueMessage Double)}
    {as : List (Pipeline.Action ReplayEngine.Action (QueueMessage Double))}
    (reached : (machine (producer reader speed) cap blank).Reachable s)
    (paused : s.producer.paused = true) (unresumed : .producer .resume ∉ as)
    (run : (machine (producer reader speed) cap blank).run s as = some t) :
    t.producer.paused = true ∧ s.queue.pushed <+: t.queue.pushed ∧ ahead t ≤ ahead s := by
  induction as generalizing s with
  | nil =>
    cases run
    exact ⟨paused, List.prefix_rfl, Nat.le_refl _⟩
  | cons a rest ih =>
    obtain ⟨m, step, later⟩ := Machine.run_cons_some.mp run
    obtain ⟨first, others⟩ := List.ne_and_not_mem_of_not_mem_cons unresumed
    obtain ⟨stays, front, below⟩ :=
      next_ahead (reachable_handled reached) paused (Ne.symm first) step
    obtain ⟨kept, onward, bound⟩ := ih (reached.next step) stays others later
    exact ⟨kept, front.trans onward, Nat.le_trans bound below⟩

/-- In every interleaving: between the end of a `pause` and the next `resume` or `stop`
at most one record is pushed, and the counter grows by at most one. The steps `between`
are those the other threads take before `pause` returns. -/
theorem pause_bounds (reader : DiskReader) (speed : PlaybackSpeed) (cap : SpscQueue.Capacity)
    (blank : QueueMessage Double)
    {before between after : List (Pipeline.Action ReplayEngine.Action (QueueMessage Double))}
    {s t : Pipeline.State ReplayEngine.State (QueueMessage Double)}
    (paused : (machine (producer reader speed) cap blank).run
      (initial (producer reader speed) blank)
      (before ++ .producer .pause :: between) = some s)
    (later : (machine (producer reader speed) cap blank).run s after = some t)
    (unresumed : .producer .resume ∉ between ++ after) :
    s.queue.pushed <+: t.queue.pushed ∧ t.queue.pushed.length ≤ s.queue.pushed.length + 1 ∧
      t.producer.replayed ≤ s.producer.replayed + 1 := by
  have reached : (machine (producer reader speed) cap blank).Reachable s := ⟨_, paused⟩
  have stopped : s.producer.paused = true := by
    rw [List.append_cons, Machine.run_append, Option.bind_eq_some_iff] at paused
    obtain ⟨p, pausing, settles⟩ := paused
    obtain ⟨m, -, sets⟩ := Machine.run_snoc_some.mp pausing
    have set : p.producer.paused = true := by
      cases sets
      rfl
    exact (run_ahead ⟨_, pausing⟩ set
      (fun mem => unresumed (List.mem_append_left _ mem)) settles).1
  obtain ⟨-, front, bound⟩ := run_ahead reached stopped
    (fun mem => unresumed (List.mem_append_right _ mem)) later
  have first := committed_le s.running s.queue.pushPc s.producer.pc
  have countedBefore := (reachable_counted reached).replayed
  have countedAfter := (reachable_counted (reached.leads ⟨after, later⟩)).replayed
  simp only [ahead] at bound
  exact ⟨front, by omega, by omega⟩

/-- A replay paused while its record is in the delay pushes that record and counts it. -/
theorem pause_bounds_sampleWrite : ∃ reader before s t,
    DiskReader.openFile {} (some (ReplaySafety.fileOf (DiskLogger.frameOf DiskReader.sampleWrite.1
      DiskReader.sampleWrite.2))) = (true, reader) ∧
    (machine (producer reader .max) FeedHandler.feedQueue .blank).run
      (initial (producer reader .max) .blank) (before ++ .producer .pause :: []) = some s ∧
    (machine (producer reader .max) FeedHandler.feedQueue .blank).run s
      (List.replicate 7 (.producer (.step .blank 0 0))) = some t ∧
    s.queue.pushed = [] ∧ t.producer.replayed = 1 ∧ t.queue.pushed.length = 1 ∧
    t.queue.pushed.length ≤ s.queue.pushed.length + 1 := by
  obtain ⟨reader, opens, records⟩ := @ReplaySafety.fileOf_read
    (DiskLogger.frameOf DiskReader.sampleWrite.1 DiskReader.sampleWrite.2) rfl
  have remaining := reader.remaining_readAll
  rw [records] at remaining
  cases remaining with
  | @more _ next _ _ read _ =>
    obtain ⟨us, before, fetched⟩ := @ReplaySchedule.leads_sleeping reader .max
      FeedHandler.feedQueue .blank (SpscQueue.initial .blank) .checkRunning
      (producer reader .max).init [] rfl rfl _ _ _ read
    have paused : (machine (producer reader .max) FeedHandler.feedQueue .blank).run
        (initial (producer reader .max) .blank) (before ++ .producer .pause :: []) = some _ :=
      Machine.run_snoc_some.mpr ⟨_, fetched, rfl⟩
    have called := @ReplaySchedule.call_turn reader .max FeedHandler.feedQueue .blank
      (SpscQueue.initial .blank) .checkRunning
      { pc := .sleeping us (toRecord DiskReader.sampleWrite.1)
        reader := next
        prevWallUs := DiskReader.sampleWrite.2.wallUs
        speed := .max
        paused := true } [] us _ _ rfl (fromRecord_toRecord DiskReader.sampleWrite.1) rfl
    have pushed := Machine.run_cons_some.mpr ⟨_, called,
      ReplaySchedule.run_pushed rfl rfl (by decide)⟩
    refine ⟨reader, before, _, _, opens, paused, pushed, rfl, rfl, rfl, ?_⟩
    exact (pause_bounds reader .max FeedHandler.feedQueue .blank paused pushed (by simp)).2.1

end PauseBound
