import MarketDataEngine.DrainWork
import MarketDataEngine.Fairness
import MarketDataEngine.PauseBound
import MarketDataEngine.ReplayMain

/-!
# The replay program comes down

Once the shared flag is down, whoever has cleared it, every thread of the replay program
has a bounded number of accesses left in every interleaving, and as long as `main` has not
returned some thread can take its next one: the joins cannot wait for ever. A record past
the pause test may still be pushed, and is paid for in advance.
-/

namespace ReplayShutdown

open Transition MarketTypes RecordFormat Pipeline ReplayEngine ReplayMain PauseBound DrainWork

variable {parse : List UInt8 → Option Json} {reader : DiskReader} {speed : PlaybackSpeed}
  {cap : SpscQueue.Capacity} {blank : QueueMessage Double}

/-! ## The replay thread -/

/-- The steps to the exit of the replay thread, with the flag down. -/
def replayWork (pushPc : SpscQueue.PushPc (QueueMessage Double)) : ReplayEngine.Pc → Nat
  | .exited | .faulted => 0
  | .checkRunning | .checkResume | .retryCheck _ => 1
  | .count | .pausedRunning => 2
  | .checkPaused => 3
  | .pushing =>
    match pushPc with
    | .ready => 0
    | .returned false _ => 2
    | .returned true _ => 3
    | .storeTail _ _ _ => 4
    | .copy _ _ _ => 5
    | .loadHead _ _ _ => 6
    | .loadTail _ _ => 7
  | .sleeping _ _ => 8
  | .delay _ _ => 9
  | .read => 10

theorem replayWork_le (pushPc : SpscQueue.PushPc (QueueMessage Double)) (pc : ReplayEngine.Pc) :
    replayWork pushPc pc ≤ 10 := by
  cases pc with
  | pushing =>
    cases pushPc with
    | returned ok item => cases ok <;> simp [replayWork]
    | _ => simp [replayWork]
  | _ => simp [replayWork]

/-- An access of a `try_push` brings the replay thread one step closer. -/
theorem push_work {pc pc' : SpscQueue.PushPc (QueueMessage Double)} (move : PushMove pc pc') :
    replayWork pc' .pushing + 1 ≤ replayWork pc .pushing := by
  cases move <;> simp [replayWork]

/-- With the flag down the tests between two records end the thread. -/
theorem control_work {pushPc : SpscQueue.PushPc (QueueMessage Double)}
    {thread thread' : ReplayEngine.State} {act : Option (PushAction (QueueMessage Double))}
    {left : QueueMessage Double} {now enqueued : TimePoint} (before : thread.pc.Control)
    (h : threadStep false pushPc thread left now enqueued = some (thread', act)) :
    replayWork pushPc thread'.pc + 1 ≤ replayWork pushPc thread.pc ∧
      committed false pushPc thread'.pc = 0 := by
  cases pc : thread.pc with
  | checkPaused =>
    simp only [threadStep, pc] at h
    cases h
    cases thread.paused <;> simp [replayWork, committed]
  | checkRunning | pausedRunning | checkResume =>
    simp only [threadStep, pc] at h
    cases h
    simp [replayWork, committed]
  | _ => simp [pc, Pc.Control] at before

/-- What the replay thread still has to do, with 7 for what it may still push. -/
def replayLoad (pushPc : SpscQueue.PushPc (QueueMessage Double)) (thread : ReplayEngine.State) :
    Nat :=
  replayWork pushPc thread.pc + 7 * committed false pushPc thread.pc

theorem replayLoad_le (pushPc : SpscQueue.PushPc (QueueMessage Double))
    (thread : ReplayEngine.State) : replayLoad pushPc thread ≤ 17 := by
  have replay := replayWork_le pushPc thread.pc
  have pending := committed_le false pushPc thread.pc
  unfold replayLoad
  omega

theorem turn_load {queue queue' : SpscQueue.State (QueueMessage Double)}
    {thread thread' : ReplayEngine.State} {act : Option (PushAction (QueueMessage Double))}
    {left : QueueMessage Double} {now enqueued : TimePoint}
    (h : threadStep false queue.pushPc thread left now enqueued = some (thread', act))
    (acted : Acted cap queue act queue') :
    replayLoad queue'.pushPc thread' + 7 * queue'.pushed.length + 1 ≤
      replayLoad queue.pushPc thread + 7 * queue.pushed.length := by
  unfold replayLoad
  cases threadStep_turn h with
  | control before after =>
    obtain rfl : queue' = queue := acted
    obtain ⟨work, none⟩ := control_work before h
    dsimp only at work none ⊢
    omega
  | finish pc | fault pc | abandon pc =>
    obtain rfl : queue' = queue := acted
    simp only [pc, replayWork, committed]
    omega
  | read pc | delay pc | count pc =>
    obtain rfl : queue' = queue := acted
    simp [pc, replayWork, committed]
  | pushed pc returned | refused pc returned =>
    obtain rfl : queue' = queue := acted
    simp [pc, returned, replayWork, committed]
  | push pc =>
    obtain rfl := SpscQueue.callPush_frame acted
    simp [pc, replayWork, committed]
  | retry pc up => cases up
  | inPush pc =>
    have work := push_work (push_move acted)
    have pushed := @push_committed cap false _ _ _ acted
    rw [pc]
    omega

/-- A step of the thread; the controls come from outside. -/
def replayCost : ReplayEngine.Action → Nat
  | .step _ _ _ => 1
  | .pause | .resume | .setSpeed _ => 0

theorem replay_paid (reader : DiskReader) (speed : PlaybackSpeed) (cap : SpscQueue.Capacity) :
    Paid (producer reader speed) cap replayLoad replayCost := by
  intro queue thread a thread' act queue' h acted
  cases a with
  | step left now enqueued => exact turn_load h acted
  | pause | resume | setSpeed speed =>
    cases h
    obtain rfl : queue' = queue := acted
    exact Nat.le_refl _

/-- The replay thread is inside a `try_push` exactly when it stands at one. -/
def ReplayAligned (queue : SpscQueue.State (QueueMessage Double)) (thread : ReplayEngine.State) :
    Prop :=
  match thread.pc with
  | .pushing => queue.pushPc ≠ .ready
  | _ => queue.pushPc.idle = true

theorem ReplayAligned.idle {queue : SpscQueue.State (QueueMessage Double)}
    {thread : ReplayEngine.State} (aligned : ReplayAligned queue thread)
    (outside : thread.pc ≠ .pushing) : queue.pushPc.idle = true := by
  unfold ReplayAligned at aligned
  split at aligned
  · rename_i pushing
    exact absurd pushing outside
  · exact aligned

theorem replayAligned_of_idle {queue : SpscQueue.State (QueueMessage Double)}
    {thread : ReplayEngine.State} (idle : queue.pushPc.idle = true)
    (outside : thread.pc ≠ .pushing) : ReplayAligned queue thread := by
  unfold ReplayAligned
  split
  · rename_i pushing
    exact absurd pushing outside
  · exact idle

theorem turn_aligned {running : Bool} {queue queue' : SpscQueue.State (QueueMessage Double)}
    {thread thread' : ReplayEngine.State} {act : Option (PushAction (QueueMessage Double))}
    (aligned : ReplayAligned queue thread) (turn : Turn running queue.pushPc thread thread' act)
    (acted : Acted cap queue act queue') : ReplayAligned queue' thread' := by
  cases turn with
  | @control pc' before after =>
    obtain rfl : queue' = queue := acted
    refine replayAligned_of_idle (aligned.idle (fun pc => ?_))
      (fun pc : pc' = .pushing => ?_)
    · simp [pc, ReplayEngine.Pc.Control] at before
    · simp [pc, ReplayEngine.Pc.Control] at after
  | finish pc | read pc | delay pc | fault pc | abandon pc | count pc =>
    obtain rfl : queue' = queue := acted
    exact replayAligned_of_idle (aligned.idle (by simp [pc])) (by simp)
  | pushed pc returned | refused pc returned =>
    obtain rfl : queue' = queue := acted
    exact replayAligned_of_idle (by rw [returned]; rfl) (by simp)
  | push pc | retry pc =>
    obtain rfl := SpscQueue.callPush_frame acted
    simp [ReplayAligned]
  | inPush pc =>
    unfold ReplayAligned
    rw [pc]
    exact (push_move acted).not_ready

theorem reachable_replayAligned {threads : Threads}
    (reached : (Pipeline.machine (producer reader speed) cap blank).Reachable threads) :
    ReplayAligned threads.queue threads.producer := by
  obtain ⟨as, run⟩ := reached
  refine producer_history (fun _ => ReplayAligned) ?_ ?_ ?_ run
  · exact replayAligned_of_idle rfl (by simp [producer])
  · intro _ a queue queue' thread _ pushed pushPc aligned
    unfold ReplayAligned at aligned ⊢
    rwa [pushPc]
  · intro _ a running queue queue' thread thread' act aligned h acted
    cases a with
    | step left now enqueued => exact turn_aligned aligned (threadStep_turn h) acted
    | pause | resume | setSpeed speed =>
      cases h
      obtain rfl : queue' = queue := acted
      exact aligned

/-- The replay thread waits for nothing until it has exited. -/
theorem exists_replayStep {threads : Threads} (left : QueueMessage Double)
    (aligned : ReplayAligned threads.queue threads.producer)
    (running : threads.producer.pc ≠ .exited) (sound : threads.producer.pc ≠ .faulted) :
    ∃ threads', Pipeline.next (producer reader speed) cap threads
      (.producer (.step left 0 0)) = some threads' := by
  have quiet : ∀ thread, threadStep threads.running threads.queue.pushPc threads.producer left 0 0 =
      some (thread, none) → ∃ threads', Pipeline.next (producer reader speed) cap threads
        (.producer (.step left 0 0)) = some threads' := by
    intro thread h
    have moves : (producer reader speed).next threads.running threads.queue.pushPc
      threads.producer (.step left 0 0) = some (thread, none) := h
    simp [Pipeline.next, producerStep, moves]
  have call : ∀ thread item, threads.queue.pushPc.idle = true →
      threadStep threads.running threads.queue.pushPc threads.producer left 0 0 =
        some (thread, some (.call item)) →
      ∃ threads', Pipeline.next (producer reader speed) cap threads
        (.producer (.step left 0 0)) = some threads' := by
    intro thread item idle h
    have moves : (producer reader speed).next threads.running threads.queue.pushPc
      threads.producer (.step left 0 0) = some (thread, some (.call item)) := h
    simp [Pipeline.next, producerStep, moves, PushAction.toQueue, SpscQueue.next, idle]
  cases pc : threads.producer.pc with
  | exited => exact absurd pc running
  | faulted => exact absurd pc sound
  | checkRunning | checkPaused | pausedRunning | checkResume | delay | count =>
    exact quiet _ (by simp only [threadStep, pc]; rfl)
  | read =>
    cases read : threads.producer.reader.readNext with
    | mk found next =>
      cases found <;> exact quiet _ (by simp only [threadStep, pc, read]; rfl)
  | sleeping us rec =>
    cases converted : fromRecord rec with
    | none => exact quiet _ (by simp only [threadStep, pc, converted]; rfl)
    | some update =>
      exact call _ _ (aligned.idle (by simp [pc])) (by simp only [threadStep, pc, converted]; rfl)
  | retryCheck msg =>
    cases up : threads.running with
    | true => exact call _ _ (aligned.idle (by simp [pc])) (by simp only [threadStep, pc, up]; rfl)
    | false => exact quiet _ (by simp only [threadStep, pc, up]; rfl)
  | pushing =>
    unfold ReplayAligned at aligned
    rw [pc] at aligned
    cases pushPc : threads.queue.pushPc with
    | ready => exact absurd pushPc aligned
    | returned ok item =>
      cases ok <;> exact quiet _ (by simp only [threadStep, pc, pushPc]; rfl)
    | loadTail o item | copy o item tail | storeTail o item tail =>
      simp [Pipeline.next, producerStep, producer, ReplayEngine.next, threadStep, pc, pushPc,
        PushAction.toQueue, SpscQueue.next, SpscQueue.pushStep]
    | loadHead o item tail =>
      by_cases full : SpscQueue.nextIndex cap tail = threads.queue.head <;>
        simp [Pipeline.next, producerStep, producer, ReplayEngine.next, threadStep, pc, pushPc,
          PushAction.toQueue, SpscQueue.next, SpscQueue.pushStep, full]

/-! ## The whole program -/

/-- The steps of the main thread to its return, with the flag down and no join waiting. -/
def mainWork : ReplayMain.Pc → Nat
  | .returned => 0
  | .joinProcessor => 1
  | .joinReplay => 2
  | .unpause => 3
  | .stopServers => 4
  | .checkRunning | .recheckRunning => 5
  | .sleeping | .clearRunning => 6
  | .loadTail _ | .loadHead _ => 7
  | .loadFirst => 8
  | .loadFinished => 9

theorem mainWork_le (pc : ReplayMain.Pc) : mainWork pc ≤ 9 := by
  cases pc <;> simp [mainWork]

def work (s : ReplayMain.State) : Nat := threadsWork replayLoad s.threads + mainWork s.main

/-- A thread's own step costs one; messages and signals come from outside. -/
def ownCost : ReplayMain.Action → Nat
  | .replay _ _ _ | .process _ | .main _ => 1
  | .command _ | .signal => 0

theorem mainTurn_work {s t : ReplayMain.State} (turn : MainTurn s t)
    (down : s.threads.running = false) :
    t.threads.running = false ∧ work t + 1 ≤ work s := by
  unfold work
  cases turn with
  | sleep pc up | look pc up => simp [down] at up
  | leave pc => rcases pc with pc | pc <;> exact ⟨down, by simp [pc, mainWork]⟩
  | holding pc => rcases pc with pc | pc <;> exact ⟨down, by simp [pc, mainWork]⟩
  | clear pc => exact ⟨rfl, by simp [pc, mainWork, threadsWork]⟩
  | unpause pc => exact ⟨down, by simp [pc, mainWork, threadsWork, replayLoad]⟩
  | _ => exact ⟨down, by simp [*, mainWork]⟩

/-- With the flag down every step of a thread is paid for, and nothing from outside
makes more of it. -/
theorem next_work {s t : ReplayMain.State} {a : ReplayMain.Action}
    (reached : (ReplayMain.machine parse reader speed cap blank).Reachable s)
    (down : s.threads.running = false) (h : ReplayMain.next parse reader speed cap s a = some t) :
    t.threads.running = false ∧ work t + ownCost a ≤ work s := by
  have taken : ∀ b, threadsStep reader speed cap s b = some t →
      t.threads.running = false ∧ work t + threadsCost replayCost b ≤ work s := by
    intro b moved
    obtain ⟨threads', stepped, rfl⟩ := Option.map_eq_some_iff.mp moved
    obtain ⟨stays, paid⟩ := next_threadsWork (replay_paid reader speed cap)
      (reachable_threads reached) down stepped
    refine ⟨stays, ?_⟩
    unfold work
    dsimp only
    omega
  cases a with
  | replay left now enqueued | process left | signal => exact taken _ h
  | main headFirst => exact mainTurn_work (mainStep_turn h) down
  | command msg =>
    simp only [ReplayMain.next] at h
    split at h
    · cases h
      exact ⟨down, Nat.le_refl _⟩
    · rename_i act asked
      obtain ⟨stays, paid⟩ := taken _ h
      exact ⟨stays, by dsimp only [ownCost]; omega⟩

/-- The threads of the program. -/
inductive Thread where
  | replay
  | process
  | main

/-- The thread that takes an action; messages and signals are nobody's. -/
def owner : ReplayMain.Action → Option Thread
  | .replay _ _ _ => some .replay
  | .process _ => some .process
  | .main _ => some .main
  | .command _ | .signal => none

/-- The thread that a join of the main thread waits for, or else the main thread. -/
def waitsFor (s : ReplayMain.State) : Thread :=
  match s.main with
  | .joinReplay =>
    match s.threads.producer.pc with
    | .exited => .main
    | _ => .replay
  | .joinProcessor =>
    match s.threads.consumer with
    | .exited => .main
    | _ => .process
  | _ => .main

theorem enabled_replay {s : ReplayMain.State}
    (reached : (ReplayMain.machine parse reader speed cap blank).Reachable s)
    (running : s.threads.producer.pc ≠ .exited) (sound : s.threads.producer.pc ≠ .faulted) :
    (ReplayMain.machine parse reader speed cap blank).Enabled owner .replay s := by
  obtain ⟨threads', stepped⟩ := @exists_replayStep reader speed cap s.threads blank
    (reachable_replayAligned (reachable_threads reached)) running sound
  exact ⟨.replay blank 0 0, { s with threads := threads' }, rfl,
    Option.map_eq_some_iff.mpr ⟨threads', stepped, rfl⟩⟩

theorem enabled_process {s : ReplayMain.State}
    (reached : (ReplayMain.machine parse reader speed cap blank).Reachable s)
    (running : s.threads.consumer ≠ .exited) :
    (ReplayMain.machine parse reader speed cap blank).Enabled owner .process s := by
  obtain ⟨threads', stepped⟩ := @exists_consumerStep _ _ cap s.threads blank
    (reachable_aligned (reachable_threads reached)) running
  exact ⟨.process blank, { s with threads := threads' }, rfl,
    Option.map_eq_some_iff.mpr ⟨threads', stepped, rfl⟩⟩

/-- As long as the main thread has not returned, it or the thread it waits for can step. -/
theorem enabled_waitsFor {s : ReplayMain.State}
    (reached : (ReplayMain.machine parse reader speed cap blank).Reachable s)
    (sound : s.threads.producer.pc ≠ .faulted) (waiting : s.main ≠ .returned) :
    (ReplayMain.machine parse reader speed cap blank).Enabled owner (waitsFor s) s := by
  have own : waitsFor s = .main → (∃ t, mainStep true s = some t) →
      (ReplayMain.machine parse reader speed cap blank).Enabled owner (waitsFor s) s :=
    fun helper ⟨t, h⟩ => ⟨.main true, t, congrArg some helper.symm, h⟩
  cases pc : s.main with
  | returned => exact absurd pc waiting
  | joinReplay =>
    by_cases exited : s.threads.producer.pc = .exited
    · exact own (by simp [waitsFor, pc, exited]) (by simp [mainStep, pc, exited])
    · rw [show waitsFor s = .replay by simp only [waitsFor, pc]]
      exact enabled_replay reached exited sound
  | joinProcessor =>
    by_cases exited : s.threads.consumer = .exited
    · exact own (by simp [waitsFor, pc, exited]) (by simp [mainStep, pc, exited])
    · rw [show waitsFor s = .process by simp only [waitsFor, pc]]
      exact enabled_process reached exited
  | _ => exact own (by simp [waitsFor, pc]) (by simp [mainStep, pc])

theorem ownCost_of_owner {a : ReplayMain.Action} {thread : Thread}
    (owned : owner a = some thread) : ownCost a = 1 := by
  cases a with
  | replay left now enqueued | process left | main headFirst => rfl
  | command msg | signal => cases owned

/-- As long as the main thread has not returned, some thread can take a step. -/
theorem exists_step {s : ReplayMain.State}
    (reached : (ReplayMain.machine parse reader speed cap blank).Reachable s)
    (sound : s.threads.producer.pc ≠ .faulted) (waiting : s.main ≠ .returned) :
    ∃ a t, ownCost a = 1 ∧ ReplayMain.next parse reader speed cap s a = some t := by
  obtain ⟨a, t, owned, stepped⟩ := enabled_waitsFor reached sound waiting
  exact ⟨a, t, ownCost_of_owner owned, stepped⟩

/-- Whatever the dashboard sends is the command to pause. -/
def pauseCommand (_ : List UInt8) : Option Json :=
  some (.object [(ascii "cmd", .string (ascii "pause"))])

/-- Two records are in the queue, the replay thread waits in its pause, and a signal comes. -/
def pausedSchedule : List ReplayMain.Action :=
  let replay := ReplayMain.Action.replay .blank 0 0
  List.replicate 24 replay ++ [.command [], replay, replay, .signal]

/-- The main thread ends the pause, and the processing loop drains the queue. -/
def drainingSchedule : List ReplayMain.Action :=
  List.replicate 3 (.main true) ++ List.replicate 2 (.replay .blank 0 0) ++
    List.replicate 16 (.process .blank) ++ List.replicate 2 (.main true)

end ReplayShutdown
