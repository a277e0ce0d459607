import MarketDataEngine.ReplaySession
import MarketDataEngine.ReplayShutdown
import MarketDataEngine.Starvation

/-!
# The replay program gets through its file

Under fair scheduling and with nobody pausing it for ever, the replay program does not only
stop when told: it reads its file to the end, has every record processed and returns. The
replay thread may be refused by a full queue again and again, so until it finds room it is
the processing loop that has to go on; after the end of the file the status loop may still act
on old indices, and then looks again.
-/

namespace ReplayLiveness

open Transition MarketTypes RecordFormat Pipeline ReplayEngine ReplayMain ReplayShutdown
open DrainWork Starvation

variable {parse : List UInt8 → Option Json} {reader : DiskReader} {speed : PlaybackSpeed}
  {cap : SpscQueue.Capacity} {blank : QueueMessage Double}

/-! ## One record -/

/-- The thread is inside a `try_push` that may still be refused, or was. -/
def trying (pushPc : SpscQueue.PushPc (QueueMessage Double)) : ReplayEngine.Pc → Bool
  | .retryCheck _ => true
  | .pushing =>
    match pushPc with
    | .loadTail _ _ | .loadHead _ _ _ | .returned false _ => true
    | _ => false
  | _ => false

/-- The accesses to the next read, if the push that is due finds room. -/
def stage (pushPc : SpscQueue.PushPc (QueueMessage Double)) : ReplayEngine.Pc → Nat
  | .read | .exited | .faulted => 0
  | .checkResume => 1
  | .checkPaused => 2
  | .checkRunning | .pausedRunning => 3
  | .count => 4
  | .pushing =>
    match pushPc with
    | .ready => 0
    | .returned true _ => 5
    | .storeTail _ _ _ => 6
    | .copy _ _ _ => 7
    | .loadHead _ _ _ => 8
    | .loadTail _ _ => 9
    | .returned false _ => 11
  | .retryCheck _ => 10
  | .sleeping _ _ => 20
  | .delay _ _ => 21

theorem stage_trying {pushPc : SpscQueue.PushPc (QueueMessage Double)} {pc : ReplayEngine.Pc}
    (h : trying pushPc pc = true) : stage pushPc pc ≤ 11 := by
  unfold trying at h
  split at h
  · simp [stage]
  · split at h <;> simp_all [stage]
  · cases h

/-- The thread tries to push and the queue is full. -/
def Stalled (cap : SpscQueue.Capacity) (queue : SpscQueue.State (QueueMessage Double))
    (pc : ReplayEngine.Pc) : Prop :=
  trying queue.pushPc pc = true ∧ SpscQueue.held queue = cap.val - 1

/-- The bytes that the reader has not passed yet. -/
def unread (reader : DiskReader) : Nat := reader.content.length - reader.pos

/-- What one access of the thread does to its way to the next read. -/
inductive Advance (cap : SpscQueue.Capacity) (queue queue' : SpscQueue.State (QueueMessage Double))
    (thread thread' : ReplayEngine.State) : Prop
  | finished (finished : thread'.finished = true)
  | record (read : unread thread'.reader < unread thread.reader)
    (stage : stage queue'.pushPc thread'.pc ≤ 21) (calm : ¬ Stalled cap queue' thread'.pc)
  | call (same : thread'.reader = thread.reader) (before : stage queue.pushPc thread.pc = 20)
    (after : stage queue'.pushPc thread'.pc ≤ 11)
  | stalled (same : thread'.reader = thread.reader) (before : Stalled cap queue thread.pc)
    (after : Stalled cap queue' thread'.pc)
  | closer (same : thread'.reader = thread.reader) (calm : ¬ Stalled cap queue thread.pc)
    (calm' : ¬ Stalled cap queue' thread'.pc)
    (closer : stage queue'.pushPc thread'.pc < stage queue.pushPc thread.pc)

/-- A step from one attempt to the next, which another thread may have to make succeed. -/
theorem trying_advance {queue queue' : SpscQueue.State (QueueMessage Double)}
    {thread thread' : ReplayEngine.State} (same : thread'.reader = thread.reader)
    (held : SpscQueue.held queue' = SpscQueue.held queue)
    (before : trying queue.pushPc thread.pc = true)
    (after : trying queue'.pushPc thread'.pc = true)
    (closer : stage queue'.pushPc thread'.pc < stage queue.pushPc thread.pc ∨
      SpscQueue.held queue = cap.val - 1) : Advance cap queue queue' thread thread' := by
  by_cases full : SpscQueue.held queue = cap.val - 1
  · exact .stalled same ⟨before, full⟩ ⟨after, held.trans full⟩
  · exact .closer same (fun stalled => full stalled.2)
      (fun stalled => full (held.symm.trans stalled.2)) (closer.resolve_right full)

theorem push_advance {queue queue' : SpscQueue.State (QueueMessage Double)}
    {thread : ReplayEngine.State} {left : QueueMessage Double} (inv : SpscQueue.Inv cap queue)
    (pc : thread.pc = .pushing) (h : SpscQueue.next cap queue (.push left) = some queue') :
    Advance cap queue queue' thread thread := by
  cases pushPc : queue.pushPc with
  | ready | returned ok item => simp [SpscQueue.next, SpscQueue.pushStep, pushPc] at h
  | loadTail o item =>
    simp only [SpscQueue.next, SpscQueue.pushStep, pushPc] at h
    cases h
    exact trying_advance rfl rfl (by simp [trying, pc, pushPc]) (by simp [trying, pc])
      (Or.inl (by simp [stage, pc, pushPc]))
  | loadHead o item tail =>
    have ok := inv.push
    rw [pushPc] at ok
    rw [show tail = queue.tail from ok] at pushPc
    simp only [SpscQueue.next, SpscQueue.pushStep, pushPc] at h
    split_ifs at h with same
    · have full := (SpscQueue.full_iff inv).mp same
      cases h
      exact trying_advance rfl rfl (by simp [trying, pc, pushPc]) (by simp [trying, pc])
        (Or.inr full)
    · have room := fun full => same ((SpscQueue.full_iff inv).mpr full)
      cases h
      exact .closer rfl (fun stalled => room stalled.2) (fun stalled => room stalled.2)
        (by simp [stage, pc, pushPc])
  | copy o item tail | storeTail o item tail =>
    simp only [SpscQueue.next, SpscQueue.pushStep, pushPc] at h
    cases h
    exact .closer rfl (by simp [Stalled, trying, pc, pushPc]) (by simp [Stalled, trying, pc])
      (by simp [stage, pc, pushPc])

/-- The tests between two records let the thread through, if nobody pauses it. -/
theorem control_advance {queue : SpscQueue.State (QueueMessage Double)}
    {thread thread' : ReplayEngine.State} {act : Option (PushAction (QueueMessage Double))}
    {left : QueueMessage Double} {now enqueued : TimePoint} (before : thread.pc.Control)
    (unpaused : thread.paused = false)
    (h : threadStep true queue.pushPc thread left now enqueued = some (thread', act)) :
    Advance cap queue queue thread thread' := by
  cases pc : thread.pc with
  | checkRunning | checkPaused | pausedRunning | checkResume =>
    simp only [threadStep, pc, unpaused] at h
    cases h
    exact .closer rfl (by simp [Stalled, trying, pc]) (by simp [Stalled, trying])
      (by simp [stage, pc])
  | _ => simp [pc, Pc.Control] at before

theorem turn_advance {queue queue' : SpscQueue.State (QueueMessage Double)}
    {thread thread' : ReplayEngine.State} {act : Option (PushAction (QueueMessage Double))}
    {left : QueueMessage Double} {now enqueued : TimePoint} (inv : SpscQueue.Inv cap queue)
    (unpaused : thread.paused = false) (converts : thread'.pc ≠ .faulted)
    (h : threadStep true queue.pushPc thread left now enqueued = some (thread', act))
    (acted : Acted cap queue act queue') : Advance cap queue queue' thread thread' := by
  cases threadStep_turn h with
  | control before after =>
    obtain rfl : queue' = queue := acted
    exact control_advance before unpaused h
  | finish pc read => exact .finished rfl
  | read pc read =>
    obtain ⟨rfl, inside⟩ := DiskReader.readNext_some read
    refine .record ?_ (by simp [stage]) (by simp [Stalled, trying])
    simp only [unread]
    rw [frame_size] at inside ⊢
    omega
  | delay pc | count pc =>
    obtain rfl : queue' = queue := acted
    exact .closer rfl (by simp [Stalled, trying, pc]) (by simp [Stalled, trying])
      (by simp [stage, pc])
  | fault pc => exact absurd rfl converts
  | push pc =>
    obtain rfl := SpscQueue.callPush_frame acted
    exact .call rfl (by simp [stage, pc]) (by simp [stage])
  | pushed pc returned =>
    obtain rfl : queue' = queue := acted
    exact .closer rfl (by simp [Stalled, trying, pc, returned]) (by simp [Stalled, trying])
      (by simp [stage, pc, returned])
  | refused pc returned =>
    obtain rfl : queue' = queue := acted
    exact trying_advance rfl rfl (by simp [trying, pc, returned]) (by simp [trying])
      (Or.inl (by simp [stage, pc, returned]))
  | inPush pc => exact push_advance inv pc acted
  | retry pc up =>
    obtain rfl := SpscQueue.callPush_frame acted
    exact trying_advance rfl rfl (by simp [trying, pc]) (by simp [trying])
      (Or.inl (by simp [stage, pc]))
  | abandon pc down => cases down

/-! ## To the end of the file -/

instance (cap : SpscQueue.Capacity) (queue : SpscQueue.State (QueueMessage Double))
    (pc : ReplayEngine.Pc) : Decidable (Stalled cap queue pc) :=
  inferInstanceAs (Decidable (_ ∧ _))

/-- A stalled thread waits for the processing loop, and moves in a circle until then. -/
def fileRank (cap : SpscQueue.Capacity) (threads : Threads) : Nat :=
  22 * unread threads.producer.reader +
    if Stalled cap threads.queue threads.producer.pc then
      12 + releaseDistance threads.queue.popPc threads.consumer
    else stage threads.queue.pushPc threads.producer.pc

def fileHelper (cap : SpscQueue.Capacity) (threads : Threads) : Thread :=
  if Stalled cap threads.queue threads.producer.pc then .process else .replay

theorem advance_fileRank {threads threads' : Threads}
    (popPc : threads'.queue.popPc = threads.queue.popPc)
    (consumer : threads'.consumer = threads.consumer)
    (advance : Advance cap threads.queue threads'.queue threads.producer threads'.producer) :
    threads'.producer.finished = true ∨ fileRank cap threads' < fileRank cap threads ∨
      fileRank cap threads' = fileRank cap threads ∧
        Stalled cap threads.queue threads.producer.pc ∧
        Stalled cap threads'.queue threads'.producer.pc := by
  have near := releaseDistance_le threads.queue.popPc threads.consumer
  unfold fileRank
  rw [popPc, consumer]
  cases advance with
  | finished finished => exact Or.inl finished
  | record read stage calm =>
    rw [if_neg calm]
    exact Or.inr (Or.inl (by omega))
  | call same before after =>
    have calm : ¬ Stalled cap threads.queue threads.producer.pc :=
      fun stalled => by have := stage_trying stalled.1; omega
    rw [same, if_neg calm, before]
    exact Or.inr (Or.inl (by split <;> omega))
  | stalled same before after =>
    rw [same, if_pos before, if_pos after]
    exact Or.inr (Or.inr ⟨rfl, before, after⟩)
  | closer same calm calm' closer =>
    rw [same, if_neg calm, if_neg calm']
    exact Or.inr (Or.inl (Nat.add_lt_add_left closer _))

/-- The processing loop gives a stalled thread room, and does not stall another. -/
theorem consumer_fileRank {threads threads' : Threads} {left : QueueMessage Double}
    (room : 1 < cap.val)
    (reached : (Pipeline.machine (producer reader speed) cap blank).Reachable threads)
    (up : threads.running = true) (h : consumerStep cap left threads = some threads') :
    fileRank cap threads' < fileRank cap threads ∨
      fileRank cap threads' = fileRank cap threads ∧
        ¬ Stalled cap threads.queue threads.producer.pc ∧
        ¬ Stalled cap threads'.queue threads'.producer.pc := by
  have inv := queue_inv reached
  obtain ⟨-, pushed, pushPc, same, -⟩ := consumerStep_handled (reachable_handled reached) h
  have grows := (SpscQueue.leads_grows ((refines_queue (producer reader speed) cap blank).leads
    reached (.step (a := .consumer left) h (.refl _)))).1.length_le
  have within := (queue_inv (reached.next (a := .consumer left) h)).fifo.length_le
  have room' := inv.room
  have le := inv.fifo.length_le
  unfold fileRank
  rw [pushPc, same]
  by_cases stalled : Stalled cap threads.queue threads.producer.pc
  · have full := stalled.2
    unfold SpscQueue.held at full
    obtain ⟨-, closer⟩ :=
      consumerStep_distance inv (by omega) (undrained_of_up reached up) h
    have below := stage_trying stalled.1
    rw [if_pos stalled]
    refine Or.inl ?_
    split
    · rename_i still
      have full' := still.2
      unfold SpscQueue.held at full'
      rw [pushed] at full' within
      omega
    · omega
  · have calm : ¬ Stalled cap threads'.queue threads.producer.pc := by
      rintro ⟨trying, full⟩
      rw [pushPc] at trying
      refine stalled ⟨trying, ?_⟩
      unfold SpscQueue.held at full ⊢
      rw [pushed] at full within
      omega
    rw [if_neg stalled, if_neg calm]
    exact Or.inr ⟨rfl, stalled, calm⟩

/-! ## The other actions -/

/-- The main thread, the dashboard and a signal touch neither the queue nor what the replay
thread has read. -/
structure Untouched (threads threads' : Threads) : Prop where
  queue : threads'.queue = threads.queue
  consumer : threads'.consumer = threads.consumer
  pc : threads'.producer.pc = threads.producer.pc
  reader : threads'.producer.reader = threads.producer.reader
  finished : threads'.producer.finished = threads.producer.finished

theorem mainTurn_untouched {s t : ReplayMain.State} (turn : MainTurn s t) :
    Untouched s.threads t.threads := by
  cases turn <;> exact ⟨rfl, rfl, rfl, rfl, rfl⟩

theorem next_untouched {s t : ReplayMain.State} {a : ReplayMain.Action}
    (h : (ReplayMain.machine parse reader speed cap blank).next s a = some t)
    (foreign : owner a = none) : Untouched s.threads t.threads ∧ t.main = s.main := by
  cases a with
  | replay left now enqueued | process left | main headFirst => cases foreign
  | signal =>
    cases h
    exact ⟨⟨rfl, rfl, rfl, rfl, rfl⟩, rfl⟩
  | command msg =>
    simp only [ReplayMain.machine, ReplayMain.next] at h
    split at h
    · cases h
      exact ⟨⟨rfl, rfl, rfl, rfl, rfl⟩, rfl⟩
    · rename_i act asked
      obtain ⟨threads', stepped, rfl⟩ := Option.map_eq_some_iff.mp h
      obtain ⟨thread, pushed, queue, moves, acted, rfl⟩ := producerStep_acted stepped
      rcases ReplayControl.commandOf_control asked with rfl | rfl | ⟨speed, rfl⟩ <;>
        cases moves <;> cases acted <;> exact ⟨⟨rfl, rfl, rfl, rfl, rfl⟩, rfl⟩

theorem Untouched.fileRank_eq {threads threads' : Threads} (same : Untouched threads threads') :
    fileRank cap threads' = fileRank cap threads ∧
      fileHelper cap threads' = fileHelper cap threads := by
  simp only [fileRank, fileHelper, same.queue, same.consumer, same.pc, same.reader, and_self]

/-! ## What is known in each phase -/

theorem threadStep_exited {running : Bool} {pushPc : SpscQueue.PushPc (QueueMessage Double)}
    {thread thread' : ReplayEngine.State} {act : Option (PushAction (QueueMessage Double))}
    {left : QueueMessage Double} {now enqueued : TimePoint}
    (h : threadStep running pushPc thread left now enqueued = some (thread', act))
    (exited : thread'.pc = .exited) : thread'.finished = true ∨ running = false := by
  cases running with
  | false => exact Or.inr rfl
  | true =>
    cases threadStep_turn h with
    | finish pc read => exact Or.inl rfl
    | abandon pc down => cases down
    | control before after =>
      cases pc : thread.pc with
      | checkRunning | checkPaused | pausedRunning | checkResume =>
        simp only [threadStep, pc] at h
        cases h
        cases paused : thread.paused <;> simp [paused] at exited
      | _ => simp [pc, Pc.Control] at before
    | inPush pc => cases pc.symm.trans exited
    | _ => cases exited

/-- The replay thread exits at the end of the file or with the flag down. -/
theorem reachable_ended {threads : Threads}
    (reached : (Pipeline.machine (producer reader speed) cap blank).Reachable threads)
    (exited : threads.producer.pc = .exited) :
    threads.producer.finished = true ∨ threads.running = false := by
  refine Machine.invariant (Pipeline.machine (producer reader speed) cap blank)
    (fun threads => threads.producer.pc = .exited →
      threads.producer.finished = true ∨ threads.running = false)
    (fun exited => by cases exited) ?_ reached exited
  intro threads a threads' reached ended h exited
  cases a with
  | producer a =>
    obtain ⟨thread, act, queue, moves, -, rfl⟩ := producerStep_acted h
    cases a with
    | step left now enqueued => exact threadStep_exited moves exited
    | pause | resume | setSpeed speed =>
      cases moves
      exact ended exited
  | consumer left =>
    obtain ⟨-, -, -, same, running⟩ := consumerStep_handled (reachable_handled reached) h
    rw [same] at exited ⊢
    rw [running]
    exact ended exited
  | shutdown =>
    cases h
    exact Or.inr rfl

theorem reachable_sound {s : ReplayMain.State}
    (converts : ∀ f ∈ reader.readAll, fromRecord f.2 ≠ none)
    (reached : (ReplayMain.machine parse reader speed cap blank).Reachable s) :
    s.threads.producer.pc ≠ .faulted := by
  intro faulted
  obtain ⟨f, mem, unconverted⟩ :=
    ReplayProgress.faulted_record (reachable_threads reached) faulted
  exact converts f mem unconverted

theorem up_of_undone {s : ReplayMain.State} (unsignalled : Unsignalled s)
    (undone : ¬ Done s.threads) : s.threads.running = true := by
  by_contra down
  exact undone (unsignalled.down (Bool.not_eq_true _ ▸ down))

/-- The file is read to its end, and every record pushed. -/
def fileRanking (parse : List UInt8 → Option Json) (reader : DiskReader) (speed : PlaybackSpeed)
    (cap : SpscQueue.Capacity) (blank : QueueMessage Double) (room : 1 < cap.val)
    (converts : ∀ f ∈ reader.readAll, fromRecord f.2 ≠ none) :
    Ranking (ReplayMain.machine parse reader speed cap blank) owner
      (fun s => (ReplayMain.machine parse reader speed cap blank).Reachable s ∧ Unsignalled s ∧
        s.threads.producer.paused = false)
      (fun _ => True) (fun s => s.threads.producer.finished = true) where
  rank s := fileRank cap s.threads
  helper s := fileHelper cap s.threads
  enabled := by
    rintro s ⟨reached, unsignalled, -⟩ - unfinished
    have up := up_of_undone unsignalled (fun done => unfinished done.finished)
    have threads := reachable_threads reached
    unfold fileHelper
    split
    · exact enabled_process reached (fun exited => undrained_of_up threads up (Or.inl exited))
    · refine enabled_replay reached (fun exited => ?_) (reachable_sound converts reached)
      rcases reachable_ended threads exited with finished | down
      · exact unfinished finished
      · rw [up] at down
        cases down
  step := by
    rintro s a t ⟨reached, unsignalled, unpaused⟩ ⟨reached', -, -⟩ - unfinished h
    have up := up_of_undone unsignalled (fun done => unfinished done.finished)
    have threads := reachable_threads reached
    cases a with
    | replay left now enqueued =>
      obtain ⟨threads', stepped, rfl⟩ := Option.map_eq_some_iff.mp h
      obtain ⟨-, consumer, -, -, popPc, -⟩ := producerStep_frame stepped
      obtain ⟨thread, act, queue, moves, acted, rfl⟩ := producerStep_acted stepped
      rw [up] at moves
      have advance := turn_advance (queue_inv threads) unpaused
        (reachable_sound converts reached') moves acted
      rcases advance_fileRank popPc consumer advance with
        finished | closer | ⟨same, stalled, stalled'⟩
      · exact Or.inl finished
      · exact Or.inr ⟨trivial, Or.inl closer⟩
      · refine Or.inr ⟨trivial, Or.inr ⟨same, ?_, ?_⟩⟩
        · simp only [fileHelper, if_pos stalled, if_pos stalled']
        · simp [fileHelper, if_pos stalled, owner]
    | process left =>
      obtain ⟨threads', stepped, rfl⟩ := Option.map_eq_some_iff.mp h
      rcases consumer_fileRank room threads up stepped with closer | ⟨same, calm, calm'⟩
      · exact Or.inr ⟨trivial, Or.inl closer⟩
      · refine Or.inr ⟨trivial, Or.inr ⟨same, ?_, ?_⟩⟩
        · simp only [fileHelper, if_neg calm, if_neg calm']
        · simp [fileHelper, if_neg calm, owner]
    | main headFirst =>
      obtain ⟨rank, helper⟩ :=
        @Untouched.fileRank_eq cap _ _ (mainTurn_untouched (mainStep_turn h))
      refine Or.inr ⟨trivial, Or.inr ⟨rank, helper, ?_⟩⟩
      unfold fileHelper
      split <;> simp [owner]
    | command msg | signal =>
      obtain ⟨rank, helper⟩ := @Untouched.fileRank_eq cap _ _ (next_untouched h rfl).1
      exact Or.inr ⟨trivial, Or.inr ⟨rank, helper, by simp [owner]⟩⟩

/-! ## To the end of the program -/

/-- After the end of the file, everything pushed is popped. -/
def drainRanking (parse : List UInt8 → Option Json) (reader : DiskReader) (speed : PlaybackSpeed)
    (cap : SpscQueue.Capacity) (blank : QueueMessage Double) :
    Ranking (ReplayMain.machine parse reader speed cap blank) owner
      (fun s => (ReplayMain.machine parse reader speed cap blank).Reachable s ∧ Unsignalled s)
      (fun s => s.threads.producer.finished = true) (fun s => Done s.threads) where
  rank s := releaseDistance s.threads.queue.popPc s.threads.consumer +
    8 * SpscQueue.held s.threads.queue
  helper _ := .process
  enabled := by
    rintro s ⟨reached, unsignalled⟩ - undone
    have up := up_of_undone unsignalled undone
    exact enabled_process reached
      (fun exited => undrained_of_up (reachable_threads reached) up (Or.inl exited))
  step := by
    rintro s a t ⟨reached, unsignalled⟩ - finished undone h
    have up := up_of_undone unsignalled undone
    have threads := reachable_threads reached
    cases a with
    | replay left now enqueued =>
      obtain ⟨threads', stepped, rfl⟩ := Option.map_eq_some_iff.mp h
      obtain ⟨-, consumer, -, popped, popPc, -⟩ := producerStep_frame stepped
      obtain ⟨finished', pushed⟩ := finished_step threads finished stepped
      refine Or.inr ⟨finished', Or.inr ⟨?_, rfl, by simp [owner]⟩⟩
      simp only [SpscQueue.held, consumer, popped, popPc, pushed]
    | process left =>
      obtain ⟨threads', stepped, rfl⟩ := Option.map_eq_some_iff.mp h
      obtain ⟨finished', -⟩ := finished_step threads finished stepped
      have within := (queue_inv threads).fifo.length_le
      have filled : s.threads.queue.popped.length < s.threads.queue.pushed.length :=
        Nat.lt_of_le_of_ne within (fun same => undone ⟨finished, same⟩)
      exact Or.inr ⟨finished', Or.inl (consumerStep_held threads filled
        (undrained_of_up threads up) stepped)⟩
    | main headFirst =>
      have same := mainTurn_untouched (mainStep_turn h)
      refine Or.inr ⟨same.finished.trans finished, Or.inr ⟨?_, rfl, by simp [owner]⟩⟩
      rw [same.queue, same.consumer]
    | command msg | signal =>
      obtain ⟨same, -⟩ := next_untouched h rfl
      refine Or.inr ⟨same.finished.trans finished, Or.inr ⟨?_, rfl, by simp [owner]⟩⟩
      rw [same.queue, same.consumer]

/-- The accesses of the status loop until it clears the flag, if it acts on old indices once
at most. -/
def lookDistance (s : ReplayMain.State) : Nat :=
  match s.main with
  | .clearRunning => 1
  | .loadTail head => if head = s.threads.queue.tail then 2 else 8
  | .loadHead tail => if s.threads.queue.head = tail then 2 else 8
  | .loadFirst => 3
  | .loadFinished => 4
  | .recheckRunning => 5
  | .sleeping => 6
  | .checkRunning => 7
  | .stopServers | .unpause | .joinReplay | .joinProcessor | .returned => 0

/-- The main thread has left its status loop. -/
def Left : ReplayMain.Pc → Prop
  | .stopServers | .unpause | .joinReplay | .joinProcessor | .returned => True
  | _ => False

/-- It leaves the loop with the flag down. -/
theorem reachable_left {s : ReplayMain.State}
    (reached : (ReplayMain.machine parse reader speed cap blank).Reachable s) (left : Left s.main) :
    s.threads.running = false := by
  refine Machine.invariant (ReplayMain.machine parse reader speed cap blank)
    (fun s => Left s.main → s.threads.running = false) False.elim ?_ reached left
  intro s a t reached down h left
  rcases next_cases h with turn | ⟨main, same | ⟨b, stepped, -⟩⟩
  · cases turn with
    | leave pc down => exact down
    | stop pc | unpause pc | joinReplay pc | joinProcessor pc =>
      rw [pc] at down
      exact down trivial
    | _ => cases left
  · rw [main] at left
    rw [same]
    exact down left
  · rw [main] at left
    cases b with
    | producer a => exact (producerStep_frame stepped).1.trans (down left)
    | consumer msg =>
      exact (consumerStep_handled (reachable_handled (reachable_threads reached))
        stepped).2.2.2.2.trans (down left)
    | shutdown => exact congrArg Pipeline.State.running (Option.some.inj stepped).symm

/-- Once the replay is done the indices of the queue no longer move. -/
theorem done_step {threads threads' : Threads}
    {b : Pipeline.Action ReplayEngine.Action (QueueMessage Double)}
    (reached : (Pipeline.machine (producer reader speed) cap blank).Reachable threads)
    (done : Done threads)
    (h : Pipeline.next (producer reader speed) cap threads b = some threads') :
    Done threads' ∧ threads'.queue.head = threads.queue.head ∧
      threads'.queue.tail = threads.queue.tail := by
  obtain ⟨finished, pushed⟩ := finished_step reached done.finished h
  have emptied := emptied_step reached h pushed done.emptied
  have inv := queue_inv reached
  have inv' := queue_inv (reached.next (a := b) h)
  refine ⟨⟨finished, emptied⟩, ?_, tail_of_pushed inv inv' pushed⟩
  rw [inv'.head_eq, inv.head_eq, emptied, pushed, done.emptied]

/-- With the replay done, every access of the status loop brings the clearing of the flag
closer. -/
theorem mainStep_look {s t : ReplayMain.State} {headFirst : Bool}
    (reached : (ReplayMain.machine parse reader speed cap blank).Reachable s)
    (done : Done s.threads) (up : s.threads.running = true) (h : mainStep headFirst s = some t) :
    t.threads.running = false ∨ Done t.threads ∧ lookDistance t < lookDistance s := by
  have same := (emptied_iff (queue_inv (reachable_threads reached))).mpr done.emptied
  have inside : ¬ Left s.main := fun left => by
    have down := reachable_left reached left
    rw [up] at down
    cases down
  cases pc : s.main with
  | stopServers | unpause | joinReplay | joinProcessor | returned =>
    rw [pc] at inside
    exact absurd trivial inside
  | clearRunning =>
    simp only [mainStep, pc] at h
    cases h
    exact Or.inl rfl
  | checkRunning | sleeping | recheckRunning | loadFinished =>
    simp only [mainStep, pc, up, done.finished, if_true] at h
    cases h
    exact Or.inr ⟨done, by simp [lookDistance, pc]⟩
  | loadFirst =>
    simp only [mainStep, pc] at h
    cases h
    exact Or.inr ⟨done, by cases headFirst <;> simp [lookDistance, pc, same]⟩
  | loadTail head =>
    simp only [mainStep, pc] at h
    cases h
    by_cases empty : head = s.threads.queue.tail <;>
      exact Or.inr ⟨done, by simp [lookDistance, pc, empty]⟩
  | loadHead tail =>
    simp only [mainStep, pc] at h
    cases h
    by_cases empty : s.threads.queue.head = tail <;>
      exact Or.inr ⟨done, by simp [lookDistance, pc, empty]⟩

/-- With the replay done, the flag goes down. -/
def lookRanking (parse : List UInt8 → Option Json) (reader : DiskReader) (speed : PlaybackSpeed)
    (cap : SpscQueue.Capacity) (blank : QueueMessage Double) :
    Ranking (ReplayMain.machine parse reader speed cap blank) owner
      (ReplayMain.machine parse reader speed cap blank).Reachable
      (fun s => Done s.threads) (fun s => s.threads.running = false) where
  rank := lookDistance
  helper _ := .main
  enabled := by
    intro s reached done up
    refine ⟨.main true, ?_⟩
    have inside : ¬ Left s.main := fun left => up (reachable_left reached left)
    cases pc : s.main with
    | stopServers | unpause | joinReplay | joinProcessor | returned =>
      rw [pc] at inside
      exact absurd trivial inside
    | _ => simp [ReplayMain.machine, ReplayMain.next, mainStep, pc, owner]
  step := by
    intro s a t reached reached' done up h
    have up := Bool.not_eq_false _ ▸ up
    have moved : ∀ b threads', Pipeline.next (producer reader speed) cap s.threads b =
        some threads' → Done threads' ∧ lookDistance { s with threads := threads' } =
          lookDistance s := by
      intro b threads' stepped
      obtain ⟨done', head, tail⟩ := done_step (reachable_threads reached) done stepped
      exact ⟨done', by simp only [lookDistance, head, tail]⟩
    cases a with
    | replay left now enqueued | process left =>
      obtain ⟨threads', stepped, rfl⟩ := Option.map_eq_some_iff.mp h
      obtain ⟨done', same⟩ := moved _ threads' stepped
      exact Or.inr ⟨done', Or.inr ⟨same, rfl, by simp [owner]⟩⟩
    | main headFirst =>
      rcases mainStep_look reached done up h with down | ⟨done', closer⟩
      · exact Or.inl down
      · exact Or.inr ⟨done', Or.inl closer⟩
    | command msg | signal =>
      obtain ⟨same, main⟩ := next_untouched h rfl
      refine Or.inr ⟨⟨same.finished.trans done.finished, ?_⟩, Or.inr ⟨?_, rfl, by simp [owner]⟩⟩
      · rw [same.queue]
        exact done.emptied
      · simp only [lookDistance, main, same.queue]

theorem Untouched.waitsFor_eq {s t : ReplayMain.State} (same : Untouched s.threads t.threads)
    (main : t.main = s.main) : waitsFor t = waitsFor s := by
  simp only [waitsFor, main, same.pc, same.consumer]

/-- Once the flag is down the program returns. -/
def returnRanking (parse : List UInt8 → Option Json) (reader : DiskReader) (speed : PlaybackSpeed)
    (cap : SpscQueue.Capacity) (blank : QueueMessage Double)
    (converts : ∀ f ∈ reader.readAll, fromRecord f.2 ≠ none) :
    Ranking (ReplayMain.machine parse reader speed cap blank) owner
      (ReplayMain.machine parse reader speed cap blank).Reachable
      (fun s => s.threads.running = false) (fun s => s.main = .returned) where
  rank := work
  helper := waitsFor
  enabled reached _ waiting :=
    enabled_waitsFor reached (reachable_sound converts reached) waiting
  step := by
    intro s a t reached _ down _ h
    obtain ⟨down', paid⟩ := next_work reached down h
    refine Or.inr ⟨down', rank_of_paid paid (fun _ owned => ?_) (fun foreign => ?_)⟩
    · rw [ownCost_of_owner owned]
      exact Nat.one_pos
    · obtain ⟨same, main⟩ := next_untouched h foreign
      exact same.waitsFor_eq main

/-! ## Fair behaviours -/

/-- When the main thread has returned no thread is left. -/
theorem returned_stuck {s : ReplayMain.State}
    (reached : (ReplayMain.machine parse reader speed cap blank).Reachable s)
    (returned : s.main = .returned) {a : ReplayMain.Action} {thread : Thread}
    (owned : owner a = some thread) :
    (ReplayMain.machine parse reader speed cap blank).next s a = none := by
  have joined := reachable_joined reached
  rw [ReplayMain.Joined, returned] at joined
  obtain ⟨replay, process⟩ := joined
  cases a with
  | replay left now enqueued =>
    simp [ReplayMain.machine, ReplayMain.next, threadsStep, Pipeline.next, producerStep, producer,
      ReplayEngine.next, threadStep, replay]
  | process left =>
    simp [ReplayMain.machine, ReplayMain.next, threadsStep, Pipeline.next, consumerStep, process]
  | main headFirst => simp [ReplayMain.machine, ReplayMain.next, mainStep, returned]
  | command msg | signal => cases owned

end ReplayLiveness
