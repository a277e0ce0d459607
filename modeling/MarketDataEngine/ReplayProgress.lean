import MarketDataEngine.ReplayEngine
import MarketDataEngine.FeedHandler

/-!
# What a replay delivers

How far a replay has come with the records of its file, in every interleaving
with the processing loop and at every speed: what was pushed, what the replay
thread still has in hand and what it has not read yet make up the file, in order.
Only a shutdown leaves a record behind.
-/

namespace ReplayProgress

open Transition MarketTypes RecordFormat Pipeline ReplayEngine

/-- What a record is replayed as, without the timestamps; `none` when converting it faults. -/
def replayed (rec : DepthRecord) : Option (QueueMessage Double) :=
  (fromRecord rec).map (fun update => .depthUpdate update.untimed)

/-- The record that was read and not yet pushed. -/
def inFlight (pushPc : SpscQueue.PushPc (QueueMessage Double)) :
    Pc → List (Option (QueueMessage Double))
  | .delay _ rec | .sleeping _ rec => [replayed rec]
  | .pushing => pushPc.pending.map (fun msg => some msg.untimed)
  | .retryCheck msg => [some msg.untimed]
  | .faulted => [none]
  | .checkRunning | .checkPaused | .pausedRunning | .checkResume | .read | .count | .exited => []

def delivered (pushed : List (QueueMessage Double)) : List (Option (QueueMessage Double)) :=
  pushed.map (fun msg => some msg.untimed)

/-- The account of the records of a file: those taken were pushed, are in flight or
were abandoned on shutdown, and the rest is still ahead of the reader. -/
structure Progress (all taken rest : List (RecordHeader × DepthRecord))
    (abandoned : List (Option (QueueMessage Double)))
    (queue : SpscQueue.State (QueueMessage Double)) (thread : ReplayEngine.State) : Prop where
  split : all = taken ++ rest
  account : delivered queue.pushed ++ (inFlight queue.pushPc thread.pc ++ abandoned) =
    taken.map (fun f => replayed f.2)
  live : thread.pc ≠ .exited →
    thread.reader.Remaining rest ∧ abandoned = [] ∧ thread.finished = false
  complete : thread.finished = true → rest = [] ∧ abandoned = []

variable {all taken rest : List (RecordHeader × DepthRecord)}
  {abandoned : List (Option (QueueMessage Double))}

theorem untimed_message (update : DepthUpdate Double) (now enqueued : TimePoint) :
    (message update now enqueued).untimed = .depthUpdate update.untimed := rfl

/-- A step that reads nothing and gives nothing up keeps the account. -/
theorem Progress.move {queue queue' : SpscQueue.State (QueueMessage Double)}
    {thread thread' : ReplayEngine.State}
    (progress : Progress all taken rest abandoned queue thread) (busy : thread.pc ≠ .exited)
    (reader : thread'.reader = thread.reader) (finished : thread'.finished = thread.finished)
    (same : delivered queue'.pushed ++ inFlight queue'.pushPc thread'.pc =
      delivered queue.pushed ++ inFlight queue.pushPc thread.pc) :
    Progress all taken rest abandoned queue' thread' where
  split := progress.split
  account := by
    rw [← List.append_assoc, same, List.append_assoc]
    exact progress.account
  live := fun _ => by
    rw [reader, finished]
    exact progress.live busy
  complete := by
    rw [finished]
    exact progress.complete

/-- The end of the file leaves nothing ahead. -/
theorem Progress.finish {queue : SpscQueue.State (QueueMessage Double)}
    {thread : ReplayEngine.State} {reader : DiskReader}
    (progress : Progress all taken rest abandoned queue thread) (pc : thread.pc = .read)
    (read : thread.reader.readNext = (none, reader)) :
    Progress all taken [] [] queue
      { thread with pc := .exited, reader, finished := true } := by
  obtain ⟨ahead, rfl, -⟩ := progress.live (by simp [pc])
  have account := progress.account
  rw [pc] at account
  cases ahead with
  | done refused =>
    refine ⟨progress.split, account, ?_, fun _ => ⟨rfl, rfl⟩⟩
    exact fun running => absurd rfl running
  | more more ahead =>
    rw [read] at more
    cases more

/-- A record that is read is taken from what is ahead. -/
theorem Progress.take {queue : SpscQueue.State (QueueMessage Double)}
    {thread : ReplayEngine.State} {rhdr : RecordHeader} {rec : DepthRecord} {reader : DiskReader}
    (progress : Progress all taken rest abandoned queue thread) (pc : thread.pc = .read)
    (read : thread.reader.readNext = (some (rhdr, rec), reader)) :
    ∃ later, Progress all (taken ++ [(rhdr, rec)]) later [] queue
      { thread with pc := .delay rhdr rec, reader } := by
  obtain ⟨ahead, rfl, unfinished⟩ := progress.live (by simp [pc])
  have account := progress.account
  rw [pc] at account
  cases ahead with
  | done refused =>
    rw [read] at refused
    cases refused
  | more more ahead =>
    rw [read] at more
    cases more
    refine ⟨_, ?_, ?_, fun _ => ⟨ahead, rfl, unfinished⟩, ?_⟩
    · rw [progress.split, List.append_assoc]
      rfl
    · rw [List.map_append, ← account]
      simp [inFlight]
    · intro finished
      exact absurd finished (by simp [unfinished])

/-- Only a shutdown makes the thread give up the message it holds. -/
theorem Progress.abandon {queue : SpscQueue.State (QueueMessage Double)}
    {thread : ReplayEngine.State} {item : QueueMessage Double}
    (progress : Progress all taken rest abandoned queue thread)
    (pc : thread.pc = .retryCheck item) :
    Progress all taken rest [some item.untimed] queue { thread with pc := .exited } := by
  obtain ⟨-, rfl, unfinished⟩ := progress.live (by simp [pc])
  refine ⟨progress.split, ?_, ?_, ?_⟩
  · simpa [inFlight, pc] using progress.account
  · exact fun running => absurd rfl running
  · intro finished
    exact absurd finished (by simp [unfinished])

theorem inFlight_control (pushPc : SpscQueue.PushPc (QueueMessage Double)) {pc : Pc}
    (control : pc.Control) : inFlight pushPc pc = [] := by
  cases pc <;> first | rfl | cases control

/-- A step of the replay thread moves at most one record one station further. -/
theorem turn_progress {running : Bool} {cap : SpscQueue.Capacity}
    {queue queue' : SpscQueue.State (QueueMessage Double)} {thread thread' : ReplayEngine.State}
    {act : Option (PushAction (QueueMessage Double))}
    (progress : Progress all taken rest abandoned queue thread)
    (turn : Turn running queue.pushPc thread thread' act) (acted : Acted cap queue act queue') :
    ∃ taken rest abandoned, Progress all taken rest abandoned queue' thread' := by
  cases turn with
  | @control pc' before after =>
    obtain rfl : queue' = queue := acted
    have busy : thread.pc ≠ .exited := fun exited => by simp [exited, Pc.Control] at before
    have none : inFlight queue'.pushPc pc' = [] := by
      rcases after with control | rfl | rfl
      · exact inFlight_control _ control
      · rfl
      · rfl
    refine ⟨taken, rest, abandoned, progress.move busy rfl rfl ?_⟩
    rw [none, inFlight_control _ before]
  | finish pc read =>
    obtain rfl : queue' = queue := acted
    exact ⟨taken, [], [], progress.finish pc read⟩
  | read pc read =>
    obtain rfl : queue' = queue := acted
    obtain ⟨later, took⟩ := progress.take pc read
    exact ⟨_, later, [], took⟩
  | delay pc | count pc =>
    obtain rfl : queue' = queue := acted
    exact ⟨taken, rest, abandoned, progress.move (by simp [pc]) rfl rfl (by rw [pc]; rfl)⟩
  | fault pc unconverted =>
    obtain rfl : queue' = queue := acted
    refine ⟨taken, rest, abandoned, progress.move (by simp [pc]) rfl rfl ?_⟩
    simp [inFlight, pc, replayed, unconverted]
  | push pc converted =>
    obtain rfl := SpscQueue.callPush_frame acted
    refine ⟨taken, rest, abandoned, progress.move (by simp [pc]) rfl rfl ?_⟩
    simp [inFlight, pc, replayed, converted, SpscQueue.PushPc.pending, untimed_message]
  | pushed pc returned | refused pc returned =>
    obtain rfl : queue' = queue := acted
    refine ⟨taken, rest, abandoned, progress.move (by simp [pc]) rfl rfl ?_⟩
    simp [inFlight, pc, returned, SpscQueue.PushPc.pending]
  | inPush pc =>
    refine ⟨taken, rest, abandoned, progress.move (by simp [pc]) rfl rfl ?_⟩
    rw [pc]
    simp only [delivered, inFlight, ← List.map_append, SpscQueue.push_pending acted]
  | retry pc up =>
    obtain rfl := SpscQueue.callPush_frame acted
    refine ⟨taken, rest, abandoned, progress.move (by simp [pc]) rfl rfl ?_⟩
    simp [inFlight, pc, SpscQueue.PushPc.pending]
  | abandon pc down =>
    obtain rfl : queue' = queue := acted
    exact ⟨taken, rest, _, progress.abandon pc⟩

/-- The account reads the producer's side of the queue and three fields of the thread. -/
theorem Progress.frame {queue queue' : SpscQueue.State (QueueMessage Double)}
    {thread thread' : ReplayEngine.State}
    (progress : Progress all taken rest abandoned queue thread)
    (pushed : queue'.pushed = queue.pushed) (pushPc : queue'.pushPc = queue.pushPc)
    (pc : thread'.pc = thread.pc) (reader : thread'.reader = thread.reader)
    (finished : thread'.finished = thread.finished) :
    Progress all taken rest abandoned queue' thread' := by
  obtain ⟨split, account, live, complete⟩ := progress
  refine ⟨split, ?_, ?_, ?_⟩
  · rwa [pushed, pushPc, pc]
  · rwa [pc, reader, finished]
  · rwa [finished]

/-- In every interleaving the replay accounts for every record of its file. -/
theorem reachable_progress {reader : DiskReader} {speed : PlaybackSpeed}
    {cap : SpscQueue.Capacity} {blank : QueueMessage Double}
    {s : Pipeline.State ReplayEngine.State (QueueMessage Double)}
    (reached : (machine (producer reader speed) cap blank).Reachable s) :
    ∃ taken rest abandoned, Progress reader.readAll taken rest abandoned s.queue s.producer := by
  obtain ⟨as, run⟩ := reached
  refine producer_history (fun _ queue thread =>
    ∃ taken rest abandoned, Progress reader.readAll taken rest abandoned queue thread) ?_ ?_ ?_ run
  · refine ⟨[], reader.readAll, [], rfl, rfl, ?_, ?_⟩
    · exact fun _ => ⟨reader.remaining_readAll, rfl, rfl⟩
    · exact fun finished => by cases finished
  · rintro _ a queue queue' thread - pushed pushPc ⟨taken, rest, abandoned, progress⟩
    exact ⟨taken, rest, abandoned, progress.frame pushed pushPc rfl rfl rfl⟩
  · rintro _ a running queue queue' thread thread' act ⟨taken, rest, abandoned, progress⟩ h acted
    cases a with
    | step left now enqueued => exact turn_progress progress (threadStep_turn h) acted
    | pause | resume | setSpeed speed =>
      cases h
      obtain rfl : queue' = queue := acted
      exact ⟨taken, rest, abandoned, progress.frame rfl rfl rfl rfl rfl⟩

/-- What was pushed is a front of the records of the file. -/
theorem delivered_front {reader : DiskReader} {speed : PlaybackSpeed}
    {cap : SpscQueue.Capacity} {blank : QueueMessage Double}
    {s : Pipeline.State ReplayEngine.State (QueueMessage Double)}
    (reached : (machine (producer reader speed) cap blank).Reachable s) :
    delivered s.queue.pushed <+: reader.readAll.map (fun f => replayed f.2) := by
  obtain ⟨taken, rest, abandoned, progress⟩ := reachable_progress reached
  rw [progress.split, List.map_append, ← progress.account, List.append_assoc]
  exact List.prefix_append _ _

/-- A replay that has faulted was converting a record without a terminator. -/
theorem faulted_record {reader : DiskReader} {speed : PlaybackSpeed}
    {cap : SpscQueue.Capacity} {blank : QueueMessage Double}
    {s : Pipeline.State ReplayEngine.State (QueueMessage Double)}
    (reached : (machine (producer reader speed) cap blank).Reachable s)
    (faulted : s.producer.pc = .faulted) : ∃ f ∈ reader.readAll, fromRecord f.2 = none := by
  obtain ⟨taken, rest, abandoned, progress⟩ := reachable_progress reached
  have mem : none ∈ taken.map (fun f => replayed f.2) := by
    rw [← progress.account, faulted]
    simp [inFlight]
  obtain ⟨f, hf, converted⟩ := List.mem_map.mp mem
  refine ⟨f, ?_, Option.map_eq_none_iff.mp converted⟩
  rw [progress.split]
  exact List.mem_append_left _ hf

/-- A replay that has finished delivered every record of its file, in order. -/
theorem finished_delivered {reader : DiskReader} {speed : PlaybackSpeed}
    {cap : SpscQueue.Capacity} {blank : QueueMessage Double}
    {s : Pipeline.State ReplayEngine.State (QueueMessage Double)}
    (reached : (machine (producer reader speed) cap blank).Reachable s)
    (finished : s.producer.finished = true) :
    delivered s.queue.pushed = reader.readAll.map (fun f => replayed f.2) := by
  obtain ⟨taken, rest, abandoned, progress⟩ := reachable_progress reached
  obtain ⟨rfl, rfl⟩ := progress.complete finished
  have exited : s.producer.pc = .exited := by
    by_contra running
    have := (progress.live running).2.2
    rw [finished] at this
    cases this
  have account := progress.account
  rw [exited] at account
  rw [progress.split, List.append_nil, ← account]
  exact (List.append_nil _).symm

/-- The replay is over: the file was read to its end, the queue is empty and the
processing loop has no message in hand. -/
structure Completed (s : Pipeline.State ReplayEngine.State (QueueMessage Double)) : Prop where
  finished : s.producer.finished = true
  empty : s.queue.head = s.queue.tail
  idle : inHand s.consumer s.queue.popPc = []

/-- A completed replay has processed every record of its file once, in order. -/
theorem completed_processed {reader : DiskReader} {speed : PlaybackSpeed}
    {cap : SpscQueue.Capacity} {blank : QueueMessage Double}
    {s : Pipeline.State ReplayEngine.State (QueueMessage Double)}
    (reached : (machine (producer reader speed) cap blank).Reachable s) (completed : Completed s) :
    delivered s.processed = reader.readAll.map (fun f => replayed f.2) := by
  have inv := queue_inv reached
  have handled := reachable_handled reached
  rw [Handled, completed.idle, List.append_nil] at handled
  have none := (SpscQueue.empty_iff inv).mp completed.empty
  have all : s.queue.popped = s.queue.pushed := by
    refine inv.fifo.eq_of_length ?_
    have le := inv.fifo.length_le
    unfold SpscQueue.held at none
    omega
  rw [handled, all, finished_delivered reached completed.finished]

end ReplayProgress
