import MarketDataEngine.FeedHandler
import MarketDataEngine.ReplayEngine

/-!
# Shutting down with messages in flight

Both producers read the shared flag at their own pace, so a producer can be
inside `try_push` when the processing loop ends its drain. This module gives the
exact condition under which no accepted message is left behind.
-/

namespace Shutdown

open Transition MarketTypes Pipeline

/-- For the live and for the replaying producer, in every interleaving with the
processing loop and the clearing of the flag: once both threads have exited, every
message whose `try_push` returned true was processed exactly once and the queue is
empty, if and only if none of them was published after the processing loop had found
the queue empty in its drain. -/
theorem shutdown_complete_iff {Raw : Type} (parse : Raw → Option (QueueMessage Double))
    (reader : DiskReader) (speed : ReplayEngine.PlaybackSpeed) (cap : SpscQueue.Capacity)
    (blank : QueueMessage Double) :
    (∀ as s, (machine (FeedHandler.producer parse) cap blank).run
        (initial (FeedHandler.producer parse) blank) as = some s →
      s.producer.pc = .exited → s.consumer = .exited →
      ((s.processed = s.queue.pushed ∧ s.queue.head = s.queue.tail) ↔
        (machine (FeedHandler.producer parse) cap blank).EachStep
          (NoLatePublish (FeedHandler.producer parse))
          (initial (FeedHandler.producer parse) blank) as)) ∧
    (∀ as s, (machine (ReplayEngine.producer reader speed) cap blank).run
        (initial (ReplayEngine.producer reader speed) blank) as = some s →
      s.producer.pc = .exited → s.consumer = .exited →
      ((s.processed = s.queue.pushed ∧ s.queue.head = s.queue.tail) ↔
        (machine (ReplayEngine.producer reader speed) cap blank).EachStep
          (NoLatePublish (ReplayEngine.producer reader speed))
          (initial (ReplayEngine.producer reader speed) blank) as)) :=
  ⟨fun _ _ run _ exited => exited_drained_iff (FeedHandler.producer parse) cap blank run exited,
    fun _ _ run _ exited =>
      exited_drained_iff (ReplayEngine.producer reader speed) cap blank run exited⟩

def tick : QueueMessage Double :=
  .trade {
    eventTimeMs := 1
    tradeId := 1
    symbol := [66, 84, 67]
    price := ⟨0⟩
    quantity := ⟨0⟩
    isBuyerMaker := false }

/-- Every raw message is a tick. -/
def ticker : Producer (FeedHandler.State Unit) (FeedHandler.Action Unit (QueueMessage Double))
    (QueueMessage Double) :=
  FeedHandler.producer (fun _ => some tick)

def feedStep : Action (FeedHandler.Action Unit (QueueMessage Double)) (QueueMessage Double) :=
  .producer (.step tick)

def processStep : Action (FeedHandler.Action Unit (QueueMessage Double)) (QueueMessage Double) :=
  .consumer tick

/-- The feed thread has seen room in the queue and not yet published its tick. -/
def beforePublish :
    List (Action (FeedHandler.Action Unit (QueueMessage Double)) (QueueMessage Double)) :=
  [feedStep, feedStep, .producer .connected, feedStep, feedStep, .producer (.receive ()),
    feedStep, feedStep, feedStep]

/-- The drain ends between the room test and the publication of one message. -/
def lateSchedule :
    List (Action (FeedHandler.Action Unit (QueueMessage Double)) (QueueMessage Double)) :=
  beforePublish ++ [.shutdown, processStep, processStep, processStep, feedStep, feedStep,
    processStep, feedStep, feedStep, feedStep]

theorem accepted_message_lost :
    ∃ s, (machine ticker FeedHandler.feedQueue tick).run (initial ticker tick) lateSchedule =
        some s ∧
      s.producer.pc = .exited ∧ s.consumer = .exited ∧ s.queue.pushed = [tick] ∧
      s.processed = [] ∧ s.queue.head ≠ s.queue.tail :=
  ⟨_, rfl, rfl, rfl, rfl, rfl, by decide⟩

end Shutdown
