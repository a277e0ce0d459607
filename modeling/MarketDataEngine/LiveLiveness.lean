import MarketDataEngine.LiveShutdown
import MarketDataEngine.Starvation

/-!
# The live program obeys a signal

Under fair scheduling, and with an exchange that lets no read wait for ever, a signal ends the
live program whatever it is doing, be it a delay between two connections, and the messages it
had accepted by then are processed first.
-/

namespace LiveLiveness

open Transition Pipeline LiveMain LiveShutdown Starvation

universe u v

variable {Raw : Type u} {T : Type v} {cfg : ReconnectConfig} {parse : Raw → Option T}
  {recording : Bool} {cap : SpscQueue.Capacity} {blank : T}

theorem next_waitsFor {s t : LiveMain.State Raw T} {a : LiveMain.Action Raw T}
    (h : (LiveMain.machine cfg parse recording cap blank).next s a = some t)
    (foreign : owner a = none) : waitsFor t = waitsFor s := by
  cases a with
  | signal =>
    cases h
    rfl
  | feed left | connected | failed | receive raw | process left | main => cases foreign

/-- Once the flag is down the program returns. -/
def returnRanking (cfg : ReconnectConfig) (faster : 1 < cfg.multiplier)
    (growing : ReconnectPolicy.Growing cfg) (parse : Raw → Option T) (recording : Bool)
    (cap : SpscQueue.Capacity) (blank : T) :
    Ranking (LiveMain.machine cfg parse recording cap blank) owner
      (LiveMain.machine cfg parse recording cap blank).Reachable
      (fun s => s.threads.running = false) (fun s => s.main = .returned) where
  rank := work
  helper := waitsFor
  enabled reached _ waiting :=
    (enabled_waitsFor reached waiting).resolve_left
      (WsClient.nextDelayMs_of_growing faster growing (reachable_threads reached))
  step := by
    intro s a t reached _ down _ h
    obtain ⟨down', paid⟩ := next_work reached down h
    refine Or.inr ⟨down', rank_of_paid paid (fun _ owned => ?_) (next_waitsFor h)⟩
    rw [ownCost_of_owner owned]
    exact Nat.one_pos

/-- When the main thread has returned no thread is left. -/
theorem returned_stuck {s : LiveMain.State Raw T}
    (reached : (LiveMain.machine cfg parse recording cap blank).Reachable s)
    (returned : s.main = .returned) {a : LiveMain.Action Raw T} {thread : Thread}
    (owned : owner a = some thread) :
    (LiveMain.machine cfg parse recording cap blank).next s a = none := by
  have joined := reachable_joined reached
  rw [LiveMain.Joined, returned] at joined
  obtain ⟨feed, process, -⟩ := joined
  have awake := (WsClient.reachable_inv (reachable_threads reached)).awake (by simp [feed])
  cases a with
  | feed left | connected | failed | receive raw =>
    simp [LiveMain.machine, LiveMain.next, threadsStep, Pipeline.next, producerStep,
      WsClient.producer, WsClient.next, WsClient.feedStep, FeedHandler.next,
      FeedHandler.threadStep, awake, feed]
  | process left =>
    simp [LiveMain.machine, LiveMain.next, threadsStep, Pipeline.next, consumerStep, process]
  | main => simp [LiveMain.machine, LiveMain.next, mainStep, returned]
  | signal => cases owned

end LiveLiveness
