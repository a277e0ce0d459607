import MarketDataEngine.DrainWork
import MarketDataEngine.Fairness
import MarketDataEngine.LiveMain

/-!
# The live program comes down

The counterpart for the feed thread: once the shared flag is down it has a bounded number of
steps left, of its own and of what it waits for, and the joins of `main` cannot wait for
ever. What the thread waits for is the exchange, which may leave it reading; and converting
a delay may be undefined.
-/

namespace LiveShutdown

open Transition Pipeline LiveMain DrainWork LateMessages

universe u v

variable {Raw : Type u} {T : Type v} {cfg : ReconnectConfig} {parse : Raw → Option T}
  {recording : Bool} {cap : SpscQueue.Capacity} {blank : T}

/-! ## The feed thread -/

/-- The steps to the exit of the feed thread, with the flag down. -/
def feedWork (pushPc : SpscQueue.PushPc T) : FeedHandler.Pc Raw → Nat
  | .exited => 0
  | .checkRunning | .recheckRunning => 1
  | .readRunning => 2
  | .connecting => 3
  | .checkStopped | .recheckStopped => 4
  | .pushing =>
    match pushPc with
    | .ready => 0
    | .returned _ _ => 3
    | .storeTail _ _ _ => 4
    | .copy _ _ _ => 5
    | .loadHead _ _ _ => 6
    | .loadTail _ _ => 7
  | .parsing _ => 8
  | .reading => 9
  | .readStopped => 10

def waitWork : WsClient.Wait → Nat
  | .none => 0
  | .sleeping _ => 1
  | .asking => 2

/-- What the client still has to do, with 7 for what it may still publish. -/
def feedLoad (pushPc : SpscQueue.PushPc T) (client : WsClient.State Raw) : Nat :=
  feedWork pushPc client.feed.pc + waitWork client.wait + 7 * feedPromised pushPc client.feed

theorem feedLoad_le (pushPc : SpscQueue.PushPc T) (client : WsClient.State Raw) :
    feedLoad pushPc client ≤ 19 := by
  have promised := feedPromised_le pushPc client.feed
  have wait : waitWork client.wait ≤ 2 := by cases client.wait <;> simp [waitWork]
  have feed : feedWork pushPc client.feed.pc ≤ 10 := by
    cases client.feed.pc with
    | pushing => cases pushPc <;> simp [feedWork]
    | _ => simp [feedWork]
  unfold feedLoad
  omega

theorem push_feedWork {pc pc' : SpscQueue.PushPc T} (move : PushMove pc pc') :
    feedWork pc' (.pushing : FeedHandler.Pc Raw) + 1 ≤
      feedWork pc (.pushing : FeedHandler.Pc Raw) := by
  cases move <;> simp [feedWork]

/-- A step of the client; `stop()` comes from outside. -/
def feedCost : FeedHandler.Action Raw T → Nat
  | .step _ | .connected | .failed | .receive _ => 1
  | .stop => 0

theorem waitStep_load {pushPc : SpscQueue.PushPc T} {s t : WsClient.State Raw}
    (h : WsClient.waitStep s = some t) : feedLoad pushPc t + 1 ≤ feedLoad pushPc s := by
  unfold WsClient.waitStep at h
  split at h
  · cases h
  · rename_i asking
    obtain ⟨_, -, rfl⟩ := Option.map_eq_some_iff.mp h
    simp [feedLoad, asking, waitWork]
  · rename_i sleeping
    cases h
    simp [feedLoad, sleeping, waitWork]

/-- Coming back from a connection asks for a delay, and pays for that. -/
theorem follow_wait (s : WsClient.State Raw) (feed : FeedHandler.State Raw) :
    (s.follow feed).wait = s.wait ∨ s.feed.pc = .recheckStopped ∧ feed.pc = .checkRunning ∧
      (s.follow feed).wait = .asking := by
  unfold WsClient.State.follow
  split
  · exact Or.inl rfl
  · exact Or.inl rfl
  · rename_i before after
    exact Or.inr ⟨before, after, rfl⟩
  · exact Or.inl rfl

theorem turn_work {queue queue' : SpscQueue.State T} {feed feed' : FeedHandler.State Raw}
    {act : Option (PushAction T)} (acted : Acted cap queue act queue')
    (turn : FeedHandler.Turn parse false queue.pushPc feed feed' act) :
    feedWork queue'.pushPc feed'.pc + 1 ≤ feedWork queue.pushPc feed.pc := by
  cases turn with
  | test pc up | look pc up | recheck pc up => cases up
  | inPush pc =>
    rw [pc]
    exact push_feedWork (push_move acted)
  | parsed pc =>
    obtain rfl := SpscQueue.callPush_frame acted
    simp [feedWork, pc]
  | leave pc | close pc =>
    obtain rfl : queue' = queue := acted
    rcases pc with pc | pc | pc | pc <;> simp [feedWork, pc]
  | connect pc | connected pc | listen pc | received pc | unparsed pc | again pc =>
    obtain rfl : queue' = queue := acted
    simp [feedWork, pc]
  | pushed pc returned | refused pc returned =>
    obtain rfl : queue' = queue := acted
    simp [feedWork, pc, returned]

theorem feed_paid (cfg : ReconnectConfig) (parse : Raw → Option T) (cap : SpscQueue.Capacity) :
    Paid (WsClient.producer cfg parse) cap feedLoad feedCost := by
  intro queue client a client' act queue' h acted
  rcases WsClient.next_cases h with ⟨waited, rfl, -⟩ | ⟨feed, stepped, rfl, -⟩
  · obtain rfl : queue' = queue := acted
    have own := @waitStep_load Raw T queue'.pushPc _ _ waited
    have cost : feedCost a ≤ 1 := by cases a <;> simp [feedCost]
    omega
  · have promised := (feed_promises parse cap).step _ _ _ _ _ _ stepped acted
    unfold feedLoad
    rw [WsClient.follow_feed]
    rcases FeedHandler.next_turn stepped with turn | ⟨rfl, rfl, rfl⟩
    · have own := turn_work acted turn
      have cost : feedCost a ≤ 1 := by cases a <;> simp [feedCost]
      rcases follow_wait client feed with same | ⟨before, after, asking⟩
      · rw [same]
        omega
      · simp only [before, after, feedWork, asking, waitWork] at own ⊢
        omega
    · obtain rfl : queue' = queue := acted
      rw [WsClient.follow_stop]
      exact Nat.le_refl _

/-- The feed thread is inside a `try_push` exactly when it stands at one. -/
def FeedAligned (queue : SpscQueue.State T) (feed : FeedHandler.State Raw) : Prop :=
  match feed.pc with
  | .pushing => queue.pushPc ≠ .ready
  | _ => queue.pushPc.idle = true

theorem FeedAligned.idle {queue : SpscQueue.State T} {feed : FeedHandler.State Raw}
    (aligned : FeedAligned queue feed) (outside : feed.pc ≠ .pushing) :
    queue.pushPc.idle = true := by
  unfold FeedAligned at aligned
  split at aligned
  · rename_i pushing
    exact absurd pushing outside
  · exact aligned

theorem feedAligned_of_idle {queue : SpscQueue.State T} {feed : FeedHandler.State Raw}
    (idle : queue.pushPc.idle = true) (outside : feed.pc ≠ .pushing) : FeedAligned queue feed := by
  unfold FeedAligned
  split
  · rename_i pushing
    exact absurd pushing outside
  · exact idle

theorem turn_aligned {running : Bool} {queue queue' : SpscQueue.State T}
    {feed feed' : FeedHandler.State Raw} {act : Option (PushAction T)}
    (aligned : FeedAligned queue feed) (acted : Acted cap queue act queue')
    (turn : FeedHandler.Turn parse running queue.pushPc feed feed' act) :
    FeedAligned queue' feed' := by
  cases turn with
  | parsed pc =>
    obtain rfl := SpscQueue.callPush_frame acted
    simp [FeedAligned]
  | inPush pc =>
    unfold FeedAligned
    rw [pc]
    exact (push_move acted).not_ready
  | pushed pc returned | refused pc returned =>
    obtain rfl : queue' = queue := acted
    exact feedAligned_of_idle (by rw [returned]; rfl) (by simp)
  | leave pc | close pc =>
    obtain rfl : queue' = queue := acted
    refine feedAligned_of_idle (aligned.idle ?_) (by simp)
    rcases pc with pc | pc | pc | pc <;> simp [pc]
  | test pc | connect pc | connected pc | look pc | listen pc | received pc | unparsed pc
  | recheck pc | again pc =>
    obtain rfl : queue' = queue := acted
    exact feedAligned_of_idle (aligned.idle (by simp [pc])) (by simp)

theorem reachable_feedAligned {s : Pipeline.State (FeedHandler.State Raw) T}
    (reached : (Pipeline.machine (FeedHandler.producer parse) cap blank).Reachable s) :
    FeedAligned s.queue s.producer := by
  obtain ⟨as, run⟩ := reached
  refine producer_history (fun _ => FeedAligned) ?_ ?_ ?_ run
  · exact feedAligned_of_idle rfl (by simp [FeedHandler.producer])
  · intro _ a queue queue' feed _ pushed pushPc aligned
    unfold FeedAligned at aligned ⊢
    rwa [pushPc]
  · intro _ a running queue queue' feed feed' act aligned h acted
    rcases FeedHandler.next_turn h with turn | ⟨-, rfl, rfl⟩
    · exact turn_aligned aligned acted turn
    · obtain rfl : queue' = queue := acted
      exact aligned

/-- The feed thread, or what it waits for, can always go on. -/
theorem exists_feedStep {running : Bool} {queue : SpscQueue.State T}
    {feed : FeedHandler.State Raw} (left : T) (aligned : FeedAligned queue feed)
    (open' : feed.pc ≠ .exited) :
    ∃ a feed' act queue', a ≠ .stop ∧
      FeedHandler.next parse running queue.pushPc feed a = some (feed', act) ∧
      Acted cap queue act queue' := by
  have quiet : ∀ feed', FeedHandler.threadStep parse running queue.pushPc feed left =
      some (feed', none) → ∃ a feed' act queue', a ≠ .stop ∧
        FeedHandler.next parse running queue.pushPc feed a = some (feed', act) ∧
        Acted cap queue act queue' :=
    fun feed' h => ⟨.step left, feed', none, queue, by simp, h, rfl⟩
  cases pc : feed.pc with
  | exited => exact absurd pc open'
  | connecting | reading =>
    exact ⟨.failed, _, none, queue, by simp, by simp only [FeedHandler.next, pc]; rfl, rfl⟩
  | checkRunning | checkStopped | readRunning | readStopped | recheckRunning | recheckStopped =>
    exact quiet _ (by simp only [FeedHandler.threadStep, pc]; rfl)
  | parsing raw =>
    cases parsed : parse raw with
    | none =>
      exact quiet _ (by simp only [FeedHandler.threadStep, FeedHandler.onMessage, pc, parsed]; rfl)
    | some msg =>
      have idle := aligned.idle (by simp [pc])
      obtain ⟨queue', called⟩ :
          ∃ queue', SpscQueue.next cap queue (.callPush .moving msg) = some queue' := by
        simp [SpscQueue.next, idle]
      refine ⟨.step left, { feed with pc := .pushing, msgCount := feed.msgCount + 1 },
        some (.call msg), queue', by simp, ?_, called⟩
      simp only [FeedHandler.next, FeedHandler.threadStep, FeedHandler.onMessage, pc, parsed]
  | pushing =>
    unfold FeedAligned at aligned
    rw [pc] at aligned
    have inPush : (∃ queue', SpscQueue.next cap queue (.push left) = some queue') →
        FeedHandler.threadStep parse running queue.pushPc feed left =
          some (feed, some (.step left)) →
        ∃ a feed' act queue', a ≠ .stop ∧
          FeedHandler.next parse running queue.pushPc feed a = some (feed', act) ∧
          Acted cap queue act queue' := by
      rintro ⟨queue', moved⟩ h
      exact ⟨.step left, feed, some (.step left), queue', by simp, h, moved⟩
    cases pushPc : queue.pushPc with
    | ready => exact absurd pushPc aligned
    | returned ok item =>
      rw [← pushPc]
      cases ok <;> exact quiet _ (by simp only [FeedHandler.threadStep, pc, pushPc]; rfl)
    | loadTail o item | copy o item tail | storeTail o item tail =>
      rw [← pushPc]
      exact inPush (by simp [SpscQueue.next, SpscQueue.pushStep, pushPc])
        (by simp only [FeedHandler.threadStep, pc, pushPc])
    | loadHead o item tail =>
      rw [← pushPc]
      refine inPush ?_ (by simp only [FeedHandler.threadStep, pc, pushPc])
      by_cases full : SpscQueue.nextIndex cap tail = queue.head <;>
        simp [SpscQueue.next, SpscQueue.pushStep, pushPc, full]

/-! ## The whole program -/

/-- The steps of the main thread to its return, with the flag down and no join waiting. -/
def mainWork : LiveMain.Pc → Nat
  | .returned => 0
  | .closeRecorder => 1
  | .joinProcessor => 2
  | .joinFeed => 3
  | .stopClient => 4
  | .stopServers => 5
  | .checkRunning | .recheckRunning => 6
  | .sleeping => 7

theorem mainWork_le (pc : LiveMain.Pc) : mainWork pc ≤ 7 := by
  cases pc <;> simp [mainWork]

def work (s : LiveMain.State Raw T) : Nat := threadsWork feedLoad s.threads + mainWork s.main

/-- Everything but a signal is a step of a thread, or of what it waits for. -/
def ownCost : LiveMain.Action Raw T → Nat
  | .signal => 0
  | _ => 1

theorem mainTurn_work {s t : LiveMain.State Raw T} (turn : MainTurn recording s t)
    (down : s.threads.running = false) : t.threads.running = false ∧ work t + 1 ≤ work s := by
  unfold work
  cases turn with
  | sleep pc up | look pc up => simp [down] at up
  | leave pc => rcases pc with pc | pc <;> exact ⟨down, by simp [pc, mainWork]⟩
  | stopClient pc =>
    exact ⟨down, by simp [pc, mainWork, threadsWork, feedLoad, feedPromised, stopClient]⟩
  | wake pc | stop pc | joinFeed pc | joinProcessor pc | close pc =>
    exact ⟨down, by simp [pc, mainWork]⟩

theorem next_work {s t : LiveMain.State Raw T} {a : LiveMain.Action Raw T}
    (reached : (LiveMain.machine cfg parse recording cap blank).Reachable s)
    (down : s.threads.running = false) (h : LiveMain.next cfg parse recording cap s a = some t) :
    t.threads.running = false ∧ work t + ownCost a ≤ work s := by
  have taken : ∀ b, LiveMain.threadsStep cfg parse cap s b = some t →
      t.threads.running = false ∧ work t + threadsCost feedCost b ≤ work s := by
    intro b moved
    obtain ⟨threads', stepped, rfl⟩ := Option.map_eq_some_iff.mp moved
    obtain ⟨stays, paid⟩ := next_threadsWork (feed_paid cfg parse cap)
      (reachable_threads reached) down stepped
    refine ⟨stays, ?_⟩
    unfold work
    dsimp only
    omega
  cases a with
  | feed left | connected | failed | receive raw | process left | signal => exact taken _ h
  | main => exact mainTurn_work (mainStep_turn h) down

/-- The threads of the program, each with what it waits for. -/
inductive Thread where
  | feed
  | process
  | main

/-- The thread an action belongs to; a signal is nobody's. -/
def owner : LiveMain.Action Raw T → Option Thread
  | .feed _ | .connected | .failed | .receive _ => some .feed
  | .process _ => some .process
  | .main => some .main
  | .signal => none

/-- The thread that a join of the main thread waits for, or else the main thread. -/
def waitsFor (s : LiveMain.State Raw T) : Thread :=
  match s.main with
  | .joinFeed =>
    match s.threads.producer.feed.pc with
    | .exited => .main
    | _ => .feed
  | .joinProcessor =>
    match s.threads.consumer with
    | .exited => .main
    | _ => .process
  | _ => .main

/-- What the client can do is an action of the program, `stop()` apart. -/
theorem enabled_client {s : LiveMain.State Raw T} {threads' : Threads Raw T}
    {a : FeedHandler.Action Raw T} (own : a ≠ .stop)
    (h : Pipeline.next (WsClient.producer cfg parse) cap s.threads (.producer a) = some threads') :
    (LiveMain.machine cfg parse recording cap blank).Enabled owner .feed s := by
  have moved : LiveMain.threadsStep cfg parse cap s (.producer a) =
      some { s with threads := threads' } := Option.map_eq_some_iff.mpr ⟨threads', h, rfl⟩
  cases a with
  | step left => exact ⟨.feed left, _, rfl, moved⟩
  | connected => exact ⟨.connected, _, rfl, moved⟩
  | failed => exact ⟨.failed, _, rfl, moved⟩
  | receive raw => exact ⟨.receive raw, _, rfl, moved⟩
  | stop => exact absurd rfl own

/-- The client can go on unless the next delay cannot be converted. -/
theorem enabled_feed {s : LiveMain.State Raw T}
    (reached : (LiveMain.machine cfg parse recording cap blank).Reachable s)
    (open' : s.threads.producer.feed.pc ≠ .exited) :
    s.threads.producer.policy.nextDelayMs = none ∨
      (LiveMain.machine cfg parse recording cap blank).Enabled owner .feed s := by
  have waits : (∃ client, WsClient.waitStep s.threads.producer = some client) →
      s.threads.producer.wait ≠ .none →
      (LiveMain.machine cfg parse recording cap blank).Enabled owner .feed s := by
    rintro ⟨client, waited⟩ busy
    have moves : (WsClient.producer cfg parse).next s.threads.running s.threads.queue.pushPc
        s.threads.producer (.step blank) = some (client, none) := by
      cases wait : s.threads.producer.wait with
      | none => exact absurd wait busy
      | asking | sleeping delay =>
        simp only [WsClient.producer, WsClient.next, wait, waited, Option.map_some]
    exact enabled_client (a := .step blank) (by simp)
      (@producerStep_of_acted _ _ _ _ cap s.threads _ _ _ _ moves rfl)
  cases wait : s.threads.producer.wait with
  | asking =>
    cases asked : s.threads.producer.policy.nextDelayMs with
    | none => exact Or.inl rfl
    | some next =>
      exact Or.inr (waits (by simp [WsClient.waitStep, wait, asked]) (by simp [wait]))
  | sleeping delay =>
    exact Or.inr (waits (by simp [WsClient.waitStep, wait]) (by simp [wait]))
  | none =>
    obtain ⟨a, feed', act, queue', own, stepped, acted⟩ :=
      @exists_feedStep _ _ parse cap s.threads.running _ _ blank
        (reachable_feedAligned (reachable_feed reached)) open'
    have moves : (WsClient.producer cfg parse).next s.threads.running s.threads.queue.pushPc
        s.threads.producer a = some (s.threads.producer.follow feed', act) := by
      have moved : WsClient.feedStep parse s.threads.running s.threads.queue.pushPc
          s.threads.producer a = some (s.threads.producer.follow feed', act) :=
        Option.map_eq_some_iff.mpr ⟨_, stepped, rfl⟩
      simp only [WsClient.producer, WsClient.next, wait]
      exact moved
    exact Or.inr (enabled_client own
      (@producerStep_of_acted _ _ _ _ cap s.threads _ _ _ _ moves acted))

/-- As long as the main thread has not returned, it or the thread it waits for can step. -/
theorem enabled_waitsFor {s : LiveMain.State Raw T}
    (reached : (LiveMain.machine cfg parse recording cap blank).Reachable s)
    (waiting : s.main ≠ .returned) :
    s.threads.producer.policy.nextDelayMs = none ∨
      (LiveMain.machine cfg parse recording cap blank).Enabled owner (waitsFor s) s := by
  have own : waitsFor s = .main → (∃ t, mainStep recording s = some t) →
      s.threads.producer.policy.nextDelayMs = none ∨
        (LiveMain.machine cfg parse recording cap blank).Enabled owner (waitsFor s) s :=
    fun helper ⟨t, h⟩ => Or.inr ⟨.main, t, congrArg some helper.symm, h⟩
  cases pc : s.main with
  | returned => exact absurd pc waiting
  | joinFeed =>
    by_cases exited : s.threads.producer.feed.pc = .exited
    · exact own (by simp [waitsFor, pc, exited]) (by simp [mainStep, pc, exited])
    · rw [show waitsFor s = .feed by simp only [waitsFor, pc]]
      exact enabled_feed reached exited
  | joinProcessor =>
    by_cases exited : s.threads.consumer = .exited
    · exact own (by simp [waitsFor, pc, exited]) (by simp [mainStep, pc, exited])
    · rw [show waitsFor s = .process by simp only [waitsFor, pc]]
      obtain ⟨threads', stepped⟩ := @exists_consumerStep _ _ cap s.threads blank
        (reachable_aligned (reachable_threads reached)) exited
      exact Or.inr ⟨.process blank, { s with threads := threads' }, rfl,
        Option.map_eq_some_iff.mpr ⟨threads', stepped, rfl⟩⟩
  | _ => exact own (by simp [waitsFor, pc]) (by simp [mainStep, pc])

theorem ownCost_of_owner {a : LiveMain.Action Raw T} {thread : Thread}
    (owned : owner a = some thread) : ownCost a = 1 := by
  cases a with
  | signal => cases owned
  | feed left | connected | failed | receive raw | process left | main => rfl

/-- As long as the main thread has not returned, some thread can take a step. -/
theorem exists_step {s : LiveMain.State Raw T}
    (reached : (LiveMain.machine cfg parse recording cap blank).Reachable s)
    (waiting : s.main ≠ .returned) :
    s.threads.producer.policy.nextDelayMs = none ∨
      ∃ a t, ownCost a = 1 ∧ LiveMain.next cfg parse recording cap s a = some t := by
  rcases enabled_waitsFor reached waiting with undefined | ⟨a, t, owned, stepped⟩
  · exact Or.inl undefined
  · exact Or.inr ⟨a, t, ownCost_of_owner owned, stepped⟩

/-- Two messages are in the queue and the feed thread reads when the signal comes. -/
def readingSchedule : List (LiveMain.Action Unit Nat) :=
  [.feed 0, .feed 0, .connected, .feed 0, .feed 0, .receive ()] ++ List.replicate 8 (.feed 0) ++
    [.receive ()] ++ List.replicate 8 (.feed 0) ++ [.signal]

/-- The connection fails, and the processing loop drains the queue. -/
def drainingSchedule : List (LiveMain.Action Unit Nat) :=
  [.main, .main, .main, .failed, .feed 0] ++ List.replicate 16 (.process 0) ++
    List.replicate 3 .main

end LiveShutdown
