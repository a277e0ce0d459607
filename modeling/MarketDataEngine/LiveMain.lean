import MarketDataEngine.LateMessages
import MarketDataEngine.MessageConservation
import MarketDataEngine.WsClient

/-!
# The program in live mode

`main` of `main.cpp` without a replay file: its status loop, which a signal ends, and the
orderly shutdown behind it, which stops the client, joins the feed thread and the processing
loop and closes the recording. The status line and the log are left out, as is `sleep_for`; a
signal is the moment at which the handler, behind its line in the log, clears the flag. Of the
monitoring servers there is only the step that stops both, which the main thread can always
take here; what their `stop()` can wait for is said where the servers are modelled.
-/

namespace LiveMain

open Transition Pipeline

universe u v

/-- Where the main thread is. -/
inductive Pc where
  | checkRunning
  | sleeping
  | recheckRunning
  | stopServers
  | stopClient
  | joinFeed
  | joinProcessor
  | closeRecorder
  | returned
  deriving DecidableEq

abbrev Threads (Raw : Type u) (T : Type v) := Pipeline.State (WsClient.State Raw) T

/-- `closed` is a history: what had been processed when the recording was closed. -/
structure State (Raw : Type u) (T : Type v) where
  threads : Threads Raw T
  main : Pc := .checkRunning
  closed : Option (List T) := none

inductive Action (Raw : Type u) (T : Type v) where
  | feed (left : T)
  | connected
  | failed
  | receive (raw : Raw)
  | process (left : T)
  | main
  | signal

variable {Raw : Type u} {T : Type v}

/-- `WsClient::stop`. -/
def stopClient (threads : Threads Raw T) : Threads Raw T :=
  let client := threads.producer
  { threads with producer := { client with feed := { client.feed with stopped := true } } }

/-- The next access of the main thread. A join waits for the other thread's exit; stopping the
servers waits for nobody here. -/
def mainStep (recording : Bool) (s : State Raw T) : Option (State Raw T) :=
  match s.main with
  | .checkRunning =>
    some { s with main := if s.threads.running then .sleeping else .stopServers }
  | .sleeping => some { s with main := .recheckRunning }
  | .recheckRunning =>
    some { s with main := if s.threads.running then .checkRunning else .stopServers }
  | .stopServers => some { s with main := .stopClient }
  | .stopClient => some { s with threads := stopClient s.threads, main := .joinFeed }
  | .joinFeed =>
    match s.threads.producer.feed.pc with
    | .exited => some { s with main := .joinProcessor }
    | _ => none
  | .joinProcessor =>
    match s.threads.consumer with
    | .exited => some { s with main := .closeRecorder }
    | _ => none
  | .closeRecorder =>
    some { s with
      main := .returned
      closed := if recording then some s.threads.processed else none }
  | .returned => none

section Model
variable (cfg : ReconnectConfig) (parse : Raw → Option T) (recording : Bool)
  (cap : SpscQueue.Capacity) (blank : T)

/-- A step of one of the other threads. -/
def threadsStep (s : State Raw T) (a : Pipeline.Action (FeedHandler.Action Raw T) T) :
    Option (State Raw T) :=
  (Pipeline.next (WsClient.producer cfg parse) cap s.threads a).map
    (fun threads => { s with threads })

def next (s : State Raw T) : Action Raw T → Option (State Raw T)
  | .feed left => threadsStep cfg parse cap s (.producer (.step left))
  | .connected => threadsStep cfg parse cap s (.producer .connected)
  | .failed => threadsStep cfg parse cap s (.producer .failed)
  | .receive raw => threadsStep cfg parse cap s (.producer (.receive raw))
  | .process left => threadsStep cfg parse cap s (.consumer left)
  | .main => mainStep recording s
  | .signal => threadsStep cfg parse cap s .shutdown

def initial : State Raw T where
  threads := Pipeline.initial (WsClient.producer cfg parse) blank

/-- The program from the moment all its threads have been started. -/
def machine : Machine (State Raw T) (Action Raw T) where
  init := initial cfg parse blank
  next := next cfg parse recording cap

end Model

variable {cfg : ReconnectConfig} {parse : Raw → Option T} {recording : Bool}
  {cap : SpscQueue.Capacity} {blank : T}

/-! ## What a step does -/

/-- The steps of the main thread. -/
inductive MainTurn (recording : Bool) (s : State Raw T) : State Raw T → Prop
  | sleep (pc : s.main = .checkRunning) (up : s.threads.running = true) :
    MainTurn recording s { s with main := .sleeping }
  | wake (pc : s.main = .sleeping) : MainTurn recording s { s with main := .recheckRunning }
  | look (pc : s.main = .recheckRunning) (up : s.threads.running = true) :
    MainTurn recording s { s with main := .checkRunning }
  | leave (pc : s.main = .checkRunning ∨ s.main = .recheckRunning)
    (down : s.threads.running = false) : MainTurn recording s { s with main := .stopServers }
  | stop (pc : s.main = .stopServers) : MainTurn recording s { s with main := .stopClient }
  | stopClient (pc : s.main = .stopClient) :
    MainTurn recording s { s with threads := stopClient s.threads, main := .joinFeed }
  | joinFeed (pc : s.main = .joinFeed) (exited : s.threads.producer.feed.pc = .exited) :
    MainTurn recording s { s with main := .joinProcessor }
  | joinProcessor (pc : s.main = .joinProcessor) (exited : s.threads.consumer = .exited) :
    MainTurn recording s { s with main := .closeRecorder }
  | close (pc : s.main = .closeRecorder) :
    MainTurn recording s { s with
      main := .returned
      closed := if recording then some s.threads.processed else none }

theorem mainStep_turn {s t : State Raw T} (h : mainStep recording s = some t) :
    MainTurn recording s t := by
  unfold mainStep at h
  cases pc : s.main with
  | checkRunning =>
    simp only [pc] at h
    cases h
    cases up : s.threads.running with
    | true => exact .sleep pc up
    | false => exact .leave (Or.inl pc) up
  | sleeping =>
    simp only [pc] at h
    cases h
    exact .wake pc
  | recheckRunning =>
    simp only [pc] at h
    cases h
    cases up : s.threads.running with
    | true => exact .look pc up
    | false => exact .leave (Or.inr pc) up
  | stopServers =>
    simp only [pc] at h
    cases h
    exact .stop pc
  | stopClient =>
    simp only [pc] at h
    cases h
    exact .stopClient pc
  | joinFeed =>
    simp only [pc] at h
    split at h
    · rename_i exited
      cases h
      exact .joinFeed pc exited
    · cases h
  | joinProcessor =>
    simp only [pc] at h
    split at h
    · rename_i exited
      cases h
      exact .joinProcessor pc exited
    · cases h
  | closeRecorder =>
    simp only [pc] at h
    cases h
    exact .close pc
  | returned => simp [pc] at h

/-- What an action does: a turn of the main thread, or a step of the others behind its
back, which is never a call of `stop()`. -/
theorem next_cases {s t : State Raw T} {a : Action Raw T}
    (h : next cfg parse recording cap s a = some t) :
    MainTurn recording s t ∨ t.main = s.main ∧ t.closed = s.closed ∧
      ∃ b, Pipeline.next (WsClient.producer cfg parse) cap s.threads b = some t.threads := by
  have taken : ∀ b, threadsStep cfg parse cap s b = some t → t.main = s.main ∧
      t.closed = s.closed ∧
      ∃ b, Pipeline.next (WsClient.producer cfg parse) cap s.threads b = some t.threads := by
    intro b moved
    obtain ⟨threads, stepped, rfl⟩ := Option.map_eq_some_iff.mp moved
    exact ⟨rfl, rfl, b, stepped⟩
  cases a with
  | main => exact Or.inl (mainStep_turn h)
  | feed left | connected | failed | receive raw | process left | signal =>
    exact Or.inr (taken _ h)

/-- `stop()` is a step of the client that touches nothing else. -/
theorem stopClient_step (cfg : ReconnectConfig) (parse : Raw → Option T)
    (cap : SpscQueue.Capacity) (threads : Threads Raw T) :
    Pipeline.next (WsClient.producer cfg parse) cap threads (.producer .stop) =
      some (stopClient threads) := by
  have moves : (WsClient.producer cfg parse).next threads.running threads.queue.pushPc
      threads.producer .stop = some ((stopClient threads).producer, none) := by
    simp only [WsClient.producer, WsClient.next, WsClient.feedStep, FeedHandler.next,
      Option.map_some, WsClient.follow_stop]
    rfl
  exact @producerStep_of_acted _ _ _ _ cap threads _ _ _ _ moves rfl

/-- Whatever the main thread does, the other threads run as before. -/
theorem refines_pipeline : (machine cfg parse recording cap blank).Refines
    (Pipeline.machine (WsClient.producer cfg parse) cap blank) State.threads := by
  refine ⟨rfl, fun s a t _ h => ?_⟩
  rcases next_cases h with turn | ⟨-, -, b, stepped⟩
  · cases turn with
    | stopClient => exact Or.inr ⟨.producer .stop, stopClient_step cfg parse cap s.threads⟩
    | _ => exact Or.inl rfl
  · exact Or.inr ⟨b, stepped⟩

theorem reachable_threads {s : State Raw T}
    (reached : (machine cfg parse recording cap blank).Reachable s) :
    (Pipeline.machine (WsClient.producer cfg parse) cap blank).Reachable s.threads :=
  refines_pipeline.reachable reached

/-- The threads as those of a feed thread without reconnects. -/
theorem reachable_feed {s : State Raw T}
    (reached : (machine cfg parse recording cap blank).Reachable s) :
    (Pipeline.machine (FeedHandler.producer parse) cap blank).Reachable
      (s.threads.mapProducer WsClient.State.feed) :=
  ((WsClient.refines_feed cfg parse).machine cap blank).reachable (reachable_threads reached)

/-! ## The joins -/

theorem feed_exited_step {threads threads' : Threads Raw T}
    {b : Pipeline.Action (FeedHandler.Action Raw T) T}
    (exited : threads.producer.feed.pc = .exited)
    (h : Pipeline.next (WsClient.producer cfg parse) cap threads b = some threads') :
    threads'.producer.feed.pc = .exited := by
  cases b with
  | producer a =>
    obtain ⟨client, act, queue, moves, -, rfl⟩ := producerStep_acted h
    change client.feed.pc = .exited
    rcases WsClient.next_cases moves with ⟨waited, -⟩ | ⟨feed, stepped, rfl, -⟩
    · rwa [WsClient.waitStep_feed waited]
    · rw [WsClient.follow_feed]
      rcases FeedHandler.next_turn stepped with turn | ⟨-, rfl, -⟩
      rotate_left
      · exact exited
      cases turn with
      | inPush pc => exact exited
      | leave => rfl
      | test pc | connect pc | connected pc | look pc | listen pc | received pc | unparsed pc
      | parsed pc | pushed pc | refused pc | recheck pc | again pc =>
        rw [exited] at pc
        cases pc
      | close pc => simp [exited] at pc
  | consumer left => cases consumerStep_turn h <;> exact exited
  | shutdown =>
    cases h
    exact exited

/-- The main thread passes a join after the exit it waits for, and closes the recording
behind both. -/
def Joined (recording : Bool) (s : State Raw T) : Prop :=
  match s.main with
  | .joinProcessor => s.threads.producer.feed.pc = .exited
  | .closeRecorder => s.threads.producer.feed.pc = .exited ∧ s.threads.consumer = .exited
  | .returned => s.threads.producer.feed.pc = .exited ∧ s.threads.consumer = .exited ∧
      s.closed = if recording then some s.threads.processed else none
  | _ => True

/-- After its exit the processing loop processes nothing more. -/
theorem exited_processed {threads threads' : Threads Raw T}
    {b : Pipeline.Action (FeedHandler.Action Raw T) T} (exited : threads.consumer = .exited)
    (h : Pipeline.next (WsClient.producer cfg parse) cap threads b = some threads') :
    threads'.processed = threads.processed := by
  cases b with
  | producer a => exact (producerStep_frame h).2.2.1
  | consumer left => simp [Pipeline.next, consumerStep, exited] at h
  | shutdown =>
    cases h
    rfl

theorem reachable_joined {s : State Raw T}
    (reached : (machine cfg parse recording cap blank).Reachable s) : Joined recording s := by
  refine Machine.invariant (machine cfg parse recording cap blank) (Joined recording) trivial ?_
    reached
  intro s a t _ joined h
  unfold Joined at joined
  rcases next_cases h with turn | ⟨main, closed, b, stepped⟩
  · cases turn with
    | joinFeed pc exited => exact exited
    | joinProcessor pc exited =>
      rw [pc] at joined
      exact ⟨joined, exited⟩
    | close pc =>
      rw [pc] at joined
      exact ⟨joined.1, joined.2, rfl⟩
    | _ => trivial
  · unfold Joined
    rw [main]
    split at joined
    · exact feed_exited_step joined stepped
    · exact ⟨feed_exited_step joined.1 stepped, exited_step joined.2 stepped⟩
    · obtain ⟨feed, process, same⟩ := joined
      rw [closed, exited_processed process stepped]
      exact ⟨feed_exited_step feed stepped, exited_step process stepped, same⟩
    · trivial

/-! ## What has become of every message -/

/-- In every interleaving of the main thread, the feed thread, the processing loop and a
signal, whatever the exchange does: when the program has returned, both threads have
exited; what was processed is everything the queue accepted, in order, but for at most the
last message; each raw message was counted as a parse error, counted as dropped, processed,
or is that last one; and the recording was closed with everything processed before it. -/
theorem shutdown_accounts (cfg : ReconnectConfig) (parse : Raw → Option T) (recording : Bool)
    (cap : SpscQueue.Capacity) (blank : T) {s : State Raw T}
    (reached : (machine cfg parse recording cap blank).Reachable s)
    (returned : s.main = .returned) :
    s.threads.producer.feed.pc = .exited ∧ s.threads.consumer = .exited ∧
    (∃ lost, s.threads.queue.pushed = s.threads.processed ++ lost ∧ lost.length ≤ 1 ∧
      s.threads.producer.feed.msgCount = s.threads.producer.feed.parseErrors +
        s.threads.producer.feed.queueFull + s.threads.processed.length + lost.length) ∧
    s.closed = if recording then some s.threads.processed else none := by
  have joined := reachable_joined reached
  rw [Joined, returned] at joined
  obtain ⟨feed, process, closed⟩ := joined
  have hidden := reachable_feed reached
  obtain ⟨lost, pushed, few⟩ :=
    LateMessages.exited_missed (LateMessages.feed_promises parse cap) hidden process
  obtain ⟨as, run⟩ := hidden
  obtain ⟨outcomes, account⟩ := MessageConservation.account_of_run run
  refine ⟨feed, process, ⟨lost, pushed, few, ?_⟩, closed⟩
  have idle :
      MessageConservation.inPush s.threads.queue.pushPc s.threads.producer.feed.pc = [] := by
    rw [feed]
    rfl
  have delivered : MessageConservation.accepted parse outcomes = s.threads.queue.pushed ++
      MessageConservation.inPush s.threads.queue.pushPc s.threads.producer.feed.pc :=
    account.delivered
  have total := MessageConservation.length_outcomes account.parsed
  have pushed : s.threads.queue.pushed = s.threads.processed ++ lost := pushed
  rw [delivered, idle, List.append_nil, pushed, List.length_append] at total
  have msgCount : s.threads.producer.feed.msgCount = outcomes.length := account.msgCount
  have parseErrors : s.threads.producer.feed.parseErrors =
    (outcomes.map Prod.snd).count .parseError := account.parseErrors
  have queueFull : s.threads.producer.feed.queueFull =
    (outcomes.map Prod.snd).count .queueFull := account.queueFull
  rw [msgCount, parseErrors, queueFull, total]
  omega

/-- One message is received, the program is told to end, and drains its queue. -/
def liveSchedule : List (Action Unit Nat) :=
  let feed := Action.feed 0
  let process := Action.process 0
  [feed, feed, .connected, feed, feed, .receive (), feed, feed, feed, feed, feed, feed, .signal,
    feed, feed, process, process, process, process, process, process, process, process, process,
    process, .main, .main, .main, .main, .main, .main]

theorem shutdown_accounts_liveSchedule : ∃ s lost,
    (machine {} (fun _ => some 7) true FeedHandler.feedQueue 0).run
      (initial {} (fun _ => some 7) 0) liveSchedule = some s ∧
    s.main = .returned ∧ s.closed = some [7] ∧ s.threads.queue.pushed = [7] ++ lost ∧
    s.threads.producer.feed.msgCount = 0 + 0 + 1 + lost.length := by
  have ends : ((machine {} (fun (_ : Unit) => some 7) true FeedHandler.feedQueue 0).run
      (initial {} (fun _ => some 7) 0) liveSchedule).map (fun s =>
        (s.main, s.threads.processed, s.threads.producer.feed.parseErrors,
          s.threads.producer.feed.queueFull)) = some (.returned, [7], 0, 0) := by decide +kernel
  obtain ⟨s, run, same⟩ := Option.map_eq_some_iff.mp ends
  simp only [Prod.mk.injEq] at same
  obtain ⟨returned, processed, parseErrors, queueFull⟩ := same
  obtain ⟨-, -, ⟨lost, pushed, -, counted⟩, closed⟩ :=
    shutdown_accounts {} (fun _ => some 7) true FeedHandler.feedQueue 0 ⟨_, run⟩ returned
  rw [processed] at pushed counted closed
  rw [parseErrors, queueFull] at counted
  exact ⟨s, lost, run, returned, closed, pushed, counted⟩

end LiveMain
