import MarketDataEngine.ReplayControl
import MarketDataEngine.ReplayDelivery

/-!
# The program in replay mode

`main` of `main.cpp` with a replay file: its status loop, which ends the program once the
replay has finished and the queue is empty, and the orderly shutdown behind it, beside the
replay thread, the processing loop, the commands of the dashboard and the signal handler, of
which there is the moment at which it clears the flag. The status line and the log are left
out, as is `sleep_for`. The two loads of `queue->empty()` are unsequenced, so the environment
picks their order. Of the monitoring servers there is only the step that stops both, which the
main thread can always take here; what their `stop()` can wait for is said where the servers
are modelled.
-/

namespace ReplayMain

open Transition MarketTypes RecordFormat Pipeline ReplayEngine ReplayControl

/-- Where the main thread is. -/
inductive Pc where
  | checkRunning
  | sleeping
  | recheckRunning
  | loadFinished
  | loadFirst
  | loadTail (head : Nat)
  | loadHead (tail : Nat)
  | clearRunning
  | stopServers
  | unpause
  | joinReplay
  | joinProcessor
  | returned
  deriving DecidableEq

abbrev Threads := Pipeline.State ReplayEngine.State (QueueMessage Double)

structure State where
  threads : Threads
  main : Pc := .checkRunning

inductive Action where
  | replay (left : QueueMessage Double) (now enqueued : TimePoint)
  | process (left : QueueMessage Double)
  | main (headFirst : Bool)
  | command (msg : List UInt8)
  | signal

/-- The next access of the main thread. A join waits for the other thread's exit; stopping the
servers waits for nobody here. -/
def mainStep (headFirst : Bool) (s : State) : Option State :=
  match s.main with
  | .checkRunning =>
    some { s with main := if s.threads.running then .sleeping else .stopServers }
  | .sleeping => some { s with main := .recheckRunning }
  | .recheckRunning =>
    some { s with main := if s.threads.running then .loadFinished else .stopServers }
  | .loadFinished =>
    some { s with main := if s.threads.producer.finished then .loadFirst else .checkRunning }
  | .loadFirst =>
    some { s with
      main := if headFirst then .loadTail s.threads.queue.head
        else .loadHead s.threads.queue.tail }
  | .loadTail head =>
    some { s with main := if head = s.threads.queue.tail then .clearRunning else .checkRunning }
  | .loadHead tail =>
    some { s with main := if s.threads.queue.head = tail then .clearRunning else .checkRunning }
  | .clearRunning =>
    some { s with threads := { s.threads with running := false }, main := .checkRunning }
  | .stopServers => some { s with main := .unpause }
  | .unpause =>
    some { s with
      threads := { s.threads with producer := { s.threads.producer with paused := false } }
      main := .joinReplay }
  | .joinReplay =>
    match s.threads.producer.pc with
    | .exited => some { s with main := .joinProcessor }
    | _ => none
  | .joinProcessor =>
    match s.threads.consumer with
    | .exited => some { s with main := .returned }
    | _ => none
  | .returned => none

/-- `ReplayEngine::load`: the reader of the file, and the count its header claims, which the
status line shows as the total. -/
def load (file : Option (List UInt8)) : Option (DiskReader × UInt32) :=
  match DiskReader.openFile {} file with
  | (false, _) => none
  | (true, reader) => some (reader, reader.header.recordCount)

section Model
variable (parse : List UInt8 → Option Json) (reader : DiskReader) (speed : PlaybackSpeed)
  (cap : SpscQueue.Capacity) (blank : QueueMessage Double)

/-- A step of one of the other threads. -/
def threadsStep (s : State) (a : Pipeline.Action ReplayEngine.Action (QueueMessage Double)) :
    Option State :=
  (Pipeline.next (producer reader speed) cap s.threads a).map (fun threads => { s with threads })

def next (s : State) : Action → Option State
  | .replay left now enqueued =>
    threadsStep reader speed cap s (.producer (.step left now enqueued))
  | .process left => threadsStep reader speed cap s (.consumer left)
  | .main headFirst => mainStep headFirst s
  | .command msg =>
    match commandOf parse msg with
    | none => some s
    | some act => threadsStep reader speed cap s (.producer act)
  | .signal => threadsStep reader speed cap s .shutdown

def initial : State where
  threads := Pipeline.initial (producer reader speed) blank

/-- The program from the moment all its threads have been started. -/
def machine : Machine State Action where
  init := initial reader speed blank
  next := next parse reader speed cap

end Model

variable {parse : List UInt8 → Option Json} {reader : DiskReader} {speed : PlaybackSpeed}
  {cap : SpscQueue.Capacity} {blank : QueueMessage Double}

/-! ## What a step does -/

/-- The steps of the main thread. -/
inductive MainTurn (s : State) : State → Prop
  | sleep (pc : s.main = .checkRunning) (up : s.threads.running = true) :
    MainTurn s { s with main := .sleeping }
  | wake (pc : s.main = .sleeping) : MainTurn s { s with main := .recheckRunning }
  | look (pc : s.main = .recheckRunning) (up : s.threads.running = true) :
    MainTurn s { s with main := .loadFinished }
  | leave (pc : s.main = .checkRunning ∨ s.main = .recheckRunning)
    (down : s.threads.running = false) : MainTurn s { s with main := .stopServers }
  | unfinished (pc : s.main = .loadFinished) : MainTurn s { s with main := .checkRunning }
  | finished (pc : s.main = .loadFinished) (finished : s.threads.producer.finished = true) :
    MainTurn s { s with main := .loadFirst }
  | headFirst (pc : s.main = .loadFirst) :
    MainTurn s { s with main := .loadTail s.threads.queue.head }
  | tailFirst (pc : s.main = .loadFirst) :
    MainTurn s { s with main := .loadHead s.threads.queue.tail }
  | emptyTail {head : Nat} (pc : s.main = .loadTail head) (same : head = s.threads.queue.tail) :
    MainTurn s { s with main := .clearRunning }
  | emptyHead {tail : Nat} (pc : s.main = .loadHead tail) (same : s.threads.queue.head = tail) :
    MainTurn s { s with main := .clearRunning }
  | holding {index : Nat} (pc : s.main = .loadTail index ∨ s.main = .loadHead index) :
    MainTurn s { s with main := .checkRunning }
  | clear (pc : s.main = .clearRunning) :
    MainTurn s { threads := { s.threads with running := false }, main := .checkRunning }
  | stop (pc : s.main = .stopServers) : MainTurn s { s with main := .unpause }
  | unpause (pc : s.main = .unpause) :
    MainTurn s {
      threads := { s.threads with producer := { s.threads.producer with paused := false } }
      main := .joinReplay }
  | joinReplay (pc : s.main = .joinReplay) (exited : s.threads.producer.pc = .exited) :
    MainTurn s { s with main := .joinProcessor }
  | joinProcessor (pc : s.main = .joinProcessor) (exited : s.threads.consumer = .exited) :
    MainTurn s { s with main := .returned }

theorem mainStep_turn {headFirst : Bool} {s t : State} (h : mainStep headFirst s = some t) :
    MainTurn s t := by
  unfold mainStep at h
  cases pc : s.main with
  | checkRunning =>
    simp only [pc] at h
    cases h
    cases up : s.threads.running with
    | true => exact .sleep pc up
    | false => exact .leave (Or.inl pc) up
  | sleeping =>
    simp only [pc] at h
    cases h
    exact .wake pc
  | recheckRunning =>
    simp only [pc] at h
    cases h
    cases up : s.threads.running with
    | true => exact .look pc up
    | false => exact .leave (Or.inr pc) up
  | loadFinished =>
    simp only [pc] at h
    cases h
    cases finished : s.threads.producer.finished with
    | true => exact .finished pc finished
    | false => exact .unfinished pc
  | loadFirst =>
    simp only [pc] at h
    cases h
    cases headFirst with
    | true => exact .headFirst pc
    | false => exact .tailFirst pc
  | loadTail head =>
    simp only [pc] at h
    cases h
    split_ifs with same
    · exact .emptyTail pc same
    · exact .holding (Or.inl pc)
  | loadHead tail =>
    simp only [pc] at h
    cases h
    split_ifs with same
    · exact .emptyHead pc same
    · exact .holding (Or.inr pc)
  | clearRunning =>
    simp only [pc] at h
    cases h
    exact .clear pc
  | stopServers =>
    simp only [pc] at h
    cases h
    exact .stop pc
  | unpause =>
    simp only [pc] at h
    cases h
    exact .unpause pc
  | joinReplay =>
    simp only [pc] at h
    split at h
    · rename_i exited
      cases h
      exact .joinReplay pc exited
    · cases h
  | joinProcessor =>
    simp only [pc] at h
    split at h
    · rename_i exited
      cases h
      exact .joinProcessor pc exited
    · cases h
  | returned => simp [pc] at h

/-- What an action does: a turn of the main thread, or a step of the others behind
its back; only a signal takes that step on the flag. -/
theorem next_cases {s t : State} {a : Action} (h : next parse reader speed cap s a = some t) :
    MainTurn s t ∨ t.main = s.main ∧ (t.threads = s.threads ∨
      ∃ b, Pipeline.next (producer reader speed) cap s.threads b = some t.threads ∧
        (b = .shutdown → a = .signal)) := by
  have taken : ∀ b, threadsStep reader speed cap s b = some t →
      (b = .shutdown → a = .signal) → t.main = s.main ∧ (t.threads = s.threads ∨
        ∃ b, Pipeline.next (producer reader speed) cap s.threads b = some t.threads ∧
          (b = .shutdown → a = .signal)) := by
    intro b moved only
    obtain ⟨threads, stepped, rfl⟩ := Option.map_eq_some_iff.mp moved
    exact ⟨rfl, Or.inr ⟨b, stepped, only⟩⟩
  cases a with
  | replay left now enqueued => exact Or.inr (taken _ h (fun same => by cases same))
  | process left => exact Or.inr (taken _ h (fun same => by cases same))
  | main headFirst => exact Or.inl (mainStep_turn h)
  | command msg =>
    simp only [next] at h
    split at h
    · cases h
      exact Or.inr ⟨rfl, Or.inl rfl⟩
    · exact Or.inr (taken _ h (fun same => by cases same))
  | signal => exact Or.inr (taken _ h (fun _ => rfl))

/-- The main thread clears the flag and ends a pause, as other threads may. -/
theorem mainTurn_threads {s t : State} (turn : MainTurn s t) :
    t.threads = s.threads ∨
      ∃ b, Pipeline.next (producer reader speed) cap s.threads b = some t.threads := by
  cases turn with
  | clear => exact Or.inr ⟨.shutdown, rfl⟩
  | unpause => exact Or.inr ⟨.producer .resume, rfl⟩
  | _ => exact Or.inl rfl

/-- Whatever the main thread and the dashboard do, the other threads run as before. -/
theorem refines_pipeline :
    (machine parse reader speed cap blank).Refines
      (Pipeline.machine (producer reader speed) cap blank) State.threads := by
  refine ⟨rfl, fun s a t _ h => ?_⟩
  rcases next_cases h with turn | ⟨-, same | ⟨b, stepped, -⟩⟩
  · exact mainTurn_threads turn
  · exact Or.inl same
  · exact Or.inr ⟨b, stepped⟩

theorem reachable_threads {s : State}
    (reached : (machine parse reader speed cap blank).Reachable s) :
    (Pipeline.machine (producer reader speed) cap blank).Reachable s.threads :=
  refines_pipeline.reachable reached

/-! ## The end of the file -/

/-- The whole file was read and everything pushed was taken out of the queue. -/
structure Done (threads : Threads) : Prop where
  finished : threads.producer.finished = true
  emptied : threads.queue.popped.length = threads.queue.pushed.length

theorem finished_exited {threads : Threads}
    (reached : (Pipeline.machine (producer reader speed) cap blank).Reachable threads)
    (finished : threads.producer.finished = true) : threads.producer.pc = .exited := by
  obtain ⟨taken, rest, abandoned, progress⟩ := ReplayProgress.reachable_progress reached
  by_contra running
  have unfinished := (progress.live running).2.2
  rw [finished] at unfinished
  cases unfinished

/-- After the end of the file only the processing loop still touches the queue. -/
theorem finished_step {threads threads' : Threads}
    {b : Pipeline.Action ReplayEngine.Action (QueueMessage Double)}
    (reached : (Pipeline.machine (producer reader speed) cap blank).Reachable threads)
    (finished : threads.producer.finished = true)
    (h : Pipeline.next (producer reader speed) cap threads b = some threads') :
    threads'.producer.finished = true ∧ threads'.queue.pushed = threads.queue.pushed := by
  cases b with
  | producer a =>
    obtain ⟨thread, act, queue, moves, acted, rfl⟩ := producerStep_acted h
    have exited := finished_exited reached finished
    cases a with
    | step left now enqueued => simp [producer, ReplayEngine.next, threadStep, exited] at moves
    | pause | resume | setSpeed speed =>
      cases moves
      obtain rfl : queue = threads.queue := acted
      exact ⟨finished, rfl⟩
  | consumer left =>
    obtain ⟨-, pushed, -, same, -⟩ := consumerStep_handled (reachable_handled reached) h
    exact ⟨same ▸ finished, pushed⟩
  | shutdown =>
    cases h
    exact ⟨finished, rfl⟩

theorem tail_of_pushed {threads threads' : Threads}
    (inv : SpscQueue.Inv cap threads.queue) (inv' : SpscQueue.Inv cap threads'.queue)
    (same : threads'.queue.pushed = threads.queue.pushed) :
    threads'.queue.tail = threads.queue.tail := by
  rw [inv'.tail_eq, inv.tail_eq, same]

theorem emptied_iff {threads : Threads} (inv : SpscQueue.Inv cap threads.queue) :
    threads.queue.head = threads.queue.tail ↔
      threads.queue.popped.length = threads.queue.pushed.length := by
  have le := inv.fifo.length_le
  rw [SpscQueue.empty_iff inv]
  unfold SpscQueue.held
  omega

/-- An emptied queue that nothing is pushed into stays empty. -/
theorem emptied_step {threads threads' : Threads}
    {b : Pipeline.Action ReplayEngine.Action (QueueMessage Double)}
    (reached : (Pipeline.machine (producer reader speed) cap blank).Reachable threads)
    (h : Pipeline.next (producer reader speed) cap threads b = some threads')
    (same : threads'.queue.pushed = threads.queue.pushed)
    (emptied : threads.queue.popped.length = threads.queue.pushed.length) :
    threads'.queue.popped.length = threads'.queue.pushed.length := by
  have within := (queue_inv (reached.next h)).fifo.length_le
  have grows : threads.queue.popped.length ≤ threads'.queue.popped.length := by
    rcases next_queue h with unchanged | ⟨c, stepped⟩
    · rw [unchanged]
    · exact (SpscQueue.step_popped (SpscQueue.next_step stepped)).length_le
  rw [same] at within ⊢
  omega

/-! ## The status loop -/

/-- What the main thread has seen when it stands between two loads. -/
def Observed (s : State) : Prop :=
  match s.main with
  | .loadFirst => s.threads.producer.finished = true
  | .loadTail head =>
    s.threads.producer.finished = true ∧ (head = s.threads.queue.tail → Done s.threads)
  | .loadHead tail => s.threads.producer.finished = true ∧ tail = s.threads.queue.tail
  | .clearRunning => Done s.threads
  | _ => True

/-- Without a signal the flag is up until the replay is done. -/
structure Unsignalled (s : State) : Prop where
  observed : Observed s
  down : s.threads.running = false → Done s.threads

/-- A step of the other threads does not undo what the main thread has seen. -/
theorem Observed.step {s t : State} {b : Pipeline.Action ReplayEngine.Action (QueueMessage Double)}
    (reached : (Pipeline.machine (producer reader speed) cap blank).Reachable s.threads)
    (h : Pipeline.next (producer reader speed) cap s.threads b = some t.threads)
    (main : t.main = s.main) (observed : Observed s) : Observed t := by
  have done : Done s.threads → Done t.threads := by
    rintro ⟨finished, emptied⟩
    obtain ⟨finished', pushed⟩ := finished_step reached finished h
    exact ⟨finished', emptied_step reached h pushed emptied⟩
  have tail : s.threads.producer.finished = true →
      t.threads.producer.finished = true ∧ t.threads.queue.tail = s.threads.queue.tail := by
    intro finished
    obtain ⟨finished', pushed⟩ := finished_step reached finished h
    exact ⟨finished', tail_of_pushed (queue_inv reached) (queue_inv (reached.next h)) pushed⟩
  unfold Observed at observed ⊢
  rw [main]
  split at observed
  · exact (tail observed).1
  · obtain ⟨finished, same⟩ := tail observed.1
    rw [same]
    exact ⟨finished, fun empty => done (observed.2 empty)⟩
  · obtain ⟨finished, same⟩ := tail observed.1
    exact ⟨finished, observed.2.trans same.symm⟩
  · exact done observed
  · trivial

/-- The main thread clears the flag on what it has seen. -/
theorem Unsignalled.turn {s t : State} (unsignalled : Unsignalled s)
    (inv : SpscQueue.Inv cap s.threads.queue) (turn : MainTurn s t) : Unsignalled t := by
  obtain ⟨observed, down⟩ := unsignalled
  unfold Observed at observed
  cases turn with
  | finished pc finished => exact ⟨finished, down⟩
  | headFirst pc =>
    rw [pc] at observed
    exact ⟨⟨observed, fun same => ⟨observed, (emptied_iff inv).mp same⟩⟩, down⟩
  | tailFirst pc =>
    rw [pc] at observed
    exact ⟨⟨observed, rfl⟩, down⟩
  | emptyTail pc same =>
    rw [pc] at observed
    exact ⟨observed.2 same, down⟩
  | emptyHead pc same =>
    rw [pc] at observed
    exact ⟨⟨observed.1, (emptied_iff inv).mp (same.trans observed.2)⟩, down⟩
  | clear pc =>
    rw [pc] at observed
    exact ⟨trivial, fun _ => ⟨observed.1, observed.2⟩⟩
  | unpause pc => exact ⟨trivial, fun now => ⟨(down now).1, (down now).2⟩⟩
  | _ => exact ⟨trivial, down⟩

theorem unsignalled_of_run {as : List Action} {s : State}
    (run : (machine parse reader speed cap blank).run (initial reader speed blank) as = some s)
    (none : Action.signal ∉ as) : Unsignalled s := by
  refine Machine.history_invariant (machine parse reader speed cap blank)
    (fun as s => Action.signal ∉ as → Unsignalled s) ?_ ?_ run none
  · exact fun _ => ⟨trivial, fun down => by cases down⟩
  · intro as s a t reached ih h none
    have before := ih (fun mem => none (List.mem_append_left _ mem))
    have threads := reachable_threads ⟨as, reached⟩
    rcases next_cases h with turn | ⟨main, same | ⟨b, stepped, only⟩⟩
    · exact before.turn (queue_inv threads) turn
    · obtain ⟨threads', main'⟩ := t
      obtain rfl : threads' = s.threads := same
      obtain rfl : main' = s.main := main
      exact before
    · refine ⟨before.observed.step threads stepped main, fun down => ?_⟩
      have quiet : b ≠ .shutdown := fun isDown =>
        none (List.mem_append_right _ (List.mem_singleton.mpr (only isDown).symm))
      have kept : t.threads.running = s.threads.running := by
        cases b with
        | producer a => exact (producerStep_frame stepped).1
        | consumer left =>
          exact (consumerStep_handled (reachable_handled threads) stepped).2.2.2.2
        | shutdown => exact absurd rfl quiet
      have done := before.down (kept ▸ down)
      obtain ⟨finished, pushed⟩ := finished_step threads done.finished stepped
      exact ⟨finished, emptied_step threads stepped pushed done.emptied⟩

/-! ## The joins -/

/-- A replay thread that has exited stays so. -/
theorem replay_exited_step {threads threads' : Threads}
    {b : Pipeline.Action ReplayEngine.Action (QueueMessage Double)}
    (exited : threads.producer.pc = .exited)
    (h : Pipeline.next (producer reader speed) cap threads b = some threads') :
    threads'.producer.pc = .exited := by
  cases b with
  | producer a =>
    obtain ⟨thread, act, queue, moves, -, rfl⟩ := producerStep_acted h
    cases a with
    | step left now enqueued => simp [producer, ReplayEngine.next, threadStep, exited] at moves
    | pause | resume | setSpeed speed =>
      cases moves
      exact exited
  | consumer left => cases consumerStep_turn h <;> exact exited
  | shutdown =>
    cases h
    exact exited

/-- The main thread passes a join after the exit it waits for. -/
def Joined (s : State) : Prop :=
  match s.main with
  | .joinProcessor => s.threads.producer.pc = .exited
  | .returned => s.threads.producer.pc = .exited ∧ s.threads.consumer = .exited
  | _ => True

theorem reachable_joined {s : State}
    (reached : (machine parse reader speed cap blank).Reachable s) : Joined s := by
  refine Machine.invariant (machine parse reader speed cap blank) Joined trivial ?_ reached
  intro s a t _ joined h
  rcases next_cases h with turn | ⟨main, same | ⟨b, stepped, -⟩⟩
  · unfold Joined at joined
    cases turn with
    | joinReplay pc exited => exact exited
    | joinProcessor pc exited =>
      rw [pc] at joined
      exact ⟨joined, exited⟩
    | _ => trivial
  · unfold Joined at joined ⊢
    rwa [main, same]
  · unfold Joined at joined ⊢
    rw [main]
    split at joined
    · exact replay_exited_step joined stepped
    · exact ⟨replay_exited_step joined.1 stepped, Pipeline.exited_step joined.2 stepped⟩
    · trivial

/-- A program that has returned without a signal has completed its replay. -/
theorem completed_of_returned {as : List Action} {s : State}
    (run : (machine parse reader speed cap blank).run (initial reader speed blank) as = some s)
    (unsignalled : Action.signal ∉ as) (returned : s.main = .returned) :
    s.threads.producer.pc = .exited ∧ s.threads.consumer = .exited ∧
      ReplayProgress.Completed s.threads := by
  have threads := reachable_threads ⟨as, run⟩
  have joined := reachable_joined ⟨as, run⟩
  rw [Joined, returned] at joined
  obtain ⟨replay, process⟩ := joined
  have now := reachable_draining threads (by rw [process]; trivial)
  obtain ⟨finished, emptied⟩ := (unsignalled_of_run run unsignalled).down now
  refine ⟨replay, process, finished, (emptied_iff (queue_inv threads)).mpr emptied, ?_⟩
  rw [process]
  rfl

/-- The counter of a replay that has read its file to the end. -/
theorem replayed_of_finished {threads : Threads}
    (reached : (Pipeline.machine (producer reader speed) cap blank).Reachable threads)
    (finished : threads.producer.finished = true) :
    threads.producer.replayed = reader.readAll.length := by
  have counted := (ReplayDelivery.reachable_counted reached).replayed
  rw [finished_exited reached finished] at counted
  have sent := congrArg List.length (ReplayProgress.finished_delivered reached finished)
  rw [ReplayProgress.delivered, List.length_map, List.length_map] at sent
  rw [← sent, ← counted]
  rfl

/-- In every run without a signal, whatever the dashboard sends and whichever thread is
ahead: the flag goes down only when the whole file has been read and pushed and the queue
is empty, and once the program has returned, both threads have exited, each record of
the file was processed exactly once, in order, and the counter says so. -/
theorem autoShutdown_complete (parse : List UInt8 → Option Json) (reader : DiskReader)
    (speed : PlaybackSpeed) (cap : SpscQueue.Capacity) (blank : QueueMessage Double)
    {as : List Action} {s : State}
    (run : (machine parse reader speed cap blank).run (initial reader speed blank) as = some s)
    (unsignalled : Action.signal ∉ as) :
    (s.threads.running = false →
      ReplayProgress.delivered s.threads.queue.pushed =
        reader.readAll.map (fun f => ReplayProgress.replayed f.2) ∧
      s.threads.queue.head = s.threads.queue.tail) ∧
    (s.main = .returned →
      s.threads.producer.pc = .exited ∧ s.threads.consumer = .exited ∧
      ReplayProgress.delivered s.threads.processed =
        reader.readAll.map (fun f => ReplayProgress.replayed f.2) ∧
      s.threads.producer.replayed = reader.readAll.length) := by
  have threads := reachable_threads ⟨as, run⟩
  constructor
  · intro now
    obtain ⟨finished, emptied⟩ := (unsignalled_of_run run unsignalled).down now
    exact ⟨ReplayProgress.finished_delivered threads finished,
      (emptied_iff (queue_inv threads)).mpr emptied⟩
  · intro returned
    obtain ⟨replay, process, completed⟩ := completed_of_returned run unsignalled returned
    exact ⟨replay, process, ReplayProgress.completed_processed threads completed,
      replayed_of_finished threads completed.finished⟩

/-- The main thread looks twice in vain, once while the file is being read and once while the
second record is in the queue, and ends the program when that one has been processed. -/
def statusSchedule : List Action :=
  let replay := Action.replay .blank 0 0
  let process := Action.process .blank
  let main := Action.main true
  List.replicate 12 replay ++ List.replicate 4 main ++ List.replicate 7 process ++
    List.replicate 16 replay ++ List.replicate 7 main ++ List.replicate 7 process ++
    List.replicate 9 main ++ List.replicate 4 process ++ List.replicate 2 main

theorem autoShutdown_complete_twoRecords : ∃ s,
    (machine (fun _ => none) DiskReader.sampleReader .max FeedHandler.feedQueue .blank).run
      (initial DiskReader.sampleReader .max .blank) statusSchedule = some s ∧
    s.main = .returned ∧
    ReplayProgress.delivered s.threads.processed =
      [some (.depthUpdate DiskReader.sampleWrite.1.untimed),
        some (.depthUpdate DiskReader.sampleWrite.1.untimed)] ∧
    s.threads.producer.replayed = 2 := by
  have ends : ((machine (fun _ => none) DiskReader.sampleReader .max FeedHandler.feedQueue
      .blank).run (initial DiskReader.sampleReader .max .blank) statusSchedule).map State.main =
        some .returned := by decide +kernel
  obtain ⟨s, run, returned⟩ := Option.map_eq_some_iff.mp ends
  obtain ⟨-, whole⟩ := autoShutdown_complete (fun _ => none) DiskReader.sampleReader .max
    FeedHandler.feedQueue .blank run (by simp [statusSchedule])
  obtain ⟨-, -, processed, replayed⟩ := whole returned
  have converted : fromRecord (toRecord DiskReader.sampleWrite.1) =
      some DiskReader.sampleWrite.1.untimed := fromRecord_toRecord_of_recordable (by decide)
  rw [DiskReader.sampleReader_opens.2] at processed replayed
  simp only [List.map_cons, List.map_nil, DiskLogger.frameOf, ReplayProgress.replayed, converted,
    Option.map_some] at processed
  exact ⟨s, run, returned, processed, replayed⟩

end ReplayMain
