import MarketDataEngine.ReplaySafety

/-!
# Replaying against back-pressure

The queue may refuse a message any number of times in a row. This module adds to
the account of the records what a refusal leaves in the caller's object, and what
`replayed_count` says about the pushes, in every interleaving with the processing
loop, the controls and a shutdown.
-/

namespace ReplayDelivery

open Transition MarketTypes RecordFormat Pipeline ReplayEngine ReplayProgress

/-! ## A refused push -/

section Refused
variable {T : Type} {cap : SpscQueue.Capacity}

/-- The object passed to a `try_push` is still whole, or the push has succeeded. -/
def Kept (item : T) (pushPc : SpscQueue.PushPc T) : Prop :=
  pushPc.pending = [item] ∨ ∃ left, pushPc = .returned true left

theorem push_kept {left item : T} {s t : SpscQueue.State T} (kept : Kept item s.pushPc)
    (h : SpscQueue.next cap s (.push left) = some t) : Kept item t.pushPc := by
  obtain ⟨-, -, ⟨-, pushed⟩ | ⟨o, item', tail, -, returned, -⟩⟩ := SpscQueue.push_frame h
  · have pending := SpscQueue.push_pending h
    rw [pushed] at pending
    rcases kept with whole | ⟨gone, returned⟩
    · exact Or.inl ((List.append_cancel_left pending).trans whole)
    · simp [SpscQueue.next, SpscQueue.pushStep, returned] at h
  · exact Or.inr ⟨_, returned⟩

end Refused

variable {reader : DiskReader} {speed : PlaybackSpeed} {cap : SpscQueue.Capacity}
  {blank : QueueMessage Double}

/-- Every step taken so far was taken inside one call of `try_push`. -/
def Pushing (s : Pipeline.State ReplayEngine.State (QueueMessage Double))
    (_ : Pipeline.Action ReplayEngine.Action (QueueMessage Double)) : Prop :=
  s.producer.pc = .pushing

theorem next_kept {s t : Pipeline.State ReplayEngine.State (QueueMessage Double)}
    {a : Pipeline.Action ReplayEngine.Action (QueueMessage Double)} {item : QueueMessage Double}
    (pushing : s.producer.pc = .pushing) (kept : Kept item s.queue.pushPc)
    (handled : Handled s) (h : Pipeline.next (producer reader speed) cap s a = some t) :
    Kept item t.queue.pushPc := by
  cases a with
  | producer a =>
    change producerStep (producer reader speed) cap s a = some t at h
    cases a with
    | step left now enqueued =>
      simp only [producerStep, producer, ReplayEngine.next, threadStep, pushing] at h
      cases pc : s.queue.pushPc with
      | ready => simp [pc] at h
      | returned ok item' =>
        cases ok <;>
        · simp only [pc] at h
          cases h
          exact kept
      | loadTail | loadHead | copy | storeTail =>
        simp only [pc] at h
        obtain ⟨queue, stepped, rfl⟩ := Option.map_eq_some_iff.mp h
        exact push_kept kept stepped
    | pause | resume | setSpeed speed =>
      cases h
      exact kept
  | consumer left =>
    obtain ⟨-, -, pushPc, -, -⟩ := consumerStep_handled handled h
    rwa [pushPc]
  | shutdown =>
    cases h
    exact kept

/-- Whatever the other threads do, a refused `try_push` leaves the message as it was. -/
theorem refused_unchanged {as : List (Pipeline.Action ReplayEngine.Action (QueueMessage Double))}
    {s t : Pipeline.State ReplayEngine.State (QueueMessage Double)}
    {item left : QueueMessage Double}
    (reached : (machine (producer reader speed) cap blank).Reachable s)
    (kept : Kept item s.queue.pushPc)
    (inside : (machine (producer reader speed) cap blank).EachStep Pushing s as)
    (run : (machine (producer reader speed) cap blank).run s as = some t)
    (refused : t.queue.pushPc = .returned false left) : left = item := by
  induction as generalizing s with
  | nil =>
    cases run
    rcases kept with whole | ⟨gone, returned⟩
    · rw [refused] at whole
      exact (List.cons.inj whole).1
    · rw [refused] at returned
      cases returned
  | cons a rest ih =>
    obtain ⟨m, step, later⟩ := Machine.run_cons_some.mp run
    obtain ⟨pushing, inside⟩ := inside
    exact ih (reached.next step) (next_kept pushing kept (reachable_handled reached) step)
      (inside m step) later

/-! ## The counter of replayed records -/

/-- A push that has succeeded and is not yet counted. -/
def uncounted (pushPc : SpscQueue.PushPc (QueueMessage Double)) : Pc → Nat
  | .count => 1
  | .pushing =>
    match pushPc with
    | .returned true _ => 1
    | _ => 0
  | _ => 0

/-- Pushes are counted once each, and a refused message is the one that is retried. -/
structure Counted (queue : SpscQueue.State (QueueMessage Double)) (thread : ReplayEngine.State) :
    Prop where
  replayed : thread.replayed + uncounted queue.pushPc thread.pc = queue.pushed.length
  retried : ∀ msg, thread.pc = .retryCheck msg → queue.pushPc = .returned false msg

theorem Counted.move {queue queue' : SpscQueue.State (QueueMessage Double)}
    {thread thread' : ReplayEngine.State} (counted : Counted queue thread)
    (same : thread'.replayed + uncounted queue'.pushPc thread'.pc =
      thread.replayed + uncounted queue.pushPc thread.pc)
    (pushed : queue'.pushed = queue.pushed) (onward : ∀ msg, thread'.pc ≠ .retryCheck msg) :
    Counted queue' thread' where
  replayed := by rw [same, pushed, counted.replayed]
  retried := fun msg pc => absurd pc (onward msg)

/-- The store that publishes a message is what makes it count. -/
theorem push_counted {left : QueueMessage Double}
    {queue queue' : SpscQueue.State (QueueMessage Double)} {thread : ReplayEngine.State}
    (pc : thread.pc = .pushing) (counted : Counted queue thread)
    (h : SpscQueue.next cap queue (.push left) = some queue') : Counted queue' thread := by
  refine ⟨?_, fun msg retry => by rw [pc] at retry; cases retry⟩
  have before := counted.replayed
  rw [pc] at before ⊢
  cases stage : queue.pushPc with
  | ready | returned ok item => simp [SpscQueue.next, SpscQueue.pushStep, stage] at h
  | loadTail o item | copy o item tail =>
    simp only [SpscQueue.next, SpscQueue.pushStep, stage] at h before
    cases h
    exact before
  | loadHead o item tail =>
    simp only [SpscQueue.next, SpscQueue.pushStep, stage] at h before
    split_ifs at h <;> cases h <;> exact before
  | storeTail o item tail =>
    simp only [SpscQueue.next, SpscQueue.pushStep, stage] at h before
    cases h
    rw [List.length_append, List.length_singleton, ← before]
    rfl

theorem uncounted_control (pushPc : SpscQueue.PushPc (QueueMessage Double)) {pc : Pc}
    (control : pc.Control) : uncounted pushPc pc = 0 := by
  cases pc <;> first | rfl | cases control

/-- A step of the replay thread counts a push that has succeeded, or none. -/
theorem turn_counted {running : Bool} {queue queue' : SpscQueue.State (QueueMessage Double)}
    {thread thread' : ReplayEngine.State} {act : Option (PushAction (QueueMessage Double))}
    (counted : Counted queue thread) (turn : Turn running queue.pushPc thread thread' act)
    (acted : Acted cap queue act queue') : Counted queue' thread' := by
  cases turn with
  | @control pc' before after =>
    obtain rfl : queue' = queue := acted
    have none : uncounted queue'.pushPc pc' = 0 := by
      rcases after with control | rfl | rfl
      · exact uncounted_control _ control
      · rfl
      · rfl
    refine counted.move ?_ rfl (fun msg (pc : pc' = .retryCheck msg) => ?_)
    · rw [none, uncounted_control _ before]
    · simp [pc, Pc.Control] at after
  | finish pc read | read pc read =>
    obtain rfl : queue' = queue := acted
    exact counted.move (by rw [pc]; rfl) rfl (by simp)
  | delay pc | fault pc unconverted | abandon pc down | count pc =>
    obtain rfl : queue' = queue := acted
    exact counted.move (by rw [pc]; rfl) rfl (by simp)
  | push pc converted | retry pc up =>
    obtain rfl := SpscQueue.callPush_frame acted
    exact counted.move (by rw [pc]; rfl) rfl (by simp)
  | pushed pc returned =>
    obtain rfl : queue' = queue := acted
    exact counted.move (by rw [pc, returned]; rfl) rfl (by simp)
  | refused pc returned =>
    obtain rfl : queue' = queue := acted
    refine ⟨?_, fun msg retry => ?_⟩
    · rw [← counted.replayed, pc, returned]
      rfl
    · cases retry
      exact returned
  | inPush pc => exact push_counted pc counted acted

theorem Counted.frame {queue queue' : SpscQueue.State (QueueMessage Double)}
    {thread thread' : ReplayEngine.State} (counted : Counted queue thread)
    (pushed : queue'.pushed = queue.pushed) (pushPc : queue'.pushPc = queue.pushPc)
    (pc : thread'.pc = thread.pc) (replayed : thread'.replayed = thread.replayed) :
    Counted queue' thread' where
  replayed := by rw [replayed, pushPc, pc, pushed, counted.replayed]
  retried := by
    rw [pc, pushPc]
    exact counted.retried

/-- In every interleaving `replayed_count` is the number of pushes, but for one under way. -/
theorem reachable_counted {s : Pipeline.State ReplayEngine.State (QueueMessage Double)}
    (reached : (machine (producer reader speed) cap blank).Reachable s) :
    Counted s.queue s.producer := by
  obtain ⟨as, run⟩ := reached
  refine producer_history (fun _ => Counted) ?_ ?_ ?_ run
  · exact ⟨rfl, fun msg retry => by cases retry⟩
  · intro _ a queue queue' thread _ pushed pushPc counted
    exact counted.frame pushed pushPc rfl rfl
  · intro _ a running queue queue' thread thread' act counted h acted
    cases a with
    | step left now enqueued => exact turn_counted counted (threadStep_turn h) acted
    | pause | resume | setSpeed speed =>
      cases h
      obtain rfl : queue' = queue := acted
      exact counted.frame rfl rfl rfl rfl

/-- For every file, in every interleaving with the processing loop, the controls and a
shutdown: what was pushed is at every moment a front of the file's records; a refused
`try_push` leaves its message unchanged, and that message is the one tried again; a
finished replay has pushed every record and counted them all; and once the thread has
exited, its counter is the number of its pushes. -/
theorem delivers_once (reader : DiskReader) (speed : PlaybackSpeed) (cap : SpscQueue.Capacity)
    (blank : QueueMessage Double) {s : Pipeline.State ReplayEngine.State (QueueMessage Double)}
    (reached : (machine (producer reader speed) cap blank).Reachable s) :
    delivered s.queue.pushed <+: reader.readAll.map (fun f => replayed f.2) ∧
    (∀ o item as t left, s.queue.pushPc = .loadTail o item →
      (machine (producer reader speed) cap blank).EachStep Pushing s as →
      (machine (producer reader speed) cap blank).run s as = some t →
      t.queue.pushPc = .returned false left → left = item) ∧
    (∀ msg, s.producer.pc = .retryCheck msg → s.queue.pushPc = .returned false msg) ∧
    (s.producer.finished = true →
      delivered s.queue.pushed = reader.readAll.map (fun f => replayed f.2) ∧
        s.producer.replayed = reader.readAll.length) ∧
    (s.producer.pc = .exited → s.producer.replayed = s.queue.pushed.length) := by
  have counted := reachable_counted reached
  have final : s.producer.pc = .exited → s.producer.replayed = s.queue.pushed.length := by
    intro exited
    rw [← counted.replayed, exited]
    rfl
  refine ⟨delivered_front reached, ?_, counted.retried, ?_, final⟩
  · rintro o item as t left called inside run refused
    have kept : Kept item s.queue.pushPc := Or.inl (by rw [called]; rfl)
    exact refused_unchanged reached kept inside run refused
  · intro finished
    have all := finished_delivered reached finished
    obtain ⟨taken, rest, abandoned, progress⟩ := reachable_progress reached
    have exited : s.producer.pc = .exited := by
      by_contra running
      have unfinished := (progress.live running).2.2
      rw [finished] at unfinished
      cases unfinished
    have size := congrArg List.length all
    rw [delivered, List.length_map, List.length_map] at size
    exact ⟨all, (final exited).trans size⟩

/-- A ring with room for one message. -/
def smallQueue : SpscQueue.Capacity := ⟨2, by decide, by decide⟩

/-- The second of two records is refused twice, as nothing was popped behind the first one. -/
def refusedSchedule : List (Pipeline.Action ReplayEngine.Action (QueueMessage Double)) :=
  List.replicate 25 (.producer (.step .blank 0 0))

/-- The first record is popped, and the second one gets its place. -/
def retrySchedule : List (Pipeline.Action ReplayEngine.Action (QueueMessage Double)) :=
  List.replicate 7 (.consumer .blank) ++ List.replicate 11 (.producer (.step .blank 0 0))

/-- A push that was refused is tried again with its message, and the file is replayed to its
end with one push for each record. -/
theorem delivers_once_refused : ∃ mid s msg,
    (machine (producer DiskReader.sampleReader .max) smallQueue .blank).run
      (machine (producer DiskReader.sampleReader .max) smallQueue .blank).init
        refusedSchedule = some mid ∧
    (machine (producer DiskReader.sampleReader .max) smallQueue .blank).run mid retrySchedule =
      some s ∧
    mid.producer.pc = .retryCheck msg ∧ mid.queue.pushPc = .returned false msg ∧
    s.producer.finished = true ∧ s.producer.replayed = 2 ∧
    delivered s.queue.pushed = DiskReader.sampleReader.readAll.map (fun f => replayed f.2) := by
  have ends : ((machine (producer DiskReader.sampleReader .max) smallQueue .blank).run
      (machine (producer DiskReader.sampleReader .max) smallQueue .blank).init
        refusedSchedule).bind (fun mid =>
          ((machine (producer DiskReader.sampleReader .max) smallQueue .blank).run mid
            retrySchedule).map (fun s => (mid.producer.pc, s.producer.finished))) =
      some (.retryCheck (message DiskReader.sampleWrite.1.untimed 0 0), true) := by
    decide +kernel
  obtain ⟨mid, front, later⟩ := Option.bind_eq_some_iff.mp ends
  obtain ⟨s, back, same⟩ := Option.map_eq_some_iff.mp later
  obtain ⟨retries, finished⟩ := Prod.mk.inj same
  obtain ⟨-, -, kept, -, -⟩ := delivers_once DiskReader.sampleReader .max smallQueue .blank
    ⟨refusedSchedule, front⟩
  obtain ⟨-, -, -, whole, -⟩ := delivers_once DiskReader.sampleReader .max smallQueue .blank
    (Machine.Reachable.leads ⟨refusedSchedule, front⟩ ⟨retrySchedule, back⟩)
  obtain ⟨all, counted⟩ := whole finished
  rw [DiskReader.sampleReader_opens.2] at counted
  exact ⟨mid, s, _, front, back, retries, kept _ retries, finished, counted, all⟩

end ReplayDelivery
