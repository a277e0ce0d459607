import MarketDataEngine.ReplayShutdown
import MarketDataEngine.Shutdown

/-!
# How much a shutdown can leave behind

A producer that is past its test of the flag still publishes the message in hand, and the
processing loop may have ended its drain by then. This module bounds the loss: what a
producer has promised at the moment the flag goes down is all it still publishes, and all
that a processing loop which has exited can have missed.
-/

namespace LateMessages

open Transition MarketTypes Pipeline

universe u v w

section Bound
variable {π : Type v} {α : Type w} {T : Type u}

/-- With the flag down every publication uses up a promise, of at most `k`. -/
structure Promises (P : Producer π α T) (cap : SpscQueue.Capacity)
    (promised : SpscQueue.PushPc T → π → Nat) (k : Nat) : Prop where
  bound : ∀ pushPc producer, promised pushPc producer ≤ k
  step : ∀ queue producer a producer' act queue',
    P.next false queue.pushPc producer a = some (producer', act) →
    Acted cap queue act queue' →
    queue'.pushed.length + promised queue'.pushPc producer' ≤
      queue.pushed.length + promised queue.pushPc producer

variable {P : Producer π α T} {cap : SpscQueue.Capacity} {blank : T}
  {promised : SpscQueue.PushPc T → π → Nat} {k : Nat}

theorem step_down {s t : State π T} {a : Action α T} (promises : Promises P cap promised k)
    (handled : Handled s) (down : s.running = false) (h : next P cap s a = some t) :
    t.running = false ∧
      t.queue.pushed.length + promised t.queue.pushPc t.producer ≤
        s.queue.pushed.length + promised s.queue.pushPc s.producer := by
  cases a with
  | producer a =>
    refine ⟨(producerStep_frame h).1.trans down, ?_⟩
    obtain ⟨producer, act, queue, moves, acted, rfl⟩ := producerStep_acted h
    rw [down] at moves
    exact promises.step _ _ _ _ _ _ moves acted
  | consumer left =>
    obtain ⟨-, pushed, pushPc, producer, running⟩ := consumerStep_handled handled h
    rw [pushed, pushPc, producer]
    exact ⟨running.trans down, Nat.le_refl _⟩
  | shutdown =>
    cases h
    exact ⟨rfl, Nat.le_refl _⟩

/-- What is published once the flag is down. -/
theorem run_down {s t : State π T} {as : List (Action α T)} (promises : Promises P cap promised k)
    (reached : (machine P cap blank).Reachable s) (down : s.running = false)
    (run : (machine P cap blank).run s as = some t) :
    ∃ more, t.queue.pushed = s.queue.pushed ++ more ∧ more.length ≤ k := by
  have account : s.queue.pushed <+: t.queue.pushed ∧
      t.queue.pushed.length + promised t.queue.pushPc t.producer ≤
        s.queue.pushed.length + promised s.queue.pushPc s.producer := by
    induction as generalizing s with
    | nil =>
      cases run
      exact ⟨List.prefix_refl _, Nat.le_refl _⟩
    | cons a rest ih =>
      obtain ⟨m, first, later⟩ := Machine.run_cons_some.mp run
      have handled := reachable_handled reached
      obtain ⟨down', step⟩ := step_down promises handled down first
      obtain ⟨front, steps⟩ := ih (reached.next first) down' later
      have grown : s.queue.pushed <+: m.queue.pushed := by
        rcases step_pushed handled first with ⟨-, same⟩ | ⟨-, item, more⟩
        · rw [same]
        · exact more ▸ List.prefix_append _ _
      exact ⟨grown.trans front, by omega⟩
  obtain ⟨⟨more, same⟩, steps⟩ := account
  refine ⟨more, same.symm, ?_⟩
  have bound := promises.bound s.queue.pushPc s.producer
  rw [← same, List.length_append] at steps
  omega

/-- A processing loop that has ended its drain misses at most what was promised. -/
theorem reachable_missed {s : State π T} (promises : Promises P cap promised k)
    (reached : (machine P cap blank).Reachable s) (drained : Drained s) :
    s.queue.pushed.length + promised s.queue.pushPc s.producer ≤ s.queue.popped.length + k := by
  refine Machine.invariant (machine P cap blank) (fun s => Drained s →
    s.queue.pushed.length + promised s.queue.pushPc s.producer ≤ s.queue.popped.length + k)
    ?_ ?_ reached drained
  · rintro (exited | ⟨popping, -⟩)
    · cases exited
    · cases popping
  · intro s a t reached missed h drained'
    by_cases drained : Drained s
    · have down := reachable_draining reached (draining_of_drained drained)
      obtain ⟨-, step⟩ := step_down promises (reachable_handled reached) down h
      obtain ⟨-, popped⟩ := drained_step drained h
      have before := missed drained
      rw [popped]
      omega
    · have empty := drained_of_step (queue_inv reached) drained h drained'
      have bound := promises.bound t.queue.pushPc t.producer
      omega

/-- What a processing loop that has exited did not process is the end of what was pushed. -/
theorem exited_missed {s : State π T} (promises : Promises P cap promised k)
    (reached : (machine P cap blank).Reachable s) (exited : s.consumer = .exited) :
    ∃ lost, s.queue.pushed = s.processed ++ lost ∧ lost.length ≤ k := by
  have handled := reachable_handled reached
  rw [Handled, exited] at handled
  have processed : s.processed = s.queue.popped := (List.append_nil _).symm.trans handled
  obtain ⟨lost, same⟩ := (queue_inv reached).fifo
  have missed := reachable_missed promises reached (Or.inl exited)
  rw [← same, List.length_append] at missed
  exact ⟨lost, by rw [processed, same], by omega⟩

end Bound

/-! ## The two producers -/

/-- A `try_push` that has not returned may still publish its message. -/
def pending {T : Type u} : SpscQueue.PushPc T → Nat
  | .returned _ _ => 0
  | _ => 1

theorem pending_le {T : Type u} (pushPc : SpscQueue.PushPc T) : pending pushPc ≤ 1 := by
  cases pushPc <;> simp [pending]

theorem push_pending {T : Type u} {cap : SpscQueue.Capacity} {queue queue' : SpscQueue.State T}
    {left : T} (h : SpscQueue.next cap queue (.push left) = some queue') :
    queue'.pushed.length + pending queue'.pushPc ≤
      queue.pushed.length + pending queue.pushPc := by
  have busy : pending queue.pushPc = 1 := by
    cases pc : queue.pushPc with
    | returned ok item => simp [SpscQueue.next, SpscQueue.pushStep, pc] at h
    | _ => rfl
  have after := pending_le queue'.pushPc
  obtain ⟨-, -, ⟨-, pushed⟩ | ⟨o, item, tail, -, returned, pushed⟩⟩ := SpscQueue.push_frame h
  · rw [pushed, busy]
    omega
  · rw [pushed, busy, returned, List.length_append]
    exact Nat.le_refl _

/-- The message the feed thread may still publish, though it may yet have to arrive. -/
def feedPromised {Raw : Type u} {T : Type v} (pushPc : SpscQueue.PushPc T)
    (feed : FeedHandler.State Raw) : Nat :=
  match feed.pc with
  | .readStopped | .reading | .parsing _ => 1
  | .pushing => pending pushPc
  | _ => 0

theorem feedPromised_le {Raw : Type u} {T : Type v} (pushPc : SpscQueue.PushPc T)
    (feed : FeedHandler.State Raw) : feedPromised pushPc feed ≤ 1 := by
  unfold feedPromised
  split
  · exact Nat.le_refl _
  · exact Nat.le_refl _
  · exact Nat.le_refl _
  · exact pending_le pushPc
  · exact Nat.zero_le _

theorem feed_promises {Raw : Type u} {T : Type v} (parse : Raw → Option T)
    (cap : SpscQueue.Capacity) : Promises (FeedHandler.producer parse) cap feedPromised 1 where
  bound := feedPromised_le
  step := by
    intro queue feed a feed' act queue' h acted
    rcases FeedHandler.next_turn h with turn | ⟨-, rfl, rfl⟩
    rotate_left
    · obtain rfl : queue' = queue := acted
      exact Nat.le_refl _
    cases turn with
    | test pc up | look pc up | recheck pc up => cases up
    | parsed pc parsed =>
      obtain rfl := SpscQueue.callPush_frame acted
      simp [feedPromised, pc, pending]
    | inPush pc =>
      simp only [feedPromised, pc]
      exact push_pending acted
    | listen pc | received pc =>
      obtain rfl : queue' = queue := acted
      simp [feedPromised, pc]
    | connect | leave | connected | close | unparsed | pushed | refused | again =>
      obtain rfl : queue' = queue := acted
      exact Nat.le_add_right _ _

theorem replay_promises (reader : DiskReader) (speed : ReplayEngine.PlaybackSpeed)
    (cap : SpscQueue.Capacity) :
    Promises (ReplayEngine.producer reader speed) cap
      (fun pushPc thread => PauseBound.committed false pushPc thread.pc) 1 where
  bound := fun pushPc thread =>
    Nat.le_of_add_right_le (PauseBound.committed_le false pushPc thread.pc)
  step := by
    intro queue thread a thread' act queue' h acted
    cases a with
    | step left now enqueued =>
      cases ReplayEngine.threadStep_turn h with
      | control before after =>
        obtain rfl : queue' = queue := acted
        rw [(ReplayShutdown.control_work before h).2]
        omega
      | finish pc | read pc | delay pc | fault pc | abandon pc | count pc =>
        obtain rfl : queue' = queue := acted
        exact Nat.add_le_add_left (by simp [pc, PauseBound.committed]) _
      | pushed pc returned | refused pc returned =>
        obtain rfl : queue' = queue := acted
        exact Nat.add_le_add_left (by simp [pc, returned, PauseBound.committed]) _
      | push pc =>
        obtain rfl := SpscQueue.callPush_frame acted
        exact Nat.add_le_add_left (by simp [pc, PauseBound.committed]) _
      | retry pc up => cases up
      | inPush pc =>
        rw [pc]
        exact PauseBound.push_committed acted
    | pause | resume | setSpeed speed =>
      cases h
      obtain rfl : queue' = queue := acted
      exact Nat.le_refl _

/-- For the live and for the replaying producer, in every interleaving: once the flag is
down at most one more message is accepted by the queue, and a processing loop that has
exited has processed everything accepted, in order, but for at most the last message. -/
theorem at_most_one_lost {Raw : Type} (parse : Raw → Option (QueueMessage Double))
    (reader : DiskReader) (speed : ReplayEngine.PlaybackSpeed) (cap : SpscQueue.Capacity)
    (blank : QueueMessage Double) :
    (∀ s, (machine (FeedHandler.producer parse) cap blank).Reachable s →
      (s.running = false → ∀ as t,
        (machine (FeedHandler.producer parse) cap blank).run s as = some t →
        ∃ more, t.queue.pushed = s.queue.pushed ++ more ∧ more.length ≤ 1) ∧
      (s.consumer = .exited →
        ∃ lost, s.queue.pushed = s.processed ++ lost ∧ lost.length ≤ 1)) ∧
    (∀ s, (machine (ReplayEngine.producer reader speed) cap blank).Reachable s →
      (s.running = false → ∀ as t,
        (machine (ReplayEngine.producer reader speed) cap blank).run s as = some t →
        ∃ more, t.queue.pushed = s.queue.pushed ++ more ∧ more.length ≤ 1) ∧
      (s.consumer = .exited →
        ∃ lost, s.queue.pushed = s.processed ++ lost ∧ lost.length ≤ 1)) := by
  have feed := feed_promises parse cap
  have replay := replay_promises reader speed cap
  exact ⟨fun s reached => ⟨fun down as t run => run_down feed reached down run,
      fun exited => exited_missed feed reached exited⟩,
    fun s reached => ⟨fun down as t run => run_down replay reached down run,
      fun exited => exited_missed replay reached exited⟩⟩

/-- The message of a publication behind the drain is the one that is lost. -/
theorem at_most_one_lost_late : ∃ s lost,
    (machine Shutdown.ticker FeedHandler.feedQueue Shutdown.tick).run
      (initial Shutdown.ticker Shutdown.tick) Shutdown.lateSchedule = some s ∧
    s.queue.pushed = [Shutdown.tick] ∧ s.processed = [] ∧
    s.queue.pushed = s.processed ++ lost ∧ lost.length ≤ 1 := by
  have run : ∃ s, (machine Shutdown.ticker FeedHandler.feedQueue Shutdown.tick).run
      (initial Shutdown.ticker Shutdown.tick) Shutdown.lateSchedule = some s ∧
      s.queue.pushed = [Shutdown.tick] ∧ s.processed = [] ∧ s.consumer = .exited :=
    ⟨_, rfl, rfl, rfl, rfl⟩
  obtain ⟨s, run, pushed, processed, exited⟩ := run
  obtain ⟨lost, same, few⟩ := ((at_most_one_lost (fun (_ : Unit) => some Shutdown.tick) {} .max
    FeedHandler.feedQueue Shutdown.tick).1 s ⟨_, run⟩).2 exited
  exact ⟨s, lost, run, pushed, processed, same, few⟩

end LateMessages
