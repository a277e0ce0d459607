import MarketDataEngine.DrainWork
import MarketDataEngine.Fairness
import MarketDataEngine.FeedHandler

/-!
# No message waits for ever

Behind any producing thread, in behaviours that go on for ever: if the processing loop alone
is scheduled fairly, what was pushed is processed sooner or later, unless it was pushed after
the loop had found the queue empty in its drain.
-/

namespace Starvation

open Transition Pipeline DrainWork

universe u v w

variable {T : Type u} {π : Type v} {α : Type w} {P : Producer π α T} {cap : SpscQueue.Capacity}
  {blank : T}

/-! ## The way to the next release -/

def popDistance : SpscQueue.PopPc T → Nat
  | .ready => 0
  | .storeHead _ _ => 1
  | .take _ => 2
  | .loadTail _ => 3
  | .loadHead => 4
  | .returned none => 6
  | .returned (some _) => 7

/-- The accesses of the loop until it releases a slot, if a message is there. -/
def releaseDistance (popPc : SpscQueue.PopPc T) : ConsumerPc T → Nat
  | .exited => 0
  | .checkRunning => 5
  | .popping _ => popDistance popPc
  | .processing _ _ => 6

theorem releaseDistance_le (popPc : SpscQueue.PopPc T) (pc : ConsumerPc T) :
    releaseDistance popPc pc ≤ 7 := by
  cases pc with
  | popping drain =>
    cases popPc with
    | returned result => cases result <;> simp [releaseDistance, popDistance]
    | _ => simp [releaseDistance, popDistance]
  | _ => simp [releaseDistance]

theorem pop_distance {s t : SpscQueue.State T} {left : T} (inv : SpscQueue.Inv cap s)
    (filled : s.popped.length < s.pushed.length)
    (h : SpscQueue.next cap s (.pop left) = some t) :
    t.popPc ≠ .returned none ∧ popDistance t.popPc + 8 * s.popped.length + 1 ≤
      popDistance s.popPc + 8 * t.popped.length := by
  cases pc : s.popPc with
  | ready | returned result => simp [SpscQueue.next, SpscQueue.popStep, pc] at h
  | loadHead | take head =>
    simp only [SpscQueue.next, SpscQueue.popStep, pc] at h
    cases h
    refine ⟨by simp, ?_⟩
    simp only [popDistance]
    omega
  | loadTail head =>
    have nonempty : head ≠ s.tail := by
      have ok := inv.pop
      rw [pc] at ok
      rw [show head = s.head from ok, Ne, SpscQueue.empty_iff inv, SpscQueue.held]
      omega
    simp only [SpscQueue.next, SpscQueue.popStep, pc, if_neg nonempty] at h
    cases h
    refine ⟨by simp, ?_⟩
    simp only [popDistance]
    omega
  | storeHead head item =>
    simp only [SpscQueue.next, SpscQueue.popStep, pc] at h
    cases h
    refine ⟨by simp, ?_⟩
    simp only [popDistance, List.length_append, List.length_singleton]
    omega

/-- While a message is there, every step of the loop brings the next release closer. -/
theorem consumerStep_distance {s t : Pipeline.State π T} {left : T}
    (inv : SpscQueue.Inv cap s.queue) (filled : s.queue.popped.length < s.queue.pushed.length)
    (undrained : ¬ Drained s) (h : consumerStep cap left s = some t) :
    ¬ Drained t ∧
      releaseDistance t.queue.popPc t.consumer + 8 * s.queue.popped.length + 1 ≤
        releaseDistance s.queue.popPc s.consumer + 8 * t.queue.popped.length := by
  cases consumerStep_turn h with
  | call pc called | drain pc called =>
    obtain rfl := SpscQueue.callPop_frame called
    refine ⟨by simp [Drained], ?_⟩
    simp only [releaseDistance, popDistance, pc]
    omega
  | @pop drain left queue pc moved =>
    obtain ⟨found, closer⟩ := pop_distance inv filled moved
    refine ⟨?_, ?_⟩
    · rintro (exited | ⟨-, returned⟩)
      · cases pc.symm.trans exited
      · exact found returned
    · simp only [releaseDistance, pc]
      exact closer
  | take pc returned | retry pc returned =>
    refine ⟨by simp [Drained], ?_⟩
    simp only [releaseDistance, popDistance, pc, returned]
    omega
  | exit pc returned => exact absurd (Or.inr ⟨pc, returned⟩) undrained
  | process pc =>
    refine ⟨by simp [Drained], ?_⟩
    simp only [releaseDistance, pc]
    omega

theorem consumerStep_held {s t : Pipeline.State π T} {left : T}
    (reached : (machine P cap blank).Reachable s)
    (filled : s.queue.popped.length < s.queue.pushed.length) (undrained : ¬ Drained s)
    (h : consumerStep cap left s = some t) :
    releaseDistance t.queue.popPc t.consumer + 8 * SpscQueue.held t.queue <
      releaseDistance s.queue.popPc s.consumer + 8 * SpscQueue.held s.queue := by
  obtain ⟨-, closer⟩ := consumerStep_distance (queue_inv reached) filled undrained h
  have pushed := (consumerStep_handled (reachable_handled reached) h).2.1
  have within := (queue_inv (reached.next (a := .consumer left) h)).fifo.length_le
  unfold SpscQueue.held
  rw [pushed] at within ⊢
  omega

/-! ## From the release to the call of `process` -/

/-- The accesses of the loop until it has processed the message in its hand. -/
def handDistance : ConsumerPc T → Nat
  | .processing _ _ => 1
  | .popping _ => 2
  | .checkRunning | .exited => 0

theorem inHand_length_le (pc : ConsumerPc T) (popPc : SpscQueue.PopPc T) :
    (inHand pc popPc).length ≤ 1 := by
  unfold inHand
  split <;> simp

/-- With a message in hand, every step of the loop brings it to `process`. -/
theorem consumerStep_hand {s t : Pipeline.State π T} {left : T} (handled : Handled s)
    (behind : s.processed.length < s.queue.popped.length) (h : consumerStep cap left s = some t) :
    t.processed.length = s.processed.length + 1 ∨
      t.processed = s.processed ∧ handDistance t.consumer < handDistance s.consumer := by
  have busy : inHand s.consumer s.queue.popPc ≠ [] := by
    intro none
    rw [Handled, none, List.append_nil] at handled
    rw [handled] at behind
    exact Nat.lt_irrefl _ behind
  cases consumerStep_turn h with
  | call pc | exit pc returned | retry pc returned => simp [inHand, *] at busy
  | @pop drain left queue pc moved =>
    obtain ⟨-, -, before, -⟩ := SpscQueue.pop_frame moved
    rw [pc] at busy
    exact absurd (inHand_popping drain (fun msg => before (some msg))) busy
  | take pc returned => exact Or.inr ⟨rfl, by simp [handDistance, pc]⟩
  | process pc | drain pc called => exact Or.inl List.length_append

/-! ## Fair behaviours -/

/-- The actions of the processing loop. -/
def loopOwner : Pipeline.Action α T → Option Unit
  | .consumer _ => some ()
  | .producer _ | .shutdown => none

theorem enabled_loop {s : Pipeline.State π T} (reached : (machine P cap blank).Reachable s)
    (open' : s.consumer ≠ .exited) : (machine P cap blank).Enabled loopOwner () s := by
  obtain ⟨t, stepped⟩ := @exists_consumerStep _ _ cap s blank (reachable_aligned reached) open'
  exact ⟨.consumer blank, t, rfl, stepped⟩

/-- The first `k` messages that were pushed are popped. -/
def popRanking (P : Producer π α T) (cap : SpscQueue.Capacity) (blank : T) (k : Nat) :
    Ranking (machine P cap blank) loopOwner (machine P cap blank).Reachable
      (fun s => k ≤ s.queue.pushed.length ∧ ¬ Drained s) (fun s => k ≤ s.queue.popped.length) where
  rank s := releaseDistance s.queue.popPc s.consumer + 8 * (k - s.queue.popped.length)
  helper _ := ()
  enabled reached holds _ := enabled_loop reached (fun exited => holds.2 (Or.inl exited))
  step := by
    rintro s a t reached - ⟨pushed, undrained⟩ unpopped h
    cases a with
    | producer a =>
      obtain ⟨-, consumer, -, popped, popPc, grows⟩ := producerStep_frame h
      refine Or.inr ⟨⟨?_, ?_⟩, Or.inr ⟨?_, rfl, by simp [loopOwner]⟩⟩
      · rcases grows with ⟨-, same⟩ | ⟨-, item, more⟩
        · rwa [same]
        · rw [more, List.length_append]
          exact Nat.le_add_right_of_le pushed
      · rwa [Drained, consumer, popPc]
      · rw [consumer, popPc, popped]
    | consumer left =>
      obtain ⟨undrained', closer⟩ :=
        consumerStep_distance (queue_inv reached) (by omega) undrained h
      have same := (consumerStep_handled (reachable_handled reached) h).2.1
      by_cases popped : k ≤ t.queue.popped.length
      · exact Or.inl popped
      · exact Or.inr ⟨⟨same ▸ pushed, undrained'⟩, Or.inl (by omega)⟩
    | shutdown =>
      cases h
      exact Or.inr ⟨⟨pushed, undrained⟩, Or.inr ⟨rfl, rfl, by simp [loopOwner]⟩⟩

/-- The first `k` messages that were popped are processed. -/
def handRanking (P : Producer π α T) (cap : SpscQueue.Capacity) (blank : T) (k : Nat) :
    Ranking (machine P cap blank) loopOwner (machine P cap blank).Reachable
      (fun s => k ≤ s.queue.popped.length) (fun s => k ≤ s.processed.length) where
  rank s := handDistance s.consumer
  helper _ := ()
  enabled {s} reached holds unprocessed := by
    refine enabled_loop reached (fun exited => ?_)
    have handled := reachable_handled reached
    rw [Handled, exited] at handled
    rw [← handled] at holds
    exact unprocessed (by simpa [inHand] using holds)
  step := by
    intro s a t reached reached' popped unprocessed h
    have handled := reachable_handled reached
    have stays : k ≤ t.queue.popped.length := by
      have grows := (SpscQueue.leads_grows ((refines_queue P cap blank).leads reached
        (.step h (.refl t)))).1.length_le
      exact Nat.le_trans popped grows
    cases a with
    | producer a =>
      obtain ⟨-, consumer, -⟩ := producerStep_frame h
      exact Or.inr ⟨stays, Or.inr ⟨congrArg _ consumer, rfl, by simp [loopOwner]⟩⟩
    | consumer left =>
      rcases consumerStep_hand handled (by omega) h with more | ⟨-, closer⟩
      · have account := congrArg List.length handled
        have one := inHand_length_le s.consumer s.queue.popPc
        rw [List.length_append] at account
        exact Or.inl (Nat.le_trans popped (by omega))
      · exact Or.inr ⟨stays, Or.inl closer⟩
    | shutdown =>
      cases h
      exact Or.inr ⟨stays, Or.inr ⟨rfl, rfl, by simp [loopOwner]⟩⟩

/-- A loop that has ended its drain pops and processes nothing more. -/
theorem leads_drained {s t : Pipeline.State π T} (h : (machine P cap blank).Leads s t)
    (drained : Drained s) : Drained t ∧ t.queue.popped = s.queue.popped := by
  refine @Machine.Leads.relates _ _ (machine P cap blank)
    (fun s t => Drained s → Drained t ∧ t.queue.popped = s.queue.popped)
    (fun s drained => ⟨drained, rfl⟩) ?_ s t h drained
  intro s a m t first later drained
  obtain ⟨drained', popped⟩ := drained_step drained first
  obtain ⟨onward, same⟩ := later drained'
  exact ⟨onward, same.trans popped⟩

theorem drained_processed {s : Pipeline.State π T} (handled : Handled s) (drained : Drained s) :
    s.processed = s.queue.popped := by
  have none : inHand s.consumer s.queue.popPc = [] := by
    rcases drained with exited | ⟨popping, returned⟩
    · rw [exited]
      rfl
    · rw [popping, returned]
      rfl
  rwa [Handled, none, List.append_nil] at handled

/-- What was pushed before the loop ended its drain is processed when it has ended it. -/
theorem leads_covered {s t : Pipeline.State π T} (reached : (machine P cap blank).Reachable s)
    (h : (machine P cap blank).Leads s t) (undrained : ¬ Drained s) (drained : Drained t) :
    s.queue.pushed <+: t.processed := by
  obtain ⟨as, run⟩ := h
  induction as generalizing s with
  | nil =>
    cases run
    exact absurd drained undrained
  | cons a rest ih =>
    obtain ⟨m, first, later⟩ := Machine.run_cons_some.mp run
    have reached' := reached.next first
    have grown := (SpscQueue.leads_grows
      ((refines_queue P cap blank).leads reached (.step first (.refl m)))).2
    by_cases already : Drained m
    · have all := drained_of_step (queue_inv reached) undrained first already
      obtain ⟨-, popped⟩ := leads_drained ⟨rest, later⟩ already
      rw [drained_processed (reachable_handled (reached'.leads ⟨rest, later⟩)) drained, popped,
        (queue_inv reached').fifo.eq_of_length all]
      exact grown
    · exact grown.trans (ih reached' already later)

/-- Behind any producing thread, in every behaviour that is fair to the processing loop: what
has been pushed is processed sooner or later, in order, if and only if the loop has not ended
its drain without it. -/
theorem served_iff (P : Producer π α T) (cap : SpscQueue.Capacity) (blank : T)
    (b : Behaviour (machine P cap blank)) (fair : b.Fair loopOwner ()) (n : Nat) :
    (∃ m, n ≤ m ∧ (b.state n).queue.pushed <+: (b.state m).processed) ↔
      (Drained (b.state n) → (b.state n).processed = (b.state n).queue.pushed) := by
  have inv := fun m => queue_inv (b.reachable m)
  have handled := fun m => reachable_handled (b.reachable m)
  constructor
  · rintro ⟨m, later, served⟩ drained
    obtain ⟨drained', popped⟩ := leads_drained (b.leads later) drained
    rw [drained_processed (handled m) drained', popped] at served
    rw [drained_processed (handled n) drained]
    exact (inv n).fifo.eq_of_length (Nat.le_antisymm (inv n).fifo.length_le served.length_le)
  · intro drained
    by_cases already : Drained (b.state n)
    · exact ⟨n, Nat.le_refl n, drained already ▸ List.prefix_rfl⟩
    · obtain ⟨l, first, popped⟩ :=
        (popRanking P cap blank (b.state n).queue.pushed.length).eventually
          b (fun _ => fair) (fun m _ => b.reachable m) ⟨Nat.le_refl _, already⟩
      obtain ⟨m, later, processed⟩ :=
        (handRanking P cap blank (b.state n).queue.pushed.length).eventually
          b (fun _ => fair) (fun m _ => b.reachable m) popped
      have after := Nat.le_trans first later
      have grown := (SpscQueue.leads_grows
        ((refines_queue P cap blank).leads (b.reachable n) (b.leads after))).2
      have front : (b.state m).processed <+: (b.state m).queue.pushed :=
        (handled m ▸ List.prefix_append _ _ :
          (b.state m).processed <+: (b.state m).queue.popped).trans (inv m).fifo
      exact ⟨m, after, List.prefix_of_prefix_length_le grown front processed⟩

/-- A message arrives and is pushed. -/
def pushSchedule : List (Pipeline.Action (FeedHandler.Action Nat Nat) Nat) :=
  let step := .producer (.step 0)
  [step, step, .producer .connected, step, step, .producer (.receive 7), step, step, step, step,
    step]

/-- A signal arrives, and the loop drains the queue. -/
def drainSchedule : List (Pipeline.Action (FeedHandler.Action Nat Nat) Nat) :=
  .shutdown :: List.replicate 10 (.consumer 0)

theorem served_iff_pushSchedule : ∃ b : Behaviour
    (machine (FeedHandler.producer some) FeedHandler.feedQueue 0), ∃ n,
    (b.state n).queue.pushed = [7] ∧ (b.state n).processed = [] ∧
      ∃ m, n ≤ m ∧ [7] <+: (b.state m).processed := by
  have run : ∃ s, (machine (FeedHandler.producer some) FeedHandler.feedQueue 0).run
      (initial (FeedHandler.producer some) 0) (pushSchedule ++ drainSchedule) = some s ∧
      s.consumer = .exited := ⟨_, rfl, rfl⟩
  obtain ⟨s, run, exited⟩ := run
  refine ⟨.ofRun _ run, pushSchedule.length, rfl, rfl, ?_⟩
  refine (served_iff (FeedHandler.producer some) FeedHandler.feedQueue 0 (.ofRun _ run) ?_
    pushSchedule.length).mpr ?_
  · refine Behaviour.fair_ofRun run (fun a owned => ?_)
    cases a with
    | producer a | shutdown => cases owned
    | consumer left => simp [machine, Pipeline.next, consumerStep, exited]
  · rintro (exited | ⟨popping, -⟩)
    · cases exited
    · cases popping

end Starvation
