import MarketDataEngine.SpscQueue

/-!
# A producer, the queue and the processing loop

`ProcessingThread::run` of `engine/processing_thread.cpp` behind the shared
queue, with the program of the producing thread as a parameter. Each thread
takes one atomic access at a time; the shared `running` flag is read where the
source reads it and cleared by the environment. `process` is one step here,
since it touches neither the queue nor the flag; `processed` lists its calls.
-/

namespace Pipeline

open Transition

universe u v w

/-- What a producing thread may do to the queue. -/
inductive PushAction (T : Type u) where
  | call (item : T)
  | step (left : T)

/-- Both producers of the source move their message into the queue. -/
def PushAction.toQueue {T : Type u} : PushAction T → SpscQueue.Action T
  | .call item => .callPush .moving item
  | .step left => .push left

/-- The program of a producing thread. A step sees the flag and where a `try_push`
stands, and takes at most one step of that call. -/
structure Producer (π : Type v) (α : Type w) (T : Type u) where
  init : π
  next : Bool → SpscQueue.PushPc T → π → α → Option (π × Option (PushAction T))

/-- Where `ProcessingThread::run` is; `drain` marks its second loop. -/
inductive ConsumerPc (T : Type u) where
  | checkRunning
  | popping (drain : Bool)
  | processing (drain : Bool) (msg : T)
  | exited

structure State (π : Type v) (T : Type u) where
  queue : SpscQueue.State T
  running : Bool
  consumer : ConsumerPc T
  producer : π
  processed : List T

inductive Action (α : Type w) (T : Type u) where
  | producer (a : α)
  | consumer (left : T)
  | shutdown

variable {π : Type v} {α : Type w} {T : Type u}

/-- The next access of `ProcessingThread::run`. -/
def consumerStep (cap : SpscQueue.Capacity) (left : T) (s : State π T) : Option (State π T) :=
  match s.consumer with
  | .checkRunning =>
    (SpscQueue.next cap s.queue .callPop).map (fun queue =>
      { s with queue := queue, consumer := .popping (!s.running) })
  | .popping drain =>
    match s.queue.popPc with
    | .returned (some msg) => some { s with consumer := .processing drain msg }
    | .returned none =>
      some { s with consumer := if drain then .exited else .checkRunning }
    | _ => (SpscQueue.next cap s.queue (.pop left)).map (fun queue => { s with queue := queue })
  | .processing drain msg =>
    if drain then
      (SpscQueue.next cap s.queue .callPop).map (fun queue =>
        { s with queue := queue, consumer := .popping true, processed := s.processed ++ [msg] })
    else some { s with consumer := .checkRunning, processed := s.processed ++ [msg] }
  | .exited => none

def producerStep (P : Producer π α T) (cap : SpscQueue.Capacity) (s : State π T) (a : α) :
    Option (State π T) :=
  match P.next s.running s.queue.pushPc s.producer a with
  | none => none
  | some (producer, none) => some { s with producer := producer }
  | some (producer, some act) =>
    (SpscQueue.next cap s.queue act.toQueue).map (fun queue =>
      { s with queue := queue, producer := producer })

def next (P : Producer π α T) (cap : SpscQueue.Capacity) (s : State π T) :
    Action α T → Option (State π T)
  | .producer a => producerStep P cap s a
  | .consumer left => consumerStep cap left s
  | .shutdown => some { s with running := false }

def initial (P : Producer π α T) (blank : T) : State π T where
  queue := SpscQueue.initial blank
  running := true
  consumer := .checkRunning
  producer := P.init
  processed := []

def machine (P : Producer π α T) (cap : SpscQueue.Capacity) (blank : T) :
    Machine (State π T) (Action α T) where
  init := initial P blank
  next := next P cap

/-! ## Steps of the producer -/

/-- What an action of the producer does to the queue; no action leaves it alone. -/
def Acted (cap : SpscQueue.Capacity) (queue : SpscQueue.State T) :
    Option (PushAction T) → SpscQueue.State T → Prop
  | none, queue' => queue' = queue
  | some act, queue' => SpscQueue.next cap queue act.toQueue = some queue'

/-- A producer step changes the producer, and the queue by what the producer does to it. -/
theorem producerStep_acted {P : Producer π α T} {cap : SpscQueue.Capacity} {s t : State π T}
    {a : α} (h : producerStep P cap s a = some t) :
    ∃ producer act queue, P.next s.running s.queue.pushPc s.producer a = some (producer, act) ∧
      Acted cap s.queue act queue ∧ t = { s with queue := queue, producer := producer } := by
  unfold producerStep at h
  split at h
  · cases h
  · rename_i producer result
    cases h
    exact ⟨producer, none, s.queue, result, rfl, rfl⟩
  · rename_i producer act result
    obtain ⟨queue, hqueue, rfl⟩ := Option.map_eq_some_iff.mp h
    exact ⟨producer, some act, queue, result, hqueue, rfl⟩

/-! ## Steps of the consumer -/

/-- The steps of the processing loop. -/
inductive ConsumerTurn (cap : SpscQueue.Capacity) (s : State π T) : State π T → Prop
  | call {queue : SpscQueue.State T} (pc : s.consumer = .checkRunning)
    (called : SpscQueue.next cap s.queue .callPop = some queue) :
    ConsumerTurn cap s { s with queue, consumer := .popping (!s.running) }
  | pop {drain : Bool} {left : T} {queue : SpscQueue.State T} (pc : s.consumer = .popping drain)
    (moved : SpscQueue.next cap s.queue (.pop left) = some queue) :
    ConsumerTurn cap s { s with queue }
  | take {drain : Bool} {msg : T} (pc : s.consumer = .popping drain)
    (returned : s.queue.popPc = .returned (some msg)) :
    ConsumerTurn cap s { s with consumer := .processing drain msg }
  | retry (pc : s.consumer = .popping false) (returned : s.queue.popPc = .returned none) :
    ConsumerTurn cap s { s with consumer := .checkRunning }
  | exit (pc : s.consumer = .popping true) (returned : s.queue.popPc = .returned none) :
    ConsumerTurn cap s { s with consumer := .exited }
  | process {msg : T} (pc : s.consumer = .processing false msg) :
    ConsumerTurn cap s { s with consumer := .checkRunning, processed := s.processed ++ [msg] }
  | drain {msg : T} {queue : SpscQueue.State T} (pc : s.consumer = .processing true msg)
    (called : SpscQueue.next cap s.queue .callPop = some queue) :
    ConsumerTurn cap s
      { s with queue, consumer := .popping true, processed := s.processed ++ [msg] }

theorem consumerStep_turn {cap : SpscQueue.Capacity} {left : T} {s t : State π T}
    (h : consumerStep cap left s = some t) : ConsumerTurn cap s t := by
  unfold consumerStep at h
  cases pc : s.consumer with
  | checkRunning =>
    simp only [pc] at h
    obtain ⟨queue, called, rfl⟩ := Option.map_eq_some_iff.mp h
    exact .call pc called
  | popping drain =>
    simp only [pc] at h
    split at h
    · rename_i returned
      cases h
      exact .take pc returned
    · rename_i returned
      cases h
      cases drain with
      | false => exact .retry pc returned
      | true => exact .exit pc returned
    · obtain ⟨queue, moved, rfl⟩ := Option.map_eq_some_iff.mp h
      have turn : ConsumerTurn cap s { s with queue } := .pop pc moved
      rwa [pc] at turn
  | processing drain msg =>
    simp only [pc] at h
    cases drain with
    | false =>
      cases h
      exact .process pc
    | true =>
      obtain ⟨queue, called, rfl⟩ := Option.map_eq_some_iff.mp h
      exact .drain pc called
  | exited => simp [pc] at h

/-! ## Steps of the whole and steps of the queue -/

/-- A step leaves the queue alone or is one step of it. -/
theorem next_queue {P : Producer π α T} {cap : SpscQueue.Capacity} {s t : State π T}
    {a : Action α T} (h : next P cap s a = some t) :
    t.queue = s.queue ∨ ∃ b, SpscQueue.next cap s.queue b = some t.queue := by
  cases a with
  | producer a =>
    obtain ⟨_, act, queue, -, acted, rfl⟩ := producerStep_acted h
    cases act with
    | none => exact Or.inl acted
    | some act => exact Or.inr ⟨_, acted⟩
  | consumer left =>
    cases consumerStep_turn h with
    | call pc called => exact Or.inr ⟨_, called⟩
    | pop pc moved => exact Or.inr ⟨_, moved⟩
    | drain pc called => exact Or.inr ⟨_, called⟩
    | take | retry | exit | process => exact Or.inl rfl
  | shutdown =>
    cases h
    exact Or.inl rfl

theorem refines_queue (P : Producer π α T) (cap : SpscQueue.Capacity) (blank : T) :
    (machine P cap blank).Refines (SpscQueue.machine cap blank) State.queue :=
  ⟨rfl, fun _ _ _ _ h => next_queue h⟩

theorem queue_inv {P : Producer π α T} {cap : SpscQueue.Capacity} {blank : T} {s : State π T}
    (reached : (machine P cap blank).Reachable s) : SpscQueue.Inv cap s.queue :=
  SpscQueue.reachable_inv ((refines_queue P cap blank).reachable reached)

/-- A producer step publishes when it is the store to `tail`. -/
def Publishes (P : Producer π α T) (s : State π T) (a : Action α T) : Prop :=
  ∃ b producer left o item tail, a = .producer b ∧
    P.next s.running s.queue.pushPc s.producer b = some (producer, some (.step left)) ∧
    s.queue.pushPc = .storeTail o item tail

/-- All that a producer step does: it never touches the consumer, and what is
pushed grows by one item when it publishes and not otherwise. -/
theorem producerStep_frame {P : Producer π α T} {cap : SpscQueue.Capacity} {s t : State π T}
    {a : α} (h : producerStep P cap s a = some t) :
    t.running = s.running ∧ t.consumer = s.consumer ∧ t.processed = s.processed ∧
      t.queue.popped = s.queue.popped ∧ t.queue.popPc = s.queue.popPc ∧
      (¬ Publishes P s (.producer a) ∧ t.queue.pushed = s.queue.pushed ∨
        Publishes P s (.producer a) ∧ ∃ item, t.queue.pushed = s.queue.pushed ++ [item]) := by
  obtain ⟨producer, act, queue, result, acted, rfl⟩ := producerStep_acted h
  have stepping : Publishes P s (.producer a) → ∃ left, act = some (.step left) := by
    rintro ⟨_, _, left, _, _, _, same, moves, _⟩
    cases same
    exact ⟨left, (Prod.mk.inj (Option.some.inj (result.symm.trans moves))).2⟩
  cases act with
  | none =>
    obtain rfl : queue = s.queue := acted
    refine ⟨rfl, rfl, rfl, rfl, rfl, Or.inl ⟨?_, rfl⟩⟩
    intro publishes
    obtain ⟨_, same⟩ := stepping publishes
    cases same
  | some act =>
    cases act with
    | call item =>
      obtain rfl := SpscQueue.callPush_frame acted
      refine ⟨rfl, rfl, rfl, rfl, rfl, Or.inl ⟨?_, rfl⟩⟩
      intro publishes
      obtain ⟨_, same⟩ := stepping publishes
      cases same
    | step left =>
      obtain ⟨popped, popPc, quiet | ⟨o, item, tail, pc, -, pushed⟩⟩ :=
        SpscQueue.push_frame acted
      · refine ⟨rfl, rfl, rfl, popped, popPc, Or.inl ⟨?_, quiet.2⟩⟩
        rintro ⟨_, _, _, o, item, tail, _, _, pc⟩
        exact quiet.1 o item tail pc
      · exact ⟨rfl, rfl, rfl, popped, popPc,
          Or.inr ⟨⟨a, producer, left, o, item, tail, rfl, result, pc⟩, item, pushed⟩⟩

/-! ## What the consumer has in hand -/

/-- A message that was popped and not yet processed. -/
def inHand : ConsumerPc T → SpscQueue.PopPc T → List T
  | .processing _ msg, _ => [msg]
  | .popping _, .returned (some msg) => [msg]
  | _, _ => []

theorem inHand_popping {popPc : SpscQueue.PopPc T} (drain : Bool)
    (none : ∀ msg, popPc ≠ .returned (some msg)) : inHand (.popping drain) popPc = [] := by
  cases popPc with
  | returned result =>
    cases result with
    | none => rfl
    | some msg => exact absurd rfl (none msg)
  | _ => rfl

/-- Everything popped is processed once, in order, up to the message in hand. -/
def Handled (s : State π T) : Prop :=
  s.processed ++ inHand s.consumer s.queue.popPc = s.queue.popped

/-- A consumer step keeps the account of messages and touches nothing of the producer. -/
theorem consumerStep_handled {cap : SpscQueue.Capacity} {left : T} {s t : State π T}
    (handled : Handled s) (h : consumerStep cap left s = some t) :
    Handled t ∧ t.queue.pushed = s.queue.pushed ∧ t.queue.pushPc = s.queue.pushPc ∧
      t.producer = s.producer ∧ t.running = s.running := by
  unfold Handled at handled
  cases consumerStep_turn h with
  | call pc called =>
    rw [pc] at handled
    obtain rfl := SpscQueue.callPop_frame called
    exact ⟨handled, rfl, rfl, rfl, rfl⟩
  | @pop drain left queue pc moved =>
    obtain ⟨pushed, pushPc, busy, moved⟩ := SpscQueue.pop_frame moved
    rw [pc, inHand_popping drain (fun msg => busy (some msg)), List.append_nil] at handled
    refine ⟨?_, pushed, pushPc, rfl, rfl⟩
    change s.processed ++ inHand s.consumer queue.popPc = queue.popped
    rw [pc]
    rcases moved with ⟨quiet, popped⟩ | ⟨item, returned, popped⟩
    · rw [inHand_popping drain quiet, List.append_nil, popped, handled]
    · rw [returned, popped, ← handled]
      rfl
  | take pc returned | retry pc returned | exit pc returned =>
    rw [pc, returned] at handled
    exact ⟨handled, rfl, rfl, rfl, rfl⟩
  | process pc =>
    rw [pc] at handled
    exact ⟨(List.append_nil _).trans handled, rfl, rfl, rfl, rfl⟩
  | drain pc called =>
    rw [pc] at handled
    obtain rfl := SpscQueue.callPop_frame called
    exact ⟨(List.append_nil _).trans handled, rfl, rfl, rfl, rfl⟩

theorem reachable_handled {P : Producer π α T} {cap : SpscQueue.Capacity} {blank : T}
    {s : State π T} (reached : (machine P cap blank).Reachable s) : Handled s := by
  refine Machine.invariant (machine P cap blank) Handled rfl ?_ reached
  intro s a t _ handled h
  cases a with
  | producer a =>
    obtain ⟨-, consumer, processed, popped, popPc, -⟩ := producerStep_frame h
    unfold Handled
    rwa [consumer, processed, popped, popPc]
  | consumer left => exact (consumerStep_handled handled h).1
  | shutdown =>
    cases h
    exact handled

/-- An invariant of the queue's producer side and the producing thread, with the actions
taken: the other threads have to keep it, and so has every step of the producer. -/
theorem producer_history {P : Producer π α T} {cap : SpscQueue.Capacity} {blank : T}
    (I : List (Action α T) → SpscQueue.State T → π → Prop)
    (start : I [] (SpscQueue.initial blank) P.init)
    (others : ∀ as a queue queue' producer, (∀ b, a ≠ .producer b) →
      queue'.pushed = queue.pushed → queue'.pushPc = queue.pushPc →
      I as queue producer → I (as ++ [a]) queue' producer)
    (own : ∀ as a running queue queue' producer producer' act, I as queue producer →
      P.next running queue.pushPc producer a = some (producer', act) →
      Acted cap queue act queue' → I (as ++ [.producer a]) queue' producer')
    {as : List (Action α T)} {s : State π T}
    (run : (machine P cap blank).run (initial P blank) as = some s) : I as s.queue s.producer := by
  refine Machine.history_invariant (machine P cap blank) (fun as s => I as s.queue s.producer)
    start ?_ run
  intro as s a t reached keeps h
  cases a with
  | producer a =>
    obtain ⟨producer, act, queue, result, acted, rfl⟩ := producerStep_acted h
    exact own _ _ _ _ _ _ _ _ keeps result acted
  | consumer left =>
    obtain ⟨-, pushed, pushPc, same, -⟩ :=
      consumerStep_handled (reachable_handled ⟨as, reached⟩) h
    rw [same]
    exact others _ _ _ _ _ (by simp) pushed pushPc keeps
  | shutdown =>
    cases h
    exact others _ _ _ _ _ (by simp) rfl rfl keeps

/-! ## The drain -/

/-- The consumer has left its first loop. -/
def ConsumerPc.Draining : ConsumerPc T → Prop
  | .checkRunning => False
  | .popping drain | .processing drain _ => drain = true
  | .exited => True

/-- A step of the consumer leaves its first loop only with the flag down. -/
theorem consumerStep_draining {cap : SpscQueue.Capacity} {left : T} {s t : State π T}
    (down : s.consumer.Draining → s.running = false) (h : consumerStep cap left s = some t) :
    t.consumer.Draining → t.running = false := by
  cases consumerStep_turn h with
  | call pc called =>
    intro draining
    simpa [ConsumerPc.Draining] using draining
  | pop pc moved => exact down
  | take pc returned =>
    rw [pc] at down
    exact down
  | retry pc returned | process pc => exact False.elim
  | exit pc returned | drain pc called =>
    rw [pc] at down
    exact fun _ => down rfl

theorem reachable_draining {P : Producer π α T} {cap : SpscQueue.Capacity} {blank : T}
    {s : State π T} (reached : (machine P cap blank).Reachable s) :
    s.consumer.Draining → s.running = false := by
  refine Machine.invariant (machine P cap blank)
    (fun s => s.consumer.Draining → s.running = false) False.elim ?_ reached
  intro s a t _ down h
  cases a with
  | producer a =>
    obtain ⟨running, consumer, -⟩ := producerStep_frame h
    rwa [consumer, running]
  | consumer left => exact consumerStep_draining down h
  | shutdown =>
    cases h
    exact fun _ => rfl

theorem exited_step {P : Producer π α T} {cap : SpscQueue.Capacity} {s t : State π T}
    {a : Action α T} (exited : s.consumer = .exited) (h : next P cap s a = some t) :
    t.consumer = .exited := by
  cases a with
  | producer a => exact (producerStep_frame h).2.1.trans exited
  | consumer left => simp [next, consumerStep, exited] at h
  | shutdown =>
    cases h
    exact exited

/-- The consumer has found the queue empty in its drain. -/
def Drained (s : State π T) : Prop :=
  s.consumer = .exited ∨ s.consumer = .popping true ∧ s.queue.popPc = .returned none

theorem draining_of_drained {s : State π T} (drained : Drained s) : s.consumer.Draining := by
  rcases drained with exited | ⟨popping, -⟩
  · rw [exited]
    trivial
  · rw [popping]
    rfl

theorem undrained_of_up {P : Producer π α T} {cap : SpscQueue.Capacity} {blank : T}
    {s : State π T} (reached : (machine P cap blank).Reachable s) (up : s.running = true) :
    ¬ Drained s := by
  intro drained
  have down := reachable_draining reached (draining_of_drained drained)
  rw [up] at down
  cases down

/-- No message is published once the consumer has found the queue empty in its drain. -/
def NoLatePublish (P : Producer π α T) (s : State π T) (a : Action α T) : Prop :=
  Drained s → ¬ Publishes P s a

/-- After its drain the consumer does nothing more to the queue. -/
theorem drained_step {P : Producer π α T} {cap : SpscQueue.Capacity} {s t : State π T}
    {a : Action α T} (drained : Drained s) (h : next P cap s a = some t) :
    Drained t ∧ t.queue.popped = s.queue.popped := by
  cases a with
  | producer a =>
    obtain ⟨-, consumer, -, popped, popPc, -⟩ := producerStep_frame h
    rw [Drained, consumer, popPc]
    exact ⟨drained, popped⟩
  | consumer left =>
    rcases drained with exited | ⟨popping, returned⟩
    · simp [next, consumerStep, exited] at h
    · simp only [next, consumerStep, popping, returned] at h
      cases h
      exact ⟨Or.inl rfl, rfl⟩
  | shutdown =>
    cases h
    exact ⟨drained, rfl⟩

/-- The consumer's drain ends at a moment at which nothing is held. -/
theorem drained_of_step {P : Producer π α T} {cap : SpscQueue.Capacity} {s t : State π T}
    {a : Action α T} (inv : SpscQueue.Inv cap s.queue) (before : ¬ Drained s)
    (h : next P cap s a = some t) (after : Drained t) :
    t.queue.popped.length = t.queue.pushed.length := by
  cases a with
  | producer a =>
    obtain ⟨-, consumer, -, -, popPc, -⟩ := producerStep_frame h
    rw [Drained, consumer, popPc] at after
    exact absurd after before
  | consumer left =>
    cases consumerStep_turn h with
    | call pc called =>
      obtain rfl := SpscQueue.callPop_frame called
      simp [Drained] at after
    | @pop drain left queue pc moved =>
      obtain ⟨pushed, -, -, popped⟩ := SpscQueue.pop_frame moved
      have returned : queue.popPc = .returned none := by
        rcases after with exited | ⟨-, returned⟩
        · cases pc.symm.trans exited
        · exact returned
      have empty := SpscQueue.pop_failed inv moved returned
      have le := inv.fifo.length_le
      rcases popped with ⟨-, popped⟩ | ⟨item, found, -⟩
      · change queue.popped.length = queue.pushed.length
        rw [popped, pushed]
        unfold SpscQueue.held at empty
        omega
      · rw [returned] at found
        cases found
    | take | retry | process => simp [Drained] at after
    | exit pc returned => exact absurd (Or.inr ⟨pc, returned⟩) before
    | drain pc called =>
      obtain rfl := SpscQueue.callPop_frame called
      simp [Drained] at after
  | shutdown =>
    cases h
    exact absurd after before

/-- What a step does to the pushed messages. -/
theorem step_pushed {P : Producer π α T} {cap : SpscQueue.Capacity} {s t : State π T}
    {a : Action α T} (handled : Handled s) (h : next P cap s a = some t) :
    ¬ Publishes P s a ∧ t.queue.pushed = s.queue.pushed ∨
      Publishes P s a ∧ ∃ item, t.queue.pushed = s.queue.pushed ++ [item] := by
  cases a with
  | producer a => exact (producerStep_frame h).2.2.2.2.2
  | consumer left =>
    refine Or.inl ⟨?_, (consumerStep_handled handled h).2.1⟩
    rintro ⟨_, _, _, _, _, _, isProducer, _⟩
    cases isProducer
  | shutdown =>
    cases h
    refine Or.inl ⟨?_, rfl⟩
    rintro ⟨_, _, _, _, _, _, isProducer, _⟩
    cases isProducer

/-- Along a run without late publications a drained queue is empty; a late
publication leaves it short of what was pushed for good. -/
theorem run_drained {P : Producer π α T} {cap : SpscQueue.Capacity} {blank : T}
    {as : List (Action α T)} {s : State π T}
    (run : (machine P cap blank).run (initial P blank) as = some s) :
    ((machine P cap blank).EachStep (NoLatePublish P) (initial P blank) as →
        Drained s → s.queue.popped.length = s.queue.pushed.length) ∧
      (¬ (machine P cap blank).EachStep (NoLatePublish P) (initial P blank) as →
        Drained s ∧ s.queue.popped.length < s.queue.pushed.length) := by
  refine Machine.history_invariant (machine P cap blank) (fun as s =>
    ((machine P cap blank).EachStep (NoLatePublish P) (initial P blank) as →
        Drained s → s.queue.popped.length = s.queue.pushed.length) ∧
      (¬ (machine P cap blank).EachStep (NoLatePublish P) (initial P blank) as →
        Drained s ∧ s.queue.popped.length < s.queue.pushed.length)) ?_ ?_ run
  · exact ⟨fun _ _ => rfl, fun no => absurd trivial no⟩
  · intro as s a t hs ih h
    have reached : (machine P cap blank).Reachable s := ⟨as, hs⟩
    have pushed := step_pushed (reachable_handled reached) h
    have last : (machine P cap blank).EachStep (NoLatePublish P) (initial P blank) (as ++ [a]) ↔
        (machine P cap blank).EachStep (NoLatePublish P) (initial P blank) as ∧
          NoLatePublish P s a := by
      rw [Machine.eachStep_snoc]
      refine and_congr_right fun _ => ⟨fun each => each s hs, fun now u hu => ?_⟩
      exact Option.some.inj (hs.symm.trans hu) ▸ now
    rw [last]
    constructor
    · rintro ⟨each, now⟩ drained
      by_cases already : Drained s
      · obtain ⟨-, popped⟩ := drained_step already h
        rcases pushed with ⟨-, same⟩ | ⟨late, -⟩
        · rw [popped, same, ih.1 each already]
        · exact absurd late (now already)
      · exact drained_of_step (queue_inv reached) already h drained
    · intro some
      by_cases each : (machine P cap blank).EachStep (NoLatePublish P) (initial P blank) as
      · have now : ¬ NoLatePublish P s a := fun now => some ⟨each, now⟩
        obtain ⟨already, late⟩ := Classical.not_imp.mp now
        obtain ⟨drained, popped⟩ := drained_step already h
        rcases pushed with ⟨quiet, -⟩ | ⟨-, item, more⟩
        · exact absurd quiet late
        · refine ⟨drained, ?_⟩
          have := ih.1 each already
          rw [popped, more, List.length_append, List.length_singleton]
          omega
      · obtain ⟨already, short⟩ := ih.2 each
        obtain ⟨drained, popped⟩ := drained_step already h
        refine ⟨drained, ?_⟩
        rw [popped]
        rcases pushed with ⟨-, same⟩ | ⟨-, item, more⟩
        · rwa [same]
        · rw [more, List.length_append]
          omega

/-- When the processing loop has exited, everything pushed was processed, once and in
order, and the queue is empty, if and only if nothing was published after the loop had
found the queue empty in its drain. -/
theorem exited_drained_iff (P : Producer π α T) (cap : SpscQueue.Capacity) (blank : T)
    {as : List (Action α T)} {s : State π T}
    (run : (machine P cap blank).run (initial P blank) as = some s)
    (exited : s.consumer = .exited) :
    (s.processed = s.queue.pushed ∧ s.queue.head = s.queue.tail) ↔
      (machine P cap blank).EachStep (NoLatePublish P) (initial P blank) as := by
  have reached : (machine P cap blank).Reachable s := ⟨as, run⟩
  have inv := queue_inv reached
  have handled := reachable_handled reached
  have account := run_drained run
  rw [Handled, exited] at handled
  have processed : s.processed = s.queue.popped := (List.append_nil _).symm.trans handled
  rw [SpscQueue.empty_iff inv, processed]
  constructor
  · rintro ⟨same, -⟩
    by_contra late
    have short := (account.2 late).2
    rw [same] at short
    exact Nat.lt_irrefl _ short
  · intro each
    have same := account.1 each (Or.inl exited)
    refine ⟨inv.fifo.eq_of_length same, ?_⟩
    unfold SpscQueue.held
    omega

/-! ## One producer behind another -/

section Simulation
variable {ρ : Type v} {β : Type w}

/-- `Q` takes every step of `P` with the same effect on the queue, as far as `f` shows it;
what `f` hides does nothing to the queue. -/
def Producer.Refines (P : Producer π α T) (Q : Producer ρ β T) (f : π → ρ) : Prop :=
  f P.init = Q.init ∧ ∀ running pushPc producer a producer' act,
    P.next running pushPc producer a = some (producer', act) →
    (f producer' = f producer ∧ act = none) ∨
      ∃ b, Q.next running pushPc (f producer) b = some (f producer', act)

def State.mapProducer (f : π → ρ) (s : State π T) : State ρ T where
  queue := s.queue
  running := s.running
  consumer := s.consumer
  producer := f s.producer
  processed := s.processed

theorem consumerStep_mapProducer (f : π → ρ) {cap : SpscQueue.Capacity} {left : T}
    {s t : State π T} (h : consumerStep cap left s = some t) :
    consumerStep cap left (s.mapProducer f) = some (t.mapProducer f) := by
  have same : consumerStep cap left (s.mapProducer f) =
      (consumerStep cap left s).map (State.mapProducer f) := by
    cases pc : s.consumer with
    | checkRunning =>
      simp only [consumerStep, State.mapProducer, pc, Option.map_map]
      rfl
    | popping drain =>
      cases popPc : s.queue.popPc with
      | returned result =>
        cases result <;> simp only [consumerStep, State.mapProducer, pc, popPc, Option.map_some]
      | _ =>
        simp only [consumerStep, State.mapProducer, pc, popPc, Option.map_map]
        rfl
    | processing drain msg =>
      cases drain with
      | true =>
        simp only [consumerStep, State.mapProducer, pc, if_true, Option.map_map]
        rfl
      | false => simp [consumerStep, State.mapProducer, pc]
    | exited => simp [consumerStep, State.mapProducer, pc]
  rw [same, h]
  rfl

theorem producerStep_of_acted {P : Producer π α T} {cap : SpscQueue.Capacity} {s : State π T}
    {a : α} {producer : π} {act : Option (PushAction T)} {queue : SpscQueue.State T}
    (moves : P.next s.running s.queue.pushPc s.producer a = some (producer, act))
    (acted : Acted cap s.queue act queue) :
    producerStep P cap s a = some { s with queue := queue, producer := producer } := by
  unfold producerStep
  rw [moves]
  cases act with
  | none =>
    obtain rfl : queue = s.queue := acted
    rfl
  | some act =>
    change Option.map _ (SpscQueue.next cap s.queue act.toQueue) = _
    rw [acted]
    rfl

/-- The pipeline of one producer behaves like that of a producer which simulates it. -/
theorem Producer.Refines.machine {P : Producer π α T} {Q : Producer ρ β T} {f : π → ρ}
    (refines : P.Refines Q f) (cap : SpscQueue.Capacity) (blank : T) :
    (machine P cap blank).Refines (machine Q cap blank) (State.mapProducer f) := by
  obtain ⟨start, step⟩ := refines
  constructor
  · simp only [Pipeline.machine, initial, State.mapProducer, start]
  · intro s a t _ h
    cases a with
    | producer a =>
      obtain ⟨producer, act, queue, moves, acted, rfl⟩ := producerStep_acted h
      rcases step _ _ _ _ _ _ moves with ⟨hidden, rfl⟩ | ⟨b, moved⟩
      · obtain rfl : queue = s.queue := acted
        left
        simp only [State.mapProducer, hidden]
      · refine Or.inr ⟨.producer b, ?_⟩
        exact producerStep_of_acted (s := s.mapProducer f) moved acted
    | consumer left => exact Or.inr ⟨.consumer left, consumerStep_mapProducer f h⟩
    | shutdown =>
      cases h
      exact Or.inr ⟨.shutdown, rfl⟩

end Simulation

end Pipeline
