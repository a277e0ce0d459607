import MarketDataEngine.Pipeline

/-!
# How much the processing loop still does

Once the shared flag is down, the processing loop goes on until it finds the queue
empty. This module counts the accesses it still takes, for any producing thread, and
shows that it always can take the next one.
-/

namespace DrainWork

open Transition Pipeline

universe u v w

variable {T : Type u} {π : Type v} {α : Type w} {cap : SpscQueue.Capacity}

/-- The accesses of one `try_pop` of an empty queue and what follows it. A pop that finds
an item is paid for by that item. -/
def popWork (drain : Bool) : SpscQueue.PopPc T → Nat
  | .ready => 0
  | .loadHead => if drain then 3 else 7
  | .loadTail _ => if drain then 2 else 6
  | .take _ => 1
  | .storeHead _ _ => 0
  | .returned none => if drain then 1 else 5
  | .returned (some _) => if drain then 5 else 6

def consumerWork (popPc : SpscQueue.PopPc T) : ConsumerPc T → Nat
  | .checkRunning => 4
  | .popping drain => popWork drain popPc
  | .processing drain _ => if drain then 4 else 5
  | .exited => 0

theorem consumerWork_le (popPc : SpscQueue.PopPc T) (pc : ConsumerPc T) :
    consumerWork popPc pc ≤ 7 := by
  cases pc with
  | popping drain =>
    cases popPc with
    | returned result => cases drain <;> cases result <;> simp [consumerWork, popWork]
    | _ => cases drain <;> simp [consumerWork, popWork]
  | processing drain msg => cases drain <;> simp [consumerWork]
  | _ => simp [consumerWork]

/-- Each access of a pop is paid for, by the count or by the item it releases. -/
theorem pop_work {s t : SpscQueue.State T} {left : T} (drain : Bool) (inv : SpscQueue.Inv cap s)
    (h : SpscQueue.next cap s (.pop left) = some t) :
    popWork drain t.popPc + 7 * SpscQueue.held t + 1 ≤
      popWork drain s.popPc + 7 * SpscQueue.held s := by
  cases pc : s.popPc with
  | ready | returned result => simp [SpscQueue.next, SpscQueue.popStep, pc] at h
  | loadHead | take head =>
    simp only [SpscQueue.next, SpscQueue.popStep, pc] at h
    cases h
    cases drain <;>
      simp only [popWork, SpscQueue.held, Bool.false_eq_true, if_false, if_true] <;> omega
  | loadTail head =>
    simp only [SpscQueue.next, SpscQueue.popStep, pc] at h
    split_ifs at h <;> cases h <;> cases drain <;>
      simp only [popWork, SpscQueue.held, Bool.false_eq_true, if_false, if_true] <;> omega
  | storeHead head item =>
    have holds : s.popped.length < s.pushed.length := by
      have ok := inv.pop
      rw [pc] at ok
      obtain ⟨inside, -⟩ := List.getElem?_eq_some_iff.mp ok.2
      exact inside
    simp only [SpscQueue.next, SpscQueue.popStep, pc] at h
    cases h
    rw [SpscQueue.held, SpscQueue.held, List.length_append, List.length_singleton]
    cases drain <;> simp only [popWork, Bool.false_eq_true, if_false, if_true] <;> omega

/-- With the flag down every step of the processing loop is paid for. -/
theorem consumerStep_work {s t : Pipeline.State π T} {left : T}
    (inv : SpscQueue.Inv cap s.queue) (down : s.running = false)
    (h : consumerStep cap left s = some t) :
    consumerWork t.queue.popPc t.consumer + 7 * SpscQueue.held t.queue + 1 ≤
      consumerWork s.queue.popPc s.consumer + 7 * SpscQueue.held s.queue := by
  cases consumerStep_turn h with
  | call pc called =>
    obtain rfl := SpscQueue.callPop_frame called
    simp only [consumerWork, popWork, SpscQueue.held, pc, down, Bool.not_false, if_true]
    omega
  | @pop drain left queue pc moved =>
    simp only [consumerWork, pc]
    exact pop_work drain inv moved
  | @take drain msg pc returned =>
    cases drain <;>
      simp only [consumerWork, popWork, pc, returned, Bool.false_eq_true, if_false, if_true] <;>
      omega
  | retry pc returned | exit pc returned =>
    simp only [consumerWork, popWork, pc, returned, Bool.false_eq_true, if_false, if_true]
    omega
  | process pc =>
    simp only [consumerWork, pc, Bool.false_eq_true, if_false]
    omega
  | drain pc called =>
    obtain rfl := SpscQueue.callPop_frame called
    simp only [consumerWork, popWork, SpscQueue.held, pc, if_true]
    omega

/-! ## The producer beside it -/

/-- With the flag down the producer's load pays for its actions, and with 7 for each
message that it publishes. -/
def Paid (P : Producer π α T) (cap : SpscQueue.Capacity) (load : SpscQueue.PushPc T → π → Nat)
    (cost : α → Nat) : Prop :=
  ∀ queue producer a producer' act queue',
    P.next false queue.pushPc producer a = some (producer', act) → Acted cap queue act queue' →
    load queue'.pushPc producer' + 7 * queue'.pushed.length + cost a ≤
      load queue.pushPc producer + 7 * queue.pushed.length

/-- What both threads still have to do. -/
def threadsWork (load : SpscQueue.PushPc T → π → Nat) (s : Pipeline.State π T) : Nat :=
  load s.queue.pushPc s.producer + 7 * SpscQueue.held s.queue +
    consumerWork s.queue.popPc s.consumer

def threadsCost (cost : α → Nat) : Pipeline.Action α T → Nat
  | .producer a => cost a
  | .consumer _ => 1
  | .shutdown => 0

theorem next_threadsWork {P : Producer π α T} {load : SpscQueue.PushPc T → π → Nat}
    {cost : α → Nat} {blank : T} {s t : Pipeline.State π T} {a : Pipeline.Action α T}
    (paid : Paid P cap load cost) (reached : (machine P cap blank).Reachable s)
    (down : s.running = false) (h : Pipeline.next P cap s a = some t) :
    t.running = false ∧ threadsWork load t + threadsCost cost a ≤ threadsWork load s := by
  have inv := queue_inv reached
  have fifo := inv.fifo.length_le
  have fifo' := (queue_inv (reached.next h)).fifo.length_le
  cases a with
  | producer a =>
    obtain ⟨running, consumer, -, popped, popPc, -⟩ := producerStep_frame h
    obtain ⟨producer, act, queue, moves, acted, rfl⟩ := producerStep_acted h
    rw [down] at moves
    have own := paid _ _ _ _ _ _ moves acted
    refine ⟨running.trans down, ?_⟩
    unfold threadsWork SpscQueue.held
    dsimp only [threadsCost] at popped popPc fifo' ⊢
    rw [popped] at fifo' ⊢
    rw [popPc]
    omega
  | consumer left =>
    have own := consumerStep_work inv down h
    obtain ⟨-, -, pushPc, same, running⟩ := consumerStep_handled (reachable_handled reached) h
    refine ⟨running.trans down, ?_⟩
    unfold threadsWork
    rw [pushPc, same]
    dsimp only [threadsCost]
    omega
  | shutdown =>
    cases h
    exact ⟨rfl, Nat.le_refl _⟩

/-! ## The next access is always there -/

/-- How a `try_push` goes from one access to the next. -/
inductive PushMove : SpscQueue.PushPc T → SpscQueue.PushPc T → Prop
  | loadTail (o : SpscQueue.Overload) (item : T) (tail : Nat) :
    PushMove (.loadTail o item) (.loadHead o item tail)
  | full (o : SpscQueue.Overload) (item : T) (tail : Nat) :
    PushMove (.loadHead o item tail) (.returned false item)
  | room (o : SpscQueue.Overload) (item : T) (tail : Nat) :
    PushMove (.loadHead o item tail) (.copy o item tail)
  | copy (o : SpscQueue.Overload) (item : T) (tail : Nat) :
    PushMove (.copy o item tail) (.storeTail o item tail)
  | storeTail (o : SpscQueue.Overload) (item left : T) (tail : Nat) :
    PushMove (.storeTail o item tail) (.returned true left)

theorem push_move {queue queue' : SpscQueue.State T} {left : T}
    (h : SpscQueue.next cap queue (.push left) = some queue') :
    PushMove queue.pushPc queue'.pushPc := by
  cases pc : queue.pushPc with
  | ready | returned ok item => simp [SpscQueue.next, SpscQueue.pushStep, pc] at h
  | loadTail o item | copy o item tail | storeTail o item tail =>
    simp only [SpscQueue.next, SpscQueue.pushStep, pc] at h
    cases h
    constructor
  | loadHead o item tail =>
    simp only [SpscQueue.next, SpscQueue.pushStep, pc] at h
    split_ifs at h <;> cases h <;> constructor

theorem PushMove.not_ready {pc pc' : SpscQueue.PushPc T} (move : PushMove pc pc') :
    pc' ≠ .ready := by
  cases move <;> simp

/-- The consumer is inside a `try_pop` exactly when it stands at one. -/
def Aligned (popPc : SpscQueue.PopPc T) : ConsumerPc T → Prop
  | .popping _ => popPc ≠ .ready
  | _ => popPc.idle = true

theorem consumerStep_aligned {s t : Pipeline.State π T} {left : T}
    (aligned : Aligned s.queue.popPc s.consumer) (h : consumerStep cap left s = some t) :
    Aligned t.queue.popPc t.consumer := by
  cases consumerStep_turn h with
  | call pc called | drain pc called =>
    obtain rfl := SpscQueue.callPop_frame called
    exact fun ready => by cases ready
  | @pop drain left queue pc moved =>
    change Aligned queue.popPc s.consumer
    rw [pc]
    intro ready
    cases popPc : s.queue.popPc with
    | ready | returned result => simp [SpscQueue.next, SpscQueue.popStep, popPc] at moved
    | loadHead | take head | storeHead head item =>
      simp only [SpscQueue.next, SpscQueue.popStep, popPc] at moved
      cases moved
      cases ready
    | loadTail head =>
      simp only [SpscQueue.next, SpscQueue.popStep, popPc] at moved
      split_ifs at moved <;> cases moved <;> cases ready
  | take pc returned | retry pc returned | exit pc returned =>
    simp [Aligned, returned, SpscQueue.PopPc.idle]
  | process pc =>
    rw [pc] at aligned
    exact aligned

theorem reachable_aligned {P : Producer π α T} {blank : T} {s : Pipeline.State π T}
    (reached : (machine P cap blank).Reachable s) : Aligned s.queue.popPc s.consumer := by
  refine Machine.invariant (machine P cap blank)
    (fun s => Aligned s.queue.popPc s.consumer) rfl ?_ reached
  intro s a t _ aligned h
  cases a with
  | producer a =>
    obtain ⟨-, consumer, -, -, popPc, -⟩ := producerStep_frame h
    rwa [consumer, popPc]
  | consumer left => exact consumerStep_aligned aligned h
  | shutdown =>
    cases h
    exact aligned

/-- The processing loop waits for nothing until it has exited. -/
theorem exists_consumerStep {s : Pipeline.State π T} (left : T)
    (aligned : Aligned s.queue.popPc s.consumer) (running : s.consumer ≠ .exited) :
    ∃ t, consumerStep cap left s = some t := by
  cases pc : s.consumer with
  | checkRunning =>
    rw [pc] at aligned
    have idle : s.queue.popPc.idle = true := aligned
    simp [consumerStep, pc, SpscQueue.next, idle]
  | popping drain =>
    rw [pc] at aligned
    cases popPc : s.queue.popPc with
    | ready => exact absurd popPc aligned
    | returned result => cases result <;> simp [consumerStep, pc, popPc]
    | loadHead | take head | storeHead head item =>
      simp [consumerStep, pc, popPc, SpscQueue.next, SpscQueue.popStep]
    | loadTail head =>
      by_cases empty : head = s.queue.tail <;>
        simp [consumerStep, pc, popPc, SpscQueue.next, SpscQueue.popStep, empty]
  | processing drain msg =>
    rw [pc] at aligned
    have idle : s.queue.popPc.idle = true := aligned
    cases drain <;> simp [consumerStep, pc, SpscQueue.next, idle]
  | exited => exact absurd pc running

end DrainWork
