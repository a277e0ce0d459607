import MarketDataEngine.BoundedFifo
import Mathlib.Data.Nat.Bitwise
import Mathlib.Logic.Function.Basic

/-!
# The single-producer single-consumer ring

`SPSCQueue` of `core/spsc_queue.h`. Every atomic load or store and every slot
copy is one step, in any interleaving of one thread that pushes and one that
pops. Local copies of the indices live in the program counters, so they can be
stale. The two histories `pushed` and `popped` are written with the stores that
publish a push and release a slot; no step reads them. What a move leaves in the
object it empties is unspecified, so the environment picks it.
-/

namespace SpscQueue

open Transition

universe u

/-- The template argument with its two static assertions. -/
structure Capacity where
  val : Nat
  power : val &&& (val - 1) = 0
  positive : 0 < val

def Capacity.mask (cap : Capacity) : Nat := cap.val - 1

/-- `(index + 1) & MASK`. -/
def nextIndex (cap : Capacity) (index : Nat) : Nat := (index + 1) &&& cap.mask

/-- `try_push(const T&)` copies its argument into the slot, `try_push(T&&)` moves it. -/
inductive Overload where
  | copying
  | moving
  deriving DecidableEq

/-- Where the producer is inside `try_push`; `returned` holds the result and
the caller's object after the call. -/
inductive PushPc (T : Type u) where
  | ready
  | loadTail (o : Overload) (item : T)
  | loadHead (o : Overload) (item : T) (tail : Nat)
  | copy (o : Overload) (item : T) (tail : Nat)
  | storeTail (o : Overload) (item : T) (tail : Nat)
  | returned (ok : Bool) (item : T)
  deriving DecidableEq

/-- Where the consumer is inside `try_pop`. Both overloads take the same steps
and differ in where the caller finds the item. -/
inductive PopPc (T : Type u) where
  | ready
  | loadHead
  | loadTail (head : Nat)
  | take (head : Nat)
  | storeHead (head : Nat) (item : T)
  | returned (result : Option T)
  deriving DecidableEq

structure State (T : Type u) where
  head : Nat
  tail : Nat
  buffer : Nat → T
  pushPc : PushPc T
  popPc : PopPc T
  pushed : List T
  popped : List T

/-- `left` is what a move performed by the step leaves behind. -/
inductive Action (T : Type u) where
  | callPush (o : Overload) (item : T)
  | push (left : T)
  | callPop
  | pop (left : T)

variable {T : Type u}

/-- The object a caller is left with after a successful push. -/
def Overload.leaves (left item : T) : Overload → T
  | .copying => item
  | .moving => left

def PushPc.idle : PushPc T → Bool
  | .ready | .returned _ _ => true
  | _ => false

def PopPc.idle : PopPc T → Bool
  | .ready | .returned _ => true
  | _ => false

/-- The next atomic access of `try_push`. -/
def pushStep (cap : Capacity) (left : T) (s : State T) : Option (State T) :=
  match s.pushPc with
  | .loadTail o item => some { s with pushPc := .loadHead o item s.tail }
  | .loadHead o item tail =>
    if nextIndex cap tail = s.head then some { s with pushPc := .returned false item }
    else some { s with pushPc := .copy o item tail }
  | .copy o item tail =>
    some { s with
      buffer := Function.update s.buffer tail item
      pushPc := .storeTail o item tail }
  | .storeTail o item tail =>
    some { s with
      tail := nextIndex cap tail
      pushPc := .returned true (o.leaves left item)
      pushed := s.pushed ++ [item] }
  | .ready | .returned _ _ => none

/-- The next atomic access of `try_pop`. -/
def popStep (cap : Capacity) (left : T) (s : State T) : Option (State T) :=
  match s.popPc with
  | .loadHead => some { s with popPc := .loadTail s.head }
  | .loadTail head =>
    if head = s.tail then some { s with popPc := .returned none }
    else some { s with popPc := .take head }
  | .take head =>
    some { s with
      buffer := Function.update s.buffer head left
      popPc := .storeHead head (s.buffer head) }
  | .storeHead head item =>
    some { s with
      head := nextIndex cap head
      popPc := .returned (some item)
      popped := s.popped ++ [item] }
  | .ready | .returned _ => none

def next (cap : Capacity) (s : State T) : Action T → Option (State T)
  | .callPush o item =>
    if s.pushPc.idle then some { s with pushPc := .loadTail o item } else none
  | .push left => pushStep cap left s
  | .callPop => if s.popPc.idle then some { s with popPc := .loadHead } else none
  | .pop left => popStep cap left s

/-- `SPSCQueue()`: both indices 0, every slot default constructed. -/
def initial (blank : T) : State T where
  head := 0
  tail := 0
  buffer := fun _ => blank
  pushPc := .ready
  popPc := .ready
  pushed := []
  popped := []

/-- One producer and one consumer calling the queue in any order, forever. -/
def machine (cap : Capacity) (blank : T) : Machine (State T) (Action T) where
  init := initial blank
  next := next cap

/-- Items published by the producer and not yet released by the consumer. -/
def held (s : State T) : Nat := s.pushed.length - s.popped.length

/-- The slots from `head` up to `tail`, which hold the unread items. -/
def unreadSlots (cap : Capacity) (s : State T) : List Nat :=
  (List.range (held s)).map (fun k => (s.head + k) &&& cap.mask)

/-- All that one step can do, access by access. -/
inductive Step (cap : Capacity) (s : State T) : State T → Prop
  | callPush (o : Overload) (item : T) (idle : s.pushPc.idle = true) :
      Step cap s { s with pushPc := .loadTail o item }
  | loadTail (o : Overload) (item : T) (pc : s.pushPc = .loadTail o item) :
      Step cap s { s with pushPc := .loadHead o item s.tail }
  | full (o : Overload) (item : T) (tail : Nat) (pc : s.pushPc = .loadHead o item tail)
      (full : nextIndex cap tail = s.head) :
      Step cap s { s with pushPc := .returned false item }
  | room (o : Overload) (item : T) (tail : Nat) (pc : s.pushPc = .loadHead o item tail)
      (room : nextIndex cap tail ≠ s.head) :
      Step cap s { s with pushPc := .copy o item tail }
  | copy (o : Overload) (item : T) (tail : Nat) (pc : s.pushPc = .copy o item tail) :
      Step cap s { s with
        buffer := Function.update s.buffer tail item
        pushPc := .storeTail o item tail }
  | storeTail (left : T) (o : Overload) (item : T) (tail : Nat)
      (pc : s.pushPc = .storeTail o item tail) :
      Step cap s { s with
        tail := nextIndex cap tail
        pushPc := .returned true (o.leaves left item)
        pushed := s.pushed ++ [item] }
  | callPop (idle : s.popPc.idle = true) : Step cap s { s with popPc := .loadHead }
  | loadHead (pc : s.popPc = .loadHead) : Step cap s { s with popPc := .loadTail s.head }
  | empty (head : Nat) (pc : s.popPc = .loadTail head) (empty : head = s.tail) :
      Step cap s { s with popPc := .returned none }
  | filled (head : Nat) (pc : s.popPc = .loadTail head) (filled : head ≠ s.tail) :
      Step cap s { s with popPc := .take head }
  | take (left : T) (head : Nat) (pc : s.popPc = .take head) :
      Step cap s { s with
        buffer := Function.update s.buffer head left
        popPc := .storeHead head (s.buffer head) }
  | storeHead (head : Nat) (item : T) (pc : s.popPc = .storeHead head item) :
      Step cap s { s with
        head := nextIndex cap head
        popPc := .returned (some item)
        popped := s.popped ++ [item] }

theorem pushStep_step {cap : Capacity} {left : T} {s t : State T}
    (h : pushStep cap left s = some t) : Step cap s t := by
  unfold pushStep at h
  cases pc : s.pushPc with
  | ready => simp [pc] at h
  | loadTail o item => simp only [pc, Option.some.injEq] at h; exact h ▸ .loadTail o item pc
  | loadHead o item tail =>
    simp only [pc] at h
    split_ifs at h with full
    · exact Option.some.inj h ▸ .full o item tail pc full
    · exact Option.some.inj h ▸ .room o item tail pc full
  | copy o item tail => simp only [pc, Option.some.injEq] at h; exact h ▸ .copy o item tail pc
  | storeTail o item tail =>
    simp only [pc, Option.some.injEq] at h
    exact h ▸ .storeTail left o item tail pc
  | returned ok item => simp [pc] at h

theorem popStep_step {cap : Capacity} {left : T} {s t : State T}
    (h : popStep cap left s = some t) : Step cap s t := by
  unfold popStep at h
  cases pc : s.popPc with
  | ready => simp [pc] at h
  | loadHead => simp only [pc, Option.some.injEq] at h; exact h ▸ .loadHead pc
  | loadTail head =>
    simp only [pc] at h
    split_ifs at h with empty
    · exact Option.some.inj h ▸ .empty head pc empty
    · exact Option.some.inj h ▸ .filled head pc empty
  | take head => simp only [pc, Option.some.injEq] at h; exact h ▸ .take left head pc
  | storeHead head item =>
    simp only [pc, Option.some.injEq] at h
    exact h ▸ .storeHead head item pc
  | returned result => simp [pc] at h

theorem next_step {cap : Capacity} {s t : State T} {a : Action T}
    (h : next cap s a = some t) : Step cap s t := by
  cases a with
  | callPush o item =>
    simp only [next] at h
    split_ifs at h with idle
    exact Option.some.inj h ▸ .callPush o item idle
  | push left => exact pushStep_step h
  | callPop =>
    simp only [next] at h
    split_ifs at h with idle
    exact Option.some.inj h ▸ .callPop idle
  | pop left => exact popStep_step h

/-! ## Positions and slots -/

/-- Masking by a power of two less one is reduction modulo the capacity. -/
theorem and_mask (cap : Capacity) (n : Nat) : n &&& cap.mask = n % cap.val := by
  obtain ⟨k, hk⟩ :=
    (Nat.and_sub_one_eq_zero_iff_isPowerOfTwo (Nat.ne_of_gt cap.positive)).mp cap.power
  rw [Capacity.mask, hk]
  exact Nat.and_two_pow_sub_one_eq_mod n k

theorem nextIndex_mod (cap : Capacity) (n : Nat) :
    nextIndex cap (n % cap.val) = (n + 1) % cap.val := by
  rw [nextIndex, and_mask, Nat.mod_add_mod]

/-- Positions less than one revolution apart use different slots. -/
theorem mod_ne_of_lt {c i j : Nat} (below : i < j) (near : j < i + c) : i % c ≠ j % c := by
  intro same
  have divides : c ∣ j - i := Nat.dvd_of_mod_eq_zero (Nat.sub_mod_eq_zero_of_mod_eq same.symm)
  have := Nat.le_of_dvd (by omega) divides
  omega

/-! ## The invariant over both program counters -/

/-- The first position whose slot still holds its item. -/
def firstUnread (s : State T) : Nat :=
  match s.popPc with
  | .storeHead _ _ => s.popped.length + 1
  | _ => s.popped.length

/-- A stale copy of `tail` cannot occur, and room once seen does not go away. -/
def PushOk (cap : Capacity) (s : State T) : PushPc T → Prop
  | .loadHead _ _ tail => tail = s.tail
  | .copy _ _ tail => tail = s.tail ∧ s.pushed.length + 1 < s.popped.length + cap.val
  | .storeTail _ item tail =>
    tail = s.tail ∧ s.pushed.length + 1 < s.popped.length + cap.val ∧ s.buffer tail = item
  | _ => True

/-- A stale copy of `head` cannot occur, and an item once seen does not go away. -/
def PopOk (s : State T) : PopPc T → Prop
  | .loadTail head => head = s.head
  | .take head => head = s.head ∧ s.popped.length < s.pushed.length
  | .storeHead head item => head = s.head ∧ s.pushed[s.popped.length]? = some item
  | _ => True

structure Inv (cap : Capacity) (s : State T) : Prop where
  head_eq : s.head = s.popped.length % cap.val
  tail_eq : s.tail = s.pushed.length % cap.val
  fifo : s.popped <+: s.pushed
  room : s.pushed.length < s.popped.length + cap.val
  slots : ∀ i, firstUnread s ≤ i → i < s.pushed.length →
    s.pushed[i]? = some (s.buffer (i % cap.val))
  push : PushOk cap s s.pushPc
  pop : PopOk s s.popPc

theorem initial_inv (cap : Capacity) (blank : T) : Inv cap (initial blank) where
  head_eq := (Nat.zero_mod _).symm
  tail_eq := (Nat.zero_mod _).symm
  fifo := List.prefix_rfl
  room := by simpa [initial] using cap.positive
  slots := fun i _ hi => absurd hi (Nat.not_lt_zero i)
  push := trivial
  pop := trivial

/-- The queue is full exactly when the index after `tail` is `head`. -/
theorem full_iff {cap : Capacity} {s : State T} (inv : Inv cap s) :
    nextIndex cap s.tail = s.head ↔ held s = cap.val - 1 := by
  have le := inv.fifo.length_le
  have room := inv.room
  rw [inv.tail_eq, inv.head_eq, nextIndex_mod, held]
  constructor
  · intro same
    by_contra notFull
    exact mod_ne_of_lt (c := cap.val) (i := s.popped.length) (j := s.pushed.length + 1)
      (by omega) (by omega) same.symm
  · intro full
    have h : s.pushed.length + 1 = s.popped.length + cap.val := by omega
    rw [h, Nat.add_mod_right]

/-- The queue is empty exactly when the indices agree. -/
theorem empty_iff {cap : Capacity} {s : State T} (inv : Inv cap s) :
    s.head = s.tail ↔ held s = 0 := by
  have le := inv.fifo.length_le
  have room := inv.room
  rw [inv.tail_eq, inv.head_eq, held]
  constructor
  · intro same
    by_contra notEmpty
    exact mod_ne_of_lt (c := cap.val) (by omega) (by omega) same
  · intro empty
    rw [show s.popped.length = s.pushed.length by omega]

theorem firstUnread_le (s : State T) : s.popped.length ≤ firstUnread s := by
  unfold firstUnread
  split <;> omega

theorem firstUnread_of_pc {s : State T} (pc : ∀ head item, s.popPc ≠ .storeHead head item) :
    firstUnread s = s.popped.length := by
  unfold firstUnread
  split
  · exact absurd ‹_› (pc _ _)
  · rfl

/-- A step keeps `PushOk` when it moves no tail, fills no slot the producer
wrote and gives room only. -/
theorem PushOk.mono {cap : Capacity} {s t : State T} {pc : PushPc T} (ok : PushOk cap s pc)
    (tail : t.tail = s.tail) (pushed : t.pushed = s.pushed)
    (popped : s.popped.length ≤ t.popped.length)
    (buffer : ∀ o item i, pc = .storeTail o item i → t.buffer i = s.buffer i) :
    PushOk cap t pc := by
  cases pc with
  | ready => trivial
  | loadTail o item => trivial
  | loadHead o item i => exact ok.trans tail.symm
  | copy o item i =>
    obtain ⟨same, room⟩ := ok
    refine ⟨same.trans tail.symm, ?_⟩
    rw [pushed]
    omega
  | storeTail o item i =>
    obtain ⟨same, room, written⟩ := ok
    refine ⟨same.trans tail.symm, ?_, (buffer o item i rfl).trans written⟩
    rw [pushed]
    omega
  | returned ok item => trivial

/-- A step keeps `PopOk` when it moves no head and only extends what was pushed. -/
theorem PopOk.mono {s t : State T} {pc : PopPc T} (ok : PopOk s pc) (head : t.head = s.head)
    (popped : t.popped = s.popped) (pushed : s.pushed <+: t.pushed) : PopOk t pc := by
  cases pc with
  | ready => trivial
  | loadHead => trivial
  | loadTail i => exact ok.trans head.symm
  | take i =>
    obtain ⟨same, unread⟩ := ok
    refine ⟨same.trans head.symm, ?_⟩
    rw [popped]
    exact Nat.lt_of_lt_of_le unread pushed.length_le
  | storeHead i item =>
    obtain ⟨same, front⟩ := ok
    obtain ⟨more, hmore⟩ := pushed
    refine ⟨same.trans head.symm, ?_⟩
    rw [popped, ← hmore, List.getElem?_append_left]
    · exact front
    · exact (List.getElem?_eq_some_iff.mp front).1
  | returned result => trivial

/-- The slot being filled is none of the slots still to be read. -/
theorem tail_ne_slot {cap : Capacity} {s : State T} (inv : Inv cap s) {i : Nat}
    (low : s.popped.length ≤ i) (high : i < s.pushed.length) : i % cap.val ≠ s.tail := by
  rw [inv.tail_eq]
  have room := inv.room
  exact mod_ne_of_lt high (by omega)

/-- The slot being released is none of the slots after it. -/
theorem head_ne_slot {cap : Capacity} {s : State T} (inv : Inv cap s) {i : Nat}
    (low : s.popped.length < i) (high : i < s.popped.length + cap.val) :
    i % cap.val ≠ s.head := by
  rw [inv.head_eq]
  exact (mod_ne_of_lt low high).symm

/-- Storing the item fills a slot that holds nothing unread. -/
theorem Inv.copy {cap : Capacity} {s : State T} (inv : Inv cap s) {o : Overload} {item : T}
    {tail : Nat} (pc : s.pushPc = .copy o item tail) :
    Inv cap { s with
      buffer := Function.update s.buffer tail item
      pushPc := .storeTail o item tail } := by
  have push := inv.push
  rw [pc] at push
  obtain ⟨rfl, room⟩ := push
  refine { inv with
    slots := ?_
    push := ⟨rfl, room, Function.update_self _ _ _⟩
    pop := inv.pop.mono rfl rfl List.prefix_rfl }
  intro i low high
  have fresh := tail_ne_slot inv (Nat.le_trans (firstUnread_le s) low) high
  show s.pushed[i]? = some (Function.update s.buffer s.tail item (i % cap.val))
  rw [Function.update_of_ne fresh]
  exact inv.slots i low high

/-- Storing `tail` publishes the item in the slot it was written to. -/
theorem Inv.publish {cap : Capacity} {s : State T} (inv : Inv cap s) {left : T} {o : Overload}
    {item : T} {tail : Nat} (pc : s.pushPc = .storeTail o item tail) :
    Inv cap { s with
      tail := nextIndex cap tail
      pushPc := .returned true (o.leaves left item)
      pushed := s.pushed ++ [item] } := by
  have push := inv.push
  rw [pc] at push
  obtain ⟨rfl, room, written⟩ := push
  constructor
  · exact inv.head_eq
  · show nextIndex cap s.tail = (s.pushed ++ [item]).length % cap.val
    rw [inv.tail_eq, nextIndex_mod, List.length_append, List.length_singleton]
  · exact inv.fifo.trans (List.prefix_append _ _)
  · show (s.pushed ++ [item]).length < s.popped.length + cap.val
    simpa only [List.length_append, List.length_singleton] using room
  · intro i low high
    show (s.pushed ++ [item])[i]? = some (s.buffer (i % cap.val))
    rcases Nat.lt_or_ge i s.pushed.length with old | new
    · rw [List.getElem?_append_left old]
      exact inv.slots i low old
    · have last : i = s.pushed.length := by
        have : i < (s.pushed ++ [item]).length := high
        simp only [List.length_append, List.length_singleton] at this
        omega
      rw [last, List.getElem?_concat_length, ← inv.tail_eq, written]
  · trivial
  · exact inv.pop.mono rfl rfl (List.prefix_append _ _)

/-- A step of the consumer before it reads its slot only moves its program counter. -/
theorem Inv.consumer {cap : Capacity} {s : State T} (inv : Inv cap s) {pc : PopPc T}
    (before : ∀ head item, s.popPc ≠ .storeHead head item) (ok : PopOk s pc) :
    Inv cap { s with popPc := pc } := by
  refine { inv with
    slots := ?_
    push := inv.push.mono rfl rfl (Nat.le_refl _) ?_
    pop := ok.mono rfl rfl List.prefix_rfl }
  · intro i low high
    refine inv.slots i ?_ high
    rw [firstUnread_of_pc before]
    exact Nat.le_trans (firstUnread_le { s with popPc := pc }) low
  · intro _ _ _ _
    rfl

/-- Moving the item out of its slot touches no other slot that is still to be read. -/
theorem Inv.take {cap : Capacity} {s : State T} (inv : Inv cap s) {left : T} {head : Nat}
    (pc : s.popPc = .take head) :
    Inv cap { s with
      buffer := Function.update s.buffer head left
      popPc := .storeHead head (s.buffer head) } := by
  have pop := inv.pop
  rw [pc] at pop
  obtain ⟨rfl, unread⟩ := pop
  have atFront : firstUnread s = s.popped.length := firstUnread_of_pc (by simp [pc])
  refine { inv with
    slots := ?_
    push := inv.push.mono rfl rfl (Nat.le_refl _) ?_
    pop := ⟨rfl, ?_⟩ }
  · intro i low high
    have low : s.popped.length + 1 ≤ i := low
    have high : i < s.pushed.length := high
    have room := inv.room
    show s.pushed[i]? = some (Function.update s.buffer s.head left (i % cap.val))
    rw [Function.update_of_ne (head_ne_slot inv (by omega) (by omega))]
    exact inv.slots i (by omega) high
  · intro o item i storing
    have push := inv.push
    rw [storing] at push
    obtain ⟨rfl, room, -⟩ := push
    refine Function.update_of_ne ?_ _ _
    rw [inv.tail_eq]
    exact head_ne_slot inv unread (by omega)
  · show s.pushed[s.popped.length]? = some (s.buffer s.head)
    rw [inv.head_eq]
    exact inv.slots _ (by omega) unread

/-- Storing `head` releases the slot whose item was taken. -/
theorem Inv.release {cap : Capacity} {s : State T} (inv : Inv cap s) {head : Nat} {item : T}
    (pc : s.popPc = .storeHead head item) :
    Inv cap { s with
      head := nextIndex cap head
      popPc := .returned (some item)
      popped := s.popped ++ [item] } := by
  have pop := inv.pop
  rw [pc] at pop
  obtain ⟨rfl, front⟩ := pop
  obtain ⟨unread, isItem⟩ := List.getElem?_eq_some_iff.mp front
  have atFront : firstUnread s = s.popped.length + 1 := by simp [firstUnread, pc]
  have room := inv.room
  constructor
  · show nextIndex cap s.head = (s.popped ++ [item]).length % cap.val
    rw [inv.head_eq, nextIndex_mod, List.length_append, List.length_singleton]
  · exact inv.tail_eq
  · show s.popped ++ [item] <+: s.pushed
    have next : s.pushed.take (s.popped.length + 1) = s.popped ++ [item] := by
      rw [List.take_succ_eq_append_getElem unread, ← List.prefix_iff_eq_take.mp inv.fifo, isItem]
    exact next ▸ List.take_prefix _ _
  · show s.pushed.length < (s.popped ++ [item]).length + cap.val
    simp only [List.length_append, List.length_singleton]
    omega
  · intro i low high
    refine inv.slots i ?_ high
    have low : (s.popped ++ [item]).length ≤ i := low
    simpa only [atFront, List.length_append, List.length_singleton] using low
  · refine inv.push.mono rfl rfl ?_ ?_
    · simp
    · intro _ _ _ _
      rfl
  · trivial

theorem step_inv {cap : Capacity} {s t : State T} (inv : Inv cap s)
    (step : Step cap s t) : Inv cap t := by
  have pop := inv.pop
  have push := inv.push
  have le := inv.fifo.length_le
  cases step with
  | callPush o item idle => exact { inv with push := trivial }
  | loadTail o item pc => exact { inv with push := rfl }
  | full o item tail pc full => exact { inv with push := trivial }
  | room o item tail pc room =>
    rw [pc] at push
    obtain rfl : tail = s.tail := push
    refine { inv with push := ⟨rfl, ?_⟩ }
    have notFull := mt (full_iff inv).mpr room
    have bound := inv.room
    simp only [held] at notFull
    show s.pushed.length + 1 < s.popped.length + cap.val
    omega
  | copy o item tail pc => exact inv.copy pc
  | storeTail left o item tail pc => exact inv.publish pc
  | callPop idle =>
    refine inv.consumer (fun head item pc => ?_) trivial
    rw [pc] at idle
    cases idle
  | loadHead pc => exact inv.consumer (by simp [pc]) rfl
  | empty head pc empty => exact inv.consumer (by simp [pc]) trivial
  | filled head pc filled =>
    rw [pc] at pop
    obtain rfl : head = s.head := pop
    have notEmpty := mt (empty_iff inv).mpr filled
    refine inv.consumer (by simp [pc]) ⟨rfl, ?_⟩
    simp only [held] at notEmpty
    omega
  | take left head pc => exact inv.take pc
  | storeHead head item pc => exact inv.release pc

theorem reachable_inv {cap : Capacity} {blank : T} {s : State T}
    (reached : (machine cap blank).Reachable s) : Inv cap s :=
  Machine.invariant (machine cap blank) (Inv cap) (initial_inv cap blank)
    (fun _ _ _ _ inv h => step_inv inv (next_step h)) reached

/-! ## What each thread can change -/

theorem callPush_frame {cap : Capacity} {s t : State T} {o : Overload} {item : T}
    (h : next cap s (.callPush o item) = some t) :
    t = { s with pushPc := .loadTail o item } := by
  simp only [next] at h
  split_ifs at h
  exact (Option.some.inj h).symm

theorem callPop_frame {cap : Capacity} {s t : State T} (h : next cap s .callPop = some t) :
    t = { s with popPc := .loadHead } := by
  simp only [next] at h
  split_ifs at h
  exact (Option.some.inj h).symm

/-- The producer publishes with its store to `tail` and leaves the consumer's side alone. -/
theorem push_frame {cap : Capacity} {left : T} {s t : State T}
    (h : next cap s (.push left) = some t) :
    t.popped = s.popped ∧ t.popPc = s.popPc ∧
      ((∀ o item tail, s.pushPc ≠ .storeTail o item tail) ∧ t.pushed = s.pushed ∨
        ∃ o item tail, s.pushPc = .storeTail o item tail ∧
          t.pushPc = .returned true (o.leaves left item) ∧ t.pushed = s.pushed ++ [item]) := by
  cases pc : s.pushPc with
  | ready | returned ok item => simp [next, pushStep, pc] at h
  | loadTail o item | copy o item tail =>
    simp only [next, pushStep, pc] at h
    cases h
    exact ⟨rfl, rfl, Or.inl ⟨by simp, rfl⟩⟩
  | loadHead o item tail =>
    simp only [next, pushStep, pc] at h
    split_ifs at h <;> cases h <;> exact ⟨rfl, rfl, Or.inl ⟨by simp, rfl⟩⟩
  | storeTail o item tail =>
    simp only [next, pushStep, pc] at h
    cases h
    exact ⟨rfl, rfl, Or.inr ⟨o, item, tail, rfl, rfl, rfl⟩⟩

/-- The item a `try_push` under way, or one that failed, still has to deliver. -/
def PushPc.pending : PushPc T → List T
  | .loadTail _ item | .loadHead _ item _ | .copy _ item _ | .storeTail _ item _ => [item]
  | .returned false item => [item]
  | .ready | .returned true _ => []

/-- No step of a `try_push` loses or doubles the item it was called with. -/
theorem push_pending {cap : Capacity} {left : T} {s t : State T}
    (h : next cap s (.push left) = some t) :
    t.pushed ++ t.pushPc.pending = s.pushed ++ s.pushPc.pending := by
  cases pc : s.pushPc with
  | ready | returned ok item => simp [next, pushStep, pc] at h
  | loadTail o item | copy o item tail =>
    simp only [next, pushStep, pc] at h
    cases h
    rfl
  | loadHead o item tail =>
    simp only [next, pushStep, pc] at h
    split_ifs at h <;> cases h <;> rfl
  | storeTail o item tail =>
    simp only [next, pushStep, pc] at h
    cases h
    exact List.append_nil _

/-- The consumer releases with its store to `head` and leaves the producer's side alone. -/
theorem pop_frame {cap : Capacity} {left : T} {s t : State T}
    (h : next cap s (.pop left) = some t) :
    t.pushed = s.pushed ∧ t.pushPc = s.pushPc ∧ (∀ result, s.popPc ≠ .returned result) ∧
      ((∀ item, t.popPc ≠ .returned (some item)) ∧ t.popped = s.popped ∨
        ∃ item, t.popPc = .returned (some item) ∧ t.popped = s.popped ++ [item]) := by
  cases pc : s.popPc with
  | ready | returned result => simp [next, popStep, pc] at h
  | loadHead | take head =>
    simp only [next, popStep, pc] at h
    cases h
    exact ⟨rfl, rfl, by simp, Or.inl ⟨by simp, rfl⟩⟩
  | loadTail head =>
    simp only [next, popStep, pc] at h
    split_ifs at h <;> cases h <;> exact ⟨rfl, rfl, by simp, Or.inl ⟨by simp, rfl⟩⟩
  | storeHead head item =>
    simp only [next, popStep, pc] at h
    cases h
    exact ⟨rfl, rfl, by simp, Or.inr ⟨item, rfl, rfl⟩⟩

/-- What was released stays released. -/
theorem step_popped {cap : Capacity} {s t : State T} (step : Step cap s t) :
    s.popped <+: t.popped := by
  cases step with
  | storeHead => exact List.prefix_append _ _
  | _ => exact List.prefix_rfl

/-- What was published stays published. -/
theorem step_pushed {cap : Capacity} {s t : State T} (step : Step cap s t) :
    s.pushed <+: t.pushed := by
  cases step with
  | storeTail => exact List.prefix_append _ _
  | _ => exact List.prefix_rfl

theorem leads_grows {cap : Capacity} {blank : T} {s t : State T}
    (h : (machine cap blank).Leads s t) : s.popped <+: t.popped ∧ s.pushed <+: t.pushed := by
  refine @Machine.Leads.relates _ _ (machine cap blank)
    (fun s t => s.popped <+: t.popped ∧ s.pushed <+: t.pushed)
    (fun s => ⟨List.prefix_rfl, List.prefix_rfl⟩) ?_ s t h
  rintro s a m t first ⟨popped, pushed⟩
  exact ⟨(step_popped (next_step first)).trans popped, (step_pushed (next_step first)).trans pushed⟩

/-! ## The ring as a bounded channel -/

/-- What the ring holds, forgetting indices, slots and program counters. -/
def channel (s : State T) : BoundedFifo.State T where
  items := s.pushed.drop s.popped.length
  sent := s.pushed
  received := s.popped

theorem length_channel_items (s : State T) : (channel s).items.length = held s :=
  List.length_drop

/-- The store to `tail` is the send and the store to `head` is the receive; all
other accesses leave the channel alone. -/
theorem step_channel {cap : Capacity} {s t : State T} (inv : Inv cap s) (step : Step cap s t) :
    channel t = channel s ∨
      ∃ a, BoundedFifo.next (cap.val - 1) (channel s) a = some (channel t) := by
  have pop := inv.pop
  have push := inv.push
  have le := inv.fifo.length_le
  cases step with
  | storeTail left o item tail pc =>
    rw [pc] at push
    obtain ⟨-, room, -⟩ := push
    refine Or.inr ⟨.send item, ?_⟩
    have below : (channel s).items.length < cap.val - 1 := by
      rw [length_channel_items, held]
      omega
    rw [BoundedFifo.next, if_pos below]
    simp only [channel, List.drop_append_of_le_length le]
  | storeHead head item pc =>
    rw [pc] at pop
    obtain ⟨-, front⟩ := pop
    obtain ⟨unread, isItem⟩ := List.getElem?_eq_some_iff.mp front
    refine Or.inr ⟨.receive, ?_⟩
    have items : (channel s).items = item :: s.pushed.drop (s.popped.length + 1) := by
      rw [channel, ← isItem, List.drop_eq_getElem_cons unread]
    rw [BoundedFifo.next, items]
    simp only [channel, List.length_append, List.length_singleton]
  | callPush | loadTail | full | room | copy | callPop | loadHead | empty | filled | take =>
    exact Or.inl rfl

/-- The ring of `cap` slots is a first-in first-out channel of `cap - 1` items. -/
theorem refines_boundedFifo (cap : Capacity) (blank : T) :
    (machine cap blank).Refines (BoundedFifo.machine T (cap.val - 1)) channel :=
  ⟨rfl, fun _ _ _ reached h => step_channel (reachable_inv reached) (next_step h)⟩

/-- A push that reports a full queue has just seen the last free slot taken. -/
theorem push_failed {cap : Capacity} {left item : T} {s t : State T} (inv : Inv cap s)
    (h : next cap s (.push left) = some t) (failed : t.pushPc = .returned false item) :
    held s = cap.val - 1 := by
  have push := inv.push
  cases pc : s.pushPc with
  | loadHead o item tail =>
    rw [pc] at push
    obtain rfl : tail = s.tail := push
    simp only [next, pushStep, pc] at h
    split_ifs at h with full
    · exact (full_iff inv).mp full
    · cases h
      simp at failed
  | ready | returned ok item => simp [next, pushStep, pc] at h
  | loadTail o item | copy o item tail | storeTail o item tail =>
    simp only [next, pushStep, pc] at h
    cases h
    simp at failed

/-- A pop that reports an empty queue has just seen every item released. -/
theorem pop_failed {cap : Capacity} {left : T} {s t : State T} (inv : Inv cap s)
    (h : next cap s (.pop left) = some t) (failed : t.popPc = .returned none) :
    held s = 0 := by
  have pop := inv.pop
  cases pc : s.popPc with
  | loadTail head =>
    rw [pc] at pop
    obtain rfl : head = s.head := pop
    simp only [next, popStep, pc] at h
    split_ifs at h with empty
    · exact (empty_iff inv).mp empty
    · cases h
      simp at failed
  | ready | returned result => simp [next, popStep, pc] at h
  | loadHead | take head | storeHead head item =>
    simp only [next, popStep, pc] at h
    cases h
    simp at failed

theorem tail_not_unread {cap : Capacity} {s : State T} (inv : Inv cap s) :
    s.tail ∉ unreadSlots cap s := by
  intro mem
  obtain ⟨k, hk, same⟩ := List.mem_map.mp mem
  have below : k < held s := List.mem_range.mp hk
  rw [held] at below
  rw [and_mask, inv.head_eq, Nat.mod_add_mod] at same
  exact tail_ne_slot inv (i := s.popped.length + k) (by omega) (by omega) same

/-- In every interleaving: what was popped is the front of what was pushed; a slot
is filled only while it holds nothing unread; a slot is read only when its item is
complete; at most `cap - 1` items are held; and both operations fail for cause. -/
theorem interleavings_fifo (cap : Capacity) (blank : T) (as : List (Action T)) (s : State T)
    (run : (machine cap blank).run (initial blank) as = some s) :
    s.popped <+: s.pushed ∧
    held s ≤ cap.val - 1 ∧
    (∀ i, firstUnread s ≤ i → i < s.pushed.length →
      s.pushed[i]? = some (s.buffer (i &&& cap.mask))) ∧
    (∀ o item tail, s.pushPc = .copy o item tail → tail ∉ unreadSlots cap s) ∧
    (∀ head, s.popPc = .take head →
      s.pushed[s.popped.length]? = some (s.buffer head) ∧
      ∀ o item tail, s.pushPc = .copy o item tail ∨ s.pushPc = .storeTail o item tail →
        tail ≠ head) ∧
    (∀ left t item, next cap s (.push left) = some t → t.pushPc = .returned false item →
      held s = cap.val - 1) ∧
    (∀ left t, next cap s (.pop left) = some t → t.popPc = .returned none → held s = 0) := by
  have reached : (machine cap blank).Reachable s := ⟨as, run⟩
  have inv := reachable_inv reached
  have spec := BoundedFifo.reachable_inv ((refines_boundedFifo cap blank).reachable reached)
  refine ⟨spec.received_prefix, ?_, ?_, ?_, ?_, ?_, ?_⟩
  · exact length_channel_items s ▸ spec.bounded
  · intro i low high
    rw [and_mask]
    exact inv.slots i low high
  · intro o item tail pc
    have push := inv.push
    rw [pc] at push
    exact push.1 ▸ tail_not_unread inv
  · intro head pc
    have pop := inv.pop
    rw [pc] at pop
    obtain ⟨rfl, unread⟩ := pop
    have noWrap := mod_ne_of_lt unread inv.room
    constructor
    · rw [inv.head_eq]
      exact inv.slots _ (by rw [firstUnread_of_pc (by simp [pc])]) unread
    · intro o item tail writing
      have push := inv.push
      rcases writing with h | h <;> rw [h] at push <;> rw [push.1, inv.tail_eq, inv.head_eq]
      · exact noWrap.symm
      · exact noWrap.symm
  · exact fun left t item h failed => push_failed inv h failed
  · exact fun left t h failed => pop_failed inv h failed

/-- Two pushes into a queue of one usable slot: the second is refused, and the pop
that overlaps it gets the first item. -/
def overlapping : List (Action Nat) :=
  [.callPush .copying 7, .push 0, .push 0, .push 0, .callPop, .push 0, .pop 0, .pop 0,
    .callPush .moving 8, .push 0, .pop 0, .push 0, .pop 0]

theorem interleavings_fifo_overlapping :
    ∃ s, (machine ⟨2, rfl, by decide⟩ 0).run (initial 0) overlapping = some s ∧
      s.popped = [7] ∧ s.pushPc = .returned false 8 ∧ s.popped <+: s.pushed :=
  ⟨_, rfl, rfl, rfl, (interleavings_fifo ⟨2, rfl, by decide⟩ 0 overlapping _ rfl).1⟩

end SpscQueue
