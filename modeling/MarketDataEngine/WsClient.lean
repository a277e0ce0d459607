import MarketDataEngine.FeedHandler
import MarketDataEngine.ReconnectPolicy

/-!
# The client that reconnects

`WsClient::run` with its reconnect policy: the feed thread of `FeedHandler`, which asks for a
delay and sleeps between two connections and resets the policy behind each handshake. Hiding
that gives back the feed thread, so whatever holds of the pipeline behind it holds here; what
is added is how often and after which delays the exchange is asked for a connection.
-/

namespace WsClient

open Transition Pipeline

universe u v

/-- Where `run` is between two connections. -/
inductive Wait where
  | none
  | asking
  | sleeping (delay : UInt32)
  deriving DecidableEq

/-- `log` and `attempts` are histories: the delays slept with the resets between them, and
how many connections were begun. -/
structure State (Raw : Type u) where
  feed : FeedHandler.State Raw := {}
  wait : Wait := .none
  policy : ReconnectPolicy
  log : List (Option UInt32) := []
  attempts : Nat := 0

variable {Raw : Type u} {T : Type v}

/-- What a step of the feed thread means for the policy. -/
def State.follow (s : State Raw) (feed : FeedHandler.State Raw) : State Raw :=
  match s.feed.pc, feed.pc with
  | .checkStopped, .connecting => { s with feed := feed, attempts := s.attempts + 1 }
  | .connecting, .readRunning =>
    { s with feed := feed, policy := s.policy.reset, log := s.log ++ [none] }
  | .recheckStopped, .checkRunning => { s with feed := feed, wait := .asking }
  | _, _ => { s with feed := feed }

/-- The thread's step between two connections; it asks for the delay and sleeps. -/
def waitStep (s : State Raw) : Option (State Raw) :=
  match s.wait with
  | .none => none
  | .asking =>
    s.policy.nextDelayMs.map (fun (delay, policy) => { s with
      policy := policy
      log := s.log ++ [some delay]
      wait := .sleeping delay })
  | .sleeping _ => some { s with wait := .none }

def feedStep (parse : Raw → Option T) (running : Bool) (pushPc : SpscQueue.PushPc T)
    (s : State Raw) (a : FeedHandler.Action Raw T) : Option (State Raw × Option (PushAction T)) :=
  (FeedHandler.next parse running pushPc s.feed a).map (fun (feed, act) => (s.follow feed, act))

def next (parse : Raw → Option T) (running : Bool) (pushPc : SpscQueue.PushPc T)
    (s : State Raw) (a : FeedHandler.Action Raw T) : Option (State Raw × Option (PushAction T)) :=
  match a, s.wait with
  | .step _, .asking | .step _, .sleeping _ => (waitStep s).map (fun s => (s, none))
  | a, _ => feedStep parse running pushPc s a

def initial (cfg : ReconnectConfig) : State Raw where
  policy := .ofConfig cfg

/-- The feed thread with its reconnects as a producer. -/
def producer (cfg : ReconnectConfig) (parse : Raw → Option T) :
    Producer (State Raw) (FeedHandler.Action Raw T) T where
  init := initial cfg
  next := next parse

/-! ## What a step does -/

/-- A step of the client is its wait going on, or a step of the feed thread. -/
theorem next_cases {parse : Raw → Option T} {running : Bool} {pushPc : SpscQueue.PushPc T}
    {s t : State Raw} {a : FeedHandler.Action Raw T} {act : Option (PushAction T)}
    (h : next parse running pushPc s a = some (t, act)) :
    (waitStep s = some t ∧ act = none ∧ ∃ left, a = .step left) ∨
      ∃ feed, FeedHandler.next parse running pushPc s.feed a = some (feed, act) ∧
        t = s.follow feed ∧ (s.wait = .none ∨ ∀ left, a ≠ .step left) := by
  have own : s.wait = .none ∨ (∀ left, a ≠ .step left) →
      feedStep parse running pushPc s a = some (t, act) →
      ∃ feed, FeedHandler.next parse running pushPc s.feed a = some (feed, act) ∧
        t = s.follow feed ∧ (s.wait = .none ∨ ∀ left, a ≠ .step left) := by
    intro quiet moved
    obtain ⟨⟨feed, act'⟩, stepped, same⟩ := Option.map_eq_some_iff.mp moved
    cases same
    exact ⟨feed, stepped, rfl, quiet⟩
  unfold next at h
  split at h
  · obtain ⟨t', waited, same⟩ := Option.map_eq_some_iff.mp h
    cases same
    exact Or.inl ⟨waited, rfl, _, rfl⟩
  · obtain ⟨t', waited, same⟩ := Option.map_eq_some_iff.mp h
    cases same
    exact Or.inl ⟨waited, rfl, _, rfl⟩
  · rename_i notAsking notSleeping
    refine Or.inr (own ?_ h)
    cases wait : s.wait with
    | none => exact Or.inl rfl
    | asking => exact Or.inr (fun left same => notAsking left same wait)
    | sleeping delay => exact Or.inr (fun left same => notSleeping left delay same wait)

theorem follow_feed (s : State Raw) (feed : FeedHandler.State Raw) :
    (s.follow feed).feed = feed := by
  unfold State.follow
  split <;> rfl

theorem waitStep_feed {s t : State Raw} (h : waitStep s = some t) : t.feed = s.feed := by
  unfold waitStep at h
  split at h
  · cases h
  · obtain ⟨_, _, rfl⟩ := Option.map_eq_some_iff.mp h
    rfl
  · cases h
    rfl

/-- Without its delays the client is the feed thread. -/
theorem refines_feed (cfg : ReconnectConfig) (parse : Raw → Option T) :
    (producer cfg parse).Refines (FeedHandler.producer parse) State.feed := by
  refine ⟨rfl, fun running pushPc s a t act h => ?_⟩
  rcases next_cases h with ⟨waited, quiet, -⟩ | ⟨feed, stepped, rfl, -⟩
  · exact Or.inl ⟨waitStep_feed waited, quiet⟩
  · refine Or.inr ⟨a, ?_⟩
    rw [follow_feed]
    exact stepped

/-! ## The delays -/

/-- The delay that `n` others precede since the last reset. -/
def backoff (cfg : ReconnectConfig) : Nat → Option UInt32
  | 0 => some cfg.initialDelayMs
  | n + 1 =>
    (backoff cfg n).bind (fun delay =>
      (ReconnectPolicy.toUInt32 (delay.toNat * cfg.multiplier)).map (min · cfg.maxDelayMs))

/-- How many delays there are behind the last reset. -/
def sinceReset (log : List (Option UInt32)) : Nat := (log.reverse.takeWhile Option.isSome).length

def delays (log : List (Option UInt32)) : Nat := log.countP Option.isSome

@[simp] theorem sinceReset_delay (log : List (Option UInt32)) (delay : UInt32) :
    sinceReset (log ++ [some delay]) = sinceReset log + 1 := by
  simp [sinceReset]

@[simp] theorem sinceReset_reset (log : List (Option UInt32)) : sinceReset (log ++ [none]) = 0 := by
  simp [sinceReset]

@[simp] theorem delays_delay (log : List (Option UInt32)) (delay : UInt32) :
    delays (log ++ [some delay]) = delays log + 1 := by
  simp [delays]

@[simp] theorem delays_reset (log : List (Option UInt32)) :
    delays (log ++ [none]) = delays log := by
  simp [delays]

/-- The policy stands where the log says, and each delay in the log was the next one then. -/
structure Timed (cfg : ReconnectConfig) (policy : ReconnectPolicy) (log : List (Option UInt32)) :
    Prop where
  of : ReconnectPolicy.Of cfg policy
  current : backoff cfg (sinceReset log) = some policy.currentDelayMs
  past : ∀ front delay back, log = front ++ some delay :: back →
    backoff cfg (sinceReset front) = some delay

variable {cfg : ReconnectConfig} {policy : ReconnectPolicy} {log : List (Option UInt32)}

theorem timed_initial (cfg : ReconnectConfig) : Timed cfg (.ofConfig cfg) [] where
  of := rfl
  current := rfl
  past := fun front delay back same => by simp at same

/-- An entry of a log with one more is an earlier one or the last. -/
theorem split_snoc {entry : Option UInt32} {front back : List (Option UInt32)} {delay : UInt32}
    (same : log ++ [entry] = front ++ some delay :: back) :
    (∃ back', log = front ++ some delay :: back') ∨ front = log ∧ entry = some delay := by
  rcases List.eq_nil_or_concat' back with rfl | ⟨before, last, rfl⟩
  · obtain ⟨rfl, single⟩ := List.append_inj' same rfl
    exact Or.inr ⟨rfl, List.head_eq_of_cons_eq single⟩
  · rw [← List.cons_append, ← List.append_assoc] at same
    exact Or.inl ⟨before, (List.append_inj' same rfl).1⟩

theorem Timed.reset (timed : Timed cfg policy log) : Timed cfg policy.reset (log ++ [none]) where
  of := by rw [ReconnectPolicy.Of, ReconnectPolicy.reset, timed.of]
  current := by
    have initial : policy.initialDelayMs = cfg.initialDelayMs := by rw [timed.of]; rfl
    rw [sinceReset_reset, ReconnectPolicy.reset, initial]
    rfl
  past := by
    intro front delay back same
    rcases split_snoc same with ⟨back', before⟩ | ⟨-, other⟩
    · exact timed.past front delay back' before
    · cases other

theorem Timed.delay {delay : UInt32} {after : ReconnectPolicy} (timed : Timed cfg policy log)
    (h : policy.nextDelayMs = some (delay, after)) : Timed cfg after (log ++ [some delay]) := by
  have factor : policy.multiplier = cfg.multiplier := by rw [timed.of]; rfl
  have most : policy.maxDelayMs = cfg.maxDelayMs := by rw [timed.of]; rfl
  unfold ReconnectPolicy.nextDelayMs at h
  split at h
  · cases h
  · rename_i product converted
    cases h
    refine ⟨?_, ?_, ?_⟩
    · rw [ReconnectPolicy.Of, timed.of]
    · rw [factor] at converted
      rw [sinceReset_delay, backoff, timed.current, Option.bind_some, converted, most]
      rfl
    · intro front delay back same
      rcases split_snoc same with ⟨back', before⟩ | ⟨rfl, last⟩
      · exact timed.past front delay back' before
      · cases last
        exact timed.current

/-- A whole multiplier doubles, triples and so on, up to the maximum. -/
theorem backoff_whole {m : Nat} (whole : cfg.multiplier = m) (grows : 1 ≤ m)
    (start : cfg.initialDelayMs ≤ cfg.maxDelayMs) (fits : cfg.maxDelayMs.toNat * m < 2 ^ 32)
    (n : Nat) : ∃ delay, backoff cfg n = some delay ∧
      delay.toNat = min (cfg.initialDelayMs.toNat * m ^ n) cfg.maxDelayMs.toNat := by
  induction n with
  | zero =>
    have low := UInt32.le_iff_toNat_le.mp start
    exact ⟨_, rfl, by rw [pow_zero, Nat.mul_one, Nat.min_eq_left low]⟩
  | succ n ih =>
    obtain ⟨delay, before, value⟩ := ih
    have within : delay.toNat * m ≤ cfg.maxDelayMs.toNat * m :=
      Nat.mul_le_mul_right m (by omega)
    have product : (delay.toNat : ℚ) * cfg.multiplier = ((delay.toNat * m : Nat) : ℚ) := by
      rw [whole]
      push_cast
      rfl
    have small : ((delay.toNat * m : Nat) : ℚ) < 2 ^ 32 := by exact_mod_cast (by omega)
    obtain ⟨next, converted⟩ := ReconnectPolicy.toUInt32_of_lt (by positivity) small
    obtain ⟨-, truncated⟩ := ReconnectPolicy.toUInt32_eq_some (by positivity) converted
    rw [Nat.floor_natCast] at truncated
    refine ⟨min next cfg.maxDelayMs, ?_, ?_⟩
    · rw [backoff, before, Option.bind_some, product, converted]
      rfl
    · rw [UInt32.toNat_min, truncated, value, pow_succ, ← Nat.mul_assoc]
      rcases Nat.le_total (cfg.initialDelayMs.toNat * m ^ n) cfg.maxDelayMs.toNat with low | high
      · rw [Nat.min_eq_left low]
      · rw [Nat.min_eq_right high]
        have above := Nat.mul_le_mul_right m high
        have more := Nat.le_mul_of_pos_right cfg.maxDelayMs.toNat grows
        omega

/-! ## The attempts -/

/-- How many attempts there were, by where the thread is. -/
def Begun (attempts slept : Nat) (wait : Wait) : FeedHandler.Pc Raw → Prop
  | .checkRunning => attempts = slept + if wait = .asking then 1 else 0
  | .checkStopped => attempts = slept ∧ wait = .none
  | .exited => slept ≤ attempts ∧ attempts ≤ slept + 1 ∧ wait = .none
  | _ => attempts = slept + 1 ∧ wait = .none

structure Inv (cfg : ReconnectConfig) (s : State Raw) : Prop where
  timed : Timed cfg s.policy s.log
  slept : ∀ delay, s.wait = .sleeping delay → s.log.getLast? = some (some delay)
  begun : Begun s.attempts (delays s.log) s.wait s.feed.pc

theorem initial_inv (cfg : ReconnectConfig) : Inv cfg (initial cfg : State Raw) where
  timed := timed_initial cfg
  slept := fun delay same => by cases same
  begun := rfl

theorem waitStep_inv {s t : State Raw} (inv : Inv cfg s) (h : waitStep s = some t) : Inv cfg t := by
  obtain ⟨timed, slept, begun⟩ := inv
  unfold waitStep at h
  split at h
  · cases h
  · rename_i asking
    obtain ⟨⟨delay, policy⟩, asked, rfl⟩ := Option.map_eq_some_iff.mp h
    refine ⟨timed.delay asked, fun _ same => ?_, ?_⟩
    · cases same
      exact List.getLast?_concat
    · rw [asking] at begun
      cases pc : s.feed.pc <;> simp_all [Begun]
  · rename_i delay sleeping
    cases h
    refine ⟨timed, ?_, ?_⟩
    · intro _ same
      cases same
    rw [sleeping] at begun
    cases pc : s.feed.pc <;> simp_all [Begun]

/-- The thread waits only in front of the test of the outer loop. -/
theorem Inv.awake {s : State Raw} (inv : Inv cfg s) (moved : s.feed.pc ≠ .checkRunning) :
    s.wait = .none := by
  have begun := inv.begun
  cases pc : s.feed.pc with
  | checkRunning => exact absurd pc moved
  | exited =>
    rw [pc] at begun
    exact begun.2.2
  | _ =>
    rw [pc] at begun
    exact begun.2

theorem follow_quiet {s : State Raw} {feed : FeedHandler.State Raw}
    (begins : feed.pc ≠ .connecting)
    (connects : s.feed.pc = .connecting → feed.pc ≠ .readRunning)
    (again : feed.pc ≠ .checkRunning) : s.follow feed = { s with feed := feed } := by
  unfold State.follow
  split
  · rename_i after
    exact absurd after begins
  · rename_i before after
    exact absurd after (connects before)
  · rename_i after
    exact absurd after again
  · rfl

theorem follow_stop (s : State Raw) :
    s.follow { s.feed with stopped := true } =
      { s with feed := { s.feed with stopped := true } } := by
  unfold State.follow
  cases s.feed.pc <;> rfl

/-- Every way of the feed thread is accounted for. -/
theorem follow_inv {parse : Raw → Option T} {running : Bool} {pushPc : SpscQueue.PushPc T}
    {s : State Raw} {feed : FeedHandler.State Raw} {act : Option (PushAction T)}
    (inv : Inv cfg s) (awake : s.wait = .none)
    (turn : FeedHandler.Turn parse running pushPc s.feed feed act) : Inv cfg (s.follow feed) := by
  obtain ⟨timed, slept, begun⟩ := inv
  rw [awake] at begun
  have quiet : feed.pc ≠ .connecting → (s.feed.pc = .connecting → feed.pc ≠ .readRunning) →
      feed.pc ≠ .checkRunning → Begun s.attempts (delays s.log) .none feed.pc →
      Inv cfg (s.follow feed) := by
    intro begins connects again now
    rw [follow_quiet begins connects again]
    exact ⟨timed, slept, by rw [awake]; exact now⟩
  cases turn with
  | test pc =>
    rw [pc] at begun
    exact quiet nofun nofun nofun ⟨begun, rfl⟩
  | connect pc =>
    simp only [State.follow, pc]
    rw [pc] at begun
    exact ⟨timed, slept, congrArg (· + 1) begun.1, awake⟩
  | leave pc =>
    refine quiet nofun nofun nofun ?_
    rcases pc with pc | pc | pc | pc <;> rw [pc] at begun <;> simp [Begun] at begun ⊢ <;> omega
  | connected pc =>
    simp only [State.follow, pc]
    rw [pc] at begun
    refine ⟨timed.reset, fun delay same => ?_, ?_⟩
    · rw [awake] at same
      cases same
    · rw [awake, delays_reset]
      exact begun
  | close pc =>
    refine quiet nofun nofun nofun ?_
    rcases pc with pc | pc | pc | pc <;> rw [pc] at begun <;> exact begun
  | again pc =>
    simp only [State.follow, pc]
    rw [pc] at begun
    exact ⟨timed, nofun, begun.1⟩
  | inPush pc =>
    exact quiet (by rw [pc]; nofun) (by rw [pc]; nofun) (by rw [pc]; nofun) begun
  | look pc | listen pc | received pc | unparsed pc | parsed pc | pushed pc | refused pc
  | recheck pc =>
    rw [pc] at begun
    exact quiet nofun (by rw [pc]; nofun) nofun begun

theorem next_inv {parse : Raw → Option T} {running : Bool} {pushPc : SpscQueue.PushPc T}
    {s t : State Raw} {a : FeedHandler.Action Raw T} {act : Option (PushAction T)}
    (inv : Inv cfg s) (h : next parse running pushPc s a = some (t, act)) : Inv cfg t := by
  rcases next_cases h with ⟨waited, -⟩ | ⟨feed, stepped, rfl, quiet⟩
  · exact waitStep_inv inv waited
  by_cases stop : a = .stop
  · subst stop
    cases stepped
    rw [follow_stop]
    exact ⟨inv.timed, inv.slept, inv.begun⟩
  have turn := (FeedHandler.next_turn stepped).resolve_right (fun h => stop h.1)
  by_cases awake : s.wait = .none
  · exact follow_inv inv awake turn
  -- a thread that waits is in front of the outer test, where nothing but `stop()` reaches it
  have pc : s.feed.pc = .checkRunning := by
    by_contra moved
    exact awake (inv.awake moved)
  cases a with
  | step left => exact absurd rfl (quiet.resolve_left awake left)
  | connected | failed | receive raw => simp [FeedHandler.next, pc] at stepped
  | stop => exact absurd rfl stop

theorem reachable_inv {parse : Raw → Option T} {cap : SpscQueue.Capacity} {blank : T}
    {s : Pipeline.State (State Raw) T}
    (reached : (machine (producer cfg parse) cap blank).Reachable s) : Inv cfg s.producer := by
  refine Machine.invariant (machine (producer cfg parse) cap blank) (fun s => Inv cfg s.producer)
    (initial_inv cfg) ?_ reached
  intro s a t reached inv h
  cases a with
  | producer a =>
    obtain ⟨_, _, _, moves, -, rfl⟩ := producerStep_acted h
    exact next_inv inv moves
  | consumer left =>
    rw [(consumerStep_handled (reachable_handled reached) h).2.2.2.1]
    exact inv
  | shutdown =>
    cases h
    exact inv

theorem follow_policy (s : State Raw) (feed : FeedHandler.State Raw) :
    (s.follow feed).policy = s.policy ∧ (s.follow feed).log = s.log ∨
      (s.follow feed).policy = s.policy.reset ∧ (s.follow feed).log = s.log ++ [none] := by
  unfold State.follow
  split
  · exact Or.inl ⟨rfl, rfl⟩
  · exact Or.inr ⟨rfl, rfl⟩
  · exact Or.inl ⟨rfl, rfl⟩
  · exact Or.inl ⟨rfl, rfl⟩

theorem waitStep_policy {s t : State Raw} (h : waitStep s = some t) :
    t.policy = s.policy ∧ t.log = s.log ∨
      ReconnectPolicy.next ⟨s.policy, s.log⟩ .nextDelayMs = some ⟨t.policy, t.log⟩ := by
  unfold waitStep at h
  split at h
  · cases h
  · obtain ⟨⟨delay, policy⟩, asked, rfl⟩ := Option.map_eq_some_iff.mp h
    exact Or.inr (by simp [ReconnectPolicy.next, asked])
  · cases h
    exact Or.inl ⟨rfl, rfl⟩

/-- The client takes its policy through calls only. -/
theorem reachable_policy {parse : Raw → Option T} {cap : SpscQueue.Capacity} {blank : T}
    {s : Pipeline.State (State Raw) T}
    (reached : (machine (producer cfg parse) cap blank).Reachable s) :
    (ReconnectPolicy.machine cfg).Reachable ⟨s.producer.policy, s.producer.log⟩ := by
  refine Machine.invariant (machine (producer cfg parse) cap blank)
    (fun s => (ReconnectPolicy.machine cfg).Reachable ⟨s.producer.policy, s.producer.log⟩)
    (.start _) ?_ reached
  intro s a t reached calls h
  cases a with
  | producer a =>
    obtain ⟨client, _, _, moves, -, rfl⟩ := producerStep_acted h
    rcases next_cases moves with ⟨waited, -⟩ | ⟨feed, -, rfl, -⟩
    · rcases waitStep_policy waited with ⟨policy, log⟩ | asked
      · simp only [policy, log]
        exact calls
      · exact calls.next (a := .nextDelayMs) asked
    · rcases follow_policy s.producer feed with ⟨policy, log⟩ | ⟨policy, log⟩
      · simp only [policy, log]
        exact calls
      · simp only [policy, log]
        exact calls.next (a := .reset) rfl
  | consumer left =>
    rw [(consumerStep_handled (reachable_handled reached) h).2.2.2.1]
    exact calls
  | shutdown =>
    cases h
    exact calls

/-- With a growing configuration every delay can be converted. -/
theorem nextDelayMs_of_growing {parse : Raw → Option T} {cap : SpscQueue.Capacity} {blank : T}
    {s : Pipeline.State (State Raw) T} (faster : 1 < cfg.multiplier)
    (growing : ReconnectPolicy.Growing cfg)
    (reached : (machine (producer cfg parse) cap blank).Reachable s) :
    s.producer.policy.nextDelayMs ≠ none := by
  intro undefined
  obtain ⟨t, asked, -⟩ := (ReconnectPolicy.reachable_sound faster growing
    (reachable_policy reached)).next faster growing
  simp [ReconnectPolicy.next, undefined] at asked

/-- In every interleaving of the feed thread, the processing loop, `stop()` and the flag,
whatever the exchange does: a delay that `n` delays precede since the last handshake is the
`n`-th of the policy, counted from 0, the thread sleeps for the delay it got last, and it has
begun at most one connection more than it has slept delays. With a whole multiplier `m` of at
least 1, an initial delay up to the maximum and `m` maxima inside 32 bits, the `n`-th delay is
`initial * m ^ n`, or the maximum if that is less. -/
theorem reconnects_paced (cfg : ReconnectConfig) (parse : Raw → Option T)
    (cap : SpscQueue.Capacity) (blank : T) {s : Pipeline.State (State Raw) T}
    (reached : (machine (producer cfg parse) cap blank).Reachable s) :
    (∀ front delay back, s.producer.log = front ++ some delay :: back →
      backoff cfg (sinceReset front) = some delay) ∧
    (∀ delay, s.producer.wait = .sleeping delay →
      s.producer.log.getLast? = some (some delay)) ∧
    (delays s.producer.log ≤ s.producer.attempts ∧
      s.producer.attempts ≤ delays s.producer.log + 1) ∧
    ∀ m : Nat, cfg.multiplier = m → 1 ≤ m → cfg.initialDelayMs ≤ cfg.maxDelayMs →
      cfg.maxDelayMs.toNat * m < 2 ^ 32 →
      ∀ front delay back, s.producer.log = front ++ some delay :: back →
        delay.toNat =
          min (cfg.initialDelayMs.toNat * m ^ sinceReset front) cfg.maxDelayMs.toNat := by
  obtain ⟨timed, slept, begun⟩ := reachable_inv reached
  refine ⟨timed.past, slept, ?_, ?_⟩
  · unfold Begun at begun
    split at begun
    · split_ifs at begun <;> omega
    · omega
    · omega
    · omega
  · intro m whole grows start fits front delay back same
    obtain ⟨delay', nth, value⟩ := backoff_whole whole grows start fits (sinceReset front)
    cases nth.symm.trans (timed.past front delay back same)
    exact value

/-- Two attempts that fail, and a third one that connects and is lost. -/
def flakySchedule : List (Pipeline.Action (FeedHandler.Action Unit Nat) Nat) :=
  let step := .producer (.step 0)
  let failure := [step, step, .producer .failed, step, step, step, step]
  failure ++ failure ++
    [step, step, .producer .connected, step, step, .producer .failed, step, step, step]

theorem reconnects_paced_flaky : ∃ s,
    (machine (producer {} (fun _ => some 7)) FeedHandler.feedQueue 0).run
      (Pipeline.initial (producer {} (fun _ => some 7)) 0) flakySchedule = some s ∧
    s.producer.log = [some 100, some 200, none, some 100] ∧ s.producer.attempts = 3 ∧
    backoff {} 1 = some 200 := by
  have run : ((machine (producer {} (fun _ => some 7)) FeedHandler.feedQueue 0).run
      (Pipeline.initial (producer {} (fun _ => some 7)) 0) flakySchedule).map
        (fun s => (s.producer.log, s.producer.attempts)) =
      some ([some 100, some 200, none, some 100], 3) := by decide +kernel
  obtain ⟨s, run, same⟩ := Option.map_eq_some_iff.mp run
  obtain ⟨log, attempts⟩ := Prod.mk.inj same
  have paced := reconnects_paced {} (fun _ => some 7) FeedHandler.feedQueue 0 ⟨_, run⟩
  exact ⟨s, run, log, attempts, paced.1 [some 100] 200 [none, some 100] log⟩

end WsClient
