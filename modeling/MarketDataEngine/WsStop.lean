import MarketDataEngine.WsDelivery

/-!
# Stopping the WebSocket server

What is still possible once `stop()` has cleared the flag: every thread may finish the one
thing it has begun, the threads of the server have a bounded number of steps left however
the readers run, and until `stop()` returns one of them can take its next step by itself,
unless `stop()` is held up by a client, the port or the snapshot provider. It returns with both
threads gone and at most one client on the list, one that was registered behind the loop that
closes the others.
-/

namespace WsStop

open Transition WsServer WsDelivery

/-! ## How far `stop()` is -/

/-- Once both threads are asked to end; the list is cleared from then on. -/
def Cleared : StopPc → Prop
  | .joinAcceptor | .joinBroadcaster | .returned => True
  | _ => False

/-- The client the acceptor may still register with the flag down and the context stopped. -/
def late : AcceptorPc → Nat
  | .handshake | .registering => 1
  | _ => 0

structure Stopping (s : State) : Prop where
  up : s.stopper = .idle ↔ s.running = true
  stopped : s.stopper ≠ .idle → s.stopper ≠ .stopIoc → s.iocStopped = true
  few : Cleared s.stopper → s.clients.length + late s.acceptor ≤ 1
  acceptor : s.stopper = .joinBroadcaster ∨ s.stopper = .returned → s.acceptor = .exited
  broadcaster : s.stopper = .returned → s.broadcaster = .exited

theorem initial_stopping : Stopping ({} : State) where
  up := ⟨fun _ => rfl, fun _ => rfl⟩
  stopped := fun h => absurd rfl h
  few := fun h => h.elim
  acceptor := fun h => by rcases h with h | h <;> cases h
  broadcaster := fun h => by cases h

theorem Stopping.down {s : State} (stopping : Stopping s) (under : s.stopper ≠ .idle) :
    s.running = false :=
  Bool.eq_false_iff.mpr (fun up => under (stopping.up.mpr up))

theorem Cleared.ioc {s : State} (stopping : Stopping s) (cleared : Cleared s.stopper) :
    s.running = false ∧ s.iocStopped = true := by
  have idle : s.stopper ≠ .idle := fun pc => by rw [pc] at cleared; exact cleared
  have ioc : s.stopper ≠ .stopIoc := fun pc => by rw [pc] at cleared; exact cleared
  exact ⟨stopping.down idle, stopping.stopped idle ioc⟩

theorem stopping_acceptor {controller : Bool} {s t : State} (stopping : Stopping s)
    (turn : AcceptorTurn controller s t) : Stopping t := by
  have running : s.acceptor ≠ .exited := by
    cases turn with
    | bound pc | test pc | accepted pc | stopped pc | handshaken pc | register pc | spawn pc =>
      rw [pc]
      exact AcceptorPc.noConfusion
  have frame : t.stopper = s.stopper ∧ t.running = s.running ∧ t.iocStopped = s.iocStopped ∧
      t.broadcaster = s.broadcaster := by
    cases turn <;> exact ⟨rfl, rfl, rfl, rfl⟩
  obtain ⟨stopper, flag, ioc, broadcaster⟩ := frame
  refine ⟨by rw [stopper, flag]; exact stopping.up, ?_, ?_, ?_, ?_⟩
  · rw [stopper, ioc]
    exact stopping.stopped
  · rw [stopper]
    intro cleared
    have few := stopping.few cleared
    obtain ⟨down, halted⟩ := Cleared.ioc stopping cleared
    cases turn with
    | bound pc | handshaken pc =>
      rw [pc] at few
      dsimp only
      split_ifs <;> simp only [late] at few ⊢ <;> omega
    | test pc =>
      rw [pc] at few
      rw [down]
      exact few
    | accepted pc up =>
      rw [halted] at up
      cases up
    | stopped pc | spawn pc =>
      rw [pc] at few
      exact few
    | register pc =>
      rw [pc] at few
      have room : (s.clients ++ [s.fresh]).length ≤ 1 := by
        rw [List.length_append]
        exact few
      dsimp only
      split_ifs <;> exact room
  · rw [stopper]
    exact fun gone => absurd (stopping.acceptor gone) running
  · rw [stopper, broadcaster]
    exact stopping.broadcaster

theorem stopping_broadcaster {s t : State} (inv : Inv s) (stopping : Stopping s)
    (turn : BroadcasterTurn s t) : Stopping t := by
  have running : s.broadcaster ≠ .exited := by
    cases turn with
    | test pc | wake pc | retest pc | nothing pc | provided pc | publish pc | serve pc | skip pc
    | written pc | failed pc | sent pc | lock pc | keep pc | drop pc | removed pc =>
      rw [pc]
      exact BroadcasterPc.noConfusion
  have frame : t.stopper = s.stopper ∧ t.running = s.running ∧ t.iocStopped = s.iocStopped ∧
      t.acceptor = s.acceptor := by
    cases turn <;> exact ⟨rfl, rfl, rfl, rfl⟩
  obtain ⟨stopper, flag, ioc, acceptor⟩ := frame
  have fewer : t.clients.length ≤ s.clients.length := by
    cases turn with
    | @removed kept pc =>
      have round := inv.round
      rw [pc] at round
      obtain ⟨front, split, sublist, -⟩ := round
      rw [split, List.append_nil]
      exact sublist.length_le
    | _ => exact Nat.le_refl _
  refine ⟨by rw [stopper, flag]; exact stopping.up, ?_, ?_, ?_, ?_⟩
  · rw [stopper, ioc]
    exact stopping.stopped
  · rw [stopper, acceptor]
    intro cleared
    have few := stopping.few cleared
    omega
  · rw [stopper, acceptor]
    exact stopping.acceptor
  · rw [stopper]
    exact fun gone => absurd (stopping.broadcaster gone) running

theorem stopping_reader {s t : State} {id : Nat} (stopping : Stopping s)
    (turn : ReaderTurn s id t) : Stopping t := by
  cases turn <;> exact ⟨stopping.up, stopping.stopped, stopping.few, stopping.acceptor,
    stopping.broadcaster⟩

theorem stopping_call {s t : State} (stopping : Stopping s) (turn : CallTurn s t) :
    Stopping t := by
  cases turn with
  | first pc up =>
    exact ⟨by simp, fun _ h => absurd rfl h, fun h => h.elim, by simp, by simp⟩
  | again pc down =>
    have returned : s.stopper = .returned := by
      rcases pc with idle | returned
      · rw [stopping.up.mp idle] at down
        cases down
      · exact returned
    have few := stopping.few (by rw [returned]; trivial)
    have halted := stopping.stopped (by simp [returned]) (by simp [returned])
    exact ⟨by simp, fun _ _ => halted, fun _ => few,
      fun _ => stopping.acceptor (Or.inr returned), fun _ => stopping.broadcaster returned⟩

theorem stopping_stopper {s t : State} (stopping : Stopping s) (turn : StopperTurn s t) :
    Stopping t := by
  cases turn with
  | ioc pc =>
    have down := stopping.down (by simp [pc])
    exact ⟨by simp [down], fun _ _ => rfl, fun h => h.elim, by simp, by simp⟩
  | lock pc | close pc =>
    have down := stopping.down (by simp [pc])
    have halted := stopping.stopped (by simp [pc]) (by simp [pc])
    exact ⟨by simp [down, State.kill, State.setClient], fun _ _ => halted, fun h => h.elim,
      by simp, by simp⟩
  | clear pc =>
    have down := stopping.down (by simp [pc])
    have halted := stopping.stopped (by simp [pc]) (by simp [pc])
    refine ⟨by simp [down], fun _ _ => halted, fun _ => ?_, by simp, by simp⟩
    change 0 + late s.acceptor ≤ 1
    cases s.acceptor <;> simp [late]
  | joinAcceptor pc exited =>
    have down := stopping.down (by simp [pc])
    have halted := stopping.stopped (by simp [pc]) (by simp [pc])
    have few := stopping.few (by rw [pc]; trivial)
    exact ⟨by simp [down], fun _ _ => halted, fun _ => few, fun _ => exited, by simp⟩
  | joinBroadcaster pc exited =>
    have down := stopping.down (by simp [pc])
    have halted := stopping.stopped (by simp [pc]) (by simp [pc])
    have few := stopping.few (by rw [pc]; trivial)
    exact ⟨by simp [down], fun _ _ => halted, fun _ => few,
      fun _ => stopping.acceptor (Or.inl pc), fun _ => exited⟩

theorem next_stopping {controller : Bool} {s t : State} {a : Action} (inv : Inv s)
    (stopping : Stopping s) (h : next controller s a = some t) : Stopping t := by
  have turn := next_turn h
  cases a with
  | bound | accepted | handshaken | acceptor => exact stopping_acceptor stopping turn
  | provided | written | broadcaster => exact stopping_broadcaster inv stopping turn
  | stop => exact stopping_call stopping turn
  | stopper | closed => exact stopping_stopper stopping turn
  | received | readFailed | reader => exact stopping_reader stopping turn

theorem reachable_stopping {controller : Bool} {s : State}
    (reached : (machine controller).Reachable s) : Stopping s :=
  Machine.invariant (machine controller) Stopping initial_stopping
    (fun _ _ _ reached stopping h => next_stopping (reachable_inv reached) stopping h) reached

/-! ## What is left to do -/

/-- The steps to the exit of the acceptor with the flag down. A registration makes the
rounds over the list longer, and pays for that. -/
def acceptorWork : AcceptorPc → Nat
  | .exited => 0
  | .checkRunning => 1
  | .starting | .spawning _ => 2
  | .registering => 7
  | .handshake => 8
  | .accepting => 9

/-- The steps to the exit of the broadcaster with the flag down and `n` clients listed. -/
def broadcasterWork (n : Nat) : BroadcasterPc → Nat
  | .exited => 0
  | .checkRunning | .recheckRunning => 1
  | .sleeping => 2
  | .removing _ rest => rest.length + 2
  | .lockingRemove => n + 3
  | .sending _ rest => 2 * rest.length + n + 4
  | .writing _ _ rest => 2 * rest.length + n + 5
  | .locking _ => 3 * n + 5
  | .providing => 3 * n + 6

/-- The steps of `stop()` to its return. -/
def stopperWork (n : Nat) : StopPc → Nat
  | .idle | .returned => 0
  | .joinBroadcaster => 1
  | .joinAcceptor => 2
  | .closing rest => rest.length + 3
  | .locking => n + 4
  | .stopIoc => n + 5

def work (s : State) : Nat :=
  acceptorWork s.acceptor + broadcasterWork s.clients.length s.broadcaster +
    stopperWork s.clients.length s.stopper

/-- The steps that the threads of the server and `stop()` take by themselves. -/
def own : Action → Bool
  | .acceptor | .broadcaster | .stopper => true
  | _ => false

/-- What a thread of the server, or `stop()`, waits for from outside. -/
def answer : Action → Bool
  | .bound _ | .accepted _ | .handshaken _ | .provided _ | .written _ | .closed => true
  | _ => false

/-- The readers, and calls of `stop()` behind the first, cost the server nothing. -/
def cost (a : Action) : Nat := if own a || answer a then 1 else 0

theorem acceptorWork_le (pc : AcceptorPc) : acceptorWork pc ≤ 9 := by
  cases pc <;> simp [acceptorWork]

theorem broadcasterWork_mono {m n : Nat} (le : m ≤ n) (pc : BroadcasterPc) :
    broadcasterWork m pc ≤ broadcasterWork n pc := by
  cases pc <;> simp only [broadcasterWork] <;> omega

theorem broadcasterWork_grow (n : Nat) (pc : BroadcasterPc) :
    broadcasterWork (n + 1) pc ≤ broadcasterWork n pc + 3 := by
  cases pc <;> simp only [broadcasterWork] <;> omega

theorem stopperWork_mono {m n : Nat} (le : m ≤ n) (pc : StopPc) :
    stopperWork m pc ≤ stopperWork n pc := by
  cases pc <;> simp only [stopperWork] <;> omega

theorem stopperWork_grow (n : Nat) (pc : StopPc) :
    stopperWork (n + 1) pc ≤ stopperWork n pc + 1 := by
  cases pc <;> simp only [stopperWork] <;> omega

/-- The list bounds what is left of a round over it. -/
theorem work_le {s : State} (inv : Inv s) : work s ≤ 4 * s.clients.length + 20 := by
  have acceptor := acceptorWork_le s.acceptor
  have broadcaster : broadcasterWork s.clients.length s.broadcaster ≤
      3 * s.clients.length + 6 := by
    have round := inv.round
    cases pc : s.broadcaster with
    | sending msg rest =>
      rw [pc] at round
      have inside := round.1.length_le
      simp only [broadcasterWork]
      omega
    | writing msg id rest =>
      rw [pc] at round
      have inside := round.1.length_le
      rw [List.length_cons] at inside
      simp only [broadcasterWork]
      omega
    | removing kept rest =>
      rw [pc] at round
      obtain ⟨front, split, -⟩ := round
      simp only [broadcasterWork, split, List.length_append]
      omega
    | _ =>
      simp only [broadcasterWork]
      omega
  have stopper : stopperWork s.clients.length s.stopper ≤ s.clients.length + 5 := by
    have closing := inv.closing
    cases pc : s.stopper with
    | closing rest =>
      rw [pc] at closing
      obtain ⟨front, split, -⟩ := closing
      simp only [stopperWork, split, List.length_append]
      omega
    | _ =>
      simp only [stopperWork]
      omega
  unfold work
  omega

theorem acceptor_work {controller : Bool} {s t : State} (down : s.running = false)
    (turn : AcceptorTurn controller s t) : work t + 1 ≤ work s := by
  cases turn with
  | @bound ok pc =>
    simp only [work, pc, acceptorWork]
    cases ok <;> simp only [if_true, Bool.false_eq_true, if_false] <;> omega
  | @accepted ok pc | @handshaken ok pc =>
    simp only [work, pc, acceptorWork]
    cases ok <;> simp only [if_true, Bool.false_eq_true, if_false] <;> omega
  | test pc =>
    simp only [work, pc, down, acceptorWork, Bool.false_eq_true, if_false]
    omega
  | stopped pc =>
    simp only [work, pc, acceptorWork]
    omega
  | spawn pc =>
    simp only [work, pc, acceptorWork, State.setClient]
    omega
  | register pc =>
    have broadcaster := broadcasterWork_grow s.clients.length s.broadcaster
    have stopper := stopperWork_grow s.clients.length s.stopper
    simp only [work, pc, acceptorWork, State.register, List.length_append, List.length_singleton]
    cases controller <;> simp only [if_true, Bool.false_eq_true, if_false] <;> omega

theorem broadcaster_work {s t : State} (inv : Inv s) (down : s.running = false)
    (turn : BroadcasterTurn s t) : work t + 1 ≤ work s := by
  cases turn with
  | test pc | retest pc =>
    simp only [work, pc, down, broadcasterWork, Bool.false_eq_true, if_false]
    omega
  | wake pc | nothing pc | provided pc | publish pc | skip pc | sent pc | lock pc | serve pc
  | keep pc | drop pc =>
    simp only [work, pc, broadcasterWork, List.length_cons, List.length_nil]
    omega
  | written pc | failed pc =>
    simp only [work, pc, broadcasterWork, State.kill, State.setClient]
    omega
  | @removed kept pc =>
    have round := inv.round
    rw [pc] at round
    obtain ⟨front, split, sublist, -⟩ := round
    have fewer : kept.length ≤ s.clients.length := by
      rw [split, List.append_nil]
      exact sublist.length_le
    have stopper := stopperWork_mono fewer s.stopper
    simp only [work, pc, broadcasterWork, List.length_nil]
    omega

theorem stopper_work {s t : State} (turn : StopperTurn s t) : work t + 1 ≤ work s := by
  cases turn with
  | ioc pc | lock pc | joinAcceptor pc | joinBroadcaster pc =>
    simp only [work, pc, stopperWork]
    omega
  | close pc =>
    simp only [work, pc, stopperWork, State.kill, State.setClient, List.length_cons]
    omega
  | clear pc =>
    have broadcaster := broadcasterWork_mono (Nat.zero_le s.clients.length) s.broadcaster
    simp only [work, pc, stopperWork, List.length_nil]
    omega

theorem call_work {s t : State} (down : s.running = false) (turn : CallTurn s t) :
    work t ≤ work s := by
  cases turn with
  | first pc up =>
    rw [down] at up
    cases up
  | again pc down =>
    rcases pc with pc | pc <;> simp [work, pc, stopperWork]

theorem reader_work {s t : State} {id : Nat} (turn : ReaderTurn s id t) : work t = work s := by
  cases turn <;> rfl

/-- With the flag down, what is left of the server's work pays for each of its steps. -/
theorem next_work {controller : Bool} {s t : State} {a : Action} (inv : Inv s)
    (down : s.running = false) (h : next controller s a = some t) :
    t.running = false ∧ work t + cost a ≤ work s := by
  have turn := next_turn h
  cases a with
  | bound | accepted | handshaken | acceptor =>
    refine ⟨?_, acceptor_work down turn⟩
    cases turn <;> exact down
  | provided | written | broadcaster =>
    refine ⟨?_, broadcaster_work inv down turn⟩
    cases turn <;> exact down
  | stop =>
    refine ⟨?_, call_work down turn⟩
    cases turn <;> rfl
  | stopper | closed =>
    refine ⟨?_, stopper_work turn⟩
    cases turn <;> exact down
  | received | readFailed | reader =>
    refine ⟨?_, Nat.le_of_eq (reader_work turn)⟩
    cases turn <;> exact down

/-! ## Who waits -/

/-- `stop()`, or the thread it waits for, waits for an answer from outside. -/
inductive HeldUp (s : State) : Prop
  | client {id : Nat} {rest : List Nat} (pc : s.stopper = .closing (id :: rest))
  | lock (pc : s.stopper = .locking) (writing : serving s.broadcaster ≠ none)
  | acceptor (pc : s.stopper = .joinAcceptor)
    (waits : s.acceptor = .starting ∨ s.acceptor = .handshake ∨
      s.acceptor = .registering ∧ serving s.broadcaster ≠ none)
  | broadcaster (pc : s.stopper = .joinBroadcaster)
    (waits : s.broadcaster = .providing ∨ serving s.broadcaster ≠ none)

/-- A broadcaster with the lock can go on unless it writes to a client. -/
theorem exists_holderStep {s : State} (holds : s.broadcaster.holds = true)
    (free : serving s.broadcaster = none) : ∃ t, broadcasterStep s = some t := by
  cases pc : s.broadcaster with
  | sending msg rest =>
    cases rest with
    | nil => exact ⟨_, by simp only [broadcasterStep, pc]; rfl⟩
    | cons id rest => exact ⟨_, by simp only [broadcasterStep, pc]; rfl⟩
  | writing msg id rest =>
    rw [pc] at free
    cases free
  | removing kept rest =>
    cases rest with
    | nil => exact ⟨_, by simp only [broadcasterStep, pc]; rfl⟩
    | cons id rest => exact ⟨_, by simp only [broadcasterStep, pc]; rfl⟩
  | _ =>
    rw [pc] at holds
    cases holds

/-- Whoever waits for the lock waits for the broadcaster. -/
theorem exists_lockedStep {s : State} (closing : s.stopper.holds = false)
    (locked : s.locked = true) (free : serving s.broadcaster = none) :
    ∃ t, broadcasterStep s = some t := by
  rw [State.locked, closing, Bool.or_false] at locked
  exact exists_holderStep locked free

theorem exists_acceptorStep {controller : Bool} {s : State} (ioc : s.iocStopped = true)
    (closing : s.stopper.holds = false) (running : s.acceptor ≠ .exited)
    (free : ¬ (s.acceptor = .starting ∨ s.acceptor = .handshake ∨
      s.acceptor = .registering ∧ serving s.broadcaster ≠ none)) :
    ∃ a t, own a = true ∧ next controller s a = some t := by
  cases pc : s.acceptor with
  | exited => exact absurd pc running
  | starting => exact absurd (Or.inl pc) free
  | handshake => exact absurd (Or.inr (Or.inl pc)) free
  | checkRunning | spawning id =>
    exact ⟨.acceptor, _, rfl, by simp only [next, acceptorStep, pc]; rfl⟩
  | accepting => exact ⟨.acceptor, _, rfl, by simp only [next, acceptorStep, pc, ioc]; rfl⟩
  | registering =>
    cases locked : s.locked with
    | true =>
      have idle : serving s.broadcaster = none := by
        by_contra writing
        exact free (Or.inr (Or.inr ⟨pc, writing⟩))
      obtain ⟨t, moved⟩ := exists_lockedStep closing locked idle
      exact ⟨.broadcaster, t, rfl, moved⟩
    | false => exact ⟨.acceptor, _, rfl, by simp only [next, acceptorStep, pc, locked]; rfl⟩

theorem exists_broadcasterStep {s : State} (closing : s.stopper.holds = false)
    (running : s.broadcaster ≠ .exited)
    (free : ¬ (s.broadcaster = .providing ∨ serving s.broadcaster ≠ none)) :
    ∃ t, broadcasterStep s = some t := by
  obtain ⟨ready, idle⟩ := not_or.mp free
  cases holds : s.broadcaster.holds with
  | true => exact exists_holderStep holds (not_not.mp idle)
  | false =>
    have unlocked : s.locked = false := unlocked_iff.mpr ⟨holds, closing⟩
    cases pc : s.broadcaster with
    | exited => exact absurd pc running
    | providing => exact absurd pc ready
    | checkRunning | sleeping | recheckRunning =>
      exact ⟨_, by simp only [broadcasterStep, pc]; rfl⟩
    | locking msg | lockingRemove =>
      exact ⟨_, by simp only [broadcasterStep, pc, unlocked]; rfl⟩
    | sending msg rest | writing msg id rest | removing kept rest =>
      rw [pc] at holds
      cases holds

/-- Unless it is held up, `stop()` or the thread it waits for can go on. -/
theorem exists_step {controller : Bool} {s : State} (stopping : Stopping s)
    (under : s.stopper ≠ .idle) (open' : s.stopper ≠ .returned) (free : ¬ HeldUp s) :
    ∃ a t, own a = true ∧ next controller s a = some t := by
  have halted := stopping.stopped under
  cases pc : s.stopper with
  | idle => exact absurd pc under
  | returned => exact absurd pc open'
  | stopIoc => exact ⟨.stopper, _, rfl, by simp only [next, stopperStep, pc]; rfl⟩
  | locking =>
    cases locked : s.locked with
    | true =>
      have idle : serving s.broadcaster = none := by
        by_contra writing
        exact free (.lock pc writing)
      obtain ⟨t, moved⟩ := exists_lockedStep (by rw [pc]; rfl) locked idle
      exact ⟨.broadcaster, t, rfl, moved⟩
    | false => exact ⟨.stopper, _, rfl, by simp only [next, stopperStep, pc, locked]; rfl⟩
  | closing rest =>
    cases rest with
    | nil => exact ⟨.stopper, _, rfl, by simp only [next, stopperStep, pc]; rfl⟩
    | cons id rest => exact absurd (.client pc) free
  | joinAcceptor =>
    by_cases exited : s.acceptor = .exited
    · exact ⟨.stopper, _, rfl, by simp only [next, stopperStep, pc, exited]; rfl⟩
    · exact exists_acceptorStep (halted (by simp [pc])) (by rw [pc]; rfl) exited
        (fun waits => free (.acceptor pc waits))
  | joinBroadcaster =>
    by_cases exited : s.broadcaster = .exited
    · exact ⟨.stopper, _, rfl, by simp only [next, stopperStep, pc, exited]; rfl⟩
    · obtain ⟨t, moved⟩ := exists_broadcasterStep (by rw [pc]; rfl) exited
        (fun waits => free (.broadcaster pc waits))
      exact ⟨.broadcaster, t, rfl, moved⟩

/-- The broadcaster cannot go on while it writes to a client, and has the lock. -/
theorem blocked_writing {s : State} (writing : serving s.broadcaster ≠ none) :
    broadcasterStep s = none ∧ s.locked = true := by
  cases pc : s.broadcaster with
  | writing msg id rest => simp [broadcasterStep, State.locked, BroadcasterPc.holds, pc]
  | _ =>
    rw [pc] at writing
    exact absurd rfl writing

/-- While `stop()` is held up it cannot go on. -/
theorem heldUp_stopper {s : State} (held : HeldUp s) : stopperStep s = none := by
  cases held with
  | client pc => simp [stopperStep, pc]
  | lock pc writing => simp [stopperStep, pc, (blocked_writing writing).2]
  | acceptor pc waits => rcases waits with pc' | pc' | ⟨pc', -⟩ <;> simp [stopperStep, pc, pc']
  | broadcaster pc waits =>
    rcases waits with pc' | writing
    · simp [stopperStep, pc, pc']
    · have running : s.broadcaster ≠ .exited := fun exited => writing (by rw [exited]; rfl)
      simp [stopperStep, pc, running]

/-- The acceptor going on does not help, and is not what `stop()` waits for. -/
theorem heldUp_acceptor {controller : Bool} {s t : State} (held : HeldUp s)
    (h : acceptorStep controller s = some t) : HeldUp t ∧ t.stopper = s.stopper := by
  have frame : t.stopper = s.stopper ∧ t.broadcaster = s.broadcaster := by
    cases acceptorStep_turn h <;> exact ⟨rfl, rfl⟩
  obtain ⟨stopper, broadcaster⟩ := frame
  refine ⟨?_, stopper⟩
  cases held with
  | client pc => exact .client (stopper.trans pc)
  | lock pc writing => exact .lock (stopper.trans pc) (broadcaster ▸ writing)
  | broadcaster pc waits => exact .broadcaster (stopper.trans pc) (broadcaster ▸ waits)
  | acceptor pc waits =>
    exfalso
    rcases waits with pc' | pc' | ⟨pc', writing⟩
    · simp [acceptorStep, pc'] at h
    · simp [acceptorStep, pc'] at h
    · simp [acceptorStep, pc', (blocked_writing writing).2] at h

theorem heldUp_broadcaster {s t : State} (held : HeldUp s)
    (h : broadcasterStep s = some t) : HeldUp t ∧ t.stopper = s.stopper := by
  have frame : t.stopper = s.stopper ∧ t.acceptor = s.acceptor := by
    cases broadcasterStep_turn h <;> exact ⟨rfl, rfl⟩
  obtain ⟨stopper, acceptor⟩ := frame
  have idle : serving s.broadcaster = none := by
    by_contra writing
    cases (blocked_writing writing).1.symm.trans h
  refine ⟨?_, stopper⟩
  cases held with
  | client pc => exact .client (stopper.trans pc)
  | lock pc writing => exact absurd idle writing
  | acceptor pc waits =>
    refine .acceptor (stopper.trans pc) ?_
    rw [acceptor]
    rcases waits with pc' | pc' | ⟨-, writing⟩
    · exact Or.inl pc'
    · exact Or.inr (Or.inl pc')
    · exact absurd idle writing
  | broadcaster pc waits =>
    rcases waits with pc' | writing
    · simp [broadcasterStep, pc'] at h
    · exact absurd idle writing

/-- As long as no answer comes, `stop()` stays where it is. -/
theorem heldUp_next {controller : Bool} {s t : State} {a : Action} (held : HeldUp s)
    (silent : answer a = false) (h : next controller s a = some t) :
    HeldUp t ∧ t.stopper = s.stopper := by
  cases a with
  | bound | accepted | handshaken | provided | written | closed => cases silent
  | acceptor => exact heldUp_acceptor held h
  | broadcaster => exact heldUp_broadcaster held h
  | stopper => cases (heldUp_stopper held).symm.trans h
  | stop =>
    have called : s.stopper = .idle ∨ s.stopper = .returned := by
      cases callStop_turn h with
      | first pc | again pc => exact pc
    exfalso
    cases held with
    | client pc | lock pc | acceptor pc | broadcaster pc =>
      rcases called with pc' | pc' <;> rw [pc] at pc' <;> cases pc'
  | received | readFailed | reader =>
    have frame : t.stopper = s.stopper ∧ t.acceptor = s.acceptor ∧
        t.broadcaster = s.broadcaster := by
      cases next_turn h <;> exact ⟨rfl, rfl, rfl⟩
    obtain ⟨stopper, acceptor, broadcaster⟩ := frame
    refine ⟨?_, stopper⟩
    cases held with
    | client pc => exact .client (stopper.trans pc)
    | lock pc writing => exact .lock (stopper.trans pc) (broadcaster ▸ writing)
    | acceptor pc waits =>
      exact .acceptor (stopper.trans pc) (by rw [acceptor, broadcaster]; exact waits)
    | broadcaster pc waits => exact .broadcaster (stopper.trans pc) (broadcaster ▸ waits)

theorem heldUp_run {controller : Bool} {as : List Action} {s t : State} (held : HeldUp s)
    (silent : ∀ a ∈ as, answer a = false) (run : (machine controller).run s as = some t) :
    t.stopper = s.stopper := by
  induction as generalizing s with
  | nil =>
    cases run
    rfl
  | cons a rest ih =>
    obtain ⟨first, others⟩ := List.forall_mem_cons.mp silent
    obtain ⟨m, moved, later⟩ := Machine.run_cons_some.mp run
    obtain ⟨held', same⟩ := heldUp_next held first moved
    exact (ih held' others later).trans same

/-- Once `stop()` has cleared the flag, in every interleaving with any readers, clients and
snapshots: the server's threads and `stop()` together take at most 20 more steps and 4 for
each client on the list, those counted that wait for an answer from outside. Until `stop()` has
returned one of them can take a step by itself, unless `stop()` is held up; and then it stays
where it is as long as no answer comes, whatever the others do. -/
theorem stop_terminates (controller : Bool) {as : List Action} {s t : State}
    (reached : (machine controller).Reachable s) (down : s.running = false)
    (run : (machine controller).run s as = some t) :
    (as.map cost).sum ≤ 4 * s.clients.length + 20 ∧
      (t.stopper = .returned ∨ HeldUp t ∨ ∃ a u, own a = true ∧ next controller t a = some u) ∧
      (HeldUp t → ∀ bs u, (∀ b ∈ bs, answer b = false) →
        (machine controller).run t bs = some u → u.stopper = t.stopper) := by
  have budget := work_le (reachable_inv reached)
  obtain ⟨⟨reached', down'⟩, paid⟩ := Machine.run_budget (M := machine controller)
    (P := fun s => (machine controller).Reachable s ∧ s.running = false)
    (fun s a t ⟨reached, down⟩ h =>
      ⟨⟨reached.next h, (next_work (reachable_inv reached) down h).1⟩,
        (next_work (reachable_inv reached) down h).2⟩)
    ⟨reached, down⟩ run
  refine ⟨by omega, ?_, fun held bs u silent later => heldUp_run held silent later⟩
  by_cases returned : t.stopper = .returned
  · exact Or.inl returned
  · by_cases held : HeldUp t
    · exact Or.inr (Or.inl held)
    · have stopping := reachable_stopping reached'
      refine Or.inr (Or.inr (exists_step stopping (fun idle => ?_) returned held))
      rw [stopping.up.mp idle] at down'
      cases down'

/-! ## What still happens -/

/-- The snapshot that may still be published. -/
def lastSnapshot : BroadcasterPc → Nat
  | .providing | .locking _ => 1
  | _ => 0

/-- The client that may still be registered. -/
def lastClient : AcceptorPc → Nat
  | .accepting | .handshake | .registering => 1
  | _ => 0

/-- The command that may still be executed. -/
def lastCommand : ReaderPc → Nat
  | .reading | .executing _ => 1
  | _ => 0

/-- All that a client's reader has executed, or may still. -/
def commands (client : Client) : Nat := client.executed.length + lastCommand client.reader

structure Fewer (s t : State) : Prop where
  published : t.published.length + lastSnapshot t.broadcaster ≤
    s.published.length + lastSnapshot s.broadcaster
  fresh : t.fresh + lastClient t.acceptor ≤ s.fresh + lastClient s.acceptor
  executed : ∀ id, commands (t.heap id) ≤ commands (s.heap id)

theorem commands_update {heap : Nat → Client} {id : Nat} {client : Client}
    (fewer : commands client ≤ commands (heap id)) (j : Nat) :
    commands (Function.update heap id client j) ≤ commands (heap j) := by
  by_cases same : j = id
  · subst same
    rwa [Function.update_self]
  · exact Nat.le_of_eq (by rw [Function.update_of_ne same])

theorem acceptor_fewer {controller : Bool} {s t : State} (down : s.running = false)
    (turn : AcceptorTurn controller s t) : Fewer s t := by
  cases turn with
  | @bound ok pc | @accepted ok pc | @handshaken ok pc =>
    refine ⟨Nat.le_refl _, ?_, fun _ => Nat.le_refl _⟩
    cases ok <;> simp [pc, lastClient]
  | test pc => exact ⟨Nat.le_refl _, by simp [pc, down, lastClient], fun _ => Nat.le_refl _⟩
  | stopped pc => exact ⟨Nat.le_refl _, by simp [pc, lastClient], fun _ => Nat.le_refl _⟩
  | register pc =>
    refine ⟨Nat.le_refl _, ?_, fun id => commands_update (Nat.zero_le _) id⟩
    cases controller <;> simp [pc, lastClient, State.register]
  | spawn pc =>
    refine ⟨Nat.le_refl _, by simp [pc, lastClient, State.setClient], fun id => ?_⟩
    exact commands_update (Nat.le_add_right _ _) id

theorem broadcaster_fewer {s t : State} (down : s.running = false) (turn : BroadcasterTurn s t) :
    Fewer s t := by
  cases turn with
  | test pc | retest pc =>
    exact ⟨by simp [pc, down, lastSnapshot], Nat.le_refl _, fun _ => Nat.le_refl _⟩
  | publish pc => exact ⟨by simp [pc, lastSnapshot], Nat.le_refl _, fun _ => Nat.le_refl _⟩
  | written pc | failed pc =>
    refine ⟨by simp [pc, lastSnapshot, State.kill, State.setClient], Nat.le_refl _,
      fun id => commands_update ?_ id⟩
    exact Nat.le_refl _
  | wake pc | nothing pc | provided pc | serve pc | skip pc | sent pc | lock pc | keep pc
  | drop pc | removed pc =>
    exact ⟨by simp [pc, lastSnapshot], Nat.le_refl _, fun _ => Nat.le_refl _⟩

theorem stopper_fewer {s t : State} (turn : StopperTurn s t) : Fewer s t := by
  cases turn with
  | close pc =>
    refine ⟨Nat.le_refl _, Nat.le_refl _, fun id => commands_update ?_ id⟩
    exact Nat.le_refl _
  | _ => exact ⟨Nat.le_refl _, Nat.le_refl _, fun _ => Nat.le_refl _⟩

theorem call_fewer {s t : State} (turn : CallTurn s t) : Fewer s t := by
  cases turn <;> exact ⟨Nat.le_refl _, Nat.le_refl _, fun _ => Nat.le_refl _⟩

theorem reader_fewer {s t : State} {id : Nat} (down : s.running = false)
    (turn : ReaderTurn s id t) : Fewer s t := by
  cases turn with
  | look pc =>
    refine ⟨Nat.le_refl _, Nat.le_refl _, fun id => commands_update ?_ id⟩
    cases (s.heap _).alive <;> simp [commands, pc, lastCommand]
  | test pc | received pc | failed pc | executed pc | left pc =>
    refine ⟨Nat.le_refl _, Nat.le_refl _, fun id => commands_update ?_ id⟩
    simp [commands, pc, lastCommand, down]

theorem next_fewer {controller : Bool} {s t : State} {a : Action} (down : s.running = false)
    (h : next controller s a = some t) : Fewer s t := by
  have turn := next_turn h
  cases a with
  | bound | accepted | handshaken | acceptor => exact acceptor_fewer down turn
  | provided | written | broadcaster => exact broadcaster_fewer down turn
  | stop => exact call_fewer turn
  | stopper | closed => exact stopper_fewer turn
  | received | readFailed | reader => exact reader_fewer down turn

theorem Fewer.trans {s m t : State} (first : Fewer s m) (later : Fewer m t) : Fewer s t where
  published := Nat.le_trans later.published first.published
  fresh := Nat.le_trans later.fresh first.fresh
  executed := fun id => Nat.le_trans (later.executed id) (first.executed id)

theorem run_fewer {controller : Bool} {as : List Action} {s t : State}
    (inv : Inv s) (down : s.running = false) (run : (machine controller).run s as = some t) :
    Fewer s t := by
  induction as generalizing s with
  | nil =>
    cases run
    exact ⟨Nat.le_refl _, Nat.le_refl _, fun _ => Nat.le_refl _⟩
  | cons a rest ih =>
    obtain ⟨m, first, later⟩ := Machine.run_cons_some.mp run
    obtain ⟨down', -⟩ := next_work inv down first
    exact (next_fewer down first).trans (ih (WsDelivery.next_inv inv first) down' later)

/-- Once `stop()` has cleared the flag, in every interleaving: at most one more snapshot is
published, at most one more client is registered, and each reader executes at most one more
command. -/
theorem stop_finishes (controller : Bool) {as : List Action} {s t : State}
    (reached : (machine controller).Reachable s) (down : s.running = false)
    (run : (machine controller).run s as = some t) :
    t.published.length ≤ s.published.length + 1 ∧ t.fresh ≤ s.fresh + 1 ∧
      ∀ id, (t.heap id).executed.length ≤ (s.heap id).executed.length + 1 := by
  obtain ⟨published, fresh, executed⟩ := run_fewer (reachable_inv reached) down run
  have snapshot : lastSnapshot s.broadcaster ≤ 1 := by
    cases s.broadcaster <;> simp [lastSnapshot]
  have client : lastClient s.acceptor ≤ 1 := by
    cases s.acceptor <;> simp [lastClient]
  refine ⟨by omega, by omega, fun id => ?_⟩
  have bound := executed id
  have command : lastCommand (s.heap id).reader ≤ 1 := by
    cases (s.heap id).reader <;> simp [lastCommand]
  unfold commands at bound
  omega

/-- When `stop()` has returned, both threads of the server are gone, and of all clients
that were ever registered at most one is still alive, which is then the only one on the
list. -/
theorem stop_leaves (controller : Bool) {s : State}
    (reached : (machine controller).Reachable s) (returned : s.stopper = .returned) :
    s.acceptor = .exited ∧ s.broadcaster = .exited ∧ s.clients.length ≤ 1 ∧
      ∀ id < s.fresh, (s.heap id).alive = true → s.clients = [id] := by
  have stopping := reachable_stopping reached
  have few := stopping.few (by rw [returned]; trivial)
  refine ⟨stopping.acceptor (Or.inr returned), stopping.broadcaster returned, by omega, ?_⟩
  intro id known alive
  have listed := (reachable_inv reached).listed id known alive
  obtain ⟨first, rest⟩ := List.length_eq_one_iff.mp
    (Nat.le_antisymm (by omega) (List.length_pos_of_mem listed))
  rw [rest, List.mem_singleton] at listed
  rw [rest, listed]

/-- A client is accepted while `stop()` begins, and registered behind its loop. -/
def lateSchedule : List Action :=
  [.stopper, .stopper, .stopper, .acceptor, .acceptor, .acceptor, .stopper, .broadcaster,
    .stopper]

def stopSchedule : List Action :=
  [.bound true, .acceptor, .accepted true, .handshaken true, .stop]

def stoppedState : State := ((machine true).run (machine true).init stopSchedule).getD {}

def leftState : State := ((machine true).run stoppedState lateSchedule).getD {}

theorem stoppedState_reachable : (machine true).Reachable stoppedState :=
  ⟨stopSchedule, rfl⟩

theorem leftState_run : (machine true).run stoppedState lateSchedule = some leftState := rfl

theorem stop_finishes_leftState :
    stoppedState.fresh = 0 ∧ leftState.fresh = 1 ∧
    leftState.published.length ≤ stoppedState.published.length + 1 ∧
      leftState.fresh ≤ stoppedState.fresh + 1 ∧
      ∀ id, (leftState.heap id).executed.length ≤ (stoppedState.heap id).executed.length + 1 :=
  ⟨rfl, rfl, stop_finishes true stoppedState_reachable rfl leftState_run⟩

theorem stop_leaves_leftState :
    (leftState.heap 0).alive = true ∧
    leftState.acceptor = .exited ∧ leftState.broadcaster = .exited ∧
      leftState.clients.length ≤ 1 ∧
      ∀ id < leftState.fresh, (leftState.heap id).alive = true → leftState.clients = [id] :=
  ⟨rfl, stop_leaves true (stoppedState_reachable.leads ⟨_, leftState_run⟩) rfl⟩

/-- A client has connected and says nothing when `stop()` is called. -/
def silentSchedule : List Action := [.bound true, .acceptor, .accepted true, .stop]

/-- The threads go on as far as they can. -/
def stuckSchedule : List Action := [.stopper, .stopper, .stopper, .broadcaster]

/-- A silent client keeps `stop()` from returning. -/
theorem stop_terminates_silent : ∃ s t,
    (machine true).run (machine true).init silentSchedule = some s ∧
    (machine true).run s stuckSchedule = some t ∧
    (stuckSchedule.map cost).sum ≤ 4 * s.clients.length + 20 ∧
    t.stopper = .joinAcceptor ∧
    ∀ bs u, (∀ b ∈ bs, answer b = false) → (machine true).run t bs = some u →
      u.stopper = .joinAcceptor := by
  have run : ∃ s t, (machine true).run (machine true).init silentSchedule = some s ∧
      (machine true).run s stuckSchedule = some t ∧ s.running = false ∧
      t.stopper = .joinAcceptor ∧ t.acceptor = .handshake := ⟨_, _, rfl, rfl, rfl, rfl, rfl⟩
  obtain ⟨s, t, first, later, down, join, handshake⟩ := run
  obtain ⟨paid, -, stays⟩ := stop_terminates true ⟨silentSchedule, first⟩ down later
  refine ⟨s, t, first, later, paid, join, fun bs u silent on => ?_⟩
  exact (stays (.acceptor join (Or.inr (Or.inl handshake))) bs u silent on).trans join

end WsStop
