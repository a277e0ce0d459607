import MarketDataEngine.Json
import MarketDataEngine.Transition

/-!
# The HTTP server

`MetricsServer` of `output/metrics_server.h` from the end of `start()` on: the thread that runs
the I/O context and serves one connection after the other inside its accept handler, and the
thread that calls `stop()`. What binding, accepting, reading, writing and the statistics come
to is up to the environment. The log lines and the closing of the socket are left out.

`accepted`, `provided` and `served` are histories: how many connections were taken, which
statistics were asked for, and which requests were answered with what.
-/

namespace MetricsServer

open Transition

abbrev Text := List UInt8

structure Request where
  version : Nat
  method : Text
  target : Text
  deriving DecidableEq

structure Response where
  version : Nat
  status : Nat
  server : Text := ascii "mde/0.1.0"
  accessControlAllowOrigin : Text := ascii "*"
  contentType : Text := ascii "application/json"
  body : Text
  deriving DecidableEq

def Request.wantsStats (req : Request) : Bool :=
  req.method = ascii "GET" && req.target = ascii "/stats"

/-- The answer of `handle_connection`, with what `provider_` returns if it is called. -/
def respond (req : Request) (stats : Text) : Response :=
  if req.wantsStats then { version := req.version, status := 200, body := stats }
  else if req.method = ascii "GET" ∧ req.target = ascii "/health" then
    { version := req.version, status := 200, body := ascii "\x7b\"status\":\"ok\"\x7d" }
  else { version := req.version, status := 404, body := ascii "\x7b\"error\":\"not found\"\x7d" }

/-- Where the thread is: in `run`, in `do_accept`, in `ioc_.run()` with or without an accept
under way, or in the handler of an accept. -/
inductive Pc where
  | starting
  | firstCheck
  | inRun (armed : Bool)
  | reading
  | routing (req : Request)
  | writing (req : Request) (res : Response)
  | recheck
  | rearm
  | exited
  deriving DecidableEq

/-- Where the last call of `stop()` is. -/
inductive StopPc where
  | idle
  | stopIoc
  | join
  | returned
  deriving DecidableEq

structure State where
  running : Bool := true
  iocStopped : Bool := false
  pc : Pc := .starting
  stopper : StopPc := .idle
  accepted : Nat := 0
  provided : List Text := []
  served : List (Request × Response) := []

inductive Action where
  | bound (ok : Bool)
  | accepted (ok : Bool)
  | received (req : Request)
  | readFailed
  | provided (stats : Option Text)
  | written (ok : Bool)
  | thread
  | stop
  | stopper

/-- The thread's own steps. A stopped context, and one without work, ends `ioc_.run()`. -/
def threadStep (s : State) : Option State :=
  match s.pc with
  | .firstCheck | .rearm => some { s with pc := .inRun s.running }
  | .inRun armed => if s.iocStopped || !armed then some { s with pc := .exited } else none
  | .routing req =>
    if req.wantsStats then none else some { s with pc := .writing req (respond req []) }
  | .recheck => some { s with pc := if s.running then .rearm else .inRun false }
  | _ => none

/-- The steps of a call of `stop()` behind its exchange of the flag. -/
def stopperStep (s : State) : Option State :=
  match s.stopper with
  | .stopIoc => some { s with iocStopped := true, stopper := .join }
  | .join => if s.pc = .exited then some { s with stopper := .returned } else none
  | .idle | .returned => none

/-- An exception in `handle_connection` is caught there, one in `run` ends the thread. -/
def next (s : State) : Action → Option State
  | .bound ok =>
    match s.pc with
    | .starting => some { s with pc := if ok then .firstCheck else .exited }
    | _ => none
  | .accepted ok =>
    match s.pc, s.iocStopped with
    | .inRun true, false =>
      some (if ok then { s with pc := .reading, accepted := s.accepted + 1 }
        else { s with pc := .recheck })
    | _, _ => none
  | .received req =>
    match s.pc with
    | .reading => some { s with pc := .routing req }
    | _ => none
  | .readFailed =>
    match s.pc with
    | .reading => some { s with pc := .recheck }
    | _ => none
  | .provided stats =>
    match s.pc with
    | .routing req =>
      if req.wantsStats then
        some (match stats with
          | some stats =>
            { s with pc := .writing req (respond req stats), provided := s.provided ++ [stats] }
          | none => { s with pc := .recheck })
      else none
    | _ => none
  | .written ok =>
    match s.pc with
    | .writing req res =>
      some { s with pc := .recheck, served := if ok then s.served ++ [(req, res)] else s.served }
    | _ => none
  | .thread => threadStep s
  | .stop =>
    match s.stopper with
    | .idle | .returned =>
      some { s with running := false, stopper := if s.running then .stopIoc else .returned }
    | _ => none
  | .stopper => stopperStep s

def machine : Machine State Action where
  init := {}
  next := next

/-! ## What a step does -/

inductive Turn (s : State) : Action → State → Prop
  | bound {ok : Bool} (pc : s.pc = .starting) :
    Turn s (.bound ok) { s with pc := if ok then .firstCheck else .exited }
  | accept (pc : s.pc = .inRun true) (up : s.iocStopped = false) :
    Turn s (.accepted true) { s with pc := .reading, accepted := s.accepted + 1 }
  | acceptFailed (pc : s.pc = .inRun true) (up : s.iocStopped = false) :
    Turn s (.accepted false) { s with pc := .recheck }
  | received {req : Request} (pc : s.pc = .reading) :
    Turn s (.received req) { s with pc := .routing req }
  | readFailed (pc : s.pc = .reading) : Turn s .readFailed { s with pc := .recheck }
  | provided {req : Request} {stats : Text} (pc : s.pc = .routing req)
    (wants : req.wantsStats = true) :
    Turn s (.provided (some stats))
      { s with pc := .writing req (respond req stats), provided := s.provided ++ [stats] }
  | notProvided {req : Request} (pc : s.pc = .routing req) (wants : req.wantsStats = true) :
    Turn s (.provided none) { s with pc := .recheck }
  | written {req : Request} {res : Response} (pc : s.pc = .writing req res) :
    Turn s (.written true) { s with pc := .recheck, served := s.served ++ [(req, res)] }
  | writeFailed {req : Request} {res : Response} (pc : s.pc = .writing req res) :
    Turn s (.written false) { s with pc := .recheck }
  | arm (pc : s.pc = .firstCheck ∨ s.pc = .rearm) :
    Turn s .thread { s with pc := .inRun s.running }
  | leave {armed : Bool} (pc : s.pc = .inRun armed) (ended : s.iocStopped = true ∨ armed = false) :
    Turn s .thread { s with pc := .exited }
  | route {req : Request} (pc : s.pc = .routing req) (other : req.wantsStats = false) :
    Turn s .thread { s with pc := .writing req (respond req []) }
  | recheck (pc : s.pc = .recheck) :
    Turn s .thread { s with pc := if s.running then .rearm else .inRun false }
  | stop (idle : s.stopper = .idle ∨ s.stopper = .returned) :
    Turn s .stop
      { s with running := false, stopper := if s.running then .stopIoc else .returned }
  | stopIoc (pc : s.stopper = .stopIoc) :
    Turn s .stopper { s with iocStopped := true, stopper := .join }
  | join (pc : s.stopper = .join) (exited : s.pc = .exited) :
    Turn s .stopper { s with stopper := .returned }

theorem threadStep_turn {s t : State} (h : threadStep s = some t) : Turn s .thread t := by
  unfold threadStep at h
  cases pc : s.pc with
  | firstCheck =>
    simp only [pc] at h
    cases h
    exact .arm (Or.inl pc)
  | rearm =>
    simp only [pc] at h
    cases h
    exact .arm (Or.inr pc)
  | inRun armed =>
    simp only [pc] at h
    split_ifs at h with ended
    cases h
    simp only [Bool.or_eq_true, Bool.not_eq_true'] at ended
    exact .leave pc ended
  | routing req =>
    simp only [pc] at h
    split_ifs at h with wants
    cases h
    exact .route pc (Bool.eq_false_iff.mpr wants)
  | recheck =>
    simp only [pc] at h
    cases h
    exact .recheck pc
  | _ => simp [pc] at h

theorem stopperStep_turn {s t : State} (h : stopperStep s = some t) : Turn s .stopper t := by
  unfold stopperStep at h
  cases pc : s.stopper with
  | stopIoc =>
    simp only [pc] at h
    cases h
    exact .stopIoc pc
  | join =>
    simp only [pc] at h
    split_ifs at h with exited
    cases h
    exact .join pc exited
  | idle | returned => simp [pc] at h

theorem next_turn {s t : State} {a : Action} (h : next s a = some t) : Turn s a t := by
  cases a with
  | bound ok =>
    simp only [next] at h
    split at h
    · rename_i pc
      cases h
      exact .bound pc
    · cases h
  | accepted ok =>
    simp only [next] at h
    split at h
    · rename_i pc up
      cases ok with
      | true =>
        cases h
        exact .accept pc up
      | false =>
        cases h
        exact .acceptFailed pc up
    · cases h
  | received req =>
    simp only [next] at h
    split at h
    · rename_i pc
      cases h
      exact .received pc
    · cases h
  | readFailed =>
    simp only [next] at h
    split at h
    · rename_i pc
      cases h
      exact .readFailed pc
    · cases h
  | provided stats =>
    simp only [next] at h
    split at h
    · rename_i req pc
      split_ifs at h with wants
      cases stats with
      | some stats =>
        cases h
        exact .provided pc wants
      | none =>
        cases h
        exact .notProvided pc wants
    · cases h
  | written ok =>
    simp only [next] at h
    split at h
    · rename_i req res pc
      cases ok with
      | true =>
        cases h
        exact .written pc
      | false =>
        cases h
        exact .writeFailed pc
    · cases h
  | thread => exact threadStep_turn h
  | stop =>
    simp only [next] at h
    split at h
    · rename_i pc
      cases h
      exact .stop (Or.inl pc)
    · rename_i pc
      cases h
      exact .stop (Or.inr pc)
    · cases h
  | stopper => exact stopperStep_turn h

/-! ## What is answered -/

/-- The exchange that is under way, once its answer is there. -/
def inHand : Pc → List (Request × Response)
  | .writing req res => [(req, res)]
  | _ => []

/-- The statistics that an exchange has shown. -/
def shown (exchange : Request × Response) : Option Text :=
  if exchange.1.wantsStats then some exchange.2.body else none

/-- Every request gets the answer it asks for, with statistics of its own. -/
structure Answered (s : State) : Prop where
  answers : ∀ exchange ∈ s.served ++ inHand s.pc, ∃ stats,
    exchange.2 = respond exchange.1 stats
  own : ((s.served ++ inHand s.pc).filterMap shown).Sublist s.provided
  counted : s.served.length + (inHand s.pc).length ≤ s.accepted
  busy : s.pc = .reading ∨ (∃ req, s.pc = .routing req) → s.served.length < s.accepted

/-- An exchange that ends without an answer is given up. -/
theorem Answered.idle {s t : State} (answered : Answered s) (served : t.served = s.served)
    (provided : t.provided = s.provided) (accepted : t.accepted = s.accepted)
    (empty : inHand t.pc = []) (quiet : t.pc ≠ .reading ∧ ∀ req, t.pc ≠ .routing req) :
    Answered t where
  answers := by
    rw [served, empty, List.append_nil]
    exact fun exchange mem => answered.answers exchange (List.mem_append_left _ mem)
  own := by
    rw [served, provided, empty, List.append_nil]
    refine List.Sublist.trans ?_ answered.own
    rw [List.filterMap_append]
    exact List.sublist_append_left _ _
  counted := by
    rw [served, accepted, empty]
    exact Nat.le_trans (Nat.le_add_right _ _) answered.counted
  busy := by
    rintro (reading | ⟨req, routing⟩)
    · exact absurd reading quiet.1
    · exact absurd routing (quiet.2 req)

/-- An exchange with its answer, and the statistics in it, if they were asked for. -/
theorem Answered.write {s : State} (answered : Answered s) {req : Request} {stats : Text}
    {provided : List Text} (pc : s.pc = .routing req)
    (asked : provided = s.provided ++ (shown (req, respond req stats)).toList) :
    Answered { s with pc := .writing req (respond req stats), provided := provided } := by
  obtain ⟨answers, own, -, busy⟩ := answered
  have room := busy (Or.inr ⟨_, pc⟩)
  rw [pc] at answers own
  change ∀ exchange ∈ s.served ++ [], _ at answers
  change (List.filterMap shown (s.served ++ [])).Sublist s.provided at own
  rw [List.append_nil] at answers own
  refine ⟨?_, ?_, room, by rintro (h | ⟨req, h⟩) <;> cases h⟩
  · intro exchange mem
    rcases List.mem_append.mp mem with earlier | now
    · exact answers exchange earlier
    · obtain rfl := List.mem_singleton.mp now
      exact ⟨stats, rfl⟩
  · change (List.filterMap shown (s.served ++ [(req, respond req stats)])).Sublist provided
    have last : [(req, respond req stats)].filterMap shown =
        (shown (req, respond req stats)).toList := by
      cases found : shown (req, respond req stats) with
      | none => exact List.filterMap_cons_none found
      | some body => exact List.filterMap_cons_some found
    rw [asked, List.filterMap_append, last]
    exact own.append (List.Sublist.refl _)

theorem turn_answered {s t : State} {a : Action} (answered : Answered s) (turn : Turn s a t) :
    Answered t := by
  obtain ⟨answers, own, counted, busy⟩ := answered
  have idle : ∀ pc, inHand pc = [] → pc ≠ .reading ∧ (∀ req, pc ≠ .routing req) →
      Answered { s with pc } :=
    fun pc empty quiet => Answered.idle ⟨answers, own, counted, busy⟩ rfl rfl rfl empty quiet
  cases turn with
  | @bound ok pc => cases ok <;> exact idle _ rfl ⟨nofun, nofun⟩
  | accept pc up =>
    rw [pc] at answers own counted
    exact ⟨answers, own, Nat.le_succ_of_le counted, fun _ => Nat.lt_succ_of_le counted⟩
  | acceptFailed | readFailed | notProvided | writeFailed => exact idle _ rfl ⟨nofun, nofun⟩
  | received pc =>
    rw [pc] at answers own counted
    exact ⟨answers, own, counted, fun _ => busy (Or.inl pc)⟩
  | provided pc wants =>
    exact Answered.write ⟨answers, own, counted, busy⟩ pc (by simp [shown, respond, wants])
  | @written req res pc =>
    rw [pc] at answers own counted
    refine ⟨?_, ?_, ?_, by rintro (h | ⟨req, h⟩) <;> cases h⟩
    · change ∀ exchange ∈ (s.served ++ [(req, res)]) ++ [], _
      rw [List.append_nil]
      exact answers
    · change (List.filterMap shown ((s.served ++ [(req, res)]) ++ [])).Sublist _
      rw [List.append_nil]
      exact own
    · change (s.served ++ [(req, res)]).length + 0 ≤ s.accepted
      rw [List.length_append]
      exact counted
  | arm | leave => exact idle _ rfl ⟨nofun, nofun⟩
  | route pc other =>
    exact Answered.write ⟨answers, own, counted, busy⟩ pc (by simp [shown, other])
  | recheck pc =>
    exact idle _ (by split_ifs <;> rfl) (by split_ifs <;> exact ⟨nofun, nofun⟩)
  | stop | stopIoc | join => exact ⟨answers, own, counted, busy⟩

theorem reachable_answered {s : State} (reached : machine.Reachable s) : Answered s :=
  Machine.invariant machine Answered
    ⟨List.forall_mem_nil _, List.Sublist.refl _, Nat.le_refl _,
      by rintro (h | ⟨req, h⟩) <;> cases h⟩
    (fun _ _ _ _ answered h => turn_answered answered (next_turn h)) reached

/-! ## Stopping -/

structure Stopping (s : State) : Prop where
  up : s.stopper = .idle ↔ s.running = true
  stopped : s.stopper = .join ∨ s.stopper = .returned → s.iocStopped = true
  exited : s.stopper = .returned → s.pc = .exited

theorem turn_stopping {s t : State} {a : Action} (stopping : Stopping s) (turn : Turn s a t) :
    Stopping t := by
  obtain ⟨up, stopped, exited⟩ := stopping
  have alive : ∀ pc, s.pc ≠ .exited → Stopping { s with pc } :=
    fun pc here => ⟨up, stopped, fun returned => absurd (exited returned) here⟩
  cases turn with
  | bound pc | acceptFailed pc | received pc | readFailed pc | notProvided pc | writeFailed pc
  | leave pc | route pc | recheck pc => exact alive _ (by rw [pc]; exact Pc.noConfusion)
  | accept pc | provided pc | written pc =>
    exact ⟨up, stopped, fun returned => absurd (exited returned) (by rw [pc]; exact nofun)⟩
  | arm pc => exact alive _ (by rcases pc with pc | pc <;> rw [pc] <;> exact Pc.noConfusion)
  | stop idle =>
    rcases idle with idle | returned
    · refine ⟨?_, ?_, ?_⟩ <;> simp [up.mp idle]
    · have down : s.running = false :=
        Bool.eq_false_iff.mpr (fun on => by rw [up.mpr on] at returned; cases returned)
      exact ⟨by simp [down], fun _ => stopped (Or.inr returned), fun _ => exited returned⟩
  | stopIoc pc =>
    have down : s.running = false :=
      Bool.eq_false_iff.mpr (fun on => by rw [up.mpr on] at pc; cases pc)
    exact ⟨by simp [down], fun _ => rfl, nofun⟩
  | join pc gone =>
    have down : s.running = false :=
      Bool.eq_false_iff.mpr (fun on => by rw [up.mpr on] at pc; cases pc)
    exact ⟨by simp [down], fun _ => stopped (Or.inl pc), fun _ => gone⟩

theorem reachable_stopping {s : State} (reached : machine.Reachable s) : Stopping s :=
  Machine.invariant machine Stopping ⟨⟨fun _ => rfl, fun _ => rfl⟩, by simp [machine], nofun⟩
    (fun _ _ _ _ stopping h => turn_stopping stopping (next_turn h)) reached

/-- The steps to the exit of the thread with the flag down. -/
def threadWork : Pc → Nat
  | .exited => 0
  | .inRun false => 1
  | .firstCheck | .rearm | .recheck => 2
  | .starting | .writing _ _ => 3
  | .routing _ => 4
  | .reading => 5
  | .inRun true => 6

def stopperWork : StopPc → Nat
  | .idle | .returned => 0
  | .join => 1
  | .stopIoc => 2

def work (s : State) : Nat := threadWork s.pc + stopperWork s.stopper

/-- Calls of `stop()` behind the first cost nothing. -/
def cost : Action → Nat
  | .stop => 0
  | _ => 1

/-- The connection that may still come, and the answer that may still be given. -/
def mayAccept : Pc → Nat
  | .inRun true => 1
  | _ => 0

def mayServe : Pc → Nat
  | .inRun true | .reading | .routing _ | .writing _ _ => 1
  | _ => 0

theorem turn_work {s t : State} {a : Action} (down : s.running = false) (stopping : Stopping s)
    (turn : Turn s a t) : t.running = false ∧ work t + cost a ≤ work s ∧
      t.accepted + mayAccept t.pc ≤ s.accepted + mayAccept s.pc ∧
      t.served.length + mayServe t.pc ≤ s.served.length + mayServe s.pc := by
  cases turn with
  | @bound ok pc =>
    cases ok <;>
      simp only [work, cost, pc, threadWork, mayAccept, mayServe, if_true, Bool.false_eq_true,
        if_false] <;>
      exact ⟨down, by omega, by omega, by omega⟩
  | accept pc | acceptFailed pc | received pc | readFailed pc | provided pc | notProvided pc
  | written pc | writeFailed pc | route pc =>
    simp only [work, cost, pc, threadWork, mayAccept, mayServe, List.length_append,
      List.length_singleton]
    exact ⟨down, by omega, by omega, by omega⟩
  | arm pc =>
    rcases pc with pc | pc <;>
      simp only [work, cost, pc, down, threadWork, mayAccept, mayServe] <;>
      exact ⟨trivial, by omega, by omega, by omega⟩
  | @leave armed pc ended =>
    cases armed <;> simp only [work, cost, pc, threadWork, mayAccept, mayServe] <;>
      exact ⟨down, by omega, by omega, by omega⟩
  | recheck pc =>
    simp only [work, cost, pc, down, Bool.false_eq_true, if_false, threadWork, mayAccept, mayServe]
    exact ⟨trivial, by omega, by omega, by omega⟩
  | stop idle =>
    have returned : s.stopper = .returned := by
      rcases idle with idle | returned
      · rw [stopping.up.mp idle] at down
        cases down
      · exact returned
    refine ⟨rfl, ?_, Nat.le_refl _, Nat.le_refl _⟩
    simp [work, cost, down, returned, stopperWork]
  | stopIoc pc | join pc =>
    refine ⟨down, ?_, Nat.le_refl _, Nat.le_refl _⟩
    simp only [work, cost, pc, stopperWork]
    omega

/-- The thread waits for a client, for the statistics or for the port. -/
def Waiting (s : State) : Prop :=
  s.pc = .starting ∨ s.pc = .reading ∨ (∃ req res, s.pc = .writing req res) ∨
    ∃ req, s.pc = .routing req ∧ req.wantsStats = true

/-- Until `stop()` has returned, it or the thread can go on, unless the thread waits. -/
theorem exists_step {s : State} (stopping : Stopping s) (under : s.stopper ≠ .idle)
    (pending : s.stopper ≠ .returned) (free : s.stopper = .stopIoc ∨ ¬ Waiting s) :
    ∃ a t, (a = .thread ∨ a = .stopper) ∧ next s a = some t := by
  cases stopper : s.stopper with
  | idle => exact absurd stopper under
  | returned => exact absurd stopper pending
  | stopIoc => exact ⟨.stopper, _, Or.inr rfl, by simp only [next, stopperStep, stopper]; rfl⟩
  | join =>
    have halted := stopping.stopped (Or.inl stopper)
    have busy : ¬ Waiting s := free.resolve_left (by rw [stopper]; exact nofun)
    cases pc : s.pc with
    | starting => exact absurd (Or.inl pc) busy
    | reading => exact absurd (Or.inr (Or.inl pc)) busy
    | writing req res => exact absurd (Or.inr (Or.inr (Or.inl ⟨_, _, pc⟩))) busy
    | routing req =>
      have other : req.wantsStats = false :=
        Bool.eq_false_iff.mpr (fun wants => busy (Or.inr (Or.inr (Or.inr ⟨_, pc, wants⟩))))
      exact ⟨.thread, _, Or.inl rfl, by simp only [next, threadStep, pc, other]; rfl⟩
    | firstCheck | rearm | recheck =>
      exact ⟨.thread, _, Or.inl rfl, by simp only [next, threadStep, pc]; rfl⟩
    | inRun armed =>
      exact ⟨.thread, _, Or.inl rfl, by simp only [next, threadStep, pc, halted]; rfl⟩
    | exited =>
      exact ⟨.stopper, _, Or.inr rfl, by simp only [next, stopperStep, stopper, pc]; rfl⟩

/-- A thread that waits does not go on by itself. -/
theorem Turn.not_waiting {s t : State} (turn : Turn s .thread t) : ¬ Waiting s := by
  unfold Waiting
  cases turn with
  | arm pc => rcases pc with pc | pc <;> simp [pc]
  | leave pc ended => simp [pc]
  | route pc other => simp [pc, other]
  | recheck pc => simp [pc]

theorem own_free {s t : State} {a : Action} (own : a = .thread ∨ a = .stopper)
    (h : next s a = some t) : s.stopper = .stopIoc ∨ ¬ Waiting s := by
  have turn := next_turn h
  rcases own with rfl | rfl
  · exact Or.inr turn.not_waiting
  · cases turn with
    | stopIoc pc => exact Or.inl pc
    | join pc exited => exact Or.inr (by simp [Waiting, exited])

/-- In every run, every request that was answered got the answer it asks for; the statistics
that were shown are, in order, ones that were asked for, each for one request; and there are
no more answers than connections. -/
theorem requests_answered {s : State} (reached : machine.Reachable s) :
    (∀ exchange ∈ s.served, ∃ stats, exchange.2 = respond exchange.1 stats) ∧
      (s.served.filterMap shown).Sublist s.provided ∧ s.served.length ≤ s.accepted := by
  obtain ⟨answers, own, counted, -⟩ := reachable_answered reached
  refine ⟨fun exchange mem => answers exchange (List.mem_append_left _ mem), ?_, by omega⟩
  rw [List.filterMap_append] at own
  exact (List.sublist_append_left _ _).trans own

/-- From the moment the flag is down, in every interleaving: the server takes at most one more
connection, gives at most one more answer and has at most eight steps left, its own and those
of its clients, to the return of `stop()`, which leaves the thread gone. Until then it can go
on by itself unless the thread waits for a client, for the statistics or for the port; a
client that sends nothing keeps `stop()` from returning. -/
theorem metrics_stop_finishes {s : State} (reached : machine.Reachable s)
    (down : s.running = false) :
    (∀ as t, machine.run s as = some t → (as.map cost).sum ≤ 8 ∧
      t.accepted ≤ s.accepted + 1 ∧ t.served.length ≤ s.served.length + 1) ∧
    (s.stopper = .returned → s.pc = .exited) ∧
    (s.stopper ≠ .returned →
      ((∃ a t, (a = .thread ∨ a = .stopper) ∧ next s a = some t) ↔
        s.stopper = .stopIoc ∨ ¬ Waiting s)) := by
  have stopping := reachable_stopping reached
  have under : s.stopper ≠ .idle := fun idle => by
    rw [stopping.up.mp idle] at down
    cases down
  refine ⟨fun as t run => ?_, stopping.exited, fun pending => ⟨?_, ?_⟩⟩
  · have small : threadWork s.pc ≤ 6 ∧ stopperWork s.stopper ≤ 2 ∧ mayAccept s.pc ≤ 1 ∧
        mayServe s.pc ≤ 1 := by
      refine ⟨?_, ?_, ?_, ?_⟩
      · unfold threadWork
        split <;> omega
      · unfold stopperWork
        split <;> omega
      · unfold mayAccept
        split <;> omega
      · unfold mayServe
        split <;> omega
    have step : ∀ s a t, s.running = false ∧ Stopping s → machine.next s a = some t →
        (t.running = false ∧ Stopping t) ∧ work t + cost a ≤ work s ∧
          t.accepted + mayAccept t.pc ≤ s.accepted + mayAccept s.pc ∧
          t.served.length + mayServe t.pc ≤ s.served.length + mayServe s.pc := by
      rintro s a t ⟨down, stopping⟩ h
      have turn := next_turn h
      obtain ⟨down', paid⟩ := turn_work down stopping turn
      exact ⟨⟨down', turn_stopping stopping turn⟩, paid⟩
    obtain ⟨-, paid⟩ := Machine.run_budget (fun s a t hs h =>
      ⟨(step s a t hs h).1, (step s a t hs h).2.1⟩) ⟨down, stopping⟩ run
    obtain ⟨-, taken⟩ := @Machine.run_budget _ _ machine (fun s => s.running = false ∧ Stopping s)
      (fun s => s.accepted + mayAccept s.pc) (fun _ => 0)
      (fun s a t hs h => ⟨(step s a t hs h).1, (step s a t hs h).2.2.1⟩) as s t
      ⟨down, stopping⟩ run
    obtain ⟨-, given⟩ := @Machine.run_budget _ _ machine (fun s => s.running = false ∧ Stopping s)
      (fun s => s.served.length + mayServe s.pc) (fun _ => 0)
      (fun s a t hs h => ⟨(step s a t hs h).1, (step s a t hs h).2.2.2⟩) as s t
      ⟨down, stopping⟩ run
    obtain ⟨thread, stopper, accept, serve⟩ := small
    have most : work s ≤ 8 := Nat.add_le_add thread stopper
    exact ⟨by omega, by omega, by omega⟩
  · rintro ⟨a, t, own, h⟩
    exact own_free own h
  · exact exists_step stopping under pending

def healthRequest : Request := ⟨11, ascii "GET", ascii "/health"⟩

theorem requests_answered_health : ∃ s, machine.run {} [.bound true, .thread, .accepted true,
      .received healthRequest, .thread, .written true] = some s ∧
    ∃ res stats, s.served = [(healthRequest, res)] ∧ res = respond healthRequest stats ∧
      res.status = 200 := by
  have run : ∃ s, machine.run {} [.bound true, .thread, .accepted true,
      .received healthRequest, .thread, .written true] = some s ∧
      s.served = [(healthRequest, respond healthRequest [])] := ⟨_, rfl, rfl⟩
  obtain ⟨s, run, served⟩ := run
  have answers := (requests_answered ⟨_, run⟩).1
  rw [served, List.forall_mem_singleton] at answers
  obtain ⟨stats, same⟩ := answers
  exact ⟨s, run, _, stats, served, same, by decide⟩

/-- A client that has connected and says nothing keeps `stop()` waiting. -/
theorem metrics_stop_finishes_silent : ∃ s,
    machine.run {} [.bound true, .thread, .accepted true, .stop, .stopper] = some s ∧
    s.stopper = .join ∧ ¬ ∃ a t, (a = .thread ∨ a = .stopper) ∧ next s a = some t := by
  have run : ∃ s, machine.run {} [.bound true, .thread, .accepted true, .stop, .stopper] =
      some s ∧ s.running = false ∧ s.stopper = .join ∧ s.pc = .reading := ⟨_, rfl, rfl, rfl, rfl⟩
  obtain ⟨s, run, down, join, reading⟩ := run
  obtain ⟨-, -, free⟩ := metrics_stop_finishes ⟨_, run⟩ down
  refine ⟨s, run, join, ?_⟩
  rw [free (by rw [join]; exact StopPc.noConfusion), join]
  simp [Waiting, reading]

end MetricsServer
