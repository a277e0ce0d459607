import MarketDataEngine.Subscriptions

/-!
# The WebSocket server

`WsServer` of `output/ws_server.h` from the end of `start()` on: the acceptor thread, the
broadcaster thread, a detached reader thread for each client when there is a controller,
and the thread that calls `stop()`. Each thread takes one access at a time; the client
list is touched by the holder of `clients_mutex_` only, and the holder can be told from
where the threads stand. What binding, accepting, reading, writing, closing and the snapshot
provider come to, and when, is up to the environment. `alive` is a plain `bool` and is
modelled as an atomic one. The log lines are left out, with the lock `client_count` takes for one.

Clients are numbered in the order they enter the list. `published` and, of each client,
`since`, `sent` and `executed` are histories no step reads.
-/

namespace WsServer

open Transition

abbrev Msg := List UInt8

/-- Where `run_acceptor` is, with `do_accept` and `accept_client`. -/
inductive AcceptorPc where
  | starting
  | checkRunning
  | accepting
  | handshake
  | registering
  | spawning (id : Nat)
  | exited
  deriving DecidableEq

/-- Where `run_broadcaster` is, with `broadcast` and `remove_dead_clients`. -/
inductive BroadcasterPc where
  | checkRunning
  | sleeping
  | recheckRunning
  | providing
  | locking (msg : Msg)
  | sending (msg : Msg) (rest : List Nat)
  | writing (msg : Msg) (id : Nat) (rest : List Nat)
  | lockingRemove
  | removing (kept rest : List Nat)
  | exited
  deriving DecidableEq

/-- Where a call of `stop()` is. -/
inductive StopPc where
  | idle
  | stopIoc
  | locking
  | closing (rest : List Nat)
  | joinAcceptor
  | joinBroadcaster
  | returned
  deriving DecidableEq

/-- Where `read_commands` is for a client. -/
inductive ReaderPc where
  | unborn
  | checkAlive
  | checkRunning
  | reading
  | executing (cmd : Msg)
  | leaving
  | exited
  deriving DecidableEq

structure Client where
  alive : Bool := true
  reader : ReaderPc := .unborn
  since : Nat := 0
  sent : List Msg := []
  executed : List Msg := []

structure State where
  running : Bool := true
  iocStopped : Bool := false
  clients : List Nat := []
  heap : Nat → Client := fun _ => {}
  fresh : Nat := 0
  acceptor : AcceptorPc := .starting
  broadcaster : BroadcasterPc := .checkRunning
  stopper : StopPc := .idle
  published : List Msg := []

inductive Action where
  | bound (ok : Bool)
  | accepted (ok : Bool)
  | handshaken (ok : Bool)
  | acceptor
  | provided (snapshot : Msg)
  | written (ok : Bool)
  | broadcaster
  | stop
  | stopper
  | closed
  | received (id : Nat) (cmd : Msg)
  | readFailed (id : Nat)
  | reader (id : Nat)

/-- The broadcaster has `clients_mutex_`. -/
def BroadcasterPc.holds : BroadcasterPc → Bool
  | .sending _ _ | .writing _ _ _ | .removing _ _ => true
  | _ => false

/-- The thread in `stop()` has `clients_mutex_`. -/
def StopPc.holds : StopPc → Bool
  | .closing _ => true
  | _ => false

def State.locked (s : State) : Bool := s.broadcaster.holds || s.stopper.holds

def State.setClient (s : State) (id : Nat) (client : Client) : State :=
  { s with heap := Function.update s.heap id client }

/-- `client->alive = false`. -/
def State.kill (s : State) (id : Nat) : State :=
  s.setClient id { s.heap id with alive := false }

/-- `clients_.push_back(client)`. -/
def State.register (s : State) : State :=
  { s with
    clients := s.clients ++ [s.fresh]
    heap := Function.update s.heap s.fresh { since := s.published.length }
    fresh := s.fresh + 1 }

/-- The acceptor's own steps. A stopped context runs no further handler. -/
def acceptorStep (controller : Bool) (s : State) : Option State :=
  match s.acceptor with
  | .checkRunning => some { s with acceptor := if s.running then .accepting else .exited }
  | .accepting => if s.iocStopped then some { s with acceptor := .exited } else none
  | .registering =>
    if s.locked then none
    else some { s.register with
      acceptor := if controller then .spawning s.fresh else .checkRunning }
  | .spawning id =>
    some { s.setClient id { s.heap id with reader := .checkAlive } with
      acceptor := .checkRunning }
  | .starting | .handshake | .exited => none

def broadcasterStep (s : State) : Option State :=
  match s.broadcaster with
  | .checkRunning => some { s with broadcaster := if s.running then .sleeping else .exited }
  | .sleeping => some { s with broadcaster := .recheckRunning }
  | .recheckRunning =>
    some { s with broadcaster := if s.running then .providing else .exited }
  | .locking msg =>
    if s.locked then none
    else some { s with
      broadcaster := .sending msg s.clients
      published := s.published ++ [msg] }
  | .sending _ [] => some { s with broadcaster := .lockingRemove }
  | .sending msg (id :: rest) =>
    some { s with
      broadcaster := if (s.heap id).alive then .writing msg id rest else .sending msg rest }
  | .lockingRemove =>
    if s.locked then none else some { s with broadcaster := .removing [] s.clients }
  | .removing kept (id :: rest) =>
    some { s with
      broadcaster := .removing (if (s.heap id).alive then kept ++ [id] else kept) rest }
  | .removing kept [] => some { s with clients := kept, broadcaster := .checkRunning }
  | .providing | .writing _ _ _ | .exited => none

/-- The steps of `stop()` itself; the synchronous `ws.close` waits for its client. -/
def stopperStep (s : State) : Option State :=
  match s.stopper with
  | .stopIoc => some { s with iocStopped := true, stopper := .locking }
  | .locking => if s.locked then none else some { s with stopper := .closing s.clients }
  | .closing [] => some { s with clients := [], stopper := .joinAcceptor }
  | .joinAcceptor =>
    if s.acceptor = .exited then some { s with stopper := .joinBroadcaster } else none
  | .joinBroadcaster =>
    if s.broadcaster = .exited then some { s with stopper := .returned } else none
  | .idle | .closing (_ :: _) | .returned => none

/-- A reader's own steps; `executing` ends with the controller's return. -/
def readerStep (s : State) (id : Nat) : Option State :=
  let client := s.heap id
  match client.reader with
  | .checkAlive =>
    some (s.setClient id { client with
      reader := if client.alive then .checkRunning else .leaving })
  | .checkRunning =>
    some (s.setClient id { client with reader := if s.running then .reading else .leaving })
  | .executing cmd =>
    some (s.setClient id { client with
      reader := .checkAlive
      executed := client.executed ++ [cmd] })
  | .leaving => some (s.setClient id { client with reader := .exited, alive := false })
  | .unborn | .reading | .exited => none

/-- `stop()` up to its first test. -/
def callStop (s : State) : Option State :=
  match s.stopper with
  | .idle | .returned =>
    some { s with running := false, stopper := if s.running then .stopIoc else .returned }
  | _ => none

def next (controller : Bool) (s : State) : Action → Option State
  | .bound ok =>
    match s.acceptor with
    | .starting => some { s with acceptor := if ok then .checkRunning else .exited }
    | _ => none
  | .accepted ok =>
    match s.acceptor with
    | .accepting =>
      if s.iocStopped then none
      else some { s with acceptor := if ok then .handshake else .checkRunning }
    | _ => none
  | .handshaken ok =>
    match s.acceptor with
    | .handshake => some { s with acceptor := if ok then .registering else .checkRunning }
    | _ => none
  | .acceptor => acceptorStep controller s
  | .provided snapshot =>
    match s.broadcaster with
    | .providing =>
      some { s with
        broadcaster := if snapshot.isEmpty then .lockingRemove else .locking snapshot }
    | _ => none
  | .written ok =>
    match s.broadcaster with
    | .writing msg id rest =>
      let client := s.heap id
      some { s.setClient id (if ok then { client with sent := client.sent ++ [msg] }
          else { client with alive := false }) with
        broadcaster := .sending msg rest }
    | _ => none
  | .broadcaster => broadcasterStep s
  | .stop => callStop s
  | .stopper => stopperStep s
  | .closed =>
    match s.stopper with
    | .closing (id :: rest) => some { s.kill id with stopper := .closing rest }
    | _ => none
  | .received id cmd =>
    match (s.heap id).reader with
    | .reading => some (s.setClient id { s.heap id with reader := .executing cmd })
    | _ => none
  | .readFailed id =>
    match (s.heap id).reader with
    | .reading => some (s.setClient id { s.heap id with reader := .leaving })
    | _ => none
  | .reader id => readerStep s id

/-- The server after `start()`; `controller` says whether it was given a controller. -/
def machine (controller : Bool) : Machine State Action where
  init := {}
  next := next controller

/-! ## What a step does -/

/-- The steps of the acceptor thread. -/
inductive AcceptorTurn (controller : Bool) (s : State) : State → Prop
  | bound {ok : Bool} (pc : s.acceptor = .starting) :
    AcceptorTurn controller s { s with acceptor := if ok then .checkRunning else .exited }
  | test (pc : s.acceptor = .checkRunning) :
    AcceptorTurn controller s { s with acceptor := if s.running then .accepting else .exited }
  | accepted {ok : Bool} (pc : s.acceptor = .accepting) (ioc : s.iocStopped = false) :
    AcceptorTurn controller s { s with acceptor := if ok then .handshake else .checkRunning }
  | stopped (pc : s.acceptor = .accepting) (ioc : s.iocStopped = true) :
    AcceptorTurn controller s { s with acceptor := .exited }
  | handshaken {ok : Bool} (pc : s.acceptor = .handshake) :
    AcceptorTurn controller s { s with acceptor := if ok then .registering else .checkRunning }
  | register (pc : s.acceptor = .registering) (unlocked : s.locked = false) :
    AcceptorTurn controller s { s.register with
      acceptor := if controller then .spawning s.fresh else .checkRunning }
  | spawn {id : Nat} (pc : s.acceptor = .spawning id) :
    AcceptorTurn controller s { s.setClient id { s.heap id with reader := .checkAlive } with
      acceptor := .checkRunning }

/-- The steps of the broadcaster thread. -/
inductive BroadcasterTurn (s : State) : State → Prop
  | test (pc : s.broadcaster = .checkRunning) :
    BroadcasterTurn s { s with broadcaster := if s.running then .sleeping else .exited }
  | wake (pc : s.broadcaster = .sleeping) :
    BroadcasterTurn s { s with broadcaster := .recheckRunning }
  | retest (pc : s.broadcaster = .recheckRunning) :
    BroadcasterTurn s { s with broadcaster := if s.running then .providing else .exited }
  | nothing (pc : s.broadcaster = .providing) :
    BroadcasterTurn s { s with broadcaster := .lockingRemove }
  | provided {msg : Msg} (pc : s.broadcaster = .providing) :
    BroadcasterTurn s { s with broadcaster := .locking msg }
  | publish {msg : Msg} (pc : s.broadcaster = .locking msg) (unlocked : s.locked = false) :
    BroadcasterTurn s { s with
      broadcaster := .sending msg s.clients
      published := s.published ++ [msg] }
  | serve {msg : Msg} {id : Nat} {rest : List Nat} (pc : s.broadcaster = .sending msg (id :: rest))
    (alive : (s.heap id).alive = true) :
    BroadcasterTurn s { s with broadcaster := .writing msg id rest }
  | skip {msg : Msg} {id : Nat} {rest : List Nat} (pc : s.broadcaster = .sending msg (id :: rest))
    (dead : (s.heap id).alive = false) :
    BroadcasterTurn s { s with broadcaster := .sending msg rest }
  | written {msg : Msg} {id : Nat} {rest : List Nat} (pc : s.broadcaster = .writing msg id rest) :
    BroadcasterTurn s { s.setClient id { s.heap id with sent := (s.heap id).sent ++ [msg] } with
      broadcaster := .sending msg rest }
  | failed {msg : Msg} {id : Nat} {rest : List Nat} (pc : s.broadcaster = .writing msg id rest) :
    BroadcasterTurn s { s.kill id with broadcaster := .sending msg rest }
  | sent {msg : Msg} (pc : s.broadcaster = .sending msg []) :
    BroadcasterTurn s { s with broadcaster := .lockingRemove }
  | lock (pc : s.broadcaster = .lockingRemove) (unlocked : s.locked = false) :
    BroadcasterTurn s { s with broadcaster := .removing [] s.clients }
  | keep {kept : List Nat} {id : Nat} {rest : List Nat}
    (pc : s.broadcaster = .removing kept (id :: rest)) (alive : (s.heap id).alive = true) :
    BroadcasterTurn s { s with broadcaster := .removing (kept ++ [id]) rest }
  | drop {kept : List Nat} {id : Nat} {rest : List Nat}
    (pc : s.broadcaster = .removing kept (id :: rest)) (dead : (s.heap id).alive = false) :
    BroadcasterTurn s { s with broadcaster := .removing kept rest }
  | removed {kept : List Nat} (pc : s.broadcaster = .removing kept []) :
    BroadcasterTurn s { s with clients := kept, broadcaster := .checkRunning }

/-- A call of `stop()`; behind the first it returns at once. -/
inductive CallTurn (s : State) : State → Prop
  | first (pc : s.stopper = .idle ∨ s.stopper = .returned) (up : s.running = true) :
    CallTurn s { s with running := false, stopper := .stopIoc }
  | again (pc : s.stopper = .idle ∨ s.stopper = .returned) (down : s.running = false) :
    CallTurn s { s with running := false, stopper := .returned }

/-- The steps of the thread in `stop()`. -/
inductive StopperTurn (s : State) : State → Prop
  | ioc (pc : s.stopper = .stopIoc) :
    StopperTurn s { s with iocStopped := true, stopper := .locking }
  | lock (pc : s.stopper = .locking) (unlocked : s.locked = false) :
    StopperTurn s { s with stopper := .closing s.clients }
  | close {id : Nat} {rest : List Nat} (pc : s.stopper = .closing (id :: rest)) :
    StopperTurn s { s.kill id with stopper := .closing rest }
  | clear (pc : s.stopper = .closing []) :
    StopperTurn s { s with clients := [], stopper := .joinAcceptor }
  | joinAcceptor (pc : s.stopper = .joinAcceptor) (exited : s.acceptor = .exited) :
    StopperTurn s { s with stopper := .joinBroadcaster }
  | joinBroadcaster (pc : s.stopper = .joinBroadcaster) (exited : s.broadcaster = .exited) :
    StopperTurn s { s with stopper := .returned }

/-- The steps of the reader thread of one client. -/
inductive ReaderTurn (s : State) (id : Nat) : State → Prop
  | look (pc : (s.heap id).reader = .checkAlive) :
    ReaderTurn s id (s.setClient id { s.heap id with
      reader := if (s.heap id).alive then .checkRunning else .leaving })
  | test (pc : (s.heap id).reader = .checkRunning) :
    ReaderTurn s id (s.setClient id { s.heap id with
      reader := if s.running then .reading else .leaving })
  | received {cmd : Msg} (pc : (s.heap id).reader = .reading) :
    ReaderTurn s id (s.setClient id { s.heap id with reader := .executing cmd })
  | failed (pc : (s.heap id).reader = .reading) :
    ReaderTurn s id (s.setClient id { s.heap id with reader := .leaving })
  | executed {cmd : Msg} (pc : (s.heap id).reader = .executing cmd) :
    ReaderTurn s id (s.setClient id { s.heap id with
      reader := .checkAlive
      executed := (s.heap id).executed ++ [cmd] })
  | left (pc : (s.heap id).reader = .leaving) :
    ReaderTurn s id (s.setClient id { s.heap id with reader := .exited, alive := false })

/-- The thread an action belongs to, with the step it takes. -/
def Turn (controller : Bool) (s : State) : Action → State → Prop
  | .bound _ | .accepted _ | .handshaken _ | .acceptor => AcceptorTurn controller s
  | .provided _ | .written _ | .broadcaster => BroadcasterTurn s
  | .stop => CallTurn s
  | .stopper | .closed => StopperTurn s
  | .received id _ | .readFailed id | .reader id => ReaderTurn s id

theorem acceptorStep_turn {controller : Bool} {s t : State}
    (h : acceptorStep controller s = some t) : AcceptorTurn controller s t := by
  unfold acceptorStep at h
  split at h
  · rename_i pc
    cases h
    exact .test pc
  · rename_i pc
    split_ifs at h with ioc
    cases h
    exact .stopped pc ioc
  · rename_i pc
    split at h
    · cases h
    · rename_i unlocked
      cases h
      exact .register pc (Bool.eq_false_iff.mpr unlocked)
  · rename_i pc
    cases h
    exact .spawn pc
  all_goals cases h

theorem broadcasterStep_turn {s t : State} (h : broadcasterStep s = some t) :
    BroadcasterTurn s t := by
  unfold broadcasterStep at h
  split at h
  · rename_i pc
    cases h
    exact .test pc
  · rename_i pc
    cases h
    exact .wake pc
  · rename_i pc
    cases h
    exact .retest pc
  · rename_i pc
    split_ifs at h with locked
    cases h
    exact .publish pc (Bool.eq_false_iff.mpr locked)
  · rename_i pc
    cases h
    exact .sent pc
  · rename_i msg id rest pc
    cases h
    cases alive : (s.heap id).alive with
    | true => exact .serve pc alive
    | false => exact .skip pc alive
  · rename_i pc
    split_ifs at h with locked
    cases h
    exact .lock pc (Bool.eq_false_iff.mpr locked)
  · rename_i kept id rest pc
    cases h
    cases alive : (s.heap id).alive with
    | true => exact .keep pc alive
    | false => exact .drop pc alive
  · rename_i pc
    cases h
    exact .removed pc
  all_goals cases h

theorem stopperStep_turn {s t : State} (h : stopperStep s = some t) : StopperTurn s t := by
  unfold stopperStep at h
  split at h
  · rename_i pc
    cases h
    exact .ioc pc
  · rename_i pc
    split_ifs at h with locked
    cases h
    exact .lock pc (Bool.eq_false_iff.mpr locked)
  · rename_i pc
    cases h
    exact .clear pc
  · rename_i pc
    split_ifs at h with exited
    cases h
    exact .joinAcceptor pc exited
  · rename_i pc
    split_ifs at h with exited
    cases h
    exact .joinBroadcaster pc exited
  all_goals cases h

theorem callStop_turn {s t : State} (h : callStop s = some t) : CallTurn s t := by
  have ready : s.stopper = .idle ∨ s.stopper = .returned := by
    unfold callStop at h
    split at h
    · rename_i pc
      exact Or.inl pc
    · rename_i pc
      exact Or.inr pc
    · cases h
  have same : t = { s with
      running := false
      stopper := if s.running then .stopIoc else .returned } := by
    rcases ready with pc | pc <;>
    · simp only [callStop, pc] at h
      exact (Option.some.inj h).symm
  subst same
  cases running : s.running with
  | true => exact .first ready running
  | false => exact .again ready running

theorem readerStep_turn {s t : State} {id : Nat} (h : readerStep s id = some t) :
    ReaderTurn s id t := by
  unfold readerStep at h
  dsimp only at h
  split at h
  · rename_i pc
    cases h
    exact .look pc
  · rename_i pc
    cases h
    exact .test pc
  · rename_i pc
    cases h
    exact .executed pc
  · rename_i pc
    cases h
    exact .left pc
  all_goals cases h

theorem next_turn {controller : Bool} {s t : State} {a : Action}
    (h : next controller s a = some t) : Turn controller s a t := by
  cases a with
  | acceptor => exact acceptorStep_turn h
  | broadcaster => exact broadcasterStep_turn h
  | stopper => exact stopperStep_turn h
  | stop => exact callStop_turn h
  | reader id => exact readerStep_turn h
  | bound ok =>
    simp only [next] at h
    split at h
    · rename_i pc
      cases h
      exact AcceptorTurn.bound pc
    · cases h
  | accepted ok =>
    simp only [next] at h
    split at h
    · rename_i pc
      split at h
      · cases h
      · rename_i ioc
        cases h
        exact AcceptorTurn.accepted pc (Bool.eq_false_iff.mpr ioc)
    · cases h
  | handshaken ok =>
    simp only [next] at h
    split at h
    · rename_i pc
      cases h
      exact AcceptorTurn.handshaken pc
    · cases h
  | provided snapshot =>
    simp only [next] at h
    split at h
    · rename_i pc
      cases h
      split_ifs
      · exact BroadcasterTurn.nothing pc
      · exact BroadcasterTurn.provided pc
    · cases h
  | written ok =>
    simp only [next] at h
    split at h
    · rename_i pc
      cases h
      cases ok with
      | true => exact BroadcasterTurn.written pc
      | false => exact BroadcasterTurn.failed pc
    · cases h
  | closed =>
    simp only [next] at h
    split at h
    · rename_i pc
      cases h
      exact StopperTurn.close pc
    · cases h
  | received id cmd =>
    simp only [next] at h
    split at h
    · rename_i pc
      cases h
      exact ReaderTurn.received pc
    · cases h
  | readFailed id =>
    simp only [next] at h
    split at h
    · rename_i pc
      cases h
      exact ReaderTurn.failed pc
    · cases h

end WsServer
