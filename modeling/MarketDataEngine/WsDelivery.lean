import MarketDataEngine.WsServer

/-!
# What the dashboard clients receive

The server refines the broadcast of its snapshots to subscribers: registering a client is
joining, the lock of `broadcast` publishes, a write delivers, and the end of `alive` is
leaving. The invariant behind it says which clients the broadcaster still has to serve.
-/

namespace WsDelivery

open Transition WsServer

/-! ## The invariant -/

/-- The clients the broadcaster has not yet come to in this round. -/
def pending : BroadcasterPc → List Nat
  | .sending _ rest => rest
  | .writing _ id rest => id :: rest
  | _ => []

/-- The client whose `alive` was seen set and that is now written to. -/
def serving : BroadcasterPc → Option Nat
  | .writing _ id _ => some id
  | _ => none

/-- How far a round of the broadcaster has come through the list. -/
def Round (clients : List Nat) (heap : Nat → Client) (published : List Msg) :
    BroadcasterPc → Prop
  | .sending msg rest => rest <:+ clients ∧ published.getLast? = some msg
  | .writing msg id rest => id :: rest <:+ clients ∧ published.getLast? = some msg
  | .removing kept rest => ∃ front, clients = front ++ rest ∧ kept.Sublist front ∧
      ∀ id ∈ front, (heap id).alive = true → id ∈ kept
  | _ => True

/-- `stop()` closes the list from its front. -/
def Closing (clients : List Nat) (heap : Nat → Client) : StopPc → Prop
  | .closing rest => ∃ front, clients = front ++ rest ∧ ∀ id ∈ front, (heap id).alive = false
  | _ => True

structure Sound (clients : List Nat) (heap : Nat → Client) (fresh : Nat) (published : List Msg)
    (broadcaster : BroadcasterPc) (stopper : StopPc) : Prop where
  distinct : clients.Nodup
  known : ∀ id ∈ clients, id < fresh
  listed : ∀ id < fresh, (heap id).alive = true → id ∈ clients
  current : ∀ id < fresh, (heap id).alive = true ∨ serving broadcaster = some id →
    (heap id).since + (heap id).sent.length + (if id ∈ pending broadcaster then 1 else 0) =
      published.length
  round : Round clients heap published broadcaster
  closing : Closing clients heap stopper
  exclusive : broadcaster.holds = true → stopper.holds = false

def Inv (s : State) : Prop :=
  Sound s.clients s.heap s.fresh s.published s.broadcaster s.stopper

variable {clients : List Nat} {heap heap' : Nat → Client} {fresh : Nat} {published : List Msg}
  {broadcaster : BroadcasterPc} {stopper : StopPc}

/-- What happens to a client outside the broadcast can only end its life. -/
theorem Sound.frame (sound : Sound clients heap fresh published broadcaster stopper)
    (fewer : ∀ id, (heap' id).alive = true → (heap id).alive = true)
    (same : ∀ id, (heap' id).since = (heap id).since ∧ (heap' id).sent = (heap id).sent) :
    Sound clients heap' fresh published broadcaster stopper where
  distinct := sound.distinct
  known := sound.known
  listed := fun id known alive => sound.listed id known (fewer id alive)
  current := fun id known now => by
    rw [(same id).1, (same id).2]
    exact sound.current id known (now.imp_left (fewer id))
  round := by
    have round := sound.round
    unfold Round at round ⊢
    split at round
    · exact round
    · exact round
    · obtain ⟨front, split, sublist, kept⟩ := round
      exact ⟨front, split, sublist, fun id mem alive => kept id mem (fewer id alive)⟩
    · trivial
  closing := by
    have closing := sound.closing
    unfold Closing at closing ⊢
    split at closing
    · obtain ⟨front, split, dead⟩ := closing
      refine ⟨front, split, fun id mem => Bool.eq_false_iff.mpr (fun alive => ?_)⟩
      have was := fewer id alive
      rw [dead id mem] at was
      cases was
    · trivial
  exclusive := sound.exclusive

/-- A record of one client in place of another one. -/
theorem Sound.update (sound : Sound clients heap fresh published broadcaster stopper) {id : Nat}
    {client : Client} (fewer : client.alive = true → (heap id).alive = true)
    (since : client.since = (heap id).since) (sent : client.sent = (heap id).sent) :
    Sound clients (Function.update heap id client) fresh published broadcaster stopper := by
  refine sound.frame (fun j => ?_) (fun j => ?_)
  · by_cases same : j = id
    · subst same
      rwa [Function.update_self]
    · rw [Function.update_of_ne same]
      exact fun alive => alive
  · by_cases same : j = id
    · subst same
      rw [Function.update_self]
      exact ⟨since, sent⟩
    · rw [Function.update_of_ne same]
      exact ⟨rfl, rfl⟩

/-- Without the lock the broadcaster owes nobody anything. -/
theorem free_broadcaster (free : broadcaster.holds = false) :
    pending broadcaster = [] ∧ serving broadcaster = none ∧
      ∀ clients heap published, Round clients heap published broadcaster := by
  cases broadcaster <;> simp_all [BroadcasterPc.holds, pending, serving, Round]

theorem free_stopper (free : stopper.holds = false) (clients : List Nat) (heap : Nat → Client) :
    Closing clients heap stopper := by
  cases stopper <;> simp_all [StopPc.holds, Closing]

theorem Sound.register (sound : Sound clients heap fresh published broadcaster stopper)
    (freeBroadcaster : broadcaster.holds = false) (freeStopper : stopper.holds = false) :
    Sound (clients ++ [fresh]) (Function.update heap fresh { since := published.length })
      (fresh + 1) published broadcaster stopper := by
  obtain ⟨none, nobody, round⟩ := free_broadcaster freeBroadcaster
  refine ⟨?_, ?_, ?_, ?_, round _ _ _, free_stopper freeStopper _ _, fun _ => freeStopper⟩
  · refine List.nodup_append.mpr ⟨sound.distinct, by simp, ?_⟩
    intro a ha b hb same
    rw [List.mem_singleton.mp hb] at same
    exact Nat.lt_irrefl _ (same ▸ sound.known a ha)
  · intro id mem
    rcases List.mem_append.mp mem with old | new
    · exact Nat.lt_succ_of_lt (sound.known id old)
    · rw [List.mem_singleton.mp new]
      exact Nat.lt_succ_self _
  · intro id below alive
    by_cases new : id = fresh
    · rw [new]
      exact List.mem_append_right _ (List.mem_singleton_self _)
    · rw [Function.update_of_ne new] at alive
      exact List.mem_append_left _ (sound.listed id (by omega) alive)
  · intro id below now
    rw [none]
    by_cases new : id = fresh
    · rw [new, Function.update_self]
      simp
    · rw [Function.update_of_ne new] at now ⊢
      have current := sound.current id (by omega) now
      rwa [none] at current

/-- A snapshot is published to everyone on the list. -/
theorem Sound.publish {msg : Msg}
    (sound : Sound clients heap fresh published broadcaster stopper)
    (freeBroadcaster : broadcaster.holds = false) (freeStopper : stopper.holds = false) :
    Sound clients heap fresh (published ++ [msg]) (.sending msg clients) stopper where
  distinct := sound.distinct
  known := sound.known
  listed := sound.listed
  current := fun id below now => by
    obtain ⟨none, -, -⟩ := free_broadcaster freeBroadcaster
    have alive : (heap id).alive = true := by simpa [serving] using now
    have current := sound.current id below (Or.inl alive)
    rw [none] at current
    simp only [pending, sound.listed id below alive, if_true, List.length_append,
      List.length_singleton]
    simpa using current
  round := ⟨List.suffix_refl _, by simp⟩
  closing := free_stopper freeStopper _ _
  exclusive := fun _ => freeStopper

/-- The round goes on behind a client that has been served, or is dead. -/
theorem Sound.advance {msg : Msg} {id : Nat} {rest : List Nat} {client : Client}
    (sound : Sound clients heap fresh published broadcaster stopper)
    (holds : broadcaster.holds = true) (pend : pending broadcaster = id :: rest)
    (inside : id :: rest <:+ clients) (last : published.getLast? = some msg)
    (fewer : client.alive = true → (heap id).alive = true)
    (done : client.alive = true →
      client.since + client.sent.length = (heap id).since + (heap id).sent.length + 1) :
    Sound clients (Function.update heap id client) fresh published (.sending msg rest)
      stopper where
  distinct := sound.distinct
  known := sound.known
  listed := fun j below alive => by
    by_cases same : j = id
    · rw [same]
      exact inside.subset List.mem_cons_self
    · rw [Function.update_of_ne same] at alive
      exact sound.listed j below alive
  current := fun j below now => by
    have alive : (Function.update heap id client j).alive = true := by simpa [serving] using now
    have distinct := (sound.distinct.sublist inside.sublist)
    obtain ⟨absent, -⟩ := List.nodup_cons.mp distinct
    by_cases same : j = id
    · subst same
      rw [Function.update_self] at alive ⊢
      have current := sound.current j below (Or.inl (fewer alive))
      simp only [pend, List.mem_cons_self, if_true] at current
      simp only [pending, absent, if_false]
      rw [← current, done alive]
    · rw [Function.update_of_ne same] at alive ⊢
      have current := sound.current j below (Or.inl alive)
      simp only [pend, List.mem_cons, same, false_or] at current
      exact current
  round := ⟨(List.suffix_cons id rest).trans inside, last⟩
  closing := free_stopper (sound.exclusive holds) _ _
  exclusive := fun _ => sound.exclusive holds

/-- The broadcaster between its rounds, and while it scans the list for dead clients. -/
theorem Sound.scan {pc : BroadcasterPc}
    (sound : Sound clients heap fresh published broadcaster stopper)
    (none : pending broadcaster = []) (nobody : serving pc = Option.none)
    (empty : pending pc = []) (round : Round clients heap published pc)
    (exclusive : pc.holds = true → stopper.holds = false) :
    Sound clients heap fresh published pc stopper where
  distinct := sound.distinct
  known := sound.known
  listed := sound.listed
  current := fun id below now => by
    have alive : (heap id).alive = true := by simpa [nobody] using now
    have current := sound.current id below (Or.inl alive)
    rw [none] at current
    rw [empty]
    exact current
  round := round
  closing := sound.closing
  exclusive := exclusive

theorem Sound.idle {pc : BroadcasterPc}
    (sound : Sound clients heap fresh published broadcaster stopper)
    (none : pending broadcaster = []) (free : pc.holds = false) :
    Sound clients heap fresh published pc stopper := by
  obtain ⟨empty, nobody, round⟩ := free_broadcaster free
  exact sound.scan none nobody empty (round _ _ _) (fun holds => by rw [free] at holds; cases holds)

/-- `stop()` elsewhere than in its loop over the list. -/
theorem Sound.outside {pc : StopPc}
    (sound : Sound clients heap fresh published broadcaster stopper) (free : pc.holds = false) :
    Sound clients heap fresh published broadcaster pc :=
  { sound with
    closing := free_stopper free _ _
    exclusive := fun _ => free }

theorem Sound.close {id : Nat} {rest : List Nat} {client : Client}
    (sound : Sound clients heap fresh published broadcaster (.closing (id :: rest)))
    (dead : client.alive = false) (since : client.since = (heap id).since)
    (sent : client.sent = (heap id).sent) :
    Sound clients (Function.update heap id client) fresh published broadcaster
      (.closing rest) := by
  have dying := sound.update (fun alive => by rw [dead] at alive; cases alive) since sent
  obtain ⟨front, split, closed⟩ := dying.closing
  refine { dying with
    closing := ⟨front ++ [id], by rw [split]; simp, ?_⟩
    exclusive := dying.exclusive }
  intro j mem
  rcases List.mem_append.mp mem with before | now
  · exact closed j before
  · rw [List.mem_singleton.mp now, Function.update_self]
    exact dead

/-- When `stop()` clears the list, nobody alive is on it. -/
theorem Sound.clear (sound : Sound clients heap fresh published broadcaster (.closing [])) :
    Sound [] heap fresh published broadcaster .joinAcceptor := by
  obtain ⟨front, split, dead⟩ := sound.closing
  rw [List.append_nil] at split
  have free : broadcaster.holds = false :=
    Bool.eq_false_iff.mpr (fun holds => by cases sound.exclusive holds)
  obtain ⟨-, -, round⟩ := free_broadcaster free
  have none : ∀ id, id ∈ ([] : List Nat) → id < fresh := fun id mem => by cases mem
  refine ⟨List.nodup_nil, none, ?_, sound.current, round _ _ _, trivial, fun _ => rfl⟩
  intro id below alive
  have mem := sound.listed id below alive
  rw [split] at mem
  rw [dead id mem] at alive
  cases alive

/-! ## Each turn keeps it -/

theorem unlocked_iff {s : State} :
    s.locked = false ↔ s.broadcaster.holds = false ∧ s.stopper.holds = false := by
  rw [State.locked, Bool.or_eq_false_iff]

theorem inv_acceptor {controller : Bool} {s t : State} (inv : Inv s)
    (turn : AcceptorTurn controller s t) : Inv t := by
  cases turn with
  | register pc unlocked =>
    obtain ⟨broadcaster, stopper⟩ := unlocked_iff.mp unlocked
    exact Sound.register inv broadcaster stopper
  | spawn pc => exact Sound.update inv (fun alive => alive) rfl rfl
  | _ => exact inv

theorem inv_reader {s t : State} {id : Nat} (inv : Inv s) (turn : ReaderTurn s id t) : Inv t := by
  cases turn with
  | left pc => exact Sound.update inv (fun alive => by cases alive) rfl rfl
  | _ => exact Sound.update inv (fun alive => alive) rfl rfl

theorem inv_stopper {s t : State} (inv : Inv s) (turn : StopperTurn s t) : Inv t := by
  have sound : Sound s.clients s.heap s.fresh s.published s.broadcaster s.stopper := inv
  cases turn with
  | lock pc unlocked =>
    obtain ⟨free, -⟩ := unlocked_iff.mp unlocked
    exact { sound with
      closing := ⟨[], rfl, fun id mem => by cases mem⟩
      exclusive := fun holds => by rw [free] at holds; cases holds }
  | close pc =>
    rw [pc] at sound
    exact sound.close rfl rfl rfl
  | clear pc =>
    rw [pc] at sound
    exact sound.clear
  | ioc pc | joinAcceptor pc | joinBroadcaster pc => exact sound.outside rfl

theorem inv_call {s t : State} (inv : Inv s) (turn : CallTurn s t) : Inv t := by
  cases turn <;> exact Sound.outside inv rfl

theorem inv_broadcaster {s t : State} (inv : Inv s) (turn : BroadcasterTurn s t) : Inv t := by
  have sound : Sound s.clients s.heap s.fresh s.published s.broadcaster s.stopper := inv
  have locked : s.broadcaster.holds = true → s.stopper.holds = false := sound.exclusive
  have scan := @Sound.scan s.clients s.heap s.fresh s.published s.broadcaster s.stopper
  cases turn with
  | publish pc unlocked =>
    obtain ⟨broadcaster, stopper⟩ := unlocked_iff.mp unlocked
    exact Sound.publish inv broadcaster stopper
  | lock pc unlocked =>
    obtain ⟨-, free⟩ := unlocked_iff.mp unlocked
    exact scan sound (by rw [pc]; rfl) rfl rfl
      ⟨[], rfl, List.Sublist.refl _, fun id mem => by cases mem⟩ (fun _ => free)
  | @serve msg id rest pc alive =>
    have round := sound.round
    have current := sound.current
    rw [pc] at round current
    refine { sound with current := ?_, round := round, exclusive := ?_ }
    · intro j below now
      refine current j below (Or.inl ?_)
      rcases now with alive' | serving
      · exact alive'
      · cases serving
        exact alive
    · exact fun _ => locked (by rw [pc]; rfl)
  | @skip msg id rest pc dead =>
    have round := sound.round
    rw [pc] at round
    have same : Function.update s.heap id (s.heap id) = s.heap := Function.update_eq_self _ _
    have moved := @Sound.advance _ _ _ _ _ _ msg id rest (s.heap id) sound (by rw [pc]; rfl)
      (by rw [pc]; rfl) round.1 round.2 (fun alive => alive)
      (fun alive => by rw [dead] at alive; cases alive)
    rwa [same] at moved
  | @written msg id rest pc =>
    have round := sound.round
    rw [pc] at round
    exact Sound.advance sound (by rw [pc]; rfl) (by rw [pc]; rfl) round.1 round.2
      (fun alive => alive) (fun _ => by simp [Nat.add_assoc])
  | @failed msg id rest pc =>
    have round := sound.round
    rw [pc] at round
    exact Sound.advance sound (by rw [pc]; rfl) (by rw [pc]; rfl) round.1 round.2
      (fun alive => by cases alive) (fun alive => by cases alive)
  | @keep kept id rest pc alive =>
    have round := sound.round
    rw [pc] at round
    obtain ⟨front, split, sublist, live⟩ := round
    refine scan sound (by rw [pc]; rfl) rfl rfl
      ⟨front ++ [id], by rw [split]; simp, sublist.append (List.Sublist.refl _), ?_⟩
      (fun _ => locked (by rw [pc]; rfl))
    intro j mem stays
    rcases List.mem_append.mp mem with before | now
    · exact List.mem_append_left _ (live j before stays)
    · exact List.mem_append_right _ now
  | @drop kept id rest pc dead =>
    have round := sound.round
    rw [pc] at round
    obtain ⟨front, split, sublist, live⟩ := round
    refine scan sound (by rw [pc]; rfl) rfl rfl
      ⟨front ++ [id], by rw [split]; simp, sublist.trans (List.sublist_append_left _ _), ?_⟩
      (fun _ => locked (by rw [pc]; rfl))
    intro j mem stays
    rcases List.mem_append.mp mem with before | now
    · exact live j before stays
    · rw [List.mem_singleton.mp now, dead] at stays
      cases stays
  | @removed kept pc =>
    have round := sound.round
    rw [pc] at round
    obtain ⟨front, split, sublist, live⟩ := round
    rw [List.append_nil] at split
    have scanned : Sound s.clients s.heap s.fresh s.published .checkRunning s.stopper :=
      sound.idle (by rw [pc]; rfl) rfl
    refine ⟨sound.distinct.sublist (split ▸ sublist), ?_, ?_, scanned.current, trivial, ?_,
      scanned.exclusive⟩
    · exact fun id mem => sound.known id (split ▸ sublist.subset mem)
    · exact fun id below alive => live id (split ▸ sound.listed id below alive) alive
    · exact free_stopper (locked (by rw [pc]; rfl)) _ _
  | test pc | retest pc => exact sound.idle (by rw [pc]; rfl) (by split_ifs <;> rfl)
  | wake pc | nothing pc | provided pc | sent pc => exact sound.idle (by rw [pc]; rfl) rfl

theorem next_inv {controller : Bool} {s t : State} {a : Action} (inv : Inv s)
    (h : next controller s a = some t) : Inv t := by
  have turn := next_turn h
  cases a with
  | bound | accepted | handshaken | acceptor => exact inv_acceptor inv turn
  | provided | written | broadcaster => exact inv_broadcaster inv turn
  | stop => exact inv_call inv turn
  | stopper | closed => exact inv_stopper inv turn
  | received | readFailed | reader => exact inv_reader inv turn

theorem initial_inv : Inv ({} : State) where
  distinct := List.nodup_nil
  known := fun id mem => by cases mem
  listed := fun id below => absurd below (Nat.not_lt_zero id)
  current := fun id below => absurd below (Nat.not_lt_zero id)
  round := trivial
  closing := trivial
  exclusive := fun _ => rfl

theorem reachable_inv {controller : Bool} {s : State}
    (reached : (machine controller).Reachable s) : Inv s :=
  Machine.invariant (machine controller) Inv initial_inv (fun _ _ _ _ inv h => next_inv inv h)
    reached

/-! ## The broadcast behind it -/

/-- A client as a subscriber. -/
def seen (client : Client) : Subscriptions.Subscriber Msg :=
  ⟨client.since, client.alive, client.sent⟩

/-- The server as a broadcast: who is registered, what was published and what arrived. -/
def broadcastOf (s : State) : Subscriptions.State Nat Msg where
  log := s.published
  subs := fun id => if id < s.fresh then some (seen (s.heap id)) else none

theorem broadcastOf_known {s : State} {id : Nat} (known : id < s.fresh) :
    (broadcastOf s).subs id = some (seen (s.heap id)) := if_pos known

theorem broadcastOf_unknown {s : State} {id : Nat} (unknown : ¬ id < s.fresh) :
    (broadcastOf s).subs id = none := if_neg unknown

theorem broadcastOf_setClient {s : State} {id : Nat} (known : id < s.fresh) (client : Client) :
    broadcastOf (s.setClient id client) =
      ⟨s.published, Function.update (broadcastOf s).subs id (some (seen client))⟩ := by
  refine congrArg (Subscriptions.State.mk s.published) (funext fun j => ?_)
  change (if j < s.fresh then some (seen (Function.update s.heap id client j)) else none) = _
  by_cases same : j = id
  · subst same
    rw [Function.update_self, Function.update_self, if_pos known]
  · rw [Function.update_of_ne same, Function.update_of_ne same]
    rfl

theorem broadcastOf_register (s : State) :
    broadcastOf s.register = ⟨s.published,
      Function.update (broadcastOf s).subs s.fresh (some ⟨s.published.length, true, []⟩)⟩ := by
  refine congrArg (Subscriptions.State.mk s.published) (funext fun j => ?_)
  change (if j < s.fresh + 1 then some (seen (Function.update s.heap s.fresh
    { since := s.published.length } j)) else none) = _
  by_cases same : j = s.fresh
  · subst same
    rw [Function.update_self, Function.update_self, if_pos (Nat.lt_succ_self _)]
    rfl
  · rw [Function.update_of_ne same, Function.update_of_ne same]
    by_cases below : j < s.fresh
    · rw [if_pos (Nat.lt_succ_of_lt below), broadcastOf_known below]
    · rw [if_neg (by omega), broadcastOf_unknown below]

/-- A reader thread and `stop()` at most end the life of a client. -/
theorem broadcastOf_frame {s : State} {id : Nat} {client : Client}
    (since : client.since = (s.heap id).since) (sent : client.sent = (s.heap id).sent)
    (alive : client.alive = (s.heap id).alive ∨ client.alive = false) :
    broadcastOf (s.setClient id client) = broadcastOf s ∨
      ∃ b, Subscriptions.next (broadcastOf s) b = some (broadcastOf (s.setClient id client)) := by
  by_cases known : id < s.fresh
  · have own := broadcastOf_known known
    rw [broadcastOf_setClient known]
    rcases alive with same | dead
    · left
      have unchanged : seen client = seen (s.heap id) := by rw [seen, since, same, sent]; rfl
      rw [unchanged, ← own, Function.update_eq_self]
      rfl
    · right
      refine ⟨.leave id, ?_⟩
      rw [seen, since, dead, sent, Subscriptions.next, own]
      rfl
  · left
    refine congrArg (Subscriptions.State.mk s.published) (funext fun j => ?_)
    by_cases below : j < s.fresh
    · change (if j < s.fresh then some (seen (Function.update s.heap id client j)) else none) = _
      rw [Function.update_of_ne (by omega)]
    · exact (if_neg below).trans (if_neg below).symm

theorem register_broadcast (s : State) :
    Subscriptions.next (broadcastOf s) (.join s.fresh) = some (broadcastOf s.register) := by
  rw [Subscriptions.next, broadcastOf_unknown (Nat.lt_irrefl _), broadcastOf_register]
  rfl

/-- Nobody alive is behind when a snapshot is published. -/
theorem current_broadcast {s : State} (inv : Inv s) (none : pending s.broadcaster = []) :
    Subscriptions.Current (broadcastOf s) := by
  intro id sub found live
  by_cases known : id < s.fresh
  · rw [broadcastOf_known known] at found
    cases found
    have current := inv.current id known (Or.inl live)
    rw [none] at current
    exact current
  · rw [broadcastOf_unknown known] at found
    cases found

/-- A client that is written to lacks exactly the snapshot it is sent. -/
theorem written_broadcast {s : State} (inv : Inv s) {msg : Msg} {id : Nat} {rest : List Nat}
    (pc : s.broadcaster = .writing msg id rest) :
    Subscriptions.next (broadcastOf s) (.deliver id) = some (broadcastOf
      (s.setClient id { s.heap id with sent := (s.heap id).sent ++ [msg] })) := by
  have round := inv.round
  have current := inv.current
  rw [pc] at round current
  obtain ⟨inside, last⟩ := round
  have known := inv.known id (inside.subset List.mem_cons_self)
  have behind := current id known (Or.inr rfl)
  simp only [pending, List.mem_cons_self, if_true] at behind
  have found : (broadcastOf s).log[(seen (s.heap id)).upTo]? = some msg := by
    rw [List.getLast?_eq_getElem?] at last
    change s.published[(s.heap id).since + (s.heap id).sent.length]? = some msg
    rw [← last, ← behind]
    rfl
  rw [broadcastOf_setClient known, Subscriptions.next, broadcastOf_known known, Option.bind_some,
    found]
  rfl

theorem next_broadcast {controller : Bool} {s t : State} {a : Action} (inv : Inv s)
    (h : next controller s a = some t) :
    broadcastOf t = broadcastOf s ∨
      ∃ b, Subscriptions.next (broadcastOf s) b = some (broadcastOf t) := by
  have turn := next_turn h
  cases a with
  | bound | accepted | handshaken | acceptor =>
    cases turn with
    | register pc unlocked => exact Or.inr ⟨_, register_broadcast s⟩
    | @spawn id pc =>
      exact @broadcastOf_frame s id { s.heap id with reader := .checkAlive } rfl rfl (Or.inl rfl)
    | _ => exact Or.inl rfl
  | provided | written | broadcaster =>
    cases turn with
    | @publish msg pc unlocked =>
      have none : pending s.broadcaster = [] := by rw [pc]; rfl
      exact Or.inr ⟨.publish msg, if_pos (current_broadcast inv none)⟩
    | written pc => exact Or.inr ⟨_, written_broadcast inv pc⟩
    | @failed msg id rest pc =>
      exact @broadcastOf_frame s id { s.heap id with alive := false } rfl rfl (Or.inr rfl)
    | _ => exact Or.inl rfl
  | stop => cases turn <;> exact Or.inl rfl
  | stopper | closed =>
    cases turn with
    | @close id rest pc =>
      exact @broadcastOf_frame s id { s.heap id with alive := false } rfl rfl (Or.inr rfl)
    | _ => exact Or.inl rfl
  | received id cmd | readFailed id | reader id =>
    cases turn with
    | left pc => exact broadcastOf_frame rfl rfl (Or.inr rfl)
    | _ => exact broadcastOf_frame rfl rfl (Or.inl rfl)

/-- The server broadcasts its snapshots to its clients. -/
theorem refines_broadcast (controller : Bool) :
    (machine controller).Refines (Subscriptions.machine Nat Msg) broadcastOf := by
  refine ⟨?_, fun s a t reached h => next_broadcast (reachable_inv reached) h⟩
  exact congrArg (Subscriptions.State.mk []) (funext fun id => if_neg (Nat.not_lt_zero id))

/-- In every interleaving of the acceptor, the broadcaster, the readers and `stop()`:
what a client was sent is a contiguous part of the published snapshots, from the first
one published after it was registered; a client that is alive is on the list, and was
sent all of them, but for the last one while the broadcaster has yet to come to it. -/
theorem clients_served (controller : Bool) {s : State}
    (reached : (machine controller).Reachable s) {id : Nat} (known : id < s.fresh) :
    (s.heap id).sent =
      (s.published.drop (s.heap id).since).take (s.heap id).sent.length ∧
    ((s.heap id).alive = true → id ∈ s.clients ∧
      (id ∉ pending s.broadcaster → (s.heap id).sent = s.published.drop (s.heap id).since) ∧
      (id ∈ pending s.broadcaster → ∃ msg, s.published.getLast? = some msg ∧
        (s.heap id).sent ++ [msg] = s.published.drop (s.heap id).since)) := by
  have inv := reachable_inv reached
  have served := Subscriptions.reachable_inv ((refines_broadcast controller).reachable reached)
    id _ (if_pos known)
  have slice : (s.heap id).sent =
      (s.published.drop (s.heap id).since).take (s.heap id).sent.length := served.slice
  refine ⟨slice, fun alive => ⟨inv.listed id known alive, ?_, ?_⟩⟩
  · intro served'
    have current := inv.current id known (Or.inl alive)
    rw [if_neg served', Nat.add_zero] at current
    rw [slice, List.take_of_length_le]
    rw [List.length_drop]
    omega
  · intro waits
    have current := inv.current id known (Or.inl alive)
    rw [if_pos waits] at current
    have some : ∃ msg, s.published.getLast? = some msg := by
      have round := inv.round
      revert waits
      cases pc : s.broadcaster <;> intro waits <;> rw [pc] at round
      all_goals first | exact ⟨_, round.2⟩ | cases waits
    obtain ⟨msg, last⟩ := some
    refine ⟨msg, last, ?_⟩
    have found : (s.published.drop (s.heap id).since)[(s.heap id).sent.length]? = some msg := by
      rw [List.getLast?_eq_getElem?] at last
      rw [List.getElem?_drop, ← last, ← current]
      rfl
    have next := List.take_add_one (l := s.published.drop (s.heap id).since)
      (i := (s.heap id).sent.length)
    rw [← slice, found, List.take_of_length_le (by rw [List.length_drop]; omega)] at next
    exact next.symm

/-- A client is registered, and the second of two snapshots is on its way to it. -/
def sampleRun : List Action :=
  [.bound true, .acceptor, .accepted true, .handshaken true, .acceptor, .acceptor,
    .broadcaster, .broadcaster, .broadcaster, .provided [0x31], .broadcaster, .broadcaster,
    .written true, .broadcaster, .broadcaster, .broadcaster, .broadcaster, .broadcaster,
    .broadcaster, .broadcaster, .provided [0x32], .broadcaster, .broadcaster]

def sampleState : State := (((machine true).run (machine true).init sampleRun)).getD {}

theorem clients_served_sampleState :
    (sampleState.heap 0).sent = [[0x31]] ∧ sampleState.published = [[0x31], [0x32]] ∧
    (sampleState.heap 0).sent =
      (sampleState.published.drop (sampleState.heap 0).since).take
        (sampleState.heap 0).sent.length ∧
    ((sampleState.heap 0).alive = true → 0 ∈ sampleState.clients ∧
      (0 ∉ pending sampleState.broadcaster →
        (sampleState.heap 0).sent = sampleState.published.drop (sampleState.heap 0).since) ∧
      (0 ∈ pending sampleState.broadcaster → ∃ msg, sampleState.published.getLast? = some msg ∧
        (sampleState.heap 0).sent ++ [msg] =
          sampleState.published.drop (sampleState.heap 0).since)) :=
  ⟨rfl, rfl, clients_served true ⟨sampleRun, rfl⟩ (by decide)⟩

end WsDelivery
