import MarketDataEngine.Pipeline
import MarketDataEngine.MarketTypes

/-!
# The live producer

The feed thread: `WsClient::run` with its read loop, and `FeedHandler::on_message`
for every text message read. Connecting, failing and receiving are up to the
environment, and so is the moment `stop()` is called. What parsing makes of a
raw message is a parameter; reconnect delays and log lines are left out, and so is
the synchronous `ws.close` behind the read loop, which can wait for the exchange.
-/

namespace FeedHandler

open Pipeline

universe u v

/-- `FeedQueue` has 8192 slots. -/
def feedQueue : SpscQueue.Capacity where
  val := 8192
  power := by decide
  positive := by decide

/-- Where the feed thread is. The two loops of `WsClient` test the shared flag and
`stopped_` one after the other, and so does the test before a reconnect. -/
inductive Pc (Raw : Type u) where
  | checkRunning
  | checkStopped
  | connecting
  | readRunning
  | readStopped
  | reading
  | parsing (raw : Raw)
  | pushing
  | recheckRunning
  | recheckStopped
  | exited
  deriving DecidableEq

structure State (Raw : Type u) where
  pc : Pc Raw := .checkRunning
  stopped : Bool := false
  msgCount : Nat := 0
  parseErrors : Nat := 0
  queueFull : Nat := 0

inductive Action (Raw : Type u) (T : Type v) where
  | step (left : T)
  | connected
  | failed
  | receive (raw : Raw)
  | stop

variable {Raw : Type u} {T : Type v}

/-- `on_message` up to its `try_push`, whose message is moved from. -/
def onMessage (parse : Raw → Option T) (s : State Raw) (raw : Raw) :
    State Raw × Option (PushAction T) :=
  match parse raw with
  | none =>
    ({ s with
        pc := .readRunning
        msgCount := s.msgCount + 1
        parseErrors := s.parseErrors + 1 }, none)
  | some msg => ({ s with pc := .pushing, msgCount := s.msgCount + 1 }, some (.call msg))

/-- The thread's own steps. It leaves the read loop at once: the closing handshake with the
exchange is not one of them. -/
def threadStep (parse : Raw → Option T) (running : Bool) (pushPc : SpscQueue.PushPc T)
    (s : State Raw) (left : T) : Option (State Raw × Option (PushAction T)) :=
  match s.pc with
  | .checkRunning => some ({ s with pc := if running then .checkStopped else .exited }, none)
  | .checkStopped => some ({ s with pc := if s.stopped then .exited else .connecting }, none)
  | .readRunning =>
    some ({ s with pc := if running then .readStopped else .recheckRunning }, none)
  | .readStopped => some ({ s with pc := if s.stopped then .recheckRunning else .reading }, none)
  | .parsing raw => some (onMessage parse s raw)
  | .pushing =>
    match pushPc with
    | .returned true _ => some ({ s with pc := .readRunning }, none)
    | .returned false _ =>
      some ({ s with pc := .readRunning, queueFull := s.queueFull + 1 }, none)
    | .ready => none
    | _ => some (s, some (.step left))
  | .recheckRunning =>
    some ({ s with pc := if running then .recheckStopped else .exited }, none)
  | .recheckStopped =>
    some ({ s with pc := if s.stopped then .exited else .checkRunning }, none)
  | .connecting | .reading | .exited => none

def next (parse : Raw → Option T) (running : Bool) (pushPc : SpscQueue.PushPc T)
    (s : State Raw) : Action Raw T → Option (State Raw × Option (PushAction T))
  | .step left => threadStep parse running pushPc s left
  | .connected =>
    match s.pc with
    | .connecting => some ({ s with pc := .readRunning }, none)
    | _ => none
  | .failed =>
    match s.pc with
    | .connecting | .reading => some ({ s with pc := .recheckRunning }, none)
    | _ => none
  | .receive raw =>
    match s.pc with
    | .reading => some ({ s with pc := .parsing raw }, none)
    | _ => none
  | .stop => some ({ s with stopped := true }, none)

/-- The feed thread as a producer, for any parser. -/
def producer (parse : Raw → Option T) : Producer (State Raw) (Action Raw T) T where
  init := {}
  next := next parse

/-! ## What a step does -/

/-- The steps of the feed thread, and of what it waits for. -/
inductive Turn (parse : Raw → Option T) (running : Bool) (pushPc : SpscQueue.PushPc T)
    (s : State Raw) : State Raw → Option (PushAction T) → Prop
  | test (pc : s.pc = .checkRunning) (up : running = true) :
    Turn parse running pushPc s { s with pc := .checkStopped } none
  | connect (pc : s.pc = .checkStopped) :
    Turn parse running pushPc s { s with pc := .connecting } none
  | leave (pc : s.pc = .checkRunning ∨ s.pc = .checkStopped ∨ s.pc = .recheckRunning ∨
      s.pc = .recheckStopped) : Turn parse running pushPc s { s with pc := .exited } none
  | connected (pc : s.pc = .connecting) :
    Turn parse running pushPc s { s with pc := .readRunning } none
  | look (pc : s.pc = .readRunning) (up : running = true) :
    Turn parse running pushPc s { s with pc := .readStopped } none
  | listen (pc : s.pc = .readStopped) :
    Turn parse running pushPc s { s with pc := .reading } none
  | close (pc : s.pc = .connecting ∨ s.pc = .readRunning ∨ s.pc = .readStopped ∨
      s.pc = .reading) : Turn parse running pushPc s { s with pc := .recheckRunning } none
  | received {raw : Raw} (pc : s.pc = .reading) :
    Turn parse running pushPc s { s with pc := .parsing raw } none
  | unparsed {raw : Raw} (pc : s.pc = .parsing raw) (failed : parse raw = none) :
    Turn parse running pushPc s { s with
      pc := .readRunning
      msgCount := s.msgCount + 1
      parseErrors := s.parseErrors + 1 } none
  | parsed {raw : Raw} {msg : T} (pc : s.pc = .parsing raw) (parsed : parse raw = some msg) :
    Turn parse running pushPc s { s with pc := .pushing, msgCount := s.msgCount + 1 }
      (some (.call msg))
  | inPush {left : T} (pc : s.pc = .pushing) : Turn parse running pushPc s s (some (.step left))
  | pushed {item : T} (pc : s.pc = .pushing) (returned : pushPc = .returned true item) :
    Turn parse running pushPc s { s with pc := .readRunning } none
  | refused {item : T} (pc : s.pc = .pushing) (returned : pushPc = .returned false item) :
    Turn parse running pushPc s { s with pc := .readRunning, queueFull := s.queueFull + 1 } none
  | recheck (pc : s.pc = .recheckRunning) (up : running = true) :
    Turn parse running pushPc s { s with pc := .recheckStopped } none
  | again (pc : s.pc = .recheckStopped) :
    Turn parse running pushPc s { s with pc := .checkRunning } none

variable {parse : Raw → Option T} {running : Bool} {pushPc : SpscQueue.PushPc T}
  {s t : State Raw} {act : Option (PushAction T)}

theorem threadStep_turn {left : T} (h : threadStep parse running pushPc s left = some (t, act)) :
    Turn parse running pushPc s t act := by
  unfold threadStep at h
  cases pc : s.pc with
  | checkRunning =>
    simp only [pc] at h
    cases h
    cases running with
    | true => exact .test pc rfl
    | false => exact .leave (Or.inl pc)
  | checkStopped =>
    simp only [pc] at h
    cases h
    split_ifs
    · exact .leave (Or.inr (Or.inl pc))
    · exact .connect pc
  | readRunning =>
    simp only [pc] at h
    cases h
    cases running with
    | true => exact .look pc rfl
    | false => exact .close (Or.inr (Or.inl pc))
  | readStopped =>
    simp only [pc] at h
    cases h
    split_ifs
    · exact .close (Or.inr (Or.inr (Or.inl pc)))
    · exact .listen pc
  | parsing raw =>
    simp only [pc, onMessage] at h
    cases parsed : parse raw with
    | none =>
      simp only [parsed] at h
      cases h
      exact .unparsed pc parsed
    | some msg =>
      simp only [parsed] at h
      cases h
      exact .parsed pc parsed
  | pushing =>
    simp only [pc] at h
    split at h
    · cases h
      exact .pushed pc rfl
    · cases h
      exact .refused pc rfl
    · cases h
    · cases h
      exact .inPush pc
  | recheckRunning =>
    simp only [pc] at h
    cases h
    cases running with
    | true => exact .recheck pc rfl
    | false => exact .leave (Or.inr (Or.inr (Or.inl pc)))
  | recheckStopped =>
    simp only [pc] at h
    cases h
    split_ifs
    · exact .leave (Or.inr (Or.inr (Or.inr pc)))
    · exact .again pc
  | connecting | reading | exited => simp [pc] at h

theorem next_turn {a : Action Raw T} (h : next parse running pushPc s a = some (t, act)) :
    Turn parse running pushPc s t act ∨
      a = .stop ∧ t = { s with stopped := true } ∧ act = none := by
  cases a with
  | step left => exact Or.inl (threadStep_turn h)
  | connected =>
    simp only [next] at h
    split at h
    · rename_i pc
      cases h
      exact Or.inl (.connected pc)
    · cases h
  | failed =>
    simp only [next] at h
    split at h
    · rename_i pc
      cases h
      exact Or.inl (.close (Or.inl pc))
    · rename_i pc
      cases h
      exact Or.inl (.close (Or.inr (Or.inr (Or.inr pc))))
    · cases h
  | receive raw =>
    simp only [next] at h
    split at h
    · rename_i pc
      cases h
      exact Or.inl (.received pc)
    · cases h
  | stop =>
    cases h
    exact Or.inr ⟨rfl, rfl, rfl⟩

end FeedHandler
