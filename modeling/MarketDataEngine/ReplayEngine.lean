import MarketDataEngine.Pipeline
import MarketDataEngine.DiskReader
import Mathlib.Data.Rat.Floor

/-!
# The replaying producer

`ReplayEngine::run` of `replay/replay_engine.cpp`: pause and shutdown tests, one
record at a time, and a retry loop on a full queue. Other threads pause, resume
and change the speed at any moment. A delay only takes time, so its length is
computed and then passed over. Converting a record whose symbol has no
terminator reads past the field; the thread is then `faulted` and takes no step.
-/

namespace ReplayEngine

open MarketTypes RecordFormat Pipeline

inductive PlaybackSpeed where
  | realtime
  | fast2x
  | fast5x
  | max
  deriving DecidableEq, Repr

/-- `speed_divisor`; 0 stands for no delay. -/
def PlaybackSpeed.divisor : PlaybackSpeed → ℚ
  | .realtime => 1
  | .fast2x => 2
  | .fast5x => 5
  | .max => 0

/-- Where the replay thread is. -/
inductive Pc where
  | checkRunning
  | checkPaused
  | pausedRunning
  | checkResume
  | read
  | delay (rhdr : RecordHeader) (rec : DepthRecord)
  | sleeping (us : Nat) (rec : DepthRecord)
  | pushing
  | retryCheck (msg : QueueMessage Double)
  | count
  | exited
  | faulted
  deriving DecidableEq

structure State where
  pc : Pc := .checkRunning
  reader : DiskReader
  prevWallUs : UInt64 := 0
  speed : PlaybackSpeed := .realtime
  paused : Bool := false
  finished : Bool := false
  replayed : Nat := 0

/-- A step carries the clock readings for the timestamps of a converted record. -/
inductive Action where
  | step (left : QueueMessage Double) (now enqueued : TimePoint)
  | pause
  | resume
  | setSpeed (speed : PlaybackSpeed)

/-- The delay between two records, in whole microseconds. -/
def sleepUs (speed : PlaybackSpeed) (prevWallUs wallUs : UInt64) : Nat :=
  if speed.divisor > 0 ∧ prevWallUs > 0 ∧ wallUs > prevWallUs then
    ⌊((wallUs - prevWallUs).toNat : ℚ) / speed.divisor⌋₊
  else 0

/-- `msg.depth` for a converted record, with fresh timestamps. -/
def message (update : DepthUpdate Double) (now enqueued : TimePoint) : QueueMessage Double :=
  .depthUpdate { update with tsReceived := now, tsParsed := now, tsEnqueued := enqueued }

def threadStep (running : Bool) (pushPc : SpscQueue.PushPc (QueueMessage Double)) (s : State)
    (left : QueueMessage Double) (now enqueued : TimePoint) :
    Option (State × Option (PushAction (QueueMessage Double))) :=
  match s.pc with
  | .checkRunning => some ({ s with pc := if running then .checkPaused else .exited }, none)
  | .checkPaused =>
    some ({ s with pc := if s.paused then .pausedRunning else .checkResume }, none)
  | .pausedRunning =>
    some ({ s with pc := if running then .checkPaused else .checkResume }, none)
  | .checkResume => some ({ s with pc := if running then .read else .exited }, none)
  | .read =>
    match s.reader.readNext with
    | (none, reader) => some ({ s with pc := .exited, reader := reader, finished := true }, none)
    | (some (rhdr, rec), reader) =>
      some ({ s with pc := .delay rhdr rec, reader := reader }, none)
  | .delay rhdr rec =>
    some ({ s with
      pc := .sleeping (sleepUs s.speed s.prevWallUs rhdr.wallTimestampUs) rec
      prevWallUs := rhdr.wallTimestampUs }, none)
  | .sleeping _ rec =>
    match fromRecord rec with
    | none => some ({ s with pc := .faulted }, none)
    | some update =>
      some ({ s with pc := .pushing }, some (.call (message update now enqueued)))
  | .pushing =>
    match pushPc with
    | .returned true _ => some ({ s with pc := .count }, none)
    | .returned false msg => some ({ s with pc := .retryCheck msg }, none)
    | .ready => none
    | _ => some (s, some (.step left))
  | .retryCheck msg =>
    if running then some ({ s with pc := .pushing }, some (.call msg))
    else some ({ s with pc := .exited }, none)
  | .count => some ({ s with pc := .checkRunning, replayed := s.replayed + 1 }, none)
  | .exited | .faulted => none

def next (running : Bool) (pushPc : SpscQueue.PushPc (QueueMessage Double)) (s : State) :
    Action → Option (State × Option (PushAction (QueueMessage Double)))
  | .step left now enqueued => threadStep running pushPc s left now enqueued
  | .pause => some ({ s with paused := true }, none)
  | .resume => some ({ s with paused := false }, none)
  | .setSpeed speed => some ({ s with speed }, none)

/-- The replay thread as a producer, with a loaded file and an initial speed. -/
def producer (reader : DiskReader) (speed : PlaybackSpeed) :
    Producer State Action (QueueMessage Double) where
  init := { reader, speed }
  next := next

/-! ## What one step of the thread does -/

/-- The tests of the flag and of the pause between two records. -/
def Pc.Control : Pc → Prop
  | .checkRunning | .checkPaused | .pausedRunning | .checkResume => True
  | _ => False

/-- The steps of the replay thread, by what they do with the record in hand. -/
inductive Turn (running : Bool) (pushPc : SpscQueue.PushPc (QueueMessage Double)) (s : State) :
    State → Option (PushAction (QueueMessage Double)) → Prop
  | control {pc : Pc} (before : s.pc.Control) (after : pc.Control ∨ pc = .read ∨ pc = .exited) :
    Turn running pushPc s { s with pc } none
  | finish {reader : DiskReader} (pc : s.pc = .read) (read : s.reader.readNext = (none, reader)) :
    Turn running pushPc s { s with pc := .exited, reader, finished := true } none
  | read {rhdr : RecordHeader} {rec : DepthRecord} {reader : DiskReader} (pc : s.pc = .read)
    (read : s.reader.readNext = (some (rhdr, rec), reader)) :
    Turn running pushPc s { s with pc := .delay rhdr rec, reader } none
  | delay {rhdr : RecordHeader} {rec : DepthRecord} {us : Nat} {prevWallUs : UInt64}
    (pc : s.pc = .delay rhdr rec) :
    Turn running pushPc s { s with pc := .sleeping us rec, prevWallUs } none
  | fault {us : Nat} {rec : DepthRecord} (pc : s.pc = .sleeping us rec)
    (unconverted : fromRecord rec = none) : Turn running pushPc s { s with pc := .faulted } none
  | push {us : Nat} {rec : DepthRecord} {update : DepthUpdate Double} {now enqueued : TimePoint}
    (pc : s.pc = .sleeping us rec) (converted : fromRecord rec = some update) :
    Turn running pushPc s { s with pc := .pushing } (some (.call (message update now enqueued)))
  | pushed {item : QueueMessage Double} (pc : s.pc = .pushing)
    (returned : pushPc = .returned true item) : Turn running pushPc s { s with pc := .count } none
  | refused {item : QueueMessage Double} (pc : s.pc = .pushing)
    (returned : pushPc = .returned false item) :
    Turn running pushPc s { s with pc := .retryCheck item } none
  | inPush {left : QueueMessage Double} (pc : s.pc = .pushing) :
    Turn running pushPc s s (some (.step left))
  | retry {item : QueueMessage Double} (pc : s.pc = .retryCheck item) (up : running = true) :
    Turn running pushPc s { s with pc := .pushing } (some (.call item))
  | abandon {item : QueueMessage Double} (pc : s.pc = .retryCheck item) (down : running = false) :
    Turn running pushPc s { s with pc := .exited } none
  | count (pc : s.pc = .count) :
    Turn running pushPc s { s with pc := .checkRunning, replayed := s.replayed + 1 } none

theorem threadStep_turn {running : Bool} {pushPc : SpscQueue.PushPc (QueueMessage Double)}
    {s s' : State} {act : Option (PushAction (QueueMessage Double))}
    {left : QueueMessage Double} {now enqueued : TimePoint}
    (h : threadStep running pushPc s left now enqueued = some (s', act)) :
    Turn running pushPc s s' act := by
  unfold threadStep at h
  cases pc : s.pc with
  | checkRunning | checkPaused | pausedRunning | checkResume =>
    simp only [pc] at h
    cases h
    refine .control (by rw [pc]; trivial) ?_
    split_ifs <;> simp [Pc.Control]
  | read =>
    simp only [pc] at h
    split at h
    · rename_i reader read
      cases h
      exact .finish pc read
    · rename_i rhdr rec reader read
      cases h
      exact .read pc read
  | delay rhdr rec =>
    simp only [pc] at h
    cases h
    exact .delay pc
  | sleeping us rec =>
    simp only [pc] at h
    split at h
    · rename_i unconverted
      cases h
      exact .fault pc unconverted
    · rename_i update converted
      cases h
      exact .push pc converted
  | pushing =>
    simp only [pc] at h
    split at h
    · rename_i returned
      cases h
      exact .pushed pc rfl
    · rename_i returned
      cases h
      exact .refused pc rfl
    · cases h
    · cases h
      exact .inPush pc
  | retryCheck item =>
    simp only [pc] at h
    split_ifs at h with up
    · cases h
      exact .retry pc up
    · cases h
      exact .abandon pc (Bool.not_eq_true _ ▸ up)
  | count =>
    simp only [pc] at h
    cases h
    exact .count pc
  | exited | faulted => simp [pc] at h

end ReplayEngine
