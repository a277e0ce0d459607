import MarketDataEngine.Json
import MarketDataEngine.ReplayEngine

/-!
# The dashboard's commands

The replay control handler of `main.cpp`, which every reader thread of the WebSocket
server calls with the text of one message, and the speed names of its answers. What
parsing makes of a text is a parameter; of an unparsable text nothing is done.
-/

namespace ReplayControl

open ReplayEngine

/-- `j.value(name, fallback)` for texts. It throws unless `j` is an object, and unless
what the object has under the name is a text. -/
def valueOr (doc : Json) (name fallback : List UInt8) : Option (List UInt8) :=
  match doc with
  | .object _ =>
    match doc.field? name with
    | none => some fallback
    | some found => found.getString
  | _ => none

/-- The speeds a `speed` command can name. -/
def speedNamed (name : List UInt8) : Option PlaybackSpeed :=
  if name = ascii "1x" then some .realtime
  else if name = ascii "2x" then some .fast2x
  else if name = ascii "5x" then some .fast5x
  else if name = ascii "max" then some .max
  else none

/-- `speed_str` of `build_stats_json`. -/
def speedStr : PlaybackSpeed → List UInt8
  | .fast2x => ascii "2x"
  | .fast5x => ascii "5x"
  | .max => ascii "max"
  | .realtime => ascii "1x"

/-- What a parsed message asks for; exceptions and unknown names ask for nothing. -/
def command (doc : Json) : Option Action :=
  match valueOr doc (ascii "cmd") [] with
  | none => none
  | some cmd =>
    if cmd = ascii "pause" then some .pause
    else if cmd = ascii "resume" then some .resume
    else if cmd = ascii "speed" then
      (valueOr doc (ascii "value") (ascii "1x")).bind (fun name =>
        (speedNamed name).map Action.setSpeed)
    else none

/-- The text of a message through the handler. -/
def commandOf (parse : List UInt8 → Option Json) (msg : List UInt8) : Option Action :=
  (parse msg).bind command

/-- A control changes the pause flag or the speed and nothing else. -/
def Control (act : Action) : Prop :=
  act = .pause ∨ act = .resume ∨ ∃ speed, act = .setSpeed speed

theorem command_control {doc : Json} {act : Action} (h : command doc = some act) :
    Control act := by
  unfold command at h
  split at h
  · cases h
  · split_ifs at h
    · exact Or.inl (Option.some.inj h).symm
    · exact Or.inr (Or.inl (Option.some.inj h).symm)
    · obtain ⟨name, -, named⟩ := Option.bind_eq_some_iff.mp h
      obtain ⟨speed, -, rfl⟩ := Option.map_eq_some_iff.mp named
      exact Or.inr (Or.inr ⟨speed, rfl⟩)

theorem commandOf_control {parse : List UInt8 → Option Json} {msg : List UInt8} {act : Action}
    (h : commandOf parse msg = some act) : Control act := by
  obtain ⟨doc, -, asked⟩ := Option.bind_eq_some_iff.mp h
  exact command_control asked

end ReplayControl
