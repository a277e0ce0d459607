import MarketDataEngine.FeedHandler
import MarketDataEngine.SpelledJson
import MarketDataEngine.StrictAcceptance

/-!
# Routing by substring

`on_message` tells trades from depth updates by the text `"trade"`, and the parsers tell
an envelope by the text `"data"`. This module says for which texts these searches agree
with the structure of the message.
-/

open MarketTypes QuotedWords SpelledJson

namespace MessageRouting

/-- `core::MessageType`. -/
inductive MessageType where
  | depthUpdate
  | trade
  deriving DecidableEq

def messageType : QueueMessage Double → MessageType
  | .depthUpdate _ => .depthUpdate
  | .trade _ => .trade

/-- `json.find("\"trade\"") != npos`. -/
def HasTrade (raw : RawMessage) : Prop := Json.quoted (ascii "trade") <:+: raw.text

instance (raw : RawMessage) : Decidable (HasTrade raw) := inferInstanceAs (Decidable (_ <:+: _))

def defaultDepth : DepthUpdate Double where
  eventTimeMs := 0
  firstUpdateId := 0
  lastUpdateId := 0
  symbol := []
  bids := Vector.replicate maxLevels ⟨⟨0⟩, ⟨0⟩⟩
  asks := Vector.replicate maxLevels ⟨⟨0⟩, ⟨0⟩⟩
  bidCount := 0
  askCount := 0

example : QueueMessage.blank = .depthUpdate defaultDepth := rfl

def defaultTrade : Trade Double where
  eventTimeMs := 0
  tradeId := 0
  symbol := []
  price := ⟨0⟩
  quantity := ⟨0⟩
  isBuyerMaker := false

/-- The message that `on_message` builds, with the two times it reads off the clock. -/
def route (strtod : List UInt8 → Double) (received parsed : TimePoint) (raw : RawMessage) :
    Option (QueueMessage Double) :=
  if HasTrade raw then
    match TradeParser.parse strtod raw { defaultTrade with tsReceived := received } with
    | (true, trade) => some (.trade { trade with tsParsed := parsed, tsEnqueued := parsed })
    | (false, _) => none
  else
    match DepthParser.parse strtod raw { defaultDepth with tsReceived := received } with
    | (true, depth) => some (.depthUpdate { depth with tsParsed := parsed, tsEnqueued := parsed })
    | (false, _) => none

/-! ## Messages by their structure -/

namespace MessageType

/-- The event type in the message. -/
def event : MessageType → List UInt8
  | depthUpdate => ascii "depthUpdate"
  | trade => ascii "trade"

def Complete : MessageType → Json → Prop
  | depthUpdate => StrictAcceptance.CompleteDepth
  | trade => StrictAcceptance.CompleteTrade

theorem Complete.event {type : MessageType} {object : Json} (complete : type.Complete object) :
    eventType object = some type.event := by
  cases type with
  | depthUpdate => exact StrictAcceptance.CompleteDepth.event complete
  | trade => exact StrictAcceptance.CompleteTrade.event complete

end MessageType

/-- The envelope of a combined stream has a field `data`. -/
def Wrapped (document : Document) : Prop := (document.root.find decoded (ascii "data")).isSome

/-- The object of the message: the field `data`, if there is one. -/
def payload (document : Document) : Text :=
  (document.root.find decoded (ascii "data")).getD document.root

/-- A complete message of a type, bare or in an envelope, in any spelling. -/
structure Message (type : MessageType) (document : Document) : Prop where
  names : document.root.Distinct
  payloadNames : (payload document).Distinct
  complete : type.Complete (payload document).meaning
  stream : Wrapped document →
    ∃ name, document.root.find decoded (ascii "stream") = some (.string name)

/-- The text as the parsers get it, with the value that its reader presents. -/
def raw (document : Document) : RawMessage where
  text := document.render
  value := some document.root.presented
  shown := by
    intro v mem inner field
    obtain rfl : document.root.presented = v := Option.some.inj mem
    rw [Text.presented, Text.field?_value] at field
    obtain ⟨found, hfound, -⟩ := Option.map_eq_some_iff.mp field
    obtain ⟨key, hkey, name⟩ := Text.mem_of_find hfound
    refine (document.quoted_infix_iff Json.isWord_data).mpr ⟨_, Text.name_mem_strings hkey, ?_⟩
    rw [name]
    exact List.suffix_refl _

/-- The searches of the code agree with the structure of a message. -/
structure Agrees (strtod : List UInt8 → Double) (received parsed : TimePoint) (type : MessageType)
    (document : Document) : Prop where
  chosen : HasTrade (raw document) ↔ type = .trade
  inner : (raw document).inner = some (payload document).presented
  handled : ∀ s : FeedHandler.State RawMessage, ∃ msg, messageType msg = type ∧
    FeedHandler.onMessage (route strtod received parsed) s (raw document) =
      ({ s with pc := .pushing, msgCount := s.msgCount + 1 }, some (.call msg))

/-- What a message must be written like: the word of its type is where it belongs, and the
names that are looked for have no escapes. -/
structure Legible (type : MessageType) (document : Document) : Prop where
  trade : (∃ body ∈ document.root.strings, Shows 34 (ascii "trade") body) ↔ type = .trade
  data : (∃ body ∈ document.root.strings, Shows 34 (ascii "data") body) → Wrapped document
  envelope : Wrapped document → document.root.Plainly (ascii "data")
  event : (payload document).Plainly (ascii "e")

/-! ## The two directions -/

variable {strtod : List UInt8 → Double} {received parsed : TimePoint} {type : MessageType}
  {document : Document}

/-- A message of the chosen type whose object was found is routed. -/
theorem route_of_inner {raw : RawMessage} {object : Json} (chosen : HasTrade raw ↔ type = .trade)
    (inner : raw.inner = some object) (event : eventType object = some type.event) :
    ∃ msg, messageType msg = type ∧ route strtod received parsed raw = some msg := by
  cases type with
  | depthUpdate =>
    have noTrade : ¬ HasTrade raw := fun has => absurd (chosen.mp has) (by decide)
    let depth := DepthParser.extract strtod object { defaultDepth with tsReceived := received }
    refine ⟨.depthUpdate { depth with tsParsed := parsed, tsEnqueued := parsed }, rfl, ?_⟩
    have typed : eventType object = some (ascii "depthUpdate") := event
    rw [route, if_neg noTrade, DepthParser.parse, parseEvent_of_event inner typed]
  | trade =>
    let trade := TradeParser.extract strtod object { defaultTrade with tsReceived := received }
    refine ⟨.trade { trade with tsParsed := parsed, tsEnqueued := parsed }, rfl, ?_⟩
    have typed : eventType object = some (ascii "trade") := event
    rw [route, if_pos (chosen.mpr rfl), TradeParser.parse, parseEvent_of_event inner typed]

/-- What is routed was parsed by the parser of its type. -/
theorem event_of_route {raw : RawMessage} {msg : QueueMessage Double}
    (routed : route strtod received parsed raw = some msg) :
    ∃ object ∈ raw.inner, eventType object = some (messageType msg).event := by
  unfold route at routed
  split_ifs at routed
  · cases result : TradeParser.parse strtod raw { defaultTrade with tsReceived := received } with
    | mk ok trade =>
      cases ok with
      | false => simp [result] at routed
      | true =>
        simp only [result, Option.some.injEq] at routed
        subst routed
        exact parseEvent_accepts_iff.mp (congrArg Prod.fst result)
  · cases result : DepthParser.parse strtod raw { defaultDepth with tsReceived := received } with
    | mk ok depth =>
      cases ok with
      | false => simp [result] at routed
      | true =>
        simp only [result, Option.some.injEq] at routed
        subst routed
        exact parseEvent_accepts_iff.mp (congrArg Prod.fst result)

/-- `on_message` calls `try_push` with what is routed. -/
theorem onMessage_iff {raw : RawMessage} {s : FeedHandler.State RawMessage}
    {msg : QueueMessage Double} :
    FeedHandler.onMessage (route strtod received parsed) s raw =
        ({ s with pc := .pushing, msgCount := s.msgCount + 1 }, some (.call msg)) ↔
      route strtod received parsed raw = some msg := by
  unfold FeedHandler.onMessage
  cases route strtod received parsed raw with
  | none => simp
  | some other => simp

/-- The event type that a reader presents is the one meant, if its name has no escapes. -/
theorem eventType_presented {text : Text} (distinct : text.Distinct) {event : List UInt8}
    (meant : eventType text.meaning = some event) :
    eventType text.presented = some event ↔ text.Plainly (ascii "e") := by
  unfold eventType at meant ⊢
  rw [Text.meaning, Text.field?_value] at meant
  rw [Text.presented, Text.field?_value]
  constructor
  · intro presented
    cases found : text.find written (ascii "e") with
    | none => simp [found] at presented
    | some value => exact Text.plainly_of_find found
  · intro plainly
    rw [Text.find_written distinct (by decide) plainly]
    cases found : text.find decoded (ascii "e") with
    | none => simp [found] at meant
    | some value =>
      rw [found] at meant
      exact (value.getString_value written decoded).trans meant

theorem raw_combined_iff : (raw document).Combined ↔
    ∃ body ∈ document.root.strings, Shows 34 (ascii "data") body :=
  document.quoted_infix_iff Json.isWord_data

theorem raw_hasTrade_iff : HasTrade (raw document) ↔
    ∃ body ∈ document.root.strings, Shows 34 (ascii "trade") body :=
  document.quoted_infix_iff Json.isWord_trade

theorem payload_of_wrapped (wrapped : Wrapped document) :
    document.root.find decoded (ascii "data") = some (payload document) := by
  obtain ⟨found, hfound⟩ := Option.isSome_iff_exists.mp wrapped
  rw [payload, hfound]
  rfl

theorem payload_of_bare (bare : ¬ Wrapped document) : payload document = document.root := by
  rw [Wrapped, Option.not_isSome_iff_eq_none] at bare
  rw [payload, bare]
  rfl

/-- Which of the two values the parsers look at. -/
theorem inner_raw : (raw document).inner =
    if (raw document).Combined then
      (document.root.find written (ascii "data")).map Text.presented
    else some document.root.presented := by
  unfold RawMessage.inner
  split_ifs with combined
  · exact Text.field?_value written _ document.root
  · rfl

/-- The parsers look at the object of the message if and only if the text `"data"` is in an
envelope alone, as a name without escapes. -/
theorem inner_raw_iff (names : document.root.Distinct) :
    (raw document).inner = some (payload document).presented ↔
      ((raw document).Combined → Wrapped document) ∧
        (Wrapped document → document.root.Plainly (ascii "data")) := by
  rw [inner_raw]
  constructor
  · intro inner
    by_cases combined : (raw document).Combined
    · rw [if_pos combined] at inner
      obtain ⟨found, hfound, -⟩ := Option.map_eq_some_iff.mp inner
      have meant := Text.find_decoded_of_written names (by decide) hfound
      exact ⟨fun _ => Option.isSome_iff_exists.mpr ⟨found, meant⟩,
        fun _ => Text.plainly_of_find hfound⟩
    · -- the whole envelope would be presented as a part of itself
      rw [if_neg combined] at inner
      refine ⟨fun h => absurd h combined, fun wrapped => ?_⟩
      have smaller := Text.sizeOf_presented_lt (payload_of_wrapped wrapped)
      rw [Option.some.inj inner] at smaller
      exact absurd smaller (lt_irrefl _)
  · rintro ⟨onlyWrapped, plainly⟩
    by_cases wrapped : Wrapped document
    · obtain ⟨field, mem, name⟩ := plainly wrapped
      have combined : (raw document).Combined :=
        raw_combined_iff.mpr ⟨_, Text.name_mem_strings mem, name ▸ List.suffix_refl _⟩
      rw [if_pos combined, Text.find_written names (by decide) (plainly wrapped),
        payload_of_wrapped wrapped]
      rfl
    · rw [if_neg fun combined => wrapped (onlyWrapped combined), payload_of_bare wrapped]

/-- Every complete message is routed by its structure if and only if it is written legibly. -/
theorem routing_agrees_iff (strtod : List UInt8 → Double) (received parsed : TimePoint)
    {type : MessageType} {document : Document} (message : Message type document) :
    Agrees strtod received parsed type document ↔ Legible type document := by
  have meant := message.complete.event
  constructor
  · rintro ⟨chosen, inner, handled⟩
    obtain ⟨data, envelope⟩ := (inner_raw_iff message.names).mp inner
    refine ⟨raw_hasTrade_iff.symm.trans chosen, fun found => data (raw_combined_iff.mpr found),
      envelope, ?_⟩
    obtain ⟨msg, rfl, call⟩ := handled {}
    obtain ⟨object, mem, typed⟩ := event_of_route (onMessage_iff.mp call)
    obtain rfl := Option.some.inj (inner.symm.trans mem)
    exact (eventType_presented message.payloadNames meant).mp typed
  · rintro ⟨trade, data, envelope, event⟩
    have chosen := raw_hasTrade_iff.trans trade
    have inner : (raw document).inner = some (payload document).presented :=
      (inner_raw_iff message.names).mpr ⟨fun c => data (raw_combined_iff.mp c), envelope⟩
    have typed := (eventType_presented message.payloadNames meant).mpr event
    refine ⟨chosen, inner, fun s => ?_⟩
    obtain ⟨msg, same, routed⟩ := route_of_inner chosen inner typed
    exact ⟨msg, same, onMessage_iff.mpr routed⟩

/-- A price that is read as 5. -/
def readFive (text : List UInt8) : Double :=
  if text = ascii "5.00" then ⟨0x4014000000000000⟩ else ⟨0⟩

def one : Number where
  negative := false
  whole := ascii "1"
  fraction := none
  exponent := none
  wholeDigits := by decide
  noLeadingZero := by decide
  fractionDigits := by simp
  exponentDigits := by simp

/-- A trade in the envelope of a combined stream, with a line end before `data`. -/
def wrappedTrade : Document where
  gap := noGap
  root := .object noBlank [
    (plainKey "stream", .string (spell "btcusdt@trade")),
    (⟨⟨⟨[10], by simp⟩, noBlank⟩, spell "data", noGap⟩, .object noBlank [
      (plainKey "e", .string (spell "trade")),
      (plainKey "E", .number one),
      (plainKey "s", .string (spell "BTCUSDT")),
      (plainKey "t", .number one),
      (plainKey "p", .string (spell "5.00")),
      (plainKey "q", .string (spell "5.00")),
      (plainKey "m", .bool true)])]

theorem wrappedTrade_message : Message .trade wrappedTrade where
  names := by
    unfold Text.Distinct
    decide +kernel
  payloadNames := by
    unfold Text.Distinct
    decide +kernel
  complete := by
    constructor
    all_goals decide +kernel
  stream := fun _ => ⟨_, rfl⟩

theorem routing_agrees_wrappedTrade : Agrees readFive 0 0 .trade wrappedTrade :=
  (routing_agrees_iff readFive 0 0 wrappedTrade_message).mpr
    ⟨by decide +kernel, fun _ => by unfold Wrapped; decide +kernel,
      fun _ => by unfold Text.Plainly; decide +kernel, by unfold Text.Plainly; decide +kernel⟩

/-- A bare depth update for the symbol `trade`. -/
def tradeSymbol : Document where
  gap := noGap
  root := .object noBlank [
    (plainKey "e", .string (spell "depthUpdate")),
    (plainKey "E", .number one),
    (plainKey "s", .string (spell "trade")),
    (plainKey "U", .number one),
    (plainKey "u", .number one),
    (plainKey "b", .array noBlank []),
    (plainKey "a", .array noBlank [])]

theorem tradeSymbol_message : Message .depthUpdate tradeSymbol where
  names := by
    unfold Text.Distinct
    decide +kernel
  payloadNames := by
    unfold Text.Distinct
    decide +kernel
  complete := by
    refine ⟨?_, ?_, ?_, ?_, ?_, ⟨[], rfl, List.forall_mem_nil _⟩, ⟨[], rfl, List.forall_mem_nil _⟩⟩
    all_goals decide +kernel
  stream := fun wrapped => absurd wrapped (by unfold Wrapped; decide +kernel)

/-- The update is parsed as a trade and counted as a parse error. -/
theorem trade_symbol_refused :
    Message .depthUpdate tradeSymbol ∧
    tradeSymbol.render =
      ascii ("\x7b\"e\":\"depthUpdate\",\"E\":1,\"s\":\"trade\",\"U\":1,\"u\":1," ++
        "\"b\":[],\"a\":[]\x7d") ∧
    HasTrade (raw tradeSymbol) ∧
    (FeedHandler.onMessage (route readFive 0 0) {} (raw tradeSymbol)).1.parseErrors = 1 ∧
    ¬ Agrees readFive 0 0 .depthUpdate tradeSymbol := by
  have hasTrade : HasTrade (raw tradeSymbol) := by decide +kernel
  refine ⟨tradeSymbol_message, by decide +kernel, hasTrade, by decide +kernel, ?_⟩
  rintro ⟨chosen, -, -⟩
  exact absurd (chosen.mp hasTrade) (by decide)

end MessageRouting
