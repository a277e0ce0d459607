import MarketDataEngine.MessageParsers

/-!
# What the parsers accept

A parser is strict when it accepts exactly the messages whose object is complete,
leaves its output alone when it refuses, and lets nothing of the earlier output into
what an accepted message carries. This module says for which messages the two
parsers are strict.
-/

open MarketTypes

namespace StrictAcceptance

universe u

/-- The object of a message by its structure: the field `data`, if there is one. -/
def payload (msg : RawMessage) : Option Json :=
  msg.value.map (fun v => (v.field? (ascii "data")).getD v)

/-- An array field of pairs of strings. -/
def HasPairs (doc : Json) (name : List UInt8) : Prop :=
  ∃ elements, (doc.field? name).bind Json.getArray = some elements ∧
    ∀ element ∈ elements, ∃ price qty, element = .array [.string price, .string qty]

/-- A depth update with all of its fields. -/
structure CompleteDepth (doc : Json) : Prop where
  event : eventType doc = some (ascii "depthUpdate")
  time : (doc.field? (ascii "E")).bind Json.getUint64 ≠ none
  first : (doc.field? (ascii "U")).bind Json.getUint64 ≠ none
  last : (doc.field? (ascii "u")).bind Json.getUint64 ≠ none
  symbol : (doc.field? (ascii "s")).bind Json.getString ≠ none
  bids : HasPairs doc (ascii "b")
  asks : HasPairs doc (ascii "a")

/-- A trade with all of its fields. -/
structure CompleteTrade (doc : Json) : Prop where
  event : eventType doc = some (ascii "trade")
  time : (doc.field? (ascii "E")).bind Json.getUint64 ≠ none
  id : (doc.field? (ascii "t")).bind Json.getUint64 ≠ none
  symbol : (doc.field? (ascii "s")).bind Json.getString ≠ none
  price : (doc.field? (ascii "p")).bind Json.getString ≠ none
  quantity : (doc.field? (ascii "q")).bind Json.getString ≠ none
  maker : (doc.field? (ascii "m")).bind Json.getBool ≠ none

/-- What an update carries: its scalar fields and the levels it counts. -/
def depthData {α : Type u} (update : DepthUpdate α) :
    UInt64 × UInt64 × UInt64 × Symbol × List (PriceLevel α) × List (PriceLevel α) :=
  (update.eventTimeMs, update.firstUpdateId, update.lastUpdateId, update.symbol,
    update.bids.toList.take update.bidCount.toNat, update.asks.toList.take update.askCount.toNat)

def tradeData {α : Type u} (trade : Trade α) : UInt64 × UInt64 × Symbol × α × α × Bool :=
  (trade.eventTimeMs, trade.tradeId, trade.symbol, trade.price, trade.quantity,
    trade.isBuyerMaker)

/-- A parser is strict about a message, whatever it writes to. -/
structure Strict {σ τ : Type u} (complete : Json → Prop) (data : σ → τ)
    (parse : RawMessage → σ → Bool × σ) (msg : RawMessage) : Prop where
  accepts : ∀ out, (parse msg out).1 = true ↔ ∃ doc ∈ payload msg, complete doc
  refuses : ∀ out, (parse msg out).1 = false → (parse msg out).2 = out
  fresh : ∀ out out', (parse msg out).1 = true → data (parse msg out).2 = data (parse msg out').2

/-- The text `"data"` is in the message, which has no such field. -/
def Misled (msg : RawMessage) : Prop :=
  msg.Combined ∧ ∀ v ∈ msg.value, v.field? (ascii "data") = none

/-- An object of the event type is complete, or it is not and is overlooked. -/
def Settled (event : List UInt8) (complete : Json → Prop) (msg : RawMessage) : Prop :=
  ∀ doc ∈ payload msg, eventType doc = some event → (complete doc ↔ ¬ Misled msg)

/-- The parsers look at the object of a message, unless they are misled. -/
theorem inner_eq_payload {msg : RawMessage} (clear : ¬ Misled msg) : msg.inner = payload msg := by
  unfold RawMessage.inner payload
  cases hvalue : msg.value with
  | none => simp
  | some v =>
    cases field : v.field? (ascii "data") with
    | none =>
      have bare : ¬ msg.Combined := by
        intro combined
        apply clear
        refine ⟨combined, ?_⟩
        intro w mem
        obtain rfl : v = w := Option.some.inj (hvalue.symm.trans mem)
        exact field
      simp [bare, field]
    | some inner =>
      have combined : msg.Combined := msg.shown v hvalue inner field
      simp [combined, field]

theorem inner_of_misled {msg : RawMessage} (misled : Misled msg) : msg.inner = none := by
  rw [RawMessage.inner, if_pos misled.1]
  cases hvalue : msg.value with
  | none => rfl
  | some v => exact misled.2 v hvalue

/-- Which messages are accepted: those of the event type that are not misled. -/
theorem accepts_iff {σ : Type u} {event : List UInt8} {extract : Json → σ → σ} {msg : RawMessage}
    {out : σ} : (parseEvent event extract msg out).1 = true ↔
      ¬ Misled msg ∧ ∃ doc ∈ payload msg, eventType doc = some event := by
  rw [parseEvent_accepts_iff]
  by_cases misled : Misled msg
  · simp [misled, inner_of_misled misled]
  · simp [misled, inner_eq_payload misled]

/-- A parser of one event type is strict about the messages that are settled. -/
theorem strict_iff {σ τ : Type u} {event : List UInt8} {complete : Json → Prop} {data : σ → τ}
    {extract : Json → σ → σ} (msg : RawMessage) (blank : σ)
    (typed : ∀ doc, complete doc → eventType doc = some event)
    (carried : ∀ doc, complete doc → ∀ out out', data (extract doc out) = data (extract doc out')) :
    Strict complete data (parseEvent event extract) msg ↔ Settled event complete msg := by
  constructor
  · intro strict doc mem same
    have accepts := accepts_iff.symm.trans (strict.accepts blank)
    by_cases misled : Misled msg
    · refine iff_of_false ?_ (not_not_intro misled)
      exact fun whole => (accepts.mpr ⟨doc, mem, whole⟩).1 misled
    · obtain ⟨doc', mem', whole⟩ := accepts.mp ⟨misled, doc, mem, same⟩
      obtain rfl : doc = doc' := Option.some.inj (mem.symm.trans mem')
      exact iff_of_true whole misled
  · intro settled
    refine ⟨?_, fun out => parseEvent_refused, ?_⟩
    · intro out
      rw [accepts_iff]
      constructor
      · rintro ⟨clear, doc, mem, same⟩
        exact ⟨doc, mem, (settled doc mem same).mpr clear⟩
      · rintro ⟨doc, mem, whole⟩
        have same := typed doc whole
        exact ⟨(settled doc mem same).mp whole, doc, mem, same⟩
    · intro out out' accepted
      obtain ⟨clear, doc, mem, same⟩ := accepts_iff.mp accepted
      have found := (inner_eq_payload clear).trans mem
      rw [parseEvent_of_event found same, parseEvent_of_event found same]
      exact carried doc ((settled doc mem same).mpr clear) out out'

/-- Nothing of the earlier update is left in a complete one. -/
theorem depthData_extract {α : Type u} (strtod : List UInt8 → α) {doc : Json}
    (whole : CompleteDepth doc) (out out' : DepthUpdate α) :
    depthData (DepthParser.extract strtod doc out) =
      depthData (DepthParser.extract strtod doc out') := by
  obtain ⟨time, htime⟩ := Option.ne_none_iff_exists'.mp whole.time
  obtain ⟨first, hfirst⟩ := Option.ne_none_iff_exists'.mp whole.first
  obtain ⟨last, hlast⟩ := Option.ne_none_iff_exists'.mp whole.last
  obtain ⟨symbol, hsymbol⟩ := Option.ne_none_iff_exists'.mp whole.symbol
  have scalars := DepthParser.extract_scalars strtod doc
  simp only [htime, hfirst, hlast, hsymbol, Option.getD_some] at scalars
  obtain ⟨time₁, first₁, last₁, symbol₁⟩ := scalars out
  obtain ⟨time₂, first₂, last₂, symbol₂⟩ := scalars out'
  simp only [depthData, time₁, first₁, last₁, symbol₁, time₂, first₂, last₂, symbol₂,
    DepthParser.extract_bids, DepthParser.extract_asks]

theorem tradeData_extract {α : Type u} (strtod : List UInt8 → α) {doc : Json}
    (whole : CompleteTrade doc) (out out' : Trade α) :
    tradeData (TradeParser.extract strtod doc out) =
      tradeData (TradeParser.extract strtod doc out') := by
  obtain ⟨time, htime⟩ := Option.ne_none_iff_exists'.mp whole.time
  obtain ⟨id, hid⟩ := Option.ne_none_iff_exists'.mp whole.id
  obtain ⟨symbol, hsymbol⟩ := Option.ne_none_iff_exists'.mp whole.symbol
  obtain ⟨price, hprice⟩ := Option.ne_none_iff_exists'.mp whole.price
  obtain ⟨quantity, hquantity⟩ := Option.ne_none_iff_exists'.mp whole.quantity
  obtain ⟨maker, hmaker⟩ := Option.ne_none_iff_exists'.mp whole.maker
  have scalars := TradeParser.extract_scalars strtod doc
  simp only [htime, hid, hsymbol, hprice, hquantity, hmaker, Option.map_some,
    Option.getD_some] at scalars
  obtain ⟨time₁, id₁, symbol₁, price₁, quantity₁, maker₁⟩ := scalars out
  obtain ⟨time₂, id₂, symbol₂, price₂, quantity₂, maker₂⟩ := scalars out'
  simp only [tradeData, time₁, id₁, symbol₁, price₁, quantity₁, maker₁, time₂, id₂, symbol₂,
    price₂, quantity₂, maker₂]

/-- For every message, each parser is strict about it if and only if an object of its
event type in it is complete, unless the message is misleading and the object is not. -/
theorem strict_acceptance_iff {α : Type u} (strtod : List UInt8 → α) (msg : RawMessage) :
    (Strict CompleteDepth depthData (DepthParser.parse strtod) msg ↔
      Settled (ascii "depthUpdate") CompleteDepth msg) ∧
    (Strict CompleteTrade tradeData (TradeParser.parse strtod) msg ↔
      Settled (ascii "trade") CompleteTrade msg) := by
  have blankDepth : DepthUpdate α := ⟨0, 0, 0, [], Vector.replicate _ ⟨strtod [], strtod []⟩,
    Vector.replicate _ ⟨strtod [], strtod []⟩, 0, 0, 0, 0, 0, 0⟩
  have blankTrade : Trade α := ⟨0, 0, [], strtod [], strtod [], false, 0, 0, 0, 0⟩
  refine ⟨strict_iff msg blankDepth (fun doc whole => whole.event) ?_,
    strict_iff msg blankTrade (fun doc whole => whole.event) ?_⟩
  · exact fun doc whole => depthData_extract strtod whole
  · exact fun doc whole => tradeData_extract strtod whole

/-- An object with an event type and nothing else. -/
def eventOnly : Json := .object [(ascii "e", .string (ascii "depthUpdate"))]

/-- An earlier update in the output. -/
def earlier : DepthUpdate ℚ where
  eventTimeMs := 7
  firstUpdateId := 1
  lastUpdateId := 2
  symbol := ascii "BTCUSDT"
  bids := Vector.replicate maxLevels ⟨0, 0⟩
  asks := Vector.replicate maxLevels ⟨0, 0⟩
  bidCount := 0
  askCount := 0

/-- A message without any field is accepted, with the fields of the update before it. -/
theorem event_only_accepted :
    (RawMessage.compact eventOnly).text = ascii "\x7b\"e\":\"depthUpdate\"\x7d" ∧
    ((DepthParser.parse (fun _ => (0 : ℚ)) (RawMessage.compact eventOnly) earlier).1 = true ∧
      (DepthParser.parse (fun _ => (0 : ℚ)) (RawMessage.compact eventOnly) earlier).2.symbol =
        ascii "BTCUSDT") ∧
    ¬ Strict CompleteDepth depthData (DepthParser.parse (fun _ => (0 : ℚ)))
      (RawMessage.compact eventOnly) := by
  refine ⟨by decide +kernel, by decide +kernel, ?_⟩
  intro strict
  obtain ⟨doc, mem, whole⟩ := (strict.accepts earlier).mp (by decide +kernel)
  obtain rfl : eventOnly = doc := Option.some.inj mem
  exact whole.time (by decide +kernel)

end StrictAcceptance
