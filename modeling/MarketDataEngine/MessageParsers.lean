import MarketDataEngine.Json
import MarketDataEngine.MarketTypes

/-!
# Parsing raw messages

`DepthParser::parse` and `TradeParser::parse` over the JSON value that simdjson
presents of a text. Both look for the text `"data"` before they parse anything, both
take every field they find and skip every one they do not, and the level loops
skip what is not a pair of strings and end with the level arrays. How a number
is read from its text, `strtod`, is a parameter.
-/

open MarketTypes

universe u

/-- A raw message: its bytes and, if they are JSON, the value they stand for. A name
that an object has is there to be seen in its text. -/
structure RawMessage where
  text : List UInt8
  value : Option Json
  shown : ∀ v ∈ value, ∀ inner, v.field? (ascii "data") = some inner →
    Json.quoted (ascii "data") <:+: text

namespace RawMessage

/-- The compact text of a value. -/
def compact (value : Json) : RawMessage where
  text := value.render
  value := some value
  shown := fun v mem inner field => by
    obtain rfl : value = v := Option.some.inj mem
    exact Json.quoted_infix_render field

/-- `json.find("\"data\"") != npos`. -/
def Combined (msg : RawMessage) : Prop := Json.quoted (ascii "data") <:+: msg.text

instance (msg : RawMessage) : Decidable msg.Combined := inferInstanceAs (Decidable (_ <:+: _))

/-- The value that is parsed in the end: of a text with `"data"` in it only the field `data`. -/
def inner (msg : RawMessage) : Option Json :=
  if msg.Combined then msg.value.bind (Json.field? (ascii "data")) else msg.value

end RawMessage

variable {α σ : Type u}

/-- `fast_atof`, on a copy of at most 31 characters. -/
def fastAtof (strtod : List UInt8 → α) (sv : List UInt8) : α := strtod (sv.take 31)

/-- `if (!doc[name].get_..().get(val)) out.field = val;` -/
def assign {β : Type} (out : σ) (found : Option β) (write : σ → β → σ) : σ :=
  match found with
  | some val => write out val
  | none => out

def eventType (doc : Json) : Option (List UInt8) := (doc.field? (ascii "e")).bind Json.getString

/-- The part of `parse` that both parsers share: the inner value, the event type, and
then the fields. -/
def parseEvent (event : List UInt8) (extract : Json → σ → σ) (msg : RawMessage)
    (out : σ) : Bool × σ :=
  match msg.inner with
  | none => (false, out)
  | some doc => if eventType doc = some event then (true, extract doc out) else (false, out)

theorem parseEvent_of_event {event : List UInt8} {extract : Json → σ → σ} {msg : RawMessage}
    {out : σ} {doc : Json} (found : msg.inner = some doc) (same : eventType doc = some event) :
    parseEvent event extract msg out = (true, extract doc out) := by
  simp [parseEvent, found, same]

/-- A message is accepted for its event type alone. -/
theorem parseEvent_accepts_iff {event : List UInt8} {extract : Json → σ → σ} {msg : RawMessage}
    {out : σ} : (parseEvent event extract msg out).1 = true ↔
      ∃ doc ∈ msg.inner, eventType doc = some event := by
  cases found : msg.inner with
  | none => simp [parseEvent, found]
  | some doc =>
    by_cases same : eventType doc = some event
    · simp [parseEvent, found, same]
    · simp [parseEvent, found, same]

/-- A refused message leaves the output as it was. -/
theorem parseEvent_refused {event : List UInt8} {extract : Json → σ → σ} {msg : RawMessage}
    {out : σ} (refused : (parseEvent event extract msg out).1 = false) :
    (parseEvent event extract msg out).2 = out := by
  unfold parseEvent at refused ⊢
  cases found : msg.inner with
  | none => rfl
  | some doc =>
    by_cases same : eventType doc = some event
    · simp [found, same] at refused
    · simp [same]

namespace DepthParser

/-- The body of a level loop up to the assignment; `none` where it continues. -/
def readLevel (strtod : List UInt8 → α) (level : Json) : Option (PriceLevel α) :=
  level.getArray.bind (fun pair =>
    (pair[0]?.bind Json.getString).bind (fun price =>
      (pair[1]?.bind Json.getString).map (fun qty =>
        ⟨fastAtof strtod price, fastAtof strtod qty⟩)))

/-- `for (auto level : levels)`, with the array it writes to and its count. -/
def readLevels (strtod : List UInt8 → α) :
    List Json → Vector (PriceLevel α) maxLevels × UInt16 → Vector (PriceLevel α) maxLevels × UInt16
  | [], out => out
  | level :: rest, (levels, count) =>
    if room : count.toNat < maxLevels then
      match readLevel strtod level with
      | none => readLevels strtod rest (levels, count)
      | some entry => readLevels strtod rest (levels.set count.toNat entry, count + 1)
    else (levels, count)

/-- One of the two level sides: the count is reset, an array that is there is read. -/
def readSide (strtod : List UInt8 → α) (doc : Json) (name : List UInt8)
    (levels : Vector (PriceLevel α) maxLevels) : Vector (PriceLevel α) maxLevels × UInt16 :=
  match (doc.field? name).bind Json.getArray with
  | some elements => readLevels strtod elements (levels, 0)
  | none => (levels, 0)

/-- The extraction of the fields, after the event type. -/
def extract (strtod : List UInt8 → α) (doc : Json) (out : DepthUpdate α) : DepthUpdate α :=
  let out := assign out ((doc.field? (ascii "E")).bind Json.getUint64)
    (fun out val => { out with eventTimeMs := val })
  let out := assign out ((doc.field? (ascii "U")).bind Json.getUint64)
    (fun out val => { out with firstUpdateId := val })
  let out := assign out ((doc.field? (ascii "u")).bind Json.getUint64)
    (fun out val => { out with lastUpdateId := val })
  let out := assign out ((doc.field? (ascii "s")).bind Json.getString)
    (fun out val => { out with symbol := val })
  let (bids, bidCount) := readSide strtod doc (ascii "b") out.bids
  let (asks, askCount) := readSide strtod doc (ascii "a") out.asks
  { out with bids, bidCount, asks, askCount }

def parse (strtod : List UInt8 → α) (msg : RawMessage) (out : DepthUpdate α) :
    Bool × DepthUpdate α :=
  parseEvent (ascii "depthUpdate") (extract strtod) msg out

/-! ## What the loops read -/

theorem take_set_succ {β : Type u} (entries : List β) {index : Nat} (entry : β)
    (inside : index < entries.length) :
    (entries.set index entry).take (index + 1) = entries.take index ++ [entry] := by
  have size : (entries.take index ++ [entry]).length = index + 1 := by
    rw [List.length_append, List.length_take_of_le (Nat.le_of_lt inside), List.length_singleton]
  rw [List.set_eq_take_append_cons_drop, if_pos inside, List.append_cons]
  exact List.take_left' size

/-- A level loop appends the pairs of its array until there is no room for more. -/
theorem readLevels_spec (strtod : List UInt8 → α) (elements : List Json)
    (levels : Vector (PriceLevel α) maxLevels) (count : UInt16)
    (inside : count.toNat ≤ maxLevels) :
    (readLevels strtod elements (levels, count)).2.toNat ≤ maxLevels ∧
      (readLevels strtod elements (levels, count)).1.toList.take
          (readLevels strtod elements (levels, count)).2.toNat =
        levels.toList.take count.toNat ++
          (elements.filterMap (readLevel strtod)).take (maxLevels - count.toNat) := by
  induction elements generalizing levels count with
  | nil => exact ⟨inside, by simp [readLevels]⟩
  | cons level rest ih =>
    by_cases room : count.toNat < maxLevels
    · cases read : readLevel strtod level with
      | none =>
        simp only [readLevels, dif_pos room, read, List.filterMap_cons]
        exact ih levels count inside
      | some entry =>
        have next : (count + 1).toNat = count.toNat + 1 := by
          rw [UInt16.toNat_add]
          unfold maxLevels at room
          exact Nat.mod_eq_of_lt (by simp; omega)
        simp only [readLevels, dif_pos room, read, List.filterMap_cons]
        obtain ⟨bound, front⟩ := ih (levels.set count.toNat entry) (count + 1) (by omega)
        refine ⟨bound, front.trans ?_⟩
        have left : maxLevels - count.toNat = maxLevels - (count.toNat + 1) + 1 := by omega
        rw [Vector.toList_set, next, take_set_succ _ entry (by simpa using room), left,
          List.take_succ_cons, List.append_assoc]
        rfl
    · simp only [readLevels, dif_neg room]
      have full : maxLevels - count.toNat = 0 := by omega
      exact ⟨inside, by simp [full]⟩

/-- The elements of an array field, none if there is no such array. -/
def elementsOf (doc : Json) (name : List UInt8) : List Json :=
  ((doc.field? name).bind Json.getArray).getD []

/-- A side is read anew: nothing of the earlier contents is counted. -/
theorem readSide_spec (strtod : List UInt8 → α) (doc : Json) (name : List UInt8)
    (levels : Vector (PriceLevel α) maxLevels) :
    (readSide strtod doc name levels).2.toNat ≤ maxLevels ∧
      (readSide strtod doc name levels).1.toList.take (readSide strtod doc name levels).2.toNat =
        ((elementsOf doc name).filterMap (readLevel strtod)).take maxLevels := by
  unfold readSide elementsOf
  cases (doc.field? name).bind Json.getArray with
  | none => exact ⟨Nat.zero_le _, by simp⟩
  | some elements =>
    obtain ⟨bound, front⟩ := readLevels_spec strtod elements levels 0 (Nat.zero_le _)
    exact ⟨bound, by simpa using front⟩

theorem extract_inBounds (strtod : List UInt8 → α) (doc : Json) (out : DepthUpdate α) :
    (extract strtod doc out).InBounds :=
  ⟨(readSide_spec strtod doc _ _).1, (readSide_spec strtod doc _ _).1⟩

theorem extract_bids (strtod : List UInt8 → α) (doc : Json) (out : DepthUpdate α) :
    (extract strtod doc out).bids.toList.take (extract strtod doc out).bidCount.toNat =
      ((elementsOf doc (ascii "b")).filterMap (readLevel strtod)).take maxLevels :=
  (readSide_spec strtod doc _ _).2

theorem extract_asks (strtod : List UInt8 → α) (doc : Json) (out : DepthUpdate α) :
    (extract strtod doc out).asks.toList.take (extract strtod doc out).askCount.toNat =
      ((elementsOf doc (ascii "a")).filterMap (readLevel strtod)).take maxLevels :=
  (readSide_spec strtod doc _ _).2

/-- A scalar field is the one of the message, or else what it was. -/
theorem extract_scalars (strtod : List UInt8 → α) (doc : Json) (out : DepthUpdate α) :
    (extract strtod doc out).eventTimeMs =
      ((doc.field? (ascii "E")).bind Json.getUint64).getD out.eventTimeMs ∧
    (extract strtod doc out).firstUpdateId =
      ((doc.field? (ascii "U")).bind Json.getUint64).getD out.firstUpdateId ∧
    (extract strtod doc out).lastUpdateId =
      ((doc.field? (ascii "u")).bind Json.getUint64).getD out.lastUpdateId ∧
    (extract strtod doc out).symbol =
      ((doc.field? (ascii "s")).bind Json.getString).getD out.symbol := by
  unfold extract
  generalize (doc.field? (ascii "E")).bind Json.getUint64 = time
  generalize (doc.field? (ascii "U")).bind Json.getUint64 = first
  generalize (doc.field? (ascii "u")).bind Json.getUint64 = last
  generalize (doc.field? (ascii "s")).bind Json.getString = symbol
  cases time <;> cases first <;> cases last <;> cases symbol <;> exact ⟨rfl, rfl, rfl, rfl⟩

end DepthParser

namespace TradeParser

def extract (strtod : List UInt8 → α) (doc : Json) (out : Trade α) : Trade α :=
  let out := assign out ((doc.field? (ascii "E")).bind Json.getUint64)
    (fun out val => { out with eventTimeMs := val })
  let out := assign out ((doc.field? (ascii "t")).bind Json.getUint64)
    (fun out val => { out with tradeId := val })
  let out := assign out ((doc.field? (ascii "s")).bind Json.getString)
    (fun out val => { out with symbol := val })
  let out := assign out ((doc.field? (ascii "p")).bind Json.getString)
    (fun out val => { out with price := fastAtof strtod val })
  let out := assign out ((doc.field? (ascii "q")).bind Json.getString)
    (fun out val => { out with quantity := fastAtof strtod val })
  assign out ((doc.field? (ascii "m")).bind Json.getBool)
    (fun out val => { out with isBuyerMaker := val })

def parse (strtod : List UInt8 → α) (msg : RawMessage) (out : Trade α) : Bool × Trade α :=
  parseEvent (ascii "trade") (extract strtod) msg out

theorem extract_scalars (strtod : List UInt8 → α) (doc : Json) (out : Trade α) :
    (extract strtod doc out).eventTimeMs =
      ((doc.field? (ascii "E")).bind Json.getUint64).getD out.eventTimeMs ∧
    (extract strtod doc out).tradeId =
      ((doc.field? (ascii "t")).bind Json.getUint64).getD out.tradeId ∧
    (extract strtod doc out).symbol =
      ((doc.field? (ascii "s")).bind Json.getString).getD out.symbol ∧
    (extract strtod doc out).price =
      (((doc.field? (ascii "p")).bind Json.getString).map (fastAtof strtod)).getD out.price ∧
    (extract strtod doc out).quantity =
      (((doc.field? (ascii "q")).bind Json.getString).map (fastAtof strtod)).getD out.quantity ∧
    (extract strtod doc out).isBuyerMaker =
      ((doc.field? (ascii "m")).bind Json.getBool).getD out.isBuyerMaker := by
  unfold extract
  generalize (doc.field? (ascii "E")).bind Json.getUint64 = time
  generalize (doc.field? (ascii "t")).bind Json.getUint64 = id
  generalize (doc.field? (ascii "s")).bind Json.getString = symbol
  generalize (doc.field? (ascii "p")).bind Json.getString = price
  generalize (doc.field? (ascii "q")).bind Json.getString = quantity
  generalize (doc.field? (ascii "m")).bind Json.getBool = maker
  cases time <;> cases id <;> cases symbol <;> cases price <;> cases quantity <;> cases maker <;>
    exact ⟨rfl, rfl, rfl, rfl, rfl, rfl⟩

end TradeParser
