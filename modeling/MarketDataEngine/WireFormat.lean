import Mathlib.Data.Nat.Digits.Defs
import MarketDataEngine.JsonText
import MarketDataEngine.StrictAcceptance

/-!
# The wire format

How an update or a trade is written as a JSON object, bare or in the envelope of a
combined stream, and what the parsers read back from it.
-/

open MarketTypes QuotedWords

namespace WireFormat

universe u
variable {α : Type u}

/-! ## Numbers -/

def digitByte (digit : Nat) : UInt8 := UInt8.ofNat (48 + digit)

/-- A number in decimal digits. -/
def decimal (n : Nat) : List UInt8 :=
  if n = 0 then [48] else (Nat.digits 10 n).reverse.map digitByte

theorem digitByte_digit : ∀ digit < 10,
    Json.isDigit (digitByte digit) = true ∧ (digitByte digit).toNat - 48 = digit := by decide

theorem digitsValue_map_digitByte {digits : List Nat} (small : ∀ digit ∈ digits, digit < 10) :
    Json.digitsValue (digits.reverse.map digitByte) = Nat.ofDigits 10 digits := by
  induction digits with
  | nil => rfl
  | cons digit rest ih =>
    obtain ⟨here, later⟩ := List.forall_mem_cons.mp small
    have value := ih later
    rw [Json.digitsValue] at value ⊢
    rw [List.reverse_cons, List.map_append, List.foldl_append, value, Nat.ofDigits_cons,
      List.map_singleton, List.foldl_cons, List.foldl_nil, (digitByte_digit digit here).2,
      Nat.add_comm]

theorem digitsValue_decimal (n : Nat) : Json.digitsValue (decimal n) = n := by
  unfold decimal
  split_ifs with zero
  · rw [zero]
    rfl
  · rw [digitsValue_map_digitByte fun digit => Nat.digits_lt_base (by decide), Nat.ofDigits_digits]

theorem decimal_all (n : Nat) : ∀ byte ∈ decimal n, Json.isDigit byte = true := by
  unfold decimal
  split_ifs with zero
  · exact List.forall_mem_singleton.mpr rfl
  · intro byte mem
    obtain ⟨digit, hdigit, rfl⟩ := List.mem_map.mp mem
    rw [List.mem_reverse] at hdigit
    exact (digitByte_digit digit (Nat.digits_lt_base (by decide) hdigit)).1

theorem decimal_ne_nil (n : Nat) : decimal n ≠ [] := by
  unfold decimal
  split_ifs with zero
  · exact List.cons_ne_nil _ _
  · simpa [Nat.digits_eq_nil_iff_eq_zero] using zero

/-- A 64-bit number is read back. -/
theorem getUint64_decimal (n : UInt64) : (Json.number (decimal n.toNat)).getUint64 = some n := by
  have digits : (decimal n.toNat).all Json.isDigit := List.all_eq_true.mpr (decimal_all _)
  have small : Json.digitsValue (decimal n.toNat) < 2 ^ 64 := by
    rw [digitsValue_decimal]
    exact n.toNat_lt
  rw [Json.getUint64, if_pos ⟨decimal_ne_nil _, digits, small⟩, digitsValue_decimal,
    UInt64.ofNat_toNat]

theorem written_decimal (n : Nat) : (Json.number (decimal n)).Written :=
  Json.written_number fun mem => absurd (decimal_all n 34 mem) (by decide)

/-- The characters of a decimal number. -/
def numeralBytes : List UInt8 := ascii "0123456789+-.eE"

/-- A text that is read exactly. -/
structure Numeral (strtod : List UInt8 → α) (text : List UInt8) (value : α) : Prop where
  short : text.length < 32
  bytes : ∀ byte ∈ text, byte ∈ numeralBytes
  exact : strtod text = value

theorem Numeral.read {strtod : List UInt8 → α} {text : List UInt8} {value : α}
    (numeral : Numeral strtod text value) : fastAtof strtod text = value := by
  rw [fastAtof, List.take_of_length_le (Nat.le_of_lt_succ numeral.short), numeral.exact]

/-! ## Objects -/

/-- Other fields of a message: numbers and flags under names of their own. -/
structure Others (own others : List (List UInt8 × Json)) : Prop where
  distinct : ((own ++ others).map Prod.fst).Nodup
  names : ∀ field ∈ others, 34 ∉ field.1 ∧ field.1 ≠ ascii "data"
  scalars : ∀ field ∈ others,
    (∃ literal, 34 ∉ literal ∧ field.2 = .number literal) ∨ ∃ flag, field.2 = .bool flag

/-- An object with these fields and others, in any order. -/
def Encodes (own : List (List UInt8 × Json)) (object : Json) : Prop :=
  ∃ others fields, Others own others ∧ fields.Perm (own ++ others) ∧ object = .object fields

/-- The envelope of a combined stream. -/
def Wraps (object wrapped : Json) : Prop :=
  ∃ stream fields, wrapped = .object fields ∧
    fields.Perm [(ascii "stream", .string stream), (ascii "data", object)]

theorem field?_of_mem {fields : List (List UInt8 × Json)} {name : List UInt8} {value : Json}
    (distinct : (fields.map Prod.fst).Nodup) (mem : (name, value) ∈ fields) :
    (Json.object fields).field? name = some value := by
  rw [Json.field?, Json.find?_of_distinct Prod.fst distinct mem]
  rfl

theorem field?_of_not_mem {fields : List (List UInt8 × Json)} {name : List UInt8}
    (absent : ∀ field ∈ fields, field.1 ≠ name) : (Json.object fields).field? name = none := by
  rw [Json.field?, Option.map_eq_none_iff, List.find?_eq_none]
  simpa using absent

theorem Encodes.field? {own : List (List UInt8 × Json)} {object : Json} {name : List UInt8}
    {value : Json} (encodes : Encodes own object) (mem : (name, value) ∈ own) :
    object.field? name = some value := by
  obtain ⟨others, fields, hothers, perm, rfl⟩ := encodes
  refine field?_of_mem ?_ (perm.mem_iff.mpr (List.mem_append_left _ mem))
  exact (perm.map Prod.fst).nodup_iff.mpr hothers.distinct

/-- The fields of a message: none is called `data`, and each can be written. -/
def Writable (own : List (List UInt8 × Json)) : Prop :=
  ∀ field ∈ own, 34 ∉ field.1 ∧ field.1 ≠ ascii "data" ∧ field.2.Written

theorem Encodes.field?_data {own : List (List UInt8 × Json)} {object : Json}
    (encodes : Encodes own object) (writable : Writable own) :
    object.field? (ascii "data") = none := by
  obtain ⟨others, fields, hothers, perm, rfl⟩ := encodes
  refine field?_of_not_mem fun field mem => ?_
  rcases List.mem_append.mp (perm.mem_iff.mp mem) with inOwn | inOthers
  · exact (writable field inOwn).2.1
  · exact (hothers.names field inOthers).2

/-- The text `"data"` is in an object where it is in the value of one of its own fields. -/
theorem Encodes.combined_iff {own : List (List UInt8 × Json)} {object : Json}
    (encodes : Encodes own object) (writable : Writable own) :
    (RawMessage.compact object).Combined ↔
      ∃ field ∈ own, ∃ body ∈ field.2.strings, Shows 34 (ascii "data") body := by
  obtain ⟨others, fields, hothers, perm, rfl⟩ := encodes
  have written : ∀ field ∈ fields, Escaped 34 92 field.1 ∧ field.2.Written := by
    intro field mem
    rcases List.mem_append.mp (perm.mem_iff.mp mem) with inOwn | inOthers
    · exact ⟨escaped_of_quiet (writable field inOwn).1, (writable field inOwn).2.2⟩
    · refine ⟨escaped_of_quiet (hothers.names field inOthers).1, ?_⟩
      rcases hothers.scalars field inOthers with ⟨literal, quiet, same⟩ | ⟨flag, same⟩
      · exact same ▸ Json.written_number quiet
      · exact same ▸ Json.written_bool flag
  refine (Json.quoted_infix_iff (Json.written_object written) Json.isWord_data).trans ?_
  constructor
  · rintro ⟨body, mem, shows⟩
    obtain ⟨field, hfield, rfl | inValue⟩ := Json.mem_stringsOfFields.mp mem
    · rcases List.mem_append.mp (perm.mem_iff.mp hfield) with inOwn | inOthers
      · obtain ⟨quiet, other, -⟩ := writable field inOwn
        exact absurd ((shows_iff_of_quiet quiet).mp shows) other
      · obtain ⟨quiet, other⟩ := hothers.names field inOthers
        exact absurd ((shows_iff_of_quiet quiet).mp shows) other
    · rcases List.mem_append.mp (perm.mem_iff.mp hfield) with inOwn | inOthers
      · exact ⟨field, inOwn, body, inValue, shows⟩
      · rcases hothers.scalars field inOthers with ⟨literal, -, same⟩ | ⟨flag, same⟩
        · rw [same, Json.strings_number] at inValue
          cases inValue
        · rw [same, Json.strings_bool] at inValue
          cases inValue
  · rintro ⟨field, inOwn, body, mem, shows⟩
    refine ⟨body, Json.mem_stringsOfFields.mpr ⟨field, ?_, Or.inr mem⟩, shows⟩
    exact perm.mem_iff.mpr (List.mem_append_left _ inOwn)

/-- Where no other value shows `"data"`, the object does exactly if its symbol does. -/
theorem Encodes.combined_iff_symbol {own : List (List UInt8 × Json)} {object : Json}
    {symbol : Symbol} (encodes : Encodes own object) (writable : Writable own)
    (listed : (ascii "s", Json.string symbol) ∈ own)
    (silent : ∀ field ∈ own, field = (ascii "s", Json.string symbol) ∨
      ∀ body ∈ field.2.strings, ¬ Shows 34 (ascii "data") body) :
    (RawMessage.compact object).Combined ↔ Shows 34 (ascii "data") symbol := by
  rw [encodes.combined_iff writable]
  constructor
  · rintro ⟨field, mem, body, inside, shows⟩
    rcases silent field mem with rfl | none
    · rw [Json.strings, List.mem_singleton] at inside
      exact (Json.shows_flatMap_escapeByte Json.isWord_data.2 _).mp (inside ▸ shows)
    · exact absurd shows (none body inside)
  · intro shows
    refine ⟨_, listed, _, List.mem_singleton_self _, ?_⟩
    exact (Json.shows_flatMap_escapeByte Json.isWord_data.2 _).mpr shows

/-- What the parsers look at in an envelope. -/
theorem Wraps.inner {object wrapped : Json} (wraps : Wraps object wrapped) :
    (RawMessage.compact wrapped).inner = some object := by
  obtain ⟨stream, fields, rfl, perm⟩ := wraps
  have names : [ascii "stream", ascii "data"].Nodup := by decide
  have distinct : (fields.map Prod.fst).Nodup := (perm.map Prod.fst).nodup_iff.mpr names
  have found : (Json.object fields).field? (ascii "data") = some object :=
    field?_of_mem distinct (perm.mem_iff.mpr (by simp))
  have combined : (RawMessage.compact (.object fields)).Combined :=
    Json.quoted_infix_render found
  rw [RawMessage.inner, if_pos combined]
  exact found

/-- An object is parsed into what it carries, whatever the output held before, and in the
envelope like without it. -/
def RoundTrips {σ : Type u} (parse : RawMessage → σ → Bool × σ) (carries : σ → Prop)
    (object : Json) : Prop :=
  ∀ out, (parse (RawMessage.compact object) out).1 = true ∧
    carries (parse (RawMessage.compact object) out).2 ∧
    ∀ wrapped, Wraps object wrapped →
      parse (RawMessage.compact wrapped) out = parse (RawMessage.compact object) out

/-- An object of the right type without a field `data` makes the trip if its text does not
show one. -/
theorem roundTrips_iff {σ : Type u} {event : List UInt8} {extract : Json → σ → σ}
    {carries : σ → Prop} {object : Json} (typed : eventType object = some event)
    (dataless : object.field? (ascii "data") = none)
    (carried : ∀ out, carries (extract object out)) (blank : σ) :
    RoundTrips (parseEvent event extract) carries object ↔
      ¬ (RawMessage.compact object).Combined := by
  constructor
  · intro trip combined
    obtain ⟨doc, mem, -⟩ := parseEvent_accepts_iff.mp (trip blank).1
    rw [RawMessage.inner, if_pos combined] at mem
    exact Option.some_ne_none doc (mem.symm.trans dataless)
  · intro bare out
    have found : (RawMessage.compact object).inner = some object := by
      rw [RawMessage.inner, if_neg bare]
      rfl
    have parsed : parseEvent event extract (RawMessage.compact object) out =
        (true, extract object out) := parseEvent_of_event found typed
    rw [parsed]
    refine ⟨rfl, carried out, fun wrapped wraps => ?_⟩
    exact parseEvent_of_event wraps.inner typed

/-! ## Depth updates -/

/-- A level is written as the pair of its price and its quantity. -/
def WritesLevel (strtod : List UInt8 → α) (level : PriceLevel α) (element : Json) : Prop :=
  ∃ price qty, Numeral strtod price level.price ∧ Numeral strtod qty level.quantity ∧
    element = .array [.string price, .string qty]

def depthFields (update : DepthUpdate α) (bids asks : List Json) : List (List UInt8 × Json) :=
  [(ascii "e", .string (ascii "depthUpdate")),
    (ascii "E", .number (decimal update.eventTimeMs.toNat)),
    (ascii "s", .string update.symbol),
    (ascii "U", .number (decimal update.firstUpdateId.toNat)),
    (ascii "u", .number (decimal update.lastUpdateId.toNat)),
    (ascii "b", .array bids),
    (ascii "a", .array asks)]

/-- The object of a depth update. -/
def EncodesDepth (strtod : List UInt8 → α) (update : DepthUpdate α) (object : Json) : Prop :=
  ∃ bids asks,
    (update.bids.toList.take update.bidCount.toNat).Forall₂ (WritesLevel strtod) bids ∧
    (update.asks.toList.take update.askCount.toNat).Forall₂ (WritesLevel strtod) asks ∧
    Encodes (depthFields update bids asks) object

/-- The output holds what the update carries. -/
def CarriesDepth (update out : DepthUpdate α) : Prop :=
  StrictAcceptance.depthData out = StrictAcceptance.depthData update ∧
    out.bidCount = update.bidCount ∧ out.askCount = update.askCount

variable {strtod : List UInt8 → α}

theorem readLevel_of_writes {level : PriceLevel α} {element : Json}
    (writes : WritesLevel strtod level element) :
    DepthParser.readLevel strtod element = some level := by
  obtain ⟨price, qty, hprice, hqty, rfl⟩ := writes
  simp [DepthParser.readLevel, Json.getArray, Json.getString, hprice.read, hqty.read]

theorem filterMap_readLevel {levels : List (PriceLevel α)} {elements : List Json}
    (writes : levels.Forall₂ (WritesLevel strtod) elements) :
    elements.filterMap (DepthParser.readLevel strtod) = levels := by
  induction writes with
  | nil => rfl
  | cons here later ih => rw [List.filterMap_cons_some (readLevel_of_writes here), ih]

/-- The letter at the end of `data` is in no number. -/
theorem Numeral.not_shows {text : List UInt8} {value : α} (numeral : Numeral strtod text value) :
    ¬ Shows 34 (ascii "data") (text.flatMap Json.escapeByte) := by
  rw [Json.shows_flatMap_escapeByte Json.isWord_data.2]
  rintro ⟨before, split⟩
  have last : ∀ byte ∈ (34 : UInt8) :: text, byte ≠ 97 := by
    intro byte mem
    rcases List.mem_cons.mp mem with rfl | inText
    · decide
    · rintro rfl
      exact absurd (numeral.bytes 97 inText) (by decide)
  refine last 97 ?_ rfl
  rw [← split]
  exact List.mem_append_right _ (by decide)

theorem silent_string {value : List UInt8}
    (not_shows : ¬ Shows 34 (ascii "data") (value.flatMap Json.escapeByte)) :
    ∀ body ∈ (Json.string value).strings, ¬ Shows 34 (ascii "data") body := by
  intro body mem
  rw [Json.strings, List.mem_singleton] at mem
  exact mem ▸ not_shows

theorem silent_number (literal : List UInt8) :
    ∀ body ∈ (Json.number literal).strings, ¬ Shows 34 (ascii "data") body := by simp

theorem written_level {level : PriceLevel α} {element : Json}
    (writes : WritesLevel strtod level element) :
    element.Written ∧ ∀ body ∈ element.strings, ¬ Shows 34 (ascii "data") body := by
  obtain ⟨price, qty, hprice, hqty, rfl⟩ := writes
  constructor
  · refine Json.written_array fun element mem => ?_
    rcases List.mem_pair.mp mem with rfl | rfl
    · exact Json.written_string price
    · exact Json.written_string qty
  · intro body mem
    simp only [Json.strings, Json.mem_stringsOfElements, List.mem_cons, List.not_mem_nil,
      or_false, exists_eq_or_imp, exists_eq_left] at mem
    rcases mem with rfl | rfl
    · exact hprice.not_shows
    · exact hqty.not_shows

theorem written_levels {levels : List (PriceLevel α)} {elements : List Json}
    (writes : levels.Forall₂ (WritesLevel strtod) elements) :
    (Json.array elements).Written ∧
      ∀ body ∈ (Json.array elements).strings, ¬ Shows 34 (ascii "data") body := by
  have each : ∀ element ∈ elements,
      element.Written ∧ ∀ body ∈ element.strings, ¬ Shows 34 (ascii "data") body := by
    induction writes with
    | nil => exact List.forall_mem_nil _
    | cons here later ih => exact List.forall_mem_cons.mpr ⟨written_level here, ih⟩
  refine ⟨Json.written_array fun element mem => (each element mem).1, ?_⟩
  intro body mem
  rw [Json.strings] at mem
  obtain ⟨element, hmem, inside⟩ := Json.mem_stringsOfElements.mp mem
  exact (each element hmem).2 body inside

theorem writable_depthFields (update : DepthUpdate α) {bids asks : List Json}
    (hbids : (Json.array bids).Written) (hasks : (Json.array asks).Written) :
    Writable (depthFields update bids asks) := by
  unfold Writable depthFields
  simp only [List.forall_mem_cons, List.not_mem_nil, false_implies, implies_true, and_true,
    written_decimal, Json.written_string, hbids, hasks]
  decide

/-- The object of an update shows `"data"` where its symbol does. -/
theorem combined_depth_iff {update : DepthUpdate α} {object : Json}
    (encodes : EncodesDepth strtod update object) :
    (RawMessage.compact object).Combined ↔ Shows 34 (ascii "data") update.symbol := by
  obtain ⟨bids, asks, hbids, hasks, hobject⟩ := encodes
  obtain ⟨bidsWritten, bidsSilent⟩ := written_levels hbids
  obtain ⟨asksWritten, asksSilent⟩ := written_levels hasks
  refine hobject.combined_iff_symbol (writable_depthFields update bidsWritten asksWritten)
    (by simp [depthFields]) fun field mem => ?_
  simp only [depthFields, List.mem_cons, List.not_mem_nil, or_false] at mem
  rcases mem with rfl | rfl | rfl | rfl | rfl | rfl | rfl
  · exact Or.inr (silent_string (by decide +kernel))
  · exact Or.inr (silent_number _)
  · exact Or.inl rfl
  · exact Or.inr (silent_number _)
  · exact Or.inr (silent_number _)
  · exact Or.inr bidsSilent
  · exact Or.inr asksSilent

theorem take_of_count_le {levels : Vector (PriceLevel α) maxLevels} {count : UInt16}
    (inside : count.toNat ≤ maxLevels) : (levels.toList.take count.toNat).length = count.toNat := by
  rw [List.length_take, Vector.length_toList, Nat.min_eq_left inside]

/-- Levels that were written are the levels read, as many of them. -/
theorem readSide_levels {doc : Json} {name : List UInt8} {elements : List Json}
    {levels out : Vector (PriceLevel α) maxLevels} {count : UInt16}
    (field : doc.field? name = some (.array elements)) (inside : count.toNat ≤ maxLevels)
    (writes : (levels.toList.take count.toNat).Forall₂ (WritesLevel strtod) elements) :
    (DepthParser.readSide strtod doc name out).1.toList.take
        (DepthParser.readSide strtod doc name out).2.toNat = levels.toList.take count.toNat ∧
      (DepthParser.readSide strtod doc name out).2 = count := by
  obtain ⟨bound, front⟩ := DepthParser.readSide_spec strtod doc name out
  have elementsOf : DepthParser.elementsOf doc name = elements := by
    simp [DepthParser.elementsOf, field, Json.getArray]
  have size : (levels.toList.take count.toNat).length = count.toNat := take_of_count_le inside
  rw [elementsOf, filterMap_readLevel writes,
    List.take_of_length_le (size.trans_le inside)] at front
  refine ⟨front, UInt16.toNat_inj.mp ?_⟩
  rw [← take_of_count_le bound, front, size]

theorem carriesDepth_extract {update : DepthUpdate α} {object : Json} (inBounds : update.InBounds)
    (encodes : EncodesDepth strtod update object) (out : DepthUpdate α) :
    CarriesDepth update (DepthParser.extract strtod object out) := by
  obtain ⟨bids, asks, hbids, hasks, hobject⟩ := encodes
  have field : ∀ entry ∈ depthFields update bids asks, object.field? entry.1 = some entry.2 :=
    fun entry mem => hobject.field? mem
  simp only [depthFields, List.forall_mem_cons, List.not_mem_nil, false_implies, implies_true,
    and_true] at field
  obtain ⟨-, time, symbol, first, last, bidsField, asksField⟩ := field
  have scalars := DepthParser.extract_scalars strtod object out
  simp only [time, symbol, first, last, Option.bind_some, getUint64_decimal, Json.getString,
    Option.getD_some] at scalars
  obtain ⟨time', first', last', symbol'⟩ := scalars
  have bids' : (DepthParser.extract strtod object out).bids.toList.take
        (DepthParser.extract strtod object out).bidCount.toNat =
          update.bids.toList.take update.bidCount.toNat ∧
      (DepthParser.extract strtod object out).bidCount = update.bidCount :=
    readSide_levels bidsField inBounds.1 hbids
  have asks' : (DepthParser.extract strtod object out).asks.toList.take
        (DepthParser.extract strtod object out).askCount.toNat =
          update.asks.toList.take update.askCount.toNat ∧
      (DepthParser.extract strtod object out).askCount = update.askCount :=
    readSide_levels asksField inBounds.2 hasks
  refine ⟨?_, bids'.2, asks'.2⟩
  simp only [StrictAcceptance.depthData, time', first', last', symbol', bids'.1, asks'.1]

/-! ## Trades -/

def tradeFields (trade : Trade α) (price quantity : List UInt8) : List (List UInt8 × Json) :=
  [(ascii "e", .string (ascii "trade")),
    (ascii "E", .number (decimal trade.eventTimeMs.toNat)),
    (ascii "s", .string trade.symbol),
    (ascii "t", .number (decimal trade.tradeId.toNat)),
    (ascii "p", .string price),
    (ascii "q", .string quantity),
    (ascii "m", .bool trade.isBuyerMaker)]

/-- The object of a trade. -/
def EncodesTrade (strtod : List UInt8 → α) (trade : Trade α) (object : Json) : Prop :=
  ∃ price quantity, Numeral strtod price trade.price ∧ Numeral strtod quantity trade.quantity ∧
    Encodes (tradeFields trade price quantity) object

/-- The output holds what the trade carries. -/
def CarriesTrade (trade out : Trade α) : Prop :=
  StrictAcceptance.tradeData out = StrictAcceptance.tradeData trade

theorem writable_tradeFields (trade : Trade α) (price quantity : List UInt8) :
    Writable (tradeFields trade price quantity) := by
  unfold Writable tradeFields
  simp only [List.forall_mem_cons, List.not_mem_nil, false_implies, implies_true, and_true,
    written_decimal, Json.written_string, Json.written_bool]
  decide

theorem combined_trade_iff {trade : Trade α} {object : Json}
    (encodes : EncodesTrade strtod trade object) :
    (RawMessage.compact object).Combined ↔ Shows 34 (ascii "data") trade.symbol := by
  obtain ⟨price, quantity, hprice, hquantity, hobject⟩ := encodes
  refine hobject.combined_iff_symbol (writable_tradeFields trade price quantity)
    (by simp [tradeFields]) fun field mem => ?_
  simp only [tradeFields, List.mem_cons, List.not_mem_nil, or_false] at mem
  rcases mem with rfl | rfl | rfl | rfl | rfl | rfl | rfl
  · exact Or.inr (silent_string (by decide +kernel))
  · exact Or.inr (silent_number _)
  · exact Or.inl rfl
  · exact Or.inr (silent_number _)
  · exact Or.inr (silent_string hprice.not_shows)
  · exact Or.inr (silent_string hquantity.not_shows)
  · exact Or.inr (by simp)

theorem carriesTrade_extract {trade : Trade α} {object : Json}
    (encodes : EncodesTrade strtod trade object) (out : Trade α) :
    CarriesTrade trade (TradeParser.extract strtod object out) := by
  obtain ⟨price, quantity, hprice, hquantity, hobject⟩ := encodes
  have field : ∀ entry ∈ tradeFields trade price quantity,
      object.field? entry.1 = some entry.2 := fun entry mem => hobject.field? mem
  simp only [tradeFields, List.forall_mem_cons, List.not_mem_nil, false_implies, implies_true,
    and_true] at field
  obtain ⟨-, time, symbol, id, priceField, quantityField, maker⟩ := field
  have scalars := TradeParser.extract_scalars strtod object out
  simp only [time, symbol, id, priceField, quantityField, maker, Option.bind_some, Option.map_some,
    getUint64_decimal, Json.getString, Json.getBool, hprice.read, hquantity.read,
    Option.getD_some] at scalars
  obtain ⟨time', id', symbol', price', quantity', maker'⟩ := scalars
  simp only [CarriesTrade, StrictAcceptance.tradeData, time', id', symbol', price', quantity',
    maker']

/-- Every update within the level arrays and every trade is parsed back from its object, bare
or wrapped, if and only if its symbol is not `data` and does not end in a quote and `data`. -/
theorem round_trips_iff (strtod : List UInt8 → α) :
    (∀ update : DepthUpdate α, update.InBounds → ∀ object, EncodesDepth strtod update object →
      (RoundTrips (DepthParser.parse strtod) (CarriesDepth update) object ↔
        ¬ Shows 34 (ascii "data") update.symbol)) ∧
    (∀ trade : Trade α, ∀ object, EncodesTrade strtod trade object →
      (RoundTrips (TradeParser.parse strtod) (CarriesTrade trade) object ↔
        ¬ Shows 34 (ascii "data") trade.symbol)) := by
  constructor
  · intro update inBounds object encodes
    obtain ⟨bids, asks, hbids, hasks, hobject⟩ := id encodes
    have writable := writable_depthFields update (written_levels hbids).1 (written_levels hasks).1
    have event : object.field? (ascii "e") = some (.string (ascii "depthUpdate")) :=
      hobject.field? List.mem_cons_self
    have typed : eventType object = some (ascii "depthUpdate") := by
      rw [eventType, event]
      rfl
    rw [← combined_depth_iff encodes]
    exact roundTrips_iff typed (hobject.field?_data writable)
      (carriesDepth_extract inBounds encodes) update
  · intro trade object encodes
    obtain ⟨price, quantity, -, -, hobject⟩ := id encodes
    have event : object.field? (ascii "e") = some (.string (ascii "trade")) :=
      hobject.field? List.mem_cons_self
    have typed : eventType object = some (ascii "trade") := by
      rw [eventType, event]
      rfl
    rw [← combined_trade_iff encodes]
    exact roundTrips_iff typed (hobject.field?_data (writable_tradeFields trade price quantity))
      (carriesTrade_extract encodes) trade

/-! ## A symbol that ends in a quote and `data` -/

/-- A text for prices that is read as 5. -/
def readFive (text : List UInt8) : ℚ := if text = ascii "5.00" then 5 else 0

theorem numeral_five : Numeral readFive (ascii "5.00") 5 where
  short := by decide
  bytes := by simp [ascii, numeralBytes]
  exact := by decide +kernel

def fiveTrade (symbol : Symbol) : Trade ℚ where
  eventTimeMs := 1672531200000
  tradeId := 28457
  symbol := symbol
  price := 5
  quantity := 5
  isBuyerMaker := true

def fiveUpdate (symbol : Symbol) : DepthUpdate ℚ where
  eventTimeMs := 1672531200000
  firstUpdateId := 1
  lastUpdateId := 2
  symbol := symbol
  bids := Vector.replicate maxLevels ⟨5, 5⟩
  asks := Vector.replicate maxLevels ⟨0, 0⟩
  bidCount := 1
  askCount := 0

def fiveTradeObject (symbol : Symbol) : Json :=
  .object (tradeFields (fiveTrade symbol) (ascii "5.00") (ascii "5.00"))

def fiveUpdateObject (symbol : Symbol) : Json :=
  .object (depthFields (fiveUpdate symbol)
    [.array [.string (ascii "5.00"), .string (ascii "5.00")]] [])

theorem encodes_alone {own : List (List UInt8 × Json)} (distinct : (own.map Prod.fst).Nodup) :
    Encodes own (.object own) :=
  ⟨[], own, ⟨by simpa using distinct, by simp, by simp⟩, by simp, rfl⟩

theorem encodes_fiveTrade (symbol : Symbol) :
    EncodesTrade readFive (fiveTrade symbol) (fiveTradeObject symbol) := by
  refine ⟨_, _, numeral_five, numeral_five, encodes_alone ?_⟩
  change [ascii "e", ascii "E", ascii "s", ascii "t", ascii "p", ascii "q", ascii "m"].Nodup
  decide

theorem encodes_fiveUpdate (symbol : Symbol) :
    EncodesDepth readFive (fiveUpdate symbol) (fiveUpdateObject symbol) := by
  refine ⟨_, [], .cons ⟨_, _, numeral_five, numeral_five, rfl⟩ .nil, .nil, encodes_alone ?_⟩
  change [ascii "e", ascii "E", ascii "s", ascii "U", ascii "u", ascii "b", ascii "a"].Nodup
  decide

theorem round_trips_btc :
    RoundTrips (DepthParser.parse readFive) (CarriesDepth (fiveUpdate (ascii "BTCUSDT")))
        (fiveUpdateObject (ascii "BTCUSDT")) ∧
      RoundTrips (TradeParser.parse readFive) (CarriesTrade (fiveTrade (ascii "BTCUSDT")))
        (fiveTradeObject (ascii "BTCUSDT")) :=
  ⟨((round_trips_iff readFive).1 _ (by decide) _ (encodes_fiveUpdate _)).mpr (by decide),
    ((round_trips_iff readFive).2 _ _ (encodes_fiveTrade _)).mpr (by decide)⟩

/-- The symbol `X"data`, which is neither `data` nor `stream`. -/
def quotedSymbol : Symbol := ascii "X\"data"

/-- Bare, a trade or an update of this symbol is refused. -/
theorem quoted_symbol_refused :
    quotedSymbol ≠ ascii "data" ∧ quotedSymbol ≠ ascii "stream" ∧
    EncodesTrade readFive (fiveTrade quotedSymbol) (fiveTradeObject quotedSymbol) ∧
    (fiveTradeObject quotedSymbol).render =
      ascii ("\x7b\"e\":\"trade\",\"E\":1672531200000,\"s\":\"X\\\"data\",\"t\":28457," ++
        "\"p\":\"5.00\",\"q\":\"5.00\",\"m\":true\x7d") ∧
    (TradeParser.parse readFive (RawMessage.compact (fiveTradeObject quotedSymbol))
      (fiveTrade [])).1 = false ∧
    (fiveUpdate quotedSymbol).InBounds ∧
    EncodesDepth readFive (fiveUpdate quotedSymbol) (fiveUpdateObject quotedSymbol) ∧
    (DepthParser.parse readFive (RawMessage.compact (fiveUpdateObject quotedSymbol))
      (fiveUpdate [])).1 = false ∧
    ¬ RoundTrips (TradeParser.parse readFive) (CarriesTrade (fiveTrade quotedSymbol))
      (fiveTradeObject quotedSymbol) ∧
    ¬ RoundTrips (DepthParser.parse readFive) (CarriesDepth (fiveUpdate quotedSymbol))
      (fiveUpdateObject quotedSymbol) := by
  have tradeRefused : (TradeParser.parse readFive
      (RawMessage.compact (fiveTradeObject quotedSymbol)) (fiveTrade [])).1 = false := by
    decide +kernel
  have updateRefused : (DepthParser.parse readFive
      (RawMessage.compact (fiveUpdateObject quotedSymbol)) (fiveUpdate [])).1 = false := by
    decide +kernel
  refine ⟨by decide, by decide, encodes_fiveTrade _, by decide +kernel, tradeRefused, by decide,
    encodes_fiveUpdate _, updateRefused, ?_, ?_⟩
  · intro trip
    exact absurd (trip (fiveTrade [])).1 (by rw [tradeRefused]; decide)
  · intro trip
    exact absurd (trip (fiveUpdate [])).1 (by rw [updateRefused]; decide)

end WireFormat
