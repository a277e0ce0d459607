import MarketDataEngine.StrictAcceptance
import MarketDataEngine.OrderBook

/-!
# The book of the live messages

A raw depth update is parsed and applied to the book. The parser keeps the first
`MAX_LEVELS` levels of a side; the book of any sequence of well-formed messages is
the reference map of the levels so kept, and of all levels when no side has more.
-/

open MarketTypes

namespace LiveBook

open OrderBook StrictAcceptance

/-- `parse` into the given output, and `apply_update` of what was accepted. -/
def receive (strtod : List UInt8 → ℚ) (book : OrderBook) (arrival : RawMessage × DepthUpdate ℚ) :
    Option OrderBook :=
  let parsed := DepthParser.parse strtod arrival.1 arrival.2
  if parsed.1 then book.applyUpdate parsed.2 else some book

/-- The level that a pair of strings stands for. -/
def levelOf (strtod : List UInt8 → ℚ) : Json → Option (PriceLevel ℚ)
  | .array [.string price, .string qty] => some ⟨strtod price, strtod qty⟩
  | _ => none

/-- All levels that a message carries on one side. -/
def levelsOf (strtod : List UInt8 → ℚ) (name : List UInt8) (msg : RawMessage) :
    List (PriceLevel ℚ) :=
  ((payload msg).toList.flatMap (fun doc => DepthParser.elementsOf doc name)).filterMap
    (levelOf strtod)

def bidName : List UInt8 := ascii "b"

def askName : List UInt8 := ascii "a"

/-- A complete depth update, bare or as the field `data`, whose numbers fit the copy of
`fast_atof`. -/
structure WellFormed (msg : RawMessage) : Prop where
  clear : ¬ Misled msg
  whole : ∃ doc ∈ payload msg, CompleteDepth doc
  short : ∀ doc ∈ payload msg, ∀ name ∈ [bidName, askName], ∀ price qty,
    .array [.string price, .string qty] ∈ DepthParser.elementsOf doc name →
      price.length < 32 ∧ qty.length < 32

/-- On short pairs the parser reads the level that is meant. -/
theorem readLevel_eq (strtod : List UInt8 → ℚ) {price qty : List UInt8}
    (short : price.length < 32 ∧ qty.length < 32) :
    DepthParser.readLevel strtod (.array [.string price, .string qty]) =
      levelOf strtod (.array [.string price, .string qty]) := by
  have whole : price.take 31 = price ∧ qty.take 31 = qty :=
    ⟨List.take_of_length_le (by omega), List.take_of_length_le (by omega)⟩
  simp [DepthParser.readLevel, levelOf, Json.getArray, Json.getString, fastAtof, whole]

/-- The levels that the parser reads of a well-formed message. -/
theorem filterMap_readLevel (strtod : List UInt8 → ℚ) {msg : RawMessage} {doc : Json}
    (wellFormed : WellFormed msg) (mem : doc ∈ payload msg) {name : List UInt8}
    (side : name ∈ [bidName, askName]) (pairs : HasPairs doc name) :
    (DepthParser.elementsOf doc name).filterMap (DepthParser.readLevel strtod) =
      levelsOf strtod name msg := by
  obtain ⟨elements, found, strings⟩ := pairs
  have here : DepthParser.elementsOf doc name = elements := by
    rw [DepthParser.elementsOf, found, Option.getD_some]
  rw [levelsOf, Option.mem_def.mp mem, Option.toList_some, List.flatMap_singleton]
  apply List.filterMap_congr
  intro element inside
  obtain ⟨price, qty, rfl⟩ := strings element (here ▸ inside)
  exact readLevel_eq strtod (wellFormed.short doc mem name side price qty inside)

/-- A well-formed message is accepted and becomes an update of its first levels. -/
theorem receive_wellFormed (strtod : List UInt8 → ℚ) (book : OrderBook) {msg : RawMessage}
    (wellFormed : WellFormed msg) (out : DepthUpdate ℚ) :
    ∃ update : DepthUpdate ℚ, receive strtod book (msg, out) = book.applyUpdate update ∧
      update.InBounds ∧
      bidEntries update = (levelsOf strtod bidName msg).take maxLevels ∧
      askEntries update = (levelsOf strtod askName msg).take maxLevels := by
  obtain ⟨doc, mem, whole⟩ := wellFormed.whole
  have found := (inner_eq_payload wellFormed.clear).trans mem
  refine ⟨DepthParser.extract strtod doc out, ?_, DepthParser.extract_inBounds strtod doc out,
    ?_, ?_⟩
  · rw [receive, DepthParser.parse, parseEvent_of_event found whole.event]
    rfl
  · rw [bidEntries, DepthParser.extract_bids]
    exact congrArg _
      (@filterMap_readLevel strtod msg doc wellFormed mem bidName (by simp) whole.bids)
  · rw [askEntries, DepthParser.extract_asks]
    exact congrArg _
      (@filterMap_readLevel strtod msg doc wellFormed mem askName (by simp) whole.asks)

/-- The levels of a side that reach the book. -/
def keptLevels (strtod : List UInt8 → ℚ) (name : List UInt8)
    (arrivals : List (RawMessage × DepthUpdate ℚ)) : List (PriceLevel ℚ) :=
  arrivals.flatMap (fun arrival => (levelsOf strtod name arrival.1).take maxLevels)

/-- All levels of a side that the messages carry. -/
def allLevels (strtod : List UInt8 → ℚ) (name : List UInt8)
    (arrivals : List (RawMessage × DepthUpdate ℚ)) : List (PriceLevel ℚ) :=
  arrivals.flatMap (fun arrival => levelsOf strtod name arrival.1)

theorem keptLevels_snoc (strtod : List UInt8 → ℚ) (name : List UInt8)
    (arrivals : List (RawMessage × DepthUpdate ℚ)) (arrival : RawMessage × DepthUpdate ℚ) :
    keptLevels strtod name (arrivals ++ [arrival]) =
      keptLevels strtod name arrivals ++ (levelsOf strtod name arrival.1).take maxLevels := by
  simp [keptLevels]

/-- The book folds up the kept levels, whatever the outputs held before. -/
theorem foldlM_receive (strtod : List UInt8 → ℚ) (symbol : Symbol)
    (arrivals : List (RawMessage × DepthUpdate ℚ))
    (wellFormed : ∀ arrival ∈ arrivals, WellFormed arrival.1) :
    ∃ book, arrivals.foldlM (receive strtod) { symbol } = some book ∧
      book.bids = (keptLevels strtod bidName arrivals).foldl applyLevel .empty ∧
      book.asks = (keptLevels strtod askName arrivals).foldl applyLevel .empty := by
  induction arrivals using List.reverseRecOn with
  | nil => exact ⟨_, rfl, rfl, rfl⟩
  | append_singleton arrivals arrival ih =>
    obtain ⟨book, hbook, bids, asks⟩ := ih (fun a ha => wellFormed a (List.mem_append_left _ ha))
    obtain ⟨msg, out⟩ := arrival
    obtain ⟨update, received, inBounds, bids', asks'⟩ :=
      receive_wellFormed strtod book (wellFormed (msg, out) (by simp)) out
    rw [applyUpdate_of_inBounds book inBounds] at received
    refine ⟨_, by rw [List.foldlM_append, hbook]; simpa using received, ?_, ?_⟩
    · rw [keptLevels_snoc, List.foldl_append, ← bids, ← bids']
    · rw [keptLevels_snoc, List.foldl_append, ← asks, ← asks']

/-- For every sequence of well-formed messages, each parsed into whatever its output held,
the book is the map of the last quantities among the first 64 levels of each side of each
message, and so among all levels when no side of a message has more. -/
theorem live_book (strtod : List UInt8 → ℚ) (symbol : Symbol)
    (arrivals : List (RawMessage × DepthUpdate ℚ))
    (wellFormed : ∀ arrival ∈ arrivals, WellFormed arrival.1) :
    ∃ book, arrivals.foldlM (receive strtod) { symbol } = some book ∧
      book.bids.find? = referenceSide (keptLevels strtod bidName arrivals) ∧
      book.asks.find? = referenceSide (keptLevels strtod askName arrivals) ∧
      ((∀ arrival ∈ arrivals, ∀ name ∈ [bidName, askName],
          (levelsOf strtod name arrival.1).length ≤ maxLevels) →
        book.bids.find? = referenceSide (allLevels strtod bidName arrivals) ∧
        book.asks.find? = referenceSide (allLevels strtod askName arrivals)) := by
  obtain ⟨book, run, bids, asks⟩ := foldlM_receive strtod symbol arrivals wellFormed
  have bids' : book.bids.find? = referenceSide (keptLevels strtod bidName arrivals) := by
    rw [bids, find?_foldl_applyLevel]
  have asks' : book.asks.find? = referenceSide (keptLevels strtod askName arrivals) := by
    rw [asks, find?_foldl_applyLevel]
  refine ⟨book, run, bids', asks', ?_⟩
  intro fits
  have all : ∀ name ∈ [bidName, askName],
      keptLevels strtod name arrivals = allLevels strtod name arrivals := by
    intro name side
    apply List.flatMap_congr
    intro arrival mem
    exact List.take_of_length_le (fits arrival mem name side)
  rw [bids', asks', all bidName (by simp), all askName (by simp)]
  exact ⟨rfl, rfl⟩

/-- `strtod` on a plain decimal. -/
def readDecimal (text : List UInt8) : ℚ :=
  let whole := text.takeWhile Json.isDigit
  let fraction := (text.drop (whole.length + 1)).takeWhile Json.isDigit
  Json.digitsValue whole + Json.digitsValue fraction / 10 ^ fraction.length

example : readDecimal (ascii "16500.50") = 33001 / 2 := by decide +kernel

/-- A bid of one unit, with its price in whole thousands and units. -/
def bidAt (units : Nat) : Json :=
  .array [.string (49 :: [units / 100, units / 10 % 10, units % 10].map
    (fun digit => UInt8.ofNat (48 + digit)) ++ ascii ".00"), .string (ascii "1.00")]

/-- A depth update with these ids and bids, and no asks. -/
def depthMessage (first last : String) (bids : List Json) : RawMessage := .compact (.object [
  (ascii "e", .string (ascii "depthUpdate")),
  (ascii "E", .number (ascii "1")),
  (ascii "s", .string (ascii "TEST")),
  (ascii "U", .number (ascii first)),
  (ascii "u", .number (ascii last)),
  (ascii "b", .array bids),
  (ascii "a", .array [])])

def bidMessage (bids : List Json) : RawMessage := depthMessage "1" "1" bids

def emptyUpdate : DepthUpdate ℚ where
  eventTimeMs := 0
  firstUpdateId := 0
  lastUpdateId := 0
  symbol := []
  bids := Vector.replicate maxLevels ⟨0, 0⟩
  asks := Vector.replicate maxLevels ⟨0, 0⟩
  bidCount := 0
  askCount := 0

/-- A pair of texts that fit the copy of `fast_atof`. -/
def ShortPair (bid : Json) : Prop :=
  ∃ price qty, bid = .array [.string price, .string qty] ∧ price.length < 32 ∧ qty.length < 32

theorem bidAt_short (units : Nat) : ShortPair (bidAt units) :=
  ⟨_, _, rfl, by simp [ascii], by decide⟩

theorem wellFormed_depthMessage {first last : String} {bids : List Json}
    (firstId : Json.getUint64 (.number (ascii first)) ≠ none)
    (lastId : Json.getUint64 (.number (ascii last)) ≠ none)
    (short : ∀ bid ∈ bids, ShortPair bid)
    (plain : ¬ (depthMessage first last bids).Combined) :
    WellFormed (depthMessage first last bids) := by
  refine ⟨fun misled => plain misled.1, ⟨_, rfl, ⟨rfl, Option.some_ne_none _,
    firstId, lastId, Option.some_ne_none _, ?_, ?_⟩⟩, ?_⟩
  · refine ⟨bids, rfl, ?_⟩
    intro bid mem
    obtain ⟨price, qty, same, -⟩ := short bid mem
    exact ⟨price, qty, same⟩
  · exact ⟨[], rfl, List.forall_mem_nil _⟩
  · rintro _ ⟨⟩ name side price qty inside
    rcases List.mem_pair.mp side with rfl | rfl
    · obtain ⟨_, _, same, fits⟩ := short _ inside
      cases same
      exact fits
    · change _ ∈ [] at inside
      cases inside

theorem wellFormed_bidMessage {bids : List Json} (short : ∀ bid ∈ bids, ShortPair bid)
    (plain : ¬ (bidMessage bids).Combined) : WellFormed (bidMessage bids) :=
  wellFormed_depthMessage (by decide) (by decide) short plain

def bidFor (price qty : String) : Json :=
  .array [.string (ascii price), .string (ascii qty)]

/-- The first message has two quantities for one price, the second one takes the other price
out and brings a new one. -/
def twoMessages : List (RawMessage × DepthUpdate ℚ) :=
  [(bidMessage [bidFor "1001.00" "1.00", bidFor "1002.00" "1.00", bidFor "1001.00" "2.00"],
      emptyUpdate),
    (bidMessage [bidFor "1002.00" "0.00", bidFor "1003.00" "1.00"], emptyUpdate)]

theorem live_book_twoMessages :
    ∃ book, twoMessages.foldlM (receive readDecimal) { symbol := ascii "TEST" } = some book ∧
      book.bids.find? 1001 = some 2 ∧ book.bids.find? 1002 = none ∧
      book.bids.find? 1003 = some 1 := by
  have short : ∀ price qty : String, (ascii price).length < 32 → (ascii qty).length < 32 →
      ShortPair (bidFor price qty) := fun _ _ price qty => ⟨_, _, rfl, price, qty⟩
  have wellFormed : ∀ arrival ∈ twoMessages, WellFormed arrival.1 := by
    simp only [twoMessages, List.forall_mem_cons]
    refine ⟨wellFormed_bidMessage ?_ (by decide +kernel),
      wellFormed_bidMessage ?_ (by decide +kernel), List.forall_mem_nil _⟩
    · simp only [List.forall_mem_cons]
      exact ⟨short _ _ (by decide) (by decide), short _ _ (by decide) (by decide),
        short _ _ (by decide) (by decide), List.forall_mem_nil _⟩
    · simp only [List.forall_mem_cons]
      exact ⟨short _ _ (by decide) (by decide), short _ _ (by decide) (by decide),
        List.forall_mem_nil _⟩
  obtain ⟨book, run, -, -, all⟩ := live_book readDecimal (ascii "TEST") twoMessages wellFormed
  obtain ⟨bids, -⟩ := all (by decide +kernel)
  refine ⟨book, run, ?_⟩
  rw [bids]
  exact ⟨by decide +kernel, by decide +kernel, by decide +kernel⟩

/-- Of 65 bids in one message, at 1000 to 1064, the last does not reach the book. -/
theorem last_bid_lost :
    WellFormed (bidMessage ((List.range 65).map bidAt)) ∧
    ∃ book, [(bidMessage ((List.range 65).map bidAt), emptyUpdate)].foldlM (receive readDecimal)
        { symbol := ascii "TEST" } = some book ∧
      book.bids.find? 1064 = none ∧
      referenceSide (allLevels readDecimal bidName
        [(bidMessage ((List.range 65).map bidAt), emptyUpdate)]) 1064 = some 1 := by
  have short : ∀ bid ∈ (List.range 65).map bidAt, ShortPair bid := by
    intro bid mem
    obtain ⟨units, -, rfl⟩ := List.mem_map.mp mem
    exact bidAt_short units
  have wellFormed := wellFormed_bidMessage short (by decide +kernel)
  refine ⟨wellFormed, ?_⟩
  obtain ⟨book, run, bids, -⟩ := foldlM_receive readDecimal (ascii "TEST")
    [(bidMessage ((List.range 65).map bidAt), emptyUpdate)] (by
      rintro arrival mem
      obtain rfl := List.mem_singleton.mp mem
      exact wellFormed)
  refine ⟨book, run, ?_, by decide +kernel⟩
  rw [bids, find?_foldl_applyLevel]
  decide +kernel

end LiveBook
