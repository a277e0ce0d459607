import MarketDataEngine.LiveSession
import MarketDataEngine.LossyReplica

/-!
# The book as a replica

The exchange keeps a book of its own and announces its changes. The book of the program is a
replica of it behind a channel that loses whole messages, at the queue or at the end, and the
levels of a message past the ones that fit into an update.
-/

namespace ExchangeBook

open MarketTypes LiveMain LiveSession LossyReplica

/-- What a level means for the side it is on: a quantity of zero takes the price out. -/
def levelWrite (level : PriceLevel ℚ) : ℚ × Option ℚ :=
  (level.price, if level.quantity = 0 then none else some level.quantity)

/-- A side of the book changes by the writes of its levels. -/
theorem find?_foldl_write {r : ℚ → ℚ → Prop} [DecidableRel r] [IsStrictTotalOrder ℚ r]
    (side : OrderedMap r ℚ) (levels : List (PriceLevel ℚ)) :
    (levels.foldl OrderBook.applyLevel side).find? = apply side.find? (levels.map levelWrite) := by
  funext price
  induction levels using List.reverseRecOn with
  | nil => rfl
  | append_singleton levels level ih =>
    rw [List.foldl_append, List.foldl_cons, List.foldl_nil, OrderBook.find?_applyLevel, ih,
      List.map_append, List.map_singleton, apply_snoc]
    rfl

theorem referenceSide_eq (levels : List (PriceLevel ℚ)) :
    OrderBook.referenceSide levels = apply (fun _ => none) (levels.map levelWrite) := by
  rw [← OrderBook.find?_foldl_applyLevel (r := fun a b => a < b), find?_foldl_write]
  rfl

/-- The writes that a message announces for a side of a symbol. -/
def announced (strtod : List UInt8 → Double) (name : List UInt8) (symbol : Symbol)
    (arrival : Arrival) : List (ℚ × Option ℚ) :=
  if Updates symbol arrival.sent then
    (LiveBook.levelsOf (exact strtod) name arrival.sent).map levelWrite
  else []

/-- A side of the exchange's own book: what it held before, and what was announced since. -/
def exchangeSide (strtod : List UInt8 → Double) (name : List UInt8) (symbol : Symbol)
    (before : ℚ → Option ℚ) (arrivals : List Arrival) : ℚ → Option ℚ :=
  apply before (arrivals.flatMap (announced strtod name symbol))

/-- A message with what became of it: a kept one delivers as much as fits into an update. -/
def delivery (strtod : List UInt8 → Double) (name : List UInt8) (symbol : Symbol)
    (fate : Arrival × Bool) : Delivery ℚ ℚ where
  sent := announced strtod name symbol fate.1
  got := if fate.2 then (announced strtod name symbol fate.1).take maxLevels else []
  part := by
    split
    · exact List.take_prefix _ _
    · exact List.nil_prefix

theorem sent_deliveries (strtod : List UInt8 → Double) (name : List UInt8) (symbol : Symbol)
    (fates : List (Arrival × Bool)) :
    sent (fates.map (delivery strtod name symbol)) =
      (fates.map Prod.fst).flatMap (announced strtod name symbol) := by
  rw [sent, List.flatMap_map, List.flatMap_map]
  rfl

theorem take_announced (strtod : List UInt8 → Double) (name : List UInt8) (symbol : Symbol)
    (arrival : Arrival) :
    (sideLevels strtod name symbol [arrival]).map levelWrite =
      (announced strtod name symbol arrival).take maxLevels := by
  unfold sideLevels announced
  by_cases updates : Updates symbol arrival.sent <;> simp [updates, List.map_take]

theorem got_deliveries (strtod : List UInt8 → Double) (name : List UInt8) (symbol : Symbol)
    (fates : List (Arrival × Bool)) :
    got (fates.map (delivery strtod name symbol)) =
      (sideLevels strtod name symbol (keptOf fates)).map levelWrite := by
  induction fates with
  | nil => rfl
  | cons fate rest ih =>
    obtain ⟨arrival, kept⟩ := fate
    have first : got (((arrival, kept) :: rest).map (delivery strtod name symbol)) =
        (delivery strtod name symbol (arrival, kept)).got ++
          got (rest.map (delivery strtod name symbol)) := rfl
    rw [first, ih]
    cases kept with
    | false => rfl
    | true =>
      change _ = (sideLevels strtod name symbol (arrival :: keptOf rest)).map levelWrite
      rw [sideLevels_cons, List.map_append, take_announced]
      rfl

/-- A side of the book against the same side of the exchange: it agrees at every announced
price, but where the last message that announces the price lost the announcement, and has
nothing at the other prices. -/
def Follows (strtod : List UInt8 → Double) (name : List UInt8) (symbol : Symbol)
    (fates : List (Arrival × Bool)) (side : ℚ → Option ℚ) : Prop :=
  ∀ price,
    (Touches (sent (fates.map (delivery strtod name symbol))) price →
      ∀ before, side price = exchangeSide strtod name symbol before (fates.map Prod.fst) price ∨
        Lost (fates.map (delivery strtod name symbol)) price) ∧
    (¬ Touches (sent (fates.map (delivery strtod name symbol))) price → side price = none)

theorem follows_referenceSide (strtod : List UInt8 → Double) (name : List UInt8)
    (symbol : Symbol) (fates : List (Arrival × Bool)) :
    Follows strtod name symbol fates
      (OrderBook.referenceSide (sideLevels strtod name symbol (keptOf fates))) := by
  rw [referenceSide_eq, ← got_deliveries]
  intro price
  refine ⟨fun touches before => ?_, keeps_of_untouched _⟩
  rw [exchangeSide, ← sent_deliveries]
  exact agree_or_lost _ before touches

/-- What the exchange held before the sample run: another quantity at the price that the run
announces. -/
def sampleBefore (price : ℚ) : Option ℚ := if price = 1001 then some 5 else none

/-- The first message is the one that is missing. -/
theorem fates_sampleArrival {fates : List (Arrival × Bool)}
    (all : fates.map Prod.fst = [damagedArrival, sampleArrival])
    (kept : keptOf fates = [sampleArrival]) :
    fates = [(damagedArrival, false), (sampleArrival, true)] := by
  obtain ⟨⟨_, first⟩, behind, rfl, rfl, all'⟩ := List.map_eq_cons_iff.mp all
  obtain ⟨⟨_, second⟩, behind', rfl, rfl, none⟩ := List.map_eq_cons_iff.mp all'
  obtain rfl := List.map_eq_nil_iff.mp none
  cases first with
  | true =>
    have same : damagedArrival = sampleArrival := (List.cons.inj kept).1
    exact absurd (congrArg Arrival.received same) (by decide)
  | false =>
    cases second with
    | true => rfl
    | false => cases kept

end ExchangeBook
