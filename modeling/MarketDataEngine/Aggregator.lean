import MarketDataEngine.OrderBook

/-!
# Rolling book statistics

`Aggregator` of `engine/aggregator.h` over exact rationals. An average over no
samples is 0/0 in the source, so it has no exact value here: `update` is partial
and `none` stands for a NaN. With a window of at least one sample this never
happens, which is what `update_isSome` says.
-/

structure AggregatorSnapshot where
  spread : ℚ := 0
  midPrice : ℚ := 0
  bidVwap : ℚ := 0
  askVwap : ℚ := 0
  midPriceSma : ℚ := 0
  spreadSma : ℚ := 0
  bidAskImbalance : ℚ := 0
  imbalanceDelta : ℚ := 0
  sampleCount : Nat := 0
  deriving DecidableEq

structure Aggregator where
  vwapLevels : Nat := 5
  smaWindow : Nat := 20
  midPrices : List ℚ := []
  spreads : List ℚ := []
  snapshot : AggregatorSnapshot := {}
  deriving DecidableEq

namespace Aggregator

/-- `push_back`, then `pop_front` when that made the deque longer than `bound`. -/
def pushBounded (bound : Nat) (values : List ℚ) (value : ℚ) : List ℚ :=
  if (values ++ [value]).length > bound then (values ++ [value]).tail else values ++ [value]

/-- `std::accumulate(..) / size()`. -/
def mean (values : List ℚ) : Option ℚ :=
  if values = [] then none else some (values.sum / values.length)

/-- One moving average: a sample enters only when `counts` allows it. -/
def roll (window : Nat) (counts : Bool) (values : List ℚ) (value average : ℚ) :
    Option (List ℚ × ℚ) :=
  if counts then
    (mean (pushBounded window values value)).map
      (fun average => (pushBounded window values value, average))
  else some (values, average)

def update (agg : Aggregator) (book : OrderBook) : Option Aggregator := do
  let spread := book.spread
  let midPrice := book.midPrice
  let totalBid := book.totalBidQty
  let totalAsk := book.totalAskQty
  let total := totalBid + totalAsk
  let prevImbalance := agg.snapshot.bidAskImbalance
  let imbalance := if total > 0 then (totalBid - totalAsk) / total else 0
  let (midPrices, midPriceSma) ←
    roll agg.smaWindow (midPrice > 0) agg.midPrices midPrice agg.snapshot.midPriceSma
  let (spreads, spreadSma) ←
    roll agg.smaWindow (spread ≥ 0) agg.spreads spread agg.snapshot.spreadSma
  return { agg with
    midPrices := midPrices
    spreads := spreads
    snapshot := {
      spread := spread
      midPrice := midPrice
      bidVwap := book.bidVwap agg.vwapLevels
      askVwap := book.askVwap agg.vwapLevels
      midPriceSma := midPriceSma
      spreadSma := spreadSma
      bidAskImbalance := imbalance
      imbalanceDelta := imbalance - prevImbalance
      sampleCount := agg.snapshot.sampleCount + 1 } }

/-- `reset`, which keeps the parameters. -/
def reset (agg : Aggregator) : Aggregator :=
  { agg with midPrices := [], spreads := [], snapshot := {} }

theorem pushBounded_ne_nil {bound : Nat} (enough : 0 < bound) (values : List ℚ) (value : ℚ) :
    pushBounded bound values value ≠ [] := by
  unfold pushBounded
  split_ifs with long
  · intro nil
    have short := congrArg List.length nil
    rw [List.length_tail, List.length_nil] at short
    omega
  · simp

theorem roll_isSome {window : Nat} (enough : 0 < window) (counts : Bool) (values : List ℚ)
    (value average : ℚ) : ∃ rolled, roll window counts values value average = some rolled := by
  cases counts with
  | false => exact ⟨_, rfl⟩
  | true =>
    simp only [roll, if_true, mean, if_neg (pushBounded_ne_nil enough values value)]
    exact ⟨_, rfl⟩

/-- An update rolls each of the two averages by itself. -/
theorem update_of_rolls {agg : Aggregator} {book : OrderBook} {mids spreads : List ℚ}
    {mid spread : ℚ}
    (hmids : roll agg.smaWindow (book.midPrice > 0) agg.midPrices book.midPrice
      agg.snapshot.midPriceSma = some (mids, mid))
    (hspreads : roll agg.smaWindow (book.spread ≥ 0) agg.spreads book.spread
      agg.snapshot.spreadSma = some (spreads, spread)) :
    ∃ next, agg.update book = some next ∧ next.smaWindow = agg.smaWindow ∧
      next.midPrices = mids ∧ next.snapshot.midPriceSma = mid ∧
      next.spreads = spreads ∧ next.snapshot.spreadSma = spread := by
  simp [update, hmids, hspreads]

/-- With room for one sample every update has an exact result, and the parameters stay. -/
theorem update_isSome {agg : Aggregator} (enough : 0 < agg.smaWindow) (book : OrderBook) :
    ∃ next, agg.update book = some next ∧ next.smaWindow = agg.smaWindow := by
  obtain ⟨mids, hmids⟩ := roll_isSome enough (book.midPrice > 0) agg.midPrices book.midPrice
    agg.snapshot.midPriceSma
  obtain ⟨spreads, hspreads⟩ := roll_isSome enough (book.spread ≥ 0) agg.spreads book.spread
    agg.snapshot.spreadSma
  obtain ⟨next, updated, same, -⟩ := update_of_rolls hmids hspreads
  exact ⟨next, updated, same⟩

/-- What an update takes from the book, and how the average of the mid prices moves. -/
theorem update_spec {agg next : Aggregator} {book : OrderBook}
    (updated : agg.update book = some next) :
    next.snapshot.spread = book.spread ∧ next.snapshot.midPrice = book.midPrice ∧
      next.snapshot.sampleCount = agg.snapshot.sampleCount + 1 ∧
      roll agg.smaWindow (book.midPrice > 0) agg.midPrices book.midPrice
        agg.snapshot.midPriceSma = some (next.midPrices, next.snapshot.midPriceSma) := by
  simp only [update, Option.bind_eq_bind, Option.bind_eq_some_iff, Option.pure_def,
    Option.some.injEq] at updated
  obtain ⟨mids, rolled, spreads, -, rfl⟩ := updated
  exact ⟨rfl, rfl, rfl, rolled⟩

/-- The imbalance is that of the book, and its change is taken to the one shown before. -/
theorem update_imbalance {agg next : Aggregator} {book : OrderBook}
    (updated : agg.update book = some next) :
    next.snapshot.bidAskImbalance =
        (if book.totalBidQty + book.totalAskQty > 0 then
          (book.totalBidQty - book.totalAskQty) / (book.totalBidQty + book.totalAskQty) else 0) ∧
      next.snapshot.imbalanceDelta =
        next.snapshot.bidAskImbalance - agg.snapshot.bidAskImbalance := by
  simp only [update, Option.bind_eq_bind, Option.bind_eq_some_iff, Option.pure_def,
    Option.some.injEq] at updated
  obtain ⟨_, -, _, -, rfl⟩ := updated
  exact ⟨rfl, rfl⟩

theorem mem_pushBounded {bound : Nat} {values : List ℚ} {value x : ℚ}
    (mem : x ∈ pushBounded bound values value) : x ∈ values ∨ x = value := by
  unfold pushBounded at mem
  split_ifs at mem
  · simpa using List.mem_of_mem_tail mem
  · simpa using mem

/-- An average of positive samples is positive. -/
theorem roll_positive {window : Nat} {values rolled : List ℚ} {value average average' : ℚ}
    (values_pos : ∀ x ∈ values, 0 < x) (value_pos : 0 < value)
    (h : roll window true values value average = some (rolled, average')) :
    (∀ x ∈ rolled, 0 < x) ∧ 0 < average' := by
  simp only [roll, if_true, Option.map_eq_some_iff, Prod.mk.injEq] at h
  obtain ⟨mean', hmean, rfl, rfl⟩ := h
  have positive : ∀ x ∈ pushBounded window values value, 0 < x := by
    intro x mem
    rcases mem_pushBounded mem with old | rfl
    · exact values_pos x old
    · exact value_pos
  refine ⟨positive, ?_⟩
  unfold mean at hmean
  split_ifs at hmean with empty
  cases hmean
  apply div_pos
  · exact List.sum_pos _ positive empty
  · exact_mod_cast List.length_pos_of_ne_nil empty

end Aggregator
