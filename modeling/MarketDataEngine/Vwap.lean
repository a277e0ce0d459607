import MarketDataEngine.OrderBook
import MarketDataEngine.Transition
import MarketDataEngine.WeightedMean
import Mathlib.Algebra.Order.Ring.Rat

/-!
# Bounds of the volume-weighted prices

The loop of `bid_vwap` and `ask_vwap` takes the weighted mean of the best levels. A
side is sorted from its best price on, so each further level moves the mean away from
the best price, and the means of the two sides stay on their own side of the spread.
-/

open MarketTypes WeightedMean

namespace Vwap

/-! ## The first levels of a sorted side -/

section Levels
variable {r : ℚ → ℚ → Prop} {entries : List (ℚ × ℚ)}

/-- The first levels lie between the best one and the last one taken. -/
theorem take_between (sorted : entries.Pairwise (fun a b => r a.1 b.1)) (nonempty : entries ≠ [])
    {levels : Nat} (one : 1 ≤ levels) :
    ∃ best last, entries.head? = some best ∧
      entries[min levels entries.length - 1]? = some last ∧
      ∀ e ∈ entries.take levels, (e.1 = best.1 ∨ r best.1 e.1) ∧ (e.1 = last.1 ∨ r e.1 last.1) := by
  have long : 0 < entries.length := List.length_pos_of_ne_nil nonempty
  have inside : min levels entries.length - 1 < entries.length := by omega
  refine ⟨entries[0], entries[min levels entries.length - 1], List.head?_eq_getElem? ▸
    List.getElem?_eq_getElem long, List.getElem?_eq_getElem inside, ?_⟩
  intro e mem
  obtain ⟨i, hi, rfl⟩ := List.mem_iff_getElem.mp mem
  rw [List.length_take] at hi
  rw [List.getElem_take]
  have ordered := List.pairwise_iff_getElem.mp sorted
  constructor
  · rcases Nat.eq_zero_or_pos i with rfl | later
    · exact Or.inl rfl
    · exact Or.inr (ordered 0 i long (by omega) later)
  · rcases Nat.eq_or_lt_of_le (show i ≤ min levels entries.length - 1 by omega) with rfl | earlier
    · exact Or.inl rfl
    · exact Or.inr (ordered i _ (by omega) inside earlier)

/-- One level more is either none or one past all taken so far. -/
theorem take_succ_cases (sorted : entries.Pairwise (fun a b => r a.1 b.1)) (levels : Nat) :
    entries.take (levels + 1) = entries.take levels ∨
      ∃ e ∈ entries, entries.take (levels + 1) = entries.take levels ++ [e] ∧
        ∀ a ∈ entries.take levels, r a.1 e.1 := by
  rcases Nat.lt_or_ge levels entries.length with more | all
  · refine Or.inr
      ⟨entries[levels], List.getElem_mem more, List.take_succ_eq_append_getElem more, ?_⟩
    intro a mem
    obtain ⟨i, hi, rfl⟩ := List.mem_iff_getElem.mp mem
    rw [List.length_take] at hi
    rw [List.getElem_take]
    exact List.pairwise_iff_getElem.mp sorted i levels (by omega) more (by omega)
  · rw [List.take_of_length_le all, List.take_of_length_le (by omega)]
    exact Or.inl rfl

theorem weighted_take (positive : ∀ e ∈ entries, 0 < e.2) (nonempty : entries ≠ []) {levels : Nat}
    (one : 1 ≤ levels) : Weighted (entries.take levels) := by
  refine ⟨?_, fun e mem => positive e (List.mem_of_mem_take mem)⟩
  intro none
  rcases List.take_eq_nil_iff.mp none with zero | nil
  · omega
  · exact nonempty nil

theorem vwap_eq_mean (positive : ∀ e ∈ entries, 0 < e.2) (nonempty : entries ≠ []) {levels : Nat}
    (one : 1 ≤ levels) : OrderBook.vwap levels entries = mean (entries.take levels) :=
  if_pos (weighted_take positive nonempty one).weight_pos

/-- Past the last level nothing is added. -/
theorem vwap_of_length_le {levels : Nat} (all : entries.length ≤ levels) :
    OrderBook.vwap levels entries = OrderBook.vwap entries.length entries := by
  rw [OrderBook.vwap, OrderBook.vwap, List.take_of_length_le all, List.take_length]

end Levels

section Sides
variable {entries : List (ℚ × ℚ)}

/-- The weighted price of a side that is sorted downwards. -/
theorem vwap_descending (sorted : entries.Pairwise (fun a b => a.1 > b.1))
    (positive : ∀ e ∈ entries, 0 < e.2) (nonempty : entries ≠ []) {levels : Nat}
    (one : 1 ≤ levels) :
    ∃ best last, entries.head? = some best ∧
      entries[min levels entries.length - 1]? = some last ∧
      last.1 ≤ OrderBook.vwap levels entries ∧ OrderBook.vwap levels entries ≤ best.1 ∧
      OrderBook.vwap (levels + 1) entries ≤ OrderBook.vwap levels entries := by
  obtain ⟨best, last, hbest, hlast, between⟩ := take_between sorted nonempty one
  have weighted := weighted_take positive nonempty one
  refine ⟨best, last, hbest, hlast, ?_⟩
  rw [vwap_eq_mean positive nonempty one,
    vwap_eq_mean positive nonempty (Nat.le_add_left 1 levels)]
  refine ⟨?_, ?_, ?_⟩
  · exact le_mean weighted (fun e mem => (between e mem).2.elim ge_of_eq le_of_lt)
  · exact mean_le weighted (fun e mem => (between e mem).1.elim le_of_eq le_of_lt)
  · rcases take_succ_cases sorted levels with same | ⟨e, mem, longer, past⟩
    · rw [same]
    · rw [longer]
      exact mean_snoc_le weighted (positive e mem) (fun a here => (past a here).le)

/-- The weighted price of a side that is sorted upwards. -/
theorem vwap_ascending (sorted : entries.Pairwise (fun a b => a.1 < b.1))
    (positive : ∀ e ∈ entries, 0 < e.2) (nonempty : entries ≠ []) {levels : Nat}
    (one : 1 ≤ levels) :
    ∃ best last, entries.head? = some best ∧
      entries[min levels entries.length - 1]? = some last ∧
      best.1 ≤ OrderBook.vwap levels entries ∧ OrderBook.vwap levels entries ≤ last.1 ∧
      OrderBook.vwap levels entries ≤ OrderBook.vwap (levels + 1) entries := by
  obtain ⟨best, last, hbest, hlast, between⟩ := take_between sorted nonempty one
  have weighted := weighted_take positive nonempty one
  refine ⟨best, last, hbest, hlast, ?_⟩
  rw [vwap_eq_mean positive nonempty one,
    vwap_eq_mean positive nonempty (Nat.le_add_left 1 levels)]
  refine ⟨?_, ?_, ?_⟩
  · exact le_mean weighted (fun e mem => (between e mem).1.elim ge_of_eq le_of_lt)
  · exact mean_le weighted (fun e mem => (between e mem).2.elim le_of_eq le_of_lt)
  · rcases take_succ_cases sorted levels with same | ⟨e, mem, longer, past⟩
    · rw [same]
    · rw [longer]
      exact le_mean_snoc weighted (positive e mem) (fun a here => (past a here).le)

end Sides

/-! ## Reachable books -/

/-- Every update that a history applies comes from a sound exchange. -/
def AllOffered (operations : List OrderBook.Operation) : Prop :=
  ∀ update, .applyUpdate update ∈ operations → OrderBook.Offered update

theorem foldlM_perform_stocked {symbol : Symbol} {operations : List OrderBook.Operation}
    (offered : AllOffered operations) {book : OrderBook}
    (run : operations.foldlM OrderBook.perform { symbol } = some book) : book.Stocked := by
  induction operations using List.reverseRecOn generalizing book with
  | nil =>
    cases run
    exact OrderBook.stocked_fresh symbol
  | append_singleton operations operation ih =>
    obtain ⟨mid, earlier, performed⟩ := Transition.foldlM_snoc_some.mp run
    have before := ih (fun update mem => offered update (List.mem_append_left _ mem)) earlier
    cases operation with
    | applyUpdate update =>
      exact OrderBook.applyUpdate_stocked (offered update (by simp)) before performed
    | clear =>
      cases performed
      exact OrderBook.stocked_fresh mid.symbol

/-- The weighted prices of every reachable book are bounded, monotone and constant past the
last level, and on their own side of a book that is not crossed. -/
theorem vwap_bounds (symbol : Symbol) (operations : List OrderBook.Operation)
    (offered : AllOffered operations) (book : OrderBook)
    (run : operations.foldlM OrderBook.perform { symbol } = some book) :
    (book.bids.entries ≠ [] → ∀ n, 1 ≤ n →
      (∃ level, book.bids.entries[min n book.bidLevels - 1]? = some level ∧
        level.1 ≤ book.bidVwap n) ∧
      book.bidVwap n ≤ book.bestBidPrice ∧ book.bidVwap (n + 1) ≤ book.bidVwap n ∧
      (book.bidLevels ≤ n → book.bidVwap n = book.bidVwap book.bidLevels)) ∧
    (book.asks.entries ≠ [] → ∀ n, 1 ≤ n →
      book.bestAskPrice ≤ book.askVwap n ∧
      (∃ level, book.asks.entries[min n book.askLevels - 1]? = some level ∧
        book.askVwap n ≤ level.1) ∧
      book.askVwap n ≤ book.askVwap (n + 1) ∧
      (book.askLevels ≤ n → book.askVwap n = book.askVwap book.askLevels)) ∧
    (book.bids.entries ≠ [] → book.asks.entries ≠ [] → book.bestBidPrice ≤ book.bestAskPrice →
      ∀ n m, 1 ≤ n → 1 ≤ m → book.bidVwap n ≤ book.askVwap m) := by
  have stocked := foldlM_perform_stocked offered run
  have bids : book.bids.entries ≠ [] → ∀ n, 1 ≤ n →
      (∃ level, book.bids.entries[min n book.bidLevels - 1]? = some level ∧
        level.1 ≤ book.bidVwap n) ∧
      book.bidVwap n ≤ book.bestBidPrice ∧ book.bidVwap (n + 1) ≤ book.bidVwap n := by
    intro nonempty n one
    obtain ⟨best, last, hbest, hlast, low, high, further⟩ := vwap_descending book.bids.sorted
      (fun e mem => (stocked.bids e mem).2) nonempty one
    rw [OrderBook.bestBidPrice, hbest]
    exact ⟨⟨last, hlast, low⟩, high, further⟩
  have asks : book.asks.entries ≠ [] → ∀ n, 1 ≤ n → book.bestAskPrice ≤ book.askVwap n ∧
      (∃ level, book.asks.entries[min n book.askLevels - 1]? = some level ∧
        book.askVwap n ≤ level.1) ∧
      book.askVwap n ≤ book.askVwap (n + 1) := by
    intro nonempty n one
    obtain ⟨best, last, hbest, hlast, low, high, further⟩ := vwap_ascending book.asks.sorted
      (fun e mem => (stocked.asks e mem).2) nonempty one
    rw [OrderBook.bestAskPrice, hbest]
    exact ⟨low, ⟨last, hlast, high⟩, further⟩
  refine ⟨?_, ?_, ?_⟩
  · intro nonempty n one
    obtain ⟨low, high, further⟩ := bids nonempty n one
    exact ⟨low, high, further, vwap_of_length_le⟩
  · intro nonempty n one
    obtain ⟨low, high, further⟩ := asks nonempty n one
    exact ⟨low, high, further, vwap_of_length_le⟩
  · intro someBid someAsk uncrossed n m one one'
    obtain ⟨-, bid, -⟩ := bids someBid n one
    obtain ⟨ask, -⟩ := asks someAsk m one'
    exact bid.trans (uncrossed.trans ask)

/-- An update of one unit on each side. -/
def quotes (bid ask : ℚ) : DepthUpdate ℚ where
  eventTimeMs := 1000
  firstUpdateId := 1
  lastUpdateId := 2
  symbol := []
  bids := Vector.replicate maxLevels ⟨bid, 1⟩
  asks := Vector.replicate maxLevels ⟨ask, 1⟩
  bidCount := 1
  askCount := 1

theorem vwap_bounds_twoDeep :
    ∃ book, [.applyUpdate (quotes 99 101), .applyUpdate (quotes 98 103)].foldlM
        OrderBook.perform { symbol := [] } = some book ∧
      book.bidVwap 2 ≤ book.bidVwap 1 ∧ book.bidVwap 2 ≤ book.askVwap 2 := by
  obtain ⟨book, run, tracks⟩ := OrderBook.foldlM_perform []
    [.applyUpdate (quotes 99 101), .applyUpdate (quotes 98 103)]
    (by simp [OrderBook.Operation.InBounds, DepthUpdate.InBounds, quotes, maxLevels])
  have offered : AllOffered [.applyUpdate (quotes 99 101), .applyUpdate (quotes 98 103)] := by
    intro update mem
    simp only [List.mem_cons, List.not_mem_nil, or_false,
      OrderBook.Operation.applyUpdate.injEq] at mem
    rcases mem with rfl | rfl
    · unfold OrderBook.Offered
      decide +kernel
    · unfold OrderBook.Offered
      decide +kernel
  have someBid : book.bids.entries ≠ [] := by
    rw [tracks.bids]
    decide +kernel
  have someAsk : book.asks.entries ≠ [] := by
    rw [tracks.asks]
    decide +kernel
  have uncrossed : book.bestBidPrice ≤ book.bestAskPrice := by
    rw [OrderBook.bestBidPrice, OrderBook.bestAskPrice, tracks.bids, tracks.asks]
    decide +kernel
  obtain ⟨bids, -, both⟩ := vwap_bounds []
    [.applyUpdate (quotes 99 101), .applyUpdate (quotes 98 103)] offered book run
  exact ⟨book, run, (bids someBid 1 le_rfl).2.2.1,
    both someBid someAsk uncrossed 2 2 (by decide) (by decide)⟩

end Vwap
