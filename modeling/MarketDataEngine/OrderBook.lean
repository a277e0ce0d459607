import MarketDataEngine.MarketTypes
import MarketDataEngine.OrderedMap
import Mathlib.Algebra.Order.Ring.Rat

/-!
# The order book

`OrderBook` of `engine/order_book.h`, with prices and quantities as exact
rationals. The two level loops index fixed-length arrays with an unchecked
count, so applying an update is partial: `none` stands for a read outside the
array, which C++ leaves undefined.

Below the accessors, `referenceSide` says what a side is for, without any map:
the last quantity announced for each price. `Derived` says what every accessor
must then report.
-/

open MarketTypes

/-- `++update_count_` is unbounded here; a run of 2^64 updates is not modelled. -/
structure OrderBook where
  symbol : Symbol
  bids : OrderedMap (fun a b : ℚ => a > b) ℚ := .empty
  asks : OrderedMap (fun a b : ℚ => a < b) ℚ := .empty
  lastUpdateId : UInt64 := 0
  updateCount : Nat := 0

namespace OrderBook

section Sides
variable {r : ℚ → ℚ → Prop} [DecidableRel r] [IsStrictTotalOrder ℚ r]

/-- One pass of a level loop: a zero quantity removes the price. -/
def applyLevel (side : OrderedMap r ℚ) (level : PriceLevel ℚ) : OrderedMap r ℚ :=
  if level.quantity = 0 then side.erase level.price
  else side.insert level.price level.quantity

/-- `for (uint16_t i = 0; i < count; ++i)` over one of the two level arrays. -/
def applyLevels (levels : Vector (PriceLevel ℚ) maxLevels) (count : UInt16)
    (side : OrderedMap r ℚ) : Option (OrderedMap r ℚ) :=
  (List.range count.toNat).foldlM (fun side i => levels.toList[i]?.map (applyLevel side)) side

end Sides

/-- The gap that `apply_update` warns about, with its size. The sum wraps at 64 bits. -/
def sequenceGap (book : OrderBook) (update : DepthUpdate ℚ) : Option UInt64 :=
  if book.lastUpdateId > 0 ∧ update.firstUpdateId > book.lastUpdateId + 1 then
    some (update.firstUpdateId - book.lastUpdateId - 1)
  else none

def applyUpdate (book : OrderBook) (update : DepthUpdate ℚ) : Option OrderBook := do
  let bids ← applyLevels update.bids update.bidCount book.bids
  let asks ← applyLevels update.asks update.askCount book.asks
  return { book with
    bids := bids
    asks := asks
    lastUpdateId := update.lastUpdateId
    updateCount := book.updateCount + 1 }

def clear (book : OrderBook) : OrderBook :=
  { book with bids := .empty, asks := .empty, lastUpdateId := 0, updateCount := 0 }

def bestBidPrice (book : OrderBook) : ℚ := (book.bids.entries.head?.map Prod.fst).getD 0

def bestAskPrice (book : OrderBook) : ℚ := (book.asks.entries.head?.map Prod.fst).getD 0

def bestBidQty (book : OrderBook) : ℚ := (book.bids.entries.head?.map Prod.snd).getD 0

def bestAskQty (book : OrderBook) : ℚ := (book.asks.entries.head?.map Prod.snd).getD 0

def spread (book : OrderBook) : ℚ :=
  if book.bids.entries = [] ∨ book.asks.entries = [] then 0
  else book.bestAskPrice - book.bestBidPrice

def midPrice (book : OrderBook) : ℚ :=
  if book.bids.entries = [] ∨ book.asks.entries = [] then 0
  else (book.bestBidPrice + book.bestAskPrice) / 2

def bidLevels (book : OrderBook) : Nat := book.bids.entries.length

def askLevels (book : OrderBook) : Nat := book.asks.entries.length

def totalBidQty (book : OrderBook) : ℚ := (book.bids.entries.map Prod.snd).sum

def totalAskQty (book : OrderBook) : ℚ := (book.asks.entries.map Prod.snd).sum

/-- The loop of `bid_vwap` and `ask_vwap`, which stops after `levels` entries. -/
def vwap (levels : Nat) (entries : List (ℚ × ℚ)) : ℚ :=
  let sumPq := ((entries.take levels).map (fun e => e.1 * e.2)).sum
  let sumQ := ((entries.take levels).map Prod.snd).sum
  if sumQ > 0 then sumPq / sumQ else 0

def bidVwap (book : OrderBook) (levels : Nat) : ℚ := vwap levels book.bids.entries

def askVwap (book : OrderBook) (levels : Nat) : ℚ := vwap levels book.asks.entries

/-! ## The level loops -/

/-- An indexed loop over the front of a list is a fold over that front. -/
theorem foldlM_range_take {σ β : Type} (f : σ → β → σ) (xs : List β) (s : σ) (n : Nat)
    (enough : n ≤ xs.length) :
    (List.range n).foldlM (fun s i => xs[i]?.map (f s)) s = some ((xs.take n).foldl f s) := by
  induction n with
  | zero => rfl
  | succ n ih =>
    have here : xs[n]? = some xs[n] := List.getElem?_eq_getElem enough
    rw [List.range_succ, List.foldlM_append, ih (by omega), List.take_succ_eq_append_getElem enough,
      List.foldl_append]
    simp [here]

/-- An indexed loop that runs past the end of its list has no result. -/
theorem foldlM_range_none {σ β : Type} (f : σ → β → σ) (xs : List β) (s : σ) (n : Nat)
    (past : xs.length < n) :
    (List.range n).foldlM (fun s i => xs[i]?.map (f s)) s = none := by
  induction n with
  | zero => omega
  | succ n ih =>
    rw [List.range_succ, List.foldlM_append]
    rcases Nat.lt_or_ge xs.length n with further | inside
    · rw [ih further]
      rfl
    · have outside : xs[n]? = none := List.getElem?_eq_none (by omega)
      rw [foldlM_range_take f xs s n inside]
      simp [outside]

/-- The entries of an update that the bid loop visits. -/
def bidEntries (update : DepthUpdate ℚ) : List (PriceLevel ℚ) :=
  update.bids.toList.take update.bidCount.toNat

/-- The entries of an update that the ask loop visits. -/
def askEntries (update : DepthUpdate ℚ) : List (PriceLevel ℚ) :=
  update.asks.toList.take update.askCount.toNat

/-- With both counts inside the arrays an update always applies. -/
theorem applyUpdate_of_inBounds (book : OrderBook) {update : DepthUpdate ℚ}
    (inBounds : update.InBounds) :
    book.applyUpdate update = some { book with
      bids := (bidEntries update).foldl applyLevel book.bids
      asks := (askEntries update).foldl applyLevel book.asks
      lastUpdateId := update.lastUpdateId
      updateCount := book.updateCount + 1 } := by
  have bids := foldlM_range_take applyLevel update.bids.toList book.bids update.bidCount.toNat
    (by simpa using inBounds.1)
  have asks := foldlM_range_take applyLevel update.asks.toList book.asks update.askCount.toNat
    (by simpa using inBounds.2)
  simp only [applyUpdate, applyLevels, bids, asks]
  rfl

/-- With a count beyond the arrays the loops read outside them. -/
theorem applyUpdate_eq_none_iff (book : OrderBook) (update : DepthUpdate ℚ) :
    book.applyUpdate update = none ↔ ¬ update.InBounds := by
  constructor
  · intro undefined inBounds
    rw [applyUpdate_of_inBounds book inBounds] at undefined
    cases undefined
  · intro outside
    rw [DepthUpdate.InBounds, not_and_or, Nat.not_le, Nat.not_le] at outside
    simp only [applyUpdate, applyLevels]
    rcases outside with bids | asks
    · rw [foldlM_range_none applyLevel _ _ _ (by simpa using bids)]
      rfl
    · rw [foldlM_range_none applyLevel update.asks.toList _ _ (by simpa using asks)]
      exact Option.bind_fun_none _

/-- What an update that applies does to the book. -/
theorem of_applyUpdate {book next : OrderBook} {update : DepthUpdate ℚ}
    (applied : book.applyUpdate update = some next) :
    next = { book with
      bids := (bidEntries update).foldl applyLevel book.bids
      asks := (askEntries update).foldl applyLevel book.asks
      lastUpdateId := update.lastUpdateId
      updateCount := book.updateCount + 1 } := by
  have inBounds : update.InBounds := by
    by_contra outside
    rw [(applyUpdate_eq_none_iff book update).mpr outside] at applied
    cases applied
  exact Option.some.inj (applied.symm.trans (applyUpdate_of_inBounds book inBounds))

/-- What holds of every entry that a level sets holds of every entry of the side. -/
theorem foldl_applyLevel_forall {r : ℚ → ℚ → Prop} [DecidableRel r] [IsStrictTotalOrder ℚ r]
    (kept : ℚ × ℚ → Prop) {levels : List (PriceLevel ℚ)}
    (entering : ∀ level ∈ levels, level.quantity ≠ 0 → kept (level.price, level.quantity))
    {side : OrderedMap r ℚ} (before : ∀ e ∈ side.entries, kept e) :
    ∀ e ∈ (levels.foldl applyLevel side).entries, kept e := by
  induction levels generalizing side with
  | nil => exact before
  | cons level rest ih =>
    obtain ⟨head, tail⟩ := List.forall_mem_cons.mp entering
    apply ih tail
    intro e mem
    unfold applyLevel at mem
    split_ifs at mem with removed
    · exact before e (OrderedMap.mem_entries_erase side mem)
    · rcases OrderedMap.mem_entries_insert side mem with rfl | old
      · exact head removed
      · exact before e old

/-- Every level has a positive price and no negative quantity. -/
def Offered (update : DepthUpdate ℚ) : Prop :=
  (∀ level ∈ bidEntries update, 0 < level.price ∧ 0 ≤ level.quantity) ∧
    ∀ level ∈ askEntries update, 0 < level.price ∧ 0 ≤ level.quantity

/-- Every entry has a positive price and a positive quantity. -/
structure Stocked (book : OrderBook) : Prop where
  bids : ∀ e ∈ book.bids.entries, 0 < e.1 ∧ 0 < e.2
  asks : ∀ e ∈ book.asks.entries, 0 < e.1 ∧ 0 < e.2

theorem stocked_fresh (symbol : Symbol) : Stocked { symbol } := ⟨nofun, nofun⟩

theorem applyUpdate_stocked {book next : OrderBook} {update : DepthUpdate ℚ}
    (offered : Offered update) (before : Stocked book)
    (applied : book.applyUpdate update = some next) : Stocked next := by
  obtain rfl := of_applyUpdate applied
  constructor
  · refine foldl_applyLevel_forall (fun e => 0 < e.1 ∧ 0 < e.2) ?_ before.bids
    intro level mem nonzero
    exact ⟨(offered.1 level mem).1, lt_of_le_of_ne (offered.1 level mem).2 (Ne.symm nonzero)⟩
  · refine foldl_applyLevel_forall (fun e => 0 < e.1 ∧ 0 < e.2) ?_ before.asks
    intro level mem nonzero
    exact ⟨(offered.2 level mem).1, lt_of_le_of_ne (offered.2 level mem).2 (Ne.symm nonzero)⟩

/-! ## The reference map -/

/-- The quantity of the last entry for `price`. -/
def lastEntry (entries : List (PriceLevel ℚ)) (price : ℚ) : Option ℚ :=
  ((entries.filter (fun level => level.price = price)).map PriceLevel.quantity).getLast?

/-- A side as a partial function: the last quantity of each price, unless it is zero. -/
def referenceSide (entries : List (PriceLevel ℚ)) (price : ℚ) : Option ℚ :=
  (lastEntry entries price).filter (fun quantity => quantity ≠ 0)

theorem referenceSide_eq_some_iff {entries : List (PriceLevel ℚ)} {price quantity : ℚ} :
    referenceSide entries price = some quantity ↔
      lastEntry entries price = some quantity ∧ quantity ≠ 0 := by
  simp [referenceSide, Option.filter_eq_some_iff]

theorem referenceSide_snoc (entries : List (PriceLevel ℚ)) (level : PriceLevel ℚ) (price : ℚ) :
    referenceSide (entries ++ [level]) price =
      if price = level.price then
        if level.quantity = 0 then none else some level.quantity
      else referenceSide entries price := by
  rcases eq_or_ne price level.price with same | different
  · by_cases zero : level.quantity = 0 <;>
      simp [referenceSide, lastEntry, same, zero, Option.filter_some]
  · simp [referenceSide, lastEntry, different, different.symm]

section Sides
variable {r : ℚ → ℚ → Prop} [DecidableRel r] [IsStrictTotalOrder ℚ r]

theorem find?_applyLevel (side : OrderedMap r ℚ) (level : PriceLevel ℚ) (price : ℚ) :
    (applyLevel side level).find? price =
      if price = level.price then
        if level.quantity = 0 then none else some level.quantity
      else side.find? price := by
  unfold applyLevel
  split_ifs <;> simp [*]

/-- A side built from the empty map by any level entries is the reference side. -/
theorem find?_foldl_applyLevel (entries : List (PriceLevel ℚ)) :
    (entries.foldl applyLevel (.empty : OrderedMap r ℚ)).find? = referenceSide entries := by
  funext price
  induction entries using List.reverseRecOn with
  | nil => rfl
  | append_singleton entries level ih =>
    rw [List.foldl_append, List.foldl_cons, List.foldl_nil, find?_applyLevel, ih,
      referenceSide_snoc]

/-- No entry of a reference side is zero. -/
theorem entry_ne_zero {side : OrderedMap r ℚ} {entries : List (PriceLevel ℚ)}
    (refines : side.find? = referenceSide entries) : ∀ e ∈ side.entries, e.2 ≠ 0 := by
  intro e he
  have found := (OrderedMap.find?_eq_some_iff side).mpr he
  rw [refines] at found
  exact (referenceSide_eq_some_iff.mp found).2

end Sides

/-! ## What the accessors derive from a side -/

open OrderedMap (domain)

/-- Every accessor reports the value derived from the two reference sides. -/
structure Derived (book : OrderBook) (bid ask : ℚ → Option ℚ) : Prop where
  bestBid : (domain bid = ∅ ∧ book.bestBidPrice = 0 ∧ book.bestBidQty = 0) ∨
    (IsGreatest (domain bid) book.bestBidPrice ∧ bid book.bestBidPrice = some book.bestBidQty)
  bestAsk : (domain ask = ∅ ∧ book.bestAskPrice = 0 ∧ book.bestAskQty = 0) ∨
    (IsLeast (domain ask) book.bestAskPrice ∧ ask book.bestAskPrice = some book.bestAskQty)
  bidLevels : book.bidLevels = (domain bid).ncard
  askLevels : book.askLevels = (domain ask).ncard
  totalBidQty : book.totalBidQty = ∑ᶠ price, (bid price).getD 0
  totalAskQty : book.totalAskQty = ∑ᶠ price, (ask price).getD 0
  oneSided : domain bid = ∅ ∨ domain ask = ∅ → book.spread = 0 ∧ book.midPrice = 0
  twoSided : ∀ b a, IsGreatest (domain bid) b → IsLeast (domain ask) a →
    book.spread = a - b ∧ book.midPrice = (b + a) / 2

/-- The first entry of a side is its best price, whichever way the side is ordered. -/
theorem best_entry {r : ℚ → ℚ → Prop} [DecidableRel r] [IsStrictTotalOrder ℚ r]
    (side : OrderedMap r ℚ) :
    (domain side.find? = ∅ ∧ side.entries = []) ∨
    ∃ e, side.entries.head? = some e ∧ side.find? e.1 = some e.2 ∧ e.1 ∈ domain side.find? ∧
      ∀ price ∈ domain side.find?, price = e.1 ∨ r e.1 price := by
  cases h : side.entries with
  | nil => exact Or.inl ⟨(OrderedMap.entries_eq_nil_iff side).mp h, rfl⟩
  | cons e rest =>
    have head : side.entries.head? = some e := by rw [h]; rfl
    obtain ⟨found, first⟩ := OrderedMap.head_entries side head
    refine Or.inr ⟨e, rfl, found, ?_, first⟩
    intro missing
    rw [found] at missing
    cases missing

theorem derived (book : OrderBook) : Derived book book.bids.find? book.asks.find? := by
  have noBid := OrderedMap.entries_eq_nil_iff book.bids
  have noAsk := OrderedMap.entries_eq_nil_iff book.asks
  have bestBid : (domain book.bids.find? = ∅ ∧ book.bestBidPrice = 0 ∧ book.bestBidQty = 0) ∨
      (IsGreatest (domain book.bids.find?) book.bestBidPrice ∧
        book.bids.find? book.bestBidPrice = some book.bestBidQty) := by
    rcases best_entry book.bids with ⟨none, nil⟩ | ⟨e, head, found, mem, first⟩
    · exact Or.inl ⟨none, by simp [bestBidPrice, nil], by simp [bestBidQty, nil]⟩
    · simp only [bestBidPrice, bestBidQty, head, Option.map_some, Option.getD_some]
      exact Or.inr ⟨⟨mem, fun p hp => (first p hp).elim le_of_eq le_of_lt⟩, found⟩
  have bestAsk : (domain book.asks.find? = ∅ ∧ book.bestAskPrice = 0 ∧ book.bestAskQty = 0) ∨
      (IsLeast (domain book.asks.find?) book.bestAskPrice ∧
        book.asks.find? book.bestAskPrice = some book.bestAskQty) := by
    rcases best_entry book.asks with ⟨none, nil⟩ | ⟨e, head, found, mem, first⟩
    · exact Or.inl ⟨none, by simp [bestAskPrice, nil], by simp [bestAskQty, nil]⟩
    · simp only [bestAskPrice, bestAskQty, head, Option.map_some, Option.getD_some]
      exact Or.inr ⟨⟨mem, fun p hp => (first p hp).elim ge_of_eq le_of_lt⟩, found⟩
  refine ⟨bestBid, bestAsk, OrderedMap.length_entries _, OrderedMap.length_entries _,
    OrderedMap.sum_entries _, OrderedMap.sum_entries _, ?_, ?_⟩
  · intro empty
    rw [← noBid, ← noAsk] at empty
    exact ⟨if_pos empty, if_pos empty⟩
  · intro b a greatest least
    have bids : book.bids.entries ≠ [] := fun h => by simpa [noBid.mp h] using greatest.1
    have asks : book.asks.entries ≠ [] := fun h => by simpa [noAsk.mp h] using least.1
    have isBid : book.bestBidPrice = b := by
      rcases bestBid with ⟨none, -⟩ | ⟨best, -⟩
      · exact absurd (noBid.mpr none) bids
      · exact best.unique greatest
    have isAsk : book.bestAskPrice = a := by
      rcases bestAsk with ⟨none, -⟩ | ⟨best, -⟩
      · exact absurd (noAsk.mpr none) asks
      · exact best.unique least
    simp [spread, midPrice, bids, asks, isBid, isAsk]

/-! ## Histories -/

/-- The two operations that change a book. -/
inductive Operation where
  | applyUpdate (update : DepthUpdate ℚ)
  | clear

def Operation.InBounds : Operation → Prop
  | .applyUpdate update => update.InBounds
  | .clear => True

def perform (book : OrderBook) : Operation → Option OrderBook
  | .applyUpdate update => book.applyUpdate update
  | .clear => some book.clear

/-- The updates after the last `clear`, in application order. -/
def sinceClear : List Operation → List (DepthUpdate ℚ) :=
  List.foldl (fun updates operation =>
    match operation with
    | .applyUpdate update => updates ++ [update]
    | .clear => []) []

/-- What a book holds is what its updates since the last `clear` folded up to. -/
structure Tracks (book : OrderBook) (updates : List (DepthUpdate ℚ)) : Prop where
  bids : book.bids = (updates.flatMap bidEntries).foldl applyLevel .empty
  asks : book.asks = (updates.flatMap askEntries).foldl applyLevel .empty

theorem tracks_fresh (symbol : Symbol) : Tracks { symbol } [] := ⟨rfl, rfl⟩

theorem tracks_applyUpdate {book next : OrderBook} {updates : List (DepthUpdate ℚ)}
    {update : DepthUpdate ℚ} (tracks : Tracks book updates)
    (applied : book.applyUpdate update = some next) : Tracks next (updates ++ [update]) := by
  obtain rfl := of_applyUpdate applied
  constructor
  · simp [tracks.bids, List.foldl_append]
  · simp [tracks.asks, List.foldl_append]

/-- Histories whose counts stay inside the arrays run to the end, and the book
they lead to holds exactly the entries since the last `clear`. -/
theorem foldlM_perform (symbol : Symbol) (operations : List Operation)
    (inBounds : ∀ operation ∈ operations, operation.InBounds) :
    ∃ book, operations.foldlM perform { symbol } = some book ∧
      Tracks book (sinceClear operations) := by
  induction operations using List.reverseRecOn with
  | nil => exact ⟨_, rfl, tracks_fresh symbol⟩
  | append_singleton operations operation ih =>
    obtain ⟨book, hbook, tracks⟩ := ih (fun o ho => inBounds o (List.mem_append_left _ ho))
    have last := inBounds operation (by simp)
    rw [List.foldlM_append, hbook]
    simp only [sinceClear, List.foldl_append] at tracks ⊢
    cases operation with
    | applyUpdate update =>
      have applied := applyUpdate_of_inBounds book (show update.InBounds from last)
      exact ⟨_, by simp [perform, applied], tracks_applyUpdate tracks applied⟩
    | clear => exact ⟨_, rfl, ⟨rfl, rfl⟩⟩

/-- A book after any history is its reference map: entry by entry, in order, without
zero quantities, and in everything its accessors report. -/
theorem history_refines_reference (symbol : Symbol) (operations : List Operation)
    (inBounds : ∀ operation ∈ operations, operation.InBounds) :
    ∃ book, operations.foldlM perform { symbol } = some book ∧
      (∀ price quantity, (price, quantity) ∈ book.bids.entries ↔
        lastEntry ((sinceClear operations).flatMap bidEntries) price = some quantity ∧
          quantity ≠ 0) ∧
      (∀ price quantity, (price, quantity) ∈ book.asks.entries ↔
        lastEntry ((sinceClear operations).flatMap askEntries) price = some quantity ∧
          quantity ≠ 0) ∧
      (∀ e ∈ book.bids.entries, e.2 ≠ 0) ∧
      (∀ e ∈ book.asks.entries, e.2 ≠ 0) ∧
      book.bids.entries.Pairwise (fun a b => a.1 > b.1) ∧
      book.asks.entries.Pairwise (fun a b => a.1 < b.1) ∧
      Derived book (referenceSide ((sinceClear operations).flatMap bidEntries))
        (referenceSide ((sinceClear operations).flatMap askEntries)) := by
  obtain ⟨book, hbook, tracks⟩ := foldlM_perform symbol operations inBounds
  have bids : book.bids.find? = referenceSide ((sinceClear operations).flatMap bidEntries) := by
    rw [tracks.bids, find?_foldl_applyLevel]
  have asks : book.asks.find? = referenceSide ((sinceClear operations).flatMap askEntries) := by
    rw [tracks.asks, find?_foldl_applyLevel]
  refine ⟨book, hbook, ?_, ?_, entry_ne_zero bids, entry_ne_zero asks, book.bids.sorted,
    book.asks.sorted, ?_⟩
  · intro price quantity
    rw [← OrderedMap.find?_eq_some_iff, bids, referenceSide_eq_some_iff]
  · intro price quantity
    rw [← OrderedMap.find?_eq_some_iff, asks, referenceSide_eq_some_iff]
  · rw [← bids, ← asks]
    exact derived book

/-- A bid of 100 is set, removed and set again within one update. -/
def repeatedBid : DepthUpdate ℚ where
  eventTimeMs := 1000
  firstUpdateId := 1
  lastUpdateId := 3
  symbol := []
  bids := ((Vector.replicate maxLevels ⟨0, 0⟩).set 0 ⟨100, 2⟩).set 1 ⟨100, 0⟩ |>.set 2 ⟨100, 5⟩
  asks := Vector.replicate maxLevels ⟨0, 0⟩
  bidCount := 3
  askCount := 0

theorem history_refines_reference_repeatedBid :
    ∃ book, [.clear, .applyUpdate repeatedBid].foldlM perform { symbol := [] } = some book ∧
      (100, 5) ∈ book.bids.entries := by
  obtain ⟨book, hbook, bids, -⟩ :=
    history_refines_reference [] [.clear, .applyUpdate repeatedBid]
      (by simp [Operation.InBounds, DepthUpdate.InBounds, repeatedBid, maxLevels])
  exact ⟨book, hbook, (bids 100 5).mpr (by decide +kernel)⟩

end OrderBook
