import MarketDataEngine.Transition
import MarketDataEngine.TradeAggregator
import MarketDataEngine.ExpiringQueue
import MarketDataEngine.CompletedWindows

/-!
# Which trades the sliding window counts

For trades in time order these are the trades inside the window of the last one. A
late trade joins the deque behind newer ones, and only the front of the deque
expires, so it can be counted longer than its window allows.
-/

open MarketTypes TradeAggregator

namespace TradeExpiry

/-- The trades of a history at or after `max(0, latest - windowMs)`. -/
def inWindow (windowMs latest : UInt64) (history : List (Trade ℚ)) : List (Trade ℚ) :=
  history.filter (fun trade => latest.toNat - windowMs.toNat ≤ trade.eventTimeMs.toNat)

def buys (trades : List (Trade ℚ)) : List (Trade ℚ) := trades.filter (fun t => !t.isBuyerMaker)

def sells (trades : List (Trade ℚ)) : List (Trade ℚ) := trades.filter (fun t => t.isBuyerMaker)

open CompletedWindows (volumeOf timeOf tradeAt)

theorem window_eq_inWindow (windowMs : UInt64) (history : List (Trade ℚ)) (trade : Trade ℚ) :
    window windowMs (history ++ [trade]) =
      (inWindow windowMs trade.eventTimeMs (history ++ [trade])).map entryOf := by
  have recent : ∀ t : Trade ℚ, Recent windowMs trade.eventTimeMs (entryOf t) ↔
      trade.eventTimeMs.toNat - windowMs.toNat ≤ t.eventTimeMs.toNat := by
    intro t
    change trade.eventTimeMs.toNat ≤ t.eventTimeMs.toNat + windowMs.toNat ↔ _
    omega
  simp only [window, List.getLast?_concat, inWindow, List.filter_map, Function.comp_def, recent]

theorem sum_buys (trades : List (Trade ℚ)) :
    (((trades.map entryOf).filter (fun entry => entry.isBuy)).map TradeEntry.quantity).sum =
      volumeOf (buys trades) := by
  rw [List.filter_map, List.map_map]
  rfl

theorem sum_sells (trades : List (Trade ℚ)) :
    (((trades.map entryOf).filter (fun entry => !entry.isBuy)).map TradeEntry.quantity).sum =
      volumeOf (sells trades) := by
  rw [List.filter_map, List.map_map]
  simp only [volumeOf, sells, Function.comp_def, entryOf, Bool.not_not]

/-- After each trade in time order the snapshot sums up exactly the trades in its window. -/
theorem window_statistics (windowMs : UInt64) (smaWindows : Nat) (positive : windowMs ≠ 0)
    (history : List (Trade ℚ)) (trade : Trade ℚ)
    (sorted : (history ++ [trade]).Pairwise (fun a b => timeOf a ≤ timeOf b)) :
    ∃ agg, (history ++ [trade]).foldlM update { windowMs, smaWindows } = some agg ∧
      let counted := inWindow windowMs trade.eventTimeMs (history ++ [trade])
      let buy := volumeOf (buys counted)
      let sell := volumeOf (sells counted)
      agg.snapshot.buyVolume = buy ∧ agg.snapshot.sellVolume = sell ∧
      agg.snapshot.tradeCount = counted.length ∧ agg.snapshot.totalVolume = buy + sell ∧
      agg.snapshot.tradeImbalance =
        if buy + sell > 0 then (buy - sell) / (buy + sell) else 0 := by
  obtain ⟨agg, run, -, htrades, counts⟩ :=
    foldlM_update_trades windowMs smaWindows positive (history ++ [trade]) sorted
  rw [window_eq_inWindow] at htrades
  have hbuy : agg.snapshot.buyVolume = _ := counts.buyVolume.trans (htrades ▸ sum_buys _)
  have hsell : agg.snapshot.sellVolume = _ := counts.sellVolume.trans (htrades ▸ sum_sells _)
  have hcount := counts.tradeCount
  rw [htrades, List.length_map] at hcount
  obtain ⟨before, -, updated⟩ := Transition.foldlM_snoc_some.mp run
  obtain ⟨total, imbalance⟩ := update_totals updated
  rw [hbuy, hsell] at total imbalance
  exact ⟨agg, run, hbuy, hsell, hcount, total, imbalance⟩

theorem window_statistics_ordered :
    ∃ agg, [tradeAt 500 1, tradeAt 1600 2, tradeAt 2500 4].foldlM update
        { windowMs := 1000, smaWindows := 20 } = some agg ∧
      agg.snapshot.buyVolume = 6 ∧ agg.snapshot.sellVolume = 0 ∧ agg.snapshot.tradeCount = 2 ∧
      agg.snapshot.tradeImbalance = 1 := by
  obtain ⟨agg, run, buy, sell, count, -, imbalance⟩ := window_statistics 1000 20 (by decide)
    [tradeAt 500 1, tradeAt 1600 2] (tradeAt 2500 4) (by decide)
  exact ⟨agg, run, buy.trans (by decide +kernel), sell.trans (by decide +kernel),
    count.trans (by decide +kernel), imbalance.trans (by decide +kernel)⟩

/-- The deque of the source is a queue that expires at its front. -/
theorem expireOld_trades_eq_push (agg : TradeAggregator) {counted : List (Trade ℚ)}
    (htrades : agg.trades = counted.map entryOf) (trade : Trade ℚ) :
    (agg.expireOld trade.eventTimeMs).trades ++ [entryOf trade] =
      (ExpiringQueue.push timeOf agg.windowMs.toNat counted trade).map entryOf := by
  have stale : ∀ old : Trade ℚ,
      decide ((entryOf old).timestampMs <
        if trade.eventTimeMs > agg.windowMs then trade.eventTimeMs - agg.windowMs else 0) =
      decide (timeOf old + agg.windowMs.toNat < timeOf trade) := by
    intro old
    refine decide_eq_decide.mpr ?_
    rw [← UInt64.not_le, cutoff_le_iff, Nat.not_le]
    rfl
  rw [expireOld, htrades, List.dropWhile_map, ExpiringQueue.push, List.map_append]
  simp only [Function.comp_def, stale]
  rfl

theorem foldlM_update_pushAll (windowMs : UInt64) (smaWindows : Nat) (positive : windowMs ≠ 0)
    (history : List (Trade ℚ)) :
    ∃ agg, history.foldlM update { windowMs, smaWindows } = some agg ∧ agg.windowMs = windowMs ∧
      agg.trades = (ExpiringQueue.pushAll timeOf windowMs.toNat history).map entryOf ∧
      Counts agg := by
  induction history using List.reverseRecOn with
  | nil => exact ⟨_, rfl, rfl, rfl, counts_fresh _ _⟩
  | append_singleton history trade ih =>
    obtain ⟨agg, run, rfl, htrades, -⟩ := ih
    obtain ⟨next, updated, same, -, htrades', counts⟩ := update_of_window positive trade
    refine ⟨next, Transition.foldlM_snoc_some.mpr ⟨agg, run, updated⟩, same, ?_, counts⟩
    rw [htrades', expireOld_trades_eq_push agg htrades, ExpiringQueue.pushAll,
      ExpiringQueue.pushAll, List.foldl_concat]

/-- Whatever the order of arrival, the snapshot sums up the trades of the deque. All of these
are inside the window of the last trade if and only if each trade out of it was followed
by a trade past its window and past the windows of all trades before it. -/
theorem counted_inside_iff (windowMs : UInt64) (smaWindows : Nat) (positive : windowMs ≠ 0)
    (history : List (Trade ℚ)) (trade : Trade ℚ) :
    ∃ agg counted, (history ++ [trade]).foldlM update { windowMs, smaWindows } = some agg ∧
      counted <:+ history ++ [trade] ∧ agg.snapshot.buyVolume = volumeOf (buys counted) ∧
      agg.snapshot.sellVolume = volumeOf (sells counted) ∧
      agg.snapshot.tradeCount = counted.length ∧
      ((∀ t ∈ counted, timeOf trade - windowMs.toNat ≤ timeOf t) ↔
        ∀ before stale later, history ++ [trade] = before ++ stale :: later →
          timeOf stale + windowMs.toNat < timeOf trade →
          ∃ newer ∈ later, ∀ old ∈ before ++ [stale],
            timeOf old + windowMs.toNat < timeOf newer) := by
  obtain ⟨agg, run, -, htrades, counts⟩ :=
    foldlM_update_pushAll windowMs smaWindows positive (history ++ [trade])
  obtain ⟨dropped, whole, -⟩ :=
    ExpiringQueue.remains_pushAll timeOf windowMs.toNat (history ++ [trade])
  have hcount := counts.tradeCount
  rw [htrades, List.length_map] at hcount
  refine ⟨agg, ExpiringQueue.pushAll timeOf windowMs.toNat (history ++ [trade]), run,
    ⟨dropped, whole.symm⟩, counts.buyVolume.trans (htrades ▸ sum_buys _),
    counts.sellVolume.trans (htrades ▸ sum_sells _), hcount, ?_⟩
  simp only [Nat.sub_le_iff_le_add]
  exact ExpiringQueue.all_inside_iff timeOf windowMs.toNat (timeOf trade) (history ++ [trade])

/-- At 11500 both earlier trades are gone, the late one with the newer one before it. -/
theorem counted_inside_iff_pastBoth :
    ∃ agg counted, [tradeAt 10000 1, tradeAt 5000 2, tradeAt 11500 4].foldlM update
        { windowMs := 1000, smaWindows := 20 } = some agg ∧
      agg.snapshot.buyVolume = volumeOf (buys counted) ∧ ∀ t ∈ counted, 10500 ≤ timeOf t := by
  obtain ⟨agg, counted, run, -, buy, -, -, iff⟩ := counted_inside_iff 1000 20 (by decide)
    [tradeAt 10000 1, tradeAt 5000 2] (tradeAt 11500 4)
  refine ⟨agg, counted, run, buy, iff.mpr ?_⟩
  intro before stale later split old
  rcases before with _ | ⟨first, _ | ⟨second, _ | ⟨third, rest⟩⟩⟩
  · obtain ⟨rfl, rfl⟩ := List.cons.inj split
    decide
  · simp only [List.cons_append, List.nil_append, List.cons.injEq] at split
    obtain ⟨rfl, rfl, rfl⟩ := split
    decide
  · simp only [List.cons_append, List.nil_append, List.cons.injEq] at split
    obtain ⟨-, -, rfl, -⟩ := split
    exact absurd old (by decide)
  · simp at split

/-- A late trade at 5000 stays behind the one at 10000 and is still counted at 10500. -/
theorem late_trade_counted :
    ∃ agg, [tradeAt 10000 1, tradeAt 5000 2, tradeAt 10500 4].foldlM update
        { windowMs := 1000, smaWindows := 20 } = some agg ∧
      agg.trades = [⟨10000, 1, true⟩, ⟨5000, 2, true⟩, ⟨10500, 4, true⟩] ∧
      agg.snapshot.buyVolume = 7 ∧ agg.snapshot.tradeCount = 3 ∧
      volumeOf (inWindow 1000 10500 [tradeAt 10000 1, tradeAt 5000 2, tradeAt 10500 4]) = 5 ∧
      ¬ ∀ entry ∈ agg.trades, 10500 - 1000 ≤ entry.timestampMs.toNat :=
  ⟨_, rfl, by decide +kernel, by decide +kernel, by decide +kernel, by decide +kernel,
    by decide +kernel⟩

end TradeExpiry
