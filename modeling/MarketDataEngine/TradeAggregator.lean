import MarketDataEngine.Aggregator
import Mathlib.Data.List.Induction

/-!
# Rolling trade statistics

`TradeAggregator` of `engine/trade_aggregator.h` over exact rationals. Times are
the source's 64-bit words, so sums of times wrap. A window of zero milliseconds
makes the source divide by zero; `update` is then undefined.

The main fact is about arrival in time order: the deque is exactly the part of
the history inside the window of the last trade. Nothing is said here about
what a later reader of the snapshot takes the window to be.
-/

open MarketTypes

structure TradeAggregatorSnapshot where
  buyVolume : ℚ := 0
  sellVolume : ℚ := 0
  totalVolume : ℚ := 0
  tradeImbalance : ℚ := 0
  volumeSma : ℚ := 0
  tradeCount : Nat := 0
  windowCount : Nat := 0
  deriving DecidableEq

/-- The record `TradeAggregator::TradeEntry`. -/
structure TradeEntry where
  timestampMs : UInt64
  quantity : ℚ
  isBuy : Bool
  deriving DecidableEq

structure TradeAggregator where
  windowMs : UInt64 := 1000
  smaWindows : Nat := 20
  trades : List TradeEntry := []
  completedVolumes : List ℚ := []
  windowStartMs : UInt64 := 0
  currentWindowVolume : ℚ := 0
  snapshot : TradeAggregatorSnapshot := {}
  deriving DecidableEq

namespace TradeAggregator

/-- Archive the fixed window when `nowMs` lies past its end. -/
def crossWindow (agg : TradeAggregator) (nowMs : UInt64) : Option TradeAggregator :=
  if nowMs ≥ agg.windowStartMs + agg.windowMs then
    if agg.windowMs = 0 then none
    else some { agg with
      completedVolumes :=
        Aggregator.pushBounded agg.smaWindows agg.completedVolumes agg.currentWindowVolume
      snapshot := { agg.snapshot with windowCount := agg.snapshot.windowCount + 1 }
      currentWindowVolume := 0
      windowStartMs := nowMs - nowMs % agg.windowMs }
  else some agg

def expireOld (agg : TradeAggregator) (nowMs : UInt64) : TradeAggregator :=
  let cutoff := if nowMs > agg.windowMs then nowMs - agg.windowMs else 0
  { agg with trades := agg.trades.dropWhile (fun entry => entry.timestampMs < cutoff) }

def recompute (agg : TradeAggregator) : TradeAggregator :=
  let buyVol := ((agg.trades.filter (fun entry => entry.isBuy)).map TradeEntry.quantity).sum
  let sellVol := ((agg.trades.filter (fun entry => !entry.isBuy)).map TradeEntry.quantity).sum
  let total := buyVol + sellVol
  { agg with snapshot := { agg.snapshot with
    buyVolume := buyVol
    sellVolume := sellVol
    totalVolume := total
    tradeImbalance := if total > 0 then (buyVol - sellVol) / total else 0
    tradeCount := agg.trades.length
    volumeSma :=
      if agg.completedVolumes = [] then agg.snapshot.volumeSma
      else agg.completedVolumes.sum / agg.completedVolumes.length } }

/-- The deque entry of a trade. -/
def entryOf (trade : Trade ℚ) : TradeEntry :=
  ⟨trade.eventTimeMs, trade.quantity, !trade.isBuyerMaker⟩

def update (agg : TradeAggregator) (trade : Trade ℚ) : Option TradeAggregator := do
  let nowMs := trade.eventTimeMs
  let started := if agg.windowStartMs = 0 then { agg with windowStartMs := nowMs } else agg
  let crossed ← started.crossWindow nowMs
  let expired := crossed.expireOld nowMs
  return recompute { expired with
    trades := expired.trades ++ [entryOf trade]
    currentWindowVolume := expired.currentWindowVolume + trade.quantity }

/-- `reset`, which leaves the parameters and `current_window_volume_` as they are. -/
def reset (agg : TradeAggregator) : TradeAggregator :=
  { agg with trades := [], completedVolumes := [], windowStartMs := 0, snapshot := {} }

/-- The snapshot counts exactly the entries of the deque. -/
structure Counts (agg : TradeAggregator) : Prop where
  buyVolume : agg.snapshot.buyVolume =
    ((agg.trades.filter (fun entry => entry.isBuy)).map TradeEntry.quantity).sum
  sellVolume : agg.snapshot.sellVolume =
    ((agg.trades.filter (fun entry => !entry.isBuy)).map TradeEntry.quantity).sum
  tradeCount : agg.snapshot.tradeCount = agg.trades.length

theorem counts_recompute (agg : TradeAggregator) : Counts agg.recompute := ⟨rfl, rfl, rfl⟩

theorem counts_fresh (windowMs : UInt64) (smaWindows : Nat) :
    Counts { windowMs, smaWindows } := ⟨rfl, rfl, rfl⟩

/-- With a positive window an update succeeds, keeps the parameters and
replaces the expired front of the deque by the new entry at its back. -/
theorem update_of_window {agg : TradeAggregator} (window : agg.windowMs ≠ 0) (trade : Trade ℚ) :
    ∃ next, agg.update trade = some next ∧ next.windowMs = agg.windowMs ∧
      next.smaWindows = agg.smaWindows ∧
      next.trades = (agg.expireOld trade.eventTimeMs).trades ++ [entryOf trade] ∧
      Counts next := by
  unfold update
  by_cases first : agg.windowStartMs = 0
  all_goals
    simp only [first, if_true, if_false, crossWindow, window]
    split_ifs <;> exact ⟨_, rfl, rfl, rfl, rfl, counts_recompute _⟩

/-- The total and the imbalance after an update follow from the two volumes. -/
theorem update_totals {agg next : TradeAggregator} {trade : Trade ℚ}
    (updated : agg.update trade = some next) :
    next.snapshot.totalVolume = next.snapshot.buyVolume + next.snapshot.sellVolume ∧
      next.snapshot.tradeImbalance =
        if next.snapshot.buyVolume + next.snapshot.sellVolume > 0 then
          (next.snapshot.buyVolume - next.snapshot.sellVolume) /
            (next.snapshot.buyVolume + next.snapshot.sellVolume)
        else 0 := by
  simp only [update, Option.bind_eq_bind, Option.bind_eq_some_iff, Option.pure_def,
    Option.some.injEq] at updated
  obtain ⟨crossed, -, rfl⟩ := updated
  exact ⟨rfl, rfl⟩

/-- Dropping the front of a time-ordered list is filtering it. -/
theorem dropWhile_eq_filter (cutoff : UInt64) {entries : List TradeEntry}
    (sorted : entries.Pairwise (fun a b => a.timestampMs ≤ b.timestampMs)) :
    entries.dropWhile (fun entry => entry.timestampMs < cutoff) =
      entries.filter (fun entry => cutoff ≤ entry.timestampMs) := by
  induction entries with
  | nil => rfl
  | cons a rest ih =>
    obtain ⟨head, tail⟩ := List.pairwise_cons.mp sorted
    by_cases old : a.timestampMs < cutoff
    · have out : ¬ cutoff ≤ a.timestampMs := UInt64.not_le.mpr old
      simp [old, out, ih tail]
    · have kept : ∀ e ∈ a :: rest, cutoff ≤ e.timestampMs := by
        intro e he
        have reach : cutoff ≤ a.timestampMs := UInt64.not_lt.mp old
        rcases List.mem_cons.mp he with rfl | he
        · exact reach
        · exact UInt64.le_trans reach (head e he)
      rw [List.dropWhile_cons_of_neg (by simpa using old)]
      exact (List.filter_eq_self.mpr (fun e he => by simpa using kept e he)).symm

/-- An entry is inside the window that ends at `latest`. -/
def Recent (windowMs latest : UInt64) (entry : TradeEntry) : Prop :=
  latest.toNat ≤ entry.timestampMs.toNat + windowMs.toNat

instance (windowMs latest : UInt64) (entry : TradeEntry) :
    Decidable (Recent windowMs latest entry) :=
  inferInstanceAs (Decidable (_ ≤ _))

/-- The cutoff computed on 64-bit words is the intended one. -/
theorem cutoff_le_iff (windowMs nowMs time : UInt64) :
    (if nowMs > windowMs then nowMs - windowMs else 0) ≤ time ↔
      nowMs.toNat ≤ time.toNat + windowMs.toNat := by
  split_ifs with past
  · have below : windowMs.toNat < nowMs.toNat := UInt64.lt_iff_toNat_lt.mp past
    rw [UInt64.le_iff_toNat_le, UInt64.toNat_sub_of_le _ _ (UInt64.le_of_lt past)]
    omega
  · have above : nowMs.toNat ≤ windowMs.toNat :=
      UInt64.le_iff_toNat_le.mp (UInt64.not_lt.mp past)
    exact iff_of_true (UInt64.le_iff_toNat_le.mpr (Nat.zero_le _)) (by omega)

theorem expireOld_trades {agg : TradeAggregator} {nowMs : UInt64}
    (sorted : agg.trades.Pairwise (fun a b => a.timestampMs ≤ b.timestampMs)) :
    (agg.expireOld nowMs).trades = agg.trades.filter (fun e => Recent agg.windowMs nowMs e) := by
  change agg.trades.dropWhile _ = _
  rw [dropWhile_eq_filter _ sorted]
  refine List.filter_congr ?_
  intro entry _
  exact decide_eq_decide.mpr (cutoff_le_iff _ _ _)

/-- The last trade's window of a history. -/
def window (windowMs : UInt64) (history : List (Trade ℚ)) : List TradeEntry :=
  match history.getLast? with
  | none => []
  | some last => (history.map entryOf).filter (fun e => Recent windowMs last.eventTimeMs e)

theorem window_sorted (windowMs : UInt64) {history : List (Trade ℚ)}
    (sorted : history.Pairwise (fun a b => a.eventTimeMs ≤ b.eventTimeMs)) :
    (window windowMs history).Pairwise (fun a b => a.timestampMs ≤ b.timestampMs) := by
  unfold window
  split
  · exact List.Pairwise.nil
  · refine List.Pairwise.filter _ ?_
    exact List.pairwise_map.mpr sorted

/-- One more trade in time order narrows the window from its front. -/
theorem window_snoc (windowMs : UInt64) {history : List (Trade ℚ)} {trade : Trade ℚ}
    (last : ∀ a ∈ history, a.eventTimeMs ≤ trade.eventTimeMs) :
    window windowMs (history ++ [trade]) =
      (window windowMs history).filter (fun e => Recent windowMs trade.eventTimeMs e) ++
        [entryOf trade] := by
  have self : decide (Recent windowMs trade.eventTimeMs (entryOf trade)) = true :=
    decide_eq_true (Nat.le_add_right _ _)
  have narrowed : ((history.map entryOf).filter
      (fun e => Recent windowMs trade.eventTimeMs e)) =
      (window windowMs history).filter (fun e => Recent windowMs trade.eventTimeMs e) := by
    unfold window
    cases hlast : history.getLast? with
    | none => simp [List.getLast?_eq_none_iff.mp hlast]
    | some prev =>
      have older := UInt64.le_iff_toNat_le.mp (last prev (List.mem_of_getLast? hlast))
      rw [List.filter_filter]
      refine List.filter_congr ?_
      intro e _
      rw [← Bool.decide_and]
      refine decide_eq_decide.mpr ?_
      simp only [Recent]
      omega
  simp only [window, List.getLast?_concat, List.map_append, List.filter_append, narrowed]
  simp [self]

/-- Trades that arrive in time order leave exactly the last trade's window in the deque. -/
theorem foldlM_update_trades (windowMs : UInt64) (smaWindows : Nat) (positive : windowMs ≠ 0)
    (history : List (Trade ℚ))
    (sorted : history.Pairwise (fun a b => a.eventTimeMs ≤ b.eventTimeMs)) :
    ∃ agg, history.foldlM update { windowMs, smaWindows } = some agg ∧
      agg.windowMs = windowMs ∧ agg.trades = window windowMs history ∧ Counts agg := by
  induction history using List.reverseRecOn with
  | nil => exact ⟨_, rfl, rfl, rfl, counts_fresh _ _⟩
  | append_singleton history trade ih =>
    obtain ⟨before, -, last⟩ := List.pairwise_append.mp sorted
    obtain ⟨agg, hagg, hwindow, htrades, -⟩ := ih before
    obtain ⟨next, hnext, hwindow', -, htrades', counts⟩ :=
      update_of_window (show agg.windowMs ≠ 0 from hwindow ▸ positive) trade
    refine ⟨next, ?_, hwindow'.trans hwindow, ?_, counts⟩
    · rw [List.foldlM_append, hagg]
      simp [hnext]
    · rw [htrades', expireOld_trades (htrades ▸ window_sorted windowMs before), hwindow, htrades,
        window_snoc windowMs (fun a ha => last a ha trade List.mem_cons_self)]

end TradeAggregator
