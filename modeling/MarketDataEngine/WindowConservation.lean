import MarketDataEngine.Transition
import MarketDataEngine.CompletedWindows

/-!
# Conservation of volume across windows

Trades may arrive in any order of their times. Each one enters the open window,
and a window that is archived takes with it what arrived since the one before,
so the archived windows cut the arrivals into consecutive blocks. The start of
the open window only moves forward, although it is rounded down to a multiple of
the window's length; 0 stands for a window that is not open yet.
-/

namespace WindowConservation

open MarketTypes Transition TradeAggregator CompletedWindows

/-- A new aggregator, with nothing archived. -/
def fresh (windowMs : UInt64) (smaWindows : Nat) : Archive := { agg := { windowMs, smaWindows } }

/-- At no trade does the end of the open window go out of range. -/
def InRange (windowMs : UInt64) (smaWindows : Nat) (history : List (Trade ℚ)) : Prop :=
  ∀ before trade after, history = before ++ trade :: after →
    ∀ archive, addAll (fresh windowMs smaWindows) before = some archive →
      (startAt archive.agg trade.eventTimeMs).toNat + windowMs.toNat < 2 ^ 64

theorem InRange.front {windowMs : UInt64} {smaWindows : Nat} {history more : List (Trade ℚ)}
    (inRange : InRange windowMs smaWindows (history ++ more)) :
    InRange windowMs smaWindows history := by
  intro before trade after split archive run
  refine inRange before trade (after ++ more) ?_ archive run
  rw [split, List.append_assoc, List.cons_append]

/-! ## The start of the open window -/

theorem le_startAt (agg : TradeAggregator) (nowMs : UInt64) :
    agg.windowStartMs ≤ startAt agg nowMs := by
  rw [startAt]
  split_ifs with unset
  · rw [unset]
    exact UInt64.zero_le
  · exact UInt64.le_refl _

theorem closes_iff_le {agg : TradeAggregator} {trade : Trade ℚ}
    (inRange : (startAt agg trade.eventTimeMs).toNat + agg.windowMs.toNat < 2 ^ 64) :
    Closes agg trade.eventTimeMs ↔
      (startAt agg trade.eventTimeMs).toNat + agg.windowMs.toNat ≤ timeOf trade := by
  rw [Closes, ge_iff_le, UInt64.le_iff_toNat_le, UInt64.toNat_add, Nat.mod_eq_of_lt inRange, timeOf]

/-- An update never moves the start back, moves it forward when it archives a window, and
leaves the trade before the end of the open window. -/
theorem start_advances {agg next : TradeAggregator} {trade : Trade ℚ}
    (positive : agg.windowMs ≠ 0)
    (inRange : (startAt agg trade.eventTimeMs).toNat + agg.windowMs.toNat < 2 ^ 64)
    (updated : agg.update trade = some next) :
    agg.windowStartMs ≤ next.windowStartMs ∧
      (Closes agg trade.eventTimeMs → agg.windowStartMs < next.windowStartMs) ∧
      timeOf trade < next.windowStartMs.toNat + agg.windowMs.toNat := by
  obtain ⟨next', updated', -, -, closed, stayed⟩ := update_windows positive trade
  obtain rfl := Option.some.inj (updated.symm.trans updated')
  have before := UInt64.le_iff_toNat_le.mp (le_startAt agg trade.eventTimeMs)
  by_cases closes : Closes agg trade.eventTimeMs
  · -- rounding down loses less than a window, and the trade is a window past the start
    have start : next.windowStartMs.toNat = alignedStart agg.windowMs.toNat (timeOf trade) := by
      rw [(closed closes).1, alignedStart_word, timeOf]
    have ends := (closes_iff_le inRange).mp closes
    have covered := lt_alignedStart_add (toNat_pos positive) (timeOf trade)
    have further : agg.windowStartMs < next.windowStartMs := by
      rw [UInt64.lt_iff_toNat_lt, start]
      omega
    exact ⟨UInt64.le_of_lt further, fun _ => further, start ▸ covered⟩
  · have start := (stayed closes).1
    refine ⟨start ▸ le_startAt agg trade.eventTimeMs, fun closed => absurd closed closes, ?_⟩
    rw [start]
    exact Nat.lt_of_not_le (mt (closes_iff_le inRange).mpr closes)

/-! ## The snapshot -/

theorem crossWindow_snapshot {agg crossed : TradeAggregator} {nowMs : UInt64}
    (h : ({ agg with windowStartMs := startAt agg nowMs } : TradeAggregator).crossWindow nowMs =
      some crossed) :
    crossed.snapshot.windowCount =
        agg.snapshot.windowCount + (if Closes agg nowMs then 1 else 0) ∧
      crossed.snapshot.volumeSma = agg.snapshot.volumeSma := by
  simp only [crossWindow] at h
  split_ifs at h with late zero
  · have closes : Closes agg nowMs := late
    rw [if_pos closes]
    cases h
    exact ⟨rfl, rfl⟩
  · have stays : ¬ Closes agg nowMs := late
    rw [if_neg stays]
    cases h
    exact ⟨rfl, rfl⟩

/-- An update counts an archived window and averages what is left of the archive. -/
theorem update_snapshot {agg next : TradeAggregator} {trade : Trade ℚ}
    (updated : agg.update trade = some next) :
    next.snapshot.windowCount =
        agg.snapshot.windowCount + (if Closes agg trade.eventTimeMs then 1 else 0) ∧
      next.snapshot.volumeSma =
        if next.completedVolumes = [] then agg.snapshot.volumeSma
        else next.completedVolumes.sum / next.completedVolumes.length := by
  rw [update_eq_map] at updated
  obtain ⟨crossed, crosses, rfl⟩ := Option.map_eq_some_iff.mp updated
  obtain ⟨count, average⟩ := crossWindow_snapshot crosses
  refine ⟨count, ?_⟩
  rw [← average]
  rfl

theorem length_lastOf (bound : Nat) (values : List ℚ) :
    (lastOf bound values).length = min values.length bound := by
  rw [lastOf, List.length_drop]
  omega

theorem lastOf_eq_nil_iff {bound : Nat} (room : 1 ≤ bound) {values : List ℚ} :
    lastOf bound values = [] ↔ values = [] := by
  rw [← List.length_eq_zero_iff, ← List.length_eq_zero_iff, length_lastOf]
  omega

/-! ## The account -/

/-- The archived windows and the open one cut the arrivals into consecutive blocks, and the
snapshot shows their number and the average of the last ones. -/
structure Conserved (windowMs : UInt64) (smaWindows : Nat) (history : List (Trade ℚ))
    (archive : Archive) : Prop where
  kept : Kept windowMs smaWindows archive
  blocks : (archive.completed.map Completed.counted).flatten ++ archive.current = history
  windowCount : archive.agg.snapshot.windowCount = archive.completed.length
  volumeSma : archive.agg.snapshot.volumeSma =
    if archive.completed = [] then 0
    else (lastOf smaWindows (archive.completed.map Completed.volume)).sum /
      (min archive.completed.length smaWindows : Nat)

theorem volumeOf_append (before after : List (Trade ℚ)) :
    volumeOf (before ++ after) = volumeOf before + volumeOf after := by
  rw [volumeOf, List.map_append, List.sum_append]
  rfl

theorem sum_volumes {completed : List Completed}
    (volumes : ∀ window ∈ completed, window.volume = volumeOf window.counted) :
    (completed.map Completed.volume).sum =
      volumeOf (completed.map Completed.counted).flatten := by
  induction completed with
  | nil => rfl
  | cons window rest ih =>
    rw [List.map_cons, List.sum_cons, volumes window List.mem_cons_self,
      ih (fun w mem => volumes w (List.mem_cons_of_mem _ mem)), List.map_cons, List.flatten_cons,
      volumeOf_append]

theorem Conserved.total {windowMs : UInt64} {smaWindows : Nat} {history : List (Trade ℚ)}
    {archive : Archive} (conserved : Conserved windowMs smaWindows history archive) :
    (archive.completed.map Completed.volume).sum + archive.agg.currentWindowVolume =
      volumeOf history := by
  rw [sum_volumes conserved.kept.volumes, conserved.kept.current, ← volumeOf_append,
    conserved.blocks]

theorem conserved_fresh (windowMs : UInt64) (smaWindows : Nat) :
    Conserved windowMs smaWindows [] (fresh windowMs smaWindows) :=
  ⟨kept_fresh windowMs smaWindows, rfl, rfl, rfl⟩

/-- One trade is added to the open window, or opens the next one. -/
theorem Conserved.add {windowMs : UInt64} {smaWindows : Nat} {history : List (Trade ℚ)}
    {archive : Archive} (positive : windowMs ≠ 0) (room : 1 ≤ smaWindows)
    (conserved : Conserved windowMs smaWindows history archive) (trade : Trade ℚ) :
    ∃ next, add archive trade = some next ∧ archive.agg.update trade = some next.agg ∧
      Conserved windowMs smaWindows (history ++ [trade]) next ∧
      next.completed = archive.completed ++
        (if Closes archive.agg trade.eventTimeMs then
          [⟨startAt archive.agg trade.eventTimeMs, archive.agg.currentWindowVolume,
            archive.current⟩] else []) := by
  obtain ⟨next, added, updated, kept, closed, stayed⟩ :=
    add_kept positive conserved.kept trade
  obtain ⟨count, average⟩ := update_snapshot updated
  have shown : next.agg.snapshot.volumeSma =
      if next.completed = [] then archive.agg.snapshot.volumeSma
      else (lastOf smaWindows (next.completed.map Completed.volume)).sum /
        (min next.completed.length smaWindows : Nat) := by
    simp only [average, kept.recent, lastOf_eq_nil_iff room, List.map_eq_nil_iff, length_lastOf,
      List.length_map]
  by_cases closes : Closes archive.agg trade.eventTimeMs
  · obtain ⟨-, current, completed⟩ := closed closes
    rw [if_pos closes] at count ⊢
    refine ⟨next, added, updated, ⟨kept, ?_, ?_, ?_⟩, completed⟩
    · rw [completed, current, ← conserved.blocks]
      simp
    · rw [count, conserved.windowCount, completed]
      simp
    · rw [shown, if_neg (by simp [completed]), if_neg (by simp [completed])]
  · obtain ⟨-, current, completed⟩ := stayed closes
    rw [if_neg closes] at count ⊢
    refine ⟨next, added, updated, ⟨kept, ?_, ?_, ?_⟩, by rw [completed, List.append_nil]⟩
    · rw [completed, current, ← conserved.blocks, List.append_assoc]
    · rw [count, conserved.windowCount, completed, Nat.add_zero]
    · rw [shown]
      split_ifs with empty
      · rw [conserved.volumeSma, ← completed, if_pos empty]
      · rfl

theorem conserved_run {windowMs : UInt64} {smaWindows : Nat} (positive : windowMs ≠ 0)
    (room : 1 ≤ smaWindows) (history : List (Trade ℚ)) :
    ∃ archive, addAll (fresh windowMs smaWindows) history = some archive ∧
      history.foldlM TradeAggregator.update { windowMs, smaWindows } = some archive.agg ∧
      Conserved windowMs smaWindows history archive := by
  induction history using List.reverseRecOn with
  | nil => exact ⟨_, rfl, rfl, conserved_fresh windowMs smaWindows⟩
  | append_singleton before trade ih =>
    obtain ⟨archive, run, followed, conserved⟩ := ih
    obtain ⟨next, added, updated, conserved', -⟩ := conserved.add positive room trade
    exact ⟨next, foldlM_snoc_some.mpr ⟨archive, run, added⟩,
      foldlM_snoc_some.mpr ⟨archive.agg, followed, updated⟩, conserved'⟩

/-- The open window never starts after the latest trade time. -/
theorem start_le {windowMs : UInt64} {smaWindows bound : Nat} (positive : windowMs ≠ 0)
    (room : 1 ≤ smaWindows) {history : List (Trade ℚ)}
    (times : ∀ trade ∈ history, timeOf trade ≤ bound) {archive : Archive}
    (run : addAll (fresh windowMs smaWindows) history = some archive) :
    archive.agg.windowStartMs.toNat ≤ bound := by
  induction history using List.reverseRecOn generalizing archive with
  | nil =>
    obtain rfl := Option.some.inj run
    exact Nat.zero_le _
  | append_singleton before trade ih =>
    obtain ⟨previous, earlier, added⟩ := foldlM_snoc_some.mp run
    have reached := ih (fun t mem => times t (List.mem_append_left _ mem)) earlier
    have now := times trade (List.mem_append_right _ (List.mem_singleton_self _))
    obtain ⟨previous', earlier', -, conserved⟩ := conserved_run positive room before
    obtain rfl := Option.some.inj (earlier.symm.trans earlier')
    obtain ⟨archive', added', -, -, closed, stayed⟩ := add_kept positive conserved.kept trade
    obtain rfl := Option.some.inj (added.symm.trans added')
    by_cases closes : Closes previous.agg trade.eventTimeMs
    · rw [(closed closes).1, alignedStart_word]
      exact Nat.le_trans (Nat.sub_le _ _) now
    · rw [(stayed closes).1, startAt]
      split_ifs
      · exact now
      · exact reached

/-- It is enough that no trade lies within a window of the end of the range. -/
theorem inRange_of_times {windowMs : UInt64} {smaWindows : Nat} (positive : windowMs ≠ 0)
    (room : 1 ≤ smaWindows) {history : List (Trade ℚ)}
    (times : ∀ trade ∈ history, timeOf trade + windowMs.toNat < 2 ^ 64) :
    InRange windowMs smaWindows history := by
  rintro before trade after rfl archive run
  have latest : ∀ t ∈ before ++ trade :: after, timeOf t ≤ 2 ^ 64 - 1 - windowMs.toNat := by
    intro t mem
    have within := times t mem
    omega
  have now := times trade (List.mem_append_right _ List.mem_cons_self)
  have start := start_le positive room (fun t mem => latest t (List.mem_append_left _ mem)) run
  have width := UInt64.toNat_lt windowMs
  rw [startAt]
  split_ifs
  · exact now
  · omega

/-- In any order of arrival, after every trade: the archived windows and the open one cut
the arrivals into consecutive blocks whose sums are their volumes, so that the volumes add
up to the quantity of all trades; the start of the open window has not moved back, has moved
forward if a window was archived, and has the trade before the window's end; and the snapshot
shows how many windows were archived and the average volume of the last of them. -/
theorem volume_conserved (windowMs : UInt64) (smaWindows : Nat) (positive : windowMs ≠ 0)
    (room : 1 ≤ smaWindows) (before : List (Trade ℚ)) (trade : Trade ℚ)
    (inRange : InRange windowMs smaWindows (before ++ [trade])) :
    ∃ previous archive,
      addAll (fresh windowMs smaWindows) before = some previous ∧
      before.foldlM TradeAggregator.update { windowMs, smaWindows } = some previous.agg ∧
      CompletedWindows.add previous trade = some archive ∧
      previous.agg.update trade = some archive.agg ∧
      archive.completed = previous.completed ++
        (if Closes previous.agg trade.eventTimeMs then
          [⟨startAt previous.agg trade.eventTimeMs, previous.agg.currentWindowVolume,
            previous.current⟩] else []) ∧
      (archive.completed.map Completed.counted).flatten ++ archive.current =
        before ++ [trade] ∧
      (∀ window ∈ archive.completed, window.volume = volumeOf window.counted) ∧
      archive.agg.currentWindowVolume = volumeOf archive.current ∧
      (archive.completed.map Completed.volume).sum + archive.agg.currentWindowVolume =
        volumeOf (before ++ [trade]) ∧
      previous.agg.windowStartMs ≤ archive.agg.windowStartMs ∧
      (Closes previous.agg trade.eventTimeMs →
        previous.agg.windowStartMs < archive.agg.windowStartMs) ∧
      timeOf trade < archive.agg.windowStartMs.toNat + windowMs.toNat ∧
      archive.agg.snapshot.windowCount = archive.completed.length ∧
      archive.agg.snapshot.volumeSma =
        if archive.completed = [] then 0
        else (lastOf smaWindows (archive.completed.map Completed.volume)).sum /
          (min archive.completed.length smaWindows : Nat) := by
  obtain ⟨previous, run, followed, conserved⟩ := conserved_run positive room before
  obtain ⟨archive, added, updated, conserved', completed⟩ :=
    conserved.add positive room trade
  have same := conserved.kept.sameWindow
  have within := inRange before trade [] rfl previous run
  rw [← same] at within
  obtain ⟨onward, forward, covered⟩ := start_advances (same ▸ positive) within updated
  rw [same] at covered
  exact ⟨previous, archive, run, followed, added, updated, completed, conserved'.blocks,
    conserved'.kept.volumes, conserved'.kept.current, conserved'.total, onward, forward, covered,
    conserved'.windowCount, conserved'.volumeSma⟩

/-- Three windows of 100 ms with a trade each, and a late trade that enters the last one. -/
theorem volume_conserved_lateTrade :
    ∃ archive, addAll (fresh 100 3)
      ([tradeAt 50 5, tradeAt 150 3, tradeAt 250 7] ++ [tradeAt 120 2]) = some archive ∧
      archive.completed.map Completed.volume = [5, 3] ∧ archive.agg.currentWindowVolume = 9 ∧
      (archive.completed.map Completed.volume).sum + archive.agg.currentWindowVolume =
        volumeOf ([tradeAt 50 5, tradeAt 150 3, tradeAt 250 7] ++ [tradeAt 120 2]) := by
  obtain ⟨previous, archive, run, -, added, -, -, -, -, -, total, -⟩ :=
    volume_conserved 100 3 (by decide) (by decide)
      [tradeAt 50 5, tradeAt 150 3, tradeAt 250 7] (tradeAt 120 2)
      (inRange_of_times (by decide) (by decide) (by decide))
  have full := foldlM_snoc_some.mpr ⟨previous, run, added⟩
  have volumes : (addAll (fresh 100 3)
      ([tradeAt 50 5, tradeAt 150 3, tradeAt 250 7] ++ [tradeAt 120 2])).map
        (fun archive => (archive.completed.map Completed.volume,
          archive.agg.currentWindowVolume)) = some ([5, 3], 9) := by
    decide +kernel
  rw [addAll, full] at volumes
  obtain ⟨archived, current⟩ := Prod.mk.inj (Option.some.inj volumes)
  exact ⟨archive, full, archived, current, total⟩

end WindowConservation
