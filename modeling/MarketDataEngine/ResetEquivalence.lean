import MarketDataEngine.CompletedWindows

/-!
# Reset objects and fresh ones

The book and the two aggregators can be reset at any moment. A reset object is
compared with a new one over everything that can follow. The trade aggregator keeps
the volume of its open window through a reset, and shows it once the next window is
archived.
-/

open MarketTypes

namespace ResetEquivalence

universe u v w

section Objects
variable {σ : Type u} {ι : Type v} {ο : Type w}

inductive Operation (ι : Type v) where
  | update (input : ι)
  | reset

def perform (update : σ → ι → Option σ) (reset : σ → σ) (s : σ) : Operation ι → Option σ
  | .update input => update s input
  | .reset => some (reset s)

def performAll (update : σ → ι → Option σ) (reset : σ → σ) (s : σ)
    (history : List (Operation ι)) : Option σ :=
  history.foldlM (perform update reset) s

/-- What is seen of an object after some updates. -/
def observed (update : σ → ι → Option σ) (view : σ → ο) (s : σ) (inputs : List ι) : Option ο :=
  (inputs.foldlM update s).map view

/-- Two objects show the same after each of the later updates. -/
def SameResults (update : σ → ι → Option σ) (view : σ → ο) (s t : σ) (later : List ι) : Prop :=
  ∀ front, front <+: later → observed update view s front = observed update view t front

/-- Whatever each operation keeps is there at the end of a history. -/
theorem performAll_keeps {update : σ → ι → Option σ} {reset : σ → σ} (kept : σ → Prop)
    (updated : ∀ s input t, kept s → update s input = some t → kept t)
    (cleared : ∀ s, kept s → kept (reset s)) {s t : σ} {history : List (Operation ι)}
    (start : kept s) (run : performAll update reset s history = some t) : kept t := by
  induction history generalizing s with
  | nil =>
    cases run
    exact start
  | cons operation rest ih =>
    rw [performAll, List.foldlM_cons, Option.bind_eq_bind, Option.bind_eq_some_iff] at run
    obtain ⟨m, step, later⟩ := run
    cases operation with
    | update input => exact ih (updated s input m start step) later
    | reset =>
      cases step
      exact ih (cleared s start) later

theorem sameResults_nil {update : σ → ι → Option σ} {view : σ → ο} {s t : σ} :
    SameResults update view s t [] ↔ view s = view t := by
  constructor
  · intro same
    exact Option.some.inj (same [] List.prefix_rfl)
  · rintro same front empty
    obtain rfl := List.prefix_nil.mp empty
    exact congrArg some same

/-- One update further, for two objects that can both be updated. -/
theorem sameResults_cons {update : σ → ι → Option σ} {view : σ → ο} {s t s' t' : σ} {input : ι}
    {later : List ι} (left : update s input = some s') (right : update t input = some t') :
    SameResults update view s t (input :: later) ↔
      view s = view t ∧ SameResults update view s' t' later := by
  constructor
  · intro same
    refine ⟨Option.some.inj (same [] (List.nil_prefix)), fun front within => ?_⟩
    have here := same (input :: front) (List.cons_prefix_cons.mpr ⟨rfl, within⟩)
    simpa [observed, left, right] using here
  · rintro ⟨now, same⟩ front within
    cases front with
    | nil => exact congrArg some now
    | cons first rest =>
      obtain ⟨rfl, inside⟩ := List.cons_prefix_cons.mp within
      simpa [observed, left, right] using same rest inside

end Objects

/-! ## The book and its statistics -/

theorem clear_eq_fresh {symbol : Symbol} {history : List (Operation (DepthUpdate ℚ))}
    {book : OrderBook}
    (run : performAll OrderBook.applyUpdate OrderBook.clear { symbol } history = some book) :
    book.clear = { symbol } := by
  have same : book.symbol = symbol := by
    have cleared : ∀ book : OrderBook, book.symbol = symbol → book.clear.symbol = symbol :=
      fun book kept => kept
    refine performAll_keeps (fun book : OrderBook => book.symbol = symbol) ?_ cleared rfl run
    intro s update t kept applied
    obtain rfl := OrderBook.of_applyUpdate applied
    exact kept
  rw [OrderBook.clear, same]

theorem reset_eq_fresh {vwapLevels smaWindow : Nat} {history : List (Operation OrderBook)}
    {agg : Aggregator}
    (run : performAll Aggregator.update Aggregator.reset { vwapLevels, smaWindow } history =
      some agg) : agg.reset = { vwapLevels, smaWindow } := by
  have same : agg.vwapLevels = vwapLevels ∧ agg.smaWindow = smaWindow := by
    have cleared : ∀ agg : Aggregator, agg.vwapLevels = vwapLevels ∧ agg.smaWindow = smaWindow →
        agg.reset.vwapLevels = vwapLevels ∧ agg.reset.smaWindow = smaWindow :=
      fun agg kept => kept
    refine performAll_keeps
      (fun agg : Aggregator => agg.vwapLevels = vwapLevels ∧ agg.smaWindow = smaWindow)
      ?_ cleared ⟨rfl, rfl⟩ run
    intro s book t kept updated
    simp only [Aggregator.update, Option.bind_eq_bind, Option.bind_eq_some_iff, Option.pure_def,
      Option.some.injEq] at updated
    obtain ⟨_, -, _, -, rfl⟩ := updated
    exact kept
  rw [Aggregator.reset, same.1, same.2]

/-! ## The trade statistics -/

open CompletedWindows (startAt Closes update_eq_map tradeAt)

/-- A trade aggregator that has some volume more in its open window. -/
def addVolume (volume : ℚ) (agg : TradeAggregator) : TradeAggregator :=
  { agg with currentWindowVolume := agg.currentWindowVolume + volume }

theorem addVolume_zero (agg : TradeAggregator) : addVolume 0 agg = agg := by
  rw [addVolume, Rat.add_zero]

/-- No trade lies past the end of the window that the first one with a time opens. -/
def NoWindowCloses (windowMs start : UInt64) (later : List (Trade ℚ)) : Prop :=
  ∀ opened ∈ if start = 0 then (later.find? (fun trade => trade.eventTimeMs ≠ 0)).map
      Trade.eventTimeMs else some start,
    ∀ trade ∈ later, ¬ opened + windowMs ≤ trade.eventTimeMs

theorem noWindowCloses_cons {windowMs start : UInt64} (positive : windowMs ≠ 0) (trade : Trade ℚ)
    (later : List (Trade ℚ)) :
    NoWindowCloses windowMs start (trade :: later) ↔
      ¬ (if start = 0 then trade.eventTimeMs else start) + windowMs ≤ trade.eventTimeMs ∧
        NoWindowCloses windowMs (if start = 0 then trade.eventTimeMs else start) later := by
  unfold NoWindowCloses
  by_cases begun : start = 0
  · by_cases timeless : trade.eventTimeMs = 0
    · -- a trade at time 0 opens no window, and lies past the end of none
      have wide : ¬ windowMs ≤ 0 := fun le => positive (UInt64.le_zero_iff.mp le)
      simp only [begun, if_true, timeless, List.find?_cons, ne_eq, not_true, decide_false,
        UInt64.zero_add, wide, not_false_iff, true_and, List.forall_mem_cons]
      refine forall_congr' fun opened => forall_congr' fun found => ?_
      rw [and_iff_right_iff_imp]
      intro all le
      obtain ⟨first, hfirst, rfl⟩ := Option.map_eq_some_iff.mp found
      have mem := List.mem_of_find?_eq_some hfirst
      have past := all first mem
      rw [UInt64.le_zero_iff.mp le] at past
      exact past UInt64.zero_le
    · simp [begun, timeless]
  · simp [begun]

/-- An update that leaves the window open, as a value. -/
theorem update_of_open {agg : TradeAggregator} {trade : Trade ℚ}
    (stays : ¬ Closes agg trade.eventTimeMs) :
    agg.update trade = some (TradeAggregator.recompute { agg with
      windowStartMs := startAt agg trade.eventTimeMs
      trades := (agg.expireOld trade.eventTimeMs).trades ++ [TradeAggregator.entryOf trade]
      currentWindowVolume := agg.currentWindowVolume + trade.quantity }) := by
  have stays' : ¬ trade.eventTimeMs ≥ startAt agg trade.eventTimeMs + agg.windowMs := stays
  rw [update_eq_map, TradeAggregator.crossWindow, if_neg stays']
  rfl

/-- An update that archives the open window, as a value. -/
theorem update_of_closing {agg : TradeAggregator} {trade : Trade ℚ} (positive : agg.windowMs ≠ 0)
    (closes : Closes agg trade.eventTimeMs) :
    agg.update trade = some (TradeAggregator.recompute { agg with
      completedVolumes :=
        Aggregator.pushBounded agg.smaWindows agg.completedVolumes agg.currentWindowVolume
      windowStartMs := trade.eventTimeMs - trade.eventTimeMs % agg.windowMs
      trades := (agg.expireOld trade.eventTimeMs).trades ++ [TradeAggregator.entryOf trade]
      currentWindowVolume := 0 + trade.quantity
      snapshot := { agg.snapshot with windowCount := agg.snapshot.windowCount + 1 } }) := by
  have closes' : trade.eventTimeMs ≥ startAt agg trade.eventTimeMs + agg.windowMs := closes
  rw [update_eq_map, TradeAggregator.crossWindow, if_pos closes', if_neg positive]
  rfl

/-- While the window stays open the additional volume does not show. -/
theorem update_addVolume_open (volume : ℚ) {agg : TradeAggregator} {trade : Trade ℚ}
    (stays : ¬ Closes agg trade.eventTimeMs) :
    (addVolume volume agg).update trade = (agg.update trade).map (addVolume volume) := by
  have stays' : ¬ Closes (addVolume volume agg) trade.eventTimeMs := stays
  rw [update_of_open stays, update_of_open stays', Option.map_some, Option.some.injEq]
  have moved : agg.currentWindowVolume + volume + trade.quantity =
      agg.currentWindowVolume + trade.quantity + volume := add_right_comm _ _ _
  simp only [addVolume, moved]
  rfl

/-- The first archived window shows the additional volume in its average. -/
theorem update_addVolume_closing (volume : ℚ) {agg : TradeAggregator} {trade : Trade ℚ}
    (positive : agg.windowMs ≠ 0) (first : agg.completedVolumes = [])
    (kept : agg.smaWindows ≠ 0) (closes : Closes agg trade.eventTimeMs) :
    ∃ next next', agg.update trade = some next ∧ (addVolume volume agg).update trade = some next' ∧
      next.snapshot.volumeSma = agg.currentWindowVolume ∧
      next'.snapshot.volumeSma = agg.currentWindowVolume + volume := by
  have positive' : (addVolume volume agg).windowMs ≠ 0 := positive
  have closes' : Closes (addVolume volume agg) trade.eventTimeMs := closes
  have single : ∀ x, Aggregator.pushBounded agg.smaWindows agg.completedVolumes x = [x] := by
    intro x
    rw [first, Aggregator.pushBounded, if_neg]
    · rfl
    · simpa using kept
  have average : ∀ x : ℚ, (if [x] = [] then agg.snapshot.volumeSma
      else [x].sum / ([x].length : ℚ)) = x := by
    intro x
    rw [if_neg (List.cons_ne_nil _ _), List.sum_singleton, List.length_singleton, Nat.cast_one,
      div_one]
  refine ⟨_, _, update_of_closing positive closes,
    update_of_closing positive' closes', ?_, ?_⟩
  · simp only [TradeAggregator.recompute, single, average]
  · simp only [TradeAggregator.recompute, addVolume, single, average]

/-- Without a place for archived volumes the additional one is lost at once. -/
theorem update_addVolume_unkept (volume : ℚ) {agg : TradeAggregator} {trade : Trade ℚ}
    (positive : agg.windowMs ≠ 0) (first : agg.completedVolumes = []) (unkept : agg.smaWindows = 0)
    (closes : Closes agg trade.eventTimeMs) :
    (addVolume volume agg).update trade = agg.update trade := by
  have positive' : (addVolume volume agg).windowMs ≠ 0 := positive
  have closes' : Closes (addVolume volume agg) trade.eventTimeMs := closes
  have empty : ∀ x, Aggregator.pushBounded 0 [] x = [] := fun x => rfl
  rw [update_of_closing positive closes,
    update_of_closing positive' closes']
  simp only [addVolume, first, unkept, empty]
  rfl

/-- An open window stays what it is, with its start at the first time seen. -/
theorem update_open {agg next : TradeAggregator} {trade : Trade ℚ}
    (stays : ¬ Closes agg trade.eventTimeMs) (updated : agg.update trade = some next) :
    next.windowMs = agg.windowMs ∧ next.smaWindows = agg.smaWindows ∧
      next.windowStartMs = startAt agg trade.eventTimeMs ∧
      next.completedVolumes = agg.completedVolumes := by
  obtain rfl := Option.some.inj (updated.symm.trans (update_of_open stays))
  exact ⟨rfl, rfl, rfl, rfl⟩

theorem sameResults_addVolume {volume : ℚ} {agg : TradeAggregator} (positive : agg.windowMs ≠ 0)
    (first : agg.completedVolumes = []) (later : List (Trade ℚ)) :
    SameResults TradeAggregator.update TradeAggregator.snapshot (addVolume volume agg) agg later ↔
      volume = 0 ∨ agg.smaWindows = 0 ∨ NoWindowCloses agg.windowMs agg.windowStartMs later := by
  induction later generalizing agg with
  | nil =>
    rw [sameResults_nil]
    refine iff_of_true rfl (Or.inr (Or.inr ?_))
    exact fun opened _ => List.forall_mem_nil _
  | cons trade later ih =>
    rw [noWindowCloses_cons positive]
    change _ ↔ _ ∨ _ ∨ ¬ Closes agg trade.eventTimeMs ∧
      NoWindowCloses agg.windowMs (startAt agg trade.eventTimeMs) later
    by_cases closes : Closes agg trade.eventTimeMs
    · by_cases kept : agg.smaWindows = 0
      · refine iff_of_true ?_ (Or.inr (Or.inl kept))
        obtain ⟨next, updated, -⟩ := TradeAggregator.update_of_window positive trade
        have updated' := (update_addVolume_unkept volume positive first kept closes).trans updated
        rw [sameResults_cons updated' updated]
        exact ⟨rfl, fun _ _ => rfl⟩
      · obtain ⟨next, next', updated, updated', sma, sma'⟩ :=
          update_addVolume_closing volume positive first kept closes
        rw [sameResults_cons updated' updated]
        simp only [closes, kept, not_true, false_and, or_false]
        constructor
        · rintro ⟨-, same⟩
          have now := Option.some.inj (same [] List.nil_prefix)
          have averages := congrArg TradeAggregatorSnapshot.volumeSma now
          rw [sma, sma'] at averages
          exact add_eq_left.mp averages
        · rintro rfl
          rw [addVolume_zero] at updated'
          obtain rfl := Option.some.inj (updated.symm.trans updated')
          exact ⟨rfl, fun _ _ => rfl⟩
    · obtain ⟨next, updated, -⟩ := TradeAggregator.update_of_window positive trade
      obtain ⟨windowMs, smaWindows, start, completed⟩ := update_open closes updated
      have updated' := (update_addVolume_open volume closes).trans (congrArg _ updated)
      rw [sameResults_cons updated' updated, ih (windowMs ▸ positive) (completed.trans first),
        windowMs, smaWindows, start]
      simp only [closes, not_false_iff, true_and]
      exact and_iff_right rfl

/-! ## Any history, a reset, and any continuation -/

/-- With a window of zero milliseconds no first update succeeds, so such a history only resets. -/
theorem performAll_zero {smaWindows : Nat} {history : List (Operation (Trade ℚ))}
    {agg : TradeAggregator}
    (run : performAll TradeAggregator.update TradeAggregator.reset
      { windowMs := 0, smaWindows } history = some agg) : agg = { windowMs := 0, smaWindows } := by
  have cleared : ∀ agg : TradeAggregator, agg = { windowMs := 0, smaWindows } →
      agg.reset = { windowMs := 0, smaWindows } := by
    rintro agg rfl
    rfl
  refine performAll_keeps (fun agg : TradeAggregator => agg = { windowMs := 0, smaWindows })
    ?_ cleared rfl run
  rintro s trade t rfl updated
  have closes : trade.eventTimeMs ≥ trade.eventTimeMs + 0 := by
    rw [UInt64.add_zero]
    exact UInt64.le_refl _
  rw [update_eq_map, TradeAggregator.crossWindow, startAt, if_pos rfl, if_pos closes,
    if_pos rfl] at updated
  cases updated

/-- What a reset leaves of any history: the volume of the open window. -/
theorem reset_eq_addVolume {windowMs : UInt64} {smaWindows : Nat}
    {history : List (Operation (Trade ℚ))} {agg : TradeAggregator}
    (run : performAll TradeAggregator.update TradeAggregator.reset { windowMs, smaWindows }
      history = some agg) :
    agg.reset = addVolume agg.currentWindowVolume { windowMs, smaWindows } := by
  have same : agg.windowMs = windowMs ∧ agg.smaWindows = smaWindows := by
    by_cases positive : windowMs = 0
    · subst positive
      obtain rfl := performAll_zero run
      exact ⟨rfl, rfl⟩
    · have cleared : ∀ agg : TradeAggregator,
          agg.windowMs = windowMs ∧ agg.smaWindows = smaWindows →
          agg.reset.windowMs = windowMs ∧ agg.reset.smaWindows = smaWindows :=
        fun agg kept => kept
      refine performAll_keeps
        (fun agg : TradeAggregator => agg.windowMs = windowMs ∧ agg.smaWindows = smaWindows)
        ?_ cleared ⟨rfl, rfl⟩ run
      rintro s trade t ⟨rfl, rfl⟩ updated
      obtain ⟨_, updated', window, windows, -⟩ := TradeAggregator.update_of_window positive trade
      obtain rfl := Option.some.inj (updated.symm.trans updated')
      exact ⟨window, windows⟩
  rw [TradeAggregator.reset, addVolume, same.1, same.2, Rat.zero_add]

/-- A cleared book and a reset `Aggregator` are as good as new ones. A reset
`TradeAggregator` is so exactly when the volume that it keeps is zero or never archived. -/
theorem reset_equivalence (symbol : Symbol) (vwapLevels smaWindow : Nat) (windowMs : UInt64)
    (smaWindows : Nat) :
    (∀ (history : List (Operation (DepthUpdate ℚ))) (book : OrderBook),
      performAll OrderBook.applyUpdate OrderBook.clear { symbol } history = some book →
      ∀ later, SameResults OrderBook.applyUpdate id book.clear { symbol } later) ∧
    (∀ (history : List (Operation OrderBook)) (agg : Aggregator),
      performAll Aggregator.update Aggregator.reset { vwapLevels, smaWindow } history = some agg →
      ∀ later, SameResults Aggregator.update Aggregator.snapshot agg.reset
        { vwapLevels, smaWindow } later) ∧
    (∀ (history : List (Operation (Trade ℚ))) (agg : TradeAggregator),
      performAll TradeAggregator.update TradeAggregator.reset { windowMs, smaWindows } history =
        some agg →
      ∀ later, SameResults TradeAggregator.update TradeAggregator.snapshot agg.reset
          { windowMs, smaWindows } later ↔
        agg.currentWindowVolume = 0 ∨ smaWindows = 0 ∨ NoWindowCloses windowMs 0 later) := by
  refine ⟨?_, ?_, ?_⟩
  · intro history book run later front _
    rw [clear_eq_fresh run]
  · intro history agg run later front _
    rw [reset_eq_fresh run]
  · intro history agg run later
    rw [reset_eq_addVolume run]
    by_cases positive : windowMs = 0
    · subst positive
      obtain rfl := performAll_zero run
      rw [addVolume_zero]
      exact iff_of_true (fun _ _ => rfl) (Or.inl rfl)
    · exact sameResults_addVolume positive rfl later

theorem reset_equivalence_oneTrade :
    SameResults TradeAggregator.update TradeAggregator.snapshot
      (TradeAggregator.reset {
        trades := [⟨1000, 5, true⟩], windowStartMs := 1000, currentWindowVolume := 5
        snapshot := { buyVolume := 5, totalVolume := 5, tradeImbalance := 1, tradeCount := 1 } })
      { windowMs := 1000, smaWindows := 20 } [tradeAt 2000 1, tradeAt 2999 1] := by
  obtain ⟨-, -, iff⟩ := reset_equivalence [] 5 20 1000 20
  refine (iff [.update (tradeAt 1000 5)] _ ?_ _).mpr (Or.inr (Or.inr ?_))
  · decide +kernel
  · intro opened first
    obtain rfl := Option.some.inj first
    decide +kernel

/-- The 5 traded before the reset are in the first volume archived after it. -/
theorem leftover_archived :
    ∃ agg, performAll TradeAggregator.update TradeAggregator.reset
        { windowMs := 1000, smaWindows := 20 } [.update (tradeAt 1000 5)] = some agg ∧
      (observed TradeAggregator.update TradeAggregator.snapshot agg.reset
        [tradeAt 2000 1, tradeAt 3000 1]).map TradeAggregatorSnapshot.volumeSma = some 6 ∧
      (observed TradeAggregator.update TradeAggregator.snapshot
        { windowMs := 1000, smaWindows := 20 }
        [tradeAt 2000 1, tradeAt 3000 1]).map TradeAggregatorSnapshot.volumeSma = some 1 ∧
      ¬ SameResults TradeAggregator.update TradeAggregator.snapshot agg.reset
        { windowMs := 1000, smaWindows := 20 } [tradeAt 2000 1, tradeAt 3000 1] := by
  refine ⟨_, rfl, by decide +kernel, by decide +kernel, ?_⟩
  intro same
  have last := same _ List.prefix_rfl
  revert last
  decide +kernel

end ResetEquivalence
