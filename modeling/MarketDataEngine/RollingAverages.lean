import MarketDataEngine.ResetEquivalence
import MarketDataEngine.PriceSignals
import Mathlib.Tactic.Linarith
import Mathlib.Tactic.Ring

/-!
# Moving averages of the book

Each of the two deques of `Aggregator` holds the last of its own samples, and the
average shown is their mean. What counts as a sample differs: a mid price must be
positive, a spread only non-negative. A book with an empty side reports both as zero,
so it is no sample of the mid price and is one of the spread.
-/

open ResetEquivalence (Operation performAll)
open CompletedWindows (lastOf pushBounded_lastOf)

namespace RollingAverages

/-- The mean of some samples, and 0 of none. -/
def average (samples : List ℚ) : ℚ :=
  if samples = [] then 0 else samples.sum / samples.length

/-- The books that were aggregated since the last reset. -/
def sinceReset (history : List (Operation OrderBook)) : List OrderBook :=
  history.foldl (fun books operation => match operation with
    | .update book => books ++ [book]
    | .reset => []) []

def midSamples (books : List OrderBook) : List ℚ :=
  (books.map OrderBook.midPrice).filter (fun price => 0 < price)

def spreadSamples (books : List OrderBook) : List ℚ :=
  (books.map OrderBook.spread).filter (fun spread => 0 ≤ spread)

/-! ## One deque and its average -/

/-- A deque holds the last samples, and their mean is shown. -/
structure Window (bound : Nat) (samples deque : List ℚ) (shown : ℚ) : Prop where
  deque : deque = lastOf bound samples
  shown : shown = average (lastOf bound samples)

theorem length_lastOf_le (bound : Nat) (values : List ℚ) :
    (lastOf bound values).length ≤ bound := by
  rw [lastOf, List.length_drop]
  omega

/-- A sample enters at the back, and an update without a sample changes nothing. -/
theorem Window.roll {bound : Nat} {samples deque : List ℚ} {shown : ℚ}
    (window : Window bound samples deque shown) (enough : 0 < bound) (counts : Bool) (value : ℚ) :
    ∃ deque' shown', Aggregator.roll bound counts deque value shown = some (deque', shown') ∧
      Window bound (samples ++ if counts then [value] else []) deque' shown' ∧
      (counts = false → shown' = shown) := by
  cases counts with
  | false => exact ⟨deque, shown, rfl, by simpa using window, fun _ => rfl⟩
  | true =>
    have nonempty := Aggregator.pushBounded_ne_nil enough deque value
    have pushed : Aggregator.pushBounded bound deque value = lastOf bound (samples ++ [value]) := by
      rw [window.deque, pushBounded_lastOf]
    rw [pushed] at nonempty
    refine ⟨lastOf bound (samples ++ [value]), average (lastOf bound (samples ++ [value])), ?_,
      ⟨rfl, rfl⟩, nofun⟩
    simp only [Aggregator.roll, if_true, pushed, Aggregator.mean, average, if_neg nonempty,
      Option.map_some]

/-! ## Both deques over a history -/

/-- Both deques and averages follow the books since the last reset. -/
structure Averages (bound : Nat) (books : List OrderBook) (agg : Aggregator) : Prop where
  smaWindow : agg.smaWindow = bound
  mids : Window bound (midSamples books) agg.midPrices agg.snapshot.midPriceSma
  spreads : Window bound (spreadSamples books) agg.spreads agg.snapshot.spreadSma

theorem averages_reset {bound : Nat} {agg : Aggregator} (same : agg.smaWindow = bound) :
    Averages bound [] agg.reset := by
  have empty : Window bound [] [] 0 := ⟨List.drop_nil.symm, by rw [lastOf, List.drop_nil]; rfl⟩
  exact ⟨same, empty, empty⟩

theorem midSamples_snoc (books : List OrderBook) (book : OrderBook) :
    midSamples (books ++ [book]) =
      midSamples books ++ if decide (book.midPrice > 0) then [book.midPrice] else [] := by
  simp only [midSamples, List.map_append, List.filter_append, List.map_singleton,
    List.filter_cons, List.filter_nil, gt_iff_lt]

theorem spreadSamples_snoc (books : List OrderBook) (book : OrderBook) :
    spreadSamples (books ++ [book]) =
      spreadSamples books ++ if decide (book.spread ≥ 0) then [book.spread] else [] := by
  simp only [spreadSamples, List.map_append, List.filter_append, List.map_singleton,
    List.filter_cons, List.filter_nil, ge_iff_le]

/-- An update lets each deque take its own sample, or leaves its average as it was. -/
theorem Averages.update {bound : Nat} {books : List OrderBook} {agg : Aggregator}
    (averages : Averages bound books agg) (enough : 0 < bound) (book : OrderBook) :
    ∃ next, agg.update book = some next ∧ Averages bound (books ++ [book]) next ∧
      (¬ 0 < book.midPrice → next.snapshot.midPriceSma = agg.snapshot.midPriceSma) ∧
      (¬ 0 ≤ book.spread → next.snapshot.spreadSma = agg.snapshot.spreadSma) := by
  obtain ⟨rfl, mids, spreads⟩ := averages
  obtain ⟨mids', mid, hmid, kept, skipped⟩ :=
    mids.roll enough (decide (book.midPrice > 0)) book.midPrice
  obtain ⟨spreads', spread, hspread, kept', skipped'⟩ :=
    spreads.roll enough (decide (book.spread ≥ 0)) book.spread
  rw [← midSamples_snoc] at kept
  rw [← spreadSamples_snoc] at kept'
  obtain ⟨next, updated, same, rfl, rfl, rfl, rfl⟩ := Aggregator.update_of_rolls hmid hspread
  refine ⟨next, updated, ⟨same, kept, kept'⟩, ?_, ?_⟩
  · exact fun out => skipped (decide_eq_false out)
  · exact fun out => skipped' (decide_eq_false out)

theorem sinceReset_snoc_update (history : List (Operation OrderBook)) (book : OrderBook) :
    sinceReset (history ++ [.update book]) = sinceReset history ++ [book] := by
  rw [sinceReset, List.foldl_concat]
  rfl

theorem sinceReset_snoc_reset (history : List (Operation OrderBook)) :
    sinceReset (history ++ [.reset]) = [] := by
  rw [sinceReset, List.foldl_concat]

theorem performAll_averages (vwapLevels : Nat) {smaWindow : Nat} (enough : 0 < smaWindow)
    (history : List (Operation OrderBook)) :
    ∃ agg, performAll Aggregator.update Aggregator.reset { vwapLevels, smaWindow } history =
      some agg ∧ Averages smaWindow (sinceReset history) agg := by
  induction history using List.reverseRecOn with
  | nil =>
    have fresh : Averages smaWindow [] (Aggregator.reset { vwapLevels, smaWindow }) :=
      averages_reset rfl
    exact ⟨_, rfl, fresh⟩
  | append_singleton history operation ih =>
    obtain ⟨agg, run, averages⟩ := ih
    cases operation with
    | update book =>
      obtain ⟨next, updated, averages', -⟩ := averages.update enough book
      rw [sinceReset_snoc_update]
      exact ⟨next, Transition.foldlM_snoc_some.mpr ⟨agg, run, updated⟩, averages'⟩
    | reset =>
      rw [sinceReset_snoc_reset]
      exact ⟨agg.reset, Transition.foldlM_snoc_some.mpr ⟨agg, run, rfl⟩,
        averages_reset averages.smaWindow⟩

/-- Both averages are the means of the last samples since the last reset. -/
theorem averages_exact (vwapLevels smaWindow : Nat) (enough : 1 ≤ smaWindow)
    (history : List (Operation OrderBook)) :
    ∃ agg, performAll Aggregator.update Aggregator.reset { vwapLevels, smaWindow } history =
        some agg ∧
      agg.snapshot.midPriceSma = average (lastOf smaWindow (midSamples (sinceReset history))) ∧
      agg.snapshot.spreadSma = average (lastOf smaWindow (spreadSamples (sinceReset history))) ∧
      agg.midPrices.length ≤ smaWindow ∧ agg.spreads.length ≤ smaWindow ∧
      ∀ book, ∃ next, agg.update book = some next ∧
        (¬ 0 < book.midPrice → next.snapshot.midPriceSma = agg.snapshot.midPriceSma) ∧
        (¬ 0 ≤ book.spread → next.snapshot.spreadSma = agg.snapshot.spreadSma) := by
  obtain ⟨agg, run, averages⟩ := performAll_averages vwapLevels enough history
  refine ⟨agg, run, averages.mids.shown, averages.spreads.shown, ?_, ?_, ?_⟩
  · rw [averages.mids.deque]
    exact length_lastOf_le _ _
  · rw [averages.spreads.deque]
    exact length_lastOf_le _ _
  · intro book
    obtain ⟨next, updated, -, skipped⟩ := averages.update enough book
    exact ⟨next, updated, skipped⟩

/-! ## The spread of a book with an empty side -/

open PriceSignals (OneSided)

instance (book : OrderBook) : Decidable (OneSided book) :=
  inferInstanceAs (Decidable (book.bids.entries = [] ∨ book.asks.entries = []))

/-- Both sides have levels, and the best bid is above the best ask. -/
def Crossed (book : OrderBook) : Prop := ¬ OneSided book ∧ book.bestBidPrice > book.bestAskPrice

def twoSided (books : List OrderBook) : List OrderBook := books.filter (fun b => ¬ OneSided b)

def oneSided (books : List OrderBook) : List OrderBook := books.filter (fun b => OneSided b)

def spreadsOf (books : List OrderBook) : List ℚ := books.map OrderBook.spread

/-- The last `window` books. -/
def recent (window : Nat) (books : List OrderBook) : List OrderBook :=
  books.drop (books.length - window)

def earlier (window : Nat) (books : List OrderBook) : List OrderBook :=
  books.take (books.length - window)

/-- The one-sided books of the window stand where as many earlier spreads would, all of
them zero. -/
def StandIn (window : Nat) (books : List OrderBook) : Prop :=
  (oneSided (recent window books)).length ≤ (twoSided (earlier window books)).length ∧
    ∀ spread ∈ lastOf (oneSided (recent window books)).length
      (spreadsOf (twoSided (earlier window books))), spread = 0

theorem spread_of_oneSided {book : OrderBook} (oneSided : OneSided book) : book.spread = 0 :=
  if_pos oneSided

theorem spread_nonneg {book : OrderBook} (uncrossed : ¬ Crossed book) : 0 ≤ book.spread := by
  by_cases oneSided : OneSided book
  · exact (spread_of_oneSided oneSided).ge
  · have between : book.bestBidPrice ≤ book.bestAskPrice :=
      not_lt.mp (fun above => uncrossed ⟨oneSided, above⟩)
    exact (sub_nonneg.mpr between).trans_eq (if_neg oneSided).symm

/-- Every uncrossed book is a sample. -/
theorem spreadSamples_eq {books : List OrderBook} (uncrossed : ∀ book ∈ books, ¬ Crossed book) :
    spreadSamples books = spreadsOf books := by
  refine List.filter_eq_self.mpr ?_
  intro spread mem
  obtain ⟨book, hbook, rfl⟩ := List.mem_map.mp mem
  exact decide_eq_true (spread_nonneg (uncrossed book hbook))

/-- One-sided books add nothing to a sum of spreads. -/
theorem sum_spreadsOf (books : List OrderBook) :
    (spreadsOf books).sum = (spreadsOf (twoSided books)).sum := by
  induction books with
  | nil => rfl
  | cons book rest ih =>
    have head : spreadsOf (book :: rest) = book.spread :: spreadsOf rest := rfl
    rw [head, List.sum_cons, ih]
    by_cases oneSided : OneSided book
    · have skipped : twoSided (book :: rest) = twoSided rest :=
        List.filter_cons_of_neg (by simpa using oneSided)
      rw [skipped, spread_of_oneSided oneSided, zero_add]
    · have kept : twoSided (book :: rest) = book :: twoSided rest :=
        List.filter_cons_of_pos (by simpa using oneSided)
      rw [kept]
      exact List.sum_cons.symm

theorem length_eq_twoSided_add_oneSided (books : List OrderBook) :
    books.length = (twoSided books).length + (oneSided books).length := by
  simpa [twoSided, oneSided, Nat.add_comm, List.countP_eq_length_filter] using
    List.length_eq_countP_add_countP (fun b => decide (OneSided b)) (l := books)

theorem lastOf_append_of_le {bound : Nat} {front back : List ℚ} (fits : back.length ≤ bound) :
    lastOf bound (front ++ back) = lastOf (bound - back.length) front ++ back := by
  rw [lastOf, lastOf, List.length_append, List.drop_append]
  congr 1
  · congr 1
    omega
  · have none : front.length + back.length - bound - front.length = 0 := by omega
    rw [none, List.drop_zero]

theorem sum_eq_zero_iff_forall {values : List ℚ} (nonneg : ∀ x ∈ values, 0 ≤ x) :
    values.sum = 0 ↔ ∀ x ∈ values, x = 0 := by
  constructor
  · intro zero x mem
    exact List.all_zero_of_le_zero_le_of_sum_eq_zero nonneg zero mem
  · exact List.sum_eq_zero

/-- A mean over `gaps` zeros more equals the mean over `older` values more: either all
values are zero, or as many zeros were added on both sides. -/
theorem mean_eq_mean_iff {older counted gaps : Nat} {sumOlder sum : ℚ} (fewer : older ≤ gaps)
    (sumOlder_nonneg : 0 ≤ sumOlder) (sum_nonneg : 0 ≤ sum) (none : older + counted = 0 →
      sumOlder = 0 ∧ sum = 0) :
    sum / ((counted + gaps : Nat) : ℚ) = (sumOlder + sum) / ((older + counted : Nat) : ℚ) ↔
      (sumOlder = 0 ∧ sum = 0) ∨ (gaps ≤ older ∧ sumOlder = 0) := by
  by_cases empty : older + counted = 0
  · obtain ⟨rfl, rfl⟩ := none empty
    simp
  · have here : (0 : ℚ) < ((older + counted : Nat) : ℚ) := by
      exact_mod_cast Nat.pos_of_ne_zero empty
    have there : (0 : ℚ) < ((counted + gaps : Nat) : ℚ) := by
      exact_mod_cast (show 0 < counted + gaps by omega)
    have difference : (0 : ℚ) ≤ gaps - older := sub_nonneg.mpr (by exact_mod_cast fewer)
    rw [div_eq_div_iff there.ne' here.ne']
    push_cast at here there ⊢
    constructor
    · intro cross
      have total : sumOlder * (counted + gaps) + sum * (gaps - older) = 0 := by linarith
      have parts := (add_eq_zero_iff_of_nonneg (mul_nonneg sumOlder_nonneg there.le)
        (mul_nonneg sum_nonneg difference)).mp total
      have old : sumOlder = 0 := (mul_eq_zero.mp parts.1).resolve_right there.ne'
      rcases mul_eq_zero.mp parts.2 with zero | same
      · exact Or.inl ⟨old, zero⟩
      · exact Or.inr ⟨by exact_mod_cast (sub_eq_zero.mp same).le, old⟩
    · rintro (⟨rfl, rfl⟩ | ⟨enough, rfl⟩)
      · simp
      · obtain rfl := Nat.le_antisymm fewer enough
        ring

theorem average_eq_div (samples : List ℚ) : average samples = samples.sum / samples.length := by
  rw [average]
  split_ifs with empty
  · rw [empty, List.sum_nil, zero_div]
  · rfl

/-- The window of the two-sided spreads: those in the window of all books, and before them
as many as there are one-sided books in it. -/
theorem lastOf_twoSided (window : Nat) (books : List OrderBook) :
    lastOf window (spreadsOf (twoSided books)) =
      lastOf (oneSided (recent window books)).length
          (spreadsOf (twoSided (earlier window books))) ++
        spreadsOf (twoSided (recent window books)) := by
  have split : twoSided books =
      twoSided (earlier window books) ++ twoSided (recent window books) := by
    rw [twoSided, twoSided, twoSided, ← List.filter_append, earlier, recent, List.take_append_drop]
  have parts := length_eq_twoSided_add_oneSided (recent window books)
  have size : (recent window books).length = books.length - (books.length - window) :=
    List.length_drop
  have counted : (spreadsOf (twoSided (recent window books))).length =
      (twoSided (recent window books)).length := List.length_map _
  rw [split, spreadsOf, List.map_append, ← spreadsOf, ← spreadsOf,
    lastOf_append_of_le (by omega), counted]
  congr 1
  by_cases short : books.length ≤ window
  · have nothing : earlier window books = [] := by
      rw [earlier, Nat.sub_eq_zero_of_le short, List.take_zero]
    rw [nothing]
    exact List.drop_nil.trans List.drop_nil.symm
  · congr 1
    omega

/-- While no book is crossed, the average shown is the mean of the last two-sided spreads if and
only if these are all zero or the one-sided books of the window stand in for zero spreads. -/
theorem spreadSma_iff (vwapLevels smaWindow : Nat) (enough : 1 ≤ smaWindow)
    (history : List (Operation OrderBook))
    (uncrossed : ∀ book ∈ sinceReset history, ¬ Crossed book) :
    ∃ agg, performAll Aggregator.update Aggregator.reset { vwapLevels, smaWindow } history =
        some agg ∧
      (agg.snapshot.spreadSma =
          average (lastOf smaWindow (spreadsOf (twoSided (sinceReset history)))) ↔
        (∀ spread ∈ lastOf smaWindow (spreadsOf (twoSided (sinceReset history))), spread = 0) ∨
          StandIn smaWindow (sinceReset history)) := by
  obtain ⟨agg, run, averages⟩ := performAll_averages vwapLevels enough history
  refine ⟨agg, run, ?_⟩
  generalize sinceReset history = books at uncrossed averages ⊢
  have nonneg : ∀ part : List OrderBook, part ⊆ books →
      ∀ spread ∈ spreadsOf (twoSided part), 0 ≤ spread := by
    intro part within spread mem
    obtain ⟨book, hbook, rfl⟩ := List.mem_map.mp mem
    exact spread_nonneg (uncrossed book (within (List.mem_of_mem_filter hbook)))
  have shown : lastOf smaWindow (spreadsOf books) = spreadsOf (recent smaWindow books) := by
    rw [lastOf, spreadsOf, List.length_map, ← List.map_drop]
    rfl
  rw [averages.spreads.shown, spreadSamples_eq uncrossed, shown, lastOf_twoSided,
    average_eq_div, average_eq_div, List.sum_append, List.length_append, sum_spreadsOf]
  set gaps := (oneSided (recent smaWindow books)).length with hgaps
  set older := lastOf gaps (spreadsOf (twoSided (earlier smaWindow books))) with holder
  set counted := spreadsOf (twoSided (recent smaWindow books)) with hcounted
  have older_nonneg : ∀ spread ∈ older, 0 ≤ spread := fun spread mem =>
    nonneg _ (List.take_subset _ _) spread (List.mem_of_mem_drop mem)
  have counted_nonneg : ∀ spread ∈ counted, 0 ≤ spread := nonneg _ (List.drop_subset _ _)
  have olderLength : older.length = min gaps (twoSided (earlier smaWindow books)).length := by
    rw [holder, lastOf, List.length_drop, spreadsOf, List.length_map]
    omega
  have size : (spreadsOf (recent smaWindow books)).length = counted.length + gaps := by
    rw [hcounted, spreadsOf, spreadsOf, List.length_map, List.length_map]
    exact length_eq_twoSided_add_oneSided _
  have none : older.length + counted.length = 0 → older.sum = 0 ∧ counted.sum = 0 := by
    intro empty
    have nil := Nat.add_eq_zero_iff.mp empty
    rw [List.length_eq_zero_iff.mp nil.1, List.length_eq_zero_iff.mp nil.2]
    exact ⟨List.sum_nil, List.sum_nil⟩
  rw [size, mean_eq_mean_iff (by omega) (List.sum_nonneg older_nonneg)
    (List.sum_nonneg counted_nonneg) none, sum_eq_zero_iff_forall older_nonneg,
    sum_eq_zero_iff_forall counted_nonneg, List.forall_mem_append]
  refine or_congr_right (and_congr_left' ?_)
  rw [olderLength]
  omega

/-- A book with one level on each side. -/
def quote (bid ask : ℚ) : OrderBook where
  symbol := []
  bids := OrderedMap.empty.insert bid 1
  asks := OrderedMap.empty.insert ask 1

/-- A book without asks. -/
def bidOnly (bid : ℚ) : OrderBook where
  symbol := []
  bids := OrderedMap.empty.insert bid 1

theorem averages_exact_skippedMid :
    ∃ agg, performAll Aggregator.update Aggregator.reset { smaWindow := 2 }
        [.update (quote 90 94), .reset, .update (quote 100 104), .update (bidOnly 100)] =
        some agg ∧ agg.snapshot.midPriceSma = 102 ∧ agg.snapshot.spreadSma = 2 := by
  obtain ⟨agg, run, mid, spread, -⟩ := averages_exact 5 2 (by decide)
    [.update (quote 90 94), .reset, .update (quote 100 104), .update (bidOnly 100)]
  exact ⟨agg, run, mid.trans (by decide +kernel), spread.trans (by decide +kernel)⟩

/-- Two-sided books alone. -/
theorem spreadSma_iff_twoSided :
    ∃ agg, performAll Aggregator.update Aggregator.reset { smaWindow := 2 }
        [.update (quote 90 94), .update (quote 100 106)] = some agg ∧
      agg.snapshot.spreadSma = 5 := by
  obtain ⟨agg, run, iff⟩ := spreadSma_iff 5 2 (by decide)
    [.update (quote 90 94), .update (quote 100 106)] (by unfold Crossed; decide +kernel)
  refine ⟨agg, run, (iff.mpr (Or.inr ?_)).trans (by decide +kernel)⟩
  unfold StandIn
  decide +kernel

/-- A spread of 4 is averaged with the 0 of a book that has no spread. -/
theorem oneSided_averaged :
    ∃ agg, performAll Aggregator.update Aggregator.reset { smaWindow := 2 }
        [.update (quote 100 104), .update (bidOnly 100)] = some agg ∧
      agg.snapshot.spreadSma = 2 ∧
      average (lastOf 2 (spreadsOf (twoSided [quote 100 104, bidOnly 100]))) = 4 ∧
      ¬ Crossed (quote 100 104) ∧ ¬ Crossed (bidOnly 100) := by
  obtain ⟨agg, run, averages⟩ := performAll_averages 5 (show 0 < 2 by decide)
    [.update (quote 100 104), .update (bidOnly 100)]
  refine ⟨agg, run, averages.spreads.shown.trans (by decide +kernel), by decide +kernel, ?_⟩
  unfold Crossed
  decide +kernel

end RollingAverages
