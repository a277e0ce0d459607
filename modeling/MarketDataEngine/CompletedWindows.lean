import MarketDataEngine.TradeAggregator
import Mathlib.Algebra.Order.Ring.Nat

/-!
# Completed windows

Trades that arrive are added to a fixed window, which is archived once a trade
lies past its end. The first window opens at the first trade and every later one
at a multiple of the window's length, so the first two may share times. This
module says when every archived volume is that of the trades in its interval.
-/

open MarketTypes

namespace CompletedWindows

open TradeAggregator

/-- A window when it is archived, with the trades that were added to it. -/
structure Completed where
  start : UInt64
  volume : ℚ
  counted : List (Trade ℚ)
  deriving DecidableEq

/-- An aggregator with the trades of its open window and all windows it archived. -/
structure Archive where
  agg : TradeAggregator
  current : List (Trade ℚ) := []
  completed : List Completed := []
  deriving DecidableEq

/-- The open window's start once a trade at `nowMs` is there. -/
def startAt (agg : TradeAggregator) (nowMs : UInt64) : UInt64 :=
  if agg.windowStartMs = 0 then nowMs else agg.windowStartMs

/-- A trade at `nowMs` makes the aggregator archive its open window. -/
def Closes (agg : TradeAggregator) (nowMs : UInt64) : Prop :=
  nowMs ≥ startAt agg nowMs + agg.windowMs

instance (agg : TradeAggregator) (nowMs : UInt64) : Decidable (Closes agg nowMs) :=
  inferInstanceAs (Decidable (_ ≤ _))

def add (archive : Archive) (trade : Trade ℚ) : Option Archive :=
  (archive.agg.update trade).map (fun next =>
    if Closes archive.agg trade.eventTimeMs then
      { agg := next
        current := [trade]
        completed := archive.completed ++ [{
          start := startAt archive.agg trade.eventTimeMs
          volume := archive.agg.currentWindowVolume
          counted := archive.current }] }
    else { archive with agg := next, current := archive.current ++ [trade] })

def addAll (archive : Archive) (history : List (Trade ℚ)) : Option Archive :=
  history.foldlM add archive

def volumeOf (trades : List (Trade ℚ)) : ℚ := (trades.map Trade.quantity).sum

def timeOf (trade : Trade ℚ) : Nat := trade.eventTimeMs.toNat

/-- The trades of a history in `[low, high)`. -/
def between (low high : Nat) (history : List (Trade ℚ)) : List (Trade ℚ) :=
  history.filter (fun trade => low ≤ timeOf trade ∧ timeOf trade < high)

/-- A completed window counts each trade of its interval and no other. -/
def Exact (windowMs : Nat) (history : List (Trade ℚ)) (window : Completed) : Prop :=
  window.counted = between window.start.toNat (window.start.toNat + windowMs) history ∧
    window.volume = volumeOf window.counted

def alignedStart (windowMs time : Nat) : Nat := time - time % windowMs

/-- The end of the first window is in range, and if the second window is archived at
all, no trade lies both in the first window and past the start of the second. -/
def Separated (windowMs : Nat) (history : List (Trade ℚ)) : Prop :=
  ∀ first ∈ history.head?, timeOf first + windowMs < 2 ^ 64 ∧
    ∀ second ∈ history.find? (fun trade => timeOf first + windowMs ≤ timeOf trade),
      (∃ third ∈ history, alignedStart windowMs (timeOf second) + windowMs ≤ timeOf third) →
      ∀ trade ∈ history, ¬ (alignedStart windowMs (timeOf second) ≤ timeOf trade ∧
        timeOf trade < timeOf first + windowMs)

/-! ## What one update does to the windows -/

/-- An update as the steps of the source, with the start of the window put first. -/
theorem update_eq_map (agg : TradeAggregator) (trade : Trade ℚ) :
    agg.update trade =
      (({ agg with windowStartMs := startAt agg trade.eventTimeMs } :
        TradeAggregator).crossWindow trade.eventTimeMs).map (fun crossed =>
          recompute { crossed.expireOld trade.eventTimeMs with
            trades := (crossed.expireOld trade.eventTimeMs).trades ++ [entryOf trade]
            currentWindowVolume := crossed.currentWindowVolume + trade.quantity }) := by
  unfold TradeAggregator.update startAt
  split_ifs <;> exact (Option.map_eq_bind ..).symm

theorem update_windows {agg : TradeAggregator} (positive : agg.windowMs ≠ 0) (trade : Trade ℚ) :
    ∃ next, agg.update trade = some next ∧ next.windowMs = agg.windowMs ∧
      next.smaWindows = agg.smaWindows ∧
      (Closes agg trade.eventTimeMs →
        next.windowStartMs = trade.eventTimeMs - trade.eventTimeMs % agg.windowMs ∧
        next.currentWindowVolume = trade.quantity ∧
        next.completedVolumes = Aggregator.pushBounded agg.smaWindows agg.completedVolumes
          agg.currentWindowVolume) ∧
      (¬ Closes agg trade.eventTimeMs →
        next.windowStartMs = startAt agg trade.eventTimeMs ∧
        next.currentWindowVolume = agg.currentWindowVolume + trade.quantity ∧
        next.completedVolumes = agg.completedVolumes) := by
  simp only [update_eq_map, crossWindow, Closes]
  by_cases closes : trade.eventTimeMs ≥ startAt agg trade.eventTimeMs + agg.windowMs
  · rw [if_pos closes, if_neg positive]
    refine ⟨_, rfl, rfl, rfl, ?_, fun stays => absurd closes stays⟩
    intro _
    exact ⟨rfl, Rat.zero_add _, rfl⟩
  · rw [if_neg closes]
    refine ⟨_, rfl, rfl, rfl, fun closed => absurd closed closes, ?_⟩
    intro _
    exact ⟨rfl, rfl, rfl⟩

/-- The last `bound` values: what is left of a list pushed into a bounded deque. -/
def lastOf (bound : Nat) (values : List ℚ) : List ℚ := values.drop (values.length - bound)

theorem pushBounded_lastOf (bound : Nat) (values : List ℚ) (value : ℚ) :
    Aggregator.pushBounded bound (lastOf bound values) value =
      lastOf bound (values ++ [value]) := by
  have appended : lastOf bound values ++ [value] =
      (values ++ [value]).drop (values.length - bound) :=
    (List.drop_append_of_le_length (Nat.sub_le _ _)).symm
  rw [Aggregator.pushBounded, appended, lastOf]
  simp only [List.length_drop, List.length_append, List.length_singleton, List.tail_drop]
  split_ifs with long
  · congr 1
    omega
  · congr 1
    omega

/-- The bookkeeping that does not depend on times. -/
structure Kept (windowMs : UInt64) (smaWindows : Nat) (archive : Archive) : Prop where
  sameWindow : archive.agg.windowMs = windowMs
  sameBound : archive.agg.smaWindows = smaWindows
  current : archive.agg.currentWindowVolume = volumeOf archive.current
  volumes : ∀ window ∈ archive.completed, window.volume = volumeOf window.counted
  recent : archive.agg.completedVolumes =
    lastOf smaWindows (archive.completed.map Completed.volume)

/-- What one trade does to an archive. -/
theorem add_kept {windowMs : UInt64} {smaWindows : Nat} {archive : Archive}
    (positive : windowMs ≠ 0) (kept : Kept windowMs smaWindows archive) (trade : Trade ℚ) :
    ∃ next, add archive trade = some next ∧ archive.agg.update trade = some next.agg ∧
      Kept windowMs smaWindows next ∧
      (Closes archive.agg trade.eventTimeMs →
        next.agg.windowStartMs = trade.eventTimeMs - trade.eventTimeMs % windowMs ∧
        next.current = [trade] ∧
        next.completed = archive.completed ++ [⟨startAt archive.agg trade.eventTimeMs,
          archive.agg.currentWindowVolume, archive.current⟩]) ∧
      (¬ Closes archive.agg trade.eventTimeMs →
        next.agg.windowStartMs = startAt archive.agg trade.eventTimeMs ∧
        next.current = archive.current ++ [trade] ∧ next.completed = archive.completed) := by
  obtain ⟨agg, updated, same, same', closed, stayed⟩ :=
    update_windows (show archive.agg.windowMs ≠ 0 from kept.sameWindow ▸ positive) trade
  rw [kept.sameWindow, kept.sameBound] at closed
  rw [add, updated]
  by_cases closes : Closes archive.agg trade.eventTimeMs
  · obtain ⟨start, volume, volumes⟩ := closed closes
    rw [Option.map_some, if_pos closes]
    refine ⟨_, rfl, rfl, ⟨same.trans kept.sameWindow, same'.trans kept.sameBound, ?_, ?_, ?_⟩,
      fun _ => ⟨start, rfl, rfl⟩, fun stays => absurd closes stays⟩
    · simp [volume, volumeOf]
    · intro window mem
      rcases List.mem_append.mp mem with mem | mem
      · exact kept.volumes window mem
      · obtain rfl := List.mem_singleton.mp mem
        exact kept.current
    · rw [List.map_append, List.map_singleton, ← pushBounded_lastOf, ← kept.recent]
      exact volumes
  · obtain ⟨start, volume, volumes⟩ := stayed closes
    rw [Option.map_some, if_neg closes]
    refine ⟨_, rfl, rfl, ⟨same.trans kept.sameWindow, same'.trans kept.sameBound, ?_,
      kept.volumes, volumes.trans kept.recent⟩, fun closed => absurd closed closes,
      fun _ => ⟨start, rfl, rfl⟩⟩
    simp [volume, volumeOf, kept.current]

/-! ## Times -/

@[simp]
theorem between_append (low high : Nat) (before after : List (Trade ℚ)) :
    between low high (before ++ after) = between low high before ++ between low high after :=
  List.filter_append ..

theorem between_of_late {low high : Nat} {history : List (Trade ℚ)} {trade : Trade ℚ}
    (late : high ≤ timeOf trade) :
    between low high (history ++ [trade]) = between low high history := by
  have out : ¬ (low ≤ timeOf trade ∧ timeOf trade < high) := by omega
  simp [between, List.filter_append, out]

theorem exact_of_late {windowMs : Nat} {history : List (Trade ℚ)} {window : Completed}
    {trade : Trade ℚ} (exactly : Exact windowMs history window)
    (late : window.start.toNat + windowMs ≤ timeOf trade) :
    Exact windowMs (history ++ [trade]) window :=
  ⟨by rw [between_of_late late]; exact exactly.1, exactly.2⟩

/-- The aligned start at or past a multiple's end stays a whole window away from it. -/
theorem add_le_alignedStart {windowMs start time : Nat} (aligned : windowMs ∣ start)
    (past : start + windowMs ≤ time) : start + windowMs ≤ alignedStart windowMs time := by
  obtain ⟨k, rfl⟩ := aligned
  by_cases empty : windowMs = 0
  · simp [empty, alignedStart]
  · have count : k + 1 ≤ time / windowMs := by
      rw [Nat.le_div_iff_mul_le (Nat.pos_of_ne_zero empty), Nat.mul_comm]
      exact past
    have whole := Nat.mul_le_mul_left windowMs count
    have split := Nat.div_add_mod time windowMs
    rw [Nat.mul_add, Nat.mul_one] at whole
    unfold alignedStart
    omega

theorem lt_alignedStart_add {windowMs : Nat} (positive : 0 < windowMs) (time : Nat) :
    time < alignedStart windowMs time + windowMs := by
  have rest := Nat.mod_lt time positive
  have below := Nat.mod_le time windowMs
  unfold alignedStart
  omega

theorem toNat_pos {windowMs : UInt64} (positive : windowMs ≠ 0) : 0 < windowMs.toNat :=
  Nat.pos_of_ne_zero (fun zero => positive (UInt64.toNat_inj.mp zero))

theorem dvd_alignedStart (windowMs time : Nat) : windowMs ∣ alignedStart windowMs time :=
  Nat.dvd_sub_mod time

theorem alignedStart_word (windowMs time : UInt64) :
    (time - time % windowMs).toNat = alignedStart windowMs.toNat time.toNat := by
  have below : (time % windowMs).toNat ≤ time.toNat := by
    rw [UInt64.toNat_mod]
    exact Nat.mod_le _ _
  rw [UInt64.toNat_sub_of_le _ _ (UInt64.le_iff_toNat_le.mpr below), UInt64.toNat_mod,
    alignedStart]

/-- How far a history has come: no window archived, only the first one, or more. -/
inductive Stage (windowMs first : Nat) (history : List (Trade ℚ)) (archive : Archive) : Prop
  | opening (completed : archive.completed = []) (current : archive.current = history)
      (start : archive.agg.windowStartMs.toNat = first)
  | aligned (window : Completed) (second : Trade ℚ) (completed : archive.completed = [window])
      (exactly : Exact windowMs history window)
      (found : history.find? (fun trade => first + windowMs ≤ timeOf trade) = some second)
      (start : archive.agg.windowStartMs.toNat = alignedStart windowMs (timeOf second))
      (current : archive.current =
        between (first + windowMs) (archive.agg.windowStartMs.toNat + windowMs) history)
  | later (window overlapping : Completed) (rest : List Completed) (second : Trade ℚ)
      (completed : archive.completed = window :: overlapping :: rest)
      (exactly : ∀ w ∈ window :: rest, Exact windowMs history w)
      (found : history.find? (fun trade => first + windowMs ≤ timeOf trade) = some second)
      (start : overlapping.start.toNat = alignedStart windowMs (timeOf second))
      (counted : overlapping.counted =
        between (first + windowMs) (overlapping.start.toNat + windowMs) history)
      (multiple : windowMs ∣ archive.agg.windowStartMs.toNat)
      (current : archive.current = between archive.agg.windowStartMs.toNat
        (archive.agg.windowStartMs.toNat + windowMs) history)

/-- All trades so far lie between the first one and the end of the open window, and
each window's end was reached before it was archived. -/
structure Placed (windowMs first : Nat) (history : List (Trade ℚ)) (archive : Archive) : Prop where
  first : ∀ trade ∈ history, first ≤ timeOf trade
  last : ∀ trade ∈ history, timeOf trade < archive.agg.windowStartMs.toNat + windowMs
  started : 0 < archive.agg.windowStartMs.toNat
  opened : ∃ trade ∈ history, archive.agg.windowStartMs.toNat ≤ timeOf trade
  ended : ∀ window ∈ archive.completed, ∃ trade ∈ history,
    window.start.toNat + windowMs ≤ timeOf trade
  inRange : archive.agg.windowStartMs.toNat + windowMs < 2 ^ 64

theorem closes_iff {windowMs : UInt64} {smaWindows first : Nat} {history : List (Trade ℚ)}
    {archive : Archive} (kept : Kept windowMs smaWindows archive)
    (placed : Placed windowMs.toNat first history archive) (trade : Trade ℚ) :
    startAt archive.agg trade.eventTimeMs = archive.agg.windowStartMs ∧
      (Closes archive.agg trade.eventTimeMs ↔
        archive.agg.windowStartMs.toNat + windowMs.toNat ≤ timeOf trade) := by
  have started : startAt archive.agg trade.eventTimeMs = archive.agg.windowStartMs := by
    apply if_neg
    intro zero
    have positive := placed.started
    rw [zero] at positive
    exact absurd positive (Nat.lt_irrefl 0)
  refine ⟨started, ?_⟩
  rw [Closes, started, kept.sameWindow, ge_iff_le, UInt64.le_iff_toNat_le, UInt64.toNat_add,
    Nat.mod_eq_of_lt placed.inRange]
  rfl

theorem between_eq_self {low high : Nat} {history : List (Trade ℚ)}
    (inside : ∀ trade ∈ history, low ≤ timeOf trade ∧ timeOf trade < high) :
    between low high history = history :=
  List.filter_eq_self.mpr (fun trade mem => decide_eq_true (inside trade mem))

theorem between_eq_nil {low high : Nat} {history : List (Trade ℚ)}
    (below : ∀ trade ∈ history, timeOf trade < low) : between low high history = [] := by
  apply List.filter_eq_nil_iff.mpr
  intro trade mem inside
  have := below trade mem
  have := of_decide_eq_true inside
  omega

theorem between_singleton {low high : Nat} {trade : Trade ℚ} (low_le : low ≤ timeOf trade)
    (lt_high : timeOf trade < high) : between low high [trade] = [trade] := by
  apply between_eq_self
  intro t mem
  obtain rfl := List.mem_singleton.mp mem
  exact ⟨low_le, lt_high⟩

theorem find?_late {bound : Nat} {history : List (Trade ℚ)} {trade : Trade ℚ}
    (below : ∀ t ∈ history, timeOf t < bound) (late : bound ≤ timeOf trade) :
    (history ++ [trade]).find? (fun t => bound ≤ timeOf t) = some trade := by
  have nothing : history.find? (fun t => bound ≤ timeOf t) = none := by
    apply List.find?_eq_none.mpr
    intro t mem early
    have := below t mem
    have := of_decide_eq_true early
    omega
  rw [List.find?_append, nothing, Option.none_or]
  simp [late]

theorem find?_kept {bound : Nat} {history : List (Trade ℚ)} {second : Trade ℚ}
    (found : history.find? (fun t => bound ≤ timeOf t) = some second) (trade : Trade ℚ) :
    (history ++ [trade]).find? (fun t => bound ≤ timeOf t) = some second := by
  rw [List.find?_append, found, Option.some_or]

theorem found_spec {bound : Nat} {history : List (Trade ℚ)} {second : Trade ℚ}
    (found : history.find? (fun t => bound ≤ timeOf t) = some second) :
    second ∈ history ∧ bound ≤ timeOf second := by
  have late := List.find?_some found
  exact ⟨List.mem_of_find?_eq_some found, by simpa using late⟩

/-- In time order the first trade past a bound is the earliest one. -/
theorem found_le {bound : Nat} {history : List (Trade ℚ)} {second : Trade ℚ}
    (sorted : history.Pairwise (fun a b => timeOf a ≤ timeOf b))
    (found : history.find? (fun t => bound ≤ timeOf t) = some second)
    {trade : Trade ℚ} (mem : trade ∈ history) (late : bound ≤ timeOf trade) :
    timeOf second ≤ timeOf trade := by
  obtain ⟨-, before, after, rfl, early⟩ := List.find?_eq_some_iff_append.mp found
  obtain ⟨-, tail, -⟩ := List.pairwise_append.mp sorted
  rcases List.mem_append.mp mem with mem | mem
  · simpa [late] using early trade mem
  · rcases List.mem_cons.mp mem with rfl | mem
    · exact le_refl _
    · exact (List.pairwise_cons.mp tail).1 trade mem

section Step

variable {windowMs first : Nat} {history : List (Trade ℚ)} {archive next : Archive}
  {trade : Trade ℚ}

theorem Placed.exact_kept (placed : Placed windowMs first history archive)
    (after : ∀ t ∈ history, timeOf t ≤ timeOf trade) {window : Completed}
    (mem : window ∈ archive.completed) (exactly : Exact windowMs history window) :
    Exact windowMs (history ++ [trade]) window := by
  obtain ⟨t, ht, reached⟩ := placed.ended window mem
  exact exact_of_late exactly (le_trans reached (after t ht))

theorem Placed.ended_kept (placed : Placed windowMs first history archive) {window : Completed}
    (mem : window ∈ archive.completed) :
    ∃ t ∈ history ++ [trade], window.start.toNat + windowMs ≤ timeOf t := by
  obtain ⟨t, ht, reached⟩ := placed.ended window mem
  exact ⟨t, List.mem_append_left _ ht, reached⟩

theorem forall_mem_snoc {P : Trade ℚ → Prop} (all : ∀ t ∈ history, P t) (last : P trade) :
    ∀ t ∈ history ++ [trade], P t := by
  intro t mem
  rcases List.mem_append.mp mem with mem | mem
  · exact all t mem
  · obtain rfl := List.mem_singleton.mp mem
    exact last

theorem Placed.first_snoc (placed : Placed windowMs first history archive)
    (after : ∀ t ∈ history, timeOf t ≤ timeOf trade) :
    ∀ t ∈ history ++ [trade], first ≤ timeOf t := by
  obtain ⟨u, hu, -⟩ := placed.opened
  exact forall_mem_snoc placed.first (le_trans (placed.first u hu) (after u hu))

theorem Placed.stay (placed : Placed windowMs first history archive)
    (after : ∀ t ∈ history, timeOf t ≤ timeOf trade)
    (inside : timeOf trade < archive.agg.windowStartMs.toNat + windowMs)
    (start : next.agg.windowStartMs = archive.agg.windowStartMs)
    (completed : next.completed = archive.completed) :
    Placed windowMs first (history ++ [trade]) next := by
  refine ⟨placed.first_snoc after, ?_, start ▸ placed.started, ?_, ?_, start ▸ placed.inRange⟩
  · rw [start]
    exact forall_mem_snoc placed.last inside
  · obtain ⟨u, hu, opened⟩ := placed.opened
    exact ⟨u, List.mem_append_left _ hu, start ▸ opened⟩
  · rw [completed]
    exact fun window mem => placed.ended_kept mem

theorem Placed.close (positive : 0 < windowMs) (placed : Placed windowMs first history archive)
    (after : ∀ t ∈ history, timeOf t ≤ timeOf trade) (below : timeOf trade < 2 ^ 63)
    (past : archive.agg.windowStartMs.toNat + windowMs ≤ timeOf trade)
    (start : next.agg.windowStartMs.toNat = alignedStart windowMs (timeOf trade))
    (completed : next.completed = archive.completed ++ [⟨archive.agg.windowStartMs,
      archive.agg.currentWindowVolume, archive.current⟩]) :
    Placed windowMs first (history ++ [trade]) next := by
  have inside := lt_alignedStart_add positive (timeOf trade)
  have early : alignedStart windowMs (timeOf trade) ≤ timeOf trade := Nat.sub_le _ _
  have whole := add_le_alignedStart (Nat.dvd_zero windowMs) (by omega : 0 + _ ≤ timeOf trade)
  refine ⟨placed.first_snoc after, ?_, by omega, ⟨trade, by simp, by omega⟩, ?_, by omega⟩
  · rw [start]
    exact forall_mem_snoc (fun t ht => lt_of_le_of_lt (after t ht) inside) inside
  · intro window mem
    rw [completed] at mem
    rcases List.mem_append.mp mem with mem | mem
    · exact placed.ended_kept mem
    · obtain rfl := List.mem_singleton.mp mem
      exact ⟨trade, by simp, past⟩

/-- A trade inside the open window leaves the stage as it is. -/
theorem Stage.stay (stage : Stage windowMs first history archive)
    (placed : Placed windowMs first history archive)
    (after : ∀ t ∈ history, timeOf t ≤ timeOf trade)
    (inside : timeOf trade < archive.agg.windowStartMs.toNat + windowMs)
    (start : next.agg.windowStartMs = archive.agg.windowStartMs)
    (current : next.current = archive.current ++ [trade])
    (completed : next.completed = archive.completed) :
    Stage windowMs first (history ++ [trade]) next := by
  cases stage with
  | opening nothing all start' =>
    exact .opening (completed.trans nothing) (current.trans (by rw [all]))
      (start ▸ start')
  | aligned window second one exactly found start' current' =>
    obtain ⟨mem, reached⟩ := found_spec found
    have past := le_trans reached (after second mem)
    refine .aligned window second (completed.trans one)
      (placed.exact_kept after (by simp [one]) exactly) (find?_kept found trade) (start ▸ start') ?_
    rw [current, current', start, between_append, between_singleton past inside]
  | later window overlapping rest second many exactly found start' counted multiple current' =>
    obtain ⟨t, ht, opened⟩ := placed.opened
    have late := le_trans opened (after t ht)
    obtain ⟨u, hu, ended⟩ := placed.ended overlapping (by simp [many])
    refine .later window overlapping rest second (completed.trans many) ?_
      (find?_kept found trade) start' ?_ (start ▸ multiple) ?_
    · intro w mem
      apply placed.exact_kept after ?_ (exactly w mem)
      rw [many]
      rcases List.mem_cons.mp mem with rfl | mem <;> simp [*]
    · rw [between_of_late (le_trans ended (after u hu)), counted]
    · rw [current, start, between_append, between_singleton late inside, ← current']

/-- A trade past the open window's end archives it. -/
theorem Stage.close (positive : 0 < windowMs) (stage : Stage windowMs first history archive)
    (placed : Placed windowMs first history archive)
    (after : ∀ t ∈ history, timeOf t ≤ timeOf trade)
    (past : archive.agg.windowStartMs.toNat + windowMs ≤ timeOf trade)
    (start : next.agg.windowStartMs.toNat = alignedStart windowMs (timeOf trade))
    (current : next.current = [trade])
    (completed : next.completed = archive.completed ++ [⟨archive.agg.windowStartMs,
      archive.agg.currentWindowVolume, archive.current⟩])
    (volume : archive.agg.currentWindowVolume = volumeOf archive.current) :
    Stage windowMs first (history ++ [trade]) next := by
  have before : ∀ t ∈ history, timeOf t < timeOf trade := fun t ht =>
    lt_of_lt_of_le (placed.last t ht) past
  have inside := lt_alignedStart_add positive (timeOf trade)
  have below : alignedStart windowMs (timeOf trade) ≤ timeOf trade := Nat.sub_le _ _
  have alone (beyond : archive.agg.windowStartMs.toNat + windowMs ≤
      alignedStart windowMs (timeOf trade)) : next.current =
        between next.agg.windowStartMs.toNat (next.agg.windowStartMs.toNat + windowMs)
          (history ++ [trade]) := by
    rw [current, start, between_append,
      between_eq_nil (fun t ht => lt_of_lt_of_le (placed.last t ht) beyond),
      between_singleton below inside]
    rfl
  cases stage with
  | opening nothing all start' =>
    refine .aligned _ trade (by rw [completed, nothing]; rfl) ⟨?_, volume⟩
      (find?_late (start' ▸ placed.last) (start' ▸ past)) start ?_
    · rw [between_of_late past, between_eq_self]
      · exact all
      · exact fun t ht => ⟨start' ▸ placed.first t ht, placed.last t ht⟩
    · rw [current, between_append, between_eq_nil (start' ▸ placed.last), start,
        between_singleton (start' ▸ past) inside]
      rfl
  | aligned window second one exactly found start' current' =>
    have multiple := start' ▸ dvd_alignedStart windowMs (timeOf second)
    have beyond := add_le_alignedStart multiple past
    refine .later window _ [] second (by rw [completed, one]; rfl) ?_ (find?_kept found trade)
      start' ?_ (start ▸ dvd_alignedStart _ _) ?_
    · intro w mem
      obtain rfl := List.mem_singleton.mp mem
      exact placed.exact_kept after (by simp [one]) exactly
    · rw [between_of_late past]
      exact current'
    · exact alone beyond
  | later window overlapping rest second many exactly found start' counted multiple current' =>
    have beyond := add_le_alignedStart multiple past
    obtain ⟨u, hu, ended⟩ := placed.ended overlapping (by simp [many])
    refine .later window overlapping (rest ++ [_]) second (by rw [completed, many]; rfl) ?_
      (find?_kept found trade) start' ?_ (start ▸ dvd_alignedStart _ _) ?_
    · intro w mem
      rw [← List.cons_append] at mem
      rcases List.mem_append.mp mem with mem | mem
      · apply placed.exact_kept after ?_ (exactly w mem)
        rw [many]
        rcases List.mem_cons.mp mem with rfl | mem <;> simp [*]
      · obtain rfl := List.mem_singleton.mp mem
        exact ⟨by rw [between_of_late past]; exact current', volume⟩
    · rw [between_of_late (le_trans ended (after u hu)), counted]
    · exact alone beyond

end Step

/-- Everything known of an archive once its first trade is there. -/
structure Tracks (windowMs : UInt64) (smaWindows first : Nat) (history : List (Trade ℚ))
    (archive : Archive) : Prop where
  kept : Kept windowMs smaWindows archive
  placed : Placed windowMs.toNat first history archive
  stage : Stage windowMs.toNat first history archive

theorem Tracks.step {windowMs : UInt64} {smaWindows first : Nat} {history : List (Trade ℚ)}
    {archive : Archive} {trade : Trade ℚ} (positive : windowMs ≠ 0)
    (tracks : Tracks windowMs smaWindows first history archive)
    (after : ∀ t ∈ history, timeOf t ≤ timeOf trade) (below : timeOf trade < 2 ^ 63) :
    ∃ next, add archive trade = some next ∧ archive.agg.update trade = some next.agg ∧
      Tracks windowMs smaWindows first (history ++ [trade]) next := by
  obtain ⟨kept, placed, stage⟩ := tracks
  obtain ⟨next, added, updated, kept', closed, stayed⟩ := add_kept positive kept trade
  obtain ⟨started, closes⟩ := closes_iff kept placed trade
  rw [started] at closed stayed
  have positive' := toNat_pos positive
  by_cases past : archive.agg.windowStartMs.toNat + windowMs.toNat ≤ timeOf trade
  · obtain ⟨start, current, completed⟩ := closed (closes.mpr past)
    have aligned := (congrArg UInt64.toNat start).trans (alignedStart_word _ _)
    exact ⟨next, added, updated, kept',
      placed.close positive' after below past aligned completed,
      stage.close positive' placed after past aligned current completed kept.current⟩
  · obtain ⟨start, current, completed⟩ := stayed (mt closes.mp past)
    have inside := not_le.mp past
    exact ⟨next, added, updated, kept', placed.stay after inside start completed,
      stage.stay placed after inside start current completed⟩

/-- The stage decides which windows are exact: only the second may be inexact. -/
theorem Tracks.exact_iff {windowMs : UInt64} {smaWindows first : Nat} {history : List (Trade ℚ)}
    {archive : Archive} (positive : 0 < windowMs.toNat)
    (sorted : history.Pairwise (fun a b => timeOf a ≤ timeOf b))
    (tracks : Tracks windowMs smaWindows first history archive) :
    (∀ window ∈ archive.completed, Exact windowMs.toNat history window) ↔
      ∀ second ∈ history.find? (fun trade => first + windowMs.toNat ≤ timeOf trade),
        (∃ third ∈ history,
          alignedStart windowMs.toNat (timeOf second) + windowMs.toNat ≤ timeOf third) →
        ∀ trade ∈ history, ¬ (alignedStart windowMs.toNat (timeOf second) ≤ timeOf trade ∧
          timeOf trade < first + windowMs.toNat) := by
  obtain ⟨kept, placed, stage⟩ := tracks
  cases stage with
  | opening nothing all start' =>
    refine iff_of_true (by simp [nothing]) ?_
    intro second found
    obtain ⟨mem, late⟩ := found_spec found
    have := placed.last second mem
    omega
  | aligned window second one exactly found start' current' =>
    refine iff_of_true (by simpa [one] using exactly) ?_
    rw [found]
    rintro _ ⟨⟩ ⟨third, mem, late⟩
    have := placed.last third mem
    omega
  | later window overlapping rest second many exactly found start' counted multiple current' =>
    obtain ⟨u, hu, ended⟩ := placed.ended overlapping (by simp [many])
    obtain ⟨-, late⟩ := found_spec found
    have width := lt_alignedStart_add positive (timeOf second)
    rw [found]
    constructor
    · rintro exact_all _ ⟨⟩ _ trade mem ⟨low, high⟩
      have shared : trade ∈ overlapping.counted := by
        rw [(exact_all overlapping (by simp [many])).1]
        exact List.mem_filter.mpr ⟨mem, decide_eq_true (by omega)⟩
      rw [counted] at shared
      have := of_decide_eq_true (List.mem_filter.mp shared).2
      omega
    · intro separated w mem
      have apart := separated second rfl ⟨u, hu, start' ▸ ended⟩
      rw [many, List.mem_cons, List.mem_cons] at mem
      rcases mem with rfl | rfl | mem
      · exact exactly _ (by simp)
      · refine ⟨counted.trans (List.filter_congr ?_), kept.volumes _ (by simp [many])⟩
        intro trade mem
        have := apart trade mem
        have := found_le sorted found mem
        have : alignedStart windowMs.toNat (timeOf second) ≤ timeOf second := Nat.sub_le _ _
        apply decide_eq_decide.mpr
        omega
      · exact exactly w (by simp [mem])

/-! ## Whole runs -/

/-- Archiving never fails, follows the aggregator and only adds windows. -/
theorem Kept.run {windowMs : UInt64} {smaWindows : Nat} {archive : Archive}
    (positive : windowMs ≠ 0) (kept : Kept windowMs smaWindows archive)
    (trades : List (Trade ℚ)) :
    ∃ final, addAll archive trades = some final ∧
      trades.foldlM TradeAggregator.update archive.agg = some final.agg ∧
      Kept windowMs smaWindows final ∧ archive.completed <+: final.completed := by
  induction trades generalizing archive with
  | nil => exact ⟨archive, rfl, rfl, kept, List.prefix_rfl⟩
  | cons trade rest ih =>
    obtain ⟨next, added, updated, kept', closed, stayed⟩ := add_kept positive kept trade
    obtain ⟨final, run, followed, kept'', grown⟩ := ih kept'
    refine ⟨final, ?_, ?_, kept'', List.IsPrefix.trans ?_ grown⟩
    · rw [addAll, List.foldlM_cons, added]
      exact run
    · rw [List.foldlM_cons, updated]
      exact followed
    · by_cases closes : Closes archive.agg trade.eventTimeMs
      · rw [(closed closes).2.2]
        exact List.prefix_append _ _
      · rw [(stayed closes).2.2]

theorem Tracks.run {windowMs : UInt64} {smaWindows first : Nat} {history : List (Trade ℚ)}
    {archive final : Archive} (positive : windowMs ≠ 0) (trades : List (Trade ℚ))
    (tracks : Tracks windowMs smaWindows first history archive)
    (sorted : (history ++ trades).Pairwise (fun a b => timeOf a ≤ timeOf b))
    (below : ∀ trade ∈ trades, timeOf trade < 2 ^ 63) (run : addAll archive trades = some final) :
    Tracks windowMs smaWindows first (history ++ trades) final := by
  induction trades generalizing history archive with
  | nil =>
    obtain rfl : archive = final := Option.some.inj run
    simpa using tracks
  | cons trade rest ih =>
    obtain ⟨-, -, after⟩ := List.pairwise_append.mp sorted
    obtain ⟨next, added, -, tracks'⟩ := tracks.step positive
      (fun t ht => after t ht trade List.mem_cons_self) (below trade List.mem_cons_self)
    rw [List.append_cons] at sorted ⊢
    apply ih tracks' sorted (fun t ht => below t (List.mem_cons_of_mem _ ht))
    rw [addAll, List.foldlM_cons, added] at run
    exact run

theorem kept_fresh (windowMs : UInt64) (smaWindows : Nat) :
    Kept windowMs smaWindows { agg := { windowMs, smaWindows } } :=
  ⟨rfl, rfl, rfl, by simp, by simp [lastOf]⟩

/-- The first trade closes a window only when the window's end is out of range. -/
theorem closes_fresh_iff {windowMs : UInt64} (positive : windowMs ≠ 0) (smaWindows : Nat)
    (trade : Trade ℚ) :
    Closes { windowMs, smaWindows } trade.eventTimeMs ↔
      2 ^ 64 ≤ timeOf trade + windowMs.toNat := by
  have width := toNat_pos positive
  have range := UInt64.toNat_lt windowMs
  have range' := UInt64.toNat_lt trade.eventTimeMs
  change trade.eventTimeMs + windowMs ≤ trade.eventTimeMs ↔ _
  rw [UInt64.le_iff_toNat_le, UInt64.toNat_add, timeOf]
  omega

theorem tracks_first {windowMs : UInt64} {smaWindows : Nat} {trade : Trade ℚ} {archive : Archive}
    (positive : windowMs ≠ 0) (time : 0 < timeOf trade)
    (range : timeOf trade + windowMs.toNat < 2 ^ 64)
    (added : add { agg := { windowMs, smaWindows } } trade = some archive) :
    Tracks windowMs smaWindows (timeOf trade) [trade] archive := by
  obtain ⟨next, added', -, kept, -, stayed⟩ :=
    add_kept positive (kept_fresh windowMs smaWindows) trade
  obtain rfl := Option.some.inj (added.symm.trans added')
  have opens := mt (closes_fresh_iff positive smaWindows trade).mp (not_le.mpr range)
  obtain ⟨start, current, completed⟩ := stayed opens
  have start' : archive.agg.windowStartMs.toNat = timeOf trade := congrArg UInt64.toNat start
  have width := toNat_pos positive
  refine ⟨kept, ⟨by simp, ?_, start' ▸ time, ⟨trade, by simp, le_of_eq start'⟩, ?_, ?_⟩,
    .opening completed current start'⟩
  · intro t mem
    obtain rfl := List.mem_singleton.mp mem
    omega
  · intro window mem
    rw [completed] at mem
    cases mem
  · rw [start']
    exact range

/-- A first window whose end is out of range is archived without its own trade. -/
theorem inexact_first {windowMs : UInt64} {smaWindows : Nat} {trade : Trade ℚ} {archive : Archive}
    (positive : windowMs ≠ 0) (range : 2 ^ 64 ≤ timeOf trade + windowMs.toNat)
    (added : add { agg := { windowMs, smaWindows } } trade = some archive)
    (rest : List (Trade ℚ)) :
    ∃ window ∈ archive.completed, ¬ Exact windowMs.toNat (trade :: rest) window := by
  obtain ⟨next, added', -, -, closed, -⟩ :=
    add_kept positive (kept_fresh windowMs smaWindows) trade
  obtain rfl := Option.some.inj (added.symm.trans added')
  obtain ⟨-, -, completed⟩ := closed ((closes_fresh_iff positive smaWindows trade).mpr range)
  have width := toNat_pos positive
  refine ⟨_, by rw [completed]; exact List.mem_append_right _ List.mem_cons_self, ?_⟩
  rintro ⟨counted, -⟩
  have inside : trade ∈ between (timeOf trade) (timeOf trade + windowMs.toNat) (trade :: rest) :=
    List.mem_filter.mpr ⟨List.mem_cons_self, decide_eq_true ⟨le_refl _, by omega⟩⟩
  change [] = between (timeOf trade) (timeOf trade + windowMs.toNat) (trade :: rest) at counted
  rw [← counted] at inside
  cases inside

/-- Over trades in time order, all archived windows hold exactly the trades of their
intervals if and only if the first two windows have no trade in common. -/
theorem completed_exact_iff (windowMs : UInt64) (smaWindows : Nat) (positive : windowMs ≠ 0)
    (history : List (Trade ℚ)) (sorted : history.Pairwise (fun a b => timeOf a ≤ timeOf b))
    (inRange : ∀ trade ∈ history, 0 < timeOf trade ∧ timeOf trade < 2 ^ 63) :
    ∃ archive, addAll { agg := { windowMs, smaWindows } } history = some archive ∧
      history.foldlM TradeAggregator.update { windowMs, smaWindows } = some archive.agg ∧
      archive.agg.completedVolumes =
        lastOf smaWindows (archive.completed.map Completed.volume) ∧
      ((∀ window ∈ archive.completed, Exact windowMs.toNat history window) ↔
        Separated windowMs.toNat history) := by
  obtain ⟨archive, run, followed, kept, grown⟩ :=
    (kept_fresh windowMs smaWindows).run positive history
  refine ⟨archive, run, followed, kept.recent, ?_⟩
  cases history with
  | nil =>
    obtain rfl := Option.some.inj run
    simp [Separated]
  | cons first rest =>
    obtain ⟨opened, added, -, kept', -⟩ :=
      add_kept positive (kept_fresh windowMs smaWindows) first
    obtain ⟨final, run', -, -, grown'⟩ := kept'.run positive rest
    obtain rfl : archive = final := by
      rw [addAll, List.foldlM_cons, added] at run
      exact Option.some.inj (run.symm.trans run')
    obtain ⟨time, -⟩ := inRange first List.mem_cons_self
    simp only [Separated, List.head?_cons, Option.mem_some_iff, forall_eq']
    by_cases range : timeOf first + windowMs.toNat < 2 ^ 64
    · have tracks := (tracks_first positive time range added).run positive rest sorted
        (fun t ht => (inRange t (List.mem_cons_of_mem _ ht)).2) run'
      exact (tracks.exact_iff (toNat_pos positive) sorted).trans (and_iff_right range).symm
    · obtain ⟨window, mem, inexact⟩ := inexact_first positive (not_lt.mp range) added rest
      exact iff_of_false (fun all => inexact (all window (grown'.subset mem)))
        (fun separated => range separated.1)

def tradeAt (eventTimeMs : UInt64) (quantity : ℚ) : Trade ℚ where
  eventTimeMs := eventTimeMs
  tradeId := 1
  symbol := []
  price := 1
  quantity := quantity
  isBuyerMaker := false

theorem completed_exact_iff_evenTrades :
    ∃ archive, addAll { agg := { windowMs := 100, smaWindows := 3 } }
      [tradeAt 50 5, tradeAt 150 3, tradeAt 250 7] = some archive ∧
      ∀ window ∈ archive.completed,
        Exact 100 [tradeAt 50 5, tradeAt 150 3, tradeAt 250 7] window := by
  obtain ⟨archive, run, -, -, iff⟩ := completed_exact_iff 100 3 (by decide)
    [tradeAt 50 5, tradeAt 150 3, tradeAt 250 7] (by decide) (by decide)
  refine ⟨archive, run, iff.mpr ?_⟩
  unfold Separated
  decide +kernel

/-- The second window, of [2000, 3000), lacks the trade at 2200. -/
theorem second_window_incomplete :
    ∃ archive, addAll { agg := { windowMs := 1000, smaWindows := 20 } }
      [tradeAt 1500 1, tradeAt 2200 1, tradeAt 2600 1, tradeAt 3000 1] = some archive ∧
      archive.agg.completedVolumes = [2, 1] ∧
      (⟨2000, 1, [tradeAt 2600 1]⟩ : Completed) ∈ archive.completed ∧
      volumeOf (between 2000 3000
        [tradeAt 1500 1, tradeAt 2200 1, tradeAt 2600 1, tradeAt 3000 1]) = 2 ∧
      ¬ Exact 1000 [tradeAt 1500 1, tradeAt 2200 1, tradeAt 2600 1, tradeAt 3000 1]
        ⟨2000, 1, [tradeAt 2600 1]⟩ := by
  refine ⟨_, rfl, by decide +kernel, by decide +kernel, by decide +kernel, ?_⟩
  rintro ⟨counted, -⟩
  revert counted
  decide +kernel

end CompletedWindows
