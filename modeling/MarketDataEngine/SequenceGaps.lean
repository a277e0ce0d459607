import MarketDataEngine.OrderBook
import MarketDataEngine.Transition
import Mathlib.Order.Interval.Finset.Nat

/-!
# Sequence gaps

`apply_update` warns about a gap by comparing the first id of an update with the
one last id it remembers, that of the update applied just before; 0 stands for
none. This module says what such a warning means for the ids themselves, and when
it speaks about all updates applied so far. Nothing is said about a remembered id
of 2^64 - 1, whose successor wraps.
-/

open MarketTypes

namespace SequenceGaps

/-- Updates applied one after the other, with what each was warned about. -/
def applyReporting (state : OrderBook × List (Option UInt64)) (update : DepthUpdate ℚ) :
    Option (OrderBook × List (Option UInt64)) :=
  (state.1.applyUpdate update).map (fun book =>
    (book, state.2 ++ [state.1.sequenceGap update]))

def reportAll (book : OrderBook) (updates : List (DepthUpdate ℚ)) :
    Option (OrderBook × List (Option UInt64)) :=
  updates.foldlM applyReporting (book, [])

/-- The ids above every last id seen before and below the first id of an update. -/
def Missing (earlier : List (DepthUpdate ℚ)) (update : DepthUpdate ℚ) : Set Nat :=
  fun id => (∀ e ∈ earlier, e.lastUpdateId.toNat < id) ∧ id < update.firstUpdateId.toNat

/-- A warning is given exactly when ids are missing, and counts them. -/
def Exact (report : Option UInt64) (missing : Set Nat) : Prop :=
  (report.isSome ↔ missing.Nonempty) ∧ ∀ size, report = some size → size.toNat = missing.ncard

theorem missing_single (previous update : DepthUpdate ℚ) :
    Missing [previous] update =
      Set.Ioo previous.lastUpdateId.toNat update.firstUpdateId.toNat := by
  ext id
  exact and_congr_left fun _ => List.forall_mem_singleton

/-- Against the largest last id so far, the ids missing are those missing from all. -/
theorem missing_of_latest {earlier : List (DepthUpdate ℚ)} {previous : DepthUpdate ℚ}
    (mem : previous ∈ earlier)
    (latest : ∀ e ∈ earlier, e.lastUpdateId.toNat ≤ previous.lastUpdateId.toNat)
    (update : DepthUpdate ℚ) : Missing earlier update = Missing [previous] update := by
  rw [missing_single]
  ext id
  refine and_congr_left fun _ => ⟨fun above => above previous mem, ?_⟩
  intro above e he
  exact Nat.lt_of_le_of_lt (latest e he) above

theorem ncard_Ioo (a b : Nat) : (Set.Ioo a b).ncard = b - a - 1 := by
  rw [← Finset.coe_Ioo, Set.ncard_coe_finset, Nat.card_Ioo]

/-- A remembered id that is neither 0 nor the largest word makes the warning exact. -/
theorem sequenceGap_exact {book : OrderBook} {previous : DepthUpdate ℚ}
    (remembered : book.lastUpdateId = previous.lastUpdateId)
    (some' : 0 < previous.lastUpdateId.toNat) (room : previous.lastUpdateId.toNat < 2 ^ 64 - 1)
    (update : DepthUpdate ℚ) : Exact (book.sequenceGap update) (Missing [previous] update) := by
  have successor : (previous.lastUpdateId + 1).toNat = previous.lastUpdateId.toNat + 1 := by
    rw [UInt64.toNat_add]
    exact Nat.mod_eq_of_lt (by simpa using Nat.add_lt_of_lt_sub room)
  rw [missing_single]
  unfold OrderBook.sequenceGap
  rw [remembered]
  by_cases gap : previous.lastUpdateId.toNat + 1 < update.firstUpdateId.toNat
  · have warned : previous.lastUpdateId > 0 ∧
        update.firstUpdateId > previous.lastUpdateId + 1 := by
      refine ⟨UInt64.lt_iff_toNat_lt.mpr some', ?_⟩
      apply UInt64.lt_iff_toNat_lt.mpr
      omega
    rw [if_pos warned]
    constructor
    · refine iff_of_true rfl ⟨previous.lastUpdateId.toNat + 1, ?_, gap⟩
      exact Nat.lt_succ_self _
    · rintro size same
      cases same
      rw [ncard_Ioo, UInt64.toNat_sub_of_le, UInt64.toNat_sub_of_le]
      · rfl
      · apply UInt64.le_iff_toNat_le.mpr
        omega
      · rw [UInt64.le_iff_toNat_le, UInt64.toNat_sub_of_le]
        · change 1 ≤ _
          omega
        · apply UInt64.le_iff_toNat_le.mpr
          omega
  · have silent : ¬ (previous.lastUpdateId > 0 ∧
        update.firstUpdateId > previous.lastUpdateId + 1) := by
      rintro ⟨-, above⟩
      have := UInt64.lt_iff_toNat_lt.mp above
      omega
    rw [if_neg silent]
    constructor
    · refine iff_of_false (by simp) ?_
      rintro ⟨id, above, below⟩
      omega
    · rintro size same
      cases same

/-- A remembered 0 is taken for no earlier update. -/
theorem sequenceGap_none {book : OrderBook} (none : book.lastUpdateId = 0)
    (update : DepthUpdate ℚ) : book.sequenceGap update = Option.none := by
  unfold OrderBook.sequenceGap
  rw [none]
  exact if_neg (fun warned => absurd warned.1 (by decide))

theorem reportAll_snoc {book last : OrderBook} {updates : List (DepthUpdate ℚ)}
    {update : DepthUpdate ℚ} {reports : List (Option UInt64)} :
    reportAll book (updates ++ [update]) = some (last, reports) ↔
      ∃ mid before, reportAll book updates = some (mid, before) ∧
        mid.applyUpdate update = some last ∧ reports = before ++ [mid.sequenceGap update] := by
  refine Transition.foldlM_snoc_some.trans ?_
  simp only [applyReporting, Option.map_eq_some_iff]
  constructor
  · rintro ⟨⟨mid, before⟩, hmid, book, applied, same⟩
    cases same
    exact ⟨mid, before, hmid, applied, rfl⟩
  · rintro ⟨mid, before, hmid, applied, rfl⟩
    exact ⟨(mid, before), hmid, last, applied, rfl⟩

theorem applyUpdate_lastUpdateId {book next : OrderBook} {update : DepthUpdate ℚ}
    (applied : book.applyUpdate update = some next) : next.lastUpdateId = update.lastUpdateId := by
  simp only [OrderBook.applyUpdate, Option.bind_eq_bind, Option.bind_eq_some_iff,
    Option.pure_def, Option.some.injEq] at applied
  obtain ⟨_, -, _, -, rfl⟩ := applied
  rfl

/-- What the warnings of a run say: nothing after a last id of 0, and otherwise the ids
between the update and the one before it. -/
structure Reported (updates : List (DepthUpdate ℚ)) (book : OrderBook)
    (reports : List (Option UInt64)) : Prop where
  length : reports.length = updates.length
  remembered : ∀ previous, updates.getLast? = some previous →
    book.lastUpdateId = previous.lastUpdateId
  warnings : ∀ i previous update, updates[i]? = some previous → updates[i + 1]? = some update →
    ∃ report, reports[i + 1]? = some report ∧
      (previous.lastUpdateId = 0 → report = none) ∧
      (0 < previous.lastUpdateId.toNat → previous.lastUpdateId.toNat < 2 ^ 64 - 1 →
        Exact report (Missing [previous] update))

theorem reported_reportAll (symbol : Symbol) {updates : List (DepthUpdate ℚ)} {book : OrderBook}
    {reports : List (Option UInt64)}
    (run : reportAll { symbol } updates = some (book, reports)) :
    Reported updates book reports := by
  induction updates using List.reverseRecOn generalizing book reports with
  | nil =>
    cases run
    refine ⟨rfl, ?_, ?_⟩
    · rintro previous found
      cases found
    · rintro i previous update found
      cases found
  | append_singleton updates last ih =>
    obtain ⟨mid, before, hmid, applied, rfl⟩ := reportAll_snoc.mp run
    obtain ⟨length, remembered, warnings⟩ := ih hmid
    refine ⟨by simp [length], ?_, ?_⟩
    · rintro previous found
      obtain rfl : last = previous := by simpa using found
      exact applyUpdate_lastUpdateId applied
    · rintro i previous update hprevious hupdate
      rcases Nat.lt_or_ge (i + 1) updates.length with inside | beyond
      · rw [List.getElem?_append_left inside] at hupdate
        rw [List.getElem?_append_left (Nat.lt_of_succ_lt inside)] at hprevious
        rw [List.getElem?_append_left (length ▸ inside)]
        exact warnings i previous update hprevious hupdate
      · have end' : i + 1 = updates.length := by
          have bound := (List.getElem?_eq_some_iff.mp hupdate).1
          rw [List.length_append, List.length_singleton] at bound
          omega
        rw [end', List.getElem?_concat_length] at hupdate
        cases hupdate
        rw [List.getElem?_append_left (by omega)] at hprevious
        have same : mid.lastUpdateId = previous.lastUpdateId := by
          apply remembered previous
          rw [List.getLast?_eq_getElem?, ← end', Nat.add_sub_cancel]
          exact hprevious
        refine ⟨mid.sequenceGap last, by rw [end', ← length, List.getElem?_concat_length], ?_, ?_⟩
        · exact fun zero => sequenceGap_none (same.trans zero) last
        · exact fun positive room => sequenceGap_exact same positive room last

/-- For every sequence of updates applied to a fresh book, at every update but the first:
after a last id of 0 there is no warning; otherwise a warning is given exactly when ids
lie between the last id of the update before it and its own first id, and counts them.
Where no update before that one had a larger last id, these are the ids that no update
so far has reached. -/
theorem gaps_exact (symbol : Symbol) {updates : List (DepthUpdate ℚ)} {book : OrderBook}
    {reports : List (Option UInt64)}
    (run : reportAll { symbol } updates = some (book, reports)) (i : Nat)
    (previous update : DepthUpdate ℚ) (hprevious : updates[i]? = some previous)
    (hupdate : updates[i + 1]? = some update) :
    ∃ report, reports[i + 1]? = some report ∧
      (previous.lastUpdateId = 0 → report = none) ∧
      (0 < previous.lastUpdateId.toNat → previous.lastUpdateId.toNat < 2 ^ 64 - 1 →
        Exact report (Missing [previous] update) ∧
        ((∀ e ∈ updates.take (i + 1), e.lastUpdateId.toNat ≤ previous.lastUpdateId.toNat) →
          Exact report (Missing (updates.take (i + 1)) update))) := by
  obtain ⟨report, found, zero, exact⟩ :=
    (reported_reportAll symbol run).warnings i previous update hprevious hupdate
  refine ⟨report, found, zero, fun positive room => ⟨exact positive room, fun latest => ?_⟩⟩
  have mem : previous ∈ updates.take (i + 1) := by
    apply List.mem_of_getElem? (i := i)
    rw [List.getElem?_take_of_lt (Nat.lt_succ_self i), hprevious]
  rw [missing_of_latest mem latest]
  exact exact positive room

/-- An update without levels. -/
def idsOnly (first last : UInt64) : DepthUpdate ℚ where
  eventTimeMs := 1000
  firstUpdateId := first
  lastUpdateId := last
  symbol := []
  bids := Vector.replicate maxLevels ⟨0, 0⟩
  asks := Vector.replicate maxLevels ⟨0, 0⟩
  bidCount := 0
  askCount := 0

/-- The last of three updates, one of them late, is said to skip five ids that the first
one has brought. -/
theorem late_update_reported : ∃ book reports,
    reportAll { symbol := [] } [idsOnly 1 10, idsOnly 3 5, idsOnly 11 12] =
        some (book, reports) ∧
      reports[2]? = some (some 5) ∧ Missing [idsOnly 1 10, idsOnly 3 5] (idsOnly 11 12) = ∅ := by
  have computed : (reportAll { symbol := [] } [idsOnly 1 10, idsOnly 3 5, idsOnly 11 12]).map
      Prod.snd = some [none, none, some 5] := by decide +kernel
  obtain ⟨⟨book, reports⟩, run, rfl⟩ := Option.map_eq_some_iff.mp computed
  refine ⟨book, _, run, rfl, ?_⟩
  apply Set.eq_empty_of_forall_notMem
  rintro id ⟨above, below⟩
  have first := above (idsOnly 1 10) List.mem_cons_self
  change 10 < id at first
  change id < 11 at below
  omega

theorem gaps_exact_idsOnly : ∃ book reports report,
    reportAll { symbol := [] } [idsOnly 1 10, idsOnly 13 14] = some (book, reports) ∧
      reports[1]? = some report ∧ Exact report (Missing [idsOnly 1 10] (idsOnly 13 14)) := by
  have computed : (reportAll { symbol := [] } [idsOnly 1 10, idsOnly 13 14]).isSome = true := by
    decide +kernel
  obtain ⟨⟨book, reports⟩, run⟩ := Option.isSome_iff_exists.mp computed
  obtain ⟨report, found, -, exact⟩ :=
    gaps_exact [] run 0 (idsOnly 1 10) (idsOnly 13 14) rfl rfl
  exact ⟨book, reports, report, run, found, (exact (by decide) (by decide)).1⟩

end SequenceGaps
