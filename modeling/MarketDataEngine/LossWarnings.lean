import MarketDataEngine.LiveSession
import MarketDataEngine.LossyReplica
import MarketDataEngine.SequenceGaps

/-!
# Warnings about lost messages

The exchange numbers its updates of a symbol without holes. What the queue drops or the parser
refuses leaves a hole in the ids, and the book warns about it at the next update that gets
through, with the number of ids that are missing. Between two updates that got through there
is no other warning, and no hole without one.
-/

namespace LossWarnings

open MarketTypes LiveMain LiveSession LossyReplica SequenceGaps

/-! ## Ids without holes -/

/-- The ids that an update carries, from the first to the last. -/
structure Ids where
  first : Nat
  last : Nat
  deriving DecidableEq

/-- The update begins with the id after the last one of the update before it. -/
def Next (previous ids : Ids) : Prop := ids.first = previous.last + 1

/-- No id is 0 or the largest word. -/
structure Numbered (ids : Ids) : Prop where
  positive : 0 < ids.first
  ordered : ids.first ≤ ids.last
  room : ids.last < 2 ^ 64 - 1

/-- The ids of the updates that the exchange sends of one symbol. -/
structure Contiguous (stream : List Ids) : Prop where
  numbered : ∀ ids ∈ stream, Numbered ids
  chain : stream.IsChain Next

instance (ids : Ids) : Decidable (Numbered ids) :=
  decidable_of_iff (0 < ids.first ∧ ids.first ≤ ids.last ∧ ids.last < 2 ^ 64 - 1)
    ⟨fun h => ⟨h.1, h.2.1, h.2.2⟩, fun h => ⟨h.positive, h.ordered, h.room⟩⟩

instance (previous ids : Ids) : Decidable (Next previous ids) :=
  inferInstanceAs (Decidable (_ = _))

instance (stream : List Ids) : Decidable (Contiguous stream) :=
  decidable_of_iff ((∀ ids ∈ stream, Numbered ids) ∧ stream.IsChain Next)
    ⟨fun h => ⟨h.1, h.2⟩, fun h => ⟨h.numbered, h.chain⟩⟩

/-- How many ids an update carries. -/
def Ids.count (ids : Ids) : Nat := ids.last + 1 - ids.first

def idsOf (update : DepthUpdate ℚ) : Ids :=
  ⟨update.firstUpdateId.toNat, update.lastUpdateId.toNat⟩

/-- The ids between two updates are those of the updates between them. -/
theorem ids_between {previous ids : Ids} {lost : List Ids}
    (numbered : ∀ between ∈ lost, Numbered between)
    (chain : (previous :: (lost ++ [ids])).IsChain Next) :
    ids.first = previous.last + 1 + (lost.map Ids.count).sum := by
  induction lost generalizing previous with
  | nil => exact (List.isChain_cons_cons.mp chain).1
  | cons between lost ih =>
    obtain ⟨next, rest⟩ := List.isChain_cons_cons.mp chain
    obtain ⟨here, others⟩ := List.forall_mem_cons.mp numbered
    have ordered := here.ordered
    rw [ih others rest, List.map_cons, List.sum_cons, Ids.count]
    unfold Next at next
    omega

theorem count_pos {ids : Ids} (numbered : Numbered ids) : 0 < ids.count := by
  have := numbered.ordered
  unfold Ids.count
  omega

theorem sum_count_pos {lost : List Ids} (numbered : ∀ between ∈ lost, Numbered between)
    (some' : lost ≠ []) : 0 < (lost.map Ids.count).sum := by
  obtain ⟨between, rest, rfl⟩ := List.exists_cons_of_ne_nil some'
  rw [List.map_cons, List.sum_cons]
  exact Nat.add_pos_left (count_pos (numbered between List.mem_cons_self)) _

/-- An exact warning about the ids between two updates of a contiguous stream. -/
theorem exact_between {report : Option UInt64} {previous update : DepthUpdate ℚ}
    {lost : List Ids} (numbered : ∀ between ∈ lost, Numbered between)
    (chain : (idsOf previous :: (lost ++ [idsOf update])).IsChain Next)
    (exact : Exact report (Missing [previous] update)) :
    (lost = [] → report = none) ∧
      (lost ≠ [] → ∃ size, report = some size ∧ size.toNat = (lost.map Ids.count).sum) := by
  have between : update.firstUpdateId.toNat =
      previous.lastUpdateId.toNat + 1 + (lost.map Ids.count).sum := ids_between numbered chain
  rw [missing_single] at exact
  obtain ⟨warned, counts⟩ := exact
  constructor
  · rintro rfl
    rw [Option.eq_none_iff_forall_ne_some]
    rintro size rfl
    obtain ⟨id, above, below⟩ := warned.mp rfl
    rw [between] at below
    exact absurd below (Nat.not_lt_of_le above)
  · intro some'
    have positive := sum_count_pos numbered some'
    have missing : (Set.Ioo previous.lastUpdateId.toNat update.firstUpdateId.toNat).Nonempty := by
      refine ⟨previous.lastUpdateId.toNat + 1, Nat.lt_succ_self _, ?_⟩
      omega
    obtain ⟨size, same⟩ := Option.isSome_iff_exists.mp (warned.mpr missing)
    refine ⟨size, same, ?_⟩
    rw [counts size same, ncard_Ioo, between]
    omega

/-! ## The warnings of a run -/

/-- What the warnings of a book say about the stream of which it got a part. -/
def Warned (fates : List (Ids × Bool)) (reports : List (Option UInt64)) : Prop :=
  ∀ before previous lost ids after,
    fates = before ++ (previous, true) :: (lost ++ (ids, true) :: after) →
    (∀ fate ∈ lost, fate.2 = false) →
    ∃ report, reports[(keptOf before).length + 1]? = some report ∧
      (lost = [] → report = none) ∧
      (lost ≠ [] →
        ∃ size, report = some size ∧ size.toNat = ((lost.map Prod.fst).map Ids.count).sum)

theorem warned_reportAll (symbol : Symbol) {fates : List (Ids × Bool)}
    (contiguous : Contiguous (fates.map Prod.fst)) {updates : List (DepthUpdate ℚ)}
    (through : keptOf fates = updates.map idsOf) {book : OrderBook}
    {reports : List (Option UInt64)} (run : reportAll { symbol } updates = some (book, reports)) :
    Warned fates reports := by
  rintro before previous lost ids after rfl all
  rw [keptOf_append, keptOf_cons_true, keptOf_append, keptOf_lost all, keptOf_cons_true,
    List.nil_append] at through
  obtain ⟨front, back, rfl, earlier, later⟩ := List.map_eq_append_iff.mp through.symm
  obtain ⟨update, back', rfl, rfl, next⟩ := List.map_eq_cons_iff.mp later
  obtain ⟨update', rest, rfl, rfl, -⟩ := List.map_eq_cons_iff.mp next
  have whole : (before ++ (idsOf update, true) ::
        (lost ++ (idsOf update', true) :: after)).map Prod.fst =
      before.map Prod.fst ++ (idsOf update :: (lost.map Prod.fst ++ [idsOf update'])) ++
        after.map Prod.fst := by
    simp
  rw [whole] at contiguous
  have part : idsOf update :: (lost.map Prod.fst ++ [idsOf update']) <:+:
      before.map Prod.fst ++ (idsOf update :: (lost.map Prod.fst ++ [idsOf update'])) ++
        after.map Prod.fst := ⟨_, _, rfl⟩
  have chain := List.IsChain.infix contiguous.chain part
  have numbered : ∀ i ∈ idsOf update :: (lost.map Prod.fst ++ [idsOf update']), Numbered i :=
    fun i mem => contiguous.numbered i (part.subset mem)
  have first := numbered (idsOf update) List.mem_cons_self
  have length : (keptOf before).length = front.length := by
    rw [← earlier, List.length_map]
  obtain ⟨report, found, -, exact⟩ := (reported_reportAll symbol run).warnings front.length
    update update' (by simp) (by simp)
  obtain ⟨silent, counted⟩ := exact_between
    (fun i mem => numbered i (List.mem_cons_of_mem _ (List.mem_append_left _ mem))) chain
    (exact (Nat.lt_of_lt_of_le first.positive first.ordered) first.room)
  refine ⟨report, length ▸ found, fun none => silent (List.map_eq_nil_iff.mpr none),
    fun some' => ?_⟩
  exact counted (fun none => some' (List.map_eq_nil_iff.mp none))

/-! ## The live run -/

/-- The ids that a message has in its text. -/
def idsIn (message : RawMessage) : Option Ids :=
  (StrictAcceptance.payload message).bind (fun doc =>
    ((doc.field? (ascii "U")).bind Json.getUint64).bind (fun first =>
      ((doc.field? (ascii "u")).bind Json.getUint64).map (fun last =>
        ⟨first.toNat, last.toNat⟩)))

/-- The ids with which the exchange sent an update of the symbol. -/
def announced (symbol : Symbol) (arrival : Arrival) : Option Ids :=
  if Updates symbol arrival.sent then idsIn arrival.sent else none

/-- What the parser makes of a clean arrival has the ids that were sent. -/
theorem ids_of_parse {strtod : List UInt8 → Double} {arrival : Arrival}
    {item : QueueMessage Double} (clean : CleanArrival strtod arrival)
    (h : parse strtod arrival = some item) (symbol : Symbol) :
    (RecordReplay.depthFor symbol item).map idsOf = announced symbol arrival := by
  have intact := clean.intact h
  have wellFormed := clean.wellFormed
  rw [announced]
  rw [← intact] at wellFormed ⊢
  by_cases hasTrade : MessageRouting.HasTrade arrival.message
  · obtain ⟨-, none⟩ := parse_trade hasTrade h
    rw [none, if_neg (fun updates => updates.1 hasTrade)]
    rfl
  · obtain ⟨depth, same, -, named, -⟩ := parse_depth hasTrade (wellFormed hasTrade) h
    obtain ⟨doc, mem, whole, same'⟩ := parse_whole hasTrade (wellFormed hasTrade) h
    obtain ⟨-, first, last, -⟩ := DepthParser.extract_scalars strtod doc
      { MessageRouting.defaultDepth with tsReceived := arrival.received }
    obtain ⟨firstId, found⟩ := Option.ne_none_iff_exists'.mp whole.first
    obtain ⟨lastId, found'⟩ := Option.ne_none_iff_exists'.mp whole.last
    rw [found, Option.getD_some] at first
    rw [found', Option.getD_some] at last
    have ids : idsIn arrival.message = some ⟨firstId.toNat, lastId.toNat⟩ := by
      rw [idsIn, Option.mem_def.mp mem, Option.bind_some, found, Option.bind_some, found',
        Option.map_some]
    subst same
    by_cases own : depth.symbol = symbol
    · have updates : Updates symbol arrival.message := ⟨hasTrade, own ▸ named⟩
      rw [if_pos updates, ids, RecordReplay.depthFor, if_pos own]
      cases same'
      rw [Option.map_some, idsOf]
      exact congrArg some (congrArg₂ Ids.mk (congrArg UInt64.toNat first)
        (congrArg UInt64.toNat last))
    · have other : ¬ Updates symbol arrival.message :=
        fun updates => own (Option.some.inj (named.symm.trans updates.2))
      rw [if_neg other, RecordReplay.depthFor, if_neg own]
      rfl

/-- The book of a run, with the warnings it gave on the way. -/
theorem reportAll_of_advance {symbol : Symbol} {updates : List (DepthUpdate ℚ)}
    {parts : OrderBook × Aggregator}
    (h : updates.foldlM ProcessingThread.advanceBook ({ symbol }, {}) = some parts) :
    ∃ reports, reportAll { symbol } updates = some (parts.1, reports) := by
  induction updates using List.reverseRecOn generalizing parts with
  | nil =>
    cases h
    exact ⟨[], rfl⟩
  | append_singleton updates update ih =>
    obtain ⟨mid, before, last⟩ := Transition.foldlM_snoc_some.mp h
    obtain ⟨reports, earlier⟩ := ih before
    exact ⟨_, reportAll_snoc.mpr ⟨mid.1, reports, earlier, applied_of_advance last, rfl⟩⟩

/-- The updates that were processed have the ids that were sent of what was kept. -/
theorem filterMap_kept {strtod : List UInt8 → Double} (symbol : Symbol) {kept : List Arrival}
    {processed : List (QueueMessage Double)}
    (same : kept.map (parse strtod) = processed.map some) (clean : Clean strtod kept) :
    kept.filterMap (announced symbol) = (updatesOf symbol processed).map idsOf := by
  induction kept generalizing processed with
  | nil =>
    obtain rfl := List.map_eq_nil_iff.mp same.symm
    rfl
  | cons arrival rest ih =>
    obtain ⟨first, others⟩ := List.forall_mem_cons.mp clean
    cases processed with
    | nil => cases same
    | cons item items =>
      obtain ⟨parsed, later⟩ := List.cons.inj same
      have ids := ids_of_parse first parsed symbol
      rw [updatesOf_cons, List.map_append, ← ih later others]
      cases found : announced symbol arrival with
      | none =>
        rw [found, Option.map_eq_none_iff] at ids
        rw [List.filterMap_cons_none found, ids]
        rfl
      | some sent =>
        obtain ⟨depth, own, rfl⟩ := Option.map_eq_some_iff.mp (ids.trans found)
        rw [List.filterMap_cons_some found, own]
        rfl

/-- Fewer messages in between cannot make more updates missing. -/
theorem length_filterMap_sublist (announced : Arrival → Option Ids)
    {kept arrivals : List Arrival} (part : kept.Sublist arrivals) :
    (arrivals.filterMap announced).length + kept.length ≤
      (kept.filterMap announced).length + arrivals.length := by
  induction part with
  | slnil => exact Nat.le_refl _
  | cons arrival _ ih =>
    cases found : announced arrival with
    | none => simp only [List.filterMap_cons_none found, List.length_cons]; omega
    | some update => simp only [List.filterMap_cons_some found, List.length_cons]; omega
  | cons_cons arrival _ ih =>
    cases found : announced arrival with
    | none => simp only [List.filterMap_cons_none found, List.length_cons]; omega
    | some update => simp only [List.filterMap_cons_some found, List.length_cons]; omega

/-- Three updates without levels, of which the second one is cut on its way. -/
def lossyArrivals : List Arrival :=
  let message first last := LiveBook.depthMessage first last []
  [⟨message "1" "10", message "1" "10", 3, 5⟩, ⟨message "11" "12", cutMessage, 4, 6⟩,
    ⟨message "13" "14", message "13" "14", 5, 7⟩]

theorem lossyArrivals_clean : Clean sampleStrtod lossyArrivals := by
  have whole : ∀ {first last : String}, Json.getUint64 (.number (ascii first)) ≠ none →
      Json.getUint64 (.number (ascii last)) ≠ none →
      ¬ (LiveBook.depthMessage first last []).Combined → ∀ {arrival : Arrival},
      arrival.sent = LiveBook.depthMessage first last [] →
      arrival.message = arrival.sent ∨ arrival.message.value = none →
      CleanArrival sampleStrtod arrival := by
    intro first last firstId lastId plain arrival sent read
    refine ⟨read, fun _ => ?_, fun _ => sampleStrtod_finite _⟩
    rw [sent]
    exact LiveBook.wellFormed_depthMessage firstId lastId (List.forall_mem_nil _) plain
  simp only [Clean, lossyArrivals, List.forall_mem_cons]
  exact ⟨whole (by decide) (by decide) (by decide +kernel) rfl (Or.inl rfl),
    whole (by decide) (by decide) (by decide +kernel) rfl (Or.inr rfl),
    whole (by decide) (by decide) (by decide +kernel) rfl (Or.inl rfl), List.forall_mem_nil _⟩

/-- The three arrivals are read, and the program is told to end. -/
def lossyActions : List (Action Arrival (QueueMessage Double)) :=
  let feed := Action.feed .blank
  let process := Action.process .blank
  match lossyArrivals with
  | [first, second, third] =>
    [feed, feed, .connected, feed, feed, .receive first] ++ List.replicate 8 feed ++
      [.receive second] ++ List.replicate 3 feed ++ [.receive third] ++ List.replicate 6 feed ++
      [.signal, feed, feed] ++ List.replicate 16 process ++ List.replicate 6 .main
  | _ => []

end LossWarnings
