import MarketDataEngine.LiveBook
import MarketDataEngine.LiveMain
import MarketDataEngine.MessageRouting
import MarketDataEngine.RecordReplay

/-!
# From the exchange to the book

The program in live mode from one end to the other: the raw messages that the exchange sends,
through the parsers, the queue and the processing loop, to the books that the monitoring
servers show. The counters of the feed thread say how many messages are missing in the books.
-/

namespace LiveSession

open Transition MarketTypes LiveMain
open Pipeline (producerStep_acted consumerStep_handled reachable_handled)
open MessageConservation

universe u v

/-! ## The messages given to the program -/

section Account
variable {Raw : Type u} {T : Type v} {cfg : ReconnectConfig} {parse : Raw → Option T}
  {recording : Bool} {cap : SpscQueue.Capacity} {blank : T}

/-- What an action of the program is to the threads behind the main thread. -/
def behind : Action Raw T → Option (Pipeline.Action (FeedHandler.Action Raw T) T)
  | .feed left => some (.producer (.step left))
  | .connected => some (.producer .connected)
  | .failed => some (.producer .failed)
  | .receive raw => some (.producer (.receive raw))
  | .process left => some (.consumer left)
  | .main => none
  | .signal => some .shutdown

/-- The raw messages that the exchange sent in a run. -/
def given (as : List (Action Raw T)) : List Raw := received (as.filterMap behind)

theorem given_snoc (as : List (Action Raw T)) (a : Action Raw T) :
    given (as ++ [a]) = given as ++ received (behind a).toList := by
  cases act : behind a with
  | none =>
    rw [given, List.filterMap_append, List.filterMap_cons_none act]
    simp [given, received]
  | some b =>
    rw [given, List.filterMap_append, List.filterMap_cons_some act]
    exact received_snoc _ b

/-- A step of the threads gives at most one message an outcome. -/
theorem threads_account {threads threads' : Threads Raw T}
    {b : Pipeline.Action (FeedHandler.Action Raw T) T} {raws : List Raw}
    {outcomes : List (Raw × Outcome)}
    (reached : (Pipeline.machine (WsClient.producer cfg parse) cap blank).Reachable threads)
    (account : Account parse raws outcomes threads.queue threads.producer.feed)
    (h : Pipeline.next (WsClient.producer cfg parse) cap threads b = some threads') :
    ∃ outcomes,
      Account parse (raws ++ received [b]) outcomes threads'.queue threads'.producer.feed := by
  cases b with
  | producer a =>
    obtain ⟨client, act, queue, moves, acted, rfl⟩ := producerStep_acted h
    change ∃ outcomes, Account parse _ outcomes queue client.feed
    rcases WsClient.next_cases moves with ⟨waited, rfl, left, rfl⟩ | ⟨feed, stepped, rfl, -⟩
    · obtain rfl : queue = threads.queue := acted
      rw [WsClient.waitStep_feed waited]
      exact ⟨outcomes, (List.append_nil raws).symm ▸ account⟩
    · rw [WsClient.follow_feed]
      exact next_account account stepped acted
  | consumer left =>
    obtain ⟨-, pushed, pushPc, same, -⟩ := consumerStep_handled (reachable_handled reached) h
    rw [same]
    exact ⟨outcomes, (List.append_nil raws).symm ▸
      account.move rfl rfl rfl rfl (by rw [pushed, pushPc]) id⟩
  | shutdown =>
    cases h
    exact ⟨outcomes, (List.append_nil raws).symm ▸ account⟩

/-- A step is one of the main thread, or the step of the others that the action stands for. -/
theorem next_behind {s t : State Raw T} {a : Action Raw T}
    (h : next cfg parse recording cap s a = some t) :
    (behind a = none ∧ MainTurn recording s t) ∨
      ∃ b, behind a = some b ∧
        Pipeline.next (WsClient.producer cfg parse) cap s.threads b = some t.threads := by
  have taken : ∀ b, threadsStep cfg parse cap s b = some t →
      Pipeline.next (WsClient.producer cfg parse) cap s.threads b = some t.threads := by
    intro b moved
    obtain ⟨threads, stepped, rfl⟩ := Option.map_eq_some_iff.mp moved
    exact stepped
  cases a with
  | main => exact Or.inl ⟨rfl, mainStep_turn h⟩
  | feed left | connected | failed | receive raw | process left | signal =>
    exact Or.inr ⟨_, rfl, taken _ h⟩

/-- The main thread gives no message an outcome. -/
theorem mainTurn_account {s t : State Raw T} {raws : List Raw} {outcomes : List (Raw × Outcome)}
    (account : Account parse raws outcomes s.threads.queue s.threads.producer.feed)
    (turn : MainTurn recording s t) :
    Account parse raws outcomes t.threads.queue t.threads.producer.feed := by
  cases turn with
  | stopClient pc => exact account.move rfl rfl rfl rfl rfl id
  | _ => exact account

/-- In every run of the program, every raw message that the exchange sent has one outcome,
and the counters of the feed thread count them. -/
theorem account_of_run {as : List (Action Raw T)} {s : State Raw T}
    (run : (machine cfg parse recording cap blank).run (initial cfg parse blank) as = some s) :
    ∃ outcomes, Account parse (given as) outcomes s.threads.queue s.threads.producer.feed := by
  refine Machine.history_invariant (machine cfg parse recording cap blank) (fun as s =>
    ∃ outcomes, Account parse (given as) outcomes s.threads.queue s.threads.producer.feed)
    ?_ ?_ run
  · exact ⟨[], rfl, List.forall_mem_nil _, rfl, rfl, rfl, rfl, fun h => by cases h⟩
  · rintro as s a t reached ⟨outcomes, account⟩ h
    rw [given_snoc]
    rcases next_behind h with ⟨act, turn⟩ | ⟨b, act, stepped⟩
    · rw [act, Option.toList_none, received, List.filterMap_nil, List.append_nil]
      exact ⟨outcomes, mainTurn_account account turn⟩
    · rw [act]
      exact threads_account (reachable_threads ⟨as, reached⟩) account stepped

/-- The raw messages of the passed ones. -/
def passed (outcomes : List (Raw × Outcome)) : List Raw :=
  (outcomes.filter (fun o => o.2 = .passed)).map Prod.fst

theorem passed_sublist (outcomes : List (Raw × Outcome)) :
    (passed outcomes).Sublist (outcomes.map Prod.fst) :=
  List.filter_sublist.map Prod.fst

/-- Every passed message was parsed into the one that was accepted. -/
theorem map_parse_passed {outcomes : List (Raw × Outcome)}
    (parsed : ∀ o ∈ outcomes, o.2 = .parseError ↔ parse o.1 = none) :
    (passed outcomes).map parse = (accepted parse outcomes).map some := by
  induction outcomes with
  | nil => rfl
  | cons o rest ih =>
    obtain ⟨head, tail⟩ := List.forall_mem_cons.mp parsed
    have same := ih tail
    obtain ⟨raw, outcome⟩ := o
    cases outcome with
    | parseError | queueFull => simpa [passed, accepted] using same
    | passed =>
      have found : parse raw ≠ none := fun none => by cases head.mpr none
      obtain ⟨msg, parsed⟩ := Option.ne_none_iff_exists'.mp found
      simpa [passed, accepted, parsed] using same

/-- With no message refused all of them passed. -/
theorem passed_of_none {outcomes : List (Raw × Outcome)}
    (parsed : (outcomes.map Prod.snd).count .parseError = 0)
    (room : (outcomes.map Prod.snd).count .queueFull = 0) :
    passed outcomes = outcomes.map Prod.fst := by
  rw [List.count_eq_zero] at parsed room
  rw [passed, List.filter_eq_self.mpr]
  rintro ⟨raw, outcome⟩ mem
  have mem' := List.mem_map_of_mem (f := Prod.snd) mem
  cases outcome with
  | parseError => exact absurd mem' parsed
  | queueFull => exact absurd mem' room
  | passed => rfl

/-- When the program has returned, what was processed are the messages of a part of what the
exchange sent, in order; what is missing was counted as a parse error or as dropped, but for
at most one message. -/
theorem kept_of_returned {as : List (Action Raw T)} {s : State Raw T}
    (run : (machine cfg parse recording cap blank).run (initial cfg parse blank) as = some s)
    (returned : s.main = .returned) :
    ∃ kept : List Raw, kept.Sublist (given as) ∧ kept.map parse = s.threads.processed.map some ∧
      kept.length + s.threads.producer.feed.parseErrors + s.threads.producer.feed.queueFull ≤
        (given as).length ∧
      (given as).length ≤ kept.length + s.threads.producer.feed.parseErrors +
        s.threads.producer.feed.queueFull + 1 ∧
      (s.threads.producer.feed.parseErrors = 0 → s.threads.producer.feed.queueFull = 0 →
        kept <+: given as) := by
  obtain ⟨outcomes, account⟩ := account_of_run run
  have joined := reachable_joined ⟨as, run⟩
  rw [LiveMain.Joined, returned] at joined
  obtain ⟨feed, process, -⟩ := joined
  obtain ⟨lost, pushed, few⟩ := LateMessages.exited_missed
    (LateMessages.feed_promises parse cap) (reachable_feed ⟨as, run⟩) process
  have received := account.received
  have delivered := account.delivered
  rw [feed] at received delivered
  change given as = _ ++ [] at received
  change _ = _ ++ [] at delivered
  rw [List.append_nil] at received delivered
  have same : accepted parse outcomes = s.threads.processed ++ lost := delivered.trans pushed
  have total := length_outcomes account.parsed
  rw [← account.parseErrors, ← account.queueFull, same, List.length_append] at total
  have whole := map_parse_passed account.parsed
  rw [same, List.map_append] at whole
  have length : s.threads.processed.length ≤ (passed outcomes).length := by
    have lengths := congrArg List.length whole
    rw [List.length_map, List.length_append, List.length_map, List.length_map] at lengths
    omega
  refine ⟨(passed outcomes).take s.threads.processed.length, ?_, ?_, ?_, ?_, ?_⟩
  · rw [received]
    exact (List.take_sublist _ _).trans (passed_sublist outcomes)
  · rw [List.map_take, whole]
    exact List.take_left' (List.length_map _)
  · rw [received, List.length_take_of_le length, List.length_map, total]
    omega
  · rw [received, List.length_take_of_le length, List.length_map, total]
    omega
  · intro parsed room
    rw [account.parseErrors] at parsed
    rw [account.queueFull] at room
    rw [received, passed_of_none parsed room]
    exact List.take_prefix _ _

end Account

/-! ## What the messages mean -/

/-- A raw message as the exchange sent it and as it was read, with the two times that
`on_message` reads off the clock for it. -/
structure Arrival where
  sent : RawMessage
  message : RawMessage
  received : TimePoint
  parsed : TimePoint

/-- What the feed thread makes of an arrival. -/
def parse (strtod : List UInt8 → Double) (arrival : Arrival) : Option (QueueMessage Double) :=
  MessageRouting.route strtod arrival.received arrival.parsed arrival.message

def exact (strtod : List UInt8 → Double) (text : List UInt8) : ℚ := (strtod text).toRat

def symbolOf (message : RawMessage) : Option Symbol :=
  (StrictAcceptance.payload message).bind (fun doc =>
    (doc.field? (ascii "s")).bind Json.getString)

/-- The message is taken for a depth update, and it is one of this symbol. -/
def Updates (symbol : Symbol) (message : RawMessage) : Prop :=
  ¬ MessageRouting.HasTrade message ∧ symbolOf message = some symbol

instance (symbol : Symbol) (message : RawMessage) : Decidable (Updates symbol message) :=
  inferInstanceAs (Decidable (_ ∧ _))

/-- The levels of a side that the arrivals were sent to bring to the book of a symbol, of each
message at most as many as fit into an update. -/
def sideLevels (strtod : List UInt8 → Double) (name : List UInt8) (symbol : Symbol)
    (arrivals : List Arrival) : List (PriceLevel ℚ) :=
  arrivals.flatMap (fun arrival =>
    if Updates symbol arrival.sent then
      (LiveBook.levelsOf (exact strtod) name arrival.sent).take maxLevels
    else [])

theorem readLevel_exact (strtod : List UInt8 → Double) (level : Json) :
    DepthParser.readLevel (exact strtod) level =
      (DepthParser.readLevel strtod level).map (PriceLevel.map Double.toRat) := by
  simp only [DepthParser.readLevel, Option.map_bind, Option.map_map, Function.comp_def]
  rfl

theorem bidEntries_map (update : DepthUpdate Double) :
    OrderBook.bidEntries (update.map Double.toRat) =
      (update.bids.toList.take update.bidCount.toNat).map (PriceLevel.map Double.toRat) := by
  rw [OrderBook.bidEntries, DepthUpdate.map, Vector.toList_map, List.map_take]

theorem askEntries_map (update : DepthUpdate Double) :
    OrderBook.askEntries (update.map Double.toRat) =
      (update.asks.toList.take update.askCount.toNat).map (PriceLevel.map Double.toRat) := by
  rw [OrderBook.askEntries, DepthUpdate.map, Vector.toList_map, List.map_take]

/-- The levels that the parser reads, with their exact values. -/
theorem levels_exact (strtod : List UInt8 → Double) {message : RawMessage} {doc : Json}
    (wellFormed : LiveBook.WellFormed message) (mem : doc ∈ StrictAcceptance.payload message)
    {name : List UInt8} (side : name ∈ [LiveBook.bidName, LiveBook.askName])
    (pairs : StrictAcceptance.HasPairs doc name) :
    (((DepthParser.elementsOf doc name).filterMap (DepthParser.readLevel strtod)).take
        maxLevels).map (PriceLevel.map Double.toRat) =
      (LiveBook.levelsOf (exact strtod) name message).take maxLevels := by
  have read := LiveBook.filterMap_readLevel (exact strtod) wellFormed mem side pairs
  rw [← read, List.map_take, List.map_filterMap]
  exact congrArg _ (List.filterMap_congr fun level _ => (readLevel_exact strtod level).symm)

/-- What a trade, or what is taken for one, brings to a book. -/
theorem parse_trade {strtod : List UInt8 → Double} {arrival : Arrival} {item : QueueMessage Double}
    (hasTrade : MessageRouting.HasTrade arrival.message) (h : parse strtod arrival = some item) :
    item.InBounds ∧ ∀ symbol, RecordReplay.depthFor symbol item = none := by
  unfold parse MessageRouting.route at h
  rw [if_pos hasTrade] at h
  split at h
  · cases h
    exact ⟨trivial, fun symbol => rfl⟩
  · cases h

/-- A well-formed message is accepted for the whole update that it carries. -/
theorem parse_whole {strtod : List UInt8 → Double} {arrival : Arrival}
    {item : QueueMessage Double} (noTrade : ¬ MessageRouting.HasTrade arrival.message)
    (wellFormed : LiveBook.WellFormed arrival.message) (h : parse strtod arrival = some item) :
    ∃ doc ∈ StrictAcceptance.payload arrival.message, StrictAcceptance.CompleteDepth doc ∧
      item = .depthUpdate { DepthParser.extract strtod doc
        { MessageRouting.defaultDepth with tsReceived := arrival.received } with
          tsParsed := arrival.parsed
          tsEnqueued := arrival.parsed } := by
  obtain ⟨doc, mem, whole⟩ := wellFormed.whole
  have found := (StrictAcceptance.inner_eq_payload wellFormed.clear).trans mem
  unfold parse MessageRouting.route at h
  rw [if_neg noTrade, DepthParser.parse, parseEvent_of_event found whole.event] at h
  exact ⟨doc, mem, whole, (Option.some.inj h).symm⟩

/-- A well-formed message becomes the update of its symbol that carries its first levels. -/
theorem parse_depth {strtod : List UInt8 → Double} {arrival : Arrival}
    {item : QueueMessage Double} (noTrade : ¬ MessageRouting.HasTrade arrival.message)
    (wellFormed : LiveBook.WellFormed arrival.message) (h : parse strtod arrival = some item) :
    ∃ depth : DepthUpdate Double, item = .depthUpdate depth ∧ depth.InBounds ∧
      symbolOf arrival.message = some depth.symbol ∧
      OrderBook.bidEntries (depth.map Double.toRat) =
        (LiveBook.levelsOf (exact strtod) LiveBook.bidName arrival.message).take maxLevels ∧
      OrderBook.askEntries (depth.map Double.toRat) =
        (LiveBook.levelsOf (exact strtod) LiveBook.askName arrival.message).take maxLevels := by
  obtain ⟨doc, mem, whole, rfl⟩ := parse_whole noTrade wellFormed h
  refine ⟨_, rfl, DepthParser.extract_inBounds strtod doc _, ?_, ?_, ?_⟩
  · obtain ⟨symbol, named⟩ := Option.ne_none_iff_exists'.mp whole.symbol
    have read := (DepthParser.extract_scalars strtod doc
      { MessageRouting.defaultDepth with tsReceived := arrival.received }).2.2.2
    rw [named, Option.getD_some] at read
    rw [symbolOf, Option.mem_def.mp mem, Option.bind_some, named]
    exact congrArg some read.symm
  · have levels := @levels_exact strtod _ doc wellFormed mem LiveBook.bidName (by simp) whole.bids
    rw [bidEntries_map, ← levels]
    exact congrArg _ (DepthParser.extract_bids strtod doc _)
  · have levels := @levels_exact strtod _ doc wellFormed mem LiveBook.askName (by simp) whole.asks
    rw [askEntries_map, ← levels]
    exact congrArg _ (DepthParser.extract_asks strtod doc _)

/-- The levels of a message have numbers that are neither infinite nor NaN. -/
def FiniteLevels (strtod : List UInt8 → Double) (message : RawMessage) : Prop :=
  ∀ doc ∈ StrictAcceptance.payload message, ∀ name ∈ [LiveBook.bidName, LiveBook.askName],
    ∀ price qty, .array [.string price, .string qty] ∈ DepthParser.elementsOf doc name →
      (strtod price).Finite ∧ (strtod qty).Finite

/-- A message is read as it was sent, or so damaged that it is no JSON value any more; and what
was sent and is taken for a depth update is a well-formed one with finite numbers. -/
structure CleanArrival (strtod : List UInt8 → Double) (arrival : Arrival) : Prop where
  read : arrival.message = arrival.sent ∨ arrival.message.value = none
  wellFormed : ¬ MessageRouting.HasTrade arrival.sent → LiveBook.WellFormed arrival.sent
  finite : ¬ MessageRouting.HasTrade arrival.sent → FiniteLevels strtod arrival.sent

def Clean (strtod : List UInt8 → Double) (arrivals : List Arrival) : Prop :=
  ∀ arrival ∈ arrivals, CleanArrival strtod arrival

theorem parseEvent_damaged {σ : Type} {event : List UInt8} {extract : Json → σ → σ}
    {msg : RawMessage} (damaged : msg.value = none) (out : σ) :
    parseEvent event extract msg out = (false, out) := by
  simp [parseEvent, RawMessage.inner, damaged]

/-- Nothing is made of a damaged message, and so what is parsed is what was sent. -/
theorem CleanArrival.intact {strtod : List UInt8 → Double} {arrival : Arrival}
    (clean : CleanArrival strtod arrival) {item : QueueMessage Double}
    (h : parse strtod arrival = some item) : arrival.message = arrival.sent := by
  refine clean.read.resolve_right fun damaged => ?_
  unfold parse MessageRouting.route at h
  rw [DepthParser.parse, TradeParser.parse, parseEvent_damaged damaged,
    parseEvent_damaged damaged] at h
  split_ifs at h

/-- What the depth updates of a symbol among the processed messages bring to its book. -/
def updatesOf (symbol : Symbol) (processed : List (QueueMessage Double)) :
    List (DepthUpdate ℚ) :=
  processed.filterMap (RecordReplay.depthFor symbol)

theorem updatesOf_cons (symbol : Symbol) (item : QueueMessage Double)
    (rest : List (QueueMessage Double)) :
    updatesOf symbol (item :: rest) =
      (RecordReplay.depthFor symbol item).toList ++ updatesOf symbol rest := by
  cases found : RecordReplay.depthFor symbol item with
  | none => exact List.filterMap_cons_none found
  | some depth => exact List.filterMap_cons_some found

theorem sideLevels_cons (strtod : List UInt8 → Double) (name : List UInt8) (symbol : Symbol)
    (arrival : Arrival) (rest : List Arrival) :
    sideLevels strtod name symbol (arrival :: rest) =
      sideLevels strtod name symbol [arrival] ++ sideLevels strtod name symbol rest := by
  simp [sideLevels]

/-- One arrival and the message that is made of it. -/
theorem arrival_entries {strtod : List UInt8 → Double} {arrival : Arrival}
    {item : QueueMessage Double} (h : parse strtod arrival = some item)
    (clean : CleanArrival strtod arrival) :
    item.InBounds ∧ ∀ symbol,
      (RecordReplay.depthFor symbol item).toList.flatMap OrderBook.bidEntries =
        sideLevels strtod LiveBook.bidName symbol [arrival] ∧
      (RecordReplay.depthFor symbol item).toList.flatMap OrderBook.askEntries =
        sideLevels strtod LiveBook.askName symbol [arrival] := by
  have intact := clean.intact h
  have wellFormed := clean.wellFormed
  simp only [sideLevels, List.flatMap_singleton, ← intact] at wellFormed ⊢
  by_cases hasTrade : MessageRouting.HasTrade arrival.message
  · obtain ⟨inBounds, none⟩ := parse_trade hasTrade h
    refine ⟨inBounds, fun symbol => ?_⟩
    have other : ¬ Updates symbol arrival.message := fun updates => updates.1 hasTrade
    simp [none, other]
  · obtain ⟨depth, rfl, inBounds, named, bids, asks⟩ :=
      parse_depth hasTrade (wellFormed hasTrade) h
    refine ⟨inBounds, fun symbol => ?_⟩
    by_cases same : depth.symbol = symbol
    · have updates : Updates symbol arrival.message := ⟨hasTrade, same ▸ named⟩
      simp [RecordReplay.depthFor, same, updates, bids, asks]
    · have other : ¬ Updates symbol arrival.message :=
        fun updates => same (Option.some.inj (named.symm.trans updates.2))
      simp [RecordReplay.depthFor, same, other]

/-- The processed messages carry the levels of the arrivals they were made of. -/
theorem kept_entries {strtod : List UInt8 → Double} {kept : List Arrival}
    {processed : List (QueueMessage Double)}
    (same : kept.map (parse strtod) = processed.map some) (clean : Clean strtod kept) :
    (∀ item ∈ processed, item.InBounds) ∧ ∀ symbol,
      (updatesOf symbol processed).flatMap OrderBook.bidEntries =
        sideLevels strtod LiveBook.bidName symbol kept ∧
      (updatesOf symbol processed).flatMap OrderBook.askEntries =
        sideLevels strtod LiveBook.askName symbol kept := by
  induction kept generalizing processed with
  | nil =>
    obtain rfl : processed = [] := List.map_eq_nil_iff.mp same.symm
    exact ⟨List.forall_mem_nil _, fun symbol => ⟨rfl, rfl⟩⟩
  | cons arrival rest ih =>
    obtain ⟨first, others⟩ := List.forall_mem_cons.mp clean
    cases processed with
    | nil => cases same
    | cons item items =>
      obtain ⟨parsed, later⟩ := List.cons.inj same
      obtain ⟨inBounds, entries⟩ := arrival_entries parsed first
      obtain ⟨inBounds', entries'⟩ := ih later others
      refine ⟨List.forall_mem_cons.mpr ⟨inBounds, inBounds'⟩, fun symbol => ?_⟩
      obtain ⟨bids, asks⟩ := entries symbol
      obtain ⟨bids', asks'⟩ := entries' symbol
      constructor
      · rw [updatesOf_cons, sideLevels_cons, List.flatMap_append, bids, bids']
      · rw [updatesOf_cons, sideLevels_cons, List.flatMap_append, asks, asks']

/-! ## The books -/

theorem applied_of_advance {parts parts' : OrderBook × Aggregator} {update : DepthUpdate ℚ}
    (h : ProcessingThread.advanceBook parts update = some parts') :
    parts.1.applyUpdate update = some parts'.1 := by
  simp only [ProcessingThread.advanceBook, Option.bind_eq_bind, Option.bind_eq_some_iff,
    Option.pure_def, Option.some.injEq] at h
  obtain ⟨book, applied, aggregator, -, rfl⟩ := h
  exact applied

/-- Advancing a book along updates folds up their entries. -/
theorem tracks_foldlM {symbol : Symbol} {updates : List (DepthUpdate ℚ)}
    {parts : OrderBook × Aggregator}
    (h : updates.foldlM ProcessingThread.advanceBook ({ symbol }, {}) = some parts) :
    OrderBook.Tracks parts.1 updates := by
  induction updates using List.reverseRecOn generalizing parts with
  | nil =>
    cases h
    exact OrderBook.tracks_fresh symbol
  | append_singleton updates update ih =>
    obtain ⟨mid, before, last⟩ := foldlM_snoc_some.mp h
    exact OrderBook.tracks_applyUpdate (ih before) (applied_of_advance last)

/-- The books go through the updates of what the queue delivered. -/
theorem advance_processed {conditions : List SignalCondition} {recorder : Option DiskLogger}
    {msgs : List (ProcessingThread.MessageEnv × QueueMessage Double)}
    {processed : List (QueueMessage Double)} {engine : ProcessingThread}
    (dequeued : RecordReplay.Dequeued msgs processed)
    (run : (ProcessingThread.create conditions recorder).processAll msgs = some engine)
    (symbol : Symbol) :
    (updatesOf symbol processed).foldlM ProcessingThread.advanceBook ({ symbol }, {}) =
      some (ProcessingThread.bookPart (engine.getOrCreateState symbol)) := by
  have books := ProcessingThread.book_of_depths conditions recorder symbol msgs run
  have untimed : (ProcessingThread.depthsOf symbol msgs).map DepthUpdate.untimed =
      (updatesOf symbol processed).map DepthUpdate.untimed := by
    rw [RecordReplay.map_untimed_depthsOf, RecordReplay.dequeued_untimed dequeued, updatesOf,
      List.map_filterMap, List.filterMap_map]
    exact List.filterMap_congr (fun item _ => (RecordReplay.depthFor_untimed symbol item).symm)
  rwa [← RecordReplay.foldlM_untimed, untimed, RecordReplay.foldlM_untimed] at books

/-- The stamp of the processing loop moves no level count. -/
theorem dequeued_inBounds {msgs : List (ProcessingThread.MessageEnv × QueueMessage Double)}
    {processed : List (QueueMessage Double)} (dequeued : RecordReplay.Dequeued msgs processed)
    (inBounds : ∀ item ∈ processed, item.InBounds) : ∀ msg ∈ msgs, msg.2.InBounds := by
  intro msg mem
  have untimed := List.mem_map_of_mem (f := fun msg => msg.2.untimed) mem
  rw [RecordReplay.dequeued_untimed dequeued] at untimed
  obtain ⟨item, taken, same⟩ := List.mem_map.mp untimed
  rw [← RecordReplay.inBounds_untimed, ← same]
  exact (RecordReplay.inBounds_untimed item).mpr (inBounds item taken)

/-- The books that the processing makes of the messages of clean arrivals. -/
theorem books_of_kept {strtod : List UInt8 → Double} {kept : List Arrival}
    {processed : List (QueueMessage Double)}
    (same : kept.map (parse strtod) = processed.map some) (clean : Clean strtod kept)
    (conditions : List SignalCondition) (recorder : Option DiskLogger)
    {msgs : List (ProcessingThread.MessageEnv × QueueMessage Double)}
    (dequeued : RecordReplay.Dequeued msgs processed) :
    ∃ engine, (ProcessingThread.create conditions recorder).processAll msgs = some engine ∧
      ∀ symbol,
        (engine.getOrCreateState symbol).book.bids.find? =
          OrderBook.referenceSide (sideLevels strtod LiveBook.bidName symbol kept) ∧
        (engine.getOrCreateState symbol).book.asks.find? =
          OrderBook.referenceSide (sideLevels strtod LiveBook.askName symbol kept) := by
  obtain ⟨inBounds, entries⟩ := kept_entries same clean
  obtain ⟨engine, run, -⟩ :=
    ProcessingThread.processAll_isSome conditions recorder (dequeued_inBounds dequeued inBounds)
  refine ⟨engine, run, fun symbol => ?_⟩
  have tracks : OrderBook.Tracks (engine.getOrCreateState symbol).book
      (updatesOf symbol processed) := tracks_foldlM (advance_processed dequeued run symbol)
  obtain ⟨bids, asks⟩ := entries symbol
  rw [tracks.bids, tracks.asks, bids, asks, OrderBook.find?_foldl_applyLevel,
    OrderBook.find?_foldl_applyLevel]
  exact ⟨rfl, rfl⟩

/-- `strtod` on the numbers of the messages below. -/
def sampleStrtod (text : List UInt8) : Double :=
  if text = ascii "1001.00" then ⟨0x408F480000000000⟩
  else if text = ascii "2.00" then ⟨0x4000000000000000⟩
  else ⟨0x3FF0000000000000⟩

/-- A message of which only the first byte arrives. -/
def cutMessage : RawMessage := ⟨ascii "\x7b", none, fun _ mem => by cases mem⟩

/-- Two units are bid, but the message is cut on its way. -/
def damagedArrival : Arrival :=
  ⟨LiveBook.bidMessage [LiveBook.bidFor "1001.00" "2.00"], cutMessage, 2, 4⟩

/-- One unit is bid at the same price. -/
def sampleArrival : Arrival :=
  ⟨LiveBook.bidMessage [LiveBook.bidAt 1], LiveBook.bidMessage [LiveBook.bidAt 1], 3, 5⟩

/-- Both messages are received, the second one is processed, and the program is told to end. -/
def sampleActions : List (Action Arrival (QueueMessage Double)) :=
  let feed := Action.feed .blank
  let process := Action.process .blank
  [feed, feed, .connected, feed, feed, .receive damagedArrival, feed, feed, feed,
    .receive sampleArrival, feed, feed, feed, feed, feed, feed,
    .signal, feed, feed, process, process, process, process, process, process, process, process,
    process, process, .main, .main, .main, .main, .main, .main]

theorem sampleStrtod_finite (message : RawMessage) : FiniteLevels sampleStrtod message := by
  have finite : ∀ text, (sampleStrtod text).Finite := by
    intro text
    unfold sampleStrtod
    split_ifs <;> decide
  exact fun _ _ _ _ price qty _ => ⟨finite price, finite qty⟩

theorem sampleArrivals_clean : Clean sampleStrtod [damagedArrival, sampleArrival] := by
  have whole : ∀ {bid : Json}, LiveBook.ShortPair bid → ¬ (LiveBook.bidMessage [bid]).Combined →
      LiveBook.WellFormed (LiveBook.bidMessage [bid]) :=
    fun short plain => LiveBook.wellFormed_bidMessage (List.forall_mem_singleton.mpr short) plain
  rw [Clean, List.forall_mem_cons, List.forall_mem_singleton]
  constructor
  · refine ⟨Or.inr rfl, fun _ => whole ?_ (by decide +kernel), fun _ => sampleStrtod_finite _⟩
    exact ⟨_, _, rfl, by decide, by decide⟩
  · refine ⟨Or.inl rfl, fun _ => whole ?_ (by decide +kernel), fun _ => sampleStrtod_finite _⟩
    exact LiveBook.bidAt_short 1

/-- Of the two messages only the second one is parsed. -/
theorem kept_sampleArrival {kept : List Arrival} {processed : List (QueueMessage Double)}
    (part : kept.Sublist [damagedArrival, sampleArrival])
    (parsed : kept.map (parse sampleStrtod) = processed.map some) (one : processed.length = 1) :
    kept = [sampleArrival] := by
  have lengths := congrArg List.length parsed
  rw [List.length_map, List.length_map, one] at lengths
  obtain ⟨arrival, rfl⟩ := List.length_eq_one_iff.mp lengths
  obtain ⟨item, rfl⟩ := List.length_eq_one_iff.mp one
  obtain rfl | rfl := List.mem_pair.mp (part.subset List.mem_cons_self)
  · have refused : parse sampleStrtod damagedArrival = none := by decide +kernel
    rw [List.map_singleton, refused] at parsed
    cases parsed
  · rfl

end LiveSession
