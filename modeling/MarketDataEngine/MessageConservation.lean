import MarketDataEngine.FeedHandler

/-!
# Where every raw message goes

The counters of the feed handler, the queue and the processing loop, tied together
over every interleaving. Each raw message given to `on_message` has one outcome; a
message inside `try_push` counts as passed until the call has failed.
-/

namespace MessageConservation

open Transition Pipeline FeedHandler

universe u v

variable {Raw : Type u} {T : Type v}

/-- What `on_message` made of a raw message so far. -/
inductive Outcome where
  | parseError
  | queueFull
  | passed
  deriving DecidableEq

/-- The raw messages given to `on_message` in a run. -/
def received (as : List (Pipeline.Action (FeedHandler.Action Raw T) T)) : List Raw :=
  as.filterMap (fun a =>
    match a with
    | .producer (.receive raw) => some raw
    | _ => none)

/-- The raw message that was read and not yet parsed. -/
def unparsed : Pc Raw → List Raw
  | .parsing raw => [raw]
  | _ => []

/-- The message inside a `try_push` of the feed thread, unless it is in the queue. -/
def inPush (pushPc : SpscQueue.PushPc T) : Pc Raw → List T
  | .pushing => pushPc.pending
  | _ => []

/-- The parsed messages that were not counted as dropped. -/
def accepted (parse : Raw → Option T) (outcomes : List (Raw × Outcome)) : List T :=
  outcomes.filterMap (fun o => if o.2 = .passed then parse o.1 else none)

/-- The account of the raw messages given to `on_message`. -/
structure Account (parse : Raw → Option T) (raws : List Raw) (outcomes : List (Raw × Outcome))
    (queue : SpscQueue.State T) (feed : FeedHandler.State Raw) : Prop where
  received : raws = outcomes.map Prod.fst ++ unparsed feed.pc
  parsed : ∀ o ∈ outcomes, o.2 = .parseError ↔ parse o.1 = none
  msgCount : feed.msgCount = outcomes.length
  parseErrors : feed.parseErrors = (outcomes.map Prod.snd).count .parseError
  queueFull : feed.queueFull = (outcomes.map Prod.snd).count .queueFull
  delivered : accepted parse outcomes = queue.pushed ++ inPush queue.pushPc feed.pc
  undecided : feed.pc = .pushing → ∃ front raw, outcomes = front ++ [(raw, .passed)]

variable {parse : Raw → Option T} {raws : List Raw} {outcomes : List (Raw × Outcome)}

/-- A step that gives no message an outcome keeps the account. -/
theorem Account.move {queue queue' : SpscQueue.State T} {feed feed' : FeedHandler.State Raw}
    (account : Account parse raws outcomes queue feed)
    (msgCount : feed'.msgCount = feed.msgCount) (parseErrors : feed'.parseErrors = feed.parseErrors)
    (queueFull : feed'.queueFull = feed.queueFull)
    (waiting : unparsed feed'.pc = unparsed feed.pc)
    (same : queue'.pushed ++ inPush queue'.pushPc feed'.pc =
      queue.pushed ++ inPush queue.pushPc feed.pc)
    (pushing : feed'.pc = .pushing → feed.pc = .pushing) :
    Account parse raws outcomes queue' feed' where
  received := by rw [waiting]; exact account.received
  parsed := account.parsed
  msgCount := msgCount.trans account.msgCount
  parseErrors := parseErrors.trans account.parseErrors
  queueFull := queueFull.trans account.queueFull
  delivered := by rw [same]; exact account.delivered
  undecided := fun pc => account.undecided (pushing pc)

theorem accepted_snoc (parse : Raw → Option T) (outcomes : List (Raw × Outcome)) (raw : Raw)
    (outcome : Outcome) :
    accepted parse (outcomes ++ [(raw, outcome)]) = accepted parse outcomes ++
      (if outcome = .passed then (parse raw).toList else []) := by
  unfold accepted
  rw [List.filterMap_append]
  split_ifs with passed
  · subst passed
    cases parsed : parse raw <;> simp [parsed]
  · simp [passed]

/-! ## One lemma for each outcome -/

theorem Account.receive {queue : SpscQueue.State T} {feed : FeedHandler.State Raw} {raw : Raw}
    (account : Account parse raws outcomes queue feed) (pc : feed.pc = .reading) :
    Account parse (raws ++ [raw]) outcomes queue { feed with pc := .parsing raw } := by
  have received := account.received
  have delivered := account.delivered
  rw [pc] at received delivered
  refine ⟨?_, account.parsed, account.msgCount, account.parseErrors, account.queueFull,
    delivered, fun h => by cases h⟩
  rw [received]
  simp [unparsed]

theorem Account.parseError {queue : SpscQueue.State T} {feed : FeedHandler.State Raw} {raw : Raw}
    (account : Account parse raws outcomes queue feed) (pc : feed.pc = .parsing raw)
    (unparsable : parse raw = none) :
    Account parse raws (outcomes ++ [(raw, .parseError)]) queue
      { feed with
        pc := .readRunning
        msgCount := feed.msgCount + 1
        parseErrors := feed.parseErrors + 1 } := by
  have received := account.received
  have delivered := account.delivered
  rw [pc] at received delivered
  refine ⟨?_, ?_, ?_, ?_, ?_, ?_, fun h => by cases h⟩
  · simpa [unparsed] using received
  · simpa [or_imp, forall_and, unparsable] using account.parsed
  · simp [account.msgCount]
  · simp [account.parseErrors]
  · simp [account.queueFull]
  · rw [accepted_snoc, delivered]
    simp [inPush]

/-- A parsed message counts as passed while its `try_push` is under way. -/
theorem Account.pass {queue : SpscQueue.State T} {feed : FeedHandler.State Raw} {raw : Raw}
    {msg : T} (account : Account parse raws outcomes queue feed) (pc : feed.pc = .parsing raw)
    (parsable : parse raw = some msg) :
    Account parse raws (outcomes ++ [(raw, .passed)])
      { queue with pushPc := .loadTail .moving msg }
      { feed with pc := .pushing, msgCount := feed.msgCount + 1 } := by
  have received := account.received
  have delivered := account.delivered
  rw [pc] at received delivered
  refine ⟨?_, ?_, ?_, ?_, ?_, ?_, fun _ => ⟨outcomes, raw, rfl⟩⟩
  · simpa [unparsed] using received
  · simpa [or_imp, forall_and, parsable] using account.parsed
  · simp [account.msgCount]
  · simp [account.parseErrors]
  · simp [account.queueFull]
  · rw [accepted_snoc, delivered]
    simp [inPush, parsable, SpscQueue.PushPc.pending]

/-- A refused message is the last one that counted as passed. -/
theorem Account.refuse {queue : SpscQueue.State T} {feed : FeedHandler.State Raw} {item : T}
    (account : Account parse raws outcomes queue feed) (pc : feed.pc = .pushing)
    (returned : queue.pushPc = .returned false item) :
    ∃ outcomes, Account parse raws outcomes queue
      { feed with pc := .readRunning, queueFull := feed.queueFull + 1 } := by
  obtain ⟨front, raw, rfl⟩ := account.undecided pc
  have others := account.parsed
  simp only [List.forall_mem_append, List.forall_mem_singleton] at others
  have parsable : parse raw ≠ none := fun none => by cases others.2.mpr none
  obtain ⟨msg, parsed⟩ := Option.ne_none_iff_exists'.mp parsable
  have delivered := account.delivered
  rw [accepted_snoc, if_pos rfl, parsed, pc, returned] at delivered
  have whole : accepted parse front = queue.pushed := (List.append_inj' delivered rfl).1
  refine ⟨front ++ [(raw, .queueFull)], ?_, ?_, ?_, ?_, ?_, ?_, fun h => by cases h⟩
  · simpa [unparsed, pc] using account.received
  · simp only [List.forall_mem_append, List.forall_mem_singleton]
    exact ⟨others.1, iff_of_false (by simp) parsable⟩
  · simpa using account.msgCount
  · simpa using account.parseErrors
  · simp [account.queueFull]
  · rw [accepted_snoc, whole]
    simp [inPush]

/-! ## Steps and runs -/

/-- A step of the feed thread gives at most one message an outcome. -/
theorem threadStep_account {cap : SpscQueue.Capacity} {running : Bool}
    {queue queue' : SpscQueue.State T} {feed feed' : FeedHandler.State Raw}
    {act : Option (PushAction T)} {left : T}
    (account : Account parse raws outcomes queue feed)
    (h : threadStep parse running queue.pushPc feed left = some (feed', act))
    (acted : Acted cap queue act queue') :
    ∃ outcomes, Account parse raws outcomes queue' feed' := by
  unfold threadStep at h
  cases pc : feed.pc with
  | checkRunning | checkStopped | readRunning | readStopped | recheckRunning | recheckStopped =>
    simp only [pc] at h
    cases h
    obtain rfl : queue' = queue := acted
    refine ⟨outcomes, account.move rfl rfl rfl ?_ ?_ ?_⟩
    all_goals
      rw [pc]
      dsimp only
      split_ifs <;> first | rfl | (intro h; cases h)
  | parsing raw =>
    simp only [pc, onMessage] at h
    cases parsed : parse raw with
    | none =>
      rw [parsed] at h
      cases h
      obtain rfl : queue' = queue := acted
      exact ⟨_, account.parseError pc parsed⟩
    | some msg =>
      rw [parsed] at h
      cases h
      obtain rfl := SpscQueue.callPush_frame acted
      exact ⟨_, account.pass pc parsed⟩
  | pushing =>
    simp only [pc] at h
    split at h
    · rename_i returned
      cases h
      obtain rfl : queue' = queue := acted
      refine ⟨outcomes, account.move rfl rfl rfl (by rw [pc]; rfl) ?_ (fun h => by cases h)⟩
      simp [inPush, pc, returned, SpscQueue.PushPc.pending]
    · rename_i item returned
      cases h
      obtain rfl : queue' = queue := acted
      exact account.refuse pc returned
    · cases h
    · cases h
      refine ⟨outcomes, account.move rfl rfl rfl rfl ?_ (fun _ => pc)⟩
      rw [pc]
      exact SpscQueue.push_pending acted
  | connecting | reading | exited => simp [pc] at h

/-- Every action of the feed thread keeps the account, and `receive` adds its message. -/
theorem next_account {cap : SpscQueue.Capacity} {running : Bool}
    {queue queue' : SpscQueue.State T} {feed feed' : FeedHandler.State Raw}
    {act : Option (PushAction T)} {a : FeedHandler.Action Raw T}
    (account : Account parse raws outcomes queue feed)
    (h : FeedHandler.next parse running queue.pushPc feed a = some (feed', act))
    (acted : Acted cap queue act queue') :
    ∃ outcomes, Account parse (raws ++ received [.producer a]) outcomes queue' feed' := by
  cases a with
  | step left =>
    rw [show received [.producer (.step left)] = ([] : List Raw) from rfl, List.append_nil]
    exact threadStep_account account h acted
  | receive raw =>
    simp only [FeedHandler.next] at h
    cases pc : feed.pc with
    | reading =>
      simp only [pc] at h
      cases h
      obtain rfl : queue' = queue := acted
      exact ⟨outcomes, account.receive pc⟩
    | _ => simp [pc] at h
  | connected =>
    simp only [FeedHandler.next] at h
    cases pc : feed.pc with
    | connecting =>
      simp only [pc] at h
      cases h
      obtain rfl : queue' = queue := acted
      refine ⟨outcomes, (List.append_nil raws).symm ▸ account.move rfl rfl rfl ?_ ?_ ?_⟩
      · rw [pc]
        rfl
      · rw [pc]
        rfl
      · exact fun h => by cases h
    | _ => simp [pc] at h
  | failed =>
    simp only [FeedHandler.next] at h
    cases pc : feed.pc with
    | connecting | reading =>
      simp only [pc] at h
      cases h
      obtain rfl : queue' = queue := acted
      refine ⟨outcomes, (List.append_nil raws).symm ▸ account.move rfl rfl rfl ?_ ?_ ?_⟩
      · rw [pc]
        rfl
      · rw [pc]
        rfl
      · exact fun h => by cases h
    | _ => simp [pc] at h
  | stop =>
    cases h
    obtain rfl : queue' = queue := acted
    exact ⟨outcomes, (List.append_nil raws).symm ▸ account.move rfl rfl rfl rfl rfl id⟩

theorem received_snoc (as : List (Pipeline.Action (FeedHandler.Action Raw T) T))
    (a : Pipeline.Action (FeedHandler.Action Raw T) T) :
    received (as ++ [a]) = received as ++ received [a] :=
  List.filterMap_append

/-- In every run, every raw message has one outcome, and the counters count them. -/
theorem account_of_run {cap : SpscQueue.Capacity} {blank : T}
    {as : List (Pipeline.Action (FeedHandler.Action Raw T) T)}
    {s : Pipeline.State (FeedHandler.State Raw) T}
    (run : (machine (producer parse) cap blank).run (initial (producer parse) blank) as = some s) :
    ∃ outcomes, Account parse (received as) outcomes s.queue s.producer := by
  refine producer_history (fun as queue feed =>
    ∃ outcomes, Account parse (received as) outcomes queue feed) ?_ ?_ ?_ run
  · exact ⟨[], rfl, List.forall_mem_nil _, rfl, rfl, rfl, rfl, fun h => by cases h⟩
  · rintro as a queue queue' feed other pushed pushPc ⟨outcomes, account⟩
    have nothing : received [a] = [] := by
      cases a with
      | producer b => exact absurd rfl (other b)
      | _ => rfl
    rw [received_snoc, nothing, List.append_nil]
    exact ⟨outcomes, account.move rfl rfl rfl rfl (by rw [pushed, pushPc]) id⟩
  · rintro as a running queue queue' feed feed' act ⟨outcomes, account⟩ h acted
    rw [received_snoc]
    exact next_account account h acted

/-- Neither thread is inside the handling of a message. -/
structure BetweenMessages (s : Pipeline.State (FeedHandler.State Raw) T) : Prop where
  unparsed : unparsed s.producer.pc = []
  pushing : s.producer.pc ≠ .pushing
  inHand : inHand s.consumer s.queue.popPc = []

/-- One outcome for each message makes the three counters add up. -/
theorem length_outcomes (parsed : ∀ o ∈ outcomes, o.2 = .parseError ↔ parse o.1 = none) :
    outcomes.length = (outcomes.map Prod.snd).count .parseError +
      (outcomes.map Prod.snd).count .queueFull + (accepted parse outcomes).length := by
  induction outcomes with
  | nil => rfl
  | cons o rest ih =>
    obtain ⟨head, tail⟩ := List.forall_mem_cons.mp parsed
    have counted := ih tail
    obtain ⟨raw, outcome⟩ := o
    cases outcome with
    | parseError =>
      have same : accepted parse ((raw, .parseError) :: rest) = accepted parse rest :=
        List.filterMap_cons_none (if_neg (by simp))
      rw [same, List.length_cons, counted, List.map_cons, List.count_cons_self,
        List.count_cons_of_ne (by simp)]
      omega
    | queueFull =>
      have same : accepted parse ((raw, .queueFull) :: rest) = accepted parse rest :=
        List.filterMap_cons_none (if_neg (by simp))
      rw [same, List.length_cons, counted, List.map_cons, List.count_cons_self,
        List.count_cons_of_ne (by simp)]
      omega
    | passed =>
      have some : parse raw ≠ none := fun none => by cases head.mpr none
      obtain ⟨msg, parsed⟩ := Option.ne_none_iff_exists'.mp some
      have more : accepted parse ((raw, .passed) :: rest) = msg :: accepted parse rest :=
        List.filterMap_cons_some ((if_pos rfl).trans parsed)
      rw [more, List.length_cons, List.length_cons, counted, List.map_cons,
        List.count_cons_of_ne (by simp), List.count_cons_of_ne (by simp)]
      omega

/-- For every parser, in every interleaving of the feed thread with the processing loop:
the processed messages are a front of the messages that parsed and were not counted as
dropped, and whenever both threads are between messages, every raw message was counted as
a parse error, counted as dropped, processed, or is in the queue. -/
theorem messages_conserved (parse : Raw → Option T) (cap : SpscQueue.Capacity) (blank : T)
    {as : List (Pipeline.Action (FeedHandler.Action Raw T) T)}
    {s : Pipeline.State (FeedHandler.State Raw) T}
    (run : (machine (producer parse) cap blank).run (initial (producer parse) blank) as = some s) :
    ∃ outcomes : List (Raw × Outcome),
      received as = outcomes.map Prod.fst ++ unparsed s.producer.pc ∧
      (∀ o ∈ outcomes, o.2 = .parseError ↔ parse o.1 = none) ∧
      s.producer.msgCount = outcomes.length ∧
      s.producer.parseErrors = (outcomes.map Prod.snd).count .parseError ∧
      s.producer.queueFull = (outcomes.map Prod.snd).count .queueFull ∧
      s.processed <+: accepted parse outcomes ∧
      (BetweenMessages s → s.producer.msgCount =
        s.producer.parseErrors + s.producer.queueFull + s.processed.length +
          SpscQueue.held s.queue) := by
  obtain ⟨outcomes, account⟩ := account_of_run run
  have inv := queue_inv ⟨as, run⟩
  have handled := reachable_handled ⟨as, run⟩
  refine ⟨outcomes, account.received, account.parsed, account.msgCount, account.parseErrors,
    account.queueFull, ?_, ?_⟩
  · have popped : s.processed <+: s.queue.popped := ⟨_, handled⟩
    rw [account.delivered]
    exact (popped.trans inv.fifo).trans (List.prefix_append _ _)
  · rintro ⟨-, pushing, idle⟩
    have none : inPush s.queue.pushPc s.producer.pc = [] := by
      unfold inPush
      split
      · rename_i pc
        exact absurd pc pushing
      · rfl
    have delivered := account.delivered
    rw [none, List.append_nil] at delivered
    rw [Handled, idle, List.append_nil] at handled
    have total := length_outcomes account.parsed
    have behind := inv.fifo.length_le
    rw [account.msgCount, account.parseErrors, account.queueFull, total, delivered, handled]
    unfold SpscQueue.held
    omega

/-- A message that does not parse, then one that is pushed, popped and processed. -/
def twoRaws : List (Pipeline.Action (FeedHandler.Action (Option Nat) Nat) Nat) :=
  [.producer (.step 0), .producer (.step 0), .producer .connected, .producer (.step 0),
    .producer (.step 0), .producer (.receive none), .producer (.step 0), .producer (.step 0),
    .producer (.step 0), .producer (.receive (some 7)), .producer (.step 0), .producer (.step 0),
    .producer (.step 0), .producer (.step 0), .producer (.step 0), .producer (.step 0),
    .consumer 0, .consumer 0, .consumer 0, .consumer 0, .consumer 0, .consumer 0, .consumer 0]

theorem messages_conserved_twoRaws : ∃ s outcomes,
    (machine (producer id) feedQueue 0).run (initial (producer id) 0) twoRaws = some s ∧
      s.processed = [7] ∧ s.processed <+: accepted id outcomes ∧
      s.producer.msgCount = s.producer.parseErrors + s.producer.queueFull + s.processed.length +
        SpscQueue.held s.queue := by
  have run : (machine (producer id) feedQueue 0).run (initial (producer id) 0) twoRaws = some _ :=
    rfl
  obtain ⟨outcomes, -, -, -, -, -, front, balance⟩ := messages_conserved id feedQueue 0 run
  exact ⟨_, outcomes, run, rfl, front, balance ⟨rfl, by simp, rfl⟩⟩

end MessageConservation
