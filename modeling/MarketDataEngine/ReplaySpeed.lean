import MarketDataEngine.SymbolIsolation
import MarketDataEngine.RecordReplay
import MarketDataEngine.ReplaySafety

/-!
# Replay at two speeds

The cooldown of a signal is measured on the wall clock of the process, also when
the messages come from a recording. This module compares replays of one recording
that read different clocks, and says for which recordings and conditions all of
them fire the same signals.
-/

namespace ReplaySpeed

open Transition MarketTypes RecordFormat ProcessingThread SignalLog ReplayProgress ReplaySchedule
open SignalDetector (Firing Check Call evaluateCondition evaluateCondition_quiet
  evaluateCondition_suppressed evaluateCondition_fires checks triggered)

/-! ## Checks and their clock readings -/

/-- The value that triggers a check, whatever the clock says. -/
def trigger (check : Check) : Option ℚ := triggered check.condition check.agg check.tradeAgg

def readAt (nowUs : UInt64) (check : Check) : Check := { check with nowUs }

theorem map_readAt_readAt (nowUs reading : UInt64) (passes : List Check) :
    (passes.map (readAt reading)).map (readAt nowUs) = passes.map (readAt nowUs) := by
  rw [List.map_map]
  rfl

/-- What a replay shows of a signal, apart from its time. -/
def shown (signal : Signal) : SignalType × Symbol × ℚ := (signal.type, signal.symbol, signal.value)

/-- What a check shows if it fires. -/
def wouldShow (check : Check) : Option (SignalType × Symbol × ℚ) :=
  (trigger check).map (fun value => (check.condition.type, check.symbol, value))

/-- No triggered check has to wait for an earlier triggered one. -/
def Uncooled (passes : List Check) : Prop :=
  passes.Pairwise (fun earlier later => trigger earlier ≠ none → trigger later ≠ none →
    earlier.key = later.key → later.condition.cooldownUs = 0)

/-- The shown signals of a list of checks on a fresh detector. -/
def fired (conditions : List SignalCondition) (passes : List Check) :
    List (SignalType × Symbol × ℚ) :=
  (passes.foldl evaluateCondition ({ conditions }, [])).2.map (fun f => shown f.signal)

/-- What is remembered is the reading of a triggered check of that key. -/
theorem lastFired_of_check (conditions : List SignalCondition) (passes : List Check)
    {key : CooldownKey} {reading : UInt64}
    (remembered : (passes.foldl evaluateCondition ({ conditions }, [])).1.lastFired key =
      some reading) :
    ∃ check ∈ passes, trigger check ≠ none ∧ check.key = key ∧ check.nowUs = reading := by
  induction passes using List.reverseRecOn with
  | nil => cases remembered
  | append_singleton before check ih =>
    have earlier : (before.foldl evaluateCondition ({ conditions }, [])).1.lastFired key =
        some reading → ∃ c ∈ before ++ [check], trigger c ≠ none ∧ c.key = key ∧
          c.nowUs = reading := by
      intro remembered
      obtain ⟨c, mem, found⟩ := ih remembered
      exact ⟨c, List.mem_append_left _ mem, found⟩
    rw [List.foldl_append, List.foldl_cons, List.foldl_nil] at remembered
    rcases SignalDetector.lastFired_cases
      (before.foldl evaluateCondition ({ conditions }, [])) check with same | ⟨triggers, same⟩
    · exact earlier (same ▸ remembered)
    · rw [same] at remembered
      by_cases own : key = check.key
      · subst own
        rw [Function.update_self] at remembered
        exact ⟨check, by simp, triggers, rfl, Option.some.inj remembered⟩
      · rw [Function.update_of_ne own] at remembered
        exact earlier remembered

/-- Without waiting every triggered check fires. -/
theorem fired_of_uncooled (conditions : List SignalCondition) {passes : List Check}
    (uncooled : Uncooled passes) : fired conditions passes = passes.filterMap wouldShow := by
  induction passes using List.reverseRecOn with
  | nil => rfl
  | append_singleton before check ih =>
    obtain ⟨pairs, -, last⟩ := List.pairwise_append.mp uncooled
    have before_fired := ih pairs
    unfold fired at before_fired ⊢
    rw [List.foldl_append, List.foldl_cons, List.foldl_nil, List.filterMap_append, ← before_fired]
    rcases SignalDetector.evaluateCondition_cases
      (before.foldl evaluateCondition ({ conditions }, [])) check with
      ⟨quiet, same⟩ | ⟨value, found, ⟨cool, same⟩ | ⟨-, same⟩⟩
    · rw [same]
      simp [wouldShow, trigger, quiet]
    · -- a suppressed check would have a cooldown and a predecessor
      exfalso
      rw [SignalDetector.cooling] at cool
      cases memory : (before.foldl evaluateCondition
          ({ conditions }, [])).1.lastFired check.key with
      | none => simp [memory] at cool
      | some reading =>
        obtain ⟨c, mem, triggers, key, -⟩ := lastFired_of_check conditions before memory
        have zero := last c mem check (by simp) triggers (by simp [trigger, found]) key
        simp [memory, zero] at cool
    · rw [same]
      simp [wouldShow, trigger, found, shown, Check.firing]

/-- A check that would have to wait, with what comes before and after it. -/
theorem waiting_of_not_uncooled {passes : List Check} (waits : ¬ Uncooled passes) :
    ∃ before check after, passes = before ++ check :: after ∧ trigger check ≠ none ∧
      check.condition.cooldownUs ≠ 0 ∧
      ∃ earlier ∈ before, trigger earlier ≠ none ∧ earlier.key = check.key := by
  induction passes using List.reverseRecOn with
  | nil => exact absurd List.Pairwise.nil waits
  | append_singleton front check ih =>
    by_cases fine : Uncooled front
    · have last : ¬ ∀ earlier ∈ front, trigger earlier ≠ none → trigger check ≠ none →
          earlier.key = check.key → check.condition.cooldownUs = 0 := by
        intro all
        apply waits
        apply List.pairwise_append.mpr
        exact ⟨fine, List.pairwise_singleton _ _, fun earlier mem c hc =>
          List.mem_singleton.mp hc ▸ all earlier mem⟩
      push Not at last
      obtain ⟨earlier, mem, triggers, triggers', key, cooldown⟩ := last
      exact ⟨front, check, [], rfl, triggers', cooldown, earlier, mem, triggers, key⟩
    · obtain ⟨before, found, after, rfl, rest⟩ := ih fine
      exact ⟨before, found, after ++ [check], by simp, rest⟩

/-- The slow run is behind the fast one: fewer firings, the same keys known, and its own
clock never moved from 0. -/
structure Behind (slow fast : SignalDetector × List Firing) : Prop where
  fewer : slow.2.length < fast.2.length
  keys : ∀ key, slow.1.lastFired key = none ↔ fast.1.lastFired key = none
  zero : ∀ key reading, slow.1.lastFired key = some reading → reading = 0

/-- When both runs fire, the slow one stays behind. -/
theorem Behind.fire {slow fast : SignalDetector × List Firing} (behind : Behind slow fast)
    {check : Check} {value : ℚ} (found : trigger check = some value) (nowUs : UInt64)
    (warm : slow.1.cooling check.key 0 check.condition.cooldownUs = false)
    (warm' : fast.1.cooling check.key nowUs check.condition.cooldownUs = false) :
    Behind (evaluateCondition slow (readAt 0 check))
      (evaluateCondition fast (readAt nowUs check)) := by
  rw [@evaluateCondition_fires slow (readAt 0 check) value found warm,
    @evaluateCondition_fires fast (readAt nowUs check) value found warm']
  refine ⟨?_, fun key => ?_, fun key reading remembered => ?_⟩
  · simpa using behind.fewer
  · by_cases own : key = check.key
    · subst own
      exact iff_of_false (by simp [readAt, Check.key]) (by simp [readAt, Check.key])
    · have other : key ≠ (readAt 0 check).key := own
      have other' : key ≠ (readAt nowUs check).key := own
      simp only [Function.update_of_ne other, Function.update_of_ne other']
      exact behind.keys key
  · by_cases own : key = (readAt 0 check).key
    · subst own
      simp only [Function.update_self] at remembered
      exact (Option.some.inj remembered).symm
    · simp only [Function.update_of_ne own] at remembered
      exact behind.zero key reading remembered

/-- Whatever a check does at 0 in the slow run, it does at least that in the fast one. -/
theorem Behind.step {slow fast : SignalDetector × List Firing} (behind : Behind slow fast)
    (check : Check) (nowUs : UInt64) :
    Behind (evaluateCondition slow (readAt 0 check))
      (evaluateCondition fast (readAt nowUs check)) := by
  cases found : trigger check with
  | none =>
    rw [@evaluateCondition_quiet slow (readAt 0 check) found,
      @evaluateCondition_quiet fast (readAt nowUs check) found]
    exact behind
  | some value =>
    cases memory : slow.1.lastFired check.key with
    | none =>
      have memory' := (behind.keys check.key).mp memory
      exact behind.fire found nowUs (by simp [SignalDetector.cooling, memory])
        (by simp [SignalDetector.cooling, memory'])
    | some reading =>
      obtain rfl := behind.zero _ _ memory
      by_cases zero : check.condition.cooldownUs = 0
      · have warm : ∀ (detector : SignalDetector) (now : UInt64),
            detector.cooling check.key now check.condition.cooldownUs = false := by
          intro detector now
          unfold SignalDetector.cooling
          split <;> simp [zero]
        exact behind.fire found nowUs (warm _ _) (warm _ _)
      · have cool : slow.1.cooling check.key 0 check.condition.cooldownUs = true := by
          simpa [SignalDetector.cooling, memory] using UInt64.pos_iff_ne_zero.mpr zero
        rw [@evaluateCondition_suppressed slow (readAt 0 check) value found cool]
        have known : fast.1.lastFired check.key ≠ none := by
          rw [Ne, ← behind.keys, memory]
          exact Option.some_ne_none _
        cases warm : fast.1.cooling check.key nowUs check.condition.cooldownUs with
        | true =>
          rw [@evaluateCondition_suppressed fast (readAt nowUs check) value found warm]
          exact ⟨behind.fewer, behind.keys, behind.zero⟩
        | false =>
          rw [@evaluateCondition_fires fast (readAt nowUs check) value found warm]
          refine ⟨by simpa using Nat.lt_succ_of_lt behind.fewer, fun key => ?_, behind.zero⟩
          by_cases own : key = (readAt nowUs check).key
          · subst own
            exact iff_of_false (by rw [behind.keys]; exact known) (by simp)
          · simp only [Function.update_of_ne own]
            exact behind.keys key

theorem Behind.run {slow fast : SignalDetector × List Firing} (behind : Behind slow fast)
    (passes : List Check) (nowUs : UInt64) :
    Behind ((passes.map (readAt 0)).foldl evaluateCondition slow)
      ((passes.map (readAt nowUs)).foldl evaluateCondition fast) := by
  induction passes generalizing slow fast with
  | nil => exact behind
  | cons check rest ih => exact ih (behind.step check nowUs)

/-- While the clock stands at 0, it is what is remembered. -/
theorem lastFired_zero (conditions : List SignalCondition) (passes : List Check)
    {key : CooldownKey} {reading : UInt64}
    (remembered : ((passes.map (readAt 0)).foldl evaluateCondition
      ({ conditions }, [])).1.lastFired key = some reading) : reading = 0 := by
  obtain ⟨check, mem, -, -, rfl⟩ := lastFired_of_check conditions _ remembered
  obtain ⟨_, -, rfl⟩ := List.mem_map.mp mem
  rfl

/-- A triggered check leaves its key remembered, whether it fires or not. -/
theorem lastFired_of_triggered (conditions : List SignalCondition) (passes : List Check)
    {check : Check} (mem : check ∈ passes) (triggers : trigger check ≠ none) :
    (passes.foldl evaluateCondition ({ conditions }, [])).1.lastFired check.key ≠ none := by
  induction passes using List.reverseRecOn with
  | nil => cases mem
  | append_singleton before last ih =>
    rw [List.foldl_append, List.foldl_cons, List.foldl_nil]
    rcases SignalDetector.evaluateCondition_cases
      (before.foldl evaluateCondition ({ conditions }, [])) last with
      ⟨quiet, same⟩ | ⟨value, found, ⟨cool, same⟩ | ⟨-, same⟩⟩
    all_goals
      rw [same]
      rcases List.mem_append.mp mem with earlier | now
    · exact ih earlier
    · obtain rfl := List.mem_singleton.mp now
      exact absurd quiet triggers
    · exact ih earlier
    · obtain rfl := List.mem_singleton.mp now
      intro forgotten
      simp only at forgotten
      simp [SignalDetector.cooling, forgotten] at cool
    · by_cases own : check.key = last.key
      · simp [own]
      · simpa only [Function.update_of_ne own] using ih earlier
    · obtain rfl := List.mem_singleton.mp now
      simp

/-- If a check has to wait, a clock that stands still and one that jumps over the
cooldown fire different signals. -/
theorem fired_differs (conditions : List SignalCondition) {passes : List Check}
    (waits : ¬ Uncooled passes) :
    ∃ passes', passes'.map (readAt 0) = passes.map (readAt 0) ∧
      fired conditions (passes.map (readAt 0)) ≠ fired conditions passes' := by
  obtain ⟨before, check, after, rfl, triggers, cooldown, earlier, mem, triggers', key⟩ :=
    waiting_of_not_uncooled waits
  obtain ⟨value, found⟩ := Option.ne_none_iff_exists'.mp triggers
  let jump := check.condition.cooldownUs
  refine ⟨before.map (readAt 0) ++ (check :: after).map (readAt jump), ?_, ?_⟩
  · simp only [List.map_append, map_readAt_readAt]
  · have known := lastFired_of_triggered conditions (before.map (readAt 0))
      (List.mem_map_of_mem (f := readAt 0) mem) triggers'
    have zero := @lastFired_zero conditions before
    unfold fired
    rw [List.map_append, List.foldl_append, List.foldl_append]
    generalize (before.map (readAt 0)).foldl evaluateCondition ({ conditions }, []) = state at *
    obtain ⟨reading, remembered⟩ := Option.ne_none_iff_exists'.mp known
    obtain rfl := zero remembered
    have memory : state.1.lastFired check.key = some 0 := key ▸ remembered
    have cool : state.1.cooling check.key 0 check.condition.cooldownUs = true := by
      simpa [SignalDetector.cooling, memory] using UInt64.pos_iff_ne_zero.mpr cooldown
    have warm : state.1.cooling check.key jump check.condition.cooldownUs = false := by
      simp [SignalDetector.cooling, memory, jump]
    have behind : Behind (evaluateCondition state (readAt 0 check))
        (evaluateCondition state (readAt jump check)) := by
      rw [@evaluateCondition_suppressed state (readAt 0 check) value found cool,
        @evaluateCondition_fires state (readAt jump check) value found warm]
      refine ⟨by simp, fun k => ?_, fun k reading => zero⟩
      by_cases own : k = (readAt jump check).key
      · subst own
        exact iff_of_false (by simp [readAt, Check.key] at memory ⊢; simp [memory]) (by simp)
      · simp only [Function.update_of_ne own]
    have later := (behind.run after jump).fewer
    intro same
    have lengths := congrArg List.length same
    simp only [List.map_cons, List.foldl_cons, List.length_map] at lengths
    omega

/-! ## The checks of a run -/

/-- The calls of `evaluate` of a run, from the symbol states alone. -/
def callsOf (states : Symbol → SymbolState) : List Message → List Call
  | [] => []
  | (_, .trade trade) :: rest =>
    match (states trade.symbol).tradeAggregator.update (trade.map Double.toRat) with
    | none => []
    | some tradeAggregator =>
      callsOf (Function.update states trade.symbol
        { states trade.symbol with tradeAggregator }) rest
  | (env, .depthUpdate depth) :: rest =>
    match advanceState (states depth.symbol) (depth.map Double.toRat) with
    | none => []
    | some state =>
      depthCall env depth state :: callsOf (Function.update states depth.symbol state) rest

def passesOf (conditions : List SignalCondition) (msgs : List Message) : List Check :=
  (callsOf (create conditions none).getOrCreateState msgs).flatMap (checks conditions)

theorem evaluateAll_cons (detector : SignalDetector) (call : Call) (calls : List Call) :
    (detector.evaluateAll (call :: calls)).2 =
      (detector.evaluate call).2 ++ ((detector.evaluate call).1.evaluateAll calls).2 := by
  simp only [SignalDetector.evaluateAll_eq_foldl, List.flatMap_cons, List.foldl_append,
    SignalDetector.evaluate_conditions]
  rw [← SignalDetector.evaluate, SignalDetector.foldl_evaluateCondition_log]

theorem getOrCreateState_publish (engine : ProcessingThread) (firings : List Firing) :
    (publish engine firings).getOrCreateState = engine.getOrCreateState := by
  funext symbol
  simp only [getOrCreateState, SymbolIsolation.publish_states]

theorem getOrCreateState_insert {engine next : ProcessingThread} {symbol : Symbol}
    {state : SymbolState} (inserted : next.states = engine.states.insert symbol state) :
    next.getOrCreateState = Function.update engine.getOrCreateState symbol state := by
  funext other
  by_cases own : other = symbol
  · subst own
    simp [getOrCreateState, inserted]
  · simp [getOrCreateState, inserted, Function.update_of_ne own, AList.lookup_insert_ne own]

/-- A run fires what its calls of `evaluate` fire, one after the other. -/
theorem runLog_calls {msgs : List Message} {engine last : ProcessingThread}
    {log log' : List Signal} (run : msgs.foldlM processLog (engine, log) = some (last, log')) :
    log' = log ++ (engine.signalDetector.evaluateAll
      (callsOf engine.getOrCreateState msgs)).2.map Firing.signal := by
  induction msgs generalizing engine log with
  | nil =>
    cases run
    simp [callsOf, SignalDetector.evaluateAll]
  | cons msg rest ih =>
    obtain ⟨env, msg⟩ := msg
    obtain ⟨⟨next, log₁⟩, step, later⟩ := Option.bind_eq_some_iff.mp run
    obtain ⟨⟨handled, firings⟩, hhandled, same⟩ := Option.map_eq_some_iff.mp step
    obtain ⟨rfl, rfl⟩ := Prod.mk.inj same
    have tail := ih later
    rw [SymbolIsolation.publish_signalDetector, getOrCreateState_publish] at tail
    cases msg with
    | trade trade =>
      obtain ⟨updated, hupdated, hnext, rfl⟩ := handle_trade.mp hhandled
      have inserted := congrArg ProcessingThread.states hnext
      have detector := congrArg ProcessingThread.signalDetector hnext
      rw [getOrCreateState_insert inserted, detector] at tail
      simp only [callsOf, hupdated, tail, List.map_nil, List.append_nil]
    | depthUpdate depth =>
      obtain ⟨advanced, hadvanced, hnext, rfl⟩ := handle_depthUpdate.mp hhandled
      have inserted := congrArg ProcessingThread.states hnext
      have detector := congrArg ProcessingThread.signalDetector hnext
      rw [getOrCreateState_insert inserted, detector] at tail
      simp only [callsOf, hadvanced, tail, evaluateAll_cons, List.map_append, List.append_assoc]

/-- The shown log of a run on a fresh engine is what its checks fire. -/
theorem runLog_fired {conditions : List SignalCondition} {recorder : Option DiskLogger}
    {msgs : List Message} {last : ProcessingThread} {log : List Signal}
    (run : runLog (create conditions recorder) msgs = some (last, log)) :
    log.map shown = fired conditions (passesOf conditions msgs) := by
  have all := runLog_calls run
  rw [List.nil_append, SignalDetector.evaluateAll_eq_foldl] at all
  rw [all, List.map_map]
  rfl

/-! ## Clock readings are free -/

/-- The calls of an evaluation with the reading of each check put in its place. -/
theorem checks_reading {conditions : List SignalCondition} {call : Call} {part : List Check}
    (same : part.map (readAt 0) = (checks conditions call).map (readAt 0)) :
    checks conditions { call with wallUs := fun i => (part[i]?.map Check.nowUs).getD 0 } =
      part := by
  by_cases sampled : call.agg.sampleCount = 0
  · simp only [checks, if_pos sampled, List.map_nil, List.map_eq_nil_iff] at same ⊢
    exact same.symm
  · simp only [checks, if_neg sampled] at same ⊢
    apply List.ext_getElem?
    intro i
    have here := congrArg (fun passes => passes[i]?) same
    simp only [List.getElem?_map, List.getElem?_zipIdx, Option.map_map] at here ⊢
    cases found : part[i]? with
    | none =>
      rw [found] at here
      cases listed : conditions[i]? with
      | none => rfl
      | some condition => simp [listed] at here
    | some check =>
      rw [found] at here
      cases listed : conditions[i]? with
      | none => simp [listed] at here
      | some condition =>
        simp only [listed, Option.map_some, Function.comp_apply, Nat.zero_add, found,
          Option.getD_some, Option.some.injEq, readAt, Check.mk.injEq] at here ⊢
        obtain ⟨rfl, symbol, agg, tradeAgg, -⟩ := here
        rw [← symbol, ← agg, ← tradeAgg]

/-- Any readings can be the ones of a run over the same messages. -/
theorem exists_readings (conditions : List SignalCondition) (msgs : List Message)
    (states : Symbol → SymbolState) (passes : List Check)
    (same : passes.map (readAt 0) =
      ((callsOf states msgs).flatMap (checks conditions)).map (readAt 0)) :
    ∃ msgs', msgs'.map Prod.snd = msgs.map Prod.snd ∧
      (callsOf states msgs').flatMap (checks conditions) = passes := by
  induction msgs generalizing states passes with
  | nil => exact ⟨[], rfl, by simpa [callsOf] using same.symm⟩
  | cons msg rest ih =>
    obtain ⟨env, msg⟩ := msg
    cases msg with
    | trade trade =>
      cases updated : (states trade.symbol).tradeAggregator.update (trade.map Double.toRat) with
      | none =>
        refine ⟨(env, .trade trade) :: rest, rfl, ?_⟩
        simp only [callsOf, updated] at same ⊢
        simpa using same.symm
      | some tradeAggregator =>
        simp only [callsOf, updated] at same
        obtain ⟨rest', same', found⟩ := ih _ _ same
        refine ⟨(env, .trade trade) :: rest', by simp [same'], ?_⟩
        simp only [callsOf, updated]
        exact found
    | depthUpdate depth =>
      cases advanced : advanceState (states depth.symbol) (depth.map Double.toRat) with
      | none =>
        refine ⟨(env, .depthUpdate depth) :: rest, rfl, ?_⟩
        simp only [callsOf, advanced] at same ⊢
        simpa using same.symm
      | some state =>
        simp only [callsOf, advanced, List.flatMap_cons, List.map_append] at same
        obtain ⟨part, later, rfl, now, after⟩ := List.map_eq_append_iff.mp same
        obtain ⟨rest', same', found⟩ := ih _ _ after
        refine ⟨({ env with wallUs := fun i => (part[i]?.map Check.nowUs).getD 0 },
          .depthUpdate depth) :: rest', by simp [same'], ?_⟩
        simp only [callsOf, advanced, List.flatMap_cons, found]
        congr 1
        exact checks_reading now

/-! ## Replays of one recording -/

/-- A clock that stands at 0. -/
def stillClock : MessageEnv where
  wallUs := fun _ => 0
  write := ⟨0, 0, 0⟩

def untimed (msg : Message) : Message := (stillClock, msg.2.untimed)

/-- The messages of a recording, as they are replayed, before any clock is read. -/
def recorded (reader : DiskReader) : List Message :=
  reader.readAll.filterMap (fun f => (replayed f.2).map (fun msg => (stillClock, msg)))

theorem checks_still (conditions : List SignalCondition) (call : Call) :
    (checks conditions call).map (readAt 0) =
      checks conditions { call with wallUs := stillClock.wallUs } := by
  unfold checks
  split_ifs
  · rfl
  · rw [List.map_map]
    rfl

/-- Timestamps and clock readings make no difference to the checks but for their times. -/
theorem passes_untimed (conditions : List SignalCondition) (states : Symbol → SymbolState)
    (msgs : List Message) :
    ((callsOf states msgs).flatMap (checks conditions)).map (readAt 0) =
      (callsOf states (msgs.map untimed)).flatMap (checks conditions) := by
  induction msgs generalizing states with
  | nil => rfl
  | cons msg rest ih =>
    obtain ⟨env, msg⟩ := msg
    cases msg with
    | trade trade =>
      cases updated : (states trade.symbol).tradeAggregator.update (trade.map Double.toRat) with
      | none =>
        have updated' : (states trade.untimed.symbol).tradeAggregator.update
            (trade.untimed.map Double.toRat) = none := updated
        simp only [callsOf, List.map_cons, untimed, QueueMessage.untimed, updated, updated']
        rfl
      | some tradeAggregator =>
        have updated' : (states trade.untimed.symbol).tradeAggregator.update
            (trade.untimed.map Double.toRat) = some tradeAggregator := updated
        simp only [callsOf, List.map_cons, untimed, QueueMessage.untimed, updated, updated']
        exact ih _
    | depthUpdate depth =>
      cases advanced : advanceState (states depth.symbol) (depth.map Double.toRat) with
      | none =>
        have advanced' : advanceState (states depth.untimed.symbol)
            (depth.untimed.map Double.toRat) = none := advanced
        simp only [callsOf, List.map_cons, untimed, QueueMessage.untimed, advanced, advanced']
        rfl
      | some state =>
        have advanced' : advanceState (states depth.untimed.symbol)
            (depth.untimed.map Double.toRat) = some state := advanced
        simp only [callsOf, List.map_cons, untimed, QueueMessage.untimed, advanced, advanced',
          List.flatMap_cons, List.map_append, ih]
        congr 1
        exact checks_still conditions (depthCall env depth state)

theorem uncooled_readAt (nowUs : UInt64) (passes : List Check) :
    Uncooled (passes.map (readAt nowUs)) ↔ Uncooled passes :=
  List.pairwise_map

theorem wouldShow_readAt (nowUs : UInt64) (passes : List Check) :
    (passes.map (readAt nowUs)).filterMap wouldShow = passes.filterMap wouldShow := by
  rw [List.filterMap_map]
  rfl

/-- Some completed replay of the recording at this speed, with some clock readings,
fires these signals on a fresh engine. -/
def Fires (conditions : List SignalCondition) (reader : DiskReader)
    (speed : ReplayEngine.PlaybackSpeed) (log : List Signal) : Prop :=
  ∃ blank s recorder msgs last, (replay reader speed FeedHandler.feedQueue blank).Reachable s ∧
    Completed s ∧ RecordReplay.Dequeued msgs s.processed ∧
    runLog (create conditions recorder) msgs = some (last, log)

/-- What a completed replay processes, apart from all times. -/
theorem untimed_processed {reader : DiskReader} {speed : ReplayEngine.PlaybackSpeed}
    {cap : SpscQueue.Capacity} {blank : QueueMessage Double}
    {s : Pipeline.State ReplayEngine.State (QueueMessage Double)}
    (reached : (replay reader speed cap blank).Reachable s) (completed : Completed s)
    {msgs : List Message} (dequeued : RecordReplay.Dequeued msgs s.processed) :
    msgs.map untimed = recorded reader ∧
      (msgs.map untimed).map (fun msg => some msg.2) =
        reader.readAll.map (fun f => replayed f.2) := by
  have processed := completed_processed reached completed
  have same := RecordReplay.dequeued_untimed dequeued
  have second : (msgs.map untimed).map (fun msg => some msg.2) =
      reader.readAll.map (fun f => replayed f.2) := by
    rw [← processed, delivered]
    have mapped := congrArg (List.map some) same
    simpa [untimed, Function.comp_def] using mapped
  refine ⟨?_, second⟩
  have kept := congrArg (List.filterMap (fun m => m.map (fun msg => (stillClock, msg)))) second
  rw [List.filterMap_map, List.filterMap_map, List.filterMap_map] at kept
  rw [recorded]
  refine Eq.trans ?_ kept
  rw [← List.filterMap_eq_map]
  rfl

theorem dequeued_of_same {msgs msgs' : List Message} {popped : List (QueueMessage Double)}
    (same : msgs'.map Prod.snd = msgs.map Prod.snd) (dequeued : RecordReplay.Dequeued msgs popped) :
    RecordReplay.Dequeued msgs' popped := by
  let Stamped := fun msg (item : QueueMessage Double) => ∃ now, msg = item.stampDequeued now
  have mapped : List.Forall₂ Stamped (msgs.map Prod.snd) popped :=
    List.forall₂_map_left_iff.mpr dequeued
  rw [← same] at mapped
  exact List.forall₂_map_left_iff.mp mapped

/-- The messages of a replay stay inside their arrays when its records are replayable. -/
theorem inBounds_iff_replayable {msgs : List Message} {reader : DiskReader}
    (kinds : (msgs.map untimed).map (fun msg => some msg.2) =
      reader.readAll.map (fun f => replayed f.2)) :
    (∀ msg ∈ msgs, msg.2.InBounds) ↔
      ∀ f ∈ reader.readAll, ReplaySafety.Replayable f.2 := by
  rw [List.map_map] at kinds
  constructor
  · intro inBounds f mem
    have there := List.mem_map_of_mem (f := fun f => replayed f.2) mem
    rw [← kinds] at there
    obtain ⟨msg, hmsg, same⟩ := List.mem_map.mp there
    obtain ⟨update, converted, same⟩ := Option.map_eq_some_iff.mp same.symm
    have inside : (untimed msg).2.InBounds :=
      (RecordReplay.inBounds_untimed msg.2).mpr (inBounds msg hmsg)
    rw [← same] at inside
    obtain ⟨bids, asks⟩ := (ReplaySafety.fromRecord_counts converted).mp inside
    exact ⟨bids, asks, by rw [converted]; exact Option.some_ne_none _⟩
  · intro replayable msg hmsg
    have there := List.mem_map_of_mem (f := (fun msg => some msg.2) ∘ untimed) hmsg
    rw [kinds] at there
    obtain ⟨f, mem, same⟩ := List.mem_map.mp there
    obtain ⟨update, converted, same⟩ := Option.map_eq_some_iff.mp same
    have inside : update.InBounds := (ReplaySafety.fromRecord_counts converted).mpr
      ⟨(replayable f mem).bids, (replayable f mem).asks⟩
    apply (RecordReplay.inBounds_untimed msg.2).mp
    change (untimed msg).2.InBounds
    rw [← same]
    exact inside

theorem replayable_of_fires {conditions : List SignalCondition} {reader : DiskReader}
    {speed : ReplayEngine.PlaybackSpeed} {log : List Signal}
    (fires : Fires conditions reader speed log) :
    ∀ f ∈ reader.readAll, ReplaySafety.Replayable f.2 := by
  obtain ⟨blank, s, recorder, msgs, last, reached, completed, dequeued, run⟩ := fires
  obtain ⟨-, kinds⟩ := untimed_processed reached completed dequeued
  exact (inBounds_iff_replayable kinds).mp (SymbolIsolation.inBounds_of_runLog run)

/-- What a replay shows when no check has to wait. -/
theorem shown_of_uncooled {conditions : List SignalCondition} {reader : DiskReader}
    {speed : ReplayEngine.PlaybackSpeed} {log : List Signal}
    (fires : Fires conditions reader speed log)
    (uncooled : Uncooled (passesOf conditions (recorded reader))) :
    log.map shown = (passesOf conditions (recorded reader)).filterMap wouldShow := by
  obtain ⟨blank, s, recorder, msgs, last, reached, completed, dequeued, run⟩ := fires
  obtain ⟨records, -⟩ := untimed_processed reached completed dequeued
  have passes : (passesOf conditions msgs).map (readAt 0) =
      passesOf conditions (recorded reader) := by
    rw [← records]
    exact passes_untimed conditions _ msgs
  rw [← passes, uncooled_readAt] at uncooled
  rw [← passes, wouldShow_readAt, runLog_fired run, fired_of_uncooled conditions uncooled]

/-- The checks of a recording carry no readings yet. -/
theorem recorded_still (conditions : List SignalCondition) (reader : DiskReader) :
    (passesOf conditions (recorded reader)).map (readAt 0) =
      passesOf conditions (recorded reader) := by
  have already : (recorded reader).map untimed = recorded reader := by
    rw [recorded, List.map_filterMap]
    congr 1
    funext f
    unfold replayed
    cases fromRecord f.2 <;> rfl
  have passes := passes_untimed conditions (create conditions none).getOrCreateState
    (recorded reader)
  rw [already] at passes
  exact passes

/-- At every speed some completed replay reads the clock as we like. -/
theorem exists_fires {conditions : List SignalCondition} {reader : DiskReader}
    (replayable : ∀ f ∈ reader.readAll, ReplaySafety.Replayable f.2) {passes : List Check}
    (same : passes.map (readAt 0) = passesOf conditions (recorded reader))
    (speed : ReplayEngine.PlaybackSpeed) :
    ∃ log, Fires conditions reader speed log ∧ log.map shown = fired conditions passes := by
  obtain ⟨s, reached, completed⟩ := @exists_completed FeedHandler.feedQueue (by decide)
    reader speed .blank (fun f mem => (replayable f mem).terminated)
  let taken : List Message := s.processed.map (fun item => (stillClock, item.stampDequeued 0))
  have dequeued : RecordReplay.Dequeued taken s.processed :=
    List.forall₂_map_left_iff.mpr (List.forall₂_same.mpr fun item _ => ⟨0, rfl⟩)
  obtain ⟨records, -⟩ := untimed_processed reached completed dequeued
  have still : (passesOf conditions taken).map (readAt 0) =
      passesOf conditions (recorded reader) := by
    rw [← records]
    exact passes_untimed conditions _ taken
  obtain ⟨msgs, same', found⟩ := exists_readings conditions taken
    (create conditions none).getOrCreateState passes (same.trans still.symm)
  have dequeued' := dequeued_of_same same' dequeued
  obtain ⟨-, kinds⟩ := untimed_processed reached completed dequeued'
  obtain ⟨last, run, -⟩ := processAll_isSome conditions none
    ((inBounds_iff_replayable kinds).mpr replayable)
  obtain ⟨log, logged⟩ := exists_runLog run
  refine ⟨log, ⟨.blank, s, none, msgs, last, reached, completed, dequeued', logged⟩, ?_⟩
  rw [runLog_fired logged, passesOf, found]

/-- If a check has to wait, the clock readings of a replay make a difference, at
any two speeds. -/
theorem exists_differing {conditions : List SignalCondition} {reader : DiskReader}
    (replayable : ∀ f ∈ reader.readAll, ReplaySafety.Replayable f.2)
    (waits : ¬ Uncooled (passesOf conditions (recorded reader)))
    (speed speed' : ReplayEngine.PlaybackSpeed) :
    ∃ log log', Fires conditions reader speed log ∧ Fires conditions reader speed' log' ∧
      log.map shown ≠ log'.map shown := by
  obtain ⟨passes, same, differ⟩ := fired_differs conditions waits
  rw [recorded_still] at same differ
  obtain ⟨log, fires, slow⟩ := exists_fires replayable (recorded_still conditions reader) speed
  obtain ⟨log', fires', fast⟩ := exists_fires replayable same speed'
  exact ⟨log, log', fires, fires', by rwa [slow, fast]⟩

theorem sampleReader_replayable :
    ∀ f ∈ DiskReader.sampleReader.readAll, ReplaySafety.Replayable f.2 := by
  intro f mem
  rw [DiskReader.sampleReader_opens.2] at mem
  obtain rfl : f = DiskLogger.frameOf DiskReader.sampleWrite.1 DiskReader.sampleWrite.2 := by
    simpa using mem
  refine ⟨by decide, by decide, ?_⟩
  rw [DiskLogger.frameOf, fromRecord_toRecord_of_recordable (by decide)]
  exact Option.some_ne_none _

theorem sampleReader_recorded : recorded DiskReader.sampleReader =
    [(stillClock, .depthUpdate DiskReader.sampleWrite.1.untimed),
      (stillClock, .depthUpdate DiskReader.sampleWrite.1.untimed)] := by
  have converted : fromRecord (toRecord DiskReader.sampleWrite.1) =
      some DiskReader.sampleWrite.1.untimed :=
    fromRecord_toRecord_of_recordable (by decide)
  rw [recorded, DiskReader.sampleReader_opens.2]
  simp only [DiskLogger.frameOf, List.filterMap_cons, List.filterMap_nil, replayed, converted,
    Option.map_some]
  rfl

/-- A wide spread is signalled whenever it is seen. -/
def everyWideSpread : List SignalCondition :=
  [{ type := .spreadWide, threshold := 1, cooldownUs := 0 }]

/-- A wide spread is signalled, at most once a second. -/
def wideSpread : List SignalCondition := [{ type := .spreadWide, threshold := 1 }]

end ReplaySpeed
