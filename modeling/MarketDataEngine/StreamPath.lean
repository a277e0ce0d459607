import MarketDataEngine.Json

/-!
# The path of the subscriptions

`build_stream_path` of `feed/ws_client.cpp`: one symbol and one stream have a path of their
own, all others are combined, each symbol with each stream. What the exchange is asked for
is read back from the path, so no subscription is lost, added or given to another symbol.
-/

namespace StreamPath

/-- The fields of `FeedConfig` that the path is made of. -/
structure FeedConfig where
  symbols : List (List UInt8)
  streams : List (List UInt8)

abbrev slash : UInt8 := 47

abbrev atSign : UInt8 := 64

/-- `symbol + "@" + stream`. -/
def subscription (symbol stream : List UInt8) : List UInt8 := symbol ++ atSign :: stream

/-- The body of the inner loop over the path and the flag `first`. -/
def append (symbol : List UInt8) : List UInt8 × Bool → List UInt8 → List UInt8 × Bool
  | (path, first), stream =>
    let path := if !first then path ++ [slash] else path
    (path ++ subscription symbol stream, false)

def buildStreamPath (cfg : FeedConfig) : List UInt8 :=
  match cfg.symbols, cfg.streams with
  | [symbol], [stream] => ascii "/ws/" ++ subscription symbol stream
  | symbols, streams =>
    (symbols.foldl (fun state symbol => streams.foldl (append symbol) state)
      (ascii "/stream?streams=", true)).1

example : buildStreamPath ⟨[ascii "btcusdt"], [ascii "depth@100ms"]⟩ =
    ascii "/ws/btcusdt@depth@100ms" := by decide

example : buildStreamPath ⟨[ascii "btcusdt", ascii "ethusdt"], [ascii "depth@100ms"]⟩ =
    ascii "/stream?streams=btcusdt@depth@100ms/ethusdt@depth@100ms" := by decide

/-- Each symbol with each stream, in the order of the loops. -/
def FeedConfig.subscriptions (cfg : FeedConfig) : List (List UInt8 × List UInt8) :=
  cfg.symbols.flatMap (fun symbol => cfg.streams.map (Prod.mk symbol))

/-! ## Reading a path -/

/-- A subscription, cut at the first `@`. -/
def readSubscription (text : List UInt8) : Option (List UInt8 × List UInt8) :=
  match text.dropWhile (· ≠ atSign) with
  | [] => none
  | _ :: stream => some (text.takeWhile (· ≠ atSign), stream)

/-- The subscriptions behind `streams=`, none in an empty text. -/
def readStreams (text : List UInt8) : Option (List (List UInt8 × List UInt8)) :=
  if text = [] then some [] else (text.splitOn slash).mapM readSubscription

/-- What a path asks for. -/
def readPath (path : List UInt8) : Option (List (List UInt8 × List UInt8)) :=
  if ascii "/ws/" <+: path then
    (readSubscription (path.drop (ascii "/ws/").length)).map ([·])
  else if ascii "/stream?streams=" <+: path then
    readStreams (path.drop (ascii "/stream?streams=").length)
  else none

theorem readSubscription_subscription {symbol : List UInt8} (plain : atSign ∉ symbol)
    (stream : List UInt8) :
    readSubscription (subscription symbol stream) = some (symbol, stream) := by
  have before : ∀ byte ∈ symbol, decide (byte ≠ atSign) = true := by
    intro byte mem
    exact decide_eq_true (fun same => plain (same ▸ mem))
  rw [readSubscription, subscription, List.dropWhile_append_of_pos before,
    List.takeWhile_append_of_pos before]
  simp

/-! ## The loops -/

/-- The two loops go once through all subscriptions. -/
theorem foldl_subscriptions (symbols streams : List (List UInt8)) (state : List UInt8 × Bool) :
    symbols.foldl (fun state symbol => streams.foldl (append symbol) state) state =
      (FeedConfig.mk symbols streams).subscriptions.foldl
        (fun state sub => append sub.1 state sub.2) state := by
  induction symbols generalizing state with
  | nil => rfl
  | cons symbol rest ih =>
    rw [List.foldl_cons, ih, FeedConfig.subscriptions, FeedConfig.subscriptions,
      List.flatMap_cons, List.foldl_append, List.foldl_map]

/-- Behind the first subscription every one is preceded by a slash. -/
theorem foldl_append_later (subs : List (List UInt8 × List UInt8)) (path : List UInt8) :
    (subs.foldl (fun state sub => append sub.1 state sub.2) (path, false)).1 =
      path ++ subs.flatMap (fun sub => slash :: subscription sub.1 sub.2) := by
  induction subs generalizing path with
  | nil => simp
  | cons sub rest ih =>
    rw [List.foldl_cons, append]
    simp only [Bool.not_false, if_true]
    rw [ih, List.flatMap_cons]
    simp

theorem intercalate_cons_flatMap (first : List UInt8) (rest : List (List UInt8)) :
    [slash].intercalate (first :: rest) = first ++ rest.flatMap (slash :: ·) := by
  induction rest generalizing first with
  | nil => simp
  | cons second rest ih =>
    rw [List.intercalate_cons_cons, ih, List.flatMap_cons]
    simp

/-- The combined path is its subscriptions with slashes between them. -/
theorem combined_path (cfg : FeedConfig) :
    (cfg.symbols.foldl (fun state symbol => cfg.streams.foldl (append symbol) state)
      (ascii "/stream?streams=", true)).1 =
      ascii "/stream?streams=" ++
        [slash].intercalate (cfg.subscriptions.map (fun sub => subscription sub.1 sub.2)) := by
  rw [foldl_subscriptions]
  cases cfg.subscriptions with
  | nil => rfl
  | cons sub rest =>
    rw [List.foldl_cons, append]
    simp only [Bool.not_true, Bool.false_eq_true, if_false]
    rw [foldl_append_later, List.map_cons, intercalate_cons_flatMap, List.flatMap_map,
      List.append_assoc]

/-- The path of a list of subscriptions. -/
def pathOf : List (List UInt8 × List UInt8) → List UInt8
  | [sub] => ascii "/ws/" ++ subscription sub.1 sub.2
  | subs => ascii "/stream?streams=" ++
    [slash].intercalate (subs.map (fun sub => subscription sub.1 sub.2))

theorem pathOf_combined {subs : List (List UInt8 × List UInt8)} (several : subs.length ≠ 1) :
    pathOf subs = ascii "/stream?streams=" ++
      [slash].intercalate (subs.map (fun sub => subscription sub.1 sub.2)) := by
  unfold pathOf
  split
  · exact absurd rfl several
  · rfl

theorem length_subscriptions (cfg : FeedConfig) :
    cfg.subscriptions.length = cfg.symbols.length * cfg.streams.length := by
  simp [FeedConfig.subscriptions]

/-- The path depends on the subscriptions alone. -/
theorem buildStreamPath_eq (cfg : FeedConfig) : buildStreamPath cfg = pathOf cfg.subscriptions := by
  obtain ⟨symbols, streams⟩ := cfg
  unfold buildStreamPath
  split
  · rename_i symbol stream single single'
    obtain rfl : symbols = [symbol] := single
    obtain rfl : streams = [stream] := single'
    rfl
  · rename_i several
    have many : (FeedConfig.mk symbols streams).subscriptions.length ≠ 1 := by
      rw [length_subscriptions]
      intro one
      obtain ⟨symbol, single⟩ := List.length_eq_one_iff.mp (Nat.eq_one_of_mul_eq_one_right one)
      obtain ⟨stream, single'⟩ := List.length_eq_one_iff.mp (Nat.eq_one_of_mul_eq_one_left one)
      exact several symbol stream single single'
    rw [pathOf_combined many]
    exact combined_path ⟨symbols, streams⟩

/-- No symbol has an `@` and nothing has a slash. -/
structure Plain (cfg : FeedConfig) : Prop where
  symbols : ∀ symbol ∈ cfg.symbols, atSign ∉ symbol ∧ slash ∉ symbol
  streams : ∀ stream ∈ cfg.streams, slash ∉ stream

theorem Plain.subscription {cfg : FeedConfig} (plain : Plain cfg)
    {sub : List UInt8 × List UInt8} (mem : sub ∈ cfg.subscriptions) :
    atSign ∉ sub.1 ∧ slash ∉ subscription sub.1 sub.2 := by
  obtain ⟨symbol, known, inside⟩ := List.mem_flatMap.mp mem
  obtain ⟨stream, wanted, rfl⟩ := List.mem_map.mp inside
  obtain ⟨noSign, noSlash⟩ := plain.symbols symbol known
  have noSlash' := plain.streams stream wanted
  refine ⟨noSign, ?_⟩
  simp [StreamPath.subscription, noSlash, noSlash', slash, atSign]

theorem mapM_readSubscription {subs : List (List UInt8 × List UInt8)}
    (plain : ∀ sub ∈ subs, atSign ∉ sub.1) :
    (subs.map (fun sub => subscription sub.1 sub.2)).mapM readSubscription = some subs := by
  induction subs with
  | nil => rfl
  | cons sub rest ih =>
    obtain ⟨head, tail⟩ := List.forall_mem_cons.mp plain
    rw [List.map_cons, List.mapM_cons, readSubscription_subscription head, ih tail]
    rfl

/-- The subscriptions between the slashes are read back. -/
theorem readStreams_intercalate {subs : List (List UInt8 × List UInt8)}
    (plain : ∀ sub ∈ subs, atSign ∉ sub.1 ∧ slash ∉ subscription sub.1 sub.2) :
    readStreams ([slash].intercalate (subs.map (fun sub => subscription sub.1 sub.2))) =
      some subs := by
  cases subs with
  | nil => rfl
  | cons sub rest =>
    have nonempty : [slash].intercalate
        ((sub :: rest).map (fun sub => subscription sub.1 sub.2)) ≠ [] := by
      rw [List.map_cons, intercalate_cons_flatMap, subscription]
      simp
    have noSlash : ∀ text ∈ (sub :: rest).map (fun sub => subscription sub.1 sub.2),
        slash ∉ text := by
      intro text mem
      obtain ⟨other, known, rfl⟩ := List.mem_map.mp mem
      exact (plain other known).2
    rw [readStreams, if_neg nonempty, List.splitOn_intercalate slash noSlash (by simp)]
    exact mapM_readSubscription (fun other known => (plain other known).1)

theorem readPath_pathOf {subs : List (List UInt8 × List UInt8)}
    (plain : ∀ sub ∈ subs, atSign ∉ sub.1 ∧ slash ∉ subscription sub.1 sub.2) :
    readPath (pathOf subs) = some subs := by
  by_cases one : subs.length = 1
  · obtain ⟨sub, rfl⟩ := List.length_eq_one_iff.mp one
    rw [pathOf, readPath, if_pos (List.prefix_append _ _), List.drop_left,
      readSubscription_subscription (plain sub (List.mem_singleton_self sub)).1]
    rfl
  · have other : ∀ rest, ¬ ascii "/ws/" <+: ascii "/stream?streams=" ++ rest := by
      rintro rest ⟨more, same⟩
      simp [ascii] at same
    rw [pathOf_combined one, readPath, if_neg (other _), if_pos (List.prefix_append _ _),
      List.drop_left]
    exact readStreams_intercalate plain

/-- The path asks for each symbol with each stream and for nothing else, and two
configurations have the same path if and only if they want the same. -/
theorem path_exact (cfg : FeedConfig) (plain : Plain cfg) :
    readPath (buildStreamPath cfg) = some cfg.subscriptions ∧
      ∀ other, Plain other →
        (buildStreamPath other = buildStreamPath cfg ↔
          other.subscriptions = cfg.subscriptions) := by
  have back : ∀ cfg, Plain cfg → readPath (buildStreamPath cfg) = some cfg.subscriptions := by
    intro cfg plain
    rw [buildStreamPath_eq]
    exact readPath_pathOf (fun sub mem => plain.subscription mem)
  refine ⟨back cfg plain, fun other plain' => ⟨fun same => ?_, fun same => ?_⟩⟩
  · have read := back other plain'
    rw [same, back cfg plain] at read
    exact (Option.some.inj read).symm
  · rw [buildStreamPath_eq, buildStreamPath_eq, same]

theorem path_exact_two :
    readPath (buildStreamPath
      ⟨[ascii "btcusdt", ascii "ethusdt"], [ascii "depth@100ms", ascii "trade"]⟩) =
      some [(ascii "btcusdt", ascii "depth@100ms"), (ascii "btcusdt", ascii "trade"),
        (ascii "ethusdt", ascii "depth@100ms"), (ascii "ethusdt", ascii "trade")] :=
  (path_exact _ ⟨by decide, by decide⟩).1

end StreamPath
