import MarketDataEngine.Json
import MarketDataEngine.ReplayEngine

/-!
# The command line

`parse_args` of `main.cpp`. Its loop takes a word for a switch only when another word follows,
and every other word for the path of the configuration. The words are read back into the list
of what was asked for, which they determine; of everything asked for the last one counts.
-/

namespace CommandLine

open ReplayEngine (PlaybackSpeed)

structure CliArgs where
  configPath : List UInt8 := ascii "config/dev.yaml"
  replayPath : List UInt8 := []
  speed : PlaybackSpeed := .realtime
  deriving DecidableEq

/-- The names that `--speed` knows. -/
def speedNamed (name : List UInt8) : Option PlaybackSpeed :=
  if name = ascii "1x" ∨ name = ascii "1" then some .realtime
  else if name = ascii "2x" ∨ name = ascii "2" then some .fast2x
  else if name = ascii "5x" ∨ name = ascii "5" then some .fast5x
  else if name = ascii "max" ∨ name = ascii "0" then some .max
  else none

/-- An unknown name is logged and changes nothing. -/
def CliArgs.setSpeed (args : CliArgs) (name : List UInt8) : CliArgs :=
  match speedNamed name with
  | some speed => { args with speed }
  | none => args

/-- The loop, from some word on. The last word cannot be a switch. -/
def parseWords (args : CliArgs) : List (List UInt8) → CliArgs
  | [] => args
  | [word] => { args with configPath := word }
  | word :: value :: rest =>
    if word = ascii "--replay" then parseWords { args with replayPath := value } rest
    else if word = ascii "--speed" then parseWords (args.setSpeed value) rest
    else parseWords { args with configPath := word } (value :: rest)

/-- `argv[0]` is the name of the program. -/
def parseArgs (argv : List (List UInt8)) : CliArgs := parseWords {} argv.tail

/-- An unknown speed leaves the one before, though the log says `using 1x`. -/
example : (parseArgs [[], ascii "--speed", ascii "5x", ascii "--speed", ascii "fast"]).speed =
    .fast5x := by decide

/-! ## What is asked for -/

inductive Item where
  | replay (path : List UInt8)
  | speed (name : List UInt8)
  | config (path : List UInt8)
  deriving DecidableEq

def Item.words : Item → List (List UInt8)
  | .replay path => [ascii "--replay", path]
  | .speed name => [ascii "--speed", name]
  | .config path => [path]

def CliArgs.apply (args : CliArgs) : Item → CliArgs
  | .replay path => { args with replayPath := path }
  | .speed name => args.setSpeed name
  | .config path => { args with configPath := path }

/-- Only the last word can be a path that is written like a switch. -/
def Legible : List Item → Prop
  | .config path :: next :: rest =>
    path ≠ ascii "--replay" ∧ path ≠ ascii "--speed" ∧ Legible (next :: rest)
  | _ :: rest => Legible rest
  | [] => True

/-- The words as a list of items. -/
def readItems : List (List UInt8) → List Item
  | [] => []
  | [word] => [.config word]
  | word :: value :: rest =>
    if word = ascii "--replay" then .replay value :: readItems rest
    else if word = ascii "--speed" then .speed value :: readItems rest
    else .config word :: readItems (value :: rest)

theorem parseWords_eq_foldl (args : CliArgs) (words : List (List UInt8)) :
    parseWords args words = (readItems words).foldl CliArgs.apply args := by
  fun_induction readItems words generalizing args with
  | case1 => rfl
  | case2 word => rfl
  | case3 value rest ih =>
    rw [parseWords, if_pos rfl, ih]
    rfl
  | case4 value rest other ih =>
    rw [parseWords, if_neg other, if_pos rfl, ih]
    rfl
  | case5 word value rest notReplay notSpeed ih =>
    rw [parseWords, if_neg notReplay, if_neg notSpeed, ih]
    rfl

theorem words_readItems (words : List (List UInt8)) :
    (readItems words).flatMap Item.words = words := by
  fun_induction readItems words with
  | case1 => rfl
  | case2 word => rfl
  | case3 value rest ih =>
    rw [List.flatMap_cons, ih]
    rfl
  | case4 value rest other ih =>
    rw [List.flatMap_cons, ih]
    rfl
  | case5 word value rest notReplay notSpeed ih =>
    rw [List.flatMap_cons, ih]
    rfl

theorem readItems_cons (word : List UInt8) (rest : List (List UInt8)) :
    ∃ item items, readItems (word :: rest) = item :: items := by
  cases rest with
  | nil => exact ⟨_, _, rfl⟩
  | cons value rest =>
    rw [readItems]
    split_ifs
    · exact ⟨_, _, rfl⟩
    · exact ⟨_, _, rfl⟩
    · exact ⟨_, _, rfl⟩

theorem legible_readItems (words : List (List UInt8)) : Legible (readItems words) := by
  fun_induction readItems words with
  | case1 => trivial
  | case2 word => trivial
  | case3 value rest ih => exact ih
  | case4 value rest other ih => exact ih
  | case5 word value rest notReplay notSpeed ih =>
    obtain ⟨item, items, same⟩ := readItems_cons value rest
    rw [same] at ih ⊢
    exact ⟨notReplay, notSpeed, ih⟩

/-- A legible list is read back from its words. -/
theorem readItems_words {items : List Item} (legible : Legible items) :
    readItems (items.flatMap Item.words) = items := by
  induction items with
  | nil => rfl
  | cons item rest ih =>
    cases item with
    | replay path =>
      have later := ih legible
      rw [List.flatMap_cons, Item.words, List.cons_append, List.cons_append, List.nil_append,
        readItems, if_pos rfl, later]
    | speed name =>
      have later := ih legible
      rw [List.flatMap_cons, Item.words, List.cons_append, List.cons_append, List.nil_append,
        readItems, if_neg (by decide), if_pos rfl, later]
    | config path =>
      cases rest with
      | nil => rfl
      | cons next rest =>
        obtain ⟨notReplay, notSpeed, legible⟩ := legible
        have later := ih legible
        obtain ⟨value, words, split⟩ : ∃ value words,
            (next :: rest).flatMap Item.words = value :: words := by
          cases next <;> exact ⟨_, _, rfl⟩
        rw [split] at later
        rw [List.flatMap_cons, split, Item.words, List.singleton_append, readItems,
          if_neg notReplay, if_neg notSpeed, later]

/-! ## What counts -/

def Item.replay? : Item → Option (List UInt8)
  | .replay path => some path
  | _ => none

def Item.speed? : Item → Option PlaybackSpeed
  | .speed name => speedNamed name
  | _ => none

def Item.config? : Item → Option (List UInt8)
  | .config path => some path
  | _ => none

theorem foldl_apply (items : List Item) (args : CliArgs) :
    items.foldl CliArgs.apply args = {
      configPath := (items.filterMap Item.config?).getLast?.getD args.configPath
      replayPath := (items.filterMap Item.replay?).getLast?.getD args.replayPath
      speed := (items.filterMap Item.speed?).getLast?.getD args.speed } := by
  induction items using List.reverseRecOn with
  | nil => rfl
  | append_singleton items item ih =>
    rw [List.foldl_append, ih, List.foldl_cons, List.foldl_nil]
    cases item with
    | replay path | config path => simp [CliArgs.apply, Item.replay?, Item.config?, Item.speed?]
    | speed name =>
      cases named : speedNamed name <;>
        simp [CliArgs.apply, CliArgs.setSpeed, Item.replay?, Item.config?, Item.speed?, named]

/-- Every command line is the words of exactly one legible list of items, and the arguments are
the last replay file, the last configuration and the last speed with a known name in it, or
else the defaults. -/
theorem parseArgs_exact (argv : List (List UInt8)) :
    ∃ items, Legible items ∧ items.flatMap Item.words = argv.tail ∧
      (∀ others, Legible others → others.flatMap Item.words = argv.tail → others = items) ∧
      parseArgs argv = {
        configPath := (items.filterMap Item.config?).getLast?.getD (ascii "config/dev.yaml")
        replayPath := (items.filterMap Item.replay?).getLast?.getD []
        speed := (items.filterMap Item.speed?).getLast?.getD .realtime } := by
  refine ⟨readItems argv.tail, legible_readItems _, words_readItems _, ?_, ?_⟩
  · intro others legible same
    rw [← same, readItems_words legible]
  · rw [parseArgs, parseWords_eq_foldl, foldl_apply]

end CommandLine
