import Mathlib.Data.Rat.Defs
import Mathlib.Data.Vector.Basic

/-!
# Market messages

The record types of `core/types.h`. A message carries its prices and
quantities in a number type of its own: `Double` patterns where bytes matter,
exact rationals where the engine computes. Level arrays have their fixed
length in their type; the level counts beside them are unchecked 16-bit words,
as in the source.
-/

namespace MarketTypes

universe u v

/-- Characters of a `std::string`. -/
abbrev Symbol := List UInt8

/-- Ticks of the steady clock, in nanoseconds. -/
abbrev TimePoint := Int

/-- A binary64 value as its bit pattern, which is what `memcpy` moves. -/
structure Double where
  bits : UInt64
  deriving DecidableEq, Repr

/-- Neither an infinity nor a NaN. -/
def Double.Finite (x : Double) : Prop := x.bits.toNat / 2 ^ 52 % 2 ^ 11 ≠ 2047

instance (x : Double) : Decidable x.Finite := inferInstanceAs (Decidable (_ ≠ _))

/-- The exact value of a finite pattern. Infinities and NaN have none and read as 0 here,
unlike in the code, which takes a level out only if its quantity equals 0.0: what is proved
through this reading speaks for the code where the numbers are `Finite`. -/
def Double.toRat (x : Double) : ℚ :=
  let fraction : Nat := x.bits.toNat % 2 ^ 52
  let exponent : Nat := x.bits.toNat / 2 ^ 52 % 2 ^ 11
  let magnitude : ℚ :=
    if exponent = 2047 then 0
    else if exponent = 0 then mkRat fraction (2 ^ 1074)
    else mkRat ((2 ^ 52 + fraction) * 2 ^ exponent) (2 ^ 1075)
  if x.bits.toNat < 2 ^ 63 then magnitude else -magnitude

example : (Double.mk 0x3FF8000000000000).toRat = 3 / 2 ∧
    (Double.mk 0xC059000000000000).toRat = -100 := by decide +kernel

structure PriceLevel (α : Type u) where
  price : α
  quantity : α
  deriving DecidableEq, Repr

/-- `DepthUpdate::MAX_LEVELS`. -/
def maxLevels : Nat := 64

structure DepthUpdate (α : Type u) where
  eventTimeMs : UInt64
  firstUpdateId : UInt64
  lastUpdateId : UInt64
  symbol : Symbol
  bids : Vector (PriceLevel α) maxLevels
  asks : Vector (PriceLevel α) maxLevels
  bidCount : UInt16
  askCount : UInt16
  tsReceived : TimePoint := 0
  tsParsed : TimePoint := 0
  tsEnqueued : TimePoint := 0
  tsDequeued : TimePoint := 0
  deriving DecidableEq

structure Trade (α : Type u) where
  eventTimeMs : UInt64
  tradeId : UInt64
  symbol : Symbol
  price : α
  quantity : α
  isBuyerMaker : Bool
  tsReceived : TimePoint := 0
  tsParsed : TimePoint := 0
  tsEnqueued : TimePoint := 0
  tsDequeued : TimePoint := 0
  deriving DecidableEq

/-- The tagged message of the queue; only the field named by the tag is ever read. -/
inductive QueueMessage (α : Type u) where
  | depthUpdate (depth : DepthUpdate α)
  | trade (trade : Trade α)
  deriving DecidableEq

variable {α : Type u} {β : Type v}

def PriceLevel.map (f : α → β) (level : PriceLevel α) : PriceLevel β :=
  ⟨f level.price, f level.quantity⟩

/-- The same update with its numbers read in another number type. -/
def DepthUpdate.map (f : α → β) (update : DepthUpdate α) : DepthUpdate β :=
  { update with
    bids := update.bids.map (PriceLevel.map f)
    asks := update.asks.map (PriceLevel.map f) }

def Trade.map (f : α → β) (trade : Trade α) : Trade β :=
  { trade with price := f trade.price, quantity := f trade.quantity }

/-- Both level counts stay inside the level arrays. -/
def DepthUpdate.InBounds (update : DepthUpdate α) : Prop :=
  update.bidCount.toNat ≤ maxLevels ∧ update.askCount.toNat ≤ maxLevels

instance (update : DepthUpdate α) : Decidable update.InBounds :=
  inferInstanceAs (Decidable (_ ∧ _))

def PriceLevel.Finite (level : PriceLevel Double) : Prop :=
  level.price.Finite ∧ level.quantity.Finite

instance (level : PriceLevel Double) : Decidable level.Finite :=
  inferInstanceAs (Decidable (_ ∧ _))

/-- The counted levels have finite numbers. -/
def DepthUpdate.Finite (update : DepthUpdate Double) : Prop :=
  (∀ level ∈ update.bids.toList.take update.bidCount.toNat, level.Finite) ∧
    ∀ level ∈ update.asks.toList.take update.askCount.toNat, level.Finite

instance (update : DepthUpdate Double) : Decidable update.Finite :=
  inferInstanceAs (Decidable (_ ∧ _))

/-- The update without its latency timestamps, which no recording keeps. -/
def DepthUpdate.untimed (update : DepthUpdate α) : DepthUpdate α :=
  { update with tsReceived := 0, tsParsed := 0, tsEnqueued := 0, tsDequeued := 0 }

/-- The trade without its latency timestamps. -/
def Trade.untimed (trade : Trade α) : Trade α :=
  { trade with tsReceived := 0, tsParsed := 0, tsEnqueued := 0, tsDequeued := 0 }

namespace QueueMessage

def untimed : QueueMessage α → QueueMessage α
  | .depthUpdate d => .depthUpdate d.untimed
  | .trade t => .trade t.untimed

/-- A default constructed message. -/
def blank : QueueMessage Double :=
  .depthUpdate {
    eventTimeMs := 0
    firstUpdateId := 0
    lastUpdateId := 0
    symbol := []
    bids := Vector.replicate maxLevels ⟨⟨0⟩, ⟨0⟩⟩
    asks := Vector.replicate maxLevels ⟨⟨0⟩, ⟨0⟩⟩
    bidCount := 0
    askCount := 0 }

def symbol : QueueMessage α → Symbol
  | .depthUpdate d => d.symbol
  | .trade t => t.symbol

/-- A message whose handling reads no level outside the arrays. -/
def InBounds : QueueMessage α → Prop
  | .depthUpdate d => d.InBounds
  | .trade _ => True

/-- A message that brings finite numbers to the book, if any. -/
def Finite : QueueMessage Double → Prop
  | .depthUpdate d => d.Finite
  | .trade _ => True

instance (msg : QueueMessage Double) : Decidable msg.Finite :=
  match msg with
  | .depthUpdate d => inferInstanceAs (Decidable d.Finite)
  | .trade _ => instDecidableTrue

/-- `msg.depth.ts_dequeued = now` or `msg.trade.ts_dequeued = now`. -/
def stampDequeued (now : TimePoint) : QueueMessage α → QueueMessage α
  | .depthUpdate d => .depthUpdate { d with tsDequeued := now }
  | .trade t => .trade { t with tsDequeued := now }

end QueueMessage

@[simp] theorem DepthUpdate.map_symbol (f : α → β) (update : DepthUpdate α) :
    (update.map f).symbol = update.symbol := rfl

theorem DepthUpdate.map_inBounds (f : α → β) (update : DepthUpdate α) :
    (update.map f).InBounds ↔ update.InBounds := Iff.rfl

end MarketTypes
