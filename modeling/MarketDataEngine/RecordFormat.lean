import MarketDataEngine.ByteCodec
import MarketDataEngine.MarketTypes
import Mathlib.Data.List.TakeWhile

/-!
# The recording format

The packed structures of `output/disk_logger.h` and the conversions between a
depth update and its record. Words are little-endian and numbers are binary64
patterns. `fromRecord` reads the symbol as a C string; without a terminator in
the field that read runs on past it, so there is no result.
-/

namespace RecordFormat

open MarketTypes

def fileMagic : UInt32 := 0x4D444531

def fileVersion : UInt32 := 1

/-- `SYMBOL_MAX_LEN`. -/
def symbolMaxLen : Nat := 32

structure FileHeader where
  magic : UInt32 := fileMagic
  version : UInt32 := fileVersion
  createdUs : UInt64 := 0
  recordCount : UInt32 := 0
  reserved : UInt32 := 0
  deriving DecidableEq

structure RecordHeader where
  wallTimestampUs : UInt64 := 0
  payloadSize : UInt32 := 0
  deriving DecidableEq

structure DepthRecord where
  eventTimeMs : UInt64
  firstUpdateId : UInt64
  lastUpdateId : UInt64
  symbol : Vector UInt8 symbolMaxLen
  bidCount : UInt16
  askCount : UInt16
  bids : Vector (PriceLevel Double) maxLevels
  asks : Vector (PriceLevel Double) maxLevels
  deriving DecidableEq

/-- A record of zero bytes. -/
def blankRecord : DepthRecord where
  eventTimeMs := 0
  firstUpdateId := 0
  lastUpdateId := 0
  symbol := Vector.replicate symbolMaxLen 0
  bidCount := 0
  askCount := 0
  bids := Vector.replicate maxLevels ⟨⟨0⟩, ⟨0⟩⟩
  asks := Vector.replicate maxLevels ⟨⟨0⟩, ⟨0⟩⟩

def fileHeader : Codec FileHeader :=
  (Codec.uint32.prod (Codec.uint32.prod (Codec.uint64.prod
    (Codec.uint32.prod Codec.uint32)))).map
    { toFun := fun p => ⟨p.1, p.2.1, p.2.2.1, p.2.2.2.1, p.2.2.2.2⟩
      invFun := fun h => (h.magic, h.version, h.createdUs, h.recordCount, h.reserved)
      left_inv := fun _ => rfl
      right_inv := fun _ => rfl }

def recordHeader : Codec RecordHeader :=
  (Codec.uint64.prod Codec.uint32).map
    { toFun := fun p => ⟨p.1, p.2⟩
      invFun := fun h => (h.wallTimestampUs, h.payloadSize)
      left_inv := fun _ => rfl
      right_inv := fun _ => rfl }

def double : Codec Double :=
  Codec.uint64.map
    { toFun := Double.mk
      invFun := Double.bits
      left_inv := fun _ => rfl
      right_inv := fun _ => rfl }

def priceLevel : Codec (PriceLevel Double) :=
  (double.prod double).map
    { toFun := fun p => ⟨p.1, p.2⟩
      invFun := fun level => (level.price, level.quantity)
      left_inv := fun _ => rfl
      right_inv := fun _ => rfl }

def depthRecord : Codec DepthRecord :=
  (Codec.uint64.prod (Codec.uint64.prod (Codec.uint64.prod
    ((Codec.bytes symbolMaxLen).prod (Codec.uint16.prod (Codec.uint16.prod
      ((priceLevel.vector maxLevels).prod (priceLevel.vector maxLevels)))))))).map
    { toFun := fun p => ⟨p.1, p.2.1, p.2.2.1, p.2.2.2.1, p.2.2.2.2.1, p.2.2.2.2.2.1,
        p.2.2.2.2.2.2.1, p.2.2.2.2.2.2.2⟩
      invFun := fun r => (r.eventTimeMs, r.firstUpdateId, r.lastUpdateId, r.symbol,
        r.bidCount, r.askCount, r.bids, r.asks)
      left_inv := fun _ => rfl
      right_inv := fun _ => rfl }

/-- A record header and its record, as they follow each other in the file. -/
def frame : Codec (RecordHeader × DepthRecord) := recordHeader.prod depthRecord

theorem fileHeader_size : fileHeader.size = 24 := rfl

theorem recordHeader_size : recordHeader.size = 12 := rfl

theorem depthRecord_size : depthRecord.size = 2108 := rfl

theorem frame_size : frame.size = 2120 := rfl

theorem fileHeader_encode (header : FileHeader) :
    fileHeader.encode header = Codec.uint32.encode header.magic ++
      (Codec.uint32.encode header.version ++ (Codec.uint64.encode header.createdUs ++
        (Codec.uint32.encode header.recordCount ++ Codec.uint32.encode header.reserved))) := rfl

theorem frame_encode (f : RecordHeader × DepthRecord) :
    frame.encode f = recordHeader.encode f.1 ++ depthRecord.encode f.2 := rfl

/-- `sizeof(DepthRecord)` as stored in a record header. -/
def payloadSize : UInt32 := UInt32.ofNat depthRecord.size

/-- The symbol field, zero filled: `memcpy` of at most 31 characters, then the terminator. -/
def symbolField (symbol : Symbol) : Vector UInt8 symbolMaxLen :=
  let len := if symbol.length ≥ symbolMaxLen then symbolMaxLen - 1 else symbol.length
  Vector.ofFn (fun i => if i < len then symbol.getD i 0 else 0)

def toRecord (update : DepthUpdate Double) : DepthRecord where
  eventTimeMs := update.eventTimeMs
  firstUpdateId := update.firstUpdateId
  lastUpdateId := update.lastUpdateId
  symbol := symbolField update.symbol
  bidCount := update.bidCount
  askCount := update.askCount
  bids := update.bids
  asks := update.asks

/-- The characters in front of the terminator, if the terminator is in the field. -/
def cString (field : List UInt8) : Option Symbol :=
  if 0 ∈ field then some (field.takeWhile (fun c => c != 0)) else none

/-- The counts are taken over as they are; the latency timestamps keep their defaults. -/
def fromRecord (rec : DepthRecord) : Option (DepthUpdate Double) :=
  (cString rec.symbol.toList).map (fun symbol => {
    eventTimeMs := rec.eventTimeMs
    firstUpdateId := rec.firstUpdateId
    lastUpdateId := rec.lastUpdateId
    symbol := symbol
    bids := rec.bids
    asks := rec.asks
    bidCount := rec.bidCount
    askCount := rec.askCount })

/-! ## What a record keeps of a symbol -/

/-- A symbol the fixed field can hold with its terminator. -/
def Recordable (symbol : Symbol) : Prop := symbol.length < symbolMaxLen ∧ 0 ∉ symbol

instance (symbol : Symbol) : Decidable (Recordable symbol) :=
  inferInstanceAs (Decidable (_ ∧ _))

/-- The characters before the first NUL among the first 31. -/
def storedSymbol (symbol : Symbol) : Symbol :=
  (symbol.take (symbolMaxLen - 1)).takeWhile (fun c => c != 0)

theorem symbolField_toList (symbol : Symbol) :
    (symbolField symbol).toList = symbol.take (symbolMaxLen - 1) ++
      List.replicate (symbolMaxLen - min (symbolMaxLen - 1) symbol.length) 0 := by
  have copied : (if symbol.length ≥ symbolMaxLen then symbolMaxLen - 1 else symbol.length) =
      min (symbolMaxLen - 1) symbol.length := by
    unfold symbolMaxLen
    split_ifs <;> omega
  refine List.ext_getElem ?_ ?_
  · simp only [Vector.length_toList, List.length_append, List.length_take, List.length_replicate]
    omega
  · intro i _ _
    rw [Vector.getElem_toList, List.getElem_append]
    simp only [symbolField, Vector.getElem_ofFn, copied, List.length_take]
    split_ifs with inside
    · have : i < symbol.length := Nat.lt_of_lt_of_le inside (Nat.min_le_right _ _)
      simp [List.getD_eq_getElem?_getD, this]
    · simp

theorem takeWhile_append_replicate_zero (chars : Symbol) (n : Nat) :
    (chars ++ List.replicate (n + 1) 0).takeWhile (fun c => c != 0) =
      chars.takeWhile (fun c => c != 0) := by
  induction chars with
  | nil => simp [List.replicate_succ]
  | cons c rest ih =>
    by_cases zero : c = 0
    · simp [zero]
    · simp [zero, ih]

theorem cString_symbolField (symbol : Symbol) :
    cString (symbolField symbol).toList = some (storedSymbol symbol) := by
  obtain ⟨n, hn⟩ : ∃ n, symbolMaxLen - min (symbolMaxLen - 1) symbol.length = n + 1 :=
    ⟨_, (Nat.succ_pred_eq_of_pos (by simp only [symbolMaxLen]; omega)).symm⟩
  rw [symbolField_toList, hn, cString, takeWhile_append_replicate_zero, if_pos]
  · rfl
  · simp

/-- A record always converts back, to the update with its stored symbol and no timestamps. -/
theorem fromRecord_toRecord (update : DepthUpdate Double) :
    fromRecord (toRecord update) =
      some { update.untimed with symbol := storedSymbol update.symbol } := by
  rw [fromRecord]
  simp only [toRecord, cString_symbolField]
  rfl

theorem storedSymbol_eq_self_iff (symbol : Symbol) :
    storedSymbol symbol = symbol ↔ Recordable symbol := by
  constructor
  · intro same
    constructor
    · have short := congrArg List.length same
      have le := (List.takeWhile_prefix (fun c => c != 0)
        (l := symbol.take (symbolMaxLen - 1))).length_le
      simp only [storedSymbol, List.length_take, symbolMaxLen] at short le ⊢
      omega
    · intro nul
      rw [← same] at nul
      simpa using List.mem_takeWhile_imp nul
  · rintro ⟨short, clean⟩
    have fits : symbol.length ≤ symbolMaxLen - 1 := by
      simp only [symbolMaxLen] at short ⊢
      omega
    rw [storedSymbol, List.take_of_length_le fits, List.takeWhile_eq_self_iff]
    intro c hc
    exact bne_iff_ne.mpr (fun zero => clean (zero ▸ hc))

/-- A symbol that fits comes back unchanged, with everything else the record holds. -/
theorem fromRecord_toRecord_of_recordable {update : DepthUpdate Double}
    (recordable : Recordable update.symbol) :
    fromRecord (toRecord update) = some update.untimed := by
  rw [fromRecord_toRecord, (storedSymbol_eq_self_iff _).mpr recordable]
  rfl

theorem toRecord_untimed (update : DepthUpdate Double) :
    toRecord update.untimed = toRecord update := rfl

theorem fromRecord_eq_none_iff (rec : DepthRecord) :
    fromRecord rec = none ↔ 0 ∉ rec.symbol.toList := by
  rw [fromRecord, Option.map_eq_none_iff, cString]
  split_ifs with terminated
  · simp [terminated]
  · simp [terminated]

end RecordFormat
