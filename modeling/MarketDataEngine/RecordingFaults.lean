import MarketDataEngine.AcceptedRecords
import Mathlib.Algebra.Ring.Nat

/-!
# Failed writes in a recording

A write is two `fwrite` calls, and nothing takes back the bytes that a failed one
leaves in the file. This module gives the exact patterns of failures under which
the closed file still reads back as the updates whose write returned true. The
header written on opening and the count written on closing are not taken to fail.
-/

namespace RecordingFaults

open MarketTypes RecordFormat ByteCodec AcceptedRecords
open DiskLogger (WriteEnv landedBytes succeeded frameOf)

/-- The closed file reads back as exactly the updates whose write returned true, in
order, and its record count is their number. -/
def Atomic (createdUs : UInt64) (writes : List (DepthUpdate Double × WriteEnv)) : Prop :=
  ∃ reader, DiskReader.openFile {}
      (some (DiskReader.recorded createdUs writes).2.close.content) = (true, reader) ∧
    reader.readAll.map (fun f => f.2) = (succeeded writes).map (fun w => toRecord w.1) ∧
    reader.header.recordCount.toNat = reader.readAll.length

/-- A leftover of nine bytes or more begins one to three bytes behind the last whole
record, where it puts the payload size of its own header into the wrong place. -/
def Shifted : Nat → List Nat → Prop
  | _, [] => False
  | offset, n :: rest => 1 ≤ offset ∧ offset ≤ 3 ∧ 9 ≤ n ∨ Shifted (offset + n) rest

/-- The failures leave no byte in front of a successful write, and what they leave
behind the last one cannot be taken for a record. The list says how many bytes of each
write's 2120 reached the file. -/
def Clean (sizes : List Nat) : Prop :=
  ∃ front back, sizes = front ++ back ∧ (∀ n ∈ front, n = 0 ∨ n = frame.size) ∧
    (∀ n ∈ back, n < frame.size) ∧ front.count frame.size < 2 ^ 32 ∧
    (back.sum < frame.size ∨ Shifted 0 back)

/-! ## Frames in front of other bytes -/

/-- The bytes of the payload size in every record header. -/
def sizeBytes : List UInt8 := [0x3C, 0x08, 0, 0]

section Frames
variable {header tail : List UInt8} {frames : List (RecordHeader × DepthRecord)}

theorem frameAt_laid (size : header.length = 24) {i : Nat} (inside : i < frames.length) :
    frameAt (header ++ (frames.flatMap frame.encode ++ tail)) (frameOffset i) = frames[i] := by
  have whole : i * frame.size + frame.size ≤ (frames.flatMap frame.encode).length := by
    rw [frame.length_flatMap_encode, ← Nat.succ_mul]
    exact Nat.mul_le_mul_right _ inside
  have offset : frameOffset i = header.length + i * frame.size := by
    rw [size, frame_size, frameOffset, Nat.mul_comm]
  rw [frameAt, offset, List.drop_length_add_append, List.drop_append_of_le_length (by omega),
    List.take_append_of_le_length (by rw [List.length_drop]; omega),
    frame.slice_flatMap frames i inside, frame.decode_encode]

theorem drop_laid (size : header.length = 24) :
    (header ++ (frames.flatMap frame.encode ++ tail)).drop (frameOffset frames.length) = tail := by
  have offset : frameOffset frames.length =
      header.length + (frames.flatMap frame.encode).length := by
    rw [size, frame.length_flatMap_encode, frame_size, frameOffset, Nat.mul_comm]
  rw [offset, List.drop_length_add_append, List.drop_left]

theorem length_laid (size : header.length = 24) :
    (header ++ (frames.flatMap frame.encode ++ tail)).length =
      frameOffset frames.length + tail.length := by
  rw [List.length_append, List.length_append, size, frame.length_flatMap_encode, frame_size,
    frameOffset]
  omega

theorem accepted_laid (size : header.length = 24)
    (payloads : ∀ f ∈ frames, f.1.payloadSize = payloadSize) {i : Nat}
    (inside : i < frames.length) :
    Accepted (header ++ (frames.flatMap frame.encode ++ tail)) i := by
  constructor
  · rw [length_laid size]
    have before := frameOffset_le i (frames.length - (i + 1))
    have last : i + (frames.length - (i + 1)) + 1 = frames.length := by omega
    rw [last] at before
    exact before.trans (Nat.le_add_right _ _)
  · intro j below
    rw [← payloadSize_iff, frameAt_laid size (Nat.lt_of_le_of_lt below inside)]
    exact payloads _ (List.getElem_mem _)

/-- Bytes behind whole frames are read as a further frame if they are long enough and
have the payload size in place. -/
theorem accepted_laid_iff (size : header.length = 24)
    (payloads : ∀ f ∈ frames, f.1.payloadSize = payloadSize) :
    Accepted (header ++ (frames.flatMap frame.encode ++ tail)) frames.length ↔
      2120 ≤ tail.length ∧ wordAt tail 8 4 = 2108 := by
  have last : wordAt (header ++ (frames.flatMap frame.encode ++ tail))
      (frameOffset frames.length + 8) 4 = wordAt tail 8 4 := by
    rw [wordAt, ← List.drop_drop, drop_laid size, wordAt]
  rw [Accepted, length_laid size, frameOffset_succ, Nat.add_le_add_iff_left]
  refine and_congr_right fun _ => ?_
  constructor
  · intro sizes
    rw [← last]
    exact sizes frames.length (Nat.le_refl _)
  · intro word j below
    rcases Nat.lt_or_eq_of_le below with inside | rfl
    · exact (accepted_laid size payloads inside).2 j (Nat.le_refl j)
    · rw [last, word]

/-- What is read of whole frames in front of other bytes: the frames, and nothing else
unless the other bytes pass for a frame. -/
theorem readAll_eq_iff {reader : DiskReader}
    (opens : DiskReader.openFile {} (some (header ++ (frames.flatMap frame.encode ++ tail))) =
      (true, reader))
    (size : header.length = 24) (payloads : ∀ f ∈ frames, f.1.payloadSize = payloadSize) :
    reader.readAll = frames ↔ ¬ (2120 ≤ tail.length ∧ wordAt tail 8 4 = 2108) := by
  have records := getElem?_readAll opens
  rw [← accepted_laid_iff size payloads]
  constructor
  · intro same accepted
    have found := (records _ _).mpr ⟨accepted, rfl⟩
    rw [same, List.getElem?_eq_none (Nat.le_refl _)] at found
    cases found
  · intro refused
    refine List.ext_getElem? ?_
    intro i
    by_cases inside : i < frames.length
    · rw [List.getElem?_eq_getElem inside, records]
      exact ⟨accepted_laid size payloads inside, (frameAt_laid size inside).symm⟩
    · rw [List.getElem?_eq_none (Nat.not_lt.mp inside), List.getElem?_eq_none_iff]
      by_contra beyond
      have found := List.getElem?_eq_getElem (Nat.not_le.mp beyond)
      exact refused (((records i _).mp found).1.of_le (Nat.not_lt.mp inside))

end Frames

/-! ## The bytes of leftovers -/

theorem length_landedBytes (writes : List (DepthUpdate Double × WriteEnv)) :
    (landedBytes writes).length = (writes.map (fun w => w.2.landed)).sum := by
  induction writes with
  | nil => rfl
  | cons w rest ih =>
    rw [landedBytes, List.flatMap_cons, ← landedBytes, List.length_append, List.length_take,
      frame.length_encode, Nat.min_eq_left (DiskLogger.landed_le w.2), ih, List.map_cons,
      List.sum_cons]

/-- A byte of a sequence of writes is a byte of the first one's frame or of the others. -/
theorem getElem?_landedBytes_cons (w : DepthUpdate Double × WriteEnv)
    (rest : List (DepthUpdate Double × WriteEnv)) (k : Nat) :
    (landedBytes (w :: rest))[k]? =
      if k < w.2.landed then (frame.encode (frameOf w.1 w.2))[k]?
      else (landedBytes rest)[k - w.2.landed]? := by
  have length : ((frame.encode (frameOf w.1 w.2)).take w.2.landed).length = w.2.landed := by
    rw [List.length_take, frame.length_encode, Nat.min_eq_left (DiskLogger.landed_le w.2)]
  rw [landedBytes, List.flatMap_cons, ← landedBytes, List.getElem?_append, length]
  split_ifs with inside
  · exact List.getElem?_take_of_lt inside
  · rfl

theorem encode_payloadSize : Codec.uint32.encode payloadSize = sizeBytes := by decide

/-- The header of a frame: the clock reading, then the payload size. -/
theorem getElem?_frame_header (update : DepthUpdate Double) (env : WriteEnv) {k : Nat}
    (inside : k < 12) :
    (frame.encode (frameOf update env))[k]? =
      (Codec.uint64.encode env.wallUs ++ sizeBytes)[k]? := by
  have header : recordHeader.encode ⟨env.wallUs, payloadSize⟩ =
      Codec.uint64.encode env.wallUs ++ sizeBytes := by
    rw [← encode_payloadSize]
    rfl
  have length : (recordHeader.encode ⟨env.wallUs, payloadSize⟩).length = 12 :=
    recordHeader.length_encode _
  rw [frame_encode, frameOf, List.getElem?_append_left (by rw [length]; exact inside), header]

theorem getElem?_frame_size (update : DepthUpdate Double) (env : WriteEnv) {k : Nat}
    (inside : k < 4) : (frame.encode (frameOf update env))[8 + k]? = sizeBytes[k]? := by
  have length : (Codec.uint64.encode env.wallUs).length = 8 := Codec.uint64.length_encode _
  rw [getElem?_frame_header update env (by omega), List.getElem?_append_right (by omega), length,
    Nat.add_sub_cancel_left]

/-- The record of a frame begins with its event time. -/
theorem getElem?_frame_record (f : RecordHeader × DepthRecord) :
    (frame.encode f)[12]? = (Codec.uint64.encode f.2.eventTimeMs)[0]? := by
  have length : (recordHeader.encode f.1).length = 12 := recordHeader.length_encode _
  have time : (Codec.uint64.encode f.2.eventTimeMs).length = 8 := Codec.uint64.length_encode _
  obtain ⟨more, record⟩ : ∃ more, depthRecord.encode f.2 =
      Codec.uint64.encode f.2.eventTimeMs ++ more := ⟨_, rfl⟩
  rw [frame_encode, List.getElem?_append_right (by rw [length]), length, Nat.sub_self, record,
    List.getElem?_append_left (by rw [time]; decide)]

/-- The payload size stands in four bytes. -/
theorem word_iff {tail : List UInt8} (long : 12 ≤ tail.length) :
    wordAt tail 8 4 = 2108 ↔ ∀ k < 4, tail[8 + k]? = sizeBytes[k]? := by
  have length : ((tail.drop 8).take 4).length = 4 := by
    rw [List.length_take, List.length_drop]
    omega
  have back := leBytes_leNat ((tail.drop 8).take 4)
  rw [length] at back
  have bytes : ∀ k < 4, ((tail.drop 8).take 4)[k]? = tail[8 + k]? := by
    intro k inside
    rw [List.getElem?_take_of_lt inside, List.getElem?_drop]
  constructor
  · intro word k inside
    rw [wordAt] at word
    rw [word] at back
    rw [← bytes k inside, ← back]
    rfl
  · intro same
    have slice : (tail.drop 8).take 4 = sizeBytes := by
      refine List.ext_getElem? ?_
      intro k
      rcases Nat.lt_or_ge k 4 with inside | outside
      · rw [bytes k inside, same k inside]
      · rw [List.getElem?_eq_none (length.trans_le outside), List.getElem?_eq_none outside]
    rw [wordAt, slice]
    decide

/-- A shifted leftover puts the first byte of its payload size where another one belongs. -/
theorem shifted_byte {writes : List (DepthUpdate Double × WriteEnv)} {offset : Nat}
    (shifted : Shifted offset (writes.map (fun w => w.2.landed))) :
    ∃ t, 9 ≤ t ∧ t ≤ 11 ∧ offset ≤ t ∧ (landedBytes writes)[t - offset]? = some 0x3C := by
  induction writes generalizing offset with
  | nil => exact shifted.elim
  | cons w rest ih =>
    change (1 ≤ offset ∧ offset ≤ 3 ∧ 9 ≤ w.2.landed) ∨
      Shifted (offset + w.2.landed) (rest.map (fun w => w.2.landed)) at shifted
    rcases shifted with ⟨behind, near, long⟩ | later
    · refine ⟨offset + 8, by omega, by omega, by omega, ?_⟩
      rw [Nat.add_sub_cancel_left, getElem?_landedBytes_cons, if_pos (by omega)]
      exact getElem?_frame_size w.1 w.2 (by decide : 0 < 4)
    · obtain ⟨t, above, below, past, byte⟩ := ih later
      refine ⟨t, above, below, by omega, ?_⟩
      rw [getElem?_landedBytes_cons, if_neg (by omega), Nat.sub_sub]
      exact byte

/-! ## The closed file -/

/-- Every write of the list left all of its frame or nothing. -/
def Whole (writes : List (DepthUpdate Double × WriteEnv)) : Prop :=
  ∀ w ∈ writes, w.2.landed = 0 ∨ w.2.landed = frame.size

def framesOf (writes : List (DepthUpdate Double × WriteEnv)) :
    List (RecordHeader × DepthRecord) :=
  (succeeded writes).map (fun w => frameOf w.1 w.2)

theorem succeeded_cons (w : DepthUpdate Double × WriteEnv)
    (rest : List (DepthUpdate Double × WriteEnv)) :
    succeeded (w :: rest) =
      if w.2.landed = frame.size then w :: succeeded rest else succeeded rest := by
  by_cases complete : w.2.Complete
  · have landed := (DiskLogger.landed_eq_size_iff w.2).mpr complete
    simp [succeeded, complete, landed]
  · have landed := (DiskLogger.landed_eq_size_iff w.2).not.mpr complete
    simp [succeeded, complete, landed]

theorem landedBytes_whole {writes : List (DepthUpdate Double × WriteEnv)} (whole : Whole writes) :
    landedBytes writes = (framesOf writes).flatMap frame.encode := by
  induction writes with
  | nil => rfl
  | cons w rest ih =>
    have later := ih (fun v hv => whole v (List.mem_cons_of_mem w hv))
    rw [landedBytes, List.flatMap_cons, ← landedBytes, later, framesOf, framesOf, succeeded_cons]
    rcases whole w List.mem_cons_self with nothing | all
    · rw [nothing, List.take_zero, List.nil_append, if_neg (by rw [frame_size]; decide)]
    · rw [all, if_pos rfl, List.map_cons, List.flatMap_cons,
        List.take_of_length_le (frame.length_encode _).le]

theorem payload_framesOf (writes : List (DepthUpdate Double × WriteEnv)) :
    ∀ f ∈ framesOf writes, f.1.payloadSize = payloadSize := by
  intro f hf
  obtain ⟨w, -, rfl⟩ := List.mem_map.mp hf
  rw [frameOf]

theorem succeeded_append (front back : List (DepthUpdate Double × WriteEnv)) :
    succeeded (front ++ back) = succeeded front ++ succeeded back := List.filter_append _ _

/-- The closed file is accepted; behind its header stand the frames of whole writes,
then whatever the other writes left. -/
theorem recorded_opens (createdUs : UInt64)
    {front : List (DepthUpdate Double × WriteEnv)} (whole : Whole front)
    (back : List (DepthUpdate Double × WriteEnv)) :
    ∃ reader header, header.length = 24 ∧
      (DiskReader.recorded createdUs (front ++ back)).2.close.content =
        header ++ ((framesOf front).flatMap frame.encode ++ landedBytes back) ∧
      DiskReader.openFile {} (some (header ++
        ((framesOf front).flatMap frame.encode ++ landedBytes back))) = (true, reader) ∧
      reader.header.recordCount = UInt32.ofNat (succeeded (front ++ back)).length := by
  have bytes : landedBytes (front ++ back) =
      (framesOf front).flatMap frame.encode ++ landedBytes back := by
    rw [← landedBytes_whole whole]
    exact List.flatMap_append
  have content := DiskReader.close_recorded createdUs (front ++ back)
  rw [bytes] at content
  exact ⟨_, _, fileHeader.length_encode _, content, DiskReader.openFile_header {} _ rfl rfl, rfl⟩

theorem count_landed (writes : List (DepthUpdate Double × WriteEnv)) :
    (writes.map (fun w => w.2.landed)).count frame.size = (succeeded writes).length := by
  induction writes with
  | nil => rfl
  | cons w rest ih =>
    rw [List.map_cons, List.count_cons, ih, succeeded_cons]
    by_cases complete : w.2.landed = frame.size
    · rw [if_pos complete, if_pos (beq_iff_eq.mpr complete), List.length_cons]
    · rw [if_neg complete, if_neg (fun same => complete (beq_iff_eq.mp same)), Nat.add_zero]

theorem succeeded_none {writes : List (DepthUpdate Double × WriteEnv)}
    (failed : ∀ w ∈ writes, w.2.landed < frame.size) : succeeded writes = [] := by
  refine List.filter_eq_nil_iff.mpr ?_
  intro w hw complete
  have landed := (DiskLogger.landed_eq_size_iff w.2).mpr (of_decide_eq_true complete)
  exact absurd (failed w hw) (by rw [landed]; exact Nat.lt_irrefl _)

/-- Clean failures are enough, whatever is written. -/
theorem atomic_of_clean (createdUs : UInt64) {writes : List (DepthUpdate Double × WriteEnv)}
    (clean : Clean (writes.map (fun w => w.2.landed))) : Atomic createdUs writes := by
  obtain ⟨sizes, sizes', split, whole, failed, few, harmless⟩ := clean
  obtain ⟨front, back, rfl, rfl, rfl⟩ := List.map_eq_append_iff.mp split
  have whole' : Whole front := fun w hw => whole _ (List.mem_map_of_mem hw)
  have none := succeeded_none (fun w hw => failed _ (List.mem_map_of_mem hw))
  have succ : succeeded (front ++ back) = succeeded front := by
    rw [succeeded_append, none, List.append_nil]
  rw [count_landed] at few
  obtain ⟨reader, header, size, content, opens, count⟩ := recorded_opens createdUs whole' back
  have records : reader.readAll = framesOf front := by
    rw [readAll_eq_iff opens size (payload_framesOf front)]
    rintro ⟨long, word⟩
    rw [length_landedBytes] at long
    rcases harmless with short | shifted
    · rw [frame_size] at short
      omega
    · obtain ⟨t, above, below, -, byte⟩ := shifted_byte shifted
      have place := (word_iff (by rw [length_landedBytes]; omega)).mp word (t - 8) (by omega)
      rw [Nat.add_sub_cancel' (by omega : 8 ≤ t)] at place
      rw [Nat.sub_zero, place] at byte
      have other : ∀ k, 1 ≤ k → k < 4 → sizeBytes[k]? ≠ some 0x3C := by decide
      exact other (t - 8) (by omega) (by omega) byte
  refine ⟨reader, by rw [content, opens], ?_, ?_⟩
  · rw [records, framesOf, succ, List.map_map]
    rfl
  · rw [count, succ, records, framesOf, List.length_map]
    exact UInt32.toNat_ofNat_of_lt' few

/-! ## What goes wrong otherwise -/

/-- Reading back a file that kept its promise, cut behind any whole writes. -/
theorem Atomic.read {createdUs : UInt64} {front back : List (DepthUpdate Double × WriteEnv)}
    (atomic : Atomic createdUs (front ++ back)) (whole : Whole front) :
    ∃ reader header, header.length = 24 ∧
      DiskReader.openFile {} (some (header ++
        ((framesOf front).flatMap frame.encode ++ landedBytes back))) = (true, reader) ∧
      reader.readAll.map (fun f => f.2) =
        (succeeded (front ++ back)).map (fun w => toRecord w.1) ∧
      (succeeded (front ++ back)).length < 2 ^ 32 := by
  obtain ⟨reader, opens, records, count⟩ := atomic
  obtain ⟨reader', header, size, content, opens', count'⟩ := recorded_opens createdUs whole back
  rw [content, opens'] at opens
  obtain rfl : reader' = reader := (Prod.mk.inj opens).2
  refine ⟨reader', header, size, opens', records, ?_⟩
  have length := congrArg List.length records
  rw [List.length_map, List.length_map] at length
  rw [← length, ← count]
  exact UInt32.toNat_lt _

/-- Leftovers that pass for a frame are read as one. -/
theorem not_atomic_of_word {createdUs : UInt64}
    {front back : List (DepthUpdate Double × WriteEnv)} (whole : Whole front)
    (failed : ∀ w ∈ back, w.2.landed < frame.size) (long : 2120 ≤ (landedBytes back).length)
    (word : wordAt (landedBytes back) 8 4 = 2108) : ¬ Atomic createdUs (front ++ back) := by
  intro atomic
  obtain ⟨reader, header, size, opens, records, -⟩ := atomic.read whole
  have accepted := (accepted_laid_iff size (payload_framesOf front)).mpr ⟨long, word⟩
  have found := (getElem?_readAll opens _ _).mpr ⟨accepted, rfl⟩
  have inside := (List.getElem?_eq_some_iff.mp found).1
  have length := congrArg List.length records
  rw [succeeded_append, succeeded_none failed, List.append_nil, List.length_map,
    List.length_map] at length
  rw [length, framesOf, List.length_map] at inside
  exact Nat.lt_irrefl _ inside

/-- An update that only has its event time. -/
def plainUpdate (eventTimeMs : UInt64) : DepthUpdate Double where
  eventTimeMs := eventTimeMs
  firstUpdateId := 0
  lastUpdateId := 0
  symbol := []
  bids := Vector.replicate maxLevels ⟨⟨0⟩, ⟨0⟩⟩
  asks := Vector.replicate maxLevels ⟨⟨0⟩, ⟨0⟩⟩
  bidCount := 0
  askCount := 0

/-- At clock reading 0, the successful writes are marked by their event time. -/
def Marked (writes : List (DepthUpdate Double × WriteEnv)) : Prop :=
  ∀ w ∈ writes, w.2.wallUs = 0 ∧
    w.1 = plainUpdate (if w.2.landed = frame.size then 1 else 0)

theorem header_byte_ne_one (update : DepthUpdate Double) {env : WriteEnv} (zero : env.wallUs = 0)
    {k : Nat} (inside : k < 12) : (frame.encode (frameOf update env))[k]? ≠ some 1 := by
  have bytes : ∀ k < 12, (Codec.uint64.encode 0 ++ sizeBytes)[k]? ≠ some 1 := by decide
  rw [getElem?_frame_header update env inside, zero]
  exact bytes k inside

/-- Among marked writes the mark does not stand where a frame begun earlier has its record. -/
theorem mark_not_shifted {writes : List (DepthUpdate Double × WriteEnv)} (marked : Marked writes)
    {offset : Nat} (behind : 1 ≤ offset) (near : offset ≤ 12) :
    (landedBytes writes)[12 - offset]? ≠ some 1 := by
  induction writes generalizing offset with
  | nil => exact Option.some_ne_none 1 ∘ Eq.symm
  | cons w rest ih =>
    rw [getElem?_landedBytes_cons]
    split_ifs with inside
    · exact header_byte_ne_one w.1 (marked w List.mem_cons_self).1 (by omega)
    · rw [Nat.sub_sub]
      exact ih (fun v hv => marked v (List.mem_cons_of_mem w hv)) (by omega) (by omega)

/-- Behind bytes of a failed write, no marked update is read in its place. -/
theorem mark_not_read {w : DepthUpdate Double × WriteEnv}
    {rest : List (DepthUpdate Double × WriteEnv)} (marked : Marked (w :: rest))
    (some' : 0 < w.2.landed) (failed : w.2.landed < frame.size) :
    (landedBytes (w :: rest))[12]? ≠ some 1 := by
  rw [getElem?_landedBytes_cons]
  split_ifs with inside
  · have content := (marked w List.mem_cons_self).2
    rw [if_neg (Nat.ne_of_lt failed)] at content
    have unmarked : (Codec.uint64.encode 0)[0]? ≠ some 1 := by decide
    rw [getElem?_frame_record, frameOf, content]
    exact unmarked
  · exact mark_not_shifted (fun v hv => marked v (List.mem_cons_of_mem w hv)) some' (by omega)

/-- A successful write is lost behind bytes of a failed one. -/
theorem not_atomic_of_leftover {createdUs : UInt64}
    {front rest : List (DepthUpdate Double × WriteEnv)} {w v : DepthUpdate Double × WriteEnv}
    (whole : Whole front) (marked : Marked (w :: rest)) (some' : 0 < w.2.landed)
    (failed : w.2.landed < frame.size) (mem : v ∈ rest) (later : v.2.landed = frame.size) :
    ¬ Atomic createdUs (front ++ w :: rest) := by
  intro atomic
  obtain ⟨reader, header, size, opens, records, -⟩ := atomic.read whole
  have succ : v ∈ succeeded (w :: rest) := List.mem_filter.mpr
    ⟨List.mem_cons_of_mem w mem, decide_eq_true ((DiskLogger.landed_eq_size_iff v.2).mp later)⟩
  obtain ⟨u, more, next⟩ := List.exists_cons_of_ne_nil (List.ne_nil_of_mem succ)
  have complete : u ∈ succeeded (w :: rest) := next ▸ List.mem_cons_self
  obtain ⟨written, decided⟩ := List.mem_filter.mp complete
  have all := (DiskLogger.landed_eq_size_iff u.2).mpr (of_decide_eq_true decided)
  have mark : u.1 = plainUpdate 1 := by
    rw [(marked u written).2, if_pos all]
  have read : (reader.readAll.map (fun f => f.2))[(framesOf front).length]? =
      some (toRecord (plainUpdate 1)) := by
    rw [records, succeeded_append, next, List.map_append, framesOf, List.length_map,
      List.getElem?_append_right (by rw [List.length_map]), List.length_map, Nat.sub_self,
      List.map_cons, List.getElem?_cons_zero, mark]
  rw [List.getElem?_map, Option.map_eq_some_iff] at read
  obtain ⟨f, found, record⟩ := read
  obtain ⟨accepted, hf⟩ := (getElem?_readAll opens _ _).mp found
  have inside := accepted.1
  rw [frameOffset_succ] at inside
  have bytes := encode_frameAt inside
  rw [← hf, drop_laid size] at bytes
  have byte := getElem?_frame_record f
  rw [bytes, record, List.getElem?_take_of_lt (by rw [frame_size]; decide)] at byte
  exact mark_not_read marked some' failed (byte.trans (by decide))

/-! ## Writes for a pattern of failures -/

/-- A write that leaves `n` bytes of its frame. -/
def envOf (wallUs : UInt64) (n : Nat) : WriteEnv :=
  if n < 12 then ⟨wallUs, n, 0⟩ else ⟨wallUs, 12, n - 12⟩

theorem landed_envOf (wallUs : UInt64) {n : Nat} (inside : n ≤ frame.size) :
    (envOf wallUs n).landed = n := by
  rw [frame_size] at inside
  unfold envOf WriteEnv.landed
  rw [recordHeader_size, depthRecord_size]
  split_ifs with header
  · rfl
  · simp only at *
    omega
  · simp only at *
    omega

theorem wallUs_envOf (wallUs : UInt64) (n : Nat) : (envOf wallUs n).wallUs = wallUs := by
  unfold envOf
  split_ifs <;> rfl

/-- Marked writes that leave the given numbers of bytes. -/
def markedWrites (sizes : List Nat) : List (DepthUpdate Double × WriteEnv) :=
  sizes.map (fun n => (plainUpdate (if n = frame.size then 1 else 0), envOf 0 n))

theorem landed_markedWrites {sizes : List Nat} (bounded : ∀ n ∈ sizes, n ≤ frame.size) :
    (markedWrites sizes).map (fun w => w.2.landed) = sizes := by
  rw [markedWrites, List.map_map]
  refine (List.map_congr_left ?_).trans (List.map_id _)
  exact fun n hn => landed_envOf 0 (bounded n hn)

theorem marked_markedWrites {sizes : List Nat} (bounded : ∀ n ∈ sizes, n ≤ frame.size) :
    Marked (markedWrites sizes) := by
  intro w hw
  obtain ⟨n, hn, rfl⟩ := List.mem_map.mp hw
  simp only [landed_envOf 0 (bounded n hn), wallUs_envOf, and_self]

/-- What the bytes from offset 8 on must be for leftovers to pass for a frame. -/
def targetByte (t : Nat) : UInt8 := if t < 8 then 0 else sizeBytes.getD (t - 8) 0

/-- The clock reading whose bytes are right for a leftover at this offset. -/
def stamp (offset : Nat) : UInt64 :=
  Codec.uint64.decode ((List.range 8).map (fun k => targetByte (offset + k)))

theorem stamp_byte (offset : Nat) {k : Nat} (inside : k < 8) :
    (Codec.uint64.encode (stamp offset))[k]? = some (targetByte (offset + k)) := by
  have size : ((List.range 8).map (fun k => targetByte (offset + k))).length = 8 := by simp
  rw [stamp, Codec.uint64.encode_decode _ size]
  simp [inside]

/-- Failed writes that leave the given numbers of bytes, stamped so as to look like one frame. -/
def stamped : Nat → List Nat → List (DepthUpdate Double × WriteEnv)
  | _, [] => []
  | offset, n :: rest => (plainUpdate 0, envOf (stamp offset) n) :: stamped (offset + n) rest

theorem landed_stamped {sizes : List Nat} (bounded : ∀ n ∈ sizes, n ≤ frame.size) (offset : Nat) :
    (stamped offset sizes).map (fun w => w.2.landed) = sizes := by
  induction sizes generalizing offset with
  | nil => rfl
  | cons n rest ih =>
    rw [stamped, List.map_cons, ih (fun m hm => bounded m (List.mem_cons_of_mem n hm)),
      landed_envOf _ (bounded n List.mem_cons_self)]

/-- Unless a leftover is shifted, stamped leftovers have the payload size in place. -/
theorem stamped_byte {sizes : List Nat} (bounded : ∀ n ∈ sizes, n ≤ frame.size) {offset t : Nat}
    (above : 8 ≤ t) (below : t < 12) (past : offset ≤ t) (inside : t - offset < sizes.sum)
    (straight : ¬ Shifted offset sizes) :
    (landedBytes (stamped offset sizes))[t - offset]? = some (targetByte t) := by
  induction sizes generalizing offset with
  | nil => exact absurd inside (Nat.not_lt_zero _)
  | cons n rest ih =>
    rw [List.sum_cons] at inside
    rw [Shifted, not_or] at straight
    rw [stamped, getElem?_landedBytes_cons, landed_envOf _ (bounded n List.mem_cons_self)]
    split_ifs with first
    · have time : (Codec.uint64.encode (stamp offset)).length = 8 := Codec.uint64.length_encode _
      rw [getElem?_frame_header _ _ (by omega), wallUs_envOf]
      by_cases early : t - offset < 8
      · rw [List.getElem?_append_left (by omega), stamp_byte offset early,
          Nat.add_sub_cancel' past]
      · obtain rfl : offset = 0 := by
          by_contra behind
          exact straight.1 ⟨by omega, by omega, by omega⟩
        have size : ∀ k < 4, sizeBytes[k]? = some (targetByte (8 + k)) := by decide
        rw [List.getElem?_append_right (by omega), time, Nat.sub_zero,
          size (t - 8) (by omega), Nat.add_sub_cancel' above]
    · rw [Nat.sub_sub]
      exact ih (fun m hm => bounded m (List.mem_cons_of_mem n hm)) (by omega) (by omega)
        straight.2

/-- Either no write succeeds behind a leftover, or some write does. -/
theorem split_sizes {sizes : List Nat} (bounded : ∀ n ∈ sizes, n ≤ frame.size) :
    (∃ front back, sizes = front ++ back ∧ (∀ n ∈ front, n = 0 ∨ n = frame.size) ∧
      ∀ n ∈ back, n < frame.size) ∨
    ∃ front n rest, sizes = front ++ n :: rest ∧ (∀ m ∈ front, m = 0 ∨ m = frame.size) ∧
      0 < n ∧ n < frame.size ∧ frame.size ∈ rest := by
  induction sizes with
  | nil => exact Or.inl ⟨[], [], rfl, List.forall_mem_nil _, List.forall_mem_nil _⟩
  | cons n sizes ih =>
    have bounded' : ∀ m ∈ sizes, m ≤ frame.size :=
      fun m hm => bounded m (List.mem_cons_of_mem n hm)
    by_cases whole : n = 0 ∨ n = frame.size
    · rcases ih bounded' with ⟨front, back, rfl, front', back'⟩ | ⟨front, m, rest, rfl, front', h⟩
      · exact Or.inl ⟨n :: front, back, rfl, List.forall_mem_cons.mpr ⟨whole, front'⟩, back'⟩
      · exact Or.inr ⟨n :: front, m, rest, rfl, List.forall_mem_cons.mpr ⟨whole, front'⟩, h⟩
    · obtain ⟨nonempty, partly⟩ := not_or.mp whole
      have failed := Nat.lt_of_le_of_ne (bounded n List.mem_cons_self) partly
      by_cases later : frame.size ∈ sizes
      · exact Or.inr ⟨[], n, sizes, rfl, List.forall_mem_nil _, Nat.pos_of_ne_zero nonempty,
          failed, later⟩
      · refine Or.inl ⟨[], n :: sizes, rfl, List.forall_mem_nil _, ?_⟩
        refine List.forall_mem_cons.mpr ⟨failed, fun m hm => ?_⟩
        exact Nat.lt_of_le_of_ne (bounded' m hm) (fun same => later (same ▸ hm))

/-- Stamped leftovers that are long enough and not shifted pass for a frame. -/
theorem stamped_word {sizes : List Nat} (bounded : ∀ n ∈ sizes, n ≤ frame.size)
    (long : 2120 ≤ sizes.sum) (straight : ¬ Shifted 0 sizes) :
    wordAt (landedBytes (stamped 0 sizes)) 8 4 = 2108 := by
  have length : (landedBytes (stamped 0 sizes)).length = sizes.sum := by
    rw [length_landedBytes, landed_stamped bounded]
  have size : ∀ k < 4, some (targetByte (8 + k)) = sizeBytes[k]? := by decide
  rw [word_iff (by omega)]
  intro k inside
  have byte := stamped_byte bounded (Nat.le_add_right 8 k) (by omega) (Nat.zero_le _) (by omega)
    straight
  rw [Nat.sub_zero] at byte
  rw [byte, size k inside]

theorem whole_markedWrites {sizes : List Nat} (whole : ∀ n ∈ sizes, n = 0 ∨ n = frame.size) :
    Whole (markedWrites sizes) := by
  have bounded : ∀ n ∈ sizes, n ≤ frame.size := by
    intro n hn
    rcases whole n hn with rfl | rfl
    · exact Nat.zero_le _
    · exact Nat.le_refl _
  intro w hw
  have landed := List.mem_map_of_mem (f := fun w => w.2.landed) hw
  rw [landed_markedWrites bounded] at landed
  exact whole _ landed

/-! ## The exact condition -/

/-- A pattern that keeps the promise whatever is written lets fewer than 2^32 writes succeed. -/
theorem few_of_promise {sizes : List Nat} (bounded : ∀ n ∈ sizes, n ≤ frame.size)
    (promise : ∀ createdUs writes, writes.map (fun w => w.2.landed) = sizes →
      Atomic createdUs writes) : sizes.count frame.size < 2 ^ 32 := by
  have landed := landed_markedWrites bounded
  have atomic : Atomic 0 ([] ++ markedWrites sizes) := promise 0 _ landed
  obtain ⟨-, -, -, -, -, few⟩ := atomic.read (List.forall_mem_nil _)
  rwa [List.nil_append, ← count_landed, landed] at few

/-- A pattern of failures keeps the promise, whatever is written and whenever, if and
only if it is clean. -/
theorem atomic_iff_clean (pattern : List WriteEnv) :
    (∀ createdUs writes, writes.map (fun w => w.2.landed) = pattern.map WriteEnv.landed →
      Atomic createdUs writes) ↔ Clean (pattern.map WriteEnv.landed) := by
  have bounded : ∀ n ∈ pattern.map WriteEnv.landed, n ≤ frame.size := by
    intro n hn
    obtain ⟨env, -, rfl⟩ := List.mem_map.mp hn
    exact DiskLogger.landed_le env
  generalize pattern.map WriteEnv.landed = sizes at bounded ⊢
  constructor
  · intro promise
    have few := few_of_promise bounded promise
    rcases split_sizes bounded with ⟨front, back, rfl, whole, failed⟩ |
        ⟨front, n, rest, rfl, whole, nonempty, failed, later⟩
    · obtain ⟨bounded, bounded'⟩ := List.forall_mem_append.mp bounded
      rw [List.count_append] at few
      refine ⟨front, back, rfl, whole, failed, Nat.lt_of_le_of_lt (Nat.le_add_right _ _) few, ?_⟩
      by_contra harmful
      obtain ⟨long, straight⟩ := not_or.mp harmful
      rw [frame_size, Nat.not_lt] at long
      have landed := landed_stamped bounded' 0
      have failed' : ∀ w ∈ stamped 0 back, w.2.landed < frame.size :=
        fun w hw => failed _ (landed ▸ List.mem_map_of_mem hw)
      apply not_atomic_of_word (whole_markedWrites whole) failed' _
        (stamped_word bounded' long straight)
      · exact promise 0 _ (by rw [List.map_append, landed_markedWrites bounded, landed])
      · rw [length_landedBytes, landed]
        exact long
    · exfalso
      have atomic := promise 0 _ (landed_markedWrites bounded)
      obtain ⟨-, suffix⟩ := List.forall_mem_append.mp bounded
      have marked := marked_markedWrites suffix
      rw [markedWrites, List.map_append, ← markedWrites, ← markedWrites] at atomic
      have small := landed_envOf 0 (Nat.le_of_lt failed)
      exact not_atomic_of_leftover (whole_markedWrites whole) marked
        (small.symm ▸ nonempty) (small.symm ▸ failed) (List.mem_map_of_mem later)
        (landed_envOf 0 (Nat.le_refl _)) atomic
  · intro clean createdUs writes same
    exact atomic_of_clean createdUs (same ▸ clean)

/-- One byte of a header reaches the file, then a write succeeds. -/
def leftoverWrites : List (DepthUpdate Double × WriteEnv) := markedWrites [1, frame.size]

/-- The second write returns true, and its update is not read back. -/
theorem leftover_hides_write :
    (DiskReader.recorded 0 leftoverWrites).1 = [false, true] ∧ ¬ Atomic 0 leftoverWrites := by
  constructor
  · rw [DiskReader.recorded_eq]
    decide
  · have bounded : ∀ n ∈ [1, frame.size], n ≤ frame.size := by decide
    have marked := marked_markedWrites bounded
    have small := landed_envOf 0 (by decide : 1 ≤ frame.size)
    have whole : Whole [] := List.forall_mem_nil _
    have split : leftoverWrites = [] ++ markedWrites [1, frame.size] := rfl
    rw [split]
    rw [markedWrites, List.map_cons, ← markedWrites] at marked ⊢
    exact not_atomic_of_leftover whole marked (small.symm ▸ by decide) (small.symm ▸ by decide)
      (List.mem_map_of_mem List.mem_cons_self) (landed_envOf 0 (Nat.le_refl _))

end RecordingFaults
