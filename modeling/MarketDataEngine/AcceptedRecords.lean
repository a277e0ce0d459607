import MarketDataEngine.DiskReader

/-!
# The records a reader accepts

Byte by byte: which frames of an opened file `read_next` returns, and where the
fields it does not check stand in them.
-/

namespace AcceptedRecords

open MarketTypes RecordFormat ByteCodec

/-- The little-endian number in the `n` bytes at an offset. -/
def wordAt (content : List UInt8) (offset n : Nat) : Nat := leNat ((content.drop offset).take n)

/-- The frame that the bytes at an offset spell. -/
def frameAt (content : List UInt8) (offset : Nat) : RecordHeader × DepthRecord :=
  frame.decode ((content.drop offset).take frame.size)

/-- Where the header of record `i` begins. -/
def frameOffset (i : Nat) : Nat := 24 + 2120 * i

theorem frameOffset_succ (i : Nat) : frameOffset (i + 1) = frameOffset i + 2120 := by
  unfold frameOffset
  omega

theorem frameOffset_le (i k : Nat) : frameOffset (i + 1) ≤ frameOffset (i + k + 1) := by
  unfold frameOffset
  omega

/-- Record `i` is whole, and its header and all before it give the size of a record. -/
def Accepted (content : List UInt8) (i : Nat) : Prop :=
  frameOffset (i + 1) ≤ content.length ∧
    ∀ j ≤ i, wordAt content (frameOffset j + 8) 4 = 2108

/-- A record is accepted only if all records before it are. -/
theorem Accepted.of_le {content : List UInt8} {i j : Nat} (accepted : Accepted content i)
    (below : j ≤ i) : Accepted content j := by
  refine ⟨?_, fun k hk => accepted.2 k (hk.trans below)⟩
  have earlier := frameOffset_le j (i - j)
  rw [Nat.add_sub_cancel' below] at earlier
  exact earlier.trans accepted.1

theorem wordAt_lt (content : List UInt8) (offset n : Nat) :
    wordAt content offset n < 256 ^ n := by
  refine Nat.lt_of_lt_of_le (leNat_lt _) (Nat.pow_le_pow_right (by decide) ?_)
  rw [List.length_take]
  exact Nat.min_le_left _ _

theorem frameAt_header (content : List UInt8) (offset : Nat) :
    (frameAt content offset).1 = recordHeader.decode ((content.drop offset).take 12) := by
  change recordHeader.decode (((content.drop offset).take frame.size).take recordHeader.size) = _
  rw [List.take_take]
  rfl

theorem frameAt_record (content : List UInt8) (offset : Nat) :
    (frameAt content offset).2 = depthRecord.decode ((content.drop (offset + 12)).take 2108) := by
  change depthRecord.decode (((content.drop offset).take frame.size).drop recordHeader.size) = _
  rw [List.drop_take, List.drop_drop]
  rfl

/-- A frame read from whole bytes is these bytes. -/
theorem encode_frameAt {content : List UInt8} {offset : Nat}
    (inside : offset + 2120 ≤ content.length) :
    frame.encode (frameAt content offset) = (content.drop offset).take frame.size := by
  refine frame.encode_decode _ ?_
  rw [List.length_take, List.length_drop, frame_size]
  omega

/-- The payload size of a frame stands in the four bytes after the timestamp. -/
theorem payloadSize_iff (content : List UInt8) (offset : Nat) :
    (frameAt content offset).1.payloadSize = payloadSize ↔
      wordAt content (offset + 8) 4 = 2108 := by
  have word : (frameAt content offset).1.payloadSize =
      UInt32.ofNat (wordAt content (offset + 8) 4) := by
    rw [frameAt_header]
    change UInt32.ofNat (leNat (((content.drop offset).take 12).drop 8)) = _
    rw [List.drop_take, List.drop_drop]
    rfl
  have small := wordAt_lt content (offset + 8) 4
  rw [word, ← UInt32.toNat_inj, UInt32.toNat_ofNat_of_lt' small]
  rfl

/-- A read succeeds exactly on a whole frame with the right payload size. -/
theorem readNext_eq_some_iff {reader : DiskReader} (isOpen : reader.isOpen = true)
    (f : RecordHeader × DepthRecord) :
    reader.readNext.1 = some f ↔
      reader.pos + 2120 ≤ reader.content.length ∧
        wordAt reader.content (reader.pos + 8) 4 = 2108 ∧
        f = frameAt reader.content reader.pos := by
  rw [← payloadSize_iff]
  by_cases inside : reader.pos + 2120 ≤ reader.content.length
  · have header : reader.pos + recordHeader.size ≤ reader.content.length := by
      rw [recordHeader_size]
      omega
    have record :
        reader.pos + recordHeader.size + depthRecord.size ≤ reader.content.length := by
      rw [recordHeader_size, depthRecord_size]
      omega
    have first := (frameAt_header reader.content reader.pos).symm
    have second := (frameAt_record reader.content reader.pos).symm
    simp only [DiskReader.readNext, isOpen, fread, header, record, if_true]
    rw [recordHeader_size, depthRecord_size, first, second]
    split_ifs with other
    · simp [other]
    · simp only [ne_eq, not_not] at other
      simp only [Option.some.injEq, inside, other, true_and, Prod.mk.eta]
      exact eq_comm
  · constructor
    · intro read
      have whole := (DiskReader.readNext_some (Prod.ext read rfl)).2
      rw [frame_size] at whole
      exact absurd whole inside
    · exact fun h => absurd h.1 inside

/-- From record `i` on, what is ahead of a reader are the frames it goes on accepting. -/
theorem getElem?_remaining {reader : DiskReader} {frames : List (RecordHeader × DepthRecord)}
    (ahead : reader.Remaining frames) (isOpen : reader.isOpen = true) {i : Nat}
    (pos : reader.pos = frameOffset i) (k : Nat) (f : RecordHeader × DepthRecord) :
    frames[k]? = some f ↔
      frameOffset (i + k + 1) ≤ reader.content.length ∧
        (∀ j, i ≤ j → j ≤ i + k → wordAt reader.content (frameOffset j + 8) 4 = 2108) ∧
        f = frameAt reader.content (frameOffset (i + k)) := by
  induction ahead generalizing i k with
  | @done reader next refused =>
    constructor
    · intro found
      cases found
    · rintro ⟨inside, sizes, -⟩
      have whole : reader.pos + 2120 ≤ reader.content.length := by
        rw [pos, ← frameOffset_succ]
        exact (frameOffset_le i k).trans inside
      have size : wordAt reader.content (reader.pos + 8) 4 = 2108 := by
        rw [pos]
        exact sizes i (Nat.le_refl i) (Nat.le_add_right i k)
      have here := (readNext_eq_some_iff isOpen _).mpr ⟨whole, size, Eq.refl _⟩
      rw [refused] at here
      cases here
  | @more reader next g rest read later ih =>
    obtain ⟨rfl, whole⟩ := DiskReader.readNext_some read
    obtain ⟨-, size, hg⟩ := (readNext_eq_some_iff isOpen g).mp (congrArg Prod.fst read)
    rw [frame_size] at whole
    rw [pos] at whole size hg
    cases k with
    | zero =>
      rw [List.getElem?_cons_zero, Option.some.injEq, hg, Nat.add_zero]
      constructor
      · intro same
        refine ⟨(frameOffset_succ i).symm ▸ whole, ?_, same.symm⟩
        intro j above below
        obtain rfl := Nat.le_antisymm below above
        exact size
      · exact fun h => h.2.2.symm
    | succ k =>
      have next : reader.pos + frame.size = frameOffset (i + 1) := by
        rw [pos, frame_size, frameOffset_succ]
      rw [List.getElem?_cons_succ, ih isOpen next k, Nat.succ_add_eq_add_succ i k]
      refine and_congr_right fun _ => and_congr_left fun _ => ?_
      constructor
      · intro sizes j above below
        by_cases first : j = i
        · exact first ▸ size
        · exact sizes j (Nat.lt_of_le_of_ne above (Ne.symm first)) below
      · exact fun sizes j above below => sizes j (Nat.le_of_succ_le above) below

/-- The records of an opened file are its accepted frames. -/
theorem getElem?_readAll {content : List UInt8} {reader : DiskReader}
    (opens : DiskReader.openFile {} (some content) = (true, reader)) (i : Nat)
    (f : RecordHeader × DepthRecord) :
    reader.readAll[i]? = some f ↔ Accepted content i ∧ f = frameAt content (frameOffset i) := by
  obtain ⟨isOpen, same, pos⟩ := DiskReader.openFile_accepted opens
  have start : reader.pos = frameOffset 0 := pos.trans fileHeader_size
  have ahead := getElem?_remaining reader.remaining_readAll isOpen start i f
  rw [same] at ahead
  simpa only [Nat.zero_add, Nat.zero_le, true_implies, and_assoc, Accepted] using ahead

/-! ## Fields of an accepted record -/

/-- A field of a record lies behind the 12 bytes of the record's header. -/
theorem take_drop_record (content : List UInt8) (offset : Nat) {a n : Nat}
    (inside : a + n ≤ 2108) :
    (((content.drop (offset + 12)).take 2108).drop a).take n =
      (content.drop (offset + (12 + a))).take n := by
  have short : n ≤ 2108 - a := by omega
  rw [List.drop_take, List.take_take, List.drop_drop, Nat.min_eq_left short, Nat.add_assoc]

/-- The three checked fields of a record, by their offsets in it. -/
theorem depthRecord_fields (bytes : List UInt8) :
    (depthRecord.decode bytes).symbol =
        (Codec.bytes symbolMaxLen).decode ((bytes.drop 24).take symbolMaxLen) ∧
      (depthRecord.decode bytes).bidCount = UInt16.ofNat (leNat ((bytes.drop 56).take 2)) ∧
      (depthRecord.decode bytes).askCount = UInt16.ofNat (leNat ((bytes.drop 58).take 2)) := by
  have symbol : bytes.drop 24 = ((bytes.drop 8).drop 8).drop 8 := by simp only [List.drop_drop]
  have bidCount : bytes.drop 56 = (bytes.drop 24).drop 32 := by rw [List.drop_drop]
  have askCount : bytes.drop 58 = (bytes.drop 56).drop 2 := by rw [List.drop_drop]
  rw [askCount, bidCount, symbol]
  exact ⟨rfl, rfl, rfl⟩

theorem bidCount_frameAt (content : List UInt8) (offset : Nat) :
    (frameAt content offset).2.bidCount.toNat = wordAt content (offset + 68) 2 := by
  rw [frameAt_record, (depthRecord_fields _).2.1, take_drop_record content offset (by decide)]
  exact UInt16.toNat_ofNat_of_lt' (wordAt_lt content (offset + 68) 2)

theorem askCount_frameAt (content : List UInt8) (offset : Nat) :
    (frameAt content offset).2.askCount.toNat = wordAt content (offset + 70) 2 := by
  rw [frameAt_record, (depthRecord_fields _).2.2, take_drop_record content offset (by decide)]
  exact UInt16.toNat_ofNat_of_lt' (wordAt_lt content (offset + 70) 2)

theorem symbol_frameAt {content : List UInt8} {offset : Nat}
    (inside : offset + 2120 ≤ content.length) :
    (frameAt content offset).2.symbol.toList = (content.drop (offset + 36)).take symbolMaxLen := by
  have slice : ((content.drop (offset + 36)).take symbolMaxLen).length = symbolMaxLen := by
    rw [List.length_take, List.length_drop, symbolMaxLen]
    omega
  have field := take_drop_record content offset (show 24 + symbolMaxLen ≤ 2108 by decide)
  have symbol : (frameAt content offset).2.symbol =
      (Codec.bytes symbolMaxLen).decode ((content.drop (offset + 36)).take symbolMaxLen) := by
    rw [frameAt_record, (depthRecord_fields _).1, field]
  rw [symbol, ← Codec.bytes_encode, (Codec.bytes symbolMaxLen).encode_decode _ slice]

end AcceptedRecords
