import MarketDataEngine.ReplaySchedule
import MarketDataEngine.AcceptedRecords
import MarketDataEngine.OrderBook

/-!
# Which recordings are safe to replay

The reader checks the magic number, the version and the payload size of each
record, and nothing else of a record. This module gives the exact condition on
the bytes of a file under which no replay of it reads outside a level array or
past a symbol field.
-/

namespace ReplaySafety

open Transition MarketTypes RecordFormat AcceptedRecords Pipeline ReplayEngine
open ReplayProgress ReplaySchedule

/-! ## What a record claims of itself -/

/-- Both level counts of record `i` are at most 64, and its symbol field holds a NUL. -/
def Sound (content : List UInt8) (i : Nat) : Prop :=
  wordAt content (frameOffset i + 68) 2 ≤ maxLevels ∧
    wordAt content (frameOffset i + 70) 2 ≤ maxLevels ∧
    0 ∈ (content.drop (frameOffset i + 36)).take symbolMaxLen

/-- What a replay relies on in a record and nothing checks. -/
structure Replayable (rec : DepthRecord) : Prop where
  bids : rec.bidCount.toNat ≤ maxLevels
  asks : rec.askCount.toNat ≤ maxLevels
  terminated : fromRecord rec ≠ none

/-- The condition on the bytes of an accepted record is the condition on the record. -/
theorem sound_iff {content : List UInt8} {i : Nat} (accepted : Accepted content i) :
    Sound content i ↔ Replayable (frameAt content (frameOffset i)).2 := by
  have inside : frameOffset i + 2120 ≤ content.length := by
    rw [← frameOffset_succ]
    exact accepted.1
  have terminated : fromRecord (frameAt content (frameOffset i)).2 ≠ none ↔
      0 ∈ (content.drop (frameOffset i + 36)).take symbolMaxLen := by
    rw [← symbol_frameAt inside]
    exact (not_congr (fromRecord_eq_none_iff _)).trans not_not
  rw [Sound, ← bidCount_frameAt, ← askCount_frameAt, ← terminated]
  constructor
  · rintro ⟨bids, asks, terminated⟩
    exact ⟨bids, asks, terminated⟩
  · exact fun safe => ⟨safe.bids, safe.asks, safe.terminated⟩

/-! ## Safety of every replay -/

/-- In every replay of the file no conversion runs past a symbol field, and no update
that reaches the queue makes a book read outside a level array. -/
def ReplaySafe (reader : DiskReader) : Prop :=
  ∀ speed blank s, (replay reader speed FeedHandler.feedQueue blank).Reachable s →
    s.producer.pc ≠ .faulted ∧
      ∀ update, .depthUpdate update ∈ s.queue.pushed →
        ∀ book : OrderBook, book.applyUpdate (update.map Double.toRat) ≠ none

theorem fromRecord_counts {rec : DepthRecord} {update : DepthUpdate Double}
    (converted : fromRecord rec = some update) :
    update.InBounds ↔ rec.bidCount.toNat ≤ maxLevels ∧ rec.askCount.toNat ≤ maxLevels := by
  obtain ⟨symbol, -, rfl⟩ := Option.map_eq_some_iff.mp converted
  exact Iff.rfl

/-- Replayable records are enough, in every interleaving. -/
theorem replaySafe_of_records {reader : DiskReader}
    (safe : ∀ f ∈ reader.readAll, Replayable f.2) : ReplaySafe reader := by
  intro speed blank s reached
  constructor
  · intro faulted
    obtain ⟨f, hf, unterminated⟩ := faulted_record reached faulted
    exact (safe f hf).terminated unterminated
  · intro update pushed book
    have delivered : some (.depthUpdate update.untimed) ∈
        reader.readAll.map (fun f => replayed f.2) :=
      (delivered_front reached).subset (List.mem_map.mpr ⟨_, pushed, rfl⟩)
    obtain ⟨f, hf, same⟩ := List.mem_map.mp delivered
    obtain ⟨converted, hconverted, untimed⟩ := Option.map_eq_some_iff.mp same
    have inBounds := (fromRecord_counts hconverted).mpr ⟨(safe f hf).bids, (safe f hf).asks⟩
    rw [ne_eq, OrderBook.applyUpdate_eq_none_iff, not_not, DepthUpdate.map_inBounds]
    have stamped : converted.untimed = update.untimed := QueueMessage.depthUpdate.inj untimed
    change update.untimed.InBounds
    rw [← stamped]
    exact inBounds

/-- Some replay reaches the first record that is not replayable. -/
theorem replayable_of_safe {reader : DiskReader} (safe : ReplaySafe reader)
    {front back : List (RecordHeader × DepthRecord)} {f : RecordHeader × DepthRecord}
    (records : reader.readAll = front ++ f :: back) (before : ∀ g ∈ front, Replayable g.2) :
    Replayable f.2 := by
  have two : 1 < FeedHandler.feedQueue.val := by decide
  have ahead := reader.remaining_readAll
  rw [records] at ahead
  obtain ⟨s, reached, resting, here⟩ :=
    leads_front two (resting_initial reader .max .blank) front (f :: back)
      ahead (fun g hg => (before g hg).terminated)
  cases here with
  | more read later =>
    cases converted : fromRecord f.2 with
    | none =>
      obtain ⟨t, faults, faulted⟩ := leads_faulted resting read converted
      exact absurd faulted (safe _ _ t (reached.trans faults)).1
    | some update =>
      obtain ⟨t, delivers, -, -, pushed, -⟩ := leads_next two resting read converted
      have applied := (safe _ _ t (reached.trans delivers)).2
        { update with tsReceived := 0, tsParsed := 0, tsEnqueued := 0 }
        (by rw [pushed]; exact List.mem_append_right _ List.mem_cons_self) { symbol := [] }
      rw [ne_eq, OrderBook.applyUpdate_eq_none_iff, not_not, DepthUpdate.map_inBounds] at applied
      obtain ⟨bids, asks⟩ := (fromRecord_counts converted).mp applied
      exact ⟨bids, asks, by rw [converted]; exact Option.some_ne_none _⟩

/-- For every accepted file, whatever its other bytes: all replays of it are safe if and
only if both level counts of every record the reader accepts are at most 64 and its
symbol field holds a NUL. -/
theorem replaySafe_iff (content : List UInt8) (reader : DiskReader)
    (opens : DiskReader.openFile {} (some content) = (true, reader)) :
    ReplaySafe reader ↔ ∀ i, Accepted content i → Sound content i := by
  have records := getElem?_readAll opens
  constructor
  · intro safe i
    induction i using Nat.strong_induction_on with
    | _ i ih =>
      intro accepted
      have found := (records i _).mpr ⟨accepted, rfl⟩
      obtain ⟨inside, here⟩ := List.getElem?_eq_some_iff.mp found
      have split : reader.readAll = reader.readAll.take i ++
          frameAt content (frameOffset i) :: reader.readAll.drop (i + 1) := by
        rw [← here, List.getElem_cons_drop, List.take_append_drop]
      rw [sound_iff accepted]
      apply replayable_of_safe safe split
      intro g hg
      obtain ⟨j, before, hj⟩ := List.mem_take_iff_getElem.mp hg
      obtain ⟨earlier, rfl⟩ := (records j g).mp (List.getElem?_eq_some_iff.mpr ⟨_, hj⟩)
      exact (sound_iff earlier).mp (ih j (Nat.lt_of_lt_of_le before (Nat.min_le_left _ _)) earlier)
  · intro sound
    apply replaySafe_of_records
    intro f hf
    obtain ⟨i, found⟩ := List.mem_iff_getElem?.mp hf
    obtain ⟨accepted, rfl⟩ := (records i f).mp found
    exact (sound_iff accepted).mp (sound i accepted)

/-! ## A file that is not safe -/

/-- The file of one frame behind a valid header. -/
def fileOf (f : RecordHeader × DepthRecord) : List UInt8 :=
  fileHeader.encode {} ++ [f].flatMap frame.encode

theorem fileOf_read {f : RecordHeader × DepthRecord} (payload : f.1.payloadSize = payloadSize) :
    ∃ reader, DiskReader.openFile {} (some (fileOf f)) = (true, reader) ∧
      reader.readAll = [f] := by
  refine ⟨_, DiskReader.openFile_header {} _ rfl rfl, ?_⟩
  refine DiskReader.readAll_frames rfl ?_ rfl (fileHeader.length_encode _).symm
  intro g hg
  rw [List.mem_singleton.mp hg, payload]

/-- A record that claims 65 bid levels. -/
def wideRecord : RecordHeader × DepthRecord :=
  (⟨0, payloadSize⟩, { blankRecord with bidCount := 65 })

theorem wideRecord_not_safe : ∃ reader,
    DiskReader.openFile {} (some (fileOf wideRecord)) = (true, reader) ∧
      ¬ ReplaySafe reader := by
  obtain ⟨reader, opens, records⟩ := fileOf_read (f := wideRecord) rfl
  refine ⟨reader, opens, ?_⟩
  intro safe
  have split : reader.readAll = [] ++ wideRecord :: [] := records
  have fits := (replayable_of_safe safe split (fun g hg => absurd hg List.not_mem_nil)).bids
  exact absurd fits (by decide)

theorem replaySafe_iff_sampleWrite : ∃ reader,
    DiskReader.openFile {} (some (fileOf (DiskLogger.frameOf DiskReader.sampleWrite.1
      DiskReader.sampleWrite.2))) = (true, reader) ∧ ReplaySafe reader := by
  obtain ⟨reader, opens, records⟩ :=
    fileOf_read (f := DiskLogger.frameOf DiskReader.sampleWrite.1 DiskReader.sampleWrite.2) rfl
  refine ⟨reader, opens, (replaySafe_iff _ _ opens).mpr ?_⟩
  intro i accepted
  have found := List.mem_of_getElem? ((getElem?_readAll opens i _).mpr ⟨accepted, rfl⟩)
  rw [records, List.mem_singleton] at found
  rw [sound_iff accepted, found]
  refine ⟨by decide, by decide, ?_⟩
  rw [DiskLogger.frameOf, fromRecord_toRecord]
  exact Option.some_ne_none _

end ReplaySafety
