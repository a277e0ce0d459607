import MarketDataEngine.LiveSession
import MarketDataEngine.ReplaySession

/-!
# From the exchange through a recording

The two modes of the program one after the other: a live session that records, and a replay of
its file. The books of the replay are those of the raw messages that the session had kept.
-/

namespace EndToEnd

open MarketTypes LiveMain LiveSession RecordReplay ProcessingThread RecordingCompleteness

theorem symbol_untimed (item : QueueMessage Double) : item.untimed.symbol = item.symbol := by
  cases item <;> rfl

theorem dequeued_recordable {msgs : List (MessageEnv × QueueMessage Double)}
    {processed : List (QueueMessage Double)} (dequeued : Dequeued msgs processed)
    (recordable : ∀ item ∈ processed, RecordFormat.Recordable item.symbol) :
    ∀ msg ∈ msgs, RecordFormat.Recordable msg.2.symbol := by
  intro msg mem
  have untimed := List.mem_map_of_mem (f := fun msg => msg.2.untimed) mem
  rw [dequeued_untimed dequeued] at untimed
  obtain ⟨item, taken, same⟩ := List.mem_map.mp untimed
  have symbols := congrArg QueueMessage.symbol same
  rw [symbol_untimed, symbol_untimed] at symbols
  exact symbols ▸ recordable item taken

/-- The message that the sample run keeps. -/
def sampleItem : QueueMessage Double := (parse sampleStrtod sampleArrival).getD .blank

/-- The reader of the file that the sample run leaves. -/
def sampleReader : DiskReader :=
  (DiskReader.openFile {} (some (DiskReader.recorded 5
    (writesOf [(sampleEnv, sampleItem.stampDequeued 9)])).2.close.content)).2

end EndToEnd
