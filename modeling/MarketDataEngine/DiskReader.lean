import MarketDataEngine.DiskLogger

/-!
# Reading a recording

`DiskReader` of `output/disk_logger.h`. A short `fread` leaves the stream at the
end of the file. A header with another payload size is consumed and refused.
The record count of the file header is read and never consulted.

The round trip covers a file with or without its final count and every
truncation of it behind the file header.
-/

open MarketTypes RecordFormat

/-- `fread` of one item of `n` bytes. -/
def fread (content : List UInt8) (pos n : Nat) : Option (List UInt8) × Nat :=
  if pos + n ≤ content.length then (some ((content.drop pos).take n), pos + n)
  else (none, max pos content.length)

structure DiskReader where
  isOpen : Bool := false
  content : List UInt8 := []
  pos : Nat := 0
  header : FileHeader := {}

namespace DiskReader

def close (reader : DiskReader) : DiskReader := { reader with isOpen := false }

/-- `open`; `file` is what `fopen` finds, if it finds a file. -/
def openFile (reader : DiskReader) (file : Option (List UInt8)) : Bool × DiskReader :=
  match file with
  | none => (false, reader.close)
  | some content =>
    match fread content 0 fileHeader.size with
    | (none, _) => (false, reader.close)
    | (some bytes, pos) =>
      let header := fileHeader.decode bytes
      if header.magic ≠ fileMagic then (false, { reader.close with header })
      else if header.version ≠ fileVersion then (false, { reader.close with header })
      else (true, { isOpen := true, content := content, pos := pos, header := header })

/-- `read_next`, with the record and its header when it returns true. -/
def readNext (reader : DiskReader) : Option (RecordHeader × DepthRecord) × DiskReader :=
  if reader.isOpen then
    match fread reader.content reader.pos recordHeader.size with
    | (none, pos) => (none, { reader with pos })
    | (some bytes, pos) =>
      let rhdr := recordHeader.decode bytes
      if rhdr.payloadSize ≠ payloadSize then (none, { reader with pos })
      else
        match fread reader.content pos depthRecord.size with
        | (none, pos) => (none, { reader with pos })
        | (some bytes, pos) => (some (rhdr, depthRecord.decode bytes), { reader with pos })
  else (none, reader)

def rewind (reader : DiskReader) : Bool × DiskReader :=
  if reader.isOpen then (true, { reader with pos := fileHeader.size }) else (false, reader)

/-- The results of `n` calls of `read_next`. -/
def reads (reader : DiskReader) : Nat → List (Option (RecordHeader × DepthRecord)) × DiskReader
  | 0 => ([], reader)
  | n + 1 =>
    let (result, next) := reader.readNext
    let (results, last) := next.reads n
    (result :: results, last)

/-- Reading until `read_next` first returns false. -/
def readLoop : Nat → DiskReader → List (RecordHeader × DepthRecord)
  | 0, _ => []
  | fuel + 1, reader =>
    match reader.readNext with
    | (none, _) => []
    | (some f, next) => f :: readLoop fuel next

/-- A record takes more than one byte, so the file is long enough a bound. -/
def readAll (reader : DiskReader) : List (RecordHeader × DepthRecord) :=
  readLoop (reader.content.length + 1) reader

/-! ## One read -/

theorem fread_append (front data rest : List UInt8) :
    fread (front ++ (data ++ rest)) front.length data.length =
      (some data, front.length + data.length) := by
  rw [fread, if_pos]
  · rw [List.drop_left, List.take_left]
  · simp only [List.length_append]
    omega

theorem fread_short {content : List UInt8} {pos n : Nat} (short : content.length < pos + n)
    (inside : pos ≤ content.length) : fread content pos n = (none, content.length) := by
  rw [fread, if_neg (Nat.not_le.mpr short), Nat.max_eq_right inside]

/-- A frame that stands at the read position is returned as it was written. -/
theorem readNext_frame {reader : DiskReader} (isOpen : reader.isOpen = true)
    {front rest : List UInt8} {f : RecordHeader × DepthRecord}
    (payload : f.1.payloadSize = payloadSize)
    (content : reader.content = front ++ (frame.encode f ++ rest))
    (pos : reader.pos = front.length) :
    reader.readNext = (some f, { reader with pos := front.length + frame.size }) := by
  have hsize := recordHeader.length_encode f.1
  have rsize := depthRecord.length_encode f.2
  have atHeader : fread reader.content reader.pos recordHeader.size =
      (some (recordHeader.encode f.1), front.length + recordHeader.size) := by
    rw [content, pos, frame_encode, ← hsize, List.append_assoc]
    exact fread_append _ _ _
  have atRecord : fread reader.content (front.length + recordHeader.size) depthRecord.size =
      (some (depthRecord.encode f.2),
        front.length + recordHeader.size + depthRecord.size) := by
    rw [content, frame_encode, ← hsize, ← rsize, ← List.length_append, List.append_assoc,
      ← List.append_assoc]
    exact fread_append _ _ _
  have whole : front.length + frame.size =
      front.length + recordHeader.size + depthRecord.size := by
    rw [Nat.add_assoc]
    rfl
  rw [readNext, if_pos isOpen, atHeader]
  simp only [recordHeader.decode_encode, payload, ne_eq, not_true_eq_false, if_false, atRecord,
    depthRecord.decode_encode, whole]

/-- In front of part of a frame the reader refuses and ends at the end of the file. -/
theorem readNext_partial {reader : DiskReader} (isOpen : reader.isOpen = true)
    {front : List UInt8} {f : RecordHeader × DepthRecord} {k : Nat}
    (payload : f.1.payloadSize = payloadSize) (cut : k < frame.size)
    (content : reader.content = front ++ (frame.encode f).take k)
    (pos : reader.pos = front.length) :
    reader.readNext = (none, { reader with pos := reader.content.length }) := by
  have length : reader.content.length = front.length + k := by
    rw [content, List.length_append, List.length_take, frame.length_encode,
      Nat.min_eq_left (Nat.le_of_lt cut)]
  have hsize := recordHeader.length_encode f.1
  rw [frame_size] at cut
  rw [readNext, if_pos isOpen]
  by_cases inHeader : k < recordHeader.size
  · rw [fread_short (by omega) (by omega)]
  · have whole : (frame.encode f).take k =
        recordHeader.encode f.1 ++ (depthRecord.encode f.2).take (k - recordHeader.size) := by
      rw [frame_encode, List.take_append, hsize,
        List.take_of_length_le (hsize.trans_le (Nat.not_lt.mp inHeader))]
    have atHeader : fread reader.content reader.pos recordHeader.size =
        (some (recordHeader.encode f.1), front.length + recordHeader.size) := by
      rw [content, pos, whole, ← hsize]
      exact fread_append _ _ _
    have atRecord : fread reader.content (front.length + recordHeader.size) depthRecord.size =
        (none, reader.content.length) := by
      rw [recordHeader_size] at inHeader ⊢
      rw [depthRecord_size]
      exact fread_short (by omega) (by omega)
    rw [atHeader]
    simp only [recordHeader.decode_encode, payload, ne_eq, not_true_eq_false, if_false, atRecord]

/-- At the end of the file the reader stays there and refuses. -/
theorem readNext_at_end {reader : DiskReader} (isOpen : reader.isOpen = true)
    (pos : reader.pos = reader.content.length) : reader.readNext = (none, reader) := by
  rw [readNext, if_pos isOpen, fread_short (by rw [recordHeader_size]; omega) (by omega), ← pos]

/-! ## All reads of a file -/

theorem reads_at_end {reader : DiskReader} (isOpen : reader.isOpen = true)
    (pos : reader.pos = reader.content.length) (n : Nat) :
    reader.reads n = (List.replicate n none, reader) := by
  induction n with
  | zero => rfl
  | succ n ih =>
    rw [reads, readNext_at_end isOpen pos]
    simp only [ih, List.replicate_succ]

/-- A file of whole frames and part of one more yields its whole frames, in order,
and then nothing, however often it is read. -/
theorem reads_frames {reader : DiskReader} (isOpen : reader.isOpen = true)
    {front : List UInt8} {frames : List (RecordHeader × DepthRecord)}
    {f : RecordHeader × DepthRecord} {k : Nat}
    (payloads : ∀ f ∈ frames, f.1.payloadSize = payloadSize)
    (payload : f.1.payloadSize = payloadSize) (cut : k < frame.size)
    (content : reader.content =
      front ++ (frames.flatMap frame.encode ++ (frame.encode f).take k))
    (pos : reader.pos = front.length) (n : Nat) :
    (reader.reads n).1 = (frames.map some ++ List.replicate n none).take n := by
  induction n generalizing reader front frames with
  | zero => rfl
  | succ n ih =>
    cases frames with
    | nil =>
      rw [List.flatMap_nil, List.nil_append] at content
      rw [reads, readNext_partial isOpen payload cut content pos]
      have stuck : ∀ n, ({ reader with pos := reader.content.length } : DiskReader).reads n =
          (List.replicate n none, { reader with pos := reader.content.length }) :=
        reads_at_end isOpen rfl
      simp only [stuck]
      simp [List.replicate_succ]
    | cons g rest =>
      rw [List.flatMap_cons, List.append_assoc] at content
      have here := readNext_frame isOpen (payloads g List.mem_cons_self) content pos
      obtain ⟨next, hnext⟩ : ∃ next : DiskReader,
          next = { reader with pos := front.length + frame.size } := ⟨_, rfl⟩
      have behind : next.content = (front ++ frame.encode g) ++
          (rest.flatMap frame.encode ++ (frame.encode f).take k) := by
        rw [hnext, content]
        simp only [List.append_assoc]
      have later : (next.reads n).1 = (rest.map some ++ List.replicate n none).take n := by
        apply ih (hnext ▸ isOpen) (fun f hf => payloads f (List.mem_cons_of_mem g hf)) behind
        rw [hnext, List.length_append, frame.length_encode]
      rw [← hnext] at here
      rw [reads, here]
      simp only [later, List.map_cons, List.cons_append, List.take_succ_cons, List.cons.injEq,
        true_and]
      have enough : n ≤ n + 1 + rest.length := by omega
      simp [List.take_append, List.take_replicate, enough]

theorem readNext_isOpen (reader : DiskReader) :
    reader.readNext.2.isOpen = reader.isOpen ∧ reader.readNext.2.content = reader.content ∧
      reader.readNext.2.header = reader.header := by
  unfold readNext
  split_ifs
  · split
    · exact ⟨rfl, rfl, rfl⟩
    · dsimp only
      split_ifs
      · exact ⟨rfl, rfl, rfl⟩
      · split <;> exact ⟨rfl, rfl, rfl⟩
  · exact ⟨rfl, rfl, rfl⟩

/-- Reading moves the position and nothing else. -/
theorem reads_frame (reader : DiskReader) (n : Nat) :
    (reader.reads n).2 = { reader with pos := (reader.reads n).2.pos } := by
  induction n generalizing reader with
  | zero => rfl
  | succ n ih =>
    obtain ⟨opened, content, header⟩ := readNext_isOpen reader
    rw [reads, ih]
    simp only [opened, content, header]

/-- Rewinding undoes any number of reads. -/
theorem rewind_reads {reader : DiskReader} (isOpen : reader.isOpen = true)
    (pos : reader.pos = fileHeader.size) (n : Nat) :
    (reader.reads n).2.rewind = (true, reader) := by
  rw [reads_frame, rewind, if_pos isOpen, ← pos]

/-- A file that begins with a valid header is accepted. -/
theorem openFile_header (reader : DiskReader) {header : FileHeader} (rest : List UInt8)
    (magic : header.magic = fileMagic) (version : header.version = fileVersion) :
    reader.openFile (some (fileHeader.encode header ++ rest)) = (true, {
      isOpen := true
      content := fileHeader.encode header ++ rest
      pos := fileHeader.size
      header := header }) := by
  have size := fileHeader.length_encode header
  have front := fread_append [] (fileHeader.encode header) rest
  rw [List.nil_append, List.length_nil, size, Nat.zero_add] at front
  rw [openFile]
  simp only [front, fileHeader.decode_encode, magic, version, ne_eq, not_true_eq_false, if_false]

/-- A file that is accepted is read from behind its header. -/
theorem openFile_accepted {reader opened : DiskReader} {content : List UInt8}
    (opens : reader.openFile (some content) = (true, opened)) :
    opened.isOpen = true ∧ opened.content = content ∧ opened.pos = fileHeader.size := by
  unfold openFile fread at opens
  by_cases whole : 0 + fileHeader.size ≤ content.length
  · simp only [whole, if_true] at opens
    split_ifs at opens
    · cases opens
    · cases opens
    · simp only [Prod.mk.injEq, true_and] at opens
      rw [← opens]
      exact ⟨rfl, rfl, Nat.zero_add _⟩
  · simp only [whole, if_false] at opens
    cases opens

theorem readLoop_eq_reads (reader : DiskReader) (n : Nat) :
    readLoop n reader = ((reader.reads n).1.takeWhile Option.isSome).filterMap id := by
  induction n generalizing reader with
  | zero => rfl
  | succ n ih =>
    rw [readLoop, reads]
    cases h : reader.readNext with
    | mk result next =>
      cases result with
      | none => rfl
      | some f => simp [ih next]

/-- The records that are still ahead of a reader. -/
inductive Remaining : DiskReader → List (RecordHeader × DepthRecord) → Prop
  | done {reader next : DiskReader} (refused : reader.readNext = (none, next)) :
      Remaining reader []
  | more {reader next : DiskReader} {f : RecordHeader × DepthRecord}
      {rest : List (RecordHeader × DepthRecord)} (read : reader.readNext = (some f, next))
      (later : Remaining next rest) : Remaining reader (f :: rest)

/-- A read that succeeds moves forward by a whole frame inside the file. -/
theorem readNext_some {reader next : DiskReader} {f : RecordHeader × DepthRecord}
    (read : reader.readNext = (some f, next)) :
    next = { reader with pos := reader.pos + frame.size } ∧
      reader.pos + frame.size ≤ reader.content.length := by
  have sizes : recordHeader.size + depthRecord.size = frame.size := by
    rw [recordHeader_size, depthRecord_size, frame_size]
  unfold readNext fread at read
  by_cases isOpen : reader.isOpen = true
  · by_cases header : reader.pos + recordHeader.size ≤ reader.content.length
    · by_cases record :
          reader.pos + recordHeader.size + depthRecord.size ≤ reader.content.length
      · simp only [isOpen, header, record, if_true] at read
        split_ifs at read
        · simp at read
        · simp only [Prod.mk.injEq] at read
          rw [← read.2, ← sizes, ← Nat.add_assoc]
          exact ⟨by rw [isOpen], record⟩
      · simp only [isOpen, header, record, if_true, if_false] at read
        split_ifs at read <;> simp at read
    · simp [isOpen, header] at read
  · simp [isOpen] at read

theorem remaining_readLoop {fuel : Nat} {reader : DiskReader}
    (enough : reader.content.length < reader.pos + fuel) :
    Remaining reader (readLoop fuel reader) := by
  induction fuel generalizing reader with
  | zero =>
    cases h : reader.readNext with
    | mk result next =>
      cases result with
      | none => exact .done h
      | some f =>
        have inside := (readNext_some h).2
        omega
  | succ fuel ih =>
    rw [readLoop]
    cases h : reader.readNext with
    | mk result next =>
      cases result with
      | none => exact .done h
      | some f =>
        obtain ⟨rfl, inside⟩ := readNext_some h
        refine .more h (ih ?_)
        change reader.content.length < reader.pos + frame.size + fuel
        rw [frame_size]
        omega

/-- Reading to the end returns what is ahead. -/
theorem remaining_readAll (reader : DiskReader) : Remaining reader reader.readAll :=
  remaining_readLoop (by omega)

theorem takeWhile_isSome_map {α : Type} (items : List α) (n : Nat) :
    ((items.map some ++ List.replicate n none).takeWhile Option.isSome).filterMap id = items := by
  cases items with
  | nil => cases n <;> rfl
  | cons item rest => simp

/-- Reading a whole file of frames to the end returns its frames. -/
theorem readAll_frames {reader : DiskReader} (isOpen : reader.isOpen = true)
    {front : List UInt8} {frames : List (RecordHeader × DepthRecord)}
    (payloads : ∀ f ∈ frames, f.1.payloadSize = payloadSize)
    (content : reader.content = front ++ frames.flatMap frame.encode)
    (pos : reader.pos = front.length) : reader.readAll = frames := by
  have length : reader.content.length = front.length + frames.length * 2120 := by
    rw [content, List.length_append, frame.length_flatMap_encode, frame_size]
  rw [readAll, readLoop_eq_reads,
    reads_frames (f := (⟨0, payloadSize⟩, blankRecord)) (k := 0) isOpen payloads rfl
      (by rw [frame_size]; omega) (by rw [content, List.take_zero, List.append_nil]) pos,
    List.take_append, List.take_of_length_le (by rw [List.length_map]; omega), List.take_replicate]
  exact takeWhile_isSome_map frames _

/-! ## The round trip -/

/-- The logger that opened a file at `createdUs` and wrote to it without failures on opening. -/
def recorded (createdUs : UInt64) (writes : List (DepthUpdate Double × DiskLogger.WriteEnv)) :
    List Bool × DiskLogger :=
  (DiskLogger.openFile {} true createdUs fileHeader.size).2.writeAll writes

theorem recorded_fresh (createdUs : UInt64)
    (writes : List (DepthUpdate Double × DiskLogger.WriteEnv)) :
    recorded createdUs writes = (DiskLogger.fresh createdUs).writeAll writes := by
  rw [recorded, DiskLogger.openFile_complete {} createdUs (Nat.le_refl _)]

theorem recorded_eq (createdUs : UInt64)
    (writes : List (DepthUpdate Double × DiskLogger.WriteEnv)) :
    recorded createdUs writes = (writes.map (fun w => decide w.2.Complete), {
      isOpen := true
      content := fileHeader.encode { createdUs } ++ DiskLogger.landedBytes writes
      recordCount := UInt32.ofNat (DiskLogger.succeeded writes).length }) := by
  rw [recorded_fresh, DiskLogger.writeAll_of_open rfl]
  simp only [DiskLogger.fresh, UInt32.zero_add]

/-- Closing puts the count into the header and leaves everything behind it. -/
theorem close_recorded (createdUs : UInt64)
    (writes : List (DepthUpdate Double × DiskLogger.WriteEnv)) :
    (recorded createdUs writes).2.close.content =
      fileHeader.encode {
        createdUs := createdUs
        recordCount := UInt32.ofNat (DiskLogger.succeeded writes).length } ++
      DiskLogger.landedBytes writes := by
  rw [recorded_eq, DiskLogger.close, if_pos rfl]
  exact DiskLogger.patchCount_header _ _ _

/-- Without failures every frame lands whole. -/
theorem landedBytes_complete {writes : List (DepthUpdate Double × DiskLogger.WriteEnv)}
    (complete : ∀ w ∈ writes, w.2.Complete) :
    DiskLogger.landedBytes writes =
      (writes.map (fun w => DiskLogger.frameOf w.1 w.2)).flatMap frame.encode := by
  rw [DiskLogger.landedBytes, List.flatMap_map]
  refine List.flatMap_congr ?_
  intro w hw
  rw [(DiskLogger.landed_eq_size_iff w.2).mpr (complete w hw)]
  exact List.take_of_length_le (frame.length_encode _).le

theorem succeeded_complete {writes : List (DepthUpdate Double × DiskLogger.WriteEnv)}
    (complete : ∀ w ∈ writes, w.2.Complete) : DiskLogger.succeeded writes = writes :=
  List.filter_eq_self.mpr (fun w hw => decide_eq_true (complete w hw))

/-- The closed file of writes without failures is accepted and reads back frame by frame. -/
theorem readAll_recorded (reader : DiskReader) (createdUs : UInt64)
    {writes : List (DepthUpdate Double × DiskLogger.WriteEnv)}
    (complete : ∀ w ∈ writes, w.2.Complete) :
    ∃ opened, openFile reader (some (recorded createdUs writes).2.close.content) =
        (true, opened) ∧
      opened.isOpen = true ∧ opened.pos = fileHeader.size ∧
      opened.readAll = writes.map (fun w => DiskLogger.frameOf w.1 w.2) := by
  rw [close_recorded, landedBytes_complete complete]
  refine ⟨_, openFile_header reader _ rfl rfl, rfl, rfl, ?_⟩
  refine readAll_frames rfl ?_ rfl (fileHeader.length_encode _).symm
  intro f hf
  obtain ⟨w, -, rfl⟩ := List.mem_map.mp hf
  rfl

/-- A truncated file of whole frames, behind any valid header. -/
theorem reads_truncated (reader : DiskReader) (header : FileHeader)
    (magic : header.magic = fileMagic) (version : header.version = fileVersion)
    {frames : List (RecordHeader × DepthRecord)}
    (payloads : ∀ f ∈ frames, f.1.payloadSize = payloadSize) {file : List UInt8}
    (content : file = fileHeader.encode header ++ frames.flatMap frame.encode) {k : Nat}
    (behind : 24 ≤ k) :
    ∃ opened, reader.openFile (some (file.take k)) = (true, opened) ∧
      ((file.take k).length - 24) / 2120 ≤ frames.length ∧
      ∀ n, (opened.reads n).1 =
          ((frames.take (((file.take k).length - 24) / 2120)).map some ++
            List.replicate n none).take n ∧
        (opened.reads n).2.rewind = (true, opened) := by
  have size : (fileHeader.encode header).length = 24 := fileHeader.length_encode header
  have cut : file.take k = fileHeader.encode header ++
      (frames.flatMap frame.encode).take (k - 24) := by
    rw [content, List.take_append, size, List.take_of_length_le (by omega)]
  have length : (file.take k).length - 24 = min (k - 24) (frames.length * 2120) := by
    rw [cut, List.length_append, size, List.length_take, frame.length_flatMap_encode, frame_size]
    omega
  obtain ⟨f, j, below, part, hpart⟩ := frame.take_flatMap_encode (by rw [frame_size]; omega)
    (⟨0, payloadSize⟩, blankRecord) frames (k - 24)
  have payload : f.1.payloadSize = payloadSize := by
    rcases part with mem | rfl
    · exact payloads f mem
    · rfl
  have count : frames.take (((file.take k).length - 24) / 2120) =
      frames.take ((k - 24) / 2120) := by
    rw [length, List.take_eq_take_iff]
    omega
  have opens := openFile_header reader ((frames.flatMap frame.encode).take (k - 24)) magic version
  rw [← cut] at opens
  refine ⟨_, opens, ?_, ?_⟩
  · rw [length]
    omega
  · intro n
    refine ⟨?_, rewind_reads rfl rfl n⟩
    rw [count]
    refine reads_frames (f := f) rfl (fun g hg => payloads g (List.mem_of_mem_take hg)) payload
      below ?_ size.symm n
    rw [← frame_size, ← hpart, ← cut]

/-- Closed or not, the file of complete writes is a valid header and their frames. -/
theorem content_recorded (createdUs : UInt64)
    {writes : List (DepthUpdate Double × DiskLogger.WriteEnv)}
    (complete : ∀ w ∈ writes, w.2.Complete) {file : List UInt8}
    (which : file = (recorded createdUs writes).2.content ∨
      file = (recorded createdUs writes).2.close.content) :
    ∃ header : FileHeader, header.magic = fileMagic ∧ header.version = fileVersion ∧
      file = fileHeader.encode header ++
        (writes.map (fun w => DiskLogger.frameOf w.1 w.2)).flatMap frame.encode := by
  have frames := landedBytes_complete complete
  rcases which with rfl | rfl
  · exact ⟨{ createdUs }, rfl, rfl, by rw [recorded_eq createdUs writes, frames]⟩
  · exact ⟨_, rfl, rfl, by rw [close_recorded createdUs writes, frames]⟩

/-- Every recording of depth updates reads back: closed or not and truncated anywhere
behind its header, it yields its whole records in order and then nothing, again after a
rewind; records convert both ways; and closing sets the count and no other byte. -/
theorem round_trip (createdUs : UInt64)
    (writes : List (DepthUpdate Double × DiskLogger.WriteEnv))
    (recordable : ∀ w ∈ writes, Recordable w.1.symbol) (complete : ∀ w ∈ writes, w.2.Complete)
    (few : writes.length < 2 ^ 32) :
    let logger := (recorded createdUs writes).2
    (recorded createdUs writes).1 = writes.map (fun _ => true) ∧
    (∀ w ∈ writes, fromRecord (toRecord w.1) = some w.1.untimed ∧
      toRecord w.1.untimed = toRecord w.1) ∧
    (fileHeader.decode (logger.close.content.take 24)).recordCount.toNat = writes.length ∧
    logger.close.content.length = logger.content.length ∧
    (∀ i, i < 16 ∨ 20 ≤ i → logger.close.content[i]? = logger.content[i]?) ∧
    ∀ reader file k, file = logger.content ∨ file = logger.close.content → 24 ≤ k →
      ∃ opened, openFile reader (some (file.take k)) = (true, opened) ∧
        ((file.take k).length - 24) / 2120 ≤ writes.length ∧
        ∀ n, (opened.reads n).1 =
            ((writes.take (((file.take k).length - 24) / 2120)).map
              (fun (update, env) => some (DiskLogger.frameOf update env)) ++
                List.replicate n none).take n ∧
          (opened.reads n).2.rewind = (true, opened) := by
  have closed := close_recorded createdUs writes
  have opened := recorded_eq createdUs writes
  have behind : fileHeader.size ≤ (recorded createdUs writes).2.content.length := by
    rw [opened, List.length_append, fileHeader.length_encode]
    exact Nat.le_add_right _ _
  have patched : (recorded createdUs writes).2.close.content =
      DiskLogger.patchCount (recorded createdUs writes).2.content
        (recorded createdUs writes).2.recordCount := by
    rw [DiskLogger.close, if_pos (by rw [opened])]
  refine ⟨?_, ?_, ?_, ?_, ?_, ?_⟩
  · rw [opened]
    exact List.map_congr_left (fun w hw => decide_eq_true (complete w hw))
  · exact fun w hw => ⟨fromRecord_toRecord_of_recordable (recordable w hw), toRecord_untimed w.1⟩
  · rw [closed, show (24 : Nat) = fileHeader.size from rfl, fileHeader.decode_take_append,
      succeeded_complete complete]
    exact UInt32.toNat_ofNat_of_lt' few
  · rw [patched]
    exact DiskLogger.length_patchCount _ behind
  · intro i outside
    rw [patched]
    exact DiskLogger.getElem?_patchCount _ behind outside
  · intro reader file k which past
    obtain ⟨header, magic, version, hfile⟩ := content_recorded createdUs complete which
    have payloads : ∀ f ∈ writes.map (fun w => DiskLogger.frameOf w.1 w.2),
        f.1.payloadSize = payloadSize := by
      intro f hf
      obtain ⟨w, -, rfl⟩ := List.mem_map.mp hf
      rfl
    obtain ⟨opened, opens, bound, reads⟩ :=
      reads_truncated reader header magic version payloads hfile past
    rw [List.length_map] at bound
    refine ⟨opened, opens, bound, ?_⟩
    intro n
    refine ⟨?_, (reads n).2⟩
    rw [(reads n).1, ← List.map_take, List.map_map]
    rfl

/-- One write of an update of `BTC` with a level on each side. -/
def sampleWrite : DepthUpdate Double × DiskLogger.WriteEnv :=
  ({ eventTimeMs := 1000
     firstUpdateId := 1
     lastUpdateId := 2
     symbol := [66, 84, 67]
     bids := Vector.replicate maxLevels ⟨⟨0x4059000000000000⟩, ⟨0x3FF0000000000000⟩⟩
     asks := Vector.replicate maxLevels ⟨⟨0x405A000000000000⟩, ⟨0x3FF0000000000000⟩⟩
     bidCount := 1
     askCount := 1 },
    { wallUs := 7, headerWritten := 12, recordWritten := 2108 })

/-- The reader of a closed file with that update twice. -/
def sampleReader : DiskReader :=
  (openFile {} (some (recorded 5 [sampleWrite, sampleWrite]).2.close.content)).2

theorem sampleReader_opens :
    openFile {} (some (recorded 5 [sampleWrite, sampleWrite]).2.close.content) =
        (true, sampleReader) ∧
      sampleReader.readAll =
        [DiskLogger.frameOf sampleWrite.1 sampleWrite.2,
          DiskLogger.frameOf sampleWrite.1 sampleWrite.2] := by
  obtain ⟨reader, opens, -, -, records⟩ :=
    @readAll_recorded {} 5 [sampleWrite, sampleWrite] (by decide)
  have same : sampleReader = reader := by rw [sampleReader, opens]
  rw [same]
  exact ⟨opens, records⟩

/-- Two writes of that update with another one between them, which has no bids. -/
def sampleWrites : List (DepthUpdate Double × DiskLogger.WriteEnv) :=
  [sampleWrite, ({ sampleWrite.1 with eventTimeMs := 1100, bidCount := 0 }, sampleWrite.2),
    sampleWrite]

theorem length_sampleWrites : (recorded 5 sampleWrites).2.close.content.length = 6384 := by
  obtain ⟨header, -, -, content⟩ := content_recorded 5 (by decide : ∀ w ∈ sampleWrites,
    w.2.Complete) (Or.inr rfl)
  rw [content, List.length_append, fileHeader.length_encode, frame.length_flatMap_encode,
    frame_size]
  rfl

/-- The closed file is cut inside its third record: two updates are read back, and a rewind
leads to the first one again. -/
theorem round_trip_sample : ∃ opened,
    openFile {} (some ((recorded 5 sampleWrites).2.close.content.take 5000)) = (true, opened) ∧
    (opened.reads 3).1.map (Option.bind · (fun f => fromRecord f.2)) =
      [some sampleWrite.1.untimed,
        some { sampleWrite.1.untimed with eventTimeMs := 1100, bidCount := 0 }, none] ∧
    (opened.reads 3).2.rewind = (true, opened) := by
  obtain ⟨-, converted, -, -, -, files⟩ :=
    round_trip 5 sampleWrites (by decide) (by decide) (by decide)
  obtain ⟨opened, opens, -, reads⟩ := files {} _ 5000 (Or.inr rfl) (by decide)
  obtain ⟨results, rewound⟩ := reads 3
  have whole : (((recorded 5 sampleWrites).2.close.content.take 5000).length - 24) / 2120 = 2 := by
    rw [List.length_take, length_sampleWrites]
    rfl
  have first := (converted sampleWrite List.mem_cons_self).1
  have second := (converted _ (List.mem_cons_of_mem _ List.mem_cons_self)).1
  refine ⟨opened, opens, ?_, rewound⟩
  rw [results, whole]
  simp only [sampleWrites, List.take, List.map_cons, List.map_nil, List.replicate,
    List.cons_append, List.nil_append, DiskLogger.frameOf, Option.bind_some,
    Option.bind_none, first, second]
  rfl

end DiskReader
