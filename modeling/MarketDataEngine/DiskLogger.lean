import MarketDataEngine.RecordFormat
import Mathlib.Data.List.Induction

/-!
# Writing a recording

`DiskLogger` of `output/disk_logger.h`. The file is its bytes so far. Every
`fwrite` takes from its environment how many bytes reached the file; it reports
success exactly when all of them did. A write is two such calls, so it can stop
before, between or inside them, and nothing takes partial bytes back. The path
is only logged and is left out.
-/

open MarketTypes RecordFormat

/-- `fwrite` of one item at the end of a file. -/
def fwrite (content data : List UInt8) (written : Nat) : Bool × List UInt8 :=
  (decide (data.length ≤ written), content ++ data.take written)

structure DiskLogger where
  isOpen : Bool := false
  content : List UInt8 := []
  recordCount : UInt32 := 0

namespace DiskLogger

/-- What one `write` meets outside the program. -/
structure WriteEnv where
  wallUs : UInt64
  headerWritten : Nat
  recordWritten : Nat

/-- Overwrite the four bytes at `offsetof(FileHeader, record_count)`. -/
def patchCount (content : List UInt8) (count : UInt32) : List UInt8 :=
  content.take 16 ++ Codec.uint32.encode count ++ content.drop 20

def close (logger : DiskLogger) : DiskLogger :=
  if logger.isOpen then
    { logger with isOpen := false, content := patchCount logger.content logger.recordCount }
  else logger

/-- `open`, where `opened` says whether `fopen` succeeded. -/
def openFile (logger : DiskLogger) (opened : Bool) (createdUs : UInt64) (written : Nat) :
    Bool × DiskLogger :=
  if opened then
    let (ok, content) := fwrite [] (fileHeader.encode { createdUs }) written
    (ok, { isOpen := ok, content := content, recordCount := 0 })
  else (false, logger.close)

def write (logger : DiskLogger) (update : DepthUpdate Double) (env : WriteEnv) :
    Bool × DiskLogger :=
  if logger.isOpen then
    let rhdr : RecordHeader := ⟨env.wallUs, payloadSize⟩
    let rec' := toRecord update
    let (headerOk, content) := fwrite logger.content (recordHeader.encode rhdr) env.headerWritten
    if headerOk then
      let (recordOk, content) := fwrite content (depthRecord.encode rec') env.recordWritten
      if recordOk then
        (true, { logger with content := content, recordCount := logger.recordCount + 1 })
      else (false, { logger with content := content })
    else (false, { logger with content := content })
  else (false, logger)

/-- A sequence of writes with their results. -/
def writeAll (logger : DiskLogger) :
    List (DepthUpdate Double × WriteEnv) → List Bool × DiskLogger
  | [] => ([], logger)
  | (update, env) :: rest =>
    let (ok, logger) := logger.write update env
    let (oks, logger) := logger.writeAll rest
    (ok :: oks, logger)

theorem writeAll_snoc (logger : DiskLogger) (writes : List (DepthUpdate Double × WriteEnv))
    (update : DepthUpdate Double) (env : WriteEnv) :
    (logger.writeAll (writes ++ [(update, env)])).2 =
      ((logger.writeAll writes).2.write update env).2 := by
  induction writes generalizing logger with
  | nil => rfl
  | cons w rest ih => exact ih _

/-! ## What a write leaves in the file -/

/-- The header and record a write puts into the file when nothing fails. -/
def frameOf (update : DepthUpdate Double) (env : WriteEnv) : RecordHeader × DepthRecord :=
  (⟨env.wallUs, payloadSize⟩, toRecord update)

/-- The bytes of the frame that reach the file. -/
def WriteEnv.landed (env : WriteEnv) : Nat :=
  if env.headerWritten < recordHeader.size then env.headerWritten
  else recordHeader.size + min env.recordWritten depthRecord.size

/-- Neither `fwrite` of the write fails. -/
def WriteEnv.Complete (env : WriteEnv) : Prop :=
  recordHeader.size ≤ env.headerWritten ∧ depthRecord.size ≤ env.recordWritten

instance (env : WriteEnv) : Decidable env.Complete := inferInstanceAs (Decidable (_ ∧ _))

theorem landed_le (env : WriteEnv) : env.landed ≤ frame.size := by
  unfold WriteEnv.landed
  rw [recordHeader_size, depthRecord_size, frame_size]
  split_ifs <;> omega

theorem landed_eq_size_iff (env : WriteEnv) : env.landed = frame.size ↔ env.Complete := by
  unfold WriteEnv.landed WriteEnv.Complete
  rw [recordHeader_size, depthRecord_size, frame_size]
  split_ifs <;> omega

/-- A write on an open file appends the front of its frame that landed, and counts
the record exactly when that is all of it. -/
theorem write_of_open {logger : DiskLogger} (isOpen : logger.isOpen = true)
    (update : DepthUpdate Double) (env : WriteEnv) :
    logger.write update env = (decide env.Complete, {
      isOpen := true
      content := logger.content ++ (frame.encode (frameOf update env)).take env.landed
      recordCount := if env.Complete then logger.recordCount + 1 else logger.recordCount }) := by
  have hsize := recordHeader.length_encode ⟨env.wallUs, payloadSize⟩
  have rsize := depthRecord.length_encode (toRecord update)
  rw [frame_encode, frameOf, write, if_pos isOpen]
  by_cases header : recordHeader.size ≤ env.headerWritten
  · have whole : (recordHeader.encode ⟨env.wallUs, payloadSize⟩).take env.headerWritten =
        recordHeader.encode ⟨env.wallUs, payloadSize⟩ :=
      List.take_of_length_le (hsize.trans_le header)
    have landed : env.landed = recordHeader.size + min env.recordWritten depthRecord.size :=
      if_neg (Nat.not_lt.mpr header)
    have cut : (recordHeader.encode ⟨env.wallUs, payloadSize⟩ ++
        depthRecord.encode (toRecord update)).take env.landed =
        recordHeader.encode ⟨env.wallUs, payloadSize⟩ ++
          (depthRecord.encode (toRecord update)).take env.recordWritten := by
      rw [landed, ← hsize, List.take_length_add_append, ← rsize, ← List.take_eq_take_min]
    rw [cut]
    by_cases record : depthRecord.size ≤ env.recordWritten
    · have complete : env.Complete := ⟨header, record⟩
      simp [fwrite, hsize, rsize, header, record, whole, complete, isOpen]
    · have incomplete : ¬ env.Complete := fun h => record h.2
      simp [fwrite, hsize, rsize, header, record, whole, incomplete, isOpen]
  · have incomplete : ¬ env.Complete := fun h => header h.1
    have landed : env.landed = env.headerWritten := if_pos (Nat.lt_of_not_le header)
    have cut : (recordHeader.encode ⟨env.wallUs, payloadSize⟩ ++
        depthRecord.encode (toRecord update)).take env.landed =
        (recordHeader.encode ⟨env.wallUs, payloadSize⟩).take env.headerWritten := by
      rw [landed, List.take_append_of_le_length (by omega)]
    rw [cut]
    simp [fwrite, hsize, header, incomplete, isOpen]

/-- The bytes a sequence of writes appends. -/
def landedBytes (writes : List (DepthUpdate Double × WriteEnv)) : List UInt8 :=
  writes.flatMap (fun w => (frame.encode (frameOf w.1 w.2)).take w.2.landed)

/-- The writes that return true. -/
def succeeded (writes : List (DepthUpdate Double × WriteEnv)) :
    List (DepthUpdate Double × WriteEnv) :=
  writes.filter (fun w => w.2.Complete)

theorem writeAll_of_open {logger : DiskLogger} (isOpen : logger.isOpen = true)
    (writes : List (DepthUpdate Double × WriteEnv)) :
    logger.writeAll writes = (writes.map (fun w => decide w.2.Complete), {
      isOpen := true
      content := logger.content ++ landedBytes writes
      recordCount := logger.recordCount + UInt32.ofNat (succeeded writes).length }) := by
  induction writes generalizing logger with
  | nil => simp [writeAll, landedBytes, succeeded, ← isOpen]
  | cons w rest ih =>
    obtain ⟨update, env⟩ := w
    simp only [writeAll, write_of_open isOpen, ih]
    by_cases complete : env.Complete
    · simp [landedBytes, succeeded, complete, UInt32.ofNat_add, UInt32.add_assoc,
        UInt32.add_comm 1]
    · simp [landedBytes, succeeded, complete]

/-- The logger after a successful `open`. -/
def fresh (createdUs : UInt64) : DiskLogger where
  isOpen := true
  content := fileHeader.encode { createdUs }
  recordCount := 0

theorem openFile_complete (logger : DiskLogger) (createdUs : UInt64) {written : Nat}
    (complete : fileHeader.size ≤ written) :
    logger.openFile true createdUs written = (true, fresh createdUs) := by
  have whole := (fileHeader.length_encode { createdUs }).trans_le complete
  simp only [openFile, if_true, fwrite, List.nil_append]
  rw [List.take_of_length_le whole, decide_eq_true whole, fresh]

/-! ## The header patch -/

theorem length_patchCount {content : List UInt8} (count : UInt32)
    (header : fileHeader.size ≤ content.length) :
    (patchCount content count).length = content.length := by
  have size := Codec.uint32.length_encode count
  rw [fileHeader_size] at header
  simp only [patchCount, List.length_append, List.length_take, List.length_drop, size,
    show Codec.uint32.size = 4 from rfl]
  omega

/-- Only the four count bytes of a file can change. -/
theorem getElem?_patchCount {content : List UInt8} (count : UInt32)
    (header : fileHeader.size ≤ content.length) {i : Nat} (outside : i < 16 ∨ 20 ≤ i) :
    (patchCount content count)[i]? = content[i]? := by
  have size : (Codec.uint32.encode count).length = 4 := Codec.uint32.length_encode count
  rw [fileHeader_size] at header
  rw [patchCount]
  rcases outside with below | above
  · rw [List.append_assoc, List.getElem?_append_left (by rw [List.length_take]; omega),
      List.getElem?_take_of_lt below]
  · rw [List.getElem?_append_right (by simp only [List.length_append, List.length_take]; omega),
      List.getElem?_drop]
    congr 1
    simp only [List.length_append, List.length_take, size]
    omega

theorem patchCount_append {front old : List UInt8} (rest : List UInt8) (count : UInt32)
    (before : front.length = 16) (four : old.length = 4) :
    patchCount (front ++ (old ++ rest)) count = front ++ (Codec.uint32.encode count ++ rest) := by
  have past : (front ++ (old ++ rest)).drop 20 = rest := by
    rw [← List.append_assoc]
    exact List.drop_left' (by rw [List.length_append, before, four])
  rw [patchCount, past, List.take_left' before, List.append_assoc]

/-- Patching the count of a file with a header gives the header with that count. -/
theorem patchCount_header (header : FileHeader) (rest : List UInt8) (count : UInt32) :
    patchCount (fileHeader.encode header ++ rest) count =
      fileHeader.encode { header with recordCount := count } ++ rest := by
  have before : (Codec.uint32.encode header.magic ++ (Codec.uint32.encode header.version ++
      Codec.uint64.encode header.createdUs)).length = 16 := by
    simp only [List.length_append, Codec.length_encode]
    rfl
  have patched := patchCount_append (Codec.uint32.encode header.reserved ++ rest) count before
    (Codec.uint32.length_encode header.recordCount)
  simpa only [fileHeader_encode, List.append_assoc] using patched

end DiskLogger
