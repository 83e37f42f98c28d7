import RustafariDB.LengthFrames

/-!
# The write-ahead log

`wal.rs`: a record is appended as the length of its JSON, cast to a `u32`, and the JSON. The
writer buffers, and flushes after each record. Nothing in the code reads a log.
-/

namespace WriteAheadLog

open LengthFrames

section Records

/-- Type of WAL record. -/
inductive WalRecord where
  | begin (txId : UInt64)
  | insert (tableId rowId : UInt64) (data : List UInt8)
  | delete (tableId rowId : UInt64)
  | update (tableId rowId : UInt64) (data : List UInt8)
  | commit (txId : UInt64)
  | abort (txId : UInt64)
  deriving DecidableEq

/-- `serde_json::to_vec`, which does not fail for a record. -/
class RecordJson where
  toVec : WalRecord → List UInt8

end Records

section Json

def ascii (text : String) : List UInt8 := text.toList.map fun c => UInt8.ofNat c.toNat

def decimal (n : Nat) : List UInt8 :=
  (Nat.toDigits 10 n).map fun c => UInt8.ofNat c.toNat

def arrayJson (values : List (List UInt8)) : List UInt8 :=
  ascii "[" ++ (ascii ",").intercalate values ++ ascii "]"

def objectJson (members : List (String × List UInt8)) : List UInt8 :=
  let texts := members.map fun member =>
    ascii "\"" ++ ascii member.1 ++ ascii "\":" ++ member.2
  ascii "\x7b" ++ (ascii ",").intercalate texts ++ ascii "\x7d"

def dataJson (data : List UInt8) : List UInt8 :=
  arrayJson (data.map fun byte => decimal byte.toNat)

/-- A record is an object with its variant as the only member. -/
def WalRecord.toJson : WalRecord → List UInt8
  | .begin txId => objectJson [("Begin", objectJson [("tx_id", decimal txId.toNat)])]
  | .insert tableId rowId data =>
    objectJson [("Insert", objectJson [("table_id", decimal tableId.toNat),
      ("row_id", decimal rowId.toNat), ("data", dataJson data)])]
  | .delete tableId rowId =>
    objectJson [("Delete", objectJson [("table_id", decimal tableId.toNat),
      ("row_id", decimal rowId.toNat)])]
  | .update tableId rowId data =>
    objectJson [("Update", objectJson [("table_id", decimal tableId.toNat),
      ("row_id", decimal rowId.toNat), ("data", dataJson data)])]
  | .commit txId => objectJson [("Commit", objectJson [("tx_id", decimal txId.toNat)])]
  | .abort txId => objectJson [("Abort", objectJson [("tx_id", decimal txId.toNat)])]

/-- The JSON that `serde_json` writes for the derived `Serialize`, without white space. -/
instance compactJson : RecordJson := ⟨WalRecord.toJson⟩

example : WalRecord.toJson (.insert 1 20 [7, 255]) = ascii
    "\x7b\"Insert\":\x7b\"table_id\":1,\"row_id\":20,\"data\":[7,255]\x7d\x7d" := by
  decide

theorem length_decimal_pos (n : Nat) : 0 < (decimal n).length := by
  rw [decimal, List.length_map]
  exact Nat.length_toDigits_pos

/-- Every byte takes a digit and a separator. -/
theorem le_length_dataJson (data : List UInt8) : 2 * data.length ≤ (dataJson data).length := by
  have listed : 2 * data.length ≤
      ((ascii ",").intercalate (data.map fun byte => decimal byte.toNat)).length + 1 := by
    induction data with
    | nil => exact Nat.zero_le _
    | cons byte data ih =>
      have digit := length_decimal_pos byte.toNat
      cases data with
      | nil =>
        rw [List.map_cons, List.map_nil, List.intercalate_singleton, List.length_singleton]
        omega
      | cons next data =>
        rw [List.map_cons] at ih
        rw [List.map_cons, List.map_cons, List.intercalate_cons_cons, List.length_append,
          List.length_append, List.length_cons]
        have comma : (ascii ",").length = 1 := rfl
        omega
  have opened : (ascii "[").length = 1 := rfl
  rw [dataJson, arrayJson, List.length_append, List.length_append]
  omega

theorem length_insertJson (tableId rowId : UInt64) (data : List UInt8) :
    2 * data.length ≤ (WalRecord.toJson (.insert tableId rowId data)).length := by
  have long := le_length_dataJson data
  rw [WalRecord.toJson]
  simp only [objectJson, List.map_cons, List.map_nil, List.intercalate_cons_cons,
    List.intercalate_singleton, List.length_append]
  omega

end Json

section Writing

/-- A file opened for appending, and the bytes held back from it. -/
structure BufWriter where
  file : List UInt8
  buffer : List UInt8
  capacity : Nat

namespace BufWriter

def new (file : List UInt8) : BufWriter := ⟨file, [], 8192⟩

def flush (writer : BufWriter) : BufWriter :=
  { writer with file := writer.file ++ writer.buffer, buffer := [] }

/-- Bytes are held back while there is room, and go past the buffer if they would fill it. -/
def writeAll (writer : BufWriter) (bytes : List UInt8) : BufWriter :=
  if bytes.length < writer.capacity - writer.buffer.length then
    { writer with buffer := writer.buffer ++ bytes }
  else
    let writer :=
      if writer.capacity - writer.buffer.length < bytes.length then writer.flush else writer
    if writer.capacity ≤ bytes.length then { writer with file := writer.file ++ bytes }
    else { writer with buffer := writer.buffer ++ bytes }

end BufWriter

structure WalWriter where
  writer : BufWriter

/-- The bytes of a record in the log. -/
def recordFrame [RecordJson] (record : WalRecord) : List UInt8 :=
  frame 4 (RecordJson.toVec record)

namespace WalWriter

/-- A file that is there already is continued. -/
def openLog (file : List UInt8) : WalWriter := ⟨.new file⟩

variable [RecordJson]

def append (wal : WalWriter) (record : WalRecord) : WalWriter :=
  let bytes := RecordJson.toVec record
  let len := UInt32.ofNat bytes.length
  ⟨((wal.writer.writeAll (toBytesLE 4 len.toNat)).writeAll bytes).flush⟩

def appendAll (wal : WalWriter) (records : List WalRecord) : WalWriter :=
  records.foldl append wal

end WalWriter

end Writing

section Contents

namespace BufWriter

/-- What was written, in the file or on its way there. -/
def contents (writer : BufWriter) : List UInt8 := writer.file ++ writer.buffer

theorem contents_flush (writer : BufWriter) : writer.flush.contents = writer.contents := by
  rw [contents, flush, List.append_nil, contents]

theorem contents_writeAll (writer : BufWriter) (bytes : List UInt8) :
    (writer.writeAll bytes).contents = writer.contents ++ bytes := by
  have behind (writer : BufWriter) : contents { writer with buffer := writer.buffer ++ bytes } =
      writer.contents ++ bytes := (List.append_assoc ..).symm
  have past (writer : BufWriter) (empty : writer.buffer = [] ∨ bytes = []) :
      contents { writer with file := writer.file ++ bytes } = writer.contents ++ bytes := by
    rcases empty with empty | nothing
    · simp only [contents, empty, List.append_nil]
    · simp only [contents, nothing, List.append_nil]
  rw [writeAll]
  by_cases room : bytes.length < writer.capacity - writer.buffer.length
  · rw [if_pos room, behind]
  · rw [if_neg room]
    by_cases full : writer.capacity - writer.buffer.length < bytes.length
    · rw [if_pos full]
      by_cases large : writer.flush.capacity ≤ bytes.length
      · rw [if_pos large, past _ (Or.inl rfl), contents_flush]
      · rw [if_neg large, behind, contents_flush]
    · rw [if_neg full]
      by_cases large : writer.capacity ≤ bytes.length
      · -- bytes of the buffer's whole size go past it only if it is empty
        have empty : writer.buffer = [] ∨ bytes = [] := by
          rw [← List.length_eq_zero_iff, ← List.length_eq_zero_iff]
          omega
        rw [if_pos large, past _ empty]
      · rw [if_neg large, behind]

end BufWriter

variable [RecordJson]

/-- An append that completes leaves nothing held back. -/
theorem append_writer (wal : WalWriter) (record : WalRecord) :
    (wal.append record).writer.file = wal.writer.contents ++ recordFrame record ∧
      (wal.append record).writer.buffer = [] := by
  refine ⟨?_, rfl⟩
  have flushed (writer : BufWriter) : writer.flush.file = writer.contents := rfl
  have counted : (UInt32.ofNat (RecordJson.toVec record).length).toNat =
      (RecordJson.toVec record).length % 256 ^ 4 := UInt32.toNat_ofNat'
  rw [WalWriter.append, flushed, BufWriter.contents_writeAll, BufWriter.contents_writeAll,
    counted, toBytesLE_mod, List.append_assoc, recordFrame, frame]

theorem append_file (wal : WalWriter) (written : wal.writer.buffer = []) (record : WalRecord) :
    (wal.append record).writer.file = wal.writer.file ++ recordFrame record := by
  rw [(append_writer wal record).1, BufWriter.contents, written, List.append_nil]

/-- The JSON of the records, behind their lengths. -/
def recordFrames (records : List WalRecord) : List UInt8 :=
  frames 4 (records.map RecordJson.toVec)

theorem recordFrames_cons (record : WalRecord) (later : List WalRecord) :
    recordFrames (record :: later) = recordFrame record ++ recordFrames later := by
  rw [recordFrames, List.map_cons, frames_cons, recordFrame, recordFrames]

theorem appendAll_file (wal : WalWriter) (written : wal.writer.buffer = [])
    (records : List WalRecord) :
    (wal.appendAll records).writer.file = wal.writer.file ++ recordFrames records := by
  induction records generalizing wal with
  | nil => exact (List.append_nil _).symm
  | cons record later ih =>
    have first := ih (wal.append record) (append_writer wal record).2
    rw [append_file wal written, List.append_assoc] at first
    rw [recordFrames_cons, ← first, WalWriter.appendAll, List.foldl_cons, WalWriter.appendAll]

end Contents

end WriteAheadLog
