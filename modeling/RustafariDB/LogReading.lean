import RustafariDB.WriteAheadLog

/-!
# Reading the log back

A log reads back exactly if no record's JSON has 2^32 bytes, as the cast of its length loses
what is above. An append that stops midway leaves part of a frame. The log is opened again
behind it, and nothing that is appended then is read where it was put, unless the part reads
as frames of its own.
-/

namespace LogReading

open LengthFrames WriteAheadLog

section Completed
variable [RecordJson]

/-- The file that appends to an empty log leave. -/
def logOf (records : List WalRecord) : List UInt8 :=
  ((WalWriter.openLog []).appendAll records).writer.file

theorem logOf_eq (records : List WalRecord) : logOf records = recordFrames records :=
  appendAll_file _ rfl records

/-- The frames of a log are the records in order, and it ends with the last. -/
def ReadsBack (records : List WalRecord) : Prop :=
  (readFrames 4 0 (logOf records)).1.map Prod.snd = records.map RecordJson.toVec ∧
    (readFrames 4 0 (logOf records)).2 = []

theorem reads_frames_iff (records : List WalRecord) :
    ((readFrames 4 0 (recordFrames records)).1.map Prod.snd = records.map RecordJson.toVec ∧
        (readFrames 4 0 (recordFrames records)).2 = []) ↔
      ∀ record ∈ records, (RecordJson.toVec record).length < 4294967296 := by
  rw [recordFrames, reads_payloads_iff, List.forall_mem_map]
  rfl

theorem log_reads_back_iff (records : List WalRecord) :
    ReadsBack records ↔
      ∀ record ∈ records, (RecordJson.toVec record).length < 4294967296 := by
  rw [ReadsBack, logOf_eq, reads_frames_iff]

end Completed

/-- The JSON of 2^31 bytes of data does not fit. -/
theorem large_record_lost : ¬ ReadsBack [.insert 1 1 (List.replicate 2147483648 0)] := by
  rw [ReadsBack, logOf_eq, reads_frames_iff]
  intro small
  have fits := small _ (List.mem_singleton_self _)
  have bytes := length_insertJson 1 1 (List.replicate 2147483648 0)
  rw [List.length_replicate] at bytes
  exact absurd (bytes.trans_lt fits) (by decide)

section Interrupted
variable [RecordJson]

/-- Completed appends, one that stops within its frame, and the appends to the log that is
opened again. -/
structure Interruption where
  before : List WalRecord
  torn : WalRecord
  cut : Nat
  after : List WalRecord
  started : 0 < cut
  unfinished : cut < (recordFrame torn).length

/-- Where records are appended, and their JSON. -/
def appendedAt (wal : WalWriter) : List WalRecord → List (Nat × List UInt8)
  | [] => []
  | record :: later =>
    (wal.writer.file.length, RecordJson.toVec record) :: appendedAt (wal.append record) later

theorem appendedAt_eq (wal : WalWriter) (written : wal.writer.buffer = [])
    (records : List WalRecord) : appendedAt wal records =
      placed 4 wal.writer.file.length (records.map RecordJson.toVec) := by
  induction records generalizing wal with
  | nil => rfl
  | cons record later ih =>
    rw [appendedAt, ih _ (append_writer wal record).2, append_file wal written,
      List.length_append, recordFrame, length_frame, ← Nat.add_assoc, List.map_cons, placed]

namespace Interruption

def fragment (run : Interruption) : List UInt8 := (recordFrame run.torn).take run.cut

/-- The writer that finds the file as the interruption left it. -/
def reopened (run : Interruption) : WalWriter :=
  WalWriter.openLog (logOf run.before ++ run.fragment)

def file (run : Interruption) : List UInt8 :=
  (run.reopened.appendAll run.after).writer.file

def completed (run : Interruption) : List (Nat × List UInt8) :=
  appendedAt (WalWriter.openLog []) run.before ++ appendedAt run.reopened run.after

/-- Every completed record is read where it was appended. -/
def Recovers (run : Interruption) : Prop :=
  ∀ e ∈ run.completed, e ∈ (readFrames 4 0 run.file).1

theorem reopened_file (run : Interruption) :
    run.reopened.writer.file = recordFrames run.before ++ run.fragment := by
  rw [← logOf_eq]
  rfl

theorem file_eq (run : Interruption) :
    run.file = recordFrames run.before ++ (run.fragment ++ recordFrames run.after) := by
  rw [file, appendAll_file _ rfl, reopened_file, List.append_assoc]

theorem completed_eq (run : Interruption) : run.completed =
    placed 4 0 (run.before.map RecordJson.toVec) ++
      placed 4 ((recordFrames run.before).length + run.fragment.length)
        (run.after.map RecordJson.toVec) := by
  rw [completed, appendedAt_eq _ rfl, appendedAt_eq _ rfl, reopened_file, List.length_append]
  rfl

/-- Only a record whose length is cut in its header can be torn so that the part reads as
frames. -/
theorem large_of_read (run : Interruption) (whole : (readFrames 4 0 run.fragment).2 = []) :
    4294967296 ≤ (RecordJson.toVec run.torn).length := by
  by_contra small
  exact left_of_cut (w := 4) (Nat.lt_of_not_le small) run.started run.unfinished whole

theorem recovers_iff (run : Interruption) :
    run.Recovers ↔
      (∀ record ∈ run.before ++ run.after, (RecordJson.toVec record).length < 4294967296) ∧
        (run.after = [] ∨ 4294967296 ≤ (RecordJson.toVec run.torn).length ∧
          (readFrames 4 0 run.fragment).2 = []) := by
  have around := found_around_iff (w := 4) (run.before.map RecordJson.toVec)
    (run.after.map RecordJson.toVec) run.fragment
  rw [Recovers, completed_eq, file_eq]
  refine around.trans (and_congr ?_ (or_congr List.map_eq_nil_iff ?_))
  · rw [← List.map_append, List.forall_mem_map]
    rfl
  · exact ⟨fun whole => ⟨large_of_read run whole, whole⟩, And.right⟩

end Interruption

end Interrupted

/-- One byte of a frame reached the file before it was opened again. -/
def cutAtOne : Interruption := ⟨[], .begin 1, 1, [.commit 1], by decide, by decide⟩

theorem cut_at_one_poisons : ¬ cutAtOne.Recovers ∧
    RecordJson.toVec (.commit 1) ∉ (readFrames 4 0 cutAtOne.file).1.map Prod.snd := by
  have nothing : readFrames 4 0 cutAtOne.file = ([], cutAtOne.file) := by
    rw [Interruption.file_eq]
    exact readFrames_of_none (readFrame_eq_none.mpr (by decide)) 0
  rw [Interruption.Recovers, nothing]
  exact ⟨fun found => absurd (found _ List.mem_cons_self) List.not_mem_nil, List.not_mem_nil⟩

end LogReading
