import Viperblock.Consolidators
import Viperblock.Lib.GuardedRun

/-!
# Appending to a log file that may refuse bytes

`WriteWAL` and `WriteShardedWAL` append one record to a file, and the file may take only a
part of it.  Records carry no mark of their own: a reader finds the next one by counting
bytes from the header.  `WriteWAL` cuts the file back to where it was before the append,
`WriteShardedWAL` does not.

The files are byte strings here.  Recovery and the consolidation of a sharded log are
compared with the calls that reported success.
-/

namespace Viperblock

open ByteCodec Config GuardedRun

/-- What a write to a file came to. -/
inductive WriteResult
  | ok
  /-- An error, after the first `n` bytes. -/
  | failed (n : Nat)
deriving DecidableEq, Repr

namespace WriteResult

def isOk : WriteResult → Bool
  | .ok => true
  | .failed _ => false

/-- The bytes that reach the file. -/
def written (result : WriteResult) (bytes : Bytes) : Bytes :=
  match result with
  | .ok => bytes
  | .failed n => bytes.take n

end WriteResult

/-- A call that appends a block to a log, with what its system calls come to. -/
structure AppendCall where
  block : Block
  write : WriteResult
  /-- The size of the file cannot be obtained before the write. -/
  statFails : Bool
  /-- The file cannot be cut back after the write. -/
  truncateFails : Bool
deriving DecidableEq, Repr

namespace Config

variable (cfg : Config)

/-- Open a log file, which may be there already; a header is appended to what it holds. -/
def openWALLocked (file : Option Bytes) (timestamp : Nat) (write : WriteResult) :
    Bytes × Bool :=
  (file.getD [] ++ write.written (cfg.walHeader timestamp), write.isOk)

/-- Open the file of one shard, in the same way. -/
def openShardedWAL (file : Option Bytes) (timestamp : Nat) (write : WriteResult) :
    Bytes × Bool :=
  cfg.openWALLocked file timestamp write

/-- The file after the call, and whether the call returned nil. -/
def writeWAL (file : Bytes) (call : AppendCall) : Bytes × Bool :=
  if call.statFails then (file, false)
  else
    let preSize := file.length
    let file := file ++ call.write.written (cfg.walRecord call.block)
    if call.write.isOk then (file, true)
    else if call.truncateFails then (file, false)
    else (file.take preSize, false)

/-- The record of the sharded log, which has a checksum on every volume. -/
def shardRecord (b : Block) : Bytes :=
  recordHead b ++ encode 4 (recordChecksum (recordHead b) b.data).toNat ++ b.data

/-- Append to the file of a shard. -/
def writeShardedWAL (file : Bytes) (call : AppendCall) : Bytes × Bool :=
  (file ++ call.write.written (shardRecord call.block), call.write.isOk)

/-- The records of a log file, with the highest of their sequence numbers. -/
def recoverWALFile (file : Bytes) : Except WalError (List Block × Nat) :=
  match cfg.readWALFileForRecovery file with
  | .error e => .error e
  | .ok blocks => .ok (blocks, fileMaxSeq blocks)

end Config

/-- A log file with the records whose calls returned nil, and for each of them the length
of the file right behind it. -/
structure AppendedLog where
  file : Bytes
  acked : List (Block × Nat)

namespace AppendedLog

/-- One more call of a writer. -/
def append (write : Bytes → AppendCall → Bytes × Bool) (log : AppendedLog)
    (call : AppendCall) : AppendedLog :=
  let result := write log.file call
  ⟨result.1, if result.2 then log.acked ++ [(call.block, result.1.length)] else log.acked⟩

/-- The acknowledged records. -/
def blocks (log : AppendedLog) : List Block :=
  log.acked.map Prod.fst

/-- The acknowledged records that lie wholly inside the first `cut` bytes. -/
def blocksWithin (log : AppendedLog) (cut : Nat) : List Block :=
  (log.acked.filter fun record => record.2 ≤ cut).map Prod.fst

end AppendedLog

section Rollback

variable {cfg : Config}

/-- The records lie one behind the other from the header on. -/
def recordEnds (cfg : Config) (blocks : List Block) : List (Block × Nat) :=
  (blocks.zipIdx 1).map fun record =>
    (record.1, walHeaderSize + record.2 * cfg.recordSize)

theorem recordEnds_concat (cfg : Config) (blocks : List Block) (b : Block) :
    recordEnds cfg (blocks ++ [b]) = recordEnds cfg blocks ++
        [(b, walHeaderSize + (blocks.length + 1) * cfg.recordSize)] := by
  simp [recordEnds, List.zipIdx_append, Nat.add_comm 1]

theorem map_fst_recordEnds (cfg : Config) (blocks : List Block) :
    (recordEnds cfg blocks).map Prod.fst = blocks := by
  simp only [recordEnds, List.map_map, Function.comp_def]
  exact List.zipIdx_map_fst 1 blocks

/-- The log is what its acknowledged records make of it. -/
structure Rolled (cfg : Config) (timestamp : Nat) (blocks : List Block) (log : AppendedLog) :
    Prop where
  fits : ∀ b ∈ blocks, b.Fits cfg
  file : log.file = cfg.segment timestamp blocks
  acked : log.acked = recordEnds cfg blocks

theorem segment_concat (timestamp : Nat) (blocks : List Block) (b : Block) :
    cfg.segment timestamp (blocks ++ [b]) = cfg.segment timestamp blocks ++ cfg.walRecord b := by
  simp [Config.segment]

/-- The call appends its record or leaves the file as it was. -/
def Rolls (cfg : Config) (write : Bytes → AppendCall → Bytes × Bool) (call : AppendCall) :
    Prop :=
  ∀ file, write file call = (file ++ cfg.walRecord call.block, true) ∨
    write file call = (file, false)

theorem rolls_writeWAL {call : AppendCall} (htruncate : call.truncateFails = false) :
    Rolls cfg cfg.writeWAL call := by
  intro file
  obtain ⟨b, write, statFails, truncateFails⟩ := call
  subst htruncate
  cases statFails with
  | true => exact .inr rfl
  | false =>
    cases write with
    | ok => exact .inl rfl
    | failed n =>
      refine .inr ?_
      simp [writeWAL, WriteResult.isOk, WriteResult.written]

theorem Rolled.append {write : Bytes → AppendCall → Bytes × Bool}
    {timestamp : Nat} {blocks : List Block} {log : AppendedLog} {call : AppendCall}
    (h : Rolled cfg timestamp blocks log) (hfits : call.block.Fits cfg)
    (hrolls : Rolls cfg write call) :
    ∃ blocks', Rolled cfg timestamp blocks' (log.append write call) := by
  rcases hrolls log.file with hwrite | hwrite
  · have hall : ∀ b ∈ blocks ++ [call.block], b.Fits cfg := by
      intro b hb
      rcases List.mem_append.mp hb with hold | hnew
      · exact h.fits b hold
      · rw [List.mem_singleton.mp hnew]
        exact hfits
    have hfile : log.file ++ cfg.walRecord call.block =
        cfg.segment timestamp (blocks ++ [call.block]) := by
      rw [h.file, segment_concat]
    refine ⟨blocks ++ [call.block], hall, ?_, ?_⟩
    · simp only [AppendedLog.append, hwrite, hfile]
    · simp only [AppendedLog.append, hwrite, if_true, hfile, length_segment _ hall, h.acked,
        recordEnds_concat, List.length_append, List.length_singleton]
  · refine ⟨blocks, h.fits, ?_, ?_⟩
    · simp only [AppendedLog.append, hwrite]
      exact h.file
    · simp only [AppendedLog.append, hwrite]
      exact h.acked

theorem exists_rolled {write : Bytes → AppendCall → Bytes × Bool}
    {calls : List AppendCall} {timestamp : Nat} {blocks : List Block} {log : AppendedLog}
    (h : Rolled cfg timestamp blocks log)
    (hcalls : ∀ call ∈ calls, call.block.Fits cfg ∧ Rolls cfg write call) :
    ∃ blocks', Rolled cfg timestamp blocks' (calls.foldl (AppendedLog.append write) log) := by
  induction calls generalizing blocks log with
  | nil => exact ⟨blocks, h⟩
  | cons call calls ih =>
    obtain ⟨hfits, hrolls⟩ := hcalls call List.mem_cons_self
    obtain ⟨blocks', hnext⟩ := h.append hfits hrolls
    exact ih hnext fun c hc => hcalls c (List.mem_cons_of_mem _ hc)

theorem rolled_openWALLocked {old : Option Bytes} (hempty : old.getD [] = []) (timestamp : Nat) :
    Rolled cfg timestamp [] ⟨(cfg.openWALLocked old timestamp .ok).1, []⟩ := by
  refine ⟨by simp, ?_, rfl⟩
  simp [openWALLocked, WriteResult.written, Config.segment, hempty]

/-- The records that end inside the cut are the ones at the front. -/
theorem map_fst_filter_recordEnds (blocks : List Block) {cut : Nat}
    (hcut : walHeaderSize ≤ cut) :
    ((recordEnds cfg blocks).filter fun record => record.2 ≤ cut).map Prod.fst =
      blocks.take ((cut - walHeaderSize) / cfg.recordSize) := by
  have hpos := recordSize_pos cfg
  induction blocks using List.reverseRecOn with
  | nil => simp [recordEnds]
  | append_singleton blocks b ih =>
    rw [recordEnds_concat, List.filter_append, List.map_append, ih]
    by_cases hinside : walHeaderSize + (blocks.length + 1) * cfg.recordSize ≤ cut
    · have hcount : blocks.length + 1 ≤ (cut - walHeaderSize) / cfg.recordSize := by
        rw [Nat.le_div_iff_mul_le hpos]
        omega
      simp only [List.filter_cons, hinside, decide_true, if_true, List.filter_nil,
        List.map_cons, List.map_nil]
      rw [List.take_of_length_le (by omega), List.take_of_length_le (by simpa using hcount)]
    · have hcount : (cut - walHeaderSize) / cfg.recordSize < blocks.length + 1 := by
        rw [Nat.div_lt_iff_lt_mul hpos]
        omega
      simp only [List.filter_cons, hinside, decide_false, Bool.false_eq_true, if_false,
        List.filter_nil, List.map_nil, List.append_nil]
      rw [List.take_append_of_le_length (by omega)]

/-- The number is the largest sequence number of the blocks, or zero if there are none. -/
def IsLargestSeqNum (blocks : List Block) (m : Nat) : Prop :=
  (∀ b ∈ blocks, b.seqNum ≤ m) ∧ (blocks = [] ∧ m = 0 ∨ ∃ b ∈ blocks, b.seqNum = m)

theorem isLargestSeqNum_fileMaxSeq (blocks : List Block) :
    IsLargestSeqNum blocks (fileMaxSeq blocks) := by
  obtain ⟨-, hall, hattained⟩ := fileMaxSeq_foldl blocks 0
  refine ⟨hall, ?_⟩
  rcases hattained with hzero | hattained
  · cases blocks with
    | nil => exact .inl ⟨rfl, rfl⟩
    | cons first rest =>
      have hfirst := hall first List.mem_cons_self
      exact .inr ⟨first, List.mem_cons_self, by rw [fileMaxSeq, hzero]; omega⟩
  · exact .inr hattained

/-- Whatever calls were made on a new segment, with appends that failed half way and were
rolled back, and wherever a crash cuts the file behind its header, recovery returns the
acknowledged records that lie inside the cut, in their order. -/
theorem recovery_returns_whole_records
    (cfg : Config) (timestamp : Nat)
    {calls : List AppendCall} {cut : Nat}
    (hcalls : ∀ call ∈ calls, call.block.Fits cfg ∧ call.truncateFails = false)
    (hcut : walHeaderSize ≤ cut) :
    let log := calls.foldl (AppendedLog.append cfg.writeWAL)
      ⟨(cfg.openWALLocked none timestamp .ok).1, []⟩
    ∃ largest, cfg.recoverWALFile (log.file.take cut) = .ok (log.blocksWithin cut, largest) ∧
      IsLargestSeqNum (log.blocksWithin cut) largest := by
  intro log
  obtain ⟨blocks, hrolled⟩ := exists_rolled
    (@rolled_openWALLocked cfg none rfl timestamp)
    fun call hcall => ⟨(hcalls call hcall).1, rolls_writeWAL (hcalls call hcall).2⟩
  have hwithin : log.blocksWithin cut =
      blocks.take ((cut - walHeaderSize) / cfg.recordSize) := by
    rw [AppendedLog.blocksWithin, hrolled.acked, map_fst_filter_recordEnds blocks hcut]
  have hread : cfg.readWALFileForRecovery (log.file.take cut) = .ok (log.blocksWithin cut) := by
    rw [hrolled.file, readWALFileForRecovery_cut timestamp hrolled.fits hcut, hwithin]
  refine ⟨fileMaxSeq (log.blocksWithin cut), ?_, isLargestSeqNum_fileMaxSeq _⟩
  simp only [recoverWALFile, hread]

/-- Three calls on a small volume, of which the second writes five bytes and fails. -/
def threeCalls : List AppendCall :=
  [⟨⟨[10], 1, 7, 1⟩, .ok, false, false⟩, ⟨⟨[11], 2, 8, 1⟩, .failed 5, false, false⟩,
    ⟨⟨[12], 3, 9, 1⟩, .ok, false, false⟩]

theorem fits_threeCalls {cfg : Config} (hsize : cfg.blockSize = 1) :
    ∀ call ∈ threeCalls, call.block.Fits cfg := by
  intro call hcall
  simp only [threeCalls, List.mem_cons, List.not_mem_nil, or_false] at hcall
  rcases hcall with rfl | rfl | rfl <;>
    exact ⟨hsize.symm, by decide, by decide, by decide⟩

def threeCallsLog (cfg : Config) : AppendedLog :=
  threeCalls.foldl (AppendedLog.append cfg.writeWAL) ⟨(cfg.openWALLocked none 0 .ok).1, []⟩

/-- A crash one byte before the end of the second of two records, without encryption and
with it. -/
theorem recovery_returns_whole_records_threeCalls :
    let plain := threeCallsLog Config.tiny
    let sealed := threeCallsLog Config.tinySealed
    (plain.file.length = 76 ∧ plain.blocksWithin 75 = [⟨[10], 1, 7, 1⟩] ∧
      ∃ largest, Config.tiny.recoverWALFile (plain.file.take 75) =
          .ok (plain.blocksWithin 75, largest) ∧
        IsLargestSeqNum (plain.blocksWithin 75) largest) ∧
      sealed.file.length = 100 ∧ sealed.blocksWithin 99 = [⟨[10], 1, 7, 1⟩] ∧
      ∃ largest, Config.tinySealed.recoverWALFile (sealed.file.take 99) =
          .ok (sealed.blocksWithin 99, largest) ∧
        IsLargestSeqNum (sealed.blocksWithin 99) largest := by
  have hkept : ∀ call ∈ threeCalls, call.truncateFails = false := by decide
  refine ⟨⟨by decide +kernel, by decide +kernel, recovery_returns_whole_records Config.tiny 0 ?_
    (by decide)⟩, by decide +kernel, by decide +kernel,
    recovery_returns_whole_records Config.tinySealed 0 ?_ (by decide)⟩
  · exact fun call hcall => ⟨fits_threeCalls rfl call hcall, hkept call hcall⟩
  · exact fun call hcall => ⟨fits_threeCalls rfl call hcall, hkept call hcall⟩

end Rollback

section Shards

variable {cfg : Config}

/-- One more call on the file of a shard. -/
def appendToShard (log : AppendedLog) (call : AppendCall) : Option AppendedLog :=
  some (log.append writeShardedWAL call)

/-- The bytes behind the last whole record. -/
def tornBytes (cfg : Config) (file : Bytes) : Nat :=
  (file.length - walHeaderSize) % cfg.recordSize

/-- The call finds the file at the end of a record, or it fails and leaves less than a
record behind the last whole one. -/
def keepsFrames (cfg : Config) (log : AppendedLog) (call : AppendCall) : Bool :=
  tornBytes cfg log.file == 0 ||
    (!call.write.isOk &&
      tornBytes cfg log.file + (call.write.written (shardRecord call.block)).length <
        cfg.recordSize)

/-- The file holds records and less than a record of something else, and the acknowledged
records are among the former. -/
structure Framed (cfg : Config) (timestamp : Nat) (records : List Block)
    (log : AppendedLog) : Prop where
  fits : ∀ b ∈ records, b.Fits cfg
  file : ∃ torn, torn.length < cfg.recordSize ∧ log.file = cfg.segment timestamp records ++ torn
  acked : log.blocks.Sublist records

theorem shardRecord_eq (hplain : cfg.sealing = none) (b : Block) :
    shardRecord b = cfg.walRecord b := by
  rw [shardRecord, walRecord, hplain]

theorem tornBytes_segment {timestamp : Nat} {records : List Block} {torn : Bytes}
    (hfits : ∀ b ∈ records, b.Fits cfg) (htorn : torn.length < cfg.recordSize) :
    tornBytes cfg (cfg.segment timestamp records ++ torn) = torn.length := by
  rw [tornBytes, List.length_append, length_segment _ hfits, Nat.add_assoc, Nat.add_sub_cancel_left,
    Nat.mul_add_mod_self_right, Nat.mod_eq_of_lt htorn]

theorem Framed.whole {timestamp : Nat} {records : List Block} {log : AppendedLog} {b : Block}
    (h : Framed cfg timestamp records log) (hfits : b.Fits cfg)
    (hwhole : log.file = cfg.segment timestamp records) {acked : List (Block × Nat)}
    (hacked : acked.map Prod.fst = log.blocks ∨ acked.map Prod.fst = log.blocks ++ [b]) :
    Framed cfg timestamp (records ++ [b]) ⟨log.file ++ cfg.walRecord b, acked⟩ := by
  constructor
  case fits =>
    intro c hc
    rcases List.mem_append.mp hc with hold | hnew
    · exact h.fits c hold
    · rw [List.mem_singleton.mp hnew]
      exact hfits
  case file =>
    refine ⟨[], recordSize_pos cfg, ?_⟩
    rw [hwhole, segment_concat, List.append_nil]
  case acked =>
    rw [AppendedLog.blocks]
    rcases hacked with hacked | hacked
    · rw [hacked]
      exact h.acked.trans (List.sublist_append_left _ _)
    · rw [hacked]
      exact h.acked.append (List.Sublist.refl _)

/-- One call that keeps the frames. -/
theorem Framed.append {timestamp : Nat} {records : List Block} {log : AppendedLog}
    {call : AppendCall} (hplain : cfg.sealing = none) (h : Framed cfg timestamp records log)
    (hfits : call.block.Fits cfg) (hkeeps : keepsFrames cfg log call = true) :
    ∃ records', Framed cfg timestamp records' (log.append writeShardedWAL call) := by
  obtain ⟨torn, htorn, hfile⟩ := h.file
  simp only [keepsFrames, hfile, tornBytes_segment h.fits htorn, shardRecord_eq hplain,
    Bool.or_eq_true, beq_iff_eq, Bool.and_eq_true, Bool.not_eq_true', decide_eq_true_eq]
    at hkeeps
  obtain ⟨b, write, statFails, truncateFails⟩ := call
  have hlength : (cfg.walRecord b).length = cfg.recordSize := length_walRecord hfits
  cases write with
  | ok =>
    have hempty : torn = [] := by
      rcases hkeeps with hempty | ⟨hfailed, -⟩
      · exact List.length_eq_zero_iff.mp hempty
      · cases hfailed
    rw [hempty, List.append_nil] at hfile
    refine ⟨records ++ [b], ?_⟩
    simp only [AppendedLog.append, writeShardedWAL, WriteResult.written,
      WriteResult.isOk, if_true, shardRecord_eq hplain]
    refine h.whole hfits hfile (.inr ?_)
    simp [AppendedLog.blocks]
  | failed n =>
    simp only [AppendedLog.append, writeShardedWAL, WriteResult.written,
      WriteResult.isOk, Bool.false_eq_true, if_false, shardRecord_eq hplain]
    by_cases hshort : torn.length + ((cfg.walRecord b).take n).length < cfg.recordSize
    · refine ⟨records, h.fits, ⟨torn ++ (cfg.walRecord b).take n, ?_, ?_⟩, h.acked⟩
      · rw [List.length_append]
        exact hshort
      · rw [hfile, List.append_assoc]
    · -- the whole record is there although the call reported an error
      have hempty : torn = [] := by
        rcases hkeeps with hempty | ⟨-, hless⟩
        · exact List.length_eq_zero_iff.mp hempty
        · exact absurd hless hshort
      subst hempty
      rw [List.append_nil] at hfile
      rw [List.length_take, List.length_nil] at hshort
      refine ⟨records ++ [b], ?_⟩
      rw [List.take_of_length_le (by omega)]
      exact h.whole hfits hfile (.inl rfl)

theorem exists_framed {timestamp : Nat} {log : AppendedLog} {calls : List AppendCall}
    (hplain : cfg.sealing = none)
    (hrun : Run appendToShard (fun log call => call.block.Fits cfg ∧ keepsFrames cfg log call =
      true) ⟨(cfg.openShardedWAL none timestamp .ok).1, []⟩ calls log) :
    ∃ records, Framed cfg timestamp records log := by
  have hstep : ∀ (log : AppendedLog) (call : AppendCall) (next : AppendedLog),
      (∃ records, Framed cfg timestamp records log) →
      call.block.Fits cfg ∧ keepsFrames cfg log call = true →
      appendToShard log call = some next → ∃ records, Framed cfg timestamp records next := by
    rintro log call next ⟨records, h⟩ ⟨hfits, hkeeps⟩ hstep
    cases hstep
    exact h.append hplain hfits hkeeps
  refine hrun.preserves hstep ⟨[], by simp, ⟨[], recordSize_pos cfg, ?_⟩,
    List.Sublist.refl _⟩
  simp [openShardedWAL, openWALLocked, WriteResult.written, Config.segment]

/-- If every call on every shard keeps the frames, then recovery returns the acknowledged
records of each shard, and consolidation reads and packs those of all of them. -/
theorem shards_keep_acknowledged_records {logs : Nat → AppendedLog} (hplain : cfg.sealing = none)
    (hlogs : ∀ shard < numShards, ∃ timestamp calls, Run appendToShard (fun log call =>
      call.block.Fits cfg ∧ keepsFrames cfg log call = true) ⟨(cfg.openShardedWAL none timestamp
      .ok).1, []⟩ calls (logs shard)) :
    (∀ shard < numShards, ∃ blocks, cfg.readWALFileForRecovery (logs shard).file = .ok blocks ∧
        (logs shard).blocks.Sublist blocks) ∧
    ∃ allBlocks jobs, cfg.shardedWALChunkJobs (fun shard => some (logs shard).file) = .ok jobs ∧
        (∀ shard < numShards, (logs shard).blocks ⊆ allBlocks) ∧
        PacksNewest cfg allBlocks jobs := by
  have hframed : ∀ shard, ∃ records, shard < numShards →
      ∃ timestamp, Framed cfg timestamp records (logs shard) := by
    intro shard
    by_cases hshard : shard < numShards
    · obtain ⟨timestamp, calls, hrun⟩ := hlogs shard hshard
      obtain ⟨records, h⟩ := exists_framed hplain hrun
      exact ⟨records, fun _ => ⟨timestamp, h⟩⟩
    · exact ⟨[], fun h => absurd h hshard⟩
  choose records hrecords using hframed
  have hread : ∀ shard ∈ List.range numShards,
      cfg.readShard (some (logs shard).file) = .ok (records shard) := by
    intro shard hshard
    obtain ⟨timestamp, h⟩ := hrecords shard (List.mem_range.mp hshard)
    obtain ⟨torn, htorn, hfile⟩ := h.file
    rw [hfile]
    exact readShard_segment timestamp hplain h.fits htorn
  have hfits : ∀ b ∈ (List.range numShards).flatMap records, b.Fits cfg := by
    intro b hb
    obtain ⟨shard, hshard, hmem⟩ := List.mem_flatMap.mp hb
    obtain ⟨timestamp, h⟩ := hrecords shard (List.mem_range.mp hshard)
    exact h.fits b hmem
  refine ⟨?_, (List.range numShards).flatMap records,
    submittedJobs cfg.objBlockSize ((List.range numShards).flatMap records), ?_, ?_,
    packsNewest_submittedJobs hfits⟩
  · intro shard hshard
    obtain ⟨timestamp, h⟩ := hrecords shard hshard
    obtain ⟨torn, htorn, hfile⟩ := h.file
    refine ⟨records shard, ?_, h.acked⟩
    rw [hfile]
    exact readWALFileForRecovery_segment timestamp h.fits htorn
  · unfold shardedWALChunkJobs shardJobs
    rw [mergeShards_ok hread]
    dsimp only
    split
    · rename_i hempty
      rw [hempty]
      rfl
    · rfl
  · intro shard hshard b hb
    obtain ⟨timestamp, h⟩ := hrecords shard hshard
    exact List.mem_flatMap.mpr ⟨shard, List.mem_range.mpr hshard, h.acked.subset hb⟩

/-- A shard as it is opened for the first time. -/
def newShard : AppendedLog :=
  ⟨(Config.tiny.openShardedWAL none 0 .ok).1, []⟩

/-- One append of block 7 that succeeds, and two that leave eight bytes together. -/
def tornAtEnd : List AppendCall :=
  [⟨⟨[10], 1, 7, 1⟩, .ok, false, false⟩, ⟨⟨[11], 2, 7, 1⟩, .failed 5, false, false⟩,
    ⟨⟨[12], 3, 23, 1⟩, .failed 3, false, false⟩]

theorem fits_tornAtEnd :
    ∀ call ∈ tornAtEnd, call.block.Fits Config.tiny := by
  intro call hcall
  simp only [tornAtEnd, List.mem_cons, List.not_mem_nil, or_false] at hcall
  rcases hcall with rfl | rfl | rfl <;>
    exact ⟨rfl, by decide, by decide, by decide⟩

theorem run_of_keepsFrames {log : AppendedLog} {calls : List AppendCall}
    (hfits : ∀ call ∈ calls, call.block.Fits cfg)
    (hexec : (exec appendToShard (fun log call => keepsFrames cfg log call = true) log
      calls).isSome = true) :
    Run appendToShard
      (fun log call => call.block.Fits cfg ∧ keepsFrames cfg log call = true) log calls
      (calls.foldl (AppendedLog.append writeShardedWAL) log) := by
  induction calls generalizing log with
  | nil => exact Run.nil log
  | cons call calls ih =>
    simp only [exec] at hexec
    split at hexec
    · rename_i hkeeps
      exact Run.cons ⟨hfits call List.mem_cons_self, hkeeps⟩ rfl
        (ih (fun c hc => hfits c (List.mem_cons_of_mem _ hc)) hexec)
    · cases hexec

/-- The shards after these calls. -/
def tornShards (shard : Nat) : AppendedLog :=
  if shard = 7 then tornAtEnd.foldl (AppendedLog.append writeShardedWAL) newShard
  else newShard

theorem shards_keep_acknowledged_records_tornShards :
    (tornShards 7).blocks = [⟨[10], 1, 7, 1⟩] ∧
    (∀ shard < numShards, ∃ blocks,
      Config.tiny.readWALFileForRecovery (tornShards shard).file = .ok blocks ∧
        (tornShards shard).blocks.Sublist blocks) ∧
    ∃ allBlocks jobs,
      Config.tiny.shardedWALChunkJobs (fun shard => some (tornShards shard).file) = .ok jobs ∧
        (∀ shard < numShards, (tornShards shard).blocks ⊆ allBlocks) ∧
        PacksNewest Config.tiny allBlocks jobs := by
  refine ⟨by decide +kernel, shards_keep_acknowledged_records rfl ?_⟩
  intro shard _
  by_cases hshard : shard = 7
  · subst hshard
    exact ⟨0, tornAtEnd, run_of_keepsFrames fits_tornAtEnd (by decide +kernel)⟩
  · rw [tornShards, if_neg hshard]
    exact ⟨0, [], Run.nil _⟩

/-- Two appends of block 7, of which the first writes one byte and fails. -/
def oneByteFirst : List AppendCall :=
  [⟨⟨[10], 1, 7, 1⟩, .failed 1, false, false⟩, ⟨⟨[11], 2, 7, 1⟩, .ok, false, false⟩]

/-- The second call returns nil.  Recovery does not find its record, and consolidation
stops with an error. -/
theorem shard_loses_acknowledged_record :
    let log := oneByteFirst.foldl (AppendedLog.append writeShardedWAL) newShard
    log.blocks = [⟨[11], 2, 7, 1⟩] ∧ Config.tiny.readWALFileForRecovery log.file = .ok [] ∧
      Config.tiny.shardedWALChunkJobs
          (fun shard => some (if shard = 7 then log.file else newShard.file)) =
        .error .checksumMismatch := by
  decide +kernel

end Shards

end Viperblock
