import Viperblock.Checkpoint
import Viperblock.Wal

/-!
# The checkpoint format

A checkpoint of the block map is a header and one 34-byte record a block:
first block, run count, object, offset, sequence number and a checksum of the
five.  `walkBlockCheckpoint` is the one reader of the format; the engine and the
tools that have only the bytes both go through it.  The order of the records is
that of an iteration over a Go map, so it is any order.
-/

namespace Viperblock

open ByteCodec BlockMap

inductive CheckpointError
  /-- Shorter than the header. -/
  | header (length : Nat)
  | magicMismatch
  | versionMismatch (got want : Nat)
  /-- The data is not a whole number of records. -/
  | trailingBytes (count : Nat)
  /-- A block record of the wrong size. -/
  | recordSize (length : Nat)
  | checksumMismatch (got want : Nat)
  /-- What is wrong with the record at an offset of the file. -/
  | record (offset : Nat) (err : CheckpointError)
deriving DecidableEq, Repr

/-- Size of the record of one block. -/
def blockWalChunkSize : Nat := 34

def blockCheckpointHeaderSize : Nat := 14

/-- `VBWB` -/
def blockToObjectWALMagic : Bytes := [86, 66, 87, 66]

section Records

/-- The part of a record that its checksum covers. -/
def blockRecordFields (bl : BlockLookup) : Bytes :=
  encode 8 bl.startBlock ++ encode 2 bl.numBlocks ++ encode 8 bl.objectID ++
    encode 4 bl.objectOffset ++ encode 8 bl.seqNum

def writeBlockWalChunk (bl : BlockLookup) : Bytes :=
  blockRecordFields bl ++ encode 4 (crc32Update 0 (blockRecordFields bl)).toNat

def decodeBlockWalChunk (data : Bytes) : Except CheckpointError BlockLookup :=
  if data.length = blockWalChunkSize then
    let checksum := decode ((data.drop 30).take 4)
    let checksumValidated := (crc32Update 0 (data.take 30)).toNat
    if checksumValidated = checksum then
      .ok
        { startBlock := decode (data.take 8)
          numBlocks := decode ((data.drop 8).take 2)
          objectID := decode ((data.drop 10).take 8)
          objectOffset := decode ((data.drop 18).take 4)
          seqNum := decode ((data.drop 22).take 8)
          seqNums := [] }
    else .error (.checksumMismatch checksumValidated checksum)
  else .error (.recordSize data.length)

/-- Decode records one after the other, the first of them at `offset`. -/
def decodeRecords : Nat → List Bytes → Except CheckpointError (List BlockLookup)
  | _, [] => .ok []
  | offset, data :: rest =>
    match decodeBlockWalChunk data with
    | .error err => .error (.record offset err)
    | .ok block =>
      match decodeRecords (offset + blockWalChunkSize) rest with
      | .error err => .error err
      | .ok blocks => .ok (block :: blocks)

/-- The fields of a record have the widths of the format. -/
structure BlockLookup.Fits (bl : BlockLookup) : Prop where
  startBlock : bl.startBlock < 2 ^ 64
  numBlocks : bl.numBlocks < 2 ^ 16
  objectID : bl.objectID < 2 ^ 64
  objectOffset : bl.objectOffset < 2 ^ 32
  seqNum : bl.seqNum < 2 ^ 64

theorem length_blockRecordFields (bl : BlockLookup) : (blockRecordFields bl).length = 30 := by
  simp [blockRecordFields]

theorem length_writeBlockWalChunk (bl : BlockLookup) :
    (writeBlockWalChunk bl).length = blockWalChunkSize := by
  simp [writeBlockWalChunk, length_blockRecordFields, blockWalChunkSize]

theorem decode_field {before after : Bytes} {start width n : Nat} (hbefore : before.length = start)
    (hn : n < 256 ^ width) :
    decode (((before ++ (encode width n ++ after)).drop start).take width) = n := by
  rw [List.drop_left' hbefore, List.take_left' (length_encode width n), decode_encode hn]

/-- A record that fits is read back, without the numbers of further blocks. -/
theorem decodeBlockWalChunk_write {bl : BlockLookup} (hbl : bl.Fits) :
    decodeBlockWalChunk (writeBlockWalChunk bl) = .ok { bl with seqNums := [] } := by
  have hsum : decode (((writeBlockWalChunk bl).drop 30).take 4) =
      (crc32Update 0 (blockRecordFields bl)).toNat := by
    have hlt : (crc32Update 0 (blockRecordFields bl)).toNat < 256 ^ 4 :=
      UInt32.toNat_lt _
    rw [writeBlockWalChunk, List.drop_left' (length_blockRecordFields bl),
      List.take_of_length_le (by simp), decode_encode hlt]
  have hfields : (writeBlockWalChunk bl).take 30 = blockRecordFields bl := by
    rw [writeBlockWalChunk, List.take_left' (length_blockRecordFields bl)]
  have hstart : decode ((writeBlockWalChunk bl).take 8) = bl.startBlock := by
    simp only [writeBlockWalChunk, blockRecordFields, List.append_assoc]
    rw [List.take_left' (length_encode 8 _), decode_encode hbl.startBlock]
  have hnum : decode (((writeBlockWalChunk bl).drop 8).take 2) = bl.numBlocks := by
    simp only [writeBlockWalChunk, blockRecordFields, List.append_assoc]
    exact decode_field (length_encode 8 _) hbl.numBlocks
  have hobject : decode (((writeBlockWalChunk bl).drop 10).take 8) = bl.objectID := by
    simp only [writeBlockWalChunk, blockRecordFields, List.append_assoc]
    exact decode_field (by simp) hbl.objectID
  have hoffset : decode (((writeBlockWalChunk bl).drop 18).take 4) = bl.objectOffset := by
    simp only [writeBlockWalChunk, blockRecordFields, List.append_assoc]
    rw [← List.append_assoc (encode 2 _), ← List.append_assoc (encode 8 _)]
    exact decode_field (by simp) hbl.objectOffset
  have hseq : decode (((writeBlockWalChunk bl).drop 22).take 8) = bl.seqNum := by
    simp only [writeBlockWalChunk, blockRecordFields, List.append_assoc]
    rw [← List.append_assoc (encode 8 bl.objectID), ← List.append_assoc (encode 2 _),
      ← List.append_assoc (encode 8 _)]
    exact decode_field (by simp) hbl.seqNum
  simp only [decodeBlockWalChunk, length_writeBlockWalChunk, hsum, hfields, hstart, hnum,
    hobject, hoffset, hseq, if_true]

theorem objectOffset_lt_of_decode {data : Bytes} {bl : BlockLookup}
    (hdecode : decodeBlockWalChunk data = .ok bl) :
    bl.objectOffset < 2 ^ 32 := by
  revert hdecode
  fun_cases decodeBlockWalChunk data <;> intro hdecode <;> cases hdecode
  have hwidth : ((data.drop 18).take 4).length ≤ 4 := List.length_take_le _ _
  exact (decode_lt _).trans_le (Nat.pow_le_pow_right (by decide) hwidth)

theorem decodeRecords_ok_iff {offset : Nat} {frames : List Bytes} {records : List BlockLookup} :
    decodeRecords offset frames = .ok records ↔
      List.Forall₂ (fun data rec => decodeBlockWalChunk data = .ok rec) frames records := by
  induction frames generalizing offset records with
  | nil => simp [decodeRecords, eq_comm]
  | cons data rest ih =>
    rw [List.forall₂_cons_left_iff, decodeRecords]
    cases hfirst : decodeBlockWalChunk data with
    | error err => simp
    | ok block =>
      simp only [Except.ok.injEq, ← @ih (offset + blockWalChunkSize)]
      cases decodeRecords (offset + blockWalChunkSize) rest with
      | error err => simp
      | ok blocks => simp [eq_comm]

theorem objectOffset_lt_of_decodeRecords {offset : Nat} {frames : List Bytes}
    {records : List BlockLookup} (hdecode : decodeRecords offset frames = .ok records) :
    ∀ rec ∈ records, rec.objectOffset < 2 ^ 32 := by
  intro rec hrec
  obtain ⟨i, hi, rfl⟩ := List.mem_iff_getElem.mp hrec
  obtain ⟨hlength, hall⟩ := List.forall₂_iff_get.mp (decodeRecords_ok_iff.mp hdecode)
  exact objectOffset_lt_of_decode (hall i (by omega) hi)

theorem decodeRecords_write {records : List BlockLookup}
    (hfits : ∀ rec ∈ records, rec.Fits ∧ rec.seqNums = []) (offset : Nat) :
    decodeRecords offset (records.map writeBlockWalChunk) = .ok records := by
  rw [decodeRecords_ok_iff, List.forall₂_map_left_iff, List.forall₂_same]
  intro rec hrec
  obtain ⟨hrec, hseqNums⟩ := hfits rec hrec
  rw [decodeBlockWalChunk_write hrec, ← hseqNums]

end Records

section File

def blockToObjectWALHeader (version timestamp : Nat) : Bytes :=
  blockToObjectWALMagic ++ encode 2 version ++ encode 8 timestamp

/-- The bytes of a checkpoint with the given records. -/
def checkpointBytes (version timestamp : Nat) (records : List BlockLookup) : Bytes :=
  blockToObjectWALHeader version timestamp ++ (records.map writeBlockWalChunk).flatten

/-- The records of a checkpoint, in the order of the file. -/
def walkBlockCheckpoint (raw : Bytes) (version : Nat) (walMagic : Bytes) :
    Except CheckpointError (List BlockLookup) :=
  if raw.length < blockCheckpointHeaderSize then .error (.header raw.length)
  else if raw.take 4 ≠ walMagic then .error .magicMismatch
  else
    let got := decode ((raw.drop 4).take 2)
    if got ≠ version then .error (.versionMismatch got version)
    else
      let body := raw.drop blockCheckpointHeaderSize
      if body.length % blockWalChunkSize ≠ 0 then
        .error (.trailingBytes (body.length % blockWalChunkSize))
      else
        decodeRecords blockCheckpointHeaderSize
          (frames blockWalChunkSize (body.length + 1) body)

theorem objectOffset_lt_of_walk {raw walMagic : Bytes} {version : Nat} {records : List BlockLookup}
    (hwalk : walkBlockCheckpoint raw version walMagic = .ok records) :
    ∀ rec ∈ records, rec.objectOffset < 2 ^ 32 := by
  simp only [walkBlockCheckpoint] at hwalk
  repeat' split at hwalk
  all_goals first
    | exact objectOffset_lt_of_decodeRecords hwalk
    | cases hwalk

/-- The block map of a checkpoint from its bytes alone. -/
def parseBlockCheckpointBytes (raw : Bytes) (version : Nat) :
    Except CheckpointError BlockMap :=
  match walkBlockCheckpoint raw version blockToObjectWALMagic with
  | .error err => .error err
  | .ok records => .ok (flatRecords records)

theorem length_blockToObjectWALHeader (version timestamp : Nat) :
    (blockToObjectWALHeader version timestamp).length = blockCheckpointHeaderSize := by
  simp [blockToObjectWALHeader, blockToObjectWALMagic, blockCheckpointHeaderSize]

theorem length_flatten_writeBlockWalChunk (records : List BlockLookup) :
    (records.map writeBlockWalChunk).flatten.length = records.length * blockWalChunkSize := by
  induction records with
  | nil => simp
  | cons rec records ih =>
    rw [List.map_cons, List.flatten_cons, List.length_append, ih,
      length_writeBlockWalChunk, List.length_cons, Nat.add_mul, Nat.one_mul,
      Nat.add_comm]

theorem frames_writeBlockWalChunk {records : List BlockLookup} {fuel : Nat}
    (hfuel : records.length < fuel) :
    frames blockWalChunkSize fuel (records.map writeBlockWalChunk).flatten =
      records.map writeBlockWalChunk := by
  have hsize : ∀ piece ∈ records.map writeBlockWalChunk, piece.length = blockWalChunkSize := by
    intro piece hpiece
    obtain ⟨rec, -, rfl⟩ := List.mem_map.mp hpiece
    exact length_writeBlockWalChunk rec
  have hcount : (records.map writeBlockWalChunk).length < fuel := by
    rwa [List.length_map]
  have hframes := frames_flatten _ [] hsize (by decide) hcount
  rwa [List.append_nil] at hframes

/-- What was written is walked record by record. -/
theorem walkBlockCheckpoint_checkpointBytes {version : Nat} {records : List BlockLookup}
    (hversion : version < 2 ^ 16) (timestamp : Nat)
    (hfits : ∀ rec ∈ records, rec.Fits ∧ rec.seqNums = []) :
    walkBlockCheckpoint (checkpointBytes version timestamp records) version
      blockToObjectWALMagic = .ok records := by
  have hbody : (checkpointBytes version timestamp records).drop blockCheckpointHeaderSize =
      (records.map writeBlockWalChunk).flatten := by
    rw [checkpointBytes, List.drop_left' (length_blockToObjectWALHeader _ _)]
  have hlong : ¬ (checkpointBytes version timestamp records).length <
      blockCheckpointHeaderSize := by
    rw [checkpointBytes, List.length_append, length_blockToObjectWALHeader]
    omega
  have hmagic : (checkpointBytes version timestamp records).take 4 = blockToObjectWALMagic := by
    simp only [checkpointBytes, blockToObjectWALHeader, List.append_assoc]
    exact List.take_left' rfl
  have hfield : decode (((checkpointBytes version timestamp records).drop 4).take 2) = version := by
    simp only [checkpointBytes, blockToObjectWALHeader, List.append_assoc]
    exact decode_field rfl hversion
  have hlength := length_flatten_writeBlockWalChunk records
  have hrecords : records.length < (records.map writeBlockWalChunk).flatten.length + 1 := by
    rw [hlength, blockWalChunkSize]
    omega
  unfold walkBlockCheckpoint
  simp only [hlong, hmagic, hfield, hbody, hlength, Nat.mul_mod_left, ne_eq, not_true_eq_false,
    if_false]
  rw [← hlength, frames_writeBlockWalChunk hrecords]
  exact decodeRecords_write hfits blockCheckpointHeaderSize

end File

end Viperblock
