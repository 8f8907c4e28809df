import Viperblock.CheckpointFile

/-!
# What the checkpoint reader accepts

`walkBlockCheckpoint` reads bytes from anywhere: a local file, the backend, another
volume's snapshot.  It accepts exactly the header of the volume's version and whole records
with the right checksum, never takes a slice beyond the end, and what it reads is written
back as the same bytes.
-/

namespace Viperblock

open ByteCodec BlockMap

section Slices

/-- A slice of the bytes; none if the expression panics. -/
def sliceOf (data : Bytes) (low high : Nat) : Option Bytes :=
  if low ≤ high ∧ high ≤ data.length then some ((data.drop low).take (high - low)) else none

/-- `decodeBlockWalChunk` with its slices as Go takes them. -/
def sliceBlockWalChunk (data : Bytes) : Option (Except CheckpointError BlockLookup) :=
  if data.length = blockWalChunkSize then do
    let startBlock ← sliceOf data 0 8
    let numBlocks ← sliceOf data 8 10
    let objectID ← sliceOf data 10 18
    let objectOffset ← sliceOf data 18 22
    let seqNum ← sliceOf data 22 30
    let checksum ← sliceOf data 30 34
    let fields ← sliceOf data 0 30
    let checksumValidated := (crc32Update 0 fields).toNat
    if checksumValidated = decode checksum then
      some (.ok
        { startBlock := decode startBlock
          numBlocks := decode numBlocks
          objectID := decode objectID
          objectOffset := decode objectOffset
          seqNum := decode seqNum
          seqNums := [] })
    else some (.error (.checksumMismatch checksumValidated (decode checksum)))
  else some (.error (.recordSize data.length))

/-- The loop over the records; it ends before the fuel does. -/
def sliceRecords (raw : Bytes) : Nat → Nat → Option (Except CheckpointError (List BlockLookup))
  | 0, _ => some (.ok [])
  | fuel + 1, offset =>
    if offset + blockWalChunkSize ≤ raw.length then do
      let data ← sliceOf raw offset (offset + blockWalChunkSize)
      match ← sliceBlockWalChunk data with
      | .error err => some (.error (.record offset err))
      | .ok block =>
        match ← sliceRecords raw fuel (offset + blockWalChunkSize) with
        | .error err => some (.error err)
        | .ok blocks => some (.ok (block :: blocks))
    else some (.ok [])

def sliceBlockCheckpoint (raw : Bytes) (version : Nat) (walMagic : Bytes) :
    Option (Except CheckpointError (List BlockLookup)) :=
  if raw.length < blockCheckpointHeaderSize then some (.error (.header raw.length))
  else do
    let magic ← sliceOf raw 0 4
    if magic ≠ walMagic then some (.error .magicMismatch)
    else
      let field ← sliceOf raw 4 6
      if decode field ≠ version then some (.error (.versionMismatch (decode field) version))
      else
        let dataSize := raw.length - blockCheckpointHeaderSize
        if dataSize % blockWalChunkSize ≠ 0 then
          some (.error (.trailingBytes (dataSize % blockWalChunkSize)))
        else sliceRecords raw (dataSize + 1) blockCheckpointHeaderSize

theorem sliceOf_eq {data : Bytes} {low high : Nat} (hlow : low ≤ high)
    (hhigh : high ≤ data.length) :
    sliceOf data low high = some ((data.drop low).take (high - low)) :=
  if_pos ⟨hlow, hhigh⟩

theorem sliceBlockWalChunk_eq (data : Bytes) :
    sliceBlockWalChunk data = some (decodeBlockWalChunk data) := by
  unfold sliceBlockWalChunk decodeBlockWalChunk
  by_cases hlength : data.length = blockWalChunkSize
  · have hsize : data.length = 34 := hlength
    have hslice : ∀ low high, low ≤ high → high ≤ 34 →
        sliceOf data low high = some ((data.drop low).take (high - low)) :=
      fun low high hlow hhigh => sliceOf_eq hlow (by omega)
    simp only [hlength, if_true, hslice, Nat.le_refl, Nat.reduceLeDiff, Nat.reduceSub,
      List.drop_zero, Option.bind_eq_bind, Option.bind_some]
    split <;> rfl
  · rw [if_neg hlength, if_neg hlength]

theorem sliceRecords_eq (raw : Bytes) (fuel offset : Nat) :
    sliceRecords raw fuel offset =
      some (decodeRecords offset (frames blockWalChunkSize fuel (raw.drop offset))) := by
  induction fuel generalizing offset with
  | zero => rfl
  | succ fuel ih =>
    unfold sliceRecords frames
    have hlength : (raw.drop offset).length = raw.length - offset := List.length_drop
    have hsize : 0 < blockWalChunkSize := by decide
    by_cases hlong : offset + blockWalChunkSize ≤ raw.length
    · have hshort : ¬ (raw.drop offset).length < blockWalChunkSize := by omega
      rw [if_pos hlong, if_neg hshort, sliceOf_eq (by omega) hlong, Nat.add_sub_cancel_left]
      simp only [Option.bind_eq_bind, Option.bind_some, sliceBlockWalChunk_eq, ih,
        decodeRecords, List.drop_drop]
      cases decodeBlockWalChunk ((raw.drop offset).take blockWalChunkSize) with
      | error err => rfl
      | ok block =>
        cases decodeRecords (offset + blockWalChunkSize) (frames blockWalChunkSize fuel
          (raw.drop (offset + blockWalChunkSize))) <;> rfl
    · rw [if_neg hlong, if_pos (by omega)]
      rfl

theorem sliceBlockCheckpoint_eq (raw : Bytes) (version : Nat) (walMagic : Bytes) :
    sliceBlockCheckpoint raw version walMagic =
      some (walkBlockCheckpoint raw version walMagic) := by
  unfold sliceBlockCheckpoint walkBlockCheckpoint
  by_cases hshort : raw.length < blockCheckpointHeaderSize
  · rw [if_pos hshort, if_pos hshort]
  · have hlong : 14 ≤ raw.length := Nat.not_lt.mp hshort
    rw [if_neg hshort, if_neg hshort, sliceOf_eq (by omega) (by omega),
      sliceOf_eq (by omega) (by omega)]
    simp only [Option.bind_eq_bind, Option.bind_some, List.drop_zero, Nat.reduceSub,
      sliceRecords_eq, List.length_drop]
    split
    · rfl
    · split
      · rfl
      · split <;> rfl

end Slices

section Acceptance

variable {raw data : Bytes} {version : Nat} {bl : BlockLookup} {records : List BlockLookup}

/-- The record ends with the checksum of its fields. -/
def HasChecksum (data : Bytes) : Prop :=
  data.drop 30 = encode 4 (crc32Update 0 (data.take 30)).toNat

/-- Records with their checksums. -/
def AreRecords (pieces : List Bytes) : Prop :=
  ∀ piece ∈ pieces, piece.length = 34 ∧ HasChecksum piece

/-- The header with the magic and the version, and whole records with their checksums. -/
def IsCheckpoint (raw : Bytes) (version : Nat) : Prop :=
  ∃ (timestamp : Bytes) (pieces : List Bytes),
    raw = blockToObjectWALMagic ++ encode 2 version ++ timestamp ++ pieces.flatten ∧
      timestamp.length = 8 ∧ AreRecords pieces

theorem exists_decode_iff :
    (∃ bl, decodeBlockWalChunk data = .ok bl) ↔ data.length = 34 ∧ HasChecksum data := by
  have hsum : data.length = 34 → ((crc32Update 0 (data.take 30)).toNat =
      decode ((data.drop 30).take 4) ↔ HasChecksum data) := by
    intro hlength
    have hrest : (data.drop 30).length = 4 := by
      rw [List.length_drop, hlength]
    rw [List.take_of_length_le (Nat.le_of_eq hrest)]
    constructor
    · intro hcrc
      rw [HasChecksum, hcrc, encode_decode hrest]
    · intro hcrc
      rw [hcrc, decode_encode (UInt32.toNat_lt _)]
  fun_cases decodeBlockWalChunk data
  · rename_i hlength _ _ hcrc
    exact iff_of_true ⟨_, rfl⟩ ⟨hlength, (hsum hlength).mp hcrc⟩
  · rename_i hlength _ _ hcrc
    exact iff_of_false (by simp) fun h => hcrc ((hsum hlength).mpr h.2)
  · rename_i hlength
    exact iff_of_false (by simp) fun h => hlength h.1

theorem exists_decodeRecords_iff {offset : Nat} {pieces : List Bytes} :
    (∃ records, decodeRecords offset pieces = .ok records) ↔ AreRecords pieces := by
  simp only [decodeRecords_ok_iff]
  induction pieces with
  | nil => simp [AreRecords]
  | cons piece pieces ih =>
    rw [AreRecords, List.forall_mem_cons, ← exists_decode_iff, ← AreRecords, ← ih]
    constructor
    · rintro ⟨_, _ | ⟨hrec, hrecords⟩⟩
      exact ⟨⟨_, hrec⟩, _, hrecords⟩
    · rintro ⟨⟨rec, hrec⟩, records, hrecords⟩
      exact ⟨rec :: records, .cons hrec hrecords⟩

theorem writeBlockWalChunk_of_decode (hdecode : decodeBlockWalChunk data = .ok bl) :
    writeBlockWalChunk bl = data := by
  obtain ⟨hlength, hchecksum⟩ := exists_decode_iff.mp ⟨bl, hdecode⟩
  have hfields : blockRecordFields bl = data.take 30 := by
    revert hdecode
    fun_cases decodeBlockWalChunk data <;> intro hdecode <;> cases hdecode
    have hfield : ∀ start width, start + width ≤ 34 →
        encode width (decode ((data.drop start).take width)) = (data.drop start).take width := by
      intro start width hle
      refine encode_decode (List.length_take_of_le ?_)
      rw [List.length_drop, hlength]
      omega
    have hfirst : encode 8 (decode (data.take 8)) = data.take 8 := hfield 0 8 (by decide)
    unfold blockRecordFields
    rw [hfirst, hfield 8 2 (by decide), hfield 10 8 (by decide), hfield 18 4 (by decide),
      hfield 22 8 (by decide), ← List.take_add, ← List.take_add, ← List.take_add, ← List.take_add]
  unfold writeBlockWalChunk
  rw [hfields, ← hchecksum, List.take_append_drop]

theorem walkBlockCheckpoint_ok_iff {walMagic : Bytes} :
    walkBlockCheckpoint raw version walMagic = .ok records ↔
      14 ≤ raw.length ∧ raw.take 4 = walMagic ∧ decode ((raw.drop 4).take 2) = version ∧
        (raw.drop 14).length % 34 = 0 ∧
        List.Forall₂ (fun data rec => decodeBlockWalChunk data = .ok rec)
          (frames 34 ((raw.drop 14).length + 1) (raw.drop 14)) records := by
  rw [← @decodeRecords_ok_iff 14]
  fun_cases walkBlockCheckpoint raw version walMagic
  · rename_i hshort
    exact iff_of_false nofun fun h => absurd h.1 (Nat.not_le.mpr hshort)
  · rename_i hmagic
    exact iff_of_false nofun fun h => hmagic h.2.1
  · rename_i hversion
    exact iff_of_false nofun fun h => hversion h.2.2.1
  · rename_i htrailing
    exact iff_of_false nofun fun h => htrailing h.2.2.2.1
  · rename_i hlong hmagic _ hversion _ htrailing
    exact ⟨fun h => ⟨Nat.not_lt.mp hlong, not_not.mp hmagic, not_not.mp hversion,
      not_not.mp htrailing, h⟩, fun h => h.2.2.2.2⟩

/-- The reader goes through on a checkpoint, and on nothing else. -/
theorem exists_walk_iff (hversion : version < 2 ^ 16) :
    (∃ records, walkBlockCheckpoint raw version blockToObjectWALMagic = .ok records) ↔
      IsCheckpoint raw version := by
  simp only [walkBlockCheckpoint_ok_iff, ← @decodeRecords_ok_iff 14, exists_and_left,
    exists_decodeRecords_iff]
  constructor
  · rintro ⟨hlong, hmagic, hfield, hmod, hrecords⟩
    refine ⟨(raw.drop 6).take 8, frames 34 ((raw.drop 14).length + 1) (raw.drop 14), ?_, ?_,
      hrecords⟩
    · have hencode : encode 2 version = (raw.drop 4).take 2 := by
        rw [← hfield]
        refine encode_decode (List.length_take_of_le ?_)
        rw [List.length_drop]
        omega
      rw [← hmagic, hencode, flatten_frames_of_mod (by decide) hmod, ← List.take_add,
        ← List.take_add, List.take_append_drop]
    · refine List.length_take_of_le ?_
      rw [List.length_drop]
      omega
  · rintro ⟨timestamp, pieces, rfl, htimestamp, hpieces⟩
    have hheader : (blockToObjectWALMagic ++ encode 2 version ++ timestamp).length = 14 := by
      simp [blockToObjectWALMagic, htimestamp]
    have hsize : ∀ piece ∈ pieces, piece.length = 34 := fun piece hpiece =>
      (hpieces piece hpiece).1
    have hlength := length_flatten_frames hsize
    have hframes := frames_flatten pieces [] hsize (by decide)
      (show pieces.length < pieces.flatten.length + 1 by omega)
    rw [List.append_nil] at hframes
    rw [List.drop_left' hheader, hframes, hlength]
    refine ⟨?_, ?_, ?_, Nat.mul_mod_left _ _, hpieces⟩
    · rw [List.length_append, hheader]
      exact Nat.le_add_right _ _
    · rw [List.append_assoc, List.append_assoc]
      exact List.take_left' rfl
    · rw [List.append_assoc, List.append_assoc]
      exact decode_field rfl hversion

theorem body_of_walk {walMagic : Bytes}
    (hwalk : walkBlockCheckpoint raw version walMagic = .ok records) :
    raw.drop 14 = (records.map writeBlockWalChunk).flatten ∧
      ∀ rec ∈ records, decodeBlockWalChunk (writeBlockWalChunk rec) = .ok rec := by
  obtain ⟨-, -, -, hmod, hrecords⟩ := walkBlockCheckpoint_ok_iff.mp hwalk
  rw [← flatten_frames_of_mod (by decide : 0 < 34) hmod]
  generalize frames 34 _ (raw.drop 14) = pieces at hrecords
  clear hwalk
  induction hrecords with
  | nil => exact ⟨rfl, by simp⟩
  | @cons piece rec pieces records hrec _ ih =>
    have hpiece := writeBlockWalChunk_of_decode hrec
    rw [List.map_cons, List.flatten_cons, List.flatten_cons, hpiece, ih.1]
    refine ⟨rfl, fun r hr => ?_⟩
    rcases List.mem_cons.mp hr with rfl | hr
    · rwa [hpiece]
    · exact ih.2 r hr

/-- `ParseBlockCheckpointBytes` takes no slice beyond the end, goes through exactly on a
checkpoint of the version, and maps each block to its last record; and the bytes behind the
header are the encodings of the records. -/
theorem parseBlockCheckpointBytes_spec (raw : Bytes) (version : UInt16) :
    sliceBlockCheckpoint raw version.toNat blockToObjectWALMagic =
        some (walkBlockCheckpoint raw version.toNat blockToObjectWALMagic) ∧
      ((∃ m, parseBlockCheckpointBytes raw version.toNat = .ok m) ↔
        IsCheckpoint raw version.toNat) ∧
      ∀ m, parseBlockCheckpointBytes raw version.toNat = .ok m → ∃ records : List BlockLookup,
          raw.drop 14 = (records.map writeBlockWalChunk).flatten ∧
          (∀ rec ∈ records, decodeBlockWalChunk (writeBlockWalChunk rec) = .ok rec) ∧
          ∀ b, m.lookup b = (records.filter fun rec => rec.startBlock == b).getLast? := by
  have hparse : ∀ m, parseBlockCheckpointBytes raw version.toNat = .ok m ↔
      ∃ records, walkBlockCheckpoint raw version.toNat blockToObjectWALMagic = .ok records ∧
        flatRecords records = m := by
    intro m
    fun_cases parseBlockCheckpointBytes raw version.toNat <;> simp [*]
  refine ⟨sliceBlockCheckpoint_eq _ _ _, ?_, fun m hm => ?_⟩
  · rw [← exists_walk_iff version.toNat_lt]
    simp [hparse]
  · obtain ⟨records, hwalk, rfl⟩ := (hparse m).mp hm
    obtain ⟨hbody, hrecords⟩ := body_of_walk hwalk
    exact ⟨records, hbody, hrecords, lookup_flatRecords records⟩

end Acceptance

end Viperblock
