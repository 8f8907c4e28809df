import Viperblock.Config

/-!
# The write-ahead log

A segment is an 18-byte header followed by records of one size, each holding
one version of one block.  `WriteWAL` appends a record; two readers decode a
segment.  `readWALFileForRecovery` tolerates a torn or corrupt tail on a
plaintext volume and treats a record that does not open as tampering on an
encrypted one.  `WriteWALToChunk` reads a segment it has just closed and gives
up on the first record that does not check.

Both readers return exactly the records that were appended, whatever torn
bytes follow them in the first case.
-/

namespace Viperblock

open ByteCodec

section Checksum

def crcBit (crc : UInt32) : UInt32 :=
  if crc &&& 1 = 1 then (crc >>> 1) ^^^ 0xEDB88320 else crc >>> 1

def crcByte (crc : UInt32) (byte : UInt8) : UInt32 :=
  (List.range 8).foldl (fun c _ => crcBit c) (crc ^^^ byte.toUInt32)

/-- `crc32.Update` with the IEEE table. -/
def crc32Update (crc : UInt32) (bytes : Bytes) : UInt32 :=
  ~~~(bytes.foldl crcByte (~~~crc))

/-- Checksum of a plaintext record: its 24-byte head and its data. -/
def recordChecksum (head data : Bytes) : UInt32 :=
  crc32Update (crc32Update 0 head) data

end Checksum

inductive WalError
  /-- The file is shorter than a header. -/
  | header
  /-- A plaintext segment on an encrypted volume. -/
  | preEncryptionFormat
  | magicMismatch
  | versionMismatch
  | blockSizeMismatch
  | checksumMismatch
  | unexpectedEOF
  /-- A slice expression out of range, which panics. -/
  | outOfRange
  /-- A whole record does not open. -/
  | integrity (block seqNum : Nat)
deriving DecidableEq, Repr

namespace Config

variable (cfg : Config)

def walHeaderSize : Nat := 18

def walHeader (timestamp : Nat) : Bytes :=
  cfg.walMagic ++ encode 2 cfg.version ++ encode 4 cfg.blockSize ++ encode 8 timestamp

/-- Sequence number, block and length, as every record begins. -/
def recordHead (b : Block) : Bytes :=
  encode 8 b.seqNum ++ encode 8 b.block ++ encode 8 b.len

/-- The record `WriteWAL` appends for a block. -/
def walRecord (b : Block) : Bytes :=
  match cfg.sealing with
  | none =>
    recordHead b ++ encode 4 (recordChecksum (recordHead b) b.data).toNat ++ b.data
  | some _ => recordHead b ++ cfg.sealBlock domainWAL b

/-- Size of a record: the head, a checksum or a tag, and one block. -/
def recordSize : Nat :=
  match cfg.sealing with
  | none => 28 + cfg.blockSize
  | some _ => 40 + cfg.blockSize

section

variable (record : Bytes)

def recordSeqNum : Nat :=
  decode (record.take 8)

def recordBlock : Nat :=
  decode ((record.drop 8).take 8)

def recordLen : Nat :=
  decode ((record.drop 16).take 8)

/-- The stored checksum of a plaintext record is the computed one. -/
def checksumOk : Bool :=
  decode ((record.drop 24).take 4) ==
    (recordChecksum (record.take 24) (record.drop 28)).toNat

def plainBlock : Block :=
  { seqNum := recordSeqNum record
    block := recordBlock record
    len := recordLen record
    data := record.drop 28 }

/-- Decode a record of an encrypted segment. -/
def sealedBlock : Except WalError Block :=
  match cfg.openBlock domainWAL (recordBlock record) (recordSeqNum record)
      (record.drop 24) with
  | none => .error (.integrity (recordBlock record) (recordSeqNum record))
  | some data =>
    .ok
      { seqNum := recordSeqNum record
        block := recordBlock record
        len := recordLen record
        data := data }

end

/-- Decode records one after the other, up to the first that fails. -/
def sealedBlocks : List Bytes → Except WalError (List Block)
  | [] => .ok []
  | record :: records =>
    match cfg.sealedBlock record with
    | .error e => .error e
    | .ok b =>
      match sealedBlocks records with
      | .error e => .error e
      | .ok blocks => .ok (b :: blocks)

def checkMagic (header : Bytes) : Except WalError Unit :=
  if header.take 4 = cfg.walMagic then .ok ()
  -- "VBWL"
  else if cfg.sealing.isSome ∧ header.take 4 = [86, 66, 87, 76] then
    .error .preEncryptionFormat
  else .error .magicMismatch

/-- The records of a segment found on disk after a crash. -/
def readWALFileForRecovery (file : Bytes) : Except WalError (List Block) :=
  if file.length < walHeaderSize then .error .header
  else
    match cfg.checkMagic file with
    | .error e => .error e
    | .ok () =>
      if decode ((file.drop 4).take 2) ≠ cfg.version then .error .versionMismatch
      else if decode ((file.drop 6).take 4) ≠ cfg.blockSize then
        .error .blockSizeMismatch
      else
        let records := frames cfg.recordSize file.length (file.drop walHeaderSize)
        match cfg.sealing with
        | none => .ok ((records.takeWhile checksumOk).map plainBlock)
        | some _ => cfg.sealedBlocks records

/-- Highest sequence number of the records. -/
def fileMaxSeq (blocks : List Block) : Nat :=
  blocks.foldl (fun m b => max m b.seqNum) 0

/-- The plaintext records of a closed segment, read into buffers of `size` bytes;
a short last read leaves the rest of its buffer zero. -/
def plainRecords (size : Nat) : Nat → Bytes → Except WalError (List Block)
  | 0, _ => .ok []
  | fuel + 1, bytes =>
    if 0 < size ∧ bytes = [] then .ok []
    else if size < 28 then .error .outOfRange
    else
      let record := bytes.take size ++ List.replicate (size - bytes.length) 0
      if checksumOk record then
        match plainRecords size fuel (bytes.drop size) with
        | .error e => .error e
        | .ok blocks => .ok (plainBlock record :: blocks)
      else .error .checksumMismatch

/-- The records of a closed segment.  `plain` reads those of a plaintext volume into buffers
of a size. -/
def closedSegment (plain : Nat → Nat → Bytes → Except WalError (List Block)) (file : Bytes) :
    Except WalError (List Block) :=
  if file = [] then .error .header
  else
    let header := file.take walHeaderSize ++ List.replicate (walHeaderSize - file.length) 0
    match cfg.checkMagic header with
    | .error e => .error e
    | .ok () =>
      if decode ((header.drop 4).take 2) ≠ cfg.version then .error .versionMismatch
      else
        let body := file.drop walHeaderSize
        match cfg.sealing with
        -- the buffer size is 32-bit arithmetic
        | none => plain ((28 + cfg.blockSize) % 2 ^ 32) (body.length + 1) body
        | some _ =>
          let records := frames cfg.recordSize (body.length + 1) body
          match cfg.sealedBlocks records with
          | .error e => .error e
          | .ok blocks =>
            if records.length * cfg.recordSize = body.length then .ok blocks
            else .error .unexpectedEOF

/-- The records `WriteWALToChunk` reads from the segment it has closed. -/
def readClosedSegment (file : Bytes) : Except WalError (List Block) :=
  cfg.closedSegment plainRecords file

end Config

/-- The block's fields fit a record of the volume. -/
structure Block.Fits (cfg : Config) (b : Block) : Prop where
  data : b.data.length = cfg.blockSize
  seqNum : b.seqNum < 2 ^ 64
  block : b.block < 2 ^ 64
  len : b.len < 2 ^ 64

namespace Config

section Records

variable {cfg : Config} {b : Block}

theorem length_recordHead (b : Block) : (recordHead b).length = 24 := by
  simp [recordHead]

theorem length_walRecord (hb : b.Fits cfg) : (cfg.walRecord b).length = cfg.recordSize := by
  have hseal := length_sealBlock domainWAL hb.data
  unfold walRecord recordSize
  unfold slotSize at hseal
  cases hsealing : cfg.sealing with
  | none =>
    simp only [List.length_append, length_recordHead, length_encode, hb.data]
  | some s =>
    simp only [hsealing] at hseal
    simp only [List.length_append, length_recordHead, hseal]
    omega

theorem fields_of_recordHead (hb : b.Fits cfg) (rest : Bytes) :
    recordSeqNum (recordHead b ++ rest) = b.seqNum ∧ recordBlock (recordHead b ++ rest) = b.block ∧
      recordLen (recordHead b ++ rest) = b.len := by
  have hseq : decode (encode 8 b.seqNum) = b.seqNum := decode_encode hb.seqNum
  have hblock : decode (encode 8 b.block) = b.block := decode_encode hb.block
  have hlen : decode (encode 8 b.len) = b.len := decode_encode hb.len
  refine ⟨?_, ?_, ?_⟩
  · simp only [recordSeqNum, recordHead, List.append_assoc]
    rw [List.take_left' (length_encode 8 _), hseq]
  · simp only [recordBlock, recordHead, List.append_assoc]
    rw [List.drop_left' (length_encode 8 _), List.take_left' (length_encode 8 _), hblock]
  · have hdrop : (recordHead b ++ rest).drop 16 = encode 8 b.len ++ rest := by
      have hsplit : recordHead b ++ rest =
          (encode 8 b.seqNum ++ encode 8 b.block) ++ (encode 8 b.len ++ rest) := by
        simp [recordHead]
      rw [hsplit, List.drop_left' (by simp)]
    simp only [recordLen]
    rw [hdrop, List.take_left' (length_encode 8 _), hlen]

theorem plainBlock_walRecord (hb : b.Fits cfg) (hplain : cfg.sealing = none) :
    checksumOk (cfg.walRecord b) = true ∧ plainBlock (cfg.walRecord b) = b := by
  have hrecord : cfg.walRecord b =
      recordHead b ++ (encode 4 (recordChecksum (recordHead b) b.data).toNat ++ b.data) := by
    simp [walRecord, hplain]
  have hdata : (cfg.walRecord b).drop 28 = b.data := by
    have hsplit : cfg.walRecord b =
        (recordHead b ++ encode 4 (recordChecksum (recordHead b) b.data).toNat) ++ b.data := by
      simp [walRecord, hplain]
    rw [hsplit, List.drop_left' (by simp [length_recordHead])]
  constructor
  · have hsum : (recordChecksum (recordHead b) b.data).toNat < 256 ^ 4 :=
      UInt32.toNat_lt _
    unfold checksumOk
    rw [hdata, hrecord, List.drop_left' (length_recordHead b),
      List.take_left' (length_encode 4 _), List.take_left' (length_recordHead b),
      decode_encode hsum]
    exact beq_self_eq_true _
  · obtain ⟨hseq, hblock, hlen⟩ := fields_of_recordHead hb
      (encode 4 (recordChecksum (recordHead b) b.data).toNat ++ b.data)
    unfold plainBlock
    rw [hdata, hrecord, hseq, hblock, hlen]

theorem sealedBlock_walRecord (hb : b.Fits cfg) {s : Sealing} (hsealed : cfg.sealing = some s) :
    cfg.sealedBlock (cfg.walRecord b) = .ok b := by
  have hrecord : cfg.walRecord b = recordHead b ++ cfg.sealBlock domainWAL b := by
    simp [walRecord, hsealed]
  obtain ⟨hseq, hblock, hlen⟩ := fields_of_recordHead hb (cfg.sealBlock domainWAL b)
  unfold sealedBlock
  rw [hrecord, List.drop_left' (length_recordHead b), hseq, hblock, hlen,
    cfg.openBlock_sealBlock domainWAL b]

theorem sealedBlocks_walRecords {s : Sealing} (hsealed : cfg.sealing = some s) {blocks : List Block}
    (hblocks : ∀ b ∈ blocks, b.Fits cfg) :
    cfg.sealedBlocks (blocks.map cfg.walRecord) = .ok blocks := by
  induction blocks with
  | nil => rfl
  | cons b blocks ih =>
    have hfirst := sealedBlock_walRecord (hblocks b (by simp)) hsealed
    have hrest := ih (fun b' hb' => hblocks b' (by simp [hb']))
    simp only [List.map_cons, sealedBlocks, hfirst, hrest]

theorem takeWhile_walRecords (hplain : cfg.sealing = none) {blocks : List Block}
    (hblocks : ∀ b ∈ blocks, b.Fits cfg) :
    ((blocks.map cfg.walRecord).takeWhile checksumOk).map plainBlock = blocks := by
  induction blocks with
  | nil => rfl
  | cons b blocks ih =>
    obtain ⟨hok, hfirst⟩ := plainBlock_walRecord (hblocks b (by simp)) hplain
    have hrest := ih (fun b' hb' => hblocks b' (by simp [hb']))
    simp only [List.map_cons, List.takeWhile_cons, hok, if_true, hfirst, hrest]

end Records

section Segments

variable {cfg : Config}

theorem recordSize_pos (cfg : Config) :
    0 < cfg.recordSize := by
  unfold recordSize
  split <;> omega

theorem length_walHeader (cfg : Config) (timestamp : Nat) :
    (cfg.walHeader timestamp).length = walHeaderSize := by
  simp [walHeader, walHeaderSize, cfg.walMagic_length]

theorem header_fields (cfg : Config) (timestamp : Nat) (rest : Bytes) :
    cfg.checkMagic (cfg.walHeader timestamp ++ rest) = .ok () ∧
      decode (((cfg.walHeader timestamp ++ rest).drop 4).take 2) = cfg.version ∧
      decode (((cfg.walHeader timestamp ++ rest).drop 6).take 4) = cfg.blockSize := by
  have hversion : decode (encode 2 cfg.version) = cfg.version :=
    decode_encode cfg.version_lt
  have hsize : decode (encode 4 cfg.blockSize) = cfg.blockSize :=
    decode_encode cfg.blockSize_lt
  have hsplit : cfg.walHeader timestamp ++ rest = cfg.walMagic ++ (encode 2 cfg.version ++
        (encode 4 cfg.blockSize ++ (encode 8 timestamp ++ rest))) := by
    simp [walHeader]
  refine ⟨?_, ?_, ?_⟩
  · rw [checkMagic, hsplit, List.take_left' cfg.walMagic_length, if_pos rfl]
  · rw [hsplit, List.drop_left' cfg.walMagic_length, List.take_left' (length_encode 2 _), hversion]
  · have hdrop : (cfg.walHeader timestamp ++ rest).drop 6 =
        encode 4 cfg.blockSize ++ (encode 8 timestamp ++ rest) := by
      rw [hsplit, ← List.append_assoc, List.drop_left' (by simp [cfg.walMagic_length])]
    rw [hdrop, List.take_left' (length_encode 4 _), hsize]

/-- The bytes of a segment into which the blocks were appended. -/
def segment (cfg : Config) (timestamp : Nat) (blocks : List Block) : Bytes :=
  cfg.walHeader timestamp ++ (blocks.map cfg.walRecord).flatten

section

variable {blocks : List Block}

theorem length_walRecords (hblocks : ∀ b ∈ blocks, b.Fits cfg) :
    (blocks.map cfg.walRecord).flatten.length = blocks.length * cfg.recordSize := by
  induction blocks with
  | nil => simp
  | cons b blocks ih =>
    have hfirst := length_walRecord (hblocks b (by simp))
    have hrest := ih (fun b' hb' => hblocks b' (by simp [hb']))
    simp only [List.map_cons, List.flatten_cons, List.length_append, hfirst, hrest,
      List.length_cons, Nat.add_mul]
    omega

theorem frames_walRecords (torn : Bytes) (fuel : Nat) (hblocks : ∀ b ∈ blocks, b.Fits cfg)
    (htorn : torn.length < cfg.recordSize) (hfuel : blocks.length < fuel) :
    frames cfg.recordSize fuel ((blocks.map cfg.walRecord).flatten ++ torn) =
      blocks.map cfg.walRecord := by
  refine frames_flatten _ torn ?_ htorn (by simpa using hfuel)
  intro piece hpiece
  obtain ⟨b, hb, rfl⟩ := List.mem_map.mp hpiece
  exact length_walRecord (hblocks b hb)

theorem exists_record_of_sealedBlocks {records : List Bytes} {b : Block}
    (hread : cfg.sealedBlocks records = .ok blocks) (hb : b ∈ blocks) :
    ∃ record ∈ records, cfg.sealedBlock record = .ok b := by
  induction records generalizing blocks with
  | nil =>
    cases hread
    cases hb
  | cons record records ih =>
    simp only [sealedBlocks] at hread
    split at hread
    · cases hread
    rename_i first hfirst
    split at hread
    · cases hread
    rename_i rest hrest
    cases hread
    rcases List.mem_cons.mp hb with rfl | hmem
    · exact ⟨record, List.mem_cons_self, hfirst⟩
    · obtain ⟨other, hother, hsealed⟩ := ih hrest hmem
      exact ⟨other, List.mem_cons_of_mem _ hother, hsealed⟩

/-- The blocks of whole records. -/
def readRecords (cfg : Config) (records : List Bytes) : Except WalError (List Block) :=
  match cfg.sealing with
  | none => .ok ((records.takeWhile checksumOk).map plainBlock)
  | some _ => cfg.sealedBlocks records

theorem readRecords_of_readWALFileForRecovery {file : Bytes}
    (hread : cfg.readWALFileForRecovery file = .ok blocks) :
    cfg.readRecords (frames cfg.recordSize file.length (file.drop walHeaderSize)) = .ok blocks := by
  unfold readWALFileForRecovery at hread
  iterate 4
    split at hread
    · cases hread
  exact hread

theorem exists_record_of_readRecords {records : List Bytes} {b : Block}
    (hread : cfg.readRecords records = .ok blocks) (hb : b ∈ blocks) :
    ∃ record ∈ records,
      cfg.sealing = none ∧ plainBlock record = b ∨
        cfg.sealing ≠ none ∧ cfg.sealedBlock record = .ok b := by
  unfold readRecords at hread
  split at hread
  · cases hread
    obtain ⟨record, hrecord, rfl⟩ := List.mem_map.mp hb
    exact ⟨record, (List.takeWhile_prefix _).subset hrecord, .inl ⟨‹_›, rfl⟩⟩
  · obtain ⟨record, hrecord, hsealed⟩ := exists_record_of_sealedBlocks hread hb
    exact ⟨record, hrecord, .inr ⟨by simp [*], hsealed⟩⟩

/-- Recovery returns the appended records, whatever torn record follows. -/
theorem readWALFileForRecovery_segment {torn : Bytes} (timestamp : Nat)
    (hblocks : ∀ b ∈ blocks, b.Fits cfg) (htorn : torn.length < cfg.recordSize) :
    cfg.readWALFileForRecovery (cfg.segment timestamp blocks ++ torn) = .ok blocks := by
  have hheader := length_walHeader cfg timestamp
  have hlength := length_walRecords hblocks
  have hpos := recordSize_pos cfg
  obtain ⟨hmagic, hversion, hsize⟩ := header_fields cfg timestamp
    ((blocks.map cfg.walRecord).flatten ++ torn)
  have hmul : blocks.length ≤ blocks.length * cfg.recordSize :=
    Nat.le_mul_of_pos_right _ hpos
  have hframes := frames_walRecords torn
    (cfg.segment timestamp blocks ++ torn).length hblocks htorn (by
      simp only [segment, List.length_append, hheader, hlength, walHeaderSize]
      omega)
  have hlong : ¬ (cfg.segment timestamp blocks ++ torn).length < walHeaderSize := by
    simp only [segment, List.length_append, hheader]
    omega
  unfold readWALFileForRecovery
  rw [if_neg hlong]
  simp only [segment, List.append_assoc] at hframes ⊢
  simp only [hmagic, hversion, hsize, ne_eq, not_true_eq_false, if_false,
    List.drop_left' hheader, hframes]
  cases hsealing : cfg.sealing with
  | none => simp only [takeWhile_walRecords hsealing hblocks]
  | some s => exact sealedBlocks_walRecords hsealing hblocks

theorem length_of_mem_walRecords (hblocks : ∀ b ∈ blocks, b.Fits cfg) :
    ∀ record ∈ blocks.map cfg.walRecord, record.length = cfg.recordSize := by
  intro record hrecord
  obtain ⟨b, hb, rfl⟩ := List.mem_map.mp hrecord
  exact length_walRecord (hblocks b hb)

theorem readWALFileForRecovery_cut (timestamp : Nat) {cut : Nat}
    (hblocks : ∀ b ∈ blocks, b.Fits cfg) (hcut : walHeaderSize ≤ cut) :
    cfg.readWALFileForRecovery ((cfg.segment timestamp blocks).take cut) =
      .ok (blocks.take ((cut - walHeaderSize) / cfg.recordSize)) := by
  have hheader := length_walHeader cfg timestamp
  obtain ⟨torn, htake, htorn⟩ := exists_take_flatten_div (recordSize_pos cfg)
    (length_of_mem_walRecords hblocks) (cut - walHeaderSize)
  have hsplit : (cfg.segment timestamp blocks).take cut =
      cfg.segment timestamp (blocks.take ((cut - walHeaderSize) / cfg.recordSize)) ++ torn := by
    rw [segment, List.take_append, hheader, htake,
      List.take_of_length_le (by omega), segment, List.append_assoc, List.map_take]
  rw [hsplit]
  exact readWALFileForRecovery_segment timestamp
    (fun b hb => hblocks b (List.mem_of_mem_take hb)) htorn

/-- A segment of which only a front part was written: without a whole header it is not
read, otherwise its whole records are. -/
theorem readWALFileForRecovery_take (cfg : Config) (timestamp length : Nat)
    (hblocks : ∀ b ∈ blocks, b.Fits cfg) :
    cfg.readWALFileForRecovery ((cfg.segment timestamp blocks).take length) = .error .header ∨
      ∃ kept, cfg.readWALFileForRecovery ((cfg.segment timestamp blocks).take length) =
        .ok (blocks.take kept) := by
  by_cases hshort : length < walHeaderSize
  · refine .inl ?_
    unfold readWALFileForRecovery
    rw [if_pos]
    rw [List.length_take]
    omega
  · exact .inr ⟨_, readWALFileForRecovery_cut timestamp hblocks (by omega)⟩

theorem length_data_of_readWALFileForRecovery {file : Bytes}
    (hread : cfg.readWALFileForRecovery file = .ok blocks) {b : Block} (hb : b ∈ blocks) :
    b.data.length = cfg.blockSize := by
  obtain ⟨record, hrecord, hb⟩ :=
    exists_record_of_readRecords (readRecords_of_readWALFileForRecovery hread) hb
  have hlength := length_of_mem_frames hrecord
  rcases hb with ⟨hplain, rfl⟩ | ⟨hsome, hsealed⟩
  · simp only [recordSize, hplain] at hlength
    simp only [plainBlock, List.length_drop]
    omega
  · revert hsealed
    fun_cases sealedBlock <;> intro hsealed <;> cases hsealed
    refine length_of_openBlock ‹_› ?_
    obtain ⟨s, hs⟩ := Option.ne_none_iff_exists'.mp hsome
    rw [List.length_drop, hlength]
    simp only [recordSize, slotSize, hs]
    omega

theorem plainRecords_walRecords (hplain : cfg.sealing = none) {fuel : Nat}
    (hblocks : ∀ b ∈ blocks, b.Fits cfg) (hfuel : blocks.length < fuel) :
    plainRecords cfg.recordSize fuel (blocks.map cfg.walRecord).flatten = .ok blocks := by
  have hpos := recordSize_pos cfg
  have hlarge : ¬ cfg.recordSize < 28 := by
    simp only [recordSize, hplain]
    omega
  induction blocks generalizing fuel with
  | nil =>
    cases fuel with
    | zero => rfl
    | succ fuel => simp [plainRecords, hpos]
  | cons b blocks ih =>
    cases fuel with
    | zero => simp at hfuel
    | succ fuel =>
      have hlength := length_walRecord (hblocks b (by simp))
      obtain ⟨hok, hfirst⟩ := plainBlock_walRecord (hblocks b (by simp)) hplain
      have hrest := @ih fuel (fun b' hb' => hblocks b' (by simp [hb']))
        (by simpa using hfuel)
      have hne : ¬ (0 < cfg.recordSize ∧
          cfg.walRecord b ++ (blocks.map cfg.walRecord).flatten = []) := by
        rintro ⟨-, hempty⟩
        rw [List.append_eq_nil_iff] at hempty
        rw [hempty.1] at hlength
        simp at hlength
        omega
      have hpad : cfg.recordSize -
          (cfg.walRecord b ++ (blocks.map cfg.walRecord).flatten).length = 0 := by
        simp only [List.length_append]
        omega
      rw [List.map_cons, List.flatten_cons, plainRecords, if_neg hne, if_neg hlarge]
      simp only [hpad, List.take_left' hlength, List.drop_left' hlength,
        List.replicate_zero, List.append_nil, hok, if_true, hrest, hfirst]

theorem closedSegment_segment (plain : Nat → Nat → Bytes → Except WalError (List Block))
    (timestamp : Nat) (blocks : List Block) :
    cfg.closedSegment plain (cfg.segment timestamp blocks) =
      let body := (blocks.map cfg.walRecord).flatten
      match cfg.sealing with
      | none => plain ((28 + cfg.blockSize) % 2 ^ 32) (body.length + 1) body
      | some _ =>
        let records := frames cfg.recordSize (body.length + 1) body
        match cfg.sealedBlocks records with
        | .error e => .error e
        | .ok blocks =>
          if records.length * cfg.recordSize = body.length then .ok blocks
          else .error .unexpectedEOF := by
  have hheader := length_walHeader cfg timestamp
  have hne : cfg.segment timestamp blocks ≠ [] := by
    intro hempty
    have hzero := congrArg List.length hempty
    simp [segment, hheader, walHeaderSize] at hzero
  have hpad : walHeaderSize - (cfg.segment timestamp blocks).length = 0 := by
    simp only [segment, List.length_append, hheader]
    omega
  have hfront : (cfg.segment timestamp blocks).take walHeaderSize =
      cfg.walHeader timestamp ++ [] := by
    rw [segment, List.take_left' hheader, List.append_nil]
  have hbody : (cfg.segment timestamp blocks).drop walHeaderSize =
      (blocks.map cfg.walRecord).flatten := by
    rw [segment, List.drop_left' hheader]
  obtain ⟨hmagic, hversion, -⟩ := header_fields cfg timestamp []
  unfold closedSegment
  rw [if_neg hne]
  simp only [hpad, List.replicate_zero, hfront, List.append_nil, hbody]
  simp only [List.append_nil] at hmagic hversion
  simp only [hmagic, hversion, ne_eq, not_true_eq_false, if_false]

theorem readClosedSegment_segment (timestamp : Nat)
    (hsize : cfg.sealing = none → 28 + cfg.blockSize < 2 ^ 32)
    (hblocks : ∀ b ∈ blocks, b.Fits cfg) :
    cfg.readClosedSegment (cfg.segment timestamp blocks) = .ok blocks := by
  have hlength := length_walRecords hblocks
  have hpos := recordSize_pos cfg
  have hmul : blocks.length ≤ blocks.length * cfg.recordSize :=
    Nat.le_mul_of_pos_right _ hpos
  rw [readClosedSegment, closedSegment_segment]
  dsimp only
  cases hsealing : cfg.sealing with
  | none =>
    have hrecord : (28 + cfg.blockSize) % 2 ^ 32 = cfg.recordSize := by
      rw [Nat.mod_eq_of_lt (hsize hsealing), recordSize, hsealing]
    simp only [hrecord]
    exact plainRecords_walRecords hsealing hblocks (by omega)
  | some s =>
    have hframes := frames_walRecords [] ((blocks.map cfg.walRecord).flatten.length + 1)
      hblocks hpos (by omega)
    rw [List.append_nil] at hframes
    simp only [hframes, sealedBlocks_walRecords hsealing hblocks, List.length_map]
    rw [if_pos hlength.symm]

end

/-- What the drain reads is what was appended; it may fail to read it, because
the buffer for a plaintext record has its size computed in 32 bits. -/
theorem eq_of_readClosedSegment_segment {blocks read : List Block} {timestamp : Nat}
    (hblocks : ∀ b ∈ blocks, b.Fits cfg)
    (hread : cfg.readClosedSegment (cfg.segment timestamp blocks) = .ok read) :
    read = blocks := by
  by_cases hsize : cfg.sealing = none → 28 + cfg.blockSize < 2 ^ 32
  · rw [readClosedSegment_segment timestamp hsize hblocks] at hread
    exact (Except.ok.inj hread).symm
  · obtain ⟨hplain, hlarge⟩ := Classical.not_imp.mp hsize
    have hlt := cfg.blockSize_lt
    have hsmall : (28 + cfg.blockSize) % 2 ^ 32 < 28 := by
      omega
    rw [readClosedSegment, closedSegment_segment] at hread
    simp only [hplain, plainRecords] at hread
    split at hread
    · rename_i hempty
      have hlength := length_walRecords hblocks
      have hpos := recordSize_pos cfg
      rw [hempty.2, List.length_nil, eq_comm, Nat.mul_eq_zero] at hlength
      have hnil : blocks = [] := List.length_eq_zero_iff.mp (by omega)
      rw [hnil, ← Except.ok.inj hread]
    · simp at hread

end Segments

theorem fileMaxSeq_foldl (blocks : List Block) (m : Nat) :
    m ≤ blocks.foldl (fun m b => max m b.seqNum) m ∧
      (∀ b ∈ blocks, b.seqNum ≤ blocks.foldl (fun m b => max m b.seqNum) m) ∧
      (blocks.foldl (fun m b => max m b.seqNum) m = m ∨
        ∃ b ∈ blocks, b.seqNum = blocks.foldl (fun m b => max m b.seqNum) m) := by
  induction blocks generalizing m with
  | nil => simp
  | cons first rest ih =>
    obtain ⟨hle, hall, hattained⟩ := ih (max m first.seqNum)
    simp only [List.foldl_cons]
    refine ⟨by omega, ?_, ?_⟩
    · intro b hb
      rcases List.mem_cons.mp hb with rfl | hrest
      · omega
      · exact hall b hrest
    · rcases hattained with heq | ⟨b, hb, heq⟩
      · rcases Nat.le_total m first.seqNum with hm | hm
        · exact .inr ⟨first, List.mem_cons_self, by omega⟩
        · exact .inl (by omega)
      · exact .inr ⟨b, List.mem_cons_of_mem _ hb, heq⟩

end Config

end Viperblock
