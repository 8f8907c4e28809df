import Mathlib.Data.List.Infix
import Viperblock.RecoverySafety
import Viperblock.SealedReads

/-!
# The messages sealed under one nonce

The nonce of a block is made of its sequence number, the volume's UUID and the
domain, the log or the chunks.  The same version of a block is sealed many
times: on every attempt to append it to the log, on every upload of a chunk
that holds it, and again whenever recovery replays the log.  The uploads seal
what was read back from the log, so the bytes come from the write buffers in
one case and from a file in the other.

The system here follows a version from `reserveSeqNum` to every place where it
is sealed.  Appends fail and leave part of a record behind, uploads stop after
any number of blocks, a crash cuts every file of the log, and recovery runs as
often as it is asked to.  Of `reserveSeqNum` only its contract is assumed: it
never hands out a number twice.

A file that records were only ever appended to at a record boundary reads back
what was sealed into it.  Once something was appended behind a torn record the
reader cuts the file at other places than the writer did; of such a file the
assumption is that the cipher opens nothing but what was sealed.
-/

namespace Viperblock
namespace NonceUse

open ByteCodec Config SealedReads

/-- A file of the log directory. -/
structure WalFile where
  name : String
  bytes : Bytes
  /-- Nothing was appended behind a torn record. -/
  whole : Bool
deriving DecidableEq

/-- `flushLocked` under way. -/
structure FlushCall where
  todo : List Block
  /-- Numbers of the blocks that were appended. -/
  flushed : List Nat

structure State where
  files : List WalFile
  /-- The volume is open. -/
  running : Bool
  /-- The segment that takes the appends. -/
  wal : Option String
  /-- The blocks of calls that have their numbers and have not been published. -/
  reserved : List (List Block)
  writes : List Block
  flush : Option FlushCall
  /-- Chunks to be uploaded. -/
  jobs : List (List Block)
  /-- Every version that was given a sequence number. -/
  issued : List Block
  /-- The calls of `aead.Seal` with a data nonce. -/
  log : List SealCall

def State.new : State :=
  { files := [], running := false, wal := none, reserved := [], writes := [], flush := none,
    jobs := [], issued := [], log := [] }

inductive Act
  /-- Open a segment; `written` bytes of its header reach the file. -/
  | openWAL (name : String) (timestamp written : Nat)
  /-- `writeOneBlockLocked` reserves a number for its block. -/
  | writeAt (start block : Nat) (data : Bytes)
  /-- `Write` reserves numbers for all its blocks. -/
  | write (start block : Nat) (data : List Bytes)
  /-- A call appends its blocks to the write buffer. -/
  | publish (i : Nat)
  | beginFlush
  /-- Append the next block; a failed append leaves a part of its record. -/
  | writeWAL (torn : Option Nat)
  | endFlush
  /-- Rotate the log and consolidate the segment that was closed. -/
  | writeWALToChunk (next : String) (timestamp written : Nat)
  /-- Upload of a chunk, which stops after `sealed` of its blocks were sealed. -/
  | createChunkFile (i sealed : Nat)
  /-- A drain or a recovery gives up on a chunk, or is done with it. -/
  | abandon (i : Nat)
  /-- Read the log of a volume that is not open. -/
  | recoverLocalWALs (unreadable : String → Bool)
  | remove (name : String)
  /-- A crash leaves a front part of every file. -/
  | crash (length : String → Nat)

section System

variable (cfg : Config)

/-- The call that seals a version. -/
def sealCall (s : Sealing) (domain : UInt8) (b : Block) : SealCall where
  nonce := makeNonce b.seqNum s.volumeUUID domain
  plain := b.data
  aad := makeAAD s.volumeNameHash b.block b.seqNum

/-- The calls that seal the blocks; there are none on a plaintext volume. -/
def sealCalls (domain : UInt8) (blocks : List Block) : List SealCall :=
  match cfg.sealing with
  | none => []
  | some s => blocks.map (sealCall s domain)

/-- The matched blocks with the part of the chunk buffer that is sealed for each. -/
def bufferedBlocks (matchedBlocks : List Block) : List Block :=
  matchedBlocks.zipIdx.map fun entry =>
    { entry.1 with
      data := slotAt cfg.blockSize (matchedBlocks.map Block.data).flatten entry.2 }

/-- `reserveSeqNum` on an encrypted volume refuses numbers the nonce has no room for. -/
def reserves (start count : Nat) : Bool :=
  cfg.sealing.isNone || decide (start + count ≤ maxSeqNum)

/-- The blocks of one call of `Write`. -/
def writeBlocks (start block : Nat) (data : List Bytes) : List Block :=
  data.zipIdx.map fun entry =>
    { data := entry.1, seqNum := start + 1 + entry.2, block := block + entry.2, len := 0 }

/-- The blocks can be written to the volume. -/
def accepts (blocks : List Block) : Bool :=
  blocks.all fun b => b.data.length == cfg.blockSize && decide (b.block < 2 ^ 64)

section

variable (s : State)

def State.reserve (blocks : List Block) : State :=
  { s with reserved := s.reserved ++ [blocks], issued := s.issued ++ blocks }

/-- Append to the files of a name. -/
def appendFile (aligned : Bytes → Bool) (name : String) (bytes : Bytes)
    (files : List WalFile) : List WalFile :=
  files.map fun file =>
    if file.name = name then
      { file with bytes := file.bytes ++ bytes, whole := file.whole && aligned file.bytes }
    else file

/-- The file ends with a whole header or a whole record. -/
def atRecord (bytes : Bytes) : Bool :=
  decide (walHeaderSize ≤ bytes.length ∧ (bytes.length - walHeaderSize) % cfg.recordSize = 0)

/-- Append a header to the named file, which may exist. -/
def writeHeader (name : String) (timestamp written : Nat) (files : List WalFile) :
    List WalFile :=
  let header := (cfg.walHeader timestamp).take written
  if files.any fun file => file.name = name then
    appendFile (fun bytes => bytes.isEmpty) name header files
  else files ++ [⟨name, header, true⟩]

def State.openSegment (name : String) (timestamp written : Nat) : State :=
  { s with
    files := writeHeader cfg name timestamp written s.files
    wal := if walHeaderSize ≤ written then some name else none }

/-- What the consolidation of a closed segment reads from it. -/
def readSegment (files : List WalFile) (name : String) : Except WalError (List Block) :=
  match files.find? fun file => file.name = name with
  | none => .error .header
  | some file => cfg.readClosedSegment file.bytes

def State.addJobs (blocks : List Block) : State :=
  { s with jobs := s.jobs ++ chunkJobs cfg.objBlockSize blocks }

/-- The files of the log recovery can read. -/
def readable (unreadable : String → Bool) (files : List WalFile) : List (String × Bytes) :=
  sortedFiles ((files.filter fun file => !unreadable file.name).map
    fun file => (file.name, file.bytes))

/-- Append the next block of a flush to the open segment. -/
def State.writeWAL (flush : FlushCall) (b : Block) (todo : List Block) :
    Option Nat → Option State
  | none =>
    match s.wal with
    | none => none
    | some name =>
      some
        { s with
          files := appendFile (atRecord cfg) name (cfg.walRecord b) s.files
          flush := some ⟨todo, flush.flushed ++ [b.block]⟩
          log := s.log ++ sealCalls cfg domainWAL [b] }
  | some torn =>
    -- the flush ends at the first block it cannot append
    let failed :=
      { s with
        flush := some { flush with todo := [] }
        log := s.log ++ sealCalls cfg domainWAL [b] }
    match s.wal with
    | none => some failed
    | some name =>
      some
        { failed with
          files := appendFile (atRecord cfg) name ((cfg.walRecord b).take torn) s.files }

def step : Act → Option State
  | .openWAL name timestamp written =>
    if s.running then none
    else some { s.openSegment cfg name timestamp written with
      running := decide (walHeaderSize ≤ written) }
  | .writeAt start block data =>
    let blocks := [⟨data, start + 1, block, cfg.blockSize⟩]
    if s.running ∧ reserves cfg start 1 ∧ accepts cfg blocks then some (s.reserve blocks)
    else none
  | .write start block data =>
    let blocks := writeBlocks start block data
    if s.running ∧ reserves cfg start data.length ∧ accepts cfg blocks then
      some (s.reserve blocks)
    else none
  | .publish i =>
    -- a flush holds the mutex of the write buffer
    match s.flush, s.reserved[i]? with
    | none, some blocks =>
      some { s with reserved := s.reserved.eraseIdx i, writes := s.writes ++ blocks }
    | _, _ => none
  | .beginFlush =>
    if s.running ∧ s.flush.isNone then some { s with flush := some ⟨s.writes, []⟩ } else none
  | .writeWAL torn =>
    match s.flush with
    | some ⟨b :: todo, flushed⟩ => s.writeWAL cfg ⟨b :: todo, flushed⟩ b todo torn
    | _ => none
  | .endFlush =>
    match s.flush with
    | some ⟨[], flushed⟩ =>
      some
        { s with
          flush := none
          writes := s.writes.filter fun b => !flushed.contains b.block }
    | _ => none
  | .writeWALToChunk next timestamp written =>
    match s.wal with
    | none => none
    | some name =>
      let rotated := s.openSegment cfg next timestamp written
      if written < walHeaderSize then some rotated
      else
        match readSegment cfg rotated.files name with
        | .error _ => some rotated
        | .ok blocks => some (rotated.addJobs cfg blocks)
  | .createChunkFile i sealed =>
    match s.jobs[i]? with
    | none => none
    | some job =>
      some
        { s with
          log := s.log ++ sealCalls cfg domainChunk ((bufferedBlocks cfg job).take sealed) }
  | .abandon i => some { s with jobs := s.jobs.eraseIdx i }
  | .recoverLocalWALs unreadable =>
    if s.running then none
    else
      match readLocalWALs cfg (readable unreadable s.files) with
      | .error _ => some s
      | .ok read => some (s.addJobs cfg (allBlocks read))
  | .remove name =>
    if s.wal = some name then none
    else some { s with files := s.files.filter fun file => file.name ≠ name }
  | .crash length =>
    some
      { State.new with
        files := s.files.map fun file =>
          { file with bytes := file.bytes.take (length file.name) }
        issued := s.issued
        log := s.log }

/-- No number is handed out a second time. -/
def fresh (start count : Nat) : Bool :=
  s.issued.all fun b => !(decide (start < b.seqNum) && decide (b.seqNum ≤ start + count))

/-- Behind a torn record the cipher opens only what was sealed. -/
def opensSealed (file : WalFile) : Except WalError (List Block) → Bool
  | .error _ => true
  | .ok blocks =>
    file.whole || (sealCalls cfg domainWAL blocks).all fun call => decide (call ∈ s.log)

/-- What is assumed of `reserveSeqNum` and of the cipher. -/
def assumed : Act → Bool
  | .writeAt start _ _ => fresh s start 1
  | .write start _ data => fresh s start data.length
  | .writeWALToChunk next timestamp written =>
    (writeHeader cfg next timestamp written s.files).all fun file =>
      s.wal != some file.name || opensSealed cfg s file (cfg.readClosedSegment file.bytes)
  | .recoverLocalWALs unreadable =>
    s.files.all fun file => unreadable file.name ||
      opensSealed cfg s file (cfg.readWALFileForRecovery file.bytes)
  | _ => true

end

end System

section Calls

variable {cfg : Config} {s : Sealing}

theorem makeNonce_inj {seqNum seqNum' : Nat} {volumeUUID : Bytes} {domain domain' : UInt8}
    (hseqNum : seqNum ≤ maxSeqNum) (hseqNum' : seqNum' ≤ maxSeqNum)
    (heq : makeNonce seqNum volumeUUID domain = makeNonce seqNum' volumeUUID domain') :
    seqNum = seqNum' ∧ domain = domain' := by
  have hwidth : maxSeqNum < 256 ^ 7 := by decide
  obtain ⟨hfront, hdomain⟩ := List.append_inj heq (by simp)
  obtain ⟨hnumber, -⟩ := List.append_inj hfront (by simp)
  exact ⟨eq_of_encode_eq (by omega) (by omega) hnumber, (List.cons.inj hdomain).1⟩

/-- The blocks agree in everything a call of `aead.Seal` is made of. -/
structure SameMessage (b v : Block) : Prop where
  seqNum : b.seqNum = v.seqNum
  block : b.block = v.block
  data : b.data = v.data

theorem SameMessage.sealCall {b v : Block} (h : SameMessage b v) (domain : UInt8) :
    sealCall s domain b = sealCall s domain v := by
  simp only [NonceUse.sealCall, h.seqNum, h.block, h.data]

theorem sameMessage_of_sealCall_eq {domain domain' : UInt8} {b v : Block}
    (hseqNum : b.seqNum < 2 ^ 64) (hseqNum' : v.seqNum < 2 ^ 64) (hblock : b.block < 2 ^ 64)
    (hblock' : v.block < 2 ^ 64)
    (heq : NonceUse.sealCall s domain b = NonceUse.sealCall s domain' v) :
    SameMessage b v := by
  simp only [NonceUse.sealCall, SealCall.mk.injEq] at heq
  obtain ⟨-, hplain, haad⟩ := heq
  obtain ⟨-, hb, hseq⟩ := makeAAD_inj rfl hblock hblock' hseqNum hseqNum' haad
  exact ⟨hseq, hb, hplain⟩

theorem mem_sealCalls {domain : UInt8} {blocks : List Block} {call : SealCall}
    (hsealing : cfg.sealing = some s) :
    call ∈ sealCalls cfg domain blocks ↔ ∃ b ∈ blocks, NonceUse.sealCall s domain b = call := by
  simp only [sealCalls, hsealing, List.mem_map]

theorem bufferedBlocks_eq {matchedBlocks : List Block}
    (hdata : ∀ b ∈ matchedBlocks, b.data.length = cfg.blockSize) :
    bufferedBlocks cfg matchedBlocks = matchedBlocks := by
  have hsize : ∀ piece ∈ matchedBlocks.map Block.data, piece.length = cfg.blockSize := by
    intro piece hpiece
    obtain ⟨b, hb, rfl⟩ := List.mem_map.mp hpiece
    exact hdata b hb
  refine List.ext_getElem? fun i => ?_
  rw [bufferedBlocks, List.getElem?_map, List.getElem?_zipIdx, Nat.zero_add]
  cases hi : matchedBlocks[i]? with
  | none => rfl
  | some b =>
    have hpiece : (matchedBlocks.map Block.data)[i]? = some b.data := by
      rw [List.getElem?_map, hi]
      rfl
    have hslot := slotAt_flatten hsize hpiece
    simp only [Option.map_some, hslot]

end Calls

section Files

variable {cfg : Config} {issued : List Block} {bytes : Bytes} {blocks : List Block}

/-- A front part of a segment into which issued versions were appended. -/
def Holds (cfg : Config) (issued : List Block) (bytes : Bytes) : Prop :=
  ∃ timestamp records, bytes <+: cfg.segment timestamp records ∧ ∀ b ∈ records, b ∈ issued

theorem Holds.front {part : Bytes} (h : Holds cfg issued bytes) (hpart : part <+: bytes) :
    Holds cfg issued part := by
  obtain ⟨timestamp, records, hbytes, hrecords⟩ := h
  exact ⟨timestamp, records, hpart.trans hbytes, hrecords⟩

theorem Holds.mono {more : List Block} (h : Holds cfg issued bytes) :
    Holds cfg (issued ++ more) bytes := by
  obtain ⟨timestamp, records, hbytes, hrecords⟩ := h
  exact ⟨timestamp, records, hbytes, fun b hb => List.mem_append_left _ (hrecords b hb)⟩

theorem holds_walHeader (cfg : Config) (issued : List Block) (timestamp written : Nat) :
    Holds cfg issued ((cfg.walHeader timestamp).take written) := by
  refine ⟨timestamp, [], ?_, by simp⟩
  rw [Config.segment, List.map_nil, List.flatten_nil, List.append_nil]
  exact List.take_prefix _ _

/-- A front part that ends at a record boundary is a segment of fewer records. -/
theorem eq_segment_of_atRecord {timestamp : Nat} {records : List Block}
    (hfits : ∀ b ∈ records, b.Fits cfg) (hbytes : bytes <+: cfg.segment timestamp records)
    (haligned : atRecord cfg bytes = true) :
    ∃ kept, bytes = cfg.segment timestamp (records.take kept) := by
  obtain ⟨hheader, hmod⟩ := of_decide_eq_true haligned
  have hlength := length_walHeader cfg timestamp
  obtain ⟨kept, hkept⟩ := Nat.dvd_of_mod_eq_zero hmod
  refine ⟨kept, ?_⟩
  have hwhole : bytes.length = (cfg.walHeader timestamp).length + kept * cfg.recordSize := by
    rw [hlength, Nat.mul_comm]
    omega
  rw [List.prefix_iff_eq_take.mp hbytes, hwhole, Config.segment, List.take_length_add_append,
    take_flatten_frames (length_of_mem_walRecords hfits), Config.segment, List.map_take]

theorem Holds.append {b : Block} {part : Bytes} (hfits : ∀ b ∈ issued, b.Fits cfg)
    (h : Holds cfg issued bytes) (haligned : atRecord cfg bytes = true) (hb : b ∈ issued)
    (hpart : part <+: cfg.walRecord b) :
    Holds cfg issued (bytes ++ part) := by
  obtain ⟨timestamp, records, hbytes, hrecords⟩ := h
  obtain ⟨kept, rfl⟩ := eq_segment_of_atRecord (fun r hr => hfits r (hrecords r hr)) hbytes
    haligned
  refine ⟨timestamp, records.take kept ++ [b], ?_, ?_⟩
  · simp only [Config.segment, List.map_append, List.flatten_append, List.map_singleton,
      List.flatten_singleton, List.append_assoc]
    exact (List.prefix_append_right_inj _).mpr ((List.prefix_append_right_inj _).mpr hpart)
  · intro r hr
    rcases List.mem_append.mp hr with hmem | hlast
    · exact hrecords r (List.mem_of_mem_take hmem)
    · rwa [List.mem_singleton.mp hlast]

theorem exists_frames_of_front {records : List Block} {body : Bytes} {fuel : Nat}
    (hfits : ∀ b ∈ records, b.Fits cfg) (hbody : body <+: (records.map cfg.walRecord).flatten)
    (hfuel : body.length < fuel) :
    ∃ kept, frames cfg.recordSize fuel body = (records.take kept).map cfg.walRecord := by
  have hpos := recordSize_pos cfg
  obtain ⟨torn, htake, htorn⟩ :=
    exists_take_flatten_div hpos (length_of_mem_walRecords hfits) body.length
  generalize body.length / cfg.recordSize = kept at htake
  have hkept : ∀ b ∈ records.take kept, b.Fits cfg :=
    fun b hb => hfits b (List.mem_of_mem_take hb)
  rw [← List.prefix_iff_eq_take.mp hbody, ← List.map_take] at htake
  refine ⟨kept, ?_⟩
  have hlength := congrArg List.length htake
  rw [List.length_append, length_walRecords hkept] at hlength
  have hmul : (records.take kept).length ≤ (records.take kept).length * cfg.recordSize :=
    Nat.le_mul_of_pos_right _ hpos
  rw [htake]
  exact frames_walRecords torn fuel hkept htorn (by omega)

variable {s : Sealing}

/-- A sealed segment is read to its end. -/
theorem sealedBlocks_of_readClosedSegment (hsealing : cfg.sealing = some s)
    (hread : cfg.readClosedSegment bytes = .ok blocks) :
    let body := bytes.drop walHeaderSize
    cfg.sealedBlocks (frames cfg.recordSize (body.length + 1) body) = .ok blocks := by
  revert hread
  unfold Config.readClosedSegment
  fun_cases Config.closedSegment <;> intro hread
  all_goals first | cases hsealing.symm.trans ‹cfg.sealing = none› | cases hread
  assumption

theorem Holds.readClosedSegment (hsealing : cfg.sealing = some s) (hfits : ∀ b ∈ issued, b.Fits cfg)
    (h : Holds cfg issued bytes) (hread : cfg.readClosedSegment bytes = .ok blocks) :
    ∀ b ∈ blocks, b ∈ issued := by
  obtain ⟨timestamp, records, hbytes, hrecords⟩ := h
  have hbody : bytes.drop walHeaderSize <+: (records.map cfg.walRecord).flatten := by
    have hdrop := hbytes.drop walHeaderSize
    rwa [Config.segment, List.drop_left' (length_walHeader cfg timestamp)] at hdrop
  obtain ⟨kept, hframes⟩ := exists_frames_of_front (fun b hb => hfits b (hrecords b hb)) hbody
    (Nat.lt_succ_self _)
  have hread := sealedBlocks_of_readClosedSegment hsealing hread
  dsimp only at hread
  rw [hframes, sealedBlocks_walRecords hsealing
    fun b hb => hfits b (hrecords b (List.mem_of_mem_take hb))] at hread
  cases hread
  exact fun b hb => hrecords b (List.mem_of_mem_take hb)

theorem Holds.readWALFileForRecovery (hfits : ∀ b ∈ issued, b.Fits cfg) (h : Holds cfg issued bytes)
    (hread : cfg.readWALFileForRecovery bytes = .ok blocks) :
    ∀ b ∈ blocks, b ∈ issued := by
  obtain ⟨timestamp, records, hbytes, hrecords⟩ := h
  rw [List.prefix_iff_eq_take.mp hbytes] at hread
  rcases readWALFileForRecovery_take cfg timestamp bytes.length
    fun b hb => hfits b (hrecords b hb) with hshort | ⟨kept, hkept⟩
  · rw [hshort] at hread
    cases hread
  · rw [hkept] at hread
    cases hread
    exact fun b hb => hrecords b (List.mem_of_mem_take hb)

/-- Numbers a record can hold. -/
def Numbers (b : Block) : Prop :=
  b.seqNum < 2 ^ 64 ∧ b.block < 2 ^ 64

theorem numbers_of_sealedBlock {record : Bytes} {b : Block}
    (hread : cfg.sealedBlock record = .ok b) :
    Numbers b := by
  have hwidth : ∀ bytes : Bytes, decode (bytes.take 8) < 2 ^ 64 := by
    intro bytes
    have hpow : (256 : Nat) ^ (bytes.take 8).length ≤ 256 ^ 8 :=
      Nat.pow_le_pow_right (by omega) (List.length_take_le _ _)
    exact Nat.lt_of_lt_of_le (decode_lt _) hpow
  revert hread
  fun_cases sealedBlock <;> intro hread <;> cases hread
  exact ⟨hwidth _, hwidth _⟩

theorem numbers_of_readClosedSegment (hsealing : cfg.sealing = some s)
    (hread : cfg.readClosedSegment bytes = .ok blocks) :
    ∀ b ∈ blocks, Numbers b := by
  intro b hb
  obtain ⟨record, -, hsealed⟩ :=
    exists_record_of_sealedBlocks (sealedBlocks_of_readClosedSegment hsealing hread) hb
  exact numbers_of_sealedBlock hsealed

theorem numbers_of_readWALFileForRecovery (hsealing : cfg.sealing = some s)
    (hread : cfg.readWALFileForRecovery bytes = .ok blocks) :
    ∀ b ∈ blocks, Numbers b := by
  intro b hb
  obtain ⟨record, -, ⟨hplain, -⟩ | ⟨-, hsealed⟩⟩ :=
    exists_record_of_readRecords (readRecords_of_readWALFileForRecovery hread) hb
  · cases hplain.symm.trans hsealing
  · exact numbers_of_sealedBlock hsealed

end Files

section Invariant

variable {cfg : Config} {key : Sealing} {s t : State}

/-- What is read from a file may be sealed as the version it was read for. -/
def Genuine (s : State) (b : Block) : Prop :=
  ∃ v ∈ s.issued, SameMessage b v

/-- Every version on its way is an issued one, and so is every message. -/
structure Inv (cfg : Config) (key : Sealing) (s : State) : Prop where
  fits : ∀ v ∈ s.issued, v.Fits cfg
  bound : ∀ v ∈ s.issued, v.seqNum ≤ maxSeqNum
  unique : ∀ v ∈ s.issued, ∀ w ∈ s.issued, v.seqNum = w.seqNum → v = w
  reserved : ∀ blocks ∈ s.reserved, ∀ b ∈ blocks, b ∈ s.issued
  writes : ∀ b ∈ s.writes, b ∈ s.issued
  flush : ∀ flush, s.flush = some flush → ∀ b ∈ flush.todo, b ∈ s.issued
  files : ∀ file ∈ s.files, file.whole = true → Holds cfg s.issued file.bytes
  jobs : ∀ job ∈ s.jobs, ∀ b ∈ job, Genuine s b
  log : ∀ call ∈ s.log, ∃ v ∈ s.issued,
    call = sealCall key domainWAL v ∨ call = sealCall key domainChunk v

theorem inv_new (cfg : Config) (key : Sealing) :
    Inv cfg key State.new := by
  constructor <;> simp [State.new]

section

variable (h : Inv cfg key s)

include h

theorem Inv.genuine_of_logged {b : Block} (hb : Numbers b)
    (hcall : sealCall key domainWAL b ∈ s.log) :
    Genuine s b := by
  obtain ⟨v, hv, heq⟩ := h.log _ hcall
  have hfits := h.fits v hv
  refine ⟨v, hv, ?_⟩
  rcases heq with hwal | hchunk
  · exact sameMessage_of_sealCall_eq hb.1 hfits.seqNum hb.2 hfits.block hwal
  · exact sameMessage_of_sealCall_eq hb.1 hfits.seqNum hb.2 hfits.block hchunk

/-- What is read from a file of the log is issued, by the way the file was written
or by the cipher. -/
theorem Inv.genuine_of_opensSealed (hsealing : cfg.sealing = some key) {file : WalFile}
    {blocks : List Block} (hwhole : file.whole = true → ∀ b ∈ blocks, b ∈ s.issued)
    (hnumbers : ∀ b ∈ blocks, Numbers b) (hsealed : opensSealed cfg s file (.ok blocks) = true) :
    ∀ b ∈ blocks, Genuine s b := by
  intro b hb
  rcases (Bool.or_eq_true _ _).mp hsealed with hfile | hlogged
  · exact ⟨b, hwhole hfile b hb, rfl, rfl, rfl⟩
  · have hcall := List.all_eq_true.mp hlogged _
      ((mem_sealCalls hsealing).mpr ⟨b, hb, rfl⟩)
    exact h.genuine_of_logged (hnumbers b hb) (of_decide_eq_true hcall)

theorem Inv.reserve {blocks : List Block} (hfits : ∀ b ∈ blocks, b.Fits cfg)
    (hbound : ∀ b ∈ blocks, b.seqNum ≤ maxSeqNum)
    (hunique : ∀ v ∈ blocks, ∀ w ∈ blocks, v.seqNum = w.seqNum → v = w)
    (hfresh : ∀ v ∈ s.issued, ∀ b ∈ blocks, v.seqNum ≠ b.seqNum) :
    Inv cfg key (s.reserve blocks) where
  fits := fun v hv => (List.mem_append.mp hv).elim (h.fits v) (hfits v)
  bound := fun v hv => (List.mem_append.mp hv).elim (h.bound v) (hbound v)
  unique := by
    intro v hv w hw heq
    rcases List.mem_append.mp hv with hv | hv <;> rcases List.mem_append.mp hw with hw | hw
    · exact h.unique v hv w hw heq
    · exact absurd heq (hfresh v hv w hw)
    · exact absurd heq.symm (hfresh w hw v hv)
    · exact hunique v hv w hw heq
  reserved := by
    intro batch hbatch b hb
    rcases List.mem_append.mp hbatch with hold | hnew
    · exact List.mem_append_left _ (h.reserved batch hold b hb)
    · rw [List.mem_singleton.mp hnew] at hb
      exact List.mem_append_right _ hb
  writes := fun b hb => List.mem_append_left _ (h.writes b hb)
  flush := fun flush hflush b hb => List.mem_append_left _ (h.flush flush hflush b hb)
  files := fun file hfile hwhole => (h.files file hfile hwhole).mono
  jobs := by
    intro job hjob b hb
    obtain ⟨v, hv, hsame⟩ := h.jobs job hjob b hb
    exact ⟨v, List.mem_append_left _ hv, hsame⟩
  log := by
    intro call hcall
    obtain ⟨v, hv, heq⟩ := h.log call hcall
    exact ⟨v, List.mem_append_left _ hv, heq⟩

theorem Inv.appendFile {aligned : Bytes → Bool} {bytes : Bytes} (name : String)
    (happend : ∀ old, Holds cfg s.issued old → aligned old = true →
      Holds cfg s.issued (old ++ bytes)) :
    Inv cfg key { s with files := NonceUse.appendFile aligned name bytes s.files } where
  __ := h
  files := by
    intro file hfile hwhole
    obtain ⟨old, hold, rfl⟩ := List.mem_map.mp hfile
    by_cases hname : old.name = name
    · simp only [if_pos hname, Bool.and_eq_true] at hwhole ⊢
      exact happend _ (h.files old hold hwhole.1) hwhole.2
    · simp only [if_neg hname] at hwhole ⊢
      exact h.files old hold hwhole

theorem Inv.openSegment (name : String) (timestamp written : Nat) :
    Inv cfg key (s.openSegment cfg name timestamp written) := by
  have hheader := holds_walHeader cfg s.issued timestamp written
  unfold State.openSegment writeHeader
  dsimp only
  split
  · refine { h.appendFile name ?_ with }
    intro old _ hempty
    rw [List.isEmpty_iff.mp hempty, List.nil_append]
    exact hheader
  · refine { h with files := ?_ }
    intro file hfile hwhole
    rcases List.mem_append.mp hfile with hold | hnew
    · exact h.files file hold hwhole
    · rw [List.mem_singleton.mp hnew]
      exact hheader

end

theorem mem_of_mem_chunkJobs {objBlockSize : Nat} {blocks job : List Block} {b : Block}
    (hdata : ∀ b ∈ blocks, b.data ≠ []) (hjob : job ∈ chunkJobs objBlockSize blocks)
    (hb : b ∈ job) :
    b ∈ blocks := by
  have hmem : b ∈ (chunkJobs objBlockSize blocks).flatten := List.mem_flatten_of_mem hjob hb
  rw [flatten_chunkJobs hdata] at hmem
  exact (isNewest_of_mem_sortedBlocks hmem).mem

theorem Inv.length_data (h : Inv cfg key s) {b : Block} (hb : Genuine s b) :
    b.data.length = cfg.blockSize := by
  obtain ⟨v, hv, hsame⟩ := hb
  rw [hsame.data]
  exact (h.fits v hv).data

theorem Inv.addJobs (h : Inv cfg key s) {blocks : List Block}
    (hblocks : ∀ b ∈ blocks, Genuine s b) :
    Inv cfg key (s.addJobs cfg blocks) where
  __ := h
  jobs := by
    intro job hjob b hb
    rcases List.mem_append.mp hjob with hold | hnew
    · exact h.jobs job hold b hb
    · refine hblocks b (mem_of_mem_chunkJobs ?_ hnew hb)
      intro b hb hempty
      have hlength := h.length_data (hblocks b hb)
      have hpos := cfg.blockSize_pos
      rw [hempty, List.length_nil] at hlength
      omega

theorem Inv.seal (h : Inv cfg key s) (hsealing : cfg.sealing = some key)
    {domain : UInt8} {blocks : List Block} (hdomain : domain = domainWAL ∨ domain = domainChunk)
    (hblocks : ∀ b ∈ blocks, Genuine s b) :
    Inv cfg key { s with log := s.log ++ sealCalls cfg domain blocks } where
  __ := h
  log := by
    intro call hcall
    rcases List.mem_append.mp hcall with hold | hnew
    · exact h.log call hold
    · obtain ⟨b, hb, rfl⟩ := (mem_sealCalls hsealing).mp hnew
      obtain ⟨v, hv, hsame⟩ := hblocks b hb
      refine ⟨v, hv, ?_⟩
      rw [hsame.sealCall]
      rcases hdomain with rfl | rfl
      · exact .inl rfl
      · exact .inr rfl

theorem Inv.writeWAL (h : Inv cfg key s) (hsealing : cfg.sealing = some key) {flush : FlushCall}
    {b : Block} {todo : List Block} {torn : Option Nat} (hflush : s.flush = some flush)
    (htodo : flush.todo = b :: todo) (hstep : s.writeWAL cfg flush b todo torn = some t) :
    Inv cfg key t := by
  have hmem : ∀ b' ∈ b :: todo, b' ∈ s.issued := fun b' hb' =>
    h.flush flush hflush b' (htodo ▸ hb')
  have hb := hmem b List.mem_cons_self
  have hgenuine : ∀ b' ∈ [b], Genuine s b' := by
    intro b' hb'
    rw [List.mem_singleton.mp hb']
    exact ⟨b, hb, rfl, rfl, rfl⟩
  have hsealed := h.seal hsealing (.inl rfl : domainWAL = domainWAL ∨ _) hgenuine
  have happend : ∀ part, part <+: cfg.walRecord b → ∀ old, Holds cfg s.issued old →
      atRecord cfg old = true → Holds cfg s.issued (old ++ part) :=
    fun part hpart old hold haligned => hold.append h.fits haligned hb hpart
  unfold State.writeWAL at hstep
  split at hstep
  · split at hstep
    · cases hstep
    · rename_i name hname
      cases hstep
      refine { hsealed.appendFile name (happend _ (List.prefix_refl _)) with flush := ?_ }
      intro flush' hflush' b' hb'
      cases hflush'
      exact hmem b' (List.mem_cons_of_mem _ hb')
  · rename_i torn
    have hdone : ∀ flush', some { flush with todo := [] } = some flush' →
        ∀ b ∈ flush'.todo, b ∈ s.issued := by
      intro flush' hflush' b' hb'
      cases hflush'
      cases hb'
    dsimp only at hstep
    split at hstep
    · cases hstep
      exact { hsealed with flush := hdone }
    · rename_i name hname
      cases hstep
      exact { hsealed.appendFile name (happend _ (List.take_prefix _ _)) with flush := hdone }

theorem mem_writeBlocks {start block : Nat} {data : List Bytes} {b : Block}
    (hb : b ∈ writeBlocks start block data) :
    ∃ i, ∃ bytes, data[i]? = some bytes ∧ b = ⟨bytes, start + 1 + i, block + i, 0⟩ := by
  obtain ⟨⟨bytes, i⟩, hmem, rfl⟩ := List.mem_map.mp hb
  exact ⟨i, bytes, List.mem_zipIdx_iff_getElem?.mp hmem, rfl⟩

section

variable (h : Inv cfg key s)

include h

section

variable (hsealing : cfg.sealing = some key)

include hsealing

theorem Inv.reserve_of_fresh {start count : Nat} {blocks : List Block}
    (hreserves : reserves cfg start count = true) (haccepts : accepts cfg blocks = true)
    (hfresh : fresh s start count = true)
    (hrange : ∀ b ∈ blocks, start < b.seqNum ∧ b.seqNum ≤ start + count ∧ b.len < 2 ^ 64)
    (hunique : ∀ v ∈ blocks, ∀ w ∈ blocks, v.seqNum = w.seqNum → v = w) :
    Inv cfg key (s.reserve blocks) := by
  have hlimit : start + count ≤ maxSeqNum := by
    simpa only [reserves, hsealing, Option.isNone_some, Bool.false_or,
      decide_eq_true_eq] using hreserves
  have hmax : maxSeqNum < 2 ^ 64 := by decide
  have hshape : ∀ b ∈ blocks, b.data.length = cfg.blockSize ∧ b.block < 2 ^ 64 := by
    intro b hb
    simpa only [Bool.and_eq_true, beq_iff_eq, decide_eq_true_eq] using
      List.all_eq_true.mp haccepts b hb
  refine h.reserve ?_ ?_ hunique ?_
  · intro b hb
    obtain ⟨-, hle, hlen⟩ := hrange b hb
    exact ⟨(hshape b hb).1, by omega, (hshape b hb).2, hlen⟩
  · intro b hb
    obtain ⟨-, hle, -⟩ := hrange b hb
    omega
  · intro v hv b hb heq
    have hnot := List.all_eq_true.mp hfresh v hv
    obtain ⟨hlt, hle, -⟩ := hrange b hb
    simp only [Bool.not_eq_true', Bool.and_eq_false_iff, decide_eq_false_iff_not] at hnot
    omega

theorem Inv.write {start block : Nat} {data : List Bytes}
    (hreserves : reserves cfg start data.length = true)
    (haccepts : accepts cfg (writeBlocks start block data) = true)
    (hfresh : fresh s start data.length = true) :
    Inv cfg key (s.reserve (writeBlocks start block data)) := by
  refine h.reserve_of_fresh hsealing hreserves haccepts hfresh ?_ ?_
  · intro b hb
    obtain ⟨i, bytes, hi, rfl⟩ := mem_writeBlocks hb
    have hlt := (List.getElem?_eq_some_iff.mp hi).1
    exact ⟨by dsimp only; omega, by dsimp only; omega, Nat.two_pow_pos 64⟩
  · intro v hv w hw heq
    obtain ⟨i, bytes, hi, rfl⟩ := mem_writeBlocks hv
    obtain ⟨j, bytes', hj, rfl⟩ := mem_writeBlocks hw
    obtain rfl : i = j := Nat.add_left_cancel heq
    rw [hi] at hj
    rw [Option.some.inj hj]

theorem Inv.writeAt {start block : Nat} {data : Bytes} (hreserves : reserves cfg start 1 = true)
    (haccepts : accepts cfg [⟨data, start + 1, block, cfg.blockSize⟩] = true)
    (hfresh : fresh s start 1 = true) :
    Inv cfg key (s.reserve [⟨data, start + 1, block, cfg.blockSize⟩]) := by
  have hsize := cfg.blockSize_lt
  refine h.reserve_of_fresh hsealing hreserves haccepts hfresh ?_ ?_
  · intro b hb
    rw [List.mem_singleton.mp hb]
    exact ⟨Nat.lt_succ_self _, Nat.le_refl _, by dsimp only; omega⟩
  · intro v hv w hw _
    rw [List.mem_singleton.mp hv, List.mem_singleton.mp hw]

theorem Inv.writeWALToChunk {name next : String} {timestamp written : Nat} {blocks : List Block}
    (hwal : s.wal = some name)
    (hassumed : assumed cfg s (.writeWALToChunk next timestamp written) = true)
    (hread : readSegment cfg (s.openSegment cfg next timestamp written).files name = .ok blocks) :
    Inv cfg key ((s.openSegment cfg next timestamp written).addJobs cfg blocks) := by
  have hrotated := h.openSegment next timestamp written
  unfold readSegment at hread
  split at hread
  · cases hread
  rename_i file hfind
  have hmem := List.mem_of_find?_eq_some hfind
  have hname : file.name = name := of_decide_eq_true (List.find?_some hfind :)
  have hopens := List.all_eq_true.mp hassumed file hmem
  rw [hwal, hname, bne_self_eq_false, Bool.false_or, hread] at hopens
  refine hrotated.addJobs (hrotated.genuine_of_opensSealed hsealing ?_
    (numbers_of_readClosedSegment hsealing hread) hopens)
  intro hwhole
  exact (hrotated.files file hmem hwhole).readClosedSegment hsealing hrotated.fits hread

theorem Inv.recoverLocalWALs {unreadable : String → Bool} {read : List (String × List Block)}
    (hassumed : assumed cfg s (.recoverLocalWALs unreadable) = true)
    (hread : readLocalWALs cfg (readable unreadable s.files) = .ok read) :
    Inv cfg key (s.addJobs cfg (allBlocks read)) := by
  refine h.addJobs ?_
  intro b hb
  rw [Volume.allBlocks_of_read hread] at hb
  obtain ⟨entry, hentry, hb⟩ := List.mem_flatMap.mp hb
  obtain ⟨file, hfile, rfl⟩ := List.mem_map.mp (Volume.mem_sortedFiles_iff.mp hentry)
  obtain ⟨hmem, hreadable⟩ := List.mem_filter.mp hfile
  have hopens := List.all_eq_true.mp hassumed file hmem
  rw [(Bool.not_eq_true' _).mp hreadable, Bool.false_or] at hopens
  unfold validRecords at hb
  split at hb
  · rename_i blocks hblocks
    rw [hblocks] at hopens
    refine h.genuine_of_opensSealed hsealing ?_
      (numbers_of_readWALFileForRecovery hsealing hblocks) hopens b hb
    intro hwhole
    exact (h.files file hmem hwhole).readWALFileForRecovery h.fits hblocks
  · cases hb

end

theorem Inv.crash (length : String → Nat) :
    Inv cfg key
      { State.new with
        files := s.files.map fun file =>
          { file with bytes := file.bytes.take (length file.name) }
        issued := s.issued
        log := s.log } where
  __ := inv_new cfg key
  fits := h.fits
  bound := h.bound
  unique := h.unique
  reserved := by rintro _ ⟨⟩
  writes := by rintro _ ⟨⟩
  flush := by rintro _ ⟨⟩
  jobs := by rintro _ ⟨⟩
  files := by
    intro file hfile hwhole
    obtain ⟨old, hold, rfl⟩ := List.mem_map.mp hfile
    exact (h.files old hold hwhole).front (List.take_prefix _ _)
  log := h.log

theorem Inv.step {act : Act} (hsealing : cfg.sealing = some key)
    (hassumed : assumed cfg s act = true) (hstep : NonceUse.step cfg s act = some t) :
    Inv cfg key t := by
  revert hstep
  fun_cases NonceUse.step cfg s act <;> intro hstep
  case case11 =>
    exact h.writeWAL hsealing ‹_› rfl hstep
  case case16 | case17 =>
    rw [← Option.some.inj hstep]
    exact h.openSegment _ _ _
  all_goals cases hstep
  · exact { h.openSegment _ _ _ with }
  · rename_i hok
    exact h.writeAt hsealing hok.2.1 hok.2.2 hassumed
  · rename_i hok
    exact h.write hsealing hok.2.1 hok.2.2 hassumed
  · rename_i blocks hi _
    have hblocks := h.reserved blocks (List.mem_of_getElem? hi)
    refine { h with reserved := ?_, writes := ?_ }
    · exact fun batch hbatch => h.reserved batch (List.mem_of_mem_eraseIdx hbatch)
    · exact fun b hb => (List.mem_append.mp hb).elim (h.writes b) (hblocks b)
  · refine { h with flush := ?_ }
    intro flush hflush
    cases hflush
    exact h.writes
  · refine { h with flush := by rintro _ ⟨⟩, writes := ?_ }
    exact fun b hb => h.writes b (List.mem_of_mem_filter hb)
  · exact h.writeWALToChunk hsealing ‹_› hassumed ‹_›
  · rename_i job hjob
    have hgenuine := h.jobs job (List.mem_of_getElem? hjob)
    rw [bufferedBlocks_eq fun b hb => h.length_data (hgenuine b hb)]
    exact h.seal hsealing (.inr rfl) fun b hb => hgenuine b (List.mem_of_mem_take hb)
  · exact { h with jobs := fun job hjob => h.jobs job (List.mem_of_mem_eraseIdx hjob) }
  · exact h
  · exact h.recoverLocalWALs hsealing hassumed ‹_›
  · exact { h with files := fun file hfile => h.files file (List.mem_of_mem_filter hfile) }
  · exact h.crash _

/-- Of two calls under one nonce both seal the same message. -/
theorem Inv.eq_of_nonce_eq {call call' : SealCall} (hcall : call ∈ s.log) (hcall' : call' ∈ s.log)
    (hnonce : call.nonce = call'.nonce) :
    call = call' := by
  have hmessage : ∀ call ∈ s.log, ∃ v ∈ s.issued, ∃ domain, call = sealCall key domain v := by
    intro call hcall
    obtain ⟨v, hv, heq⟩ := h.log call hcall
    rcases heq with heq | heq
    · exact ⟨v, hv, _, heq⟩
    · exact ⟨v, hv, _, heq⟩
  obtain ⟨v, hv, domain, rfl⟩ := hmessage call hcall
  obtain ⟨w, hw, domain', rfl⟩ := hmessage call' hcall'
  obtain ⟨hseqNum, rfl⟩ := makeNonce_inj (h.bound v hv) (h.bound w hw) hnonce
  rw [h.unique v hv w hw hseqNum]

end

end Invariant

section Plaintext

variable {cfg : Config} {s t : State}

theorem log_eq_nil_of_step {act : Act} (hplain : cfg.sealing = none) (hlog : s.log = [])
    (hstep : step cfg s act = some t) :
    t.log = [] := by
  have hcalls : ∀ domain blocks, s.log ++ sealCalls cfg domain blocks = [] := by
    intro domain blocks
    rw [hlog, sealCalls, hplain, List.append_nil]
  cases act <;> simp only [step, State.writeWAL] at hstep <;>
    (repeat' split at hstep) <;> first
      | (cases hstep
         first | exact hlog | exact hcalls _ _)
      | cases hstep

end Plaintext

open GuardedRun in
/-- Two calls of `aead.Seal` with the same data nonce seal the same plaintext with the
same additional data. -/
theorem eq_message_of_eq_nonce (cfg : Config) {acts : List Act} {s : State}
    (hrun : Run (step cfg) (fun s act => assumed cfg s act = true) State.new acts s)
    {call call' : SealCall} (hcall : call ∈ s.log) (hcall' : call' ∈ s.log)
    (hnonce : call.nonce = call'.nonce) :
    call.plain = call'.plain ∧ call.aad = call'.aad := by
  cases hsealing : cfg.sealing with
  | none =>
    have hlog : s.log = [] :=
      hrun.preserves (fun _ _ _ hlog _ hstep => log_eq_nil_of_step hsealing hlog hstep) rfl
    rw [hlog] at hcall
    cases hcall
  | some key =>
    have hinv : Inv cfg key s :=
      hrun.preserves (fun _ _ _ h hassumed hstep => h.step hsealing hassumed hstep)
        (inv_new cfg key)
    rw [hinv.eq_of_nonce_eq hcall hcall' hnonce]
    exact ⟨rfl, rfl⟩

/-- Three blocks, one of which is appended at the second attempt; the drain fails and
starts again, and after a crash the log is replayed. -/
def retried : List Act :=
  [.openWAL "0" 0 18, .writeAt 0 5 [7], .write 1 6 [[8], [9]], .publish 0, .publish 0,
    .beginFlush, .writeWAL none, .writeWAL (some 0), .endFlush,
    .beginFlush, .writeWAL none, .writeWAL none, .endFlush,
    .writeWALToChunk "1" 0 18, .createChunkFile 0 1, .createChunkFile 0 2,
    .crash fun _ => 1000, .recoverLocalWALs fun _ => false, .createChunkFile 0 2]

open GuardedRun in
/-- The block that was appended twice is sealed for a chunk by the drain and by recovery. -/
theorem eq_message_of_eq_nonce_retried :
    ∃ s call call',
      Run (step (tinyFleet.cfg ())) (fun s act => assumed (tinyFleet.cfg ()) s act = true)
        State.new retried s ∧
      s.log[6]? = some call ∧ s.log[8]? = some call' ∧ call.nonce = call'.nonce ∧
      call.plain = call'.plain ∧ call.aad = call'.aad := by
  obtain ⟨s, hrun, hlog⟩ := Run.exists_of_exec (step (tinyFleet.cfg ()))
    (fun s act => assumed (tinyFleet.cfg ()) s act = true) State.new retried
    (fun s => decide (s.log.length = 9 ∧
      s.log[6]?.map SealCall.nonce = s.log[8]?.map SealCall.nonce))
    (by decide +kernel)
  obtain ⟨hlength, hnonce⟩ := of_decide_eq_true hlog
  have hsix : s.log[6]? = some s.log[6] := List.getElem?_eq_getElem (by omega)
  have height : s.log[8]? = some s.log[8] := List.getElem?_eq_getElem (by omega)
  rw [hsix, height] at hnonce
  exact ⟨s, _, _, hrun, hsix, height, Option.some.inj hnonce,
    eq_message_of_eq_nonce _ hrun (List.mem_of_getElem? hsix) (List.mem_of_getElem? height)
      (Option.some.inj hnonce)⟩

end NonceUse
end Viperblock
