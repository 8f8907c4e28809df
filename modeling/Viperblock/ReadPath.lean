import Viperblock.SnapshotChain
import Viperblock.Volume

/-!
# The read path

`ReadAt` looks every block of its range up in the block store, and a block that
the volume itself never wrote in the layers it inherits.  Blocks in memory are
copied; the others are fetched from the backend, a run of neighbours in the same
chunk object with one request, opened if the volume is encrypted, and offered to
the block store as a cache.

The backend is a parameter: what a ranged read of a chunk object returns.
-/

namespace Viperblock

open ByteCodec BlockMap

inductive ReadError
  | requestTooLarge
  | requestOutOfRange
  | requestBlockSize
  /-- The backend has no such object, or cannot be reached. -/
  | backend
  /-- The object ends before the requested range does. -/
  | endOfFile
  | preEncryptionFormat (objectID : Nat)
  | unknownMagic (objectID : Nat)
  | shortRead (objectID objectOffset numBlocks got expected : Nat)
  | shortCiphertext (objectID objectOffset numBlocks got expected : Nat)
  | seqNumsLength (got numBlocks : Nat)
  | integrity (objectID block seqNum : Nat)
  | emptySourceVolume
deriving DecidableEq, Repr

/-- Object, offset and length of a request for part of a chunk object. -/
abbrev ObjectReader := (objectID offset length : Nat) → Except ReadError Bytes

/-- A request of length zero is one for the whole object. -/
def readFile (object : Option Bytes) (offset length : Nat) : Except ReadError Bytes :=
  match object with
  | none => .error .backend
  | some bytes =>
    let wanted := if length = 0 then safeIntToUint32 bytes.length else length
    if offset + wanted ≤ bytes.length then .ok ((bytes.drop offset).take wanted)
    else .error .endOfFile

/-- Copy bytes into a buffer from a position on. -/
def overwrite (buffer : Bytes) (start : Nat) (bytes : Bytes) : Bytes :=
  buffer.take start ++ bytes ++ buffer.drop (start + bytes.length)

/-- A block of a request that has to be fetched. -/
structure WantedBlock where
  blockPosition : Nat
  block : Nat
  loc : Location
deriving DecidableEq, Repr

/-- Neighbours that one request to the backend covers. -/
structure ConsecutiveBlock where
  blockPosition : Nat
  startBlock : Nat
  numBlocks : Nat
  objectID : Nat
  objectOffset : Nat
  seqNums : List Nat
deriving DecidableEq, Repr

/-- Where a read finds a block. -/
inductive Found
  | memory (data : Bytes)
  | own (loc : Location)
  | inherited (layer : Nat) (loc : Location)
  | zero
deriving DecidableEq, Repr

/-- The first of the layers that has the block, by its position. -/
def findLayer (layers : List Layer) (block : Nat) : Found :=
  match layers.zipIdx.findSome? fun layer =>
      (layer.1.blocks.lookup block).map fun bl => (layer.2, recordLocation bl) with
  | some (layer, loc) => .inherited layer loc
  | none => .zero

/-- Look a block up in the store and, if it has no entry, in the layers. -/
def findBlock (store : UnifiedBlockStore) (layers : List Layer) (block : Nat) : Found :=
  match store.readEntry block with
  | none => findLayer layers block
  | some entry =>
    match entry.state with
    | .hot | .pending | .cached => .memory entry.data
    | .persisted => .own ⟨entry.objectID, entry.objectOffset, entry.seqNum⟩
    | .empty => findLayer layers block

namespace WantedBlock

/-- The second of two wanted blocks continues the run of the first. -/
def continues (a b : WantedBlock) : Bool :=
  b.block == a.block + 1 && b.loc.objectID == a.loc.objectID

end WantedBlock

/-- The runs of a list of wanted blocks. -/
def coalesceRun : List WantedBlock → Option ConsecutiveBlock
  | [] => none
  | first :: rest =>
    some
      { blockPosition := first.blockPosition
        startBlock := first.block
        numBlocks := safeIntToUint16 (rest.length + 1)
        objectID := first.loc.objectID
        objectOffset := first.loc.objectOffset
        seqNums := (first :: rest).map fun w => w.loc.seqNum }

/-- A request's blocks ascend, so a run ends where its successor is not next. -/
def coalesceBlocks (wanted : List WantedBlock) : List ConsecutiveBlock :=
  (wanted.splitBy WantedBlock.continues).filterMap coalesceRun

namespace Config

variable (cfg : Config)

/-- The configuration under which the chunks of another volume were sealed. -/
def under (source : SourceIdentity) : Config :=
  { cfg with
    sealing := cfg.sealing.map fun s =>
      { s with volumeUUID := source.uuid, volumeNameHash := source.nameHash } }

/-- `VBCH` -/
def plainChunkMagic : Bytes := [86, 66, 67, 72]

/-- `VBCE` -/
def encryptedChunkMagic : Bytes := [86, 66, 67, 69]

/-- Only an encrypted volume looks at the magic of a chunk before it reads it. -/
def checkChunkMagic (read : ObjectReader) (objectID : Nat) : Except ReadError Unit :=
  if cfg.sealing.isNone then .ok ()
  else
    match read objectID 0 4 with
    | .error err => .error err
    | .ok header =>
      if header.take 4 = plainChunkMagic then .error (.preEncryptionFormat objectID)
      else if header.take 4 = encryptedChunkMagic then .ok ()
      else .error (.unknownMagic objectID)

/-- Open the slots of a run one after the other. -/
def openSlots (objectID : Nat) : Nat → List Nat → List Bytes → Except ReadError Bytes
  | block, seqNum :: seqNums, slot :: slots =>
    match cfg.openBlock domainChunk block seqNum slot with
    | none => .error (.integrity objectID block seqNum)
    | some plain =>
      match openSlots objectID (block + 1) seqNums slots with
      | .error err => .error err
      | .ok rest => .ok (plain ++ rest)
  | _, _, _ => .ok []

def openChunkRun (cb : ConsecutiveBlock) (ciphertext : Bytes) : Except ReadError Bytes :=
  let expected := cb.numBlocks * (cfg.blockSize + 16)
  if ciphertext.length ≠ expected then
    .error (.shortCiphertext cb.objectID cb.objectOffset cb.numBlocks ciphertext.length
      expected)
  else if cb.seqNums.length ≠ cb.numBlocks then
    .error (.seqNumsLength cb.seqNums.length cb.numBlocks)
  else
    cfg.openSlots cb.objectID cb.startBlock cb.seqNums
      (frames (cfg.blockSize + 16) (cb.numBlocks + 1) ciphertext)

/-- Length of a request, as the 32-bit arithmetic computes it. -/
def runLength (cb : ConsecutiveBlock) : Nat :=
  cb.numBlocks * cfg.blockStride % 2 ^ 32

/-- What one request contributes to the buffer. -/
def fetchRun (read : ObjectReader) (cb : ConsecutiveBlock) : Except ReadError Bytes :=
  match cfg.checkChunkMagic read cb.objectID with
  | .error err => .error err
  | .ok () =>
    match read cb.objectID cb.objectOffset (cfg.runLength cb) with
    | .error err => .error err
    | .ok blockData =>
      if cfg.sealing.isSome then cfg.openChunkRun cb blockData
      else if blockData.length ≠ cfg.runLength cb then
        .error (.shortRead cb.objectID cb.objectOffset cb.numBlocks blockData.length
          (cfg.runLength cb))
      else .ok (blockData.take (cb.numBlocks * cfg.blockSize))

/-- Offer the blocks of a run in the buffer to the block store. -/
def cacheRun (cb : ConsecutiveBlock) (data : Bytes) (store : UnifiedBlockStore) :
    UnifiedBlockStore :=
  (List.range cb.numBlocks).foldl
    (fun store i =>
      store.cache (cb.startBlock + i)
        ((data.drop ((cb.blockPosition + i) * cfg.blockSize)).take cfg.blockSize))
    store

/-- Fetch the runs in their order, up to the first that fails. -/
def fetchRuns (read : ObjectReader) :
    List ConsecutiveBlock → Bytes → UnifiedBlockStore → Except ReadError Bytes × UnifiedBlockStore
  | [], data, store => (.ok data, store)
  | cb :: cbs, data, store =>
    match cfg.fetchRun read cb with
    | .error err => (.error err, store)
    | .ok plain =>
      let data := overwrite data (cb.blockPosition * cfg.blockSize) plain
      fetchRuns read cbs data (cfg.cacheRun cb data store)

/-- The blocks that were found in the layers, layer by layer. -/
def fetchLayers (read : String → ObjectReader) (wanted : Nat → List WantedBlock) :
    List (Layer × Nat) → Bytes → UnifiedBlockStore → Except ReadError Bytes × UnifiedBlockStore
  | [], data, store => (.ok data, store)
  | (layer, index) :: layers, data, store =>
    match wanted index with
    | [] => fetchLayers read wanted layers data store
    | first :: rest =>
      if layer.source.name = "" then (.error .emptySourceVolume, store)
      else
        match (cfg.under layer.source).fetchRuns (read layer.source.name)
            (coalesceBlocks (first :: rest)) data store with
        | (.error err, store) => (.error err, store)
        | (.ok data, store) => fetchLayers read wanted layers data store

/-- The part of the buffer that is in memory, with zeros for the rest. -/
def memoryData (found : Found) : Bytes :=
  match found with
  | .memory data => (data ++ List.replicate cfg.blockSize 0).take cfg.blockSize
  | _ => List.replicate cfg.blockSize 0

/-- The blocks that were found in the volume's own chunks. -/
def ownWanted (found : List (Nat × Nat × Found)) : List WantedBlock :=
  found.filterMap fun item =>
    match item.2.2 with
    | .own loc => some ⟨item.1, item.2.1, loc⟩
    | _ => none

/-- The blocks that were found in a layer. -/
def layerWanted (found : List (Nat × Nat × Found)) (index : Nat) : List WantedBlock :=
  found.filterMap fun item =>
    match item.2.2 with
    | .inherited layer loc => if layer = index then some ⟨item.1, item.2.1, loc⟩ else none
    | _ => none

/-- The data of a range of blocks, and whether one of them was never written. -/
def readBlockStore (name : String) (read : String → ObjectReader) (layers : List Layer)
    (store : UnifiedBlockStore) (block blockLen : Nat) :
    Except ReadError (Bytes × Bool) × UnifiedBlockStore :=
  if blockLen % cfg.blockSize ≠ 0 then (.error .requestBlockSize, store)
  else
    let found := (List.range (blockLen / cfg.blockSize)).map fun i =>
      (i, block + i, findBlock store layers (block + i))
    let data := (found.map fun item => cfg.memoryData item.2.2).flatten
    match cfg.fetchRuns (read name) (coalesceBlocks (ownWanted found)) data store with
    | (.error err, store) => (.error err, store)
    | (.ok data, store) =>
      match cfg.fetchLayers read (layerWanted found) layers.zipIdx data store with
      | (.error err, store) => (.error err, store)
      | (.ok data, store) => (.ok (data, found.any fun item => item.2.2 = .zero), store)

/-- The blocks a request covers, first block and length, in 64-bit arithmetic. -/
def requestBlocks (offset length : Nat) : Nat × Nat :=
  let firstBlock := offset / cfg.blockSize
  let lastBlock := (offset + length + (2 ^ 64 - 1)) % 2 ^ 64 / cfg.blockSize
  (firstBlock, (lastBlock + 2 ^ 64 - firstBlock + 1) % 2 ^ 64 * cfg.blockSize % 2 ^ 64)

/-- The bytes of a range, and whether a block of it was never written. -/
def readAt (volumeSize : Nat) (name : String) (read : String → ObjectReader)
    (layers : List Layer) (store : UnifiedBlockStore) (offset length : Nat) :
    Except ReadError (Bytes × Bool) × UnifiedBlockStore :=
  if volumeSize < offset then (.error .requestTooLarge, store)
  else if volumeSize < (offset + length) % 2 ^ 64 then (.error .requestOutOfRange, store)
  else
    let (firstBlock, blockLen) := cfg.requestBlocks offset length
    match cfg.readBlockStore name read layers store firstBlock blockLen with
    | (.error err, store) => (.error err, store)
    | (.ok (fullData, zeroBlock), store) =>
      (.ok ((fullData.drop (offset % cfg.blockSize)).take length, zeroBlock), store)

end Config

end Viperblock
