import Viperblock.ReadPath
import Viperblock.ReopenSystem

/-!
# The running engine

`WriteAt`, `ReadAt`, `Flush` and `DrainToBackend` of an open volume, interleaved at
the granularity of their locked sections.  Any number of writes and reads run at the
same time.  A write goes through its blocks one by one, each under a lock of the
block; it reads the block first if it changes only part of it, takes a number, appends
the new version to the write buffer and publishes it in the block store.  A read looks
its blocks up one by one, first in memory, then among the persisted extents, and then
fetches the runs it has found on the backend.

A flush appends the buffer to the log record by record.  Consolidation closes the log
segment, packs its records into chunks and uploads these in parallel; an upload takes
an object number, stores the chunk, drops its blocks from the pending writes and
enters its runs into the block map, moving the blocks of each run from the memory of
the block store to its extents in three passes.  A drain is a flush, a consolidation
and a save of the live checkpoint.  Every write to the disk or the backend may fail.

Sizes and offsets are at most `2 ^ 63`, so that their sums do not wrap.
-/

namespace Viperblock

namespace Engine

open BlockMap BlocksToObject
open ReopenSystem (Segment)

/-- What stays as it is while a volume is open. -/
structure Env where
  cfg : Config
  volumeSize : Nat
  /-- The layers of snapshots below the volume. -/
  layers : List Layer
  /-- The chunk objects of the volumes the layers belong to. -/
  source : String → ObjectReader
  volumeSize_le : volumeSize ≤ 2 ^ 63

/-- The part of a write that goes into one block. -/
structure Patch where
  block : Nat
  start : Nat
  bytes : Bytes
deriving DecidableEq, Repr

/-- The block with the bytes of the patch in place. -/
def Patch.apply (p : Patch) (content : Bytes) : Bytes :=
  overwrite content p.start p.bytes

/-- The write does not cover the whole block. -/
def Patch.isPartial (blockSize : Nat) (p : Patch) : Bool :=
  decide (0 < p.start) || decide (p.start + p.bytes.length < blockSize)

/-- A write at a byte offset, cut at the borders of the blocks. -/
def patches (blockSize offset : Nat) (data : Bytes) : List Patch :=
  let endOffset := offset + data.length
  let startBlock := offset / blockSize
  let endBlock := (endOffset - 1) / blockSize
  (List.range (endBlock + 1 - startBlock)).map fun i =>
    let b := startBlock + i
    let blockStart := b * blockSize
    let writeStart := offset - blockStart
    let writeEnd :=
      if endOffset < blockStart + blockSize then endOffset - blockStart else blockSize
    ⟨b, writeStart, (data.drop (blockStart + writeStart - offset)).take (writeEnd - writeStart)⟩

section Calls

/-- A request to the backend, for the volume's own chunks or those of a layer. -/
structure Fetch where
  layer : Option Layer
  cb : ConsecutiveBlock

inductive ReadPhase
  | looking
  /-- The next block has no entry in memory. -/
  | missed
  /-- All blocks are looked up; `fetches` are still to come. -/
  | fetching (data : Bytes) (fetches : List Fetch)

/-- A `ReadAt` on its way. -/
structure ReadCall where
  firstBlock : Nat
  count : Nat
  /-- The blocks looked up so far: position in the request, number, place. -/
  found : List (Nat × Nat × Found)
  phase : ReadPhase
  /-- How many writes had been published when the call began. -/
  began : Nat

inductive WritePhase
  | waiting
  /-- The block is locked and read, as the write covers only part of it. -/
  | reading (call : ReadCall)
  | spliced (data : Bytes)
  | reserved (data : Bytes) (seqNum : Nat)
  | appended (blk : Block)

/-- A `WriteAt` on its way, with the blocks it still has to write. -/
structure WriteCall where
  todo : List Patch
  phase : WritePhase
  /-- Number of blocks published so far. -/
  published : Nat

/-- The lock of a block. -/
def blockRMWLock (block : Nat) : Nat := block % numShards

/-- The lock the call holds. -/
def WriteCall.holds (w : WriteCall) : Option Nat :=
  match w.phase, w.todo with
  | .waiting, _ => none
  | _, [] => none
  | _, p :: _ => some (blockRMWLock p.block)

/-- A `Flush`; it holds the write buffer. -/
structure FlushCall where
  /-- It is the flush of the drain. -/
  draining : Bool
  flushed : List Block
  rest : List Block
  /-- The last of the flushed blocks is not marked as pending yet. -/
  marking : Bool
  failed : Bool

inductive DrainPhase
  | started
  | flushing
  | flushed
  | uploading (batch : Nat)
  | uploaded
  | saving (records : List BlockLookup)

/-- A `DrainToBackend`. -/
structure DrainCall where
  phase : DrainPhase
  /-- No `WriteAt` was in progress since the call began. -/
  quiet : Bool

inductive UploadPhase
  | queued
  | allocated (chunkIndex : Nat)
  | stored (chunkIndex : Nat)
  | evicted (chunkIndex : Nat)
deriving DecidableEq, Repr

/-- The upload of a chunk, for one run of `WriteWALToChunk`. -/
structure Upload where
  batch : Nat
  blocks : List Block
  phase : UploadPhase

/-- Progress of `MarkPersistedRange`. -/
inductive Marking
  | predicting (objectOffset : Nat) (todo eligible : List RangeItem)
  | dropping (todo : List RangeItem)

/-- The locked section of `createChunkFile`. -/
structure MapInsert where
  batch : Nat
  chunkIndex : Nat
  runs : List (Nat × List Block)
  marking : Option Marking

end Calls

/-- A write to a block that was published, and its number. -/
structure Publish extends Patch where
  seqNum : Nat
deriving DecidableEq, Repr

structure State where
  volume : Volume
  writes : List Block
  pendingBackendWrites : List Block
  pendingBytes : Int
  backendFull : Bool
  wal : Segment
  flush : Option FlushCall
  drain : Option DrainCall
  /-- The running consolidations, and whether a chunk of them has failed. -/
  batches : AList fun _ : Nat => Bool
  uploads : List Upload
  mapInsert : Option MapInsert
  writers : AList fun _ : Nat => WriteCall
  readers : AList fun _ : Nat => ReadCall
  /-- What was published so far, in this order. -/
  published : List Publish

/-- The engine of a volume that was just opened. -/
def State.opened (v : Volume) (wal : Segment) : State where
  volume := v
  writes := []
  pendingBackendWrites := []
  pendingBytes := 0
  backendFull := false
  wal := { wal with records := [] }
  flush := none
  drain := none
  batches := ∅
  uploads := []
  mapInsert := none
  writers := ∅
  readers := ∅
  published := []

namespace State

def store (s : State) : UnifiedBlockStore := s.volume.vb.blockStore

def setStore (s : State) (store : UnifiedBlockStore) : State :=
  { s with volume := { s.volume with vb := { s.volume.vb with blockStore := store } } }

def setWriter (s : State) (id : Nat) (w : WriteCall) : State :=
  { s with writers := s.writers.insert id w }

end State

inductive Act
  | beginWrite (id offset : Nat) (data : Bytes) (nearFull : Bool)
  | lock (id : Nat)
  /-- The read of a partial write goes on; the backend may fail. -/
  | rmw (id : Nat) (ok : Bool)
  | splice (id : Nat)
  | reserve (id : Nat) (disk backend : Outcome)
  | append (id : Nat)
  | publish (id : Nat)
  | endWrite (id : Nat)
  | beginRead (id offset length : Nat)
  | read (id : Nat) (ok : Bool)
  | endRead (id : Nat)
  | beginFlush (draining : Bool)
  | appendWAL (ok : Bool)
  | markPending
  | endFlush
  | beginDrain
  /-- Close the segment; `opened` if the next one and the closed one can be opened. -/
  | rotate (batch : Nat) (draining opened : Bool) (next : Segment)
  | allocate (i : Nat)
  | put (i : Nat) (out : Outcome)
  /-- A chunk that is not submitted, as an earlier one has failed. -/
  | skip (i : Nat)
  | evict (i : Nat)
  | lockMap (i : Nat)
  | insertRun
  /-- The next locked section of `MarkPersistedRange`. -/
  | mark
  | unlockMap
  | endBatch (batch : Nat) (noSpace : Bool)
  | serialiseLive
  | putLive (out : Outcome) (noSpace : Bool)
  | saveState (disk backend : Outcome)

section Reads

variable (env : Env)

/-- What the entry of a block in the store says about its place. -/
def foundEntry (block : Nat) (entry : BlockEntry) : Found :=
  match entry.state with
  | .hot | .pending | .cached => .memory entry.data
  | .persisted => .own ⟨entry.objectID, entry.objectOffset, entry.seqNum⟩
  | .empty => findLayer env.layers block

/-- The requests for the blocks that are not in memory, own chunks first. -/
def fetches (found : List (Nat × Nat × Found)) : List Fetch :=
  (coalesceBlocks (Config.ownWanted found)).map (⟨none, ·⟩) ++
    env.layers.zipIdx.flatMap fun layer =>
      (coalesceBlocks (Config.layerWanted found layer.2)).map (⟨some layer.1, ·⟩)

def Fetch.run (chunks : AList fun _ : Nat => Bytes) (f : Fetch) :
    Except ReadError Bytes :=
  match f.layer with
  | none => env.cfg.fetchRun (fun id => readFile (chunks.lookup id)) f.cb
  | some layer =>
    if layer.source.name = "" then .error .emptySourceVolume
    else (env.cfg.under layer.source).fetchRun (env.source layer.source.name) f.cb

namespace ReadCall

/-- The call for the given blocks, when `began` writes were published. -/
def start (firstBlock count began : Nat) : ReadCall :=
  ⟨firstBlock, count, [], .looking, began⟩

/-- The block that is looked up next. -/
def next (r : ReadCall) : Nat := r.firstBlock + r.found.length

def record (r : ReadCall) (found : Found) : ReadCall :=
  { r with found := r.found ++ [(r.found.length, r.next, found)], phase := .looking }

/-- The buffer once nothing is left to fetch. -/
def result (r : ReadCall) : Option Bytes :=
  match r.phase with
  | .fetching data [] => some data
  | _ => none

/-- The next locked section or request of the call, unless it is complete. -/
def advance (store : UnifiedBlockStore) (chunks : AList fun _ : Nat => Bytes) (ok : Bool)
    (r : ReadCall) : Option (Except ReadError (ReadCall × UnifiedBlockStore)) :=
  match r.phase with
  | .looking =>
    if r.found.length < r.count then
      match store.entries.lookup r.next with
      | some entry => some (.ok (r.record (foundEntry env r.next entry), store))
      | none => some (.ok ({ r with phase := .missed }, store))
    else
      let data := (r.found.map fun item => env.cfg.memoryData item.2.2).flatten
      some (.ok ({ r with phase := .fetching data (fetches env r.found) }, store))
  | .missed =>
    match store.readPersisted r.next with
    | some entry => some (.ok (r.record (foundEntry env r.next entry), store))
    | none => some (.ok (r.record (findLayer env.layers r.next), store))
  | .fetching _ [] => none
  | .fetching data (f :: rest) =>
    if ok then
      match f.run env chunks with
      | .error err => some (.error err)
      | .ok plain =>
        let data := overwrite data (f.cb.blockPosition * env.cfg.blockSize) plain
        some (.ok ({ r with phase := .fetching data rest }, env.cfg.cacheRun f.cb data store))
    else some (.error .backend)

end ReadCall

end Reads

section Steps

variable (env : Env)

namespace State

variable (s : State)

/-- The checks of `WriteAt`. -/
def admits (offset : Nat) (data : Bytes) (nearFull : Bool) : Bool :=
  !(s.backendFull || nearFull) && decide (offset + data.length ≤ env.volumeSize) &&
    !data.isEmpty

def beginWrite (id offset : Nat) (data : Bytes) (nearFull : Bool) : Option State :=
  if (s.writers.lookup id).isNone && s.admits env offset data nearFull then
    some
      { s.setWriter id ⟨patches env.cfg.blockSize offset data, .waiting, 0⟩ with
        drain := s.drain.map fun d => { d with quiet := false } }
  else none

/-- No call holds the lock. -/
def lockFree (lock : Nat) : Bool :=
  s.writers.entries.all fun entry => entry.2.holds != some lock

section

variable (id : Nat)

def lock : Option State :=
  match s.writers.lookup id with
  | some ⟨p :: todo, .waiting, published⟩ =>
    if s.lockFree (blockRMWLock p.block) then
      if p.isPartial env.cfg.blockSize then
        if (p.block + 1) * env.cfg.blockSize ≤ env.volumeSize then
          some (s.setWriter id
            ⟨p :: todo, .reading (.start p.block 1 s.published.length), published⟩)
        -- the block is not wholly inside the volume and cannot be read
        else some { s with writers := s.writers.erase id }
      else
        let zeros : Bytes := List.replicate env.cfg.blockSize 0
        some (s.setWriter id ⟨p :: todo, .spliced (p.apply zeros), published⟩)
    else none
  | _ => none

def rmw (ok : Bool) : Option State :=
  match s.writers.lookup id with
  | some ⟨p :: todo, .reading call, published⟩ =>
    match call.advance env s.store s.volume.backend.chunks ok with
    | none => none
    | some (.error _) => some { s with writers := s.writers.erase id }
    | some (.ok (call, store)) =>
      some ((s.setStore store).setWriter id ⟨p :: todo, .reading call, published⟩)
  | _ => none

def splice : Option State :=
  match s.writers.lookup id with
  | some ⟨p :: todo, .reading call, published⟩ =>
    match call.result with
    | none => none
    | some existing =>
      let zeros : Bytes := List.replicate env.cfg.blockSize 0
      let blockData := (existing ++ zeros).take env.cfg.blockSize
      some (s.setWriter id ⟨p :: todo, .spliced (p.apply blockData), published⟩)
  | _ => none

def reserve (disk backend : Outcome) : Option State :=
  match s.writers.lookup id with
  | some ⟨p :: todo, .spliced data, published⟩ =>
    if s.volume.vb.seqNum + 1 < 2 ^ 64 then
      match s.volume.reserveSeqNum env.cfg disk backend with
      | (v, none) => some { s with volume := v, writers := s.writers.erase id }
      | (v, some seqNum) =>
        some ({ s with volume := v }.setWriter id
          ⟨p :: todo, .reserved data seqNum, published⟩)
    else none
  | _ => none

def append : Option State :=
  match s.writers.lookup id, s.flush with
  | some ⟨p :: todo, .reserved data seqNum, published⟩, none =>
    let blk := ⟨data, seqNum, p.block, env.cfg.blockSize⟩
    some ({ s with writes := s.writes ++ [blk] }.setWriter id
      ⟨p :: todo, .appended blk, published⟩)
  | _, _ => none

def publish : Option State :=
  match s.writers.lookup id with
  | some ⟨p :: todo, .appended blk, published⟩ =>
    let store := s.store.writeWithSeqNum blk.block blk.data blk.seqNum
    some
      { (s.setStore store).setWriter id ⟨todo, .waiting, published + 1⟩ with
        published := s.published ++ [⟨p, blk.seqNum⟩] }
  | _ => none

/-- The blocks are written; what follows is waiting for the backend to catch up. -/
def endWrite : Option State :=
  match s.writers.lookup id with
  | some ⟨[], .waiting, published⟩ =>
    some
      { s with
        pendingBytes := s.pendingBytes + published * env.cfg.blockSize
        writers := s.writers.erase id }
  | _ => none

def beginRead (id offset length : Nat) : Option State :=
  if (s.readers.lookup id).isNone && decide (offset ≤ env.volumeSize) &&
      decide ((offset + length) % 2 ^ 64 ≤ env.volumeSize) then
    let (firstBlock, blockLen) := env.cfg.requestBlocks offset length
    let call := .start firstBlock (blockLen / env.cfg.blockSize) s.published.length
    some { s with readers := s.readers.insert id call }
  else none

def read (ok : Bool) : Option State :=
  match s.readers.lookup id with
  | some call =>
    match call.advance env s.store s.volume.backend.chunks ok with
    | none => none
    | some (.error _) => some { s with readers := s.readers.erase id }
    | some (.ok (call, store)) =>
      some { s.setStore store with readers := s.readers.insert id call }
  | none => none

def endRead : Option State :=
  match s.readers.lookup id with
  | some call =>
    if call.result.isSome then some { s with readers := s.readers.erase id } else none
  | none => none

end

def beginFlush (draining : Bool) : Option State :=
  match s.flush with
  | some _ => none
  | none =>
    let flushing := { s with flush := some ⟨draining, [], s.writes, false, false⟩ }
    if draining then
      match s.drain with
      | some ⟨.started, quiet⟩ =>
        some { flushing with drain := some ⟨.flushing, quiet⟩ }
      | _ => none
    else some flushing

/-- A record that cannot be appended is taken back and ends the flush. -/
def appendWAL (ok : Bool) : Option State :=
  match s.flush with
  | some ⟨draining, flushed, b :: rest, false, false⟩ =>
    if ok then
      some
        { s with
          flush := some ⟨draining, flushed ++ [b], rest, true, false⟩
          wal := { s.wal with records := s.wal.records ++ [b] } }
    else some { s with flush := some ⟨draining, flushed, b :: rest, false, true⟩ }
  | _ => none

def markPending : Option State :=
  match s.flush with
  | some ⟨draining, flushed, rest, true, failed⟩ =>
    match flushed.getLast? with
    | some b =>
      some { s.setStore (s.store.markPending b.block) with
        flush := some ⟨draining, flushed, rest, false, failed⟩ }
    | none => none
  | _ => none

/-- Blocks of which some version was flushed leave the buffer in all their versions. -/
def endFlush : Option State :=
  match s.flush with
  | some ⟨draining, flushed, rest, false, failed⟩ =>
    if rest.isEmpty || failed then
      let isFlushed := fun (b : Block) => flushed.any (·.block == b.block)
      some
        { s with
          writes := s.writes.filter fun b => !isFlushed b
          pendingBackendWrites :=
            s.pendingBackendWrites ++ s.writes.filter isFlushed
          flush := none
          drain :=
            if draining then
              if failed then none
              else s.drain.map fun d => { d with phase := .flushed }
            else s.drain }
    else none
  | _ => none

def beginDrain : Option State :=
  match s.drain with
  | some _ => none
  | none => some { s with drain := some ⟨.started, s.writers.entries.isEmpty⟩ }

/-- The chunks of a segment that was closed and can be read. -/
def segmentJobs (file : Bytes) : Option (List (List Block)) :=
  match env.cfg.readClosedSegment file with
  | .error _ => none
  | .ok blocks => some (chunkJobs env.cfg.objBlockSize blocks)

def rotate (batch : Nat) (draining opened : Bool) (next : Segment) : Option State :=
  let file := env.cfg.segment s.wal.timestamp s.wal.records
  let jobs := if opened then segmentJobs env file else none
  let files := s.volume.files
  let rotated :=
    { s with
      volume :=
        { s.volume with
          files := { files with walFiles := files.walFiles ++ [(s.wal.name, file)] } }
      wal := { next with records := [] }
      batches := s.batches.insert batch jobs.isNone
      uploads := s.uploads ++ (jobs.getD []).map fun job => ⟨batch, job, .queued⟩ }
  if (s.batches.lookup batch).isSome then none
  else if draining then
    match s.drain with
    | some ⟨.flushed, quiet⟩ =>
      some { rotated with drain := some ⟨.uploading batch, quiet⟩ }
    | _ => none
  else some rotated

def allocate (i : Nat) : Option State :=
  match s.uploads[i]? with
  | some ⟨batch, blocks, .queued⟩ =>
    let vb := s.volume.vb
    some
      { s with
        volume := { s.volume with vb := { vb with objectNum := vb.objectNum + 1 } }
        uploads := s.uploads.set i ⟨batch, blocks, .allocated vb.objectNum⟩ }
  | _ => none

def put (i : Nat) (out : Outcome) : Option State :=
  match s.uploads[i]? with
  | some ⟨batch, blocks, .allocated chunkIndex⟩ =>
    let backend := s.volume.backend
    let stored :=
      if out.lands then
        { backend with
          chunks := backend.chunks.insert chunkIndex (env.cfg.chunkFile blocks) }
      else backend
    let s' := { s with volume := { s.volume with backend := stored } }
    if out.isOk then
      some { s' with uploads := s.uploads.set i ⟨batch, blocks, .stored chunkIndex⟩ }
    else
      some
        { s' with
          uploads := s.uploads.eraseIdx i
          batches := s.batches.insert batch true }
  | _ => none

def skip (i : Nat) : Option State :=
  match s.uploads[i]? with
  | some ⟨batch, _, .queued⟩ =>
    if s.batches.lookup batch = some true then
      some { s with uploads := s.uploads.eraseIdx i }
    else none
  | _ => none

/-- The pending writes leave with all versions of the chunk's blocks. -/
def evict (i : Nat) : Option State :=
  match s.uploads[i]? with
  | some ⟨batch, blocks, .stored chunkIndex⟩ =>
    let matched := fun (b : Block) => blocks.any (·.block == b.block)
    let freed : Nat := ((s.pendingBackendWrites.filter matched).map (·.data.length)).sum
    some
      { s with
        pendingBackendWrites := s.pendingBackendWrites.filter fun b => !matched b
        pendingBytes := s.pendingBytes - freed
        uploads := s.uploads.set i ⟨batch, blocks, .evicted chunkIndex⟩ }
  | _ => none

def lockMap (i : Nat) : Option State :=
  match s.uploads[i]?, s.mapInsert with
  | some ⟨batch, blocks, .evicted chunkIndex⟩, none =>
    some
      { s with
        uploads := s.uploads.eraseIdx i
        mapInsert := some ⟨batch, chunkIndex, chunkRuns blocks, none⟩ }
  | _, _ => none

/-- The range `MarkPersistedRange` is called with for a run. -/
def runItems (first : Block) (rest : List Block) : List RangeItem :=
  rangeItems ((List.range (rest.length + 1)).map (first.block + ·))
    ((first :: rest).map Block.seqNum)

def insertRun : Option State :=
  match s.mapInsert with
  | some ⟨batch, chunkIndex, (runStart, blocks) :: runs, none⟩ =>
    let stride := env.cfg.blockStride
    let vb := s.volume.vb
    let published :=
      { s with
        volume :=
          { s.volume with
            vb :=
              { vb with
                blocksToObject :=
                  vb.blocksToObject.publishRun stride chunkIndex (runStart, blocks) } } }
    match blocks with
    | [] => some { published with mapInsert := some ⟨batch, chunkIndex, runs, none⟩ }
    | first :: rest =>
      let entry := newBlock stride chunkIndex runStart first rest
      let marking :=
        if staleDrain vb.blocksToObject.blockLookup entry then none
        else some (.predicting entry.objectOffset (runItems first rest) [])
      some { published with mapInsert := some ⟨batch, chunkIndex, runs, marking⟩ }
  | _ => none

/-- Pass 1 looks at one block at a time, pass 2 installs the extents, pass 3 drops
one entry at a time. -/
def mark : Option State :=
  match s.mapInsert with
  | some ⟨batch, chunkIndex, runs, some (.predicting offset (item :: todo) eligible)⟩ =>
    let eligible := if s.store.eligible item then eligible ++ [item] else eligible
    some { s with
      mapInsert := some ⟨batch, chunkIndex, runs, some (.predicting offset todo eligible)⟩ }
  | some ⟨batch, chunkIndex, runs, some (.predicting offset [] eligible)⟩ =>
    let extents := installRuns chunkIndex offset env.cfg.blockStride
      s.store.persistedExtents eligible
    some { s.setStore { s.store with persistedExtents := extents } with
      mapInsert := some ⟨batch, chunkIndex, runs, some (.dropping eligible)⟩ }
  | some ⟨batch, chunkIndex, runs, some (.dropping (item :: todo))⟩ =>
    some { s.setStore (s.store.dropPersisted item) with
      mapInsert := some ⟨batch, chunkIndex, runs, some (.dropping todo)⟩ }
  | some ⟨batch, chunkIndex, runs, some (.dropping [])⟩ =>
    some { s with mapInsert := some ⟨batch, chunkIndex, runs, none⟩ }
  | _ => none

def unlockMap : Option State :=
  match s.mapInsert with
  | some ⟨_, _, [], none⟩ =>
    some
      { s with
        volume := { s.volume with vb := { s.volume.vb with dirty := true } }
        mapInsert := none }
  | _ => none

/-- Nothing of the consolidation is left to do. -/
def batchDone (batch : Nat) : Bool :=
  s.uploads.all (·.batch != batch) && s.mapInsert.all (·.batch != batch)

/-- A drain that fails for want of space closes the volume to writes. -/
def failDrain (noSpace : Bool) : State :=
  { s with drain := none, backendFull := s.backendFull || noSpace }

def returnDrain : State :=
  { s with drain := none, backendFull := false }

def endBatch (batch : Nat) (noSpace : Bool) : Option State :=
  match s.batches.lookup batch with
  | none => none
  | some failed =>
    if s.batchDone batch then
      let ended := { s with batches := s.batches.erase batch }
      match s.drain with
      | some ⟨.uploading b, quiet⟩ =>
        if b = batch then
          if failed then some (ended.failDrain noSpace)
          else some { ended with drain := some ⟨.uploaded, quiet⟩ }
        else some ended
      | _ => some ended
    else none

def serialiseLive : Option State :=
  match s.drain with
  | some ⟨.uploaded, quiet⟩ =>
    if s.volume.vb.dirty then
      if s.mapInsert.isNone then
        some { s with drain := some ⟨.saving (s.volume.checkpoint env.cfg), quiet⟩ }
      else none
    else some s.returnDrain
  | _ => none

def putLive (out : Outcome) (noSpace : Bool) : Option State :=
  match s.drain with
  | some ⟨.saving records, _⟩ =>
    let v := s.volume
    let saved :=
      { s with
        volume :=
          { v with
            vb := { v.vb with dirty := v.vb.dirty && !out.isOk }
            backend :=
              if out.lands then { v.backend with live := some records }
              else v.backend } }
    some (if out.isOk then saved.returnDrain else saved.failDrain noSpace)
  | _ => none

def saveState (disk backend : Outcome) : State :=
  { s with volume := (s.volume.saveState env.cfg disk backend).1 }

end State

def step (s : State) : Act → Option State
  | .beginWrite id offset data nearFull => s.beginWrite env id offset data nearFull
  | .lock id => s.lock env id
  | .rmw id ok => s.rmw env id ok
  | .splice id => s.splice env id
  | .reserve id disk backend => s.reserve env id disk backend
  | .append id => s.append env id
  | .publish id => s.publish id
  | .endWrite id => s.endWrite env id
  | .beginRead id offset length => s.beginRead env id offset length
  | .read id ok => s.read env id ok
  | .endRead id => s.endRead id
  | .beginFlush draining => s.beginFlush draining
  | .appendWAL ok => s.appendWAL ok
  | .markPending => s.markPending
  | .endFlush => s.endFlush
  | .beginDrain => s.beginDrain
  | .rotate batch draining opened next => s.rotate env batch draining opened next
  | .allocate i => s.allocate i
  | .put i out => s.put env i out
  | .skip i => s.skip i
  | .evict i => s.evict i
  | .lockMap i => s.lockMap i
  | .insertRun => s.insertRun env
  | .mark => s.mark env
  | .unlockMap => s.unlockMap
  | .endBatch batch noSpace => s.endBatch batch noSpace
  | .serialiseLive => s.serialiseLive env
  | .putLive out noSpace => s.putLive out noSpace
  | .saveState disk backend => some (s.saveState env disk backend)

end Steps

end Engine

end Viperblock
