import Viperblock.BlockStore
import Viperblock.Checkpoint
import Viperblock.Consolidate
import Viperblock.SeqNumSystem

/-!
# A volume on one node: memory, local files and backend

What the engine keeps in memory besides the write buffers, what it keeps on the
local disk and what it keeps on the backend, with the functions that move state
between the three: saving and loading `config.json`, the numbered and the live
checkpoint, and storing a chunk object.

Every write to the disk or the backend has an outcome that is a parameter.  The
parameters of the volume, which `config.json` holds as well, do not change
during its life and are the `Config` of the development.
-/

namespace Viperblock

open BlockMap BlocksToObject
open SeqNumSystem (seqNumReservation raiseWindows)

/-- What became of a write to the local disk or the backend. -/
inductive Outcome
  | ok
  /-- An error, and nothing was written. -/
  | failed
  /-- An error, although the write took effect. -/
  | landed
deriving DecidableEq, Repr

namespace Outcome

/-- The caller sees no error. -/
def isOk : Outcome → Bool
  | .ok => true
  | _ => false

/-- The write took effect. -/
def lands : Outcome → Bool
  | .failed => false
  | _ => true

end Outcome

/-- The counters of `config.json`. -/
structure VBState where
  seqNum : Nat
  objectNum : Nat
  blockToObjectWALNum : Nat
  /-- The UUID is minted. -/
  volumeUUID : Bool
  seqNumHighWater : Nat
  stateSeqNum : Nat
deriving DecidableEq, Repr

structure Backend where
  config : Option VBState
  chunks : AList fun _ : Nat => Bytes
  live : Option (List BlockLookup)
  numbered : AList fun _ : Nat => List BlockLookup

structure LocalFiles where
  config : Option VBState
  numbered : AList fun _ : Nat => List BlockLookup
  /-- The files of `wal/chunks` by name. -/
  walFiles : List (String × Bytes)

structure VB where
  seqNum : Nat
  objectNum : Nat
  blockToObjectWALNum : Nat
  volumeUUID : Bool
  seqNumHighWater : Nat
  nextStateSeqNum : Nat
  blocksToObject : BlocksToObject
  /-- The block map has changed since the live checkpoint was saved. -/
  dirty : Bool
  blockStore : UnifiedBlockStore

/-- A volume that is open on a node. -/
structure Volume where
  vb : VB
  files : LocalFiles
  backend : Backend

/-- The memory of a volume nothing was loaded into, with or without GC. -/
def VB.new (gcEnabled : Bool) : VB where
  seqNum := 0
  objectNum := 0
  blockToObjectWALNum := 0
  volumeUUID := false
  seqNumHighWater := 0
  nextStateSeqNum := 0
  blocksToObject := ⟨∅, if gcEnabled then some ∅ else none⟩
  dirty := false
  blockStore := UnifiedBlockStore.new

namespace VB

theorem sound_new (gcEnabled : Bool) : (VB.new gcEnabled).blocksToObject.Sound := by
  refine ⟨ExtentMap.wellFormed_empty, ?_⟩
  intro rc hrc id
  cases gcEnabled with
  | false => simp [VB.new] at hrc
  | true =>
    obtain rfl : ∅ = rc := Option.some.inj hrc
    rfl

theorem lookup_new (stride : Nat) (gcEnabled : Bool) (block : Nat) :
    lookupBlockToObject stride (VB.new gcEnabled).blocksToObject.blockLookup block = none := by
  simp [lookupBlockToObject, resolveBlockLookup, VB.new]

end VB

section Copies

variable {σ : Type} (number : σ → Nat)

/-- Of the local copy and the one on the backend the newer, the local one if they have the
same number. -/
def newerCopy : Option σ → Option σ → Option σ
  | none, backend => backend
  | some loc, none => some loc
  | some loc, some backend => if number loc < number backend then some backend else some loc

variable {number}

theorem newerCopy_eq_some {loc backend : Option σ} {c : σ}
    (hc : newerCopy number loc backend = some c) :
    (loc = some c ∨ backend = some c) ∧ (∀ c', loc = some c' → number c' ≤ number c) ∧
      ∀ c', backend = some c' → number c' ≤ number c := by
  cases loc with
  | none =>
    simp only [newerCopy] at hc
    simp [hc]
  | some l =>
    cases backend with
    | none =>
      simp only [newerCopy, Option.some.injEq] at hc
      simp [hc]
    | some b =>
      simp only [newerCopy] at hc
      split at hc <;>
      · cases hc
        simp
        omega

end Copies

namespace Volume

variable (cfg : Config)

section Save

section

variable (v : Volume)

/-- The state as the next save writes it. -/
def stateToSave (highWater : Nat) : VBState where
  seqNum := v.vb.seqNum
  objectNum := v.vb.objectNum
  blockToObjectWALNum := v.vb.blockToObjectWALNum
  volumeUUID := v.vb.volumeUUID
  seqNumHighWater := highWater
  stateSeqNum := v.vb.nextStateSeqNum + 1

def persistStateLocal (highWater : Nat) (out : Outcome) : Volume :=
  let state := v.stateToSave highWater
  { v with
    vb := { v.vb with nextStateSeqNum := state.stateSeqNum }
    files :=
      if out.lands then { v.files with config := some state } else v.files }

/-- Push what was saved locally. -/
def pushStateToBackend (out : Outcome) : Volume :=
  { v with
    backend :=
      if out.lands then { v.backend with config := v.files.config } else v.backend }

def mintVolumeUUID : Volume :=
  { v with vb := { v.vb with volumeUUID := true } }

/-- Before it saves, `SaveState` mints a missing UUID and then resets the mark. -/
def mintForSave : Volume :=
  if cfg.sealing.isSome ∧ v.vb.volumeUUID = false then
    let minted := v.mintVolumeUUID
    { minted with vb := { minted.vb with seqNumHighWater := seqNumReservation } }
  else v

def saveState (disk backend : Outcome) : Volume × Bool :=
  let minted := v.mintForSave cfg
  let saved := minted.persistStateLocal minted.vb.seqNumHighWater disk
  if disk.isOk then (saved.pushStateToBackend backend, backend.isOk)
  else (saved, false)

/-- What a checkpoint of the block map holds. -/
def checkpoint : List BlockLookup :=
  checkpointRecords cfg.blockStride v.vb.blocksToObject.blockLookup

def saveBlockState (disk backend : Outcome) : Volume × Bool :=
  let num := v.vb.blockToObjectWALNum
  let records := v.checkpoint cfg
  let files :=
    if disk.lands then { v.files with numbered := v.files.numbered.insert num records }
    else v.files
  if disk.isOk then
    let pushed :=
      if backend.lands then
        { v.backend with numbered := v.backend.numbered.insert num records }
      else v.backend
    if backend.isOk then
      ({ v with
          vb := { v.vb with blockToObjectWALNum := num + 1 }
          files := files
          backend := pushed }, true)
    else ({ v with files := files, backend := pushed }, false)
  else ({ v with files := files }, false)

/-- The outcome is that of the last of up to three attempts. -/
def saveLiveCheckpoint (out : Outcome) : Volume × Bool :=
  if v.vb.dirty then
    ({ v with
        vb := { v.vb with dirty := !out.isOk }
        backend :=
          if out.lands then { v.backend with live := some (v.checkpoint cfg) }
          else v.backend }, out.isOk)
  else (v, true)

end

/-- The blocks are where they were: only counters and checkpoints may differ. -/
structure SameBlocks (v v' : Volume) : Prop where
  objectNum : v'.vb.objectNum = v.vb.objectNum
  blocksToObject : v'.vb.blocksToObject = v.vb.blocksToObject
  blockStore : v'.vb.blockStore = v.vb.blockStore
  dirty : v'.vb.dirty = v.vb.dirty
  chunks : v'.backend.chunks = v.backend.chunks
  live : v'.backend.live = v.backend.live
  walFiles : v'.files.walFiles = v.files.walFiles

theorem saveState_spec (v : Volume) (disk backend : Outcome) :
    SameBlocks v (v.saveState cfg disk backend).1 ∧
      (v.saveState cfg disk backend).2 = (disk.isOk && backend.isOk) := by
  unfold saveState mintForSave persistStateLocal pushStateToBackend
  cases disk <;> cases backend <;> split <;>
    exact ⟨⟨rfl, rfl, rfl, rfl, rfl, rfl, rfl⟩, rfl⟩

theorem saveBlockState_spec (v : Volume) (disk backend : Outcome) :
    SameBlocks v (v.saveBlockState cfg disk backend).1 ∧
      (v.saveBlockState cfg disk backend).2 = (disk.isOk && backend.isOk) := by
  cases disk <;> cases backend <;>
    exact ⟨⟨rfl, rfl, rfl, rfl, rfl, rfl, rfl⟩, rfl⟩

end Save

section SeqNum

/-- Persist a mark and, once it is on the disk, use it and push it. -/
def raiseHighWater (v : Volume) (highWater : Nat) (disk backend : Outcome) :
    Volume × Bool :=
  let persisted := v.persistStateLocal highWater disk
  if disk.isOk then
    let raised :=
      { persisted with vb := { persisted.vb with seqNumHighWater := highWater } }
    -- a failed push is only logged
    (raised.pushStateToBackend backend, true)
  else (persisted, false)

def addSeqNum (v : Volume) : Volume :=
  { v with vb := { v.vb with seqNum := v.vb.seqNum + 1 } }

/-- Reserve the next number; the counter advances even if that fails. -/
def reserveSeqNum (v : Volume) (disk backend : Outcome) : Volume × Option Nat :=
  let added := v.addSeqNum
  let seqNum := added.vb.seqNum
  if cfg.sealing.isNone then (added, some seqNum)
  else if maxSeqNum < seqNum then (added, none)
  else if seqNum ≤ v.vb.seqNumHighWater then (added, some seqNum)
  else
    match added.mintVolumeUUID.raiseHighWater
        (raiseWindows v.vb.seqNumHighWater seqNum) disk backend with
    | (raised, true) => (raised, some seqNum)
    | (raised, false) => (raised, none)

def bumpSeqNumHighWater (v : Volume) (disk backend : Outcome) : Volume × Bool :=
  v.raiseHighWater (v.vb.seqNumHighWater + seqNumReservation) disk backend

theorem raiseHighWater_sameBlocks (v : Volume) (highWater : Nat) (disk backend : Outcome) :
    SameBlocks v (v.raiseHighWater highWater disk backend).1 := by
  cases disk <;> cases backend <;> exact ⟨rfl, rfl, rfl, rfl, rfl, rfl, rfl⟩

theorem reserveSeqNum_sameBlocks (v : Volume) (disk backend : Outcome) :
    SameBlocks v (v.reserveSeqNum cfg disk backend).1 := by
  have hadded : SameBlocks v v.addSeqNum :=
    ⟨rfl, rfl, rfl, rfl, rfl, rfl, rfl⟩
  have hraised := raiseHighWater_sameBlocks v.addSeqNum.mintVolumeUUID
    (raiseWindows v.vb.seqNumHighWater v.addSeqNum.vb.seqNum) disk backend
  unfold reserveSeqNum
  dsimp only
  split
  · exact hadded
  split
  · exact hadded
  split
  · exact hadded
  split <;>
  · rename_i hraise
    rw [hraise] at hraised
    exact { hraised with }

theorem reserveSeqNum_seqNum {cfg : Config} {v v' : Volume} {disk backend : Outcome}
    {res : Option Nat} (hreserve : v.reserveSeqNum cfg disk backend = (v', res)) :
    v'.vb.seqNum = v.vb.seqNum + 1 ∧ ∀ seqNum, res = some seqNum → seqNum = v'.vb.seqNum := by
  have hraised : (v.addSeqNum.mintVolumeUUID.raiseHighWater
      (raiseWindows v.vb.seqNumHighWater v.addSeqNum.vb.seqNum) disk backend).1.vb.seqNum =
        v.vb.seqNum + 1 := by
    cases disk <;> rfl
  unfold reserveSeqNum at hreserve
  dsimp only at hreserve
  split at hreserve
  · cases hreserve
    exact ⟨rfl, fun _ h => (Option.some.inj h).symm⟩
  split at hreserve
  · cases hreserve
    exact ⟨rfl, by simp⟩
  split at hreserve
  · cases hreserve
    exact ⟨rfl, fun _ h => (Option.some.inj h).symm⟩
  split at hreserve <;>
  · rename_i hraise
    rw [hraise] at hraised
    cases hreserve
    refine ⟨hraised, ?_⟩
    first
      | exact fun _ h => (Option.some.inj h).symm.trans hraised.symm
      | simp

end SeqNum

section Load

/-- The copy of `config.json` an open goes by. -/
def selectState : Option VBState → Option VBState → Option VBState :=
  newerCopy VBState.stateSeqNum

/-- Take over the counters of the selected copy. -/
def installState (v : Volume) (state : VBState) : Volume :=
  { v with
    vb :=
      { v.vb with
        seqNum := state.seqNum
        objectNum := state.objectNum
        blockToObjectWALNum := state.blockToObjectWALNum
        nextStateSeqNum := state.stateSeqNum } }

/-- On an encrypted volume the counter restarts at the persisted mark. -/
def restartSeqNum (v : Volume) (state : VBState) : Volume :=
  { v with
    vb :=
      { v.vb with
        volumeUUID := state.volumeUUID
        seqNum := state.seqNumHighWater
        seqNumHighWater := state.seqNumHighWater } }

/-- `LoadState`; without the backend's copy it goes by the local one. -/
def loadState (readable : Bool) (v : Volume) (disk backend : Outcome) : Volume × Bool :=
  match selectState v.files.config (if readable then v.backend.config else none) with
  | none => (v, false)
  | some state =>
    let loaded := v.installState state
    if cfg.sealing.isNone then (loaded, true)
    else (loaded.restartSeqNum state).bumpSeqNumHighWater disk backend

/-- Install the records of a checkpoint in memory. -/
def parseCheckpoint (v : Volume) (records : List BlockLookup) : Volume :=
  let blocksToObject :=
    parseBlockCheckpoint v.vb.blocksToObject.gcRefcount.isSome cfg.blockStride records
  { v with
    vb :=
      { v.vb with
        blocksToObject := blocksToObject
        blockStore :=
          v.vb.blockStore.installMap cfg.blockStride blocksToObject.blockLookup
        objectNum := raiseObjectNum v.vb.objectNum records } }

/-- The local copy of the numbered checkpoint wins; without any the map stays. -/
def loadBlockState (v : Volume) : Volume :=
  match v.files.numbered.lookup v.vb.blockToObjectWALNum with
  | some records => v.parseCheckpoint cfg records
  | none =>
    match v.backend.numbered.lookup v.vb.blockToObjectWALNum with
    | some records => v.parseCheckpoint cfg records
    | none => v

def loadLiveCheckpoint (v : Volume) : Volume :=
  match v.backend.live with
  | some records => v.parseCheckpoint cfg records
  | none => v.loadBlockState cfg

end Load

section Chunk

/-- Enter a run of an uploaded chunk into the map and the block store. -/
def publishRun (stride chunkIndex : Nat) (vb : VB) (run : Nat × List Block) : VB :=
  match run with
  | (_, []) => vb
  | (runStart, first :: rest) =>
    let entry := newBlock stride chunkIndex runStart first rest
    let published :=
      { vb with
        blocksToObject := vb.blocksToObject.publishRun stride chunkIndex run }
    if staleDrain vb.blocksToObject.blockLookup entry then published
    else
      { published with
        blockStore :=
          vb.blockStore.markPersistedRange
            ((List.range (rest.length + 1)).map (first.block + ·))
            chunkIndex entry.objectOffset stride entry.seqNums }

/-- Store a chunk object and, unless that failed, publish its blocks. -/
def createChunkFile (v : Volume) (matchedBlocks : List Block) (out : Outcome) :
    Volume × Bool :=
  let chunkIndex := v.vb.objectNum
  let vb := { v.vb with objectNum := chunkIndex + 1 }
  let backend :=
    if out.lands then
      { v.backend with
        chunks := v.backend.chunks.insert chunkIndex (cfg.chunkFile matchedBlocks) }
    else v.backend
  if out.isOk then
    let published :=
      (chunkRuns matchedBlocks).foldl (publishRun cfg.blockStride chunkIndex) vb
    ({ v with vb := { published with dirty := true }, backend := backend }, true)
  else ({ v with vb := vb, backend := backend }, false)

variable {cfg}

theorem foldl_publishRun (stride chunkIndex : Nat) (runs : List (Nat × List Block)) (vb : VB) :
    runs.foldl (publishRun stride chunkIndex) vb =
      { vb with
        blocksToObject :=
          runs.foldl (BlocksToObject.publishRun stride chunkIndex) vb.blocksToObject
        blockStore := (runs.foldl (publishRun stride chunkIndex) vb).blockStore } := by
  have hrun : ∀ vb run, publishRun stride chunkIndex vb run =
      { vb with
        blocksToObject := vb.blocksToObject.publishRun stride chunkIndex run
        blockStore := (publishRun stride chunkIndex vb run).blockStore } := by
    rintro vb ⟨runStart, blocks⟩
    cases blocks with
    | nil => rfl
    | cons first rest =>
      simp only [publishRun]
      split <;> rfl
  induction runs generalizing vb with
  | nil => rfl
  | cons run runs ih => rw [List.foldl_cons, List.foldl_cons, ih, hrun]

/-- A chunk takes a number; its runs are published if it was stored. -/
theorem createChunkFile_map (v : Volume) (matchedBlocks : List Block) (out : Outcome) :
    (v.createChunkFile cfg matchedBlocks out).1.vb.objectNum = v.vb.objectNum + 1 ∧
      (v.createChunkFile cfg matchedBlocks out).1.vb.blocksToObject = if out.isOk then
          v.vb.blocksToObject.publishChunk cfg.blockStride v.vb.objectNum matchedBlocks
        else v.vb.blocksToObject := by
  have hfold := foldl_publishRun cfg.blockStride v.vb.objectNum (chunkRuns matchedBlocks)
    { v.vb with objectNum := v.vb.objectNum + 1 }
  unfold createChunkFile
  cases out with
  | ok =>
    simp only [Outcome.isOk, if_true]
    rw [hfold]
    exact ⟨rfl, rfl⟩
  | failed | landed =>
    exact ⟨rfl, rfl⟩

theorem publishRun_of_entries_empty {vb : VB} (hempty : vb.blockStore.entries = ∅)
    (stride chunkIndex : Nat) (run : Nat × List Block) :
    publishRun stride chunkIndex vb run =
      { vb with
        blocksToObject := vb.blocksToObject.publishRun stride chunkIndex run } := by
  obtain ⟨runStart, blocks⟩ := run
  cases blocks with
  | nil => rfl
  | cons first rest =>
    simp only [publishRun]
    split
    · rfl
    · rw [UnifiedBlockStore.markPersistedRange_of_entries_empty hempty]

theorem foldl_publishRun_of_entries_empty (stride chunkIndex : Nat) (runs : List (Nat × List Block))
    (vb : VB) (hempty : vb.blockStore.entries = ∅) :
    runs.foldl (publishRun stride chunkIndex) vb =
      { vb with
        blocksToObject :=
          runs.foldl (BlocksToObject.publishRun stride chunkIndex) vb.blocksToObject } := by
  induction runs generalizing vb with
  | nil => rfl
  | cons run runs ih =>
    rw [List.foldl_cons, publishRun_of_entries_empty hempty]
    exact ih _ hempty

theorem createChunkFile_ok {v : Volume} (hempty : v.vb.blockStore.entries = ∅)
    (matchedBlocks : List Block) :
    v.createChunkFile cfg matchedBlocks .ok = ({ v with
          vb :=
            { v.vb with
              objectNum := v.vb.objectNum + 1
              blocksToObject :=
                publishChunk cfg.blockStride v.vb.objectNum v.vb.blocksToObject
                  matchedBlocks
              dirty := true }
          backend :=
            { v.backend with
              chunks := v.backend.chunks.insert v.vb.objectNum
                (cfg.chunkFile matchedBlocks) } }, true) := by
  have hfold := foldl_publishRun_of_entries_empty cfg.blockStride v.vb.objectNum
    (chunkRuns matchedBlocks) { v.vb with objectNum := v.vb.objectNum + 1 } hempty
  unfold createChunkFile
  simp only [Outcome.isOk, Outcome.lands, if_true]
  rw [hfold]
  rfl

end Chunk

end Volume

end Viperblock
