import Viperblock.Flush
import Viperblock.ReadPath
import Viperblock.ReopenSystem

/-!
# An engine without a log

A volume that one engine serves is opened by a second one that never opens the
log: it loads the state and the block map to take a snapshot or to read.  The
second engine runs the same code, a drain at intervals included, and must leave
the volume's chunks and its live checkpoint alone.

A call sees the disk and the backend as the serving engine left them, so what it
reads is a parameter of the call.  What it asks the backend to write is recorded
by path; none of the calls deletes anything, which only the collector does.
-/

namespace Viperblock

open BlockMap
open ReopenSystem (Segment Upload uploadJobs validUploads)

/-- Kinds of objects on the backend; the type has other values, too. -/
inductive FileType
  | config
  | chunk
  | blockCheckpoint
  | walChunk
  | walBlock
  | sshAuthKey
  | walChunkShard
  | blockCheckpointLive
  | snapshotMarker
  | other (value : Int)
deriving DecidableEq, Repr

/-- A number with at least `width` digits. -/
def padded (width n : Nat) : List Char :=
  let digits := Nat.toDigits 10 n
  List.replicate (width - digits.length) '0' ++ digits

/-- A number with at least eight digits. -/
def paddedDigits (n : Nat) : List Char :=
  padded 8 n

def getFilePath (fileType : FileType) (objectId : Nat) (volumeName : String) : String :=
  match fileType with
  | .config => volumeName ++ "/config.json"
  | .chunk => volumeName ++ "/chunks/chunk." ++ String.ofList (paddedDigits objectId) ++ ".bin"
  | .blockCheckpoint =>
    volumeName ++ "/checkpoints/blocks." ++ String.ofList (paddedDigits objectId) ++ ".bin"
  | .walChunk => volumeName ++ "/wal/chunks/wal." ++ String.ofList (paddedDigits objectId) ++ ".bin"
  | .walBlock =>
    volumeName ++ "/wal/blocks/blocks." ++ String.ofList (paddedDigits objectId) ++ ".bin"
  | .walChunkShard =>
    let shardID := objectId % 256
    let walNum := objectId / 256
    volumeName ++ "/wal/chunks/wal." ++ String.ofList (paddedDigits walNum) ++ ".shard_" ++
      String.ofList (padded 2 shardID) ++ ".bin"
  | .blockCheckpointLive => volumeName ++ "/checkpoints/blocks.live.bin"
  | .snapshotMarker => volumeName ++ "/snapshots.marker"
  | .sshAuthKey | .other _ =>
    volumeName ++ "/unknown." ++ String.ofList (paddedDigits objectId) ++ ".bin"

section Paths

/-- What follows the last slash of a path. -/
def fileName (path : String) : List Char :=
  (path.toList.reverse.takeWhile (· ≠ '/')).reverse

theorem fileName_eq {path : String} {dir name : List Char}
    (hpath : path.toList = dir ++ '/' :: name) (hname : '/' ∉ name) :
    fileName path = name := by
  have hall : ∀ c ∈ name.reverse, decide (c ≠ '/') = true := by
    intro c hc
    rw [decide_eq_true_iff]
    rintro rfl
    exact hname (List.mem_reverse.mp hc)
  have hreverse : path.toList.reverse = name.reverse ++ '/' :: dir.reverse := by
    rw [hpath]
    simp
  rw [fileName, hreverse, List.takeWhile_append_of_pos hall]
  simp

theorem isDigit_of_mem_padded {width n : Nat} {c : Char} (hc : c ∈ padded width n) :
    c.isDigit = true := by
  rcases List.mem_append.mp hc with hzero | hdigit
  · rw [(List.mem_replicate.mp hzero).2]
    rfl
  · exact Nat.isDigit_of_mem_toDigits (by decide) (by decide) hdigit

theorem slash_not_mem {before digits after : List Char} (hdigits : ∀ c ∈ digits, c.isDigit = true)
    (hbefore : '/' ∉ before) (hafter : '/' ∉ after) :
    '/' ∉ before ++ (digits ++ after) := by
  rw [List.mem_append, List.mem_append]
  rintro (hmem | hmem | hmem)
  · exact hbefore hmem
  · cases hdigits _ hmem
  · exact hafter hmem

theorem fileName_chunk (id : Nat) (volume : String) :
    fileName (getFilePath .chunk id volume) =
      "chunk.".toList ++ (paddedDigits id ++ ".bin".toList) := by
  have hpath : (getFilePath .chunk id volume).toList = (volume.toList ++ "/chunks".toList) ++
        '/' :: ("chunk.".toList ++ (paddedDigits id ++ ".bin".toList)) := by
    simp [getFilePath]
  exact fileName_eq hpath (slash_not_mem (fun _ => isDigit_of_mem_padded) (by decide) (by decide))

theorem fileName_live (volume : String) :
    fileName (getFilePath .blockCheckpointLive 0 volume) = "blocks.live.bin".toList :=
  @fileName_eq _ (volume.toList ++ "/checkpoints".toList) _ (by simp [getFilePath])
    (by decide)

/-- The path is that of a chunk or of the live checkpoint of the volume. -/
def DataPath (volume path : String) : Prop :=
  path = getFilePath .blockCheckpointLive 0 volume ∨ ∃ id, path = getFilePath .chunk id volume

theorem not_dataPath {path : String} {c : Char} {name : List Char}
    (hname : fileName path = c :: name) (hchunk : c ≠ 'c' ∨ name.head? ≠ some 'h')
    (hlive : c :: name ≠ "blocks.live.bin".toList) (volume : String) :
    ¬ DataPath volume path := by
  rintro (rfl | ⟨id, rfl⟩)
  · rw [fileName_live] at hname
    exact hlive hname.symm
  · rw [fileName_chunk] at hname
    change 'c' :: 'h' :: _ = _ at hname
    obtain ⟨rfl, rfl⟩ := List.cons_eq_cons.mp hname
    simp at hchunk

/-- Whatever its name, a volume's state is no data of another volume. -/
theorem config_not_dataPath (name volume : String) :
    ¬ DataPath volume (getFilePath .config 0 name) :=
  not_dataPath (@fileName_eq _ name.toList "config.json".toList (by simp [getFilePath])
    (by decide)) (.inr (by decide)) (by decide) volume

theorem blockCheckpoint_not_dataPath (name volume : String) :
    ¬ DataPath volume (getFilePath .blockCheckpoint 0 name) :=
  not_dataPath (@fileName_eq _ (name.toList ++ "/checkpoints".toList)
    "blocks.00000000.bin".toList (by simp [getFilePath, paddedDigits, padded]) (by decide))
    (.inl (by decide)) (by decide) volume

theorem marker_not_dataPath (name volume : String) :
    ¬ DataPath volume (getFilePath .snapshotMarker 0 name) :=
  not_dataPath (@fileName_eq _ name.toList "snapshots.marker".toList (by simp [getFilePath])
    (by decide)) (.inl (by decide)) (by decide) volume

end Paths

namespace DualOpen

/-- The disk and the backend as a call finds them. -/
structure Seen where
  files : LocalFiles
  backend : Backend

/-- What a state file says besides the counters. -/
structure StateExtras where
  volumeSize : Nat
  shardedWAL : Bool
  /-- For a clone: the layers of its snapshot, unless they cannot be loaded. -/
  snapshot : Option (Option (List Layer))

structure Engine where
  volume : String
  volumeSize : Nat
  vb : VB
  useShardedWAL : Bool
  /-- The log file that is open for appending. -/
  wal : Option Segment
  /-- The log file of each shard. -/
  shards : List (Option Segment)
  writes : List Block
  layers : List Layer
  /-- Paths the backend was asked to write, whether or not it did. -/
  written : List String

/-- How a consolidation of the log goes. -/
structure ConsolidateRun where
  seen : Seen
  /-- The uploads in the order in which they end. -/
  uploads : List Upload
  /-- The shard files can be read back. -/
  shardsReadable : Bool
  /-- The files that are opened next. -/
  next : Segment
  nextShards : List Segment

structure DrainRun where
  /-- Number of appends that succeed, by shard; without shards all are in shard 0. -/
  flushed : Nat → Nat
  consolidate : ConsolidateRun
  live : Outcome

structure SnapshotRun where
  marker : Outcome
  drain : DrainRun
  /-- The section with the inherited blocks can be built. -/
  flatSection : Bool
  checkpoint : Outcome
  seen : Seen
  stateDisk : Outcome
  stateBackend : Outcome
  config : Outcome

inductive Call
  | loadState (seen : Seen) (readable : Bool) (extras : StateExtras)
      (disk backend : Outcome)
  /-- The live checkpoint, or its absence, can be read. -/
  | loadLiveCheckpoint (seen : Seen) (readable : Bool)
  | loadBlockState (seen : Seen)
  | flush (flushed : Nat → Nat)
  | drainToBackend (run : DrainRun)
  | saveLiveCheckpoint (seen : Seen) (out : Outcome)
  | readAt (read : String → ObjectReader) (offset length : Nat)
  | createSnapshot (snapshotID : String) (run : SnapshotRun)

namespace Engine

/-- An engine nothing was loaded into and no log was opened for. -/
def new (volume : String) (volumeSize : Nat) (useShardedWAL : Bool) : Engine where
  volume := volume
  volumeSize := volumeSize
  vb := VB.new false
  useShardedWAL := useShardedWAL
  wal := none
  shards := List.replicate numShards none
  writes := []
  layers := []
  written := []

/-- The engine's memory over the disk and the backend as they are. -/
def asVolume (e : Engine) (seen : Seen) : Volume :=
  ⟨e.vb, seen.files, seen.backend⟩

/-- Ask the backend to write an object of the volume. -/
def request (e : Engine) (fileType : FileType) (objectId : Nat) : Engine :=
  { e with written := e.written ++ [getFilePath fileType objectId e.volume] }

/-- Ask the backend to write an object under another name. -/
def requestTo (e : Engine) (name : String) (fileType : FileType) : Engine :=
  { e with written := e.written ++ [getFilePath fileType 0 name] }

variable (cfg : Config)

section

variable (e : Engine)

/-- An encrypted volume pushes the raised mark once it is on the disk. -/
def loadState (seen : Seen) (readable : Bool) (extras : StateExtras) (disk backend : Outcome) :
    Engine :=
  match Volume.selectState seen.files.config
      (if readable then seen.backend.config else none) with
  | none => e
  | some state =>
    let installed :=
      { e with
        vb := ((e.asVolume seen).installState state).vb
        volumeSize := extras.volumeSize
        useShardedWAL := e.useShardedWAL || extras.shardedWAL }
    match extras.snapshot with
    | some none => installed
    | opened =>
      let opened := { installed with layers := (opened.getD none).getD e.layers }
      if cfg.sealing.isNone then opened
      else
        let v := ((opened.asVolume seen).restartSeqNum state).bumpSeqNumHighWater disk backend
        let bumped := { opened with vb := v.1.vb }
        if disk.isOk then bumped.request .config 0 else bumped

def loadLiveCheckpoint (seen : Seen) (readable : Bool) : Engine :=
  if readable then { e with vb := ((e.asVolume seen).loadLiveCheckpoint cfg).vb } else e

def loadBlockState (seen : Seen) : Engine :=
  { e with vb := ((e.asVolume seen).loadBlockState cfg).vb }

/-- The first appends to each file succeed; a closed file takes none. -/
def appends (flushed : Nat → Nat) (shard i : Nat) : Flushing.Append :=
  let file := if e.useShardedWAL then e.shards.getD shard none else e.wal
  if file.isSome ∧ i < flushed shard then .ok else .failed 0

/-- `Flush`, and whether every buffered write reached the log. -/
def flush (flushed : Nat → Nat) : Engine × Bool :=
  let (buffers, ok) := Flushing.flush cfg e.useShardedWAL (e.appends flushed)
    ⟨e.writes, [], e.vb.blockStore, fun _ => [], []⟩
  let append (shard : Nat) (file : Segment) : Segment :=
    { file with records := file.records ++ Flushing.loggedRecords (buffers.files shard) }
  ({ e with
      vb := { e.vb with blockStore := buffers.store }
      wal := if e.useShardedWAL then e.wal else e.wal.map (append 0)
      shards :=
        if e.useShardedWAL then e.shards.zipIdx.map fun shard => shard.1.map (append shard.2)
        else e.shards
      writes := buffers.writes }, ok)

/-- Upload the chunks of a log that was read; each takes the next object number. -/
def uploadChunks (run : ConsolidateRun) (blocks : List Block) :
    Engine × Bool :=
  let jobs := chunkJobs cfg.objBlockSize blocks
  if validUploads jobs run.uploads then
    let uploaded := (uploadJobs cfg jobs run.uploads (e.asVolume run.seen)).1
    ({ e with
        vb := uploaded.vb
        written := e.written ++ (List.range run.uploads.length).map fun i =>
            getFilePath .chunk (e.vb.objectNum + i) e.volume },
      decide (run.uploads.length = jobs.length) && run.uploads.all fun u => u.out.isOk)
  else (e, false)

/-- An engine without an open shard does not own the log. -/
def writeShardedWALToChunk (run : ConsolidateRun) : Engine × Bool :=
  if e.shards.any Option.isSome then
    let rotated :=
      { e with shards := run.nextShards.map fun file => some { file with records := [] } }
    if run.shardsReadable then
      rotated.uploadChunks cfg run
        (e.shards.flatMap fun shard => (shard.map Segment.records).getD [])
    else (rotated, false)
  else (e, true)

/-- Without an open file there is nothing to consolidate. -/
def writeWALToChunk (run : ConsolidateRun) : Engine × Bool :=
  if e.useShardedWAL then e.writeShardedWALToChunk cfg run
  else
    match e.wal with
    | none => (e, true)
    | some file =>
      let rotated := { e with wal := some { run.next with records := [] } }
      match cfg.readClosedSegment (cfg.segment file.timestamp file.records) with
      | .error _ => (rotated, false)
      | .ok blocks => rotated.uploadChunks cfg run blocks

/-- A map that has not changed is not saved. -/
def saveLiveCheckpoint (seen : Seen) (out : Outcome) : Engine :=
  let saved := { e with vb := ((e.asVolume seen).saveLiveCheckpoint cfg out).1.vb }
  if e.vb.dirty then saved.request .blockCheckpointLive 0 else saved

/-- `DrainToBackend`, and whether it got to the live checkpoint. -/
def drainToBackend (run : DrainRun) : Engine × Bool :=
  match e.flush cfg run.flushed with
  | (flushed, false) => (flushed, false)
  | (flushed, true) =>
    match flushed.writeWALToChunk cfg run.consolidate with
    | (consolidated, false) => (consolidated, false)
    | (consolidated, true) =>
      (consolidated.saveLiveCheckpoint cfg run.consolidate.seen run.live, true)

def ownsWAL : Bool :=
  if e.useShardedWAL then e.shards.any Option.isSome else e.wal.isSome

/-- A snapshot drains an engine that owns the log; a failed save is only logged. -/
def drainForSnapshot (run : DrainRun) : Engine × Bool :=
  if e.ownsWAL then e.drainToBackend cfg run else (e, true)

/-- An encrypted snapshot takes a state number and saves the state under the next. -/
def saveStateForSnapshot (run : SnapshotRun) : Engine × Bool :=
  if cfg.sealing.isNone then (e, true)
  else
    let vb := { e.vb with nextStateSeqNum := e.vb.nextStateSeqNum + 1 }
    match ({ e with vb := vb }.asVolume run.seen).saveState cfg run.stateDisk
        run.stateBackend with
    | (v, ok) =>
      let saved := { e with vb := v.vb }
      (if run.stateDisk.isOk then saved.request .config 0 else saved, ok)

/-- The checkpoint and the metadata of a snapshot go under its own name. -/
def writeSnapshot (snapshotID : String) (run : SnapshotRun) : Engine :=
  if e.layers ≠ [] ∧ run.flatSection = false then e
  else
    let checkpointed := e.requestTo snapshotID .blockCheckpoint
    if run.checkpoint.isOk then
      match checkpointed.saveStateForSnapshot cfg run with
      | (saved, false) => saved
      | (saved, true) => saved.requestTo snapshotID .config
    else checkpointed

def createSnapshot (snapshotID : String) (run : SnapshotRun) : Engine :=
  let marked := e.request .snapshotMarker 0
  if run.marker.isOk then
    match marked.drainForSnapshot cfg run.drain with
    | (drained, false) => drained
    | (drained, true) => drained.writeSnapshot cfg snapshotID run
  else marked

def call : Call → Engine
  | .loadState seen readable extras disk backend =>
    e.loadState cfg seen readable extras disk backend
  | .loadLiveCheckpoint seen readable => e.loadLiveCheckpoint cfg seen readable
  | .loadBlockState seen => e.loadBlockState cfg seen
  | .flush flushed => (e.flush cfg flushed).1
  | .drainToBackend run => (e.drainToBackend cfg run).1
  | .saveLiveCheckpoint seen out => e.saveLiveCheckpoint cfg seen out
  | .readAt read offset length =>
    let store :=
      (cfg.readAt e.volumeSize e.volume read e.layers e.vb.blockStore offset length).2
    { e with vb := { e.vb with blockStore := store } }
  | .createSnapshot snapshotID run => e.createSnapshot cfg snapshotID run

/-- The calls one after the other. -/
def run (calls : List Call) : Engine :=
  calls.foldl (call cfg) e

end

/-- The engine has nothing to publish and has asked for no data to be written. -/
structure Idle (volume : String) (e : Engine) : Prop where
  volume_eq : e.volume = volume
  wal : e.wal = none
  shards : ∀ shard ∈ e.shards, shard = none
  writes : e.writes = []
  dirty : e.vb.dirty = false
  written : ∀ path ∈ e.written, ¬ DataPath volume path

namespace Idle

variable {cfg} {volume : String} {e : Engine}

theorem new (volume : String) (volumeSize : Nat) (useShardedWAL : Bool) :
    Idle volume (Engine.new volume volumeSize useShardedWAL) where
  volume_eq := rfl
  wal := rfl
  shards _ hshard := (List.mem_replicate.mp hshard).2
  writes := rfl
  dirty := rfl
  written _ hpath := absurd hpath List.not_mem_nil

/-- Only the flag of the memory matters. -/
theorem setMemory (h : Idle volume e) {vb : VB} (hdirty : vb.dirty = e.vb.dirty) :
    Idle volume { e with vb := vb } :=
  { h with dirty := hdirty.trans h.dirty }

theorem addWritten (h : Idle volume e) {path : String} (hpath : ¬ DataPath volume path) :
    Idle volume { e with written := e.written ++ [path] } :=
  { h with
    written := by
      intro other hother
      rcases List.mem_append.mp hother with hold | hnew
      · exact h.written other hold
      · rwa [List.mem_singleton.mp hnew] }

theorem noShard (h : Idle volume e) :
    e.shards.any Option.isSome = false := by
  rw [List.any_eq_false]
  intro shard hshard
  simp [h.shards shard hshard]

theorem loadState (h : Idle volume e)
    (seen : Seen) (readable : Bool) (extras : StateExtras) (disk backend : Outcome) :
    Idle volume (e.loadState cfg seen readable extras disk backend) := by
  unfold Engine.loadState
  split
  · exact h
  · rename_i state _
    have hinstalled : ∀ layers, Idle volume
        { e with
          vb := ((e.asVolume seen).installState state).vb
          volumeSize := extras.volumeSize
          useShardedWAL := e.useShardedWAL || extras.shardedWAL
          layers := layers } :=
      fun layers => { h with dirty := h.dirty }
    split
    · exact hinstalled e.layers
    split
    · exact hinstalled _
    have hdirty : ∀ v : Volume,
        ((v.restartSeqNum state).bumpSeqNumHighWater disk backend).1.vb.dirty = v.vb.dirty :=
      fun v => (Volume.raiseHighWater_sameBlocks (v.restartSeqNum state) _ disk
        backend).dirty
    split
    · exact ((hinstalled _).setMemory (hdirty _)).addWritten (config_not_dataPath _ _)
    · exact (hinstalled _).setMemory (hdirty _)

theorem dirty_loadBlockState (v : Volume) : (v.loadBlockState cfg).vb.dirty = v.vb.dirty := by
  unfold Volume.loadBlockState
  split
  · rfl
  · split <;> rfl

section

variable (h : Idle volume e)

include h

theorem loadLiveCheckpoint (seen : Seen) (readable : Bool) :
    Idle volume (e.loadLiveCheckpoint cfg seen readable) := by
  unfold Engine.loadLiveCheckpoint
  split
  · refine h.setMemory ?_
    unfold Volume.loadLiveCheckpoint
    split
    · rfl
    · exact dirty_loadBlockState (e.asVolume seen)
  · exact h

theorem flush (flushed : Nat → Nat) :
    Idle volume (e.flush cfg flushed).1 := by
  have hclosed : ∀ (f : Option Segment × Nat → Segment → Segment),
      ∀ shard ∈ e.shards.zipIdx.map fun shard => shard.1.map (f shard), shard = none := by
    intro f shard hshard
    obtain ⟨⟨old, i⟩, hold, rfl⟩ := List.mem_map.mp hshard
    have hmem : old ∈ e.shards := List.mem_of_getElem? (List.mem_zipIdx_iff_getElem?.mp hold)
    rw [h.shards old hmem]
    rfl
  have hwrites : (e.flush cfg flushed).1.writes = [] := by
    simp [Engine.flush, Flushing.flush_eq, Flushing.flushShards_eq, h.writes]
  cases hsharded : e.useShardedWAL with
  | true =>
    exact { h with
      shards := by simpa only [Engine.flush, hsharded, if_true] using hclosed _
      writes := hwrites
      wal := by simp [Engine.flush, hsharded, h.wal] }
  | false =>
    exact { h with
      shards := by simpa only [Engine.flush, hsharded, Bool.false_eq_true, if_false] using h.shards
      writes := hwrites
      wal := by simp [Engine.flush, h.wal] }

theorem writeWALToChunk (run : ConsolidateRun) :
    e.writeWALToChunk cfg run = (e, true) := by
  unfold Engine.writeWALToChunk
  split
  · unfold Engine.writeShardedWALToChunk
    rw [h.noShard]
    rfl
  · rw [h.wal]

theorem saveLiveCheckpoint (seen : Seen) (out : Outcome) :
    e.saveLiveCheckpoint cfg seen out = e := by
  have hclean : (e.asVolume seen).vb.dirty = false := h.dirty
  simp only [Engine.saveLiveCheckpoint, Volume.saveLiveCheckpoint, hclean, h.dirty,
    Bool.false_eq_true, if_false]
  rfl

theorem drainToBackend (run : DrainRun) :
    Idle volume (e.drainToBackend cfg run).1 := by
  have hflush := @flush cfg _ _ h run.flushed
  unfold Engine.drainToBackend
  split
  · rename_i heq
    rw [heq] at hflush
    exact hflush
  · rename_i heq
    rw [heq] at hflush
    rw [hflush.writeWALToChunk]
    dsimp only
    rw [hflush.saveLiveCheckpoint]
    exact hflush

theorem drainForSnapshot (run : DrainRun) :
    e.drainForSnapshot cfg run = (e, true) := by
  have howns : e.ownsWAL = false := by
    unfold Engine.ownsWAL
    split
    · exact h.noShard
    · rw [h.wal]
      rfl
  rw [Engine.drainForSnapshot, howns]
  rfl

theorem saveStateForSnapshot (run : SnapshotRun) :
    Idle volume (e.saveStateForSnapshot cfg run).1 := by
  unfold Engine.saveStateForSnapshot
  split
  · exact h
  · dsimp only
    have hsaved := h.setMemory
      (Volume.saveState_spec cfg (({ e with
        vb := { e.vb with nextStateSeqNum := e.vb.nextStateSeqNum + 1 } }).asVolume run.seen)
        run.stateDisk run.stateBackend).1.dirty
    split
    · exact hsaved.addWritten (config_not_dataPath _ _)
    · exact hsaved

theorem writeSnapshot (snapshotID : String) (run : SnapshotRun) :
    Idle volume (e.writeSnapshot cfg snapshotID run) := by
  have hcheckpointed : Idle volume (e.requestTo snapshotID .blockCheckpoint) :=
    h.addWritten (blockCheckpoint_not_dataPath _ _)
  have hsaved := @saveStateForSnapshot cfg _ _ hcheckpointed run
  unfold Engine.writeSnapshot
  split
  · exact h
  dsimp only
  split
  · split <;> rename_i heq <;> rw [heq] at hsaved
    · exact hsaved
    · exact hsaved.addWritten (config_not_dataPath _ _)
  · exact hcheckpointed

theorem createSnapshot (snapshotID : String) (run : SnapshotRun) :
    Idle volume (e.createSnapshot cfg snapshotID run) := by
  have hmarked : Idle volume (e.request .snapshotMarker 0) :=
    h.addWritten (marker_not_dataPath _ _)
  unfold Engine.createSnapshot
  dsimp only
  split
  · rw [hmarked.drainForSnapshot]
    exact hmarked.writeSnapshot snapshotID run
  · exact hmarked

theorem call (c : Call) :
    Idle volume (e.call cfg c) := by
  cases c with
  | loadState seen readable extras disk backend =>
    exact h.loadState seen readable extras disk backend
  | loadLiveCheckpoint seen readable => exact h.loadLiveCheckpoint seen readable
  | loadBlockState seen =>
    exact h.setMemory (dirty_loadBlockState (e.asVolume seen))
  | flush flushed => exact h.flush flushed
  | drainToBackend run => exact h.drainToBackend run
  | saveLiveCheckpoint seen out =>
    rw [Engine.call, h.saveLiveCheckpoint seen out]
    exact h
  | readAt read offset length => exact h.setMemory rfl
  | createSnapshot snapshotID run => exact h.createSnapshot snapshotID run

theorem run (calls : List Call) :
    Idle volume (e.run cfg calls) := by
  induction calls generalizing e with
  | nil => exact h
  | cons c calls ih => exact ih (h.call c)

end

end Idle

/-- An engine without a log writes no chunk and no live checkpoint of its volume. -/
theorem never_writes_data
    (volume : String) (volumeSize : Nat) (useShardedWAL : Bool) (calls : List Call) :
    ∀ path ∈ ((Engine.new volume volumeSize useShardedWAL).run cfg calls).written,
      ¬ DataPath volume path :=
  ((Idle.new volume volumeSize useShardedWAL).run calls).written

/-- A volume with one block in one chunk, as the serving engine has left it. -/
def oneChunk : Seen :=
  ⟨⟨none, ∅, []⟩, ⟨some ⟨1, 1, 0, false, 0, 1⟩, ∅, some [⟨[], 3, 0, 1, 0, 1⟩], ∅⟩⟩

/-- An open for a snapshot, every request answered. -/
def loadAndSnapshot : List Call :=
  [.loadState oneChunk true ⟨64, false, none⟩ .ok .ok, .loadLiveCheckpoint oneChunk true,
    .createSnapshot "snap" {
      marker := .ok
      drain := ⟨fun _ => 0, ⟨oneChunk, [], true, ⟨"wal.bin", 0, []⟩, []⟩, .ok⟩
      flatSection := true
      checkpoint := .ok
      seen := oneChunk
      stateDisk := .ok
      stateBackend := .ok
      config := .ok }]

theorem loadAndSnapshot_writes_no_data :
    let e := (Engine.new "vol" 0 false).run Config.tiny loadAndSnapshot
    (BlocksToObject.lookupBlockToObject 1 e.vb.blocksToObject.blockLookup 3).isSome ∧
      getFilePath .config 0 "snap" ∈ e.written ∧
      ∀ path ∈ e.written, ¬ DataPath "vol" path :=
  ⟨by decide +kernel, List.mem_append_right _ (List.mem_singleton.mpr rfl),
    never_writes_data Config.tiny "vol" 0 false loadAndSnapshot⟩

end Engine

end DualOpen

end Viperblock
