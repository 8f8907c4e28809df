import Mathlib.Data.List.Nodup
import Viperblock.Lib.GuardedRun
import Viperblock.Recovery

/-!
# Crashes and reopens

The life of a volume over nodes: sessions in which blocks are written, flushed
and drained, state saves, crashes that leave the log on the disk of the node,
clean shutdowns, and opens on any node by `LoadState`, `LoadLiveCheckpoint` and
`RecoverLocalWALs`.

`SeqNum` is restored from `config.json`, which only `SaveState` and, on an
encrypted volume, the reservation of a window write.  A drain saves the live
checkpoint alone.  So on an unencrypted volume the numbers in a checkpoint may
be above the saved counter, and the log of the node is what brings the counter
up again.  `custody` records where that log is: `keepsCustody` is the condition
that an open finds it.
-/

namespace Viperblock

namespace ReopenSystem

open GuardedRun BlockMap
open SeqNumSystem (seqNumReservation)

/-- Where the last session left what an open needs besides the backend. -/
inductive Custody
  /-- Nothing is needed: the volume was created or shut down cleanly. -/
  | anywhere
  /-- On the disk of a node. -/
  | node (n : Nat)
  /-- On a disk that is gone. -/
  | lost
deriving DecidableEq, Repr

/-- The disks of all nodes and the backend. -/
structure Disks where
  nodes : Nat → LocalFiles
  backend : Backend

namespace Disks

/-- The volume as it is open on node `n`. -/
def volume (d : Disks) (n : Nat) (vb : VB) : Volume :=
  ⟨vb, d.nodes n, d.backend⟩

/-- What is stored once the volume on node `n` is `v`. -/
def put (d : Disks) (n : Nat) (v : Volume) : Disks :=
  ⟨Function.update d.nodes n v.files, v.backend⟩

/-- What is left once the files of node `n` are gone. -/
def lose (d : Disks) (n : Nat) : Disks :=
  { d with nodes := Function.update d.nodes n ⟨none, ∅, []⟩ }

end Disks

/-- The log segment that is open for appending. -/
structure Segment where
  name : String
  timestamp : Nat
  records : List Block

structure Session where
  node : Nat
  vb : VB
  writes : List Block
  wal : Segment
  /-- Blocks of this session whose chunk was uploaded. -/
  uploaded : List Block
  /-- Those that were uploaded when a drain last returned without an error. -/
  drained : List Block

structure State where
  disks : Disks
  running : Option Session
  custody : Custody

/-- The upload of one chunk of a drain. -/
structure Upload where
  job : Nat
  out : Outcome

/-- How a drain goes. -/
structure DrainRun where
  /-- Number of buffered writes that reach the log. -/
  flushed : Nat
  /-- The uploads in the order in which they end. -/
  uploads : List Upload
  live : Outcome
  /-- The segment that is opened next. -/
  next : Segment

/-- How an open goes. -/
structure OpenRun where
  /-- The backend's `config.json` can be read. -/
  readable : Bool
  bumpDisk : Outcome
  bumpBackend : Outcome
  recover : RecoverOutcomes
  gcEnabled : Bool
  segment : Segment

inductive Act
  | write (block : Nat) (data : Bytes) (disk backend : Outcome)
  | flush (count : Nat)
  | drain (run : DrainRun)
  | saveState (disk backend : Outcome)
  /-- The first `kept` records of the open segment and a torn one survive. -/
  | crash (kept : Nat) (torn : Bytes)
  /-- The disk of a node is lost. -/
  | lose (n : Nat)
  | close (run : DrainRun) (stateDisk stateBackend blockDisk blockBackend : Outcome)
      (removed : Bool)
  | reopen (n : Nat) (run : OpenRun)

section Steps

variable (cfg : Config)

/-- `Flush`, with the first `count` of the appends succeeding. -/
def Session.flush (sess : Session) (count : Nat) : Session :=
  let flushed := sess.writes.take count
  { sess with
    vb :=
      { sess.vb with
        blockStore := flushed.foldl (fun store b => store.markPending b.block)
          sess.vb.blockStore }
    writes := sess.writes.filter fun b => !flushed.any (·.block == b.block)
    wal := { sess.wal with records := sess.wal.records ++ flushed } }

/-- The uploads of a drain one after the other, with the blocks that got through. -/
def uploadJobs (jobs : List (List Block)) : List Upload → Volume → Volume × List Block
  | [], v => (v, [])
  | u :: uploads, v =>
    let job := (jobs[u.job]?).getD []
    match v.createChunkFile cfg job u.out with
    | (v', ok) =>
      match uploadJobs jobs uploads v' with
      | (v'', uploaded) => (v'', (if ok then job else []) ++ uploaded)

/-- Every chunk is uploaded at most once. -/
def validUploads (jobs : List (List Block)) (uploads : List Upload) : Bool :=
  decide (uploads.map Upload.job).Nodup && uploads.all fun u => u.job < jobs.length

section

variable (d : Disks)

/-- The session's node with the open segment, or what is left of it, as a file. -/
def leaveSegment (sess : Session) (left : Bytes) : Volume :=
  let files := d.nodes sess.node
  ⟨sess.vb, { files with walFiles := files.walFiles ++ [(sess.wal.name, left)] }, d.backend⟩

/-- `WriteWALToChunk`: close the segment, open the next and upload what it holds. -/
def writeWALToChunk (sess : Session) (run : DrainRun) :
    Option (Disks × Session × Bool) :=
  let file := cfg.segment sess.wal.timestamp sess.wal.records
  let closed := leaveSegment d sess file
  let rotated := { sess with wal := { run.next with records := [] } }
  match cfg.readClosedSegment file with
  | .error _ => some (d.put sess.node closed, rotated, false)
  | .ok blocks =>
    let jobs := chunkJobs cfg.objBlockSize blocks
    if validUploads jobs run.uploads then
      match uploadJobs cfg jobs run.uploads closed with
      | (v, uploaded) =>
        some (d.put sess.node v,
          { rotated with vb := v.vb, uploaded := sess.uploaded ++ uploaded },
          decide (run.uploads.length = jobs.length) &&
            run.uploads.all fun u => u.out.isOk)
    else none

/-- Save the live checkpoint as the last step of a drain. -/
def saveLive (sess : Session) (out : Outcome) : Disks × Session :=
  match (d.volume sess.node sess.vb).saveLiveCheckpoint cfg out with
  | (v, ok) =>
    (d.put sess.node v,
      { sess with
        vb := v.vb
        drained := if ok then sess.uploaded else sess.drained })

/-- The chunks of a drain and, unless an upload failed, the live checkpoint. -/
def drainChunks (sess : Session) (run : DrainRun) : Option (Disks × Session) :=
  match writeWALToChunk cfg d sess run with
  | none => none
  | some (d', sess', true) => some (saveLive cfg d' sess' run.live)
  | some (d', sess', false) => some (d', sess')

/-- `DrainToBackend`; a failed flush ends it. -/
def drain (sess : Session) (run : DrainRun) : Option (Disks × Session) :=
  let flushed := sess.flush run.flushed
  if sess.writes.length ≤ run.flushed then drainChunks cfg d flushed run
  else some (d, flushed)

/-- `Close` up to the removal of the local files, and whether it gets there. -/
def closeSaves (sess : Session) (run : DrainRun)
    (stateDisk stateBackend blockDisk blockBackend : Outcome) : Option (Disks × Bool) :=
  match drainChunks cfg d (sess.flush run.flushed) run with
  | none => none
  | some (d', sess') =>
    match (d'.volume sess'.node sess'.vb).saveState cfg stateDisk stateBackend with
    | (saved, savedOk) =>
      match saved.saveBlockState cfg blockDisk blockBackend with
      | (numbered, numberedOk) =>
        some (d'.put sess'.node numbered, savedOk && numberedOk)

/-- The open sequence on a node. -/
def openVolume (n : Nat) (run : OpenRun) : Volume × Bool :=
  match (d.volume n (VB.new run.gcEnabled)).loadState cfg run.readable run.bumpDisk
      run.bumpBackend with
  | (v, false) => (v, false)
  | (v, true) =>
    match (v.loadLiveCheckpoint cfg).recoverLocalWALs cfg run.recover with
    | (recovered, .ok ()) => (recovered, true)
    | (recovered, .error _) => (recovered, false)

/-- One `WriteAt` of a whole block. -/
def write (sess : Session) (block : Nat) (data : Bytes) (disk backend : Outcome) :
    Disks × Session :=
  match (d.volume sess.node sess.vb).reserveSeqNum cfg disk backend with
  | (v, none) => (d.put sess.node v, { sess with vb := v.vb })
  | (v, some seqNum) =>
    (d.put sess.node v,
      { sess with
        vb :=
          { v.vb with
            blockStore := v.vb.blockStore.writeWithSeqNum block data seqNum }
        writes := sess.writes ++ [⟨data, seqNum, block, cfg.blockSize⟩] })

end

def step (s : State) : Act → Option State
  | .write block data disk backend =>
    match s.running with
    | none => none
    | some sess =>
      if data.length = cfg.blockSize ∧ block < 2 ^ 64 ∧ sess.vb.seqNum + 1 < 2 ^ 64 then
        let (d, sess') := write cfg s.disks sess block data disk backend
        some { s with disks := d, running := some sess' }
      else none
  | .flush count =>
    match s.running with
    | none => none
    | some sess => some { s with running := some (sess.flush count) }
  | .drain run =>
    match s.running with
    | none => none
    | some sess =>
      match drain cfg s.disks sess run with
      | none => none
      | some (d, sess') => some { s with disks := d, running := some sess' }
  | .saveState disk backend =>
    match s.running with
    | none => none
    | some sess =>
      let v := ((s.disks.volume sess.node sess.vb).saveState cfg disk backend).1
      some
        { s with
          disks := s.disks.put sess.node v
          running := some { sess with vb := v.vb } }
  | .crash kept torn =>
    match s.running with
    | none => none
    | some sess =>
      if torn.length < cfg.recordSize then
        let left := cfg.segment sess.wal.timestamp (sess.wal.records.take kept) ++ torn
        some
          { s with
            disks := s.disks.put sess.node (leaveSegment s.disks sess left)
            running := none }
      else none
  | .lose n =>
    some
      { disks := s.disks.lose n
        running := s.running.filter fun sess => sess.node != n
        custody := if s.custody = .node n then .lost else s.custody }
  | .close run stateDisk stateBackend blockDisk blockBackend removed =>
    match s.running with
    | none => none
    | some sess =>
      match closeSaves cfg s.disks sess run stateDisk stateBackend blockDisk
          blockBackend with
      | none => none
      | some (d, false) => some { s with disks := d, running := none }
      | some (d, true) =>
        some
          { disks := if removed then d.lose sess.node else d
            running := none
            custody := .anywhere }
  | .reopen n run =>
    match s.running with
    | some _ => none
    | none =>
      let (v, ok) := openVolume cfg s.disks n run
      some
        { disks := s.disks.put n v
          running :=
            if ok then some ⟨n, v.vb, [], { run.segment with records := [] }, [], []⟩
            else none
          custody := .node n }

end Steps

end ReopenSystem

end Viperblock
