import Viperblock.ChunkMap
import Viperblock.Checkpoint

/-!
# Chunk garbage collection next to drains and snapshots

The step system of one volume with two engines.  The serving engine has
`GCEnabled`: its drains allocate, upload and publish chunks and then save the
live checkpoint, and `runGCSweep` runs such a drain and then `sweepChunks`.
The other engine loads the live checkpoint and calls `CreateSnapshot`.

An action is one backend operation or one locked section of the source, so
that a run is an arbitrary interleaving of the three activities.  What a chunk
contains is left to the action that allocates it; whether a backend write
succeeds, and whether a failed one landed nevertheless, is part of the action.
-/

namespace Viperblock

namespace GcSystem

open BlocksToObject BlockMap

/-- A `createChunkFile` call between allocating its ID and entering the map. -/
structure Upload where
  blocks : List Block
  uploaded : Bool
deriving DecidableEq

/-- Who runs the drain that holds `drainMu`. -/
inductive Trigger
  | sweep
  | other
deriving DecidableEq

/-- Progress of the drain that holds `drainMu`. -/
inductive DrainPhase
  | idle
  /-- Chunk uploads are running. -/
  | uploading (trigger : Trigger) (failed : Bool)
  /-- Uploads are done, `SaveLiveCheckpointCtx` is called. -/
  | saving (trigger : Trigger)
  /-- The map is serialised and its upload is being attempted. -/
  | putting (trigger : Trigger) (checkpoint : List BlockLookup) (attempt : Nat)
  /-- The checkpoint is stored, `dirty` is not cleared yet. -/
  | stored (trigger : Trigger)
deriving DecidableEq

/-- Content of the volume's snapshot marker. -/
structure Marker where
  snapshotID : Nat
  createdAt : Nat
deriving DecidableEq

/-- Progress of `runGCSweep`. -/
inductive SweepPhase
  | idle
  | draining
  | entered
  | scanning (baseline : Option Marker)
  | probing (baseline : Option Marker) (names : List Nat)
  | safe
  | listed (ids : List Nat)
  | reconciled
  | floored (floor : Nat)
  | watermarked (floor watermark : Nat)
  | selected (candidates : List Nat)
  | deleting (candidates : List Nat)
  | untracking (id : Nat) (candidates : List Nat)
deriving DecidableEq

/-- The objects under a snapshot's prefix. -/
structure Snapshot where
  checkpoint : List BlockLookup
  config : Bool
deriving DecidableEq

/-- Progress of `CreateSnapshot` in the other engine. -/
inductive SnapshotPhase
  | idle
  | marked (snapshotID : Nat)
  | frozen (snapshotID : Nat) (checkpoint : List BlockLookup)
  | stored (snapshotID : Nat)
deriving DecidableEq

structure GcState where
  /-- Chunk objects on the backend. -/
  chunks : List Nat
  /-- The live checkpoint on the backend. -/
  live : Option (List BlockLookup)
  /-- The numbered checkpoint on the backend. -/
  numbered : Option (List BlockLookup)
  marker : Option Marker
  snapshots : AList fun _ : Nat => Snapshot
  /-- Wall clock, read by every marker write. -/
  clock : Nat
  objectNum : Nat
  blocksToObject : BlocksToObject
  dirty : Bool
  uploads : AList fun _ : Nat => Upload
  drain : DrainPhase
  sweep : SweepPhase
  gcReconciled : Bool
  gcFloor : Option Nat
  /-- Cached answer of the snapshot scan. -/
  gcSnapshotSafe : Option Bool
  gcMarkerBaseline : Option Marker
  gcLatchedOff : Bool
  /-- The block map the snapshotting engine has loaded. -/
  snapshotMap : BlockMap
  snapshotPhase : SnapshotPhase
deriving DecidableEq

inductive DrainAct
  | begin (trigger : Trigger)
  | allocate (blocks : List Block)
  | upload (id : Nat) (ok landed : Bool)
  | publish (id : Nat)
  | finishUploads
  | abort
  | serialize
  | put (ok landed : Bool)
  | giveUp
  | clearDirty

inductive SweepAct
  | checkCache
  | readBaseline
  | listPrefixes
  | probe
  | listChunks (ok : Bool)
  | reconcile
  | readFloor (ok : Bool)
  | readWatermark
  | select
  | checkMarker
  | delete (ok landed : Bool)
  | untrack
  | abandon

inductive SnapshotAct
  | load
  | mark (snapshotID : Nat)
  | freeze
  | storeCheckpoint
  | storeConfig
  | abandon

inductive Act
  | drain (a : DrainAct)
  | sweep (a : SweepAct)
  | snapshot (a : SnapshotAct)

/-- A drain returns; a successful one of the sweep lets the sweep go on. -/
def endDrain (s : GcState) (trigger : Trigger) (ok : Bool) : GcState :=
  { s with
    drain := .idle
    sweep :=
      match trigger with
      | .sweep => if ok then .entered else .idle
      | .other => s.sweep }

def drainStep (stride : Nat) (s : GcState) : DrainAct → Option GcState
  | .begin .other =>
    if s.drain = .idle then some { s with drain := .uploading .other false }
    else none
  | .begin .sweep =>
    if s.drain = .idle ∧ s.sweep = .idle then
      some { s with drain := .uploading .sweep false, sweep := .draining }
    else none
  | .allocate blocks =>
    match s.drain with
    | .uploading _ _ =>
      some { s with
        objectNum := s.objectNum + 1
        uploads := s.uploads.insert s.objectNum ⟨blocks, false⟩ }
    | _ => none
  | .upload id ok landed =>
    match s.drain, s.uploads.lookup id with
    | .uploading trigger _, some ⟨blocks, false⟩ =>
      if ok then
        some { s with
          uploads := s.uploads.insert id ⟨blocks, true⟩
          chunks := id :: s.chunks }
      else
        some { s with
          uploads := s.uploads.erase id
          chunks := if landed then id :: s.chunks else s.chunks
          drain := .uploading trigger true }
    | _, _ => none
  | .publish id =>
    match s.uploads.lookup id with
    | some ⟨blocks, true⟩ =>
      some { s with
        uploads := s.uploads.erase id
        blocksToObject := publishChunk stride id s.blocksToObject blocks
        dirty := true }
    | _ => none
  | .finishUploads =>
    match s.drain with
    | .uploading trigger failed =>
      if s.uploads.keys = [] then
        if failed then some (endDrain s trigger false)
        else some { s with drain := .saving trigger }
      else none
    | _ => none
  | .abort =>
    match s.drain with
    | .uploading trigger _ =>
      if s.uploads.keys = [] then some (endDrain s trigger false) else none
    | _ => none
  | .serialize =>
    match s.drain with
    | .saving trigger =>
      if s.dirty then
        some { s with
          drain := .putting trigger
            (checkpointRecords stride s.blocksToObject.blockLookup) 0 }
      else some (endDrain s trigger true)
    | _ => none
  | .put ok landed =>
    match s.drain with
    | .putting trigger checkpoint attempt =>
      if ok then
        some { s with live := some checkpoint, drain := .stored trigger }
      else
        let tried := if landed then { s with live := some checkpoint } else s
        if attempt < 2 then
          some { tried with drain := .putting trigger checkpoint (attempt + 1) }
        else some (endDrain tried trigger false)
    | _ => none
  | .giveUp =>
    match s.drain with
    | .putting trigger _ attempt =>
      -- the context is cancelled between two attempts
      if 0 < attempt then some (endDrain s trigger false) else none
    | _ => none
  | .clearDirty =>
    match s.drain with
    | .stored trigger => some (endDrain { s with dirty := false } trigger true)
    | _ => none

/-- One past the highest object the numbered checkpoint names. -/
def numberedFloor (numbered : Option (List BlockLookup)) : Nat :=
  match numbered with
  | some records => raiseObjectNum 0 records
  | none => 0

/-- Zero-count chunks at or above the floor and below the watermark. -/
def sweepCandidates (rc : Refcount) (floor watermark : Nat) : List Nat :=
  (rc.entries.filter fun entry =>
    decide (entry.2 = 0 ∧ floor ≤ entry.1 ∧ entry.1 < watermark)).map Sigma.fst

/-- Change the reference counts only. -/
def mapRefs (f : Refcount → Refcount) (b : BlocksToObject) : BlocksToObject :=
  { b with gcRefcount := b.gcRefcount.map f }

def sweepStep (s : GcState) : SweepAct → Option GcState
  | .checkCache =>
    match s.sweep with
    | .entered =>
      if s.gcLatchedOff then some { s with sweep := .idle }
      else
        match s.gcSnapshotSafe with
        | some true => some { s with sweep := .safe }
        | some false => some { s with sweep := .idle }
        | none => none
    | _ => none
  | .readBaseline =>
    match s.sweep with
    | .entered =>
      if s.gcLatchedOff = false ∧ s.gcSnapshotSafe = none then
        some { s with sweep := .scanning s.marker }
      else none
    | _ => none
  | .listPrefixes =>
    match s.sweep with
    | .scanning baseline =>
      some { s with sweep := .probing baseline s.snapshots.keys }
    | _ => none
  | .probe =>
    match s.sweep with
    | .probing baseline [] =>
      some { s with
        gcMarkerBaseline := baseline
        gcSnapshotSafe := some true
        sweep := .safe }
    | .probing baseline (name :: names) =>
      match s.snapshots.lookup name with
      | some ⟨_, true⟩ =>
        some { s with
          gcMarkerBaseline := baseline
          gcSnapshotSafe := some false
          sweep := .idle }
      -- the checkpoint has landed but config.json has not
      | _ => some { s with sweep := .probing baseline names }
    | _ => none
  | .listChunks ok =>
    match s.sweep with
    | .safe =>
      if s.gcReconciled then some { s with sweep := .reconciled }
      else if ok then some { s with sweep := .listed s.chunks }
      else some { s with sweep := .reconciled }
    | _ => none
  | .reconcile =>
    match s.sweep with
    | .listed ids =>
      some { s with
        blocksToObject :=
          mapRefs (fun rc => ids.foldl (fun rc id => trackRef id rc) rc)
            s.blocksToObject
        gcReconciled := true
        sweep := .reconciled }
    | _ => none
  | .readFloor ok =>
    match s.sweep with
    | .reconciled =>
      match s.gcFloor with
      | some floor => some { s with sweep := .floored floor }
      | none =>
        if ok then
          some { s with
            gcFloor := some (numberedFloor s.numbered)
            sweep := .floored (numberedFloor s.numbered) }
        else some { s with sweep := .floored (2 ^ 64 - 1) }
    | _ => none
  | .readWatermark =>
    match s.sweep with
    | .floored floor => some { s with sweep := .watermarked floor s.objectNum }
    | _ => none
  | .select =>
    match s.sweep with
    | .watermarked floor watermark =>
      some { s with
        sweep := .selected
          (sweepCandidates (s.blocksToObject.gcRefcount.getD ∅) floor watermark) }
    | _ => none
  | .checkMarker =>
    match s.sweep with
    | .selected candidates =>
      if s.marker = s.gcMarkerBaseline then
        some { s with sweep := .deleting candidates }
      else some { s with gcLatchedOff := true, sweep := .idle }
    | _ => none
  | .delete ok landed =>
    match s.sweep with
    | .deleting [] => some { s with sweep := .idle }
    | .deleting (id :: candidates) =>
      if ok then
        some { s with
          chunks := s.chunks.filter (· ≠ id)
          sweep := .untracking id candidates }
      else
        some { s with
          chunks := if landed then s.chunks.filter (· ≠ id) else s.chunks
          sweep := .deleting candidates }
    | _ => none
  | .untrack =>
    match s.sweep with
    | .untracking id candidates =>
      some { s with
        blocksToObject := mapRefs (fun rc => rc.erase id) s.blocksToObject
        sweep := .deleting candidates }
    | _ => none
  | .abandon =>
    -- a marker read, a listing or a config read failed
    match s.sweep with
    | .entered | .scanning _ | .probing _ _ | .selected _ =>
      some { s with sweep := .idle }
    | _ => none

def snapshotStep (stride : Nat) (s : GcState) : SnapshotAct → Option GcState
  | .load =>
    if s.snapshotPhase = .idle then
      match s.live.or s.numbered with
      | some records =>
        some { s with
          snapshotMap := (parseBlockCheckpoint false stride records).blockLookup }
      | none => some s
    else none
  | .mark snapshotID =>
    if s.snapshotPhase = .idle then
      some { s with
        marker := some ⟨snapshotID, s.clock⟩
        clock := s.clock + 1
        snapshotPhase := .marked snapshotID }
    else none
  | .freeze =>
    match s.snapshotPhase with
    | .marked snapshotID =>
      some { s with
        snapshotPhase :=
          .frozen snapshotID (checkpointRecords stride s.snapshotMap) }
    | _ => none
  | .storeCheckpoint =>
    match s.snapshotPhase with
    | .frozen snapshotID checkpoint =>
      let config := ((s.snapshots.lookup snapshotID).map Snapshot.config).getD false
      some { s with
        snapshots := s.snapshots.insert snapshotID ⟨checkpoint, config⟩
        snapshotPhase := .stored snapshotID }
    | _ => none
  | .storeConfig =>
    match s.snapshotPhase with
    | .stored snapshotID =>
      match s.snapshots.lookup snapshotID with
      | some ⟨checkpoint, _⟩ =>
        some { s with
          snapshots := s.snapshots.insert snapshotID ⟨checkpoint, true⟩
          snapshotPhase := .idle }
      | none => none
    | _ => none
  | .abandon =>
    if s.snapshotPhase = .idle then none
    else some { s with snapshotPhase := .idle }

def step (stride : Nat) (s : GcState) : Act → Option GcState
  | .drain a => drainStep stride s a
  | .sweep a => sweepStep s a
  | .snapshot a => snapshotStep stride s a

/-- The volume's objects on the backend when the serving engine opens it. -/
structure Volume where
  chunks : List Nat
  live : Option (List BlockLookup)
  numbered : Option (List BlockLookup)
  marker : Option Marker
  snapshots : AList fun _ : Nat => Snapshot
  clock : Nat

/-- The serving engine right after loading the records `loaded`. -/
def opened (stride : Nat) (volume : Volume) (loaded : List BlockLookup)
    (objectNum : Nat) : GcState where
  chunks := volume.chunks
  live := volume.live
  numbered := volume.numbered
  marker := volume.marker
  snapshots := volume.snapshots
  clock := volume.clock
  objectNum := raiseObjectNum objectNum loaded
  blocksToObject := parseBlockCheckpoint true stride loaded
  dirty := false
  uploads := ∅
  drain := .idle
  sweep := .idle
  gcReconciled := false
  gcFloor := none
  gcSnapshotSafe := none
  gcMarkerBaseline := none
  gcLatchedOff := false
  snapshotMap := ∅
  snapshotPhase := .idle

section Inversion

/-- What a drain action can do, one constructor per outcome. -/
inductive DrainStep (stride : Nat) (s : GcState) : GcState → Prop
  | beginOther : s.drain = .idle → DrainStep stride s { s with drain := .uploading .other false }
  | beginSweep : s.drain = .idle → s.sweep = .idle → DrainStep stride s
        { s with drain := .uploading .sweep false, sweep := .draining }
  | allocate {trigger failed} (blocks : List Block) :
      s.drain = .uploading trigger failed →
      DrainStep stride s
        { s with
          objectNum := s.objectNum + 1
          uploads := s.uploads.insert s.objectNum ⟨blocks, false⟩ }
  | uploadOk {trigger failed id blocks} : s.drain = .uploading trigger failed →
      s.uploads.lookup id = some ⟨blocks, false⟩ →
      DrainStep stride s
        { s with
          uploads := s.uploads.insert id ⟨blocks, true⟩
          chunks := id :: s.chunks }
  | uploadFailed {trigger failed} (id : Nat) (landed : Bool) :
      s.drain = .uploading trigger failed →
      DrainStep stride s
        { s with
          uploads := s.uploads.erase id
          chunks := if landed then id :: s.chunks else s.chunks
          drain := .uploading trigger true }
  | publish {id blocks} : s.uploads.lookup id = some ⟨blocks, true⟩ → DrainStep stride s
        { s with
          uploads := s.uploads.erase id
          blocksToObject := publishChunk stride id s.blocksToObject blocks
          dirty := true }
  | save {trigger failed} : s.drain = .uploading trigger failed → s.uploads = ∅ →
      DrainStep stride s { s with drain := .saving trigger }
  | serialize {trigger} : s.drain = .saving trigger → DrainStep stride s
        { s with
          drain := .putting trigger
            (checkpointRecords stride s.blocksToObject.blockLookup) 0 }
  | putOk {trigger checkpoint attempt} :
      s.drain = .putting trigger checkpoint attempt →
      DrainStep stride s
        { s with live := some checkpoint, drain := .stored trigger }
  | putRetry {trigger checkpoint attempt} (landed : Bool) :
      s.drain = .putting trigger checkpoint attempt →
      DrainStep stride s
        { s with
          live := if landed then some checkpoint else s.live
          drain := .putting trigger checkpoint (attempt + 1) }
  | putFailed {trigger checkpoint attempt} (landed : Bool) :
      s.drain = .putting trigger checkpoint attempt →
      DrainStep stride s
        (endDrain { s with live := if landed then some checkpoint else s.live }
          trigger false)
  | clearDirty {trigger} : s.drain = .stored trigger →
      DrainStep stride s (endDrain { s with dirty := false } trigger true)
  /-- Any other return: a failure before or after the uploads, or a clean map. -/
  | finish {trigger ok} : s.uploads = ∅ ∨ (∀ t f, s.drain ≠ .uploading t f) →
      DrainStep stride s (endDrain s trigger ok)

variable {stride : Nat} {s t : GcState}

theorem eq_empty_of_keys {uploads : AList fun _ : Nat => Upload} (hkeys : uploads.keys = []) :
    uploads = ∅ := by
  apply AList.ext
  simpa [AList.keys, List.keys] using hkeys

theorem drainStep_inv {a : DrainAct} :
    drainStep stride s a = some t → DrainStep stride s t := by
  fun_cases drainStep stride s a <;> rintro ⟨⟩
  · exact .beginOther ‹_›
  · rename_i hidle
    exact .beginSweep hidle.1 hidle.2
  · exact .allocate _ ‹_›
  · exact .uploadOk ‹_› ‹_›
  · exact .uploadFailed _ _ ‹_›
  · exact .publish ‹_›
  · exact .finish (.inl (eq_empty_of_keys ‹_›))
  · exact .save ‹_› (eq_empty_of_keys ‹_›)
  · exact .finish (.inl (eq_empty_of_keys ‹_›))
  · exact .serialize ‹_›
  · exact .finish (.inr (by simp [*]))
  · exact .putOk ‹_›
  · rename_i landed _ _ _ hdrain _ _ _
    cases landed
    · exact .putRetry false hdrain
    · exact .putRetry true hdrain
  · rename_i landed _ _ _ hdrain _ _ _
    cases landed
    · exact .putFailed false hdrain
    · exact .putFailed true hdrain
  · exact .finish (.inr (by simp [*]))
  · exact .clearDirty ‹_›

/-- What a sweep action can do, one constructor per outcome. -/
inductive SweepStep (s : GcState) : SweepAct → GcState → Prop
  /-- The sweep returns without touching anything. -/
  | stop {a} : SweepStep s a { s with sweep := .idle }
  | cached : s.sweep = .entered → s.gcSnapshotSafe = some true → s.gcLatchedOff = false →
      SweepStep s .checkCache { s with sweep := .safe }
  | readBaseline : s.sweep = .entered → s.gcLatchedOff = false → s.gcSnapshotSafe = none →
      SweepStep s .readBaseline { s with sweep := .scanning s.marker }
  | listPrefixes {baseline} : s.sweep = .scanning baseline → SweepStep s .listPrefixes
        { s with sweep := .probing baseline s.snapshots.keys }
  | scanSafe {baseline} : s.sweep = .probing baseline [] → SweepStep s .probe
        { s with
          gcMarkerBaseline := baseline
          gcSnapshotSafe := some true
          sweep := .safe }
  | scanUnsafe {baseline name names} : s.sweep = .probing baseline (name :: names) →
      SweepStep s .probe
        { s with
          gcMarkerBaseline := baseline
          gcSnapshotSafe := some false
          sweep := .idle }
  | probeNext {baseline name names} : s.sweep = .probing baseline (name :: names) →
      (∀ checkpoint, s.snapshots.lookup name ≠ some ⟨checkpoint, true⟩) →
      SweepStep s .probe { s with sweep := .probing baseline names }
  | skipListing {ok} : s.sweep = .safe →
      SweepStep s (.listChunks ok) { s with sweep := .reconciled }
  | list {ok} : s.sweep = .safe → SweepStep s (.listChunks ok) { s with sweep := .listed s.chunks }
  | reconcile {ids} : s.sweep = .listed ids → SweepStep s .reconcile
        { s with
          blocksToObject :=
            mapRefs (fun rc => ids.foldl (fun rc id => trackRef id rc) rc)
              s.blocksToObject
          gcReconciled := true
          sweep := .reconciled }
  | readFloor {ok floor} (cached : Option Nat) : s.sweep = .reconciled → SweepStep s (.readFloor ok)
        { s with gcFloor := cached, sweep := .floored floor }
  | readWatermark {floor} : s.sweep = .floored floor → SweepStep s .readWatermark
        { s with sweep := .watermarked floor s.objectNum }
  | select {floor watermark} : s.sweep = .watermarked floor watermark → SweepStep s .select
        { s with
          sweep := .selected
            (sweepCandidates (s.blocksToObject.gcRefcount.getD ∅) floor watermark) }
  | markerSame {candidates} : s.sweep = .selected candidates → s.marker = s.gcMarkerBaseline →
      SweepStep s .checkMarker { s with sweep := .deleting candidates }
  | markerMoved {candidates} : s.sweep = .selected candidates →
      SweepStep s .checkMarker { s with gcLatchedOff := true, sweep := .idle }
  | deleteOk {id candidates landed} : s.sweep = .deleting (id :: candidates) →
      SweepStep s (.delete true landed)
        { s with
          chunks := s.chunks.filter (· ≠ id)
          sweep := .untracking id candidates }
  | deleteFailed {id candidates} (landed : Bool) :
      s.sweep = .deleting (id :: candidates) →
      SweepStep s (.delete false landed)
        { s with
          chunks := if landed then s.chunks.filter (· ≠ id) else s.chunks
          sweep := .deleting candidates }
  | untrack {id candidates} : s.sweep = .untracking id candidates → SweepStep s .untrack
        { s with
          blocksToObject := mapRefs (fun rc => rc.erase id) s.blocksToObject
          sweep := .deleting candidates }

theorem sweepStep_inv {a : SweepAct} :
    sweepStep s a = some t → SweepStep s a t := by
  fun_cases sweepStep s a <;> rintro ⟨⟩
  · exact .stop
  · exact .cached ‹_› ‹_› (Bool.eq_false_iff.mpr ‹_›)
  · exact .stop
  · rename_i hopen
    exact .readBaseline ‹_› hopen.1 hopen.2
  · exact .listPrefixes ‹_›
  · exact .scanSafe ‹_›
  · exact .scanUnsafe ‹_›
  · exact .probeNext ‹_› ‹_›
  · exact .skipListing ‹_›
  · exact .list ‹_›
  · exact .skipListing ‹_›
  · exact .reconcile ‹_›
  · exact .readFloor s.gcFloor ‹_›
  · exact .readFloor _ ‹_›
  · exact .readFloor s.gcFloor ‹_›
  · exact .readWatermark ‹_›
  · exact .select ‹_›
  · exact .markerSame ‹_› ‹_›
  · exact .markerMoved ‹_›
  · exact .stop
  · exact .deleteOk ‹_›
  · rename_i hfailed
    rw [Bool.eq_false_iff.mpr hfailed]
    exact .deleteFailed _ ‹_›
  · exact .untrack ‹_›
  all_goals exact .stop

/-- What an action of the snapshotting engine can do. -/
inductive SnapshotStep (stride : Nat) (s : GcState) : SnapshotAct → GcState → Prop
  | load (loaded : BlockMap) : s.snapshotPhase = .idle →
      SnapshotStep stride s .load { s with snapshotMap := loaded }
  | mark {snapshotID} : s.snapshotPhase = .idle → SnapshotStep stride s (.mark snapshotID)
        { s with
          marker := some ⟨snapshotID, s.clock⟩
          clock := s.clock + 1
          snapshotPhase := .marked snapshotID }
  | freeze {snapshotID} : s.snapshotPhase = .marked snapshotID → SnapshotStep stride s .freeze
        { s with
          snapshotPhase :=
            .frozen snapshotID (checkpointRecords stride s.snapshotMap) }
  | storeCheckpoint {snapshotID checkpoint} :
      s.snapshotPhase = .frozen snapshotID checkpoint →
      SnapshotStep stride s .storeCheckpoint
        { s with
          snapshots := s.snapshots.insert snapshotID
            ⟨checkpoint, ((s.snapshots.lookup snapshotID).map Snapshot.config).getD false⟩
          snapshotPhase := .stored snapshotID }
  | storeConfig {snapshotID checkpoint config} :
      s.snapshotPhase = .stored snapshotID →
      s.snapshots.lookup snapshotID = some ⟨checkpoint, config⟩ →
      SnapshotStep stride s .storeConfig
        { s with
          snapshots := s.snapshots.insert snapshotID ⟨checkpoint, true⟩
          snapshotPhase := .idle }
  | abandon : SnapshotStep stride s .abandon { s with snapshotPhase := .idle }

theorem snapshotStep_inv {a : SnapshotAct} :
    snapshotStep stride s a = some t → SnapshotStep stride s a t := by
  fun_cases snapshotStep stride s a <;> rintro ⟨⟩
  · exact .load _ ‹_›
  · exact .load s.snapshotMap ‹_›
  · exact .mark ‹_›
  · exact .freeze ‹_›
  · exact .storeCheckpoint ‹_›
  · exact .storeConfig ‹_› ‹_›
  · exact .abandon

end Inversion

end GcSystem

end Viperblock
