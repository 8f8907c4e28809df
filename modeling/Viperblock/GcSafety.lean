import Viperblock.GcSystem
import Viperblock.Lib.GuardedRun

/-!
# No sweep deletes a chunk the engine still needs

Two closure properties of the step system: every chunk the block map names
exists on the backend, and so does every chunk the stored live checkpoint
names.  Both hinge on the step that selects the candidates of a sweep.  A
candidate must not be a chunk that a running drain has uploaded and not yet
published, and for the second property it must not be named by the live
checkpoint that is stored at that moment.  The code checks neither; the runs
at the end of the module lose a chunk in each of the two ways.
-/

namespace Viperblock

namespace GcSystem

open BlocksToObject BlockMap GuardedRun

/-- Chunks a sweep has selected and not yet finished with. -/
def pendingDeletes : SweepPhase → List Nat
  | .selected candidates => candidates
  | .deleting candidates => candidates
  | .untracking id candidates => id :: candidates
  | _ => []

/-- The engine's reference counts. -/
def refs (s : GcState) : Refcount :=
  s.blocksToObject.gcRefcount.getD ∅

/-- When candidates are selected, no chunk of a running upload is tracked with
count zero between the floor and the watermark. -/
def uploadsUntracked (s : GcState) : Act → Bool
  | .sweep .select =>
    match s.sweep with
    | .watermarked floor watermark =>
      s.uploads.keys.all fun id =>
        !decide (floor ≤ id ∧ id < watermark ∧ (refs s).lookup id = some 0)
    | _ => true
  | _ => true

/-- When candidates are selected, no chunk the stored live checkpoint names is
tracked with count zero between the floor and the watermark. -/
def liveUntracked (s : GcState) : Act → Bool
  | .sweep .select =>
    match s.sweep with
    | .watermarked floor watermark =>
      (s.live.getD []).all fun rec =>
        !decide (floor ≤ rec.objectID ∧ rec.objectID < watermark ∧
          (refs s).lookup rec.objectID = some 0)
    | _ => true
  | _ => true

/-- Every chunk the block map names exists. -/
def MapClosed (s : GcState) : Prop :=
  ∀ id ∈ s.blocksToObject.blockLookup.objectIDs, id ∈ s.chunks

/-- Every chunk the stored live checkpoint names exists. -/
def LiveClosed (s : GcState) : Prop :=
  ∀ checkpoint, s.live = some checkpoint → ∀ rec ∈ checkpoint, rec.objectID ∈ s.chunks

instance (s : GcState) : Decidable (MapClosed s) :=
  inferInstanceAs (Decidable (∀ id ∈ _, _))

/-- Every chunk a list of records names exists. -/
def recordsClosed (chunks : List Nat) (records : List BlockLookup) : Bool :=
  records.all fun rec => chunks.contains rec.objectID

theorem LiveClosed.recordsClosed {s : GcState} (hs : LiveClosed s) :
    recordsClosed s.chunks (s.live.getD []) = true := by
  cases hlive : s.live with
  | none => rfl
  | some checkpoint => simpa [GcSystem.recordsClosed] using hs checkpoint hlive

section Counts

variable {b : BlocksToObject}

theorem mem_sweepCandidates_iff {rc : Refcount} {floor watermark id : Nat} :
    id ∈ sweepCandidates rc floor watermark ↔
      rc.lookup id = some 0 ∧ floor ≤ id ∧ id < watermark := by
  unfold sweepCandidates
  simp only [List.mem_map, List.mem_filter, decide_eq_true_eq]
  constructor
  · rintro ⟨⟨id', refs⟩, ⟨hmem, hrefs, hrange⟩, rfl⟩
    have hlookup := FiniteMap.mem_entries_iff.mp hmem
    subst hrefs
    exact ⟨hlookup, hrange⟩
  · rintro ⟨hlookup, hrange⟩
    exact ⟨⟨id, 0⟩, ⟨FiniteMap.mem_entries_iff.mpr hlookup, rfl, hrange⟩, rfl⟩

theorem not_mem_objectIDs_of_zero (hb : b.Sound) {id : Nat}
    (hzero : (b.gcRefcount.getD ∅).lookup id = some 0) :
    id ∉ b.blockLookup.objectIDs := by
  intro hid
  cases hrc : b.gcRefcount with
  | none => simp [hrc] at hzero
  | some rc =>
    rw [hrc] at hzero
    have hcount := hb.refExact rc hrc id
    rw [show rc.lookup id = some 0 from hzero] at hcount
    obtain ⟨k, bl, hbl, hname⟩ := mem_objectIDs_iff.mp hid
    have hpos : 0 < FiniteMap.countValues
        (fun bl : BlockLookup => bl.objectID == id) b.blockLookup :=
      FiniteMap.countValues_pos_iff.mpr ⟨k, bl, hbl, by simpa using hname⟩
    simp only [Option.getD_some] at hcount
    omega

theorem mapRefs_sound (hb : b.Sound) {f : Refcount → Refcount}
    (hf : ∀ rc, b.gcRefcount = some rc → ∀ id, ((f rc).lookup id).getD 0 = (rc.lookup id).getD 0) :
    (mapRefs f b).Sound := by
  refine ⟨hb.wf, ?_⟩
  intro rc hrc id
  obtain ⟨old, hold, rfl⟩ := Option.map_eq_some_iff.mp hrc
  rw [hf old hold]
  exact hb.refExact old hold id

theorem getD_foldl_trackRef (ids : List Nat) (rc : Refcount) (id : Nat) :
    ((ids.foldl (fun rc id => trackRef id rc) rc).lookup id).getD 0 = (rc.lookup id).getD 0 := by
  induction ids generalizing rc with
  | nil => rfl
  | cons i ids ih => rw [List.foldl_cons, ih, getD_lookup_trackRef]

theorem eraseRef_sound (hb : b.Sound) {id : Nat} (hid : id ∉ b.blockLookup.objectIDs) :
    (mapRefs (fun rc => rc.erase id) b).Sound := by
  apply mapRefs_sound hb
  intro rc hrc other
  by_cases hother : other = id
  · subst hother
    have hcount := hb.refExact rc hrc other
    have hzero : ¬ 0 < FiniteMap.countValues
        (fun bl : BlockLookup => bl.objectID == other) b.blockLookup := by
      rw [FiniteMap.countValues_pos_iff]
      rintro ⟨k, bl, hbl, hname⟩
      exact hid (mem_objectIDs_iff.mpr ⟨k, bl, hbl, by simpa using hname⟩)
    simp only [AList.lookup_erase, Option.getD_none]
    omega
  · rw [AList.lookup_erase_ne hother]

end Counts

/-- The invariant behind the closure of the block map. -/
structure Safe (s : GcState) : Prop where
  sound : s.blocksToObject.Sound
  named_lt : ∀ id ∈ s.blocksToObject.blockLookup.objectIDs, id < s.objectNum
  upload_lt : ∀ id ∈ s.uploads, id < s.objectNum
  uploaded : ∀ id blocks, s.uploads.lookup id = some ⟨blocks, true⟩ → id ∈ s.chunks
  mapClosed : MapClosed s
  pending : ∀ id ∈ pendingDeletes s.sweep,
    id ∉ s.blocksToObject.blockLookup.objectIDs ∧ id ∉ s.uploads ∧ id < s.objectNum
  watermark_le : ∀ floor watermark, s.sweep = .watermarked floor watermark → watermark ≤ s.objectNum

section DrainSteps

variable {stride : Nat} {s t : GcState}

variable (hs : Safe s)

include hs

theorem Safe.endDrain (trigger : Trigger) (ok : Bool) :
    Safe (endDrain s trigger ok) := by
  cases trigger with
  | sweep =>
    refine { hs with pending := ?_, watermark_le := ?_ }
    · cases ok <;> simp [GcSystem.endDrain, pendingDeletes]
    · cases ok <;> simp [GcSystem.endDrain]
  | other => exact { hs with }

theorem Safe.allocate (blocks : List Block) :
    Safe { s with
      objectNum := s.objectNum + 1
      uploads := s.uploads.insert s.objectNum ⟨blocks, false⟩ } := by
  refine { hs with named_lt := ?_, upload_lt := ?_, uploaded := ?_, pending := ?_,
                   watermark_le := ?_ }
  · intro id hid
    have := hs.named_lt id hid
    dsimp only
    omega
  · intro id hid
    rcases (AList.mem_insert s.uploads).mp hid with rfl | hold
    · exact Nat.lt_succ_self _
    · have := hs.upload_lt id hold
      dsimp only
      omega
  · intro id blocks' hid
    by_cases hnew : id = s.objectNum
    · subst hnew
      simp at hid
    · rw [AList.lookup_insert_ne hnew] at hid
      exact hs.uploaded id blocks' hid
  · intro id hid
    obtain ⟨hnamed, hupload, hlt⟩ := hs.pending id hid
    refine ⟨hnamed, ?_, Nat.lt_succ_of_lt hlt⟩
    rw [AList.mem_insert]
    rintro (rfl | hold)
    · exact Nat.lt_irrefl _ hlt
    · exact hupload hold
  · intro floor watermark hphase
    have := hs.watermark_le floor watermark hphase
    dsimp only
    omega

theorem Safe.uploadOk {id : Nat} {blocks : List Block}
    (hlookup : s.uploads.lookup id = some ⟨blocks, false⟩) :
    Safe { s with
      uploads := s.uploads.insert id ⟨blocks, true⟩
      chunks := id :: s.chunks } := by
  have hmem : id ∈ s.uploads := by
    rw [← AList.lookup_isSome, hlookup]
    rfl
  have hsame : ∀ other, other ∈ s.uploads.insert id ⟨blocks, true⟩ ↔ other ∈ s.uploads := by
    intro other
    rw [AList.mem_insert]
    constructor
    · rintro (rfl | hold)
      · exact hmem
      · exact hold
    · exact .inr
  refine { hs with upload_lt := ?_, uploaded := ?_, mapClosed := ?_, pending := ?_ }
  · intro other hother
    exact hs.upload_lt other ((hsame other).mp hother)
  · intro other blocks' hother
    by_cases hid : other = id
    · exact hid ▸ List.mem_cons_self
    · rw [AList.lookup_insert_ne hid] at hother
      exact List.mem_cons_of_mem _ (hs.uploaded other blocks' hother)
  · intro other hother
    exact List.mem_cons_of_mem _ (hs.mapClosed other hother)
  · intro other hother
    obtain ⟨hnamed, hupload, hlt⟩ := hs.pending other hother
    exact ⟨hnamed, fun h => hupload ((hsame other).mp h), hlt⟩

theorem Safe.uploadFailed (id : Nat) (landed : Bool) (drain : DrainPhase) :
    Safe { s with
      uploads := s.uploads.erase id
      chunks := if landed then id :: s.chunks else s.chunks
      drain := drain } := by
  have hold : ∀ other, other ∈ s.uploads.erase id → other ∈ s.uploads :=
    fun other h => (AList.mem_erase.mp h).2
  have hchunks : ∀ other ∈ s.chunks, other ∈ if landed then id :: s.chunks else s.chunks := by
    intro other hother
    split
    · exact List.mem_cons_of_mem _ hother
    · exact hother
  exact { hs with
    upload_lt := fun other hother => hs.upload_lt other (hold other hother)
    uploaded := fun other blocks hother =>
      hchunks other (hs.uploaded other blocks (FiniteMap.lookup_erase_eq_some hother).2)
    mapClosed := fun other hother => hchunks other (hs.mapClosed other hother)
    pending := fun other hother =>
      (hs.pending other hother).imp_right (And.imp_left fun hupload h => hupload (hold other h)) }

theorem Safe.publish {id : Nat} {blocks : List Block}
    (hlookup : s.uploads.lookup id = some ⟨blocks, true⟩) :
    Safe { s with
      uploads := s.uploads.erase id
      blocksToObject := publishChunk stride id s.blocksToObject blocks
      dirty := true } := by
  have hmem : id ∈ s.uploads := by
    rw [← AList.lookup_isSome, hlookup]
    rfl
  have hold : ∀ other, other ∈ s.uploads.erase id → other ∈ s.uploads :=
    fun other h => (AList.mem_erase.mp h).2
  refine { hs with
    sound := hs.sound.publishChunk blocks
    named_lt := ?_
    upload_lt := fun other hother => hs.upload_lt other (hold other hother)
    uploaded := fun other blocks' hother =>
      hs.uploaded other blocks' (FiniteMap.lookup_erase_eq_some hother).2
    mapClosed := ?_
    pending := ?_ }
  · intro other hother
    rcases mem_objectIDs_publishChunk hs.sound hother with hnamed | rfl
    · exact hs.named_lt other hnamed
    · exact hs.upload_lt other hmem
  · intro other hother
    rcases mem_objectIDs_publishChunk hs.sound hother with hnamed | rfl
    · exact hs.mapClosed other hnamed
    · exact hs.uploaded other blocks hlookup
  · intro other hother
    obtain ⟨hnamed, hupload, hlt⟩ := hs.pending other hother
    refine ⟨?_, fun h => hupload (hold other h), hlt⟩
    intro hother'
    rcases mem_objectIDs_publishChunk hs.sound hother' with hnamed' | rfl
    · exact hnamed hnamed'
    · exact hupload hmem

theorem drainStep_safe (hstep : DrainStep stride s t) :
    Safe t := by
  cases hstep with
  | beginOther _ => exact { hs with }
  | beginSweep _ _ =>
    exact { hs with pending := by simp [pendingDeletes], watermark_le := by simp }
  | allocate blocks _ => exact hs.allocate blocks
  | uploadOk _ hlookup => exact hs.uploadOk hlookup
  | uploadFailed id landed _ => exact hs.uploadFailed id landed _
  | publish hlookup => exact hs.publish hlookup
  | save _ _ => exact { hs with }
  | serialize _ => exact { hs with }
  | putOk _ => exact { hs with }
  | putRetry landed _ => exact { hs with }
  | putFailed landed _ =>
    refine Safe.endDrain ?_ _ _
    exact { hs with }
  | clearDirty _ =>
    refine Safe.endDrain ?_ _ _
    exact { hs with }
  | finish _ => exact hs.endDrain _ _

end DrainSteps

section SweepSteps

variable {s t : GcState}

theorem Safe.setPhase (hs : Safe s) (phase : SweepPhase) (hpending : pendingDeletes phase = [])
    (hwatermark : ∀ floor watermark, phase ≠ .watermarked floor watermark) :
    Safe { s with sweep := phase } :=
  { hs with
    pending := by simp [hpending]
    watermark_le := fun floor watermark h => absurd h (hwatermark floor watermark) }

/-- Deleting a pending chunk removes nothing the map or an upload needs. -/
theorem Safe.deleteChunk (hs : Safe s) (id : Nat) {chunks : List Nat} {phase : SweepPhase}
    (hid : id ∈ pendingDeletes s.sweep) (hchunks : ∀ other ∈ s.chunks, other ≠ id → other ∈ chunks)
    (hpending : ∀ other ∈ pendingDeletes phase, other ∈ pendingDeletes s.sweep)
    (hwatermark : ∀ floor watermark, phase ≠ .watermarked floor watermark) :
    Safe { s with chunks := chunks, sweep := phase } := by
  obtain ⟨hnamed, hupload, -⟩ := hs.pending id hid
  refine { hs with uploaded := ?_, mapClosed := ?_,
                   pending := fun other h => hs.pending other (hpending other h),
                   watermark_le := fun floor watermark h =>
                     absurd h (hwatermark floor watermark) }
  · intro other blocks hother
    refine hchunks other (hs.uploaded other blocks hother) ?_
    rintro rfl
    apply hupload
    rw [← AList.lookup_isSome, hother]
    rfl
  · intro other hother
    refine hchunks other (hs.mapClosed other hother) ?_
    rintro rfl
    exact hnamed hother

theorem sweepStep_safe (hs : Safe s) {a : SweepAct}
    (hallowed : uploadsUntracked s (.sweep a) = true) (hstep : SweepStep s a t) :
    Safe t := by
  cases hstep with
  | stop => exact hs.setPhase _ rfl (by simp)
  | cached _ _ _ => exact hs.setPhase _ rfl (by simp)
  | readBaseline _ _ _ => exact hs.setPhase _ rfl (by simp)
  | listPrefixes _ => exact hs.setPhase _ rfl (by simp)
  | scanSafe _ => exact { hs.setPhase .safe rfl (by simp) with }
  | scanUnsafe _ => exact { hs.setPhase .idle rfl (by simp) with }
  | probeNext _ _ => exact hs.setPhase _ rfl (by simp)
  | skipListing _ => exact hs.setPhase _ rfl (by simp)
  | list _ => exact hs.setPhase _ rfl (by simp)
  | reconcile _ =>
    have hphase := hs.setPhase .reconciled rfl (by simp)
    exact { hphase with
      sound := mapRefs_sound hs.sound fun rc _ id => getD_foldl_trackRef _ rc id }
  | readFloor cached _ => exact { hs.setPhase (.floored _) rfl (by simp) with }
  | readWatermark _ =>
    refine { hs with pending := by simp [pendingDeletes], watermark_le := ?_ }
    intro floor watermark hphase
    simp only [SweepPhase.watermarked.injEq] at hphase
    exact Nat.le_of_eq hphase.2.symm
  | select hphase =>
    refine { hs with pending := ?_, watermark_le := by simp }
    intro id hid
    obtain ⟨hzero, hfloor, hlt⟩ := mem_sweepCandidates_iff.mp hid
    refine ⟨not_mem_objectIDs_of_zero hs.sound hzero, ?_,
      Nat.lt_of_lt_of_le hlt (hs.watermark_le _ _ hphase)⟩
    -- this is where the guard of the run is needed
    intro hupload
    simp only [uploadsUntracked, hphase, List.all_eq_true, Bool.not_eq_true',
      decide_eq_false_iff_not] at hallowed
    exact hallowed id (AList.mem_keys.mp hupload) ⟨hfloor, hlt, hzero⟩
  | markerSame hphase _ =>
    refine { hs with pending := ?_, watermark_le := by simp }
    intro id hid
    exact hs.pending id (by rw [hphase]; exact hid)
  | markerMoved _ => exact { hs.setPhase .idle rfl (by simp) with }
  | @deleteOk id candidates _ hphase =>
    refine hs.deleteChunk id ?_ ?_ ?_ (by simp)
    · rw [hphase]
      exact List.mem_cons_self
    · intro other hother hne
      simp [hother, hne]
    · intro other hother
      rw [hphase]
      exact hother
  | @deleteFailed id candidates landed hphase =>
    refine hs.deleteChunk id ?_ ?_ ?_ (by simp)
    · rw [hphase]
      exact List.mem_cons_self
    · intro other hother hne
      split
      · simp [hother, hne]
      · exact hother
    · intro other hother
      rw [hphase]
      exact List.mem_cons_of_mem _ hother
  | untrack hphase =>
    have hpending := hs.pending
    rw [hphase] at hpending
    obtain ⟨hnamed, -, -⟩ := hpending _ List.mem_cons_self
    refine { hs with sound := eraseRef_sound hs.sound hnamed,
                     pending := ?_, watermark_le := by simp }
    intro id hid
    exact hpending id (List.mem_cons_of_mem _ hid)

end SweepSteps

section Runs

variable {stride : Nat} {s t : GcState}

theorem snapshotStep_safe (hs : Safe s) {a : SnapshotAct} (hstep : SnapshotStep stride s a t) :
    Safe t := by
  cases hstep <;> exact { hs with }

theorem step_safe (hs : Safe s) {a : Act} (hallowed : uploadsUntracked s a = true)
    (hstep : step stride s a = some t) :
    Safe t := by
  cases a with
  | drain a => exact drainStep_safe hs (drainStep_inv hstep)
  | sweep a => exact sweepStep_safe hs hallowed (sweepStep_inv hstep)
  | snapshot a => exact snapshotStep_safe hs (snapshotStep_inv hstep)

theorem opened_safe {volume : Volume} {loaded : List BlockLookup} {objectNum : Nat}
    (hoffset : ∀ rec ∈ loaded, rec.objectOffset < 2 ^ 32)
    (hclosed : ∀ rec ∈ loaded, rec.objectID ∈ volume.chunks) :
    Safe (opened stride volume loaded objectNum) := by
  have hnamed : ∀ id ∈ (parseBlockCheckpoint true stride loaded).blockLookup.objectIDs,
      ∃ rec ∈ loaded, rec.objectID = id := by
    intro id hid
    exact List.mem_map.mp (mem_records_of_mem_objectIDs hoffset hid)
  refine ⟨parseBlockCheckpoint_sound _ _ hoffset, ?_, ?_, ?_, ?_, ?_, ?_⟩
  · intro id hid
    obtain ⟨rec, hrec, rfl⟩ := hnamed id hid
    exact (lt_raiseObjectNum _ _).2 rec hrec
  · intro id hid
    exact absurd hid (AList.notMem_empty id)
  · intro id blocks hid
    simp [opened] at hid
  · intro id hid
    obtain ⟨rec, hrec, rfl⟩ := hnamed id hid
    exact hclosed rec hrec
  · simp [opened, pendingDeletes]
  · simp [opened]

/-- In a run whose sweeps select no chunk of a running upload, every chunk the
block map names exists in every state reached. -/
theorem mapClosed_of_run {volume : Volume} {loaded : List BlockLookup} {objectNum : Nat}
    {acts : List Act} (hoffset : ∀ rec ∈ loaded, rec.objectOffset < 2 ^ 32)
    (hclosed : ∀ rec ∈ loaded, rec.objectID ∈ volume.chunks)
    (hrun : Run (step stride) (fun s a => uploadsUntracked s a = true) (opened stride volume loaded
      objectNum) acts s) :
    MapClosed s :=
  (hrun.preserves (fun _ _ _ hs hallowed hstep => step_safe hs hallowed hstep)
    (opened_safe hoffset hclosed)).mapClosed

/-- The checkpoint of a volume whose block 0 is the only block of chunk 0. -/
def oneBlock : List BlockLookup :=
  [{ startBlock := 0, numBlocks := 1, objectID := 0, objectOffset := 10,
     seqNum := 1, seqNums := [] }]

def oneBlockVolume : Volume :=
  { chunks := [0], live := some oneBlock, numbered := none, marker := none
    snapshots := ∅, clock := 0 }

/-- A sweep whose own drain rewrites block 0 into chunk 1 and saves the map
before the sweep deletes chunk 0. -/
def rewriteThenSweep : List Act :=
  [.drain (.begin .sweep), .drain (.allocate [⟨[], 2, 0, 4096⟩]),
    .drain (.upload 1 true true), .drain (.publish 1), .drain .finishUploads,
    .drain .serialize, .drain (.put true true), .drain .clearDirty,
    .sweep .readBaseline, .sweep .listPrefixes, .sweep .probe,
    .sweep (.listChunks true), .sweep .reconcile, .sweep (.readFloor true),
    .sweep .readWatermark, .sweep .select, .sweep .checkMarker,
    .sweep (.delete true true), .sweep .untrack]

/-- That run deletes chunk 0 and keeps the map closed. -/
theorem mapClosed_rewriteThenSweep :
    ∃ s, Run (step 4096) (fun s a => uploadsUntracked s a = true)
        (opened 4096 oneBlockVolume oneBlock 1) rewriteThenSweep s ∧
      s.chunks = [1] ∧ MapClosed s := by
  obtain ⟨s, hrun, hchunks⟩ := Run.exists_of_exec
    (step 4096) (fun s a => uploadsUntracked s a = true)
    (opened 4096 oneBlockVolume oneBlock 1) rewriteThenSweep
    (fun s => s.chunks == [1]) (by decide)
  exact ⟨s, hrun, by simpa using hchunks, mapClosed_of_run (by decide) (by decide) hrun⟩

/-- A sweep reconciles while another drain has uploaded chunk 0 of an empty
volume and not yet published it. -/
def uploadRace : List Act :=
  [.drain (.begin .sweep), .drain .finishUploads, .drain .serialize,
    .sweep .readBaseline, .sweep .listPrefixes, .sweep .probe,
    .drain (.begin .other), .drain (.allocate [⟨[], 1, 0, 4096⟩]),
    .drain (.upload 0 true true),
    .sweep (.listChunks true), .sweep .reconcile, .sweep (.readFloor true),
    .sweep .readWatermark, .sweep .select, .sweep .checkMarker,
    .sweep (.delete true true), .sweep .untrack, .drain (.publish 0)]

/-- The map then names a chunk the sweep has deleted. -/
theorem uploadRace_loses_published_chunk :
    ∃ s, Run (step 4096) (fun _ _ => True)
        (opened 4096 ⟨[], none, none, none, ∅, 0⟩ [] 0) uploadRace s ∧
      ¬ MapClosed s := by
  obtain ⟨s, hrun, hlost⟩ := Run.exists_of_exec
    (step 4096) (fun _ _ => True)
    (opened 4096 ⟨[], none, none, none, ∅, 0⟩ [] 0) uploadRace
    (fun s => !decide (MapClosed s)) (by decide)
  exact ⟨s, hrun, by simpa using hlost⟩

end Runs

/-- The invariant behind the closure of the stored live checkpoint. -/
structure LiveSafe (stride : Nat) (s : GcState) : Prop extends Safe s where
  liveClosed : LiveClosed s
  pending_live : ∀ id ∈ pendingDeletes s.sweep,
    ∀ checkpoint, s.live = some checkpoint → ∀ rec ∈ checkpoint, rec.objectID ≠ id
  putting : ∀ trigger checkpoint attempt, s.drain = .putting trigger checkpoint attempt →
      checkpoint = checkpointRecords stride s.blocksToObject.blockLookup
  uploads_empty : (∀ trigger failed, s.drain ≠ .uploading trigger failed) → s.uploads = ∅

section LiveSteps

variable {stride : Nat} {s t : GcState}

/-- A checkpoint of the current map names existing chunks, none of them pending. -/
theorem Safe.checkpoint_closed (hs : Safe s) {rec : BlockLookup}
    (hrec : rec ∈ checkpointRecords stride s.blocksToObject.blockLookup) :
    rec.objectID ∈ s.chunks ∧ ∀ id ∈ pendingDeletes s.sweep, rec.objectID ≠ id := by
  have hnamed := objectID_mem_of_mem_checkpointRecords hrec
  refine ⟨hs.mapClosed _ hnamed, ?_⟩
  rintro id hid rfl
  exact (hs.pending _ hid).1 hnamed

section

variable (hs : LiveSafe stride s)

include hs

theorem LiveSafe.endDrain (hempty : s.uploads = ∅) (trigger : Trigger) (ok : Bool) :
    LiveSafe stride (endDrain s trigger ok) := by
  refine { hs.toSafe.endDrain trigger ok with
    liveClosed := hs.liveClosed
    pending_live := ?_
    putting := by simp [GcSystem.endDrain]
    uploads_empty := fun _ => hempty }
  cases trigger with
  | sweep => cases ok <;> simp [GcSystem.endDrain, pendingDeletes]
  | other => exact hs.pending_live

theorem LiveSafe.storeLive {trigger : Trigger} {checkpoint : List BlockLookup} {attempt : Nat}
    (hdrain : s.drain = .putting trigger checkpoint attempt) :
    LiveSafe stride { s with live := some checkpoint } := by
  have hrecords := hs.putting _ _ _ hdrain
  subst hrecords
  refine { hs with liveClosed := ?_, pending_live := ?_ }
  · intro stored hstored rec hrec
    cases hstored
    exact (hs.toSafe.checkpoint_closed hrec).1
  · intro id hid stored hstored rec hrec
    cases hstored
    exact (hs.toSafe.checkpoint_closed hrec).2 id hid

/-- A failed attempt stores the serialised map or nothing. -/
theorem LiveSafe.tryLive {trigger : Trigger} {checkpoint : List BlockLookup} {attempt : Nat}
    (hdrain : s.drain = .putting trigger checkpoint attempt) (landed : Bool) :
    LiveSafe stride { s with live := if landed then some checkpoint else s.live } := by
  cases landed with
  | false => exact hs
  | true => exact hs.storeLive hdrain

theorem drainStep_liveSafe (hstep : DrainStep stride s t) :
    LiveSafe stride t := by
  have hsafe := drainStep_safe hs.toSafe hstep
  cases hstep with
  | beginOther hidle =>
    exact { hsafe with
      liveClosed := hs.liveClosed
      pending_live := hs.pending_live
      putting := by simp
      uploads_empty := by simp }
  | beginSweep hidle _ =>
    exact { hsafe with
      liveClosed := hs.liveClosed
      pending_live := by simp [pendingDeletes]
      putting := by simp
      uploads_empty := by simp }
  | allocate blocks hdrain =>
    exact { hsafe with
      liveClosed := hs.liveClosed
      pending_live := hs.pending_live
      putting := hs.putting
      uploads_empty := fun h => absurd hdrain (h _ _) }
  | uploadOk hdrain hlookup =>
    exact { hsafe with
      liveClosed := fun checkpoint h rec hrec =>
        List.mem_cons_of_mem _ (hs.liveClosed checkpoint h rec hrec)
      pending_live := hs.pending_live
      putting := hs.putting
      uploads_empty := fun h => absurd hdrain (h _ _) }
  | uploadFailed id landed hdrain =>
    refine { hsafe with
      liveClosed := ?_
      pending_live := hs.pending_live
      putting := by simp
      uploads_empty := by simp }
    intro checkpoint h rec hrec
    have hold := hs.liveClosed checkpoint h rec hrec
    dsimp only
    split
    · exact List.mem_cons_of_mem _ hold
    · exact hold
  | publish hlookup =>
    -- an upload is running, so no serialised map is on its way
    have hbusy : ¬ ∀ trigger failed, s.drain ≠ .uploading trigger failed := by
      intro hidle
      rw [hs.uploads_empty hidle] at hlookup
      simp at hlookup
    refine { hsafe with
      liveClosed := hs.liveClosed
      pending_live := hs.pending_live
      putting := ?_
      uploads_empty := fun h => absurd h hbusy }
    intro trigger checkpoint attempt hdrain
    exact absurd (fun _ _ => by simp [show s.drain = _ from hdrain]) hbusy
  | save hdrain hempty =>
    exact { hsafe with
      liveClosed := hs.liveClosed
      pending_live := hs.pending_live
      putting := by simp
      uploads_empty := fun _ => hempty }
  | serialize hdrain =>
    refine { hsafe with
      liveClosed := hs.liveClosed
      pending_live := hs.pending_live
      putting := ?_
      uploads_empty := fun _ => hs.uploads_empty (by simp [hdrain]) }
    intro trigger checkpoint attempt hput
    simp only [DrainPhase.putting.injEq] at hput
    exact hput.2.1.symm
  | putOk hdrain =>
    have hstored := hs.storeLive hdrain
    exact { hsafe with
      liveClosed := hstored.liveClosed
      pending_live := hstored.pending_live
      putting := by simp
      uploads_empty := fun _ => hs.uploads_empty (by simp [hdrain]) }
  | putRetry landed hdrain =>
    have htried := hs.tryLive hdrain landed
    refine { hsafe with
      liveClosed := htried.liveClosed
      pending_live := htried.pending_live
      putting := ?_
      uploads_empty := fun _ => hs.uploads_empty (by simp [hdrain]) }
    intro trigger checkpoint attempt hput
    simp only [DrainPhase.putting.injEq] at hput
    rw [← hput.2.1]
    exact hs.putting _ _ _ hdrain
  | putFailed landed hdrain =>
    exact (hs.tryLive hdrain landed).endDrain
      (hs.uploads_empty (by simp [hdrain])) _ _
  | clearDirty hdrain =>
    have hclean : LiveSafe stride { s with dirty := false } := { hs with }
    exact hclean.endDrain (hs.uploads_empty (by simp [hdrain])) _ _
  | finish hcases =>
    refine hs.endDrain ?_ _ _
    rcases hcases with hempty | hidle
    · exact hempty
    · exact hs.uploads_empty hidle

theorem sweepStep_liveSafe {a : SweepAct} (huploads : uploadsUntracked s (.sweep a) = true)
    (hlive : liveUntracked s (.sweep a) = true) (hstep : SweepStep s a t) :
    LiveSafe stride t := by
  have hsafe := sweepStep_safe hs.toSafe huploads hstep
  cases hstep with
  | select hphase =>
    refine { hsafe with
      liveClosed := hs.liveClosed
      pending_live := ?_
      putting := hs.putting
      uploads_empty := hs.uploads_empty }
    intro id hid checkpoint hcheckpoint rec hrec heq
    obtain ⟨hzero, hfloor, hlt⟩ := mem_sweepCandidates_iff.mp hid
    have hstored : s.live = some checkpoint := hcheckpoint
    simp only [liveUntracked, hphase, hstored, Option.getD_some, List.all_eq_true,
      Bool.not_eq_true', decide_eq_false_iff_not] at hlive
    apply hlive rec hrec
    rw [heq]
    exact ⟨hfloor, hlt, hzero⟩
  | markerSame hphase _ =>
    refine { hsafe with
      liveClosed := hs.liveClosed
      pending_live := ?_
      putting := hs.putting
      uploads_empty := hs.uploads_empty }
    intro id hid
    exact hs.pending_live id (by rw [hphase]; exact hid)
  | @deleteOk id candidates _ hphase =>
    have hpending := hs.pending_live
    rw [hphase] at hpending
    refine { hsafe with
      liveClosed := ?_
      pending_live := fun other hother => hpending other hother
      putting := hs.putting
      uploads_empty := hs.uploads_empty }
    intro checkpoint hcheckpoint rec hrec
    have hne := hpending id List.mem_cons_self checkpoint hcheckpoint rec hrec
    simp [hs.liveClosed checkpoint hcheckpoint rec hrec, hne]
  | @deleteFailed id candidates landed hphase =>
    have hpending := hs.pending_live
    rw [hphase] at hpending
    refine { hsafe with
      liveClosed := ?_
      pending_live := fun other hother =>
        hpending other (List.mem_cons_of_mem _ hother)
      putting := hs.putting
      uploads_empty := hs.uploads_empty }
    intro checkpoint hcheckpoint rec hrec
    have hne := hpending id List.mem_cons_self checkpoint hcheckpoint rec hrec
    have hold := hs.liveClosed checkpoint hcheckpoint rec hrec
    dsimp only
    split
    · simp [hold, hne]
    · exact hold
  | untrack hphase =>
    have hpending := hs.pending_live
    rw [hphase] at hpending
    exact { hsafe with
      liveClosed := hs.liveClosed
      pending_live := fun other hother =>
        hpending other (List.mem_cons_of_mem _ hother)
      putting := hs.putting
      uploads_empty := hs.uploads_empty }
  | _ =>
    exact { hsafe with
      liveClosed := hs.liveClosed
      pending_live := by simp [pendingDeletes]
      putting := hs.putting
      uploads_empty := hs.uploads_empty }

theorem step_liveSafe {a : Act} (hallowed : uploadsUntracked s a = true ∧ liveUntracked s a = true)
    (hstep : step stride s a = some t) :
    LiveSafe stride t := by
  cases a with
  | drain a => exact drainStep_liveSafe hs (drainStep_inv hstep)
  | sweep a =>
    exact sweepStep_liveSafe hs hallowed.1 hallowed.2 (sweepStep_inv hstep)
  | snapshot a =>
    have hinv := snapshotStep_inv hstep
    cases hinv <;> exact { hs with }

end

/-- In a run whose sweeps select no chunk of a running upload and no chunk the
stored live checkpoint names, every chunk that checkpoint names exists in every
state reached. -/
theorem liveClosed_of_run {volume : Volume} {loaded : List BlockLookup} {objectNum : Nat}
    {acts : List Act} (hoffset : ∀ rec ∈ loaded, rec.objectOffset < 2 ^ 32)
    (hclosed : ∀ rec ∈ loaded, rec.objectID ∈ volume.chunks)
    (hlive : ∀ rec ∈ volume.live.getD [], rec.objectID ∈ volume.chunks)
    (hrun : Run (step stride) (fun s a => uploadsUntracked s a = true ∧ liveUntracked s a = true)
      (opened stride volume loaded objectNum) acts s) :
    LiveClosed s := by
  have hopened : LiveSafe stride (opened stride volume loaded objectNum) :=
    { opened_safe hoffset hclosed with
      liveClosed := by
        intro checkpoint hcheckpoint rec hrec
        have hstored : volume.live = some checkpoint := hcheckpoint
        rw [hstored] at hlive
        exact hlive rec hrec
      pending_live := by simp [opened, pendingDeletes]
      putting := by simp [opened]
      uploads_empty := fun _ => rfl }
  exact (hrun.preserves
    (fun _ _ _ hs hallowed hstep => step_liveSafe hs hallowed hstep)
    hopened).liveClosed

/-- The rewriting sweep keeps the stored checkpoint closed as well. -/
theorem liveClosed_rewriteThenSweep :
    ∃ s, Run (step 4096)
        (fun s a => uploadsUntracked s a = true ∧ liveUntracked s a = true)
        (opened 4096 oneBlockVolume oneBlock 1) rewriteThenSweep s ∧
      s.chunks = [1] ∧ LiveClosed s := by
  obtain ⟨s, hrun, hchunks⟩ := Run.exists_of_exec
    (step 4096)
    (fun s a => uploadsUntracked s a = true ∧ liveUntracked s a = true)
    (opened 4096 oneBlockVolume oneBlock 1) rewriteThenSweep
    (fun s => s.chunks == [1]) (by decide)
  exact ⟨s, hrun, by simpa using hchunks,
    liveClosed_of_run (by decide) (by decide) (by decide) hrun⟩

/-- A sweep selects while another drain has published the rewrite of block 0
and not yet saved the map. -/
def unsavedRace : List Act :=
  [.drain (.begin .sweep), .drain .finishUploads, .drain .serialize,
    .sweep .readBaseline, .sweep .listPrefixes, .sweep .probe,
    .drain (.begin .other), .drain (.allocate [⟨[], 2, 0, 4096⟩]),
    .drain (.upload 1 true true), .drain (.publish 1),
    .sweep (.listChunks true), .sweep .reconcile, .sweep (.readFloor true),
    .sweep .readWatermark, .sweep .select, .sweep .checkMarker,
    .sweep (.delete true true)]

/-- The stored checkpoint then names a chunk the sweep has deleted. -/
theorem unsavedRace_loses_checkpointed_chunk :
    ∃ s, Run (step 4096) (fun _ _ => True)
        (opened 4096 oneBlockVolume oneBlock 1) unsavedRace s ∧
      ¬ LiveClosed s := by
  obtain ⟨s, hrun, hlost⟩ := Run.exists_of_exec
    (step 4096) (fun _ _ => True)
    (opened 4096 oneBlockVolume oneBlock 1) unsavedRace
    (fun s => !recordsClosed s.chunks (s.live.getD [])) (by decide)
  refine ⟨s, hrun, fun hclosed => ?_⟩
  simp [hclosed.recordsClosed] at hlost

end LiveSteps

end GcSystem

end Viperblock
