import Viperblock.Recovery
import Viperblock.Replay

/-!
# What recovery keeps

Recovery is compared with the abstract purpose of replaying a log: every block
resolves to the newest of the version in the loaded checkpoint and the versions
in the log.  `RecoveredNewest` says so of the block map, the block store and
the live checkpoint; `replayKept` is the condition on the checkpoint and the
records under which it holds, and `recoveredNewest_iff` the equivalence.
-/

namespace Viperblock

open BlockMap BlocksToObject UnifiedBlockStore

/-- The valid records of a log file. -/
def validRecords (cfg : Config) (file : Bytes) : List Block :=
  match cfg.readWALFileForRecovery file with
  | .ok blocks => blocks
  | .error _ => []

namespace Volume

variable (cfg : Config)

/-- The valid records of all local log files. -/
def walRecords (v : Volume) : List Block :=
  (sortedFiles v.files.walFiles).flatMap fun file => validRecords cfg file.2

/-- The chunks the records are replayed into. -/
def replayJobs (v : Volume) : List (List Block) :=
  chunkJobs cfg.objBlockSize (v.walRecords cfg)

/-- Object number of the first chunk of the replay. -/
def firstReplayed (v : Volume) : Nat :=
  v.reconcileObjectNum.vb.objectNum

end Volume

section Specification

variable (cfg : Config) (records : List BlockLookup) (v : Volume)

/-- A stored version of a block: where it is and what it holds.  It is in the
loaded checkpoint, or the replay has stored it. -/
inductive StoredVersion (block : Nat) : Location → Option Bytes → Prop
  | checkpoint {rec : BlockLookup}
      (hrec : (flatRecords records).lookup block = some rec) :
      StoredVersion block (recordLocation rec)
        (cfg.readSlot v.backend.chunks block (recordLocation rec))
  | replayed {j i : Nat} {job : List Block} {w : Block}
      (hjob : (v.replayJobs cfg)[j]? = some job)
      (hw : job[i]? = some w)
      (hblock : w.block = block) :
      StoredVersion block
        ⟨v.firstReplayed + j, chunkHeaderSize + i * cfg.slotSize, w.seqNum⟩
        (some w.data)

/-- The location holds the newest version of the block; without a location there
is no version. -/
def NewestAt (chunks : AList fun _ : Nat => Bytes) (block : Nat) :
    Option Location → Prop
  | none =>
    (flatRecords records).lookup block = none ∧ ∀ w ∈ v.walRecords cfg, w.block ≠ block
  | some loc =>
    StoredVersion cfg records v block loc (cfg.readSlot chunks block loc) ∧
      (∀ rec, (flatRecords records).lookup block = some rec → rec.seqNum ≤ loc.seqNum) ∧
      (∀ w ∈ v.walRecords cfg, w.block = block → w.seqNum ≤ loc.seqNum)

/-- Block map, block store and live checkpoint of `v'` resolve every block to the
newest version of the checkpoint and the log of `v`, and of every log file that
was removed the records are covered. -/
structure RecoveredNewest (v' : Volume) : Prop where
  newest : ∀ block, NewestAt cfg records v v'.backend.chunks block
    (lookupBlockToObject cfg.blockStride v'.vb.blocksToObject.blockLookup block)
  blockStore : ∀ block, v'.vb.blockStore.readEntry block =
    (lookupBlockToObject cfg.blockStride v'.vb.blocksToObject.blockLookup block).map
      fun loc => ⟨[], loc.seqNum, loc.objectID, loc.objectOffset, .persisted⟩
  live : ∃ saved, v'.backend.live = some saved ∧ ∀ block,
    ((flatRecords saved).lookup block).map recordLocation =
      lookupBlockToObject cfg.blockStride v'.vb.blocksToObject.blockLookup block
  removed : ∀ file ∈ v.files.walFiles, file ∉ v'.files.walFiles →
    ∀ w ∈ validRecords cfg file.2, ∃ loc,
      lookupBlockToObject cfg.blockStride v'.vb.blocksToObject.blockLookup w.block =
        some loc ∧ w.seqNum ≤ loc.seqNum

/-- No version of the checkpoint is newer than the record. -/
def replacesOlder (w : Block) : Bool :=
  ((flatRecords records).lookup w.block).all fun rec => decide (rec.seqNum ≤ w.seqNum)

/-- The loaded map has the block in a version that is at least as new. -/
def loadedAlready (w : Block) : Bool :=
  (lookupBlockToObject cfg.blockStride v.vb.blocksToObject.blockLookup w.block).any
    fun loc => decide (w.seqNum ≤ loc.seqNum)

/-- A run that is held back holds nothing new; one that is published replaces
nothing newer, and 32 bits hold the offsets of its slots. -/
def runKept (held : Bool) (r : PlacedRun) : Bool :=
  r.blocks.zipIdx.all fun (w, i) =>
    if held = false ∧ i < 65535 then
      replacesOlder records w &&
        decide (chunkHeaderSize + (r.runStart + i) * cfg.slotSize < 2 ^ 32)
    else loadedAlready cfg v w

/-- Every run of the replay is kept, and every checkpoint record of a block the
log does not mention was loaded. -/
def replayKept : Bool :=
  ((plan cfg.blockStride v.vb.blocksToObject.blockLookup []
      (placedRuns v.firstReplayed (v.replayJobs cfg))).all
    fun p => runKept cfg records v p.1 p.2) &&
  records.all fun rec =>
    (v.walRecords cfg).any (fun w => w.block == rec.startBlock) ||
      (lookupBlockToObject cfg.blockStride v.vb.blocksToObject.blockLookup
        rec.startBlock).isSome

end Specification

namespace Volume

section Replayed

variable {cfg : Config}

/-- The chunks of a replay on the backend. -/
def storeChunks (cfg : Config) :
    Nat → List (List Block) → (AList fun _ : Nat => Bytes) → AList fun _ : Nat => Bytes
  | _, [], chunks => chunks
  | chunkIndex, job :: jobs, chunks =>
    storeChunks cfg (chunkIndex + 1) jobs (chunks.insert chunkIndex (cfg.chunkFile job))

theorem lookup_storeChunks
    (cfg : Config) (chunkIndex : Nat) (jobs : List (List Block))
    (chunks : AList fun _ : Nat => Bytes) :
    (∀ id < chunkIndex, (storeChunks cfg chunkIndex jobs chunks).lookup id = chunks.lookup id) ∧
      ∀ j job, jobs[j]? = some job →
        (storeChunks cfg chunkIndex jobs chunks).lookup (chunkIndex + j) =
          some (cfg.chunkFile job) := by
  induction jobs generalizing chunkIndex chunks with
  | nil => exact ⟨fun _ _ => rfl, by simp⟩
  | cons job jobs ih =>
    obtain ⟨hbelow, hjobs⟩ :=
      ih (chunkIndex + 1) (chunks.insert chunkIndex (cfg.chunkFile job))
    constructor
    · intro id hid
      refine (hbelow id (by omega)).trans ?_
      exact AList.lookup_insert_ne (by omega)
    · intro j job' hj
      cases j with
      | zero =>
        obtain rfl : job = job' := by simpa using hj
        exact (hbelow chunkIndex (by omega)).trans (AList.lookup_insert _)
      | succ j =>
        have hrest := hjobs j job' hj
        rwa [Nat.add_assoc, Nat.add_comm 1 j] at hrest

theorem createChunks_ok (cfg : Config) {out : Nat → Outcome} (hout : ∀ i, out i = .ok)
    (jobs : List (List Block)) (i : Nat) (v : Volume) (hempty : v.vb.blockStore.entries = ∅) :
    v.createChunks cfg out i jobs = ({ v with
          vb :=
            { v.vb with
              objectNum := v.vb.objectNum + jobs.length
              blocksToObject :=
                (placedRuns v.vb.objectNum jobs).foldl (publishPlaced cfg.blockStride)
                  v.vb.blocksToObject
              dirty := v.vb.dirty || !jobs.isEmpty }
          backend :=
            { v.backend with
              chunks := storeChunks cfg v.vb.objectNum jobs v.backend.chunks } },
        true) := by
  induction jobs generalizing i v with
  | nil => simp [createChunks, placedRuns, storeChunks]
  | cons job jobs ih =>
    have hrun : (placedRuns v.vb.objectNum (job :: jobs)).foldl
          (publishPlaced cfg.blockStride) v.vb.blocksToObject =
        (placedRuns (v.vb.objectNum + 1) jobs).foldl (publishPlaced cfg.blockStride)
          (publishChunk cfg.blockStride v.vb.objectNum v.vb.blocksToObject job) := by
      rw [placedRuns, List.foldl_append, List.foldl_map]
      rfl
    rw [createChunks, hout, createChunkFile_ok hempty, hrun]
    refine (ih (i + 1) _ ?_).trans ?_
    · exact hempty
    simp only [storeChunks, List.length_cons, Bool.true_or, List.isEmpty_cons,
      Bool.not_false, Bool.or_true, Nat.add_assoc, Nat.add_comm 1]

/-- No whole record of the file fails to open. -/
def Intact (cfg : Config) (file : Bytes) : Prop :=
  ∀ block seqNum, cfg.readWALFileForRecovery file ≠ .error (.integrity block seqNum)

theorem intact_of_ok {file : Bytes} {blocks : List Block}
    (hread : cfg.readWALFileForRecovery file = .ok blocks) :
    Intact cfg file := by
  intro block seqNum herror
  rw [hread] at herror
  cases herror

theorem exists_readLocalWALs_ok {files : List (String × Bytes)}
    (hintact : ∀ file ∈ files, Intact cfg file.2) :
    ∃ read, readLocalWALs cfg files = .ok read := by
  induction files with
  | nil => exact ⟨[], rfl⟩
  | cons file files ih =>
    obtain ⟨name, bytes⟩ := file
    obtain ⟨read, hread⟩ := ih fun f hf => hintact f (by simp [hf])
    have hfile := hintact (name, bytes) (by simp)
    simp only [readLocalWALs, hread]
    cases hbytes : cfg.readWALFileForRecovery bytes with
    | ok blocks => exact ⟨_, rfl⟩
    | error e =>
      cases e with
      | integrity block seqNum => exact absurd hbytes (hfile block seqNum)
      | _ => exact ⟨read, rfl⟩

section

variable {read : List (String × List Block)}

theorem allBlocks_of_read {files : List (String × Bytes)}
    (hread : readLocalWALs cfg files = .ok read) :
    allBlocks read = files.flatMap fun file => validRecords cfg file.2 := by
  induction files generalizing read with
  | nil =>
    cases hread
    rfl
  | cons file files ih =>
    obtain ⟨name, bytes⟩ := file
    simp only [readLocalWALs] at hread
    cases hfile : cfg.readWALFileForRecovery bytes with
    | error e =>
      have hnone : validRecords cfg bytes = [] := by
        simp only [validRecords, hfile]
      rw [hfile] at hread
      rw [List.flatMap_cons, hnone, List.nil_append]
      cases e with
      | integrity a b => simp at hread
      | _ => exact ih hread
    | ok blocks =>
      have hvalid : validRecords cfg bytes = blocks := by
        simp only [validRecords, hfile]
      rw [hfile] at hread
      cases hrest : readLocalWALs cfg files with
      | error e => simp [hrest] at hread
      | ok more =>
        simp only [hrest] at hread
        cases hread
        rw [List.flatMap_cons, hvalid, ← ih hrest]
        rfl

theorem mem_sortedFiles_iff {files : List (String × Bytes)} {file : String × Bytes} :
    file ∈ sortedFiles files ↔ file ∈ files :=
  List.mem_insertionSort _

theorem allBlocks_eq_walRecords {v : Volume}
    (hread : readLocalWALs cfg (sortedFiles v.files.walFiles) = .ok read) :
    allBlocks read = v.walRecords cfg :=
  allBlocks_of_read hread

theorem recoverLocalWALs_of_noRecords (out : RecoverOutcomes) {v : Volume}
    (hread : readLocalWALs cfg (sortedFiles v.files.walFiles) = .ok read)
    (hnone : v.walRecords cfg = []) :
    v.recoverLocalWALs cfg out = (v.removeFiles (read.map Prod.fst) out.remove, .ok ()) := by
  have hblocks := allBlocks_eq_walRecords hread
  rw [hnone] at hblocks
  simp only [recoverLocalWALs, hread, hblocks, if_true]

theorem saveRecovered_ok {out : RecoverOutcomes} (hout : out.AllOk) (names : List String)
    {v : Volume} (hdirty : v.vb.dirty = true) :
    ∃ v', v.saveRecovered cfg out names = (v', .ok ()) ∧
      v'.vb.blocksToObject = v.vb.blocksToObject ∧
      v'.vb.blockStore = v.vb.blockStore ∧
      v'.backend.live = some (v.checkpoint cfg) ∧
      v'.backend.chunks = v.backend.chunks := by
  have hstate : ∃ saved, v.saveState cfg out.stateDisk out.stateBackend =
      (saved, true) ∧ SameBlocks v saved := by
    obtain ⟨hsame, hok⟩ := saveState_spec cfg v out.stateDisk out.stateBackend
    rw [hout.stateDisk, hout.stateBackend] at hsame hok ⊢
    exact ⟨_, Prod.ext rfl hok, hsame⟩
  obtain ⟨saved, hsaved, hsame⟩ := hstate
  have hblockState : ∃ numbered, saved.saveBlockState cfg out.blockStateDisk
      out.blockStateBackend = (numbered, true) ∧ SameBlocks saved numbered := by
    obtain ⟨hsame', hok⟩ := saveBlockState_spec cfg saved out.blockStateDisk
      out.blockStateBackend
    rw [hout.blockStateDisk, hout.blockStateBackend] at hsame' hok ⊢
    exact ⟨_, Prod.ext rfl hok, hsame'⟩
  obtain ⟨numbered, hnumbered, hsame'⟩ := hblockState
  have hdirty' : numbered.vb.dirty = true := by
    rw [hsame'.dirty, hsame.dirty, hdirty]
  have hmap : numbered.vb.blocksToObject = v.vb.blocksToObject :=
    hsame'.blocksToObject.trans hsame.blocksToObject
  simp only [saveRecovered, hsaved, hnumbered, saveLiveCheckpoint, hdirty', hout.live,
    Outcome.lands, if_true]
  refine ⟨_, rfl, hmap, hsame'.blockStore.trans hsame.blockStore, ?_,
    hsame'.chunks.trans hsame.chunks⟩
  simp only [removeFiles, checkpoint, hmap]

theorem recoverLocalWALs_of_records {out : RecoverOutcomes} {v : Volume}
    (hread : readLocalWALs cfg (sortedFiles v.files.walFiles) = .ok read) (hout : out.AllOk)
    (hempty : v.vb.blockStore.entries = ∅) (hsome : v.replayJobs cfg ≠ []) :
    let b := (placedRuns v.firstReplayed (v.replayJobs cfg)).foldl
      (publishPlaced cfg.blockStride) v.vb.blocksToObject
    ∃ v', v.recoverLocalWALs cfg out = (v', .ok ()) ∧ v'.vb.blocksToObject = b ∧
      v'.vb.blockStore = v.vb.blockStore.installMap cfg.blockStride b.blockLookup ∧
      v'.backend.live = some (checkpointRecords cfg.blockStride b.blockLookup) ∧
      v'.backend.chunks = storeChunks cfg v.firstReplayed (v.replayJobs cfg) v.backend.chunks := by
  have hblocks := allBlocks_eq_walRecords hread
  have hrecords : v.walRecords cfg ≠ [] := by
    intro hnone
    apply hsome
    rw [replayJobs, hnone]
    rfl
  have hdirty : (v.reconcileObjectNum.vb.dirty || !(v.replayJobs cfg).isEmpty) = true := by
    cases hjobs : v.replayJobs cfg with
    | nil => exact absurd hjobs hsome
    | cons job jobs => simp
  have hreplay := createChunks_ok cfg hout.chunk (v.replayJobs cfg) 0
    v.reconcileObjectNum hempty
  rw [hdirty, replayJobs] at hreplay
  simp only [recoverLocalWALs, hread, hblocks, if_neg hrecords, hreplay]
  exact saveRecovered_ok hout _ rfl

end

end Replayed

end Volume

/-- A volume right after its live checkpoint was loaded. -/
structure Loaded (cfg : Config) (records : List BlockLookup) (v : Volume) : Prop where
  sound : v.vb.blocksToObject.Sound
  record_of_lookup : ∀ block loc,
    lookupBlockToObject cfg.blockStride v.vb.blocksToObject.blockLookup block = some loc →
      ∃ rec, (flatRecords records).lookup block = some rec ∧ loc = recordLocation rec
  entries : v.vb.blockStore.entries = ∅
  extents : v.vb.blockStore.persistedExtents.WellFormed
  locate : ∀ block, v.vb.blockStore.persistedExtents.locate block =
    lookupBlockToObject cfg.blockStride v.vb.blocksToObject.blockLookup block
  objectID_lt : ∀ rec ∈ records, rec.objectID < v.vb.objectNum

theorem loaded_parseCheckpoint {cfg : Config} {records : List BlockLookup} {v : Volume}
    (hfresh : v.vb.blockStore = new)
    (hoffset : ∀ rec ∈ records, rec.objectOffset < 2 ^ 32) :
    Loaded cfg records (v.parseCheckpoint cfg records) := by
  have hsound := parseBlockCheckpoint_sound v.vb.blocksToObject.gcRefcount.isSome
    cfg.blockStride hoffset
  have hnew : new.persistedExtents.WellFormed :=
    ExtentMap.wellFormed_empty
  obtain ⟨hwf, hentries, hlocate⟩ :=
    installMap_spec cfg.blockStride hnew hsound.wf
  unfold Volume.parseCheckpoint
  rw [hfresh]
  refine ⟨hsound, ?_, hentries, hwf, ?_, ?_⟩
  · intro block loc hloc
    exact lookup_coalesce_sound (flat_flatRecords hoffset) hloc
  · intro block
    refine (hlocate block).trans ?_
    cases lookupBlockToObject cfg.blockStride _ block <;> rfl
  · exact (lt_raiseObjectNum v.vb.objectNum records).2

theorem loaded_loadLiveCheckpoint {cfg : Config} {records : List BlockLookup} {v : Volume}
    (hfresh : v.vb.blockStore = new) (hlive : v.backend.live = some records)
    (hoffset : ∀ rec ∈ records, rec.objectOffset < 2 ^ 32) :
    Loaded cfg records (v.loadLiveCheckpoint cfg) := by
  unfold Volume.loadLiveCheckpoint
  rw [hlive]
  exact loaded_parseCheckpoint hfresh hoffset

theorem loaded_new (cfg : Config) {gcEnabled : Bool} {v : Volume}
    (hmap : v.vb.blocksToObject = (VB.new gcEnabled).blocksToObject)
    (hfresh : v.vb.blockStore = new) :
    Loaded cfg [] v := by
  have hnone : ∀ block,
      lookupBlockToObject cfg.blockStride v.vb.blocksToObject.blockLookup block = none := by
    intro block
    rw [hmap]
    exact VB.lookup_new cfg.blockStride gcEnabled block
  refine ⟨?_, ?_, ?_, ?_, ?_, by simp⟩
  · rw [hmap]
    exact VB.sound_new gcEnabled
  · intro block loc hloc
    rw [hnone] at hloc
    cases hloc
  · rw [hfresh]
    rfl
  · rw [hfresh]
    exact ExtentMap.wellFormed_empty
  · intro block
    rw [hnone, hfresh]
    rfl

namespace Volume

/-- The block map once every run of the replay is published. -/
def replayedMap (cfg : Config) (v : Volume) : BlocksToObject :=
  (placedRuns v.firstReplayed (v.replayJobs cfg)).foldl (publishPlaced cfg.blockStride)
    v.vb.blocksToObject

/-- The chunks on the backend once every chunk of the replay is stored. -/
def replayedChunks (cfg : Config) (v : Volume) : AList fun _ : Nat => Bytes :=
  storeChunks cfg v.firstReplayed (v.replayJobs cfg) v.backend.chunks

end Volume

section Equivalence

variable {cfg : Config} {records : List BlockLookup} {v : Volume}

theorem length_data_of_mem_validRecords {file : Bytes} {w : Block}
    (hw : w ∈ validRecords cfg file) :
    w.data.length = cfg.blockSize := by
  unfold validRecords at hw
  cases hread : cfg.readWALFileForRecovery file with
  | error e => simp [hread] at hw
  | ok blocks =>
    rw [hread] at hw
    exact Config.length_data_of_readWALFileForRecovery hread hw

theorem length_data_of_mem_walRecords {w : Block} (hw : w ∈ v.walRecords cfg) :
    w.data.length = cfg.blockSize := by
  obtain ⟨file, -, hfile⟩ := List.mem_flatMap.mp hw
  exact length_data_of_mem_validRecords hfile

theorem flatten_replayJobs :
    (v.replayJobs cfg).flatten = sortedBlocks (v.walRecords cfg) := by
  apply flatten_chunkJobs
  intro w hw hnil
  have hlength := length_data_of_mem_walRecords hw
  have hpos := cfg.blockSize_pos
  rw [hnil, List.length_nil] at hlength
  omega

/-- Every record of the log has a newest version in some chunk of the replay. -/
theorem exists_planned (loaded : BlockMap) (ends : List Nat) {w : Block}
    (hw : w ∈ v.walRecords cfg) :
    ∃ p ∈ plan cfg.blockStride loaded ends
        (placedRuns v.firstReplayed (v.replayJobs cfg)),
      ∃ (i : Nat) (newest : Block), p.2.blocks[i]? = some newest ∧ newest.block = w.block := by
  obtain ⟨newest, hnewest, hblock⟩ := exists_mem_sortedBlocks hw
  rw [← flatten_replayJobs, ← flatten_placedRuns v.firstReplayed] at hnewest
  obtain ⟨r, hr, hmem⟩ := List.mem_flatMap.mp hnewest
  obtain ⟨p, hp, rfl⟩ := exists_mem_plan cfg.blockStride loaded ends hr
  obtain ⟨i, hi⟩ := List.mem_iff_getElem?.mp hmem
  exact ⟨p, hp, i, newest, hi, hblock⟩

theorem planned_spec {ends : List Nat} {loaded : BlockMap} {p : Bool × PlacedRun}
    (hp : p ∈ plan cfg.blockStride loaded ends (placedRuns v.firstReplayed (v.replayJobs cfg)))
    {i : Nat} {w : Block} (hw : p.2.blocks[i]? = some w) :
    IsNewest (v.walRecords cfg) w ∧ ∃ j job, (v.replayJobs cfg)[j]? = some job ∧
        p.2.chunkIndex = v.firstReplayed + j ∧ job[p.2.runStart + i]? = some w := by
  obtain ⟨j, job, hjob, hindex, -, hget⟩ :=
    exists_job_of_mem_placedRuns (mem_of_mem_plan hp)
  have hjobw := hget i w hw
  have hmem : w ∈ (v.replayJobs cfg).flatten :=
    List.mem_flatten.mpr ⟨job, List.mem_of_getElem? hjob, List.mem_of_getElem? hjobw⟩
  rw [flatten_replayJobs] at hmem
  exact ⟨isNewest_of_mem_sortedBlocks hmem, j, job, hjob, hindex, hjobw⟩

theorem slot_unique {j j' i i' : Nat} {job job' : List Block} {w w' : Block}
    (hjob : (v.replayJobs cfg)[j]? = some job) (hjob' : (v.replayJobs cfg)[j']? = some job')
    (hw : job[i]? = some w) (hw' : job'[i']? = some w') (hj : j = j')
    (hblock : w.block = w'.block) :
    i = i' := by
  subst hj
  cases hjob.symm.trans hjob'
  have hsorted := sortedBlocks_pairwise (v.walRecords cfg)
  rw [← flatten_replayJobs, List.pairwise_flatten] at hsorted
  have hjobSorted := hsorted.1 job (List.mem_of_getElem? hjob)
  obtain ⟨hi, rfl⟩ := List.getElem?_eq_some_iff.mp hw
  obtain ⟨hi', rfl⟩ := List.getElem?_eq_some_iff.mp hw'
  rcases Nat.lt_trichotomy i i' with hlt | heq | hlt
  · have := List.pairwise_iff_getElem.mp hjobSorted i i' hi hi' hlt
    omega
  · exact heq
  · have := List.pairwise_iff_getElem.mp hjobSorted i' i hi' hi hlt
    omega

theorem objectNum_le_firstReplayed :
    v.vb.objectNum ≤ v.firstReplayed :=
  (lt_raiseObjectNum _ _).1

section

variable (hv : Loaded cfg records v)

include hv

theorem Loaded.objectID_lt_firstReplayed {block : Nat} {rec : BlockLookup}
    (hrec : (flatRecords records).lookup block = some rec) :
    rec.objectID < v.firstReplayed := by
  have hlt := hv.objectID_lt rec (mem_of_lookup_flatRecords hrec).1
  have hle := objectNum_le_firstReplayed (v := v)
  omega

theorem Loaded.readSlot_loaded {block : Nat} {rec : BlockLookup}
    (hrec : (flatRecords records).lookup block = some rec) :
    cfg.readSlot (v.replayedChunks cfg) block (recordLocation rec) =
      cfg.readSlot v.backend.chunks block (recordLocation rec) := by
  have hlookup := (Volume.lookup_storeChunks cfg v.firstReplayed
    (v.replayJobs cfg) v.backend.chunks).1 rec.objectID
    (hv.objectID_lt_firstReplayed hrec)
  unfold Config.readSlot Volume.replayedChunks
  rw [show (recordLocation rec).objectID = rec.objectID from rfl, hlookup]

/-- A block the replay publishes resolves to its newest version exactly if the
checkpoint has none that is newer and the slot is addressable. -/
theorem newestAt_published_iff {ends : List Nat} {loaded : BlockMap} {p : Bool × PlacedRun}
    (hp : p ∈ plan cfg.blockStride loaded ends (placedRuns v.firstReplayed (v.replayJobs cfg)))
    {i : Nat} {w : Block} (hw : p.2.blocks[i]? = some w) :
    NewestAt cfg records v (v.replayedChunks cfg) w.block
        (some (p.2.location cfg.blockStride i w)) ↔
      replacesOlder records w = true ∧
        chunkHeaderSize + (p.2.runStart + i) * cfg.slotSize < 2 ^ 32 := by
  obtain ⟨hnewest, j, job, hjob, hindex, hslot⟩ := planned_spec hp hw
  have holder : replacesOlder records w = true ↔
      ∀ rec, (flatRecords records).lookup w.block = some rec → rec.seqNum ≤ w.seqNum := by
    unfold replacesOlder
    cases (flatRecords records).lookup w.block <;> simp
  rw [holder, ← PlacedRun.location_eq_iff]
  constructor
  · rintro ⟨hstored, hcheckpoint, -⟩
    refine ⟨hcheckpoint, ?_⟩
    generalize hloc : p.2.location cfg.blockStride i w = loc at hstored
    generalize cfg.readSlot (v.replayedChunks cfg) w.block loc = data at hstored
    have hid : loc.objectID = v.firstReplayed + j := by
      rw [← hloc]
      exact hindex
    cases hstored with
    | checkpoint hrec =>
      have hlt := hv.objectID_lt_firstReplayed hrec
      simp only [recordLocation] at hid
      omega
    | replayed hjob' hw' hblock =>
      simp only at hid
      obtain rfl := slot_unique hjob hjob' hslot hw' (by omega) hblock.symm
      have hseq : w.seqNum = _ := congrArg Location.seqNum hloc
      simp only [hindex, hid, hseq]
  · rintro ⟨hcheckpoint, hloc⟩
    have hchunk := (Volume.lookup_storeChunks cfg v.firstReplayed
      (v.replayJobs cfg) v.backend.chunks).2 j job hjob
    have hdata : ∀ b ∈ job, b.data.length = cfg.blockSize := by
      intro b hb
      have hmem : b ∈ (v.replayJobs cfg).flatten :=
        List.mem_flatten.mpr ⟨job, List.mem_of_getElem? hjob, hb⟩
      rw [flatten_replayJobs] at hmem
      exact length_data_of_mem_walRecords (isNewest_of_mem_sortedBlocks hmem).mem
    have hread : cfg.readSlot (v.replayedChunks cfg) w.block
        ⟨v.firstReplayed + j, chunkHeaderSize + (p.2.runStart + i) * cfg.slotSize,
          w.seqNum⟩ = some w.data := readSlot_chunkFile hchunk hdata hslot
    rw [hloc, hindex]
    refine ⟨?_, hcheckpoint, ?_⟩
    · rw [hread]
      exact .replayed hjob hslot rfl
    · intro other hother hblock
      exact hnewest.newest other hother hblock

/-- A block in its loaded place resolves to its newest version exactly if no
record of the log is newer. -/
theorem newestAt_loaded_iff {block : Nat} {loc : Location}
    (hloc : lookupBlockToObject cfg.blockStride v.vb.blocksToObject.blockLookup block = some loc) :
    NewestAt cfg records v (v.replayedChunks cfg) block (some loc) ↔
      ∀ w ∈ v.walRecords cfg, w.block = block → w.seqNum ≤ loc.seqNum := by
  obtain ⟨rec, hrec, rfl⟩ := hv.record_of_lookup block loc hloc
  constructor
  · rintro ⟨-, -, hlog⟩
    exact hlog
  · intro hlog
    refine ⟨?_, ?_, hlog⟩
    · rw [hv.readSlot_loaded hrec]
      exact .checkpoint hrec
    · intro rec' hrec'
      cases hrec.symm.trans hrec'
      exact Nat.le_refl _

theorem Loaded.replayedMap_spec :
    (v.replayedMap cfg).Sound ∧ (∀ p ∈ plan cfg.blockStride v.vb.blocksToObject.blockLookup []
          (placedRuns v.firstReplayed (v.replayJobs cfg)),
        ∀ i w, p.2.blocks[i]? = some w →
          lookupBlockToObject cfg.blockStride (v.replayedMap cfg).blockLookup w.block =
            if p.1 = false ∧ i < 65535 then some (p.2.location cfg.blockStride i w)
            else lookupBlockToObject cfg.blockStride v.vb.blocksToObject.blockLookup
              w.block) ∧
      (∀ block, (∀ w ∈ v.walRecords cfg, w.block ≠ block) →
        lookupBlockToObject cfg.blockStride (v.replayedMap cfg).blockLookup block =
          lookupBlockToObject cfg.blockStride v.vb.blocksToObject.blockLookup block) := by
  have hapart : (v.replayJobs cfg).flatten.Pairwise fun a b => a.block ≠ b.block := by
    rw [flatten_replayJobs]
    exact (sortedBlocks_pairwise _).imp Nat.ne_of_lt
  obtain ⟨hsound, hlands⟩ :=
    (replaying_loaded cfg.blockStride v.firstReplayed hv.sound
      (placedRuns v.firstReplayed (v.replayJobs cfg))).publishAll
      (by
        intro block loc hloc
        obtain ⟨rec, hrec, rfl⟩ := hv.record_of_lookup block loc hloc
        exact hv.objectID_lt_firstReplayed hrec)
      (placed_placedRuns v.firstReplayed hapart)
  refine ⟨hsound, hlands.inside, fun block hblock => hlands.outside block fun p hp w hw => ?_⟩
  obtain ⟨i, hi⟩ := List.mem_iff_getElem?.mp hw
  exact hblock w (planned_spec hp hi).1.mem

theorem Loaded.newestAt_planned_iff {p : Bool × PlacedRun}
    (hp : p ∈ plan cfg.blockStride v.vb.blocksToObject.blockLookup [] (placedRuns v.firstReplayed
      (v.replayJobs cfg))) {i : Nat} {w : Block} (hw : p.2.blocks[i]? = some w) :
    NewestAt cfg records v (v.replayedChunks cfg) w.block
        (lookupBlockToObject cfg.blockStride (v.replayedMap cfg).blockLookup w.block) ↔
      (if p.1 = false ∧ i < 65535 then
        replacesOlder records w &&
          decide (chunkHeaderSize + (p.2.runStart + i) * cfg.slotSize < 2 ^ 32)
      else loadedAlready cfg v w) = true := by
  obtain ⟨hnewest, -⟩ := planned_spec hp hw
  rw [hv.replayedMap_spec.2.1 p hp i w hw]
  by_cases hpublished : p.1 = false ∧ i < 65535
  · rw [if_pos hpublished, if_pos hpublished, newestAt_published_iff hv hp hw,
      Bool.and_eq_true, decide_eq_true_eq]
  · rw [if_neg hpublished, if_neg hpublished]
    unfold loadedAlready
    cases hloc : lookupBlockToObject cfg.blockStride v.vb.blocksToObject.blockLookup
        w.block with
    | none =>
      constructor
      · rintro ⟨-, hlog⟩
        exact absurd rfl (hlog w hnewest.mem)
      · simp
    | some loc =>
      rw [newestAt_loaded_iff hv hloc]
      simp only [Option.any_some, decide_eq_true_eq]
      constructor
      · intro hlog
        exact hlog w hnewest.mem rfl
      · intro hle other hother hblock
        have := hnewest.newest other hother hblock
        omega

theorem Loaded.newestAt_unlogged_iff {block : Nat}
    (hblock : ∀ w ∈ v.walRecords cfg, w.block ≠ block) :
    NewestAt cfg records v (v.replayedChunks cfg) block
        (lookupBlockToObject cfg.blockStride (v.replayedMap cfg).blockLookup block) ↔
      ((flatRecords records).lookup block ≠ none →
        (lookupBlockToObject cfg.blockStride v.vb.blocksToObject.blockLookup
          block).isSome) := by
  rw [hv.replayedMap_spec.2.2 block hblock]
  cases hloc : lookupBlockToObject cfg.blockStride v.vb.blocksToObject.blockLookup
      block with
  | none =>
    simp only [NewestAt, Option.isSome_none, Bool.false_eq_true, imp_false, not_not]
    exact ⟨fun h => h.1, fun h => ⟨h, hblock⟩⟩
  | some loc =>
    rw [newestAt_loaded_iff hv hloc]
    simp only [Option.isSome_some, implies_true, iff_true]
    intro w hw hw'
    exact absurd hw' (hblock w hw)

/-- The map after the replay resolves every block to its newest version exactly
if the replay keeps every run. -/
theorem Loaded.newest_iff :
    (∀ block, NewestAt cfg records v (v.replayedChunks cfg) block
        (lookupBlockToObject cfg.blockStride (v.replayedMap cfg).blockLookup block)) ↔
      replayKept cfg records v = true := by
  unfold replayKept
  rw [Bool.and_eq_true, List.all_eq_true, List.all_eq_true]
  constructor
  · intro hnewest
    constructor
    · intro p hp
      unfold runKept
      rw [List.all_eq_true]
      rintro ⟨w, i⟩ hw
      have hget : p.2.blocks[i]? = some w := List.mem_zipIdx_iff_getElem?.mp hw
      exact (hv.newestAt_planned_iff hp hget).mp (hnewest w.block)
    · intro rec hrec
      by_cases hlogged : ∃ w ∈ v.walRecords cfg, w.block = rec.startBlock
      · obtain ⟨w, hw, hblock⟩ := hlogged
        rw [Bool.or_eq_true, List.any_eq_true]
        exact .inl ⟨w, hw, by simp [hblock]⟩
      · have hunlogged : ∀ w ∈ v.walRecords cfg, w.block ≠ rec.startBlock := by
          intro w hw hblock
          exact hlogged ⟨w, hw, hblock⟩
        obtain ⟨last, hlast⟩ := exists_lookup_flatRecords hrec
        rw [Bool.or_eq_true]
        refine .inr ((hv.newestAt_unlogged_iff hunlogged).mp (hnewest _) ?_)
        rw [hlast]
        simp
  · rintro ⟨hruns, hrecords⟩ block
    by_cases hlogged : ∃ w ∈ v.walRecords cfg, w.block = block
    · obtain ⟨w, hw, rfl⟩ := hlogged
      obtain ⟨p, hp, i, newest, hget, hblock⟩ :=
        exists_planned v.vb.blocksToObject.blockLookup [] hw
      have hkept := hruns p hp
      unfold runKept at hkept
      rw [List.all_eq_true] at hkept
      have hat := hkept (newest, i) (List.mem_zipIdx_iff_getElem?.mpr hget)
      rw [← hblock]
      exact (hv.newestAt_planned_iff hp hget).mpr hat
    · have hunlogged : ∀ w ∈ v.walRecords cfg, w.block ≠ block := by
        intro w hw hblock
        exact hlogged ⟨w, hw, hblock⟩
      refine (hv.newestAt_unlogged_iff hunlogged).mpr ?_
      intro hsome
      obtain ⟨rec, hrec⟩ := Option.ne_none_iff_exists'.mp hsome
      obtain ⟨hmem, rfl⟩ := mem_of_lookup_flatRecords hrec
      have hor := hrecords rec hmem
      rw [Bool.or_eq_true, List.any_eq_true] at hor
      rcases hor with ⟨w, hw, hblock⟩ | hloaded
      · exact absurd (by simpa using hblock) (hunlogged w hw)
      · exact hloaded

end

theorem walRecords_of_noJobs (hjobs : v.replayJobs cfg = []) :
    v.walRecords cfg = [] := by
  rw [List.eq_nil_iff_forall_not_mem]
  intro w hw
  obtain ⟨newest, hnewest, -⟩ := exists_mem_sortedBlocks hw
  rw [← flatten_replayJobs, hjobs] at hnewest
  simp at hnewest

theorem replayedMap_of_noJobs (hjobs : v.replayJobs cfg = []) :
    v.replayedMap cfg = v.vb.blocksToObject := by
  unfold Volume.replayedMap
  rw [hjobs]
  rfl

theorem readEntry_of_locate {ubs : UnifiedBlockStore} (hempty : ubs.entries = ∅)
    (hwf : ubs.persistedExtents.WellFormed) {block : Nat} {res : Option Location}
    (hlocate : ubs.persistedExtents.locate block = res) :
    ubs.readEntry block =
      res.map fun loc => ⟨[], loc.seqNum, loc.objectID, loc.objectOffset, .persisted⟩ := by
  unfold readEntry
  rw [hempty, AList.lookup_empty, ← hlocate]
  exact ubs.readPersisted_eq hwf block

theorem Loaded.or_lookup_loaded (hv : Loaded cfg records v) (block : Nat) :
    (lookupBlockToObject cfg.blockStride (v.replayedMap cfg).blockLookup block).or
        (lookupBlockToObject cfg.blockStride v.vb.blocksToObject.blockLookup block) =
      lookupBlockToObject cfg.blockStride (v.replayedMap cfg).blockLookup block := by
  obtain ⟨-, hplanned, hunlogged⟩ := hv.replayedMap_spec
  by_cases hlogged : ∃ w ∈ v.walRecords cfg, w.block = block
  · obtain ⟨w, hw, rfl⟩ := hlogged
    obtain ⟨p, hp, i, newest, hget, hblock⟩ :=
      exists_planned v.vb.blocksToObject.blockLookup [] hw
    rw [← hblock, hplanned p hp i newest hget]
    split
    · rfl
    · exact Option.or_self
  · rw [hunlogged block fun w hw hblock => hlogged ⟨w, hw, hblock⟩]
    exact Option.or_self

theorem not_recoveredNewest_of_lookup_none {v' : Volume} {w : Block} (hw : w ∈ v.walRecords cfg)
    (hnone : lookupBlockToObject cfg.blockStride v'.vb.blocksToObject.blockLookup w.block = none) :
    ¬ RecoveredNewest cfg records v v' := by
  intro hnewest
  have hat := hnewest.newest w.block
  rw [hnone] at hat
  exact hat.2 w hw rfl

section

variable (hv : Loaded cfg records v)

include hv

theorem Loaded.readEntry_recovered {v' : Volume} (hmap : v'.vb.blocksToObject = v.replayedMap cfg)
    (hstore : v'.vb.blockStore = v.vb.blockStore ∧ v.replayJobs cfg = [] ∨ v'.vb.blockStore =
      v.vb.blockStore.installMap cfg.blockStride (v.replayedMap cfg).blockLookup) (block : Nat) :
    v'.vb.blockStore.readEntry block =
      (lookupBlockToObject cfg.blockStride v'.vb.blocksToObject.blockLookup block).map
        fun loc => ⟨[], loc.seqNum, loc.objectID, loc.objectOffset, .persisted⟩ := by
  rw [hmap]
  rcases hstore with ⟨hstore, hjobs⟩ | hstore
  · rw [hstore, replayedMap_of_noJobs hjobs]
    exact readEntry_of_locate hv.entries hv.extents (hv.locate block)
  · obtain ⟨hwf, hentries, hlocate⟩ :=
      installMap_spec cfg.blockStride hv.extents
        hv.replayedMap_spec.1.wf
    rw [hstore]
    refine readEntry_of_locate (hentries.trans hv.entries) hwf ?_
    rw [hlocate, hv.locate, hv.or_lookup_loaded]

theorem Loaded.recoveredNewest {v' : Volume} (hmap : v'.vb.blocksToObject = v.replayedMap cfg)
    (hchunks : v'.backend.chunks = v.replayedChunks cfg)
    (hstore : v'.vb.blockStore = v.vb.blockStore ∧ v.replayJobs cfg = [] ∨ v'.vb.blockStore =
      v.vb.blockStore.installMap cfg.blockStride (v.replayedMap cfg).blockLookup)
    (hlive : v'.backend.live = some records ∧ v.replayJobs cfg = [] ∨ v'.backend.live = some
      (checkpointRecords cfg.blockStride (v.replayedMap cfg).blockLookup))
    (hkept : replayKept cfg records v = true) :
    RecoveredNewest cfg records v v' := by
  obtain ⟨hsound, -, hunlogged⟩ := hv.replayedMap_spec
  have hnewest := hv.newest_iff.mpr hkept
  refine ⟨?_, hv.readEntry_recovered hmap hstore, ?_, ?_⟩
  · rw [hmap, hchunks]
    exact hnewest
  · rcases hlive with ⟨hlive, hjobs⟩ | hlive
    · refine ⟨records, hlive, ?_⟩
      intro block
      have hat := hnewest block
      rw [replayedMap_of_noJobs hjobs] at hat
      rw [hmap, replayedMap_of_noJobs hjobs]
      cases hloc : lookupBlockToObject cfg.blockStride v.vb.blocksToObject.blockLookup
          block with
      | none =>
        rw [hloc] at hat
        rw [hat.1]
        rfl
      | some loc =>
        obtain ⟨rec, hrec, rfl⟩ := hv.record_of_lookup block loc hloc
        rw [hrec]
        rfl
    · refine ⟨_, hlive, ?_⟩
      intro block
      rw [hmap]
      exact lookup_checkpointRecords hsound.wf block
  · intro file hfile _ w hw
    have hmem : w ∈ v.walRecords cfg :=
      List.mem_flatMap.mpr ⟨file, Volume.mem_sortedFiles_iff.mpr hfile, hw⟩
    have hat := hnewest w.block
    rw [hmap]
    cases hloc : lookupBlockToObject cfg.blockStride (v.replayedMap cfg).blockLookup
        w.block with
    | none =>
      rw [hloc] at hat
      exact absurd rfl (hat.2 w hmem)
    | some loc =>
      rw [hloc] at hat
      exact ⟨loc, rfl, hat.2.2 w hmem rfl⟩

theorem Loaded.recovered {read : List (String × List Block)}
    (hread : readLocalWALs cfg (sortedFiles v.files.walFiles) = .ok read) {out : RecoverOutcomes}
    (hout : out.AllOk) :
    ∃ v', v.recoverLocalWALs cfg out = (v', .ok ()) ∧ v'.vb.blocksToObject = v.replayedMap cfg ∧
      v'.backend.chunks = v.replayedChunks cfg ∧
      (v'.vb.blockStore = v.vb.blockStore ∧ v.replayJobs cfg = [] ∨ v'.vb.blockStore =
          v.vb.blockStore.installMap cfg.blockStride (v.replayedMap cfg).blockLookup) ∧
      (v'.backend.live = v.backend.live ∧ v.replayJobs cfg = [] ∨ v'.backend.live =
          some (checkpointRecords cfg.blockStride (v.replayedMap cfg).blockLookup)) := by
  by_cases hjobs : v.replayJobs cfg = []
  · have hrecover := Volume.recoverLocalWALs_of_noRecords out hread
      (walRecords_of_noJobs hjobs)
    refine ⟨_, hrecover, (replayedMap_of_noJobs hjobs).symm, ?_, .inl ⟨rfl, hjobs⟩,
      .inl ⟨rfl, hjobs⟩⟩
    unfold Volume.replayedChunks
    rw [hjobs]
    rfl
  · obtain ⟨v', hrecover, hmap, hstore, hlive', hchunks⟩ :=
      Volume.recoverLocalWALs_of_records hread hout hv.entries hjobs
    exact ⟨v', hrecover, hmap, hchunks, .inr hstore, .inr hlive'⟩

/-- A recovery in which no file is refused and every write succeeds returns
without error, and keeps the newest version of every block exactly if the replay
keeps every run. -/
theorem Loaded.recoveredNewest_iff (hlive : v.backend.live = some records)
    {read : List (String × List Block)}
    (hread : readLocalWALs cfg (sortedFiles v.files.walFiles) = .ok read) {out : RecoverOutcomes}
    (hout : out.AllOk) :
    (v.recoverLocalWALs cfg out).2 = .ok () ∧
      (RecoveredNewest cfg records v (v.recoverLocalWALs cfg out).1 ↔
        replayKept cfg records v = true) := by
  obtain ⟨v', hrecover, hmap, hchunks, hstore, hlive'⟩ := hv.recovered hread hout
  rw [hlive] at hlive'
  rw [hrecover]
  refine ⟨rfl, ?_, ?_⟩
  · intro hnewest
    rw [← hv.newest_iff, ← hmap, ← hchunks]
    exact hnewest.newest
  · exact hv.recoveredNewest hmap hchunks hstore hlive'

end

end Equivalence

/-- Recovery after a crash, with every log file readable and every write
succeeding, keeps the newest version of every block exactly if the replay keeps
every run. -/
theorem recovery_keeps_newest_iff
    {cfg : Config} {records : List BlockLookup} {v : Volume} {out : RecoverOutcomes}
    (hfresh : v.vb.blockStore = new)
    (hlive : v.backend.live = some records)
    (hoffset : ∀ rec ∈ records, rec.objectOffset < 2 ^ 32)
    (hread : ∀ file ∈ v.files.walFiles, ∃ blocks, cfg.readWALFileForRecovery file.2 = .ok blocks)
    (hout : out.AllOk) :
    let loaded := v.loadLiveCheckpoint cfg
    (loaded.recoverLocalWALs cfg out).2 = .ok () ∧
      (RecoveredNewest cfg records loaded (loaded.recoverLocalWALs cfg out).1 ↔
        replayKept cfg records loaded = true) := by
  have hloaded : Loaded cfg records (v.loadLiveCheckpoint cfg) :=
    loaded_loadLiveCheckpoint hfresh hlive hoffset
  have hsame : (v.loadLiveCheckpoint cfg).files = v.files ∧
      (v.loadLiveCheckpoint cfg).backend = v.backend := by
    unfold Volume.loadLiveCheckpoint Volume.parseCheckpoint
    rw [hlive]
    exact ⟨rfl, rfl⟩
  have hintact : ∀ file ∈ sortedFiles (v.loadLiveCheckpoint cfg).files.walFiles,
      Volume.Intact cfg file.2 := by
    intro file hfile
    rw [hsame.1] at hfile
    obtain ⟨blocks, hblocks⟩ := hread file (Volume.mem_sortedFiles_iff.mp hfile)
    exact Volume.intact_of_ok hblocks
  obtain ⟨read, hread⟩ := Volume.exists_readLocalWALs_ok hintact
  refine hloaded.recoveredNewest_iff ?_ hread hout
  rw [hsame.2]
  exact hlive

section Runs

/-- Every write succeeds. -/
def allOk : RecoverOutcomes := ⟨fun _ => .ok, .ok, .ok, .ok, .ok, .ok, fun _ => true⟩

theorem allOk_allOk : allOk.AllOk := ⟨fun _ => rfl, rfl, rfl, rfl, rfl, rfl⟩

/-- A checkpoint with block 5 in version 10. -/
def savedBlock : BlockLookup := ⟨[], 5, 0, 10, 10, 1⟩

/-- A volume that crashed with the given records in its log. -/
def crashed (wal : List Block) : Volume where
  vb := VB.new false
  files := ⟨none, ∅, [("wal.00000000.bin", Config.tiny.segment 0 wal)]⟩
  backend :=
    { config := none
      chunks := AList.insert 0 (Config.tiny.chunkFile [⟨[1], 10, 5, 1⟩]) ∅
      live := some [savedBlock]
      numbered := ∅ }

theorem readable_crashed {wal : List Block} (hwal : ∀ b ∈ wal, b.Fits Config.tiny) :
    Config.tiny.readWALFileForRecovery (Config.tiny.segment 0 wal) = .ok wal := by
  have hread : Config.tiny.readWALFileForRecovery (Config.tiny.segment 0 wal ++ []) =
      .ok wal := Config.readWALFileForRecovery_segment 0 hwal (by decide)
  rwa [List.append_nil] at hread

theorem walRecords_crashed {wal : List Block} (hwal : ∀ b ∈ wal, b.Fits Config.tiny) :
    ((crashed wal).loadLiveCheckpoint Config.tiny).walRecords Config.tiny = wal := by
  have hfiles : sortedFiles ((crashed wal).loadLiveCheckpoint Config.tiny).files.walFiles =
      [("wal.00000000.bin", Config.tiny.segment 0 wal)] := rfl
  unfold Volume.walRecords
  rw [hfiles]
  simp [validRecords, readable_crashed hwal]

/-- The saved block was rewritten, and its neighbour written, after the save. -/
def rewritten : List Block := [⟨[2], 11, 5, 1⟩, ⟨[3], 12, 6, 1⟩]

theorem rewritten_fits : ∀ b ∈ rewritten, b.Fits Config.tiny := by
  intro b hb
  simp only [rewritten, List.mem_cons, List.not_mem_nil, or_false] at hb
  rcases hb with rfl | rfl <;> exact ⟨rfl, by decide, by decide, by decide⟩

theorem recovery_keeps_rewritten :
    RecoveredNewest Config.tiny [savedBlock]
      ((crashed rewritten).loadLiveCheckpoint Config.tiny)
      (((crashed rewritten).loadLiveCheckpoint Config.tiny).recoverLocalWALs
        Config.tiny allOk).1 := by
  refine (recovery_keeps_newest_iff rfl rfl (by decide) ?_ allOk_allOk).2.mpr ?_
  · intro file hfile
    simp only [crashed, List.mem_singleton] at hfile
    rw [hfile]
    exact ⟨rewritten, readable_crashed rewritten_fits⟩
  · unfold replayKept Volume.replayJobs
    rw [walRecords_crashed rewritten_fits]
    decide

/-- The saved block is still in the log, next to a block written later. -/
def partlySaved : List Block := [⟨[1], 10, 5, 1⟩, ⟨[3], 12, 6, 1⟩]

theorem partlySaved_fits : ∀ b ∈ partlySaved, b.Fits Config.tiny := by
  intro b hb
  simp only [partlySaved, List.mem_cons, List.not_mem_nil, or_false] at hb
  rcases hb with rfl | rfl <;> exact ⟨rfl, by decide, by decide, by decide⟩

/-- The run of both blocks is held back because its first block is not new; the
new block is lost. -/
theorem recovery_drops_new_neighbour :
    let loaded := (crashed partlySaved).loadLiveCheckpoint Config.tiny
    let result := loaded.recoverLocalWALs Config.tiny allOk
    result.2 = .ok () ∧ lookupBlockToObject Config.tiny.blockStride
        result.1.vb.blocksToObject.blockLookup 6 = none ∧
      ¬ RecoveredNewest Config.tiny [savedBlock] loaded result.1 := by
  intro loaded result
  have hloaded : Loaded Config.tiny [savedBlock] loaded :=
    loaded_loadLiveCheckpoint rfl rfl (by decide)
  have hrecords : loaded.walRecords Config.tiny = partlySaved :=
    walRecords_crashed partlySaved_fits
  have hintact : ∀ file ∈ sortedFiles loaded.files.walFiles, Volume.Intact Config.tiny file.2 := by
    intro file hfile
    have hname : file = ("wal.00000000.bin", Config.tiny.segment 0 partlySaved) :=
      List.mem_singleton.mp (Volume.mem_sortedFiles_iff.mp hfile)
    rw [hname]
    exact Volume.intact_of_ok (readable_crashed partlySaved_fits)
  obtain ⟨read, hread⟩ := Volume.exists_readLocalWALs_ok hintact
  have hjobs : loaded.replayJobs Config.tiny ≠ [] := by
    unfold Volume.replayJobs
    rw [hrecords]
    decide
  obtain ⟨v', hresult, hmap, -, -, -⟩ :=
    Volume.recoverLocalWALs_of_records hread allOk_allOk hloaded.entries hjobs
  have hnone : lookupBlockToObject Config.tiny.blockStride
      result.1.vb.blocksToObject.blockLookup 6 = none := by
    have hfst : result.1 = v' := congrArg Prod.fst hresult
    rw [hfst, hmap]
    unfold Volume.replayJobs
    rw [hrecords]
    decide
  refine ⟨congrArg Prod.snd hresult, hnone, ?_⟩
  have hlogged : (⟨[3], 12, 6, 1⟩ : Block) ∈ loaded.walRecords Config.tiny := by
    rw [hrecords]
    decide
  exact not_recoveredNewest_of_lookup_none hlogged hnone

end Runs

end Viperblock
