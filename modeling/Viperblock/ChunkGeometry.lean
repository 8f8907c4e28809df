import Viperblock.MapWords
import Viperblock.SealedReads

/-!
# How much of a chunk the formats can address

An entry of the block map counts the blocks of a run with 16 bits and places them with
32-bit offsets, and a read asks for a run with a 32-bit length.  Counts and offsets
saturate, sums and lengths wrap.  Block and chunk size come from the configuration and are
checked against none of this.

`jobFits` is what the blocks of a chunk have to satisfy.  It is also necessary: otherwise a
block of the chunk is not in the map, is found elsewhere, or its run is asked for with a
shorter length.  The very last block, whose entry has no end in 64 bits, is left out, and so
is a run that the guard against stale drains holds back.
-/

namespace Viperblock

open BlocksToObject
open SealedReads (isJob)

/-- Every run of the job is counted by 16 bits and has a length of 32 bits, and every block
starts at an offset of 32 bits. -/
def Config.jobFits (cfg : Config) (job : List Block) : Bool :=
  ((job.splitBy consecutive).all fun run =>
      decide (run.length ≤ 65535 ∧ run.length * cfg.slotSize < 2 ^ 32)) &&
    decide (chunkHeaderSize + (job.length - 1) * cfg.slotSize < 2 ^ 32)

/-- The guard against stale drains holds back no run of the job. -/
def AllEntered (cfg : Config) (m : BlockMap) (chunkIndex : Nat) (job : List Block) : Prop :=
  ∀ p ∈ plan cfg.blockStride m [] (placedRuns chunkIndex [job]), p.1 = false

/-- The wanted blocks are blocks of the job, at their slots in the chunk. -/
def OfJob (cfg : Config) (chunkIndex : Nat) (job : List Block) (wanted : List WantedBlock) :
    Prop :=
  ∀ x ∈ wanted, ∃ i w, job[i]? = some w ∧ w.block = x.block ∧
    x.loc = cfg.slotLocation chunkIndex i w

/-- The blocks of a job are found at their slots: in the map that the chunk is published
in, and in what a checkpoint of that map is loaded as; and a read asks for all of a run. -/
structure Represented (cfg : Config) (b : BlocksToObject) (chunkIndex : Nat)
    (job : List Block) : Prop where
  published : ∀ i w, job[i]? = some w → lookupBlockToObject cfg.blockStride
        (b.publishChunkWords cfg.blockStride chunkIndex job).blockLookup w.block =
      some (cfg.slotLocation chunkIndex i w)
  reloaded : ∀ entries timestamp (v : Volume),
    entries.Perm (b.publishChunkWords cfg.blockStride chunkIndex job).blockLookup.entries →
    v.vb.blockStore = UnifiedBlockStore.new →
    ∃ loaded, v.parseCheckpointFile cfg
        (checkpointBytes cfg.version timestamp (expandEntries cfg.blockStride entries)) =
          (loaded, .ok ()) ∧
      ∀ i w, job[i]? = some w →
        lookupBlockToObject cfg.blockStride loaded.vb.blocksToObject.blockLookup w.block =
            some (cfg.slotLocation chunkIndex i w) ∧
          findBlock loaded.vb.blockStore [] w.block = .own (cfg.slotLocation chunkIndex i w)
  requested : ∀ first wanted, Requested first wanted → OfJob cfg chunkIndex job wanted →
    ∀ head rest cb, IsRun wanted head rest cb →
      cb.numBlocks = rest.length + 1 ∧ cfg.runLength cb = (rest.length + 1) * cfg.slotSize

section Jobs

variable {cfg : Config} {job : List Block}

theorem packed_of_isJob (hjob : isJob cfg job = true) (hfits : cfg.jobFits job = true) :
    Packed cfg job := by
  simp only [isJob, Bool.and_eq_true, decide_eq_true_eq, List.all_eq_true] at hjob
  simp only [Config.jobFits, Bool.and_eq_true, decide_eq_true_eq, List.all_eq_true] at hfits
  refine ⟨hjob.1, fun b hb => (hjob.2 b hb).1, fun i hi => ?_, hfits.1⟩
  have hle := Nat.mul_le_mul_right cfg.slotSize (show i ≤ job.length - 1 by omega)
  omega

theorem exists_run_of_getElem? (hsorted : job.Pairwise fun a b => a.block < b.block)
    {j : Nat} {w : Block} (hw : job[j]? = some w) :
    ∃ runStart first rest i, (runStart, first :: rest) ∈ chunkRuns job ∧
      (first :: rest)[i]? = some w ∧ runStart + i = j := by
  have hmem := List.mem_of_getElem? hw
  have hplaced : w ∈ (chunkRuns job).flatMap Prod.snd := by
    rwa [chunkRuns, flatten_placeRuns, List.flatten_splitBy]
  obtain ⟨⟨runStart, run⟩, hrun, hwrun⟩ := List.mem_flatMap.mp hplaced
  obtain ⟨i, hi⟩ := List.mem_iff_getElem?.mp hwrun
  have hget := (getElem?_of_mem_placeRuns hrun).2.2 i w hi
  rw [List.flatten_splitBy, Nat.sub_zero] at hget
  have hnodup : job.Nodup := hsorted.imp fun hlt heq => by
    rw [heq] at hlt
    exact Nat.lt_irrefl _ hlt
  cases run with
  | nil => cases hwrun
  | cons first rest =>
    refine ⟨runStart, first, rest, i, hrun, hi, ?_⟩
    exact (List.getElem?_inj (List.getElem?_eq_some_iff.mp hget).1 hnodup).mp
      (hget.trans hw.symm)

/-- A job of which nothing is held back is entered run by run, up to the count of a run. -/
theorem lookup_publishChunk_entered {b : BlocksToObject} {chunkIndex : Nat} (hb : b.Sound)
    (hsorted : job.Pairwise fun a b => a.block < b.block)
    (holder : ChunksBelow cfg.blockStride b.blockLookup chunkIndex)
    (hentered : AllEntered cfg b.blockLookup chunkIndex job)
    {runStart : Nat} {run : List Block} (hrun : (runStart, run) ∈ chunkRuns job) {i : Nat}
    {w : Block} (hw : run[i]? = some w) :
    lookupBlockToObject cfg.blockStride
        (b.publishChunk cfg.blockStride chunkIndex job).blockLookup w.block =
      if i < 65535 then
        some ((⟨chunkIndex, runStart, run⟩ : PlacedRun).location cfg.blockStride i w)
      else lookupBlockToObject cfg.blockStride b.blockLookup w.block := by
  have hruns : placedRuns chunkIndex [job] =
      (chunkRuns job).map fun run => ⟨chunkIndex, run.1, run.2⟩ := by
    simp [placedRuns]
  have hchunk : b.publishChunk cfg.blockStride chunkIndex job =
      (placedRuns chunkIndex [job]).foldl (publishPlaced cfg.blockStride) b := by
    rw [hruns, List.foldl_map]
    rfl
  have hplaced : Placed chunkIndex (placedRuns chunkIndex [job]) := by
    refine placed_placedRuns chunkIndex ?_
    rw [List.flatten_singleton]
    exact hsorted.imp fun hlt => Nat.ne_of_lt hlt
  obtain ⟨-, hlands⟩ :=
    (replaying_loaded cfg.blockStride chunkIndex hb _).publishAll holder hplaced
  have hmem : ⟨chunkIndex, runStart, run⟩ ∈ placedRuns chunkIndex [job] := by
    rw [hruns]
    exact List.mem_map.mpr ⟨_, hrun, rfl⟩
  obtain ⟨⟨held, r⟩, hp, rfl⟩ := exists_mem_plan cfg.blockStride b.blockLookup [] hmem
  obtain rfl : held = false := hentered _ hp
  have hinside := hlands.inside _ hp i w hw
  rw [hchunk, hinside]
  simp only [true_and]

/-- A request for all blocks of a run of the job. -/
def wholeRun (cfg : Config) (chunkIndex runStart : Nat) (run : List Block) :
    List WantedBlock :=
  run.zipIdx.map fun item =>
    ⟨item.2, item.1.block, cfg.slotLocation chunkIndex (runStart + item.2) item.1⟩

theorem wholeRun_spec (cfg : Config) (chunkIndex : Nat) {runStart : Nat} {first : Block}
    {rest : List Block} (hrun : (runStart, first :: rest) ∈ chunkRuns job) :
    Requested first.block (wholeRun cfg chunkIndex runStart (first :: rest)) ∧
      OfJob cfg chunkIndex job (wholeRun cfg chunkIndex runStart (first :: rest)) ∧
      ∃ head later cb, later.length = rest.length ∧
        IsRun (wholeRun cfg chunkIndex runStart (first :: rest)) head later cb := by
  have hchain : (first :: rest).IsChain fun x y => y.block = x.block + 1 :=
    isChain_of_mem_chunkRuns hrun
  have hmem : ∀ x ∈ wholeRun cfg chunkIndex runStart (first :: rest), ∃ w,
      (first :: rest)[x.blockPosition]? = some w ∧ x.block = w.block ∧
        x.loc = cfg.slotLocation chunkIndex (runStart + x.blockPosition) w := by
    intro x hx
    obtain ⟨⟨w, i⟩, hitem, rfl⟩ := List.mem_map.mp hx
    exact ⟨w, List.mem_zipIdx_iff_getElem?.mp hitem, rfl, rfl⟩
  refine ⟨⟨?_, ?_⟩, ?_, ?_⟩
  · intro x hx
    obtain ⟨w, hw, hblock, -⟩ := hmem x hx
    rw [hblock, ConsecutiveRuns.number_of_getElem? hchain hw]
  · rw [wholeRun, List.pairwise_map, List.zipIdx_eq_zip_range', ← List.pairwise_map]
    rw [List.map_snd_zip (by simp)]
    exact List.pairwise_lt_range'
  · intro x hx
    obtain ⟨w, hw, hblock, hloc⟩ := hmem x hx
    have hget := (getElem?_of_mem_placeRuns hrun).2.2 _ w hw
    rw [List.flatten_splitBy, Nat.sub_zero] at hget
    exact ⟨_, w, hget, hblock.symm, hloc⟩
  · have hcontinues : (wholeRun cfg chunkIndex runStart (first :: rest)).IsChain
        fun a b => a.continues b = true := by
      rw [List.isChain_iff_getElem]
      intro i hi
      have hlt : i + 1 < (first :: rest).length := by
        simpa [wholeRun] using hi
      have hnext := List.isChain_iff_getElem.mp hchain i hlt
      simp only [wholeRun, List.getElem_map, List.getElem_zipIdx, WantedBlock.continues,
        Config.slotLocation, hnext, beq_self_eq_true, Bool.and_self]
    obtain ⟨head, later, hwhole⟩ :=
      List.exists_cons_of_ne_nil (l := wholeRun cfg chunkIndex runStart (first :: rest))
        (by simp [wholeRun])
    refine ⟨head, later, _, ?_, ⟨?_, rfl⟩⟩
    · have hlength := congrArg List.length hwhole
      simp only [wholeRun, List.length_map, List.length_zipIdx, List.length_cons] at hlength
      omega
    · rw [hwhole] at hcontinues ⊢
      rw [List.splitBy_of_isChain (List.cons_ne_nil _ _) hcontinues]
      exact List.mem_singleton_self _

end Jobs

section Main

variable {cfg : Config} {job : List Block} {b : BlocksToObject} {objectNum : Nat}

/-- What the map says of a job that fits. -/
theorem published_of_jobFits (hb : b.Sound) (hpacked : Packed cfg job)
    (holder : ChunksBelow cfg.blockStride b.blockLookup objectNum)
    (hentered : AllEntered cfg b.blockLookup objectNum job) {i : Nat}
    {w : Block} (hw : job[i]? = some w) :
    lookupBlockToObject cfg.blockStride
        (b.publishChunk cfg.blockStride objectNum job).blockLookup w.block =
      some (cfg.slotLocation objectNum i w) := by
  obtain ⟨runStart, first, rest, k, hrun, hk, rfl⟩ :=
    exists_run_of_getElem? hpacked.ascending hw
  have hlt := (List.getElem?_eq_some_iff.mp hk).1
  have hcount := (hpacked.run _ (mem_splitBy_of_mem_chunkRuns hrun)).1
  rw [lookup_publishChunk_entered hb hpacked.ascending holder hentered hrun hk,
    if_pos (hlt.trans_le hcount)]
  exact congrArg some ((PlacedRun.location_eq_iff cfg ⟨objectNum, runStart, first :: rest⟩ k
    w).mpr (hpacked.offset _ (List.getElem?_eq_some_iff.mp hw).1))

theorem Represented.jobFits (h : Represented cfg b objectNum job) (hb : b.Sound)
    (hsorted : job.Pairwise fun a b => a.block < b.block)
    (holder : ChunksBelow cfg.blockStride b.blockLookup objectNum)
    (hentered : AllEntered cfg b.blockLookup objectNum job)
    (hwords : b.publishChunkWords cfg.blockStride objectNum job = b.publishChunk cfg.blockStride
      objectNum job) :
    cfg.jobFits job = true := by
  have hpublished := h.published
  rw [hwords] at hpublished
  -- a block beyond the count would resolve as before, and to an older chunk
  have hindex : ∀ runStart first rest, (runStart, first :: rest) ∈ chunkRuns job →
      (first :: rest).length ≤ 65535 := by
    intro runStart first rest hrun
    by_contra hlong
    have hlast := List.getElem?_eq_getElem (l := first :: rest) (i := 65535) (by omega)
    have hlookup := lookup_publishChunk_entered hb hsorted holder hentered hrun hlast
    have hget := (getElem?_of_mem_placeRuns hrun).2.2 _ _ hlast
    rw [List.flatten_splitBy, Nat.sub_zero] at hget
    rw [if_neg (Nat.lt_irrefl _), hpublished _ _ hget] at hlookup
    exact Nat.lt_irrefl _ (holder _ _ hlookup.symm)
  simp only [Config.jobFits, Bool.and_eq_true, List.all_eq_true, decide_eq_true_eq]
  constructor
  · intro run hrun
    obtain ⟨first, rest, rfl⟩ := List.exists_cons_of_ne_nil (List.ne_nil_of_mem_splitBy hrun)
    obtain ⟨i, hi⟩ := List.mem_iff_getElem?.mp
      (ConsecutiveRuns.exists_run_mem_iff.mp ⟨_, hrun, List.mem_cons_self⟩)
    obtain ⟨runStart, first', rest', k, hplaced, hk, -⟩ := exists_run_of_getElem? hsorted hi
    obtain ⟨rfl, rfl⟩ := List.cons.inj (ConsecutiveRuns.run_eq_of_number_eq hsorted hrun
      (mem_splitBy_of_mem_chunkRuns hplaced) List.mem_cons_self (List.mem_of_getElem? hk) rfl)
    obtain ⟨hrequested, hofJob, head, later, cb, hlength, hisRun⟩ :=
      wholeRun_spec cfg objectNum hplaced
    obtain ⟨-, hlen⟩ := h.requested _ _ hrequested hofJob head later cb hisRun
    refine ⟨hindex runStart first rest hplaced, ?_⟩
    rw [List.length_cons, ← hlength, ← hlen]
    exact Nat.mod_lt _ (by decide)
  · by_cases hempty : job = []
    · rw [hempty, List.length_nil, Nat.zero_sub, Nat.zero_mul]
      decide
    · have hlast := List.getElem?_eq_getElem (l := job) (i := job.length - 1)
        (by have := List.length_pos_of_ne_nil hempty; omega)
      rcases lookup_publishChunk_cases hb (hpublished _ _ hlast) with hold | hnew
      · exact absurd (holder _ _ hold) (Nat.lt_irrefl _)
      · obtain ⟨runStart, first, rest, -, -, hloc⟩ := hnew
        have hoffset := congrArg Location.objectOffset hloc
        simp only [Config.slotLocation] at hoffset
        rw [hoffset]
        exact Nat.mod_lt _ (by decide)

theorem Represented.of_packed (hb : Reachable cfg.blockStride objectNum b)
    (hroom : objectNum + 1 < 2 ^ 64) (hpacked : Packed cfg job)
    (hwidths : ∀ w ∈ job, w.block < 2 ^ 64 ∧ w.seqNum < 2 ^ 64)
    (hentered : AllEntered cfg b.blockLookup objectNum job)
    (hwords : b.publishChunkWords cfg.blockStride objectNum job =
      b.publishChunk cfg.blockStride objectNum job) :
    Represented cfg b objectNum job := by
  have hregular := hb.regular
  have holder := fun block loc
      (hloc : lookupBlockToObject cfg.blockStride b.blockLookup block = some loc) =>
    (hregular.bounded block loc hloc).2.1
  have hnew : objectNum ∉ b.blockLookup.objectIDs := by
    intro hmem
    obtain ⟨block, loc, hloc, hid⟩ :=
      (hregular.sound.wf.mem_objectIDs_iff_lookup cfg.blockStride).mp hmem
    have hlt := (hregular.bounded block loc hloc).2.1
    omega
  have hpublished := fun i w (hw : job[i]? = some w) =>
    published_of_jobFits hregular.sound hpacked holder hentered hw
  refine ⟨by rw [hwords]; exact hpublished, ?_, ?_⟩
  · intro entries timestamp v horder hstore
    rw [hwords] at horder
    have hafter := (hregular.allocate hroom).publish (Nat.lt_succ_self _) hnew
      hpacked.ascending hwidths
    have hrestored := Volume.restored_parseCheckpoint (v := v) hafter horder hstore
    refine ⟨v.parseCheckpoint cfg (expandEntries cfg.blockStride entries), ?_, ?_⟩
    · rw [Volume.parseCheckpointFile, walkBlockCheckpoint_checkpointBytes cfg.version_lt timestamp
        fun rec hrec => Volume.fits_of_mem_expandEntries hafter horder hrec]
    · intro i w hw
      refine ⟨(hrestored.map w.block).trans (hpublished i w hw), ?_⟩
      unfold findBlock
      rw [hrestored.store, hpublished i w hw]
      rfl
  · intro first wanted hrequested hofJob head rest cb hrun
    have hlocated : ∀ x ∈ head :: rest, ∃ w, Located cfg (fun _ => job) x.block x.loc w := by
      intro x hx
      obtain ⟨i, w, hw, hblock, hloc⟩ := hofJob x (hrun.subset hx)
      exact ⟨w, hblock, i, hw, by rw [hloc]; rfl⟩
    obtain ⟨start, slice, hslice⟩ := exists_runSlice hpacked hrun.chain hlocated
    obtain ⟨hcount, hstride, hsize⟩ := hslice.lengths hpacked
    obtain rfl := Option.some.inj hrun.coalesced
    refine ⟨hcount, ?_⟩
    simp only [Config.runLength, hcount, hstride]
    exact Nat.mod_eq_of_lt hsize

/-- A job is represented exactly if it fits, on every volume whose guard holds back no run
of it, and no entry leaves its 64 bits; and then every read of its blocks returns their
data. -/
theorem represented_iff_jobFits (cfg : Config) (job : List Block)
    (hb : Reachable cfg.blockStride objectNum b) (hroom : objectNum + 1 < 2 ^ 64)
    (hjob : isJob cfg job = true) (hfit : b.blockLookup.EndsFit)
    (hlast : ∀ w ∈ job, w.block + 1 < 2 ^ 64)
    (hentered : AllEntered cfg b.blockLookup objectNum job) :
    (b.publishChunkWords cfg.blockStride objectNum job).blockLookup.EndsFit ∧
      (Represented cfg b objectNum job ↔ cfg.jobFits job = true) ∧
      (cfg.jobFits job = true → cfg.Marked → ∀ (read : ObjectReader) first wanted data store,
        (∀ offset length, read objectNum offset length =
          readFile (some (cfg.chunkFile job)) offset length) →
        Requested first wanted → OfJob cfg objectNum job wanted →
        (∀ x ∈ wanted, (x.blockPosition + 1) * cfg.blockSize ≤ data.length) →
        ∃ data' store',
          cfg.fetchRuns read (coalesceBlocks wanted) data store = (.ok data', store') ∧
            ∀ x ∈ wanted, ∃ w ∈ job, w.block = x.block ∧
              slotAt cfg.blockSize data' x.blockPosition = w.data) := by
  have hblocks := hjob
  simp only [isJob, Bool.and_eq_true, decide_eq_true_eq, List.all_eq_true] at hblocks
  obtain ⟨hwords, hfit'⟩ :=
    publishChunkWords_eq cfg.blockStride objectNum hb.regular.sound hfit hlast
  refine ⟨hwords ▸ hfit', ⟨fun h => ?_, fun hfits => ?_⟩, ?_⟩
  · exact h.jobFits hb.regular.sound hblocks.1
      (fun block loc hloc => (hb.regular.bounded block loc hloc).2.1) hentered hwords
  · exact .of_packed hb hroom (packed_of_isJob hjob hfits) (fun w hw => (hblocks.2 w hw).2)
      hentered hwords
  · intro hfits hmarked read first wanted data store hread hrequested hofJob hroomy
    have hserves : Serves cfg (Function.update (fun _ => []) objectNum job) read := by
      intro id hid
      obtain rfl : id = objectNum := by
        by_contra hne
        exact hid (Function.update_of_ne hne ..)
      rw [Function.update_self]
      exact ⟨packed_of_isJob hjob hfits, hread⟩
    have hlocated : ∀ x ∈ wanted,
        ∃ w, Located cfg (Function.update (fun _ => []) objectNum job) x.block x.loc w := by
      intro x hx
      obtain ⟨i, w, hw, hblock, hloc⟩ := hofJob x hx
      refine ⟨w, hblock, i, ?_, by rw [hloc]; rfl⟩
      rw [hloc, show (cfg.slotLocation objectNum i w).objectID = objectNum from rfl,
        Function.update_self]
      exact hw
    obtain ⟨data', store', hfetch, -, hdata, -⟩ :=
      fetchRuns_of_located hmarked hserves hrequested hroomy hlocated store
    refine ⟨data', store', hfetch, fun x hx => ?_⟩
    obtain ⟨w, ⟨hblock, i, hi, hloc⟩, hslot⟩ := hdata x hx
    obtain ⟨j, v, -, -, hjobLoc⟩ := hofJob x hx
    rw [hjobLoc, show (cfg.slotLocation objectNum _ _).objectID = objectNum from rfl,
      Function.update_self] at hi
    exact ⟨w, List.mem_of_getElem? hi, hblock, hslot⟩

end Main

section Long

/-- Blocks of 512 bytes, and chunks of 64 MiB. -/
def smallBlocks : Config :=
  { Config.tiny with
    blockSize := 512
    objBlockSize := 67108864
    blockSize_pos := by decide
    blockSize_lt := by decide
    objBlockSize_lt := by decide }

theorem isJob_zeroBlocks {n : Nat} (hn : n < 2 ^ 32) :
    isJob smallBlocks (zeroBlocks 512 0 n) = true := by
  simp only [isJob, Bool.and_eq_true, decide_eq_true_eq, List.all_eq_true]
  refine ⟨sorted_zeroBlocks, fun b hb => ?_⟩
  obtain ⟨i, hi, rfl⟩ := List.mem_map.mp hb
  have hlt := List.mem_range'_1.mp hi
  exact ⟨List.length_replicate, by dsimp only; omega, by dsimp only; omega⟩

theorem jobFits_zeroBlocks_iff {n : Nat} (hn : 0 < n) (hlt : n < 2 ^ 20) :
    smallBlocks.jobFits (zeroBlocks 512 0 n) = true ↔ n ≤ 65535 := by
  have hslot : smallBlocks.slotSize = 512 := rfl
  simp only [Config.jobFits, splitBy_zeroBlocks hn, List.all_cons, List.all_nil, Bool.and_true,
    Bool.and_eq_true, decide_eq_true_eq, length_zeroBlocks, hslot, chunkHeaderSize]
  omega

theorem below_last_zeroBlocks {n : Nat} (hn : n < 2 ^ 32) :
    ∀ w ∈ zeroBlocks 512 0 n, w.block + 1 < 2 ^ 64 := by
  intro w hw
  obtain ⟨i, hi, rfl⟩ := List.mem_map.mp hw
  have hlt := List.mem_range'_1.mp hi
  dsimp only
  omega

theorem allEntered_new (cfg : Config) (chunkIndex : Nat) (job : List Block) :
    AllEntered cfg (VB.new false).blocksToObject.blockLookup chunkIndex job := by
  refine fun p hp => eq_false_of_mem_plan (fun r _ w _ block loc hloc => ?_) hp
  rw [VB.lookup_new] at hloc
  cases hloc

theorem endsFit_new : (VB.new false).blocksToObject.blockLookup.EndsFit :=
  fun _ _ hbl => by cases hbl

theorem front_represented :
    Represented smallBlocks (VB.new false).blocksToObject 0 (zeroBlocks 512 0 65535) :=
  (represented_iff_jobFits smallBlocks (zeroBlocks 512 0 65535) (.new false) (by decide)
    (isJob_zeroBlocks (by decide)) endsFit_new (below_last_zeroBlocks (by decide))
    (allEntered_new _ _ _)).2.1.mpr
      ((jobFits_zeroBlocks_iff (by decide) (by decide)).mpr (by decide))

/-- The first 65536 blocks of a volume are one job, and one of them is lost. -/
theorem long_run_not_represented :
    chunkJobs smallBlocks.objBlockSize (zeroBlocks 512 0 65536) = [zeroBlocks 512 0 65536] ∧
      isJob smallBlocks (zeroBlocks 512 0 65536) = true ∧
      ¬ Represented smallBlocks (VB.new false).blocksToObject 0 (zeroBlocks 512 0 65536) ∧
      lookupBlockToObject smallBlocks.blockStride
        ((VB.new false).blocksToObject.publishChunkWords smallBlocks.blockStride 0
          (zeroBlocks 512 0 65536)).blockLookup 65535 = none := by
  have holder : ChunksBelow smallBlocks.blockStride
      (VB.new false).blocksToObject.blockLookup 0 := by
    intro block loc hloc
    rw [VB.lookup_new] at hloc
    cases hloc
  obtain ⟨hwords, -⟩ := publishChunkWords_eq smallBlocks.blockStride 0 (VB.sound_new false)
    endsFit_new (below_last_zeroBlocks (show 65536 < 2 ^ 32 by decide))
  refine ⟨chunkJobs_zeroBlocks (by decide) (by decide) (by decide), isJob_zeroBlocks (by decide),
    ?_, ?_⟩
  · intro h
    have hfits := h.jobFits (VB.sound_new false) sorted_zeroBlocks holder (allEntered_new _ _ _)
      hwords
    exact absurd ((jobFits_zeroBlocks_iff (by decide) (by decide)).mp hfits) (by decide)
  · have hrun : (0, zeroBlocks 512 0 65536) ∈ chunkRuns (zeroBlocks 512 0 65536) := by
      rw [chunkRuns, splitBy_zeroBlocks (by decide)]
      exact List.mem_singleton_self _
    have hlookup := lookup_publishChunk_entered (VB.sound_new false) sorted_zeroBlocks holder
      (allEntered_new _ _ _) hrun (getElem?_zeroBlocks (show 65535 < 65536 by decide))
    rw [if_neg (Nat.lt_irrefl _), VB.lookup_new] at hlookup
    rw [hwords]
    exact hlookup

end Long

end Viperblock
