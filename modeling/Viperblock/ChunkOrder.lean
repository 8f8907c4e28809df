import Viperblock.MapWords

/-!
# Chunks that land in any order

Uploads run in parallel and land in any order, so `createChunkFile` may meet a map
that already has newer versions of its blocks.  The map is to resolve every block
to its newest version, whatever the order.  The guard of `createChunkFile` decides
by runs: it compares the first block of a run with the first block of the entry
that covers it.

`enteredRuns` says which runs are entered, from the starting map and the runs alone: the
entry that covers a block is what later runs have left of the last run entered over it.
The main theorem is that the map has the newest version of every block in the end exactly
if the last run entered over each block has it.
-/

namespace Viperblock

namespace BlocksToObject

open BlockMap

/-- A chunk object and the blocks it was made of. -/
structure ChunkJob where
  chunkIndex : Nat
  blocks : List Block
deriving DecidableEq, Repr

/-- The blocks of the chunk are sorted by number. -/
def ChunkJob.Sorted (job : ChunkJob) : Prop :=
  job.blocks.Pairwise fun a b => a.block < b.block

instance (job : ChunkJob) : Decidable job.Sorted :=
  inferInstanceAs (Decidable (List.Pairwise _ _))

def landChunk (stride : Nat) (b : BlocksToObject) (job : ChunkJob) : BlocksToObject :=
  b.publishChunkWords stride job.chunkIndex job.blocks

/-- The chunks enter the map in the order they land. -/
def landChunks (stride : Nat) (b : BlocksToObject) (jobs : List ChunkJob) : BlocksToObject :=
  jobs.foldl (landChunk stride) b

/-- The slot of the chunk that holds a version of the block. -/
def ChunkJob.Holds (cfg : Config) (job : ChunkJob) (block : Nat) (loc : Location) : Prop :=
  ∃ i w, job.blocks[i]? = some w ∧ w.block = block ∧
    loc = ⟨job.chunkIndex, chunkHeaderSize + i * cfg.slotSize, w.seqNum⟩

/-- Where some version of the block is: as the map has it, or in one of the chunks. -/
def Known (cfg : Config) (m : BlockMap) (jobs : List ChunkJob) (block : Nat)
    (loc : Location) : Prop :=
  lookupBlockToObject cfg.blockStride m block = some loc ∨ ∃ job ∈ jobs, job.Holds cfg block loc

/-- The second map resolves the block to the newest of its known versions. -/
@[mk_iff]
structure NewestAt (cfg : Config) (m : BlockMap) (jobs : List ChunkJob) (m' : BlockMap)
    (block : Nat) : Prop where
  newest : ∀ loc, lookupBlockToObject cfg.blockStride m' block = some loc →
    Known cfg m jobs block loc ∧ ∀ other, Known cfg m jobs block other → other.seqNum ≤ loc.seqNum
  absent : lookupBlockToObject cfg.blockStride m' block = none → ∀ loc, ¬ Known cfg m jobs block loc

/-- It does so for every block. -/
def ResolvesNewest (cfg : Config) (m : BlockMap) (jobs : List ChunkJob) (m' : BlockMap) :
    Prop :=
  ∀ block, NewestAt cfg m jobs m' block

/-- The chunks that may land on a map: sorted, under identifiers of their own, and without
the very last block. -/
structure Landing (start : BlockMap) (jobs : List ChunkJob) : Prop where
  sorted : ∀ job ∈ jobs, job.Sorted
  fresh : ∀ job ∈ jobs, job.chunkIndex ∉ start.objectIDs
  apart : (jobs.map ChunkJob.chunkIndex).Nodup
  below_last : ∀ job ∈ jobs, ∀ w ∈ job.blocks, w.block + 1 < 2 ^ 64

/-- The runs of a chunk. -/
def ChunkJob.runs (job : ChunkJob) : List PlacedRun :=
  placedRuns job.chunkIndex [job.blocks]

/-- A block of a run and its position, if the count of the run reaches it. -/
def PlacedRun.slot (r : PlacedRun) (block : Nat) : Option (Block × Nat) :=
  (r.blocks.take 65535).zipIdx.find? fun item => item.1.block == block

/-- The last run entered over a block, with its slot; the runs are listed latest first. -/
def holder (entered : List PlacedRun) (block : Nat) : Option (PlacedRun × Block × Nat) :=
  entered.findSome? fun r => (r.slot block).map fun item => (r, item)

/-- Where a block is, once the runs are entered. -/
def whereEntered (stride : Nat) (start : BlockMap) (entered : List PlacedRun) (block : Nat) :
    Option Location :=
  ((holder entered block).map fun h => h.1.location stride h.2.2 h.2.1).or
    (lookupBlockToObject stride start block)

/-- First block of the piece that covers a block: of what later runs have left of the last
run entered over it. -/
def pieceHead (start : BlockMap) (block : Nat) : List PlacedRun → Option Nat
  | [] => ExtentMap.headOf BlockLookup.shape start block
  | r :: earlier =>
    if (r.slot block).isSome then r.blocks.head?.map Block.block
    else (pieceHead start block earlier).map fun k =>
      if k < r.stop ∧ r.stop ≤ block then r.stop else k

/-- A run is entered if its first version is newer than the first version of the piece that
covers its first block. -/
def enters (stride : Nat) (start : BlockMap) (entered : List PlacedRun) (r : PlacedRun) : Bool :=
  match r.blocks with
  | [] => false
  | first :: _ =>
    ((pieceHead start first.block entered).bind (whereEntered stride start entered)).all
      fun loc => decide (loc.seqNum < first.seqNum)

def enterRun (stride : Nat) (start : BlockMap) (entered : List PlacedRun) (r : PlacedRun) :
    List PlacedRun :=
  if enters stride start entered r then r :: entered else entered

/-- The runs that are entered, latest first. -/
def enteredRuns (stride : Nat) (start : BlockMap) (runs : List PlacedRun) : List PlacedRun :=
  runs.foldl (enterRun stride start) []

/-- The sequence number the map has for a block. -/
def seqNumOf (cfg : Config) (m : BlockMap) (block : Nat) : Option Nat :=
  (lookupBlockToObject cfg.blockStride m block).map Location.seqNum

/-- The last run entered over a block of a chunk has no older version than the chunk and the
starting map have, and 32 bits hold its slot; if there is none the starting map has no
older version. -/
def holdsNewest (cfg : Config) (start : BlockMap) (entered : List PlacedRun) (w : Block) : Bool :=
  match holder entered w.block with
  | some (r, v, i) =>
    decide (chunkHeaderSize + (r.runStart + i) * cfg.slotSize < 2 ^ 32 ∧ w.seqNum ≤ v.seqNum) &&
      (seqNumOf cfg start w.block).all (· ≤ v.seqNum)
  | none => (seqNumOf cfg start w.block).any (w.seqNum ≤ ·)

/-- So it is for every block of the chunks. -/
def lastHoldNewest (cfg : Config) (start : BlockMap) (jobs : List ChunkJob) : Bool :=
  let entered := enteredRuns cfg.blockStride start (jobs.flatMap ChunkJob.runs)
  jobs.all fun job => job.blocks.all (holdsNewest cfg start entered)

section Entering

variable {stride : Nat} {start : BlockMap} {entered : List PlacedRun} {r : PlacedRun}
variable {b : BlocksToObject}

theorem slot_eq_some_iff (hchain : r.blocks.IsChain fun a b => b.block = a.block + 1)
    {block i : Nat} {w : Block} :
    r.slot block = some (w, i) ↔ r.blocks[i]? = some w ∧ i < 65535 ∧ w.block = block := by
  have hmem : ∀ w i, (w, i) ∈ (r.blocks.take 65535).zipIdx ↔ r.blocks[i]? = some w ∧ i < 65535 := by
    intro w i
    rw [List.mem_zipIdx_iff_getElem?, List.getElem?_take]
    split
    · rename_i hi
      exact (and_iff_left hi).symm
    · rename_i hi
      simp [hi]
  constructor
  · intro hslot
    obtain ⟨hw, hi⟩ := (hmem w i).mp (List.mem_of_find?_eq_some hslot)
    exact ⟨hw, hi, by simpa using List.find?_some hslot⟩
  · rintro ⟨hw, hi, rfl⟩
    cases hslot : r.slot w.block with
    | none =>
      have hnone := List.find?_eq_none.mp hslot (w, i) ((hmem w i).mpr ⟨hw, hi⟩)
      simp at hnone
    | some item =>
      obtain ⟨hw', -⟩ := (hmem item.1 item.2).mp (List.mem_of_find?_eq_some hslot)
      have hblock : item.1.block = w.block := by simpa using List.find?_some hslot
      -- consecutive blocks have one position each
      obtain ⟨first, later, hblocks⟩ :=
        List.exists_cons_of_ne_nil (List.ne_nil_of_mem (List.mem_of_getElem? hw))
      rw [hblocks] at hchain hw hw'
      have hnumber := ConsecutiveRuns.number_of_getElem? hchain hw
      have hnumber' := ConsecutiveRuns.number_of_getElem? hchain hw'
      obtain rfl : item.2 = i := by omega
      rw [← Option.some.inj (hw'.symm.trans hw)]

theorem covers_iff_slot (stride : Nat) {first : Block} {later : List Block}
    (hblocks : r.blocks = first :: later)
    (hchain : r.blocks.IsChain fun a b => b.block = a.block + 1) (block : Nat) :
    (newBlock stride r.chunkIndex r.runStart first later).Covers block ↔ (r.slot block).isSome := by
  rw [Option.isSome_iff_exists]
  constructor
  · intro hcovers
    rw [hblocks] at hchain
    obtain ⟨w, hw, rfl⟩ := exists_mem_of_newBlock_covers hchain hcovers
    obtain ⟨i, hi⟩ := List.mem_iff_getElem?.mp hw
    have hlt := (newBlock_covers_iff _ _ hchain hi).mp hcovers
    rw [← hblocks] at hchain hi
    exact ⟨(w, i), (slot_eq_some_iff hchain).mpr ⟨hi, hlt, rfl⟩⟩
  · rintro ⟨⟨w, i⟩, hslot⟩
    obtain ⟨hw, hi, rfl⟩ := (slot_eq_some_iff hchain).mp hslot
    rw [hblocks] at hchain hw
    exact (newBlock_covers_iff _ _ hchain hw).mpr hi

/-- The map is as the entered runs say. -/
structure Entered (stride : Nat) (start : BlockMap) (entered : List PlacedRun)
    (b : BlocksToObject) : Prop where
  sound : b.Sound
  lookup : ∀ block, lookupBlockToObject stride b.blockLookup block =
    whereEntered stride start entered block
  head : ∀ block, ExtentMap.headOf BlockLookup.shape b.blockLookup block =
    pieceHead start block entered

theorem whereEntered_cons (block : Nat) :
    whereEntered stride start (r :: entered) block =
      ((r.slot block).map fun item => r.location stride item.2 item.1).or
        (whereEntered stride start entered block) := by
  rw [whereEntered, holder, List.findSome?_cons]
  cases r.slot block <;> rfl

/-- One run is entered or held back as the runs before it say. -/
theorem Entered.publishPlaced (hb : Entered stride start entered b)
    (hchain : r.blocks.IsChain fun a b => b.block = a.block + 1) :
    Entered stride start (enterRun stride start entered r) (publishPlaced stride b r) := by
  rw [enterRun]
  cases hblocks : r.blocks with
  | nil =>
    have hsame : BlocksToObject.publishPlaced stride b r = b := by
      rw [BlocksToObject.publishPlaced, hblocks]
      rfl
    rw [enters, hblocks, hsame]
    exact hb
  | cons first later =>
    have hguard : staleDrain b.blockLookup (newBlock stride r.chunkIndex r.runStart first later) =
        !enters stride start entered r := by
      rw [staleDrain_eq hb.sound.wf, heldBack, guardSeqNum, enters, hblocks, hb.head]
      simp only [pieceStart, List.foldl_nil, hb.lookup]
      cases pieceHead start first.block entered with
      | none => rfl
      | some k =>
        simp only [Option.bind_some]
        cases whereEntered stride start entered k with
        | none => rfl
        | some loc =>
          simp only [Option.map_some, Option.any_some, Option.all_some, ← decide_not, Nat.not_lt]
    have hcovers := covers_iff_slot stride hblocks hchain
    refine ⟨hb.sound.publishRun _ _ _, fun block => ?_, fun block => ?_⟩
    · rw [BlocksToObject.publishPlaced, hblocks, lookup_publishRun hb.sound, hguard, hb.lookup]
      cases enters stride start entered r with
      | false => simp
      | true =>
        simp only [Bool.not_true, true_and, if_true, whereEntered_cons, hcovers]
        cases hslot : r.slot block with
        | none => rfl
        | some item =>
          obtain ⟨hw, hi, rfl⟩ := (slot_eq_some_iff hchain).mp hslot
          rw [hblocks] at hchain hw
          rw [Option.isSome_some, if_pos rfl, newBlock_blockAt hchain hi hw]
          rfl
    · by_cases hslot : (r.slot block).isSome ∧ enters stride start entered r = true
      · obtain ⟨hslot, henters⟩ := hslot
        rw [henters, if_pos rfl, pieceHead, if_pos hslot, hblocks]
        rw [henters] at hguard
        rw [BlocksToObject.publishPlaced, hblocks]
        simp only [BlocksToObject.publishRun, hguard, insertCoalescedLocked_eq]
        have hvalid : (newBlock stride r.chunkIndex r.runStart first later).Valid :=
          newBlock_valid
        have hfind := ExtentMap.Store.find_override (BlockLookup.cutting stride)
          hb.sound.store.wf.loose hvalid block
        have hcovered : BlockLookup.shape.Covers
            (newBlock stride r.chunkIndex r.runStart first later) block :=
          (hcovers block).mpr hslot
        rw [if_pos hcovered] at hfind
        exact congrArg (Option.map BlockLookup.startBlock) hfind
      · cases henters : enters stride start entered r with
        | false =>
          rw [henters] at hguard
          rw [BlocksToObject.publishPlaced, hblocks]
          simp only [BlocksToObject.publishRun, hguard]
          exact hb.head block
        | true =>
          rw [henters] at hguard hslot
          have hnot := fun h => hslot ⟨(hcovers block).mp h, rfl⟩
          rw [if_pos rfl, pieceHead, if_neg fun h => hslot ⟨h, rfl⟩,
            headOf_publishPlaced hb.sound hblocks hguard hnot, hb.head]
          simp

end Entering

section Jobs

variable {cfg : Config} {start : BlockMap} {b : BlocksToObject} {jobs : List ChunkJob}

theorem entered_foldl {stride : Nat} {entered runs : List PlacedRun}
    (hb : Entered stride start entered b)
    (hchain : ∀ r ∈ runs, r.blocks.IsChain fun a b => b.block = a.block + 1) :
    Entered stride start (runs.foldl (enterRun stride start) entered)
      (runs.foldl (publishPlaced stride) b) := by
  induction runs generalizing entered b with
  | nil => exact hb
  | cons r runs ih =>
    rw [List.forall_mem_cons] at hchain
    exact ih (hb.publishPlaced hchain.1) hchain.2

section

variable {r : PlacedRun}

theorem mem_of_mem_enteredRuns {stride : Nat} {runs : List PlacedRun}
    (hr : r ∈ enteredRuns stride start runs) : r ∈ runs := by
  have hfold : ∀ entered, r ∈ runs.foldl (enterRun stride start) entered →
      r ∈ entered ∨ r ∈ runs := by
    clear hr
    induction runs with
    | nil => exact fun _ hr => .inl hr
    | cons r' runs ih =>
      intro entered hr
      rcases ih _ hr with hr | hr
      · rw [enterRun] at hr
        split at hr
        · rcases List.mem_cons.mp hr with rfl | hr
          · exact .inr List.mem_cons_self
          · exact .inl hr
        · exact .inl hr
      · exact .inr (List.mem_cons_of_mem _ hr)
  exact (hfold [] hr).resolve_left List.not_mem_nil

theorem landChunks_eq (stride : Nat) (hb : b.Sound) (hfit : b.blockLookup.EndsFit)
    (hlast : ∀ job ∈ jobs, ∀ w ∈ job.blocks, w.block + 1 < 2 ^ 64) :
    landChunks stride b jobs = (jobs.flatMap ChunkJob.runs).foldl (publishPlaced stride) b ∧
      (landChunks stride b jobs).blockLookup.EndsFit := by
  induction jobs generalizing b with
  | nil => exact ⟨rfl, hfit⟩
  | cons job jobs ih =>
    rw [List.forall_mem_cons] at hlast
    obtain ⟨heq, hfit'⟩ := publishChunkWords_eq stride job.chunkIndex hb hfit hlast.1
    have hruns : publishChunk stride job.chunkIndex b job.blocks =
        job.runs.foldl (publishPlaced stride) b := by
      simp only [publishChunk, ChunkJob.runs, placedRuns, List.append_nil, List.foldl_map]
      rfl
    rw [landChunks, List.foldl_cons, landChunk, heq, List.flatMap_cons, List.foldl_append, ← hruns]
    exact ih (hb.publishChunk job.blocks) hfit' hlast.2

theorem exists_job_of_mem_runs (hr : r ∈ jobs.flatMap ChunkJob.runs) :
    ∃ job ∈ jobs, r.chunkIndex = job.chunkIndex ∧
      ∀ i w, r.blocks[i]? = some w → job.blocks[r.runStart + i]? = some w := by
  obtain ⟨job, hjob, hr⟩ := List.mem_flatMap.mp hr
  obtain ⟨k, blocks, hk, hindex, -, hget⟩ := exists_job_of_mem_placedRuns hr
  obtain ⟨hlt, rfl⟩ := List.getElem?_eq_some_iff.mp hk
  obtain rfl : k = 0 := Nat.lt_one_iff.mp hlt
  exact ⟨job, hjob, hindex, hget⟩

theorem isChain_of_mem_runs (hr : r ∈ jobs.flatMap ChunkJob.runs) :
    r.blocks.IsChain fun a b => b.block = a.block + 1 := by
  obtain ⟨job, -, hr⟩ := List.mem_flatMap.mp hr
  exact isChain_of_mem_placedRuns hr

theorem ChunkJob.Sorted.eq_of_block {job : ChunkJob} (hsorted : job.Sorted) {i j : Nat}
    {w v : Block} (hi : job.blocks[i]? = some w) (hj : job.blocks[j]? = some v)
    (hblock : w.block = v.block) : i = j := by
  obtain ⟨hilt, rfl⟩ := List.getElem?_eq_some_iff.mp hi
  obtain ⟨hjlt, rfl⟩ := List.getElem?_eq_some_iff.mp hj
  have hless := List.pairwise_iff_getElem.mp hsorted
  rcases Nat.lt_trichotomy i j with hlt | heq | hgt
  · exact absurd hblock (hless i j hilt hjlt hlt).ne
  · exact heq
  · exact absurd hblock (hless j i hjlt hilt hgt).ne'

theorem of_holder {stride block : Nat} {w : Block} {i : Nat}
    (hholder : holder (enteredRuns stride start (jobs.flatMap ChunkJob.runs)) block =
      some (r, w, i)) :
    w.block = block ∧ ∃ job ∈ jobs, r.chunkIndex = job.chunkIndex ∧
      job.blocks[r.runStart + i]? = some w := by
  obtain ⟨r', hr', hslot⟩ := List.exists_of_findSome?_eq_some hholder
  obtain ⟨item, hslot, heq⟩ := Option.map_eq_some_iff.mp hslot
  cases heq
  have hruns := mem_of_mem_enteredRuns hr'
  obtain ⟨hw, -, hblock⟩ := (slot_eq_some_iff (isChain_of_mem_runs hruns)).mp hslot
  obtain ⟨job, hjob, hindex, hget⟩ := exists_job_of_mem_runs hruns
  exact ⟨hblock, job, hjob, hindex, hget i w hw⟩

theorem known_location_iff (hstart : start.WellFormed) (hlanding : Landing start jobs)
    {job : ChunkJob} (hjob : job ∈ jobs) (hindex : r.chunkIndex = job.chunkIndex) {i : Nat}
    {w : Block} (hw : job.blocks[r.runStart + i]? = some w) :
    Known cfg start jobs w.block (r.location cfg.blockStride i w) ↔
      chunkHeaderSize + (r.runStart + i) * cfg.slotSize < 2 ^ 32 := by
  rw [← r.location_eq_iff cfg i w, hindex]
  constructor
  · rintro (hold | ⟨job', hjob', j, v, hv, hblock, hloc⟩)
    · exact absurd ((hstart.mem_objectIDs_iff_lookup _).mpr ⟨_, _, hold, hindex⟩)
        (hlanding.fresh job hjob)
    · obtain rfl : job' = job := List.inj_on_of_nodup_map hlanding.apart hjob' hjob
        (hindex.symm.trans (congrArg Location.objectID hloc)).symm
      obtain rfl := (hlanding.sorted job' hjob').eq_of_block hv hw hblock
      rw [hloc, Option.some.inj (hv.symm.trans hw)]
  · intro hloc
    exact .inr ⟨job, hjob, _, w, hw, rfl, hloc⟩

end

/-- What holds of the known versions of a block holds of the one in the starting map and of
those in the chunks. -/
theorem forall_known_iff {block : Nat} (p : Nat → Bool) :
    (∀ loc, Known cfg start jobs block loc → p loc.seqNum) ↔
      (seqNumOf cfg start block).all p ∧
        ∀ job ∈ jobs, ∀ w ∈ job.blocks, w.block = block → p w.seqNum := by
  constructor
  · refine fun hall => ⟨?_, fun job hjob w hw hblock => ?_⟩
    · rw [seqNumOf]
      cases hold : lookupBlockToObject cfg.blockStride start block with
      | none => rfl
      | some loc => exact hall loc (.inl hold)
    · obtain ⟨i, hi⟩ := List.mem_iff_getElem?.mp hw
      exact hall _ (.inr ⟨job, hjob, i, w, hi, hblock, rfl⟩)
  · rintro ⟨hold, hjobs⟩ loc (hloc | ⟨job, hjob, i, w, hi, hblock, rfl⟩)
    · rwa [seqNumOf, hloc] at hold
    · exact hjobs job hjob w (List.mem_of_getElem? hi) hblock

section Newest

variable {m : BlockMap} (hstart : start.WellFormed) (hlanding : Landing start jobs)
variable (hlookup : ∀ block, lookupBlockToObject cfg.blockStride m block =
  whereEntered cfg.blockStride start
    (enteredRuns cfg.blockStride start (jobs.flatMap ChunkJob.runs)) block)

include hstart hlanding hlookup

theorem newestAt_iff_of_holder {block : Nat} {r : PlacedRun} {v : Block} {i : Nat}
    (hholder : holder (enteredRuns cfg.blockStride start (jobs.flatMap ChunkJob.runs)) block =
      some (r, v, i)) :
    NewestAt cfg start jobs m block ↔
      chunkHeaderSize + (r.runStart + i) * cfg.slotSize < 2 ^ 32 ∧
        ∀ loc, Known cfg start jobs block loc → decide (loc.seqNum ≤ v.seqNum) := by
  obtain ⟨rfl, job, hjob, hindex, hv⟩ := of_holder hholder
  rw [newestAt_iff, hlookup, whereEntered, hholder,
    ← known_location_iff hstart hlanding hjob hindex hv]
  simp only [Option.map_some, Option.some_or, Option.some.injEq, forall_eq', reduceCtorEq,
    false_implies, and_true, decide_eq_true_eq]
  rfl

omit hstart hlanding in
theorem newestAt_iff_of_not_holder {block : Nat}
    (hholder : holder (enteredRuns cfg.blockStride start (jobs.flatMap ChunkJob.runs)) block =
      none) :
    NewestAt cfg start jobs m block ↔ ∀ loc, Known cfg start jobs block loc →
      (seqNumOf cfg start block).any (loc.seqNum ≤ ·) := by
  rw [newestAt_iff, hlookup, whereEntered, hholder, seqNumOf]
  cases hold : lookupBlockToObject cfg.blockStride start block with
  | none => simp
  | some old =>
    have hknown : Known cfg start jobs block old := .inl hold
    simp [hknown]

theorem newestAt_iff_holdsNewest (block : Nat) :
    NewestAt cfg start jobs m block ↔ ∀ job ∈ jobs, ∀ w ∈ job.blocks, w.block = block →
      holdsNewest cfg start
        (enteredRuns cfg.blockStride start (jobs.flatMap ChunkJob.runs)) w = true := by
  cases hholder : holder (enteredRuns cfg.blockStride start
      (jobs.flatMap ChunkJob.runs)) block with
  | some h =>
    obtain ⟨r, v, i⟩ := h
    rw [newestAt_iff_of_holder hstart hlanding hlookup hholder, forall_known_iff (· ≤ v.seqNum)]
    constructor
    · rintro ⟨hslot, hold, hjobs⟩ job hjob w hw rfl
      rw [holdsNewest, hholder, Bool.and_eq_true, decide_eq_true_eq]
      exact ⟨⟨hslot, of_decide_eq_true (hjobs job hjob w hw rfl)⟩, hold⟩
    · intro hall
      obtain ⟨hblock, job, hjob, -, hv⟩ := of_holder hholder
      have hown := hall job hjob v (List.mem_of_getElem? hv) hblock
      simp only [holdsNewest, hblock, hholder, Bool.and_eq_true, decide_eq_true_eq] at hown
      refine ⟨hown.1.1, hown.2, fun job' hjob' w hw hblock' => ?_⟩
      have hholds := hall job' hjob' w hw hblock'
      simp only [holdsNewest, hblock', hholder, Bool.and_eq_true, decide_eq_true_eq] at hholds
      exact decide_eq_true hholds.1.2
  | none =>
    rw [newestAt_iff_of_not_holder hlookup hholder,
      forall_known_iff fun seqNum => (seqNumOf cfg start block).any (seqNum ≤ ·)]
    have hself : (seqNumOf cfg start block).all fun seqNum =>
        (seqNumOf cfg start block).any (seqNum ≤ ·) := by
      cases seqNumOf cfg start block <;> simp
    rw [and_iff_right hself]
    refine forall₄_congr fun job _ w _ => forall_congr' fun hblock => ?_
    rw [holdsNewest, hblock, hholder]

/-- A map that is as the entered runs say has the newest versions exactly if their last ones
over each block do. -/
theorem resolvesNewest_iff :
    ResolvesNewest cfg start jobs m ↔ lastHoldNewest cfg start jobs = true := by
  simp only [lastHoldNewest, List.all_eq_true]
  constructor
  · intro hnewest job hjob w hw
    exact (newestAt_iff_holdsNewest hstart hlanding hlookup _).mp (hnewest _) job hjob w hw rfl
  · intro hlast block
    refine (newestAt_iff_holdsNewest hstart hlanding hlookup block).mpr ?_
    exact fun job hjob w hw _ => hlast job hjob w hw

end Newest

end Jobs

/-- In whatever order chunks land, no entry leaves its 64 bits, and the map has the newest
version of every block in the end exactly if the last run entered over each block does. -/
theorem resolvesNewest_landChunks_iff (cfg : Config) {b : BlocksToObject} (jobs : List ChunkJob)
    (hb : b.Sound) (hfit : b.blockLookup.EndsFit) (hlanding : Landing b.blockLookup jobs) :
    (landChunks cfg.blockStride b jobs).blockLookup.EndsFit ∧
      (ResolvesNewest cfg b.blockLookup jobs (landChunks cfg.blockStride b jobs).blockLookup ↔
        lastHoldNewest cfg b.blockLookup jobs = true) := by
  obtain ⟨heq, hfit'⟩ := landChunks_eq cfg.blockStride hb hfit hlanding.below_last
  have hstart : Entered cfg.blockStride b.blockLookup [] b := ⟨hb, fun _ => rfl, fun _ => rfl⟩
  have hentered : Entered cfg.blockStride b.blockLookup
      (enteredRuns cfg.blockStride b.blockLookup (jobs.flatMap ChunkJob.runs))
      ((jobs.flatMap ChunkJob.runs).foldl (publishPlaced cfg.blockStride) b) :=
    entered_foldl hstart fun r => isChain_of_mem_runs
  rw [← heq] at hentered
  exact ⟨hfit', resolvesNewest_iff hb.wf hlanding hentered.lookup⟩

/-- One version of block 5. -/
def newerFive : ChunkJob :=
  ⟨0, [⟨[1], 10, 5, 1⟩]⟩

/-- An older version of block 5 in front of a version of block 6. -/
def olderFiveAndSix : ChunkJob :=
  ⟨1, [⟨[2], 9, 5, 1⟩, ⟨[3], 12, 6, 1⟩]⟩

/-- A newer version of block 6, in a chunk of its own. -/
def newerSix : ChunkJob :=
  ⟨2, [⟨[4], 13, 6, 1⟩]⟩

theorem landing_newerFive :
    Landing ∅ [newerFive, olderFiveAndSix] :=
  ⟨by decide, fun _ _ => List.not_mem_nil, by decide, by decide⟩

theorem landing_newerSix :
    Landing ∅ [newerFive, olderFiveAndSix, newerSix] :=
  ⟨by decide, fun _ _ => List.not_mem_nil, by decide, by decide⟩

theorem sound_empty : (⟨∅, none⟩ : BlocksToObject).Sound :=
  ⟨ExtentMap.wellFormed_empty, by rintro _ ⟨⟩⟩

/-- The run of blocks 5 and 6 is held back, and the map has the newest version of block 6
once the third chunk has landed. -/
theorem resolvesNewest_landChunks_newerSix :
    Landing ∅ [newerFive, olderFiveAndSix, newerSix] ∧
      ResolvesNewest Config.tiny ∅ [newerFive, olderFiveAndSix, newerSix]
        (landChunks Config.tiny.blockStride ⟨∅, none⟩
          [newerFive, olderFiveAndSix, newerSix]).blockLookup :=
  ⟨landing_newerSix, (resolvesNewest_landChunks_iff Config.tiny _ sound_empty
    (fun _ _ h => by cases h) landing_newerSix).2.mpr (by decide +kernel)⟩

/-- The run that starts with the older version of block 5 is held back as a whole, and
block 6 with it.  In the other order the map has both newest versions. -/
theorem landChunks_loses_six :
    Landing ∅ [newerFive, olderFiveAndSix] ∧
      ¬ ResolvesNewest Config.tiny ∅ [newerFive, olderFiveAndSix]
        (landChunks Config.tiny.blockStride ⟨∅, none⟩
          [newerFive, olderFiveAndSix]).blockLookup ∧
      lookupBlockToObject Config.tiny.blockStride
        (landChunks Config.tiny.blockStride ⟨∅, none⟩
          [newerFive, olderFiveAndSix]).blockLookup 6 = none ∧
      seqNumOf Config.tiny
        (landChunks Config.tiny.blockStride ⟨∅, none⟩
          [olderFiveAndSix, newerFive]).blockLookup 6 = some 12 := by
  have hlost : lookupBlockToObject Config.tiny.blockStride
      (landChunks Config.tiny.blockStride ⟨∅, none⟩
        [newerFive, olderFiveAndSix]).blockLookup 6 = none := by
    decide +kernel
  refine ⟨landing_newerFive, fun hnewest => ?_, hlost, by decide +kernel⟩
  exact (hnewest 6).absent hlost _
    (.inr ⟨olderFiveAndSix, by simp, 1, ⟨[3], 12, 6, 1⟩, rfl, rfl, rfl⟩)

end BlocksToObject

end Viperblock
