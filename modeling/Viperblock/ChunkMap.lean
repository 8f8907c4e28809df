import Viperblock.BlocksToObject
import Viperblock.Config
import Viperblock.Lib.ConsecutiveRuns

/-!
# Publishing a chunk in the block map

After a chunk object is uploaded, `createChunkFile` walks the chunk's blocks,
which are sorted by block number, and enters every maximal run of consecutive
blocks into the block map.  A run is dropped as a whole when the entry that
covers its first block starts with a sequence number at least as high as the
run's first one; with GC enabled the chunk is then tracked with count zero.
-/

namespace Viperblock

/-- Bytes of the chunk header: magic, version and block size. -/
def chunkHeaderSize : Nat := 10

namespace BlocksToObject

/-- Two neighbours of the chunk belong to one run. -/
def consecutive (a b : Block) : Bool :=
  b.block == a.block + 1

/-- Number the runs by the position of their first block in the chunk. -/
def placeRuns : Nat → List (List Block) → List (Nat × List Block)
  | _, [] => []
  | runStart, run :: runs => (runStart, run) :: placeRuns (runStart + run.length) runs

def chunkRuns (matchedBlocks : List Block) : List (Nat × List Block) :=
  placeRuns 0 (matchedBlocks.splitBy consecutive)

/-- The entry for the run `first :: rest` at position `runStart` of the chunk. -/
def newBlock (stride chunkIndex runStart : Nat) (first : Block)
    (rest : List Block) : BlockLookup :=
  { startBlock := first.block
    numBlocks := safeIntToUint16 (rest.length + 1)
    objectID := chunkIndex
    objectOffset := safeIntToUint32 (chunkHeaderSize + runStart * stride)
    seqNum := first.seqNum
    seqNums := (first :: rest).map Block.seqNum }

/-- The guard against a stale drain, made on the first block of the run. -/
def staleDrain (m : BlockMap) (newBlock : BlockLookup) : Bool :=
  match resolveBlockLookup m newBlock.startBlock with
  | some (oldBlock, _) => decide (newBlock.seqNum ≤ oldBlock.seqNum)
  | none => false

/-- Track a chunk with count zero unless it is tracked already. -/
def trackRef (id : Nat) (rc : Refcount) : Refcount :=
  if rc.lookup id = none then rc.insert id 0 else rc

/-- One round of the publishing loop. -/
def publishRun (stride chunkIndex : Nat) (b : BlocksToObject) :
    Nat × List Block → BlocksToObject
  | (_, []) => b
  | (runStart, first :: rest) =>
    let entry := newBlock stride chunkIndex runStart first rest
    if staleDrain b.blockLookup entry then
      { b with gcRefcount := b.gcRefcount.map (trackRef chunkIndex) }
    else b.insertCoalescedLocked entry stride

/-- The locked section of `createChunkFile`. -/
def publishChunk (stride chunkIndex : Nat) (b : BlocksToObject)
    (matchedBlocks : List Block) : BlocksToObject :=
  (chunkRuns matchedBlocks).foldl (publishRun stride chunkIndex) b

section Run

variable {stride chunkIndex runStart : Nat} {first : Block} {rest : List Block}
variable {b : BlocksToObject}

theorem newBlock_valid :
    (newBlock stride chunkIndex runStart first rest).Valid := by
  refine ⟨?_, ?_, rfl, ?_⟩
  · simp only [newBlock, safeIntToUint16]
    omega
  · simp only [newBlock, safeIntToUint16]
    omega
  · simp only [newBlock, safeIntToUint32]
    omega

theorem getD_lookup_trackRef (id other : Nat) (rc : Refcount) :
    ((trackRef id rc).lookup other).getD 0 = (rc.lookup other).getD 0 := by
  unfold trackRef
  split
  · rename_i hfree
    by_cases hid : other = id
    · subst hid
      simp [hfree]
    · rw [AList.lookup_insert_ne hid]
  · rfl

theorem Sound.publishRun (stride chunkIndex : Nat) (hb : b.Sound) (run : Nat × List Block) :
    (publishRun stride chunkIndex b run).Sound := by
  obtain ⟨runStart, blocks⟩ := run
  cases blocks with
  | nil => exact hb
  | cons first rest =>
    simp only [BlocksToObject.publishRun]
    split
    · refine ⟨hb.wf, ?_⟩
      intro rc hrc id
      obtain ⟨old, hold, rfl⟩ := Option.map_eq_some_iff.mp hrc
      rw [getD_lookup_trackRef]
      exact hb.refExact old hold id
    · exact hb.insertCoalescedLocked newBlock_valid

/-- A run either leaves every location alone or overrides its own blocks. -/
theorem lookup_publishRun (hb : b.Sound) (block : Nat) :
    lookupBlockToObject stride
        (publishRun stride chunkIndex b (runStart, first :: rest)).blockLookup
        block =
      if staleDrain b.blockLookup
            (newBlock stride chunkIndex runStart first rest) = false ∧
          (newBlock stride chunkIndex runStart first rest).Covers block then
        some ((newBlock stride chunkIndex runStart first rest).blockAt stride
          (block - first.block))
      else lookupBlockToObject stride b.blockLookup block := by
  simp only [BlocksToObject.publishRun]
  split
  · rename_i hstale
    simp [hstale]
  · rename_i hstale
    rw [lookup_insertCoalescedLocked hb newBlock_valid]
    simp only [hstale, true_and]
    rfl

end Run

theorem Sound.publishChunk {stride chunkIndex : Nat} {b : BlocksToObject} (hb : b.Sound)
    (matchedBlocks : List Block) : (publishChunk stride chunkIndex b matchedBlocks).Sound := by
  unfold BlocksToObject.publishChunk
  induction chunkRuns matchedBlocks generalizing b with
  | nil => exact hb
  | cons run runs ih => exact ih (hb.publishRun _ _ run)

theorem mem_objectIDs_publishChunk {stride chunkIndex : Nat} {b : BlocksToObject} (hb : b.Sound)
    {matchedBlocks : List Block} {id : Nat}
    (hid : id ∈ (publishChunk stride chunkIndex b matchedBlocks).blockLookup.objectIDs) :
    id ∈ b.blockLookup.objectIDs ∨ id = chunkIndex := by
  unfold BlocksToObject.publishChunk at hid
  generalize chunkRuns matchedBlocks = runs at hid
  induction runs generalizing b with
  | nil => exact .inl hid
  | cons run runs ih =>
    rcases ih (hb.publishRun _ _ run) hid with hrun | hnew
    · obtain ⟨runStart, blocks⟩ := run
      cases blocks with
      | nil => exact .inl hrun
      | cons first rest =>
        have hsound := hb.publishRun stride chunkIndex
          (runStart, first :: rest)
        obtain ⟨block, loc, hloc, rfl⟩ :=
          (hsound.wf.mem_objectIDs_iff_lookup stride).mp hrun
        rw [lookup_publishRun hb] at hloc
        split at hloc
        · cases hloc
          exact .inr rfl
        · exact .inl ((hb.wf.mem_objectIDs_iff_lookup stride).mpr
            ⟨block, loc, hloc, rfl⟩)
    · exact .inr hnew

end BlocksToObject

end Viperblock
