import Viperblock.MapHistory

/-!
# The block map with ends of 64 bits

The end of an entry is computed in the 64 bits of a block number, so that an entry with the
very last block ends at zero: a lookup finds only its first block, and a run that is entered
over it does not cut it.  The operations of `createChunkFile` on the map are written here
with these ends.  As long as no entry and no block of a chunk reaches the last block they
are those of the map of unbounded numbers.
-/

namespace Viperblock

/-- `end` as the 64 bits of a block number hold it. -/
def BlockLookup.wordEnd (bl : BlockLookup) : Nat :=
  bl.endBlock % 2 ^ 64

/-- No entry ends beyond the block numbers. -/
def BlockMap.EndsFit (m : BlockMap) : Prop :=
  ∀ k bl, m.lookup k = some bl → BlockLookup.shape.stop bl < 2 ^ 64

namespace BlocksToObject

open BlockMap

/-- `staleDrain` with the ends in words. -/
def staleDrainWords (m : BlockMap) (newBlock : BlockLookup) : Bool :=
  match ExtentMap.findBy BlockLookup.shape BlockLookup.wordEnd m newBlock.startBlock with
  | some oldBlock => decide (newBlock.seqNum ≤ oldBlock.seqNum)
  | none => false

/-- `publishRun` with the ends in words. -/
def publishRunWords (stride chunkIndex : Nat) (b : BlocksToObject) :
    Nat × List Block → BlocksToObject
  | (_, []) => b
  | (runStart, first :: rest) =>
    let entry := newBlock stride chunkIndex runStart first rest
    if staleDrainWords b.blockLookup entry then
      { b with gcRefcount := b.gcRefcount.map (trackRef chunkIndex) }
    else store.overrideBy (BlockLookup.cutting stride) BlockLookup.wordEnd b entry

/-- The locked section of `createChunkFile` with the ends in words. -/
def publishChunkWords (stride chunkIndex : Nat) (b : BlocksToObject)
    (matchedBlocks : List Block) : BlocksToObject :=
  (chunkRuns matchedBlocks).foldl (publishRunWords stride chunkIndex) b

variable {b : BlocksToObject} {stride chunkIndex : Nat}

theorem wordEnd_eq {bl : BlockLookup} (hlt : BlockLookup.shape.stop bl < 2 ^ 64) :
    bl.wordEnd = BlockLookup.shape.stop bl :=
  Nat.mod_eq_of_lt hlt

theorem endsFit_of_lookup (stride : Nat) (hwf : b.blockLookup.WellFormed)
    (hlt : ∀ block loc, lookupBlockToObject stride b.blockLookup block = some loc →
      block + 1 < 2 ^ 64) : b.blockLookup.EndsFit :=
  (hwf.stop_lt_iff (BlockLookup.cutting stride)).mpr fun block loc hloc =>
    hlt block loc (hwf.lookup_eq_get stride block ▸ hloc)

theorem endsFit_parseBlockCheckpoint (gcEnabled : Bool) (stride : Nat) {records : List BlockLookup}
    (hoffset : ∀ rec ∈ records, rec.objectOffset < 2 ^ 32)
    (hlast : ∀ rec ∈ records, rec.startBlock + 1 < 2 ^ 64) :
    (parseBlockCheckpoint gcEnabled stride records).blockLookup.EndsFit := by
  refine endsFit_of_lookup stride (parseBlockCheckpoint_sound gcEnabled stride hoffset).wf
    fun block loc hloc => ?_
  obtain ⟨rec, hrec, -⟩ := lookup_coalesce_sound (flat_flatRecords hoffset) hloc
  obtain ⟨hmem, rfl⟩ := mem_of_lookup_flatRecords hrec
  exact hlast rec hmem

/-- A run of blocks that does not reach the last one is published as it is in the map of
unbounded numbers. -/
theorem publishRunWords_eq (hb : b.Sound) (hfit : b.blockLookup.EndsFit)
    {matchedBlocks : List Block} {run : Nat × List Block} (hrun : run ∈ chunkRuns matchedBlocks)
    (hlast : ∀ w ∈ run.2, w.block + 1 < 2 ^ 64) :
    publishRunWords stride chunkIndex b run = publishRun stride chunkIndex b run ∧
      (publishRun stride chunkIndex b run).blockLookup.EndsFit := by
  have hchain := isChain_of_mem_chunkRuns hrun
  obtain ⟨runStart, blocks⟩ := run
  cases blocks with
  | nil => exact ⟨rfl, hfit⟩
  | cons first rest =>
    have hend : BlockLookup.shape.stop (newBlock stride chunkIndex runStart first rest) <
        2 ^ 64 := by
      have hget := List.getElem?_eq_getElem (l := first :: rest) (Nat.lt_succ_self rest.length)
      have hnumber := ConsecutiveRuns.number_of_getElem? hchain hget
      have hlt := hlast _ (List.mem_of_getElem? hget)
      simp only [ExtentMap.Shape.stop, BlockLookup.shape, newBlock, safeIntToUint16]
      omega
    have hstale : staleDrainWords b.blockLookup (newBlock stride chunkIndex runStart first rest) =
        staleDrain b.blockLookup (newBlock stride chunkIndex runStart first rest) := by
      rw [staleDrainWords, staleDrain, hb.wf.resolve_eq_find,
        ExtentMap.findBy_eq fun k bl hbl => wordEnd_eq (hfit k bl hbl)]
      cases ExtentMap.find BlockLookup.shape b.blockLookup _ <;> rfl
    have hinsert : store.overrideBy (BlockLookup.cutting stride) BlockLookup.wordEnd b
        (newBlock stride chunkIndex runStart first rest) =
          store.override (BlockLookup.cutting stride) b
            (newBlock stride chunkIndex runStart first rest) :=
      ExtentMap.Store.overrideBy_eq hb.store.wf.loose (fun _ => wordEnd_eq) hfit hend
    simp only [publishRunWords, publishRun, hstale, hinsert, insertCoalescedLocked_eq, true_and]
    split
    · exact hfit
    · exact fun k bl hbl =>
        ExtentMap.Store.stop_override_lt hb.store.wf newBlock_valid hfit hend hbl

theorem publishChunkWords_eq (stride chunkIndex : Nat) (hb : b.Sound) (hfit : b.blockLookup.EndsFit)
    {matchedBlocks : List Block} (hlast : ∀ w ∈ matchedBlocks, w.block + 1 < 2 ^ 64) :
    publishChunkWords stride chunkIndex b matchedBlocks =
        publishChunk stride chunkIndex b matchedBlocks ∧
      (publishChunk stride chunkIndex b matchedBlocks).blockLookup.EndsFit := by
  have hfold : ∀ runs : List (Nat × List Block), runs ⊆ chunkRuns matchedBlocks →
      ∀ b : BlocksToObject, b.Sound → b.blockLookup.EndsFit →
        runs.foldl (publishRunWords stride chunkIndex) b =
            runs.foldl (publishRun stride chunkIndex) b ∧
          (runs.foldl (publishRun stride chunkIndex) b).blockLookup.EndsFit := by
    intro runs hruns
    induction runs with
    | nil => exact fun b _ hfit => ⟨rfl, hfit⟩
    | cons run runs ih =>
      intro b hb hfit
      obtain ⟨hrun, hrest⟩ := List.cons_subset.mp hruns
      obtain ⟨heq, hfit'⟩ := publishRunWords_eq hb hfit hrun fun w hw => hlast w
        (ConsecutiveRuns.exists_run_mem_iff.mp ⟨_, mem_splitBy_of_mem_chunkRuns hrun, hw⟩)
      rw [List.foldl_cons, List.foldl_cons, heq]
      exact ih hrest _ (hb.publishRun _ _ run) hfit'
  exact hfold _ (List.Subset.refl _) b hb hfit

end BlocksToObject

end Viperblock
