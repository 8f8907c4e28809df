import Viperblock.BlocksToObject
import Viperblock.Config
import Viperblock.Lib.ConsecutiveRuns
import Viperblock.Lib.CutOffEnds

/-!
# The unified block store

`UnifiedBlockStore` of `viperblock/blockstore.go` holds the blocks that are in
memory, one entry a block, and an index of extents for the blocks that are on
the backend.  A block moves from the entries to the extents when its chunk is
uploaded: `MarkPersistedRange` first looks which blocks of the chunk are still
pending with the uploaded version, then installs extents for them, then drops
their entries, looking again.

The sixteen shards of the entries differ only in their locks and are one map
here.  The extents are again disjoint runs, now with a stride of their own.
-/

namespace Viperblock

inductive BlockState
  | empty
  /-- In the write buffer, not yet in the log. -/
  | hot
  /-- In the log, awaiting upload. -/
  | pending
  | persisted
  | cached
deriving DecidableEq, Repr

structure BlockEntry where
  data : Bytes
  seqNum : Nat
  objectID : Nat
  objectOffset : Nat
  state : BlockState
deriving DecidableEq, Repr

/-- A run of blocks that were uploaded together in one chunk. -/
structure PersistedExtent where
  seqNums : List Nat
  startBlock : Nat
  objectID : Nat
  objectOffset : Nat
  stride : Nat
  numBlocks : Nat
deriving DecidableEq, Repr

namespace PersistedExtent

def endBlock (pe : PersistedExtent) : Nat :=
  pe.startBlock + pe.numBlocks

def seqNumAt (pe : PersistedExtent) (i : Nat) : Nat :=
  pe.seqNums.getD i 0

def offsetAt (pe : PersistedExtent) (i : Nat) : Nat :=
  (pe.objectOffset + i * pe.stride) % 2 ^ 32

/-- Location of the block at position `i` of the run. -/
def blockAt (pe : PersistedExtent) (i : Nat) : Location :=
  ⟨pe.objectID, pe.offsetAt i, pe.seqNumAt i⟩

structure Valid (pe : PersistedExtent) : Prop where
  numBlocks_pos : 0 < pe.numBlocks
  numBlocks_le : pe.numBlocks ≤ 65535
  seqNums_length : pe.seqNums.length = pe.numBlocks
  offset_lt : pe.objectOffset < 2 ^ 32

def head (existing : PersistedExtent) (newStart : Nat) : PersistedExtent :=
  let headNum := newStart - existing.startBlock
  { existing with
    numBlocks := headNum % 2 ^ 16
    seqNums := existing.seqNums.take headNum }

def tail (existing : PersistedExtent) (newEnd : Nat) : PersistedExtent :=
  let tailOffsetBlocks := newEnd - existing.startBlock
  let tailNum := existing.endBlock - newEnd
  { existing with
    startBlock := newEnd
    numBlocks := tailNum % 2 ^ 16
    objectOffset := existing.offsetAt (tailOffsetBlocks % 2 ^ 16)
    seqNums := existing.seqNums.drop tailOffsetBlocks }

/-- Persisted runs are extents. -/
def shape : ExtentMap.Shape PersistedExtent where
  start := startBlock
  count := numBlocks
  Valid := Valid
  count_pos := Valid.numBlocks_pos

section Pieces

variable {existing : PersistedExtent} {n : Nat}

section

variable (hvalid : existing.Valid) (hstart : existing.startBlock < n) (hend : n < existing.endBlock)

include hvalid hstart hend

theorem cut_lt :
    (n - existing.startBlock) % 2 ^ 16 = n - existing.startBlock ∧
      (existing.endBlock - n) % 2 ^ 16 = existing.endBlock - n := by
  have hle := hvalid.numBlocks_le
  simp only [endBlock] at hend ⊢
  constructor <;> apply Nat.mod_eq_of_lt <;> omega

theorem head_valid : (existing.head n).Valid := by
  have hlength := hvalid.seqNums_length
  have hcut := (cut_lt hvalid hstart hend).1
  simp only [endBlock] at hend
  refine ⟨?_, ?_, ?_, hvalid.offset_lt⟩
  · simp only [head, hcut]
    omega
  · simp only [head, hcut]
    omega
  · simp only [head, hcut, List.length_take]
    omega

theorem tail_valid : (existing.tail n).Valid := by
  have hlength := hvalid.seqNums_length
  have hcut := (cut_lt hvalid hstart hend).2
  simp only [endBlock] at hend hcut
  refine ⟨?_, ?_, ?_, Nat.mod_lt _ (by decide)⟩
  · simp only [tail, endBlock, hcut]
    omega
  · simp only [tail, endBlock, hcut]
    omega
  · simp only [tail, endBlock, hcut, List.length_drop]
    omega

theorem head_covers_iff (i : Nat) :
    shape.Covers (existing.head n) i ↔ shape.Covers existing i ∧ i < n := by
  have hcut := (cut_lt hvalid hstart hend).1
  simp only [endBlock] at hend
  simp only [ExtentMap.Shape.Covers, ExtentMap.Shape.stop, shape, head, hcut]
  omega

theorem tail_covers_iff (i : Nat) :
    shape.Covers (existing.tail n) i ↔ shape.Covers existing i ∧ n ≤ i := by
  have hcut := (cut_lt hvalid hstart hend).2
  simp only [endBlock] at hend hcut
  simp only [ExtentMap.Shape.Covers, ExtentMap.Shape.stop, shape, tail, endBlock, hcut]
  omega

end

theorem head_blockAt {i : Nat} (hi : i < n - existing.startBlock) :
    (existing.head n).blockAt i = existing.blockAt i := by
  have hseq : (existing.head n).seqNumAt i = existing.seqNumAt i := by
    simp only [seqNumAt, head, List.getD_eq_getElem?_getD, List.getElem?_take_of_lt hi]
  simp only [blockAt, hseq]
  rfl

theorem tail_blockAt (hvalid : existing.Valid) (hstart : existing.startBlock < n) {i : Nat}
    (hlow : n ≤ i) (hhigh : i < existing.endBlock) :
    (existing.tail n).blockAt (i - n) = existing.blockAt (i - existing.startBlock) := by
  have hle := hvalid.numBlocks_le
  simp only [endBlock] at hhigh
  have hpos : n - existing.startBlock + (i - n) = i - existing.startBlock := by
    omega
  have hcut : (n - existing.startBlock) % 2 ^ 16 = n - existing.startBlock :=
    Nat.mod_eq_of_lt (by omega)
  have hseq : (existing.tail n).seqNumAt (i - n) = existing.seqNumAt (i - existing.startBlock) := by
    simp only [seqNumAt, tail, List.getD_eq_getElem?_getD, List.getElem?_drop, hpos]
  have hoffset : (existing.tail n).offsetAt (i - n) =
      existing.offsetAt (i - existing.startBlock) := by
    simp only [offsetAt, tail, hcut, Nat.mod_add_mod, Nat.add_assoc, ← Nat.add_mul, hpos]
  simp only [blockAt, hseq, hoffset]
  rfl

end Pieces

def cutting : ExtentMap.Cutting shape Location where
  value pe i := pe.blockAt i
  head := head
  tail := tail
  head_valid := head_valid
  head_covers := head_covers_iff
  head_start _ _ := rfl
  head_value _ i hcovers hi := by
    apply head_blockAt
    have hlow := hcovers.1
    simp only [shape] at hlow ⊢
    omega
  tail_valid := tail_valid
  tail_covers := tail_covers_iff
  tail_start _ _ := rfl
  tail_value hvalid hstart _ hcovers hlow :=
    tail_blockAt hvalid hstart hlow hcovers.2

end PersistedExtent

abbrev ExtentIndex := AList fun _ : Nat => PersistedExtent

namespace ExtentIndex

/-- The index is a store of runs and nothing else. -/
def store : ExtentMap.Store PersistedExtent.shape ExtentIndex where
  extents index := index
  remove index k _ := index.erase k
  put index pe := index.insert pe.startBlock pe
  InStep _ := True
  extents_remove _ _ _ := rfl
  extents_put _ _ := rfl
  inStep_remove _ _ := trivial
  inStep_put _ _ := trivial

abbrev WellFormed (index : ExtentIndex) : Prop :=
  ExtentMap.WellFormed PersistedExtent.shape index

section

variable (index : ExtentIndex)

/-- Location of a block according to the index. -/
def locate (block : Nat) : Option Location :=
  ExtentMap.get PersistedExtent.cutting index block

def fractureOverlapsLocked (newStart newNum : Nat) : ExtentIndex :=
  index.keys.foldl
    (store.fracture PersistedExtent.cutting newStart (newStart + newNum)) index

/-- Make room for a run and install it. -/
def installExtent (run : PersistedExtent) : ExtentIndex :=
  (fractureOverlapsLocked index run.startBlock run.numBlocks).insert run.startBlock run

theorem installExtent_eq (run : PersistedExtent) :
    installExtent index run = store.override PersistedExtent.cutting index run :=
  rfl

theorem WellFormed.installExtent {index : ExtentIndex} {run : PersistedExtent}
    (hwf : index.WellFormed) (hvalid : run.Valid) : (installExtent index run).WellFormed := by
  have hsound : store.Sound index := ⟨hwf, trivial⟩
  exact (hsound.override PersistedExtent.cutting hvalid).wf

theorem locate_installExtent {index : ExtentIndex} {run : PersistedExtent} (hwf : index.WellFormed)
    (hvalid : run.Valid) (block : Nat) :
    locate (installExtent index run) block = if PersistedExtent.shape.Covers run block then
        some (run.blockAt (block - run.startBlock))
      else locate index block := by
  have hsound : store.Sound index := ⟨hwf, trivial⟩
  exact ExtentMap.Store.get_override PersistedExtent.cutting hsound.wf.loose hvalid block

/-- No extent ends beyond the block numbers, so that 64 bits hold every `end`. -/
def EndsFit : Prop :=
  ∀ k pe, index.lookup k = some pe → PersistedExtent.shape.stop pe < 2 ^ 64

end

theorem WellFormed.endsFit_iff {index : ExtentIndex} (hwf : index.WellFormed) :
    index.EndsFit ↔ ∀ block loc, index.locate block = some loc → block + 1 < 2 ^ 64 :=
  hwf.stop_lt_iff PersistedExtent.cutting

end ExtentIndex

/-- A block of a range: its position, number and sequence number. -/
structure RangeItem where
  pos : Nat
  block : Nat
  seqNum : Nat
deriving DecidableEq, Repr

def rangeItems (blocks seqNums : List Nat) : List RangeItem :=
  (blocks.zip seqNums).zipIdx.map fun item => ⟨item.2, item.1.1, item.1.2⟩

theorem rangeItems_range (n : Nat) (block seqNum : Nat → Nat) :
    rangeItems ((List.range n).map block) ((List.range n).map seqNum) =
      (List.range n).map fun i => ⟨i, block i, seqNum i⟩ := by
  unfold rangeItems
  rw [List.zip_map']
  apply List.ext_getElem?
  intro i
  by_cases hi : i < n
  · simp [List.getElem?_range hi]
  · simp [List.getElem?_eq_none (l := List.range n) (i := i) (by simpa using hi)]

theorem block_mem_of_mem_rangeItems {blocks seqNums : List Nat} {item : RangeItem}
    (hitem : item ∈ rangeItems blocks seqNums) : item.block ∈ blocks := by
  obtain ⟨⟨pair, i⟩, hpair, rfl⟩ := List.mem_map.mp hitem
  exact (List.of_mem_zip (List.fst_mem_of_mem_zipIdx hpair)).1

/-- Neighbours in the range that are neighbours on the volume. -/
def RangeItem.consecutive (a b : RangeItem) : Bool :=
  b.pos == a.pos + 1 && b.block == a.block + 1

section

variable (objectID objectOffset stride : Nat)

/-- The extent for a run of a range whose first position is at `objectOffset`. -/
def runExtent (first : RangeItem) (rest : List RangeItem) : PersistedExtent :=
  { startBlock := first.block
    numBlocks := rest.length + 1
    objectID := objectID
    objectOffset := (objectOffset + first.pos * stride) % 2 ^ 32
    stride := stride
    seqNums := (first :: rest).map RangeItem.seqNum }

/-- Where a block of the range is stored. -/
def RangeItem.location (item : RangeItem) :
    Location :=
  ⟨objectID, (objectOffset + item.pos * stride) % 2 ^ 32, item.seqNum⟩

/-- Install the extent of one run. -/
def installRun (index : ExtentIndex) :
    List RangeItem → ExtentIndex
  | [] => index
  | first :: rest =>
    index.installExtent (runExtent objectID objectOffset stride first rest)

/-- Install extents for the given blocks of a range, run by run. -/
def installRuns (index : ExtentIndex) (items : List RangeItem) : ExtentIndex :=
  (ConsecutiveRuns.boundedRuns RangeItem.consecutive 65535 items).foldl
    (installRun objectID objectOffset stride) index

end

section InstallRuns

variable (objectID objectOffset stride : Nat)

theorem runExtent_spec {first : RangeItem} {rest : List RangeItem}
    (hchain : (first :: rest).IsChain fun a b => RangeItem.consecutive a b = true)
    (hlength : (first :: rest).length ≤ 65535) :
    let pe := runExtent objectID objectOffset stride first rest
    pe.Valid ∧ (∀ item ∈ first :: rest, PersistedExtent.shape.Covers pe item.block ∧
        pe.blockAt (item.block - pe.startBlock) = item.location objectID objectOffset stride) ∧
      (∀ block, PersistedExtent.shape.Covers pe block →
        ∃ item ∈ first :: rest, item.block = block) := by
  have hblocks : (first :: rest).IsChain fun a b => b.block = a.block + 1 :=
    hchain.imp fun a b hab => by
      simp only [RangeItem.consecutive, Bool.and_eq_true, beq_iff_eq] at hab
      exact hab.2
  have hpositions : (first :: rest).IsChain fun a b => b.pos = a.pos + 1 :=
    hchain.imp fun a b hab => by
      simp only [RangeItem.consecutive, Bool.and_eq_true, beq_iff_eq] at hab
      exact hab.1
  refine ⟨⟨Nat.succ_pos _, hlength, ?_, Nat.mod_lt _ (by decide)⟩, ?_, ?_⟩
  · simp [runExtent]
  · intro item hitem
    obtain ⟨i, hi⟩ := List.mem_iff_getElem?.mp hitem
    have hblock := ConsecutiveRuns.number_of_getElem? hblocks hi
    have hpos := ConsecutiveRuns.number_of_getElem? hpositions hi
    have hlt : i < (first :: rest).length := (List.getElem?_eq_some_iff.mp hi).1
    have hindex : item.block - first.block = i := by
      omega
    constructor
    · simp only [ExtentMap.Shape.Covers, ExtentMap.Shape.stop, PersistedExtent.shape, runExtent]
      simp only [List.length_cons] at hlt
      omega
    · have hseq : ((first :: rest).map RangeItem.seqNum).getD i 0 = item.seqNum := by
        rw [List.getD_eq_getElem?_getD, List.getElem?_map, hi]
        rfl
      simp only [runExtent, PersistedExtent.blockAt, PersistedExtent.offsetAt,
        PersistedExtent.seqNumAt, RangeItem.location, hindex, hseq, hpos,
        Nat.mod_add_mod, Nat.add_mul, Nat.add_assoc]
  · intro block hcovers
    obtain ⟨item, hitem, hblock⟩ :=
      ConsecutiveRuns.exists_mem_of_number_lt hblocks hcovers.1 hcovers.2
    exact ⟨item, List.mem_of_getElem? hitem, hblock⟩

section

variable {index : ExtentIndex}

/-- Installing runs one after the other: a block of the runs is located as one of its
items says, any other block as before. -/
theorem foldl_installRun_cases (runs : List (List RangeItem)) (hwf : index.WellFormed)
    (hruns : ∀ run ∈ runs, run ≠ [] ∧ run.length ≤ 65535 ∧
      run.IsChain fun a b => RangeItem.consecutive a b = true) :
    let index' := runs.foldl (installRun objectID objectOffset stride) index
    index'.WellFormed ∧ ∀ block, (∃ item ∈ runs.flatten, item.block = block ∧
        index'.locate block = some (item.location objectID objectOffset stride)) ∨
      ((∀ item ∈ runs.flatten, item.block ≠ block) ∧ index'.locate block = index.locate block) := by
  induction runs generalizing index with
  | nil =>
    exact ⟨hwf, fun _ => .inr ⟨fun _ hitem => absurd hitem List.not_mem_nil, rfl⟩⟩
  | cons run runs ih =>
    obtain ⟨hne, hlength, hchain⟩ := hruns run (by simp)
    obtain ⟨first, rest, rfl⟩ := List.exists_cons_of_ne_nil hne
    obtain ⟨hvalid, hitems, honly⟩ :=
      runExtent_spec objectID objectOffset stride hchain hlength
    obtain ⟨hwf', hblocks⟩ := ih (hwf.installExtent hvalid)
      (fun r hr => hruns r (by simp [hr]))
    refine ⟨hwf', fun block => ?_⟩
    rcases hblocks block with ⟨item, hitem, hblock, hlocate⟩ | ⟨hlater, hlocate⟩
    · exact .inl ⟨item, List.mem_append_right _ hitem, hblock, hlocate⟩
    · rw [ExtentIndex.locate_installExtent hwf hvalid] at hlocate
      by_cases hcovers : PersistedExtent.shape.Covers
          (runExtent objectID objectOffset stride first rest) block
      · obtain ⟨item, hitem, rfl⟩ := honly block hcovers
        rw [if_pos hcovers, (hitems item hitem).2] at hlocate
        exact .inl ⟨item, List.mem_append_left _ hitem, rfl, hlocate⟩
      · rw [if_neg hcovers] at hlocate
        refine .inr ⟨fun item hitem => ?_, hlocate⟩
        rcases List.mem_append.mp hitem with hfirst | hrest
        · rintro rfl
          exact hcovers (hitems item hfirst).1
        · exact hlater item hrest

theorem installRuns_cases (hwf : index.WellFormed) (items : List RangeItem) :
    let index' := installRuns objectID objectOffset stride index items
    index'.WellFormed ∧ ∀ block, (∃ item ∈ items, item.block = block ∧
        index'.locate block = some (item.location objectID objectOffset stride)) ∨
      ((∀ item ∈ items, item.block ≠ block) ∧ index'.locate block = index.locate block) := by
  have hlimit : 0 < 65535 := by decide
  have hcases := foldl_installRun_cases objectID objectOffset stride
    (ConsecutiveRuns.boundedRuns RangeItem.consecutive 65535 items) hwf
    (fun run hrun => ConsecutiveRuns.mem_boundedRuns hlimit hrun)
  rw [ConsecutiveRuns.flatten_boundedRuns hlimit RangeItem.consecutive items] at hcases
  exact hcases

theorem endsFit_installRuns (hwf : index.WellFormed) (hfit : index.EndsFit) {blocks : List Nat}
    (hlast : ∀ block ∈ blocks, block + 1 < 2 ^ 64) {items : List RangeItem}
    (hitems : ∀ item ∈ items, item.block ∈ blocks) :
    (installRuns objectID objectOffset stride index items).EndsFit := by
  obtain ⟨hwf', hlocated⟩ := installRuns_cases objectID objectOffset stride hwf items
  rw [hwf'.endsFit_iff]
  intro block loc hloc
  rcases hlocated block with ⟨item, hitem, rfl, -⟩ | ⟨-, hlocate⟩
  · exact hlast _ (hitems item hitem)
  · exact hwf.endsFit_iff.mp hfit block loc (hlocate ▸ hloc)

/-- Installing a range overrides the index on the blocks of the range. -/
theorem installRuns_spec {items : List RangeItem} (hwf : index.WellFormed)
    (hsorted : items.Pairwise fun a b => a.block < b.block) :
    let index' := installRuns objectID objectOffset stride index items
    index'.WellFormed ∧ (∀ item ∈ items,
        index'.locate item.block = some (item.location objectID objectOffset stride)) ∧
      (∀ block, (∀ item ∈ items, item.block ≠ block) →
        index'.locate block = index.locate block) := by
  obtain ⟨hwf', hblocks⟩ := installRuns_cases objectID objectOffset stride hwf items
  have hnodup : (items.map RangeItem.block).Nodup :=
    List.pairwise_map.mpr (hsorted.imp Nat.ne_of_lt)
  refine ⟨hwf', fun item hitem => ?_, fun block hblock => ?_⟩
  · rcases hblocks item.block with ⟨other, hother, heq, hlocate⟩ | ⟨hnone, -⟩
    · rw [hlocate, List.inj_on_of_nodup_map hnodup hother hitem heq]
    · exact absurd rfl (hnone item hitem)
  · rcases hblocks block with ⟨item, hitem, heq, -⟩ | ⟨-, hlocate⟩
    · exact absurd heq (hblock item hitem)
    · exact hlocate

end

end InstallRuns

structure UnifiedBlockStore where
  entries : AList fun _ : Nat => BlockEntry
  persistedExtents : ExtentIndex

namespace UnifiedBlockStore

/-- A store without blocks. -/
def new : UnifiedBlockStore := ⟨∅, ∅⟩

section

variable (ubs : UnifiedBlockStore)

def readPersisted (block : Nat) : Option BlockEntry :=
  (ExtentMap.find PersistedExtent.shape ubs.persistedExtents block).map fun pe =>
    let idx := (block - pe.startBlock) % 2 ^ 16
    { data := []
      seqNum := pe.seqNumAt idx
      objectID := pe.objectID
      objectOffset := pe.offsetAt idx
      state := .persisted }

/-- The entry of a block in memory, or else its persisted location. -/
def readEntry (block : Nat) : Option BlockEntry :=
  match ubs.entries.lookup block with
  | some entry => some entry
  | none => ubs.readPersisted block

def writeWithSeqNum (block : Nat) (data : Bytes) (seqNum : Nat) : UnifiedBlockStore :=
  let entry := (ubs.entries.lookup block).getD ⟨[], 0, 0, 0, .empty⟩
  { ubs with
    entries := ubs.entries.insert block
      (if entry.seqNum < seqNum then ⟨data, seqNum, 0, 0, .hot⟩ else entry) }

def markPending (block : Nat) : UnifiedBlockStore :=
  match ubs.entries.lookup block with
  | some entry =>
    if entry.state = .hot then
      { ubs with entries := ubs.entries.insert block { entry with state := .pending } }
    else ubs
  | none => ubs

/-- Keep the data of a persisted block that was read. -/
def cache (block : Nat) (data : Bytes) : UnifiedBlockStore :=
  match ubs.entries.lookup block with
  | some entry =>
    if entry.state = .persisted then
      { ubs with
        entries := ubs.entries.insert block { entry with state := .cached, data := data } }
    else ubs
  | none => ubs

/-- The uploaded version is still the pending one. -/
def eligible (item : RangeItem) : Bool :=
  match ubs.entries.lookup item.block with
  | some entry => entry.state == .pending && entry.seqNum == item.seqNum
  | none => false

/-- Drop the entry of a persisted block, unless it was rewritten meanwhile. -/
def dropPersisted (item : RangeItem) : UnifiedBlockStore :=
  if ubs.eligible item then { ubs with entries := ubs.entries.erase item.block } else ubs

/-- The three passes of a call that nothing interrupts. -/
def markPersistedRange (blocks : List Nat) (objectID objectOffset stride : Nat)
    (seqNums : List Nat) :
    UnifiedBlockStore :=
  let items := (rangeItems blocks seqNums).filter ubs.eligible
  items.foldl dropPersisted
    { ubs with
      persistedExtents :=
        installRuns objectID objectOffset stride ubs.persistedExtents items }

def setPersistedRange (blocks : List Nat) (objectID objectOffset stride : Nat)
    (seqNums : List Nat) :
    UnifiedBlockStore :=
  { ubs with
    persistedExtents :=
      installRuns objectID objectOffset stride ubs.persistedExtents
        (rangeItems blocks seqNums) }

end

/-- Install one entry of the block map. -/
def setEntry (stride : Nat) (ubs : UnifiedBlockStore) (lookup : BlockLookup) :
    UnifiedBlockStore :=
  ubs.setPersistedRange ((List.range lookup.numBlocks).map (lookup.startBlock + ·))
    lookup.objectID lookup.objectOffset stride
    ((List.range lookup.numBlocks).map lookup.seqNumAt)

/-- Install every entry of the block map, as a checkpoint load does. -/
def installMap (stride : Nat) (ubs : UnifiedBlockStore) (m : BlockMap) :
    UnifiedBlockStore :=
  m.entries.foldl (fun ubs entry => ubs.setEntry stride entry.2) ubs

theorem lookup_dropPersisted {store : UnifiedBlockStore} {item : RangeItem} {block : Nat} :
    (store.dropPersisted item).entries.lookup block =
      if block = item.block ∧ store.eligible item = true then none
      else store.entries.lookup block := by
  unfold dropPersisted
  split
  · rename_i heligible
    by_cases hblock : block = item.block
    · subst hblock
      rw [if_pos ⟨rfl, heligible⟩]
      exact AList.lookup_erase _ _
    · simp [hblock, AList.lookup_erase_ne hblock]
  · rename_i heligible
    simp [heligible]

theorem persistedExtents_markPending (store : UnifiedBlockStore) (block : Nat) :
    (store.markPending block).persistedExtents = store.persistedExtents := by
  unfold markPending
  split
  · split <;> rfl
  · rfl

theorem persistedExtents_dropPersisted (store : UnifiedBlockStore) (item : RangeItem) :
    (store.dropPersisted item).persistedExtents = store.persistedExtents := by
  unfold dropPersisted
  split <;> rfl

theorem locate_dropPersisted {store : UnifiedBlockStore} {item : RangeItem} (block : Nat) :
    (store.dropPersisted item).persistedExtents.locate block =
      store.persistedExtents.locate block := by
  rw [persistedExtents_dropPersisted]

theorem foldl_dropPersisted (items : List RangeItem) (store : UnifiedBlockStore) :
    (items.foldl dropPersisted store).persistedExtents = store.persistedExtents ∧
      ∀ block e, (items.foldl dropPersisted store).entries.lookup block = some e →
        store.entries.lookup block = some e := by
  induction items generalizing store with
  | nil => exact ⟨rfl, fun _ _ h => h⟩
  | cons item items ih =>
    obtain ⟨hextents, hentries⟩ := ih (store.dropPersisted item)
    refine ⟨hextents.trans (persistedExtents_dropPersisted store item), fun block e he => ?_⟩
    have hold := hentries block e he
    rw [lookup_dropPersisted] at hold
    split at hold
    · cases hold
    · exact hold

theorem lookup_foldl_dropPersisted_of_ne {items : List RangeItem} {block : Nat}
    (hblock : ∀ item ∈ items, item.block ≠ block) (store : UnifiedBlockStore) :
    (items.foldl dropPersisted store).entries.lookup block = store.entries.lookup block := by
  induction items generalizing store with
  | nil => rfl
  | cons item items ih =>
    refine (ih (fun i hi => hblock i (by simp [hi])) _).trans ?_
    rw [lookup_dropPersisted, if_neg]
    rintro ⟨rfl, -⟩
    exact hblock item (by simp) rfl

/-- An eligible item has the version of the entry of its block. -/
theorem seqNum_of_eligible {ubs : UnifiedBlockStore} {item : RangeItem}
    (heligible : ubs.eligible item = true) :
    ∃ entry, ubs.entries.lookup item.block = some entry ∧ entry.state = .pending ∧
      entry.seqNum = item.seqNum := by
  unfold eligible at heligible
  split at heligible
  · rename_i entry hentry
    simp only [Bool.and_eq_true, beq_iff_eq] at heligible
    exact ⟨entry, hentry, heligible⟩
  · cases heligible

theorem markPersistedRange_of_entries_empty {ubs : UnifiedBlockStore} (hempty : ubs.entries = ∅)
    (blocks : List Nat) (objectID objectOffset stride : Nat) (seqNums : List Nat) :
    ubs.markPersistedRange blocks objectID objectOffset stride seqNums = ubs := by
  have hnone : (rangeItems blocks seqNums).filter ubs.eligible = [] := by
    rw [List.filter_eq_nil_iff]
    intro item _
    simp [eligible, hempty]
  unfold markPersistedRange
  rw [hnone]
  rfl

section Install

variable {ubs : UnifiedBlockStore} (stride : Nat)

theorem readPersisted_eq (hwf : ubs.persistedExtents.WellFormed) (block : Nat) :
    ubs.readPersisted block = (ubs.persistedExtents.locate block).map fun loc =>
        ⟨[], loc.seqNum, loc.objectID, loc.objectOffset, .persisted⟩ := by
  unfold readPersisted ExtentIndex.locate ExtentMap.get
  cases hfind : ExtentMap.find PersistedExtent.shape ubs.persistedExtents block with
  | none => rfl
  | some pe =>
    obtain ⟨hlookup, hcovers⟩ := hwf.find_eq_some_iff.mp hfind
    have hle := (hwf.valid hlookup).numBlocks_le
    have hhigh := hcovers.2
    simp only [ExtentMap.Shape.stop, PersistedExtent.shape] at hhigh
    have hidx : (block - pe.startBlock) % 2 ^ 16 = block - pe.startBlock :=
      Nat.mod_eq_of_lt (by omega)
    simp only [Option.map_some, hidx]
    rfl

theorem setEntry_spec {lookup : BlockLookup} (hwf : ubs.persistedExtents.WellFormed)
    (hvalid : lookup.Valid) :
    (ubs.setEntry stride lookup).persistedExtents.WellFormed ∧
      ∀ block, (ubs.setEntry stride lookup).persistedExtents.locate block =
        if lookup.Covers block then
          some (lookup.blockAt stride (block - lookup.startBlock))
        else ubs.persistedExtents.locate block := by
  have hsorted : ((List.range lookup.numBlocks).map fun i =>
      (⟨i, lookup.startBlock + i, lookup.seqNumAt i⟩ : RangeItem)).Pairwise
        fun a b => a.block < b.block := by
    rw [List.pairwise_map]
    exact List.pairwise_lt_range.imp fun h => Nat.add_lt_add_left h _
  obtain ⟨hwf', hlocated, hother⟩ :=
    installRuns_spec lookup.objectID lookup.objectOffset stride hwf hsorted
  simp only [setEntry, setPersistedRange, rangeItems_range]
  refine ⟨hwf', ?_⟩
  intro block
  by_cases hcovers : lookup.Covers block
  · rw [if_pos hcovers]
    obtain ⟨hlow, hhigh⟩ := hcovers
    simp only [BlockLookup.endBlock] at hhigh
    have hle := hvalid.numBlocks_le
    have hitem := hlocated ⟨block - lookup.startBlock,
      lookup.startBlock + (block - lookup.startBlock),
      lookup.seqNumAt (block - lookup.startBlock)⟩ (by
        rw [List.mem_map]
        exact ⟨block - lookup.startBlock, List.mem_range.mpr (by omega), rfl⟩)
    have hblock : lookup.startBlock + (block - lookup.startBlock) = block := by
      omega
    have hsafe :
        safeIntToUint32 (block - lookup.startBlock) = block - lookup.startBlock := by
      unfold safeIntToUint32
      omega
    rw [hblock] at hitem
    rw [hitem]
    simp only [RangeItem.location, BlockLookup.blockAt, BlockLookup.offsetAt, hsafe]
  · rw [if_neg hcovers]
    apply hother
    intro item hitem
    obtain ⟨i, hi, rfl⟩ := List.mem_map.mp hitem
    have hlt := List.mem_range.mp hi
    simp only [BlockLookup.Covers, BlockLookup.endBlock] at hcovers
    dsimp only
    omega

theorem foldl_setEntry_spec (entries : List (Sigma fun _ : Nat => BlockLookup))
    {ubs : UnifiedBlockStore} (hwf : ubs.persistedExtents.WellFormed)
    (hvalid : ∀ entry ∈ entries, entry.2.Valid)
    (hapart : entries.Pairwise fun a b => BlockLookup.shape.Apart a.2 b.2) :
    let ubs' := entries.foldl (fun ubs entry => ubs.setEntry stride entry.2) ubs
    ubs'.persistedExtents.WellFormed ∧ ubs'.entries = ubs.entries ∧
      (∀ entry ∈ entries, ∀ block, entry.2.Covers block → ubs'.persistedExtents.locate block =
          some (entry.2.blockAt stride (block - entry.2.startBlock))) ∧
      (∀ block, (∀ entry ∈ entries, ¬ entry.2.Covers block) →
        ubs'.persistedExtents.locate block = ubs.persistedExtents.locate block) := by
  induction entries generalizing ubs with
  | nil => exact ⟨hwf, rfl, by simp, fun _ _ => rfl⟩
  | cons entry entries ih =>
    rw [List.pairwise_cons] at hapart
    obtain ⟨hwf₁, hlocate₁⟩ := setEntry_spec stride hwf (hvalid entry (by simp))
    obtain ⟨hwf', hentries, hcovered, hother⟩ := ih hwf₁
      (fun e he => hvalid e (by simp [he])) hapart.2
    refine ⟨hwf', hentries, ?_, ?_⟩
    · intro e he block hcovers
      rcases List.mem_cons.mp he with rfl | hrest
      · refine (hother block ?_).trans ?_
        · intro other hmem hcovers'
          exact (hapart.1 other hmem).not_covers hcovers hcovers'
        · rw [hlocate₁, if_pos hcovers]
      · exact hcovered e hrest block hcovers
    · intro block hblock
      refine (hother block fun e he => hblock e (by simp [he])).trans ?_
      rw [hlocate₁, if_neg (hblock entry (by simp))]

/-- Installing a block map overrides the index wherever the map has a location. -/
theorem installMap_spec {m : BlockMap} (hwf : ubs.persistedExtents.WellFormed) (hm : m.WellFormed) :
    (ubs.installMap stride m).persistedExtents.WellFormed ∧
      (ubs.installMap stride m).entries = ubs.entries ∧
      ∀ block, (ubs.installMap stride m).persistedExtents.locate block =
        (BlocksToObject.lookupBlockToObject stride m block).or
          (ubs.persistedExtents.locate block) := by
  have hlookup : ∀ entry ∈ m.entries, m.lookup entry.1 = some entry.2 :=
    fun entry hentry => FiniteMap.mem_entries_iff.mp hentry
  obtain ⟨hwf', hentries, hcovered, hother⟩ := foldl_setEntry_spec stride m.entries hwf
    (fun entry hentry => hm.valid (hlookup entry hentry)) hm.pairwise_apart
  refine ⟨hwf', hentries, ?_⟩
  intro block
  cases hloc : BlocksToObject.lookupBlockToObject stride m block with
  | some loc =>
    obtain ⟨bl, hbl, hcovers, rfl⟩ := hm.lookup_eq_some_iff.mp hloc
    exact hcovered _ (FiniteMap.mem_entries_iff.mpr hbl) block hcovers
  | none =>
    apply hother
    intro entry hentry hcovers
    rw [hm.lookup_of_covers (hlookup entry hentry) hcovers] at hloc
    cases hloc

end Install

end UnifiedBlockStore

end Viperblock
