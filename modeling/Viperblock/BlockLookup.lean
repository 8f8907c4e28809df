import Mathlib.Algebra.Order.Ring.Nat
import Mathlib.Data.List.AList
import Viperblock.Lib.ExtentMap

/-!
# The block map: coalesced extents keyed by their first block

This module models `BlockLookup` and `BlocksToObject` of
`viperblock/viperblock.go`: one entry maps a run of consecutive blocks to
consecutive slots of one chunk object.  `insertCoalescedLocked` overrides a
range of the map, cutting the entries it overlaps into a surviving head and
tail, and keeps the chunk reference counts of the garbage collector in step.

Block numbers, object IDs and sequence numbers are natural numbers.  The
fields the format truncates keep their width: a run count saturates at 16 bits
and an object offset is computed modulo 2^32.
-/

namespace Viperblock

/-- Saturating conversion to the 16-bit run count. -/
def safeIntToUint16 (v : Nat) : Nat :=
  min v 65535

/-- Saturating conversion to a 32-bit offset. -/
def safeIntToUint32 (v : Nat) : Nat :=
  min v 4294967295

/-- One coalesced run of blocks stored in one chunk object. -/
structure BlockLookup where
  /-- Sequence number of every block of the run, when populated. -/
  seqNums : List Nat
  startBlock : Nat
  objectID : Nat
  /-- Sequence number of the first block of the run. -/
  seqNum : Nat
  objectOffset : Nat
  numBlocks : Nat
deriving DecidableEq, Repr

/-- Where the current version of one block is stored. -/
structure Location where
  objectID : Nat
  objectOffset : Nat
  seqNum : Nat
deriving DecidableEq, Repr

namespace BlockLookup

section

variable (bl : BlockLookup)

/-- Exclusive upper bound of the block range. -/
def endBlock : Nat :=
  bl.startBlock + bl.numBlocks

def seqNumAt (i : Nat) : Nat :=
  bl.seqNums.getD i bl.seqNum

def offsetAt (i stride : Nat) : Nat :=
  (bl.objectOffset + safeIntToUint32 i * stride) % 2 ^ 32

def sliceSeqNums (first last : Nat) : List Nat :=
  (List.range (last - first)).map fun i => bl.seqNumAt (first + i)

/-- Location of the block at position `i` of the run. -/
def blockAt (stride i : Nat) : Location :=
  ⟨bl.objectID, bl.offsetAt i stride, bl.seqNumAt i⟩

/-- The block lies in the run. -/
def Covers (block : Nat) : Prop :=
  bl.startBlock ≤ block ∧ block < bl.endBlock

end

instance (bl : BlockLookup) (block : Nat) : Decidable (bl.Covers block) :=
  inferInstanceAs (Decidable (_ ∧ _))

/-- Two runs share no block. -/
def Apart (bl other : BlockLookup) : Prop :=
  bl.endBlock ≤ other.startBlock ∨ other.endBlock ≤ bl.startBlock

instance (bl other : BlockLookup) : Decidable (bl.Apart other) :=
  inferInstanceAs (Decidable (_ ∨ _))

/-- What every entry of the map satisfies on its own. -/
structure Valid (bl : BlockLookup) : Prop where
  numBlocks_pos : 0 < bl.numBlocks
  numBlocks_le : bl.numBlocks ≤ 65535
  seqNum_first : bl.seqNum = bl.seqNumAt 0
  offset_lt : bl.objectOffset < 2 ^ 32

/-- The run as single-block entries, one per block. -/
def expandBlockLookup (bl : BlockLookup) (stride : Nat) : List BlockLookup :=
  (List.range bl.numBlocks).map fun i =>
    { startBlock := bl.startBlock + i
      numBlocks := 1
      objectID := bl.objectID
      objectOffset := bl.offsetAt i stride
      seqNum := bl.seqNumAt i
      seqNums := [] }

/-- What survives of the run in front of a new range starting at `newStart`. -/
def head (existing : BlockLookup) (newStart : Nat) : BlockLookup :=
  let headLen := newStart - existing.startBlock
  { startBlock := existing.startBlock
    numBlocks := safeIntToUint16 headLen
    objectID := existing.objectID
    objectOffset := existing.objectOffset
    seqNum := existing.seqNumAt 0
    seqNums := existing.sliceSeqNums 0 headLen }

/-- What survives of the run behind a new range ending at `newEnd`. -/
def tail (existing : BlockLookup) (newEnd stride : Nat) : BlockLookup :=
  let tailOffset := newEnd - existing.startBlock
  let tailLen := existing.endBlock - newEnd
  { startBlock := newEnd
    numBlocks := safeIntToUint16 tailLen
    objectID := existing.objectID
    objectOffset := existing.offsetAt tailOffset stride
    seqNum := existing.seqNumAt tailOffset
    seqNums := existing.sliceSeqNums tailOffset (tailOffset + tailLen) }

theorem seqNumAt_slice {bl other : BlockLookup} {first i : Nat} (last : Nat)
    (hslice : other.seqNums = bl.sliceSeqNums first last) (hi : i < last - first) :
    other.seqNumAt i = bl.seqNumAt (first + i) := by
  simp [seqNumAt, hslice, sliceSeqNums, hi]

theorem offsetAt_lt (bl : BlockLookup) (i stride : Nat) :
    bl.offsetAt i stride < 2 ^ 32 :=
  Nat.mod_lt _ (by decide)

theorem offsetAt_shift {bl other : BlockLookup} {stride skip i : Nat}
    (hoffset : other.objectOffset = bl.offsetAt skip stride) (hskip : skip + i ≤ 65535) :
    other.offsetAt i stride = bl.offsetAt (skip + i) stride := by
  have hskip' : safeIntToUint32 skip = skip := by
    unfold safeIntToUint32; omega
  have hi : safeIntToUint32 i = i := by
    unfold safeIntToUint32; omega
  have hsum : safeIntToUint32 (skip + i) = skip + i := by
    unfold safeIntToUint32; omega
  simp only [offsetAt] at hoffset ⊢
  rw [hoffset, hskip', hi, hsum, Nat.mod_add_mod, Nat.add_mul, Nat.add_assoc]

section Pieces

variable {existing : BlockLookup} {newStart newEnd stride : Nat}

theorem head_covers_iff (hle : existing.numBlocks ≤ 65535) (hlt : newStart < existing.endBlock)
    (block : Nat) :
    (existing.head newStart).Covers block ↔ existing.Covers block ∧ block < newStart := by
  simp only [Covers, endBlock, head, safeIntToUint16] at hlt ⊢
  omega

theorem tail_covers_iff (stride : Nat) (hle : existing.numBlocks ≤ 65535)
    (hlt : existing.startBlock < newEnd) (block : Nat) :
    (existing.tail newEnd stride).Covers block ↔ existing.Covers block ∧ newEnd ≤ block := by
  simp only [Covers, endBlock, tail, safeIntToUint16]
  omega

theorem head_blockAt {block : Nat} (hcovers : existing.Covers block) (hblock : block < newStart) :
    (existing.head newStart).blockAt stride (block - existing.startBlock) =
      existing.blockAt stride (block - existing.startBlock) := by
  have hseq :
      (existing.head newStart).seqNumAt (block - existing.startBlock) =
        existing.seqNumAt (0 + (block - existing.startBlock)) := by
    apply seqNumAt_slice (newStart - existing.startBlock) rfl
    have := hcovers.1
    omega
  rw [Nat.zero_add] at hseq
  simp only [blockAt, hseq]
  rfl

theorem tail_blockAt {block : Nat} (hle : existing.numBlocks ≤ 65535)
    (hlt : existing.startBlock < newEnd) (hcovers : existing.Covers block)
    (hblock : newEnd ≤ block) :
    (existing.tail newEnd stride).blockAt stride (block - newEnd) =
      existing.blockAt stride (block - existing.startBlock) := by
  have hend := hcovers.2
  have hpos :
      newEnd - existing.startBlock + (block - newEnd) = block - existing.startBlock := by
    omega
  have hseq :
      (existing.tail newEnd stride).seqNumAt (block - newEnd) =
        existing.seqNumAt (block - existing.startBlock) := by
    rw [← hpos]
    apply seqNumAt_slice _ rfl
    omega
  have hoffset :
      (existing.tail newEnd stride).offsetAt (block - newEnd) stride =
        existing.offsetAt (block - existing.startBlock) stride := by
    rw [← hpos]
    apply offsetAt_shift rfl
    simp only [endBlock] at hend
    omega
  simp only [blockAt, hseq, hoffset]
  rfl

theorem head_valid (hvalid : existing.Valid) (hstart : existing.startBlock < newStart) :
    (existing.head newStart).Valid := by
  have hseq :
      (existing.head newStart).seqNumAt 0 = existing.seqNumAt (0 + 0) :=
    seqNumAt_slice (newStart - existing.startBlock) rfl (by omega)
  refine ⟨?_, ?_, hseq.symm, hvalid.offset_lt⟩
  · simp only [head, safeIntToUint16]
    omega
  · simp only [head, safeIntToUint16]
    omega

theorem tail_valid (stride : Nat) (hend : newEnd < existing.endBlock) :
    (existing.tail newEnd stride).Valid := by
  have hseq :
      (existing.tail newEnd stride).seqNumAt 0 =
        existing.seqNumAt (newEnd - existing.startBlock + 0) := by
    apply seqNumAt_slice _ rfl
    omega
  refine ⟨?_, ?_, hseq.symm, offsetAt_lt existing _ _⟩
  · simp only [tail, safeIntToUint16]
    omega
  · simp only [tail, safeIntToUint16]
    omega

end Pieces

/-- Runs of blocks are extents. -/
def shape : ExtentMap.Shape BlockLookup where
  start := startBlock
  count := numBlocks
  Valid := Valid
  count_pos := Valid.numBlocks_pos

/-- How a run is cut when blocks in it are overwritten. -/
def cutting (stride : Nat) : ExtentMap.Cutting shape Location where
  value bl i := bl.blockAt stride i
  head := head
  tail bl newEnd := bl.tail newEnd stride
  head_valid hvalid hstart _ := head_valid hvalid hstart
  head_covers hvalid _ hlt := head_covers_iff hvalid.numBlocks_le hlt
  head_start _ _ := rfl
  head_value _ _ hcovers hblock := head_blockAt hcovers hblock
  tail_valid _ _ hend := tail_valid stride hend
  tail_covers hvalid hlt _ := tail_covers_iff stride hvalid.numBlocks_le hlt
  tail_start _ _ := rfl
  tail_value hvalid hlt _ hcovers hblock :=
    tail_blockAt hvalid.numBlocks_le hlt hcovers hblock

end BlockLookup

end Viperblock
