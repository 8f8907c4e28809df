import Viperblock.BlocksToObject

/-!
# Inserting a run into any map of disjoint runs

`insertCoalescedLocked` is a pointwise override whenever the entries of the map
are keyed by their first block, disjoint, and carry a sequence number for each of
their blocks.  Nothing else is asked of the entries: one may cover no block at
all, and its `SeqNum` field may be any number, as lookups read `SeqNums`.
-/

namespace Viperblock

namespace BlockLookup

/-- The run counts its blocks in 16 bits and has a sequence number for each. -/
structure Counted (bl : BlockLookup) : Prop where
  numBlocks_le : bl.numBlocks ≤ 65535
  seqNums_length : bl.seqNums.length = bl.numBlocks
  offset_lt : bl.objectOffset < 2 ^ 32

instance (bl : BlockLookup) : Decidable bl.Counted :=
  decidable_of_iff (bl.numBlocks ≤ 65535 ∧ bl.seqNums.length = bl.numBlocks ∧
      bl.objectOffset < 2 ^ 32)
    ⟨fun h => ⟨h.1, h.2.1, h.2.2⟩, fun h => ⟨h.1, h.2, h.3⟩⟩

theorem length_sliceSeqNums (bl : BlockLookup) (first last : Nat) :
    (bl.sliceSeqNums first last).length = last - first := by
  simp [sliceSeqNums]

section Pieces

variable {existing : BlockLookup} {newStart newEnd stride : Nat}

theorem head_counted (hcounted : existing.Counted) (hlt : newStart < existing.endBlock) :
    (existing.head newStart).Counted := by
  have hle := hcounted.numBlocks_le
  simp only [endBlock] at hlt
  refine ⟨?_, ?_, hcounted.offset_lt⟩
  · simp only [head, safeIntToUint16]
    omega
  · simp only [head, length_sliceSeqNums, safeIntToUint16]
    omega

theorem tail_counted (hcounted : existing.Counted) (hlt : existing.startBlock < newEnd) :
    (existing.tail newEnd stride).Counted := by
  have hle := hcounted.numBlocks_le
  refine ⟨?_, ?_, offsetAt_lt existing _ _⟩
  · simp only [tail, safeIntToUint16]
    omega
  · simp only [tail, length_sliceSeqNums, safeIntToUint16, endBlock]
    omega

end Pieces

/-- Runs that count their blocks, as extents. -/
def countedShape : ExtentMap.Shape BlockLookup where
  start := startBlock
  count := numBlocks
  Valid bl := 0 < bl.numBlocks ∧ bl.Counted
  count_pos := And.left

theorem head_countedShape {existing : BlockLookup} {newStart : Nat} (hcounted : existing.Counted)
    (hstart : existing.startBlock < newStart) (hlt : newStart < existing.endBlock) :
    countedShape.Valid (existing.head newStart) := by
  refine ⟨?_, head_counted hcounted hlt⟩
  simp only [head, safeIntToUint16]
  omega

theorem tail_countedShape {existing : BlockLookup} {newEnd : Nat} (stride : Nat)
    (hcounted : existing.Counted) (hlt : existing.startBlock < newEnd)
    (hend : newEnd < existing.endBlock) :
    countedShape.Valid (existing.tail newEnd stride) := by
  refine ⟨?_, tail_counted hcounted hlt⟩
  simp only [tail, safeIntToUint16]
  omega

def countedCutting (stride : Nat) : ExtentMap.Cutting countedShape Location where
  value bl i := bl.blockAt stride i
  head := head
  tail bl newEnd := bl.tail newEnd stride
  head_valid hvalid hstart hlt := head_countedShape hvalid.2 hstart hlt
  head_covers hvalid _ hlt := head_covers_iff hvalid.2.numBlocks_le hlt
  head_start _ _ := rfl
  head_value _ _ hcovers hblock := head_blockAt hcovers hblock
  tail_valid hvalid hlt hend := tail_countedShape stride hvalid.2 hlt hend
  tail_covers hvalid hlt _ := tail_covers_iff stride hvalid.2.numBlocks_le hlt
  tail_start _ _ := rfl
  tail_value hvalid hlt _ hcovers hblock :=
    tail_blockAt hvalid.2.numBlocks_le hlt hcovers hblock

end BlockLookup

/-- The entries are keyed by their first block, count their blocks and are disjoint. -/
structure BlockMap.Extents (m : BlockMap) : Prop where
  keyed : ∀ {k bl}, m.lookup k = some bl → bl.startBlock = k
  counted : ∀ {k bl}, m.lookup k = some bl → bl.Counted
  apart : ∀ {k k' bl bl'}, m.lookup k = some bl → m.lookup k' = some bl' → k ≠ k' → bl.Apart bl'

namespace BlocksToObject

section Override

variable {m : BlockMap}

theorem loose_of_extents (hm : m.Extents) :
    ExtentMap.Loose BlockLookup.countedShape m where
  keyed := hm.keyed
  valid hbl hpos := ⟨hpos, hm.counted hbl⟩
  apart := hm.apart

theorem lookupBlockToObject_eq_get (hkeyed : ∀ {k bl}, m.lookup k = some bl → bl.startBlock = k)
    (stride block : Nat) :
    lookupBlockToObject stride m block =
      ExtentMap.get (BlockLookup.countedCutting stride) m block := by
  unfold lookupBlockToObject resolveBlockLookup ExtentMap.get ExtentMap.find
  cases hdirect : m.lookup block with
  | none =>
    simp only [Option.map_map]
    rfl
  | some bl =>
    simp only [Option.map_some, BlockLookup.countedShape, hkeyed hdirect, Nat.sub_self]
    rfl

theorem blockLookup_remove (b : BlocksToObject) (k : Nat) (existing : BlockLookup) :
    (b.remove k existing).blockLookup = b.blockLookup.erase k :=
  rfl

theorem blockLookup_put (b : BlocksToObject) (bl : BlockLookup) :
    (b.put bl).blockLookup = b.blockLookup.insert bl.startBlock bl :=
  rfl

/-- The block map as a store of such runs.  Its reference counts may be any. -/
def countedStore : ExtentMap.Store BlockLookup.countedShape BlocksToObject where
  extents := blockLookup
  remove := remove
  put := put
  InStep _ := True
  extents_remove := blockLookup_remove
  extents_put := blockLookup_put
  inStep_remove _ _ := trivial
  inStep_put _ _ := trivial

theorem blockLookup_insertCoalescedLocked
    (b : BlocksToObject) (newEntry : BlockLookup) (stride : Nat) :
    (b.insertCoalescedLocked newEntry stride).blockLookup = countedStore.extents
        (countedStore.override (BlockLookup.countedCutting stride) b newEntry) := by
  rw [insertCoalescedLocked_eq]
  rfl

end Override

/-- Inserting a run overrides the map on its blocks and nowhere else. -/
theorem insertCoalescedLocked_overrides
    (b : BlocksToObject) (newEntry : BlockLookup) (stride : Nat)
    (hm : b.blockLookup.Extents)
    (hcounted : newEntry.Counted)
    (hpos : 0 < newEntry.numBlocks) :
    let m' := (b.insertCoalescedLocked newEntry stride).blockLookup
    m'.Extents ∧ (∀ i < newEntry.numBlocks,
        lookupBlockToObject stride m' (newEntry.startBlock + i) =
          some ⟨newEntry.objectID, (newEntry.objectOffset + i * stride) % 2 ^ 32,
            newEntry.seqNumAt i⟩) ∧
      ∀ block, ¬ newEntry.Covers block → lookupBlockToObject stride m' block =
          lookupBlockToObject stride b.blockLookup block := by
  have hloose : ExtentMap.Loose BlockLookup.countedShape (countedStore.extents b) :=
    loose_of_extents hm
  have hvalid : BlockLookup.countedShape.Valid newEntry := ⟨hpos, hcounted⟩
  have hloose' := ExtentMap.Store.loose_override (BlockLookup.countedCutting stride) hloose hvalid
  have hget := ExtentMap.Store.get_override (BlockLookup.countedCutting stride) hloose hvalid
  rw [← blockLookup_insertCoalescedLocked] at hloose' hget
  refine ⟨⟨hloose'.keyed, ?_, hloose'.apart⟩, ?_, ?_⟩
  · intro k bl hbl
    by_cases hblocks : 0 < bl.numBlocks
    · exact (hloose'.valid hbl hblocks).2
    · rw [blockLookup_insertCoalescedLocked] at hbl
      exact hm.counted (ExtentMap.Store.lookup_override_of_empty _ hloose hvalid hblocks hbl)
  · intro i hi
    have hle := hcounted.numBlocks_le
    have hcovers : BlockLookup.countedShape.Covers newEntry (newEntry.startBlock + i) :=
      ⟨Nat.le_add_right _ _, Nat.add_lt_add_left hi _⟩
    have hsafe : safeIntToUint32 i = i := by
      unfold safeIntToUint32
      omega
    have hvalue : newEntry.blockAt stride i =
        ⟨newEntry.objectID, (newEntry.objectOffset + i * stride) % 2 ^ 32,
          newEntry.seqNumAt i⟩ := by
      simp only [BlockLookup.blockAt, BlockLookup.offsetAt, hsafe]
    rw [lookupBlockToObject_eq_get hloose'.keyed, hget, if_pos hcovers, ← hvalue]
    exact congrArg (fun j => some (newEntry.blockAt stride j)) (Nat.add_sub_cancel_left _ _)
  · intro block hblock
    have hnot : ¬ BlockLookup.countedShape.Covers newEntry block := hblock
    rw [lookupBlockToObject_eq_get hloose'.keyed, hget, if_neg hnot,
      lookupBlockToObject_eq_get hm.keyed]
    rfl

/-- A run of three blocks, and an entry for no block behind it. -/
def threeAndNone : BlocksToObject where
  blockLookup :=
    ((∅ : BlockMap).insert 4 ⟨[5, 9, 7], 4, 0, 5, 10, 3⟩).insert 7 ⟨[], 7, 1, 0, 0, 0⟩
  gcRefcount := none

/-- The middle block of a run is overwritten; the others keep their place. -/
theorem insertCoalescedLocked_overrides_middle :
    let m' := (threeAndNone.insertCoalescedLocked ⟨[12], 5, 2, 12, 10, 1⟩ 8).blockLookup
    m'.Extents ∧ lookupBlockToObject 8 m' 5 = some ⟨2, 10, 12⟩ ∧
      lookupBlockToObject 8 m' 6 = some ⟨0, 26, 7⟩ := by
  have hlookup : ∀ {k bl}, threeAndNone.blockLookup.lookup k = some bl →
      k = 7 ∧ bl = ⟨[], 7, 1, 0, 0, 0⟩ ∨ k = 4 ∧ bl = ⟨[5, 9, 7], 4, 0, 5, 10, 3⟩ := by
    intro k bl hbl
    rcases FiniteMap.lookup_insert_eq_some hbl with hnew | hold
    · exact .inl hnew
    · rcases FiniteMap.lookup_insert_eq_some hold with hfirst | hnone
      · exact .inr hfirst
      · cases hnone
  have hm : threeAndNone.blockLookup.Extents := by
    refine ⟨?_, ?_, ?_⟩
    · intro k bl hbl
      rcases hlookup hbl with ⟨rfl, rfl⟩ | ⟨rfl, rfl⟩ <;> rfl
    · intro k bl hbl
      rcases hlookup hbl with ⟨rfl, rfl⟩ | ⟨rfl, rfl⟩ <;> decide
    · intro k k' bl bl' hbl hbl' hne
      rcases hlookup hbl with ⟨rfl, rfl⟩ | ⟨rfl, rfl⟩ <;>
        rcases hlookup hbl' with ⟨rfl, rfl⟩ | ⟨rfl, rfl⟩ <;> first
          | exact absurd rfl hne
          | decide
  obtain ⟨hextents, hinside, houtside⟩ :=
    insertCoalescedLocked_overrides threeAndNone ⟨[12], 5, 2, 12, 10, 1⟩ 8 hm (by decide)
      (by decide)
  exact ⟨hextents, hinside 0 (by decide), (houtside 6 (by decide)).trans (by decide)⟩

end BlocksToObject

end Viperblock
