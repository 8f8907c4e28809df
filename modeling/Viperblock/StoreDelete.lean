import Mathlib.Data.Set.Card
import Viperblock.BlockStore

/-!
# Deleting and counting blocks of the block store

`Delete` takes a block out of the entries and, only if it has none there, out of the
extents; `Count` adds up the entries and the blocks of the extents.  Both treat the two
indexes as if no block were in both.  A block that was persisted and is written again is
in both: its entry hides the extent until the next `MarkPersistedRange`.

The end of an extent is computed in the 64 bits of a block number.  `Delete` would not
find the end of an extent with the very last block: no range may hold it.

The extents themselves are a map from blocks to places.  Whatever the calls, the place of
a block is the one that the last call to enter or to take away a place of it left behind.
-/

namespace Viperblock

namespace UnifiedBlockStore

/-- Blocks tracked: the entries and the blocks of the extents. -/
def count (ubs : UnifiedBlockStore) : Nat :=
  ubs.entries.entries.length + FiniteMap.sumValues PersistedExtent.numBlocks ubs.persistedExtents

/-- The store without the block, and whether it was there. -/
def delete (ubs : UnifiedBlockStore) (block : Nat) : UnifiedBlockStore × Bool :=
  match ubs.entries.lookup block with
  | some _ => ({ ubs with entries := ubs.entries.erase block }, true)
  | none =>
    match ExtentMap.find PersistedExtent.shape ubs.persistedExtents block with
    | some _ =>
      ({ ubs with persistedExtents := ubs.persistedExtents.fractureOverlapsLocked block 1 }, true)
    | none => (ubs, false)

inductive Call
  | writeWithSeqNum (block : Nat) (data : Bytes) (seqNum : Nat)
  | markPending (block : Nat)
  | markPersistedRange (blocks : List Nat) (objectID objectOffset stride : Nat)
      (seqNums : List Nat)
  | setPersistedRange (blocks : List Nat) (objectID objectOffset stride : Nat)
      (seqNums : List Nat)
  | delete (block : Nat)

/-- What a call makes of the store.  The calls for ranges return at once if there is not
one number a block. -/
def call (ubs : UnifiedBlockStore) : Call → UnifiedBlockStore
  | .writeWithSeqNum block data seqNum => ubs.writeWithSeqNum block data seqNum
  | .markPending block => ubs.markPending block
  | .markPersistedRange blocks objectID objectOffset stride seqNums =>
    if blocks.length = seqNums.length then
      ubs.markPersistedRange blocks objectID objectOffset stride seqNums
    else ubs
  | .setPersistedRange blocks objectID objectOffset stride seqNums =>
    if blocks.length = seqNums.length then
      ubs.setPersistedRange blocks objectID objectOffset stride seqNums
    else ubs
  | .delete block => (ubs.delete block).1

/-- A new store after some calls. -/
def after (calls : List Call) : UnifiedBlockStore :=
  calls.foldl call new

/-- No range has the very last block, behind which there is no number for an end. -/
def Call.BelowLast : Call → Prop
  | .markPersistedRange blocks _ _ _ _ | .setPersistedRange blocks _ _ _ _ =>
    ∀ block ∈ blocks, block + 1 < 2 ^ 64
  | _ => True

section Delete

variable {ubs : UnifiedBlockStore}

theorem wellFormed_fractureOverlapsLocked {index : ExtentIndex} (hwf : index.WellFormed)
    (block : Nat) :
    (index.fractureOverlapsLocked block 1).WellFormed := by
  have hsound : ExtentIndex.store.Sound index := ⟨hwf, trivial⟩
  exact (hsound.fractured PersistedExtent.cutting (Nat.lt_succ_self block)).wf

theorem locate_fractureOverlapsLocked {index : ExtentIndex} (hwf : index.WellFormed)
    (block other : Nat) :
    (index.fractureOverlapsLocked block 1).locate other =
      if other = block then none else index.locate other := by
  have hsound : ExtentIndex.store.Sound index := ⟨hwf, trivial⟩
  refine (hsound.get_fractured PersistedExtent.cutting (Nat.lt_succ_self block) other).trans ?_
  have hiff : (block ≤ other ∧ other < block + 1) ↔ other = block := by omega
  simp only [hiff]
  rfl

theorem readPersisted_eq_none_iff (block : Nat) :
    ubs.readPersisted block = none ↔ ubs.persistedExtents.locate block = none := by
  simp only [readPersisted, ExtentIndex.locate, ExtentMap.get, Option.map_eq_none_iff]

/-- A deletion takes one place of the block away, out of the entries if there is one. -/
theorem delete_spec (hwf : ubs.persistedExtents.WellFormed) (block : Nat) :
    (ubs.delete block).1.persistedExtents.WellFormed ∧
      (∀ other, (ubs.delete block).1.entries.lookup other =
        if other = block then none else ubs.entries.lookup other) ∧
      ∀ other, (ubs.delete block).1.persistedExtents.locate other =
        if other = block ∧ ubs.entries.lookup block = none then none
        else ubs.persistedExtents.locate other := by
  fun_cases delete
  · rename_i e he
    refine ⟨hwf, fun other => ?_, fun other => by simp [he]⟩
    split
    · subst other
      exact AList.lookup_erase _ _
    · exact AList.lookup_erase_ne ‹_›
  · rename_i hnone pe hfind
    refine ⟨wellFormed_fractureOverlapsLocked hwf block, fun other => ?_, fun other => ?_⟩
    · split
      · subst other
        exact hnone
      · rfl
    · simp only [locate_fractureOverlapsLocked hwf, hnone, and_true]
  · rename_i hnone hfind
    have hlocate : ubs.persistedExtents.locate block = none := by
      simp [ExtentIndex.locate, ExtentMap.get, hfind]
    refine ⟨hwf, fun other => ?_, fun other => ?_⟩
    · split
      · subst other
        exact hnone
      · rfl
    · split
      · obtain ⟨rfl, -⟩ := ‹_ ∧ _›
        exact hlocate
      · rfl

/-- The deleted block resolves to what its entry hid, all others as before. -/
theorem readEntry_delete (hwf : ubs.persistedExtents.WellFormed) (block other : Nat) :
    (ubs.delete block).1.readEntry other = if other = block then
        if (ubs.entries.lookup block).isSome then ubs.readPersisted block else none
      else ubs.readEntry other := by
  obtain ⟨hwf', hentries, hlocate⟩ := delete_spec hwf block
  have hpersisted := readPersisted_eq hwf' other
  rw [hlocate] at hpersisted
  unfold readEntry
  rw [hentries, hpersisted]
  by_cases hother : other = block
  · subst hother
    cases hlookup : ubs.entries.lookup other with
    | none => simp
    | some e => simp [readPersisted_eq hwf]
  · simp [hother, readPersisted_eq hwf]

end Delete

section Run

variable {ubs : UnifiedBlockStore}

theorem wellFormed_call (hwf : ubs.persistedExtents.WellFormed) (c : Call) :
    (ubs.call c).persistedExtents.WellFormed := by
  cases c with
  | writeWithSeqNum block data seqNum => exact hwf
  | markPending block =>
    exact (persistedExtents_markPending ubs block).symm ▸ hwf
  | markPersistedRange blocks objectID objectOffset stride seqNums =>
    simp only [call]
    split
    · rw [markPersistedRange, (foldl_dropPersisted _ _).1]
      exact (installRuns_cases objectID objectOffset stride hwf _).1
    · exact hwf
  | setPersistedRange blocks objectID objectOffset stride seqNums =>
    simp only [call]
    split
    · exact (installRuns_cases objectID objectOffset stride hwf _).1
    · exact hwf
  | delete block => exact (delete_spec hwf block).1

theorem wellFormed_after (calls : List Call) :
    (after calls).persistedExtents.WellFormed := by
  induction calls using List.reverseRecOn with
  | nil => exact ExtentMap.wellFormed_empty
  | append_singleton calls c ih =>
    rw [after, List.foldl_append]
    exact wellFormed_call ih c

theorem endsFit_call (hwf : ubs.persistedExtents.WellFormed)
    (hfit : ubs.persistedExtents.EndsFit) {c : Call} (hlast : c.BelowLast) :
    (ubs.call c).persistedExtents.EndsFit := by
  cases c with
  | writeWithSeqNum block data seqNum => exact hfit
  | markPending block =>
    exact (persistedExtents_markPending ubs block).symm ▸ hfit
  | markPersistedRange blocks objectID objectOffset stride seqNums =>
    simp only [call]
    split
    · rw [markPersistedRange, (foldl_dropPersisted _ _).1]
      exact endsFit_installRuns _ _ _ hwf hfit hlast fun item hitem =>
        block_mem_of_mem_rangeItems (List.mem_filter.mp hitem).1
    · exact hfit
  | setPersistedRange blocks objectID objectOffset stride seqNums =>
    simp only [call]
    split
    · exact endsFit_installRuns _ _ _ hwf hfit hlast fun item => block_mem_of_mem_rangeItems
    · exact hfit
  | delete block =>
    obtain ⟨hwf', -, hlocate⟩ := delete_spec hwf block
    rw [call, hwf'.endsFit_iff]
    intro other loc hloc
    rw [hlocate] at hloc
    split at hloc
    · cases hloc
    · exact hwf.endsFit_iff.mp hfit other loc hloc

theorem endsFit_after {calls : List Call} (hlast : ∀ c ∈ calls, c.BelowLast) :
    (after calls).persistedExtents.EndsFit := by
  induction calls using List.reverseRecOn with
  | nil => exact fun k pe hpe => by cases hpe
  | append_singleton calls c ih =>
    rw [after, List.foldl_append]
    exact endsFit_call (wellFormed_after calls) (ih fun c hc => hlast c (by simp [hc]))
      (hlast c (by simp))

end Run

section Count

variable {ubs : UnifiedBlockStore}

/-- The blocks in the extents. -/
def persistedBlocks (ubs : UnifiedBlockStore) : Finset Nat :=
  (ExtentMap.numbers PersistedExtent.shape ubs.persistedExtents).toFinset

section

variable (hwf : ubs.persistedExtents.WellFormed)

include hwf

theorem mem_persistedBlocks_iff {block : Nat} :
    block ∈ ubs.persistedBlocks ↔ (ubs.readPersisted block).isSome := by
  rw [persistedBlocks, List.mem_toFinset, ExtentMap.mem_numbers_iff, ← not_iff_not,
    Bool.not_eq_true, Option.isSome_eq_false_iff, Option.isNone_iff_eq_none,
    readPersisted_eq_none_iff, ExtentIndex.locate, hwf.get_eq_none_iff]
  push Not
  rfl

theorem count_eq :
    ubs.count = ubs.entries.keys.toFinset.card + ubs.persistedBlocks.card := by
  rw [List.toFinset_card_of_nodup ubs.entries.keys_nodup, persistedBlocks,
    List.toFinset_card_of_nodup hwf.nodup_numbers, ExtentMap.length_numbers]
  simp [count, AList.keys, List.keys, PersistedExtent.shape]

theorem found_eq :
    {block | (ubs.readEntry block).isSome} =
      ((ubs.entries.keys.toFinset ∪ ubs.persistedBlocks : Finset Nat) : Set Nat) := by
  ext block
  simp only [Set.mem_ofPred_eq, Finset.coe_union, Set.mem_union, Finset.mem_coe,
    mem_persistedBlocks_iff hwf, List.mem_toFinset, ← AList.mem_keys, ← AList.lookup_isSome]
  unfold readEntry
  cases ubs.entries.lookup block with
  | none => simp
  | some e => simp

end

end Count

/-- Whatever the calls, as long as no range has the very last block, no end leaves its 64
bits, and the store counts the blocks that are found and a deleted block is gone exactly if
no block with an entry is in an extent as well. -/
theorem count_and_delete_iff (calls : List Call) (hlast : ∀ c ∈ calls, c.BelowLast) :
    let ubs := after calls
    ubs.persistedExtents.EndsFit ∧
    ((ubs.count = {block | (ubs.readEntry block).isSome}.ncard ∧
      ∀ block, (ubs.delete block).1.readEntry block = none ∧
        ∀ other ≠ block, (ubs.delete block).1.readEntry other = ubs.readEntry other) ↔
      ∀ block, (ubs.entries.lookup block).isSome → ubs.readPersisted block = none) := by
  intro ubs
  have hwf : ubs.persistedExtents.WellFormed := wellFormed_after calls
  refine ⟨endsFit_after hlast, ?_⟩
  constructor
  · rintro ⟨-, hdelete⟩ block hblock
    have hgone := (hdelete block).1
    rwa [readEntry_delete hwf, if_pos rfl, if_pos hblock] at hgone
  · intro hapart
    have hdisjoint : Disjoint ubs.entries.keys.toFinset ubs.persistedBlocks := by
      rw [Finset.disjoint_left]
      intro block hblock hpersisted
      rw [List.mem_toFinset, ← AList.mem_keys, ← AList.lookup_isSome] at hblock
      rw [mem_persistedBlocks_iff hwf, hapart block hblock] at hpersisted
      cases hpersisted
    refine ⟨?_, fun block => ⟨?_, fun other hother => ?_⟩⟩
    · rw [found_eq hwf, Set.ncard_coe_finset, Finset.card_union_of_disjoint hdisjoint, count_eq hwf]
    · rw [readEntry_delete hwf, if_pos rfl]
      split
      · exact hapart block ‹_›
      · rfl
    · rw [readEntry_delete hwf, if_neg hother]

/-- Three blocks are persisted, and the middle one is deleted and written again. -/
def replaced : List Call :=
  [.setPersistedRange [4, 5, 6] 0 10 8 [5, 9, 7], .delete 5, .writeWithSeqNum 5 [1] 10]

theorem count_and_delete_replaced :
    (after replaced).count = {block | ((after replaced).readEntry block).isSome}.ncard ∧
      ∀ block, ((after replaced).delete block).1.readEntry block = none := by
  have hlast : ∀ c ∈ replaced, c.BelowLast := by
    simp [replaced, Call.BelowLast]
  have hapart : ∀ block, ((after replaced).entries.lookup block).isSome →
      (after replaced).readPersisted block = none := by
    intro block hblock
    have hkeys : (after replaced).entries.keys = [5] := by
      decide
    rw [AList.lookup_isSome, AList.mem_keys, hkeys, List.mem_singleton] at hblock
    subst hblock
    decide
  obtain ⟨hcount, hdelete⟩ := (count_and_delete_iff replaced hlast).2.mpr hapart
  exact ⟨hcount, fun block => (hdelete block).1⟩

/-- A block is written, persisted and written again. -/
def rewritten : List Call :=
  [.writeWithSeqNum 5 [1] 1, .markPending 5, .markPersistedRange [5] 3 10 1 [1],
    .writeWithSeqNum 5 [2] 2]

/-- It is counted twice, and its deletion brings the old version back. -/
theorem rewritten_counted_twice :
    (after rewritten).count = 2 ∧
      {block | ((after rewritten).readEntry block).isSome}.ncard = 1 ∧
      (after rewritten).readEntry 5 = some ⟨[2], 2, 0, 0, .hot⟩ ∧
      ((after rewritten).delete 5).2 = true ∧
      ((after rewritten).delete 5).1.readEntry 5 = some ⟨[], 1, 3, 10, .persisted⟩ := by
  refine ⟨by decide, ?_, by decide, by decide, by decide⟩
  rw [found_eq (wellFormed_after rewritten), Set.ncard_coe_finset]
  decide

/-- The blocks of a range are listed in ascending order. -/
def Call.Ascending : Call → Prop
  | .markPersistedRange blocks _ _ _ _ | .setPersistedRange blocks _ _ _ _ =>
    blocks.Pairwise (· < ·)
  | _ => True

/-- Where a range puts a block, if the block is one of its items. -/
def placeOf (objectID objectOffset stride : Nat) (items : List RangeItem) (block : Nat) :
    Option Location :=
  (items.find? fun item => item.block == block).map
    (RangeItem.location objectID objectOffset stride)

/-- What a call does to the place of a block in the extents: it enters one, or it takes the
place away.  A range that is marked enters the blocks that are pending in its versions; a
deletion takes nothing out of the extents while the block has an entry. -/
def touch (ubs : UnifiedBlockStore) (block : Nat) : Call → Option (Option Location)
  | .markPersistedRange blocks objectID objectOffset stride seqNums =>
    if blocks.length = seqNums.length then
      (placeOf objectID objectOffset stride
        ((rangeItems blocks seqNums).filter ubs.eligible) block).map some
    else none
  | .setPersistedRange blocks objectID objectOffset stride seqNums =>
    if blocks.length = seqNums.length then
      (placeOf objectID objectOffset stride (rangeItems blocks seqNums) block).map some
    else none
  | .delete b => if b = block ∧ ubs.entries.lookup b = none then some none else none
  | _ => none

section Places

variable {ubs : UnifiedBlockStore}

theorem pairwise_rangeItems {blocks seqNums : List Nat} (hasc : blocks.Pairwise (· < ·))
    (hlength : blocks.length = seqNums.length) :
    (rangeItems blocks seqNums).Pairwise fun a b => a.block < b.block := by
  have hblocks : (rangeItems blocks seqNums).map RangeItem.block = blocks := by
    have hitems : (rangeItems blocks seqNums).map RangeItem.block =
        ((blocks.zip seqNums).zipIdx.map Prod.fst).map Prod.fst := by
      rw [rangeItems, List.map_map, List.map_map]
      rfl
    rw [hitems, List.zipIdx_map_fst, List.map_fst_zip hlength.le]
  rw [← hblocks] at hasc
  exact List.pairwise_map.mp hasc

theorem locate_installRuns {index : ExtentIndex} {items : List RangeItem}
    (hwf : index.WellFormed) (hsorted : items.Pairwise fun a b => a.block < b.block)
    (objectID objectOffset stride block : Nat) :
    (installRuns objectID objectOffset stride index items).locate block =
      ((placeOf objectID objectOffset stride items block).map some).getD (index.locate block) := by
  obtain ⟨-, hlocated, hother⟩ := installRuns_spec objectID objectOffset stride hwf hsorted
  unfold placeOf
  cases hfind : items.find? fun item => item.block == block with
  | none =>
    refine hother block fun item hitem => ?_
    simpa using List.find?_eq_none.mp hfind item hitem
  | some item =>
    obtain rfl : item.block = block := by simpa using List.find?_some hfind
    exact hlocated item (List.mem_of_find?_eq_some hfind)

theorem locate_call (hwf : ubs.persistedExtents.WellFormed) {c : Call} (hasc : c.Ascending)
    (block : Nat) :
    (ubs.call c).persistedExtents.locate block =
      (ubs.touch block c).getD (ubs.persistedExtents.locate block) := by
  cases c with
  | writeWithSeqNum b data seqNum => rfl
  | markPending b =>
    simp only [call, touch, persistedExtents_markPending]
    rfl
  | markPersistedRange blocks objectID objectOffset stride seqNums =>
    simp only [call, touch]
    split
    · rw [markPersistedRange, (foldl_dropPersisted _ _).1]
      exact locate_installRuns hwf ((pairwise_rangeItems hasc ‹_›).filter _) _ _ _ _
    · rfl
  | setPersistedRange blocks objectID objectOffset stride seqNums =>
    simp only [call, touch]
    split
    · exact locate_installRuns hwf (pairwise_rangeItems hasc ‹_›) _ _ _ _
    · rfl
  | delete b =>
    rw [call, (delete_spec hwf b).2.2, touch]
    simp only [eq_comm (a := block)]
    split <;> rfl

/-- The last step that touches a value says what it is. -/
theorem last_touch_iff {α : Type} (value : Nat → Option α) (touched : Nat → Option (Option α))
    (hstart : value 0 = none) (hstep : ∀ n, value (n + 1) = (touched n).getD (value n))
    (n : Nat) (a : α) :
    value n = some a ↔
      ∃ i < n, touched i = some (some a) ∧ ∀ j, i < j → j < n → touched j = none := by
  induction n with
  | zero => simp [hstart]
  | succ n ih =>
    rw [hstep]
    cases htouched : touched n with
    | none =>
      rw [Option.getD_none, ih]
      constructor
      · rintro ⟨i, hi, hsome, hnone⟩
        refine ⟨i, by omega, hsome, fun j hij hj => ?_⟩
        rcases Nat.lt_succ_iff_lt_or_eq.mp hj with hj | rfl
        · exact hnone j hij hj
        · exact htouched
      · rintro ⟨i, hi, hsome, hnone⟩
        have hne : i ≠ n := by
          rintro rfl
          simp [htouched] at hsome
        exact ⟨i, by omega, hsome, fun j hij hj => hnone j hij (by omega)⟩
    | some last =>
      constructor
      · rintro rfl
        exact ⟨n, Nat.lt_succ_self n, htouched, fun j hij hj => by omega⟩
      · rintro ⟨i, hi, hsome, hnone⟩
        rcases Nat.lt_succ_iff_lt_or_eq.mp hi with hi | rfl
        · have hnone := hnone n hi (Nat.lt_succ_self n)
          rw [htouched] at hnone
          cases hnone
        · exact Option.some.inj (htouched.symm.trans hsome)

end Places

/-- What the call at a position of the sequence does to the place of a block. -/
def touchAt (calls : List Call) (block i : Nat) : Option (Option Location) :=
  calls[i]?.bind fun c => (after (calls.take i)).touch block c

/-- The extents stay disjoint, keyed by their first blocks and with a version for each of
their blocks, and a block is where the last call to touch its place has put it. -/
theorem readPersisted_after (calls : List Call) (hasc : ∀ c ∈ calls, c.Ascending) :
    (after calls).persistedExtents.WellFormed ∧
      ∀ block e, (after calls).readPersisted block = some e ↔
        ∃ i < calls.length, ∃ loc, touchAt calls block i = some (some loc) ∧
          (∀ j, i < j → j < calls.length → touchAt calls block j = none) ∧
          e = ⟨[], loc.seqNum, loc.objectID, loc.objectOffset, .persisted⟩ := by
  have hwf := wellFormed_after calls
  refine ⟨hwf, fun block e => ?_⟩
  have hstep : ∀ n, (after (calls.take (n + 1))).persistedExtents.locate block =
      (touchAt calls block n).getD ((after (calls.take n)).persistedExtents.locate block) := by
    intro n
    unfold touchAt
    rw [List.take_add_one]
    cases hc : calls[n]? with
    | none => simp
    | some c =>
      rw [after, Option.toList_some, List.foldl_append]
      exact locate_call (wellFormed_after _) (hasc c (List.mem_of_getElem? hc)) block
  have hlast := last_touch_iff (fun n => (after (calls.take n)).persistedExtents.locate block)
    (touchAt calls block) rfl hstep calls.length
  rw [List.take_length] at hlast
  simp only [readPersisted_eq hwf, Option.map_eq_some_iff, hlast]
  constructor
  · rintro ⟨loc, ⟨i, hi, hsome, hnone⟩, rfl⟩
    exact ⟨i, hi, loc, hsome, hnone, rfl⟩
  · rintro ⟨i, hi, loc, hsome, hnone, rfl⟩
    exact ⟨loc, ⟨i, hi, hsome, hnone⟩, rfl⟩

/-- The middle block of three is deleted, and the last one is overridden. -/
def split : List Call :=
  [.setPersistedRange [4, 5, 6] 0 10 8 [5, 9, 7], .delete 5, .setPersistedRange [6] 3 2 8 [12]]

theorem readPersisted_after_split :
    (after split).persistedExtents.WellFormed ∧ (after split).readPersisted 5 = none ∧
      (after split).readPersisted 4 = some ⟨[], 5, 0, 10, .persisted⟩ ∧
      (after split).readPersisted 6 = some ⟨[], 12, 3, 2, .persisted⟩ := by
  have hasc : ∀ c ∈ split, c.Ascending := by
    simp [split, Call.Ascending]
  obtain ⟨hwf, hplaces⟩ := readPersisted_after split hasc
  refine ⟨hwf, by decide, (hplaces 4 _).mpr ?_, (hplaces 6 _).mpr ?_⟩
  · exact ⟨0, by decide, ⟨0, 10, 5⟩, by decide, fun j hij hj =>
      (by decide : ∀ j < 3, 0 < j → touchAt split 4 j = none) j hj hij, rfl⟩
  · exact ⟨2, by decide, ⟨3, 2, 12⟩, by decide, fun j hij hj => absurd hj (by simp [split]; omega),
      rfl⟩

end UnifiedBlockStore

end Viperblock
