import Viperblock.GcSafety
import Viperblock.MapWords

/-!
# The reference counts are those of the map

`gcRefcount` counts, for each chunk object, the entries of the block map that point
into it.  An entry is a run of blocks: it may be cut in two, cover several others or
be held back as stale, and a load tallies the runs it has put together.  Between
drains a listing adds chunk objects that nothing points to, and a sweep deletes
chunks with count zero and forgets them, unless a delete fails.

The module runs these in any order and shows that the counts are exact after every
step.  The end of an entry is computed in the 64 bits of a block number, so that an entry
with the very last block ends at zero and no longer overlaps anything: this block is left
out, and the module shows what it does to the counts.
-/

namespace Viperblock

namespace RefCounts

open BlocksToObject BlockMap GuardedRun GcSystem

/-- Progress of `sweepChunks` once it has chosen its candidates. -/
inductive Sweep
  | idle
  | deleting (candidates : List Nat)
  /-- The object is gone, its count is not dropped yet. -/
  | untracking (id : Nat) (candidates : List Nat)
deriving DecidableEq

structure State where
  blocksToObject : BlocksToObject
  gcReconciled : Bool
  sweep : Sweep

/-- What `New` makes of an engine with `GCEnabled`. -/
def State.new : State :=
  ⟨⟨∅, some ∅⟩, false, .idle⟩

inductive Act
  /-- A checkpoint with these bytes is loaded. -/
  | load (raw : Bytes)
  /-- A chunk has been uploaded and enters the map. -/
  | createChunkFile (chunkIndex : Nat) (matchedBlocks : List Block)
  /-- The chunk objects listed, or none if the listing failed. -/
  | reconcileChunksOnce (ids : Option (List Nat))
  | sweepChunks (floor watermark : Nat)
  /-- The candidates come in the order of a map, so in any order. -/
  | delete (id : Nat) (ok : Bool)
  | untrack
  /-- No candidate is left, or the sweep is abandoned. -/
  | endSweep
deriving DecidableEq

def step (version stride : Nat) (s : State) : Act → Option State
  | .load raw =>
    match s.sweep, walkBlockCheckpoint raw version blockToObjectWALMagic with
    | .idle, .ok records =>
      some { s with blocksToObject := parseBlockCheckpoint true stride records }
    | _, _ => none
  | .createChunkFile chunkIndex matchedBlocks =>
    match s.sweep with
    | .idle =>
      some { s with
        blocksToObject :=
          publishChunkWords stride chunkIndex s.blocksToObject matchedBlocks }
    | _ => none
  | .reconcileChunksOnce listing =>
    match s.sweep with
    | .idle =>
      match s.gcReconciled, listing with
      | false, some ids =>
        some { s with
          blocksToObject :=
            mapRefs (fun rc => ids.foldl (fun rc id => trackRef id rc) rc)
              s.blocksToObject
          gcReconciled := true }
      | _, _ => some s
    | _ => none
  | .sweepChunks floor watermark =>
    match s.sweep with
    | .idle =>
      some { s with
        sweep := .deleting
          (sweepCandidates (s.blocksToObject.gcRefcount.getD ∅) floor watermark) }
    | _ => none
  | .delete id ok =>
    match s.sweep with
    | .deleting candidates =>
      if id ∈ candidates then
        if ok then some { s with sweep := .untracking id (candidates.erase id) }
        else some { s with sweep := .deleting (candidates.erase id) }
      else none
    | _ => none
  | .untrack =>
    match s.sweep with
    | .untracking id candidates =>
      some { s with
        blocksToObject := mapRefs (fun rc => rc.erase id) s.blocksToObject
        sweep := .deleting candidates }
    | _ => none
  | .endSweep =>
    match s.sweep with
    | .deleting _ => some { s with sweep := .idle }
    | _ => none

/-- No record that is loaded and no block of a chunk is the last one there is. -/
def belowLast (version : Nat) : Act → Bool
  | .load raw =>
    match walkBlockCheckpoint raw version blockToObjectWALMagic with
    | .ok records => records.all fun rec => decide (rec.startBlock + 1 < 2 ^ 64)
    | .error _ => true
  | .createChunkFile _ matchedBlocks =>
    matchedBlocks.all fun w => decide (w.block + 1 < 2 ^ 64)
  | _ => true

/-- The chunks a sweep may still forget. -/
def Sweep.chosen : Sweep → List Nat
  | .idle => []
  | .deleting candidates => candidates
  | .untracking id candidates => id :: candidates

/-- The counts are kept, and each is the number of entries that point into its chunk. -/
def Exact (b : BlocksToObject) : Prop :=
  ∃ rc, b.gcRefcount = some rc ∧ ∀ id,
    (rc.lookup id).getD 0 = FiniteMap.countValues (fun bl => bl.objectID == id) b.blockLookup

/-- The invariant of the counts: no entry points into a chunk that is being swept. -/
structure Inv (s : State) : Prop where
  sound : s.blocksToObject.Sound
  fit : s.blocksToObject.blockLookup.EndsFit
  counted : s.blocksToObject.gcRefcount.isSome
  unnamed : ∀ id ∈ s.sweep.chosen, id ∉ s.blocksToObject.blockLookup.objectIDs

theorem Inv.exact {s : State} (hs : Inv s) :
    Exact s.blocksToObject := by
  obtain ⟨rc, hrc⟩ := Option.isSome_iff_exists.mp hs.counted
  exact ⟨rc, hrc, hs.sound.refExact rc hrc⟩

theorem inv_new :
    Inv State.new := by
  refine ⟨⟨ExtentMap.wellFormed_empty, ?_⟩, fun k bl hbl => ?_, rfl,
    fun id hid => absurd hid List.not_mem_nil⟩
  · intro rc hrc id
    cases hrc
    rfl
  · cases hbl

section Tracked

variable {b b' b'' : BlocksToObject} {stride : Nat}

/-- Every chunk that has a count keeps one. -/
def Keeps (b b' : BlocksToObject) : Prop :=
  ∀ rc, b.gcRefcount = some rc → ∃ rc', b'.gcRefcount = some rc' ∧ ∀ id ∈ rc, id ∈ rc'

theorem Keeps.refl (b : BlocksToObject) :
    Keeps b b :=
  fun rc hrc => ⟨rc, hrc, fun _ hid => hid⟩

theorem Keeps.trans (hfirst : Keeps b b') (hsecond : Keeps b' b'') :
    Keeps b b'' := by
  intro rc hrc
  obtain ⟨rc', hrc', hkeep⟩ := hfirst rc hrc
  obtain ⟨rc'', hrc'', hkeep'⟩ := hsecond rc' hrc'
  exact ⟨rc'', hrc'', fun id hid => hkeep' id (hkeep id hid)⟩

theorem keeps_map {f : Refcount → Refcount} (hcounts : b'.gcRefcount = b.gcRefcount.map f)
    (hf : ∀ rc, ∀ id ∈ rc, id ∈ f rc) :
    Keeps b b' := by
  intro rc hrc
  exact ⟨f rc, by rw [hcounts, hrc]; rfl, hf rc⟩

theorem mem_incRef {rc : Refcount} {other : Nat} (id : Nat) :
    other ∈ incRef id rc ↔ other = id ∨ other ∈ rc := by
  exact AList.mem_insert rc

theorem mem_trackRef {rc : Refcount} {other : Nat} (id : Nat) :
    other ∈ trackRef id rc ↔ other = id ∨ other ∈ rc := by
  unfold trackRef
  split
  · exact AList.mem_insert rc
  · rename_i hid
    constructor
    · exact .inr
    · rintro (rfl | hother)
      · exact AList.lookup_isSome.mp (Option.isSome_iff_ne_none.mpr hid)
      · exact hother

theorem keeps_put (b : BlocksToObject) (bl : BlockLookup) :
    Keeps b (b.put bl) :=
  keeps_map rfl fun _ _ hid => (mem_incRef _).mpr (.inr hid)

theorem keeps_remove (b : BlocksToObject) (k : Nat) (existing : BlockLookup) :
    Keeps b (b.remove k existing) := by
  refine keeps_map rfl fun rc id hid => ?_
  unfold decRef
  split
  · exact (AList.mem_insert rc).mpr (.inr hid)
  · exact hid

theorem keeps_fracture (newStart newEnd stride : Nat) (b : BlocksToObject) (k : Nat) :
    Keeps b (b.fracture newStart newEnd stride k) := by
  unfold fracture
  split
  · exact Keeps.refl b
  · rename_i existing _
    split
    · exact Keeps.refl b
    · have hheaded : Keeps b
          (if existing.startBlock < newStart then
            (b.remove k existing).put (existing.head newStart)
          else b.remove k existing) := by
        split
        · exact (keeps_remove b k existing).trans (keeps_put _ _)
        · exact keeps_remove b k existing
      dsimp only
      split
      · exact hheaded.trans (keeps_put _ _)
      · exact hheaded

theorem keeps_foldl {Item : Type} {f : BlocksToObject → Item → BlocksToObject}
    (hf : ∀ b item, Keeps b (f b item)) (items : List Item) (b : BlocksToObject) :
    Keeps b (items.foldl f b) := by
  induction items generalizing b with
  | nil => exact Keeps.refl b
  | cons item items ih => exact (hf b item).trans (ih (f b item))

theorem keeps_publishRun (stride chunkIndex : Nat) (b : BlocksToObject) (run : Nat × List Block) :
    Keeps b (publishRun stride chunkIndex b run) ∧
      (run.2 ≠ [] → ∀ rc, (publishRun stride chunkIndex b run).gcRefcount = some rc →
        chunkIndex ∈ rc) := by
  obtain ⟨runStart, blocks⟩ := run
  cases blocks with
  | nil => exact ⟨Keeps.refl b, fun hne => absurd rfl hne⟩
  | cons first rest =>
    simp only [publishRun]
    split
    · refine ⟨keeps_map rfl fun _ _ hid => (mem_trackRef _).mpr (.inr hid), fun _ rc hrc => ?_⟩
      obtain ⟨old, -, rfl⟩ := Option.map_eq_some_iff.mp hrc
      exact (mem_trackRef _).mpr (.inl rfl)
    · refine ⟨(keeps_foldl (keeps_fracture _ _ _) _ b).trans (keeps_put _ _),
        fun _ rc hrc => ?_⟩
      obtain ⟨old, -, rfl⟩ := Option.map_eq_some_iff.mp hrc
      exact (mem_incRef _).mpr (.inl rfl)

theorem keeps_publishChunk
    (stride chunkIndex : Nat) (b : BlocksToObject) (matchedBlocks : List Block) :
    Keeps b (publishChunk stride chunkIndex b matchedBlocks) :=
  keeps_foldl (fun b run => (keeps_publishRun stride chunkIndex b run).1) _ b

theorem Keeps.isSome (hkeeps : Keeps b b') (hb : b.gcRefcount.isSome) :
    b'.gcRefcount.isSome := by
  obtain ⟨rc, hrc⟩ := Option.isSome_iff_exists.mp hb
  obtain ⟨rc', hrc', -⟩ := hkeeps rc hrc
  rw [hrc']
  rfl

theorem Keeps.mem_getD (hkeeps : Keeps b b') {id : Nat} (hid : id ∈ b.gcRefcount.getD ∅) :
    id ∈ b'.gcRefcount.getD ∅ := by
  cases hrc : b.gcRefcount with
  | none =>
    rw [hrc] at hid
    exact absurd hid (AList.notMem_empty id)
  | some rc =>
    obtain ⟨rc', hrc', hkeep⟩ := hkeeps rc hrc
    rw [hrc] at hid
    rw [hrc']
    exact hkeep id hid

theorem mem_getD_publishChunk (hb : b.gcRefcount.isSome) (stride chunkIndex : Nat)
    {matchedBlocks : List Block} (hblocks : matchedBlocks ≠ []) :
    chunkIndex ∈ (publishChunk stride chunkIndex b matchedBlocks).gcRefcount.getD ∅ := by
  obtain ⟨run, runs, hcons⟩ :=
    List.exists_cons_of_ne_nil (List.splitBy_ne_nil (r := consecutive) |>.mpr hblocks)
  have hrun : run ≠ [] := List.ne_nil_of_mem_splitBy (hcons ▸ List.mem_cons_self)
  obtain ⟨hkeeps, hcount⟩ := keeps_publishRun stride chunkIndex b (0, run)
  obtain ⟨rc, hrc⟩ := Option.isSome_iff_exists.mp (hkeeps.isSome hb)
  unfold publishChunk chunkRuns
  rw [hcons, placeRuns, List.foldl_cons]
  refine Keeps.mem_getD (keeps_foldl
    (fun b run => (keeps_publishRun stride chunkIndex b run).1) _ _) ?_
  rw [hrc]
  exact hcount hrun rc hrc

end Tracked

section Steps

variable {version stride : Nat} {s t : State}

theorem isSome_mapRefs {b : BlocksToObject} (hb : b.gcRefcount.isSome) (f : Refcount → Refcount) :
    (mapRefs f b).gcRefcount.isSome := by
  rw [mapRefs, Option.isSome_map]
  exact hb

theorem inv_step (hs : Inv s) {a : Act} (hlast : belowLast version a = true)
    :
    step version stride s a = some t → Inv t := by
  fun_cases step version stride s a <;> rintro ⟨⟩
  · rename_i records hwalk hidle
    simp only [belowLast, hwalk, List.all_eq_true, decide_eq_true_eq] at hlast
    have hoffset := objectOffset_lt_of_walk hwalk
    refine ⟨parseBlockCheckpoint_sound true stride hoffset,
      endsFit_parseBlockCheckpoint true stride hoffset hlast, rfl, ?_⟩
    rw [hidle]
    exact fun id hid => absurd hid List.not_mem_nil
  · rename_i chunkIndex matchedBlocks hidle
    simp only [belowLast, List.all_eq_true, decide_eq_true_eq] at hlast
    obtain ⟨heq, hfit⟩ := publishChunkWords_eq stride chunkIndex hs.sound hs.fit hlast
    rw [heq]
    refine ⟨hs.sound.publishChunk matchedBlocks, hfit,
      (keeps_publishChunk stride chunkIndex _ matchedBlocks).isSome hs.counted, ?_⟩
    rw [hidle]
    exact fun id hid => absurd hid List.not_mem_nil
  · exact ⟨mapRefs_sound hs.sound fun rc _ id => getD_foldl_trackRef _ rc id, hs.fit,
      isSome_mapRefs hs.counted _, hs.unnamed⟩
  · exact hs
  · exact ⟨hs.sound, hs.fit, hs.counted, fun id hid =>
      not_mem_objectIDs_of_zero hs.sound (mem_sweepCandidates_iff.mp hid).1⟩
  · rename_i id candidates hphase hid
    refine ⟨hs.sound, hs.fit, hs.counted, fun other hother => hs.unnamed other ?_⟩
    rw [hphase]
    rcases List.mem_cons.mp hother with rfl | hother
    · exact hid
    · exact List.mem_of_mem_erase hother
  · rename_i id ok candidates hphase hid hok
    refine ⟨hs.sound, hs.fit, hs.counted, fun other hother => hs.unnamed other ?_⟩
    rw [hphase]
    exact List.mem_of_mem_erase hother
  · rename_i id candidates hphase
    have hunnamed := hs.unnamed
    rw [hphase] at hunnamed
    exact ⟨eraseRef_sound hs.sound (hunnamed id List.mem_cons_self), hs.fit,
      isSome_mapRefs hs.counted _,
      fun other hother => hunnamed other (List.mem_cons_of_mem _ hother)⟩
  · exact ⟨hs.sound, hs.fit, hs.counted, fun id hid => absurd hid List.not_mem_nil⟩

end Steps

/-- After every step the counts are those of the map, as long as the last block is left out. -/
theorem gcRefcount_exact {version stride : Nat} {acts : List Act} {s : State}
    (hrun : Run (step version stride) (fun _ a => belowLast version a = true) State.new acts s) :
    Exact s.blocksToObject :=
  (hrun.preserves (fun _ _ _ hs hlast hstep => inv_step hs hlast hstep) inv_new).exact

/-- The checkpoint of a volume with blocks 0 to 2 in chunk 0. -/
def threeBlocks : Bytes :=
  checkpointBytes 1 0
    [⟨[], 0, 0, 1, 10, 1⟩, ⟨[], 1, 0, 2, 11, 1⟩, ⟨[], 2, 0, 3, 12, 1⟩]

/-- Chunk 1 cuts the entry of chunk 0 in two, chunk 2 covers all of it, a stale chunk 3
is held back, and of the three candidates of the sweep one cannot be deleted. -/
def cutAndSwept : List Act :=
  [.load threeBlocks, .createChunkFile 1 [⟨[], 4, 1, 1⟩],
    .createChunkFile 2 [⟨[], 5, 0, 1⟩, ⟨[], 6, 1, 1⟩, ⟨[], 7, 2, 1⟩],
    .createChunkFile 3 [⟨[], 2, 0, 1⟩], .reconcileChunksOnce (some [0, 1, 2, 3]),
    .sweepChunks 0 4, .delete 1 false, .delete 0 true, .untrack, .delete 3 true, .untrack,
    .endSweep]

theorem gcRefcount_exact_cutAndSwept :
    ∃ s, Run (step 1 1) (fun _ a => belowLast 1 a = true) State.new cutAndSwept s ∧
      s.blocksToObject.gcRefcount.map AList.entries = some [⟨2, 1⟩, ⟨1, 0⟩] ∧
      Exact s.blocksToObject := by
  obtain ⟨s, hrun, hcounts⟩ := Run.exists_of_exec (step 1 1) (fun _ a => belowLast 1 a = true)
    State.new cutAndSwept
    (fun s => decide (s.blocksToObject.gcRefcount.map AList.entries = some [⟨2, 1⟩, ⟨1, 0⟩]))
    (by decide +kernel)
  exact ⟨s, hrun, of_decide_eq_true hcounts, gcRefcount_exact hrun⟩

/-- The last block is drained twice: its first entry ends at zero, so that the second one
overwrites it under its key and the count of the first chunk stays. -/
theorem gcRefcount_lastBlock :
    ∃ s, Run (step 1 1) (fun _ _ => True) State.new
        [.createChunkFile 0 [⟨[], 1, 2 ^ 64 - 1, 1⟩], .createChunkFile 1 [⟨[], 2, 2 ^ 64 - 1, 1⟩]]
        s ∧ ¬ Exact s.blocksToObject := by
  obtain ⟨s, hrun, hcounts⟩ := Run.exists_of_exec (step 1 1) (fun _ _ => True) State.new
    [.createChunkFile 0 [⟨[], 1, 2 ^ 64 - 1, 1⟩], .createChunkFile 1 [⟨[], 2, 2 ^ 64 - 1, 1⟩]]
    (fun s => decide ((s.blocksToObject.gcRefcount.getD ∅).lookup 0 = some 1 ∧
      FiniteMap.countValues (fun bl => bl.objectID == 0) s.blocksToObject.blockLookup = 0))
    (by decide +kernel)
  obtain ⟨hcount, hentries⟩ := of_decide_eq_true hcounts
  refine ⟨s, hrun, ?_⟩
  rintro ⟨rc, hrc, hexact⟩
  have hzero := hexact 0
  rw [hrc] at hcount
  rw [hentries, show rc.lookup 0 = some 1 from hcount] at hzero
  cases hzero

end RefCounts

end Viperblock
