import Viperblock.Consolidate

/-!
# Publishing chunks over a loaded map

The runs of a sequence of chunks are published one after the other.  Whether a
run is held back depends on the entry that covers its first block, and that
entry may be what earlier runs have left of a loaded one.  `plan` computes the
decisions from the loaded map and the runs alone, remembering only where the
replaced ranges end; `Replaying` is the invariant that ties it to the map the
code works on.
-/

namespace Viperblock

namespace BlocksToObject

open BlockLookup BlockMap

/-- A run of consecutive blocks, the chunk it is in and its position there. -/
structure PlacedRun where
  chunkIndex : Nat
  runStart : Nat
  blocks : List Block
deriving DecidableEq, Repr

/-- The runs of chunks that are stored under consecutive object numbers. -/
def placedRuns : Nat → List (List Block) → List PlacedRun
  | _, [] => []
  | chunkIndex, job :: jobs =>
    (chunkRuns job).map (fun run => ⟨chunkIndex, run.1, run.2⟩) ++ placedRuns (chunkIndex + 1) jobs

/-- Where the range ends that the run replaces. -/
def PlacedRun.stop (r : PlacedRun) : Nat :=
  match r.blocks with
  | [] => 0
  | first :: rest => first.block + safeIntToUint16 (rest.length + 1)

def publishPlaced (stride : Nat) (b : BlocksToObject) (r : PlacedRun) : BlocksToObject :=
  b.publishRun stride r.chunkIndex (r.runStart, r.blocks)

/-- First block of what is left of an entry in front of `block`, once the ranges
that stop at `ends` are replaced. -/
def pieceStart (start : Nat) (ends : List Nat) (block : Nat) : Nat :=
  ends.foldl (fun k stop => if k < stop ∧ stop ≤ block then stop else k) start

/-- The loaded sequence number the guard compares a run that starts at `block`
with, once the ranges that stop at `ends` are replaced. -/
def guardSeqNum (stride : Nat) (loaded : BlockMap) (ends : List Nat) (block : Nat) :
    Option Nat :=
  (ExtentMap.headOf shape loaded block).bind fun start =>
    (lookupBlockToObject stride loaded (pieceStart start ends block)).map Location.seqNum

/-- The guard drops the run. -/
def heldBack (stride : Nat) (loaded : BlockMap) (ends : List Nat) : List Block → Bool
  | [] => false
  | first :: _ =>
    (guardSeqNum stride loaded ends first.block).any fun seqNum =>
      decide (first.seqNum ≤ seqNum)

/-- Which runs are held back, from the loaded map and the runs alone. -/
def plan (stride : Nat) (loaded : BlockMap) :
    List Nat → List PlacedRun → List (Bool × PlacedRun)
  | _, [] => []
  | ends, r :: runs =>
    let held := heldBack stride loaded ends r.blocks
    (held, r) :: plan stride loaded (if held then ends else ends ++ [r.stop]) runs

section Guard

variable {m : BlockMap}

theorem pieceStart_append (start : Nat) (ends : List Nat) (stop block : Nat) :
    pieceStart start (ends ++ [stop]) block =
      if pieceStart start ends block < stop ∧ stop ≤ block then stop
      else pieceStart start ends block := by
  unfold pieceStart
  rw [List.foldl_append]
  rfl

theorem staleDrain_eq (hwf : m.WellFormed)
    (stride chunkIndex runStart : Nat) (first : Block) (rest : List Block) :
    staleDrain m (newBlock stride chunkIndex runStart first rest) =
      heldBack stride m [] (first :: rest) := by
  have hstart : (newBlock stride chunkIndex runStart first rest).startBlock = first.block := rfl
  unfold staleDrain
  rw [hwf.resolve_eq_find, hstart]
  simp only [heldBack, guardSeqNum, ExtentMap.headOf]
  cases hfind : ExtentMap.find shape m first.block with
  | none => rfl
  | some bl =>
    obtain ⟨hlookup, -⟩ := hwf.find_eq_some_iff.mp hfind
    have hcovers : bl.Covers bl.startBlock := hwf.covers_start hlookup
    have hseqNum : bl.seqNum = bl.seqNumAt 0 := (hwf.valid hlookup).seqNum_first
    simp only [Option.map_some, Option.bind_some, pieceStart, List.foldl_nil]
    rw [show shape.start bl = bl.startBlock from rfl,
      hwf.lookup_of_covers hlookup hcovers, Nat.sub_self, hseqNum]
    rfl

end Guard

/-- Runs to be published: not empty, consecutive, without a common block, in
chunks numbered from `firstID`. -/
structure Placed (firstID : Nat) (runs : List PlacedRun) : Prop where
  nonempty : ∀ r ∈ runs, r.blocks ≠ []
  chain : ∀ r ∈ runs, r.blocks.IsChain fun a b => b.block = a.block + 1
  apart : (runs.flatMap PlacedRun.blocks).Pairwise fun a b => a.block ≠ b.block
  firstID_le : ∀ r ∈ runs, firstID ≤ r.chunkIndex

/-- The map in the middle of publishing, with `rest` still to come: it is the
loaded map but for blocks that are in new chunks. -/
structure Publishing (stride firstID : Nat) (loaded : BlockMap) (b : BlocksToObject)
    (rest : List PlacedRun) : Prop where
  sound : b.Sound
  old_or_new : ∀ block, lookupBlockToObject stride b.blockLookup block =
        lookupBlockToObject stride loaded block ∨
      ∃ loc, lookupBlockToObject stride b.blockLookup block = some loc ∧ firstID ≤ loc.objectID
  untouched : ∀ r ∈ rest, ∀ w ∈ r.blocks, lookupBlockToObject stride b.blockLookup w.block =
      lookupBlockToObject stride loaded w.block

/-- Moreover, of a block still to come the covering entry starts where `ends` say. -/
structure Replaying (stride firstID : Nat) (loaded : BlockMap) (ends : List Nat)
    (b : BlocksToObject) (rest : List PlacedRun) : Prop
    extends Publishing stride firstID loaded b rest where
  heads : ∀ r ∈ rest, ∀ w ∈ r.blocks, ExtentMap.headOf shape b.blockLookup w.block =
      (ExtentMap.headOf shape loaded w.block).map
        (pieceStart · ends w.block)

section Plan

variable {stride : Nat} {loaded : BlockMap} {ends : List Nat} {runs : List PlacedRun}

theorem map_snd_plan (stride : Nat) (loaded : BlockMap) (ends : List Nat) (runs : List PlacedRun) :
    (plan stride loaded ends runs).map Prod.snd = runs := by
  induction runs generalizing ends with
  | nil => rfl
  | cons r runs ih => simp only [plan, List.map_cons, ih]

theorem mem_of_mem_plan {p : Bool × PlacedRun} (hp : p ∈ plan stride loaded ends runs) :
    p.2 ∈ runs := by
  have hmem := List.mem_map_of_mem (f := Prod.snd) hp
  rwa [map_snd_plan] at hmem

theorem exists_mem_plan (stride : Nat) (loaded : BlockMap) (ends : List Nat) {r : PlacedRun}
    (hr : r ∈ runs) :
    ∃ p ∈ plan stride loaded ends runs, p.2 = r := by
  rw [← map_snd_plan stride loaded ends runs] at hr
  exact List.mem_map.mp hr

theorem eq_false_of_mem_plan
    (hnewer : ∀ r ∈ runs, ∀ w ∈ r.blocks, ∀ block loc,
      lookupBlockToObject stride loaded block = some loc → loc.seqNum < w.seqNum)
    {p : Bool × PlacedRun} (hp : p ∈ plan stride loaded ends runs) :
    p.1 = false := by
  induction runs generalizing ends with
  | nil => simp [plan] at hp
  | cons r runs ih =>
    simp only [plan, List.mem_cons] at hp
    rcases hp with rfl | hp
    · have hr := hnewer r (by simp)
      cases hblocks : r.blocks with
      | nil => rfl
      | cons first later =>
        rw [hblocks] at hr
        simp only [heldBack, guardSeqNum, Option.any_eq_false, Option.bind_eq_some_iff,
          Option.map_eq_some_iff]
        rintro seqNum ⟨start, -, loc, hloc, rfl⟩
        have hlt := hr first (by simp) _ loc hloc
        simpa using hlt
    · exact ih (fun r hr => hnewer r (by simp [hr])) hp

end Plan

section Replay

variable {stride firstID : Nat} {loaded : BlockMap} {ends : List Nat}
variable {b : BlocksToObject} {r : PlacedRun} {rest : List PlacedRun}

theorem Placed.tail (hruns : Placed firstID (r :: rest)) :
    Placed firstID rest := by
  have hapart := hruns.apart
  rw [List.flatMap_cons, List.pairwise_append] at hapart
  exact ⟨fun r' hr' => hruns.nonempty r' (by simp [hr']),
    fun r' hr' => hruns.chain r' (by simp [hr']), hapart.2.1,
    fun r' hr' => hruns.firstID_le r' (by simp [hr'])⟩

theorem Placed.block_ne (hruns : Placed firstID (r :: rest)) {r' : PlacedRun} {w w' : Block}
    (hr' : r' ∈ rest) (hw' : w' ∈ r'.blocks) (hw : w ∈ r.blocks) :
    w.block ≠ w'.block := by
  have hapart := hruns.apart
  rw [List.flatMap_cons, List.pairwise_append] at hapart
  exact hapart.2.2 w hw w' (List.mem_flatMap.mpr ⟨r', hr', hw'⟩)

/-- The entry covering a block that is still in its loaded place starts at a
block that is in its loaded place as well, if every other block is in a new chunk. -/
theorem lookup_head (New : Nat → Prop) (hwf : b.blockLookup.WellFormed)
    (hold_or_new : ∀ block, lookupBlockToObject stride b.blockLookup block = lookupBlockToObject
      stride loaded block ∨ ∃ loc, lookupBlockToObject stride b.blockLookup block = some loc ∧ New
      loc.objectID)
    (hloaded : ∀ block loc, lookupBlockToObject stride loaded block = some loc → ¬ New loc.objectID)
    {block start : Nat}
    (huntouched : lookupBlockToObject stride b.blockLookup block = lookupBlockToObject stride loaded
      block) (hstart : ExtentMap.headOf shape b.blockLookup block = some start) :
    lookupBlockToObject stride b.blockLookup start = lookupBlockToObject stride loaded start := by
  obtain ⟨bl, hfind, rfl⟩ := Option.map_eq_some_iff.mp hstart
  obtain ⟨hlookup, hcovers⟩ := hwf.find_eq_some_iff.mp hfind
  have hat : lookupBlockToObject stride b.blockLookup block =
      some (bl.blockAt stride (block - bl.startBlock)) :=
    hwf.lookup_of_covers hlookup hcovers
  have hhead : lookupBlockToObject stride b.blockLookup bl.startBlock =
      some (bl.blockAt stride (bl.startBlock - bl.startBlock)) :=
    hwf.lookup_of_covers hlookup (hwf.covers_start hlookup)
  have hnot : ¬ New bl.objectID := by
    rw [huntouched] at hat
    exact hloaded _ _ hat
  rcases hold_or_new bl.startBlock with hold | ⟨loc, hloc, hnew⟩
  · exact hold
  · rw [hhead] at hloc
    cases hloc
    exact absurd hnew hnot

theorem Publishing.lookup_head (hb : Publishing stride firstID loaded b (r :: rest))
    (hloaded : ChunksBelow stride loaded firstID) {w : Block} (hw : w ∈ r.blocks) {start : Nat}
    (hstart : ExtentMap.headOf shape b.blockLookup w.block = some start) :
    lookupBlockToObject stride b.blockLookup start = lookupBlockToObject stride loaded start :=
  BlocksToObject.lookup_head (firstID ≤ ·) hb.sound.wf hb.old_or_new
    (fun block loc hloc => Nat.not_le.mpr (hloaded block loc hloc))
    (hb.untouched r (by simp) w hw) hstart

/-- The guard decides as the plan does, if the entry covering the first block starts
where the plan expects it, at a block in its loaded place. -/
theorem staleDrain_eq_heldBack {first : Block} (hwf : b.blockLookup.WellFormed)
    (hhead : ExtentMap.headOf shape b.blockLookup first.block = (ExtentMap.headOf
      shape loaded first.block).map (pieceStart · ends first.block))
    (hloaded : ∀ start, ExtentMap.headOf shape b.blockLookup first.block = some start →
      lookupBlockToObject stride b.blockLookup start = lookupBlockToObject stride loaded start)
    (chunkIndex runStart : Nat) (later : List Block) :
    staleDrain b.blockLookup (newBlock stride chunkIndex runStart first later) =
      heldBack stride loaded ends (first :: later) := by
  rw [staleDrain_eq hwf]
  unfold heldBack guardSeqNum
  dsimp only
  rw [hhead]
  cases hold : ExtentMap.headOf shape loaded first.block with
  | none => rfl
  | some start =>
    rw [hold] at hhead
    simp only [Option.map_some, Option.bind_some]
    rw [show pieceStart (pieceStart start ends first.block) [] first.block =
        pieceStart start ends first.block from rfl,
      hloaded _ hhead]

theorem Replaying.staleDrain_eq_heldBack (hb : Replaying stride firstID loaded ends b (r :: rest))
    (hloaded : ChunksBelow stride loaded firstID) {first : Block} {later : List Block}
    (hblocks : r.blocks = first :: later) :
    staleDrain b.blockLookup
        (newBlock stride r.chunkIndex r.runStart first later) =
      heldBack stride loaded ends r.blocks := by
  have hfirst : first ∈ r.blocks := by
    simp [hblocks]
  rw [hblocks]
  exact BlocksToObject.staleDrain_eq_heldBack hb.sound.wf (hb.heads r (by simp) first hfirst)
    (fun _ hstart => hb.lookup_head hloaded hfirst hstart) _ _ _

/-- Which blocks of a run its entry covers: all but those beyond 16 bits. -/
theorem newBlock_covers_iff {first : Block} {later : List Block} (chunkIndex runStart : Nat)
    (hchain : (first :: later).IsChain fun a b => b.block = a.block + 1) {i : Nat} {w : Block}
    (hw : (first :: later)[i]? = some w) :
    (newBlock stride chunkIndex runStart first later).Covers w.block ↔ i < 65535 := by
  have hnumber := ConsecutiveRuns.number_of_getElem? hchain hw
  have hlt := (List.getElem?_eq_some_iff.mp hw).1
  simp only [List.length_cons] at hlt
  simp only [BlockLookup.Covers, endBlock, newBlock, safeIntToUint16]
  omega

theorem exists_mem_of_newBlock_covers
    {first : Block} {later : List Block} {chunkIndex runStart block : Nat}
    (hchain : (first :: later).IsChain fun a b => b.block = a.block + 1)
    (hcovers : (newBlock stride chunkIndex runStart first later).Covers block) :
    ∃ w ∈ first :: later, w.block = block := by
  simp only [BlockLookup.Covers, endBlock, newBlock, safeIntToUint16]
    at hcovers
  obtain ⟨w, hw, hblock⟩ := ConsecutiveRuns.exists_mem_of_number_lt hchain
    (n := block) hcovers.1 (by omega)
  exact ⟨w, List.mem_of_getElem? hw, hblock⟩

/-- Where the entry of a run puts the block at position `i`. -/
def PlacedRun.location (stride : Nat) (r : PlacedRun) (i : Nat) (w : Block) : Location :=
  ⟨r.chunkIndex, (safeIntToUint32 (chunkHeaderSize + r.runStart * stride) + i * stride) % 2 ^ 32,
    w.seqNum⟩

theorem newBlock_blockAt {first : Block} {later : List Block}
    (hchain : (first :: later).IsChain fun a b => b.block = a.block + 1) {i : Nat} {w : Block}
    (hi : i < 65535) (hw : (first :: later)[i]? = some w) :
    (newBlock stride r.chunkIndex r.runStart first later).blockAt stride
        (w.block - first.block) = r.location stride i w := by
  have hnumber := ConsecutiveRuns.number_of_getElem? hchain hw
  have hindex : w.block - first.block = i := by
    omega
  have hsafe : safeIntToUint32 i = i := by
    unfold safeIntToUint32
    omega
  have hseq : ((first :: later).map Block.seqNum).getD i first.seqNum = w.seqNum := by
    rw [List.getD_eq_getElem?_getD, List.getElem?_map, hw]
    rfl
  simp only [newBlock, blockAt, offsetAt, seqNumAt,
    PlacedRun.location, hindex, hsafe, hseq]

theorem lookup_publishPlaced_cases (hb : b.Sound)
    (hchain : r.blocks.IsChain fun a b => b.block = a.block + 1) {block : Nat} {loc : Location}
    (hloc : lookupBlockToObject stride
      (BlocksToObject.publishPlaced stride b r).blockLookup block = some loc) :
    lookupBlockToObject stride b.blockLookup block = some loc ∨
      ∃ w ∈ r.blocks, w.seqNum = loc.seqNum ∧ loc.objectID = r.chunkIndex := by
  unfold BlocksToObject.publishPlaced at hloc
  cases hblocks : r.blocks with
  | nil =>
    rw [hblocks] at hloc
    exact .inl hloc
  | cons first later =>
    rw [hblocks] at hchain
    rw [hblocks, lookup_publishRun hb] at hloc
    split at hloc
    · rename_i hcovers
      obtain ⟨w, hw, rfl⟩ := exists_mem_of_newBlock_covers hchain hcovers.2
      obtain ⟨i, hi⟩ := List.mem_iff_getElem?.mp hw
      have hlt := (newBlock_covers_iff _ _ hchain hi).mp hcovers.2
      rw [newBlock_blockAt hchain hlt hi] at hloc
      cases hloc
      exact .inr ⟨w, hw, rfl, rfl⟩
    · exact .inl hloc

theorem lookup_foldl_publishPlaced_cases (stride : Nat) {runs : List PlacedRun} (hb : b.Sound)
    (hchain : ∀ r ∈ runs, r.blocks.IsChain fun a b => b.block = a.block + 1) :
    (runs.foldl (BlocksToObject.publishPlaced stride) b).Sound ∧
      ∀ block loc, lookupBlockToObject stride
          (runs.foldl (BlocksToObject.publishPlaced stride) b).blockLookup block = some loc →
        lookupBlockToObject stride b.blockLookup block = some loc ∨ ∃ r ∈ runs, ∃ w ∈ r.blocks,
            w.seqNum = loc.seqNum ∧ loc.objectID = r.chunkIndex := by
  induction runs generalizing b with
  | nil => exact ⟨hb, fun _ _ => .inl⟩
  | cons r runs ih =>
    have hsound : (BlocksToObject.publishPlaced stride b r).Sound :=
      hb.publishRun _ _ _
    obtain ⟨hsound', hcases⟩ := ih hsound fun r' hr' => hchain r' (by simp [hr'])
    refine ⟨hsound', fun block loc hloc => ?_⟩
    rcases hcases block loc hloc with hold | ⟨r', hr', hw⟩
    · rcases lookup_publishPlaced_cases hb (hchain r (by simp)) hold with h | hw
      · exact .inl h
      · exact .inr ⟨r, by simp, hw⟩
    · exact .inr ⟨r', by simp [hr'], hw⟩

/-- The blocks of decided runs that get through are in the new chunk, the others of
the runs are where they were loaded, and the rest of the map is untouched. -/
@[mk_iff]
structure Lands (stride : Nat) (loaded : BlockMap) (b b' : BlocksToObject)
    (decided : List (Bool × PlacedRun)) : Prop where
  inside : ∀ p ∈ decided, ∀ i w, p.2.blocks[i]? = some w →
    lookupBlockToObject stride b'.blockLookup w.block =
      if p.1 = false ∧ i < 65535 then some (p.2.location stride i w)
      else lookupBlockToObject stride loaded w.block
  outside : ∀ block, (∀ p ∈ decided, ∀ w ∈ p.2.blocks, w.block ≠ block) →
    lookupBlockToObject stride b'.blockLookup block = lookupBlockToObject stride b.blockLookup block

theorem Publishing.publishPlaced (hb : Publishing stride firstID loaded b (r :: rest))
    (hruns : Placed firstID (r :: rest)) (held : Bool)
    (hguard : ∀ first later, r.blocks = first :: later → staleDrain b.blockLookup
        (newBlock stride r.chunkIndex r.runStart first later) = held) :
    let b' := publishPlaced stride b r
    Publishing stride firstID loaded b' rest ∧ Lands stride loaded b b' [(held, r)] := by
  obtain ⟨first, later, hblocks⟩ :=
    List.exists_cons_of_ne_nil (hruns.nonempty r (by simp))
  have hchain := hruns.chain r (by simp)
  rw [hblocks] at hchain
  have hlookup : ∀ block,
      lookupBlockToObject stride (BlocksToObject.publishPlaced stride b r).blockLookup
          block =
        if held = false ∧ (newBlock stride r.chunkIndex r.runStart first later).Covers block then
          some ((newBlock stride r.chunkIndex r.runStart first later).blockAt stride
            (block - first.block))
        else lookupBlockToObject stride b.blockLookup block := by
    intro block
    unfold BlocksToObject.publishPlaced
    rw [hblocks, lookup_publishRun hb.sound, hguard first later hblocks]
  have hlands : Lands stride loaded b (BlocksToObject.publishPlaced stride b r)
      [(held, r)] := by
    simp only [lands_iff, List.forall_mem_singleton]
    refine ⟨fun i w hw => ?_, fun block hblock => ?_⟩
    · have hmem := List.mem_of_getElem? hw
      rw [hblocks] at hw
      rw [hlookup, hb.untouched r (by simp) w hmem]
      simp only [newBlock_covers_iff _ _ hchain hw]
      by_cases hpublished : held = false ∧ i < 65535
      · rw [if_pos hpublished, if_pos hpublished, newBlock_blockAt hchain hpublished.2 hw]
      · rw [if_neg hpublished, if_neg hpublished]
    · rw [hlookup, if_neg]
      rintro ⟨-, hcovers⟩
      obtain ⟨w, hw, rfl⟩ := exists_mem_of_newBlock_covers hchain hcovers
      exact hblock w (by rw [hblocks]; exact hw) rfl
  refine ⟨⟨hb.sound.publishRun _ _ _, ?_, ?_⟩, hlands⟩
  · intro block
    rw [hlookup]
    split
    · exact .inr ⟨_, rfl, hruns.firstID_le r (by simp)⟩
    · exact hb.old_or_new block
  · intro r' hr' w' hw'
    rw [hlands.outside _ (by simpa using fun w => hruns.block_ne hr' hw'),
      hb.untouched r' (by simp [hr']) w' hw']

theorem headOf_publishPlaced (hb : b.Sound) {first : Block} {later : List Block}
    (hblocks : r.blocks = first :: later) {held : Bool}
    (hguard : staleDrain b.blockLookup (newBlock stride r.chunkIndex r.runStart first later) = held)
    {block : Nat} (hblock : ¬ (newBlock stride r.chunkIndex r.runStart first later).Covers block) :
    ExtentMap.headOf shape
        (BlocksToObject.publishPlaced stride b r).blockLookup block =
      (ExtentMap.headOf shape b.blockLookup block).map fun k =>
        if held = false ∧ k < r.stop ∧ r.stop ≤ block then r.stop else k := by
  unfold BlocksToObject.publishPlaced
  rw [hblocks]
  simp only [BlocksToObject.publishRun, hguard]
  cases held with
  | true => simp
  | false =>
    simp only [Bool.false_eq_true, if_false, true_and]
    rw [headOf_insertCoalescedLocked hb newBlock_valid hblock]
    simp only [PlacedRun.stop, hblocks]
    rfl

theorem map_pieceStart (start : Option Nat) (ends : List Nat) (held : Bool) (stop block : Nat) :
    (start.map (pieceStart · ends block)).map (fun k =>
        if held = false ∧ k < stop ∧ stop ≤ block then stop else k) =
      start.map (pieceStart · (if held then ends else ends ++ [stop]) block) := by
  rw [Option.map_map]
  congr 1
  funext k
  cases held with
  | true => simp
  | false =>
    simp only [Function.comp_apply, Bool.false_eq_true, if_false, pieceStart_append, true_and]

/-- One run of a replay: the plan says whether it is held back. -/
theorem Replaying.publishPlaced (hb : Replaying stride firstID loaded ends b (r :: rest))
    (hruns : Placed firstID (r :: rest))
    (hguard : ∀ first later, r.blocks = first :: later →
      staleDrain b.blockLookup (newBlock stride r.chunkIndex r.runStart first later) =
        heldBack stride loaded ends r.blocks) :
    let held := heldBack stride loaded ends r.blocks
    let b' := publishPlaced stride b r
    Replaying stride firstID loaded (if held then ends else ends ++ [r.stop]) b' rest ∧
      Lands stride loaded b b' [(held, r)] := by
  obtain ⟨first, later, hblocks⟩ :=
    List.exists_cons_of_ne_nil (hruns.nonempty r (by simp))
  have hchain := hruns.chain r (by simp)
  rw [hblocks] at hchain
  obtain ⟨hpublishing, hlands⟩ := hb.toPublishing.publishPlaced hruns _ hguard
  refine ⟨⟨hpublishing, ?_⟩, hlands⟩
  intro r' hr' w' hw'
  rw [headOf_publishPlaced hb.sound hblocks (hguard first later hblocks),
    hb.heads r' (by simp [hr']) w' hw', map_pieceStart]
  intro hcovers
  obtain ⟨w, hw, hblock⟩ := exists_mem_of_newBlock_covers hchain hcovers
  exact hruns.block_ne hr' hw' (by rw [hblocks]; exact hw) hblock

/-- Runs that land one by one as planned have landed as planned in the end. -/
theorem lands_plan {I : List Nat → BlocksToObject → List PlacedRun → Prop}
    (hstep : ∀ {ends b r rest}, Placed firstID (r :: rest) → I ends b (r :: rest) →
      let held := heldBack stride loaded ends r.blocks
      let b' := publishPlaced stride b r
      I (if held then ends else ends ++ [r.stop]) b' rest ∧ Lands stride loaded b b' [(held, r)])
    {runs : List PlacedRun} (hruns : Placed firstID runs) (hb : I ends b runs) :
    let b' := runs.foldl (BlocksToObject.publishPlaced stride) b
    (∃ ends', I ends' b' []) ∧ Lands stride loaded b b' (plan stride loaded ends runs) := by
  induction runs generalizing ends b with
  | nil => exact ⟨⟨ends, hb⟩, by simp [plan], fun _ _ => rfl⟩
  | cons r rest ih =>
    obtain ⟨hb', hfirst⟩ := hstep hruns hb
    obtain ⟨hlanded, hrest⟩ := ih hruns.tail hb'
    refine ⟨hlanded, fun p hp i w hw => ?_, fun block hblock => ?_⟩
    · simp only [plan, List.mem_cons] at hp
      rcases hp with rfl | hp
      · refine (hrest.outside w.block fun p hp w' hw' => ?_).trans
          (hfirst.inside _ (by simp) i w hw)
        exact (hruns.block_ne (mem_of_mem_plan hp) hw' (List.mem_of_getElem? hw)).symm
      · exact hrest.inside p hp i w hw
    · simp only [plan, List.forall_mem_cons] at hblock
      exact (hrest.outside block hblock.2).trans
        (hfirst.outside block (by simpa using hblock.1))

theorem publishing_loaded (stride firstID : Nat) (hb : b.Sound) (runs : List PlacedRun) :
    Publishing stride firstID b.blockLookup b runs :=
  ⟨hb, fun _ => .inl rfl, fun _ _ _ _ => rfl⟩

theorem replaying_loaded (stride firstID : Nat) (hb : b.Sound) (runs : List PlacedRun) :
    Replaying stride firstID b.blockLookup [] b runs := by
  refine ⟨publishing_loaded stride firstID hb runs, ?_⟩
  intro r _ w _
  have hid : (pieceStart · [] w.block) = id := rfl
  rw [hid, Option.map_id_fun, id_eq]

/-- A whole replay does what the plan says. -/
theorem Replaying.publishAll {runs : List PlacedRun}
    (hb : Replaying stride firstID loaded ends b runs)
    (hloaded : ChunksBelow stride loaded firstID)
    (hruns : Placed firstID runs) :
    let b' := runs.foldl (BlocksToObject.publishPlaced stride) b
    b'.Sound ∧ Lands stride loaded b b' (plan stride loaded ends runs) := by
  obtain ⟨⟨_, hend⟩, hlands⟩ := lands_plan
    (fun hruns hb => hb.publishPlaced hruns fun _ _ => hb.staleDrain_eq_heldBack hloaded) hruns hb
  exact ⟨hend.sound, hlands⟩

theorem publishAll_newer {runs : List PlacedRun} (hb : b.Sound)
    (hloaded : ChunksBelow stride b.blockLookup firstID)
    (hruns : Placed firstID runs)
    (hnewer : ∀ r ∈ runs, ∀ w ∈ r.blocks, ∀ block loc,
      lookupBlockToObject stride b.blockLookup block = some loc → loc.seqNum < w.seqNum) :
    let b' := runs.foldl (BlocksToObject.publishPlaced stride) b
    b'.Sound ∧ (∀ r ∈ runs, ∀ i w, r.blocks[i]? = some w →
        lookupBlockToObject stride b'.blockLookup w.block =
          if i < 65535 then some (r.location stride i w)
          else lookupBlockToObject stride b.blockLookup w.block) ∧
      (∀ block, (∀ w ∈ runs.flatMap PlacedRun.blocks, w.block ≠ block) →
        lookupBlockToObject stride b'.blockLookup block =
          lookupBlockToObject stride b.blockLookup block) := by
  obtain ⟨hsound, hlands⟩ := (replaying_loaded stride firstID hb runs).publishAll hloaded hruns
  refine ⟨hsound, fun r hr i w hw => ?_, fun block hblock => ?_⟩
  · obtain ⟨p, hp, rfl⟩ := exists_mem_plan stride b.blockLookup [] hr
    rw [hlands.inside p hp i w hw, eq_false_of_mem_plan hnewer hp]
    simp
  · refine hlands.outside block fun p hp w hw => ?_
    exact hblock w (List.mem_flatMap.mpr ⟨p.2, mem_of_mem_plan hp, hw⟩)

end Replay

section Placement

theorem flatten_placeRuns (runStart : Nat) (runs : List (List Block)) :
    (placeRuns runStart runs).flatMap Prod.snd = runs.flatten := by
  induction runs generalizing runStart with
  | nil => rfl
  | cons run runs ih =>
    simp only [placeRuns, List.flatMap_cons, List.flatten_cons, ih]

theorem getElem?_of_mem_placeRuns {runStart : Nat} {runs : List (List Block)}
    {run : Nat × List Block} (hrun : run ∈ placeRuns runStart runs) :
    run.2 ∈ runs ∧ runStart ≤ run.1 ∧
      ∀ i w, run.2[i]? = some w → runs.flatten[run.1 - runStart + i]? = some w := by
  induction runs generalizing runStart with
  | nil => simp [placeRuns] at hrun
  | cons first runs ih =>
    simp only [placeRuns, List.mem_cons] at hrun
    rcases hrun with rfl | hrun
    · refine ⟨by simp, Nat.le_refl _, ?_⟩
      intro i w hw
      have hlt := (List.getElem?_eq_some_iff.mp hw).1
      rw [Nat.sub_self, Nat.zero_add, List.flatten_cons, List.getElem?_append_left hlt]
      exact hw
    · obtain ⟨hmem, hle, hget⟩ := ih hrun
      refine ⟨by simp [hmem], by omega, ?_⟩
      intro i w hw
      have hrest := hget i w hw
      rw [List.flatten_cons, List.getElem?_append_right (by omega)]
      have hindex : run.1 - runStart + i - first.length =
          run.1 - (runStart + first.length) + i := by
        omega
      rw [hindex]
      exact hrest

theorem flatten_placedRuns (chunkIndex : Nat) (jobs : List (List Block)) :
    (placedRuns chunkIndex jobs).flatMap PlacedRun.blocks = jobs.flatten := by
  induction jobs generalizing chunkIndex with
  | nil => rfl
  | cons job jobs ih =>
    simp only [placedRuns, List.flatMap_append, List.flatMap_map, ih, List.flatten_cons]
    rw [chunkRuns, flatten_placeRuns, List.flatten_splitBy]

theorem exists_job_of_mem_placedRuns {chunkIndex : Nat} {jobs : List (List Block)} {r : PlacedRun}
    (hr : r ∈ placedRuns chunkIndex jobs) :
    ∃ j job, jobs[j]? = some job ∧ r.chunkIndex = chunkIndex + j ∧
      r.blocks ∈ job.splitBy consecutive ∧
      ∀ i w, r.blocks[i]? = some w → job[r.runStart + i]? = some w := by
  induction jobs generalizing chunkIndex with
  | nil => simp [placedRuns] at hr
  | cons job jobs ih =>
    simp only [placedRuns, List.mem_append, List.mem_map] at hr
    rcases hr with ⟨run, hrun, rfl⟩ | hr
    · obtain ⟨hmem, -, hget⟩ := getElem?_of_mem_placeRuns hrun
      refine ⟨0, job, rfl, rfl, hmem, ?_⟩
      intro i w hw
      have hjob := hget i w hw
      rw [List.flatten_splitBy, Nat.sub_zero] at hjob
      exact hjob
    · obtain ⟨j, job', hjob, hindex, hrest⟩ := ih hr
      exact ⟨j + 1, job', hjob, by omega, hrest⟩

theorem isChain_of_mem_placedRuns {chunkIndex : Nat} {jobs : List (List Block)} {r : PlacedRun}
    (hr : r ∈ placedRuns chunkIndex jobs) :
    r.blocks.IsChain fun a b => b.block = a.block + 1 := by
  obtain ⟨j, job, -, -, hrun, -⟩ := exists_job_of_mem_placedRuns hr
  refine ConsecutiveRuns.isChain_of_mem_runs Block.block ?_ hrun
  intro a b hab
  simpa [consecutive] using hab

theorem placed_placedRuns (firstID : Nat) {jobs : List (List Block)}
    (hapart : jobs.flatten.Pairwise fun a b => a.block ≠ b.block) :
    Placed firstID (placedRuns firstID jobs) := by
  refine ⟨?_, ?_, by rw [flatten_placedRuns]; exact hapart, ?_⟩
  · intro r hr
    obtain ⟨j, job, -, -, hrun, -⟩ := exists_job_of_mem_placedRuns hr
    exact List.ne_nil_of_mem_splitBy hrun
  · exact fun r => isChain_of_mem_placedRuns
  · intro r hr
    obtain ⟨j, job, -, hindex, -, -⟩ := exists_job_of_mem_placedRuns hr
    omega

end Placement

/-- The entry points to the slot of a block exactly if 32 bits hold its offset. -/
theorem PlacedRun.location_eq_iff (cfg : Config) (r : PlacedRun) (i : Nat) (w : Block) :
    r.location cfg.blockStride i w =
        ⟨r.chunkIndex, chunkHeaderSize + (r.runStart + i) * cfg.slotSize, w.seqNum⟩ ↔
      chunkHeaderSize + (r.runStart + i) * cfg.slotSize < 2 ^ 32 := by
  simp only [PlacedRun.location, Location.mk.injEq, true_and, and_true]
  constructor
  · intro heq
    rw [← heq]
    exact Nat.mod_lt _ (by decide)
  · intro hlt
    by_cases hfirst : r.runStart + i = 0
    · obtain ⟨hstart, hi⟩ := Nat.add_eq_zero_iff.mp hfirst
      simp [hstart, hi, chunkHeaderSize, safeIntToUint32]
    · have hslot : cfg.slotSize ≤ (r.runStart + i) * cfg.slotSize :=
        Nat.le_mul_of_pos_left _ (Nat.pos_of_ne_zero hfirst)
      have hstride := cfg.blockStride_eq (by omega)
      have hsplit : (r.runStart + i) * cfg.slotSize =
          r.runStart * cfg.slotSize + i * cfg.slotSize := Nat.add_mul _ _ _
      have hsafe : safeIntToUint32 (chunkHeaderSize + r.runStart * cfg.slotSize) =
          chunkHeaderSize + r.runStart * cfg.slotSize := by
        unfold safeIntToUint32
        omega
      rw [hstride, hsafe, Nat.mod_eq_of_lt (by omega), hsplit, Nat.add_assoc]

end BlocksToObject

end Viperblock
