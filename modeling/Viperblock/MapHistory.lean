import Viperblock.CheckpointFile
import Viperblock.Replay
import Viperblock.Volume

/-!
# Block maps that the engine can reach

A block map starts empty, takes over chunks that were uploaded, each under an
object number of its own, and is rebuilt from a checkpoint of itself when the
volume is opened.  Along such a history no 65536 consecutive blocks ever lie in
one object: a run of a chunk is cut at the 16-bit run count, and two runs of one
chunk are not neighbours.  So a checkpoint, which is expanded to one record a
block and merged again by another rule than the one that built the map, loses
nothing.
-/

namespace Viperblock

open BlockMap BlocksToObject UnifiedBlockStore

/-- The records of a checkpoint written in a given iteration order of the map. -/
def expandEntries (stride : Nat) (entries : List (Sigma fun _ : Nat => BlockLookup)) :
    List BlockLookup :=
  entries.flatMap fun entry => entry.2.expandBlockLookup stride

namespace BlocksToObject

/-- Maps with the next free object number, as opens, uploads and loads make them. -/
inductive Reachable (stride : Nat) : Nat → BlocksToObject → Prop
  | new (gcEnabled : Bool) :
      Reachable stride 0 (VB.new gcEnabled).blocksToObject
  /-- An upload takes a number, whether or not it succeeds. -/
  | allocate {objectNum : Nat} {b : BlocksToObject} :
      Reachable stride objectNum b →
      objectNum + 1 < 2 ^ 64 →
      Reachable stride (objectNum + 1) b
  /-- The chunk with a number that was taken is published. -/
  | publish {objectNum id : Nat} {b : BlocksToObject} (blocks : List Block) :
      Reachable stride objectNum b →
      id < objectNum →
      id ∉ b.blockLookup.objectIDs →
      blocks.Pairwise (fun x y => x.block < y.block) →
      (∀ x ∈ blocks, x.block < 2 ^ 64 ∧ x.seqNum < 2 ^ 64) →
      Reachable stride objectNum (b.publishChunk stride id blocks)
  /-- A checkpoint of the map is loaded next to some `config.json`. -/
  | load {objectNum saved : Nat} {b : BlocksToObject}
      {entries : List (Sigma fun _ : Nat => BlockLookup)} (gcEnabled : Bool) :
      Reachable stride objectNum b →
      saved < 2 ^ 64 →
      entries.Perm b.blockLookup.entries →
      Reachable stride (raiseObjectNum saved (expandEntries stride entries))
        (parseBlockCheckpoint gcEnabled stride (expandEntries stride entries))

/-- No 65536 consecutive blocks lie in one object. -/
def Narrow (stride : Nat) (m : BlockMap) : Prop :=
  ∀ id first, ∃ i ≤ 65535, ∀ loc,
    lookupBlockToObject stride m (first + i) = some loc → loc.objectID ≠ id

/-- What holds of a map along its history. -/
structure Regular (stride objectNum : Nat) (b : BlocksToObject) : Prop where
  sound : b.Sound
  narrow : Narrow stride b.blockLookup
  objectNum_lt : objectNum < 2 ^ 64
  bounded : ∀ block loc, lookupBlockToObject stride b.blockLookup block = some loc →
    block < 2 ^ 64 ∧ loc.objectID < objectNum ∧ loc.seqNum < 2 ^ 64

end BlocksToObject

section Records

variable {stride : Nat} {m : BlockMap}

/-- The record of one block at a location. -/
def singleRecord (block : Nat) (loc : Location) : BlockLookup where
  startBlock := block
  numBlocks := 1
  objectID := loc.objectID
  objectOffset := loc.objectOffset
  seqNum := loc.seqNum
  seqNums := []

theorem recordLocation_singleRecord (block : Nat) (loc : Location) :
    recordLocation (singleRecord block loc) = loc :=
  rfl

section

variable {entries : List (Sigma fun _ : Nat => BlockLookup)}

theorem mem_expandEntries_iff (stride : Nat) (hwf : m.WellFormed) (horder : entries.Perm m.entries)
    {rec : BlockLookup} :
    rec ∈ expandEntries stride entries ↔
      ∃ loc, lookupBlockToObject stride m rec.startBlock = some loc ∧
        rec = singleRecord rec.startBlock loc := by
  have hmem : rec ∈ expandEntries stride entries ↔ rec ∈ checkpointRecords stride m := by
    simp only [expandEntries, checkpointRecords, List.mem_flatMap, horder.mem_iff]
  rw [hmem]
  have hsingle : ∀ r ∈ checkpointRecords stride m,
      r = singleRecord r.startBlock (recordLocation r) := by
    intro r hr
    simp only [checkpointRecords, List.mem_flatMap, BlockLookup.expandBlockLookup,
      List.mem_map] at hr
    obtain ⟨-, -, i, -, rfl⟩ := hr
    rfl
  constructor
  · intro hrec
    exact ⟨_, lookup_of_mem_checkpointRecords hwf hrec, hsingle rec hrec⟩
  · rintro ⟨loc, hloc, hrec⟩
    obtain ⟨r, hr, hstart⟩ := exists_mem_checkpointRecords hwf hloc
    have hsame := lookup_of_mem_checkpointRecords hwf hr
    rw [hstart, hloc] at hsame
    have heq := hsingle r hr
    rw [hstart, ← Option.some.inj hsame, ← hrec] at heq
    rwa [← heq]

theorem lookup_flatRecords_expandEntries (stride : Nat) (hwf : m.WellFormed)
    (horder : entries.Perm m.entries) (block : Nat) :
    (flatRecords (expandEntries stride entries)).lookup block =
      (lookupBlockToObject stride m block).map (singleRecord block) := by
  cases hflat : (flatRecords (expandEntries stride entries)).lookup block with
  | some rec =>
    obtain ⟨hmem, rfl⟩ := mem_of_lookup_flatRecords hflat
    obtain ⟨loc, hloc, hrec⟩ := (mem_expandEntries_iff stride hwf horder).mp hmem
    rw [hloc, Option.map_some, ← hrec]
  | none =>
    cases hloc : lookupBlockToObject stride m block with
    | none => rfl
    | some loc =>
      have hmem : singleRecord block loc ∈ expandEntries stride entries :=
        (mem_expandEntries_iff stride hwf horder).mpr ⟨loc, hloc, rfl⟩
      obtain ⟨last, hlast⟩ := exists_lookup_flatRecords hmem
      exact absurd (hflat.symm.trans hlast) (by simp)

theorem offset_lt_of_mem_expandEntries (horder : entries.Perm m.entries) {rec : BlockLookup}
    (hrec : rec ∈ expandEntries stride entries) :
    rec.objectOffset < 2 ^ 32 := by
  have hmem : rec ∈ checkpointRecords stride m := by
    simp only [expandEntries, List.mem_flatMap, horder.mem_iff] at hrec
    simpa only [checkpointRecords, List.mem_flatMap] using hrec
  exact offset_lt_of_mem_checkpointRecords hmem

end

end Records

namespace BlocksToObject

section Publish

variable {stride id : Nat} {b : BlocksToObject} {blocks : List Block}

theorem lookup_foldl_publishRun_cases (runs : List (Nat × List Block)) (hb : b.Sound)
    {block : Nat} {loc : Location}
    (hloc : lookupBlockToObject stride
      (runs.foldl (publishRun stride id) b).blockLookup block = some loc) :
    lookupBlockToObject stride b.blockLookup block = some loc ∨
      ∃ runStart first rest, (runStart, first :: rest) ∈ runs ∧
        (newBlock stride id runStart first rest).Covers block ∧
        loc = (newBlock stride id runStart first rest).blockAt stride
          (block - first.block) := by
  induction runs generalizing b with
  | nil => exact .inl hloc
  | cons run runs ih =>
    rcases ih (hb.publishRun stride id run) hloc with hrun | hlater
    · obtain ⟨runStart, list⟩ := run
      cases list with
      | nil => exact .inl hrun
      | cons first rest =>
        rw [lookup_publishRun hb] at hrun
        split at hrun
        · rename_i hcovers
          cases hrun
          exact .inr ⟨runStart, first, rest, by simp, hcovers.2, rfl⟩
        · exact .inl hrun
    · obtain ⟨runStart, first, rest, hmem, hcovers⟩ := hlater
      exact .inr ⟨runStart, first, rest, by simp [hmem], hcovers⟩

theorem lookup_publishChunk_cases (hb : b.Sound) {block : Nat} {loc : Location}
    (hloc : lookupBlockToObject stride (b.publishChunk stride id blocks).blockLookup
      block = some loc) :
    lookupBlockToObject stride b.blockLookup block = some loc ∨
      ∃ runStart first rest, (runStart, first :: rest) ∈ chunkRuns blocks ∧
        (newBlock stride id runStart first rest).Covers block ∧
        loc = (newBlock stride id runStart first rest).blockAt stride
          (block - first.block) :=
  lookup_foldl_publishRun_cases (chunkRuns blocks) hb hloc

theorem mem_splitBy_of_mem_chunkRuns {run : Nat × List Block} (hrun : run ∈ chunkRuns blocks) :
    run.2 ∈ blocks.splitBy consecutive :=
  (getElem?_of_mem_placeRuns hrun).1

theorem isChain_of_mem_chunkRuns {run : Nat × List Block} (hrun : run ∈ chunkRuns blocks) :
    run.2.IsChain fun x y => y.block = x.block + 1 := by
  refine ConsecutiveRuns.isChain_of_mem_runs Block.block ?_
    (mem_splitBy_of_mem_chunkRuns hrun)
  intro x y hxy
  simpa [consecutive] using hxy

theorem exists_block_of_covers {runStart block : Nat} {first : Block} {rest : List Block}
    (hrun : (runStart, first :: rest) ∈ chunkRuns blocks)
    (hcovers : (newBlock stride id runStart first rest).Covers block) :
    ∃ w ∈ first :: rest, w ∈ blocks ∧ w.block = block ∧
      ((newBlock stride id runStart first rest).blockAt stride
        (block - first.block)).seqNum = w.seqNum := by
  have hchain : (first :: rest).IsChain fun x y => y.block = x.block + 1 :=
    isChain_of_mem_chunkRuns hrun
  obtain ⟨w, hw, rfl⟩ := exists_mem_of_newBlock_covers hchain hcovers
  obtain ⟨i, hi⟩ := List.mem_iff_getElem?.mp hw
  have hlt := (newBlock_covers_iff _ _ hchain hi).mp hcovers
  refine ⟨w, hw, ConsecutiveRuns.exists_run_mem_iff.mp
    ⟨_, mem_splitBy_of_mem_chunkRuns hrun, hw⟩, rfl, ?_⟩
  rw [newBlock_blockAt (r := ⟨id, runStart, first :: rest⟩) hchain hlt hi]
  rfl

/-- Consecutive blocks that a chunk covers are in one run of it. -/
theorem mem_run_of_covered (hsorted : blocks.Pairwise fun x y => x.block < y.block)
    {runStart start n : Nat} {first : Block} {rest : List Block}
    (hrun : (runStart, first :: rest) ∈ chunkRuns blocks)
    (hstart : (newBlock stride id runStart first rest).Covers start)
    (hall : ∀ i ≤ n, ∃ w ∈ blocks, w.block = start + i) :
    ∀ i ≤ n, ∃ w ∈ first :: rest, w.block = start + i := by
  intro i
  induction i with
  | zero =>
    intro _
    obtain ⟨w, hw, -, hblock, -⟩ := exists_block_of_covers hrun hstart
    exact ⟨w, hw, hblock⟩
  | succ i ih =>
    intro hi
    obtain ⟨w, hw, hblock⟩ := ih (by omega)
    obtain ⟨w', hw', hblock'⟩ := hall (i + 1) hi
    refine ⟨w', ?_, hblock'⟩
    refine ConsecutiveRuns.mem_run_of_succ hsorted ?_
      (mem_splitBy_of_mem_chunkRuns hrun) hw hw' (by omega)
    intro x y hxy
    simpa [consecutive] using hxy

/-- A chunk takes over no 65536 consecutive blocks. -/
theorem not_all_covered (stride id start : Nat)
    (hsorted : blocks.Pairwise fun x y => x.block < y.block)
    (hall : ∀ i ≤ 65535, ∃ runStart first rest, (runStart, first :: rest) ∈ chunkRuns blocks ∧
      (newBlock stride id runStart first rest).Covers (start + i)) :
    False := by
  have hblocks : ∀ i ≤ 65535, ∃ w ∈ blocks, w.block = start + i := by
    intro i hi
    obtain ⟨runStart, first, rest, hrun, hcovers⟩ := hall i hi
    obtain ⟨w, -, hw, hblock, -⟩ := exists_block_of_covers hrun hcovers
    exact ⟨w, hw, hblock⟩
  obtain ⟨runStart, first, rest, hrun, hstart⟩ := hall 0 (by omega)
  obtain ⟨runStart', first', rest', hrun', hend⟩ := hall 65535 (by omega)
  have hone := mem_run_of_covered hsorted hrun hstart hblocks
  simp only [BlockLookup.Covers, BlockLookup.endBlock, newBlock, safeIntToUint16]
    at hstart hend
  -- the run that covers the last block starts behind the first one
  obtain ⟨w, hw, hblock⟩ := hone (first'.block - start) (by omega)
  have hsame := ConsecutiveRuns.run_eq_of_number_eq hsorted
    (mem_splitBy_of_mem_chunkRuns hrun) (mem_splitBy_of_mem_chunkRuns hrun')
    hw (List.mem_cons_self : first' ∈ first' :: rest') (by omega)
  obtain ⟨rfl, -⟩ := List.cons.inj hsame
  omega

theorem Narrow.publishChunk (hb : b.Sound) (hnarrow : Narrow stride b.blockLookup)
    (hnew : id ∉ b.blockLookup.objectIDs) (hsorted : blocks.Pairwise fun x y => x.block < y.block) :
    Narrow stride (b.publishChunk stride id blocks).blockLookup := by
  intro other start
  by_cases hid : other = id
  · subst hid
    by_contra hall
    push Not at hall
    refine not_all_covered stride other start hsorted ?_
    intro i hi
    obtain ⟨loc, hloc, hother⟩ := hall i hi
    rcases lookup_publishChunk_cases hb hloc with hold | hrun
    · exact absurd ((hb.wf.mem_objectIDs_iff_lookup stride).mpr ⟨_, loc, hold, hother⟩)
        hnew
    · obtain ⟨runStart, first, rest, hmem, hcovers, -⟩ := hrun
      exact ⟨runStart, first, rest, hmem, hcovers⟩
  · obtain ⟨i, hi, hfree⟩ := hnarrow other start
    refine ⟨i, hi, fun loc hloc => ?_⟩
    rcases lookup_publishChunk_cases hb hloc with hold | hrun
    · exact hfree loc hold
    · obtain ⟨-, -, -, -, -, rfl⟩ := hrun
      exact fun heq => hid heq.symm

end Publish

section Load

variable {stride objectNum : Nat} {b : BlocksToObject}
variable {entries : List (Sigma fun _ : Nat => BlockLookup)}

theorem length_le_of_narrow (hb : b.Sound) (hnarrow : Narrow stride b.blockLookup)
    (horder : entries.Perm b.blockLookup.entries) {run : List BlockLookup}
    (hrun : run ∈ (sortedRecords (flatRecords (expandEntries stride entries))).splitBy
      (adjacent stride)) :
    run.length ≤ 65535 := by
  have hflat : Flat (flatRecords (expandEntries stride entries)) :=
    flat_flatRecords fun rec hrec => offset_lt_of_mem_expandEntries horder hrec
  by_contra hlong
  cases run with
  | nil => simp at hlong
  | cons first rest =>
    obtain ⟨i, hi, hfree⟩ := hnarrow first.objectID first.startBlock
    have hlt : i < (first :: rest).length := by omega
    obtain ⟨hstart, hlookup, hobject, -⟩ :=
      getElem?_of_mem_runs hflat hrun (List.getElem?_eq_getElem hlt)
    rw [lookup_flatRecords_expandEntries stride hb.wf horder, hstart,
      Option.map_eq_some_iff] at hlookup
    obtain ⟨loc, hloc, hrec⟩ := hlookup
    refine hfree loc hloc ?_
    rw [← hobject, ← hrec]
    rfl

/-- A checkpoint of a narrow map, written in any order, loads as the same map. -/
theorem lookup_parse_expandEntries (hb : b.Sound) (hnarrow : Narrow stride b.blockLookup)
    (horder : entries.Perm b.blockLookup.entries) (gcEnabled : Bool) (block : Nat) :
    lookupBlockToObject stride
        (parseBlockCheckpoint gcEnabled stride (expandEntries stride entries)).blockLookup
        block =
      lookupBlockToObject stride b.blockLookup block := by
  have hflat : Flat (flatRecords (expandEntries stride entries)) :=
    flat_flatRecords fun rec hrec => offset_lt_of_mem_expandEntries horder hrec
  have hrecord := lookup_flatRecords_expandEntries stride hb.wf horder block
  show lookupBlockToObject stride
    (coalesceBlockLookup (flatRecords (expandEntries stride entries)) stride) block = _
  cases hloc : lookupBlockToObject stride b.blockLookup block with
  | some loc =>
    rw [hloc, Option.map_some] at hrecord
    rw [lookup_coalesce_complete hflat
      (fun run hrun => length_le_of_narrow hb hnarrow horder hrun) hrecord,
      recordLocation_singleRecord]
  | none =>
    rw [hloc, Option.map_none] at hrecord
    cases hparsed : lookupBlockToObject stride
        (coalesceBlockLookup (flatRecords (expandEntries stride entries)) stride)
        block with
    | none => rfl
    | some loc =>
      obtain ⟨rec, hrec, -⟩ := lookup_coalesce_sound hflat hparsed
      rw [hrecord] at hrec
      cases hrec

theorem raiseObjectNum_lt {bound : Nat} {records : List BlockLookup} (hsaved : objectNum < bound)
    (hrecords : ∀ rec ∈ records, rec.objectID + 1 < bound) :
    raiseObjectNum objectNum records < bound := by
  induction records generalizing objectNum with
  | nil => exact hsaved
  | cons rec records ih =>
    have hrec := hrecords rec (by simp)
    have hmax : max objectNum (rec.objectID + 1) < bound := by omega
    exact ih hmax fun r hr => hrecords r (by simp [hr])

end Load

section History

variable {stride objectNum : Nat} {b : BlocksToObject}

theorem Regular.new (stride : Nat) (gcEnabled : Bool) :
    Regular stride 0 (VB.new gcEnabled).blocksToObject where
  sound := VB.sound_new gcEnabled
  narrow := fun id first => ⟨0, by omega, fun loc hloc => by
    rw [VB.lookup_new] at hloc
    cases hloc⟩
  objectNum_lt := by decide
  bounded := fun block loc hloc => by
    rw [VB.lookup_new] at hloc
    cases hloc

theorem Regular.allocate (hb : Regular stride objectNum b) (hroom : objectNum + 1 < 2 ^ 64) :
    Regular stride (objectNum + 1) b where
  sound := hb.sound
  narrow := hb.narrow
  objectNum_lt := hroom
  bounded := fun block loc hloc => by
    obtain ⟨hblock, hid, hseq⟩ := hb.bounded block loc hloc
    exact ⟨hblock, by omega, hseq⟩

theorem Regular.publish (hb : Regular stride objectNum b) {id : Nat} {blocks : List Block}
    (hid : id < objectNum) (hnew : id ∉ b.blockLookup.objectIDs)
    (hsorted : blocks.Pairwise fun x y => x.block < y.block)
    (hfits : ∀ x ∈ blocks, x.block < 2 ^ 64 ∧ x.seqNum < 2 ^ 64) :
    Regular stride objectNum (b.publishChunk stride id blocks) where
  sound := hb.sound.publishChunk blocks
  narrow := Narrow.publishChunk hb.sound hb.narrow hnew hsorted
  objectNum_lt := hb.objectNum_lt
  bounded := fun block loc hloc => by
    rcases lookup_publishChunk_cases hb.sound hloc with hold | hrun
    · exact hb.bounded block loc hold
    · obtain ⟨runStart, first, rest, hmem, hcovers, rfl⟩ := hrun
      obtain ⟨w, -, hw, rfl, hseq⟩ := exists_block_of_covers hmem hcovers
      obtain ⟨hblock, hseqNum⟩ := hfits w hw
      exact ⟨hblock, hid, by rwa [hseq]⟩

theorem Regular.load
    (hb : Regular stride objectNum b)
    {saved : Nat} {entries : List (Sigma fun _ : Nat => BlockLookup)}
    (gcEnabled : Bool)
    (hsaved : saved < 2 ^ 64)
    (horder : entries.Perm b.blockLookup.entries) :
    Regular stride (raiseObjectNum saved (expandEntries stride entries))
      (parseBlockCheckpoint gcEnabled stride (expandEntries stride entries)) := by
  have hlookup := lookup_parse_expandEntries hb.sound hb.narrow horder gcEnabled
  have hmem := @mem_expandEntries_iff b.blockLookup entries stride hb.sound.wf horder
  refine ⟨parseBlockCheckpoint_sound gcEnabled stride fun rec hrec =>
    offset_lt_of_mem_expandEntries horder hrec, ?_, ?_, ?_⟩
  · intro id first
    obtain ⟨i, hi, hfree⟩ := hb.narrow id first
    refine ⟨i, hi, fun loc hloc => ?_⟩
    rw [hlookup] at hloc
    exact hfree loc hloc
  · refine raiseObjectNum_lt hsaved fun rec hrec => ?_
    obtain ⟨loc, hloc, heq⟩ := hmem.mp hrec
    have hid := (hb.bounded _ loc hloc).2.1
    have hnum := hb.objectNum_lt
    have hobject : rec.objectID = loc.objectID := by
      rw [heq]
      rfl
    omega
  · intro block loc hloc
    rw [hlookup] at hloc
    obtain ⟨hblock, -, hseq⟩ := hb.bounded block loc hloc
    have hrec : singleRecord block loc ∈ expandEntries stride entries :=
      hmem.mpr ⟨loc, hloc, rfl⟩
    exact ⟨hblock, (lt_raiseObjectNum saved _).2 _ hrec, hseq⟩

/-- Every map the engine can reach is regular. -/
theorem Reachable.regular (hb : Reachable stride objectNum b) :
    Regular stride objectNum b := by
  induction hb with
  | new gcEnabled => exact Regular.new stride gcEnabled
  | allocate _ hroom ih => exact ih.allocate hroom
  | publish blocks _ hid hnew hsorted hfits ih =>
    exact ih.publish hid hnew hsorted hfits
  | load gcEnabled _ hsaved horder ih => exact ih.load gcEnabled hsaved horder

end History

end BlocksToObject

namespace Volume

variable (cfg : Config)

/-- Load a checkpoint from its bytes; a file that is refused still clears the counts. -/
def parseCheckpointFile (v : Volume) (raw : Bytes) :
    Volume × Except CheckpointError Unit :=
  match walkBlockCheckpoint raw cfg.version blockToObjectWALMagic with
  | .error err =>
    let cleared :=
      { v.vb.blocksToObject with
        gcRefcount := v.vb.blocksToObject.gcRefcount.map fun _ => ∅ }
    ({ v with vb := { v.vb with blocksToObject := cleared } }, .error err)
  | .ok records => (v.parseCheckpoint cfg records, .ok ())

/-- The engine is as if it had loaded the map `b` into an empty memory. -/
structure Restored (b : BlocksToObject) (v : Volume) : Prop where
  wellFormed : v.vb.blocksToObject.blockLookup.WellFormed
  map : ∀ block, lookupBlockToObject cfg.blockStride v.vb.blocksToObject.blockLookup block =
      lookupBlockToObject cfg.blockStride b.blockLookup block
  store : ∀ block, v.vb.blockStore.readEntry block =
    (lookupBlockToObject cfg.blockStride b.blockLookup block).map fun loc =>
      ⟨[], loc.seqNum, loc.objectID, loc.objectOffset, .persisted⟩
  objectNum : ∀ id ∈ v.vb.blocksToObject.blockLookup.objectIDs, id < v.vb.objectNum
  refExact : v.vb.blocksToObject.RefExact

variable {cfg}

section RoundTrip

variable {objectNum : Nat} {b : BlocksToObject}
variable {entries : List (Sigma fun _ : Nat => BlockLookup)}

theorem fits_of_mem_expandEntries (hb : Regular cfg.blockStride objectNum b)
    (horder : entries.Perm b.blockLookup.entries) {rec : BlockLookup}
    (hrec : rec ∈ expandEntries cfg.blockStride entries) :
    rec.Fits ∧ rec.seqNums = [] := by
  have hoffset := offset_lt_of_mem_expandEntries horder hrec
  obtain ⟨loc, hloc, heq⟩ := (mem_expandEntries_iff _ hb.sound.wf horder).mp hrec
  obtain ⟨hblock, hid, hseq⟩ := hb.bounded _ loc hloc
  have hnum := hb.objectNum_lt
  have hcount : rec.numBlocks = 1 := by
    rw [heq]
    rfl
  have hobject : rec.objectID = loc.objectID := by
    rw [heq]
    rfl
  have hnumber : rec.seqNum = loc.seqNum := by
    rw [heq]
    rfl
  refine ⟨⟨hblock, by omega, by omega, hoffset, by omega⟩, ?_⟩
  rw [heq]
  rfl

theorem restored_parseCheckpoint (hb : Regular cfg.blockStride objectNum b)
    (horder : entries.Perm b.blockLookup.entries) {v : Volume}
    (hstore : v.vb.blockStore = new) :
    Restored cfg b (v.parseCheckpoint cfg (expandEntries cfg.blockStride entries)) := by
  have hoffset : ∀ rec ∈ expandEntries cfg.blockStride entries, rec.objectOffset < 2 ^ 32 :=
    fun rec hrec => offset_lt_of_mem_expandEntries horder hrec
  have hsound := parseBlockCheckpoint_sound v.vb.blocksToObject.gcRefcount.isSome
    cfg.blockStride hoffset
  have hlookup := lookup_parse_expandEntries hb.sound hb.narrow horder
    v.vb.blocksToObject.gcRefcount.isSome
  have hempty : new.persistedExtents.WellFormed :=
    ExtentMap.wellFormed_empty
  obtain ⟨hwf, hentries, hlocate⟩ :=
    installMap_spec cfg.blockStride hempty hsound.wf
  refine ⟨hsound.wf, hlookup, ?_, ?_, hsound.refExact⟩
  · intro block
    have hnone : new.persistedExtents.locate block = none := by
      simp [ExtentIndex.locate, ExtentMap.get, ExtentMap.find, new]
    simp only [parseCheckpoint, hstore, readEntry]
    rw [hentries, readPersisted_eq hwf, hlocate, hnone, hlookup, Option.or_none]
    rfl
  · intro id hid
    obtain ⟨rec, hrec, rfl⟩ :=
      List.mem_map.mp (mem_records_of_mem_objectIDs hoffset hid)
    exact (lt_raiseObjectNum v.vb.objectNum _).2 rec hrec

end RoundTrip

end Volume

end Viperblock
