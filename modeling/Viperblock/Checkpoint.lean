import Viperblock.BlocksToObject
import Viperblock.Lib.ConsecutiveRuns

/-!
# Saving and loading the block map

A checkpoint holds one record per physical block.  Saving expands every entry
of the map into its blocks; loading collects the records in a flat map and
coalesces it again, by block number, object and offset alone.  This module is
about the records; their byte encoding is a separate matter.

The main results are that coalescing builds a well formed map that resolves no
block to anything but its own record, and that it names the same chunk objects
as the records do.
-/

namespace Viperblock

namespace BlockMap

open BlockLookup BlocksToObject

/-- The records a checkpoint of the map holds, in map order. -/
def checkpointRecords (stride : Nat) (m : BlockMap) : List BlockLookup :=
  m.entries.flatMap fun entry => entry.2.expandBlockLookup stride

/-- Decoded records by block; a later record replaces an earlier one. -/
def flatRecords (records : List BlockLookup) : BlockMap :=
  records.foldl (fun flat rec => flat.insert rec.startBlock rec) ∅

/-- The record continues the run that ends with `prev`. -/
def adjacent (stride : Nat) (prev cand : BlockLookup) : Bool :=
  cand.startBlock == prev.startBlock + 1 &&
    cand.objectID == prev.objectID &&
      cand.objectOffset == (prev.objectOffset + stride) % 2 ^ 32

/-- The entry for a run of records. -/
def mergeRun : List BlockLookup → Option BlockLookup
  | [] => none
  | first :: rest =>
    some
      { startBlock := first.startBlock
        numBlocks := safeIntToUint16 (rest.length + 1)
        objectID := first.objectID
        objectOffset := first.objectOffset
        seqNum := first.seqNum
        seqNums := (first :: rest).map seqNum }

/-- The flat map's records in block order. -/
def sortedRecords (flat : BlockMap) : List BlockLookup :=
  FiniteMap.sortedValues flat

def insertAll (m : BlockMap) (entries : List BlockLookup) : BlockMap :=
  entries.foldl (fun out entry => out.insert entry.startBlock entry) m

def coalesceBlockLookup (flat : BlockMap) (stride : Nat) : BlockMap :=
  insertAll ∅ (((sortedRecords flat).splitBy (adjacent stride)).filterMap mergeRun)

/-- Reference counts tallied over the entries of a map. -/
def tallyRefs (m : BlockMap) : Refcount :=
  m.entries.foldl (fun rc entry => incRef entry.2.objectID rc) ∅

/-- Highest object ID of the records plus one, but never below `objectNum`. -/
def raiseObjectNum (objectNum : Nat) (records : List BlockLookup) : Nat :=
  records.foldl (fun next rec => max next (rec.objectID + 1)) objectNum

/-- The map and counts `parseBlockCheckpoint` installs. -/
def parseBlockCheckpoint (gcEnabled : Bool) (stride : Nat)
    (records : List BlockLookup) : BlocksToObject :=
  let blockLookup := coalesceBlockLookup (flatRecords records) stride
  { blockLookup := blockLookup
    gcRefcount := if gcEnabled then some (tallyRefs blockLookup) else none }

theorem objectID_mem_of_mem_checkpointRecords {stride : Nat} {m : BlockMap} {rec : BlockLookup}
    (hrec : rec ∈ checkpointRecords stride m) :
    rec.objectID ∈ m.objectIDs := by
  obtain ⟨entry, hentry, hexpand⟩ := List.mem_flatMap.mp hrec
  obtain ⟨i, -, rfl⟩ := List.mem_map.mp hexpand
  exact List.mem_map_of_mem hentry

section InsertAll

theorem insertAll_spec {m : BlockMap} (entries : List BlockLookup) (hwf : m.WellFormed)
    (hvalid : ∀ e ∈ entries, e.Valid) (hapart : entries.Pairwise BlockLookup.Apart)
    (hnew : ∀ k bl, m.lookup k = some bl → ∀ e ∈ entries, bl.Apart e) :
    (insertAll m entries).WellFormed ∧ ∀ k bl, (insertAll m entries).lookup k = some bl ↔
        m.lookup k = some bl ∨ bl ∈ entries ∧ bl.startBlock = k := by
  induction entries generalizing m with
  | nil => exact ⟨hwf, by simp [insertAll]⟩
  | cons e entries ih =>
    obtain ⟨hfirst, hrest⟩ := List.pairwise_cons.mp hapart
    have heValid := hvalid e (by simp)
    have heApart : ∀ k bl, m.lookup k = some bl → bl.Apart e :=
      fun k bl hbl => hnew k bl hbl e (by simp)
    have hcases : ∀ k bl, (m.insert e.startBlock e).lookup k = some bl ↔
        m.lookup k = some bl ∨ bl = e ∧ e.startBlock = k := by
      intro k bl
      have hfree : m.lookup e.startBlock = none := hwf.start_free heValid heApart
      by_cases hk : k = e.startBlock
      · subst hk
        rw [AList.lookup_insert, hfree]
        simp [eq_comm]
      · rw [AList.lookup_insert_ne hk]
        simp [Ne.symm hk]
    obtain ⟨hwf', hlookup⟩ := ih (m := m.insert e.startBlock e)
      (hwf.insert heValid heApart)
      (fun e' he' => hvalid e' (by simp [he'])) hrest
      (by
        intro k bl hbl e' he'
        rcases (hcases k bl).mp hbl with hold | ⟨rfl, -⟩
        · exact hnew k bl hold e' (by simp [he'])
        · exact hfirst e' he')
    refine ⟨hwf', ?_⟩
    intro k bl
    have hunfold : insertAll m (e :: entries) = insertAll (m.insert e.startBlock e) entries := rfl
    rw [hunfold, hlookup, hcases, List.mem_cons]
    constructor
    · rintro ((hold | ⟨rfl, hk⟩) | ⟨hmem, hk⟩)
      · exact .inl hold
      · exact .inr ⟨.inl rfl, hk⟩
      · exact .inr ⟨.inr hmem, hk⟩
    · rintro (hold | ⟨rfl | hmem, hk⟩)
      · exact .inl (.inl hold)
      · exact .inl (.inr ⟨rfl, hk⟩)
      · exact .inr ⟨hmem, hk⟩

end InsertAll

/-- A flat map as decoded: keyed by block, with 32-bit offsets. -/
structure Flat (flat : BlockMap) : Prop where
  keyed : ∀ {k rec}, flat.lookup k = some rec → rec.startBlock = k
  offset_lt : ∀ {k rec}, flat.lookup k = some rec → rec.objectOffset < 2 ^ 32

/-- The location a record states. -/
def recordLocation (rec : BlockLookup) : Location :=
  ⟨rec.objectID, rec.objectOffset, rec.seqNum⟩

section Coalesce

variable {flat : BlockMap} {stride : Nat}

theorem mem_sortedRecords_iff (hflat : Flat flat) {rec : BlockLookup} :
    rec ∈ sortedRecords flat ↔ flat.lookup rec.startBlock = some rec := by
  unfold sortedRecords
  rw [FiniteMap.mem_sortedValues_iff]
  constructor
  · rintro ⟨k, hk⟩
    rw [hflat.keyed hk]
    exact hk
  · intro hrec
    exact ⟨rec.startBlock, hrec⟩

theorem sortedRecords_pairwise (hflat : Flat flat) :
    (sortedRecords flat).Pairwise fun a b => a.startBlock < b.startBlock :=
  FiniteMap.sortedValues_pairwise hflat.keyed

theorem adjacent_number {a b : BlockLookup} (hadj : adjacent stride a b = true) :
    b.startBlock = a.startBlock + 1 := by
  simp only [adjacent, Bool.and_eq_true, beq_iff_eq] at hadj
  exact hadj.1.1

theorem getElem?_of_adjacent {first : BlockLookup} {rest : List BlockLookup}
    (hfirst : first.objectOffset < 2 ^ 32)
    (hchain : (first :: rest).IsChain fun a b => adjacent stride a b = true)
    {i : Nat} {x : BlockLookup} (hx : (first :: rest)[i]? = some x) :
    x.objectID = first.objectID ∧ x.objectOffset = (first.objectOffset + i * stride) % 2 ^ 32 := by
  induction rest generalizing first i with
  | nil =>
    cases i with
    | zero =>
      obtain rfl : first = x := by simpa using hx
      exact ⟨rfl, by rw [Nat.zero_mul, Nat.add_zero, Nat.mod_eq_of_lt hfirst]⟩
    | succ i => simp at hx
  | cons second rest ih =>
    rw [List.isChain_cons_cons] at hchain
    cases i with
    | zero =>
      obtain rfl : first = x := by simpa using hx
      exact ⟨rfl, by rw [Nat.zero_mul, Nat.add_zero, Nat.mod_eq_of_lt hfirst]⟩
    | succ i =>
      have hadj := hchain.1
      simp only [adjacent, Bool.and_eq_true, beq_iff_eq] at hadj
      obtain ⟨⟨-, hid⟩, hoffset⟩ := hadj
      have hsecond : second.objectOffset < 2 ^ 32 := by
        rw [hoffset]
        exact Nat.mod_lt _ (by decide)
      obtain ⟨hid', hoffset'⟩ := ih hsecond hchain.2 hx
      refine ⟨hid'.trans hid, ?_⟩
      rw [hoffset', hoffset, Nat.mod_add_mod, Nat.add_mul, Nat.one_mul,
        Nat.add_assoc, Nat.add_comm stride]

theorem getElem?_of_mem_runs (hflat : Flat flat) {first : BlockLookup} {rest : List BlockLookup}
    (hrun : first :: rest ∈ (sortedRecords flat).splitBy (adjacent stride))
    {i : Nat} {x : BlockLookup} (hx : (first :: rest)[i]? = some x) :
    x.startBlock = first.startBlock + i ∧ flat.lookup x.startBlock = some x ∧
      x.objectID = first.objectID ∧
      x.objectOffset = (first.objectOffset + i * stride) % 2 ^ 32 := by
  have hmem : ∀ y ∈ first :: rest, flat.lookup y.startBlock = some y := by
    intro y hy
    rw [← mem_sortedRecords_iff hflat]
    exact ConsecutiveRuns.exists_run_mem_iff.mp ⟨_, hrun, hy⟩
  have hstart := ConsecutiveRuns.number_of_getElem?
    (ConsecutiveRuns.isChain_of_mem_runs startBlock
      (fun _ _ => adjacent_number) hrun) hx
  have hfirst := hflat.offset_lt (hmem first (by simp))
  obtain ⟨hid, hoffset⟩ :=
    getElem?_of_adjacent hfirst (List.isChain_of_mem_splitBy hrun) hx
  exact ⟨hstart, hmem x (List.mem_of_getElem? hx), hid, hoffset⟩

theorem blockAt_mergeRun (hflat : Flat flat) {run : List BlockLookup} {bl : BlockLookup}
    (hrun : run ∈ (sortedRecords flat).splitBy (adjacent stride)) (hmerge : mergeRun run = some bl)
    {block : Nat} (hcovers : bl.Covers block) :
    ∃ rec, flat.lookup block = some rec ∧
      bl.blockAt stride (block - bl.startBlock) = recordLocation rec := by
  cases run with
  | nil => simp [mergeRun] at hmerge
  | cons first rest =>
    simp only [mergeRun, Option.some.injEq] at hmerge
    subst hmerge
    simp only [BlockLookup.Covers, endBlock, safeIntToUint16] at hcovers
    have hlt : block - first.startBlock < (first :: rest).length := by
      simp only [List.length_cons]
      omega
    have hx := List.getElem?_eq_getElem hlt
    obtain ⟨hstart, hlookup, hid, hoffset⟩ := getElem?_of_mem_runs hflat hrun hx
    have hblock : first.startBlock + (block - first.startBlock) = block := by
      omega
    rw [hblock] at hstart
    rw [hstart] at hlookup
    refine ⟨_, hlookup, ?_⟩
    have hsmall : safeIntToUint32 (block - first.startBlock) = block - first.startBlock := by
      unfold safeIntToUint32
      omega
    have hseq : ((first :: rest).map seqNum).getD
        (block - first.startBlock) first.seqNum =
          ((first :: rest)[block - first.startBlock]).seqNum := by
      rw [List.getD_eq_getElem?_getD, List.getElem?_map, hx]
      rfl
    simp only [blockAt, recordLocation, offsetAt,
      seqNumAt, hsmall, hid, hoffset, hseq]

theorem mergeRun_valid (hflat : Flat flat) {run : List BlockLookup} {bl : BlockLookup}
    (hrun : run ∈ (sortedRecords flat).splitBy (adjacent stride))
    (hmerge : mergeRun run = some bl) :
    bl.Valid := by
  cases run with
  | nil => simp [mergeRun] at hmerge
  | cons first rest =>
    simp only [mergeRun, Option.some.injEq] at hmerge
    subst hmerge
    obtain ⟨-, hlookup, -, -⟩ :=
      getElem?_of_mem_runs hflat hrun (i := 0) (x := first) rfl
    have hoffset := hflat.offset_lt hlookup
    refine ⟨?_, ?_, rfl, hoffset⟩
    · simp only [safeIntToUint16]
      omega
    · simp only [safeIntToUint16]
      omega

theorem mergeRun_apart (hflat : Flat flat) :
    (((sortedRecords flat).splitBy (adjacent stride)).filterMap mergeRun).Pairwise
      BlockLookup.Apart := by
  have hordered := ConsecutiveRuns.runs_ordered
    (r := adjacent stride) (sortedRecords_pairwise hflat)
  rw [List.pairwise_filterMap]
  refine hordered.imp_of_mem ?_
  intro run run' hrun hrun' hlt bl hbl bl' hbl'
  -- the two entries would share a record if they shared a block
  cases run with
  | nil => simp [mergeRun] at hbl
  | cons first rest =>
    cases run' with
    | nil => simp [mergeRun] at hbl'
    | cons first' rest' =>
      simp only [mergeRun, Option.some.injEq] at hbl hbl'
      subst hbl hbl'
      have hchain := ConsecutiveRuns.isChain_of_mem_runs
        startBlock (fun _ _ => adjacent_number) hrun
      obtain ⟨last, hlast, hnumber⟩ :=
        ConsecutiveRuns.exists_mem_of_number_lt hchain
          (n := first.startBlock + rest.length) (by omega) (by omega)
      have hbefore := hlt last (List.mem_of_getElem? hlast) first' (by simp)
      left
      simp only [endBlock, safeIntToUint16]
      omega

/-- The coalesced map is well formed and holds exactly the merged runs. -/
theorem coalesceBlockLookup_spec (stride : Nat) (hflat : Flat flat) :
    (coalesceBlockLookup flat stride).WellFormed ∧
      ∀ k bl, (coalesceBlockLookup flat stride).lookup k = some bl ↔
        (∃ run ∈ (sortedRecords flat).splitBy (adjacent stride),
          mergeRun run = some bl) ∧ bl.startBlock = k := by
  obtain ⟨hwf, hlookup⟩ := insertAll_spec (m := ∅)
    (((sortedRecords flat).splitBy (adjacent stride)).filterMap mergeRun)
    ExtentMap.wellFormed_empty
    (by
      intro e he
      obtain ⟨run, hrun, hmerge⟩ := List.mem_filterMap.mp he
      exact mergeRun_valid hflat hrun hmerge)
    (mergeRun_apart hflat)
    (by simp)
  refine ⟨hwf, ?_⟩
  intro k bl
  unfold coalesceBlockLookup
  rw [hlookup]
  simp [List.mem_filterMap]

/-- A coalesced map resolves a block only to the block's own record. -/
theorem lookup_coalesce_sound (hflat : Flat flat) {block : Nat} {loc : Location}
    (hloc : lookupBlockToObject stride (coalesceBlockLookup flat stride) block = some loc) :
    ∃ rec, flat.lookup block = some rec ∧ loc = recordLocation rec := by
  obtain ⟨hwf, hlookup⟩ := coalesceBlockLookup_spec stride hflat
  obtain ⟨bl, hbl, hcovers, rfl⟩ := hwf.lookup_eq_some_iff.mp hloc
  obtain ⟨⟨run, hrun, hmerge⟩, -⟩ := (hlookup _ _).mp hbl
  exact blockAt_mergeRun hflat hrun hmerge hcovers

/-- Every record that is not cut off by the 16-bit run count stays resolvable. -/
theorem lookup_coalesce_complete (hflat : Flat flat)
    (hshort : ∀ run ∈ (sortedRecords flat).splitBy (adjacent stride), run.length ≤ 65535)
    {block : Nat} {rec : BlockLookup} (hrec : flat.lookup block = some rec) :
    lookupBlockToObject stride (coalesceBlockLookup flat stride) block =
      some (recordLocation rec) := by
  obtain ⟨hwf, hlookup⟩ := coalesceBlockLookup_spec stride hflat
  have hstart := hflat.keyed hrec
  have hmem : rec ∈ sortedRecords flat := by
    rw [mem_sortedRecords_iff hflat, hstart]
    exact hrec
  obtain ⟨run, hrun, hin⟩ :=
    ConsecutiveRuns.exists_run_mem_iff (r := adjacent stride) |>.mpr hmem
  cases run with
  | nil => simp at hin
  | cons first rest =>
    obtain ⟨i, hi, hget⟩ := List.getElem_of_mem hin
    obtain ⟨hnumber, -, -, -⟩ := getElem?_of_mem_runs hflat hrun
      ((List.getElem?_eq_getElem hi).trans (congrArg some hget))
    have hlen := hshort _ hrun
    simp only [List.length_cons] at hlen hi
    have hbl : ∃ bl, mergeRun (first :: rest) = some bl ∧
        bl.startBlock = first.startBlock ∧ bl.numBlocks = rest.length + 1 := by
      refine ⟨_, rfl, rfl, ?_⟩
      simp only [safeIntToUint16]
      omega
    obtain ⟨bl, hmerge, hblStart, hblNum⟩ := hbl
    have hcovers : bl.Covers block := by
      simp only [BlockLookup.Covers, endBlock]
      omega
    obtain ⟨rec', hrec', hat⟩ := blockAt_mergeRun hflat hrun hmerge hcovers
    cases hrec.symm.trans hrec'
    rw [← hat]
    exact hwf.lookup_of_covers ((hlookup _ _).mpr ⟨⟨_, hrun, hmerge⟩, rfl⟩) hcovers

theorem mem_objectIDs_coalesce_iff (hflat : Flat flat) {id : Nat} :
    id ∈ objectIDs (coalesceBlockLookup flat stride) ↔ id ∈ objectIDs flat := by
  obtain ⟨-, hlookup⟩ := coalesceBlockLookup_spec stride hflat
  rw [mem_objectIDs_iff, mem_objectIDs_iff]
  constructor
  · rintro ⟨k, bl, hbl, rfl⟩
    obtain ⟨⟨run, hrun, hmerge⟩, -⟩ := (hlookup _ _).mp hbl
    cases run with
    | nil => simp [mergeRun] at hmerge
    | cons first rest =>
      simp only [mergeRun, Option.some.injEq] at hmerge
      subst hmerge
      obtain ⟨-, hfirst, -, -⟩ :=
        getElem?_of_mem_runs hflat hrun (i := 0) (x := first) rfl
      exact ⟨_, first, hfirst, rfl⟩
  · rintro ⟨k, rec, hrec, rfl⟩
    have hmem : rec ∈ sortedRecords flat := by
      rw [mem_sortedRecords_iff hflat, hflat.keyed hrec]
      exact hrec
    obtain ⟨run, hrun, hin⟩ :=
      ConsecutiveRuns.exists_run_mem_iff (r := adjacent stride) |>.mpr hmem
    cases run with
    | nil => simp at hin
    | cons first rest =>
      obtain ⟨i, hi, hget⟩ := List.getElem_of_mem hin
      obtain ⟨-, -, hid, -⟩ := getElem?_of_mem_runs hflat hrun
        ((List.getElem?_eq_getElem hi).trans (congrArg some hget))
      exact ⟨_, _, (hlookup _ _).mpr ⟨⟨_, hrun, rfl⟩, rfl⟩, hid.symm⟩

end Coalesce

section Parse

theorem lookup_flatRecords (records : List BlockLookup) (k : Nat) :
    (flatRecords records).lookup k = (records.filter fun rec => rec.startBlock == k).getLast? := by
  induction records using List.reverseRecOn with
  | nil => rfl
  | append_singleton records rec ih =>
    unfold flatRecords at ih ⊢
    rw [List.foldl_append, List.foldl_cons, List.foldl_nil, List.filter_append]
    by_cases hk : k = rec.startBlock
    · subst hk
      rw [AList.lookup_insert]
      simp
    · rw [AList.lookup_insert_ne hk, ih]
      simp [Ne.symm hk]

section

variable {records : List BlockLookup}

theorem mem_of_lookup_flatRecords {k : Nat} {rec : BlockLookup}
    (hrec : (flatRecords records).lookup k = some rec) :
    rec ∈ records ∧ rec.startBlock = k := by
  rw [lookup_flatRecords] at hrec
  simpa using List.mem_of_getLast? hrec

theorem exists_lookup_flatRecords {rec : BlockLookup} (hrec : rec ∈ records) :
    ∃ last, (flatRecords records).lookup rec.startBlock = some last := by
  rw [lookup_flatRecords]
  have hmem : rec ∈ records.filter fun r => r.startBlock == rec.startBlock :=
    List.mem_filter.mpr ⟨hrec, beq_self_eq_true _⟩
  exact ⟨_, List.getLast?_eq_some_getLast (List.ne_nil_of_mem hmem)⟩

theorem flat_flatRecords (hoffset : ∀ rec ∈ records, rec.objectOffset < 2 ^ 32) :
    Flat (flatRecords records) :=
  ⟨fun hrec => (mem_of_lookup_flatRecords hrec).2,
    fun hrec => hoffset _ (mem_of_lookup_flatRecords hrec).1⟩

theorem getD_foldl_incRef
    (entries : List (Sigma fun _ : Nat => BlockLookup)) (rc : Refcount) (id : Nat) :
    ((entries.foldl (fun rc entry => incRef entry.2.objectID rc) rc).lookup
        id).getD 0 =
      (rc.lookup id).getD 0 + entries.countP fun entry => entry.2.objectID == id := by
  induction entries generalizing rc with
  | nil => simp
  | cons entry entries ih =>
    rw [List.foldl_cons, ih, getD_lookup_incRef, List.countP_cons]
    simp only [beq_iff_eq]
    omega

/-- A parsed checkpoint is a sound map with exact reference counts. -/
theorem parseBlockCheckpoint_sound (gcEnabled : Bool) (stride : Nat)
    (hoffset : ∀ rec ∈ records, rec.objectOffset < 2 ^ 32) :
    (parseBlockCheckpoint gcEnabled stride records).Sound := by
  refine ⟨(coalesceBlockLookup_spec _ (flat_flatRecords hoffset)).1, ?_⟩
  intro rc hrc id
  cases gcEnabled with
  | false => simp [parseBlockCheckpoint] at hrc
  | true =>
    obtain rfl : tallyRefs (coalesceBlockLookup (flatRecords records) stride) = rc :=
      Option.some.inj hrc
    have htally := getD_foldl_incRef
      (coalesceBlockLookup (flatRecords records) stride).entries ∅ id
    simpa [FiniteMap.countValues, parseBlockCheckpoint, tallyRefs] using htally

theorem mem_records_of_mem_objectIDs {gcEnabled : Bool} {stride : Nat}
    (hoffset : ∀ rec ∈ records, rec.objectOffset < 2 ^ 32) {id : Nat}
    (hid : id ∈ objectIDs (parseBlockCheckpoint gcEnabled stride records).blockLookup) :
    id ∈ records.map objectID := by
  have hflat := flat_flatRecords hoffset
  have hid' := (mem_objectIDs_coalesce_iff hflat).mp hid
  obtain ⟨k, rec, hrec, rfl⟩ := mem_objectIDs_iff.mp hid'
  exact List.mem_map_of_mem (mem_of_lookup_flatRecords hrec).1

end

theorem lt_raiseObjectNum (objectNum : Nat) (records : List BlockLookup) :
    objectNum ≤ raiseObjectNum objectNum records ∧
      ∀ rec ∈ records, rec.objectID < raiseObjectNum objectNum records := by
  unfold raiseObjectNum
  induction records generalizing objectNum with
  | nil => simp
  | cons r records ih =>
    obtain ⟨hle, hall⟩ := ih (max objectNum (r.objectID + 1))
    refine ⟨by simp only [List.foldl_cons]; omega, ?_⟩
    intro rec hrec
    rcases List.mem_cons.mp hrec with rfl | hmem
    · simp only [List.foldl_cons]
      omega
    · exact hall rec hmem

end Parse

section RoundTrip

variable {stride : Nat} {m : BlockMap}

theorem lookup_of_mem_checkpointRecords (hwf : m.WellFormed) {rec : BlockLookup}
    (hrec : rec ∈ checkpointRecords stride m) :
    lookupBlockToObject stride m rec.startBlock = some (recordLocation rec) := by
  unfold checkpointRecords at hrec
  obtain ⟨⟨k, bl⟩, hentry, hexpand⟩ := List.mem_flatMap.mp hrec
  unfold expandBlockLookup at hexpand
  obtain ⟨i, hi, rfl⟩ := List.mem_map.mp hexpand
  have hlt : i < bl.numBlocks := List.mem_range.mp hi
  have hcovers : bl.Covers (bl.startBlock + i) := by
    simp only [BlockLookup.Covers, endBlock]
    omega
  rw [hwf.lookup_of_covers (FiniteMap.mem_entries_iff.mp hentry) hcovers, Nat.add_sub_cancel_left]
  rfl

theorem exists_mem_checkpointRecords (hwf : m.WellFormed) {block : Nat} {loc : Location}
    (hloc : lookupBlockToObject stride m block = some loc) :
    ∃ rec ∈ checkpointRecords stride m, rec.startBlock = block := by
  obtain ⟨bl, hbl, ⟨hlow, hhigh⟩, -⟩ := hwf.lookup_eq_some_iff.mp hloc
  simp only [endBlock] at hhigh
  have hlt : block - bl.startBlock < bl.numBlocks := by
    omega
  unfold checkpointRecords expandBlockLookup
  refine ⟨_, List.mem_flatMap.mpr ⟨⟨_, bl⟩, FiniteMap.mem_entries_iff.mpr hbl,
    List.mem_map.mpr ⟨block - bl.startBlock, List.mem_range.mpr hlt, rfl⟩⟩, ?_⟩
  dsimp only
  omega

theorem offset_lt_of_mem_checkpointRecords {rec : BlockLookup}
    (hrec : rec ∈ checkpointRecords stride m) :
    rec.objectOffset < 2 ^ 32 := by
  obtain ⟨entry, -, hexpand⟩ := List.mem_flatMap.mp hrec
  unfold expandBlockLookup at hexpand
  obtain ⟨i, -, rfl⟩ := List.mem_map.mp hexpand
  exact offsetAt_lt _ _ _

/-- The saved records resolve every block as the map does. -/
theorem lookup_checkpointRecords (hwf : m.WellFormed) (block : Nat) :
    ((flatRecords (checkpointRecords stride m)).lookup block).map recordLocation =
      lookupBlockToObject stride m block := by
  cases hflat : (flatRecords (checkpointRecords stride m)).lookup block with
  | some rec =>
    obtain ⟨hmem, rfl⟩ := mem_of_lookup_flatRecords hflat
    rw [lookup_of_mem_checkpointRecords hwf hmem]
    rfl
  | none =>
    cases hloc : lookupBlockToObject stride m block with
    | none => rfl
    | some loc =>
      obtain ⟨rec, hmem, rfl⟩ := exists_mem_checkpointRecords hwf hloc
      obtain ⟨last, hlast⟩ := exists_lookup_flatRecords hmem
      rw [hflat] at hlast
      cases hlast

end RoundTrip

end BlockMap

end Viperblock
