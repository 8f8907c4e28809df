import Viperblock.EngineRuns
import Viperblock.RecoveryRetry
import Viperblock.ReopenSafety

/-!
# The two block indexes agree

`BlocksToObject` and the persisted extents of the block store are two indexes of the
same chunks, cut and joined in different ways, and an upload updates them one after
the other.  Where the block store finds a block persisted, both give it the same
location, and a block the store does not know is not in the map either, provided no
write is between its append and its publication.

The map gives a run one entry, whose length is a 16-bit number, while the extents of
a longer run are split.  So the condition is that a run has at most 65535 blocks.
-/

namespace Viperblock

namespace Engine

open BlockMap BlocksToObject GuardedRun UnifiedBlockStore Volume
open ReopenSystem (Disks OpenRun openVolume Saved)

/-- What an open leaves in memory: nothing but the two indexes, which agree. -/
structure Opened (cfg : Config) (v : Volume) : Prop where
  sound : v.vb.blocksToObject.Sound
  entries : v.vb.blockStore.entries = ∅
  extents : v.vb.blockStore.persistedExtents.WellFormed
  locate : ∀ block, v.vb.blockStore.persistedExtents.locate block =
    lookupBlockToObject cfg.blockStride v.vb.blocksToObject.blockLookup block

section Opens

variable {cfg : Config} {v v' : Volume}

theorem Opened.of_sameBlocks (h : Opened cfg v) (hsame : SameBlocks v v') :
    Opened cfg v' := by
  refine ⟨?_, ?_, ?_, ?_⟩
  · rw [hsame.blocksToObject]
    exact h.sound
  · rw [hsame.blockStore]
    exact h.entries
  · rw [hsame.blockStore]
    exact h.extents
  · rw [hsame.blockStore, hsame.blocksToObject]
    exact h.locate

theorem opened_syncRecovered {records : List BlockLookup} {maxSeqNum : Nat}
    (hv : Loaded cfg records v) (hmap : v'.vb.blocksToObject = v.replayedMap cfg)
    (hstore : v'.vb.blockStore = v.vb.blockStore) :
    Opened cfg (v'.syncRecovered cfg maxSeqNum) := by
  have hsound := hv.replayedMap_spec.1
  obtain ⟨hwf, hentries, hlocate⟩ :=
    installMap_spec cfg.blockStride hv.extents hsound.wf
  have hinstalled : (v'.syncRecovered cfg maxSeqNum).vb.blockStore =
      v.vb.blockStore.installMap cfg.blockStride (v.replayedMap cfg).blockLookup := by
    rw [← hmap, ← hstore]
    rfl
  have hmap' : (v'.syncRecovered cfg maxSeqNum).vb.blocksToObject = v.replayedMap cfg := hmap
  refine ⟨?_, ?_, ?_, fun block => ?_⟩
  · rw [hmap']
    exact hsound
  · rw [hinstalled, hentries, hv.entries]
  · rw [hinstalled]
    exact hwf
  · rw [hinstalled, hmap', hlocate, hv.locate, hv.or_lookup_loaded]

theorem opened_saveRecovered
    {out : RecoverOutcomes} {names : List String} {res : Except RecoverError Unit}
    (h : Opened cfg v) (hsave : v.saveRecovered cfg out names = (v', res)) :
    Opened cfg v' := by
  unfold Volume.saveRecovered at hsave
  have hstate := (saveState_spec cfg v out.stateDisk out.stateBackend).1
  split at hsave
  · rename_i saved hsaved
    rw [hsaved] at hstate
    cases hsave
    exact h.of_sameBlocks hstate
  · rename_i saved hsaved
    rw [hsaved] at hstate
    have hblock := (saveBlockState_spec cfg saved out.blockStateDisk
      out.blockStateBackend).1
    split at hsave
    · rename_i numbered hnumbered
      rw [hnumbered] at hblock
      cases hsave
      exact (h.of_sameBlocks hstate).of_sameBlocks hblock
    · rename_i numbered hnumbered
      rw [hnumbered] at hblock
      have hopened := (h.of_sameBlocks hstate).of_sameBlocks hblock
      cases hsave
      unfold Volume.saveLiveCheckpoint
      split <;> exact { hopened with }

theorem opened_recoverLocalWALs {records : List BlockLookup} {out : RecoverOutcomes}
    (hv : Loaded cfg records v) (hrecover : v.recoverLocalWALs cfg out = (v', .ok ())) :
    Opened cfg v' := by
  unfold Volume.recoverLocalWALs at hrecover
  cases hread : readLocalWALs cfg (sortedFiles v.files.walFiles) with
  | error err => simp [hread] at hrecover
  | ok read =>
    have hblocks := Volume.allBlocks_eq_walRecords hread
    simp only [hread, hblocks] at hrecover
    split at hrecover
    · cases hrecover
      exact { hv with }
    · split at hrecover
      · simp at hrecover
      · rename_i replayed hcreate
        refine opened_saveRecovered (opened_syncRecovered hv ?_ ?_) hrecover
        all_goals
          obtain ⟨-, hallOk⟩ := RecoveryRetry.createChunks_of_true hcreate
          rw [createChunks_ok cfg (fun _ => rfl) _ 0 v.reconcileObjectNum hv.entries]
            at hallOk
          rw [← (Prod.mk.inj hallOk).1]
          rfl

theorem loaded_loadCheckpoints {gcEnabled : Bool}
    (hmap : v.vb.blocksToObject = (VB.new gcEnabled).blocksToObject)
    (hfresh : v.vb.blockStore = new)
    (hoffset : ∀ records, (v.backend.live = some records ∨ (∃ k, v.files.numbered.lookup k = some
      records) ∨ ∃ k, v.backend.numbered.lookup k = some records) → ∀ rec ∈ records,
      rec.objectOffset < 2 ^ 32) :
    ∃ records, Loaded cfg records (v.loadLiveCheckpoint cfg) := by
  unfold Volume.loadLiveCheckpoint
  split
  · rename_i records hlive
    exact ⟨records, loaded_parseCheckpoint hfresh (hoffset records (.inl hlive))⟩
  · unfold Volume.loadBlockState
    split
    · rename_i records hlocal
      exact ⟨records, loaded_parseCheckpoint hfresh (hoffset records (.inr (.inl ⟨_, hlocal⟩)))⟩
    · split
      · rename_i records hbackend
        exact ⟨records, loaded_parseCheckpoint hfresh (hoffset records (.inr (.inr ⟨_, hbackend⟩)))⟩
      · exact ⟨[], loaded_new cfg hmap hfresh⟩

/-- Right after an open the two indexes agree. -/
theorem opened_openVolume {d : Disks} {n : Nat} {run : OpenRun}
    (hoffset : ∀ records, Saved d records → ∀ rec ∈ records, rec.objectOffset < 2 ^ 32)
    (hopen : openVolume cfg d n run = (v, true)) :
    Opened cfg v := by
  unfold openVolume at hopen
  cases hstate : (d.volume n (VB.new run.gcEnabled)).loadState cfg run.readable
      run.bumpDisk run.bumpBackend with
  | mk loaded ok =>
    rw [hstate] at hopen
    obtain ⟨⟨hlocal, -, hlive, hnumbered⟩, hmap, hstore⟩ := RecoveryRetry.loadState_fresh hstate
    cases ok with
    | false => simp at hopen
    | true =>
      have hloads : ∃ records, Loaded cfg records (loaded.loadLiveCheckpoint cfg) := by
        refine loaded_loadCheckpoints hmap hstore fun records hrecords => ?_
        rw [hlocal, hlive, hnumbered] at hrecords
        refine hoffset records ?_
        rcases hrecords with h | h | h
        · exact .inl (.inl h)
        · exact .inr ⟨n, h⟩
        · exact .inl (.inr h)
      obtain ⟨records, hloaded⟩ := hloads
      dsimp only at hopen
      split at hopen
      · rename_i recovered hrecover
        cases hopen
        exact opened_recoverLocalWALs hloaded hrecover
      · simp at hopen

end Opens

/-- Where the block map has a block. -/
def mapped (env : Env) (s : State) (block : Nat) : Option Location :=
  lookupBlockToObject env.cfg.blockStride s.volume.vb.blocksToObject.blockLookup block

/-- Where the extents of the block store have it. -/
def located (s : State) (block : Nat) : Option Location :=
  s.store.persistedExtents.locate block

/-- What the block map and the extents say of the blocks a run is to move. -/
def MarkingAgrees (env : Env) (s : State) (chunkIndex : Nat) : Marking → Prop
  | .predicting offset todo eligible =>
    (eligible ++ todo).Pairwise (fun a b => a.block < b.block) ∧ ∀ item ∈ eligible ++ todo,
        mapped env s item.block = some (item.location chunkIndex offset env.cfg.blockStride)
  | .dropping todo => ∀ item ∈ todo, located s item.block = mapped env s item.block

/-- The indexes agree but for blocks that are in memory or about to be. -/
structure Agreeing (env : Env) (s : State) : Prop where
  sound : s.volume.vb.blocksToObject.Sound
  extents : s.store.persistedExtents.WellFormed
  agree : ∀ block, s.store.entries.lookup block = none →
    (∀ seqNum, ¬ s.Appended (block, seqNum)) → located s block = mapped env s block
  marking : ∀ m marking, s.mapInsert = some m → m.marking = some marking →
    MarkingAgrees env s m.chunkIndex marking

/-- The run that is entered next has as many blocks as an entry can count. -/
def countsRun : State → Act → Bool
  | s, .insertRun =>
    s.mapInsert.all fun m => m.runs.head?.all fun run => decide (run.2.length ≤ 65535)
  | _, _ => true

section Agreement

variable {env : Env} {s t : State} {id : Nat}

section

variable (h : Agreeing env s)

include h

theorem Agreeing.of_same (hstore : t.store = s.store)
    (hmap : t.volume.vb.blocksToObject = s.volume.vb.blocksToObject)
    (happended : ∀ v, s.Appended v → t.Appended v)
    (hmarking : ∀ m, t.mapInsert = some m → m.marking = none ∨ s.mapInsert = some m) :
    Agreeing env t := by
  have hlocated : ∀ block, located t block = located s block := fun block => by
    simp only [located, hstore]
  have hmapped : ∀ block, mapped env t block = mapped env s block := fun block => by
    simp only [mapped, hmap]
  refine ⟨?_, ?_, ?_, ?_⟩
  · rw [hmap]
    exact h.sound
  · rw [hstore]
    exact h.extents
  · intro block hnone hclear
    rw [hlocated, hmapped]
    rw [hstore] at hnone
    exact h.agree block hnone fun seqNum hv => hclear seqNum (happended _ hv)
  · intro m marking hm hmark
    rcases hmarking m hm with hnone | hold
    · rw [hnone] at hmark
      cases hmark
    · have hat := h.marking m marking hold hmark
      cases marking with
      | predicting offset todo eligible =>
        exact ⟨hat.1, fun item hitem => (hmapped item.block).trans (hat.2 item hitem)⟩
      | dropping todo =>
        intro item hitem
        rw [hlocated, hmapped]
        exact hat item hitem

theorem Agreeing.of_idle (hidle : Idle s t) :
    Agreeing env t := by
  refine h.of_same hidle.store hidle.blocksToObject ?_ ?_
  · rintro v ⟨id, p, todo, blk, n, hw, hblk⟩
    exact ⟨id, p, todo, blk, n, hidle.appended id p todo blk n hw, hblk⟩
  · intro m hm
    rw [hidle.mapInsert] at hm
    exact .inr hm

theorem Agreeing.of_carries (hcarries : Carries s t) :
    Agreeing env t := by
  refine h.of_same hcarries.store hcarries.blocksToObject ?_ hcarries.marking
  unfold State.Appended
  rw [hcarries.writers]
  exact fun _ hv => hv

theorem Agreeing.append :
    s.append env id = some t → Agreeing env t := by
  fun_cases State.append <;> rintro ⟨⟩
  rename_i p todo data seqNum published hw hflush
  refine h.of_same rfl rfl ?_ fun m hm => .inr hm
  rintro v ⟨id', p', todo', blk, n, hw', hblk⟩
  have hne : id' ≠ id := by
    rintro rfl
    rw [hw] at hw'
    cases hw'
  exact ⟨id', p', todo', blk, n, (AList.lookup_insert_ne hne).trans hw', hblk⟩

theorem Agreeing.publish (hbasic : Basic env s) :
    s.publish id = some t → Agreeing env t := by
  fun_cases State.publish <;> rintro ⟨⟩
  rename_i p todo blk published hw _
  obtain ⟨hblock, hnew, hlookup⟩ := hbasic.published hw
  refine ⟨h.sound, h.extents, fun block hnone hclear => ?_, h.marking⟩
  have hnone' : (s.store.writeWithSeqNum blk.block blk.data blk.seqNum).entries.lookup
      block = none := hnone
  rw [hlookup] at hnone'
  split at hnone'
  · cases hnone'
  · rename_i hother
    refine h.agree block hnone' fun seqNum => ?_
    rintro ⟨id', p', todo', blk', n, hw', hblk'⟩
    have hne : id' ≠ id := by
      rintro rfl
      rw [hw] at hw'
      cases hw'
      exact hother (congrArg Prod.fst hblk').symm
    exact hclear seqNum
      ⟨id', p', todo', blk', n, (AList.lookup_insert_ne hne).trans hw', hblk'⟩

theorem Agreeing.beginFlush {draining : Bool} (hstep : s.beginFlush draining = some t) :
    Agreeing env t := by
  obtain ⟨-, drain, rfl, -⟩ := beginFlush_eq hstep
  exact h.of_same rfl rfl (fun _ hv => hv) fun _ hm => .inr hm

theorem Agreeing.appendWAL {ok : Bool} (hstep : s.appendWAL ok = some t) :
    Agreeing env t := by
  unfold State.appendWAL at hstep
  split at hstep
  · split at hstep <;>
      (cases hstep
       exact h.of_same rfl rfl (fun _ hv => hv) fun _ hm => .inr hm)
  · simp at hstep

theorem Agreeing.markPending :
    s.markPending = some t → Agreeing env t := by
  fun_cases State.markPending <;> rintro ⟨⟩
  rename_i b hlast
  have hextents : (s.store.markPending b.block).persistedExtents = s.store.persistedExtents :=
    persistedExtents_markPending _ _
  have hlocated : ∀ block, (s.store.markPending b.block).persistedExtents.locate block =
        s.store.persistedExtents.locate block := fun block => by rw [hextents]
  refine ⟨h.sound, ?_, ?_, ?_⟩
  · exact hextents.symm ▸ h.extents
  · intro block hnone hclear
    refine (hlocated block).trans (h.agree block ?_ hclear)
    cases hentry : s.store.entries.lookup block with
    | none => rfl
    | some e =>
      have hkept : ∃ e', (s.store.markPending b.block).entries.lookup block = some e' ∧
          e'.seqNum = e.seqNum := lookup_markPending_of_some hentry
      obtain ⟨e', he', -⟩ := hkept
      rw [show (s.store.markPending b.block).entries.lookup block = none from hnone]
        at he'
      cases he'
  · intro m marking hm hmark
    have hat := h.marking m marking hm hmark
    cases marking with
    | predicting offset todo eligible => exact hat
    | dropping todo =>
      exact fun item hitem => (hlocated item.block).trans (hat item hitem)

theorem Agreeing.endFlush :
    s.endFlush = some t → Agreeing env t := by
  fun_cases State.endFlush <;> rintro ⟨⟩
  exact h.of_same rfl rfl (fun _ hv => hv) fun _ hm => .inr hm

theorem Agreeing.rotate {batch : Nat} {draining opened : Bool} {next : ReopenSystem.Segment}
    (hbasic : Basic env s) (hstep : s.rotate env batch draining opened next = some t) :
    Agreeing env t := by
  obtain ⟨jobs, hrotates, -⟩ := hbasic.rotates hstep
  refine h.of_same (congrArg VB.blockStore hrotates.vb)
    (congrArg VB.blocksToObject hrotates.vb) ?_ ?_
  · unfold State.Appended
    rw [hrotates.writers]
    exact fun _ hv => hv
  · rw [hrotates.mapInsert]
    exact fun _ hm => .inr hm

end

theorem lookup_publishRun_item {b : BlocksToObject} {chunkIndex runStart : Nat} {first : Block}
    {rest : List Block} {item : RangeItem} (hb : b.Sound)
    (hchain : (first :: rest).IsChain fun x y => y.block = x.block + 1)
    (hlength : (first :: rest).length ≤ 65535)
    (hfresh : staleDrain b.blockLookup (newBlock env.cfg.blockStride chunkIndex runStart first rest)
      = false) (hitem : item ∈ State.runItems first rest) :
    lookupBlockToObject env.cfg.blockStride
        (b.publishRun env.cfg.blockStride chunkIndex (runStart, first :: rest)).blockLookup
        item.block =
      some (item.location chunkIndex
        (newBlock env.cfg.blockStride chunkIndex runStart first rest).objectOffset
        env.cfg.blockStride) := by
  obtain ⟨w, hw, hblock, hseqNum⟩ := exists_of_mem_runItems hitem
  have hnumber := ConsecutiveRuns.number_of_getElem? hchain hw
  have hlt := (List.getElem?_eq_some_iff.mp hw).1
  have hsame : item.block = w.block := by
    omega
  have hcovers : (newBlock env.cfg.blockStride chunkIndex runStart first rest).Covers
      w.block :=
    (newBlock_covers_iff chunkIndex runStart hchain hw).mpr (by omega)
  have hat : (newBlock env.cfg.blockStride chunkIndex runStart first rest).blockAt
      env.cfg.blockStride (w.block - first.block) =
        PlacedRun.location env.cfg.blockStride ⟨chunkIndex, runStart, first :: rest⟩
          item.pos w :=
    newBlock_blockAt (r := ⟨chunkIndex, runStart, first :: rest⟩) hchain (by omega) hw
  rw [lookup_publishRun hb, hsame, if_pos ⟨hfresh, hcovers⟩, hat]
  simp only [PlacedRun.location, RangeItem.location, newBlock, hseqNum]

theorem lookup_publishRun_other {b : BlocksToObject} {chunkIndex runStart block : Nat}
    {blocks : List Block} (hb : b.Sound) (hchain : blocks.IsChain fun x y => y.block = x.block + 1)
    (hother : ∀ w ∈ blocks, w.block ≠ block) :
    lookupBlockToObject env.cfg.blockStride
        (b.publishRun env.cfg.blockStride chunkIndex (runStart, blocks)).blockLookup block =
      lookupBlockToObject env.cfg.blockStride b.blockLookup block := by
  cases blocks with
  | nil => rfl
  | cons first rest =>
    rw [lookup_publishRun hb, if_neg]
    rintro ⟨-, hcovers⟩
    obtain ⟨w, hw, hblock⟩ := exists_mem_of_newBlock_covers hchain hcovers
    exact hother w hw hblock

/-- Entering a run changes the map on blocks that are in memory or about to be. -/
theorem Agreeing.insertRun (h : Agreeing env s) (hserial : Serial s)
    (hcounts : countsRun s .insertRun = true) (hstep : s.insertRun env = some t) :
    Agreeing env t := by
  unfold State.insertRun at hstep
  split at hstep
  swap
  · simp at hstep
  rename_i batch chunkIndex runStart blocks runs hmap
  have hchain : blocks.IsChain fun x y => y.block = x.block + 1 :=
    hserial.chained _ hmap (runStart, blocks) (by simp)
  have hlength : blocks.length ≤ 65535 := by
    simpa [countsRun, hmap] using hcounts
  have hpacked : ∀ w ∈ blocks, w.version ∈ s.packed := by
    intro w hw
    refine List.mem_append_right _ ?_
    rw [hmap]
    refine List.mem_append_right _ (List.mem_map_of_mem ?_)
    exact List.mem_flatMap.mpr ⟨(runStart, blocks), by simp, hw⟩
  have hsound := h.sound.publishRun env.cfg.blockStride chunkIndex (runStart, blocks)
  have hagree : ∀ block, s.store.entries.lookup block = none →
      (∀ seqNum, ¬ s.Appended (block, seqNum)) →
      located s block = lookupBlockToObject env.cfg.blockStride
        (s.volume.vb.blocksToObject.publishRun env.cfg.blockStride chunkIndex
          (runStart, blocks)).blockLookup block := by
    intro block hnone hclear
    rw [lookup_publishRun_other h.sound hchain]
    · exact h.agree block hnone hclear
    · -- the block store knows of every block of the run
      rintro w hw rfl
      rcases hserial.covered w.version (List.mem_append_left _ (hpacked w hw)) with
        ⟨e, he, -⟩ | happended
      · rw [show s.store.entries.lookup w.block = some e from he] at hnone
        cases hnone
      · exact hclear w.seqNum happended
  dsimp only at hstep
  split at hstep
  · cases hstep
    exact ⟨hsound, h.extents, hagree, by rintro _ _ ⟨⟩ ⟨⟩⟩
  · rename_i first rest
    cases hstep
    refine ⟨hsound, h.extents, hagree, ?_⟩
    intro m marking hm hmark
    cases hm
    dsimp only at hmark
    split at hmark
    · cases hmark
    · rename_i hfresh
      cases hmark
      refine ⟨pairwise_runItems first rest, fun item hitem => ?_⟩
      exact lookup_publishRun_item h.sound hchain hlength (by simpa using hfresh) hitem

theorem Agreeing.mark (h : Agreeing env s) (hstep : s.mark env = some t) :
    Agreeing env t := by
  revert hstep
  fun_cases State.mark <;> intro hstep <;> cases hstep
  · rename_i batch chunkIndex runs offset item todo eligible hmap _
    obtain ⟨hsorted, hlocations⟩ := h.marking _ _ hmap rfl
    have hsub : ((if s.store.eligible item then eligible ++ [item] else eligible) ++
        todo).Sublist (eligible ++ item :: todo) := by
      split
      · simp
      · exact (List.sublist_cons_self _ _).append_left _
    refine ⟨h.sound, h.extents, h.agree, ?_⟩
    rintro _ _ ⟨⟩ ⟨⟩
    exact ⟨hsorted.sublist hsub, fun item' hitem => hlocations item' (hsub.subset hitem)⟩
  · rename_i batch chunkIndex runs offset eligible hmap _
    obtain ⟨hsorted, hlocations⟩ := h.marking _ _ hmap rfl
    rw [List.append_nil] at hsorted hlocations
    obtain ⟨hwf, hinside, houtside⟩ :=
      installRuns_spec chunkIndex offset env.cfg.blockStride h.extents hsorted
    refine ⟨h.sound, hwf, ?_, ?_⟩
    · intro block hnone hclear
      by_cases hmoved : ∃ item ∈ eligible, item.block = block
      · obtain ⟨item, hitem, rfl⟩ := hmoved
        exact (hinside item hitem).trans (hlocations item hitem).symm
      · refine (houtside block fun item hitem hblock => hmoved ⟨item, hitem, hblock⟩).trans ?_
        exact h.agree block hnone hclear
    · rintro _ _ ⟨⟩ ⟨⟩
      exact fun item hitem => (hinside item hitem).trans (hlocations item hitem).symm
  · rename_i batch chunkIndex runs item todo hmap
    have hdropping := h.marking _ _ hmap rfl
    have hextents := persistedExtents_dropPersisted s.store item
    refine ⟨h.sound, hextents.symm ▸ h.extents, ?_, ?_⟩
    · intro block hnone hclear
      have hnone' : (s.store.dropPersisted item).entries.lookup block = none := hnone
      rw [lookup_dropPersisted] at hnone'
      refine (locate_dropPersisted block).trans ?_
      split at hnone'
      · rename_i hdropped
        rw [hdropped.1]
        exact hdropping item (by simp)
      · exact h.agree block hnone' hclear
    · rintro _ _ ⟨⟩ ⟨⟩
      exact fun item' hitem =>
        (locate_dropPersisted item'.block).trans (hdropping item' (List.mem_cons_of_mem _ hitem))
  · exact ⟨h.sound, h.extents, h.agree, by rintro _ _ ⟨⟩ ⟨⟩⟩

theorem Agreeing.step {act : Act} (h : Agreeing env s) (hbasic : Basic env s) (hserial : Serial s)
    (hcounts : countsRun s act = true) (hstep : Engine.step env s act = some t) :
    Agreeing env t := by
  cases act with
  | beginWrite _ _ _ _ | lock _ | rmw _ _ | splice _ | reserve _ _ _ | endWrite _ =>
    exact h.of_idle (idle_step hbasic.memory rfl hstep).1
  | append id => exact h.append hstep
  | publish id => exact h.publish hbasic hstep
  | beginRead _ _ _ | read _ _ | endRead _ | beginDrain | endBatch _ _ | serialiseLive
  | putLive _ _ | saveState _ _ =>
    exact h.of_idle (rests_step hbasic.memory rfl hstep).toIdle
  | beginFlush draining => exact h.beginFlush hstep
  | appendWAL ok => exact h.appendWAL hstep
  | markPending => exact h.markPending hstep
  | endFlush => exact h.endFlush hstep
  | rotate batch draining opened next => exact h.rotate hbasic hstep
  | allocate _ | put _ _ | skip _ | evict _ | lockMap _ | unlockMap =>
    exact h.of_carries (carries_step rfl hstep)
  | insertRun => exact h.insertRun hserial hcounts hstep
  | mark => exact h.mark hstep

end Agreement

section Runs

variable {env : Env} {v : Volume} {s t : State}

theorem basic_opened (hentries : v.vb.blockStore.entries = ∅) (wal : ReopenSystem.Segment) :
    Basic env (State.opened v wal) := by
  have hnone : ∀ block e, (State.opened v wal).store.entries.lookup block ≠ some e := by
    intro block e he
    have he' : v.vb.blockStore.entries.lookup block = some e := he
    rw [hentries] at he'
    simp at he'
  have hwriters : ∀ id w, (State.opened v wal).writers.lookup id ≠ some w := by
    intro id w hw
    simp [State.opened] at hw
  refine ⟨by simp [State.opened], fun block e he => absurd he (hnone block e), ?_,
    fun block e he => absurd he (hnone block e), fun id _ w _ _ hw => absurd hw (hwriters id w),
    fun id w hw => absurd hw (hwriters id w), fun id _ _ _ hw => absurd hw (hwriters id _),
    fun id _ _ _ _ _ hw => absurd hw (hwriters id _),
    fun id _ _ _ _ hw => absurd hw (hwriters id _)⟩
  simp [State.opened, State.older, State.newer, State.unflushed]

theorem serial_opened (v : Volume) (wal : ReopenSystem.Segment) :
    Serial (State.opened v wal) := by
  refine ⟨by simp [State.ChainedRuns, State.opened], by simp [State.opened], .inr ⟨rfl, rfl⟩,
    ?_, ?_, ?_, ?_⟩
  all_goals simp [State.opened, State.newer, State.unflushed, State.packed]

theorem agreeing_opened (hopened : Opened env.cfg v) (wal : ReopenSystem.Segment) :
    Agreeing env (State.opened v wal) :=
  ⟨hopened.sound, hopened.extents, fun block _ _ => hopened.locate block, by simp [State.opened]⟩

/-- Some `WriteAt` is between its append and its publication. -/
def publishing (s : State) : Bool :=
  s.writers.entries.any fun entry =>
    match entry.2.phase with
    | .appended _ => true
    | _ => false

/-- What the block store resolves as persisted is where the block map has it, and what
it does not know the map does not have. -/
def IndexesAgree (env : Env) (s : State) : Prop :=
  ∀ block, (∀ entry, s.store.readEntry block = some entry → entry.state = .persisted →
      mapped env s block = some ⟨entry.objectID, entry.objectOffset, entry.seqNum⟩) ∧
    (s.store.readEntry block = none → mapped env s block = none)

theorem not_appended_of_publishing (hquiet : publishing s = false) :
    ∀ v, ¬ s.Appended v := by
  rintro v ⟨id, p, todo, blk, n, hw, -⟩
  have hall := List.any_eq_false.mp hquiet ⟨id, ⟨p :: todo, .appended blk, n⟩⟩
    (FiniteMap.mem_entries_iff.mpr hw)
  simp at hall

theorem Agreeing.indexesAgree (h : Agreeing env s) (hbasic : Basic env s)
    (hquiet : publishing s = false) :
    IndexesAgree env s := by
  intro block
  unfold readEntry
  cases hentry : s.store.entries.lookup block with
  | some entry =>
    refine ⟨fun e he hstate => ?_, by simp⟩
    cases he
    rcases hbasic.memory block _ hentry with hhot | hpending
    · rw [hhot] at hstate
      cases hstate
    · rw [hpending] at hstate
      cases hstate
  | none =>
    have hagree := h.agree block hentry fun seqNum =>
      not_appended_of_publishing hquiet (block, seqNum)
    rw [readPersisted_eq h.extents, ← hagree]
    unfold located
    cases s.store.persistedExtents.locate block <;> simp

/-- What every step of such a run keeps. -/
structure Steady (env : Env) (s : State) : Prop where
  basic : Basic env s
  serial : Serial s
  agreeing : Agreeing env s

/-- In a run of writes, flushes and drains one at a time from an open, in which every
run of blocks can be counted by its entry, the two indexes agree whenever no write is
between its append and its publication. -/
theorem indexes_agree_of_counted_runs {d : ReopenSystem.Disks} {n : Nat}
    {run : ReopenSystem.OpenRun} {wal : ReopenSystem.Segment} {acts : List Act}
    (hoffset : ∀ records, ReopenSystem.Saved d records → ∀ rec ∈ records, rec.objectOffset < 2 ^ 32)
    (hopen : ReopenSystem.openVolume env.cfg d n run = (v, true))
    (hrun : Run (step env) (fun s act => drainsOnly s act && countsRun s act) (State.opened v wal)
      acts t) (hquiet : publishing t = false) :
    IndexesAgree env t := by
  have hopened := opened_openVolume hoffset hopen
  have hsteady : Steady env t := by
    refine hrun.preserves ?_ ⟨basic_opened hopened.entries wal, serial_opened v wal,
      agreeing_opened hopened wal⟩
    intro s act u h hallowed hstep
    obtain ⟨hdrains, hcounts⟩ := Bool.and_eq_true_iff.mp hallowed
    exact ⟨h.basic.step hstep, h.serial.step h.basic hdrains hstep,
      h.agreeing.step h.basic h.serial hcounts hstep⟩
  exact hsteady.agreeing.indexesAgree hsteady.basic hquiet

end Runs

section Traces

open ReopenSystem (created firstState openRun openVolume Saved)

/-- Two blocks are written, flushed, drained and moved to the extents. -/
def drainTwo : List Act :=
  [.beginWrite 0 0 [7, 8] false, .lock 0, .reserve 0 .ok .ok, .append 0, .publish 0, .lock 0,
    .reserve 0 .ok .ok, .append 0, .publish 0, .endWrite 0, .beginDrain, .beginFlush true,
    .appendWAL true, .markPending, .appendWAL true, .markPending, .endFlush,
    .rotate 0 true true ⟨"wal.00000001.bin", 0, []⟩, .allocate 0, .put 0 .ok, .evict 0,
    .lockMap 0, .insertRun, .mark, .mark, .mark, .mark, .mark, .mark, .unlockMap]

theorem not_saved_created (records : List BlockLookup) :
    ¬ Saved (created firstState).disks records := by
  rintro ((hlive | ⟨k, hk⟩) | ⟨m, k, hk⟩)
  · simp [created] at hlive
  · simp [created] at hk
  · simp [created] at hk

/-- The two blocks move from memory to the extents, and the indexes agree. -/
theorem drained_indexes_agree :
    ∃ v t, openVolume Config.tiny (created firstState).disks 0 openRun = (v, true) ∧
      Run (step (plainEnv Config.tiny 4 (by decide)))
        (fun s act => drainsOnly s act && countsRun s act)
        (State.opened v openRun.segment) drainTwo t ∧
      located t 1 = some ⟨0, 11, 2⟩ ∧
      IndexesAgree (plainEnv Config.tiny 4 (by decide)) t := by
  have hopen : openVolume Config.tiny (created firstState).disks 0 openRun =
      ((openVolume Config.tiny (created firstState).disks 0 openRun).1, true) := by
    refine Prod.ext rfl ?_
    decide +kernel
  obtain ⟨t, hrun, ht⟩ := Run.exists_of_exec (step (plainEnv Config.tiny 4 (by decide)))
    (fun s act => drainsOnly s act && countsRun s act)
    (State.opened (openVolume Config.tiny (created firstState).disks 0 openRun).1
      openRun.segment) drainTwo
    (fun t => located t 1 == some ⟨0, 11, 2⟩ && !publishing t) (by decide +kernel)
  simp only [Bool.and_eq_true, beq_iff_eq, Bool.not_eq_true'] at ht
  exact ⟨_, t, hopen, hrun, ht.1, indexes_agree_of_counted_runs
    (fun records hsaved => absurd hsaved (not_saved_created records)) hopen hrun ht.2⟩

/-- A run of 65536 blocks: the last of them is persisted according to the block store,
and is not in the block map. -/
theorem long_run_disagrees :
    ∃ v acts t, openVolume wideConfig (created firstState).disks 0 openRun = (v, true) ∧
      Run (step wideEnv) (fun s act => drainsOnly s act) (State.opened v openRun.segment) acts t ∧
      publishing t = false ∧ ¬ IndexesAgree wideEnv t := by
  have hopen : openVolume wideConfig (created firstState).disks 0 openRun =
      ((openVolume wideConfig (created firstState).disks 0 openRun).1, true) := by
    refine Prod.ext rfl ?_
    decide +kernel
  have hopened := opened_openVolume
    (fun records hsaved => absurd hsaved (not_saved_created records)) hopen
  have hseqNum : (openVolume wideConfig (created firstState).disks 0 openRun).1.vb.seqNum = 0 := by
    decide +kernel
  have hmap : (openVolume wideConfig (created firstState).disks 0
      openRun).1.vb.blocksToObject = (VB.new false).blocksToObject := by
    rfl
  generalize (openVolume wideConfig (created firstState).disks 0 openRun).1 = v
    at hopen hopened hseqNum hmap
  obtain ⟨n, hn⟩ : ∃ n, n = 65535 := ⟨_, rfl⟩
  obtain ⟨t, published, ⟨acts, hrun⟩, hwriters, hblocks, hextents, hentries⟩ :=
    exists_drained hn.le hseqNum hmap hopened.entries openRun.segment
  refine ⟨v, acts, t, hopen, hrun, by simp [publishing, hwriters], fun hagree => ?_⟩
  have hsorted : (zeroItems 0 (n + 1)).Pairwise fun a b => a.block < b.block := by
    rw [zeroItems, List.pairwise_map]
    exact List.pairwise_lt_range'
  have hitem : ⟨n, n, n + 1⟩ ∈ zeroItems 0 (n + 1) :=
    List.mem_map_of_mem (List.mem_range'_1.mpr ⟨n.zero_le, by omega⟩)
  obtain ⟨hinstalled, hlocate, -⟩ := installRuns_spec v.vb.objectNum chunkHeaderSize
    wideConfig.blockStride hopened.extents hsorted
  rw [← hextents] at hinstalled hlocate
  have hread := readPersisted_eq hinstalled n
  rw [hlocate _ hitem] at hread
  have hmapped := (hagree n).1 _ (by
    rw [readEntry, hentries n n.lt_succ_self, if_pos n.lt_succ_self]
    exact hread) rfl
  have hlast := @getElem?_zeroBlocks 1 0 (n + 1) n n.lt_succ_self
  have hchain := @isChain_zeroBlocks 1 0 (n + 1)
  rw [zeroBlocks_succ] at hchain hlast
  rw [Nat.zero_add n] at hlast
  rw [mapped, hblocks, show wideEnv.cfg = wideConfig from rfl, zeroBlocks_succ,
    lookup_publishRun (VB.sound_new false), if_neg, VB.lookup_new] at hmapped
  · cases hmapped
  · rintro ⟨-, hcovers⟩
    have hlt := (newBlock_covers_iff _ _ hchain hlast).mp hcovers
    omega

end Traces

end Engine

end Viperblock
