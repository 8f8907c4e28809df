import Viperblock.ReopenSessions

/-!
# Sequence numbers over crashes and reopens

In every run whose opens find the log of the last session, an open volume's
`SeqNum` is at least every number in its block map, and the staleness guard
accepts every block that a drain uploads.
-/

namespace Viperblock

namespace ReopenSystem

open GuardedRun BlockMap BlocksToObject Volume
open SeqNumSystem (seqNumReservation raiseWindows)

section Recovery

variable {cfg : Config} {d : Disks} {n : Nat} {v v' : Volume}

/-- A volume in the middle of an open: the state is loaded, the log is not. -/
structure Loading (cfg : Config) (d : Disks) (n : Nat) (v : Volume) : Prop
    extends Covered cfg (d.put n v) n v.vb where
  known_le : ∀ q, Known cfg (d.put n v) q → q ≤ v.vb.seqNum ∨ ∃ q', q ≤ q' ∧ Logged cfg v.files q'
  known_of_mapped : ∀ q, Mapped cfg v.vb q → Known cfg (d.put n v) q
  marks : cfg.sealing.isSome → v.vb.seqNum ≤ v.vb.seqNumHighWater ∧
    ∀ q, Logged cfg v.files q → q ≤ v.vb.seqNumHighWater
  keepsMark : saveKeepsMark cfg v.vb = true
  sound : v.vb.blocksToObject.Sound
  objectID_lt : ChunksBelow cfg.blockStride v.vb.blocksToObject.blockLookup v.vb.objectNum

theorem Loading.recoverable (hload : Loading cfg d n v) :
    Recoverable cfg (d.put n v) n := by
  refine ⟨hload.offset_lt, fun c hc q hq => hload.covered c hc q (.inl hq), ?_, hload.newest⟩
  intro hsealed c hc q hq
  rw [Disks.put_nodes_self] at hq
  have hmark := (hload.marks hsealed).2 q hq
  have hwindow := hload.window hsealed c hc
  omega

theorem mem_allBlocks_iff {files : List (String × Bytes)} {read : List (String × List Block)}
    (hread : readLocalWALs cfg files = .ok read) (r : Block) :
    r ∈ allBlocks read ↔ ∃ file ∈ files, r ∈ validRecords cfg file.2 := by
  rw [allBlocks_of_read hread, List.mem_flatMap]

theorem uploaded_createChunks
    (cfg : Config) (out : Nat → Outcome) (i : Nat) (jobs : List (List Block)) (v : Volume) :
    ∃ runs count published, Uploaded cfg runs count published v (v.createChunks cfg out i jobs).1 ∧
        ∀ r ∈ runs, ∃ id < v.vb.objectNum + count, ∃ job ∈ jobs, r ∈ placedRuns id [job] := by
  induction jobs generalizing i v with
  | nil => exact ⟨[], 0, false, Uploaded.refl v, by simp⟩
  | cons job jobs ih =>
    obtain ⟨hfirst, hok⟩ := uploaded_createChunkFile cfg v job (out i)
    have hruns : ∀ r ∈ (if (out i).isOk then placedRuns v.vb.objectNum [job] else []),
        r ∈ placedRuns v.vb.objectNum [job] := by
      intro r hr
      split at hr
      · exact hr
      · simp at hr
    unfold Volume.createChunks
    generalize v.createChunkFile cfg job (out i) = next at hfirst hok
    obtain ⟨v₁, ok⟩ := next
    cases ok with
    | false =>
      refine ⟨_, _, _, hfirst, fun r hr => ?_⟩
      exact ⟨v.vb.objectNum, by omega, job, by simp, hruns r hr⟩
    | true =>
      obtain ⟨runs, count, published, hrest, hmem⟩ := ih (i + 1) v₁
      refine ⟨_, _, _, hfirst.trans hrest, fun r hr => ?_⟩
      rcases List.mem_append.mp hr with hr | hr
      · exact ⟨v.vb.objectNum, by omega, job, by simp, hruns r hr⟩
      · obtain ⟨id, hid, job', hjob', hr⟩ := hmem r hr
        have hnum := hfirst.objectNum
        exact ⟨id, by dsimp only at hnum; omega, job', by simp [hjob'], hr⟩

theorem Recoverable.of_sameRecords (hleft : Recoverable cfg (d.put n v) n)
    (hsame : SameRecords v v') (hlocal : v'.files.config = v.files.config)
    (hbackend : v'.backend.config = v.backend.config) :
    Recoverable cfg (d.put n v') n := by
  have hselected : selected (d.put n v') n = selected (d.put n v) n := by
    simp only [selected, Disks.put_nodes_self, Disks.put_backend, hlocal, hbackend]
  refine ⟨?_, ?_, ?_, ?_⟩
  · intro records hrecords
    exact hleft.offset_lt records ((hsame.saved_iff d n records).mp hrecords)
  · intro c hc q hq
    rw [hselected] at hc
    rw [hsame.known_iff] at hq
    rcases hleft.covered c hc q hq with hle | ⟨q', hle, hlog⟩
    · exact .inl hle
    · exact .inr ⟨q', hle, (hsame.logged_iff d n n q').mpr hlog⟩
  · intro hsealed c hc q hq
    rw [hselected] at hc
    exact hleft.logged_le hsealed c hc q ((hsame.logged_iff d n n q).mp hq)
  · intro c hc m c' hm
    rw [hselected] at hc
    rw [Disks.put_nodes_congr LocalFiles.config hlocal] at hm
    exact hleft.newest c hc m c' hm

/-- Once `SeqNum` is past the log, and the map holds nothing but what was loaded
and what is in the log, the volume is counted. -/
theorem Loading.counted (hload : Loading cfg d n v) (v' : Volume) (hsame : SameRecords v v')
    (hlocal : v'.files.config = v.files.config) (hbackend : v'.backend.config = v.backend.config)
    (hhighWater : v'.vb.seqNumHighWater = v.vb.seqNumHighWater)
    (hnext : v'.vb.nextStateSeqNum = v.vb.nextStateSeqNum) (hseqNum : v.vb.seqNum ≤ v'.vb.seqNum)
    (hlogged : ∀ q, Logged cfg v.files q → q ≤ v'.vb.seqNum)
    (hmapped : ∀ q, Mapped cfg v'.vb q → Mapped cfg v.vb q ∨ Logged cfg v.files q) :
    Counted cfg (d.put n v') n v'.vb [] := by
  have hknown : ∀ q, Known cfg (d.put n v') q ∨ Mapped cfg v'.vb q → Known cfg (d.put n v) q := by
    rintro q (hq | hq)
    · exact (hsame.known_iff d n q).mp hq
    · rcases hmapped q hq with h | h
      · exact hload.known_of_mapped q h
      · exact .inr ⟨n, by rw [Disks.put_nodes_self]; exact h⟩
  have hissued : ∀ q, Issued cfg (d.put n v') v'.vb [] q →
      q ≤ v.vb.seqNum ∨ ∃ q', q ≤ q' ∧ Logged cfg v.files q' := by
    rintro q (hq | hq | ⟨r, hr, -⟩)
    · exact hload.known_le q (hknown q (.inl hq))
    · exact hload.known_le q (hknown q (.inr hq))
    · simp at hr
  have hle : ∀ q, Issued cfg (d.put n v') v'.vb [] q → q ≤ v'.vb.seqNum := by
    intro q hq
    rcases hissued q hq with h | ⟨q', h, hlog⟩
    · exact h.trans hseqNum
    · exact h.trans (hlogged q' hlog)
  refine ⟨hload.toCovered.transfer ?_ ?_ (Disks.put_nodes_congr LocalFiles.config hlocal)
    (hbackend ▸ hload.backend_le) hnext (hhighWater ▸ hload.window)
    (fun q hq => .inl (.inl (hknown q hq))) fun q => (hsame.logged_iff d n n q).mpr, hle, ?_⟩
  · exact (hload.recoverable.of_sameRecords hsame hlocal hbackend).offset_lt
  · simp only [selected, Disks.put_nodes_self, Disks.put_backend, hlocal, hbackend]
  · intro q hq
    unfold ceiling
    split
    · rename_i hsealed
      obtain ⟨hmark, hlogs⟩ := hload.marks hsealed
      rw [hhighWater]
      rcases hissued q hq with h | ⟨q', h, hlog⟩
      · exact h.trans hmark
      · exact h.trans (hlogs q' hlog)
    · exact hle q hq

theorem Counted.removeFiles (hopen : Counted cfg (d.put n v) n v.vb [])
    (hcovers : ∀ c, selected (d.put n v) n = some c → ∀ q, Known cfg (d.put n v) q ∨ Mapped cfg v.vb
      q → q ≤ base cfg c) (names : List String) (remove : String → Bool) :
    Counted cfg (d.put n (v.removeFiles names remove)) n
      (v.removeFiles names remove).vb [] := by
  have hsaved : ∀ records, Saved (d.put n (v.removeFiles names remove)) records →
      Saved (d.put n v) records :=
    fun records => (saved_put_iff (by rfl) (by rfl) (by rfl) d n records).mp
  have hknown : ∀ q, Known cfg (d.put n (v.removeFiles names remove)) q →
      Known cfg (d.put n v) q := by
    rintro q (⟨records, hrecords, hrec⟩ | ⟨m, hm⟩)
    · exact .inl ⟨records, hsaved records hrecords, hrec⟩
    · rw [← Disks.put_put d n v] at hm
      refine .inr ⟨m, Disks.nodes_of_put (Logged cfg · q) ?_ hm⟩
      rintro ⟨file, hfile, hr⟩
      rw [Disks.put_nodes_self]
      exact ⟨file, (List.mem_filter.mp hfile).1, hr⟩
  have hselected : selected (d.put n (v.removeFiles names remove)) n = selected (d.put n v) n := by
    simp only [selected, Disks.put_nodes_self]
    rfl
  have hlocal : ∀ m, ((d.put n (v.removeFiles names remove)).nodes m).config =
      ((d.put n v).nodes m).config :=
    Disks.put_nodes_congr LocalFiles.config (by rfl)
  refine ⟨⟨fun records hrecords => hopen.offset_lt records (hsaved records hrecords), ?_,
    hselected ▸ hopen.window, ?_, ?_, hopen.backend_le⟩,
    fun q hq => hopen.le_seqNum q (hq.imp_left (hknown q)),
    fun q hq => hopen.le_ceiling q (hq.imp_left (hknown q))⟩
  · intro c hc q hq
    rw [hselected] at hc
    exact .inl (hcovers c hc q (hq.imp_left (hknown q)))
  · simp only [hselected, hlocal]
    exact hopen.newest
  · simp only [hlocal]
    exact hopen.local_le

theorem Settled.selected_eq {c : VBState} (hsettled : Settled cfg d n v c) :
    selected (d.put n v) n = some c := by
  simp [selected, hsettled.localConfig, hsettled.backendConfig, selectState, newerCopy]

theorem Counted.saveRecovered (hopen : Counted cfg (d.put n v) n v.vb [])
    (hmark : saveKeepsMark cfg v.vb = true) (hsound : v.vb.blocksToObject.Sound)
    {out : RecoverOutcomes} {names : List String} {res : Except RecoverError Unit}
    (hsave : v.saveRecovered cfg out names = (v', res)) :
    Counted cfg (d.put n v') n v'.vb [] ∧ v'.vb.blocksToObject = v.vb.blocksToObject ∧
      v'.vb.objectNum = v.vb.objectNum := by
  obtain ⟨hcounted, hsettled⟩ := hopen.saveState hmark out.stateDisk out.stateBackend
  obtain ⟨hsame, -⟩ := saveState_spec cfg v out.stateDisk out.stateBackend
  unfold Volume.saveRecovered at hsave
  cases hstate : v.saveState cfg out.stateDisk out.stateBackend with
  | mk saved savedOk =>
    rw [hstate] at hcounted hsettled hsame
    cases savedOk with
    | false =>
      simp only [hstate] at hsave
      cases hsave
      exact ⟨hcounted, hsame.blocksToObject, hsame.objectNum⟩
    | true =>
      have hwf : saved.vb.blocksToObject.blockLookup.WellFormed := by
        rw [hsame.blocksToObject]
        exact hsound.wf
      have hblock := savesCheckpoint_saveBlockState cfg saved out.blockStateDisk
        out.blockStateBackend
      have hcounted' := hcounted.savesCheckpoint hwf hblock
      obtain ⟨hsame', -⟩ :=
        saveBlockState_spec cfg saved out.blockStateDisk out.blockStateBackend
      cases hnum : saved.saveBlockState cfg out.blockStateDisk
          out.blockStateBackend with
      | mk numbered numberedOk =>
        rw [hnum] at hblock hcounted' hsame'
        cases numberedOk with
        | false =>
          simp only [hstate, hnum] at hsave
          cases hsave
          exact ⟨hcounted', hsame'.blocksToObject.trans hsame.blocksToObject,
            hsame'.objectNum.trans hsame.objectNum⟩
        | true =>
          simp only [hstate, hnum] at hsave
          cases hsave
          obtain ⟨c, hc⟩ := hsettled rfl
          have hwf' : numbered.vb.blocksToObject.blockLookup.WellFormed := by
            rw [hsame'.blocksToObject]
            exact hwf
          have hlive := savesCheckpoint_saveLiveCheckpoint cfg numbered out.live
          have hc' := (hc.savesCheckpoint hwf hblock).savesCheckpoint hwf' hlive
          refine ⟨(hcounted'.savesCheckpoint hwf' hlive).removeFiles ?_ _ _,
            (hlive.blocksToObject.trans hsame'.blocksToObject).trans
              hsame.blocksToObject, ?_⟩
          · intro c' hc'' q hq
            rw [hc'.selected_eq] at hc''
            rw [← Option.some.inj hc'']
            exact hc'.covers q hq
          · refine Eq.trans ?_ (hsame'.objectNum.trans hsame.objectNum)
            simp only [Volume.removeFiles, Volume.saveLiveCheckpoint]
            split <;> rfl

/-- What a replay of `blocks` does to the map: a block resolves as before or to one
of them, in a chunk numbered below the next. -/
theorem lookup_createChunks {blocks : List Block}
    (hdata : ∀ w ∈ blocks, w.data.length = cfg.blockSize) (hsound : v.vb.blocksToObject.Sound)
    (out : Nat → Outcome) :
    let replayed :=
      (v.createChunks cfg out 0 (chunkJobs cfg.objBlockSize blocks)).1
    (∃ runs count published, Uploaded cfg runs count published v replayed) ∧
      replayed.vb.blocksToObject.Sound ∧
      ∀ block loc, lookupBlockToObject cfg.blockStride replayed.vb.blocksToObject.blockLookup
            block = some loc →
          lookupBlockToObject cfg.blockStride v.vb.blocksToObject.blockLookup block = some loc ∨
            (∃ w ∈ blocks, w.seqNum = loc.seqNum) ∧ loc.objectID < replayed.vb.objectNum := by
  obtain ⟨runs, count, published, hup, hruns⟩ :=
    uploaded_createChunks cfg out 0 (chunkJobs cfg.objBlockSize blocks) v
  have hflat : (chunkJobs cfg.objBlockSize blocks).flatten = sortedBlocks blocks := by
    refine flatten_chunkJobs fun w hw hempty => ?_
    have hlength := hdata w hw
    have hpos := cfg.blockSize_pos
    rw [hempty, List.length_nil] at hlength
    omega
  obtain ⟨hsound', hcases⟩ := lookup_foldl_publishPlaced_cases cfg.blockStride hsound
    fun r hr => by
      obtain ⟨id, -, job, -, hr⟩ := hruns r hr
      exact isChain_of_mem_placedRuns hr
  rw [← hup.blocksToObject] at hsound' hcases
  refine ⟨⟨runs, count, published, hup⟩, hsound', fun block loc hloc => ?_⟩
  rcases hcases block loc hloc with hold | ⟨r, hr, w, hw, hseqNum, hid⟩
  · exact .inl hold
  · obtain ⟨id, hlt, job, hjob, hr⟩ := hruns r hr
    obtain ⟨j, job', hjob', hindex, -, hget⟩ := exists_job_of_mem_placedRuns hr
    have hj := (List.getElem?_eq_some_iff.mp hjob').1
    rw [List.length_singleton] at hj
    obtain rfl : job' = job := List.mem_singleton.mp (List.mem_of_getElem? hjob')
    refine .inr ⟨⟨w, ?_, hseqNum⟩, ?_⟩
    · obtain ⟨i, hi⟩ := List.mem_iff_getElem?.mp hw
      refine (isNewest_of_mem_sortedBlocks ?_).mem
      rw [← hflat]
      exact List.mem_flatten.mpr ⟨job', hjob, List.mem_of_getElem? (hget i w hi)⟩
    · rw [hup.objectNum]
      omega

section Read

variable {read : List (String × List Block)} (hload : Loading cfg d n v)
variable (hread : readLocalWALs cfg (sortedFiles v.files.walFiles) = .ok read)

include hread

theorem logged_iff_of_read (q : Nat) :
    Logged cfg v.files q ↔ ∃ r ∈ allBlocks read, r.seqNum = q := by
  simp only [Logged, mem_allBlocks_iff hread, mem_sortedFiles_iff]
  constructor
  · rintro ⟨file, hfile, r, hr, hq⟩
    exact ⟨r, ⟨file, hfile, hr⟩, hq⟩
  · rintro ⟨r, ⟨file, hfile, hr⟩, hq⟩
    exact ⟨file, hfile, r, hr, hq⟩

include hload

/-- Without records nothing but files change. -/
theorem Loading.removeFiles (hnone : allBlocks read = []) (names : List String)
    (remove : String → Bool) :
    Counted cfg (d.put n (v.removeFiles names remove)) n v.vb [] := by
  have hempty : ∀ q, ¬ Logged cfg v.files q := by
    intro q hq
    obtain ⟨r, hr, -⟩ := (logged_iff_of_read hread q).mp hq
    rw [hnone] at hr
    cases hr
  have hcounted := hload.counted v ⟨rfl, rfl, rfl, rfl⟩ rfl rfl rfl rfl le_rfl
    (fun q hq => absurd hq (hempty q)) fun _ => .inl
  refine hcounted.removeFiles (fun c hc q hq => ?_) names remove
  refine (hcounted.covered c hc q hq).resolve_right ?_
  rintro ⟨q', -, hlog⟩
  rw [Disks.put_nodes_self] at hlog
  exact hempty q' hlog

/-- The replay of the log, and what it leaves to save. -/
theorem Loading.replay {out : Nat → Outcome} {replayed : Volume} {ok : Bool}
    (hreplay : v.reconcileObjectNum.createChunks cfg out 0
      (chunkJobs cfg.objBlockSize (allBlocks read)) = (replayed, ok)) :
    let synced := replayed.syncRecovered cfg (Config.fileMaxSeq (allBlocks read))
    Recoverable cfg (d.put n replayed) n ∧ Counted cfg (d.put n synced) n synced.vb [] ∧
      saveKeepsMark cfg synced.vb = true ∧ replayed.vb.blocksToObject.Sound ∧
      ChunksBelow cfg.blockStride replayed.vb.blocksToObject.blockLookup
        replayed.vb.objectNum := by
  have hdata : ∀ w ∈ allBlocks read, w.data.length = cfg.blockSize := by
    intro w hw
    obtain ⟨file, -, hw⟩ := (mem_allBlocks_iff hread w).mp hw
    exact length_data_of_mem_validRecords hw
  obtain ⟨⟨runs, count, published, hup⟩, hsound, hcases⟩ :=
    lookup_createChunks (v := v.reconcileObjectNum) hdata hload.sound out
  rw [hreplay] at hup hsound hcases
  obtain ⟨hnumbered, hwal, hlive, hbackend⟩ := hup.sameRecords
  refine ⟨hload.recoverable.of_sameRecords ⟨hnumbered, hwal, hlive, hbackend⟩
    (congrArg LocalFiles.config hup.files) hup.config, ?_,
    (saveKeepsMark_congr hup.volumeUUID hup.highWater).trans hload.keepsMark, hsound, ?_⟩
  · refine hload.counted _ ⟨hnumbered, hwal, hlive, hbackend⟩
      (congrArg LocalFiles.config hup.files) hup.config hup.highWater hup.next
      (hup.seqNum.ge.trans (Nat.le_max_left _ _)) (fun q hq => ?_) ?_
    · obtain ⟨r, hr, rfl⟩ := (logged_iff_of_read hread q).mp hq
      exact ((Config.fileMaxSeq_foldl _ 0).2.1 r hr).trans (Nat.le_max_right _ _)
    · rintro q ⟨block, loc, hloc, rfl⟩
      rcases hcases block loc hloc with hold | ⟨hw, -⟩
      · exact .inl ⟨block, loc, hold, rfl⟩
      · exact .inr ((logged_iff_of_read hread _).mpr hw)
  · intro block loc hloc
    rcases hcases block loc hloc with hold | ⟨-, hlt⟩
    · have hlt := hload.objectID_lt block loc hold
      have hle := (lt_raiseObjectNum v.vb.objectNum
        (v.vb.blocksToObject.blockLookup.entries.map Sigma.snd)).1
      exact (hlt.trans_le hle).trans_le ((Nat.le_add_right _ _).trans hup.objectNum.ge)
    · exact hlt

end Read

/-- `RecoverLocalWALs`, whatever becomes of it. -/
theorem Loading.recoverLocalWALs (hload : Loading cfg d n v) {out : RecoverOutcomes}
    {res : Except RecoverError Unit} (hrecover : v.recoverLocalWALs cfg out = (v', res)) :
    Recoverable cfg (d.put n v') n ∧ (res = .ok () → Counted cfg (d.put n v') n v'.vb [] ∧
        v'.vb.blocksToObject.Sound ∧
        ChunksBelow cfg.blockStride v'.vb.blocksToObject.blockLookup v'.vb.objectNum) := by
  unfold Volume.recoverLocalWALs at hrecover
  cases hread : readLocalWALs cfg (sortedFiles v.files.walFiles) with
  | error e =>
    simp only [hread] at hrecover
    cases hrecover
    exact ⟨hload.recoverable, by simp⟩
  | ok read =>
    simp only [hread] at hrecover
    split at hrecover
    · rename_i hnone
      cases hrecover
      have hremoved := hload.removeFiles hread hnone (read.map Prod.fst) out.remove
      exact ⟨hremoved.recoverable, fun _ => ⟨hremoved, hload.sound, hload.objectID_lt⟩⟩
    · cases hreplay : v.reconcileObjectNum.createChunks cfg out.chunk 0
          (chunkJobs cfg.objBlockSize (allBlocks read)) with
      | mk replayed ok =>
        obtain ⟨hleft, hcounted, hmark, hsound, hbelow⟩ := hload.replay hread hreplay
        cases ok with
        | false =>
          simp only [hreplay] at hrecover
          cases hrecover
          exact ⟨hleft, by simp⟩
        | true =>
          simp only [hreplay] at hrecover
          obtain ⟨hsaved, hmap, hnum⟩ := hcounted.saveRecovered hmark hsound hrecover
          refine ⟨hsaved.recoverable, fun _ => ⟨hsaved, ?_, ?_⟩⟩
          · rw [hmap]
            exact hsound
          · rw [hmap, hnum]
            exact hbelow

end Recovery

section Opens

variable {cfg : Config} {d : Disks} {n : Nat} {v : Volume}

theorem Loading.parseCheckpoint (hload : Loading cfg d n v) {records : List BlockLookup}
    (hsaved : Saved (d.put n v) records) :
    Loading cfg d n (v.parseCheckpoint cfg records) := by
  have hoffset := hload.offset_lt records hsaved
  have hput : d.put n (v.parseCheckpoint cfg records) = d.put n v := rfl
  have hmapped : ∀ q, Mapped cfg (v.parseCheckpoint cfg records).vb q →
      Known cfg (d.put n v) q := by
    rintro q ⟨block, loc, hloc, rfl⟩
    obtain ⟨rec, hrec, rfl⟩ := lookup_coalesce_sound (flat_flatRecords hoffset) hloc
    exact .inl ⟨records, hsaved, rec, (mem_of_lookup_flatRecords hrec).1, rfl⟩
  refine ⟨⟨hload.offset_lt, ?_, hload.window, hload.newest, hload.local_le,
    hload.backend_le⟩, hload.known_le, hmapped, hload.marks, hload.keepsMark,
    parseBlockCheckpoint_sound _ _ hoffset, ?_⟩
  · intro c hc q hq
    refine hload.covered c hc q (.inl ?_)
    rcases hq with hq | hq
    · exact hq
    · exact hmapped q hq
  · intro block loc hloc
    obtain ⟨rec, hrec, rfl⟩ := lookup_coalesce_sound (flat_flatRecords hoffset) hloc
    exact (lt_raiseObjectNum v.vb.objectNum records).2 rec
      (mem_of_lookup_flatRecords hrec).1

theorem Loading.loadLiveCheckpoint (hload : Loading cfg d n v) :
    Loading cfg d n (v.loadLiveCheckpoint cfg) := by
  unfold Volume.loadLiveCheckpoint
  split
  · rename_i records hlive
    exact hload.parseCheckpoint (.inl (.inl hlive))
  · unfold Volume.loadBlockState
    split
    · rename_i records hlocal
      refine hload.parseCheckpoint (.inr ⟨n, ?_⟩)
      rw [Disks.put_nodes_self]
      exact ⟨_, hlocal⟩
    · split
      · rename_i records hbackend
        exact hload.parseCheckpoint (.inl (.inr ⟨_, hbackend⟩))
      · exact hload

/-- The open goes by the newest `config.json`: it can read the backend's copy, or
the local one is not older, or there is none. -/
def findsNewest (d : Disks) (n : Nat) (readable : Bool) : Bool :=
  readable || (d.nodes n).config.isNone || decide (selected d n = (d.nodes n).config)

theorem selected_of_findsNewest {readable : Bool} (hfinds : findsNewest d n readable = true)
    {c : VBState}
    (hc : selectState (d.nodes n).config (if readable then d.backend.config else none) = some c) :
    selected d n = some c := by
  cases readable with
  | true => exact hc
  | false =>
    simp only [findsNewest, Bool.false_or, Bool.or_eq_true, decide_eq_true_eq,
      Option.isNone_iff_eq_none] at hfinds
    simp only [Bool.false_eq_true, if_false] at hc
    rcases hfinds with hnone | hlocal
    · simp [hnone, selectState, newerCopy] at hc
    · rw [hlocal]
      cases hl : (d.nodes n).config with
      | none => simp [hl, selectState, newerCopy] at hc
      | some l => simpa [hl, selectState, newerCopy] using hc

/-- On an encrypted volume the UUID is minted, or no mark was ever persisted. -/
def mintedOrFresh (cfg : Config) (c : VBState) : Bool :=
  cfg.sealing.isNone || c.volumeUUID || c.seqNumHighWater == 0

theorem Recoverable.covered_of_selected (hleft : Recoverable cfg d n) {c : VBState}
    (hc : selected d n = some c) {vb : VB} (hmapped : ∀ q, ¬ Mapped cfg vb q)
    (hnext : vb.nextStateSeqNum = c.stateSeqNum)
    (hwindow : cfg.sealing.isSome → vb.seqNumHighWater ≤ base cfg c + seqNumReservation) :
    Covered cfg d n vb := by
  refine ⟨hleft.offset_lt, ?_, ?_, hleft.newest, ?_, ?_⟩
  · intro c' hc' q hq
    rcases hq with hq | hq
    · exact hleft.covered c' hc' q hq
    · exact absurd hq (hmapped q)
  · intro hsealed c' hc'
    rw [hc] at hc'
    rw [← Option.some.inj hc']
    exact hwindow hsealed
  · intro m c' hc'
    rw [hnext]
    exact hleft.newest c hc m c' hc'
  · intro c' hc'
    rw [hnext]
    exact (newerCopy_eq_some hc).2.2 c' hc'

theorem not_mapped_of_new {vb : VB} {gcEnabled : Bool}
    (hvb : vb.blocksToObject = (VB.new gcEnabled).blocksToObject) (q : Nat) :
    ¬ Mapped cfg vb q := by
  rintro ⟨block, loc, hloc, -⟩
  rw [hvb, VB.lookup_new] at hloc
  simp at hloc

/-- The restart of an encrypted volume: the next window is reserved before the
volume is used. -/
theorem Recoverable.bumpSeqNumHighWater (hleft : Recoverable cfg d n) (hsealed : cfg.sealing.isSome)
    {c : VBState} (hc : selected d n = some c) (hminted : mintedOrFresh cfg c = true)
    (gcEnabled : Bool) (hput : d.put n v = d)
    (hmap : v.vb.blocksToObject = (VB.new gcEnabled).blocksToObject)
    (hnext : v.vb.nextStateSeqNum = c.stateSeqNum) (hseqNum : v.vb.seqNum = c.seqNumHighWater)
    (hhighWater : v.vb.seqNumHighWater = c.seqNumHighWater) (huuid : v.vb.volumeUUID = c.volumeUUID)
    (disk backend : Outcome) :
    let bumped := v.bumpSeqNumHighWater disk backend
    Recoverable cfg (d.put n bumped.1) n ∧ (bumped.2 = true → Loading cfg d n bumped.1) := by
  have hbase : base cfg c = c.seqNumHighWater := by
    rw [base, if_pos hsealed]
  have hfiles : v.files = d.nodes n := by
    rw [← Disks.put_nodes_self d n v, hput]
  have hcovered : Covered cfg (d.put n v) n v.vb := by
    rw [hput]
    refine hleft.covered_of_selected hc (not_mapped_of_new hmap) hnext fun _ => ?_
    omega
  have hknown : ∀ q, Known cfg (d.put n v) q →
      q ≤ c.seqNumHighWater ∨ ∃ q', q ≤ q' ∧ Logged cfg v.files q' := by
    intro q hq
    rw [hput] at hq
    rw [hfiles, ← hbase]
    exact hleft.covered c hc q hq
  have hlogged : ∀ q, Logged cfg v.files q → q ≤ c.seqNumHighWater + seqNumReservation := by
    intro q hq
    rw [hfiles] at hq
    rw [← hbase]
    exact hleft.logged_le hsealed c hc q hq
  have hbumped := hcovered.raiseHighWater hsealed
    (Nat.le_add_right v.vb.seqNumHighWater seqNumReservation) (fun q hq => by
      rcases hq with hq | hq
      · exact (hknown q hq).imp_left fun hle => by omega
      · exact absurd hq (not_mapped_of_new hmap q)) disk backend
  have hselected := hcovered.selected_raiseHighWater
    (v.vb.seqNumHighWater + seqNumReservation) disk backend
  obtain ⟨hsame, hseqNum', huuid', hok, hhighWater'⟩ := raiseHighWater_counters v
    (v.vb.seqNumHighWater + seqNumReservation) disk backend
  have hblocks := raiseHighWater_sameBlocks v
    (v.vb.seqNumHighWater + seqNumReservation) disk backend
  simp only [Volume.bumpSeqNumHighWater]
  generalize hres : v.raiseHighWater (v.vb.seqNumHighWater + seqNumReservation) disk
    backend = bumped at *
  have hlogged' : ∀ q, Logged cfg bumped.1.files q ↔ Logged cfg v.files q := by
    intro q
    rw [Logged, Logged, hsame.walFiles]
  constructor
  · refine ⟨hbumped.offset_lt, fun c' hc' q hq => hbumped.covered c' hc' q (.inl hq), ?_,
      hbumped.newest⟩
    intro _ c' hc' q hq
    rw [Disks.put_nodes_self, hlogged'] at hq
    have hle := hlogged q hq
    rw [hselected, hput] at hc'
    split at hc'
    · rw [← Option.some.inj hc', base, if_pos hsealed]
      show q ≤ v.vb.seqNumHighWater + seqNumReservation + seqNumReservation
      omega
    · rw [hc] at hc'
      rw [← Option.some.inj hc', hbase]
      exact hle
  · intro hdone
    rw [hok] at hdone
    rw [if_pos hdone] at hhighWater'
    have hnone : ∀ q, ¬ Mapped cfg bumped.1.vb q :=
      not_mapped_of_new (hblocks.blocksToObject.trans hmap)
    refine ⟨hbumped, ?_, fun q hq => absurd hq (hnone q), ?_, ?_, ?_, ?_⟩
    · intro q hq
      rw [hsame.known_iff] at hq
      rw [hseqNum', hseqNum]
      refine (hknown q hq).imp_right ?_
      rintro ⟨q', hle, hlog⟩
      exact ⟨q', hle, (hlogged' q').mpr hlog⟩
    · intro _
      rw [hhighWater', hseqNum', hseqNum, hhighWater]
      exact ⟨Nat.le_add_right _ _, fun q hq => hlogged q ((hlogged' q).mp hq)⟩
    · have hcases : c.volumeUUID = true ∨ c.seqNumHighWater = 0 := by
        cases hcfg : cfg.sealing <;> simp [mintedOrFresh, hcfg] at hminted hsealed ⊢
        exact hminted
      simp only [saveKeepsMark, Bool.or_eq_true, decide_eq_true_eq, huuid', huuid,
        hhighWater', hhighWater]
      rcases hcases with h | h
      · exact .inl (.inr h)
      · exact .inr (by omega)
    · rw [hblocks.blocksToObject, hmap]
      exact VB.sound_new gcEnabled
    · intro block loc hloc
      rw [hblocks.blocksToObject, hmap, VB.lookup_new] at hloc
      simp at hloc

theorem Recoverable.loadState (hleft : Recoverable cfg d n) {gcEnabled readable : Bool}
    {disk backend : Outcome} {ok : Bool} (hfinds : findsNewest d n readable = true)
    (hminted : ∀ c, selected d n = some c → mintedOrFresh cfg c = true)
    (hload : (d.volume n (VB.new gcEnabled)).loadState cfg readable disk backend = (v, ok)) :
    Recoverable cfg (d.put n v) n ∧ (ok = true → Loading cfg d n v) := by
  unfold Volume.loadState at hload
  split at hload
  · cases hload
    rw [Disks.put_volume]
    exact ⟨hleft, by simp⟩
  rename_i state hstate
  have hc := selected_of_findsNewest hfinds hstate
  dsimp only at hload
  split at hload
  · rename_i hplain
    rw [Option.isNone_iff_eq_none] at hplain
    cases hload
    have hput : d.put n ((d.volume n (VB.new gcEnabled)).installState state) = d :=
      Disks.put_volume d n _
    have hnone : ∀ q, ¬ Mapped cfg
        ((d.volume n (VB.new gcEnabled)).installState state).vb q :=
      not_mapped_of_new rfl
    have hcovered := hleft.covered_of_selected hc hnone rfl (by simp [hplain])
    refine ⟨by rw [hput]; exact hleft, fun _ => ?_⟩
    refine ⟨by rw [hput]; exact hcovered, ?_, fun q hq => absurd hq (hnone q),
      by simp [hplain], by simp [saveKeepsMark, hplain], VB.sound_new gcEnabled, ?_⟩
    · intro q hq
      rw [hput] at hq
      rcases hleft.covered state hc q hq with hle | hlog
      · left
        simpa [base, hplain, Volume.installState] using hle
      · exact .inr hlog
    · intro block loc hloc
      have hlookup := VB.lookup_new cfg.blockStride gcEnabled block
      rw [show ((d.volume n (VB.new gcEnabled)).installState state).vb.blocksToObject =
        (VB.new gcEnabled).blocksToObject from rfl, hlookup] at hloc
      simp at hloc
  · rename_i hsealed
    have hsealed : cfg.sealing.isSome := by
      cases hcfg : cfg.sealing <;> simp [hcfg] at hsealed ⊢
    have hbump := hleft.bumpSeqNumHighWater hsealed hc (hminted state hc)
      (v := ((d.volume n (VB.new gcEnabled)).installState state).restartSeqNum state)
      gcEnabled (Disks.put_volume d n _) rfl rfl rfl rfl rfl disk backend
    rw [hload] at hbump
    exact hbump

theorem Recoverable.openVolume (hleft : Recoverable cfg d n) {run : OpenRun} {ok : Bool}
    (hfinds : findsNewest d n run.readable = true)
    (hminted : ∀ c, selected d n = some c → mintedOrFresh cfg c = true)
    (hopen : openVolume cfg d n run = (v, ok)) :
    Recoverable cfg (d.put n v) n ∧ (ok = true → Serving cfg (d.put n v)
        ⟨n, v.vb, [], { run.segment with records := [] }, [], []⟩) := by
  unfold ReopenSystem.openVolume at hopen
  cases hstate : (d.volume n (VB.new run.gcEnabled)).loadState cfg run.readable
      run.bumpDisk run.bumpBackend with
  | mk loaded loadedOk =>
    obtain ⟨hleft', hload⟩ := hleft.loadState hfinds hminted hstate
    cases loadedOk with
    | false =>
      simp only [hstate] at hopen
      cases hopen
      exact ⟨hleft', by simp⟩
    | true =>
      cases hrecover : (loaded.loadLiveCheckpoint cfg).recoverLocalWALs cfg
          run.recover with
      | mk recovered res =>
        obtain ⟨hleft'', hdone⟩ :=
          (hload rfl).loadLiveCheckpoint.recoverLocalWALs hrecover
        cases res with
        | error e =>
          simp only [hstate, hrecover] at hopen
          cases hopen
          exact ⟨hleft'', by simp⟩
        | ok u =>
          simp only [hstate, hrecover] at hopen
          cases hopen
          obtain ⟨hcounted, hsound, hobject⟩ := hdone rfl
          refine ⟨hleft'', fun _ => ?_⟩
          exact ⟨hcounted, hsound, hobject, by simp, by simp, by simp, by simp, by simp, by simp⟩

end Opens

section Runs

variable (cfg : Config)

/-- Every open finds what the last session left: it is on the node that was last
open, unless the volume was shut down cleanly, and it goes by the newest
`config.json`.  No save lowers the mark of an encrypted volume. -/
def keepsCustody (s : State) : Act → Bool
  | .saveState _ _ | .close .. => s.running.all fun sess => saveKeepsMark cfg sess.vb
  | .reopen n run =>
    decide (s.custody = .anywhere ∨ s.custody = .node n) &&
      findsNewest s.disks n run.readable &&
      (selected s.disks n).all (mintedOrFresh cfg)
  | _ => true

/-- `SeqNum` of an open volume is at least every number in its map; what was
uploaded is in the map, and what was drained is in the live checkpoint. -/
def SeqNumCovers (s : State) : Prop :=
  ∀ sess, s.running = some sess → (∀ block loc,
      lookupBlockToObject cfg.blockStride sess.vb.blocksToObject.blockLookup block =
        some loc → loc.seqNum ≤ sess.vb.seqNum) ∧
      (∀ r ∈ sess.uploaded, InMap cfg sess.vb.blocksToObject r) ∧
      ∀ r ∈ sess.drained, InLive s.disks.backend r

/-- A volume that has a `config.json` on the backend and nothing else. -/
def created (c : VBState) : State where
  disks := ⟨fun _ => ⟨none, ∅, []⟩, ⟨some c, ∅, none, ∅⟩⟩
  running := none
  custody := .anywhere

/-- The invariant of runs. -/
def Kept (s : State) : Prop :=
  match s.custody, s.running with
  | .lost, none => True
  | .anywhere, none => ∃ c, Resting cfg s.disks c
  | .node n, none => Recoverable cfg s.disks n
  | .node n, some sess => sess.node = n ∧ Serving cfg s.disks sess
  | _, some _ => False

variable {cfg}

theorem resting_created (c : VBState) :
    Resting cfg (created c).disks c := by
  have hsaved : ∀ records, ¬ Saved (created c).disks records := by
    rintro records ((hlive | ⟨k, hk⟩) | ⟨m, k, hk⟩)
    · simp [created] at hlive
    · simp [created] at hk
    · simp [created] at hk
  refine ⟨fun records hrecords => absurd hrecords (hsaved records), rfl, ?_, ?_⟩
  · intro m c' hc'
    simp [created] at hc'
  · rintro q (⟨records, hrecords, -⟩ | ⟨m, file, hfile, -⟩)
    · exact absurd hrecords (hsaved records)
    · simp [created] at hfile

theorem Kept.serving {s : State} {sess : Session} (hkept : Kept cfg s)
    (hrunning : s.running = some sess) :
    s.custody = .node sess.node ∧ Serving cfg s.disks sess := by
  unfold Kept at hkept
  rw [hrunning] at hkept
  cases hcustody : s.custody with
  | anywhere | lost =>
    simp [hcustody] at hkept
  | node n =>
    simp only [hcustody] at hkept
    exact ⟨by rw [hkept.1], hkept.2⟩

theorem kept_of_serving {s : State} {sess : Session} (hrunning : s.running = some sess)
    (hcustody : s.custody = .node sess.node) (hserving : Serving cfg s.disks sess) :
    Kept cfg s := by
  unfold Kept
  rw [hrunning, hcustody]
  exact ⟨rfl, hserving⟩

theorem kept_of_recoverable {s : State} {n : Nat} (hrunning : s.running = none)
    (hcustody : s.custody = .node n) (hleft : Recoverable cfg s.disks n) :
    Kept cfg s := by
  unfold Kept
  rw [hrunning, hcustody]
  exact hleft

theorem Kept.recoverable {s : State} {n : Nat} (hkept : Kept cfg s) (hrunning : s.running = none)
    (hcustody : s.custody = .anywhere ∨ s.custody = .node n) :
    Recoverable cfg s.disks n := by
  unfold Kept at hkept
  rw [hrunning] at hkept
  rcases hcustody with hcustody | hcustody
  · rw [hcustody] at hkept
    obtain ⟨c, hc⟩ := hkept
    exact hc.recoverable n
  · rw [hcustody] at hkept
    exact hkept

theorem Kept.lose {s : State} (hkept : Kept cfg s) (n : Nat) :
    Kept cfg
      { disks := s.disks.lose n
        running := s.running.filter fun sess => sess.node != n
        custody := if s.custody = .node n then .lost else s.custody } := by
  cases hrunning : s.running with
  | none =>
    unfold Kept at hkept ⊢
    rw [hrunning] at hkept
    cases hcustody : s.custody with
    | lost => simp
    | anywhere =>
      rw [hcustody] at hkept
      obtain ⟨c, hc⟩ := hkept
      simpa using ⟨c, hc.lose n⟩
    | node m =>
      rw [hcustody] at hkept
      by_cases hm : m = n
      · simp [hm]
      · have hne : Custody.node m ≠ .node n := by simpa using hm
        simp only [if_neg hne, Option.filter_none]
        exact Recoverable.lose hkept hm
  | some sess =>
    obtain ⟨hcustody, hserving⟩ := hkept.serving hrunning
    by_cases hnode : sess.node = n
    · have hstopped : Option.filter (fun sess => sess.node != n) (some sess) = none := by
        simp [hnode]
      unfold Kept
      rw [hcustody, if_pos (by rw [hnode]), hstopped]
      trivial
    · refine kept_of_serving ?_ ?_ (hserving.lose hnode)
      · simp [hnode]
      · simp [hcustody, hnode]

/-- Every step that keeps custody preserves the invariant. -/
theorem Kept.step (hsmall : SmallChunks cfg) {s s' : State} {a : Act} (hkept : Kept cfg s)
    (hallowed : keepsCustody cfg s a = true) (hstep : step cfg s a = some s') :
    Kept cfg s' := by
  revert hallowed hstep
  fun_cases ReopenSystem.step cfg s a <;> intro hallowed hstep <;> cases hstep
  case case14 n => exact hkept.lose n
  case case20 n run hrunning v ok hopen =>
    simp only [keepsCustody, Bool.and_eq_true, decide_eq_true_eq] at hallowed
    obtain ⟨⟨hcustody, hfinds⟩, hminted⟩ := hallowed
    have hminted' : ∀ c, selected s.disks n = some c → mintedOrFresh cfg c = true := by
      intro c hc
      simpa [hc] using hminted
    obtain ⟨hleft, hserving⟩ :=
      (hkept.recoverable hrunning hcustody).openVolume hfinds hminted' hopen
    cases ok with
    | false => exact kept_of_recoverable rfl rfl hleft
    | true => exact kept_of_serving rfl rfl (hserving rfl)
  all_goals obtain ⟨hcustody, hserving⟩ := hkept.serving ‹s.running = _›
  · rename_i hguard _ _ hwrite
    exact kept_of_serving rfl (hcustody.trans (by rw [write_node hwrite]))
      (hserving.write hguard.1 hguard.2.1 hguard.2.2 hwrite)
  · exact kept_of_serving rfl hcustody (hserving.flush _)
  · rename_i hdrain
    exact kept_of_serving rfl (hcustody.trans (by rw [drain_node hdrain]))
      (hserving.drain hsmall hdrain)
  · rename_i hrunning _
    simp only [keepsCustody, hrunning, Option.all_some] at hallowed
    exact kept_of_serving rfl hcustody (hserving.saveState hallowed _ _)
  · rename_i sess _ htorn _
    have hnone : ∀ r ∈ ([] : List Block), r ∈ sess.wal.records ++ sess.writes := by
      simp
    obtain ⟨hcounted, -⟩ := hserving.leaveSegment
      (fun r hr => List.mem_of_mem_take hr) htorn hnone
    exact kept_of_recoverable rfl hcustody hcounted.recoverable
  · rename_i hrunning _ hclose
    simp only [keepsCustody, hrunning, Option.all_some] at hallowed
    exact kept_of_recoverable rfl hcustody (hserving.closeSaves hsmall hallowed hclose).1
  · rename_i removed sess hrunning _ hclose
    simp only [keepsCustody, hrunning, Option.all_some] at hallowed
    obtain ⟨c, hc⟩ := (hserving.closeSaves hsmall hallowed hclose).2 rfl
    refine ⟨c, ?_⟩
    cases removed with
    | true => exact hc.lose sess.node
    | false => exact hc

/-- In every run that keeps custody, `SeqNum` of an open volume is at least every
number in its block map, every block of the session that was uploaded is in the
map, and every one that a drain has saved is in the live checkpoint. -/
theorem reopen_seqNum_covers (hsmall : SmallChunks cfg) (c : VBState) {acts : List Act} {s : State}
    (hrun : Run (step cfg) (fun s a => keepsCustody cfg s a = true) (created c) acts s) :
    SeqNumCovers cfg s := by
  have hkept : Kept cfg s :=
    hrun.preserves (fun _ _ _ hs hallowed hstep => hs.step hsmall hallowed hstep)
      ⟨c, resting_created c⟩
  intro sess hrunning
  obtain ⟨-, hserving⟩ := hkept.serving hrunning
  refine ⟨?_, hserving.uploaded, fun r hr => (hserving.drained r hr).2⟩
  intro block loc hloc
  exact hserving.counted.le_seqNum _ (.inr (.inl ⟨block, loc, hloc, rfl⟩))

end Runs

section Traces

/-- A new volume's state. -/
def firstState : VBState := ⟨0, 0, 0, false, 0, 1⟩

def openRun : OpenRun :=
  ⟨true, .ok, .ok, ⟨fun _ => .ok, .ok, .ok, .ok, .ok, .ok, fun _ => true⟩, false,
    ⟨"wal.00000000.bin", 0, []⟩⟩

/-- A drain of one block. -/
def drainRun : DrainRun :=
  ⟨1, [⟨0, .ok⟩], .ok, ⟨"wal.00000001.bin", 0, []⟩⟩

/-- A block is written and drained, and the node crashes. -/
def drainedThenCrashed : List Act :=
  [.reopen 0 openRun, .write 0 [7] .ok .ok, .drain drainRun, .crash 0 []]

/-- `SeqNum`, and where block 0 is. -/
def summary (s : State) : Option (Nat × Option Location) :=
  s.running.map fun sess =>
    (sess.vb.seqNum,
      lookupBlockToObject Config.tiny.blockStride sess.vb.blocksToObject.blockLookup 0)

theorem not_seqNumCovers_of_summary {s : State} {seqNum : Nat} {loc : Location}
    (hsummary : summary s = some (seqNum, some loc)) (hlt : seqNum < loc.seqNum) :
    ¬ SeqNumCovers Config.tiny s := by
  intro hcovers
  obtain ⟨sess, hrunning, heq⟩ := Option.map_eq_some_iff.mp hsummary
  obtain ⟨rfl, hloc⟩ := Prod.mk.inj heq
  have hle := (hcovers sess hrunning).1 0 loc hloc
  omega

/-- On the node that crashed the log brings the counter up. -/
theorem reopen_at_home_covers :
    ∃ s, Run (step Config.tiny) (fun s a => keepsCustody Config.tiny s a = true)
        (created firstState) (drainedThenCrashed ++ [.reopen 0 openRun]) s ∧
      summary s = some (1, some ⟨0, 10, 1⟩) ∧ SeqNumCovers Config.tiny s := by
  obtain ⟨s, hrun, hsummary⟩ := Run.exists_of_exec (step Config.tiny)
    (fun s a => keepsCustody Config.tiny s a = true) (created firstState)
    (drainedThenCrashed ++ [.reopen 0 openRun])
    (fun s => summary s == some (1, some ⟨0, 10, 1⟩)) (by decide +kernel)
  exact ⟨s, hrun, by simpa using hsummary, reopen_seqNum_covers (by decide) firstState hrun⟩

/-- Opened on another node the volume starts over at 0, below the drained block,
and the guard drops the next write of that block: the map stays at chunk 0. -/
theorem reopen_elsewhere_regresses :
    ∃ s s', Run (step Config.tiny) (fun _ _ => True) (created firstState)
        (drainedThenCrashed ++ [.reopen 1 openRun]) s ∧
      ¬ SeqNumCovers Config.tiny s ∧
      Run (step Config.tiny) (fun _ _ => True) s
        [.write 0 [8] .ok .ok, .drain drainRun] s' ∧
      summary s' = some (1, some ⟨0, 10, 1⟩) ∧
      s'.running.map Session.drained = some [⟨[8], 1, 0, 1⟩] := by
  let dropped : State → Bool := fun s' =>
    summary s' == some (1, some ⟨0, 10, 1⟩) &&
      s'.running.map Session.drained == some [⟨[8], 1, 0, 1⟩]
  obtain ⟨s, hrun, htest⟩ := Run.exists_of_exec (step Config.tiny) (fun _ _ => True)
    (created firstState) (drainedThenCrashed ++ [.reopen 1 openRun])
    (fun s => summary s == some (0, some ⟨0, 10, 1⟩) &&
      (exec (step Config.tiny) (fun _ _ => True) s
        [.write 0 [8] .ok .ok, .drain drainRun]).any dropped)
    (by decide +kernel)
  simp only [Bool.and_eq_true, beq_iff_eq] at htest
  obtain ⟨s', hrun', htest'⟩ := Run.exists_of_exec _ _ _ _ _ htest.2
  simp only [dropped, Bool.and_eq_true, beq_iff_eq] at htest'
  exact ⟨s, s', hrun, not_seqNumCovers_of_summary htest.1 (by decide), hrun', htest'⟩

end Traces

end ReopenSystem

end Viperblock
