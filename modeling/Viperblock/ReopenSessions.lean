import Viperblock.ReopenCounters

/-!
# Sessions of a volume

What the steps of a session preserve: besides the counters, that the blocks
still to be drained are newer than the whole block map.  Therefore the staleness
guard lets every run of a drain through, and what a drain has uploaded is in the
map and, once the drain returns, in the live checkpoint.
-/

namespace Viperblock

namespace ReopenSystem

open GuardedRun BlockMap BlocksToObject Volume
open SeqNumSystem (seqNumReservation raiseWindows)

section Sessions

variable (cfg : Config)

/-- The map holds the block in this version or a newer one. -/
def InMap (b : BlocksToObject) (r : Block) : Prop :=
  ∃ loc, lookupBlockToObject cfg.blockStride b.blockLookup r.block = some loc ∧
    r.seqNum ≤ loc.seqNum

/-- The saved live checkpoint holds the block in this version or a newer one. -/
def InLive (b : Backend) (r : Block) : Prop :=
  ∃ records rec, b.live = some records ∧
    (flatRecords records).lookup r.block = some rec ∧ r.seqNum ≤ rec.seqNum

/-- The invariant of a session. -/
structure Serving (d : Disks) (sess : Session) : Prop where
  counted : Counted cfg d sess.node sess.vb (sess.wal.records ++ sess.writes)
  sound : sess.vb.blocksToObject.Sound
  objectID_lt : ChunksBelow cfg.blockStride sess.vb.blocksToObject.blockLookup sess.vb.objectNum
  newer : ∀ q, Mapped cfg sess.vb q → ∀ r ∈ sess.wal.records ++ sess.writes, q < r.seqNum
  increasing : (sess.wal.records ++ sess.writes).Pairwise fun a b => a.seqNum < b.seqNum
  fits : ∀ r ∈ sess.wal.records ++ sess.writes, r.Fits cfg
  uploaded : ∀ r ∈ sess.uploaded, InMap cfg sess.vb.blocksToObject r
  drained : ∀ r ∈ sess.drained, r ∈ sess.uploaded ∧ InLive d.backend r
  clean : sess.vb.dirty = false → ∀ r ∈ sess.uploaded, InLive d.backend r

variable {cfg} {d d' : Disks} {sess sess' : Session}

theorem InLive.of_live_eq {b b' : Backend} {r : Block} (hlive : b'.live = b.live)
    (hr : InLive b r) :
    InLive b' r := by
  obtain ⟨records, rec, hrecords, hrec⟩ := hr
  exact ⟨records, rec, hlive.trans hrecords, hrec⟩

theorem Serving.of_sameMap (hserving : Serving cfg d sess)
    (hcounted : Counted cfg d' sess'.node sess'.vb (sess'.wal.records ++ sess'.writes))
    (hmap : sess'.vb.blocksToObject = sess.vb.blocksToObject)
    (hobjectNum : sess'.vb.objectNum = sess.vb.objectNum) (hdirty : sess'.vb.dirty = sess.vb.dirty)
    (hlive : d'.backend.live = d.backend.live)
    (hheld : ∀ r ∈ sess'.wal.records ++ sess'.writes, r ∈ sess.wal.records ++ sess.writes ∨
      sess.vb.seqNum < r.seqNum ∧ r.Fits cfg)
    (hincreasing : (sess'.wal.records ++ sess'.writes).Pairwise fun a b => a.seqNum < b.seqNum)
    (huploaded : sess'.uploaded = sess.uploaded) (hdrained : sess'.drained = sess.drained) :
    Serving cfg d' sess' := by
  refine ⟨hcounted, ?_, ?_, ?_, hincreasing, ?_, ?_, ?_, ?_⟩
  · rw [hmap]
    exact hserving.sound
  · rw [hmap, hobjectNum]
    exact hserving.objectID_lt
  · intro q hq r hr
    rw [Mapped, hmap] at hq
    rcases hheld r hr with hold | ⟨hlt, -⟩
    · exact hserving.newer q hq r hold
    · exact (hserving.counted.le_seqNum q (.inr (.inl hq))).trans_lt hlt
  · intro r hr
    rcases hheld r hr with hold | ⟨-, hfits⟩
    · exact hserving.fits r hold
    · exact hfits
  · rw [hmap, huploaded]
    exact hserving.uploaded
  · rw [hdrained, huploaded]
    exact fun r hr => ⟨(hserving.drained r hr).1, (hserving.drained r hr).2.of_live_eq hlive⟩
  · rw [hdirty, huploaded]
    exact fun hclean r hr => (hserving.clean hclean r hr).of_live_eq hlive

theorem Serving.counted_put (hserving : Serving cfg d sess) :
    Counted cfg (d.put sess.node (d.volume sess.node sess.vb)) sess.node
      (d.volume sess.node sess.vb).vb (sess.wal.records ++ sess.writes) := by
  rw [Disks.put_volume]
  exact hserving.counted

theorem Serving.write (hserving : Serving cfg d sess)
    {block : Nat} {data : Bytes} {disk backend : Outcome} (hdata : data.length = cfg.blockSize)
    (hblock : block < 2 ^ 64) (hseqNum : sess.vb.seqNum + 1 < 2 ^ 64)
    (hwrite : write cfg d sess block data disk backend = (d', sess')) :
    Serving cfg d' sess' := by
  have hsame := reserveSeqNum_sameBlocks cfg (d.volume sess.node sess.vb) disk backend
  unfold ReopenSystem.write at hwrite
  cases hreserve : (d.volume sess.node sess.vb).reserveSeqNum cfg disk backend with
  | mk v res =>
    rw [hreserve] at hwrite hsame
    obtain ⟨hcounted, hadded, hissued⟩ := hserving.counted_put.reserveSeqNum hreserve
    cases res with
    | none =>
      cases hwrite
      exact hserving.of_sameMap hcounted hsame.blocksToObject hsame.objectNum
        hsame.dirty hsame.live (fun _ => .inl) hserving.increasing rfl rfl
    | some seqNum =>
      obtain ⟨rfl, hceiling⟩ := hissued seqNum rfl
      cases hwrite
      have hlt : ∀ r ∈ sess.wal.records ++ sess.writes, r.seqNum < sess.vb.seqNum + 1 := by
        intro r hr
        exact Nat.lt_succ_of_le
          (hserving.counted.le_seqNum _ (.inr (.inr ⟨r, hr, rfl⟩)))
      refine hserving.of_sameMap ?_ hsame.blocksToObject hsame.objectNum
        hsame.dirty hsame.live ?_ ?_ rfl rfl
      · refine hcounted.hold_more ⟨rfl, rfl, rfl, rfl⟩ ?_
        intro r hr
        rw [← List.append_assoc, List.mem_append, List.mem_singleton] at hr
        rcases hr with hr | rfl
        · exact .inl hr
        · exact .inr ⟨hadded.ge, hceiling⟩
      · intro r hr
        rw [← List.append_assoc, List.mem_append, List.mem_singleton] at hr
        rcases hr with hr | rfl
        · exact .inl hr
        · refine .inr ⟨Nat.lt_succ_self _, hdata, hseqNum, hblock, ?_⟩
          exact cfg.blockSize_lt.trans (by decide)
      · dsimp only
        rw [← List.append_assoc, List.pairwise_append]
        refine ⟨hserving.increasing, List.pairwise_singleton _ _, ?_⟩
        intro a ha b hb
        obtain rfl := List.mem_singleton.mp hb
        exact hlt a ha

theorem flush_sublist (sess : Session) (count : Nat) :
    ((sess.flush count).wal.records ++ (sess.flush count).writes).Sublist
      (sess.wal.records ++ sess.writes) := by
  have hfilter : sess.writes.filter
        (fun b => !(sess.writes.take count).any (·.block == b.block)) =
      (sess.writes.drop count).filter
        fun b => !(sess.writes.take count).any (·.block == b.block) := by
    conv_lhs => rw [← List.take_append_drop count sess.writes, List.filter_append]
    rw [List.take_append_drop, List.filter_eq_nil_iff.mpr, List.nil_append]
    intro b hb
    simp only [Bool.not_eq_true', Bool.not_eq_false, List.any_eq_true, beq_iff_eq]
    exact ⟨b, hb, rfl⟩
  simp only [Session.flush, hfilter, List.append_assoc]
  refine List.Sublist.append_left ?_ _
  conv_rhs => rw [← List.take_append_drop count sess.writes]
  exact List.filter_sublist.append_left _

theorem Serving.flush (hserving : Serving cfg d sess) (count : Nat) :
    Serving cfg d (sess.flush count) := by
  have hsublist := flush_sublist sess count
  refine hserving.of_sameMap ?_ rfl rfl rfl rfl (fun r hr => .inl (hsublist.subset hr))
    (hserving.increasing.sublist hsublist) rfl rfl
  exact hserving.counted.transfer hserving.sound.wf ⟨rfl, rfl, rfl⟩ (fun _ => rfl) rfl
    (fun _ => .inl) (fun _ _ => .inl) (fun _ => id) (fun _ => .inl)
    fun _ hr => hsublist.subset hr

theorem validRecords_segment {records : List Block} {torn : Bytes} (timestamp : Nat)
    (hfits : ∀ r ∈ records, r.Fits cfg) (htorn : torn.length < cfg.recordSize) :
    validRecords cfg (cfg.segment timestamp records ++ torn) = records := by
  simp only [validRecords, Config.readWALFileForRecovery_segment timestamp hfits htorn]

theorem Serving.leaveSegment (hserving : Serving cfg d sess)
    {records held : List Block} {torn : Bytes} (hrecords : ∀ r ∈ records, r ∈ sess.wal.records)
    (htorn : torn.length < cfg.recordSize)
    (hheld : ∀ r ∈ held, r ∈ sess.wal.records ++ sess.writes) :
    let v := leaveSegment d sess (cfg.segment sess.wal.timestamp records ++ torn)
    Counted cfg (d.put sess.node v) sess.node sess.vb held ∧
      ∀ r ∈ records, Logged cfg v.files r.seqNum := by
  have hmem : ∀ r ∈ records, r ∈ sess.wal.records ++ sess.writes :=
    fun r hr => List.mem_append_left _ (hrecords r hr)
  have hvalid := validRecords_segment sess.wal.timestamp
    (fun r hr => hserving.fits r (hmem r hr)) htorn
  refine ⟨?_, fun r hr => ⟨_, List.mem_append_right _ List.mem_cons_self, r, ?_, rfl⟩⟩
  · refine hserving.counted_put.transfer hserving.sound.wf ⟨rfl, rfl, rfl⟩
      (Disks.put_nodes_congr LocalFiles.config rfl) rfl ?_ ?_ ?_ (fun _ => .inl) hheld
    · exact fun saved hsaved =>
        .inl ((saved_put_iff (by rfl) (by rfl) (by rfl) _ _ saved).mp hsaved)
    · intro m q hq
      rw [Disks.put_volume]
      by_cases hm : m = sess.node
      · subst hm
        rw [Disks.put_nodes_self] at hq
        obtain ⟨file, hfile, r, hr, rfl⟩ := hq
        rcases List.mem_append.mp hfile with hold | hnew
        · exact .inl ⟨file, hold, r, hr, rfl⟩
        · obtain rfl := List.mem_singleton.mp hnew
          rw [hvalid] at hr
          exact .inr ⟨rfl, r, hmem r hr, rfl⟩
      · rw [Disks.put_nodes_of_ne _ _ _ hm] at hq
        exact .inl hq
    · rw [Disks.put_nodes_self, Disks.put_nodes_self]
      rintro q ⟨file, hfile, r, hr, rfl⟩
      exact ⟨file, List.mem_append_left _ hfile, r, hr, rfl⟩
  · rw [hvalid]
    exact hr

end Sessions

section Uploads

variable {cfg : Config}

/-- The runs a drain publishes, in the order of its uploads. -/
def uploadRuns (jobs : List (List Block)) : Nat → List Upload → List PlacedRun
  | _, [] => []
  | chunkIndex, u :: uploads =>
    (if u.out.isOk then placedRuns chunkIndex [(jobs[u.job]?).getD []] else []) ++
      uploadRuns jobs (chunkIndex + 1) uploads

theorem publishChunk_eq_foldl (stride chunkIndex : Nat) (b : BlocksToObject) (job : List Block) :
    publishChunk stride chunkIndex b job =
      (placedRuns chunkIndex [job]).foldl (publishPlaced stride) b := by
  rw [placedRuns, List.foldl_append, List.foldl_map]
  rfl

/-- Chunks were stored, and `runs` are what was published of them. -/
structure Uploaded (cfg : Config) (runs : List PlacedRun) (count : Nat) (published : Bool)
    (v v' : Volume) : Prop where
  blocksToObject : v'.vb.blocksToObject =
    runs.foldl (publishPlaced cfg.blockStride) v.vb.blocksToObject
  objectNum : v'.vb.objectNum = v.vb.objectNum + count
  dirty : v'.vb.dirty = (v.vb.dirty || published)
  seqNum : v'.vb.seqNum = v.vb.seqNum
  highWater : v'.vb.seqNumHighWater = v.vb.seqNumHighWater
  next : v'.vb.nextStateSeqNum = v.vb.nextStateSeqNum
  files : v'.files = v.files
  config : v'.backend.config = v.backend.config
  live : v'.backend.live = v.backend.live
  numbered : v'.backend.numbered = v.backend.numbered
  volumeUUID : v'.vb.volumeUUID = v.vb.volumeUUID

theorem Uploaded.sameRecords {runs : List PlacedRun} {count : Nat} {published : Bool}
    {v v' : Volume} (hup : Uploaded cfg runs count published v v') :
    SameRecords v v' :=
  ⟨by rw [hup.files], by rw [hup.files], hup.live, hup.numbered⟩

theorem Uploaded.trans
    {runs runs' : List PlacedRun} {count count' : Nat} {published published' : Bool}
    {v v' v'' : Volume} (hfirst : Uploaded cfg runs count published v v')
    (hrest : Uploaded cfg runs' count' published' v' v'') :
    Uploaded cfg (runs ++ runs') (count + count') (published || published') v v'' := by
  refine ⟨?_, ?_, ?_, hrest.seqNum.trans hfirst.seqNum,
    hrest.highWater.trans hfirst.highWater, hrest.next.trans hfirst.next,
    hrest.files.trans hfirst.files, hrest.config.trans hfirst.config,
    hrest.live.trans hfirst.live, hrest.numbered.trans hfirst.numbered,
    hrest.volumeUUID.trans hfirst.volumeUUID⟩
  · rw [hrest.blocksToObject, hfirst.blocksToObject, List.foldl_append]
  · rw [hrest.objectNum, hfirst.objectNum, Nat.add_assoc]
  · rw [hrest.dirty, hfirst.dirty, Bool.or_assoc]

theorem Uploaded.refl (v : Volume) :
    Uploaded cfg [] 0 false v v :=
  ⟨rfl, rfl, (Bool.or_false _).symm, rfl, rfl, rfl, rfl, rfl, rfl, rfl, rfl⟩

theorem uploaded_createChunkFile (cfg : Config) (v : Volume) (job : List Block) (out : Outcome) :
    Uploaded cfg (if out.isOk then placedRuns v.vb.objectNum [job] else []) 1 out.isOk v
        (v.createChunkFile cfg job out).1 ∧
      (v.createChunkFile cfg job out).2 = out.isOk := by
  have hfold := foldl_publishRun cfg.blockStride v.vb.objectNum (chunkRuns job)
    { v.vb with objectNum := v.vb.objectNum + 1 }
  unfold Volume.createChunkFile
  cases out with
  | ok =>
    simp only [Outcome.isOk, Outcome.lands, if_true]
    rw [hfold]
    refine ⟨⟨?_, rfl, by simp, rfl, rfl, rfl, rfl, rfl, rfl, rfl, rfl⟩, trivial⟩
    rw [← publishChunk_eq_foldl]
    rfl
  | failed | landed =>
    exact ⟨⟨rfl, rfl, by simp [Outcome.isOk], rfl, rfl, rfl, rfl, rfl, rfl, rfl, rfl⟩, rfl⟩

theorem uploaded_uploadJobs
    (cfg : Config) (jobs : List (List Block)) (uploads : List Upload) (v : Volume) :
    Uploaded cfg (uploadRuns jobs v.vb.objectNum uploads) uploads.length
        (uploads.any fun u => u.out.isOk) v (uploadJobs cfg jobs uploads v).1 ∧
      (uploadJobs cfg jobs uploads v).2 =
        (uploadRuns jobs v.vb.objectNum uploads).flatMap PlacedRun.blocks := by
  induction uploads generalizing v with
  | nil => exact ⟨Uploaded.refl v, rfl⟩
  | cons u uploads ih =>
    obtain ⟨hfirst, hok⟩ := uploaded_createChunkFile cfg v
      ((jobs[u.job]?).getD []) u.out
    have hstep : uploadJobs cfg jobs (u :: uploads) v =
        let next := (v.createChunkFile cfg ((jobs[u.job]?).getD []) u.out).1
        ((uploadJobs cfg jobs uploads next).1,
          (if u.out.isOk then (jobs[u.job]?).getD [] else []) ++
            (uploadJobs cfg jobs uploads next).2) := by
      rw [← hok]
      rfl
    rw [hstep]
    generalize (v.createChunkFile cfg ((jobs[u.job]?).getD []) u.out).1 = next at hfirst
    obtain ⟨hrest, hblocks⟩ := ih next
    rw [hfirst.objectNum] at hrest hblocks
    constructor
    · rw [List.length_cons, Nat.add_comm, List.any_cons]
      exact hfirst.trans hrest
    · simp only [hblocks, uploadRuns, List.flatMap_append]
      congr 1
      split
      · rw [flatten_placedRuns, List.flatten_cons, List.flatten_nil, List.append_nil]
      · rfl

section

variable {jobs : List (List Block)} {uploads : List Upload}

theorem uploadRuns_of_failed {chunkIndex : Nat}
    (hfailed : (uploads.any fun u => u.out.isOk) = false) :
    uploadRuns jobs chunkIndex uploads = [] := by
  induction uploads generalizing chunkIndex with
  | nil => rfl
  | cons u uploads ih =>
    rw [List.any_cons, Bool.or_eq_false_iff] at hfailed
    rw [uploadRuns, hfailed.1, ih hfailed.2]
    rfl

theorem exists_of_mem_uploadRuns {chunkIndex : Nat} {r : PlacedRun}
    (hr : r ∈ uploadRuns jobs chunkIndex uploads) :
    ∃ u ∈ uploads, ∃ id, chunkIndex ≤ id ∧ id < chunkIndex + uploads.length ∧
      r ∈ placedRuns id [(jobs[u.job]?).getD []] := by
  induction uploads generalizing chunkIndex with
  | nil => simp [uploadRuns] at hr
  | cons u uploads ih =>
    rw [uploadRuns, List.mem_append] at hr
    rcases hr with hr | hr
    · split at hr
      · exact ⟨u, by simp, chunkIndex, le_rfl, by simp, hr⟩
      · simp at hr
    · obtain ⟨u', hu', id, hle, hlt, hr⟩ := ih hr
      exact ⟨u', by simp [hu'], id, by omega, by simp; omega, hr⟩

theorem block_ne_of_jobs (hapart : jobs.flatten.Pairwise fun a b => a.block ≠ b.block) {i j : Nat}
    {a b : Block} (hij : i ≠ j) (ha : a ∈ (jobs[i]?).getD []) (hb : b ∈ (jobs[j]?).getD []) :
    a.block ≠ b.block := by
  have hpairwise := List.pairwise_iff_getElem.mp (List.pairwise_flatten.mp hapart).2
  have hbound : ∀ {k : Nat} {c : Block}, c ∈ (jobs[k]?).getD [] →
      ∃ hk : k < jobs.length, c ∈ jobs[k] := by
    intro k c hc
    by_cases hk : k < jobs.length
    · rw [List.getElem?_eq_getElem hk] at hc
      exact ⟨hk, hc⟩
    · rw [List.getElem?_eq_none (by omega)] at hc
      simp at hc
  obtain ⟨hi, ha⟩ := hbound ha
  obtain ⟨hj, hb⟩ := hbound hb
  rcases Nat.lt_or_gt_of_ne hij with hlt | hgt
  · exact hpairwise i j hi hj hlt a ha b hb
  · exact (hpairwise j i hj hi hgt b hb a ha).symm

theorem mem_job_of_mem_uploadRuns {chunkIndex : Nat} {w : Block}
    (hw : w ∈ (uploadRuns jobs chunkIndex uploads).flatMap PlacedRun.blocks) :
    ∃ u ∈ uploads, w ∈ (jobs[u.job]?).getD [] := by
  obtain ⟨r, hr, hw⟩ := List.mem_flatMap.mp hw
  obtain ⟨u, hu, id, -, -, hr⟩ := exists_of_mem_uploadRuns hr
  have hmem : w ∈ (placedRuns id [(jobs[u.job]?).getD []]).flatMap PlacedRun.blocks :=
    List.mem_flatMap.mpr ⟨r, hr, hw⟩
  rw [flatten_placedRuns, List.flatten_cons, List.flatten_nil, List.append_nil] at hmem
  exact ⟨u, hu, hmem⟩

theorem placed_uploadRuns (hapart : jobs.flatten.Pairwise fun a b => a.block ≠ b.block)
    (hvalid : (uploads.map Upload.job).Nodup) (chunkIndex : Nat) :
    Placed chunkIndex (uploadRuns jobs chunkIndex uploads) := by
  have hjob : ∀ k : Nat, ((jobs[k]?).getD []).Pairwise fun a b => a.block ≠ b.block := by
    intro k
    cases hk : jobs[k]? with
    | none => exact List.Pairwise.nil
    | some job =>
      exact (List.pairwise_flatten.mp hapart).1 job (List.mem_of_getElem? hk)
  have hplaced : ∀ r ∈ uploadRuns jobs chunkIndex uploads, ∃ id, chunkIndex ≤ id ∧
      ∃ k : Nat, r ∈ placedRuns id [(jobs[k]?).getD []] ∧
        Placed id (placedRuns id [(jobs[k]?).getD []]) := by
    intro r hr
    obtain ⟨u, -, id, hle, -, hr⟩ := exists_of_mem_uploadRuns hr
    refine ⟨id, hle, u.job, hr, placed_placedRuns id ?_⟩
    simpa using hjob u.job
  refine ⟨?_, ?_, ?_, ?_⟩
  · intro r hr
    obtain ⟨id, -, k, hr, hruns⟩ := hplaced r hr
    exact hruns.nonempty r hr
  · intro r hr
    obtain ⟨id, -, k, hr, hruns⟩ := hplaced r hr
    exact hruns.chain r hr
  · clear hplaced
    induction uploads generalizing chunkIndex with
    | nil => exact List.Pairwise.nil
    | cons u uploads ih =>
      rw [List.map_cons, List.nodup_cons] at hvalid
      rw [uploadRuns, List.flatMap_append, List.pairwise_append]
      refine ⟨?_, ih hvalid.2 (chunkIndex + 1), ?_⟩
      · split
        · rw [flatten_placedRuns]
          simpa using hjob u.job
        · exact List.Pairwise.nil
      · intro a ha b hb
        obtain ⟨u', hu', hb⟩ := mem_job_of_mem_uploadRuns hb
        have hne : u.job ≠ u'.job := by
          intro heq
          apply hvalid.1
          rw [heq]
          exact List.mem_map_of_mem hu'
        refine block_ne_of_jobs hapart hne ?_ hb
        split at ha
        · simpa [flatten_placedRuns] using ha
        · simp at ha
  · intro r hr
    obtain ⟨id, hle, k, hr, hruns⟩ := hplaced r hr
    exact hle.trans (hruns.firstID_le r hr)

end

/-- A chunk of a drain has so few blocks that 16 bits count them. -/
def SmallChunks (cfg : Config) : Prop :=
  cfg.objBlockSize ≤ 65535 * cfg.blockSize

instance (cfg : Config) : Decidable (SmallChunks cfg) :=
  inferInstanceAs (Decidable (_ ≤ _))

theorem SmallChunks.length_le (hsmall : SmallChunks cfg) {blocks job : List Block}
    (hdata : ∀ b ∈ blocks, b.data.length = cfg.blockSize)
    (hjob : job ∈ chunkJobs cfg.objBlockSize blocks) :
    job.length ≤ 65535 := by
  rcases length_of_mem_chunkJobs hdata hjob with hle | hlt
  · omega
  · have hlt' := Nat.lt_of_mul_lt_mul_right (hlt.trans_le hsmall)
    omega

theorem index_lt_of_mem_uploadRuns
    {jobs : List (List Block)} {chunkIndex limit : Nat} {uploads : List Upload} {r : PlacedRun}
    (hjobs : ∀ job ∈ jobs, job.length ≤ limit) (hr : r ∈ uploadRuns jobs chunkIndex uploads)
    {i : Nat} {w : Block} (hw : r.blocks[i]? = some w) :
    i < limit := by
  obtain ⟨u, -, id, -, -, hr⟩ := exists_of_mem_uploadRuns hr
  obtain ⟨j, job, hjob, -, -, hget⟩ := exists_job_of_mem_placedRuns hr
  have hlt := (List.getElem?_eq_some_iff.mp (hget i w hw)).1
  have hmem : job ∈ [(jobs[u.job]?).getD []] := List.mem_of_getElem? hjob
  rw [List.mem_singleton] at hmem
  cases hu : jobs[u.job]? with
  | none =>
    rw [hu] at hmem
    subst hmem
    simp at hlt
  | some job' =>
    rw [hu, Option.getD_some] at hmem
    rw [hmem] at hlt
    have hle := hjobs job' (List.mem_of_getElem? hu)
    omega

end Uploads

section Drains

variable {cfg : Config} {d d' : Disks} {sess sess' : Session}

/-- What the uploads of a drain do to the map: their blocks are mapped, and every
other block stays where it is. -/
theorem lookup_uploads {b : BlocksToObject} {firstID : Nat} (hsound : b.Sound)
    (hlt : ChunksBelow cfg.blockStride b.blockLookup firstID) (hsmall : SmallChunks cfg)
    {records : List Block}
    (hdata : ∀ r ∈ records, r.data.length = cfg.blockSize)
    (hnewer : ∀ block loc, lookupBlockToObject cfg.blockStride b.blockLookup block =
      some loc → ∀ r ∈ records, loc.seqNum < r.seqNum)
    {uploads : List Upload}
    (hvalid : validUploads (chunkJobs cfg.objBlockSize records) uploads = true) :
    let runs := uploadRuns (chunkJobs cfg.objBlockSize records) firstID uploads
    let b' := runs.foldl (publishPlaced cfg.blockStride) b
    b'.Sound ∧ (∀ w ∈ runs.flatMap PlacedRun.blocks, w ∈ records) ∧
      (∀ w ∈ runs.flatMap PlacedRun.blocks, ∃ loc,
        lookupBlockToObject cfg.blockStride b'.blockLookup w.block = some loc ∧
          loc.seqNum = w.seqNum ∧ loc.objectID < firstID + uploads.length) ∧
      (∀ block, (∀ w ∈ runs.flatMap PlacedRun.blocks, w.block ≠ block) →
        lookupBlockToObject cfg.blockStride b'.blockLookup block =
          lookupBlockToObject cfg.blockStride b.blockLookup block) := by
  simp only [validUploads, Bool.and_eq_true, decide_eq_true_eq] at hvalid
  have hflat : (chunkJobs cfg.objBlockSize records).flatten = sortedBlocks records := by
    refine flatten_chunkJobs fun r hr hempty => ?_
    have hlength := hdata r hr
    have hpos := cfg.blockSize_pos
    rw [hempty, List.length_nil] at hlength
    omega
  have hapart : (chunkJobs cfg.objBlockSize records).flatten.Pairwise
      fun a b => a.block ≠ b.block := by
    rw [hflat]
    exact (sortedBlocks_pairwise records).imp Nat.ne_of_lt
  have hplaced := placed_uploadRuns hapart hvalid.1 firstID
  have hmem : ∀ w ∈ (uploadRuns (chunkJobs cfg.objBlockSize records) firstID
      uploads).flatMap PlacedRun.blocks, w ∈ records := by
    intro w hw
    obtain ⟨u, -, hw⟩ := mem_job_of_mem_uploadRuns hw
    refine (isNewest_of_mem_sortedBlocks ?_).mem
    rw [← hflat]
    cases hu : (chunkJobs cfg.objBlockSize records)[u.job]? with
    | none => simp [hu] at hw
    | some job =>
      rw [hu, Option.getD_some] at hw
      exact List.mem_flatten.mpr ⟨job, List.mem_of_getElem? hu, hw⟩
  obtain ⟨hsound', hinside, houtside⟩ :=
    publishAll_newer hsound hlt hplaced fun r hr w hw block loc hloc =>
      hnewer block loc hloc w (hmem w (List.mem_flatMap.mpr ⟨r, hr, hw⟩))
  refine ⟨hsound', hmem, ?_, houtside⟩
  intro w hw
  obtain ⟨r, hr, hwr⟩ := List.mem_flatMap.mp hw
  obtain ⟨i, hi⟩ := List.mem_iff_getElem?.mp hwr
  have hshort := index_lt_of_mem_uploadRuns
    (fun job hjob => hsmall.length_le hdata hjob) hr hi
  refine ⟨_, (hinside r hr i w hi).trans (if_pos hshort), rfl, ?_⟩
  obtain ⟨u, -, id, -, hid, hr⟩ := exists_of_mem_uploadRuns hr
  obtain ⟨j, job, hjob, hindex, -⟩ := exists_job_of_mem_placedRuns hr
  have hj := (List.getElem?_eq_some_iff.mp hjob).1
  simp only [List.length_singleton] at hj
  simp only [PlacedRun.location]
  omega

theorem Serving.uploads (hserving : Serving cfg d sess) (hsmall : SmallChunks cfg)
    (hrotated : sess.wal.records = []) {records : List Block}
    (hlogged : ∀ r ∈ records, Logged cfg (d.nodes sess.node) r.seqNum)
    (hnewer : ∀ q, Mapped cfg sess.vb q → ∀ r ∈ records, q < r.seqNum)
    (holder : ∀ r ∈ records, ∀ w ∈ sess.writes, r.seqNum < w.seqNum)
    (hdata : ∀ r ∈ records, r.data.length = cfg.blockSize) {uploads : List Upload}
    (hvalid : validUploads (chunkJobs cfg.objBlockSize records) uploads = true)
    {v : Volume} {uploaded : List Block}
    (hupload : uploadJobs cfg (chunkJobs cfg.objBlockSize records) uploads
      (d.volume sess.node sess.vb) = (v, uploaded)) :
    Serving cfg (d.put sess.node v)
      { sess with vb := v.vb, uploaded := sess.uploaded ++ uploaded } := by
  have hspec := uploaded_uploadJobs cfg (chunkJobs cfg.objBlockSize records) uploads
    (d.volume sess.node sess.vb)
  rw [hupload] at hspec
  obtain ⟨hup, hblocks⟩ := hspec
  obtain ⟨hsound, hmem, hinside, houtside⟩ := lookup_uploads hserving.sound
    hserving.objectID_lt hsmall hdata
    (fun block loc hloc => hnewer loc.seqNum ⟨block, loc, hloc, rfl⟩) hvalid
  dsimp only at hup hblocks
  simp only [Disks.volume] at hup hblocks
  rw [← hblocks] at hmem hinside houtside
  rw [← hup.blocksToObject] at hsound hinside houtside
  -- every block resolves as before or to a block of the drain
  have hlookup : ∀ block loc,
      lookupBlockToObject cfg.blockStride v.vb.blocksToObject.blockLookup block = some loc →
      lookupBlockToObject cfg.blockStride sess.vb.blocksToObject.blockLookup block = some loc ∨
        ∃ w ∈ uploaded, loc.seqNum = w.seqNum ∧ loc.objectID < v.vb.objectNum := by
    intro block loc hloc
    by_cases hin : ∃ w ∈ uploaded, w.block = block
    · obtain ⟨w, hw, rfl⟩ := hin
      obtain ⟨loc', hloc', hseqNum, hid⟩ := hinside w hw
      rw [hloc] at hloc'
      cases hloc'
      exact .inr ⟨w, hw, hseqNum, by rw [hup.objectNum]; exact hid⟩
    · simp only [not_exists, not_and] at hin
      rw [houtside block hin] at hloc
      exact .inl hloc
  have hmapped : ∀ q, Mapped cfg v.vb q → Mapped cfg sess.vb q ∨ ∃ w ∈ records, w.seqNum = q := by
    rintro q ⟨block, loc, hloc, rfl⟩
    rcases hlookup block loc hloc with hold | ⟨w, hw, hseqNum, -⟩
    · exact .inl ⟨block, loc, hold, rfl⟩
    · exact .inr ⟨w, hmem w hw, hseqNum.symm⟩
  refine ⟨?_, hsound, ?_, ?_, hserving.increasing, hserving.fits, ?_, ?_, ?_⟩
  · refine hserving.counted_put.transfer hserving.sound.wf
      ⟨hup.seqNum, hup.highWater, hup.next⟩ ?_ hup.config
      (fun saved hsaved => .inl ((hup.sameRecords.saved_iff d sess.node saved).mp hsaved))
      (fun m q hq => .inl ((hup.sameRecords.logged_iff d sess.node m q).mp hq))
      (fun q => (hup.sameRecords.logged_iff d sess.node sess.node q).mpr) ?_ fun _ => id
    · exact Disks.put_nodes_congr LocalFiles.config (congrArg LocalFiles.config hup.files)
    · intro q hq
      rw [Disks.put_volume]
      rcases hmapped q hq with hold | ⟨w, hw, rfl⟩
      · exact .inl hold
      · exact .inr (hlogged w hw)
  · intro block loc hloc
    rcases hlookup block loc hloc with hold | ⟨w, -, -, hlt⟩
    · have hlt := hserving.objectID_lt block loc hold
      rw [hup.objectNum]
      exact hlt.trans_le (Nat.le_add_right _ _)
    · exact hlt
  · intro q hq r hr
    rcases hmapped q hq with hold | ⟨w, hw, rfl⟩
    · exact hserving.newer q hold r hr
    · rw [hrotated, List.nil_append] at hr
      exact holder w hw r hr
  · intro r hr
    rcases List.mem_append.mp hr with hr | hr
    · obtain ⟨loc, hloc, hle⟩ := hserving.uploaded r hr
      by_cases hin : ∃ w ∈ uploaded, w.block = r.block
      · obtain ⟨w, hw, hblock⟩ := hin
        obtain ⟨loc', hloc', hseqNum, -⟩ := hinside w hw
        have hlt := hnewer loc.seqNum ⟨_, loc, hloc, rfl⟩ w (hmem w hw)
        exact ⟨loc', by rw [← hblock]; exact hloc', by omega⟩
      · simp only [not_exists, not_and] at hin
        exact ⟨loc, (houtside _ hin).trans hloc, hle⟩
    · obtain ⟨loc, hloc, hseqNum, -⟩ := hinside r hr
      exact ⟨loc, hloc, hseqNum.ge⟩
  · exact fun r hr => ⟨List.mem_append_left _ (hserving.drained r hr).1,
      (hserving.drained r hr).2.of_live_eq hup.live⟩
  · intro hclean r hr
    rw [hup.dirty, Bool.or_eq_false_iff] at hclean
    rw [hblocks, uploadRuns_of_failed hclean.2, List.flatMap_nil, List.append_nil] at hr
    exact (hserving.clean hclean.1 r hr).of_live_eq hup.live

theorem Serving.writeWALToChunk (hserving : Serving cfg d sess) (hsmall : SmallChunks cfg)
    {run : DrainRun} {ok : Bool} (hchunk : writeWALToChunk cfg d sess run = some (d', sess', ok)) :
    Serving cfg d' sess' := by
  have hwal : ∀ r ∈ sess.wal.records, r ∈ sess.wal.records ++ sess.writes :=
    fun r => List.mem_append_left _
  have hwrites : ∀ r ∈ sess.writes, r ∈ sess.wal.records ++ sess.writes :=
    fun r => List.mem_append_right _
  have hfits : ∀ r ∈ sess.wal.records, r.Fits cfg :=
    fun r hr => hserving.fits r (hwal r hr)
  have horder := List.pairwise_append.mp hserving.increasing
  have htorn : ([] : Bytes).length < cfg.recordSize := Config.recordSize_pos cfg
  obtain ⟨hclosed, hlogged⟩ := hserving.leaveSegment (fun _ => id) htorn hwrites
  rw [List.append_nil] at hclosed hlogged
  have hrotated : Serving cfg
      (d.put sess.node (ReopenSystem.leaveSegment d sess
        (cfg.segment sess.wal.timestamp sess.wal.records)))
      { sess with wal := { run.next with records := [] } } :=
    hserving.of_sameMap hclosed rfl rfl rfl rfl (fun r hr => .inl (hwrites r hr))
      horder.2.1 rfl rfl
  have hlogged' : ∀ r ∈ sess.wal.records, Logged cfg
      ((d.put sess.node (ReopenSystem.leaveSegment d sess
        (cfg.segment sess.wal.timestamp sess.wal.records))).nodes sess.node)
      r.seqNum := by
    rw [Disks.put_nodes_self]
    exact hlogged
  unfold ReopenSystem.writeWALToChunk at hchunk
  cases hread : cfg.readClosedSegment
      (cfg.segment sess.wal.timestamp sess.wal.records) with
  | error e =>
    simp only [hread, Option.some.injEq, Prod.mk.injEq] at hchunk
    obtain ⟨rfl, rfl, -⟩ := hchunk
    exact hrotated
  | ok blocks =>
    obtain rfl := Config.eq_of_readClosedSegment_segment hfits hread
    simp only [hread] at hchunk
    split at hchunk
    · rename_i hvalid
      simp only [Option.some.injEq, Prod.mk.injEq] at hchunk
      obtain ⟨rfl, rfl, -⟩ := hchunk
      have hdone := hrotated.uploads hsmall rfl hlogged'
        (fun q hq r hr => hserving.newer q hq r (hwal r hr)) horder.2.2
        (fun r hr => (hfits r hr).data) hvalid
        (congrArg (uploadJobs cfg _ _) (Disks.volume_put _ _ _))
      rwa [Disks.put_put] at hdone
    · simp at hchunk

theorem inLive_of_inMap {b : BlocksToObject} {backend : Backend} {r : Block} (hsound : b.Sound)
    (hlive : backend.live = some (checkpointRecords cfg.blockStride b.blockLookup))
    (hr : InMap cfg b r) :
    InLive backend r := by
  obtain ⟨loc, hloc, hle⟩ := hr
  rw [← lookup_checkpointRecords hsound.wf, Option.map_eq_some_iff] at hloc
  obtain ⟨rec, hrec, rfl⟩ := hloc
  exact ⟨_, rec, hlive, hrec, hle⟩

section

variable (hserving : Serving cfg d sess)

include hserving

theorem Serving.saveLive {out : Outcome} (hsave : saveLive cfg d sess out = (d', sess')) :
    Serving cfg d' sess' := by
  have hcounted := hserving.counted_put.savesCheckpoint hserving.sound.wf
    (savesCheckpoint_saveLiveCheckpoint cfg (d.volume sess.node sess.vb) out)
  unfold ReopenSystem.saveLive Volume.saveLiveCheckpoint at hsave
  unfold Volume.saveLiveCheckpoint at hcounted
  cases hdirty : sess.vb.dirty with
  | false =>
    have hclean : (d.volume sess.node sess.vb).vb.dirty = false := hdirty
    simp only [hclean, Bool.false_eq_true, if_false, if_true] at hsave hcounted
    cases hsave
    exact ⟨hcounted, hserving.sound, hserving.objectID_lt, hserving.newer,
      hserving.increasing, hserving.fits, hserving.uploaded,
      fun r hr => ⟨hr, hserving.clean hdirty r hr⟩, fun _ => hserving.clean hdirty⟩
  | true =>
    have hsaved : (d.volume sess.node sess.vb).vb.dirty = true := hdirty
    simp only [hsaved, if_true] at hsave hcounted
    cases hsave
    refine ⟨hcounted, hserving.sound, hserving.objectID_lt, hserving.newer,
      hserving.increasing, hserving.fits, hserving.uploaded, ?_, ?_⟩
    · intro r hr
      cases out with
      | ok =>
        exact ⟨hr, inLive_of_inMap hserving.sound rfl (hserving.uploaded r hr)⟩
      | failed => exact hserving.drained r hr
      | landed =>
        have hup := (hserving.drained r hr).1
        exact ⟨hup, inLive_of_inMap hserving.sound rfl (hserving.uploaded r hup)⟩
    · intro hclean r hr
      cases out with
      | ok => exact inLive_of_inMap hserving.sound rfl (hserving.uploaded r hr)
      | failed | landed =>
        simp [Outcome.isOk] at hclean

theorem Serving.drainChunks (hsmall : SmallChunks cfg) {run : DrainRun}
    (hdrain : drainChunks cfg d sess run = some (d', sess')) :
    Serving cfg d' sess' := by
  unfold ReopenSystem.drainChunks at hdrain
  split at hdrain
  · simp at hdrain
  · rename_i hchunk
    exact (hserving.writeWALToChunk hsmall hchunk).saveLive (Option.some.inj hdrain)
  · rename_i hchunk
    cases hdrain
    exact hserving.writeWALToChunk hsmall hchunk

theorem Serving.drain (hsmall : SmallChunks cfg) {run : DrainRun}
    (hdrain : drain cfg d sess run = some (d', sess')) :
    Serving cfg d' sess' := by
  unfold ReopenSystem.drain at hdrain
  dsimp only at hdrain
  split at hdrain
  · exact (hserving.flush _).drainChunks hsmall hdrain
  · cases hdrain
    exact hserving.flush _

theorem Serving.saveState (hmark : saveKeepsMark cfg sess.vb = true) (disk backend : Outcome) :
    let v := ((d.volume sess.node sess.vb).saveState cfg disk backend).1
    Serving cfg (d.put sess.node v) { sess with vb := v.vb } := by
  obtain ⟨hcounted, -⟩ := hserving.counted_put.saveState hmark disk backend
  obtain ⟨hsame, -⟩ := saveState_spec cfg (d.volume sess.node sess.vb) disk backend
  exact hserving.of_sameMap hcounted hsame.blocksToObject hsame.objectNum hsame.dirty
    hsame.live (fun _ => .inl) hserving.increasing rfl rfl

end

end Drains

section Ends

variable {cfg : Config} {d d' : Disks} {n : Nat} {sess sess' : Session}

variable {run : DrainRun}

theorem writeWALToChunk_frame {ok : Bool}
    (hchunk : writeWALToChunk cfg d sess run = some (d', sess', ok)) :
    sess'.node = sess.node ∧ saveKeepsMark cfg sess'.vb = saveKeepsMark cfg sess.vb := by
  unfold writeWALToChunk at hchunk
  cases hread : cfg.readClosedSegment
      (cfg.segment sess.wal.timestamp sess.wal.records) with
  | error e =>
    simp only [hread, Option.some.injEq, Prod.mk.injEq] at hchunk
    obtain ⟨-, rfl, -⟩ := hchunk
    exact ⟨rfl, rfl⟩
  | ok blocks =>
    simp only [hread] at hchunk
    split at hchunk
    · simp only [Option.some.injEq, Prod.mk.injEq] at hchunk
      obtain ⟨-, rfl, -⟩ := hchunk
      obtain ⟨hup, -⟩ := uploaded_uploadJobs cfg (chunkJobs cfg.objBlockSize blocks)
        run.uploads (leaveSegment d sess
          (cfg.segment sess.wal.timestamp sess.wal.records))
      exact ⟨rfl, saveKeepsMark_congr hup.volumeUUID hup.highWater⟩
    · simp at hchunk

theorem saveLive_frame (cfg : Config) (d : Disks) (sess : Session) (out : Outcome) :
    (saveLive cfg d sess out).2.node = sess.node ∧
      saveKeepsMark cfg (saveLive cfg d sess out).2.vb = saveKeepsMark cfg sess.vb := by
  cases hdirty : sess.vb.dirty <;>
    simp [saveLive, Volume.saveLiveCheckpoint, Disks.volume, hdirty, saveKeepsMark]

theorem drainChunks_frame (hdrain : drainChunks cfg d sess run = some (d', sess')) :
    sess'.node = sess.node ∧ saveKeepsMark cfg sess'.vb = saveKeepsMark cfg sess.vb := by
  unfold drainChunks at hdrain
  split at hdrain
  · simp at hdrain
  · rename_i d₁ sess₁ hchunk
    obtain ⟨hnode, hmark⟩ := writeWALToChunk_frame hchunk
    obtain ⟨hnode', hmark'⟩ := saveLive_frame cfg d₁ sess₁ run.live
    rw [Option.some.inj hdrain] at hnode' hmark'
    exact ⟨hnode'.trans hnode, hmark'.trans hmark⟩
  · rename_i hchunk
    cases hdrain
    exact writeWALToChunk_frame hchunk

theorem drain_node (hdrain : drain cfg d sess run = some (d', sess')) :
    sess'.node = sess.node := by
  unfold drain at hdrain
  dsimp only at hdrain
  split at hdrain
  · exact (drainChunks_frame hdrain).1
  · cases hdrain
    rfl

theorem write_node {block : Nat} {data : Bytes} {disk backend : Outcome}
    (hwrite : write cfg d sess block data disk backend = (d', sess')) :
    sess'.node = sess.node := by
  unfold write at hwrite
  split at hwrite <;>
  · cases hwrite
    rfl

theorem Settled.resting {v : Volume} {c : VBState} (hsettled : Settled cfg d n v c)
    (hoffset : ∀ records, Saved (d.put n v) records → ∀ rec ∈ records, rec.objectOffset < 2 ^ 32) :
    Resting cfg (d.put n v) c := by
  refine ⟨hoffset, hsettled.backendConfig, ?_, fun q hq => hsettled.covers q (.inl hq)⟩
  intro m c' hc'
  by_cases hm : m = n
  · subst hm
    rw [Disks.put_nodes_self, hsettled.localConfig] at hc'
    exact .inr (Option.some.inj hc').symm
  · rw [Disks.put_nodes_of_ne _ _ _ hm] at hc'
    exact .inl (hsettled.newest m hm c' hc')

/-- Whatever becomes of a shutdown, an open on its node can go on from it; one
that gets to the removal of the files leaves the volume at rest. -/
theorem Serving.closeSaves (hserving : Serving cfg d sess) (hsmall : SmallChunks cfg)
    (hmark : saveKeepsMark cfg sess.vb = true)
    {stateDisk stateBackend blockDisk blockBackend : Outcome} {ok : Bool}
    (hclose : closeSaves cfg d sess run stateDisk stateBackend blockDisk blockBackend =
      some (d', ok)) :
    Recoverable cfg d' sess.node ∧ (ok = true → ∃ c, Resting cfg d' c) := by
  unfold ReopenSystem.closeSaves at hclose
  split at hclose
  · simp at hclose
  rename_i d₁ sess₁ hdrain
  have hdrained := (hserving.flush run.flushed).drainChunks hsmall hdrain
  obtain ⟨hnode, hkeeps⟩ := drainChunks_frame hdrain
  have hmark' : saveKeepsMark cfg sess₁.vb = true := hkeeps.trans hmark
  obtain ⟨hsaved, hsettled⟩ :=
    hdrained.counted_put.saveState hmark' stateDisk stateBackend
  obtain ⟨hsame, -⟩ :=
    saveState_spec cfg (d₁.volume sess₁.node sess₁.vb) stateDisk stateBackend
  have hwf : ((d₁.volume sess₁.node sess₁.vb).saveState cfg stateDisk
      stateBackend).1.vb.blocksToObject.blockLookup.WellFormed := by
    rw [hsame.blocksToObject]
    exact hdrained.sound.wf
  simp only [Option.some.injEq, Prod.mk.injEq] at hclose
  obtain ⟨rfl, rfl⟩ := hclose
  generalize (d₁.volume sess₁.node sess₁.vb).saveState cfg stateDisk stateBackend = saved
    at hsaved hsettled hwf
  have hnumbered := hsaved.savesCheckpoint hwf
    (savesCheckpoint_saveBlockState cfg saved.1 blockDisk blockBackend)
  rw [← show sess₁.node = sess.node from hnode]
  refine ⟨hnumbered.recoverable, ?_⟩
  intro hok
  obtain ⟨c, hc⟩ := hsettled (Bool.and_eq_true_iff.mp hok).1
  exact ⟨c, (hc.savesCheckpoint hwf
    (savesCheckpoint_saveBlockState cfg saved.1 blockDisk blockBackend)).resting
      hnumbered.offset_lt⟩

end Ends

section Lose

variable {cfg : Config} {d : Disks} {n m : Nat}

theorem lose_nodes_of_ne (hm : m ≠ n) : (d.lose n).nodes m = d.nodes m := by
  simp [Disks.lose, hm]

theorem lose_nodes_self :
    (d.lose n).nodes n = ⟨none, ∅, []⟩ := by
  simp [Disks.lose]

theorem saved_of_lose {records : List BlockLookup} (hsaved : Saved (d.lose n) records) :
    Saved d records := by
  rcases hsaved with hbackend | ⟨m, hlocal⟩
  · exact .inl hbackend
  · by_cases hm : m = n
    · subst hm
      rw [lose_nodes_self] at hlocal
      obtain ⟨k, hk⟩ := hlocal
      simp at hk
    · rw [lose_nodes_of_ne hm] at hlocal
      exact .inr ⟨m, hlocal⟩

theorem logged_of_lose {q : Nat} (hlogged : Logged cfg ((d.lose n).nodes m) q) :
    Logged cfg (d.nodes m) q := by
  by_cases hm : m = n
  · subst hm
    rw [lose_nodes_self] at hlogged
    obtain ⟨file, hfile, -⟩ := hlogged
    simp at hfile
  · rwa [lose_nodes_of_ne hm] at hlogged

theorem known_of_lose {q : Nat} (hknown : Known cfg (d.lose n) q) :
    Known cfg d q := by
  rcases hknown with ⟨records, hsaved, hrec⟩ | ⟨m, hlogged⟩
  · exact .inl ⟨records, saved_of_lose hsaved, hrec⟩
  · exact .inr ⟨m, logged_of_lose hlogged⟩

theorem config_of_lose {c : VBState} (hc : ((d.lose n).nodes m).config = some c) :
    (d.nodes m).config = some c := by
  by_cases hm : m = n
  · subst hm
    rw [lose_nodes_self] at hc
    simp at hc
  · rwa [lose_nodes_of_ne hm] at hc

theorem Resting.lose {c : VBState} (hrest : Resting cfg d c) (n : Nat) :
    Resting cfg (d.lose n) c :=
  ⟨fun records hrecords => hrest.offset_lt records (saved_of_lose hrecords), hrest.config,
    fun m c' hc' => hrest.newest m c' (config_of_lose hc'),
    fun q hq => hrest.known_le q (known_of_lose hq)⟩

theorem selected_lose (hm : m ≠ n) :
    selected (d.lose n) m = selected d m := by
  rw [selected, selected, lose_nodes_of_ne hm]
  rfl

theorem Recoverable.lose (hleft : Recoverable cfg d m) (hm : m ≠ n) :
    Recoverable cfg (d.lose n) m := by
  refine ⟨fun records hrecords => hleft.offset_lt records (saved_of_lose hrecords), ?_, ?_, ?_⟩
  · intro c hc q hq
    rw [selected_lose hm] at hc
    rw [lose_nodes_of_ne hm]
    exact hleft.covered c hc q (known_of_lose hq)
  · intro hsealed c hc q hq
    rw [selected_lose hm] at hc
    exact hleft.logged_le hsealed c hc q (logged_of_lose hq)
  · intro c hc m' c' hc'
    rw [selected_lose hm] at hc
    exact hleft.newest c hc m' c' (config_of_lose hc')

theorem Serving.lose {sess : Session} (hserving : Serving cfg d sess) (hm : sess.node ≠ n) :
    Serving cfg (d.lose n) sess := by
  have hopen := hserving.counted
  refine hserving.of_sameMap ?_ rfl rfl rfl rfl (fun _ => .inl) hserving.increasing rfl
    rfl
  refine ⟨⟨fun records hrecords => hopen.offset_lt records (saved_of_lose hrecords),
    ?_, ?_, ?_, fun m c hc => hopen.local_le m c (config_of_lose hc),
    hopen.backend_le⟩, fun q hq => hopen.le_seqNum q (hq.imp_left known_of_lose),
    fun q hq => hopen.le_ceiling q (hq.imp_left known_of_lose)⟩
  · intro c hc q hq
    rw [selected_lose hm] at hc
    rw [lose_nodes_of_ne hm]
    exact hopen.covered c hc q (hq.imp_left known_of_lose)
  · intro hsealed c hc
    rw [selected_lose hm] at hc
    exact hopen.window hsealed c hc
  · intro c hc m c' hc'
    rw [selected_lose hm] at hc
    exact hopen.newest c hc m c' (config_of_lose hc')

end Lose

end ReopenSystem

end Viperblock
