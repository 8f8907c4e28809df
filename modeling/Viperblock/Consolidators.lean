import Mathlib.Algebra.BigOperators.Ring.Finset
import Mathlib.Algebra.Order.BigOperators.Group.Finset
import Viperblock.Consolidate
import Viperblock.Wal

/-!
# The two consolidators

`WriteWALToChunkCtx` consolidates one log file and `WriteShardedWALToChunkCtx`
the sixteen files of a sharded log.  Both remember of every block the index of
its newest record, sort what the indexes point at, and hand a buffer with a
list of blocks to the uploader whenever the buffer has reached `ObjBlockSize`.

The jobs they hand over are compared with what packing is for: every block
once, in ascending order, with the data of its newest record, in chunks that
are cut as soon as they are full.

A plaintext record is read with one call of `Read`, which returns at most 1 GiB.  A drain
that is not forced leaves a log alone that is shorter than a chunk.
-/

namespace Viperblock

open ByteCodec Config

/-- Where the newest record of a block stands. -/
structure BlockOptimised where
  seqNum : Nat
  index : Nat

abbrev BlocksMapOptimised := AList fun _ : Nat => BlockOptimised

/-- Remember the index of a record that is newer than the one remembered. -/
def keepNewestIndex (blocksMap : BlocksMapOptimised) (record : Block × Nat) :
    BlocksMapOptimised :=
  match blocksMap.lookup record.1.block with
  | some existing =>
    if existing.seqNum < record.1.seqNum then
      blocksMap.insert record.1.block ⟨record.1.seqNum, record.2⟩
    else blocksMap
  | none => blocksMap.insert record.1.block ⟨record.1.seqNum, record.2⟩

def newestIndexes (blocks : List Block) : BlocksMapOptimised :=
  blocks.zipIdx.foldl keepNewestIndex ∅

/-- The records the remembered indexes point at, sorted by block. -/
def pointedBlocks (blocks : List Block) : List Block :=
  ((newestIndexes blocks).entries.filterMap fun entry => blocks[entry.2.index]?).insertionSort
    fun a b => a.block ≤ b.block

/-- What `submit` hands to a worker, in slices of its own. -/
structure UploadJob where
  buf : Bytes
  blocks : List Block
deriving DecidableEq

/-- A block of a job has its number and its version only. -/
def matchedBlock (b : Block) : Block :=
  { seqNum := b.seqNum
    block := b.block
    len := 0
    data := [] }

/-- The calls of `submit`: one for every full buffer, and one for the rest. -/
def submitJobs (objBlockSize : Nat) : Bytes → List Block → List Block → List UploadJob
  | chunkBuffer, matchedBlocks, [] =>
    if 0 < chunkBuffer.length then [⟨chunkBuffer, matchedBlocks⟩] else []
  | chunkBuffer, matchedBlocks, b :: rest =>
    let chunkBuffer := chunkBuffer ++ b.data
    let matchedBlocks := matchedBlocks ++ [matchedBlock b]
    if objBlockSize ≤ chunkBuffer.length then
      ⟨chunkBuffer, matchedBlocks⟩ :: submitJobs objBlockSize [] [] rest
    else submitJobs objBlockSize chunkBuffer matchedBlocks rest

/-- The jobs for the records of one drain. -/
def submittedJobs (objBlockSize : Nat) (blocks : List Block) : List UploadJob :=
  submitJobs objBlockSize [] [] (pointedBlocks blocks)

namespace Config

variable (cfg : Config)

/-- What one `Read` of a file returns at most. -/
def maxRead : Nat := 2 ^ 30

/-- The plaintext records of a closed segment, one `Read` each into a buffer of `size`
bytes; the rest of the buffer stays zero. -/
def readBuffers (size : Nat) : Nat → Bytes → Except WalError (List Block)
  | 0, _ => .ok []
  | fuel + 1, bytes =>
    if 0 < size ∧ bytes = [] then .ok []
    else if size < 28 then .error .outOfRange
    else
      let data := bytes.take (min size maxRead)
      let record := data ++ List.replicate (size - data.length) 0
      if checksumOk record then
        (readBuffers size fuel (bytes.drop (min size maxRead))).map (plainBlock record :: ·)
      else .error .checksumMismatch

/-- The log is drained, and not left alone because it is short. -/
def drained (force : Bool) (size : Nat) : Bool :=
  force || decide (cfg.objBlockSize ≤ size)

/-- The jobs of `WriteWALToChunkCtx`. -/
def walChunkJobs (force : Bool) (file : Bytes) : Except WalError (List UploadJob) :=
  if cfg.drained force file.length then
    (cfg.closedSegment readBuffers file).map (submittedJobs cfg.objBlockSize)
  else .ok []

/-- Records with a checksum, up to the first whose checksum is wrong. -/
def checkedRecords : List Bytes → Except WalError (List Block)
  | [] => .ok []
  | record :: records =>
    if checksumOk record then
      match checkedRecords records with
      | .error e => .error e
      | .ok blocks => .ok (plainBlock record :: blocks)
    else .error .checksumMismatch

/-- The records of the file of one shard. The header is skipped without a look at it,
an incomplete last record is discarded, and a missing file is an empty one. -/
def readShard : Option Bytes → Except WalError (List Block)
  | none => .ok []
  | some file =>
    let body := file.drop walHeaderSize
    checkedRecords (frames (28 + cfg.blockSize) (body.length + 1) body)

/-- The records of all shards, or the error of the first shard that has one. -/
def mergeShards : List (Except WalError (List Block)) → Except WalError (List Block)
  | [] => .ok []
  | .error e :: _ => .error e
  | .ok blocks :: rest =>
    match mergeShards rest with
    | .error e => .error e
    | .ok others => .ok (blocks ++ others)

/-- The jobs for the records of the shards. -/
def shardJobs (read : Option Bytes → Except WalError (List Block)) (files : Nat → Option Bytes) :
    Except WalError (List UploadJob) :=
  match mergeShards ((List.range numShards).map fun shard => read (files shard)) with
  | .error e => .error e
  | .ok allBlocks =>
    if allBlocks = [] then .ok [] else .ok (submittedJobs cfg.objBlockSize allBlocks)

/-- The jobs of `WriteShardedWALToChunkCtx`, for logs that are not left alone and records
that one `Read` returns. -/
def shardedWALChunkJobs (files : Nat → Option Bytes) :
    Except WalError (List UploadJob) :=
  cfg.shardJobs cfg.readShard files

/-- The records of a shard, one `Read` each; a short one is the end. -/
def shardRecords (size : Nat) : Nat → Bytes → Except WalError (List Block)
  | 0, _ => .ok []
  | fuel + 1, bytes =>
    let data := bytes.take (min size maxRead)
    if data.length < size then .ok []
    else if checksumOk data then
      (shardRecords size fuel (bytes.drop size)).map (plainBlock data :: ·)
    else .error .checksumMismatch

def readShardFile : Option Bytes → Except WalError (List Block)
  | none => .ok []
  | some file =>
    let body := file.drop walHeaderSize
    shardRecords (28 + cfg.blockSize) (body.length + 1) body

/-- Size of all shards that are open. -/
def shardsSize (files : Nat → Option Bytes) : Nat :=
  ∑ shard ∈ Finset.range numShards, (files shard).elim 0 List.length

/-- The jobs of `WriteShardedWALToChunkCtx`, with no shard open, a short log or a record
that one `Read` does not return. -/
def drainedShardJobs (force : Bool) (files : Nat → Option Bytes) :
    Except WalError (List UploadJob) :=
  if (List.range numShards).all fun shard => (files shard).isNone then .ok []
  else if cfg.drained force (shardsSize files) then cfg.shardJobs cfg.readShardFile files
  else .ok []

end Config

section Indexes

variable {blocks : List Block} {indexes : BlocksMapOptimised}
  {newest : AList fun _ : Nat => Block}

/-- The indexes point at the newest versions. -/
structure PointsAt
    (blocks : List Block)
    (indexes : BlocksMapOptimised)
    (newest : AList fun _ : Nat => Block) : Prop where
  pointed : ∀ {block e}, indexes.lookup block = some e →
    ∃ b, blocks[e.index]? = some b ∧ b.seqNum = e.seqNum ∧ newest.lookup block = some b
  missing : ∀ {block}, indexes.lookup block = none → newest.lookup block = none

theorem PointsAt.insert (hpoints : PointsAt blocks indexes newest) {b : Block} {index : Nat}
    (hb : blocks[index]? = some b) :
    PointsAt blocks (indexes.insert b.block ⟨b.seqNum, index⟩) (newest.insert b.block b) := by
  constructor
  · intro block e he
    by_cases hblock : block = b.block
    · subst hblock
      rw [AList.lookup_insert] at he
      cases he
      exact ⟨b, hb, rfl, AList.lookup_insert _⟩
    · rw [AList.lookup_insert_ne hblock] at he ⊢
      exact hpoints.pointed he
  · intro block hnone
    by_cases hblock : block = b.block
    · subst hblock
      rw [AList.lookup_insert] at hnone
      cases hnone
    · rw [AList.lookup_insert_ne hblock] at hnone ⊢
      exact hpoints.missing hnone

theorem PointsAt.keepNewestIndex (hpoints : PointsAt blocks indexes newest)
    {b : Block} {index : Nat} (hb : blocks[index]? = some b) :
    PointsAt blocks (keepNewestIndex indexes (b, index)) (keepNewest newest b) := by
  unfold Viperblock.keepNewestIndex keepNewest
  cases hlookup : indexes.lookup b.block with
  | none =>
    rw [hpoints.missing hlookup]
    exact hpoints.insert hb
  | some existing =>
    obtain ⟨old, -, hseqNum, hold⟩ := hpoints.pointed hlookup
    rw [hold]
    dsimp only
    rw [hseqNum]
    split
    · exact hpoints.insert hb
    · exact hpoints

theorem pointsAt_newestIndexes (blocks : List Block) :
    PointsAt blocks (newestIndexes blocks) (newestBlocks blocks) := by
  -- over the records that are left, with those before them counted by the index
  suffices hfold : ∀ (seen rest : List Block) indexes newest, blocks = seen ++ rest →
      PointsAt blocks indexes newest →
      PointsAt blocks ((rest.zipIdx seen.length).foldl keepNewestIndex indexes)
        (rest.foldl keepNewest newest) by
    refine hfold [] blocks ∅ ∅ rfl ⟨?_, fun _ => AList.lookup_empty _⟩
    intro block e he
    cases he
  intro seen rest
  induction rest generalizing seen with
  | nil =>
    intro indexes newest _ hpoints
    exact hpoints
  | cons b rest ih =>
    intro indexes newest hblocks hpoints
    have hb : blocks[seen.length]? = some b := by
      rw [hblocks, List.getElem?_append_right (Nat.le_refl _), Nat.sub_self]
      rfl
    have hseen : seen.length + 1 = (seen ++ [b]).length := by
      simp
    rw [List.zipIdx_cons, List.foldl_cons, List.foldl_cons, hseen]
    refine ih (seen ++ [b]) _ _ ?_ (hpoints.keepNewestIndex hb)
    rw [hblocks, List.append_assoc, List.singleton_append]

theorem mem_pointedBlocks_iff {b : Block} :
    b ∈ pointedBlocks blocks ↔ ∃ block, (newestBlocks blocks).lookup block = some b := by
  have hpoints := pointsAt_newestIndexes blocks
  unfold pointedBlocks
  rw [List.mem_insertionSort, List.mem_filterMap]
  constructor
  · rintro ⟨⟨block, e⟩, hentry, hb⟩
    obtain ⟨old, hold, -, hlookup⟩ := hpoints.pointed (FiniteMap.mem_entries_iff.mp hentry)
    cases hold.symm.trans hb
    exact ⟨block, hlookup⟩
  · rintro ⟨block, hlookup⟩
    cases hindex : (newestIndexes blocks).lookup block with
    | none =>
      rw [hpoints.missing hindex] at hlookup
      cases hlookup
    | some e =>
      obtain ⟨old, hold, -, hnewest⟩ := hpoints.pointed hindex
      cases hnewest.symm.trans hlookup
      exact ⟨⟨block, e⟩, FiniteMap.mem_entries_iff.mpr hindex, hold⟩

theorem pointedBlocks_pairwise (blocks : List Block) :
    (pointedBlocks blocks).Pairwise fun a b => a.block < b.block := by
  have hpoints := pointsAt_newestIndexes blocks
  have hdistinct : ((newestIndexes blocks).entries.filterMap
      fun entry => blocks[entry.2.index]?).Pairwise fun a b => a.block ≠ b.block := by
    rw [List.pairwise_filterMap]
    refine (List.nodupKeys_iff_pairwise.mp
      (newestIndexes blocks).nodupKeys).imp_of_mem ?_
    intro entry entry' hentry hentry' hne a ha b hb
    have hkey : ∀ {entry : Sigma fun _ : Nat => BlockOptimised} {c : Block},
        entry ∈ (newestIndexes blocks).entries → blocks[entry.2.index]? = some c →
        c.block = entry.1 := by
      intro entry c hentry hc
      obtain ⟨old, hold, -, hlookup⟩ := hpoints.pointed (FiniteMap.mem_entries_iff.mp hentry)
      cases hold.symm.trans hc
      exact ((newestBlocks_spec blocks).1 _ _ hlookup).1
    rw [hkey hentry ha, hkey hentry' hb]
    exact hne
  have hsorted := (List.perm_insertionSort (fun a b : Block => a.block ≤ b.block)
    _).pairwise_iff (fun h => Ne.symm h) |>.mpr hdistinct
  exact ((List.pairwise_insertionSort _ _).and hsorted).imp fun h => Nat.lt_of_le_of_ne h.1 h.2

/-- Sorting what the indexes point at is sorting the newest versions. -/
theorem pointedBlocks_eq (blocks : List Block) :
    pointedBlocks blocks = sortedBlocks blocks := by
  refine eq_of_ascending (pointedBlocks_pairwise blocks) (sortedBlocks_pairwise blocks) ?_
  intro b
  rw [mem_pointedBlocks_iff]
  exact FiniteMap.mem_sortedValues_iff.symm

end Indexes

section Jobs

variable {objBlockSize size : Nat}

/-- The job for the blocks of one chunk. -/
def submittedJob (blocks : List Block) : UploadJob :=
  ⟨blocks.flatMap Block.data, blocks.map matchedBlock⟩

theorem length_flatMap_data (blocks : List Block) :
    (blocks.flatMap Block.data).length = bufferSize blocks := by
  rw [List.length_flatMap, bufferSize]

theorem submitJobs_eq (buffer blocks : List Block) :
    submitJobs objBlockSize (buffer.flatMap Block.data) (buffer.map matchedBlock) blocks =
      (packChunks objBlockSize buffer blocks).map submittedJob := by
  induction blocks generalizing buffer with
  | nil =>
    unfold submitJobs packChunks
    rw [length_flatMap_data]
    split <;> rfl
  | cons b blocks ih =>
    have hbuf : buffer.flatMap Block.data ++ b.data = (buffer ++ [b]).flatMap Block.data := by
      simp
    have hmatched : buffer.map matchedBlock ++ [matchedBlock b] =
        (buffer ++ [b]).map matchedBlock := by
      simp
    unfold submitJobs packChunks
    simp only [hbuf, hmatched, length_flatMap_data]
    split
    · exact congrArg _ (ih [])
    · exact ih (buffer ++ [b])

theorem submittedJobs_eq (blocks : List Block) :
    submittedJobs objBlockSize blocks = (chunkJobs objBlockSize blocks).map submittedJob := by
  unfold submittedJobs chunkJobs
  rw [pointedBlocks_eq]
  exact submitJobs_eq [] (sortedBlocks blocks)

theorem objBlockSize_le_of_packChunks
    {buffer blocks job : List Block} {before after : List (List Block)}
    (hjobs : packChunks objBlockSize buffer blocks = before ++ job :: after) (hafter : after ≠ []) :
    objBlockSize ≤ bufferSize job := by
  induction blocks generalizing buffer before with
  | nil =>
    have hlength := congrArg List.length hjobs
    have hpos := List.length_pos_of_ne_nil hafter
    unfold packChunks at hlength
    rw [List.length_append, List.length_cons] at hlength
    split at hlength <;> simp only [List.length_cons, List.length_nil] at hlength <;> omega
  | cons b blocks ih =>
    unfold packChunks at hjobs
    split at hjobs
    · rename_i hfull
      cases before with
      | nil =>
        obtain ⟨rfl, -⟩ := List.cons.inj hjobs
        exact hfull
      | cons first before => exact ih (List.cons.inj hjobs).2
    · exact ih hjobs

theorem take_drop_flatMap_data {blocks : List Block} {i : Nat} {b : Block}
    (hdata : ∀ b ∈ blocks, b.data.length = size) (hb : blocks[i]? = some b) :
    ((blocks.flatMap Block.data).drop (i * size)).take size = b.data := by
  obtain ⟨hlt, hget⟩ := List.getElem?_eq_some_iff.mp hb
  have hpieces : ∀ piece ∈ blocks.map Block.data, piece.length = size := by
    intro piece hpiece
    obtain ⟨c, hc, rfl⟩ := List.mem_map.mp hpiece
    exact hdata c hc
  rw [List.flatMap_def, drop_flatten_frames hpieces, ← List.map_drop,
    List.drop_eq_getElem_cons hlt, hget, List.map_cons, List.flatten_cons]
  exact List.take_left' (hdata b (List.mem_of_getElem? hb))

end Jobs

/-- What consolidation is for: the jobs hold every block of the records once, in ascending
order and with the data of its newest record, and are cut as soon as they are full. -/
structure PacksNewest (cfg : Config) (blocks : List Block) (jobs : List UploadJob) : Prop where
  ascending : (jobs.flatMap UploadJob.blocks).Pairwise fun a b => a.block < b.block
  complete : ∀ b ∈ blocks, ∃ c ∈ jobs.flatMap UploadJob.blocks, c.block = b.block
  /-- Buffer and block list correspond index by index. -/
  newest : ∀ job ∈ jobs, ∀ i c, job.blocks[i]? = some c →
    ∃ b, IsNewest blocks b ∧ c.block = b.block ∧ c.seqNum = b.seqNum ∧
      (job.buf.drop (i * cfg.blockSize)).take cfg.blockSize = b.data
  length : ∀ job ∈ jobs, job.buf.length = job.blocks.length * cfg.blockSize
  nonempty : ∀ job ∈ jobs, job.blocks ≠ []
  /-- A job that another one follows is full. -/
  full : ∀ before job after, jobs = before ++ job :: after → after ≠ [] →
    cfg.objBlockSize ≤ job.buf.length
  /-- No job is full before its last block. -/
  shortest : ∀ job ∈ jobs, ∀ n, 0 < n → n < job.blocks.length → n * cfg.blockSize < cfg.objBlockSize

section Packs

variable {cfg : Config} {blocks : List Block}

variable (hblocks : ∀ b ∈ blocks, b.Fits cfg)

include hblocks

theorem data_ne_nil_of_fits :
    ∀ b ∈ blocks, b.data ≠ [] := by
  intro b hb
  refine List.ne_nil_of_length_pos ?_
  rw [(hblocks b hb).data]
  exact cfg.blockSize_pos

theorem length_data_of_mem_chunkJobs {job : List Block}
    (hjob : job ∈ chunkJobs cfg.objBlockSize blocks) {b : Block} (hb : b ∈ job) :
    b ∈ sortedBlocks blocks ∧ b.data.length = cfg.blockSize := by
  have hmem : b ∈ sortedBlocks blocks := by
    rw [← flatten_chunkJobs (data_ne_nil_of_fits hblocks)]
    exact List.mem_flatten.mpr ⟨job, hjob, hb⟩
  exact ⟨hmem, (hblocks b (isNewest_of_mem_sortedBlocks hmem).mem).data⟩

theorem flatMap_blocks_submittedJobs :
    (submittedJobs cfg.objBlockSize blocks).flatMap UploadJob.blocks =
      (sortedBlocks blocks).map matchedBlock := by
  rw [submittedJobs_eq, List.flatMap_map, ← flatten_chunkJobs (data_ne_nil_of_fits hblocks),
    List.map_flatten, List.flatMap_def]
  rfl

theorem packsNewest_submittedJobs :
    PacksNewest cfg blocks (submittedJobs cfg.objBlockSize blocks) := by
  have hjobs : ∀ job ∈ submittedJobs cfg.objBlockSize blocks,
      ∃ chunk ∈ chunkJobs cfg.objBlockSize blocks, submittedJob chunk = job := by
    intro job hjob
    rw [submittedJobs_eq] at hjob
    exact List.mem_map.mp hjob
  constructor
  case ascending =>
    rw [flatMap_blocks_submittedJobs hblocks, List.pairwise_map]
    exact sortedBlocks_pairwise blocks
  case complete =>
    intro b hb
    obtain ⟨newest, hnewest, hblock⟩ := exists_mem_sortedBlocks hb
    rw [flatMap_blocks_submittedJobs hblocks]
    exact ⟨matchedBlock newest, List.mem_map_of_mem hnewest, hblock⟩
  case newest =>
    intro job hjob i c hc
    obtain ⟨chunk, hchunk, rfl⟩ := hjobs job hjob
    obtain ⟨b, hb, rfl⟩ := List.getElem?_map .. ▸ hc |> Option.map_eq_some_iff.mp
    have hmem := length_data_of_mem_chunkJobs hblocks hchunk (List.mem_of_getElem? hb)
    refine ⟨b, isNewest_of_mem_sortedBlocks hmem.1, rfl, rfl, ?_⟩
    exact take_drop_flatMap_data
      (fun b hb => (length_data_of_mem_chunkJobs hblocks hchunk hb).2) hb
  case length =>
    intro job hjob
    obtain ⟨chunk, hchunk, rfl⟩ := hjobs job hjob
    unfold submittedJob
    rw [length_flatMap_data, List.length_map]
    exact bufferSize_eq fun b hb => (length_data_of_mem_chunkJobs hblocks hchunk hb).2
  case nonempty =>
    intro job hjob
    obtain ⟨chunk, hchunk, rfl⟩ := hjobs job hjob
    exact List.map_eq_nil_iff.not.mpr (ne_nil_of_mem_packChunks hchunk)
  case full =>
    intro before job after hsplit hafter
    rw [submittedJobs_eq] at hsplit
    obtain ⟨before', rest, hchunks, rfl, hrest⟩ := List.map_eq_append_iff.mp hsplit
    obtain ⟨chunk, after', rfl, rfl, rfl⟩ := List.map_eq_cons_iff.mp hrest
    unfold submittedJob
    rw [length_flatMap_data]
    refine objBlockSize_le_of_packChunks hchunks ?_
    rintro rfl
    exact hafter rfl
  case shortest =>
    intro job hjob n hpos hlt
    obtain ⟨chunk, hchunk, rfl⟩ := hjobs job hjob
    have hlength := length_of_mem_chunkJobs (fun b hb => (hblocks b hb).data) hchunk
    simp only [submittedJob, List.length_map] at hlt
    have hle : n * cfg.blockSize ≤ (chunk.length - 1) * cfg.blockSize :=
      Nat.mul_le_mul_right _ (by omega)
    omega

end Packs

section Shards

variable {cfg : Config} {blocks : List Block}

/-- The shards hold the records of their blocks, in the order of the records. -/
def SpreadOver (cfg : Config) (blocks : List Block) (files : Nat → Option Bytes) : Prop :=
  ∀ shard < numShards, let records := blocks.filter fun b => b.block % numShards == shard
    (∃ timestamp, files shard = some (segment cfg timestamp records)) ∨
      (files shard = none ∧ records = [])

theorem checkedRecords_walRecords (hplain : cfg.sealing = none)
    (hblocks : ∀ b ∈ blocks, b.Fits cfg) :
    checkedRecords (blocks.map cfg.walRecord) = .ok blocks := by
  induction blocks with
  | nil => rfl
  | cons b blocks ih =>
    obtain ⟨hok, hfirst⟩ :=
      plainBlock_walRecord (hblocks b List.mem_cons_self) hplain
    have hrest := ih fun c hc => hblocks c (List.mem_cons_of_mem _ hc)
    simp only [List.map_cons, checkedRecords, hok, if_true, hrest, hfirst]

theorem readShard_segment (timestamp : Nat) {torn : Bytes} (hplain : cfg.sealing = none)
    (hblocks : ∀ b ∈ blocks, b.Fits cfg) (htorn : torn.length < cfg.recordSize) :
    cfg.readShard (some (segment cfg timestamp blocks ++ torn)) = .ok blocks := by
  have hsize : cfg.recordSize = 28 + cfg.blockSize := by
    rw [recordSize, hplain]
  have hlength := length_walRecords hblocks
  have hmul : blocks.length ≤ blocks.length * cfg.recordSize :=
    Nat.le_mul_of_pos_right _ (recordSize_pos cfg)
  have hframes := frames_walRecords torn
    (((blocks.map cfg.walRecord).flatten ++ torn).length + 1) hblocks htorn (by
      rw [List.length_append]
      omega)
  simp only [readShard, Config.segment, List.append_assoc]
  rw [List.drop_left' (length_walHeader cfg timestamp), ← hsize, hframes]
  exact checkedRecords_walRecords hplain hblocks

section

variable {files : Nat → Option Bytes}

theorem readShard_spread {shard : Nat} (hplain : cfg.sealing = none)
    (hblocks : ∀ b ∈ blocks, b.Fits cfg) (hspread : SpreadOver cfg blocks files)
    (hshard : shard < numShards) :
    cfg.readShard (files shard) = .ok (blocks.filter fun b => b.block % numShards == shard) := by
  rcases hspread shard hshard with ⟨timestamp, hfile⟩ | ⟨hfile, hempty⟩
  · rw [hfile, ← List.append_nil (segment _ _ _)]
    exact readShard_segment timestamp hplain (fun b hb => hblocks b (List.mem_of_mem_filter hb))
      (recordSize_pos cfg)
  · rw [hfile, hempty]
    rfl

theorem mergeShards_ok {shards : List Nat} {read : Nat → Except WalError (List Block)}
    {records : Nat → List Block} (hread : ∀ shard ∈ shards, read shard = .ok (records shard)) :
    mergeShards (shards.map read) = .ok (shards.flatMap records) := by
  induction shards with
  | nil => rfl
  | cons shard shards ih =>
    have hrest := ih fun other hother => hread other (List.mem_cons_of_mem _ hother)
    rw [List.map_cons, hread shard List.mem_cons_self, mergeShards, hrest, List.flatMap_cons]

/-- The newest version of a block depends on the records of that block only. -/
theorem lookup_foldl_keepNewest_filter (blocks : List Block)
    {m m' : AList fun _ : Nat => Block} {block : Nat} (hm : m.lookup block = m'.lookup block) :
    (blocks.foldl keepNewest m).lookup block =
      ((blocks.filter fun b => b.block == block).foldl keepNewest m').lookup block := by
  induction blocks generalizing m m' with
  | nil => exact hm
  | cons b blocks ih =>
    rw [List.foldl_cons, List.filter_cons]
    by_cases hblock : b.block = block
    · rw [if_pos (beq_iff_eq.mpr hblock), List.foldl_cons]
      refine ih ?_
      rw [lookup_keepNewest, lookup_keepNewest, hm]
    · rw [if_neg (beq_iff_eq.not.mpr hblock)]
      refine ih ?_
      rw [lookup_keepNewest, if_neg (fun h => hblock h.1.symm), hm]

theorem filter_flatMap_route (route : Nat → Nat) (blocks : List Block)
    {shards : List Nat} {block : Nat} (hnodup : shards.Nodup) (hroute : route block ∈ shards) :
    (shards.flatMap fun shard => blocks.filter fun b => route b.block == shard).filter
        (fun b => b.block == block) =
      blocks.filter fun b => b.block == block := by
  have hshard : ∀ shard, (blocks.filter fun b => route b.block == shard).filter
        (fun b => b.block == block) =
      if route block = shard then blocks.filter fun b => b.block == block else [] := by
    intro shard
    rw [List.filter_filter]
    split
    · rename_i heq
      refine List.filter_congr fun b _ => ?_
      by_cases hb : b.block = block
      · simp [hb, heq]
      · simp [hb]
    · rename_i hne
      refine List.filter_eq_nil_iff.mpr fun b _ => ?_
      by_cases hb : b.block = block
      · simp [hb, hne]
      · simp [hb]
  rw [List.filter_flatMap]
  simp only [hshard]
  induction shards with
  | nil => cases hroute
  | cons shard shards ih =>
    obtain ⟨hfresh, hnodup⟩ := List.nodup_cons.mp hnodup
    rw [List.flatMap_cons]
    by_cases heq : route block = shard
    · have hrest : (shards.flatMap fun shard =>
          if route block = shard then blocks.filter fun b => b.block == block else []) =
          [] := by
        refine List.flatMap_eq_nil_iff.mpr fun other hother => if_neg ?_
        rintro rfl
        exact hfresh (heq ▸ hother)
      rw [if_pos heq, hrest, List.append_nil]
    · rw [if_neg heq, List.nil_append]
      exact ih hnodup ((List.mem_cons.mp hroute).resolve_left heq)

/-- Splitting the records by block does not change what is consolidated. -/
theorem sortedBlocks_spread (blocks : List Block) :
    sortedBlocks ((List.range numShards).flatMap fun shard =>
        blocks.filter fun b => b.block % numShards == shard) =
      sortedBlocks blocks := by
  refine eq_of_ascending (sortedBlocks_pairwise _) (sortedBlocks_pairwise _) ?_
  intro b
  unfold sortedBlocks
  rw [FiniteMap.mem_sortedValues_iff, FiniteMap.mem_sortedValues_iff]
  refine exists_congr fun block => ?_
  have hmod : block % numShards ∈ List.range numShards :=
    List.mem_range.mpr (Nat.mod_lt _ (by decide))
  unfold newestBlocks
  rw [lookup_foldl_keepNewest_filter _ rfl, lookup_foldl_keepNewest_filter blocks rfl,
    filter_flatMap_route (fun block => block % numShards) blocks List.nodup_range hmod]

theorem shardedWALChunkJobs_spread (hplain : cfg.sealing = none)
    (hblocks : ∀ b ∈ blocks, b.Fits cfg) (hspread : SpreadOver cfg blocks files) :
    cfg.shardedWALChunkJobs files = .ok (submittedJobs cfg.objBlockSize blocks) := by
  have hmerge := mergeShards_ok fun shard hshard =>
    readShard_spread hplain hblocks hspread (List.mem_range.mp hshard)
  have hjobs : submittedJobs cfg.objBlockSize ((List.range numShards).flatMap fun shard =>
      blocks.filter fun b => b.block % numShards == shard) =
      submittedJobs cfg.objBlockSize blocks := by
    rw [submittedJobs_eq, submittedJobs_eq, chunkJobs, sortedBlocks_spread]
    rfl
  unfold shardedWALChunkJobs shardJobs
  rw [hmerge]
  dsimp only
  split
  · rename_i hempty
    rw [← hjobs, hempty]
    rfl
  · rw [hjobs]

theorem shardRecords_of_le {size : Nat} (hsize : size ≤ maxRead) (fuel : Nat)
    (bytes : Bytes) :
    shardRecords size fuel bytes = checkedRecords (frames size fuel bytes) := by
  induction fuel generalizing bytes with
  | zero => rfl
  | succ fuel ih =>
    rw [shardRecords, frames, Nat.min_eq_left hsize, ih]
    by_cases hshort : bytes.length < size
    · rw [if_pos hshort, if_pos (by rw [List.length_take]; omega)]
      rfl
    · rw [if_neg hshort, if_neg (by rw [List.length_take]; omega), checkedRecords]
      cases checkedRecords (frames size fuel (bytes.drop size)) <;> rfl

theorem shardRecords_eq_nil {size fuel : Nat} {bytes : Bytes} (hpos : 0 < size)
    (hnone : bytes = [] ∨ maxRead < size) :
    shardRecords size fuel bytes = .ok [] := by
  cases fuel with
  | zero => rfl
  | succ fuel =>
    rw [shardRecords, if_pos]
    rw [List.length_take]
    rcases hnone with rfl | hlarge
    · rw [List.length_nil]
      omega
    · omega

theorem drainedShardJobs_eq_nil (hspread : SpreadOver cfg blocks files)
    (hnone : blocks = [] ∨ maxRead < 28 + cfg.blockSize) (force : Bool) :
    cfg.drainedShardJobs force files = .ok [] := by
  have hread : ∀ shard ∈ List.range numShards, cfg.readShardFile (files shard) = .ok [] := by
    intro shard hshard
    rcases hspread shard (List.mem_range.mp hshard) with ⟨timestamp, hfile⟩ | ⟨hfile, -⟩
    · rw [hfile]
      refine shardRecords_eq_nil (Nat.add_pos_left (by decide) _) (hnone.imp_left ?_)
      rintro rfl
      rw [Config.segment, List.drop_left' (length_walHeader cfg timestamp)]
      rfl
    · rw [hfile]
      rfl
  have hmerge := mergeShards_ok hread
  unfold drainedShardJobs shardJobs
  rw [hmerge]
  simp

theorem sum_length_filter_route {n : Nat} (hn : 0 < n) (blocks : List Block) :
    ∑ shard ∈ Finset.range n, (blocks.filter fun b => b.block % n == shard).length =
      blocks.length := by
  induction blocks with
  | nil => simp
  | cons b blocks ih =>
    have hmod : b.block % n < n := Nat.mod_lt _ hn
    have hcons : ∀ shard, ((b :: blocks).filter fun b => b.block % n == shard).length =
        (blocks.filter fun b => b.block % n == shard).length +
          if b.block % n = shard then 1 else 0 := by
      intro shard
      rw [List.filter_cons]
      split <;> simp_all
    simp only [hcons, Finset.sum_add_distrib, ih, Finset.sum_ite_eq, Finset.mem_range, hmod,
      if_true, List.length_cons]

theorem length_segment (timestamp : Nat) (hblocks : ∀ b ∈ blocks, b.Fits cfg) :
    (segment cfg timestamp blocks).length =
      walHeaderSize + blocks.length * cfg.recordSize := by
  rw [Config.segment, List.length_append, length_walHeader, length_walRecords hblocks]

theorem length_segment_le_shardsSize (hblocks : ∀ b ∈ blocks, b.Fits cfg)
    (hspread : SpreadOver cfg blocks files) {i : Nat} (hi : i < numShards)
    (hsome : (files i).isSome) (timestamp : Nat) :
    (segment cfg timestamp blocks).length ≤ shardsSize files := by
  have hshard : ∀ shard ∈ Finset.range numShards, (if shard = i then walHeaderSize else 0) +
        (blocks.filter fun b => b.block % numShards == shard).length * cfg.recordSize ≤
          (files shard).elim 0 List.length := by
    intro shard hshard
    rcases hspread shard (Finset.mem_range.mp hshard) with ⟨timestamp, hfile⟩ | ⟨hfile, hempty⟩
    · rw [hfile, Option.elim_some,
        length_segment timestamp fun b hb => hblocks b (List.mem_of_mem_filter hb)]
      split <;> omega
    · have hne : shard ≠ i := by
        rintro rfl
        rw [hfile] at hsome
        cases hsome
      rw [if_neg hne, hempty, List.length_nil, Nat.zero_mul]
      exact Nat.zero_le _
  have hsum := Finset.sum_le_sum hshard
  rw [Finset.sum_add_distrib, Finset.sum_ite_eq', if_pos (Finset.mem_range.mpr hi),
    ← Finset.sum_mul, sum_length_filter_route (by decide)] at hsum
  rw [length_segment timestamp hblocks]
  exact hsum

/-- A sharded log that holds the records of a drained one is consolidated into its jobs. -/
theorem drainedShardJobs_spread {force : Bool} {timestamp : Nat} (hplain : cfg.sealing = none)
    (hsize : 28 + cfg.blockSize ≤ maxRead) (hblocks : ∀ b ∈ blocks, b.Fits cfg)
    (hspread : SpreadOver cfg blocks files)
    (hdrained : cfg.drained force (segment cfg timestamp blocks).length = true) :
    cfg.drainedShardJobs force files = .ok (submittedJobs cfg.objBlockSize blocks) := by
  have hjobs := shardedWALChunkJobs_spread hplain hblocks hspread
  unfold drainedShardJobs
  split
  · rename_i hclosed
    simp only [List.all_eq_true, List.mem_range, Option.isNone_iff_eq_none] at hclosed
    have hnil : cfg.shardedWALChunkJobs files = .ok [] := by
      have hread : ∀ shard ∈ List.range numShards, cfg.readShard (files shard) = .ok [] := by
        intro shard hshard
        rw [hclosed shard (List.mem_range.mp hshard)]
        rfl
      rw [shardedWALChunkJobs, shardJobs, mergeShards_ok hread]
      simp
    exact hnil.symm.trans hjobs
  · rename_i hclosed
    simp only [List.all_eq_true, List.mem_range, Option.isNone_iff_eq_none, not_forall,
      ← Option.isSome_iff_ne_none, ← ne_eq] at hclosed
    obtain ⟨shard, hshard, hsome⟩ := hclosed
    have hle := length_segment_le_shardsSize hblocks hspread hshard hsome timestamp
    simp only [drained, Bool.or_eq_true, decide_eq_true_eq] at hdrained
    rw [if_pos (by simpa [drained] using hdrained.imp_right fun h => h.trans hle), ← hjobs]
    have hread : cfg.readShardFile = cfg.readShard := by
      funext file
      cases file with
      | none => rfl
      | some file => exact shardRecords_of_le hsize _ _
    rw [hread]
    rfl

end

end Shards

section Outcome

variable {cfg : Config} {blocks : List Block}

/-- One `Read` returns a record of a plaintext volume.  Otherwise only a log without records
is read, and not into an empty buffer, whose size wraps at 32 bits. -/
def Config.recordBufferFits (cfg : Config) (blocks : List Block) : Bool :=
  cfg.sealing.isSome || decide (28 + cfg.blockSize ≤ maxRead) ||
    (blocks.isEmpty && decide (28 + cfg.blockSize ≠ 2 ^ 32))

theorem recordBufferFits_iff (cfg : Config) (blocks : List Block) :
    cfg.recordBufferFits blocks = true ↔ cfg.sealing.isSome ∨ 28 + cfg.blockSize ≤ maxRead ∨
        blocks = [] ∧ 28 + cfg.blockSize ≠ 2 ^ 32 := by
  unfold recordBufferFits
  rw [Bool.or_eq_true, Bool.or_eq_true, Bool.and_eq_true, decide_eq_true_iff,
    decide_eq_true_iff, List.isEmpty_iff, or_assoc]

theorem readBuffers_of_le {size : Nat} (hsize : size ≤ maxRead) (fuel : Nat)
    (bytes : Bytes) :
    readBuffers size fuel bytes = plainRecords size fuel bytes := by
  induction fuel generalizing bytes with
  | zero => rfl
  | succ fuel ih =>
    have hpad : size - (bytes.take size).length = size - bytes.length := by
      rw [List.length_take]
      omega
    simp only [readBuffers, plainRecords, Nat.min_eq_left hsize, hpad, ih]
    repeat' split
    all_goals simp_all [Except.map]

/-- Records that one `Read` returns are read as in one piece. -/
theorem closedSegment_readBuffers (hsize : cfg.sealing = none → 28 + cfg.blockSize ≤ maxRead)
    (file : Bytes) :
    cfg.closedSegment readBuffers file = cfg.readClosedSegment file := by
  unfold readClosedSegment closedSegment
  cases hsealing : cfg.sealing with
  | some s => rfl
  | none =>
    simp only [readBuffers_of_le ((Nat.mod_le _ _).trans (hsize hsealing))]

theorem closedSegment_of_fits (timestamp : Nat) (hblocks : ∀ b ∈ blocks, b.Fits cfg)
    (hfits : cfg.recordBufferFits blocks = true) :
    cfg.closedSegment readBuffers (segment cfg timestamp blocks) = .ok blocks := by
  by_cases hsize : cfg.sealing = none → 28 + cfg.blockSize ≤ maxRead
  · rw [closedSegment_readBuffers hsize]
    exact readClosedSegment_segment timestamp
      (fun hplain => (hsize hplain).trans_lt (by decide)) hblocks
  · obtain ⟨hplain, hlarge⟩ := Classical.not_imp.mp hsize
    rw [recordBufferFits_iff, hplain] at hfits
    obtain ⟨rfl, hne⟩ := (hfits.resolve_left (by simp)).resolve_left hlarge
    have hlt := cfg.blockSize_lt
    have hpos : 0 < (28 + cfg.blockSize) % 2 ^ 32 := by
      omega
    rw [closedSegment_segment]
    simp only [hplain, readBuffers]
    rw [if_pos ⟨hpos, rfl⟩]

theorem not_packsNewest_nil {b : Block} (hpacks : PacksNewest cfg (b :: blocks) []) : False := by
  obtain ⟨c, hc, -⟩ := hpacks.complete b List.mem_cons_self
  cases hc

/-- The drain of a segment hands the newest version of every block to the uploader, and
the drain of a sharded log the same jobs, exactly if the segment is drained and readable. -/
theorem walChunkJobs_packsNewest_iff (cfg : Config) (force : Bool) (timestamp : Nat)
    (blocks : List Block) (hblocks : ∀ b ∈ blocks, b.Fits cfg) :
    (∃ jobs, cfg.walChunkJobs force (segment cfg timestamp blocks) = .ok jobs ∧
        PacksNewest cfg blocks jobs ∧
        (cfg.sealing = none → ∀ files, SpreadOver cfg blocks files →
          cfg.drainedShardJobs force files = .ok jobs)) ↔
      if cfg.drained force (walHeaderSize + blocks.length * cfg.recordSize) then
        cfg.recordBufferFits blocks = true
      else blocks = [] := by
  unfold walChunkJobs
  rw [← length_segment timestamp hblocks]
  by_cases hdrained : cfg.drained force (segment cfg timestamp blocks).length = true
  · simp only [if_pos hdrained]
    constructor
    · rintro ⟨jobs, hjobs, hpacks, hsharded⟩
      by_contra hfits
      rw [recordBufferFits_iff, not_or, not_or, not_and, not_ne_iff, Nat.not_le] at hfits
      obtain ⟨hsealing, hlarge, hzero⟩ := hfits
      have hplain : cfg.sealing = none := by simpa using hsealing
      cases blocks with
      | nil =>
        -- the buffer is empty, and slicing a head out of it panics
        rw [closedSegment_segment] at hjobs
        simp [hplain, hzero rfl, readBuffers, Except.map] at hjobs
      | cons b blocks =>
        -- the sharded drain takes every record for an incomplete one
        have hspread : SpreadOver cfg (b :: blocks) fun shard => some (segment cfg 0
            ((b :: blocks).filter fun b => b.block % numShards == shard)) :=
          fun shard _ => .inl ⟨0, rfl⟩
        have hnil := hsharded hplain _ hspread
        rw [drainedShardJobs_eq_nil hspread (.inr hlarge)] at hnil
        cases hnil
        exact not_packsNewest_nil hpacks
    · intro hfits
      refine ⟨submittedJobs cfg.objBlockSize blocks, ?_, packsNewest_submittedJobs hblocks, ?_⟩
      · rw [closedSegment_of_fits timestamp hblocks hfits]
        rfl
      · intro hplain files hspread
        rcases (recordBufferFits_iff cfg blocks).mp hfits with hsealed | hsize | ⟨rfl, -⟩
        · rw [hplain] at hsealed
          cases hsealed
        · exact drainedShardJobs_spread hplain hsize hblocks hspread hdrained
        · exact drainedShardJobs_eq_nil hspread (.inl rfl) force
  · simp only [if_neg hdrained]
    constructor
    · rintro ⟨jobs, hjobs, hpacks, -⟩
      cases hjobs
      cases blocks with
      | nil => rfl
      | cons b blocks => exact absurd hpacks not_packsNewest_nil
    · rintro rfl
      exact ⟨[], rfl, packsNewest_submittedJobs hblocks, fun _ files hspread =>
        drainedShardJobs_eq_nil hspread (.inl rfl) force⟩

/-- Two versions of one block, with another block between them. -/
def threeRecords : List Block :=
  [⟨[7], 1, 3, 1⟩, ⟨[8], 2, 1, 1⟩, ⟨[9], 3, 3, 1⟩]

theorem fits_threeRecords :
    ∀ b ∈ threeRecords, b.Fits Config.tiny := by
  intro b hb
  simp only [threeRecords, List.mem_cons, List.not_mem_nil, or_false] at hb
  rcases hb with rfl | rfl | rfl
  · exact ⟨rfl, by decide, by decide, by decide⟩
  · exact ⟨rfl, by decide, by decide, by decide⟩
  · exact ⟨rfl, by decide, by decide, by decide⟩

/-- The segment is a chunk long, so that it is drained without being forced to. -/
theorem walChunkJobs_packsNewest_threeRecords :
    Config.tiny.recordBufferFits threeRecords = true ∧
      ∃ jobs, Config.tiny.walChunkJobs false (segment Config.tiny 0 threeRecords) =
          .ok jobs ∧
        PacksNewest Config.tiny threeRecords jobs ∧
        (Config.tiny.sealing = none → ∀ files, SpreadOver Config.tiny threeRecords files →
          Config.tiny.drainedShardJobs false files = .ok jobs) :=
  ⟨rfl, (walChunkJobs_packsNewest_iff Config.tiny false 0 threeRecords fits_threeRecords).mpr
    (by decide +kernel)⟩

def widestBlock : Nat := 2 ^ 32 - 1

theorem widestBlock_pos : 0 < widestBlock := by
  decide

theorem widestBlock_lt : widestBlock < 2 ^ 32 := by
  decide

/-- A plaintext volume with the largest blocks there are. -/
def widest : Config :=
  { Config.tiny with
    blockSize := widestBlock
    blockSize_pos := widestBlock_pos
    blockSize_lt := widestBlock_lt }

theorem exists_fits (cfg : Config) :
    ∃ b : Block, b.Fits cfg :=
  ⟨⟨List.replicate cfg.blockSize 0, 0, 0, 0⟩, List.length_replicate, Nat.two_pow_pos 64,
    Nat.two_pow_pos 64, Nat.two_pow_pos 64⟩

/-- A record of the volume needs a buffer of 28 bytes more than a block, and gets one of 27.
The drain of the sharded log reads a part of the record, and takes it for the end. -/
theorem walChunkJobs_outOfRange :
    ∃ b : Block, b.Fits widest ∧
      widest.walChunkJobs true (segment widest 0 [b]) = .error .outOfRange ∧
      (∀ files, SpreadOver widest [b] files → widest.drainedShardJobs true files = .ok []) ∧
      ¬ PacksNewest widest [b] [] := by
  obtain ⟨b, hfits⟩ := exists_fits widest
  refine ⟨b, hfits, ?_, fun files hspread => ?_, not_packsNewest_nil⟩
  · have hplain : widest.sealing = none := rfl
    have hbuffer : (28 + widest.blockSize) % 2 ^ 32 = 27 := by
      decide
    have hsome : (([b].map widest.walRecord).flatten : Bytes) ≠ [] := by
      intro hnil
      have hlength := length_walRecord hfits
      have hpos := recordSize_pos widest
      simp only [List.map_cons, List.map_nil, List.flatten_cons, List.flatten_nil,
        List.append_nil] at hnil
      rw [hnil, List.length_nil] at hlength
      omega
    rw [walChunkJobs, drained, Bool.true_or, if_pos rfl, closedSegment_segment]
    simp only [hplain, hbuffer, readBuffers, hsome, and_false, if_false]
    rfl
  · exact drainedShardJobs_eq_nil hspread (.inr (by decide)) true

end Outcome

end Viperblock
