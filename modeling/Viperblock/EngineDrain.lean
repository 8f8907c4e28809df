import Mathlib.Data.List.Perm.Subperm
import Viperblock.EngineBuffers

/-!
# Drains one at a time

What `drainMu` is for: while only drains consolidate, the chunks on their way to the
block map are those of one closed segment.  They hold every block once, and in an
older version than the log segment and the write buffer, so an upload never overtakes
a newer version of its blocks.  Until its version is in the block map, a block keeps
an entry in memory that is at least as new, unless the write that made the version has
not published it yet.
-/

namespace Viperblock

/-- Block and number of a version. -/
def Block.version (b : Block) : Nat × Nat := (b.block, b.seqNum)

def RangeItem.version (item : RangeItem) : Nat × Nat := (item.block, item.seqNum)

namespace Engine

open GuardedRun BlockMap BlocksToObject Volume

/-- What `MarkPersistedRange` has still to move. -/
def Marking.items : Marking → List RangeItem
  | .predicting _ todo eligible => eligible ++ todo
  | .dropping todo => todo

/-- What the locked section has still to enter and to move. -/
def MapInsert.versions (m : MapInsert) : List (Nat × Nat) :=
  ((m.marking.map Marking.items).getD []).map RangeItem.version ++
    (m.runs.flatMap Prod.snd).map Block.version

namespace State

variable (s : State)

/-- The versions in chunks that are on their way to the block map. -/
def packed : List (Nat × Nat) :=
  (s.uploads.flatMap Upload.blocks).map Block.version ++
    (s.mapInsert.map MapInsert.versions).getD []

def drainPhase : Option DrainPhase := s.drain.map DrainCall.phase

/-- Some write has appended the version and not published it yet. -/
def Appended (v : Nat × Nat) : Prop :=
  ∃ id p todo blk n, s.writers.lookup id = some ⟨p :: todo, .appended blk, n⟩ ∧ blk.version = v

/-- The block store knows a version at least as new, or will. -/
def Covered (v : Nat × Nat) : Prop :=
  (∃ e, s.store.entries.lookup v.1 = some e ∧ v.2 ≤ e.seqNum) ∨ s.Appended v

end State

/-- The step leaves buffers, chunks, memory and the block map alone. -/
structure Idle (s t : State) : Prop where
  writes : t.writes = s.writes
  flush : t.flush = s.flush
  records : t.wal.records = s.wal.records
  uploads : t.uploads = s.uploads
  mapInsert : t.mapInsert = s.mapInsert
  store : t.store = s.store
  blocksToObject : t.volume.vb.blocksToObject = s.volume.vb.blocksToObject
  appended : ∀ id p todo blk n, s.writers.lookup id = some ⟨p :: todo, .appended blk, n⟩ →
      t.writers.lookup id = some ⟨p :: todo, .appended blk, n⟩

/-- Moreover it leaves the write calls and their numbers alone. -/
structure Rests (s t : State) : Prop extends Idle s t where
  writers : t.writers = s.writers
  seqNum : t.volume.vb.seqNum = s.volume.vb.seqNum

section Idle

variable {env : Env} {s t : State} {id : Nat}

namespace Idle

variable (hidle : Idle s t)
include hidle

theorem newer_eq : t.newer = s.newer := by
  simp only [State.newer, State.unflushed, hidle.writes, hidle.flush, hidle.records]

theorem packed_eq : t.packed = s.packed := by
  simp only [State.packed, hidle.uploads, hidle.mapInsert]

theorem covered {v : Nat × Nat} (hv : s.Covered v) :
    t.Covered v := by
  rcases hv with ⟨e, he, hle⟩ | ⟨id, p, todo, blk, n, hw, hblk⟩
  · rw [← hidle.store] at he
    exact .inl ⟨e, he, hle⟩
  · exact .inr ⟨id, p, todo, blk, n, hidle.appended id p todo blk n hw, hblk⟩

end Idle

section

variable (hfree : ∀ p todo blk n, s.writers.lookup id ≠ some ⟨p :: todo, .appended blk, n⟩)

include hfree

theorem idle_setWriter {w : WriteCall} :
    Idle s (s.setWriter id w) := by
  refine ⟨rfl, rfl, rfl, rfl, rfl, rfl, rfl, ?_⟩
  intro id' p todo blk n hw
  have hne : id' ≠ id := by
    rintro rfl
    exact hfree p todo blk n hw
  simp only [State.setWriter]
  rw [AList.lookup_insert_ne hne, hw]

theorem idle_eraseWriter :
    Idle s { s with writers := s.writers.erase id } := by
  refine ⟨rfl, rfl, rfl, rfl, rfl, rfl, rfl, ?_⟩
  intro id' p todo blk n hw
  have hne : id' ≠ id := by
    rintro rfl
    exact hfree p todo blk n hw
  rw [AList.lookup_erase_ne hne, hw]

end

theorem idle_beginWrite {offset : Nat} {data : Bytes} {nearFull : Bool}
    :
    s.beginWrite env id offset data nearFull = some t → Idle s t ∧ t.drainPhase = s.drainPhase := by
  fun_cases State.beginWrite <;> rintro ⟨⟩
  rename_i hadmits
  simp only [Bool.and_eq_true, Option.isNone_iff_eq_none] at hadmits
  have hset : Idle s (s.setWriter id ⟨patches env.cfg.blockSize offset data, .waiting, 0⟩) :=
    idle_setWriter fun p todo blk n => by simp [hadmits.1]
  refine ⟨⟨rfl, rfl, rfl, rfl, rfl, rfl, rfl, hset.appended⟩, ?_⟩
  simp only [State.drainPhase, Option.map_map]
  rfl

theorem idle_lock :
    s.lock env id = some t → Idle s t ∧ t.drainPhase = s.drainPhase := by
  fun_cases State.lock <;> rintro ⟨⟩
  all_goals
    have hfree : ∀ p todo blk n, s.writers.lookup id ≠ some ⟨p :: todo, .appended blk, n⟩ := by
      simp [*]
  · exact ⟨idle_setWriter hfree, rfl⟩
  · exact ⟨idle_eraseWriter hfree, rfl⟩
  · exact ⟨idle_setWriter hfree, rfl⟩

theorem idle_rmw {ok : Bool} (hmemory : InMemory s.store) :
    s.rmw env id ok = some t → Idle s t ∧ t.drainPhase = s.drainPhase := by
  fun_cases State.rmw <;> rintro ⟨⟩
  all_goals
    have hfree : ∀ p todo blk n, s.writers.lookup id ≠ some ⟨p :: todo, .appended blk, n⟩ := by
      simp [*]
  · exact ⟨idle_eraseWriter hfree, rfl⟩
  · obtain rfl := advance_store hmemory ‹_›
    exact ⟨idle_setWriter hfree, rfl⟩

theorem idle_splice :
    s.splice env id = some t → Idle s t ∧ t.drainPhase = s.drainPhase := by
  fun_cases State.splice <;> rintro ⟨⟩
  exact ⟨idle_setWriter (by simp [*]), rfl⟩

theorem idle_reserve {disk backend : Outcome} (hstep : s.reserve env id disk backend = some t) :
    Idle s t ∧ t.drainPhase = s.drainPhase := by
  have hsame := reserveSeqNum_sameBlocks env.cfg s.volume disk backend
  revert hstep
  fun_cases State.reserve <;> intro hstep <;> cases hstep
  all_goals
    rename_i hreserve
    have hfree : ∀ p todo blk n, s.writers.lookup id ≠ some ⟨p :: todo, .appended blk, n⟩ := by
      simp [*]
    rw [hreserve] at hsame
  · exact ⟨⟨rfl, rfl, rfl, rfl, rfl, hsame.blockStore, hsame.blocksToObject,
      (idle_eraseWriter hfree).appended⟩, rfl⟩
  · exact ⟨⟨rfl, rfl, rfl, rfl, rfl, hsame.blockStore, hsame.blocksToObject,
      (idle_setWriter hfree).appended⟩, rfl⟩

theorem idle_endWrite :
    s.endWrite env id = some t → Idle s t ∧ t.drainPhase = s.drainPhase := by
  fun_cases State.endWrite <;> rintro ⟨⟩
  have herase : Idle s { s with writers := s.writers.erase id } :=
    idle_eraseWriter (by simp [*])
  exact ⟨⟨rfl, rfl, rfl, rfl, rfl, rfl, rfl, herase.appended⟩, rfl⟩

theorem rests_of (hbuffers : t.writes = s.writes ∧ t.flush = s.flush ∧ t.wal = s.wal)
    (hchunks : t.uploads = s.uploads ∧ t.mapInsert = s.mapInsert) (hwriters : t.writers = s.writers)
    (hblocks : t.store = s.store ∧ t.volume.vb.blocksToObject = s.volume.vb.blocksToObject)
    (hseqNum : t.volume.vb.seqNum = s.volume.vb.seqNum) :
    Rests s t := by
  refine ⟨⟨hbuffers.1, hbuffers.2.1, by rw [hbuffers.2.2], hchunks.1, hchunks.2, hblocks.1,
    hblocks.2, ?_⟩, hwriters, hseqNum⟩
  rw [hwriters]
  exact fun _ _ _ _ _ hw => hw

theorem rests_beginRead {offset length : Nat} :
    s.beginRead env id offset length = some t → Rests s t ∧ t.drainPhase = s.drainPhase := by
  fun_cases State.beginRead <;> rintro ⟨⟩
  exact ⟨rests_of ⟨rfl, rfl, rfl⟩ ⟨rfl, rfl⟩ rfl ⟨rfl, rfl⟩ rfl, rfl⟩

theorem rests_read {ok : Bool} (hmemory : InMemory s.store) :
    s.read env id ok = some t → Rests s t ∧ t.drainPhase = s.drainPhase := by
  fun_cases State.read <;> rintro ⟨⟩
  · exact ⟨rests_of ⟨rfl, rfl, rfl⟩ ⟨rfl, rfl⟩ rfl ⟨rfl, rfl⟩ rfl, rfl⟩
  · obtain rfl := advance_store hmemory ‹_›
    exact ⟨rests_of ⟨rfl, rfl, rfl⟩ ⟨rfl, rfl⟩ rfl ⟨rfl, rfl⟩ rfl, rfl⟩

theorem rests_endRead :
    s.endRead id = some t → Rests s t ∧ t.drainPhase = s.drainPhase := by
  fun_cases State.endRead <;> rintro ⟨⟩
  exact ⟨rests_of ⟨rfl, rfl, rfl⟩ ⟨rfl, rfl⟩ rfl ⟨rfl, rfl⟩ rfl, rfl⟩

theorem rests_saveState (disk backend : Outcome) :
    Rests s (s.saveState env disk backend) := by
  have hsame := (saveState_spec env.cfg s.volume disk backend).1
  refine rests_of ⟨rfl, rfl, rfl⟩ ⟨rfl, rfl⟩ rfl ⟨hsame.blockStore, hsame.blocksToObject⟩ ?_
  unfold State.saveState saveState mintForSave persistStateLocal pushStateToBackend
  cases disk <;> cases backend <;> split <;> rfl

theorem rests_beginDrain :
    s.beginDrain = some t → Rests s t ∧ s.drainPhase = none := by
  fun_cases State.beginDrain <;> rintro ⟨⟩
  refine ⟨rests_of ⟨rfl, rfl, rfl⟩ ⟨rfl, rfl⟩ rfl ⟨rfl, rfl⟩ rfl, ?_⟩
  simp [State.drainPhase, *]

theorem rests_endBatch {batch : Nat} {noSpace : Bool} :
    s.endBatch batch noSpace = some t → Rests s t ∧ (t.drainPhase = s.drainPhase ∨
      s.drainPhase = some (.uploading batch) ∧ s.batchDone batch = true) := by
  fun_cases State.endBatch <;> simp only [reduceCtorEq, Option.some.injEq, false_implies] <;>
    rintro rfl
  all_goals refine ⟨rests_of ⟨rfl, rfl, rfl⟩ ⟨rfl, rfl⟩ rfl ⟨rfl, rfl⟩ rfl, ?_⟩
  any_goals exact .inl rfl
  all_goals exact .inr ⟨by simp [State.drainPhase, *], ‹_›⟩

theorem rests_serialiseLive :
    s.serialiseLive env = some t → Rests s t ∧ s.drainPhase = some .uploaded := by
  fun_cases State.serialiseLive <;> rintro ⟨⟩
  all_goals
    refine ⟨rests_of ⟨rfl, rfl, rfl⟩ ⟨rfl, rfl⟩ rfl ⟨rfl, rfl⟩ rfl, ?_⟩
    simp [State.drainPhase, *]

theorem rests_putLive {out : Outcome} {noSpace : Bool} :
    s.putLive out noSpace = some t →
    Rests s t ∧ ∃ records, s.drainPhase = some (.saving records) := by
  fun_cases State.putLive <;> rintro ⟨⟩
  rename_i records quiet hdrain _ _
  have hphase : s.drainPhase = some (.saving records) := by
    simp only [State.drainPhase, hdrain, Option.map_some]
  split <;>
    exact ⟨rests_of ⟨rfl, rfl, rfl⟩ ⟨rfl, rfl⟩ rfl ⟨rfl, rfl⟩ rfl, records, hphase⟩

/-- The steps of reads, drains and saves. -/
def Act.isRest : Act → Bool
  | .beginRead _ _ _ | .read _ _ | .endRead _ | .beginDrain | .endBatch _ _ | .serialiseLive
  | .putLive _ _ | .saveState _ _ => true
  | _ => false

/-- The steps of calls up to the write buffer, and saves. -/
def Act.isCall : Act → Bool
  | .beginWrite _ _ _ _ | .lock _ | .rmw _ _ | .splice _ | .reserve _ _ _ | .endWrite _
  | .beginRead _ _ _ | .read _ _ | .endRead _ | .saveState _ _ => true
  | _ => false

theorem rests_step {act : Act} (hmemory : InMemory s.store) (hact : act.isRest = true)
    (hstep : step env s act = some t) :
    Rests s t := by
  cases act with
  | beginRead id offset length => exact (rests_beginRead hstep).1
  | read id ok => exact (rests_read hmemory hstep).1
  | endRead id => exact (rests_endRead hstep).1
  | beginDrain => exact (rests_beginDrain hstep).1
  | endBatch batch noSpace => exact (rests_endBatch hstep).1
  | serialiseLive => exact (rests_serialiseLive hstep).1
  | putLive out noSpace => exact (rests_putLive hstep).1
  | saveState disk backend =>
    cases hstep
    exact rests_saveState disk backend
  | _ => cases hact

theorem idle_step {act : Act} (hmemory : InMemory s.store) (hact : act.isCall = true)
    (hstep : step env s act = some t) :
    Idle s t ∧ t.drainPhase = s.drainPhase := by
  cases act with
  | beginWrite id offset data nearFull => exact idle_beginWrite hstep
  | lock id => exact idle_lock hstep
  | rmw id ok => exact idle_rmw hmemory hstep
  | splice id => exact idle_splice hstep
  | reserve id disk backend => exact idle_reserve hstep
  | endWrite id => exact idle_endWrite hstep
  | beginRead id offset length =>
    exact ⟨(rests_beginRead hstep).1.toIdle, (rests_beginRead hstep).2⟩
  | read id ok =>
    exact ⟨(rests_read hmemory hstep).1.toIdle, (rests_read hmemory hstep).2⟩
  | endRead id =>
    exact ⟨(rests_endRead hstep).1.toIdle, (rests_endRead hstep).2⟩
  | saveState disk backend =>
    cases hstep
    exact ⟨(rests_saveState disk backend).toIdle, rfl⟩
  | _ => cases hact

end Idle

/-- The runs still to be entered are consecutive. -/
def State.ChainedRuns (s : State) : Prop :=
  ∀ m, s.mapInsert = some m → ∀ run ∈ m.runs, run.2.IsChain fun a b => b.block = a.block + 1

/-- The step leaves buffers and calls alone. -/
structure KeepsCalls (s t : State) : Prop where
  writes : t.writes = s.writes
  flush : t.flush = s.flush
  records : t.wal.records = s.wal.records
  drain : t.drain = s.drain
  writers : t.writers = s.writers
  seqNum : t.volume.vb.seqNum = s.volume.vb.seqNum

/-- Moreover it moves a chunk on. -/
structure Uploads (s t : State) : Prop extends KeepsCalls s t where
  busy : s.uploads ≠ [] ∨ s.mapInsert ≠ none
  older : ∀ r ∈ t.older, r ∈ s.older
  packed : s.ChainedRuns → t.packed.Subperm s.packed
  uploads_batch : ∀ u ∈ t.uploads, ∃ u' ∈ s.uploads, u'.batch = u.batch
  mapInsert_batch : ∀ m, t.mapInsert = some m →
    (∃ u ∈ s.uploads, u.batch = m.batch) ∨ ∃ m', s.mapInsert = some m' ∧ m'.batch = m.batch
  chained : s.ChainedRuns → t.ChainedRuns

/-- Moreover it leaves memory and the block map alone. -/
structure Carries (s t : State) : Prop extends Uploads s t where
  store : t.store = s.store
  blocksToObject : t.volume.vb.blocksToObject = s.volume.vb.blocksToObject
  marking : ∀ m, t.mapInsert = some m → m.marking = none ∨ s.mapInsert = some m

section Uploads

variable {env : Env} {s t : State} {i : Nat} {u u' : Upload} {uploads : List Upload}

theorem flatMap_blocks_set (hu : uploads[i]? = some u) (hblocks : u'.blocks = u.blocks) :
    (uploads.set i u').flatMap Upload.blocks = uploads.flatMap Upload.blocks := by
  obtain ⟨hi, rfl⟩ := List.getElem?_eq_some_iff.mp hu
  have hi' : i < (uploads.map Upload.blocks).length := by
    rw [List.length_map]
    exact hi
  have hget : (uploads.map Upload.blocks)[i] = u'.blocks := by
    rw [List.getElem_map, hblocks]
  rw [List.flatMap_def, List.map_set, ← hget, List.set_getElem_self, List.flatMap_def]

theorem KeepsCalls.newer_eq (h : KeepsCalls s t) :
    t.newer = s.newer := by
  simp only [State.newer, State.unflushed, h.writes, h.flush, h.records]

theorem uploads_of_sublist (hframe : KeepsCalls s t) (hmem : u ∈ s.uploads)
    (hsub : (t.uploads.flatMap Upload.blocks).Sublist (s.uploads.flatMap Upload.blocks))
    (hbatch : ∀ x ∈ t.uploads, ∃ y ∈ s.uploads, y.batch = x.batch)
    (hmap : t.mapInsert = s.mapInsert) :
    Uploads s t := by
  refine ⟨hframe, .inl (List.ne_nil_of_mem hmem), ?_, ?_, hbatch, ?_, ?_⟩
  · simp only [State.older, hmap]
    exact fun r hr => (hsub.append_right _).subset hr
  · intro _
    simp only [State.packed, hmap]
    exact ((hsub.map _).append_right _).subperm
  · rw [hmap]
    exact fun m hm => .inr ⟨m, hm, rfl⟩
  · unfold State.ChainedRuns
    rw [hmap]
    exact id

theorem uploads_set (hframe : KeepsCalls s t) (hu : s.uploads[i]? = some u)
    (huploads : t.uploads = s.uploads.set i u')
    (hsame : u'.batch = u.batch ∧ u'.blocks = u.blocks) (hmap : t.mapInsert = s.mapInsert) :
    Uploads s t := by
  have hmem := List.mem_of_getElem? hu
  refine uploads_of_sublist hframe hmem (by rw [huploads, flatMap_blocks_set hu hsame.2])
    (fun x hx => ?_) hmap
  rw [huploads] at hx
  rcases List.mem_or_eq_of_mem_set hx with hx | rfl
  · exact ⟨x, hx, rfl⟩
  · exact ⟨u, hmem, hsame.1.symm⟩

theorem uploads_eraseIdx (hframe : KeepsCalls s t) (hu : s.uploads[i]? = some u)
    (huploads : t.uploads = s.uploads.eraseIdx i) (hmap : t.mapInsert = s.mapInsert) :
    Uploads s t := by
  have hsub := List.eraseIdx_sublist s.uploads i
  exact uploads_of_sublist hframe (List.mem_of_getElem? hu) (huploads ▸ hsub.flatMap _)
    (fun x hx => ⟨x, hsub.subset (huploads ▸ hx), rfl⟩) hmap

theorem carries_allocate :
    s.allocate i = some t → Carries s t := by
  fun_cases State.allocate <;> rintro ⟨⟩
  have hu := ‹s.uploads[i]? = _›
  exact ⟨uploads_set ⟨rfl, rfl, rfl, rfl, rfl, rfl⟩ hu rfl ⟨rfl, rfl⟩ rfl, rfl, rfl, fun _ => .inr⟩

theorem carries_put {out : Outcome} :
    s.put env i out = some t → Carries s t := by
  fun_cases State.put <;> rintro ⟨⟩
  all_goals have hu := ‹s.uploads[i]? = _›
  · exact ⟨uploads_set ⟨rfl, rfl, rfl, rfl, rfl, rfl⟩ hu rfl ⟨rfl, rfl⟩ rfl, rfl, rfl,
      fun _ => .inr⟩
  · exact ⟨uploads_eraseIdx ⟨rfl, rfl, rfl, rfl, rfl, rfl⟩ hu rfl rfl, rfl, rfl, fun _ => .inr⟩

theorem carries_skip :
    s.skip i = some t → Carries s t := by
  fun_cases State.skip <;> rintro ⟨⟩
  have hu := ‹s.uploads[i]? = _›
  exact ⟨uploads_eraseIdx ⟨rfl, rfl, rfl, rfl, rfl, rfl⟩ hu rfl rfl, rfl, rfl, fun _ => .inr⟩

theorem carries_evict :
    s.evict i = some t → Carries s t := by
  fun_cases State.evict <;> rintro ⟨⟩
  have hu := ‹s.uploads[i]? = _›
  exact ⟨uploads_set ⟨rfl, rfl, rfl, rfl, rfl, rfl⟩ hu rfl ⟨rfl, rfl⟩ rfl, rfl, rfl, fun _ => .inr⟩

theorem flatMap_chunkRuns (blocks : List Block) : (chunkRuns blocks).flatMap Prod.snd = blocks := by
  rw [chunkRuns, flatten_placeRuns, List.flatten_splitBy]

theorem carries_lockMap :
    s.lockMap i = some t → Carries s t := by
  fun_cases State.lockMap <;> rintro ⟨⟩
  rename_i batch blocks chunkIndex hmap hu
  have hmem := List.mem_of_getElem? hu
  have hperm : ((s.uploads.eraseIdx i).flatMap Upload.blocks ++ blocks).Perm
      (s.uploads.flatMap Upload.blocks) := by
    obtain ⟨hi, hget⟩ := List.getElem?_eq_some_iff.mp hu
    have hcons := (List.getElem_cons_eraseIdx_perm hi).flatMap_right Upload.blocks
    rw [hget] at hcons
    exact List.perm_append_comm.trans hcons
  refine ⟨⟨⟨rfl, rfl, rfl, rfl, rfl, rfl⟩, .inl (List.ne_nil_of_mem hmem), ?_, ?_, ?_, ?_, ?_⟩,
    rfl, rfl, ?_⟩
  · intro r hr
    simp only [State.older, hmap, flatMap_chunkRuns, List.append_nil] at hr ⊢
    exact hperm.subset hr
  · intro _
    simp only [State.packed, hmap, MapInsert.versions, flatMap_chunkRuns, Option.map_some,
      Option.map_none, Option.getD_some, Option.getD_none, List.map_nil, List.nil_append,
      List.append_nil, ← List.map_append]
    exact (hperm.map _).subperm
  · exact fun x hx => ⟨x, (List.eraseIdx_sublist _ _).subset hx, rfl⟩
  · rintro m ⟨⟩
    exact .inl ⟨_, hmem, rfl⟩
  · rintro _ m ⟨⟩ run hrun
    exact isChain_of_mem_chunkRuns hrun
  · rintro m ⟨⟩
    exact .inl rfl

theorem runItems_eq (first : Block) (rest : List Block) :
    State.runItems first rest = (List.range (rest.length + 1)).map fun i =>
      ⟨i, first.block + i, ((first :: rest).map Block.seqNum).getD i 0⟩ := by
  have hseqNums : (first :: rest).map Block.seqNum = (List.range (rest.length + 1)).map
      fun i => ((first :: rest).map Block.seqNum).getD i 0 := by
    apply List.ext_getElem
    · simp
    · intro j hj hj'
      have hget := List.getElem?_eq_getElem hj
      simp only [List.getElem_map, List.getElem_range, List.getD_eq_getElem?_getD] at hget ⊢
      rw [hget, Option.getD_some]
  have hitems := rangeItems_range (rest.length + 1) (first.block + ·)
    fun i => ((first :: rest).map Block.seqNum).getD i 0
  rw [← hseqNums] at hitems
  exact hitems

theorem exists_of_mem_runItems {first : Block} {rest : List Block} {item : RangeItem}
    (hitem : item ∈ State.runItems first rest) :
    ∃ w, (first :: rest)[item.pos]? = some w ∧ item.block = first.block + item.pos ∧
      item.seqNum = w.seqNum := by
  rw [runItems_eq] at hitem
  obtain ⟨i, hi, rfl⟩ := List.mem_map.mp hitem
  have hlt : i < (first :: rest).length := List.mem_range.mp hi
  refine ⟨(first :: rest)[i], List.getElem?_eq_getElem hlt, rfl, ?_⟩
  simp only [List.getD_eq_getElem?_getD, List.getElem?_map, List.getElem?_eq_getElem hlt,
    Option.map_some, Option.getD_some]

theorem pairwise_runItems (first : Block) (rest : List Block) :
    (State.runItems first rest).Pairwise fun a b => a.block < b.block := by
  rw [runItems_eq, List.pairwise_map]
  exact List.pairwise_lt_range.imp fun h => Nat.add_lt_add_left h _

theorem version_rangeItems (blocks seqNums : List Nat) :
    (rangeItems blocks seqNums).map RangeItem.version = blocks.zip seqNums := by
  unfold rangeItems
  rw [List.map_map]
  exact List.zipIdx_map_fst 0 _

theorem version_runItems {first : Block} {rest : List Block}
    (hchain : (first :: rest).IsChain fun a b => b.block = a.block + 1) :
    (State.runItems first rest).map RangeItem.version = (first :: rest).map Block.version := by
  have hblocks : (List.range (rest.length + 1)).map (first.block + ·) =
      (first :: rest).map Block.block := by
    apply List.ext_getElem
    · simp
    · intro j hj hj'
      have hget := List.getElem?_eq_getElem (l := first :: rest) (by simpa using hj')
      have hnumber := ConsecutiveRuns.number_of_getElem? hchain hget
      simp only [List.getElem_map, List.getElem_range]
      exact hnumber.symm
  unfold State.runItems
  rw [version_rangeItems, hblocks, List.zip_map']
  rfl

/-- What is left to enter, and what is to be moved instead. -/
theorem uploads_entered {batch chunkIndex runStart : Nat} {blocks : List Block}
    {runs : List (Nat × List Block)} {marking : Option Marking} (hframe : KeepsCalls s t)
    (hmap : s.mapInsert = some ⟨batch, chunkIndex, (runStart, blocks) :: runs, none⟩)
    (huploads : t.uploads = s.uploads)
    (hmap' : t.mapInsert = some ⟨batch, chunkIndex, runs, marking⟩)
    (hitems : s.ChainedRuns → (((marking.map Marking.items).getD []).map RangeItem.version).Sublist
      (blocks.map Block.version)) :
    Uploads s t := by
  refine ⟨hframe, .inr (by simp [hmap]), ?_, ?_, ?_, ?_, ?_⟩
  · intro r hr
    simp only [State.older, hmap, hmap', huploads, List.flatMap_cons, List.mem_append] at hr ⊢
    tauto
  · intro hchained
    simp only [State.packed, hmap, hmap', huploads, MapInsert.versions, Option.map_some,
      Option.map_none, Option.getD_some, Option.getD_none, List.map_nil, List.nil_append,
      List.flatMap_cons, List.map_append]
    exact (((hitems hchained).append_right _).append_left _).subperm
  · rw [huploads]
    exact fun u hu => ⟨u, hu, rfl⟩
  · intro m hm
    cases hmap'.symm.trans hm
    exact .inr ⟨_, hmap, rfl⟩
  · intro hchained m hm run hrun
    cases hmap'.symm.trans hm
    exact hchained _ hmap run (List.mem_cons_of_mem _ hrun)

theorem uploads_insertRun :
    s.insertRun env = some t → Uploads s t ∧ t.store = s.store := by
  fun_cases State.insertRun <;> rintro ⟨⟩
  all_goals have hmap := ‹s.mapInsert = _›
  · exact ⟨uploads_entered ⟨rfl, rfl, rfl, rfl, rfl, rfl⟩ hmap rfl rfl (by simp), rfl⟩
  · refine ⟨uploads_entered ⟨rfl, rfl, rfl, rfl, rfl, rfl⟩ hmap rfl rfl fun hchained => ?_, rfl⟩
    have hrun := hchained _ hmap _ List.mem_cons_self
    dsimp +zetaDelta only
    split
    · simp
    · rw [Option.map_some, Option.getD_some, Marking.items, List.nil_append,
        version_runItems hrun]

theorem uploads_moved {m m' : MapInsert} (hframe : KeepsCalls s t) (hm : s.mapInsert = some m)
    (hm' : t.mapInsert = some m') (hsame : m'.batch = m.batch ∧ m'.runs = m.runs)
    (hitems : ((m'.marking.map Marking.items).getD []).Sublist ((m.marking.map Marking.items).getD
      [])) (huploads : t.uploads = s.uploads) :
    Uploads s t := by
  obtain ⟨hbatch, hruns⟩ := hsame
  refine ⟨hframe, .inr (by simp [hm]), ?_, ?_, ?_, ?_, ?_⟩
  · intro r hr
    simpa only [State.older, huploads, hm, hm', hruns] using hr
  · intro _
    simp only [State.packed, huploads, hm, hm', MapInsert.versions, Option.map_some,
      Option.getD_some, hruns]
    exact (((hitems.map _).append_right _).append_left _).subperm
  · rw [huploads]
    exact fun u hu => ⟨u, hu, rfl⟩
  · intro m'' hm''
    cases hm'.symm.trans hm''
    exact .inr ⟨m, hm, hbatch.symm⟩
  · intro hchained m'' hm''
    cases hm'.symm.trans hm''
    rw [hruns]
    exact hchained m hm

/-- Blocks move from memory to the extents. -/
theorem uploads_mark :
    s.mark env = some t →
    Uploads s t ∧ t.volume.vb.blocksToObject = s.volume.vb.blocksToObject := by
  fun_cases State.mark <;> rintro ⟨⟩
  all_goals
    have hmap := ‹s.mapInsert = _›
    refine ⟨uploads_moved ⟨rfl, rfl, rfl, rfl, rfl, rfl⟩ hmap rfl ⟨rfl, rfl⟩ ?_ rfl, rfl⟩
  · rename_i eligible
    simp only [Option.map_some, Option.getD_some, Marking.items, eligible]
    split
    · simp
    · exact (List.sublist_cons_self _ _).append_left _
  all_goals simp [Marking.items]

theorem carries_unlockMap :
    s.unlockMap = some t → Carries s t := by
  fun_cases State.unlockMap <;> rintro ⟨⟩
  rename_i hmap
  refine ⟨⟨⟨rfl, rfl, rfl, rfl, rfl, rfl⟩, .inr (by simp [hmap]), ?_, ?_,
    fun u hu => ⟨u, hu, rfl⟩, by simp, by simp [State.ChainedRuns]⟩, rfl, rfl, by simp⟩
  · intro r hr
    simp only [State.older, hmap] at hr ⊢
    exact hr
  · intro _
    simp only [State.packed, hmap, MapInsert.versions, Option.map_some, Option.map_none,
      Option.getD_some, Option.getD_none, List.map_nil, List.flatMap_nil, List.append_nil]
    exact List.Subperm.refl _

/-- The steps of an upload outside of the map's lock, and the two ends of the lock. -/
def Act.isCarry : Act → Bool
  | .allocate _ | .put _ _ | .skip _ | .evict _ | .lockMap _ | .unlockMap => true
  | _ => false

theorem carries_step {act : Act} (hact : act.isCarry = true) (hstep : step env s act = some t) :
    Carries s t := by
  cases act with
  | allocate i => exact carries_allocate hstep
  | put i out => exact carries_put hstep
  | skip i => exact carries_skip hstep
  | evict i => exact carries_evict hstep
  | lockMap i => exact carries_lockMap hstep
  | unlockMap => exact carries_unlockMap hstep
  | _ => cases hact

end Uploads

section Rotation

variable {env : Env} {s t : State} {batch : Nat} {draining opened : Bool}
variable {next : ReopenSystem.Segment}

/-- A closed segment, as chunks or, if it cannot be read, not at all. -/
structure Rotates (env : Env) (s t : State) (batch : Nat) (jobs : List (List Block)) :
    Prop where
  packs : jobs = [] ∨ jobs = chunkJobs env.cfg.objBlockSize s.wal.records
  records : t.wal.records = []
  uploads : t.uploads = s.uploads ++ jobs.map fun job => ⟨batch, job, .queued⟩
  writes : t.writes = s.writes
  flush : t.flush = s.flush
  mapInsert : t.mapInsert = s.mapInsert
  writers : t.writers = s.writers
  vb : t.volume.vb = s.volume.vb

theorem segmentJobs_eq_some {opened : Bool} {jobs : List (List Block)} (h : Basic env s)
    (hjobs : (if opened then State.segmentJobs env (env.cfg.segment s.wal.timestamp s.wal.records)
      else none) = some jobs) :
    jobs = chunkJobs env.cfg.objBlockSize s.wal.records := by
  split at hjobs
  · unfold State.segmentJobs at hjobs
    split at hjobs
    · cases hjobs
    · rename_i blocks hread
      have hfits : ∀ r ∈ s.wal.records, r.Fits env.cfg := fun r hr =>
        (h.fits r (List.mem_append_right _ (List.mem_append_left _ hr))).1
      rw [Config.eq_of_readClosedSegment_segment hfits hread] at hjobs
      exact (Option.some.inj hjobs).symm
  · cases hjobs

theorem Basic.rotates (h : Basic env s) (hstep : s.rotate env batch draining opened next = some t) :
    ∃ jobs, Rotates env s t batch jobs ∧ (draining = true → s.drainPhase = some .flushed ∧
        t.drainPhase = some (.uploading batch)) := by
  have hjobs : ∀ jobs, (if opened then
      State.segmentJobs env (env.cfg.segment s.wal.timestamp s.wal.records) else none) =
        jobs → jobs.getD [] = [] ∨ jobs.getD [] = chunkJobs env.cfg.objBlockSize s.wal.records := by
    rintro (_ | jobs) hjobs
    · exact .inl rfl
    · exact .inr (segmentJobs_eq_some h hjobs)
  revert hstep
  fun_cases State.rotate <;> simp only [reduceCtorEq, Option.some.injEq, false_implies] <;>
    rintro rfl
  · refine ⟨_, ⟨hjobs _ rfl, rfl, rfl, rfl, rfl, rfl, rfl, rfl⟩, fun _ => ⟨?_, rfl⟩⟩
    simp [State.drainPhase, *]
  · exact ⟨_, ⟨hjobs _ rfl, rfl, rfl, rfl, rfl, rfl, rfl, rfl⟩, fun hd => absurd hd ‹_›⟩

variable {jobs : List (List Block)}

theorem Rotates.flatMap_blocks (hrotates : Rotates env s t batch jobs) :
    t.uploads.flatMap Upload.blocks = s.uploads.flatMap Upload.blocks ++ jobs.flatten := by
  rw [hrotates.uploads, List.flatMap_append, List.flatMap_map]
  simp only [List.flatMap_id']

/-- The chunks hold each block of the segment at most once, in its newest version. -/
theorem Rotates.newest (h : Basic env s) (hrotates : Rotates env s t batch jobs) :
    (∀ r ∈ jobs.flatten, IsNewest s.wal.records r) ∧
      jobs.flatten.Pairwise fun a b => a.block < b.block := by
  rcases hrotates.packs with rfl | rfl
  · simp
  · have hdata : ∀ r ∈ s.wal.records, r.data ≠ [] := by
      intro r hr hempty
      have hfits := (h.fits r (List.mem_append_right _ (List.mem_append_left _ hr))).1
      have hlength := hfits.data
      have hpos := env.cfg.blockSize_pos
      rw [hempty, List.length_nil] at hlength
      omega
    rw [flatten_chunkJobs hdata]
    exact ⟨fun r hr => isNewest_of_mem_sortedBlocks hr, sortedBlocks_pairwise _⟩

theorem Rotates.basic (h : Basic env s) (hrotates : Rotates env s t batch jobs) :
    Basic env t := by
  have hstore : t.store = s.store := congrArg VB.blockStore hrotates.vb
  refine h.of_subset ?_ ?_ (h.same_entries (congrArg _ hstore)) ?_ hrotates.writers
  · rw [hrotates.flush, hrotates.writes]
    exact h.buffer
  · intro r hr
    simp only [State.older, State.newer, State.unflushed, hrotates.flatMap_blocks,
      hrotates.mapInsert, hrotates.records, hrotates.flush, hrotates.writes,
      List.mem_append, List.nil_append] at hr ⊢
    rcases hr with ((hr | hr) | hr) | hr
    · exact .inl (.inl hr)
    · exact .inr (.inl ((hrotates.newest h).1 r hr).mem)
    · exact .inl (.inr hr)
    · exact .inr (.inr hr)
  · rw [hrotates.vb]

end Rotation

section BasicStep

variable {env : Env} {s t : State}

theorem Basic.of_uploads (h : Basic env s) (huploads : Uploads s t)
    (hentries : ∀ block e, t.store.entries.lookup block = some e →
      s.store.entries.lookup block = some e) :
    Basic env t := by
  refine h.of_subset ?_ ?_ ?_ (le_of_eq huploads.seqNum.symm) huploads.writers
  · rw [huploads.flush, huploads.writes]
    exact h.buffer
  · intro r hr
    rw [huploads.newer_eq] at hr
    exact List.mem_append.mpr ((List.mem_append.mp hr).imp_left (huploads.older r))
  · intro block e he
    exact ⟨e, hentries block e he, rfl, h.memory block e (hentries block e he)⟩

theorem Basic.of_carries (h : Basic env s) (hcarries : Carries s t) :
    Basic env t := by
  refine h.of_uploads hcarries.toUploads ?_
  rw [hcarries.store]
  exact fun _ _ he => he

theorem Basic.of_rests (h : Basic env s) (hrests : Rests s t) :
    Basic env t := by
  have holder : t.older = s.older := by
    simp only [State.older, hrests.uploads, hrests.mapInsert]
  refine h.of_frame hrests.writes hrests.flush hrests.records ?_ (congrArg _ hrests.store)
    hrests.seqNum hrests.writers
  rw [holder]
  exact fun _ hr => hr

theorem entries_mark :
    s.mark env = some t → ∀ block e, t.store.entries.lookup block = some e →
      s.store.entries.lookup block = some e := by
  fun_cases State.mark <;> rintro ⟨⟩ block e he
  any_goals exact he
  have he' := UnifiedBlockStore.lookup_dropPersisted.symm.trans he
  split at he'
  · cases he'
  · exact he'

/-- What holds in every run is kept by every step. -/
theorem Basic.step {act : Act} (h : Basic env s) (hstep : Engine.step env s act = some t) :
    Basic env t := by
  cases act with
  | beginWrite id offset data nearFull => exact h.beginWrite hstep
  | lock id => exact h.lock hstep
  | rmw id ok => exact h.rmw hstep
  | splice id => exact h.splice hstep
  | reserve id disk backend => exact h.reserve hstep
  | append id => exact h.append hstep
  | publish id => exact h.publish hstep
  | endWrite id => exact h.endWrite hstep
  | beginRead _ _ _ | read _ _ | endRead _ | beginDrain | endBatch _ _ | serialiseLive
  | putLive _ _ | saveState _ _ =>
    exact h.of_rests (rests_step h.memory rfl hstep)
  | beginFlush draining => exact h.beginFlush hstep
  | appendWAL ok => exact h.appendWAL hstep
  | markPending => exact h.markPending hstep
  | endFlush => exact h.endFlush hstep
  | rotate batch draining opened next =>
    obtain ⟨jobs, hrotates, -⟩ := h.rotates hstep
    exact hrotates.basic h
  | allocate _ | put _ _ | skip _ | evict _ | lockMap _ | unlockMap =>
    exact h.of_carries (carries_step rfl hstep)
  | insertRun =>
    obtain ⟨huploads, hstore⟩ := uploads_insertRun hstep
    exact h.of_uploads huploads (by rw [hstore]; exact fun _ _ he => he)
  | mark => exact h.of_uploads (uploads_mark hstep).1 (entries_mark hstep)

end BasicStep

/-- What holds while drains are the only consolidations. -/
structure Serial (s : State) : Prop where
  chained : s.ChainedRuns
  flushing : ∀ f, s.flush = some f → f.draining = true → s.drainPhase = some .flushing
  batch : (∃ b, s.drainPhase = some (.uploading b) ∧ (∀ u ∈ s.uploads, u.batch = b) ∧
      ∀ m, s.mapInsert = some m → m.batch = b) ∨
    s.uploads = [] ∧ s.mapInsert = none
  newer : s.newer.Pairwise fun a b => a.block = b.block → a.seqNum < b.seqNum
  across : ∀ v ∈ s.packed, ∀ b ∈ s.newer, v.1 = b.block → v.2 < b.seqNum
  distinct : s.packed.Pairwise fun v v' => v.1 ≠ v'.1
  covered : ∀ v ∈ s.packed ++ s.newer.map Block.version, s.Covered v

/-- Only drains consolidate. -/
def drainsOnly : State → Act → Bool
  | _, .rotate _ draining _ _ => draining
  | _, _ => true

section Serial

variable {env : Env} {s t : State} {id : Nat}

theorem pairwise_of_subperm {α : Type*} {r : α → α → Prop} {l l' : List α}
    (hsymm : ∀ a b, r a b → r b a) (hsub : l.Subperm l') (hl' : l'.Pairwise r) :
    l.Pairwise r := by
  obtain ⟨m, hperm, hm⟩ := hsub
  exact (hperm.pairwise_iff fun {a b} => hsymm a b).mp (hl'.sublist hm)

section

variable (h : Serial s)

include h

theorem Serial.nothing_packed (hphase : ∀ b, s.drainPhase ≠ some (.uploading b)) :
    s.uploads = [] ∧ s.mapInsert = none := by
  rcases h.batch with ⟨b, hb, -⟩ | hnone
  · exact absurd hb (hphase b)
  · exact hnone

theorem Serial.of_parts (hchained : t.ChainedRuns)
    (hflushing : ∀ f, t.flush = some f → f.draining = true → t.drainPhase = some .flushing)
    (hbatch : (∃ b, t.drainPhase = some (.uploading b) ∧ (∀ u ∈ t.uploads, u.batch = b) ∧ ∀ m,
      t.mapInsert = some m → m.batch = b) ∨ t.uploads = [] ∧ t.mapInsert = none)
    (hnewer : t.newer.Sublist s.newer) (hpacked : t.packed.Subperm s.packed)
    (hcovered : ∀ v ∈ t.packed ++ t.newer.map Block.version, s.Covered v → t.Covered v) :
    Serial t := by
  refine ⟨hchained, hflushing, hbatch, h.newer.sublist hnewer, ?_, ?_, ?_⟩
  · intro v hv b hb
    exact h.across v (hpacked.subset hv) b (hnewer.subset hb)
  · exact pairwise_of_subperm (fun _ _ => Ne.symm) hpacked h.distinct
  · intro v hv
    refine hcovered v hv (h.covered v ?_)
    rcases List.mem_append.mp hv with hv | hv
    · exact List.mem_append_left _ (hpacked.subset hv)
    · exact List.mem_append_right _ ((hnewer.map _).subset hv)

theorem Serial.of_idle (hidle : Idle s t)
    (hflushing : ∀ f, t.flush = some f → f.draining = true → t.drainPhase = some .flushing)
    (hphase : t.drainPhase = s.drainPhase ∨ t.uploads = [] ∧ t.mapInsert = none) :
    Serial t := by
  refine h.of_parts ?_ hflushing ?_ (by rw [hidle.newer_eq])
    (by rw [hidle.packed_eq]) fun v _ => hidle.covered
  · unfold State.ChainedRuns
    rw [hidle.mapInsert]
    exact h.chained
  · rcases hphase with hphase | hnone
    · rw [hphase, hidle.uploads, hidle.mapInsert]
      exact h.batch
    · exact .inr hnone

theorem Serial.of_idle_same (hidle : Idle s t ∧ t.drainPhase = s.drainPhase) :
    Serial t := by
  refine h.of_idle hidle.1 ?_ (.inl hidle.2)
  rw [hidle.1.flush, hidle.2]
  exact h.flushing

theorem Serial.of_idle_phase (hidle : Idle s t) (hphase : ∀ b, s.drainPhase ≠ some (.uploading b))
    (hflush : s.drainPhase ≠ some .flushing) :
    Serial t := by
  refine h.of_idle hidle ?_ (.inr ?_)
  · intro f hf hdraining
    rw [hidle.flush] at hf
    exact absurd (h.flushing f hf hdraining) hflush
  · rw [hidle.uploads, hidle.mapInsert]
    exact h.nothing_packed hphase

theorem Serial.endBatch {batch : Nat} {noSpace : Bool} (hstep : s.endBatch batch noSpace = some t) :
    Serial t := by
  obtain ⟨hrests, hphase | ⟨hphase, hdone⟩⟩ := rests_endBatch hstep
  · exact h.of_idle_same ⟨hrests.toIdle, hphase⟩
  · refine h.of_idle hrests.toIdle ?_ (.inr ?_)
    · intro f hf hdraining
      rw [hrests.flush] at hf
      rw [h.flushing f hf hdraining] at hphase
      cases hphase
    · -- all uploads are of the batch, and none of the batch is left
      rw [hrests.uploads, hrests.mapInsert]
      rcases h.batch with ⟨b, hb, huploads, hmap⟩ | hnone
      · rw [hphase] at hb
        obtain rfl := DrainPhase.uploading.inj (Option.some.inj hb)
        simp only [State.batchDone, Bool.and_eq_true, List.all_eq_true, bne_iff_ne,
          Option.all_eq_true] at hdone
        constructor
        · exact List.eq_nil_iff_forall_not_mem.mpr fun u hu => hdone.1 u hu (huploads u hu)
        · cases hm : s.mapInsert with
          | none => rfl
          | some m => exact absurd (hmap m hm) (hdone.2 m hm)
      · exact hnone

end

theorem Basic.eq_of_block
    {id' : Nat} {p p' : Patch} {todo todo' : List Patch} {phase : WritePhase} {n n' : Nat}
    {blk : Block} (hbasic : Basic env s) (hw : s.writers.lookup id = some ⟨p :: todo, phase, n⟩)
    (hholds : (⟨p :: todo, phase, n⟩ : WriteCall).holds = some (blockRMWLock p.block))
    (hw' : s.writers.lookup id' = some ⟨p' :: todo', .appended blk, n'⟩)
    (hblock : blk.block = p.block) :
    id' = id := by
  obtain ⟨-, hblk, -⟩ := hbasic.appended id' p' todo' blk n' hw'
  refine hbasic.locks id' id _ _ _ hw' hw ?_ hholds
  rw [← hblock, hblk]
  rfl

theorem Serial.append (h : Serial s) (hbasic : Basic env s) (hstep : s.append env id = some t) :
    Serial t := by
  unfold State.append at hstep
  split at hstep
  swap
  · simp at hstep
  rename_i p todo data seqNum published hw hflush
  obtain ⟨-, -, hnew, hold⟩ := hbasic.reserved id p todo data seqNum published hw
  have ht := Option.some.inj hstep
  have hnewer : t.newer = s.newer ++ [⟨data, seqNum, p.block, env.cfg.blockSize⟩] := by
    rw [← ht]
    simp only [State.newer, State.unflushed, State.setWriter, hflush, List.append_assoc]
  have hother : ∀ id' ≠ id, t.writers.lookup id' = s.writers.lookup id' := by
    intro id' hne
    rw [← ht]
    exact AList.lookup_insert_ne hne
  have hself : t.Appended (p.block, seqNum) := by
    refine ⟨id, p, todo, ⟨data, seqNum, p.block, env.cfg.blockSize⟩, published, ?_, rfl⟩
    rw [← ht]
    exact AList.lookup_insert _
  have hpacked : t.packed = s.packed := by
    rw [← ht]
    rfl
  refine ⟨?_, ?_, ?_, ?_, ?_, ?_, ?_⟩
  · exact ht ▸ h.chained
  · intro f hf
    rw [← ht] at hf
    exact absurd hf (by simp [State.setWriter, hflush])
  · exact ht ▸ h.batch
  · rw [hnewer, List.pairwise_append]
    refine ⟨h.newer, List.pairwise_singleton _ _, ?_⟩
    intro a ha b hb hblock
    rw [List.mem_singleton] at hb
    subst hb
    exact hold a (List.mem_append_right _ ha) hblock
  · intro v hv b hb hblock
    rw [hpacked] at hv
    rw [hnewer] at hb
    rcases List.mem_append.mp hb with hb | hb
    · exact h.across v hv b hb hblock
    · rw [List.mem_singleton] at hb
      subst hb
      rcases h.covered v (List.mem_append_left _ hv) with ⟨e, he, hle⟩ |
        ⟨id', p', todo', blk, n, hw', rfl⟩
      · rw [hblock] at he
        exact hle.trans_lt (hnew.entry e he)
      · obtain rfl := hbasic.eq_of_block hw rfl hw' hblock
        rw [hw] at hw'
        cases hw'
  · rw [hpacked]
    exact h.distinct
  · intro v hv
    rw [hnewer, hpacked, List.map_append, ← List.append_assoc] at hv
    rcases List.mem_append.mp hv with hv | hv
    · rcases h.covered v hv with hentry | ⟨id', p', todo', blk, n, hw', hblk⟩
      · exact .inl (ht ▸ hentry)
      · refine .inr ⟨id', p', todo', blk, n, ?_, hblk⟩
        rw [hother id' ?_, hw']
        rintro rfl
        rw [hw] at hw'
        cases hw'
    · rw [List.map_singleton, List.mem_singleton] at hv
      subst hv
      exact .inr hself

theorem Serial.publish (h : Serial s) (hbasic : Basic env s) :
    s.publish id = some t → Serial t := by
  fun_cases State.publish <;> rintro ⟨⟩
  rename_i p todo blk published hw _
  obtain ⟨hblock, hnew, hlookup⟩ := hbasic.published hw
  refine h.of_parts h.chained h.flushing h.batch (List.Sublist.refl _)
    (List.Subperm.refl _) fun v _ hv => ?_
  by_cases hv' : v.1 = blk.block
  · refine .inl ⟨⟨blk.data, blk.seqNum, 0, 0, .hot⟩, ?_, ?_⟩
    · exact (hlookup v.1).trans (if_pos hv')
    · rcases hv with ⟨e, he, hle⟩ | ⟨id', p', todo', blk', n, hw', rfl⟩
      · rw [hv'] at he
        exact hle.trans (hnew.entry e he).le
      · obtain rfl := hbasic.eq_of_block hw rfl hw' (hv'.trans hblock)
        rw [hw] at hw'
        cases hw'
        exact Nat.le_refl _
  · rcases hv with ⟨e, he, hle⟩ | ⟨id', p', todo', blk', n, hw', rfl⟩
    · exact .inl ⟨e, ((hlookup v.1).trans (if_neg hv')).trans he, hle⟩
    · refine .inr ⟨id', p', todo', blk', n, ?_, rfl⟩
      have hne : id' ≠ id := by
        rintro rfl
        rw [hw] at hw'
        cases hw'
        exact hv' rfl
      simp only [State.setWriter]
      rw [AList.lookup_insert_ne hne]
      exact hw'

theorem Serial.of_flush (h : Serial s) (hnewer : t.newer.Sublist s.newer)
    (hframe : t.uploads = s.uploads ∧ t.mapInsert = s.mapInsert ∧ t.writers = s.writers)
    (hentries : ∀ block e, s.store.entries.lookup block = some e → ∃ e', t.store.entries.lookup
      block = some e' ∧ e'.seqNum = e.seqNum)
    (hflushing : ∀ f, t.flush = some f → f.draining = true → t.drainPhase = some .flushing)
    (hphase : t.drainPhase = s.drainPhase ∨ ∀ b, s.drainPhase ≠ some (.uploading b)) :
    Serial t := by
  obtain ⟨huploads, hmap, hwriters⟩ := hframe
  refine h.of_parts ?_ hflushing ?_ hnewer ?_ ?_
  · unfold State.ChainedRuns
    rw [hmap]
    exact h.chained
  · rw [huploads, hmap]
    rcases hphase with hphase | hphase
    · rw [hphase]
      exact h.batch
    · exact .inr (h.nothing_packed hphase)
  · simp only [State.packed, huploads, hmap]
    exact List.Subperm.refl _
  · rintro v - (⟨e, he, hle⟩ | happended)
    · obtain ⟨e', he', hseqNum⟩ := hentries v.1 e he
      exact .inl ⟨e', he', hseqNum ▸ hle⟩
    · unfold State.Covered State.Appended
      rw [hwriters]
      exact .inr happended

theorem Serial.beginFlush {draining : Bool} (h : Serial s)
    (hstep : s.beginFlush draining = some t) :
    Serial t := by
  have hnewer := (beginFlush_newer hstep).1
  obtain ⟨-, drain, rfl, ⟨-, hstarted, hflushing⟩ | ⟨rfl, rfl⟩⟩ := beginFlush_eq hstep
  · refine h.of_flush (by rw [hnewer]) ⟨rfl, rfl, rfl⟩ (fun _ e he => ⟨e, he, rfl⟩)
      (fun _ _ _ => hflushing) (.inr fun b => ?_)
    rw [State.drainPhase, hstarted]
    simp
  · exact h.of_flush (by rw [hnewer]) ⟨rfl, rfl, rfl⟩ (fun _ e he => ⟨e, he, rfl⟩)
      (fun f hf hd => by cases hf; cases hd) (.inl rfl)

theorem Serial.appendWAL {ok : Bool} (h : Serial s) (hstep : s.appendWAL ok = some t) :
    Serial t := by
  have hnewer := (appendWAL_newer hstep).1
  revert hstep
  fun_cases State.appendWAL <;> intro hstep <;> cases hstep
  all_goals
    have hflushing := h.flushing _ ‹s.flush = _›
    exact h.of_flush (by rw [hnewer]) ⟨rfl, rfl, rfl⟩ (fun _ e he => ⟨e, he, rfl⟩)
      (fun f hf => by cases hf; exact hflushing) (.inl rfl)

theorem lookup_markPending_of_some {store : UnifiedBlockStore} {block block' : Nat} {e : BlockEntry}
    (he : store.entries.lookup block' = some e) :
    ∃ e', (store.markPending block).entries.lookup block' = some e' ∧ e'.seqNum = e.seqNum := by
  unfold UnifiedBlockStore.markPending
  split
  · rename_i entry hentry
    split
    · by_cases hblock : block' = block
      · subst hblock
        rw [he] at hentry
        cases hentry
        exact ⟨_, AList.lookup_insert _, rfl⟩
      · exact ⟨e, (AList.lookup_insert_ne hblock).trans he, rfl⟩
    · exact ⟨e, he, rfl⟩
  · exact ⟨e, he, rfl⟩

section

variable (h : Serial s)

include h

theorem Serial.markPending (hstep : s.markPending = some t) :
    Serial t := by
  have hnewer := (markPending_newer hstep).1
  revert hstep
  fun_cases State.markPending <;> intro hstep <;> cases hstep
  rename_i draining flushed rest hflush failed _
  have hflushing := h.flushing _ hflush
  exact h.of_flush (by rw [hnewer]) ⟨rfl, rfl, rfl⟩ (fun _ _ he => lookup_markPending_of_some he)
    (fun f hf => by cases hf; exact hflushing) (.inl rfl)

theorem Serial.endFlush (hbasic : Basic env s) (hstep : s.endFlush = some t) :
    Serial t := by
  have hnewer := (hbasic.endFlush_newer hstep).1
  revert hstep
  fun_cases State.endFlush <;> intro hstep <;> cases hstep
  rename_i draining flushed rest failed hflush _ _
  have hflushing := h.flushing _ hflush
  refine h.of_flush hnewer ⟨rfl, rfl, rfl⟩ (fun _ e he => ⟨e, he, rfl⟩)
    (fun f hf => by cases hf) ?_
  cases draining with
  | false => exact .inl rfl
  | true =>
    refine .inr fun b => ?_
    rw [hflushing rfl]
    simp

theorem Serial.rotate {batch : Nat} {opened : Bool} {next : ReopenSystem.Segment}
    (hbasic : Basic env s) (hstep : s.rotate env batch true opened next = some t) :
    Serial t := by
  obtain ⟨jobs, hrotates, hdrain⟩ := hbasic.rotates hstep
  obtain ⟨hbefore, hafter⟩ := hdrain rfl
  obtain ⟨hnewest, hapart⟩ := hrotates.newest hbasic
  obtain ⟨hnone, hmap⟩ := h.nothing_packed (by simp [hbefore])
  have hmap' : t.mapInsert = none := hrotates.mapInsert.trans hmap
  have hpacked : t.packed = jobs.flatten.map Block.version := by
    simp only [State.packed, hrotates.flatMap_blocks, hnone, hmap', List.flatMap_nil,
      List.nil_append, Option.map_none, Option.getD_none, List.append_nil]
  have hnewer : s.newer = s.wal.records ++ t.newer := by
    simp only [State.newer, State.unflushed, hrotates.records, hrotates.flush,
      hrotates.writes, List.nil_append]
  have hpairs := h.newer
  rw [hnewer, List.pairwise_append] at hpairs
  refine ⟨by simp [State.ChainedRuns, hmap'], ?_, .inl ⟨batch, hafter, ?_, by simp [hmap']⟩,
    hpairs.2.1, ?_, ?_, ?_⟩
  · intro f hf hdraining
    rw [hrotates.flush] at hf
    rw [h.flushing f hf hdraining] at hbefore
    cases hbefore
  · intro u hu
    rw [hrotates.uploads, hnone, List.nil_append] at hu
    obtain ⟨job, -, rfl⟩ := List.mem_map.mp hu
    rfl
  · intro v hv b hb hblock
    rw [hpacked] at hv
    obtain ⟨r, hr, rfl⟩ := List.mem_map.mp hv
    exact hpairs.2.2 r (hnewest r hr).mem b hb hblock
  · rw [hpacked, List.pairwise_map]
    exact hapart.imp Nat.ne_of_lt
  · intro v hv
    have hstore : t.store = s.store := congrArg VB.blockStore hrotates.vb
    unfold State.Covered State.Appended
    rw [hstore, hrotates.writers]
    refine h.covered v (List.mem_append_right _ ?_)
    rw [hnewer, List.map_append, List.mem_append]
    rcases List.mem_append.mp hv with hv | hv
    · rw [hpacked] at hv
      obtain ⟨r, hr, rfl⟩ := List.mem_map.mp hv
      exact .inl (List.mem_map.mpr ⟨r, (hnewest r hr).mem, rfl⟩)
    · exact .inr hv

theorem Serial.of_uploads (huploads : Uploads s t)
    (hcovered : ∀ v ∈ t.packed ++ t.newer.map Block.version, s.Covered v → t.Covered v) :
    Serial t := by
  have hphase : t.drainPhase = s.drainPhase := by
    simp only [State.drainPhase, huploads.drain]
  refine h.of_parts (huploads.chained h.chained) ?_ ?_ (by rw [huploads.newer_eq])
    (huploads.packed h.chained) hcovered
  · rw [huploads.flush, hphase]
    exact h.flushing
  · rw [hphase]
    rcases h.batch with ⟨b, hb, hus, hm⟩ | ⟨hnone, hmap⟩
    · refine .inl ⟨b, hb, ?_, ?_⟩
      · intro u hu
        obtain ⟨u', hu', hbatch⟩ := huploads.uploads_batch u hu
        rw [← hbatch]
        exact hus u' hu'
      · intro m hm'
        rcases huploads.mapInsert_batch m hm' with ⟨u, hu, hbatch⟩ | ⟨m', hm'', hbatch⟩
        · rw [← hbatch]
          exact hus u hu
        · rw [← hbatch]
          exact hm m' hm''
    · rcases huploads.busy with hbusy | hbusy
      · exact absurd hnone hbusy
      · exact absurd hmap hbusy

theorem Serial.of_uploads_store (huploads : Uploads s t) (hstore : t.store = s.store) :
    Serial t := by
  refine h.of_uploads huploads fun v _ hv => ?_
  unfold State.Covered State.Appended
  rw [hstore, huploads.writers]
  exact hv

/-- A dropped entry was of the version that moved, and no newer one is known. -/
theorem Serial.mark (hstep : s.mark env = some t) :
    Serial t := by
  obtain ⟨huploads, -⟩ := uploads_mark hstep
  revert hstep
  fun_cases State.mark <;> intro hstep <;> cases hstep
  all_goals try exact h.of_uploads huploads fun _ _ hv => hv
  rename_i batch chunkIndex runs item todo hmap
  refine h.of_uploads huploads fun v hv hcovered => ?_
  have hpacked : s.packed.Perm (item.version ::
      State.packed { s.setStore (s.store.dropPersisted item) with
        mapInsert := some ⟨batch, chunkIndex, runs, some (.dropping todo)⟩ }) := by
    simp only [State.packed, hmap, MapInsert.versions, Marking.items, Option.map_some,
      Option.getD_some, List.map_cons, List.cons_append]
    exact List.perm_middle
  have hdistinct := (hpacked.pairwise_iff fun {_ _} => Ne.symm).mp h.distinct
  rcases hcovered with ⟨e, he, hle⟩ | happended
  · refine .inl ⟨e, UnifiedBlockStore.lookup_dropPersisted.trans ((if_neg ?_).trans he), hle⟩
    rintro ⟨hblock, heligible⟩
    unfold UnifiedBlockStore.eligible at heligible
    rw [← hblock, he] at heligible
    simp only [Bool.and_eq_true, beq_iff_eq] at heligible
    rcases List.mem_append.mp hv with hv | hv
    · exact (List.rel_of_pairwise_cons hdistinct hv) hblock.symm
    · obtain ⟨r, hr, rfl⟩ := List.mem_map.mp hv
      have hlt := h.across item.version (hpacked.symm.subset (by simp)) r hr hblock.symm
      have hseqNum : e.seqNum = item.seqNum := heligible.2
      have hle' : r.seqNum ≤ e.seqNum := hle
      have hlt' : item.seqNum < r.seqNum := hlt
      omega
  · exact .inr happended

theorem Serial.step {act : Act} (hbasic : Basic env s) (hallowed : drainsOnly s act = true)
    (hstep : Engine.step env s act = some t) :
    Serial t := by
  cases act with
  | beginWrite _ _ _ _ | lock _ | rmw _ _ | splice _ | reserve _ _ _ | endWrite _
  | beginRead _ _ _ | read _ _ | endRead _ | saveState _ _ =>
    exact h.of_idle_same (idle_step hbasic.memory rfl hstep)
  | append id => exact h.append hbasic hstep
  | publish id => exact h.publish hbasic hstep
  | beginFlush draining => exact h.beginFlush hstep
  | appendWAL ok => exact h.appendWAL hstep
  | markPending => exact h.markPending hstep
  | endFlush => exact h.endFlush hbasic hstep
  | beginDrain =>
    obtain ⟨hrests, hphase⟩ := rests_beginDrain hstep
    exact h.of_idle_phase hrests.toIdle (by simp [hphase]) (by simp [hphase])
  | rotate batch draining opened next =>
    obtain rfl : draining = true := hallowed
    exact h.rotate hbasic hstep
  | allocate _ | put _ _ | skip _ | evict _ | lockMap _ | unlockMap =>
    have hcarries := carries_step rfl hstep
    exact h.of_uploads_store hcarries.toUploads hcarries.store
  | insertRun =>
    obtain ⟨huploads, hstore⟩ := uploads_insertRun hstep
    exact h.of_uploads_store huploads hstore
  | mark => exact h.mark hstep
  | endBatch batch noSpace => exact h.endBatch hstep
  | serialiseLive =>
    obtain ⟨hrests, hphase⟩ := rests_serialiseLive hstep
    exact h.of_idle_phase hrests.toIdle (by simp [hphase]) (by simp [hphase])
  | putLive out noSpace =>
    obtain ⟨hrests, records, hphase⟩ := rests_putLive hstep
    exact h.of_idle_phase hrests.toIdle (by simp [hphase]) (by simp [hphase])

end

end Serial

end Engine

end Viperblock
