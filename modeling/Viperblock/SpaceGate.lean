import Viperblock.IndexAgreement

/-!
# The out-of-space gate

`WriteAt` is refused while the backend is known to be full or nearly so.  Two latches
say so.  The one of the engine is set by a drain that fails for want of space and
cleared by a drain that succeeds.  The one of the S3 backend is the pressure signal of
the last PUT: set and cleared by the response of a chunk upload, a live checkpoint or a
copy of `config.json`, and by nothing else.

The engine runs as before, next to the latch of the backend.  At some point the
backend recovers; from there on every PUT succeeds without a signal.
-/

namespace Viperblock

namespace Engine

open GuardedRun BlockMap BlocksToObject Volume

namespace State

/-- Something that a drain which begins now will upload: records in the log, a map that
changed, or writes that no flush has begun to append. -/
def hasWork (s : State) : Bool :=
  !s.wal.records.isEmpty || s.volume.vb.dirty ||
    match s.flush with
    | none => !s.writes.isEmpty
    | some f => f.flushed.isEmpty && !f.rest.isEmpty

/-- The consolidation has failed, or leaves a map to be saved. -/
def Unfinished (s : State) (batch : Nat) : Prop :=
  s.volume.vb.dirty = true ∨ s.batches.lookup batch = some true ∨ s.batchDone batch = false

/-- The drain on its way will end in a PUT, or fail. -/
def Busy (s : State) : Prop :=
  match s.drainPhase with
  | none => True
  | some .started => s.hasWork = true
  | some .flushing => s.hasWork = true
  | some .flushed => s.wal.records ≠ [] ∨ s.volume.vb.dirty = true
  | some (.uploading batch) => s.Unfinished batch
  | some .uploaded => s.volume.vb.dirty = true
  | some (.saving _) => True

variable {s : State}

theorem hasWork_iff :
    s.hasWork = true ↔ s.wal.records ≠ [] ∨ s.volume.vb.dirty = true ∨
        (s.flush = none ∧ s.writes ≠ [] ∨
          ∃ f, s.flush = some f ∧ f.flushed = [] ∧ f.rest ≠ []) := by
  unfold hasWork
  cases s.flush <;> simp [or_assoc]

theorem busy_flushed (hphase : s.drainPhase = some .flushed) :
    s.Busy ↔ s.wal.records ≠ [] ∨ s.volume.vb.dirty = true := by
  rw [Busy, hphase]

theorem busy_uploading {batch : Nat} (hphase : s.drainPhase = some (.uploading batch)) :
    s.Busy ↔ s.Unfinished batch := by
  rw [Busy, hphase]

theorem batchDone_eq_false {batch : Nat} :
    s.batchDone batch = false ↔
      (∃ u ∈ s.uploads, u.batch = batch) ∨ ∃ m, s.mapInsert = some m ∧ m.batch = batch := by
  unfold batchDone
  rw [Bool.and_eq_false_iff, List.all_eq_false, Option.all_eq_false]
  simp

end State

/-- The step leaves the drain where it is and what it has to do. -/
structure Works (s t : State) : Prop where
  phase : t.drainPhase = s.drainPhase
  full : t.backendFull = s.backendFull
  running : ∀ b, (t.batches.lookup b).isSome = (s.batches.lookup b).isSome
  dirty : s.volume.vb.dirty = true → t.volume.vb.dirty = true
  records : s.wal.records ≠ [] → t.wal.records ≠ []
  work : s.hasWork = true → t.hasWork = true
  unfinished : ∀ b, s.Unfinished b → t.Unfinished b

section Works

variable {env : Env} {s t : State} {id : Nat}

theorem Works.busy (hworks : Works s t) (hbusy : s.Busy) :
    t.Busy := by
  unfold State.Busy at hbusy ⊢
  rw [hworks.phase]
  cases hphase : s.drainPhase with
  | none => trivial
  | some phase =>
    rw [hphase] at hbusy
    cases phase with
    | started => exact hworks.work hbusy
    | flushing => exact hworks.work hbusy
    | flushed => exact hbusy.imp hworks.records hworks.dirty
    | uploading batch => exact hworks.unfinished batch hbusy
    | uploaded => exact hworks.dirty hbusy
    | saving records => trivial

theorem works_of_buffers (hphase : t.drainPhase = s.drainPhase)
    (hfull : t.backendFull = s.backendFull) (hdirty : t.volume.vb.dirty = s.volume.vb.dirty)
    (hchunks : t.batches = s.batches ∧ t.uploads = s.uploads ∧ t.mapInsert = s.mapInsert)
    (hrecords : s.wal.records ≠ [] → t.wal.records ≠ [])
    (hwork : s.hasWork = true → t.hasWork = true) :
    Works s t := by
  obtain ⟨hbatches, huploads, hmap⟩ := hchunks
  refine ⟨hphase, hfull, fun b => by rw [hbatches], fun h => hdirty.trans h,
    hrecords, hwork, fun b h => ?_⟩
  unfold State.Unfinished State.batchDone at h ⊢
  rwa [hdirty, hbatches, huploads, hmap]

theorem works_of_same (hphase : t.drainPhase = s.drainPhase) (hfull : t.backendFull = s.backendFull)
    (hdirty : t.volume.vb.dirty = s.volume.vb.dirty)
    (hbuffers : t.writes = s.writes ∧ t.flush = s.flush ∧ t.wal = s.wal)
    (hchunks : t.batches = s.batches ∧ t.uploads = s.uploads ∧ t.mapInsert = s.mapInsert) :
    Works s t := by
  obtain ⟨hwrites, hflush, hwal⟩ := hbuffers
  refine works_of_buffers hphase hfull hdirty hchunks (fun h => by rwa [hwal]) fun h => ?_
  unfold State.hasWork at h ⊢
  rwa [hwal, hdirty, hflush, hwrites]

theorem works_call {act : Act} (hmemory : InMemory s.store) (hact : act.isCall = true)
    (hstep : Engine.step env s act = some t) :
    Works s t := by
  have hphase := (idle_step hmemory hact hstep).2
  cases act with
  | beginWrite _ _ _ _ | lock _ | rmw _ _ | splice _ | endWrite _ | beginRead _ _ _ | read _ _
  | endRead _ =>
    simp only [Engine.step, State.beginWrite, State.lock, State.rmw, State.splice,
      State.endWrite, State.beginRead, State.read, State.endRead] at hstep
    repeat' split at hstep
    all_goals
      cases hstep <;> exact works_of_same hphase rfl rfl ⟨rfl, rfl, rfl⟩ ⟨rfl, rfl, rfl⟩
  | reserve id disk backend =>
    have hsame := reserveSeqNum_sameBlocks env.cfg s.volume disk backend
    simp only [Engine.step, State.reserve] at hstep
    split at hstep
    · obtain ⟨-, hstep⟩ := Option.ite_none_right_eq_some.mp hstep
      split at hstep <;>
      · rename_i hreserve
        rw [hreserve] at hsame
        cases hstep
        exact works_of_same rfl rfl hsame.dirty ⟨rfl, rfl, rfl⟩ ⟨rfl, rfl, rfl⟩
    · cases hstep
  | saveState disk backend =>
    cases hstep
    exact works_of_same rfl rfl (saveState_spec env.cfg s.volume disk backend).1.dirty
      ⟨rfl, rfl, rfl⟩ ⟨rfl, rfl, rfl⟩
  | _ => cases hact

theorem works_publish :
    s.publish id = some t → Works s t := by
  fun_cases State.publish <;> rintro ⟨⟩
  exact works_of_same rfl rfl rfl ⟨rfl, rfl, rfl⟩ ⟨rfl, rfl, rfl⟩

theorem works_append :
    s.append env id = some t → Works s t := by
  fun_cases State.append <;> rintro ⟨⟩
  rename_i p todo data seqNum published hflush hw _
  refine works_of_buffers rfl rfl rfl ⟨rfl, rfl, rfl⟩ (fun h => h) fun _ => ?_
  exact State.hasWork_iff.mpr (.inr (.inr (.inl ⟨hflush, by simp [State.setWriter]⟩)))

theorem hasWork_beginFlush {draining : Bool} (hstep : s.beginFlush draining = some t)
    (hwork : s.hasWork = true) :
    t.hasWork = true := by
  obtain ⟨hnone, drain, rfl, -⟩ := beginFlush_eq hstep
  rw [State.hasWork_iff] at hwork ⊢
  refine hwork.imp_right (Or.imp_right ?_)
  rintro (⟨-, hwrites⟩ | ⟨f, hf, -⟩)
  · exact .inr ⟨_, rfl, rfl, hwrites⟩
  · rw [hnone] at hf
    cases hf

theorem works_appendWAL {ok : Bool} :
    s.appendWAL ok = some t → Works s t := by
  fun_cases State.appendWAL <;> rintro ⟨⟩
  · have hrecords : ∀ b, s.wal.records ++ [b] ≠ [] := by simp
    exact works_of_buffers rfl rfl rfl ⟨rfl, rfl, rfl⟩ (fun _ => hrecords _)
      fun _ => State.hasWork_iff.mpr (.inl (hrecords _))
  · refine works_of_buffers rfl rfl rfl ⟨rfl, rfl, rfl⟩ id fun hwork => ?_
    simpa only [State.hasWork, *] using hwork

theorem works_markPending :
    s.markPending = some t → Works s t := by
  fun_cases State.markPending <;> rintro ⟨⟩
  rename_i draining flushed rest hflush failed _
  refine works_of_buffers rfl rfl rfl ⟨rfl, rfl, rfl⟩ id fun hwork => ?_
  simpa only [State.hasWork, State.setStore, hflush] using hwork

theorem hasWork_endFlush (h : Basic env s) (hstep : s.endFlush = some t)
    (hwork : s.hasWork = true) :
    t.hasWork = true := by
  revert hstep
  fun_cases State.endFlush <;> intro hstep <;> cases hstep
  rename_i draining flushed rest failed hflush _ _
  have hbuffer := h.buffer _ hflush
  rw [State.hasWork_iff] at hwork ⊢
  refine hwork.imp_right (Or.imp_right ?_)
  rintro (⟨hnone, -⟩ | ⟨f, hf, hempty, hrest⟩)
  · cases hflush.symm.trans hnone
  · cases hflush.symm.trans hf
    subst hempty
    exact .inl ⟨rfl, by simpa +zetaDelta [hbuffer] using hrest⟩

end Works

section Chunks

variable {env : Env} {s t : State}

theorem works_of_chunks (hphase : t.drainPhase = s.drainPhase)
    (hfull : t.backendFull = s.backendFull)
    (hrunning : ∀ b, (t.batches.lookup b).isSome = (s.batches.lookup b).isSome)
    (hdirty : s.volume.vb.dirty = true → t.volume.vb.dirty = true)
    (hbuffers : t.writes = s.writes ∧ t.flush = s.flush ∧ t.wal = s.wal)
    (hunfinished : ∀ b, s.Unfinished b → t.Unfinished b) :
    Works s t := by
  obtain ⟨hwrites, hflush, hwal⟩ := hbuffers
  refine ⟨hphase, hfull, hrunning, hdirty, fun h => by rwa [hwal], fun h => ?_, hunfinished⟩
  rw [State.hasWork_iff] at h ⊢
  rw [hwal, hflush, hwrites]
  exact h.imp_right (Or.imp_left hdirty)

theorem exists_mem_set_batch {l : List Upload} {i batch b : Nat} {u u' : Upload}
    (hi : l[i]? = some u) (hu : u.batch = batch) (hu' : u'.batch = batch)
    (hex : ∃ v ∈ l, v.batch = b) :
    ∃ v ∈ l.set i u', v.batch = b := by
  obtain ⟨v, hv, hb⟩ := hex
  obtain ⟨j, hj⟩ := List.mem_iff_getElem?.mp hv
  by_cases hij : i = j
  · subst hij
    rw [hi] at hj
    cases hj
    have hlt := (List.getElem?_eq_some_iff.mp hi).1
    exact ⟨u', List.mem_set hlt u', by rw [hu', ← hu, hb]⟩
  · exact ⟨v, List.mem_of_getElem? (by rwa [List.getElem?_set_ne hij]), hb⟩

theorem exists_mem_eraseIdx_batch {l : List Upload} {i b : Nat} {u : Upload} (hi : l[i]? = some u)
    (hex : ∃ v ∈ l, v.batch = b) :
    u.batch = b ∨ ∃ v ∈ l.eraseIdx i, v.batch = b := by
  obtain ⟨v, hv, hb⟩ := hex
  obtain ⟨j, hj⟩ := List.mem_iff_getElem?.mp hv
  by_cases hij : j = i
  · subst hij
    rw [hi] at hj
    cases hj
    exact .inl hb
  · exact .inr ⟨v, List.mem_eraseIdx_iff_getElem?.mpr ⟨j, hij, hj⟩, hb⟩

theorem unfinished_of_uploads {b : Nat} (h : s.Unfinished b)
    (hdirty : s.volume.vb.dirty = true → t.Unfinished b)
    (hfailed : s.batches.lookup b = some true → t.Unfinished b)
    (huploads : (∃ u ∈ s.uploads, u.batch = b) → t.Unfinished b)
    (hmap : (∃ m, s.mapInsert = some m ∧ m.batch = b) → t.Unfinished b) :
    t.Unfinished b := by
  rcases h with h | h | h
  · exact hdirty h
  · exact hfailed h
  · rcases State.batchDone_eq_false.mp h with h | h
    · exact huploads h
    · exact hmap h

theorem works_of_set {i batch : Nat} {blocks : List Block} {phase phase' : UploadPhase}
    (hi : s.uploads[i]? = some ⟨batch, blocks, phase⟩) (hphase : t.drainPhase = s.drainPhase)
    (hfull : t.backendFull = s.backendFull) (hdirty : t.volume.vb.dirty = s.volume.vb.dirty)
    (hbuffers : t.writes = s.writes ∧ t.flush = s.flush ∧ t.wal = s.wal)
    (hchunks : t.batches = s.batches ∧
      t.uploads = s.uploads.set i ⟨batch, blocks, phase'⟩ ∧ t.mapInsert = s.mapInsert) :
    Works s t := by
  obtain ⟨hbatches, huploads, hmap⟩ := hchunks
  refine works_of_chunks hphase hfull (fun b => by rw [hbatches])
    (fun h => hdirty.trans h) hbuffers fun b h => ?_
  refine unfinished_of_uploads h (fun h => .inl (hdirty.trans h))
    (fun h => .inr (.inl (by rwa [hbatches])))
    (fun h => .inr (.inr (State.batchDone_eq_false.mpr (.inl ?_))))
    (fun h => .inr (.inr (State.batchDone_eq_false.mpr (.inr (by rwa [hmap])))))
  rw [huploads]
  exact exists_mem_set_batch hi rfl rfl h

theorem works_allocate {i : Nat} :
    s.allocate i = some t → Works s t := by
  fun_cases State.allocate <;> rintro ⟨⟩
  rename_i batch hi blocks
  exact works_of_set hi rfl rfl rfl ⟨rfl, rfl, rfl⟩ ⟨rfl, rfl, rfl⟩

theorem works_evict {i : Nat} :
    s.evict i = some t → Works s t := by
  fun_cases State.evict <;> rintro ⟨⟩
  rename_i batch blocks hi chunkIndex _
  exact works_of_set hi rfl rfl rfl ⟨rfl, rfl, rfl⟩ ⟨rfl, rfl, rfl⟩

theorem works_put {i : Nat} {out : Outcome}
    (hrunning : ∀ u ∈ s.uploads, (s.batches.lookup u.batch).isSome)
    (hstep : s.put env i out = some t) :
    Works s t := by
  unfold State.put at hstep
  split at hstep
  swap
  · cases hstep
  rename_i batch blocks chunkIndex hi
  dsimp only at hstep
  split at hstep
  · cases hstep
    exact works_of_set hi rfl rfl rfl ⟨rfl, rfl, rfl⟩ ⟨rfl, rfl, rfl⟩
  · cases hstep
    have hinsert : (s.batches.insert batch true).lookup batch = some true :=
      AList.lookup_insert _
    refine works_of_chunks rfl rfl ?_ id ⟨rfl, rfl, rfl⟩ fun b h => ?_
    · intro b
      dsimp only
      by_cases hbatch : b = batch
      · subst hbatch
        rw [AList.lookup_insert, hrunning _ (List.mem_of_getElem? hi)]
        rfl
      · rw [AList.lookup_insert_ne hbatch]
    · refine unfinished_of_uploads h .inl (fun hfailed => .inr (.inl ?_)) (fun hex => ?_)
        fun hex => .inr (.inr (State.batchDone_eq_false.mpr (.inr hex)))
      · by_cases hbatch : b = batch
        · subst hbatch
          exact hinsert
        · dsimp only
          rwa [AList.lookup_insert_ne hbatch]
      · rcases exists_mem_eraseIdx_batch hi hex with rfl | hex
        · exact .inr (.inl hinsert)
        · exact .inr (.inr (State.batchDone_eq_false.mpr (.inl hex)))

theorem works_skip {i : Nat} :
    s.skip i = some t → Works s t := by
  fun_cases State.skip <;> rintro ⟨⟩
  rename_i batch blocks hi hfailed
  refine works_of_chunks rfl rfl (fun _ => rfl) id ⟨rfl, rfl, rfl⟩ fun b h => ?_
  refine unfinished_of_uploads h .inl (fun h => .inr (.inl h)) (fun hex => ?_)
    fun hex => .inr (.inr (State.batchDone_eq_false.mpr (.inr hex)))
  rcases exists_mem_eraseIdx_batch hi hex with rfl | hex
  · exact .inr (.inl hfailed)
  · exact .inr (.inr (State.batchDone_eq_false.mpr (.inl hex)))

theorem works_lockMap {i : Nat} :
    s.lockMap i = some t → Works s t := by
  fun_cases State.lockMap <;> rintro ⟨⟩
  rename_i batch blocks chunkIndex hmap hi
  refine works_of_chunks rfl rfl (fun _ => rfl) id ⟨rfl, rfl, rfl⟩ fun b h => ?_
  refine unfinished_of_uploads h .inl (fun h => .inr (.inl h))
    (fun hex => .inr (.inr (State.batchDone_eq_false.mpr ?_))) ?_
  · rcases exists_mem_eraseIdx_batch hi hex with rfl | hex
    · exact .inr ⟨_, rfl, rfl⟩
    · exact .inl hex
  · rintro ⟨m, hm, -⟩
    rw [hmap] at hm
    cases hm

theorem works_of_mapInsert {batch chunkIndex : Nat} {runs runs' : List (Nat × List Block)}
    {marking marking' : Option Marking} (hm : s.mapInsert = some ⟨batch, chunkIndex, runs, marking⟩)
    (hphase : t.drainPhase = s.drainPhase) (hfull : t.backendFull = s.backendFull)
    (hdirty : t.volume.vb.dirty = s.volume.vb.dirty)
    (hbuffers : t.writes = s.writes ∧ t.flush = s.flush ∧ t.wal = s.wal)
    (hchunks : t.batches = s.batches ∧ t.uploads = s.uploads ∧
      t.mapInsert = some ⟨batch, chunkIndex, runs', marking'⟩) :
    Works s t := by
  obtain ⟨hbatches, huploads, hmap⟩ := hchunks
  refine works_of_chunks hphase hfull (fun b => by rw [hbatches])
    (fun h => hdirty.trans h) hbuffers fun b h => ?_
  refine unfinished_of_uploads h (fun h => .inl (hdirty.trans h))
    (fun h => .inr (.inl (by rwa [hbatches])))
    (fun h => .inr (.inr (State.batchDone_eq_false.mpr (.inl (by rwa [huploads]))))) ?_
  rintro ⟨m, hm', rfl⟩
  rw [hm] at hm'
  cases hm'
  exact .inr (.inr (State.batchDone_eq_false.mpr (.inr ⟨_, hmap, rfl⟩)))

theorem works_insertRun :
    s.insertRun env = some t → Works s t := by
  fun_cases State.insertRun <;> rintro ⟨⟩
  all_goals exact works_of_mapInsert ‹_› rfl rfl rfl ⟨rfl, rfl, rfl⟩ ⟨rfl, rfl, rfl⟩

theorem works_mark :
    s.mark env = some t → Works s t := by
  fun_cases State.mark <;> rintro ⟨⟩
  all_goals exact works_of_mapInsert ‹_› rfl rfl rfl ⟨rfl, rfl, rfl⟩ ⟨rfl, rfl, rfl⟩

theorem works_unlockMap :
    s.unlockMap = some t → Works s t := by
  fun_cases State.unlockMap <;> rintro ⟨⟩
  exact works_of_chunks rfl rfl (fun _ => rfl) (fun _ => rfl) ⟨rfl, rfl, rfl⟩
    fun b _ => .inl rfl

end Chunks

section Drains

variable {env : Env} {s t : State}

/-- The consolidation on its way is that of the drain. -/
def State.OwnBatch (s : State) : Prop :=
  ∀ b, (s.batches.lookup b).isSome ↔ s.drainPhase = some (.uploading b)

namespace State.OwnBatch

theorem of_works (h : s.OwnBatch) (hworks : Works s t) :
    t.OwnBatch := by
  intro b
  rw [hworks.phase, hworks.running]
  exact h b

theorem of_batches (h : s.OwnBatch) (hbatches : t.batches = s.batches)
    (hphase : ∀ b, t.drainPhase = some (.uploading b) ↔ s.drainPhase = some (.uploading b)) :
    t.OwnBatch := by
  intro b
  rw [hbatches, hphase]
  exact h b

end State.OwnBatch

/-- The drain goes on to another phase, outside of its consolidation. -/
structure Moves (s t : State) : Prop where
  batches : t.batches = s.batches
  before : ∀ b, s.drainPhase ≠ some (.uploading b)
  after : ∀ b, t.drainPhase ≠ some (.uploading b)

theorem Moves.own (hmoves : Moves s t) (h : s.OwnBatch) :
    t.OwnBatch :=
  h.of_batches hmoves.batches fun b => iff_of_false (hmoves.after b) (hmoves.before b)

theorem works_beginFlush (hstep : s.beginFlush false = some t) :
    Works s t := by
  have hwork := hasWork_beginFlush hstep
  obtain ⟨-, drain, rfl, ⟨⟨⟩, -⟩ | ⟨-, rfl⟩⟩ := beginFlush_eq hstep
  exact works_of_buffers rfl rfl rfl ⟨rfl, rfl, rfl⟩ (fun h => h) hwork

theorem moves_beginFlush (hstep : s.beginFlush true = some t) :
    Moves s t ∧ t.backendFull = s.backendFull ∧ (s.Busy → t.Busy) := by
  have hwork := hasWork_beginFlush hstep
  obtain ⟨-, drain, rfl, ⟨-, hphase, hflushing⟩ | ⟨⟨⟩, -⟩⟩ := beginFlush_eq hstep
  refine ⟨⟨rfl, by simp [State.drainPhase, hphase], by simp [State.drainPhase, hflushing]⟩, rfl, ?_⟩
  unfold State.Busy State.drainPhase
  rw [hphase, hflushing]
  exact hwork

/-- A flush ends; if it is the one of the drain, all of the buffer is in the log. -/
theorem endFlush_cases (hbasic : Basic env s) (hserial : Serial s) (hstep : s.endFlush = some t) :
    Works s t ∨ Moves s t ∧ t.backendFull = s.backendFull ∧ (s.Busy → t.Busy) := by
  have hwork := hasWork_endFlush hbasic hstep
  revert hstep
  fun_cases State.endFlush <;> intro hstep <;> cases hstep
  rename_i draining flushed rest failed hflush hend _
  have hflushing := hserial.flushing _ hflush
  cases draining with
  | false =>
    exact .inl (works_of_buffers rfl rfl rfl ⟨rfl, rfl, rfl⟩ (fun h => h) hwork)
  | true =>
    have hphase := hflushing rfl
    refine .inr ?_
    cases failed with
    | true =>
      exact ⟨⟨rfl, by simp [hphase], by rintro _ ⟨⟩⟩, rfl, fun _ => trivial⟩
    | false =>
      obtain ⟨d, hd, -⟩ := Option.map_eq_some_iff.mp hphase
      refine ⟨⟨rfl, by simp [hphase], by simp [State.drainPhase, hd]⟩, rfl,
        fun hbusy => ?_⟩
      have hrest : rest = [] := by simpa using hend
      refine (State.busy_flushed (by simp [State.drainPhase, hd])).mpr ?_
      unfold State.Busy at hbusy
      rw [hphase] at hbusy
      rcases State.hasWork_iff.mp hbusy with h | h | ⟨hnone, -⟩ | ⟨f, hf, -, hne⟩
      · exact .inl h
      · exact .inr h
      · rw [hflush] at hnone
        cases hnone
      · rw [hflush] at hf
        cases hf
        exact absurd hrest hne

theorem moves_beginDrain :
    s.beginDrain = some t →
    Moves s t ∧ t.backendFull = s.backendFull ∧ s.drainPhase = none ∧
      (s.hasWork = true → t.Busy) := by
  fun_cases State.beginDrain <;> rintro ⟨⟩
  rename_i hdrain
  have hphase : s.drainPhase = none := by simp [State.drainPhase, hdrain]
  exact ⟨⟨rfl, by simp [hphase], by rintro _ ⟨⟩⟩, rfl, hphase, fun hwork => hwork⟩

theorem chunkJobs_ne_nil (h : Basic env s) (hrecords : s.wal.records ≠ []) :
    chunkJobs env.cfg.objBlockSize s.wal.records ≠ [] := by
  intro hnil
  have hdata : ∀ r ∈ s.wal.records, r.data ≠ [] := by
    intro r hr hempty
    have hfits := (h.fits r (List.mem_append_right _ (List.mem_append_left _ hr))).1
    have hlength := hfits.data
    have hpos := env.cfg.blockSize_pos
    rw [hempty, List.length_nil] at hlength
    omega
  have hflatten : (chunkJobs env.cfg.objBlockSize s.wal.records).flatten =
      sortedBlocks s.wal.records := flatten_chunkJobs hdata
  obtain ⟨r, hr⟩ := List.exists_mem_of_ne_nil _ hrecords
  obtain ⟨newest, hnewest, -⟩ := exists_mem_sortedBlocks hr
  rw [← hflatten, hnil] at hnewest
  cases hnewest

theorem rotate_effect {batch : Nat} {opened : Bool} {next : ReopenSystem.Segment}
    (hbasic : Basic env s) (hown : s.OwnBatch)
    (hstep : s.rotate env batch true opened next = some t) :
    t.OwnBatch ∧ t.backendFull = s.backendFull ∧ (∀ b, (s.batches.lookup b).isSome = false) ∧
      (s.Busy → t.Busy) := by
  unfold State.rotate at hstep
  dsimp only at hstep
  generalize hjobs : (if opened then
    State.segmentJobs env (env.cfg.segment s.wal.timestamp s.wal.records) else none) = jobs
    at hstep
  split at hstep
  · cases hstep
  rw [if_pos rfl] at hstep
  split at hstep
  swap
  · cases hstep
  rename_i quiet hdrain
  have hphase : s.drainPhase = some .flushed := by simp [State.drainPhase, hdrain]
  have hnone : ∀ b, (s.batches.lookup b).isSome = false := by
    intro b
    rw [Bool.eq_false_iff, ne_eq, hown b, hphase]
    simp
  cases hstep
  refine ⟨fun b => ?_, rfl, hnone, fun hbusy => ?_⟩
  · dsimp only
    by_cases hb : b = batch
    · subst hb
      simp [State.drainPhase]
    · rw [AList.lookup_insert_ne hb, hnone]
      simp [State.drainPhase, Ne.symm hb]
  · refine (State.busy_uploading rfl).mpr ?_
    rcases (State.busy_flushed hphase).mp hbusy with hrecords | hdirty
    · cases jobs with
      | none => exact .inr (.inl (AList.lookup_insert _))
      | some jobs =>
        obtain rfl := segmentJobs_eq_some hbasic hjobs
        obtain ⟨job, hjob⟩ :=
          List.exists_mem_of_ne_nil _ (chunkJobs_ne_nil hbasic hrecords)
        refine .inr (.inr (State.batchDone_eq_false.mpr (.inl ⟨⟨batch, job, .queued⟩, ?_,
          rfl⟩)))
        exact List.mem_append_right _ (List.mem_map.mpr ⟨job, hjob, rfl⟩)
    · exact .inl hdirty

theorem endBatch_effect {batch : Nat} {noSpace : Bool} (hown : s.OwnBatch)
    (hstep : s.endBatch batch noSpace = some t) :
    s.drainPhase = some (.uploading batch) ∧ (∀ b, (t.batches.lookup b).isSome = false) ∧
      (∀ b, t.drainPhase ≠ some (.uploading b)) ∧
      (t.backendFull = true → s.backendFull = true ∨ noSpace = true) ∧ (s.Busy → t.Busy) := by
  unfold State.endBatch at hstep
  split at hstep
  · cases hstep
  rename_i failed hbatch
  have hphase : s.drainPhase = some (.uploading batch) :=
    (hown batch).mp (by rw [hbatch]; rfl)
  obtain ⟨d, hd, hdphase⟩ := Option.map_eq_some_iff.mp hphase
  have hnone : ∀ b, ((s.batches.erase batch).lookup b).isSome = false := by
    intro b
    by_cases hb : b = batch
    · subst hb
      rw [AList.lookup_erase]
      rfl
    · rw [AList.lookup_erase_ne hb, Bool.eq_false_iff, ne_eq, hown b, hphase]
      intro heq
      exact hb (DrainPhase.uploading.inj (Option.some.inj heq)).symm
  split at hstep
  swap
  · cases hstep
  rename_i hdone
  obtain ⟨phase, quiet⟩ := d
  obtain rfl : phase = .uploading batch := hdphase
  simp only [hd, if_true] at hstep
  cases failed with
  | true =>
    cases hstep
    refine ⟨hphase, hnone, by rintro _ ⟨⟩, fun hfull => ?_, fun _ => trivial⟩
    simpa [State.failDrain] using hfull
  | false =>
    cases hstep
    refine ⟨hphase, hnone, by rintro _ ⟨⟩, fun hfull => .inl hfull, fun hbusy => ?_⟩
    rcases (State.busy_uploading hphase).mp hbusy with hdirty | hfailed | hnot
    · exact hdirty
    · rw [hbatch] at hfailed
      cases hfailed
    · rw [hdone] at hnot
      cases hnot

theorem serialiseLive_effect :
    s.serialiseLive env = some t →
    Moves s t ∧ (t.backendFull = true → s.backendFull = true) ∧ t.Busy ∧
      (s.volume.vb.dirty = false → t.backendFull = false ∧ ¬ s.Busy) := by
  fun_cases State.serialiseLive <;> rintro ⟨⟩
  all_goals have hphase : s.drainPhase = some .uploaded := by simp [State.drainPhase, *]
  · exact ⟨⟨rfl, by simp [hphase], by rintro _ ⟨⟩⟩, fun h => h, trivial, by simp_all⟩
  · refine ⟨⟨rfl, by simp [hphase], by rintro _ ⟨⟩⟩, by rintro ⟨⟩, trivial, fun _ => ⟨rfl, ?_⟩⟩
    unfold State.Busy
    rw [hphase]
    assumption

theorem putLive_effect {out : Outcome} {noSpace : Bool} :
    s.putLive out noSpace = some t →
    Moves s t ∧ t.Busy ∧ (out.isOk = true → t.backendFull = false) ∧
      (t.backendFull = true → s.backendFull = true ∨ noSpace = true) := by
  fun_cases State.putLive <;> rintro ⟨⟩
  rename_i records quiet hdrain _ _
  have hphase : s.drainPhase = some (.saving records) := by simp [State.drainPhase, hdrain]
  cases hok : out.isOk with
  | true =>
    exact ⟨⟨rfl, by simp [hphase], by rintro _ ⟨⟩⟩, trivial, fun _ => rfl, by rintro ⟨⟩⟩
  | false =>
    refine ⟨⟨rfl, by simp [hphase], by rintro _ ⟨⟩⟩, trivial, by rintro ⟨⟩, fun hfull => ?_⟩
    simpa [State.failDrain] using hfull

end Drains

/-- What comes back from a PUT. -/
structure Response where
  /-- The header `X-Predastore-Pool-Pressure: nearfull`, on a success. -/
  pressure : Bool
  /-- The error is `ErrNoSpace`, on a failure. -/
  noSpace : Bool
deriving DecidableEq, Repr

/-- The engine next to the latch of its backend. -/
structure Gate where
  engine : State
  nearFull : Bool
  /-- The consolidations of which a PUT was refused for want of space. -/
  refused : List Nat
  /-- Every PUT succeeds without a pressure signal. -/
  recovered : Bool
  /-- The last drain began since. -/
  since : Bool
  /-- A drain that began since has returned nil. -/
  drained : Bool

inductive GateAct
  | run (act : Act) (response : Response)
  | recover

namespace Gate

variable (env : Env)

def opened (v : Volume) (wal : ReopenSystem.Segment) : Gate :=
  ⟨.opened v wal, false, [], false, false, false⟩

/-- The next number of an encrypted volume is past the reserved ones. -/
def raises (v : Volume) : Bool :=
  env.cfg.sealing.isSome && decide (v.vb.seqNum + 1 ≤ maxSeqNum) &&
    decide (v.vb.seqNumHighWater < v.vb.seqNum + 1)

/-- The PUT that a step makes; the outcome of the last attempt. -/
def putOf (s : State) : Act → Option Outcome
  | .put _ out => some out
  | .putLive out _ => some out
  | .saveState disk backend => if disk.isOk then some backend else none
  | .reserve _ disk backend =>
    if raises env s.volume && disk.isOk then some backend else none
  | _ => none

/-- The step makes the drain return nil. -/
def returnsNil (s : State) : Act → Bool
  | .serialiseLive => !s.volume.vb.dirty
  | .putLive out _ => out.isOk
  | _ => false

/-- The step fits what the gate knows: a write is gated by the latch, an error is for want
of space only if a PUT was refused for it, and after the recovery no PUT is. -/
def fits (g : Gate) (act : Act) (response : Response) : Bool :=
  (match act with
    | .beginWrite _ _ _ nearFull => nearFull == g.nearFull
    | .endBatch batch noSpace => !noSpace || g.refused.contains batch
    | .putLive out noSpace => !noSpace || (!out.isOk && response.noSpace)
    | _ => true) &&
  match putOf env g.engine act with
  | none => true
  | some out => !g.recovered || (out.isOk && !response.pressure)

/-- The batches with a refused PUT after a step. -/
def refusedAfter (g : Gate) (act : Act) (response : Response) : List Nat :=
  match act with
  | .put i out =>
    match g.engine.uploads[i]? with
    | some u => if !out.isOk && response.noSpace then u.batch :: g.refused else g.refused
    | none => g.refused
  | .endBatch batch _ => g.refused.filter (· != batch)
  | _ => g.refused

/-- The latch is the signal of the last PUT. -/
def nearFullAfter (g : Gate) (act : Act) (response : Response) : Bool :=
  match putOf env g.engine act with
  | none => g.nearFull
  | some out => out.isOk && response.pressure

def sinceAfter (g : Gate) : Act → Bool
  | .beginDrain => g.recovered
  | _ => g.since

def step (g : Gate) : GateAct → Option Gate
  | .recover => some { g with recovered := true }
  | .run act response =>
    if drainsOnly g.engine act && g.fits env act response then
      (Engine.step env g.engine act).map fun t =>
        { engine := t
          nearFull := g.nearFullAfter env act response
          refused := g.refusedAfter act response
          recovered := g.recovered
          since := g.sinceAfter act
          drained := g.drained || (g.since && returnsNil g.engine act) }
    else none

/-- A drain that begins after the recovery while the latch is set has something to
upload. -/
def keepsWork (g : Gate) : GateAct → Bool
  | .run .beginDrain _ => !(g.recovered && g.nearFull) || g.engine.hasWork
  | _ => true

/-- What the steps of such a run keep. -/
structure Inv (g : Gate) : Prop where
  basic : Basic env g.engine
  serial : Serial g.engine
  own : g.engine.OwnBatch
  refused : ∀ b ∈ g.refused, (g.engine.batches.lookup b).isSome
  since : g.since = true → g.recovered = true ∧ g.refused = []
  busy : g.since = true → g.nearFull = true → g.engine.Busy
  drained : g.drained = true → g.since = true ∧ g.nearFull = false ∧ g.engine.backendFull = false

/-- What a step of the engine means for the gate. -/
structure Effect (s : State) (act : Act) (t : State) : Prop where
  own : t.OwnBatch
  kept : ∀ b, (s.batches.lookup b).isSome →
    (t.batches.lookup b).isSome ∨ ∃ noSpace, act = .endBatch b noSpace
  full : t.backendFull = true → s.backendFull = true ∨
    (∃ batch, act = .endBatch batch true) ∨ ∃ out, act = .putLive out true
  busy : act ≠ .beginDrain → s.Busy → t.Busy
  returns : returnsNil s act = true → t.backendFull = false ∧ (s.Busy → (putOf env s act).isSome)

section Effect

variable {env} {s t : State} {act : Act}

theorem Effect.of_works (hown : s.OwnBatch) (hworks : Works s t) (hnil : returnsNil s act = false) :
    Effect env s act t where
  own := hown.of_works hworks
  kept b hb := .inl (by rwa [hworks.running])
  full hfull := .inl (hworks.full ▸ hfull)
  busy _ := hworks.busy
  returns hreturns := by
    rw [hnil] at hreturns
    cases hreturns

theorem Effect.of_moves (hown : s.OwnBatch) (hmoves : Moves s t)
    (hfull : t.backendFull = true → s.backendFull = true ∨ ∃ out, act = .putLive out true)
    (hbusy : act ≠ .beginDrain → s.Busy → t.Busy)
    (hreturns : returnsNil s act = true →
      t.backendFull = false ∧ (s.Busy → (putOf env s act).isSome)) :
    Effect env s act t where
  own := hmoves.own hown
  kept b hb := .inl (by rwa [hmoves.batches])
  full h := (hfull h).imp_right .inr
  busy := hbusy
  returns := hreturns

theorem running_of_mem {u : Upload} (hserial : Serial s) (hown : s.OwnBatch) (hu : u ∈ s.uploads) :
    (s.batches.lookup u.batch).isSome := by
  rcases hserial.batch with ⟨b, hphase, huploads, -⟩ | ⟨hnone, -⟩
  · rw [huploads u hu]
    exact (hown b).mpr hphase
  · rw [hnone] at hu
    cases hu

theorem effect_step (hbasic : Basic env s) (hserial : Serial s) (hown : s.OwnBatch)
    (hdrains : drainsOnly s act = true) (hstep : Engine.step env s act = some t) :
    Effect env s act t := by
  cases act with
  | beginWrite _ _ _ _ | lock _ | rmw _ _ | splice _ | reserve _ _ _ | endWrite _
  | beginRead _ _ _ | read _ _ | endRead _ | saveState _ _ =>
    exact .of_works hown (works_call hbasic.memory rfl hstep) rfl
  | append id => exact .of_works hown (works_append hstep) rfl
  | publish id => exact .of_works hown (works_publish hstep) rfl
  | beginFlush draining =>
    cases draining with
    | false => exact .of_works hown (works_beginFlush hstep) rfl
    | true =>
      obtain ⟨hmoves, hfull, hbusy⟩ := moves_beginFlush hstep
      exact .of_moves hown hmoves (fun h => .inl (hfull ▸ h)) (fun _ => hbusy) nofun
  | appendWAL ok => exact .of_works hown (works_appendWAL hstep) rfl
  | markPending => exact .of_works hown (works_markPending hstep) rfl
  | endFlush =>
    rcases endFlush_cases hbasic hserial hstep with hworks | ⟨hmoves, hfull, hbusy⟩
    · exact .of_works hown hworks rfl
    · exact .of_moves hown hmoves (fun h => .inl (hfull ▸ h)) (fun _ => hbusy) nofun
  | beginDrain =>
    obtain ⟨hmoves, hfull, -, -⟩ := moves_beginDrain hstep
    exact .of_moves hown hmoves (fun h => .inl (hfull ▸ h)) (fun hne => absurd rfl hne) nofun
  | rotate batch draining opened next =>
    obtain rfl : draining = true := hdrains
    obtain ⟨hown', hfull, hnone, hbusy⟩ := rotate_effect hbasic hown hstep
    refine ⟨hown', fun b hb => ?_, fun h => .inl (hfull ▸ h), fun _ => hbusy, nofun⟩
    rw [hnone b] at hb
    cases hb
  | allocate i => exact .of_works hown (works_allocate hstep) rfl
  | put i out =>
    exact .of_works hown (works_put (fun u => running_of_mem hserial hown) hstep) rfl
  | skip i => exact .of_works hown (works_skip hstep) rfl
  | evict i => exact .of_works hown (works_evict hstep) rfl
  | lockMap i => exact .of_works hown (works_lockMap hstep) rfl
  | insertRun => exact .of_works hown (works_insertRun hstep) rfl
  | mark => exact .of_works hown (works_mark hstep) rfl
  | unlockMap => exact .of_works hown (works_unlockMap hstep) rfl
  | endBatch batch noSpace =>
    obtain ⟨hbefore, hnone, hafter, hfull, hbusy⟩ := endBatch_effect hown hstep
    refine ⟨fun b => ?_, fun b hb => ?_, fun h => ?_, fun _ => hbusy, nofun⟩
    · rw [hnone]
      exact iff_of_false Bool.false_ne_true (hafter b)
    · rw [hown b, hbefore] at hb
      obtain rfl := DrainPhase.uploading.inj (Option.some.inj hb)
      exact .inr ⟨noSpace, rfl⟩
    · rcases hfull h with h | rfl
      · exact .inl h
      · exact .inr (.inl ⟨batch, rfl⟩)
  | serialiseLive =>
    obtain ⟨hmoves, hfull, hbusy, hclean⟩ := serialiseLive_effect hstep
    refine .of_moves hown hmoves (fun h => .inl (hfull h)) (fun _ _ => hbusy) fun hnil => ?_
    obtain ⟨hopen, hnot⟩ := hclean (by simpa [returnsNil] using hnil)
    exact ⟨hopen, fun hbusy => absurd hbusy hnot⟩
  | putLive out noSpace =>
    obtain ⟨hmoves, hbusy, hok, hfull⟩ := putLive_effect hstep
    refine .of_moves hown hmoves (fun h => ?_) (fun _ _ => hbusy) fun hnil =>
      ⟨hok hnil, fun _ => rfl⟩
    rcases hfull h with h | rfl
    · exact .inl h
    · exact .inr ⟨out, rfl⟩

end Effect

section Runs

variable {env} {g g' : Gate} {act : Act} {response : Response}

theorem nearFull_of_recovered (hfits : g.fits env act response = true)
    (hrecovered : g.recovered = true) (hnear : g.nearFullAfter env act response = true) :
    g.nearFull = true ∧ putOf env g.engine act = none := by
  obtain ⟨-, hput⟩ := Bool.and_eq_true_iff.mp hfits
  unfold nearFullAfter at hnear
  cases hout : putOf env g.engine act with
  | none =>
    rw [hout] at hnear
    exact ⟨hnear, rfl⟩
  | some out =>
    rw [hout] at hnear hput
    simp_all

theorem refusedAfter_of_recovered (hfits : g.fits env act response = true)
    (hrecovered : g.recovered = true) (hrefused : g.refused = []) :
    g.refusedAfter act response = [] := by
  obtain ⟨-, hput⟩ := Bool.and_eq_true_iff.mp hfits
  unfold refusedAfter
  cases act with
  | put i out =>
    have hok : out.isOk = true := by
      simp only [putOf, hrecovered, Bool.not_true, Bool.false_or, Bool.and_eq_true] at hput
      exact hput.1
    dsimp only
    split
    · simp [hok, hrefused]
    · exact hrefused
  | endBatch batch noSpace => simp [hrefused]
  | _ => exact hrefused

theorem not_full_of_recovered {t : State} (heffect : Effect env g.engine act t)
    (hfits : g.fits env act response = true) (hrecovered : g.recovered = true)
    (hrefused : g.refused = []) (hopen : g.engine.backendFull = false) :
    t.backendFull = false := by
  obtain ⟨hact, hput⟩ := Bool.and_eq_true_iff.mp hfits
  rw [Bool.eq_false_iff]
  intro hfull
  rcases heffect.full hfull with h | ⟨batch, rfl⟩ | ⟨out, rfl⟩
  · rw [hopen] at h
    cases h
  · simp [hrefused] at hact
  · simp [putOf, hrecovered] at hact hput
    simp [hput.1] at hact

theorem Inv.refused_step {t : State} (h : Inv env g) (heffect : Effect env g.engine act t) :
    ∀ b ∈ g.refusedAfter act response, (t.batches.lookup b).isSome := by
  intro b hb
  have hold : b ∈ g.refused → (∀ noSpace, act ≠ .endBatch b noSpace) →
      (t.batches.lookup b).isSome := by
    intro hmem hne
    rcases heffect.kept b (h.refused b hmem) with hkept | ⟨noSpace, hact⟩
    · exact hkept
    · exact absurd hact (hne noSpace)
  unfold refusedAfter at hb
  cases act with
  | put i out =>
    dsimp only at hb
    split at hb
    · rename_i u hu
      split at hb
      · rcases List.mem_cons.mp hb with rfl | hb
        · have hrunning := running_of_mem h.serial h.own (List.mem_of_getElem? hu)
          rcases heffect.kept _ hrunning with hkept | ⟨noSpace, hact⟩
          · exact hkept
          · cases hact
        · exact hold hb nofun
      · exact hold hb nofun
    · exact hold hb nofun
  | endBatch batch noSpace =>
    obtain ⟨hmem, hne⟩ := List.mem_filter.mp hb
    refine hold hmem fun noSpace' hact => ?_
    cases hact
    simp at hne
  | _ => exact hold hb nofun

theorem Inv.drained_step {t : State} (h : Inv env g) (heffect : Effect env g.engine act t)
    (hfits : g.fits env act response = true)
    (hdrained : (g.drained || (g.since && returnsNil g.engine act)) = true) :
    g.since = true ∧ g.nearFullAfter env act response = false ∧ t.backendFull = false := by
  have hsince : g.since = true := by
    rcases Bool.or_eq_true_iff.mp hdrained with hd | hd
    · exact (h.drained hd).1
    · exact (Bool.and_eq_true_iff.mp hd).1
  obtain ⟨hrecovered, hrefused⟩ := h.since hsince
  rcases Bool.or_eq_true_iff.mp hdrained with hd | hd
  · obtain ⟨-, hclear, hopen⟩ := h.drained hd
    refine ⟨hsince, ?_, not_full_of_recovered heffect hfits hrecovered hrefused hopen⟩
    rw [Bool.eq_false_iff]
    intro hnear
    rw [(nearFull_of_recovered hfits hrecovered hnear).1] at hclear
    cases hclear
  · -- the drain that returns was busy, so its last step was a PUT without a signal
    obtain ⟨hopen, hputs⟩ := heffect.returns (Bool.and_eq_true_iff.mp hd).2
    refine ⟨hsince, ?_, hopen⟩
    rw [Bool.eq_false_iff]
    intro hnear
    obtain ⟨hwas, hnone⟩ := nearFull_of_recovered hfits hrecovered hnear
    have hsome := hputs (h.busy hsince hwas)
    rw [hnone] at hsome
    cases hsome

theorem sinceAfter_of_ne (hact : act ≠ .beginDrain) :
    g.sinceAfter act = g.since := by
  cases act <;> first | rfl | exact absurd rfl hact

/-- A drain begins when no consolidation is on its way. -/
theorem Inv.refused_eq_nil (h : Inv env g) (hphase : g.engine.drainPhase = none) :
    g.refused = [] := by
  refine List.eq_nil_iff_forall_not_mem.mpr fun b hb => ?_
  have hrunning := h.refused b hb
  rw [h.own b, hphase] at hrunning
  cases hrunning

theorem Inv.run (h : Inv env g) (hkeeps : g.keepsWork (.run act response) = true)
    (hstep : Gate.step env g (.run act response) = some g') :
    Inv env g' := by
  simp only [Gate.step] at hstep
  split at hstep
  case isFalse =>
    cases hstep
  case isTrue hguard =>
    obtain ⟨hdrains, hfits⟩ := Bool.and_eq_true_iff.mp hguard
    obtain ⟨t, ht, rfl⟩ := Option.map_eq_some_iff.mp hstep
    have heffect := effect_step h.basic h.serial h.own hdrains ht
    have hdrained := h.drained_step heffect hfits
    refine ⟨h.basic.step ht, h.serial.step h.basic hdrains ht, heffect.own,
      h.refused_step heffect, ?_, ?_, ?_⟩
    all_goals by_cases hact : act = .beginDrain
    · subst hact
      exact fun hrecovered => ⟨hrecovered, h.refused_eq_nil (moves_beginDrain ht).2.2.1⟩
    · intro hsince
      obtain ⟨hrecovered, hrefused⟩ := h.since ((sinceAfter_of_ne hact).symm.trans hsince)
      exact ⟨hrecovered, refusedAfter_of_recovered hfits hrecovered hrefused⟩
    · subst hact
      intro hrecovered hnear
      have hrecovered : g.recovered = true := hrecovered
      have hnear := (nearFull_of_recovered hfits hrecovered hnear).1
      refine (moves_beginDrain ht).2.2.2 ?_
      simpa [keepsWork, hrecovered, hnear] using hkeeps
    · intro hsince hnear
      have hsince := (sinceAfter_of_ne hact).symm.trans hsince
      obtain ⟨hwas, -⟩ := nearFull_of_recovered hfits (h.since hsince).1 hnear
      exact heffect.busy hact (h.busy hsince hwas)
    · subst hact
      intro hd
      obtain ⟨hsince, hrest⟩ := hdrained hd
      exact ⟨(h.since hsince).1, hrest⟩
    · intro hd
      rw [sinceAfter_of_ne hact]
      exact hdrained hd

theorem Inv.step {gateAct : GateAct} (h : Inv env g) (hkeeps : g.keepsWork gateAct = true)
    (hstep : Gate.step env g gateAct = some g') :
    Inv env g' := by
  cases gateAct with
  | run act response => exact h.run hkeeps hstep
  | recover =>
    cases hstep
    exact ⟨h.basic, h.serial, h.own, h.refused, fun hs => ⟨rfl, (h.since hs).2⟩, h.busy, h.drained⟩

theorem inv_opened {v : Volume} (hentries : v.vb.blockStore.entries = ∅)
    (wal : ReopenSystem.Segment) :
    Inv env (Gate.opened v wal) where
  basic := basic_opened hentries wal
  serial := serial_opened v wal
  own b := by simp [Gate.opened, State.opened, State.drainPhase]
  refused := nofun
  since := nofun
  busy := nofun
  drained := nofun

/-- In a run in which every drain that begins after the recovery while the latch is set
has something to upload, once such a drain has returned nil no write is refused for want
of space. -/
theorem gate_reopens
    {d : ReopenSystem.Disks} {n : Nat} {opening : ReopenSystem.OpenRun} {v : Volume}
    {wal : ReopenSystem.Segment} {acts : List GateAct}
    (hoffset : ∀ records, ReopenSystem.Saved d records → ∀ rec ∈ records, rec.objectOffset < 2 ^ 32)
    (hopen : ReopenSystem.openVolume env.cfg d n opening = (v, true))
    (hrun : Run (Gate.step env) (fun g act => g.keepsWork act) (Gate.opened v wal) acts g)
    (hdrained : g.drained = true) :
    g.engine.backendFull = false ∧ g.nearFull = false := by
  have hinv : Inv env g :=
    hrun.preserves (fun _ _ _ h hkeeps hstep => h.step hkeeps hstep)
      (inv_opened (opened_openVolume hoffset hopen).entries wal)
  obtain ⟨-, hclear, hfull⟩ := hinv.drained hdrained
  exact ⟨hfull, hclear⟩

end Runs

section Traces

open ReopenSystem (created firstState openRun openVolume)

def quiet : Response := ⟨false, false⟩

def pressure : Response := ⟨true, false⟩

/-- A `WriteAt` of one block. -/
def writeBlock (id : Nat) : List GateAct :=
  [.beginWrite id id [7] false, .lock id, .reserve id .ok .ok, .append id, .publish id,
    .endWrite id].map (.run · quiet)

/-- A drain up to the rotation of the log, with the given number of writes to flush. -/
def drainToLog (batch writes : Nat) : List GateAct :=
  let acts : List Act := [.beginDrain, .beginFlush true] ++
    (List.replicate writes [.appendWAL true, .markPending]).flatten ++
    [.endFlush, .rotate batch true true ⟨"wal.bin", 0, []⟩]
  acts.map (.run · quiet)

/-- The upload of a chunk of one block and the save of the map. -/
def drainToBackend (batch : Nat) (response : Response) : List GateAct :=
  [.allocate 0, .put 0 .ok, .evict 0, .lockMap 0, .insertRun, .mark, .mark, .mark, .mark,
    .unlockMap, .endBatch batch false, .serialiseLive, .putLive .ok false].map (.run · response)

/-- While a drain uploads one block, another is written; the drain ends with a pressure
signal.  The backend recovers, and the next drain uploads the other block. -/
def otherBlockLeft : List GateAct :=
  writeBlock 0 ++ drainToLog 0 1 ++ writeBlock 1 ++ drainToBackend 0 pressure ++ [.recover] ++
    drainToLog 1 1 ++ drainToBackend 1 quiet

/-- The next drain finds nothing to upload. -/
def nothingLeft : List GateAct :=
  writeBlock 0 ++ drainToLog 0 1 ++ drainToBackend 0 pressure ++ [.recover] ++
    drainToLog 1 0 ++ [.run (.endBatch 1 false) quiet, .run .serialiseLive quiet]

theorem open_created :
    openVolume Config.tiny (created firstState).disks 0 openRun =
      ((openVolume Config.tiny (created firstState).disks 0 openRun).1, true) := by
  refine Prod.ext rfl ?_
  decide +kernel

/-- The gate opens again after a drain that uploads a block. -/
theorem gate_reopens_after_upload :
    ∃ v g, openVolume Config.tiny (created firstState).disks 0 openRun = (v, true) ∧
      Run (Gate.step (plainEnv Config.tiny 4 (by decide))) (fun g act => g.keepsWork act)
        (Gate.opened v openRun.segment) otherBlockLeft g ∧
      g.drained = true ∧ g.engine.backendFull = false ∧ g.nearFull = false := by
  obtain ⟨g, hrun, hdrained⟩ := Run.exists_of_exec
    (Gate.step (plainEnv Config.tiny 4 (by decide))) (fun g act => g.keepsWork act)
    (Gate.opened (openVolume Config.tiny (created firstState).disks 0 openRun).1
      openRun.segment) otherBlockLeft Gate.drained (by decide +kernel)
  exact ⟨_, g, open_created, hrun, hdrained, gate_reopens
    (fun records hsaved => absurd hsaved (not_saved_created records)) open_created hrun hdrained⟩

/-- The pressure signal of the last PUT stays although the backend has recovered and a
drain has returned nil: no drain makes a PUT any more, and every write is refused. -/
theorem signal_outlives_recovery :
    ∃ v g, openVolume Config.tiny (created firstState).disks 0 openRun = (v, true) ∧
      Run (Gate.step (plainEnv Config.tiny 4 (by decide))) (fun _ _ => True)
        (Gate.opened v openRun.segment) nothingLeft g ∧
      g.drained = true ∧ g.nearFull = true := by
  obtain ⟨g, hrun, hend⟩ := Run.exists_of_exec
    (Gate.step (plainEnv Config.tiny 4 (by decide))) (fun _ _ => True)
    (Gate.opened (openVolume Config.tiny (created firstState).disks 0 openRun).1
      openRun.segment) nothingLeft (fun g => g.drained && g.nearFull) (by decide +kernel)
  obtain ⟨hdrained, hnear⟩ := Bool.and_eq_true_iff.mp hend
  exact ⟨_, g, open_created, hrun, hdrained, hnear⟩

end Traces

end Gate

end Engine

end Viperblock
