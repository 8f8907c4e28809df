import Viperblock.IndexAgreement

/-!
# Versions on their way to the extents

A version that is published has an entry in the block store, and the entry leaves memory
when the version has been uploaded and `MarkPersistedRange` finds it pending.  That happens
once: the record of the version goes through the log, a chunk and a run of the block map,
and behind these nothing will ask for the entry again.

So an entry stays for good if its version is not published yet when its run is marked, or
not marked as pending by the flush that has logged it, or if the whole run is held back
as stale.  In every other run each entry has a record on its way that is as new as the
entry.
-/

namespace Viperblock

namespace Engine

open BlockMap BlocksToObject GuardedRun UnifiedBlockStore Volume

/-- What pass 1 of `MarkPersistedRange` has found pending. -/
def Marking.ripe : Marking → List RangeItem
  | .predicting _ _ eligible => eligible
  | .dropping todo => todo

namespace State

variable (s : State)

/-- The versions that are on their way to the extents. -/
def upstream : List (Nat × Nat) := s.packed ++ s.newer.map Block.version

/-- The version is in memory or about to be. -/
def Present (v : Nat × Nat) : Prop :=
  (∃ e, s.store.entries.lookup v.1 = some e ∧ e.seqNum = v.2) ∨ s.Appended v

/-- A version of the block that is as new is on its way. -/
def Supplied (v : Nat × Nat) : Prop :=
  ∃ w ∈ s.upstream, w.1 = v.1 ∧ v.2 ≤ w.2

/-- The entry of the item is pending, or of a newer version. -/
def Held (item : RangeItem) : Prop :=
  ∃ e, s.store.entries.lookup item.block = some e ∧
    (e.seqNum = item.seqNum ∧ e.state = .pending ∨ item.seqNum < e.seqNum)

/-- What was found pending is held. -/
def RipeHeld : Prop :=
  ∀ m marking, s.mapInsert = some m → m.marking = some marking → ∀ item ∈ marking.ripe, s.Held item

/-- The write of the version is between its append and its publication. -/
def appending (v : Nat × Nat) : Bool :=
  s.writers.entries.any fun entry =>
    match entry.2.phase with
    | .appended blk => blk.version == v
    | _ => false

/-- The version is published, and its block has no entry or one of another version. -/
def replaced (v : Nat × Nat) : Bool :=
  !s.appending v && (s.store.entries.lookup v.1).all fun e => e.seqNum != v.2

end State

/-- Drains are the only consolidations, and neither the log nor the backend fails. -/
def unfailing : State → Act → Bool
  | _, .rotate _ draining opened _ => draining && opened
  | _, .appendWAL ok => ok
  | _, .put _ out => out.isOk
  | _, .skip _ => false
  | _, _ => true

/-- A version that is marked is pending or replaced, and a run that is held back as stale
has replaced versions only. -/
def settles (env : Env) : State → Act → Bool
  | s, .insertRun =>
    match s.mapInsert with
    | some ⟨_, chunkIndex, (runStart, first :: rest) :: _, none⟩ =>
      !staleDrain s.volume.vb.blocksToObject.blockLookup
          (newBlock env.cfg.blockStride chunkIndex runStart first rest) ||
        (first :: rest).all fun r => s.replaced r.version
    | _ => true
  | s, .mark =>
    match s.mapInsert with
    | some ⟨_, _, _, some (.predicting _ (item :: _) _)⟩ =>
      s.store.eligible item || s.replaced item.version
    | _ => true
  | _, _ => true

section Upstream

variable {env : Env} {s t : State} {id : Nat}

theorem not_appended_of_replaced {v : Nat × Nat} (hreplaced : s.replaced v = true) :
    ¬ s.Appended v := by
  rintro ⟨id, p, todo, blk, n, hw, rfl⟩
  have happending := (Bool.and_eq_true_iff.mp hreplaced).1
  rw [Bool.not_eq_true'] at happending
  have hall := List.any_eq_false.mp happending ⟨id, ⟨p :: todo, .appended blk, n⟩⟩
    (FiniteMap.mem_entries_iff.mpr hw)
  exact hall (beq_self_eq_true _)

theorem ne_of_replaced {v : Nat × Nat} {e : BlockEntry} (hreplaced : s.replaced v = true)
    (he : s.store.entries.lookup v.1 = some e) :
    e.seqNum ≠ v.2 := by
  have hall := (Bool.and_eq_true_iff.mp hreplaced).2
  rw [he] at hall
  exact bne_iff_ne.mp hall

/-- What is replaced supplies nothing that is present. -/
theorem lt_of_replaced {v w : Nat × Nat} (hbasic : Basic env s) (hcovered : s.Covered w)
    (hreplaced : s.replaced w = true) (hv : s.Present v) (hblock : w.1 = v.1) :
    w.2 < v.2 := by
  obtain ⟨e, he, hle⟩ := hcovered.resolve_right (not_appended_of_replaced hreplaced)
  have hne := ne_of_replaced hreplaced he
  rw [hblock] at he
  rcases hv with ⟨e', he', hseqNum⟩ | ⟨id, p, todo, blk, n, hw, rfl⟩
  · cases he.symm.trans he'
    omega
  · obtain ⟨-, hp, hnew⟩ := hbasic.appended id p todo blk n hw
    rw [← hp] at hnew
    have hlt := hnew.entry e he
    have hversion : blk.version.2 = blk.seqNum := rfl
    omega

/-- What is present has a record on its way, and what was found pending still is, or has
been replaced. -/
structure Moving (s : State) : Prop where
  supplied : ∀ v, s.Present v → s.Supplied v
  ripe : s.RipeHeld
  unfailed : ∀ f, s.flush = some f → f.failed = false

theorem Moving.of_frame (h : Moving s) (hpresent : ∀ v, t.Present v → s.Present v)
    (hupstream : ∀ v ∈ s.upstream, v ∈ t.upstream)
    (hripe : t.RipeHeld) (hunfailed : ∀ f, t.flush = some f → f.failed = false) :
    Moving t := by
  refine ⟨fun v hv => ?_, hripe, hunfailed⟩
  obtain ⟨w, hw, hblock, hle⟩ := h.supplied v (hpresent v hv)
  exact ⟨w, hupstream w hw, hblock, hle⟩

theorem appended_of_setWriter {w : WriteCall} {v : Nat × Nat} (hv : (s.setWriter id w).Appended v)
    (hw : ∀ blk, w.phase ≠ .appended blk) :
    s.Appended v := by
  obtain ⟨id', p, todo, blk, n, hw', hblk⟩ := hv
  rcases FiniteMap.lookup_insert_eq_some hw' with ⟨-, rfl⟩ | hw'
  · exact absurd rfl (hw blk)
  · exact ⟨id', p, todo, blk, n, hw', hblk⟩

theorem appended_of_eraseWriter {v : Nat × Nat}
    (hv : State.Appended { s with writers := s.writers.erase id } v) :
    s.Appended v := by
  obtain ⟨id', p, todo, blk, n, hw', hblk⟩ := hv
  exact ⟨id', p, todo, blk, n, (FiniteMap.lookup_erase_eq_some hw').2, hblk⟩

theorem State.RipeHeld.congr (h : s.RipeHeld) (hmap : t.mapInsert = s.mapInsert)
    (hstore : t.store = s.store) :
    t.RipeHeld := by
  unfold State.RipeHeld State.Held
  rw [hmap, hstore]
  exact h

theorem Moving.of_idle (h : Moving s) (hidle : Idle s t)
    (happended : ∀ v, t.Appended v → s.Appended v) :
    Moving t := by
  refine h.of_frame ?_ ?_ ?_ ?_
  · rintro v (⟨e, he, hseqNum⟩ | hv)
    · rw [hidle.store] at he
      exact .inl ⟨e, he, hseqNum⟩
    · exact .inr (happended v hv)
  · unfold State.upstream
    rw [hidle.packed_eq, hidle.newer_eq]
    exact fun _ hv => hv
  · exact h.ripe.congr hidle.mapInsert hidle.store
  · rw [hidle.flush]
    exact h.unfailed

theorem Moving.of_rests (h : Moving s) (hrests : Rests s t) :
    Moving t := by
  refine h.of_idle hrests.toIdle fun v hv => ?_
  unfold State.Appended at *
  rwa [hrests.writers] at hv

end Upstream

section Writes

variable {env : Env} {s t : State} {id : Nat}

variable (h : Moving s)

include h

theorem Moving.beginWrite {offset : Nat} {data : Bytes} {nearFull : Bool}
    (hstep : s.beginWrite env id offset data nearFull = some t) :
    Moving t := by
  refine h.of_idle (idle_beginWrite hstep).1 fun v hv => ?_
  obtain ⟨-, hstep⟩ := Option.ite_none_right_eq_some.mp hstep
  cases hstep
  exact appended_of_setWriter (s := s) hv (by rintro _ ⟨⟩)

theorem Moving.lock (hstep : s.lock env id = some t) :
    Moving t := by
  refine h.of_idle (idle_lock hstep).1 fun v hv => ?_
  revert hstep
  fun_cases State.lock <;> intro hstep <;> cases hstep
  · exact appended_of_setWriter hv (by rintro _ ⟨⟩)
  · exact appended_of_eraseWriter hv
  · exact appended_of_setWriter hv (by rintro _ ⟨⟩)

theorem Moving.rmw {ok : Bool} (hmemory : InMemory s.store) (hstep : s.rmw env id ok = some t) :
    Moving t := by
  refine h.of_idle (idle_rmw hmemory hstep).1 fun v hv => ?_
  revert hstep
  fun_cases State.rmw <;> intro hstep <;> cases hstep
  · exact appended_of_eraseWriter hv
  · exact appended_of_setWriter (s := s.setStore _) hv (by rintro _ ⟨⟩)

theorem Moving.splice (hstep : s.splice env id = some t) :
    Moving t := by
  refine h.of_idle (idle_splice hstep).1 fun v hv => ?_
  revert hstep
  fun_cases State.splice <;> intro hstep <;> cases hstep
  exact appended_of_setWriter hv (by simp)

theorem Moving.reserve {disk backend : Outcome} (hstep : s.reserve env id disk backend = some t) :
    Moving t := by
  refine h.of_idle (idle_reserve hstep).1 fun v hv => ?_
  revert hstep
  fun_cases State.reserve <;> intro hstep <;> cases hstep
  · exact appended_of_eraseWriter (s := s) hv
  · exact appended_of_setWriter (s := { s with volume := _ }) hv (by rintro _ ⟨⟩)

theorem Moving.endWrite (hstep : s.endWrite env id = some t) :
    Moving t := by
  refine h.of_idle (idle_endWrite hstep).1 fun v hv => ?_
  revert hstep
  fun_cases State.endWrite <;> intro hstep <;> cases hstep
  exact appended_of_eraseWriter (s := s) hv

theorem Moving.append (hstep : s.append env id = some t) :
    Moving t := by
  unfold State.append at hstep
  split at hstep
  swap
  · cases hstep
  rename_i p todo data seqNum published hw hflush
  have ht := Option.some.inj hstep
  have hnewer : t.newer = s.newer ++ [⟨data, seqNum, p.block, env.cfg.blockSize⟩] := by
    rw [← ht]
    simp only [State.newer, State.unflushed, State.setWriter, hflush, List.append_assoc]
  have hpacked : t.packed = s.packed := by
    rw [← ht]
    rfl
  have hupstream : ∀ v, v ∈ s.upstream ∨ v = (p.block, seqNum) → v ∈ t.upstream := by
    intro v hv
    unfold State.upstream at hv ⊢
    rw [hpacked, hnewer, List.map_append, ← List.append_assoc]
    exact List.mem_append.mpr (hv.imp_right fun heq => List.mem_singleton.mpr heq)
  refine ⟨fun v hv => ?_, ht ▸ h.ripe, ht ▸ h.unfailed⟩
  have hcases : s.Present v ∨ v = (p.block, seqNum) := by
    rw [← ht] at hv
    rcases hv with hentry | ⟨id', p', todo', blk, n, hw', rfl⟩
    · exact .inl (.inl hentry)
    · rcases FiniteMap.lookup_insert_eq_some hw' with ⟨-, heq⟩ | hw'
      · cases heq
        exact .inr rfl
      · exact .inl (.inr ⟨id', p', todo', blk, n, hw', rfl⟩)
  rcases hcases with hv | rfl
  · obtain ⟨w, hw, hblock, hle⟩ := h.supplied v hv
    exact ⟨w, hupstream w (.inl hw), hblock, hle⟩
  · exact ⟨(p.block, seqNum), hupstream _ (.inr rfl), rfl, Nat.le_refl _⟩

theorem Moving.publish (hbasic : Basic env s) :
    s.publish id = some t → Moving t := by
  fun_cases State.publish <;> rintro ⟨⟩
  rename_i p todo blk published hw _
  obtain ⟨hblock, hnew, hlookup⟩ := hbasic.published hw
  refine h.of_frame ?_ (fun _ hv => hv) ?_ h.unfailed
  · rintro v (⟨e, he, hseqNum⟩ | hv)
    · have he' := (hlookup v.1).symm.trans he
      split at he'
      · rename_i hv
        cases he'
        exact .inr ⟨id, p, todo, blk, published, hw, Prod.ext hv.symm hseqNum⟩
      · exact .inl ⟨e, he', hseqNum⟩
    · exact .inr (appended_of_setWriter (s := s.setStore _) hv (by simp))
  · intro m marking hm hmark item hitem
    obtain ⟨e, he, hcases⟩ := h.ripe m marking hm hmark item hitem
    by_cases hitemBlock : item.block = blk.block
    · refine ⟨_, (hlookup item.block).trans (if_pos hitemBlock), .inr ?_⟩
      rw [hitemBlock] at he
      have hlt := hnew.entry e he
      dsimp only
      rcases hcases with ⟨heq, -⟩ | hlt'
      · omega
      · omega
    · exact ⟨e, ((hlookup item.block).trans (if_neg hitemBlock)).trans he, hcases⟩

end Writes

section Flush

variable {env : Env} {s t : State}

theorem Moving.of_newer (h : Moving s) (hnewer : t.newer = s.newer)
    (hchunks : t.uploads = s.uploads ∧ t.mapInsert = s.mapInsert) (hwriters : t.writers = s.writers)
    (hstore : t.store = s.store) (hunfailed : ∀ f, t.flush = some f → f.failed = false) :
    Moving t := by
  refine h.of_frame ?_ ?_ ?_ hunfailed
  · unfold State.Present State.Appended
    rw [hstore, hwriters]
    exact fun _ hv => hv
  · unfold State.upstream State.packed
    rw [hnewer, hchunks.1, hchunks.2]
    exact fun _ hv => hv
  · exact h.ripe.congr hchunks.2 hstore

theorem Moving.beginFlush {draining : Bool} (h : Moving s)
    (hstep : s.beginFlush draining = some t) :
    Moving t := by
  have hnewer := (beginFlush_newer hstep).1
  obtain ⟨-, drain, rfl, -⟩ := beginFlush_eq hstep
  exact h.of_newer hnewer ⟨rfl, rfl⟩ rfl rfl fun f hf => by cases hf; rfl

theorem Moving.appendWAL (h : Moving s) (hstep : s.appendWAL true = some t) :
    Moving t := by
  have hnewer := (appendWAL_newer hstep).1
  unfold State.appendWAL at hstep
  split at hstep
  · rw [if_pos rfl] at hstep
    cases hstep
    exact h.of_newer hnewer ⟨rfl, rfl⟩ rfl rfl fun f hf => by rw [← Option.some.inj hf]
  · cases hstep

theorem Moving.markPending (h : Moving s) (hstep : s.markPending = some t) :
    Moving t := by
  have hnewer := (markPending_newer hstep).1
  revert hstep
  fun_cases State.markPending <;> intro hstep <;> cases hstep
  rename_i draining flushed rest failed hflush b hlast
  have hunfailed := h.unfailed _ hflush
  refine h.of_frame ?_ ?_ ?_ ?_
  · rintro v (⟨e, he, hseqNum⟩ | hv)
    · obtain ⟨e', he', rfl | ⟨-, -, rfl⟩⟩ := lookup_markPending he
      · exact .inl ⟨e, he', hseqNum⟩
      · exact .inl ⟨e', he', hseqNum⟩
    · exact .inr hv
  · unfold State.upstream
    rw [hnewer]
    exact fun _ hv => hv
  · intro m marking hm hmark item hitem
    obtain ⟨e, he, hcases⟩ := h.ripe m marking hm hmark item hitem
    obtain ⟨e', he', hseqNum⟩ : ∃ e',
        (s.store.markPending b.block).entries.lookup item.block = some e' ∧ e'.seqNum = e.seqNum :=
      lookup_markPending_of_some he
    refine ⟨e', he', ?_⟩
    rw [hseqNum]
    refine hcases.imp_left fun hpending => ⟨hpending.1, ?_⟩
    obtain ⟨e'', he'', rfl | ⟨-, -, rfl⟩⟩ := lookup_markPending he'
    · cases he''.symm.trans he
      exact hpending.2
    · rfl
  · intro f hf
    rw [← Option.some.inj hf]
    exact hunfailed

theorem endFlush_unflushed (hbasic : Basic env s) (h : Moving s) (hstep : s.endFlush = some t) :
    t.unflushed = [] ∧ s.unflushed = [] ∧ t.wal = s.wal := by
  unfold State.endFlush at hstep
  split at hstep
  swap
  · cases hstep
  rename_i draining flushed rest failed hflush
  have hbuffer := hbasic.buffer _ hflush
  obtain rfl : failed = false := h.unfailed _ hflush
  rw [Bool.or_false] at hstep
  obtain ⟨hrest, hstep⟩ := Option.ite_none_right_eq_some.mp hstep
  obtain rfl := List.isEmpty_iff.mp hrest
  cases hstep
  refine ⟨?_, ?_, rfl⟩
  · simp only [State.unflushed]
    dsimp only at hbuffer
    rw [hbuffer, List.append_nil, List.filter_eq_nil_iff]
    intro b hb
    rw [Bool.not_eq_true', Bool.not_eq_false, List.any_eq_true]
    exact ⟨b, hb, beq_self_eq_true _⟩
  · simp only [State.unflushed, hflush]

theorem Moving.endFlush (h : Moving s) (hbasic : Basic env s) (hstep : s.endFlush = some t) :
    Moving t := by
  obtain ⟨ht, hs, hwal⟩ := endFlush_unflushed hbasic h hstep
  have hnewer : t.newer = s.newer := by
    simp only [State.newer, ht, hs, hwal]
  unfold State.endFlush at hstep
  split at hstep
  · obtain ⟨-, hstep⟩ := Option.ite_none_right_eq_some.mp hstep
    cases hstep
    refine h.of_newer hnewer ⟨rfl, rfl⟩ rfl rfl fun f hf => ?_
    cases hf
  · cases hstep

end Flush

section Chunks

variable {env : Env} {s t : State} {i : Nat}

theorem Basic.rotates_opened {batch : Nat} {next : ReopenSystem.Segment} (h : Basic env s)
    (hsize : env.cfg.sealing = none → 28 + env.cfg.blockSize < 2 ^ 32)
    (hstep : s.rotate env batch true true next = some t) :
    Rotates env s t batch (chunkJobs env.cfg.objBlockSize s.wal.records) := by
  have hfits : ∀ r ∈ s.wal.records, r.Fits env.cfg := fun r hr =>
    (h.fits r (List.mem_append_right _ (List.mem_append_left _ hr))).1
  have hjobs : State.segmentJobs env (env.cfg.segment s.wal.timestamp s.wal.records) =
      some (chunkJobs env.cfg.objBlockSize s.wal.records) := by
    unfold State.segmentJobs
    rw [Config.readClosedSegment_segment s.wal.timestamp hsize hfits]
  unfold State.rotate at hstep
  simp only [if_true, hjobs, Option.getD_some] at hstep
  obtain ⟨-, hstep⟩ := Option.ite_none_left_eq_some.mp hstep
  split at hstep
  · cases hstep
    exact ⟨.inr rfl, rfl, rfl, rfl, rfl, rfl, rfl, rfl⟩
  · cases hstep

/-- Of every block the newest record goes on. -/
theorem Moving.rotate {batch : Nat} {next : ReopenSystem.Segment} (h : Moving s)
    (hbasic : Basic env s) (hsize : env.cfg.sealing = none → 28 + env.cfg.blockSize < 2 ^ 32)
    (hstep : s.rotate env batch true true next = some t) :
    Moving t := by
  have hrotates := hbasic.rotates_opened hsize hstep
  have hstore : t.store = s.store := congrArg VB.blockStore hrotates.vb
  have hdata : ∀ r ∈ s.wal.records, r.data ≠ [] := by
    intro r hr
    refine List.ne_nil_of_length_pos ?_
    rw [(hbasic.fits r (List.mem_append_right _ (List.mem_append_left _ hr))).1.data]
    exact env.cfg.blockSize_pos
  have hblocks := hrotates.flatMap_blocks
  rw [flatten_chunkJobs hdata] at hblocks
  have hnewer : s.newer = s.wal.records ++ t.newer := by
    simp only [State.newer, State.unflushed, hrotates.records, hrotates.flush,
      hrotates.writes, List.nil_append]
  have hpacked : ∀ v ∈ s.packed, v ∈ t.packed := by
    intro v hv
    simp only [State.packed, hblocks, hrotates.mapInsert, List.map_append, List.mem_append]
      at hv ⊢
    tauto
  refine ⟨fun v hv => ?_, ?_, ?_⟩
  · have hv' : s.Present v := by
      unfold State.Present State.Appended at hv
      rwa [hstore, hrotates.writers] at hv
    obtain ⟨w, hw, hblock, hle⟩ := h.supplied v hv'
    rcases List.mem_append.mp hw with hw | hw
    · exact ⟨w, List.mem_append_left _ (hpacked w hw), hblock, hle⟩
    · rw [hnewer, List.map_append] at hw
      rcases List.mem_append.mp hw with hw | hw
      · obtain ⟨r, hr, rfl⟩ := List.mem_map.mp hw
        obtain ⟨newest, hnewest, hsame⟩ := exists_mem_sortedBlocks hr
        have hge := (isNewest_of_mem_sortedBlocks hnewest).newest r hr hsame.symm
        refine ⟨newest.version, List.mem_append_left _ ?_, hsame.trans hblock, hle.trans hge⟩
        simp only [State.packed, hblocks, List.map_append, List.mem_append]
        exact .inl (.inr (List.mem_map_of_mem hnewest))
      · exact ⟨w, List.mem_append_right _ hw, hblock, hle⟩
  · exact h.ripe.congr hrotates.mapInsert hstore
  · rw [hrotates.flush]
    exact h.unfailed

theorem Moving.of_carries (h : Moving s) (hcarries : Carries s t)
    (hpacked : ∀ v ∈ s.packed, v ∈ t.packed) :
    Moving t := by
  have hnewer := hcarries.newer_eq
  refine h.of_frame ?_ ?_ ?_ ?_
  · unfold State.Present State.Appended
    rw [hcarries.store, hcarries.writers]
    exact fun _ hv => hv
  · unfold State.upstream
    rw [hnewer]
    exact fun v hv => List.mem_append.mpr ((List.mem_append.mp hv).imp_left (hpacked v))
  · intro m marking hm hmark
    unfold State.Held
    rw [hcarries.store]
    rcases hcarries.marking m hm with hnone | hold
    · rw [hnone] at hmark
      cases hmark
    · exact h.ripe m marking hold hmark
  · rw [hcarries.flush]
    exact h.unfailed

theorem packed_set {u u' : Upload} (hu : s.uploads[i]? = some u)
    (huploads : t.uploads = s.uploads.set i u') (hblocks : u'.blocks = u.blocks)
    (hmap : t.mapInsert = s.mapInsert) :
    ∀ v ∈ s.packed, v ∈ t.packed := by
  unfold State.packed
  rw [huploads, hmap, flatMap_blocks_set hu hblocks]
  exact fun _ hv => hv

theorem Moving.allocate (h : Moving s) (hstep : s.allocate i = some t) :
    Moving t := by
  refine h.of_carries (carries_allocate hstep) ?_
  revert hstep
  fun_cases State.allocate <;> intro hstep <;> cases hstep
  rename_i hu _
  exact packed_set hu rfl rfl rfl

theorem Moving.put {out : Outcome} (h : Moving s) (hok : out.isOk = true)
    (hstep : s.put env i out = some t) :
    Moving t := by
  refine h.of_carries (carries_put hstep) ?_
  unfold State.put at hstep
  split at hstep
  · rename_i hu
    dsimp only at hstep
    rw [if_pos hok] at hstep
    cases hstep
    exact packed_set hu rfl rfl rfl
  · cases hstep

theorem Moving.evict (h : Moving s) (hstep : s.evict i = some t) :
    Moving t := by
  refine h.of_carries (carries_evict hstep) ?_
  revert hstep
  fun_cases State.evict <;> intro hstep <;> cases hstep
  rename_i hu _ _
  exact packed_set hu rfl rfl rfl

theorem Moving.lockMap (h : Moving s) (hstep : s.lockMap i = some t) :
    Moving t := by
  refine h.of_carries (carries_lockMap hstep) ?_
  revert hstep
  fun_cases State.lockMap <;> intro hstep <;> cases hstep
  rename_i batch blocks chunkIndex hmap hu
  obtain ⟨hi, hget⟩ := List.getElem?_eq_some_iff.mp hu
  have hperm := (List.getElem_cons_eraseIdx_perm hi).flatMap_right Upload.blocks
  rw [hget, List.flatMap_cons] at hperm
  intro v hv
  simp only [State.packed, hmap, MapInsert.versions, flatMap_chunkRuns, Option.map_some,
    Option.map_none, Option.getD_some, Option.getD_none, List.map_nil, List.nil_append,
    List.append_nil] at hv ⊢
  have hv' := (hperm.map Block.version).symm.subset hv
  rw [List.map_append] at hv'
  exact List.mem_append.mpr (List.mem_append.mp hv').symm

theorem Moving.unlockMap (h : Moving s) (hstep : s.unlockMap = some t) :
    Moving t := by
  refine h.of_carries (carries_unlockMap hstep) ?_
  revert hstep
  fun_cases State.unlockMap <;> intro hstep <;> cases hstep
  rename_i hmap
  simp only [State.packed, hmap, MapInsert.versions, Option.map_some, Option.map_none,
    Option.getD_some, Option.getD_none, List.map_nil, List.flatMap_nil, List.append_nil]
  exact fun _ hv => hv

end Chunks

section Marking

variable {env : Env} {s t : State}

/-- A step that lets go of replaced versions only. -/
theorem Moving.of_replaced (h : Moving s) (hbasic : Basic env s) (hserial : Serial s)
    (hpresent : ∀ v, t.Present v → s.Present v)
    (hupstream : ∀ v ∈ s.upstream, v ∈ t.upstream ∨ s.replaced v = true)
    (hripe : t.RipeHeld) (hunfailed : ∀ f, t.flush = some f → f.failed = false) :
    Moving t := by
  refine ⟨fun v hv => ?_, hripe, hunfailed⟩
  obtain ⟨w, hw, hblock, hle⟩ := h.supplied v (hpresent v hv)
  refine ⟨w, (hupstream w hw).resolve_right fun hreplaced => ?_, hblock, hle⟩
  have hlt := lt_of_replaced hbasic (hserial.covered w hw) hreplaced (hpresent v hv) hblock
  omega

theorem Moving.insertRun (h : Moving s) (hbasic : Basic env s) (hserial : Serial s)
    (hsettles : settles env s .insertRun = true) (hstep : s.insertRun env = some t) :
    Moving t := by
  obtain ⟨huploads, hstore⟩ := uploads_insertRun hstep
  have hpresent : ∀ v, t.Present v → s.Present v := by
    unfold State.Present State.Appended
    rw [hstore, huploads.writers]
    exact fun _ hv => hv
  have hnewer := huploads.newer_eq
  have hunfailed : ∀ f, t.flush = some f → f.failed = false := by
    rw [huploads.flush]
    exact h.unfailed
  unfold State.insertRun at hstep
  split at hstep
  swap
  · cases hstep
  rename_i batch chunkIndex runStart blocks runs hmap
  -- what is left to enter, with the blocks of this run moved or let go
  have hleft : ∀ marking : Option Marking,
      t.uploads = s.uploads → t.mapInsert = some ⟨batch, chunkIndex, runs, marking⟩ →
      (∀ r ∈ blocks, r.version ∈ ((marking.map Marking.items).getD []).map
        RangeItem.version ∨ s.replaced r.version = true) →
      ∀ v ∈ s.upstream, v ∈ t.upstream ∨ s.replaced v = true := by
    intro marking hup hmap' hblocks v hv
    simp only [State.upstream, State.packed, hnewer, hup, hmap, hmap', MapInsert.versions,
      Option.map_some, Option.getD_some, Option.map_none, Option.getD_none, List.map_nil,
      List.nil_append, List.flatMap_cons, List.map_append, List.mem_append] at hv ⊢
    rcases hv with (hv | hv | hv) | hv
    · exact .inl (.inl (.inl hv))
    · obtain ⟨r, hr, rfl⟩ := List.mem_map.mp hv
      exact (hblocks r hr).imp_left fun hitem => .inl (.inr (.inl hitem))
    · exact .inl (.inl (.inr (.inr hv)))
    · exact .inl (.inr hv)
  dsimp only at hstep
  split at hstep
  · cases hstep
    refine h.of_replaced hbasic hserial hpresent (hleft none rfl rfl fun r hr => ?_) ?_ hunfailed
    · cases hr
    intro m marking hm hmark
    cases hm
    cases hmark
  · rename_i first rest
    cases hstep
    refine h.of_replaced hbasic hserial hpresent (hleft _ rfl rfl ?_) ?_ hunfailed
    · intro r hr
      split
      · rename_i hstale
        simp only [settles, hmap, hstale, Bool.not_true, Bool.false_or, List.all_eq_true]
          at hsettles
        exact .inr (hsettles r hr)
      · have hchain := hserial.chained _ hmap (runStart, first :: rest) List.mem_cons_self
        refine .inl ?_
        rw [Option.map_some, Option.getD_some, Marking.items, List.nil_append,
          version_runItems hchain]
        exact List.mem_map_of_mem hr
    · intro m marking hm hmark
      cases hm
      dsimp only at hmark
      split at hmark
      · cases hmark
      · cases hmark
        intro item hitem
        cases hitem

section Passes

variable {batch chunkIndex offset : Nat} {runs : List (Nat × List Block)} {item : RangeItem}
variable {todo eligible : List RangeItem}

/-- What is on its way while a run is marked. -/
theorem mem_upstream_iff {marking : Marking} {v : Nat × Nat}
    (hmap : s.mapInsert = some ⟨batch, chunkIndex, runs, some marking⟩) :
    v ∈ s.upstream ↔ v ∈ marking.items.map RangeItem.version ∨
      v ∈ State.upstream { s with mapInsert := some ⟨batch, chunkIndex, runs, none⟩ } := by
  simp only [State.upstream, State.packed, State.newer, State.unflushed, hmap, MapInsert.versions,
    Option.map_some, Option.map_none, Option.getD_some, Option.getD_none, List.map_nil,
    List.nil_append, List.mem_append]
  tauto

theorem held_of_eligible (heligible : s.store.eligible item = true) : s.Held item := by
  unfold eligible at heligible
  split at heligible
  · rename_i e he
    simp only [Bool.and_eq_true, beq_iff_eq] at heligible
    exact ⟨e, he, .inl ⟨heligible.2, heligible.1⟩⟩
  · cases heligible

theorem Moving.predict (h : Moving s) (hbasic : Basic env s) (hserial : Serial s)
    (hmap : s.mapInsert =
      some ⟨batch, chunkIndex, runs, some (.predicting offset (item :: todo) eligible)⟩)
    (hsettles : s.store.eligible item = true ∨ s.replaced item.version = true) :
    let found := if s.store.eligible item then eligible ++ [item] else eligible
    Moving { s with
      mapInsert := some ⟨batch, chunkIndex, runs, some (.predicting offset todo found)⟩ } := by
  refine h.of_replaced hbasic hserial (fun _ hv => hv) (fun v hv => ?_) ?_ h.unfailed
  · rw [mem_upstream_iff hmap] at hv
    rw [mem_upstream_iff rfl]
    refine hv.elim (fun hv => ?_) fun hv => .inl (.inr hv)
    simp only [Marking.items, List.map_append, List.map_cons, List.mem_append, List.mem_cons]
      at hv ⊢
    by_cases heligible : s.store.eligible item = true
    · rw [if_pos heligible, List.map_append, List.mem_append, List.map_singleton,
        List.mem_singleton]
      tauto
    · rw [if_neg heligible]
      rcases hv with hv | rfl | hv
      · exact .inl (.inl (.inl hv))
      · exact .inr (hsettles.resolve_left heligible)
      · exact .inl (.inl (.inr hv))
  · rintro _ _ ⟨⟩ ⟨⟩ item' hitem'
    simp only [Marking.ripe] at hitem'
    split at hitem'
    · rename_i heligible
      rcases List.mem_append.mp hitem' with hold | hnew
      · exact h.ripe _ _ hmap rfl item' hold
      · rw [List.mem_singleton.mp hnew]
        exact held_of_eligible heligible
    · exact h.ripe _ _ hmap rfl item' hitem'

theorem Moving.install (h : Moving s) (extents : ExtentIndex)
    (hmap : s.mapInsert = some ⟨batch, chunkIndex, runs, some (.predicting offset [] eligible)⟩) :
    Moving { s.setStore { s.store with persistedExtents := extents } with
      mapInsert := some ⟨batch, chunkIndex, runs, some (.dropping eligible)⟩ } := by
  refine h.of_frame (fun _ hv => hv) (fun v hv => ?_) ?_ h.unfailed
  · rw [mem_upstream_iff hmap] at hv
    rw [mem_upstream_iff rfl]
    rwa [Marking.items, List.append_nil] at hv
  · rintro _ _ ⟨⟩ ⟨⟩ item hitem
    exact h.ripe _ _ hmap rfl item hitem

/-- An entry that is left when an item is dropped is of a newer version. -/
theorem lt_of_present_dropPersisted (hbasic : Basic env s) (hheld : s.Held item) {v : Nat × Nat}
    (hblock : v.1 = item.block)
    (hv : (s.setStore (s.store.dropPersisted item)).Present v) :
    item.seqNum < v.2 := by
  obtain ⟨e, he, hcases⟩ := hheld
  rcases hv with ⟨e', he', hseqNum⟩ | ⟨id, p, rest, blk, n, hwriter, rfl⟩
  · have hkept := lookup_dropPersisted.symm.trans he'
    rw [hblock] at hkept
    split at hkept
    · cases hkept
    · rename_i hineligible
      cases he.symm.trans hkept
      rcases hcases with ⟨heq, hpending⟩ | hlt
      · refine absurd ⟨rfl, ?_⟩ hineligible
        simp [eligible, he, heq, hpending]
      · omega
  · obtain ⟨-, hp, hnew⟩ := hbasic.appended id p rest blk n hwriter
    rw [← hp, show blk.block = item.block from hblock] at hnew
    have hlt := hnew.entry e he
    show item.seqNum < blk.seqNum
    omega

theorem Moving.drop (h : Moving s) (hbasic : Basic env s) (hserial : Serial s)
    (hmap : s.mapInsert = some ⟨batch, chunkIndex, runs, some (.dropping (item :: todo))⟩) :
    Moving { s.setStore (s.store.dropPersisted item) with
      mapInsert := some ⟨batch, chunkIndex, runs, some (.dropping todo)⟩ } := by
  have hripe := h.ripe _ _ hmap rfl
  have hapart : ∀ item' ∈ todo, item'.block ≠ item.block := by
    have hsub : ((item :: todo).map RangeItem.version).Sublist s.packed := by
      simp only [State.packed, hmap, MapInsert.versions, Marking.items, Option.map_some,
        Option.getD_some]
      exact (List.sublist_append_left _ _).trans (List.sublist_append_right _ _)
    have hdistinct := List.pairwise_map.mp (hserial.distinct.sublist hsub)
    exact fun item' hitem' => (List.rel_of_pairwise_cons hdistinct hitem').symm
  refine ⟨fun v hv => ?_, ?_, h.unfailed⟩
  · have hpresent : s.Present v := by
      refine hv.imp_left ?_
      rintro ⟨e, he, hseqNum⟩
      exact ⟨e, (foldl_dropPersisted [item] s.store).2 _ e he, hseqNum⟩
    obtain ⟨w, hw, hblock, hle⟩ := h.supplied v hpresent
    refine ⟨w, ?_, hblock, hle⟩
    rw [mem_upstream_iff hmap] at hw
    rw [mem_upstream_iff rfl]
    refine hw.imp_left fun hw => (List.mem_cons.mp hw).resolve_left ?_
    rintro rfl
    -- the entry that the item supplied is gone
    have hlt := lt_of_present_dropPersisted hbasic (hripe item List.mem_cons_self) hblock.symm hv
    exact absurd hle (Nat.not_le.mpr hlt)
  · rintro _ _ ⟨⟩ ⟨⟩ item' hitem'
    obtain ⟨e', he', hcases'⟩ := hripe item' (List.mem_cons_of_mem _ hitem')
    refine ⟨e', lookup_dropPersisted.trans ((if_neg ?_).trans he'), hcases'⟩
    exact fun hdropped => hapart item' hitem' hdropped.1

end Passes

theorem Moving.mark (h : Moving s) (hbasic : Basic env s) (hserial : Serial s)
    (hsettles : settles env s .mark = true) (hstep : s.mark env = some t) :
    Moving t := by
  revert hstep
  fun_cases State.mark <;> intro hstep <;> cases hstep
  all_goals have hmap := ‹s.mapInsert = _›
  · simp only [settles, hmap, Bool.or_eq_true] at hsettles
    exact h.predict hbasic hserial hmap hsettles
  · exact h.install _ hmap
  · exact h.drop hbasic hserial hmap
  · refine h.of_frame (fun _ hv => hv) (fun v hv => ?_) ?_ h.unfailed
    · exact ((mem_upstream_iff hmap).mp hv).resolve_left List.not_mem_nil
    · rintro _ _ ⟨⟩ ⟨⟩

end Marking

section Steps

variable {env : Env} {s t : State}

theorem Moving.step {act : Act} (h : Moving s) (hbasic : Basic env s) (hserial : Serial s)
    (hsize : env.cfg.sealing = none → 28 + env.cfg.blockSize < 2 ^ 32)
    (hunfailing : unfailing s act = true) (hsettles : settles env s act = true)
    (hstep : step env s act = some t) :
    Moving t := by
  cases act with
  | beginWrite id offset data nearFull => exact h.beginWrite hstep
  | lock id => exact h.lock hstep
  | rmw id ok => exact h.rmw hbasic.memory hstep
  | splice id => exact h.splice hstep
  | reserve id disk backend => exact h.reserve hstep
  | append id => exact h.append hstep
  | publish id => exact h.publish hbasic hstep
  | endWrite id => exact h.endWrite hstep
  | beginFlush draining => exact h.beginFlush hstep
  | appendWAL ok =>
    obtain rfl : ok = true := hunfailing
    exact h.appendWAL hstep
  | markPending => exact h.markPending hstep
  | endFlush => exact h.endFlush hbasic hstep
  | rotate batch draining opened next =>
    obtain ⟨rfl, rfl⟩ := Bool.and_eq_true_iff.mp hunfailing
    exact h.rotate hbasic hsize hstep
  | allocate i => exact h.allocate hstep
  | put i out => exact h.put hunfailing hstep
  | skip i => cases hunfailing
  | evict i => exact h.evict hstep
  | lockMap i => exact h.lockMap hstep
  | insertRun => exact h.insertRun hbasic hserial hsettles hstep
  | mark => exact h.mark hbasic hserial hsettles hstep
  | unlockMap => exact h.unlockMap hstep
  | beginRead _ _ _ | read _ _ | endRead _ | beginDrain | endBatch _ _ | serialiseLive
  | putLive _ _ | saveState _ _ =>
    exact h.of_rests (rests_step hbasic.memory rfl hstep)

theorem drainsOnly_of_unfailing {act : Act} (hunfailing : unfailing s act = true) :
    drainsOnly s act = true := by
  cases act with
  | rotate batch draining opened next =>
    exact (Bool.and_eq_true_iff.mp hunfailing).1
  | _ => rfl

end Steps

end Engine

end Viperblock
