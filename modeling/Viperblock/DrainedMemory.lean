import Viperblock.Upstream

/-!
# Drained blocks leave memory

While nobody writes a drain empties the write buffer, then the log segment, then its
chunks, and when it returns nil nothing is on its way.  As every entry has a record on its
way, none is left then, and every block that was written is found among the extents.
-/

namespace Viperblock

namespace Engine

open BlockMap BlocksToObject GuardedRun UnifiedBlockStore Volume

section Quiet

variable {env : Env} {s t : State}

/-- The step begins a `WriteAt`. -/
def beginsWrite : Act → Bool
  | .beginWrite .. => true
  | _ => false

/-- What a drain has behind it once it is in its phase. -/
def Emptied (s : State) : Option DrainPhase → Prop
  | none | some .started | some .flushing => True
  | some .flushed => s.unflushed = []
  | some (.uploading _) | some .uploaded | some (.saving _) => s.newer = []

/-- Nobody writes, and the drain that is running, if any, began that way.  Once one has
returned nothing is on its way. -/
structure Emptying (returned : Prop) (s : State) : Prop where
  writers : s.writers = ∅
  emptied : Emptied s s.drainPhase
  calm : returned → s.upstream = []

variable {returned : Prop}

theorem emptied_of_newer (hnewer : s.newer = []) (phase : Option DrainPhase) :
    Emptied s phase := by
  have hunflushed : s.unflushed = [] := (List.append_eq_nil_iff.mp hnewer).2
  match phase with
  | none | some .started | some .flushing => trivial
  | some .flushed => exact hunflushed
  | some (.uploading _) | some .uploaded | some (.saving _) => exact hnewer

theorem Emptied.of_subset {phase : Option DrainPhase} (h : Emptied s phase)
    (hnewer : t.newer ⊆ s.newer) (hunflushed : t.unflushed ⊆ s.unflushed) :
    Emptied t phase := by
  match phase with
  | none | some .started | some .flushing => trivial
  | some .flushed => exact List.subset_nil.mp (h ▸ hunflushed)
  | some (.uploading _) | some .uploaded | some (.saving _) =>
    exact List.subset_nil.mp (h ▸ hnewer)

section

variable (h : Emptying returned s)

include h

theorem Emptying.of_subset (hwriters : t.writers = s.writers) (hpacked : t.packed ⊆ s.packed)
    (hnewer : t.newer ⊆ s.newer) (hemptied : Emptied t t.drainPhase) :
    Emptying returned t := by
  refine ⟨hwriters.trans h.writers, hemptied, fun hreturned => ?_⟩
  obtain ⟨hp, hn⟩ := List.append_eq_nil_iff.mp (h.calm hreturned)
  rw [hp] at hpacked
  rw [List.map_eq_nil_iff.mp hn] at hnewer
  unfold State.upstream
  rw [List.subset_nil.mp hpacked, List.subset_nil.mp hnewer]
  rfl

theorem Emptying.of_rests (hrests : Rests s t) (hemptied : Emptied t t.drainPhase) :
    Emptying returned t := by
  refine h.of_subset hrests.writers ?_ ?_ hemptied
  · rw [hrests.packed_eq]
    exact List.Subset.refl _
  · rw [hrests.newer_eq]
    exact List.Subset.refl _

theorem Emptying.of_rests_same (hrests : Rests s t ∧ t.drainPhase = s.drainPhase) :
    Emptying returned t := by
  refine h.of_rests hrests.1 ?_
  rw [hrests.2]
  refine h.emptied.of_subset ?_ ?_
  · rw [hrests.1.newer_eq]
    exact List.Subset.refl _
  · unfold State.unflushed
    rw [hrests.1.flush, hrests.1.writes]
    exact List.Subset.refl _

theorem Emptying.of_rests_newer (hrests : Rests s t) (hnewer : s.newer = []) :
    Emptying returned t :=
  h.of_rests hrests (emptied_of_newer (hrests.newer_eq.trans hnewer) _)

theorem Emptying.of_uploads (hserial : Serial s) (huploads : Uploads s t) :
    Emptying returned t := by
  have hunflushed : t.unflushed = s.unflushed := by
    simp only [State.unflushed, huploads.writes, huploads.flush]
  have hsame : t.newer ⊆ s.newer := by
    rw [huploads.newer_eq]
    exact List.Subset.refl _
  refine h.of_subset huploads.writers (huploads.packed hserial.chained).subset hsame ?_
  unfold State.drainPhase
  rw [huploads.drain]
  refine h.emptied.of_subset hsame ?_
  rw [hunflushed]
  exact List.Subset.refl _

theorem Emptying.beginFlush {draining : Bool} (hstep : s.beginFlush draining = some t) :
    Emptying returned t := by
  have hnewer := (beginFlush_newer hstep).1
  obtain ⟨hflush, drain, rfl, hphase⟩ := beginFlush_eq hstep
  have hsame : State.newer { s with
      flush := some ⟨draining, [], s.writes, false, false⟩, drain := drain } ⊆ s.newer :=
    hnewer ▸ List.Subset.refl _
  refine h.of_subset rfl (List.Subset.refl _) hsame ?_
  rcases hphase with ⟨-, -, hflushing⟩ | ⟨-, rfl⟩
  · rw [State.drainPhase, hflushing]
    trivial
  · refine h.emptied.of_subset hsame ?_
    simp only [State.unflushed, hflush]
    exact List.Subset.refl _

theorem Emptying.appendWAL {ok : Bool} (hstep : s.appendWAL ok = some t) :
    Emptying returned t := by
  have hnewer : t.newer ⊆ s.newer := by
    rw [(appendWAL_newer hstep).1]
    exact List.Subset.refl _
  revert hstep
  fun_cases State.appendWAL <;> intro hstep <;> cases hstep
  all_goals
    refine h.of_subset rfl (List.Subset.refl _) hnewer (h.emptied.of_subset hnewer ?_)
    simp only [State.unflushed, ‹s.flush = _›]
  · exact List.subset_cons_self _ _
  · exact List.Subset.refl _

theorem Emptying.markPending (hstep : s.markPending = some t) :
    Emptying returned t := by
  have hnewer : t.newer ⊆ s.newer := by
    rw [(markPending_newer hstep).1]
    exact List.Subset.refl _
  revert hstep
  fun_cases State.markPending <;> intro hstep <;> cases hstep
  rename_i hflush _ _
  refine h.of_subset rfl (List.Subset.refl _) hnewer (h.emptied.of_subset hnewer ?_)
  simp only [State.unflushed, hflush]
  exact List.Subset.refl _

theorem Emptying.endFlush (hbasic : Basic env s) (hmoving : Moving s) (hserial : Serial s)
    (hstep : s.endFlush = some t) :
    Emptying returned t := by
  obtain ⟨ht, hs, hwal⟩ := endFlush_unflushed hbasic hmoving hstep
  have hnewer : t.newer ⊆ s.newer := by
    rw [State.newer, ht, hwal, State.newer, hs]
    exact List.Subset.refl _
  unfold State.endFlush at hstep
  split at hstep
  swap
  · cases hstep
  rename_i draining flushed rest failed hflush
  obtain rfl : failed = false := hmoving.unfailed _ hflush
  obtain ⟨-, hstep⟩ := Option.ite_none_right_eq_some.mp hstep
  cases hstep
  refine h.of_subset rfl (List.Subset.refl _) hnewer ?_
  cases draining with
  | false =>
    refine h.emptied.of_subset hnewer ?_
    rw [ht]
    exact List.nil_subset _
  | true =>
    have hphase := hserial.flushing _ hflush rfl
    obtain ⟨d, hd, -⟩ := Option.map_eq_some_iff.mp hphase
    simp only [State.drainPhase, hd, if_true, Bool.false_eq_true, if_false, Option.map_some]
    exact ht

theorem Emptying.rotate {batch : Nat} {opened : Bool} {next : ReopenSystem.Segment}
    (hbasic : Basic env s) (hstep : s.rotate env batch true opened next = some t) :
    Emptying returned t := by
  obtain ⟨jobs, hrotates, hdrain⟩ := hbasic.rotates hstep
  obtain ⟨hbefore, -⟩ := hdrain rfl
  have hunflushed := h.emptied
  rw [hbefore] at hunflushed
  have hnewer : t.newer = [] := by
    rw [State.newer, hrotates.records, State.unflushed, hrotates.flush, hrotates.writes]
    exact hunflushed
  refine ⟨hrotates.writers.trans h.writers, emptied_of_newer hnewer _, fun hreturned => ?_⟩
  obtain ⟨hpacked, hn⟩ := List.append_eq_nil_iff.mp (h.calm hreturned)
  have hrecords := (List.append_eq_nil_iff.mp (List.map_eq_nil_iff.mp hn)).1
  have hjobs : jobs = [] := by
    rcases hrotates.packs with hjobs | hjobs
    · exact hjobs
    · rw [hjobs, hrecords]
      rfl
  have huploads : t.uploads = s.uploads := by
    rw [hrotates.uploads, hjobs]
    exact List.append_nil _
  have hsame : t.packed = s.packed := by
    rw [State.packed, huploads, hrotates.mapInsert]
    rfl
  rw [State.upstream, hsame, hpacked, hnewer]
  rfl

theorem Emptying.step {act : Act} (hbasic : Basic env s) (hserial : Serial s) (hmoving : Moving s)
    (hunfailing : unfailing s act = true) (hquiet : beginsWrite act = false)
    (hstep : step env s act = some t) :
    Emptying returned t := by
  have hnobody : ∀ id w, s.writers.lookup id ≠ some w := by
    intro id w hw
    rw [h.writers, AList.lookup_empty] at hw
    cases hw
  cases act with
  | beginWrite id offset data nearFull => cases hquiet
  | lock id | rmw id | splice id | reserve id | append id | publish id | endWrite id =>
    simp only [Engine.step, State.lock, State.rmw, State.splice, State.reserve, State.append,
      State.publish, State.endWrite] at hstep
    split at hstep
    · exact absurd ‹s.writers.lookup _ = some _› (hnobody _ _)
    · cases hstep
  | beginRead _ _ _ | read _ _ | endRead _ | saveState _ _ =>
    exact h.of_rests_same ⟨rests_step hbasic.memory rfl hstep,
      (idle_step hbasic.memory rfl hstep).2⟩
  | beginFlush draining => exact h.beginFlush hstep
  | appendWAL ok => exact h.appendWAL hstep
  | markPending => exact h.markPending hstep
  | endFlush => exact h.endFlush hbasic hmoving hserial hstep
  | beginDrain =>
    refine h.of_rests (rests_beginDrain hstep).1 ?_
    simp only [Engine.step, State.beginDrain] at hstep
    split at hstep
    · cases hstep
    · cases hstep
      trivial
  | rotate batch draining opened next =>
    obtain ⟨rfl, rfl⟩ := Bool.and_eq_true_iff.mp hunfailing
    exact h.rotate hbasic hstep
  | allocate _ | put _ _ | skip _ | evict _ | lockMap _ | unlockMap =>
    exact h.of_uploads hserial (carries_step rfl hstep).toUploads
  | insertRun => exact h.of_uploads hserial (uploads_insertRun hstep).1
  | mark => exact h.of_uploads hserial (uploads_mark hstep).1
  | endBatch batch noSpace =>
    obtain ⟨hrests, hphase | ⟨hphase, -⟩⟩ := rests_endBatch hstep
    · exact h.of_rests_same ⟨hrests, hphase⟩
    · have hnewer := h.emptied
      rw [hphase] at hnewer
      exact h.of_rests_newer hrests hnewer
  | serialiseLive =>
    obtain ⟨hrests, hphase⟩ := rests_serialiseLive hstep
    have hnewer := h.emptied
    rw [hphase] at hnewer
    exact h.of_rests_newer hrests hnewer
  | putLive out noSpace =>
    obtain ⟨hrests, records, hphase⟩ := rests_putLive hstep
    have hnewer := h.emptied
    rw [hphase] at hnewer
    exact h.of_rests_newer hrests hnewer

end

/-- The step with which `DrainToBackend` returns nil: the map has not changed since it was
saved, or it is saved. -/
def returnsNil : State → Act → Bool
  | s, .serialiseLive => !s.volume.vb.dirty
  | _, .putLive out _ => out.isOk
  | _, _ => false

/-- When a drain returns nil nothing is on its way. -/
theorem Emptying.returns {act : Act} (h : Emptying returned s) (hserial : Serial s)
    (hreturns : returnsNil s act = true) (hstep : Engine.step env s act = some t) :
    Emptying True t := by
  have hreturned : Rests s t → s.newer = [] → (∀ b, s.drainPhase ≠ some (.uploading b)) →
      Emptying True t := by
    intro hrests hnewer hphase
    obtain ⟨huploads, hmap⟩ := hserial.nothing_packed hphase
    refine ⟨hrests.writers.trans h.writers,
      emptied_of_newer (hrests.newer_eq.trans hnewer) _, fun _ => ?_⟩
    rw [State.upstream, hrests.newer_eq, hrests.packed_eq, hnewer, State.packed, huploads, hmap]
    rfl
  have hemptied := h.emptied
  cases act with
  | serialiseLive =>
    obtain ⟨hrests, hphase⟩ := rests_serialiseLive hstep
    rw [hphase] at hemptied
    exact hreturned hrests hemptied fun b => by simp [hphase]
  | putLive out noSpace =>
    obtain ⟨hrests, records, hphase⟩ := rests_putLive hstep
    rw [hphase] at hemptied
    exact hreturned hrests hemptied fun b => by simp [hphase]
  | _ => cases hreturns

end Quiet

section Placed

variable {env : Env} {s t : State} {id : Nat} {old : Nat → Prop}

/-- The block store has the block, in memory or on the backend. -/
def State.Holds (s : State) (block : Nat) : Prop :=
  (s.store.entries.lookup block).isSome ∨ (located s block).isSome

/-- What was written stays known, and an entry is dropped when the extents have its
block. -/
structure Placed (old : Nat → Prop) (s : State) : Prop where
  extents : s.store.persistedExtents.WellFormed
  holds : ∀ block, old block ∨ block ∈ s.published.map (·.block) → s.Holds block
  dropping : ∀ m todo, s.mapInsert = some m → m.marking = some (.dropping todo) →
    ∀ item ∈ todo, (located s item.block).isSome

theorem published_of_step {act : Act} (hact : ∀ id, act ≠ .publish id)
    (hstep : step env s act = some t) :
    t.published = s.published := by
  cases act with
  | publish id => exact absurd rfl (hact id)
  | _ =>
    simp only [step, State.beginWrite, State.lock, State.rmw, State.splice, State.reserve,
      State.append, State.endWrite, State.beginRead, State.read, State.endRead,
      State.beginFlush, State.appendWAL, State.markPending, State.endFlush, State.beginDrain,
      State.rotate, State.allocate, State.put, State.skip, State.evict, State.lockMap,
      State.insertRun, State.mark, State.unlockMap, State.endBatch, State.serialiseLive,
      State.putLive, State.saveState] at hstep
    repeat' split at hstep
    all_goals cases hstep <;> rfl

section

variable (h : Placed old s)

include h

section

variable (hpublished : t.published = s.published)

include hpublished

theorem Placed.of_frame (hextents : t.store.persistedExtents = s.store.persistedExtents)
    (hentries : ∀ block, (s.store.entries.lookup block).isSome →
      (t.store.entries.lookup block).isSome)
    (hmarking : ∀ m todo, t.mapInsert = some m → m.marking = some (.dropping todo) →
      s.mapInsert = some m) :
    Placed old t := by
  have hlocated : ∀ block, located t block = located s block := by
    intro block
    unfold located
    rw [hextents]
  refine ⟨hextents ▸ h.extents, fun block hblock => ?_, fun m todo hm hmark item hitem => ?_⟩
  · rw [hpublished] at hblock
    refine (h.holds block hblock).imp (hentries block) ?_
    rw [hlocated]
    exact fun hsome => hsome
  · rw [hlocated]
    exact h.dropping m todo (hmarking m todo hm hmark) hmark item hitem

theorem Placed.of_store (hstore : t.store = s.store)
    (hmarking : ∀ m todo, t.mapInsert = some m → m.marking = some (.dropping todo) →
      s.mapInsert = some m) :
    Placed old t := by
  refine h.of_frame hpublished (congrArg _ hstore) (fun block => ?_) hmarking
  rw [hstore]
  exact fun hsome => hsome

theorem Placed.of_idle (hidle : Idle s t) :
    Placed old t := by
  refine h.of_store hpublished hidle.store ?_
  rw [hidle.mapInsert]
  exact fun _ _ hm _ => hm

theorem Placed.of_carries (hcarries : Carries s t) :
    Placed old t := by
  refine h.of_store hpublished hcarries.store fun m todo hm hmark => ?_
  refine (hcarries.marking m hm).resolve_left fun hnone => ?_
  rw [hnone] at hmark
  cases hmark

end

theorem Placed.publish (hbasic : Basic env s) :
    s.publish id = some t → Placed old t := by
  fun_cases State.publish <;> rintro ⟨⟩
  rename_i p todo blk n hw _
  obtain ⟨hblock, hnew, hlookup⟩ := hbasic.published hw
  refine ⟨h.extents, fun block hold => ?_, h.dropping⟩
  rw [List.map_append, List.mem_append, ← or_assoc] at hold
  by_cases hsame : block = blk.block
  · refine .inl (Option.isSome_iff_exists.mpr ⟨_, (hlookup block).trans (if_pos hsame)⟩)
  · have hbefore := hold.resolve_right fun hlast =>
      hsame ((List.mem_singleton.mp hlast).trans hblock.symm)
    refine (h.holds block hbefore).imp_left fun hsome => ?_
    obtain ⟨e, he⟩ := Option.isSome_iff_exists.mp hsome
    exact Option.isSome_iff_exists.mpr ⟨e, (hlookup block).trans ((if_neg hsame).trans he)⟩

section

variable (hpublished : t.published = s.published)

include hpublished

theorem Placed.markPending :
    s.markPending = some t → Placed old t := by
  fun_cases State.markPending <;> rintro ⟨⟩
  rename_i b hlast
  refine h.of_frame hpublished ?_ (fun block hsome => ?_) fun _ _ hm _ => hm
  · exact persistedExtents_markPending _ _
  · obtain ⟨e, he⟩ := Option.isSome_iff_exists.mp hsome
    have hkept : ∃ e', (s.store.markPending b.block).entries.lookup block = some e' ∧
        e'.seqNum = e.seqNum := lookup_markPending_of_some he
    obtain ⟨e', he', -⟩ := hkept
    exact Option.isSome_iff_exists.mpr ⟨e', he'⟩

theorem Placed.insertRun (hstep : s.insertRun env = some t) :
    Placed old t := by
  refine h.of_store hpublished (uploads_insertRun hstep).2 fun m todo hm hmark => ?_
  -- a run that was just entered is looked at first
  revert hstep
  fun_cases State.insertRun <;> intro hstep <;> cases hstep <;> cases hm
  · cases hmark
  · dsimp +zetaDelta only at hmark
    split at hmark <;> cases hmark

theorem Placed.mark (hstep : s.mark env = some t) :
    Placed old t := by
  revert hstep
  fun_cases State.mark <;> intro hstep <;> cases hstep
  · exact h.of_store hpublished rfl (by rintro _ _ ⟨⟩ ⟨⟩)
  · rename_i batch chunkIndex runs offset eligible hmap _
    obtain ⟨hwf, hblocks⟩ := installRuns_cases chunkIndex offset
      env.cfg.blockStride h.extents eligible
    refine ⟨hwf, fun block hblock => ?_, fun m todo hm hmark item hitem => ?_⟩
    · refine (h.holds block hblock).imp_right fun hsome => ?_
      rcases hblocks block with ⟨item, -, -, hlocate⟩ | ⟨-, hlocate⟩
      · exact Option.isSome_iff_exists.mpr ⟨_, hlocate⟩
      · exact (congrArg Option.isSome hlocate).trans hsome
    · cases hm
      obtain rfl := Marking.dropping.inj (Option.some.inj hmark)
      rcases hblocks item.block with ⟨item', -, -, hlocate⟩ | ⟨hnone, -⟩
      · exact Option.isSome_iff_exists.mpr ⟨_, hlocate⟩
      · exact absurd rfl (hnone item hitem)
  · rename_i batch chunkIndex runs item todo hmap
    have hdropping := h.dropping _ _ hmap rfl
    have hextents := persistedExtents_dropPersisted s.store item
    refine ⟨hextents.symm ▸ h.extents, fun block hblock => ?_, ?_⟩
    · have hlookup : (s.store.dropPersisted item).entries.lookup block = _ :=
        lookup_dropPersisted
      unfold State.Holds located
      by_cases hdropped : block = item.block ∧ s.store.eligible item = true
      · refine .inr ((congrArg Option.isSome (locate_dropPersisted block)).trans ?_)
        rw [hdropped.1]
        exact hdropping item List.mem_cons_self
      · rw [if_neg hdropped] at hlookup
        refine (h.holds block hblock).imp (fun hsome => ?_) fun hsome => ?_
        · exact (congrArg Option.isSome hlookup).trans hsome
        · exact (congrArg Option.isSome (locate_dropPersisted block)).trans hsome
    · intro m todo' hm hmark item' hitem'
      cases hm
      obtain rfl := Marking.dropping.inj (Option.some.inj hmark)
      exact (congrArg Option.isSome (locate_dropPersisted item'.block)).trans
        (hdropping item' (List.mem_cons_of_mem _ hitem'))
  · exact h.of_store hpublished rfl (by rintro _ _ ⟨⟩ ⟨⟩)

end

theorem Placed.step {act : Act} (hbasic : Basic env s) (hstep : step env s act = some t) :
    Placed old t := by
  have hsame : (∀ id, act ≠ .publish id) → t.published = s.published :=
    fun hact => published_of_step hact hstep
  cases act with
  | append id =>
    have hpublished := hsame (by simp)
    simp only [Engine.step, State.append] at hstep
    split at hstep
    · cases hstep
      exact h.of_store hpublished rfl fun _ _ hm _ => hm
    · cases hstep
  | publish id => exact h.publish hbasic hstep
  | beginFlush draining =>
    have hpublished := hsame (by simp)
    simp only [Engine.step, State.beginFlush] at hstep
    repeat' split at hstep
    all_goals cases hstep <;> exact h.of_store hpublished rfl fun _ _ hm _ => hm
  | appendWAL ok =>
    have hpublished := hsame (by simp)
    simp only [Engine.step, State.appendWAL] at hstep
    repeat' split at hstep
    all_goals cases hstep <;> exact h.of_store hpublished rfl fun _ _ hm _ => hm
  | markPending => exact h.markPending (hsame (by simp)) hstep
  | endFlush =>
    have hpublished := hsame (by simp)
    simp only [Engine.step, State.endFlush] at hstep
    split at hstep
    · obtain ⟨-, hstep⟩ := Option.ite_none_right_eq_some.mp hstep
      cases hstep
      exact h.of_store hpublished rfl fun _ _ hm _ => hm
    · cases hstep
  | rotate batch draining opened next =>
    obtain ⟨jobs, hrotates, -⟩ := hbasic.rotates hstep
    refine h.of_store (hsame (by simp)) (congrArg VB.blockStore hrotates.vb) ?_
    rw [hrotates.mapInsert]
    exact fun _ _ hm _ => hm
  | insertRun => exact h.insertRun (hsame (by simp)) hstep
  | mark => exact h.mark (hsame (by simp)) hstep
  | beginWrite _ _ _ _ | lock _ | rmw _ _ | splice _ | reserve _ _ _ | endWrite _ =>
    exact h.of_idle (hsame (by simp)) (idle_step hbasic.memory rfl hstep).1
  | beginRead _ _ _ | read _ _ | endRead _ | beginDrain | endBatch _ _ | serialiseLive
  | putLive _ _ | saveState _ _ =>
    exact h.of_idle (hsame (by simp)) (rests_step hbasic.memory rfl hstep).toIdle
  | allocate _ | put _ _ | skip _ | evict _ | lockMap _ | unlockMap =>
    exact h.of_carries (hsame (by simp)) (carries_step rfl hstep)

end

end Placed

section Runs

open ReopenSystem (created firstState openRun openVolume)

variable {env : Env} {v : Volume} {s t u : State}

/-- What every step of such a run keeps. -/
structure Settled (env : Env) (old : Nat → Prop) (s : State) : Prop where
  basic : Basic env s
  serial : Serial s
  moving : Moving s
  placed : Placed old s

/-- No step fails, and what is marked or held back is pending or replaced. -/
def settling (env : Env) (s : State) (act : Act) : Bool :=
  unfailing s act && settles env s act

theorem Settled.step {old : Nat → Prop} {act : Act} (h : Settled env old s)
    (hsize : env.cfg.sealing = none → 28 + env.cfg.blockSize < 2 ^ 32)
    (hsettling : settling env s act = true) (hstep : step env s act = some t) :
    Settled env old t := by
  obtain ⟨hunfailing, hsettles⟩ := Bool.and_eq_true_iff.mp hsettling
  exact ⟨h.basic.step hstep, h.serial.step h.basic (drainsOnly_of_unfailing hunfailing) hstep,
    h.moving.step h.basic h.serial hsize hunfailing hsettles hstep,
    h.placed.step h.basic hstep⟩

theorem settled_opened (hopened : Opened env.cfg v) (wal : ReopenSystem.Segment) :
    Settled env (fun block => (located (State.opened v wal) block).isSome)
      (State.opened v wal) := by
  have hnone : ∀ block e, (State.opened v wal).store.entries.lookup block ≠ some e := by
    intro block e he
    have he' : v.vb.blockStore.entries.lookup block = some e := he
    rw [hopened.entries, AList.lookup_empty] at he'
    cases he'
  refine ⟨basic_opened hopened.entries wal, serial_opened v wal, ⟨?_, nofun, nofun⟩,
    ⟨hopened.extents, fun block hblock => .inr (hblock.resolve_right nofun), nofun⟩⟩
  rintro version (⟨e, he, -⟩ | ⟨id, p, todo, blk, n, hw, -⟩)
  · exact absurd he (hnone _ e)
  · cases hw

/-- From a state in which nobody writes or drains, a drain runs and returns nil, and
until then and after it no write begins. -/
def QuietDrain (env : Env) (allowed : State → Act → Bool) (s u : State) : Prop :=
  s.writers = ∅ ∧ s.drain = none ∧ ∃ before w act x after,
    Run (step env) (fun s act => allowed s act && !beginsWrite act) s before w ∧
    returnsNil w act = true ∧ step env w act = some x ∧
    Run (step env) (fun s act => allowed s act && !beginsWrite act) x after u

/-- Nothing is hot or pending, and every block that was written since `first` or had a
place then is persisted. -/
def AllPersisted (first u : State) : Prop :=
  (∀ block entry, u.store.entries.lookup block = some entry →
    entry.state ≠ .hot ∧ entry.state ≠ .pending) ∧
  ∀ block, (located first block).isSome ∨ block ∈ u.published.map (·.block) →
    (u.store.readEntry block).map BlockEntry.state = some .persisted

/-- Nothing stays in memory once nothing is on its way. -/
theorem Moving.entries_empty (h : Moving s) (hcalm : s.upstream = []) (block : Nat) :
    s.store.entries.lookup block = none := by
  cases he : s.store.entries.lookup block with
  | none => rfl
  | some e =>
    obtain ⟨w, hw, -⟩ := h.supplied (block, e.seqNum) (.inl ⟨e, he, rfl⟩)
    rw [hcalm] at hw
    cases hw

theorem Settled.allPersisted {first : State}
    (h : Settled env (fun block => (located first block).isSome) u) (hcalm : u.upstream = []) :
    AllPersisted first u := by
  have hempty := h.moving.entries_empty hcalm
  refine ⟨fun block entry he => ?_, fun block hblock => ?_⟩
  · rw [hempty] at he
    cases he
  · have hlocated := (h.placed.holds block hblock).resolve_left (by simp [hempty block])
    obtain ⟨loc, hloc⟩ := Option.isSome_iff_exists.mp hlocated
    unfold readEntry
    rw [hempty block]
    dsimp only
    rw [readPersisted_eq h.placed.extents]
    unfold located at hloc
    rw [hloc]
    rfl

/-- In a run without failures in which every version is pending or replaced when its run
is marked or held back, a drain that begins when nobody writes leaves nothing hot or
pending. -/
theorem allPersisted_of_quietDrain {d : ReopenSystem.Disks} {n : Nat} {run : ReopenSystem.OpenRun}
    {wal : ReopenSystem.Segment} {acts : List Act}
    (hsize : env.cfg.sealing = none → 28 + env.cfg.blockSize < 2 ^ 32)
    (hoffset : ∀ records, ReopenSystem.Saved d records → ∀ rec ∈ records, rec.objectOffset < 2 ^ 32)
    (hopen : openVolume env.cfg d n run = (v, true))
    (hrun : Run (step env) (fun s act => settling env s act) (State.opened v wal) acts s)
    (hdrain : QuietDrain env (settling env) s u) :
    AllPersisted (State.opened v wal) u := by
  have hsettled := hrun.preserves
    (fun _ _ _ h hallowed hstep => h.step hsize hallowed hstep)
    (settled_opened (opened_openVolume hoffset hopen) wal)
  obtain ⟨hwriters, hnone, before, w, act, x, after, hbefore, hreturns, hreturn, hafter⟩ :=
    hdrain
  have hquiet : ∀ returned s act t,
      Settled env (fun block => (located (State.opened v wal) block).isSome) s ∧
        Emptying returned s →
      (settling env s act && !beginsWrite act) = true → step env s act = some t →
      Settled env (fun block => (located (State.opened v wal) block).isSome) t ∧
        Emptying returned t := by
    rintro returned s act t ⟨h, hemptying⟩ hallowed hstep
    obtain ⟨hsettling, hbegins⟩ := Bool.and_eq_true_iff.mp hallowed
    rw [Bool.not_eq_true'] at hbegins
    exact ⟨h.step hsize hsettling hstep, hemptying.step h.basic h.serial h.moving
      (Bool.and_eq_true_iff.mp hsettling).1 hbegins hstep⟩
  have hphase : s.drainPhase = none := by
    rw [State.drainPhase, hnone]
    rfl
  obtain ⟨hw, hemptying⟩ := hbefore.preserves (hquiet False)
    ⟨hsettled, hwriters, hphase ▸ trivial, False.elim⟩
  -- the step that returns marks nothing and appends nothing
  have hsettling : settling env w act = true := by
    cases act with
    | serialiseLive | putLive => rfl
    | _ => cases hreturns
  obtain ⟨hu, hcalm⟩ := hafter.preserves (hquiet True)
    ⟨hw.step hsize hsettling hreturn, hemptying.returns hw.serial hreturns hreturn⟩
  exact hu.allPersisted (hcalm.calm trivial)

theorem exists_quietDrain_of_exec (env : Env) (allowed : State → Act → Bool) (s : State)
    (acts before : List Act) (act : Act) (p : State → Bool)
    (hexec : (exec (step env) (fun s act => allowed s act = true) s acts).any (fun s =>
      s.writers.entries.isEmpty && s.drain.isNone && (exec (step env) (fun s act => (allowed s act
      && !beginsWrite act) = true) s before).any fun w => returnsNil w act && (step env w act).any
      p) = true) :
    ∃ t u, Run (step env) (fun s act => allowed s act) s acts t ∧
      QuietDrain env allowed t u ∧ p u = true := by
  obtain ⟨t, hrun, ht⟩ := Run.exists_of_exec _ _ _ _ _ hexec
  obtain ⟨hidle, hbefore⟩ := Bool.and_eq_true_iff.mp ht
  obtain ⟨hwriters, hdrain⟩ := Bool.and_eq_true_iff.mp hidle
  obtain ⟨w, hrun', hw⟩ := Run.exists_of_exec _ _ _ _ _ hbefore
  obtain ⟨hreturns, hreturn⟩ := Bool.and_eq_true_iff.mp hw
  obtain ⟨u, hu, hp⟩ := (Option.any_eq_true _ _).mp hreturn
  exact ⟨t, u, hrun, ⟨AList.ext (List.isEmpty_iff.mp hwriters),
    Option.isNone_iff_eq_none.mp hdrain, before, w, act, u, [], hrun', hreturns, hu,
    Run.nil u⟩, hp⟩

/-- A write of two blocks. -/
def writeTwo : List Act :=
  [.beginWrite 0 0 [7, 8] false, .lock 0, .reserve 0 .ok .ok, .append 0, .publish 0, .lock 0,
    .reserve 0 .ok .ok, .append 0, .publish 0, .endWrite 0]

/-- A drain of them, up to the save of the checkpoint. -/
def drainBoth : List Act :=
  [.beginDrain, .beginFlush true, .appendWAL true, .markPending, .appendWAL true, .markPending,
    .endFlush, .rotate 0 true true ⟨"wal.00000001.bin", 0, []⟩, .allocate 0, .put 0 .ok,
    .evict 0, .lockMap 0, .insertRun, .mark, .mark, .mark, .mark, .mark, .mark, .unlockMap,
    .endBatch 0 false, .serialiseLive]

/-- A volume of four blocks of one byte. -/
def tinyEnv : Env := plainEnv Config.tiny 4 (by decide)

/-- The volume as it is opened for the first time. -/
def tinyVolume : Volume := (openVolume Config.tiny (created firstState).disks 0 openRun).1

theorem opens_tinyVolume :
    openVolume Config.tiny (created firstState).disks 0 openRun = (tinyVolume, true) := by
  refine Prod.ext rfl ?_
  decide +kernel

/-- The two blocks are persisted. -/
theorem writeTwo_allPersisted :
    ∃ s u, Run (step tinyEnv) (fun s act => settling tinyEnv s act)
        (State.opened tinyVolume openRun.segment) writeTwo s ∧
      QuietDrain tinyEnv (settling tinyEnv) s u ∧ u.published.map (·.block) = [0, 1] ∧
      AllPersisted (State.opened tinyVolume openRun.segment) u := by
  obtain ⟨s, u, hrun, hdrain, hu⟩ := exists_quietDrain_of_exec tinyEnv (settling tinyEnv)
    (State.opened tinyVolume openRun.segment) writeTwo drainBoth (.putLive .ok false)
    (fun u => u.published.map (·.block) == [0, 1]) (by decide +kernel)
  exact ⟨s, u, hrun, hdrain, beq_iff_eq.mp hu, allPersisted_of_quietDrain
    (fun _ => by decide) (fun records hsaved => absurd hsaved (not_saved_created records))
    opens_tinyVolume hrun hdrain⟩

/-- A write is flushed, uploaded and marked between its append and its publication. -/
def drainUnpublished : List Act :=
  [.beginWrite 0 0 [7] false, .lock 0, .reserve 0 .ok .ok, .append 0, .beginDrain,
    .beginFlush true, .appendWAL true, .markPending, .endFlush,
    .rotate 0 true true ⟨"wal.00000001.bin", 0, []⟩, .allocate 0, .put 0 .ok, .evict 0,
    .lockMap 0, .insertRun, .mark, .mark, .mark, .unlockMap, .endBatch 0 false, .serialiseLive,
    .putLive .ok false, .publish 0, .endWrite 0]

/-- A drain takes the record of a flush that has not marked its entry as pending yet. -/
def drainUnmarked : List Act :=
  [.beginDrain, .beginFlush true, .endFlush, .beginWrite 0 0 [7] false, .lock 0,
    .reserve 0 .ok .ok, .append 0, .publish 0, .endWrite 0, .beginFlush false, .appendWAL true,
    .rotate 0 true true ⟨"wal.00000001.bin", 0, []⟩, .allocate 0, .put 0 .ok, .evict 0,
    .lockMap 0, .insertRun, .mark, .mark, .mark, .unlockMap, .endBatch 0 false, .serialiseLive,
    .putLive .ok false, .markPending, .endFlush]

/-- A drain that finds nothing to do. -/
def drainNothing : List Act :=
  [.beginDrain, .beginFlush true, .endFlush,
    .rotate 1 true true ⟨"wal.00000002.bin", 0, []⟩, .endBatch 1 false]

theorem not_allPersisted {first : State} {block : Nat}
    (hentry : (u.store.entries.lookup block).any (fun e => e.state == .hot || e.state == .pending)
      = true) :
    ¬ AllPersisted first u := by
  obtain ⟨e, he, hstate⟩ := (Option.any_eq_true _ _).mp hentry
  intro hall
  have hnot := hall.1 block e he
  rw [Bool.or_eq_true, beq_iff_eq, beq_iff_eq] at hstate
  exact hstate.elim hnot.1 hnot.2

/-- The entry of a block that was marked too early stays, hot or pending. -/
theorem not_allPersisted_of_early_mark :
    (∃ s u, Run (step tinyEnv) (fun s act => unfailing s act)
        (State.opened tinyVolume openRun.segment) drainUnpublished s ∧
      QuietDrain tinyEnv unfailing s u ∧
      ¬ AllPersisted (State.opened tinyVolume openRun.segment) u) ∧
    ∃ s u, Run (step tinyEnv) (fun s act => unfailing s act)
        (State.opened tinyVolume openRun.segment) drainUnmarked s ∧
      QuietDrain tinyEnv unfailing s u ∧
      ¬ AllPersisted (State.opened tinyVolume openRun.segment) u := by
  constructor
  · obtain ⟨s, u, hrun, hdrain, hu⟩ := exists_quietDrain_of_exec tinyEnv unfailing
      (State.opened tinyVolume openRun.segment) drainUnpublished drainNothing .serialiseLive
      (fun u => (u.store.entries.lookup 0).any fun e => e.state == .hot || e.state == .pending)
      (by decide +kernel)
    exact ⟨s, u, hrun, hdrain, not_allPersisted hu⟩
  · obtain ⟨s, u, hrun, hdrain, hu⟩ := exists_quietDrain_of_exec tinyEnv unfailing
      (State.opened tinyVolume openRun.segment) drainUnmarked drainNothing .serialiseLive
      (fun u => (u.store.entries.lookup 0).any fun e => e.state == .hot || e.state == .pending)
      (by decide +kernel)
    exact ⟨s, u, hrun, hdrain, not_allPersisted hu⟩

end Runs

end Engine

end Viperblock
