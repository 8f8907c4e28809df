import Viperblock.Engine
import Viperblock.ReopenSessions

/-!
# What is on its way to the backend

The versions of blocks between `WriteAt` and the block map: those still in the write
buffer, those in the log segment, and those in chunks that are being uploaded.  The
lock of a block makes its versions appear in the buffer in the order of their numbers,
and a flush keeps that order.
-/

namespace Viperblock

namespace Engine

open GuardedRun BlockMap BlocksToObject Volume
open ReopenSystem (SmallChunks)

namespace State

/-- What is in the buffer and not in the log. -/
def unflushed (s : State) : List Block :=
  match s.flush with
  | none => s.writes
  | some f => f.rest

/-- The versions that are not packed into chunks yet. -/
def newer (s : State) : List Block := s.wal.records ++ s.unflushed

/-- The versions in chunks that are not in the block map yet. -/
def older (s : State) : List Block :=
  s.uploads.flatMap Upload.blocks ++ match s.mapInsert with
    | none => []
    | some m => m.runs.flatMap Prod.snd

end State

section Patches

variable {blockSize offset : Nat} {data : Bytes} {p : Patch}

/-- A patch stays inside its block. -/
def Patch.Inside (blockSize : Nat) (p : Patch) : Prop :=
  p.start + p.bytes.length ≤ blockSize

theorem inside_of_mem_patches (hpos : 0 < blockSize) (hp : p ∈ patches blockSize offset data) :
    p.Inside blockSize := by
  obtain ⟨i, -, rfl⟩ := List.mem_map.mp hp
  have hoffset : offset < (offset / blockSize + 1) * blockSize :=
    Nat.lt_mul_of_div_lt (Nat.lt_succ_self _) hpos
  have hstart : offset / blockSize * blockSize ≤ (offset / blockSize + i) * blockSize :=
    Nat.mul_le_mul_right _ (Nat.le_add_right _ _)
  rw [Nat.add_one_mul] at hoffset
  simp only [Patch.Inside, List.length_take, List.length_drop]
  split <;> omega

theorem block_of_mem_patches (hdata : data ≠ []) (hp : p ∈ patches blockSize offset data) :
    p.block < offset + data.length := by
  obtain ⟨i, hi, rfl⟩ := List.mem_map.mp hp
  have hlt := List.mem_range.mp hi
  have hle : (offset + data.length - 1) / blockSize ≤ offset + data.length - 1 :=
    Nat.div_le_self _ _
  have hlength := List.length_pos_of_ne_nil hdata
  dsimp only
  omega

end Patches

section Store

variable {cfg : Config} {store : UnifiedBlockStore}

/-- Every entry is of a block that is being written. -/
def InMemory (store : UnifiedBlockStore) : Prop :=
  ∀ block entry, store.entries.lookup block = some entry →
    entry.state = .hot ∨ entry.state = .pending

/-- A version that is newer than the entry of its block takes its place. -/
theorem lookup_writeWithSeqNum {block seqNum : Nat} (hpos : 0 < seqNum)
    (hnewer : ∀ e, store.entries.lookup block = some e → e.seqNum < seqNum)
    (data : Bytes) (block' : Nat) :
    (store.writeWithSeqNum block data seqNum).entries.lookup block' =
      if block' = block then some ⟨data, seqNum, 0, 0, .hot⟩
      else store.entries.lookup block' := by
  have hlt : ((store.entries.lookup block).getD ⟨[], 0, 0, 0, .empty⟩).seqNum < seqNum := by
    cases he : store.entries.lookup block with
    | none => exact hpos
    | some e => exact hnewer e he
  unfold UnifiedBlockStore.writeWithSeqNum
  dsimp only
  rw [if_pos hlt]
  split
  · rename_i hblock
    subst hblock
    rw [AList.lookup_insert]
  · rename_i hblock
    rw [AList.lookup_insert_ne hblock]

theorem cacheRun_eq (hmemory : InMemory store) (cb : ConsecutiveBlock) (data : Bytes) :
    cfg.cacheRun cb data store = store := by
  have hone : ∀ block bytes, store.cache block bytes = store := by
    intro block bytes
    unfold UnifiedBlockStore.cache
    cases hentry : store.entries.lookup block with
    | none => rfl
    | some entry =>
      rcases hmemory block entry hentry with hstate | hstate <;> simp [hstate]
  unfold Config.cacheRun
  induction List.range cb.numBlocks with
  | nil => rfl
  | cons i rest ih =>
    rw [List.foldl_cons, hone]
    exact ih

theorem advance_store {env : Env} {chunks : AList fun _ : Nat => Bytes} {ok : Bool}
    {r r' : ReadCall} {store' : UnifiedBlockStore} (hmemory : InMemory store)
    (hadvance : r.advance env store chunks ok = some (.ok (r', store'))) :
    store' = store := by
  revert hadvance
  fun_cases ReadCall.advance <;> intro hadvance <;> cases hadvance
  all_goals first
    | rfl
    | exact cacheRun_eq hmemory ..

end Store

section Basic

variable (env : Env)

/-- The numbers a write holds are newer than all versions of its block. -/
structure Newest (vb : VB) (block seqNum : Nat) : Prop where
  pos : 0 < seqNum
  issued : seqNum ≤ vb.seqNum
  entry : ∀ e, vb.blockStore.entries.lookup block = some e → e.seqNum < seqNum

/-- What holds in every run. -/
structure Basic (s : State) : Prop where
  buffer : ∀ f, s.flush = some f → s.writes = f.flushed ++ f.rest
  memory : InMemory s.store
  fits : ∀ r ∈ s.older ++ s.newer, r.Fits env.cfg ∧ r.seqNum ≤ s.volume.vb.seqNum
  issued : ∀ block e, s.store.entries.lookup block = some e → e.seqNum ≤ s.volume.vb.seqNum
  locks : ∀ id id' w w' lock, s.writers.lookup id = some w →
    s.writers.lookup id' = some w' → w.holds = some lock → w'.holds = some lock → id = id'
  inside : ∀ id w, s.writers.lookup id = some w →
    ∀ p ∈ w.todo, p.Inside env.cfg.blockSize ∧ p.block < 2 ^ 64
  spliced : ∀ id todo data n, s.writers.lookup id = some ⟨todo, .spliced data, n⟩ →
    data.length = env.cfg.blockSize
  reserved : ∀ id p todo data seqNum n,
    s.writers.lookup id = some ⟨p :: todo, .reserved data seqNum, n⟩ →
    data.length = env.cfg.blockSize ∧ seqNum < 2 ^ 64 ∧ Newest s.volume.vb p.block seqNum ∧
      ∀ r ∈ s.older ++ s.newer, r.block = p.block → r.seqNum < seqNum
  appended : ∀ id p todo blk n, s.writers.lookup id = some ⟨p :: todo, .appended blk, n⟩ →
    blk.Fits env.cfg ∧ blk.block = p.block ∧ Newest s.volume.vb p.block blk.seqNum

variable {env} {s t : State} {id : Nat} {w : WriteCall}

section

variable (h : Basic env s)

include h

theorem Basic.of_subset (hbuffer : ∀ f, t.flush = some f → t.writes = f.flushed ++ f.rest)
    (hsub : ∀ r ∈ t.older ++ t.newer, r ∈ s.older ++ s.newer)
    (hentries : ∀ block e, t.store.entries.lookup block = some e → ∃ e', s.store.entries.lookup
      block = some e' ∧ e.seqNum = e'.seqNum ∧ (e.state = .hot ∨ e.state = .pending))
    (hseqNum : s.volume.vb.seqNum ≤ t.volume.vb.seqNum) (hwriters : t.writers = s.writers) :
    Basic env t := by
  have hnewest : ∀ block seqNum, Newest s.volume.vb block seqNum →
      Newest t.volume.vb block seqNum := by
    intro block seqNum hnew
    refine ⟨hnew.pos, hnew.issued.trans hseqNum, fun e he => ?_⟩
    obtain ⟨e', he', heq, -⟩ := hentries block e he
    rw [heq]
    exact hnew.entry e' he'
  refine ⟨hbuffer, ?_, ?_, ?_, ?_, ?_, ?_, ?_, ?_⟩
  · intro block e he
    obtain ⟨-, -, -, hstate⟩ := hentries block e he
    exact hstate
  · intro r hr
    obtain ⟨hfits, hle⟩ := h.fits r (hsub r hr)
    exact ⟨hfits, hle.trans hseqNum⟩
  · intro block e he
    obtain ⟨e', he', heq, -⟩ := hentries block e he
    rw [heq]
    exact (h.issued block e' he').trans hseqNum
  · rw [hwriters]
    exact h.locks
  · rw [hwriters]
    exact h.inside
  · rw [hwriters]
    exact h.spliced
  · rw [hwriters]
    intro id p todo data seqNum n hw
    obtain ⟨hlength, hlt, hnew, hold⟩ := h.reserved id p todo data seqNum n hw
    exact ⟨hlength, hlt, hnewest _ _ hnew, fun r hr => hold r (hsub r hr)⟩
  · rw [hwriters]
    intro id p todo blk n hw
    obtain ⟨hfits, hblock, hnew⟩ := h.appended id p todo blk n hw
    exact ⟨hfits, hblock, hnewest _ _ hnew⟩

theorem Basic.same_entries (hstore : t.store.entries = s.store.entries) :
    ∀ block e, t.store.entries.lookup block = some e →
      ∃ e', s.store.entries.lookup block = some e' ∧ e.seqNum = e'.seqNum ∧
        (e.state = .hot ∨ e.state = .pending) := by
  intro block e he
  rw [hstore] at he
  exact ⟨e, he, rfl, h.memory block e he⟩

theorem Basic.setWriter
    (hlock : ∀ lock, w.holds = some lock → ∀ id' w', s.writers.lookup id' = some w' → w'.holds =
      some lock → id' = id) (hinside : ∀ p ∈ w.todo, p.Inside env.cfg.blockSize ∧ p.block < 2 ^ 64)
    (hspliced : ∀ data, w.phase = .spliced data → data.length = env.cfg.blockSize)
    (hreserved : ∀ p todo data seqNum, w.todo = p :: todo → w.phase = .reserved data seqNum →
      data.length = env.cfg.blockSize ∧ seqNum < 2 ^ 64 ∧ Newest s.volume.vb p.block seqNum ∧ ∀ r ∈
      s.older ++ s.newer, r.block = p.block → r.seqNum < seqNum)
    (happended : ∀ p todo blk, w.todo = p :: todo → w.phase = .appended blk → blk.Fits env.cfg ∧
      blk.block = p.block ∧ Newest s.volume.vb p.block blk.seqNum) :
    Basic env (s.setWriter id w) := by
  refine ⟨h.buffer, h.memory, h.fits, h.issued, ?_, ?_, ?_, ?_, ?_⟩
  · intro id₁ id₂ w₁ w₂ lock h₁ h₂ hw₁ hw₂
    rcases FiniteMap.lookup_insert_eq_some h₁ with ⟨rfl, rfl⟩ | hold₁
    · rcases FiniteMap.lookup_insert_eq_some h₂ with ⟨rfl, rfl⟩ | hold₂
      · rfl
      · exact (hlock lock hw₁ id₂ w₂ hold₂ hw₂).symm
    · rcases FiniteMap.lookup_insert_eq_some h₂ with ⟨rfl, rfl⟩ | hold₂
      · exact hlock lock hw₂ id₁ w₁ hold₁ hw₁
      · exact h.locks id₁ id₂ w₁ w₂ lock hold₁ hold₂ hw₁ hw₂
  · intro id' w' hw'
    rcases FiniteMap.lookup_insert_eq_some hw' with ⟨rfl, rfl⟩ | hw'
    · exact hinside
    · exact h.inside id' w' hw'
  · intro id' todo data n hw'
    rcases FiniteMap.lookup_insert_eq_some hw' with ⟨rfl, rfl⟩ | hw'
    · exact hspliced data rfl
    · exact h.spliced id' todo data n hw'
  · intro id' p todo data seqNum n hw'
    rcases FiniteMap.lookup_insert_eq_some hw' with ⟨rfl, rfl⟩ | hw'
    · exact hreserved p todo data seqNum rfl rfl
    · exact h.reserved id' p todo data seqNum n hw'
  · intro id' p todo blk n hw'
    rcases FiniteMap.lookup_insert_eq_some hw' with ⟨rfl, rfl⟩ | hw'
    · exact happended p todo blk rfl rfl
    · exact h.appended id' p todo blk n hw'

theorem Basic.eraseWriter (id : Nat) :
    Basic env { s with writers := s.writers.erase id } := by
  refine ⟨h.buffer, h.memory, h.fits, h.issued, ?_, ?_, ?_, ?_, ?_⟩
  · intro id₁ id₂ w₁ w₂ lock h₁ h₂
    exact h.locks id₁ id₂ w₁ w₂ lock (FiniteMap.lookup_erase_eq_some h₁).2
      (FiniteMap.lookup_erase_eq_some h₂).2
  · intro id' w' hw'
    exact h.inside id' w' (FiniteMap.lookup_erase_eq_some hw').2
  · intro id' todo data n hw'
    exact h.spliced id' todo data n (FiniteMap.lookup_erase_eq_some hw').2
  · intro id' p todo data seqNum n hw'
    exact h.reserved id' p todo data seqNum n (FiniteMap.lookup_erase_eq_some hw').2
  · intro id' p todo blk n hw'
    exact h.appended id' p todo blk n (FiniteMap.lookup_erase_eq_some hw').2

theorem Basic.keep_lock {w₀ : WriteCall} (hw₀ : s.writers.lookup id = some w₀)
    (hholds : w.holds = w₀.holds) :
    ∀ lock, w.holds = some lock → ∀ id' w', s.writers.lookup id' = some w' →
      w'.holds = some lock → id' = id := by
  intro lock hlock id' w' hw' hw'lock
  rw [hholds] at hlock
  exact h.locks id' id w' w₀ lock hw' hw₀ hw'lock hlock

end

theorem not_holds_of_lockFree {lock : Nat} (hfree : s.lockFree lock = true) :
    ∀ id w, s.writers.lookup id = some w → w.holds ≠ some lock := by
  intro id w hw
  have hall := List.all_eq_true.mp hfree ⟨id, w⟩ (FiniteMap.mem_entries_iff.mpr hw)
  simpa using hall

/-- A step that leaves memory, buffers and calls alone, but for chunks that go. -/
theorem Basic.of_frame (h : Basic env s) (hwrites : t.writes = s.writes)
    (hflush : t.flush = s.flush) (hrecords : t.wal.records = s.wal.records)
    (holder : ∀ r ∈ t.older, r ∈ s.older) (hentries : t.store.entries = s.store.entries)
    (hseqNum : t.volume.vb.seqNum = s.volume.vb.seqNum) (hwriters : t.writers = s.writers) :
    Basic env t := by
  have hnewer : t.newer = s.newer := by
    simp only [State.newer, State.unflushed, hwrites, hflush, hrecords]
  refine h.of_subset ?_ ?_ (h.same_entries hentries) (le_of_eq hseqNum.symm) hwriters
  · rw [hflush, hwrites]
    exact h.buffer
  · intro r hr
    rw [hnewer] at hr
    rcases List.mem_append.mp hr with hr | hr
    · exact List.mem_append_left _ (holder r hr)
    · exact List.mem_append_right _ hr

section Writes

theorem Basic.beginWrite {offset : Nat} {data : Bytes} {nearFull : Bool} (h : Basic env s)
    :
    s.beginWrite env id offset data nearFull = some t → Basic env t := by
  fun_cases State.beginWrite <;> rintro ⟨⟩
  rename_i hadmits
  simp only [State.admits, Bool.and_eq_true, decide_eq_true_eq, Bool.not_eq_true',
    List.isEmpty_eq_false_iff] at hadmits
  obtain ⟨-, ⟨-, hrange⟩, hdata⟩ := hadmits
  have hset : Basic env
      (s.setWriter id ⟨patches env.cfg.blockSize offset data, .waiting, 0⟩) := by
    refine h.setWriter (by simp [WriteCall.holds]) ?_ (by simp) (by simp) (by simp)
    intro p hp
    refine ⟨inside_of_mem_patches env.cfg.blockSize_pos hp, ?_⟩
    have hblock := block_of_mem_patches hdata hp
    have hsize := env.volumeSize_le
    omega
  exact hset.of_frame rfl rfl rfl (fun _ hr => hr) rfl rfl rfl

theorem length_overwrite {buffer bytes : Bytes} {start : Nat}
    (hinside : start + bytes.length ≤ buffer.length) :
    (overwrite buffer start bytes).length = buffer.length := by
  simp only [overwrite, List.length_append, List.length_take, List.length_drop]
  omega

theorem Patch.Inside.length_apply {p : Patch} {blockSize : Nat} {content : Bytes}
    (hp : p.Inside blockSize) (hcontent : content.length = blockSize) :
    (p.apply content).length = blockSize := by
  subst hcontent
  exact length_overwrite hp

theorem take_lock {block : Nat} (hfree : s.lockFree (blockRMWLock block) = true) (id : Nat) :
    ∀ lock, some (blockRMWLock block) = some lock →
      ∀ id' w', s.writers.lookup id' = some w' → w'.holds = some lock → id' = id := by
  rintro lock ⟨⟩ id' w' hw' hholds
  exact absurd hholds (not_holds_of_lockFree hfree id' w' hw')

section

variable (h : Basic env s)

include h

theorem Basic.lock :
    s.lock env id = some t → Basic env t := by
  fun_cases State.lock <;> rintro ⟨⟩
  all_goals
    have hinside := h.inside id _ ‹_›
    have hlock := take_lock ‹s.lockFree _ = true› id
  · exact h.setWriter hlock hinside (by simp) (by simp) (by simp)
  · exact h.eraseWriter id
  · refine h.setWriter hlock hinside ?_ (by simp) (by simp)
    rintro data ⟨⟩
    exact (hinside _ (by simp)).1.length_apply (List.length_replicate ..)

theorem Basic.rmw {ok : Bool} :
    s.rmw env id ok = some t → Basic env t := by
  fun_cases State.rmw <;> rintro ⟨⟩
  · exact h.eraseWriter id
  · rename_i hw _ _ hadvance
    obtain rfl := advance_store h.memory hadvance
    have hinside := h.inside id _ hw
    exact h.setWriter (h.keep_lock hw rfl) hinside (by simp) (by simp) (by simp)

theorem Basic.splice :
    s.splice env id = some t → Basic env t := by
  fun_cases State.splice <;> rintro ⟨⟩
  have hw := ‹s.writers.lookup id = _›
  have hinside := h.inside id _ hw
  refine h.setWriter (h.keep_lock hw rfl) hinside ?_ (by simp) (by simp)
  rintro data ⟨⟩
  refine (hinside _ (by simp)).1.length_apply ?_
  simp +zetaDelta

theorem Basic.reserve {disk backend : Outcome} (hstep : s.reserve env id disk backend = some t) :
    Basic env t := by
  have hsame := reserveSeqNum_sameBlocks env.cfg s.volume disk backend
  -- the counter moves on whether or not a number is handed out
  have hmoved : ∀ v res, s.volume.reserveSeqNum env.cfg disk backend = (v, res) →
      Basic env { s with volume := v } := by
    intro v res hreserve
    obtain ⟨hcounter, -⟩ := reserveSeqNum_seqNum hreserve
    rw [hreserve] at hsame
    have hentries : v.vb.blockStore.entries = s.store.entries :=
      congrArg UnifiedBlockStore.entries hsame.blockStore
    refine h.of_subset h.buffer (fun _ hr => hr) (h.same_entries hentries) ?_ rfl
    rw [hcounter]
    exact Nat.le_succ _
  revert hstep
  fun_cases State.reserve <;> intro hstep <;> cases hstep
  · exact (hmoved _ none ‹_›).eraseWriter id
  · rename_i p todo data published hw hwrap v seqNum hreserve
    obtain ⟨hcounter, hnumber⟩ := reserveSeqNum_seqNum hreserve
    have hseqNum := hnumber seqNum rfl
    have hbasic := hmoved v _ hreserve
    rw [hreserve] at hsame
    have hinside := h.inside id _ hw
    refine hbasic.setWriter (hbasic.keep_lock hw rfl) hinside (by simp) ?_ (by simp)
    intro p' todo' data' seqNum' htodo hphase
    cases htodo
    cases hphase
    refine ⟨h.spliced id _ _ _ hw, by omega, ⟨by omega, le_of_eq hseqNum, ?_⟩, ?_⟩
    · intro e he
      have hstore : v.vb.blockStore = s.volume.vb.blockStore := hsame.blockStore
      rw [hstore] at he
      have hle := h.issued p.block e he
      omega
    · intro r hr _
      have hle := (h.fits r hr).2
      omega

theorem Basic.pushWrite {p : Patch} {todo : List Patch} {blk : Block} {n : Nat}
    (hw : s.writers.lookup id = some ⟨p :: todo, .appended blk, n⟩) (hflush : s.flush = none) :
    Basic env { s with writes := s.writes ++ [blk] } := by
  obtain ⟨hfits, hblock, hnew⟩ := h.appended id p todo blk n hw
  have hmem : ∀ r ∈ ({ s with writes := s.writes ++ [blk] } : State).older ++
      ({ s with writes := s.writes ++ [blk] } : State).newer,
      r ∈ s.older ++ s.newer ∨ r = blk := by
    intro r hr
    simp only [State.newer, State.unflushed, hflush, State.older] at hr ⊢
    simp only [List.mem_append, List.mem_singleton] at hr ⊢
    tauto
  refine ⟨?_, h.memory, ?_, h.issued, h.locks, h.inside, h.spliced, ?_, h.appended⟩
  · intro f hf
    rw [hflush] at hf
    cases hf
  · intro r hr
    rcases hmem r hr with hr | rfl
    · exact h.fits r hr
    · exact ⟨hfits, hnew.issued⟩
  · intro id' p' todo' data seqNum n' hw'
    obtain ⟨hlength, hlt, hnew', hold⟩ := h.reserved id' p' todo' data seqNum n' hw'
    refine ⟨hlength, hlt, hnew', fun r hr hr' => ?_⟩
    rcases hmem r hr with hr | rfl
    · exact hold r hr hr'
    · -- only one call holds the lock of the block
      have hholds : (⟨p' :: todo', .reserved data seqNum, n'⟩ : WriteCall).holds =
          some (blockRMWLock p.block) := by
        rw [← hblock, hr']
        rfl
      obtain rfl := h.locks id' id _ _ _ hw' hw hholds rfl
      rw [hw] at hw'
      cases hw'

theorem Basic.published {p : Patch} {todo : List Patch} {blk : Block} {n : Nat}
    (hw : s.writers.lookup id = some ⟨p :: todo, .appended blk, n⟩) :
    blk.block = p.block ∧ Newest s.volume.vb blk.block blk.seqNum ∧
      ∀ block, (s.store.writeWithSeqNum blk.block blk.data blk.seqNum).entries.lookup block =
        if block = blk.block then some ⟨blk.data, blk.seqNum, 0, 0, .hot⟩
        else s.store.entries.lookup block := by
  obtain ⟨-, hblock, hnew⟩ := h.appended id p todo blk n hw
  rw [← hblock] at hnew
  exact ⟨hblock, hnew, lookup_writeWithSeqNum hnew.pos hnew.entry blk.data⟩

theorem Basic.storeWrite {block seqNum : Nat} (data : Bytes)
    (hnew : Newest s.volume.vb block seqNum)
    (hfree : ∀ id w, s.writers.lookup id = some w → w.holds ≠ some (blockRMWLock block)) :
    Basic env (s.setStore (s.store.writeWithSeqNum block data seqNum)) := by
  have hlookup : ∀ block', (s.store.writeWithSeqNum block data seqNum).entries.lookup block' =
      if block' = block then some ⟨data, seqNum, 0, 0, .hot⟩
      else s.store.entries.lookup block' :=
    lookup_writeWithSeqNum hnew.pos hnew.entry data
  have hnewest : ∀ id p todo phase n q, s.writers.lookup id = some ⟨p :: todo, phase, n⟩ →
      (⟨p :: todo, phase, n⟩ : WriteCall).holds = some (blockRMWLock p.block) →
      Newest s.volume.vb p.block q →
      Newest (s.setStore (s.store.writeWithSeqNum block data seqNum)).volume.vb p.block q := by
    intro id p todo phase n q hw hholds hq
    refine ⟨hq.pos, hq.issued, fun e he => ?_⟩
    have hne : p.block ≠ block := by
      rintro rfl
      exact hfree id _ hw hholds
    have he' : (s.store.writeWithSeqNum block data seqNum).entries.lookup p.block = some e := he
    rw [hlookup, if_neg hne] at he'
    exact hq.entry e he'
  refine ⟨h.buffer, ?_, h.fits, ?_, h.locks, h.inside, h.spliced, ?_, ?_⟩
  · intro block' e he
    have he' : (s.store.writeWithSeqNum block data seqNum).entries.lookup block' = some e := he
    rw [hlookup] at he'
    split at he'
    · cases he'
      exact .inl rfl
    · exact h.memory block' e he'
  · intro block' e he
    have he' : (s.store.writeWithSeqNum block data seqNum).entries.lookup block' = some e := he
    rw [hlookup] at he'
    split at he'
    · cases he'
      exact hnew.issued
    · exact h.issued block' e he'
  · intro id p todo data' q n hw
    obtain ⟨hlength, hlt, hq, hold⟩ := h.reserved id p todo data' q n hw
    exact ⟨hlength, hlt, hnewest id p todo _ n q hw rfl hq, hold⟩
  · intro id p todo blk n hw
    obtain ⟨hfits, hblock, hq⟩ := h.appended id p todo blk n hw
    exact ⟨hfits, hblock, hnewest id p todo _ n _ hw rfl hq⟩

theorem Basic.append :
    s.append env id = some t → Basic env t := by
  fun_cases State.append <;> rintro ⟨⟩
  rename_i p todo data seqNum published hflush hw _
  obtain ⟨hlength, hlt, hnew, hold⟩ := h.reserved id p todo data seqNum published hw
  have hinside := h.inside id _ hw
  have hblk : (⟨data, seqNum, p.block, env.cfg.blockSize⟩ : Block).Fits env.cfg :=
    ⟨hlength, hlt, (hinside p (by simp)).2, env.cfg.blockSize_lt.trans (by decide)⟩
  have hset : Basic env (s.setWriter id ⟨p :: todo,
      .appended ⟨data, seqNum, p.block, env.cfg.blockSize⟩, published⟩) := by
    refine h.setWriter (h.keep_lock hw rfl) hinside (by simp) (by simp) ?_
    rintro p' todo' blk ⟨⟩ ⟨⟩
    exact ⟨hblk, rfl, hnew⟩
  exact hset.pushWrite (AList.lookup_insert _) hflush

theorem Basic.publish :
    s.publish id = some t → Basic env t := by
  fun_cases State.publish <;> rintro ⟨⟩
  rename_i p todo blk published hw _
  obtain ⟨hfits, hblock, hnew⟩ := h.appended id p todo blk published hw
  have hset : Basic env (s.setWriter id ⟨todo, .waiting, published + 1⟩) :=
    h.setWriter (by simp [WriteCall.holds])
      (fun p' hp' => h.inside id _ hw p' (List.mem_cons_of_mem _ hp')) (by simp)
      (by simp) (by simp)
  rw [← hblock] at hnew
  have hstore := hset.storeWrite blk.data hnew ?_
  · exact hstore.of_frame rfl rfl rfl (fun _ hr => hr) rfl rfl rfl
  · intro id' w' hw' hholds
    by_cases hid : id' = id
    · subst hid
      rw [State.setWriter, AList.lookup_insert] at hw'
      cases hw'
      simp [WriteCall.holds] at hholds
    · rw [State.setWriter, AList.lookup_insert_ne hid] at hw'
      rw [hblock] at hholds
      exact hid (h.locks id' id w' _ _ hw' hw hholds rfl)

theorem Basic.endWrite :
    s.endWrite env id = some t → Basic env t := by
  fun_cases State.endWrite <;> rintro ⟨⟩
  exact (h.eraseWriter id).of_frame rfl rfl rfl (fun _ hr => hr) rfl rfl rfl

end

end Writes

section Flush

/-- The buffer is to be flushed; the drain's own flush is its next phase. -/
theorem beginFlush_eq {draining : Bool} (hstep : s.beginFlush draining = some t) :
    s.flush = none ∧ ∃ drain,
      t = { s with flush := some ⟨draining, [], s.writes, false, false⟩, drain := drain } ∧
      (draining = true ∧ s.drain.map DrainCall.phase = some .started ∧
          drain.map DrainCall.phase = some .flushing ∨
        draining = false ∧ drain = s.drain) := by
  revert hstep
  fun_cases State.beginFlush <;> simp only [reduceCtorEq, Option.some.injEq, false_implies] <;>
    rintro rfl
  · exact ⟨‹_›, _, rfl, .inl ⟨‹_›, by simp [*], rfl⟩⟩
  · exact ⟨‹_›, _, rfl, .inr ⟨by simpa using ‹¬ draining = true›, rfl⟩⟩

theorem beginFlush_newer {draining : Bool} (hstep : s.beginFlush draining = some t) :
    t.newer = s.newer ∧ t.older = s.older := by
  obtain ⟨hflush, drain, rfl, -⟩ := beginFlush_eq hstep
  simp only [State.newer, State.unflushed, State.older, hflush, and_self]

/-- A record moves from the buffer to the log. -/
theorem appendWAL_newer {ok : Bool} :
    s.appendWAL ok = some t → t.newer = s.newer ∧ t.older = s.older := by
  fun_cases State.appendWAL <;> rintro ⟨⟩
  all_goals simp [State.newer, State.unflushed, State.older, *]

theorem markPending_newer :
    s.markPending = some t → t.newer = s.newer ∧ t.older = s.older := by
  fun_cases State.markPending <;> rintro ⟨⟩
  simp [State.newer, State.unflushed, State.older, State.setStore, *]

theorem Basic.of_newer (h : Basic env s) (hnewer : t.newer = s.newer ∧ t.older = s.older)
    (hbuffer : ∀ f, t.flush = some f → t.writes = f.flushed ++ f.rest)
    (hentries : ∀ block e, t.store.entries.lookup block = some e → ∃ e', s.store.entries.lookup
      block = some e' ∧ e.seqNum = e'.seqNum ∧ (e.state = .hot ∨ e.state = .pending))
    (hseqNum : t.volume.vb.seqNum = s.volume.vb.seqNum) (hwriters : t.writers = s.writers) :
    Basic env t := by
  refine h.of_subset hbuffer ?_ hentries (le_of_eq hseqNum.symm) hwriters
  rw [hnewer.1, hnewer.2]
  exact fun _ hr => hr

theorem Basic.beginFlush {draining : Bool} (h : Basic env s)
    (hstep : s.beginFlush draining = some t) :
    Basic env t := by
  have hnewer := beginFlush_newer hstep
  obtain ⟨-, drain, rfl, -⟩ := beginFlush_eq hstep
  exact h.of_newer hnewer (fun f hf => by cases hf; rfl) (h.same_entries rfl) rfl rfl

theorem Basic.appendWAL {ok : Bool} (h : Basic env s) (hstep : s.appendWAL ok = some t) :
    Basic env t := by
  have hnewer := appendWAL_newer hstep
  revert hnewer hstep
  fun_cases State.appendWAL <;> intro hstep hnewer <;> cases hstep
  all_goals
    have hbuffer := h.buffer _ ‹_›
    refine h.of_newer hnewer ?_ (h.same_entries rfl) rfl rfl
    rintro f ⟨⟩
    simpa using hbuffer

theorem lookup_markPending {store : UnifiedBlockStore} {block block' : Nat} {e : BlockEntry}
    (he : (store.markPending block).entries.lookup block' = some e) :
    ∃ e', store.entries.lookup block' = some e' ∧
      (e = e' ∨ block' = block ∧ e'.state = .hot ∧ e = { e' with state := .pending }) := by
  unfold UnifiedBlockStore.markPending at he
  split at he
  · rename_i entry hentry
    split at he
    · rename_i hhot
      by_cases hblock : block' = block
      · subst hblock
        dsimp only at he
        rw [AList.lookup_insert] at he
        cases he
        exact ⟨entry, hentry, .inr ⟨rfl, hhot, rfl⟩⟩
      · dsimp only at he
        rw [AList.lookup_insert_ne hblock] at he
        exact ⟨e, he, .inl rfl⟩
    · exact ⟨e, he, .inl rfl⟩
  · exact ⟨e, he, .inl rfl⟩

theorem Basic.markPending (h : Basic env s) (hstep : s.markPending = some t) :
    Basic env t := by
  have hnewer := markPending_newer hstep
  revert hnewer hstep
  fun_cases State.markPending <;> intro hstep hnewer <;> cases hstep
  have hbuffer := h.buffer _ ‹_›
  refine h.of_newer hnewer ?_ ?_ rfl rfl
  · rintro f ⟨⟩
    exact hbuffer
  · intro block e he
    obtain ⟨e', he', rfl | ⟨-, -, rfl⟩⟩ := lookup_markPending he
    · exact ⟨e, he', rfl, h.memory block e he'⟩
    · exact ⟨e', he', rfl, .inr rfl⟩

theorem Basic.endFlush_newer (h : Basic env s) :
    s.endFlush = some t → t.newer.Sublist s.newer ∧ t.older = s.older := by
  fun_cases State.endFlush <;> rintro ⟨⟩
  rename_i flushed rest failed hflush _ _
  have hbuffer := h.buffer _ hflush
  dsimp only at hbuffer
  have hnone : flushed.filter (fun b => !flushed.any (·.block == b.block)) = [] := by
    rw [List.filter_eq_nil_iff]
    intro b hb
    simp only [Bool.not_eq_true', Bool.not_eq_false, List.any_eq_true]
    exact ⟨b, hb, beq_self_eq_true _⟩
  refine ⟨?_, rfl⟩
  simp only [State.newer, State.unflushed, hflush]
  rw [hbuffer, List.filter_append, hnone, List.nil_append]
  exact List.filter_sublist.append_left _

theorem Basic.endFlush (h : Basic env s) (hstep : s.endFlush = some t) :
    Basic env t := by
  obtain ⟨hnewer, holder⟩ := h.endFlush_newer hstep
  have hsub : ∀ r ∈ t.older ++ t.newer, r ∈ s.older ++ s.newer := by
    intro r hr
    rw [holder] at hr
    exact List.mem_append.mpr ((List.mem_append.mp hr).imp_right fun hr => hnewer.subset hr)
  revert hsub hstep
  fun_cases State.endFlush <;> intro hstep hsub <;> cases hstep
  exact h.of_subset (by simp) hsub (h.same_entries rfl) le_rfl rfl

end Flush

end Basic

end Engine

end Viperblock
