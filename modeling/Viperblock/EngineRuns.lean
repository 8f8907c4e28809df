import Viperblock.EngineDrain

/-!
# A write and a drain that nothing disturbs

The loops of the engine when no other call comes between their steps: the blocks of a
`WriteAt`, the appends of a flush, the passes of `MarkPersistedRange`.  Put together they
make a run that fills a volume of one-byte blocks and drains it, for every number of blocks
that fit one chunk.
-/

namespace Viperblock

namespace Engine

open GuardedRun BlockMap BlocksToObject Volume

/-- A volume of `size` bytes without layers below it. -/
def plainEnv (cfg : Config) (size : Nat) (hsize : size ≤ 2 ^ 63) : Env :=
  ⟨cfg, size, [], fun _ _ _ _ => .error .backend, hsize⟩

/-- One-byte blocks, and chunks of one block more than an entry counts. -/
def wideConfig : Config :=
  { Config.tiny with objBlockSize := 65536, objBlockSize_lt := by decide }

def wideEnv : Env := plainEnv wideConfig 65536 (by decide)

/-- A run with one drain at a time leads from `s` to `t`. -/
def Reaches (s t : State) : Prop :=
  ∃ acts, Run (step wideEnv) (fun s act => drainsOnly s act) s acts t

section Reaches

variable {s t u : State}

theorem Reaches.refl (s : State) : Reaches s s :=
  ⟨[], Run.nil s⟩

theorem Reaches.head (act : Act) (hdrains : drainsOnly s act = true)
    (hstep : step wideEnv s act = some t) (h : Reaches t u) : Reaches s u :=
  h.imp' (act :: ·) fun _ hrun => Run.cons hdrains hstep hrun

theorem Reaches.trans (h : Reaches s t) (h' : Reaches t u) : Reaches s u := by
  obtain ⟨acts, hrun⟩ := h
  obtain ⟨more, hmore⟩ := h'
  exact ⟨acts ++ more, hrun.append hmore⟩

/-- A loop of `n` rounds, from what a round keeps. -/
theorem Reaches.loop {n : Nat} {P : Nat → State → Prop}
    (hround : ∀ m s, m < n → P m s → ∃ t, Reaches s t ∧ P (m + 1) t) (hs : P 0 s) :
    ∃ t, Reaches s t ∧ P n t := by
  induction n with
  | zero => exact ⟨s, .refl s, hs⟩
  | succ n ih =>
    obtain ⟨t, hst, ht⟩ := ih fun m s hm => hround m s (Nat.lt_succ_of_lt hm)
    obtain ⟨u, htu, hu⟩ := hround n t (Nat.lt_succ_self n) ht
    exact ⟨u, hst.trans htu, hu⟩

end Reaches

/-- The entry of a block that was written once, with a zero. -/
def zeroEntry (state : BlockState) (i : Nat) : Option BlockEntry :=
  some ⟨[0], i + 1, 0, 0, state⟩

/-- The first `m` of `n` entries are as a loop leaves them, on the extents it found. -/
structure Rounds (extents : ExtentIndex) (after before : Nat → Option BlockEntry) (n m : Nat)
    (store : UnifiedBlockStore) : Prop where
  extents : store.persistedExtents = extents
  entries : ∀ i < n, store.entries.lookup i = if i < m then after i else before i

section Rounds

variable {extents : ExtentIndex} {after before : Nat → Option BlockEntry} {n m : Nat}
variable {store store' : UnifiedBlockStore}

theorem Rounds.lookup (h : Rounds extents after before n m store) (hm : m < n) :
    store.entries.lookup m = before m :=
  (h.entries m hm).trans (if_neg (Nat.lt_irrefl m))

theorem Rounds.next (h : Rounds extents after before n m store)
    (hextents : store'.persistedExtents = store.persistedExtents)
    (hself : store'.entries.lookup m = after m)
    (hother : ∀ i, i ≠ m → store'.entries.lookup i = store.entries.lookup i) :
    Rounds extents after before n (m + 1) store' := by
  refine ⟨hextents.trans h.extents, fun i hi => ?_⟩
  by_cases him : i = m
  · subst him
    rw [hself, if_pos (Nat.lt_succ_self i)]
  · have hiff : i < m + 1 ↔ i < m := by omega
    simp only [hother i him, h.entries i hi, hiff]

theorem Rounds.write (h : Rounds extents (zeroEntry .hot) (fun _ => none) n m store) (hm : m < n) :
    Rounds extents (zeroEntry .hot) (fun _ => none) n (m + 1)
      (store.writeWithSeqNum m [0] (m + 1)) := by
  have hwrite := @lookup_writeWithSeqNum store m (m + 1) m.succ_pos
    (fun e he => by rw [h.lookup hm] at he; cases he) [0]
  exact h.next rfl ((hwrite m).trans (if_pos rfl)) fun i hi => (hwrite i).trans (if_neg hi)

theorem Rounds.markPending (h : Rounds extents (zeroEntry .pending) (zeroEntry .hot) n m store)
    (hm : m < n) :
    Rounds extents (zeroEntry .pending) (zeroEntry .hot) n (m + 1) (store.markPending m) := by
  refine h.next (UnifiedBlockStore.persistedExtents_markPending _ _) ?_ fun i hi => ?_
  · simp [UnifiedBlockStore.markPending, h.lookup hm, zeroEntry]
  · simp [UnifiedBlockStore.markPending, h.lookup hm, zeroEntry, AList.lookup_insert_ne hi]

theorem Rounds.dropPersisted (h : Rounds extents (fun _ => none) (zeroEntry .pending) n m store)
    (hm : m < n) :
    Rounds extents (fun _ => none) (zeroEntry .pending) n (m + 1)
      (store.dropPersisted ⟨m, m, m + 1⟩) := by
  refine h.next (UnifiedBlockStore.persistedExtents_dropPersisted _ _) ?_ fun i hi => ?_
  · rw [UnifiedBlockStore.lookup_dropPersisted, if_pos]
    simp [UnifiedBlockStore.eligible, h.lookup hm, zeroEntry]
  · rw [UnifiedBlockStore.lookup_dropPersisted, if_neg fun h => hi h.1]

/-- A loop that has ended is the beginning of the next one. -/
theorem Rounds.again (h : Rounds extents after before n n store)
    (after' : Nat → Option BlockEntry) :
    Rounds extents after' after n 0 store :=
  ⟨h.extents, fun i hi => (h.entries i hi).trans (if_pos hi)⟩

end Rounds

section Loops

variable {extents : ExtentIndex} {n : Nat}

theorem range'_concat (m : Nat) : List.range' 0 (m + 1) = List.range' 0 m ++ [m] := by
  simp [List.range'_1_concat]

theorem range'_rest {m : Nat} (hm : m < n) :
    List.range' m (n - m) = m :: List.range' (m + 1) (n - (m + 1)) := by
  rw [← Nat.sub_add_cancel (Nat.sub_pos_of_lt hm), Nat.sub_sub]
  rfl

/-- The patches of a write of zeros from block `m` on. -/
def zeroPatches (m n : Nat) : List Patch :=
  (List.range' m n).map fun i => ⟨i, 0, [0]⟩

/-- `m` of `n` blocks of the call are written. -/
def writing (v : Volume) (wal : ReopenSystem.Segment) (n m : Nat) (store : UnifiedBlockStore)
    (published : List Publish) : State :=
  { State.opened v wal with
    volume := { v with vb := { v.vb with seqNum := m, blockStore := store } }
    writes := zeroBlocks 1 0 m
    writers := AList.insert 0 ⟨zeroPatches m (n - m), .waiting, m⟩ ∅
    published := published }

theorem reaches_writes {v : Volume} (wal : ReopenSystem.Segment) (hn : n < 2 ^ 64)
    (hstore : Rounds extents (zeroEntry .hot) (fun _ => none) n 0 v.vb.blockStore) :
    ∃ store published, Reaches (writing v wal n 0 v.vb.blockStore [])
        (writing v wal n n store published) ∧
      Rounds extents (zeroEntry .hot) (fun _ => none) n n store := by
  have hround : ∀ m s, m < n → (∃ store published, s = writing v wal n m store published ∧
        Rounds extents (zeroEntry .hot) (fun _ => none) n m store) →
      ∃ t, Reaches s t ∧ ∃ store published, t = writing v wal n (m + 1) store published ∧
        Rounds extents (zeroEntry .hot) (fun _ => none) n (m + 1) store := by
    rintro m _ hm ⟨store, published, rfl, h⟩
    have hlt : m + 1 < 2 ^ 64 := by omega
    refine ⟨_, ?_, _, published ++ [⟨⟨m, 0, [0]⟩, m + 1⟩], rfl, h.write hm⟩
    unfold writing zeroPatches zeroBlocks
    rw [range'_rest hm, range'_concat, List.map_append]
    refine .head (.lock 0) rfl rfl ?_
    apply Reaches.head (.reserve 0 .ok .ok) rfl
    · simp only [step, State.reserve, State.setWriter, AList.lookup_insert]
      exact if_pos hlt
    · exact .head (.append 0) rfl rfl (.head (.publish 0) rfl rfl (.refl _))
  obtain ⟨t, hreaches, store, published, rfl, hwritten⟩ :=
    Reaches.loop hround ⟨v.vb.blockStore, [], rfl, hstore⟩
  exact ⟨store, published, hreaches, hwritten⟩

/-- `m` of `n` blocks are appended to the segment. -/
def flushing (s : State) (n m : Nat) (store : UnifiedBlockStore) : State :=
  { s.setStore store with
    flush := some ⟨true, zeroBlocks 1 0 m, zeroBlocks 1 m (n - m), false, false⟩
    wal := { s.wal with records := zeroBlocks 1 0 m } }

theorem reaches_flush (s : State) {store : UnifiedBlockStore}
    (hstore : Rounds extents (zeroEntry .pending) (zeroEntry .hot) n 0 store) :
    ∃ store', Reaches (flushing s n 0 store) (flushing s n n store') ∧
      Rounds extents (zeroEntry .pending) (zeroEntry .hot) n n store' := by
  have hround : ∀ m t, m < n → (∃ store, t = flushing s n m store ∧
        Rounds extents (zeroEntry .pending) (zeroEntry .hot) n m store) →
      ∃ u, Reaches t u ∧ ∃ store, u = flushing s n (m + 1) store ∧
        Rounds extents (zeroEntry .pending) (zeroEntry .hot) n (m + 1) store := by
    rintro m _ hm ⟨store, rfl, h⟩
    refine ⟨_, ?_, _, rfl, h.markPending hm⟩
    unfold flushing zeroBlocks
    rw [range'_rest hm, range'_concat, List.map_append]
    refine .head (.appendWAL true) rfl rfl ?_
    apply Reaches.head .markPending rfl
    · simp only [step, State.markPending, List.getLast?_concat]
      rfl
    · exact .refl _
  obtain ⟨t, hreaches, store', rfl, hmarked⟩ := Reaches.loop hround ⟨store, rfl, hstore⟩
  exact ⟨store', hreaches, hmarked⟩

/-- The blocks as `MarkPersistedRange` is given them. -/
def zeroItems (m n : Nat) : List RangeItem :=
  (List.range' m n).map fun i => ⟨i, i, i + 1⟩

/-- The map insert of a chunk whose only run is at this point of the marking. -/
def marking (s : State) (chunkIndex : Nat) (store : UnifiedBlockStore) (pass : Marking) : State :=
  { s.setStore store with mapInsert := some ⟨0, chunkIndex, [], some pass⟩ }

theorem reaches_mark {s : State} {chunkIndex offset : Nat}
    (hmap : s.mapInsert = some
      ⟨0, chunkIndex, [], some (.predicting offset (zeroItems 0 n) [])⟩)
    (hstore : Rounds extents (fun _ => none) (zeroEntry .pending) n 0 s.store) :
    ∃ t, Reaches s t ∧ t.writers = s.writers ∧
      t.volume.vb.blocksToObject = s.volume.vb.blocksToObject ∧
      Rounds (installRuns chunkIndex offset wideConfig.blockStride extents (zeroItems 0 n))
        (fun _ => none) (zeroEntry .pending) n n t.store := by
  obtain rfl := hstore.extents
  let installed := installRuns chunkIndex offset wideConfig.blockStride s.store.persistedExtents
    (zeroItems 0 n)
  have hpredict : ∀ m t, m < n →
      t = marking s chunkIndex s.store (.predicting offset (zeroItems m (n - m)) (zeroItems 0 m)) →
      ∃ u, Reaches t u ∧ u = marking s chunkIndex s.store
        (.predicting offset (zeroItems (m + 1) (n - (m + 1))) (zeroItems 0 (m + 1))) := by
    rintro m _ hm rfl
    have heligible : s.store.eligible ⟨m, m, m + 1⟩ = true := by
      simp [UnifiedBlockStore.eligible, hstore.entries m hm, zeroEntry]
    refine ⟨_, .head .mark rfl ?_ (.refl _), rfl⟩
    unfold zeroItems
    rw [range'_rest hm, range'_concat, List.map_append]
    exact congrArg (fun found => some (marking s chunkIndex s.store (.predicting offset _ found)))
      (if_pos heligible)
  have hdrop : ∀ m t, m < n →
      (∃ store, t = marking s chunkIndex store (.dropping (zeroItems m (n - m))) ∧
        Rounds installed (fun _ => none) (zeroEntry .pending) n m store) →
      ∃ u, Reaches t u ∧ ∃ store,
        u = marking s chunkIndex store (.dropping (zeroItems (m + 1) (n - (m + 1)))) ∧
        Rounds installed (fun _ => none) (zeroEntry .pending) n (m + 1) store := by
    rintro m _ hm ⟨store, rfl, h⟩
    refine ⟨_, .head .mark rfl ?_ (.refl _), _, rfl, h.dropPersisted hm⟩
    unfold zeroItems
    rw [range'_rest hm]
    rfl
  obtain ⟨_, hpredicted, rfl⟩ := Reaches.loop hpredict rfl
  obtain ⟨_, hdropped, store', rfl, hstore'⟩ := Reaches.loop hdrop
    ⟨{ s.store with persistedExtents := installed }, rfl, rfl, hstore.entries⟩
  have hs : marking s chunkIndex s.store (.predicting offset (zeroItems 0 n) []) = s := by
    rw [marking, ← hmap]
    rfl
  rw [Nat.sub_self] at hpredicted hdropped
  have hreaches :
      Reaches (marking s chunkIndex s.store (.predicting offset (zeroItems 0 n) [])) _ :=
    hpredicted.trans (.head .mark rfl rfl hdropped)
  rw [hs] at hreaches
  exact ⟨_, hreaches, rfl, rfl, hstore'⟩

end Loops

section Drain

variable {n : Nat}

theorem patches_zeros (n : Nat) :
    patches 1 0 (List.replicate (n + 1) 0) = zeroPatches 0 (n + 1) := by
  unfold patches zeroPatches
  simp only [List.length_replicate, Nat.zero_add, Nat.div_one, Nat.mul_one, Nat.zero_sub,
    Nat.sub_zero, Nat.add_zero, Nat.add_sub_cancel, List.range_eq_range']
  refine List.map_congr_left fun i hi => ?_
  have hi := List.mem_range'_1.mp hi
  rw [if_neg (by omega), List.drop_replicate, List.take_replicate, Nat.min_eq_left (by omega)]
  rfl

theorem segmentJobs_zeros (hn : n ≤ 65535) (timestamp : Nat) :
    State.segmentJobs wideEnv (wideConfig.segment timestamp (zeroBlocks 1 0 (n + 1))) =
      some [zeroBlocks 1 0 (n + 1)] := by
  have hfits : ∀ b ∈ zeroBlocks 1 0 (n + 1), b.Fits wideConfig := by
    intro b hb
    obtain ⟨i, hi, rfl⟩ := List.mem_map.mp hb
    have hi := List.mem_range'_1.mp hi
    refine ⟨rfl, ?_, ?_, ?_⟩ <;> dsimp only <;> omega
  unfold State.segmentJobs
  rw [show wideEnv.cfg = wideConfig from rfl,
    Config.readClosedSegment_segment timestamp (fun _ => by decide) hfits]
  refine congrArg some (chunkJobs_zeroBlocks Nat.one_pos n.succ_pos ?_)
  show n * 1 < 65536
  omega

theorem runItems_zeros (n : Nat) :
    State.runItems ⟨[0], 1, 0, 1⟩ (zeroBlocks 1 1 n) = zeroItems 0 (n + 1) := by
  have hseqNums : (zeroBlocks 1 0 (n + 1)).map Block.seqNum = (List.range (n + 1)).map (· + 1) := by
    rw [zeroBlocks, List.map_map, List.range_eq_range']
    rfl
  rw [zeroBlocks_succ] at hseqNums
  simp only [State.runItems, length_zeroBlocks, Nat.zero_add]
  exact (congrArg _ hseqNums).trans ((rangeItems_range (n + 1) id (· + 1)).trans (by
    rw [zeroItems, List.range_eq_range']
    rfl))

theorem reaches_upload (hn : n ≤ 65535) {s : State} {quiet : Bool}
    (hdrain : s.drain = some ⟨.flushed, quiet⟩) (hbatches : s.batches = ∅)
    (huploads : s.uploads = []) (hmapInsert : s.mapInsert = none)
    (hrecords : s.wal.records = zeroBlocks 1 0 (n + 1))
    (hmap : s.volume.vb.blocksToObject = (VB.new false).blocksToObject)
    (next : ReopenSystem.Segment) :
    ∃ t, Reaches s t ∧ t.store = s.store ∧ t.writers = s.writers ∧
      t.volume.vb.blocksToObject = (VB.new false).blocksToObject.publishRun
        wideConfig.blockStride s.volume.vb.objectNum (0, zeroBlocks 1 0 (n + 1)) ∧
      t.mapInsert = some ⟨0, s.volume.vb.objectNum, [],
        some (.predicting chunkHeaderSize (zeroItems 0 (n + 1)) [])⟩ := by
  have hruns : chunkRuns (zeroBlocks 1 0 (n + 1)) = [(0, zeroBlocks 1 0 (n + 1))] := by
    rw [chunkRuns, splitBy_zeroBlocks n.succ_pos]
    rfl
  rw [zeroBlocks_succ] at hruns
  obtain ⟨⟨vb, files, backend⟩, writes, pending, bytes, full, ⟨name, timestamp, records⟩, flush,
    drain, batches, uploads, mapInsert, writers, readers, published⟩ := s
  dsimp only at *
  subst hdrain hbatches huploads hmapInsert hrecords
  refine ⟨_, .head (.rotate 0 true true next) rfl (by
      simp only [step, State.rotate, if_true]
      rw [show wideEnv.cfg = wideConfig from rfl, segmentJobs_zeros hn]
      rfl)
    (.head (.allocate 0) rfl rfl (.head (.put 0 .ok) rfl rfl (.head (.evict 0) rfl rfl
      (.head (.lockMap 0) rfl rfl (.head .insertRun rfl (by
        simp only [step, State.insertRun, zeroBlocks_succ, hruns, hmap]
        rfl) (.refl _)))))), ?_, ?_, ?_, ?_⟩
  · rfl
  · rfl
  · rfl
  · rw [← runItems_zeros]
    rfl

/-- Zeros that fit one chunk are written, drained and moved to the extents. -/
theorem exists_drained (hn : n ≤ 65535) {v : Volume} (hseqNum : v.vb.seqNum = 0)
    (hmap : v.vb.blocksToObject = (VB.new false).blocksToObject)
    (hentries : v.vb.blockStore.entries = ∅) (wal : ReopenSystem.Segment) :
    ∃ t published, Reaches (State.opened v wal) t ∧
      t.writers = AList.insert 0 ⟨[], .waiting, published⟩ ∅ ∧
      t.volume.vb.blocksToObject = (VB.new false).blocksToObject.publishRun
        wideConfig.blockStride v.vb.objectNum (0, zeroBlocks 1 0 (n + 1)) ∧
      Rounds (installRuns v.vb.objectNum chunkHeaderSize wideConfig.blockStride
        v.vb.blockStore.persistedExtents (zeroItems 0 (n + 1))) (fun _ => none)
        (zeroEntry .pending) (n + 1) (n + 1) t.store := by
  have hadmits : (State.opened v wal).admits wideEnv 0 (List.replicate (n + 1) 0) false = true := by
    have hle : n + 1 ≤ wideEnv.volumeSize := Nat.succ_le_succ hn
    simp [State.admits, State.opened, hle]
  have hbegin : State.beginWrite wideEnv (State.opened v wal) 0 0 (List.replicate (n + 1) 0) false =
      some (writing v wal (n + 1) 0 v.vb.blockStore []) := by
    rw [State.beginWrite, hadmits, show wideEnv.cfg.blockSize = 1 from rfl, patches_zeros]
    obtain ⟨⟨_⟩, _⟩ := v
    cases hseqNum
    rfl
  obtain ⟨store, published, hwrites, hwritten⟩ := @reaches_writes v.vb.blockStore.persistedExtents
    (n + 1) v wal (by omega) ⟨rfl, fun i _ => by rw [hentries]; rfl⟩
  obtain ⟨pending, hflush, hpending⟩ := reaches_flush
    { writing v wal (n + 1) (n + 1) store published with drain := some ⟨.flushing, false⟩ }
    (hwritten.again (zeroEntry .pending))
  unfold writing at hwrites hflush
  unfold flushing at hflush
  rw [Nat.sub_self] at hwrites hflush
  have hflushed := hwrites.trans (.head .beginDrain rfl rfl (.head (.beginFlush true) rfl rfl
    (hflush.trans (.head .endFlush rfl rfl (.refl _)))))
  obtain ⟨s, hs, hdrain, hbatches, huploads, hinsert, hrecords, hvb, hwriters⟩ :
      ∃ s, Reaches _ s ∧ s.drain = some ⟨.flushed, false⟩ ∧ s.batches = ∅ ∧ s.uploads = [] ∧
        s.mapInsert = none ∧ s.wal.records = zeroBlocks 1 0 (n + 1) ∧
        s.volume.vb = { v.vb with seqNum := n + 1, blockStore := pending } ∧
        s.writers = AList.insert 0 ⟨[], .waiting, n + 1⟩ ∅ :=
    ⟨_, hflushed, rfl, rfl, rfl, rfl, rfl, rfl, rfl⟩
  obtain ⟨t, hupload, hstore, hwriters', hblocks, hinsert'⟩ := reaches_upload hn hdrain hbatches
    huploads hinsert hrecords (by rw [hvb]; exact hmap) wal
  obtain ⟨u, hmark, hwriters'', hblocks', hmarked⟩ := reaches_mark hinsert' (by
    rw [hstore, State.store, hvb]
    exact hpending.again fun _ => none)
  rw [hvb] at hblocks hmarked
  exact ⟨u, n + 1, .head (.beginWrite 0 0 (List.replicate (n + 1) 0) false) rfl hbegin
    (hs.trans (hupload.trans hmark)), hwriters''.trans (hwriters'.trans hwriters),
    hblocks'.trans hblocks, hmarked⟩

end Drain

end Engine

end Viperblock
