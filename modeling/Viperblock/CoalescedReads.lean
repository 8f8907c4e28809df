import Viperblock.ChunkGeometry

/-!
# Merged reads and reads of single blocks

A read fetches wanted blocks with one request if their numbers are consecutive and their
chunk is the same; it never compares their offsets.  That is right as long as consecutive
blocks of one chunk are neighbours in it.  `createChunkFile` sorts the blocks of a chunk, and
nothing that happens to a map later moves a block inside of a chunk: a map is fractured,
merged, saved, loaded, frozen in snapshots and inherited by clones.

A clone reads inherited chunks with its own block size.
-/

namespace Viperblock

open BlockMap BlocksToObject ByteCodec Config UnifiedBlockStore

namespace CoalescedReads

/-- A request for one block. -/
def single (w : WantedBlock) : ConsecutiveBlock where
  blockPosition := w.blockPosition
  startBlock := w.block
  numBlocks := 1
  objectID := w.loc.objectID
  objectOffset := w.loc.objectOffset
  seqNums := [w.loc.seqNum]

/-- A backend by its objects. -/
def reader (objects : Nat → Option Bytes) : ObjectReader :=
  fun id offset length => readFile (objects id) offset length

section Runs

variable {cfg : Config} {objects : Nat → Option Bytes}

/-- A request for as many blocks as it has sequence numbers. -/
def stretch (position block id offset : Nat) (seqNums : List Nat) : ConsecutiveBlock :=
  ⟨position, block, seqNums.length, id, offset, seqNums⟩

/-- What a run makes of the bytes of its slots. -/
def openRun (cfg : Config) (id block : Nat) (seqNums : List Nat) (piece : Bytes) :
    Except ReadError Bytes :=
  if cfg.sealing.isSome then
    cfg.openSlots id block seqNums (frames (cfg.blockSize + 16) (seqNums.length + 1) piece)
  else .ok piece

theorem readFile_ok_length {object : Option Bytes} {offset length : Nat} {piece : Bytes}
    (hlength : length ≠ 0) (hread : readFile object offset length = .ok piece) :
    piece.length = length := by
  unfold readFile at hread
  cases object with
  | none => cases hread
  | some bytes =>
    simp only [if_neg hlength] at hread
    split at hread
    · cases hread
      rw [List.length_take, List.length_drop]
      omega
    · cases hread

theorem readFile_add (object : Option Bytes) (offset : Nat) {p q : Nat} (hp : p ≠ 0) (hq : q ≠ 0) :
    (readFile object offset (p + q)).toOption = (readFile object offset p).toOption.bind fun a =>
        (readFile object (offset + p) q).toOption.map fun b => a ++ b := by
  cases object with
  | none => rfl
  | some bytes =>
    simp only [readFile, if_neg hp, if_neg hq, if_neg (show p + q ≠ 0 by omega)]
    by_cases hfits : offset + (p + q) ≤ bytes.length
    · rw [if_pos hfits, if_pos (by omega), if_pos (by omega), List.take_add, List.drop_drop]
      rfl
    · rw [if_neg hfits, if_neg (show ¬ offset + p + q ≤ bytes.length by omega)]
      split <;> rfl

theorem fetchRun_stretch (objects : Nat → Option Bytes)
    (position block id offset : Nat) (seqNums : List Nat) (hpos : 0 < seqNums.length)
    (hlt : seqNums.length * cfg.slotSize < 2 ^ 32) :
    (cfg.fetchRun (reader objects) (stretch position block id offset seqNums)).toOption =
      (cfg.checkChunkMagic (reader objects) id).toOption.bind fun _ =>
        (readFile (objects id) offset (seqNums.length * cfg.slotSize)).toOption.bind
          fun piece => (openRun cfg id block seqNums piece).toOption := by
  have hstride : cfg.blockStride = cfg.slotSize := by
    have hle := Nat.le_mul_of_pos_left cfg.slotSize hpos
    unfold blockStride slotSize at *
    cases hsealing : cfg.sealing with
    | none => rfl
    | some s =>
      simp only [hsealing] at hle hlt
      exact Nat.mod_eq_of_lt (by omega)
  have hlength : cfg.runLength (stretch position block id offset seqNums) =
      seqNums.length * cfg.slotSize := by
    rw [runLength, hstride]
    exact Nat.mod_eq_of_lt hlt
  have hne : seqNums.length * cfg.slotSize ≠ 0 :=
    Nat.ne_of_gt (Nat.mul_pos hpos cfg.slotSize_pos)
  have hobject : reader objects id offset (seqNums.length * cfg.slotSize) =
      readFile (objects id) offset (seqNums.length * cfg.slotSize) := rfl
  unfold fetchRun
  rw [hlength]
  dsimp only [stretch]
  rw [hobject]
  cases hmagic : cfg.checkChunkMagic (reader objects) id with
  | error err => rfl
  | ok checked =>
    cases hread : readFile (objects id) offset (seqNums.length * cfg.slotSize) with
    | error err => rfl
    | ok piece =>
      have hpiece := readFile_ok_length hne hread
      dsimp only [Except.toOption, Option.bind_some]
      cases hsealing : cfg.sealing with
      | none =>
        have hslot : cfg.slotSize = cfg.blockSize := by
          simp only [slotSize, hsealing]
        have htake : piece.take (seqNums.length * cfg.blockSize) = piece := by
          rw [← hslot, ← hpiece, List.take_length]
        simp [openRun, hsealing, hpiece, htake]
      | some s =>
        have hslot : cfg.slotSize = cfg.blockSize + 16 := by
          simp only [slotSize, hsealing]
        rw [hslot] at hpiece
        simp [openRun, hsealing, openChunkRun, hpiece]

theorem openRun_cons (id block seqNum : Nat) (seqNums : List Nat) {a b : Bytes}
    (ha : a.length = cfg.slotSize) :
    (openRun cfg id block (seqNum :: seqNums) (a ++ b)).toOption =
      (openRun cfg id block [seqNum] a).toOption.bind fun p =>
        (openRun cfg id (block + 1) seqNums b).toOption.map fun q => p ++ q := by
  cases hsealing : cfg.sealing with
  | none => simp [openRun, hsealing, Except.toOption]
  | some s =>
    have hslot : cfg.slotSize = cfg.blockSize + 16 := by
      simp only [slotSize, hsealing]
    rw [hslot] at ha
    have hframes : ∀ fuel l, frames (cfg.blockSize + 16) (fuel + 1) (a ++ l) =
        a :: frames (cfg.blockSize + 16) fuel l := by
      intro fuel l
      rw [frames, if_neg (by rw [List.length_append]; omega), List.take_left' ha,
        List.drop_left' ha]
    have hempty : frames (cfg.blockSize + 16) 1 ([] : Bytes) = [] := by
      simp [frames]
    have halone := hframes 1 []
    rw [List.append_nil, hempty] at halone
    simp only [openRun, hsealing, Option.isSome_some, if_true, List.length_cons,
      List.length_nil, Nat.zero_add, halone, hframes, openSlots]
    cases hfirst : cfg.openBlock domainChunk block seqNum a with
    | none => rfl
    | some plain =>
      cases hrest : cfg.openSlots id (block + 1) seqNums
          (frames (cfg.blockSize + 16) (seqNums.length + 1) b) with
      | error err => rfl
      | ok rest => simp [Except.toOption]

/-- One request brings what two do that split it. -/
theorem fetchRun_cons (objects : Nat → Option Bytes)
    (position next block id offset seqNum : Nat) (seqNums : List Nat) (hpos : 0 < seqNums.length)
    (hlt : (seqNums.length + 1) * cfg.slotSize < 2 ^ 32) :
    (cfg.fetchRun (reader objects)
        (stretch position block id offset (seqNum :: seqNums))).toOption =
      (cfg.fetchRun (reader objects) (stretch position block id offset [seqNum])).toOption.bind
        fun p => (cfg.fetchRun (reader objects)
          (stretch next (block + 1) id (offset + cfg.slotSize) seqNums)).toOption.map
            fun q => p ++ q := by
  have hslot := cfg.slotSize_pos
  have hmul : (seqNums.length + 1) * cfg.slotSize =
      cfg.slotSize + seqNums.length * cfg.slotSize := by
    rw [Nat.add_one_mul, Nat.add_comm]
  rw [fetchRun_stretch objects position block id offset (seqNum :: seqNums) (Nat.succ_pos _) hlt,
    fetchRun_stretch objects position block id offset [seqNum] Nat.one_pos
      (by rw [List.length_singleton]; omega),
    fetchRun_stretch objects next (block + 1) id (offset + cfg.slotSize) seqNums hpos (by omega),
    List.length_cons, hmul, readFile_add _ _ (Nat.ne_of_gt hslot)
      (Nat.ne_of_gt (Nat.mul_pos hpos hslot)), List.length_singleton, Nat.one_mul]
  cases (cfg.checkChunkMagic (reader objects) id).toOption with
  | none => rfl
  | some checked =>
    cases hfirst : readFile (objects id) offset cfg.slotSize with
    | error err => rfl
    | ok a =>
      have ha := readFile_ok_length (Nat.ne_of_gt hslot) hfirst
      cases readFile (objects id) (offset + cfg.slotSize) (seqNums.length * cfg.slotSize) with
      | error err => simp [Except.toOption]
      | ok b => exact openRun_cons id block seqNum seqNums ha

theorem length_of_fetchRun_single {position block id offset seqNum : Nat} {p : Bytes}
    (hlt : cfg.slotSize < 2 ^ 32)
    (hfetch : cfg.fetchRun (reader objects) (stretch position block id offset [seqNum]) = .ok p) :
    p.length = cfg.blockSize := by
  cases hsealing : cfg.sealing with
  | none =>
    have hslot : cfg.slotSize = cfg.blockSize := by
      simp only [slotSize, hsealing]
    have hsome := fetchRun_stretch objects position block id offset [seqNum]
      Nat.one_pos (by rwa [List.length_singleton, Nat.one_mul])
    rw [hfetch, List.length_singleton, Nat.one_mul] at hsome
    obtain ⟨-, -, hread⟩ := Option.bind_eq_some_iff.mp hsome.symm
    obtain ⟨piece, hpiece, hopen⟩ := Option.bind_eq_some_iff.mp hread
    simp only [openRun, hsealing, Option.isSome_none, Bool.false_eq_true, if_false] at hopen
    cases hopen
    cases hfile : readFile (objects id) offset cfg.slotSize with
    | error err =>
      rw [hfile] at hpiece
      cases hpiece
    | ok bytes =>
      rw [hfile] at hpiece
      cases hpiece
      rw [readFile_ok_length (Nat.ne_of_gt cfg.slotSize_pos) hfile, hslot]
  | some s =>
    obtain ⟨-, -, plains, -, -, rfl, hlength, hdata, -⟩ :=
      exists_of_fetchRun (by rw [hsealing]; rfl) hfetch
    obtain ⟨data, rfl⟩ := List.length_eq_one_iff.mp hlength
    rw [List.flatten_singleton]
    exact hdata data (List.mem_singleton_self _)

theorem overwrite_append (buffer : Bytes) (start : Nat) (p q : Bytes) :
    overwrite buffer start (p ++ q) =
      overwrite (overwrite buffer start p) (start + p.length) q := by
  have hlength : (buffer.take start ++ p).length = min start buffer.length + p.length := by
    rw [List.length_append, List.length_take]
  unfold overwrite
  by_cases hstart : start ≤ buffer.length
  · rw [Nat.min_eq_left hstart] at hlength
    have hdrop : (buffer.take start ++ p ++ buffer.drop (start + p.length)).drop
        (start + p.length + q.length) = buffer.drop (start + (p ++ q).length) := by
      rw [← List.drop_drop, List.drop_left' hlength, List.drop_drop, List.length_append,
        Nat.add_assoc]
    rw [hdrop, List.take_left' hlength, List.append_assoc _ p q]
  · rw [Nat.min_eq_right (by omega)] at hlength
    have hend : buffer.take start ++ p ++ buffer.drop (start + p.length) =
        buffer.take start ++ p := by
      rw [List.drop_eq_nil_of_le (by omega), List.append_nil]
    have hall : (buffer.take start ++ p).take (start + p.length) = buffer.take start ++ p :=
      List.take_of_length_le (by omega)
    rw [hend, hall, List.drop_eq_nil_of_le (by omega), List.drop_eq_nil_of_le (by omega),
      List.append_assoc _ p q]

/-- The buffer after some requests, if all of them succeed. -/
def fill (cfg : Config) (read : ObjectReader) (cbs : List ConsecutiveBlock) (data : Bytes) :
    Option Bytes :=
  cbs.foldlM (fun data cb => (cfg.fetchRun read cb).toOption.map
    (overwrite data (cb.blockPosition * cfg.blockSize))) data

theorem fill_cons
    (read : ObjectReader) (cb : ConsecutiveBlock) (cbs : List ConsecutiveBlock) (data : Bytes) :
    fill cfg read (cb :: cbs) data = (cfg.fetchRun read cb).toOption.bind fun plain =>
        fill cfg read cbs (overwrite data (cb.blockPosition * cfg.blockSize) plain) := by
  rw [fill, List.foldlM_cons]
  cases cfg.fetchRun read cb with
  | error err => rfl
  | ok plain => rfl

theorem toOption_fetchRuns (read : ObjectReader) (cbs : List ConsecutiveBlock) (data : Bytes)
    (store : UnifiedBlockStore) :
    (cfg.fetchRuns read cbs data store).1.toOption = fill cfg read cbs data := by
  induction cbs generalizing data store with
  | nil => rfl
  | cons cb cbs ih =>
    rw [fill_cons, fetchRuns]
    cases cfg.fetchRun read cb with
    | error err => rfl
    | ok plain => exact ih _ _

/-- Wanted blocks of which each is in the slot behind the one before it. -/
structure Neighbours (cfg : Config) (run : List WantedBlock) : Prop where
  count : run.length ≤ 65535
  size : run.length * cfg.slotSize < 2 ^ 32
  next : run.IsChain fun a b => b.block = a.block + 1 ∧
    b.blockPosition = a.blockPosition + 1 ∧ b.loc.objectID = a.loc.objectID ∧
    b.loc.objectOffset = a.loc.objectOffset + cfg.slotSize

theorem coalesceRun_eq_stretch {head : WantedBlock} {rest : List WantedBlock}
    (hcount : (head :: rest).length ≤ 65535) :
    coalesceRun (head :: rest) =
      some (stretch head.blockPosition head.block head.loc.objectID head.loc.objectOffset
        ((head :: rest).map fun w => w.loc.seqNum)) := by
  have hcast : safeIntToUint16 (rest.length + 1) = rest.length + 1 := Nat.min_eq_left hcount
  rw [coalesceRun, hcast, stretch, List.length_map, List.length_cons]

theorem fill_run {head : WantedBlock} {rest : List WantedBlock} {cb : ConsecutiveBlock}
    (hrun : Neighbours cfg (head :: rest)) (hcb : coalesceRun (head :: rest) = some cb)
    (data : Bytes) :
    fill cfg (reader objects) [cb] data =
      fill cfg (reader objects) ((head :: rest).map single) data := by
  induction rest generalizing head cb data with
  | nil =>
    cases hcb
    rfl
  | cons second rest ih =>
    rw [coalesceRun_eq_stretch hrun.count] at hcb
    cases hcb
    obtain ⟨⟨hblock, hposition, hid, hoffset⟩, hchain⟩ :=
      List.isChain_cons_cons.mp hrun.next
    have hcount := hrun.count
    have hsize := hrun.size
    rw [List.length_cons] at hcount hsize
    have hmul := Nat.add_one_mul (second :: rest).length cfg.slotSize
    have hrest : Neighbours cfg (second :: rest) := ⟨by omega, by omega, hchain⟩
    have hsplit := fetchRun_cons objects head.blockPosition second.blockPosition head.block
      head.loc.objectID head.loc.objectOffset head.loc.seqNum
      ((second :: rest).map fun w => w.loc.seqNum) (Nat.succ_pos _) (by rwa [List.length_map])
    rw [← hblock, ← hid, ← hoffset, hid] at hsplit
    have hsingle : single head = stretch head.blockPosition head.block head.loc.objectID
      head.loc.objectOffset [head.loc.seqNum] := rfl
    have hsingles : fill cfg (reader objects) ((head :: second :: rest).map single) data =
        (cfg.fetchRun (reader objects) (single head)).toOption.bind fun p =>
          fill cfg (reader objects) ((second :: rest).map single)
            (overwrite data (head.blockPosition * cfg.blockSize) p) :=
      fill_cons ..
    rw [hsingles, fill_cons, List.map_cons, hsplit, ← hsingle]
    cases hfirst : cfg.fetchRun (reader objects) (single head) with
    | error err => rfl
    | ok p =>
      have hend : second.blockPosition * cfg.blockSize =
          head.blockPosition * cfg.blockSize + p.length := by
        rw [hposition, Nat.add_one_mul, length_of_fetchRun_single (by omega) hfirst]
      have hseconds := ih hrest (coalesceRun_eq_stretch hrest.count)
        (overwrite data (head.blockPosition * cfg.blockSize) p)
      rw [fill_cons, hid] at hseconds
      refine Eq.trans ?_ hseconds
      cases cfg.fetchRun (reader objects) (stretch second.blockPosition second.block
          head.loc.objectID second.loc.objectOffset
          ((second :: rest).map fun w => w.loc.seqNum)) with
      | error err => rfl
      | ok q =>
        refine congrArg some ?_
        dsimp only [stretch]
        rw [overwrite_append, hend]

theorem fill_append (read : ObjectReader) (cbs cbs' : List ConsecutiveBlock) (data : Bytes) :
    fill cfg read (cbs ++ cbs') data = (fill cfg read cbs data).bind (fill cfg read cbs') :=
  List.foldlM_append

/-- The blocks of all runs may be fetched one by one. -/
theorem fill_coalesceBlocks {wanted : List WantedBlock}
    (hruns : ∀ run ∈ wanted.splitBy WantedBlock.continues, Neighbours cfg run)
    (objects : Nat → Option Bytes) (data : Bytes) :
    fill cfg (reader objects) (coalesceBlocks wanted) data =
      fill cfg (reader objects) (wanted.map single) data := by
  have hsplit : ∀ runs : List (List WantedBlock), [] ∉ runs →
      (∀ run ∈ runs, Neighbours cfg run) → ∀ data,
        fill cfg (reader objects) (runs.filterMap coalesceRun) data =
          fill cfg (reader objects) (runs.flatten.map single) data := by
    intro runs
    induction runs with
    | nil =>
      intro _ _ data
      rfl
    | cons run runs ih =>
      intro hne hruns data
      obtain ⟨head, rest, rfl⟩ := List.exists_cons_of_ne_nil
        (fun hempty => hne (hempty ▸ List.mem_cons_self) : run ≠ [])
      have hfirst := hruns _ List.mem_cons_self
      have hcb := coalesceRun_eq_stretch hfirst.count
      rw [List.filterMap_cons_some hcb, ← List.singleton_append, fill_append,
        fill_run hfirst hcb, List.flatten_cons, List.map_append, fill_append]
      refine congrArg _ (funext fun data => ?_)
      exact ih (fun hmem => hne (List.mem_cons_of_mem _ hmem))
        (fun run hrun => hruns run (List.mem_cons_of_mem _ hrun)) data
  have hall := hsplit (wanted.splitBy WantedBlock.continues) (List.nil_notMem_splitBy _ _)
    hruns data
  rwa [List.flatten_splitBy] at hall

theorem neighbours_of_located {packing : Nat → List Block} {first : Nat} {wanted : List WantedBlock}
    (hpacked : ∀ id, packing id ≠ [] → Packed cfg (packing id))
    (hrequested : Requested first wanted)
    (hlocated : ∀ w ∈ wanted, ∃ b, Located cfg packing w.block w.loc b) :
    ∀ run ∈ wanted.splitBy WantedBlock.continues, Neighbours cfg run := by
  intro run hrun
  obtain ⟨head, rest, rfl⟩ := List.exists_cons_of_ne_nil (List.ne_nil_of_mem_splitBy hrun)
  have hisRun : IsRun wanted head rest _ := ⟨hrun, rfl⟩
  have hin : ∀ w ∈ head :: rest, ∃ b, Located cfg packing w.block w.loc b :=
    fun w hw => hlocated w (hisRun.subset hw)
  have hchunk : ∀ w ∈ head :: rest, Packed cfg (packing w.loc.objectID) := by
    intro w hw
    obtain ⟨b, -, i, hi, -⟩ := hin w hw
    exact hpacked _ (List.ne_nil_of_mem (List.mem_of_getElem? hi))
  obtain ⟨start, slice, hslice⟩ :=
    exists_runSlice (hchunk head List.mem_cons_self) hisRun.chain hin
  obtain ⟨hcount, -, hsize⟩ := hslice.lengths (hchunk head List.mem_cons_self)
  refine ⟨?_, hsize, ?_⟩
  · unfold safeIntToUint16 at hcount
    rw [List.length_cons]
    omega
  · rw [List.isChain_iff_getElem]
    intro k hk
    have hnext := List.isChain_iff_getElem.mp hisRun.chain k hk
    simp only [WantedBlock.continues, Bool.and_eq_true, beq_iff_eq] at hnext
    have hfirst := List.getElem_mem (Nat.lt_of_succ_lt hk)
    have hsecond := List.getElem_mem hk
    obtain ⟨a, hablock, i, hi, haloc⟩ := hin _ hfirst
    obtain ⟨b, hbblock, j, hj, hbloc⟩ := hin _ hsecond
    rw [hnext.2] at hj
    have hindex := (hchunk _ hfirst).index_succ hi hj (by rw [hbblock, hablock, hnext.1])
    have hposition := hrequested.block _ (hisRun.subset hfirst)
    have hposition' := hrequested.block _ (hisRun.subset hsecond)
    refine ⟨hnext.1, by omega, hnext.2, ?_⟩
    rw [haloc, hbloc]
    simp only [slotLocation, hindex, Nat.add_one_mul, Nat.add_assoc]

end Runs

section Engines

/-- The engine of a volume from its first open on: blocks come and go in memory, chunks are
stored, the map is installed after a replay, and a checkpoint of an earlier map is loaded. -/
inductive Engine (fits : Config → List Block → Prop) (cfg : Config) : VB → Prop
  | new (gcEnabled : Bool) :
      Engine fits cfg (VB.new gcEnabled)
  | memory {vb : VB} {store : UnifiedBlockStore} :
      Engine fits cfg vb →
      store.persistedExtents = vb.blockStore.persistedExtents →
      (∀ block e, store.entries.lookup block = some e → e.state ≠ .persisted) →
      Engine fits cfg { vb with blockStore := store }
  | createChunkFile {v : Volume} {job : List Block} (out : Outcome) :
      Engine fits cfg v.vb →
      SealedReads.isJob cfg job = true →
      fits cfg job →
      v.vb.objectNum + 1 < 2 ^ 64 →
      Engine fits cfg (v.createChunkFile cfg job out).1.vb
  | syncRecovered {v : Volume} (maxSeqNum : Nat) :
      Engine fits cfg v.vb →
      Engine fits cfg (v.syncRecovered cfg maxSeqNum).vb
  | load {saved : VB} {v loaded : Volume} {entries : List MapEntry} (timestamp : Nat) :
      Engine fits cfg saved →
      entries.Perm saved.blocksToObject.blockLookup.entries →
      v.vb.blockStore = new →
      v.vb.objectNum < 2 ^ 64 →
      v.parseCheckpointFile cfg (checkpointBytes cfg.version timestamp
        (expandEntries cfg.blockStride entries)) = (loaded, .ok ()) →
      Engine fits cfg loaded.vb

/-- The layers of a clone: those of the volume its snapshot was taken of. -/
inductive Inherits (fits : Config → List Block → Prop) (alike : Config → Config → Prop) :
    Config → List Layer → Prop
  | none (cfg : Config) :
      Inherits fits alike cfg []
  | snapshot {source cfg : Config} {vb : VB} {v w opened : CloneVolume} {walk : SnapshotWalk}
      {snap : SnapshotObject} (uuid : Bytes) :
      Engine fits source vb →
      Inherits fits alike source v.layers →
      v.own = vb.blocksToObject →
      v.stride = source.blockStride →
      (v.base = .none → v.ancestors = []) →
      v.encryptionEnabled = source.sealing.isSome →
      w.encryptionEnabled = cfg.sealing.isSome →
      alike source cfg →
      walk.Of v →
      (v.mintVolumeUUID uuid).createSnapshot walk = .ok snap →
      w.openFromSnapshot snap = .ok opened →
      Inherits fits alike cfg opened.layers

variable {cfg : Config} {vb : VB}

/-- The blocks of a map are where `createChunkFile` put them. -/
structure Kept (cfg : Config) (packing : Nat → List Block) (vb : VB) : Prop where
  mapped : SealedReads.Mapped cfg packing vb
  regular : Regular cfg.blockStride vb.objectNum vb.blocksToObject
  packed : ∀ id, packing id ≠ [] → Packed cfg (packing id)
  free : ∀ id, vb.objectNum ≤ id → packing id = []

theorem kept_new (gcEnabled : Bool) :
    Kept cfg (fun _ => []) (VB.new gcEnabled) := by
  refine ⟨⟨VB.sound_new gcEnabled, ExtentMap.wellFormed_empty, ?_, ?_, ?_⟩,
    Regular.new _ gcEnabled, fun _ hne => absurd rfl hne, fun _ _ => rfl⟩
  · intro block e he
    cases he
  · intro block loc hloc
    cases hloc
  · intro block loc hloc
    cases hloc

theorem Kept.createChunkFile {packing : Nat → List Block} {v : Volume} {job : List Block}
    (h : Kept cfg packing v.vb) (hjob : SealedReads.isJob cfg job = true)
    (hfits : cfg.jobFits job = true) (hroom : v.vb.objectNum + 1 < 2 ^ 64) (out : Outcome) :
    Kept cfg (Function.update packing v.vb.objectNum job)
      (v.createChunkFile cfg job out).1.vb := by
  have hpacked := packed_of_isJob hjob hfits
  obtain ⟨hnum, hmap⟩ := @Volume.createChunkFile_map cfg v job out
  have hnew : v.vb.objectNum ∉ v.vb.blocksToObject.blockLookup.objectIDs := by
    intro hmem
    obtain ⟨block, loc, hloc, hid⟩ :=
      (h.regular.sound.wf.mem_objectIDs_iff_lookup cfg.blockStride).mp hmem
    have hlt := (h.regular.bounded block loc hloc).2.1
    omega
  simp only [SealedReads.isJob, Bool.and_eq_true, List.all_eq_true, decide_eq_true_eq] at hjob
  refine ⟨h.mapped.createChunkFile (h.free _ (Nat.le_refl _)) hpacked out, ?_, ?_, ?_⟩
  · rw [hnum, hmap]
    split
    · exact (h.regular.allocate hroom).publish (Nat.lt_succ_self _) hnew hjob.1
        fun b hb => (hjob.2 b hb).2
    · exact h.regular.allocate hroom
  · intro id hid
    by_cases heq : id = v.vb.objectNum
    · rw [heq, Function.update_self]
      exact hpacked
    · rw [Function.update_of_ne heq] at hid ⊢
      exact h.packed id hid
  · intro id hid
    rw [hnum] at hid
    rw [Function.update_of_ne (by omega)]
    exact h.free id (by omega)

theorem Kept.syncRecovered {packing : Nat → List Block} {v : Volume} (h : Kept cfg packing v.vb)
    (maxSeqNum : Nat) :
    Kept cfg packing (v.syncRecovered cfg maxSeqNum).vb := by
  obtain ⟨hwf, hentries, hlocate⟩ := installMap_spec
    cfg.blockStride h.mapped.wf h.mapped.sound.wf
  refine ⟨⟨h.mapped.sound, hwf, ?_, h.mapped.map, ?_⟩, h.regular, h.packed, h.free⟩
  · intro block e he
    exact h.mapped.entries block e (hentries ▸ he)
  · intro block loc hloc
    rcases Option.or_eq_some_iff.mp ((hlocate block).symm.trans hloc) with hmap | ⟨-, hold⟩
    · exact h.mapped.map block loc hmap
    · exact h.mapped.extents block loc hold

theorem Kept.load {packing : Nat → List Block} {saved : VB} {v loaded : Volume}
    {entries : List MapEntry} {timestamp : Nat} (h : Kept cfg packing saved)
    (horder : entries.Perm saved.blocksToObject.blockLookup.entries)
    (hstore : v.vb.blockStore = new) (hnum : v.vb.objectNum < 2 ^ 64)
    (hload : v.parseCheckpointFile cfg (checkpointBytes cfg.version timestamp (expandEntries
      cfg.blockStride entries)) = (loaded, .ok ())) :
    Kept cfg (fun id => if id < loaded.vb.objectNum then packing id else []) loaded.vb := by
  rw [Volume.parseCheckpointFile, walkBlockCheckpoint_checkpointBytes cfg.version_lt timestamp
    fun rec hrec => Volume.fits_of_mem_expandEntries h.regular horder hrec] at hload
  obtain ⟨hparsed, -⟩ := Prod.mk.inj hload
  have hrestored : Volume.Restored cfg saved.blocksToObject loaded :=
    hparsed ▸ Volume.restored_parseCheckpoint h.regular horder hstore
  have hregular : Regular cfg.blockStride loaded.vb.objectNum loaded.vb.blocksToObject :=
    hparsed ▸ h.regular.load v.vb.blocksToObject.gcRefcount.isSome hnum horder
  have hloaded : Loaded cfg (expandEntries cfg.blockStride entries) loaded :=
    hparsed ▸ loaded_parseCheckpoint hstore
      fun rec hrec => offset_lt_of_mem_expandEntries horder hrec
  have hlocated : ∀ block loc,
      lookupBlockToObject cfg.blockStride loaded.vb.blocksToObject.blockLookup block = some loc →
      ∃ b, Located cfg (fun id => if id < loaded.vb.objectNum then packing id else []) block
        loc b := by
    intro block loc hloc
    have hlt := (hregular.bounded block loc hloc).2.1
    rw [hrestored.map] at hloc
    obtain ⟨b, hblock, i, hi, hat⟩ := h.mapped.map block loc hloc
    refine ⟨b, hblock, i, ?_, hat⟩
    dsimp only
    rwa [if_pos hlt]
  refine ⟨⟨hloaded.sound, hloaded.extents, ?_, hlocated, ?_⟩, hregular, ?_, ?_⟩
  · intro block e he
    rw [hloaded.entries] at he
    cases he
  · intro block loc hloc
    rw [hloaded.locate] at hloc
    exact hlocated block loc hloc
  · intro id hid
    split at hid
    · rename_i hlt
      rw [if_pos hlt]
      exact h.packed id hid
    · exact absurd rfl hid
  · intro id hid
    exact if_neg (Nat.not_lt.mpr hid)

theorem Engine.kept (h : Engine (fun cfg job => cfg.jobFits job = true) cfg vb) :
    ∃ packing, Kept cfg packing vb := by
  induction h with
  | new gcEnabled => exact ⟨_, kept_new gcEnabled⟩
  | memory _ hextents hentries ih =>
    obtain ⟨packing, hkept⟩ := ih
    exact ⟨packing, hkept.mapped.setStore hextents hentries, hkept.regular, hkept.packed,
      hkept.free⟩
  | createChunkFile out _ hjob hfits hroom ih =>
    obtain ⟨packing, hkept⟩ := ih
    exact ⟨_, hkept.createChunkFile hjob hfits hroom out⟩
  | syncRecovered maxSeqNum _ ih =>
    obtain ⟨packing, hkept⟩ := ih
    exact ⟨packing, hkept.syncRecovered maxSeqNum⟩
  | load timestamp _ horder hstore hnum hload ih =>
    obtain ⟨packing, hkept⟩ := ih
    exact ⟨_, hkept.load horder hstore hnum hload⟩

/-- The records of a layer are where `createChunkFile` of some volume put the blocks. -/
def LayerKept (slotSize : Nat) (layer : Layer) : Prop :=
  ∃ (source : Config) (packing : Nat → List Block), source.slotSize = slotSize ∧
    (∀ id, packing id ≠ [] → Packed source (packing id)) ∧
    ∀ block bl, layer.blocks.lookup block = some bl →
      ∃ b, Located source packing block (recordLocation bl) b

theorem slotSize_congr {cfg cfg' : Config} (hsize : cfg.blockSize = cfg'.blockSize)
    (hsealing : cfg.sealing.isSome = cfg'.sealing.isSome) :
    cfg.slotSize = cfg'.slotSize := by
  unfold slotSize
  cases hfirst : cfg.sealing <;> cases hsecond : cfg'.sealing <;>
    simp [hfirst, hsecond, hsize] at hsealing ⊢

theorem Inherits.kept {layers : List Layer}
    (h : Inherits (fun cfg job => cfg.jobFits job = true)
      (fun source cfg => source.blockSize = cfg.blockSize) cfg layers) :
    ∀ layer ∈ layers, layer.Valid ∧ LayerKept cfg.slotSize layer := by
  induction h with
  | none =>
    intro layer hlayer
    cases hlayer
  | @snapshot source cfg vb v w opened walk snap uuid hengine _ hown hstride hancestors hkind
      hkind' hsize hwalk hcreate hopen ih =>
      obtain ⟨packing, hkept⟩ := hengine.kept
      have hvalid : v.Valid := by
        refine ⟨⟨?_, ?_⟩, fun layer hlayer => (ih layer hlayer).1, hancestors⟩
        · rw [hown]
          exact hkept.regular.sound
        · rw [hown, hstride]
          intro block loc hloc
          obtain ⟨hblock, hid, hseqNum⟩ := hkept.regular.bounded block loc hloc
          exact ⟨hblock, hid.trans hkept.regular.objectNum_lt, hseqNum⟩
      have hminted := hvalid.mintVolumeUUID uuid
      have hwalk' := CloneVolume.SnapshotWalk.Of.mintVolumeUUID hwalk uuid
      have hslot : source.slotSize = cfg.slotSize := by
        have hencrypted := (CloneVolume.kind_of_open hcreate hopen).1
        exact slotSize_congr hsize (hkind.symm.trans (hencrypted.symm.trans hkind'))
      intro layer hlayer
      refine ⟨hminted.layers_of_open hwalk' hcreate hopen layer hlayer, ?_⟩
      rcases hminted.layer_of_open hwalk' hcreate hopen hlayer with hbase | ⟨l, hl, hlookup⟩
      · refine ⟨source, packing, hslot, hkept.packed, fun block bl hbl => ?_⟩
        rw [hbase, lookup_flatRecords_expandEntries _ hminted.sound.wf hwalk'.own] at hbl
        obtain ⟨loc, hloc, rfl⟩ := Option.map_eq_some_iff.mp hbl
        refine hkept.mapped.map block loc ?_
        rw [← hown, ← hstride]
        exact hloc
      · obtain ⟨origin, packing', hslot', hpacked, hlocated⟩ := (ih l hl).2
        exact ⟨origin, packing', hslot'.trans hslot, hpacked,
          fun block bl hbl => hlocated block bl (hlookup block bl hbl)⟩

end Engines

section Ranges

variable {cfg : Config} {store : UnifiedBlockStore} {layers : List Layer} {first n : Nat}

/-- Where the blocks of a range are found. -/
def foundRange (store : UnifiedBlockStore) (layers : List Layer) (first n : Nat) :
    List (Nat × Nat × Found) :=
  (List.range n).map fun i => (i, first + i, findBlock store layers (first + i))

/-- The blocks of the layers one by one. -/
def fillLayers (cfg : Config) (objects : String → Nat → Option Bytes)
    (wanted : Nat → List WantedBlock) :
    List (Layer × Nat) → Bytes → Option Bytes
  | [], data => some data
  | (layer, index) :: layers, data =>
    if wanted index = [] then fillLayers cfg objects wanted layers data
    else if layer.source.name = "" then none
    else
      (fill (cfg.under layer.source) (reader (objects layer.source.name))
        ((wanted index).map single) data).bind (fillLayers cfg objects wanted layers)

/-- `readBlockStore` with a request for every block, at the block's own offset. -/
def readBlockByBlock (cfg : Config) (name : String) (objects : String → Nat → Option Bytes)
    (layers : List Layer) (store : UnifiedBlockStore) (block blockLen : Nat) :
    Option (Bytes × Bool) :=
  if blockLen % cfg.blockSize ≠ 0 then none
  else
    let found := foundRange store layers block (blockLen / cfg.blockSize)
    let data := (found.map fun item => cfg.memoryData item.2.2).flatten
    (fill cfg (reader (objects name)) ((ownWanted found).map single) data).bind
      fun data =>
        (fillLayers cfg objects (layerWanted found) layers.zipIdx data).map fun data =>
          (data, found.any fun item => item.2.2 = .zero)

theorem fill_picked (cfg : Config) (pick : Found → Option Location) {source : Config}
    {packing : Nat → List Block} (hslot : source.slotSize = cfg.slotSize)
    (hpacked : ∀ id, packing id ≠ [] → Packed source (packing id))
    (hlocated : ∀ block loc, pick (findBlock store layers block) = some loc → ∃ b, Located source
      packing block loc b) (wanted : List WantedBlock)
    (hwanted : wanted = (foundRange store layers first n).filterMap fun item => (pick item.2.2).map
      fun loc => ⟨item.1, item.2.1, loc⟩) (objects : Nat → Option Bytes) (data : Bytes) :
    fill cfg (reader objects) (coalesceBlocks wanted) data =
      fill cfg (reader objects) (wanted.map single) data := by
  have hmem : ∀ w ∈ wanted, w.block = first + w.blockPosition ∧
      ∃ b, Located source packing w.block w.loc b := by
    intro w hw
    rw [hwanted, List.mem_filterMap] at hw
    obtain ⟨item, hitem, hpick⟩ := hw
    obtain ⟨i, -, rfl⟩ := List.mem_map.mp hitem
    obtain ⟨loc, hloc, rfl⟩ := Option.map_eq_some_iff.mp hpick
    exact ⟨rfl, hlocated _ _ hloc⟩
  have hrequested : Requested first wanted := by
    refine ⟨fun w hw => (hmem w hw).1, ?_⟩
    rw [hwanted, foundRange, List.filterMap_map]
    refine List.pairwise_lt_range.filterMap _ fun i j hij a ha b hb => ?_
    obtain ⟨-, -, rfl⟩ := Option.map_eq_some_iff.mp ha
    obtain ⟨-, -, rfl⟩ := Option.map_eq_some_iff.mp hb
    exact hij
  refine fill_coalesceBlocks (fun run hrun => ?_) objects data
  obtain ⟨hcount, hsize, hnext⟩ := neighbours_of_located hpacked hrequested
    (fun w hw => (hmem w hw).2) run hrun
  rw [hslot] at hsize hnext
  exact ⟨hcount, hsize, hnext⟩

/-- The place in a chunk of the volume itself, if that was found. -/
def ownPlace : Found → Option Location
  | .own loc => some loc
  | _ => none

/-- The place in a chunk of the layer at a position, if that was found. -/
def inheritedPlace (index : Nat) : Found → Option Location
  | .inherited i loc => if i = index then some loc else none
  | _ => none

theorem own_of_findBlock {block : Nat} {loc : Location}
    (hfound : findBlock store layers block = .own loc) :
    findBlock store [] block = .own loc := by
  have hlayer : findLayer layers block ≠ .own loc := by
    unfold findLayer
    split <;> nofun
  unfold findBlock at hfound ⊢
  cases hentry : store.readEntry block with
  | none =>
    rw [hentry] at hfound
    exact absurd hfound hlayer
  | some entry =>
    rw [hentry] at hfound
    cases hstate : entry.state <;> simp only [hstate] at hfound ⊢
    · exact absurd hfound hlayer
    all_goals exact hfound

theorem record_of_findBlock {block index : Nat} {loc : Location}
    (hfound : findBlock store layers block = .inherited index loc) :
    ∃ layer bl, layers[index]? = some layer ∧ layer.blocks.lookup block = some bl ∧
      recordLocation bl = loc := by
  have hlayer : findLayer layers block = .inherited index loc := by
    unfold findBlock at hfound
    split at hfound
    · exact hfound
    · split at hfound
      all_goals first | exact hfound | cases hfound
  unfold findLayer at hlayer
  split at hlayer
  · rename_i hsome
    cases hlayer
    obtain ⟨⟨layer, i⟩, hmem, hrecord⟩ := List.exists_of_findSome?_eq_some hsome
    obtain ⟨bl, hbl, heq⟩ := Option.map_eq_some_iff.mp hrecord
    cases heq
    exact ⟨layer, bl, List.mem_zipIdx_iff_getElem?.mp hmem, hbl, rfl⟩
  · cases hlayer

/-- Layers whose blocks are where some volume put them may be read block by block. -/
theorem toOption_fetchLayers (first n : Nat) (store : UnifiedBlockStore)
    (hlayers : ∀ layer ∈ layers, LayerKept cfg.slotSize layer)
    (objects : String → Nat → Option Bytes) {todo : List (Layer × Nat)}
    (htodo : ∀ item ∈ todo, item ∈ layers.zipIdx) (data : Bytes) (cache : UnifiedBlockStore) :
    let wanted := layerWanted (foundRange store layers first n)
    (cfg.fetchLayers (fun name => reader (objects name)) wanted todo data cache).1.toOption =
      fillLayers cfg objects wanted todo data := by
  intro wanted
  induction todo generalizing data cache with
  | nil => rfl
  | cons item todo ih =>
    obtain ⟨layer, index⟩ := item
    have hindex := List.mem_zipIdx_iff_getElem?.mp (htodo _ List.mem_cons_self)
    have hrest := fun data cache =>
      ih (fun item hitem => htodo item (List.mem_cons_of_mem _ hitem)) data cache
    obtain ⟨source, packing, hslot, hpacked, hlocated⟩ :=
      hlayers layer (List.mem_of_getElem? hindex)
    have hunder : cfg.slotSize = (cfg.under layer.source).slotSize :=
      slotSize_congr rfl (by simp [under])
    have hfill := fill_picked (cfg.under layer.source)
      (inheritedPlace index) (hslot.trans hunder) hpacked (by
          intro block loc hpick
          unfold inheritedPlace at hpick
          split at hpick
          · rename_i i loc' hfound
            obtain ⟨rfl, heq⟩ := Option.ite_none_right_eq_some.mp hpick
            cases heq
            obtain ⟨layer', bl, hlayer', hbl, rfl⟩ := record_of_findBlock hfound
            cases hindex.symm.trans hlayer'
            exact hlocated block bl hbl
          · cases hpick) (wanted index) (by
          refine List.filterMap_congr fun item _ => ?_
          cases item.2.2 <;> first | rfl | (dsimp only [inheritedPlace]; split <;> rfl))
      (objects layer.source.name) data
    rw [fetchLayers, fillLayers]
    cases hwanted : wanted index with
    | nil =>
      rw [if_pos rfl]
      exact hrest data cache
    | cons w ws =>
      rw [if_neg (List.cons_ne_nil w ws)]
      dsimp only
      split
      · rfl
      rw [hwanted, ← toOption_fetchRuns _ _ _ cache] at hfill
      rw [← hfill]
      cases hruns : (cfg.under layer.source).fetchRuns (reader (objects layer.source.name))
          (coalesceBlocks (w :: ws)) data cache with
      | mk result cache' =>
        cases result with
        | error err => rfl
        | ok data' => exact hrest data' cache'

end Ranges

/-- Reads of merged runs fill the buffer as reads of single blocks do, in every volume whose
chunks fit the format and whose snapshots come from volumes of its block size. -/
theorem readBlockStore_eq_blockByBlock {cfg : Config} {vb : VB} {layers : List Layer}
    (hengine : Engine (fun cfg job => cfg.jobFits job = true) cfg vb)
    (hlayers : Inherits (fun cfg job => cfg.jobFits job = true) (fun source cfg => source.blockSize
      = cfg.blockSize) cfg layers) (name : String) (objects : String → Nat → Option Bytes)
    (block blockLen : Nat) :
    (cfg.readBlockStore name (fun name => reader (objects name)) layers vb.blockStore block
        blockLen).1.toOption =
      readBlockByBlock cfg name objects layers vb.blockStore block blockLen := by
  obtain ⟨packing, hkept⟩ := hengine.kept
  have hown := fill_picked cfg ownPlace
    rfl hkept.packed (by
      intro block loc hpick
      unfold ownPlace at hpick
      split at hpick
      · rename_i hfound
        cases hpick
        exact hkept.mapped.extents block loc ((SealedReads.findBlock_eq_own_iff hkept.mapped.wf
          hkept.mapped.entries).mp (own_of_findBlock hfound)).2
      · cases hpick)
    (ownWanted (foundRange vb.blockStore layers block (blockLen / cfg.blockSize))) (by
      refine List.filterMap_congr fun item _ => ?_
      cases item.2.2 <;> rfl)
    (objects name)
  have hinherited := fun data cache =>
    toOption_fetchLayers block (blockLen / cfg.blockSize) vb.blockStore
      (fun layer hlayer => (hlayers.kept layer hlayer).2) objects (fun _ hitem => hitem) data cache
  unfold readBlockStore readBlockByBlock
  split
  · rfl
  dsimp only
  rw [← hown, ← toOption_fetchRuns _ _ _ vb.blockStore]
  unfold foundRange at hinherited ⊢
  dsimp only at hinherited ⊢
  cases cfg.fetchRuns (reader (objects name)) _ _ vb.blockStore with
  | mk result cache =>
    cases result with
    | error err => rfl
    | ok data =>
      refine Eq.trans ?_ (congrArg (Option.map _) (hinherited data cache))
      dsimp only
      cases cfg.fetchLayers _ _ layers.zipIdx data cache with
      | mk result' cache' => cases result' <;> rfl

/-- Four blocks in one chunk. -/
def fourBlocks : List Block :=
  [⟨[7], 1, 0, 1⟩, ⟨[8], 2, 1, 1⟩, ⟨[9], 3, 2, 1⟩, ⟨[10], 4, 3, 1⟩]

/-- The first volume, with nothing stored yet. -/
def blank : Volume :=
  ⟨VB.new false, ⟨none, ∅, []⟩, ⟨none, ∅, none, ∅⟩⟩

def stored : VB :=
  (blank.createChunkFile Config.tiny fourBlocks .ok).1.vb

theorem engine_stored {fits : Config → List Block → Prop} (hfits : fits Config.tiny fourBlocks) :
    Engine fits Config.tiny stored :=
  .createChunkFile .ok (.new false) (by decide) hfits (by decide)

/-- The volume that was opened from a checkpoint of the map. -/
def reopened : Volume :=
  (blank.parseCheckpointFile Config.tiny (checkpointBytes Config.tiny.version 0
    (expandEntries Config.tiny.blockStride stored.blocksToObject.blockLookup.entries))).1

/-- The only object of a backend. -/
def chunkOf (name : String) (id : Nat) : Option Bytes :=
  if name = "vol-a" ∧ id = 0 then some (Config.tiny.chunkFile fourBlocks) else none

theorem reopened_reads_blockByBlock :
    (Config.tiny.readBlockStore "vol-a" (fun name => reader (chunkOf name)) []
        reopened.vb.blockStore 1 3).1.toOption = some ([8, 9, 10], false) ∧
      readBlockByBlock Config.tiny "vol-a" chunkOf [] reopened.vb.blockStore 1 3 =
        some ([8, 9, 10], false) := by
  have hvalue : (Config.tiny.readBlockStore "vol-a" (fun name => reader (chunkOf name)) []
      reopened.vb.blockStore 1 3).1.toOption = some ([8, 9, 10], false) := by
    decide +kernel
  have hloaded : blank.parseCheckpointFile Config.tiny (checkpointBytes Config.tiny.version 0
      (expandEntries Config.tiny.blockStride stored.blocksToObject.blockLookup.entries)) =
        (reopened, .ok ()) := by
    refine Prod.ext ?_ (by decide +kernel)
    rw [reopened]
  refine ⟨hvalue, ?_⟩
  rw [← hvalue]
  exact (readBlockStore_eq_blockByBlock (.load 0 (engine_stored (by decide)) (List.Perm.refl _)
    rfl (by decide) hloaded) (.none Config.tiny) "vol-a" chunkOf 1 3).symm

/-- A configuration with blocks of two bytes. -/
def twoBytes : Config :=
  { Config.tiny with blockSize := 2, blockSize_pos := by decide, blockSize_lt := by decide }

/-- A clone with blocks of two bytes of a volume with blocks of one byte. -/
def wideClone : Except SnapshotError CloneVolume :=
  (CloneVolume.plainVolume "vol-a" stored.blocksToObject).cloneTo
    { CloneVolume.plainVolume "vol-b" (VB.new false).blocksToObject with stride := 2 }

/-- Opening a snapshot never compares block sizes: the slots of the clone overlap. -/
theorem wide_clone_reads_differ :
    ∃ opened, wideClone = .ok opened ∧
      Inherits (fun _ _ => True) (fun _ _ => True) twoBytes opened.layers ∧
      (twoBytes.readBlockStore "vol-b" (fun name => reader (chunkOf name)) opened.layers
          new 0 4).1.toOption = some ([7, 8, 9, 10], false) ∧
      readBlockByBlock twoBytes "vol-b" chunkOf opened.layers new 0 4 =
        some ([7, 8, 8, 9], false) := by
  have hreads : ∀ opened, wideClone = .ok opened →
      (twoBytes.readBlockStore "vol-b" (fun name => reader (chunkOf name)) opened.layers
          new 0 4).1.toOption = some ([7, 8, 9, 10], false) ∧
        readBlockByBlock twoBytes "vol-b" chunkOf opened.layers new 0 4 =
          some ([7, 8, 8, 9], false) := by
    intro opened hopened
    have hlayers : opened.layers = (wideClone.toOption.map CloneVolume.layers).getD [] := by
      rw [hopened]
      rfl
    rw [hlayers]
    decide +kernel
  obtain ⟨opened, hopened⟩ := CloneVolume.exists_ok_of_toBool
    (show wideClone.toBool = true by decide +kernel)
  refine ⟨opened, hopened, ?_, hreads opened hopened⟩
  unfold wideClone CloneVolume.cloneTo at hopened
  split at hopened
  · cases hopened
  · rename_i snap hsnap
    exact .snapshot [] (engine_stored trivial) (.none Config.tiny) rfl rfl (fun _ => rfl) rfl rfl
      trivial (CloneVolume.storedWalk_of _) hsnap hopened

end CoalescedReads

end Viperblock
