import Viperblock.EngineDrain
import Viperblock.ReadRuns

/-!
# What an encrypted volume reads was sealed there

Volumes under one master key store chunks.  A chunk holds its blocks sealed, each under
a nonce of its sequence number and the volume, and bound to its number and the name of
the volume.  Nothing of that is stored with the block: a reader rebuilds it from the
block map.  So whatever bytes the backend returns, a block that opens is one that was
sealed for the same volume, number and sequence number; and the chunks themselves always
open, as long as the counts and offsets of the format can address them.

The cipher is ideal: no part of what the backend returns opens unless it was sealed.
-/

namespace Viperblock

open ByteCodec BlockMap BlocksToObject GuardedRun

namespace SealedReads

/-- The arguments of a call of `aead.Seal`. -/
structure SealCall where
  nonce : Bytes
  plain : Bytes
  aad : Bytes
deriving DecidableEq

/-- Volumes that share a master key and have names of their own. -/
structure Fleet (V : Type) where
  aead : Aead
  cfg : V → Config
  identity : V → SourceIdentity
  sealing : ∀ v, (cfg v).sealing = some ⟨aead, (identity v).uuid, (identity v).nameHash⟩
  chunkMagic : ∀ v, (cfg v).chunkMagic = Config.encryptedChunkMagic
  nameHash_injective : ∀ v v', (identity v).nameHash = (identity v').nameHash → v = v'

/-- A volume with a record of what its chunks were made of and of its maps. -/
structure Host where
  volume : Volume
  packing : Nat → List Block
  /-- The maps that went into checkpoints and snapshots. -/
  maps : List BlockMap

structure World (V : Type) where
  hosts : V → Host
  log : List SealCall

inductive Act (V : Type)
  /-- A block is written to the block store. -/
  | writeWithSeqNum (v : V) (block : Nat) (data : Bytes) (seqNum : Nat)
  /-- A block of the block store is in the log. -/
  | markPending (v : V) (block : Nat)
  | createChunkFile (v : V) (matchedBlocks : List Block) (out : Outcome)
  /-- The block map is saved. -/
  | saveMap (v : V)
  /-- A log record or the metadata of any volume is sealed. -/
  | sealOther (call : SealCall)

/-- What the callers of `createChunkFile` pass to it. -/
def isJob (cfg : Config) (matchedBlocks : List Block) : Bool :=
  decide (matchedBlocks.Pairwise fun a b => a.block < b.block) &&
    matchedBlocks.all fun b =>
      decide (b.data.length = cfg.blockSize ∧ b.block < 2 ^ 64 ∧ b.seqNum < 2 ^ 64)

namespace Host

variable (host : Host)

def setStore (store : UnifiedBlockStore) : Host :=
  { host with
    volume := { host.volume with vb := { host.volume.vb with blockStore := store } } }

def createChunkFile (cfg : Config) (matchedBlocks : List Block) (out : Outcome) : Host :=
  { host with
    volume := (host.volume.createChunkFile cfg matchedBlocks out).1
    packing :=
      if out.lands then
        Function.update host.packing host.volume.vb.objectNum matchedBlocks
      else host.packing }

/-- A fresh volume. -/
def new : Host where
  volume := ⟨VB.new false, ⟨none, ∅, []⟩, ⟨none, ∅, none, ∅⟩⟩
  packing _ := []
  maps := []

/-- A block map of the volume leads to the location. -/
inductive Resolves (cfg : Config) (block : Nat) (loc : Location) : Prop
  | store (h : findBlock host.volume.vb.blockStore [] block = .own loc)
  | map (h : lookupBlockToObject cfg.blockStride
      host.volume.vb.blocksToObject.blockLookup block = some loc)
  | saved {m : BlockMap} (hm : m ∈ host.maps)
      (h : lookupBlockToObject cfg.blockStride m block = some loc)

end Host

section Step

variable {V : Type}

def World.new : World V where
  hosts _ := Host.new
  log := []

namespace Fleet

variable (fleet : Fleet V)

/-- How a block is sealed for a chunk. -/
def chunkCall (v : V) (b : Block) : SealCall where
  nonce := makeNonce b.seqNum (fleet.identity v).uuid domainChunk
  plain := b.data
  aad := makeAAD (fleet.identity v).nameHash b.block b.seqNum

/-- 16 bits count the blocks of the chunk, and 32 bits address all of its bytes. -/
def addressable : Act V → Bool
  | .createChunkFile v matchedBlocks _ =>
    decide (matchedBlocks.length ≤ 65535 ∧
      chunkHeaderSize + matchedBlocks.length * (fleet.cfg v).slotSize ≤ 2 ^ 32)
  | _ => true

/-- Who reads the chunks of a volume: the volume itself, or a clone with its block size. -/
inductive Reads (v : V) : Config → Prop
  | own : Reads v (fleet.cfg v)
  | base (clone : V) (hsize : (fleet.cfg clone).blockSize = (fleet.cfg v).blockSize) :
      Reads v ((fleet.cfg clone).under (fleet.identity v))

/-- No part of what is returned opens unless it was sealed. -/
def Ideal (log : List SealCall) (read : ObjectReader) : Prop :=
  ∀ id offset length bytes, read id offset length = .ok bytes →
    ∀ slot, slot <:+: bytes → ∀ nonce aad plain,
      fleet.aead.openBytes nonce slot aad = some plain → ⟨nonce, plain, aad⟩ ∈ log

/-- The chunks as they are stored. -/
def Unmodified (host : Host) (read : ObjectReader) : Prop :=
  ∀ id offset length,
    read id offset length = readFile (host.volume.backend.chunks.lookup id) offset length

/-- The wanted block has the data of a block that was sealed for its number and
sequence number on the volume. -/
def Genuine (w : World V) (v : V) (data : Bytes) (wanted : WantedBlock) : Prop :=
  ∃ b, fleet.chunkCall v b ∈ w.log ∧ b.block = wanted.block ∧ b.seqNum = wanted.loc.seqNum ∧
    slotAt (fleet.cfg v).blockSize data wanted.blockPosition = b.data

/-- Every read either fails or is genuine, and reads of unmodified chunks do not fail. -/
def Authentic (w : World V) : Prop :=
  ∀ v cfg, fleet.Reads v cfg → ∀ first wanted data store, Requested first wanted →
    (∀ x ∈ wanted, (x.blockPosition + 1) * cfg.blockSize ≤ data.length) →
    (∀ x ∈ wanted, (w.hosts v).Resolves (fleet.cfg v) x.block x.loc) →
    (∀ read data' store', fleet.Ideal w.log read →
        cfg.fetchRuns read (coalesceBlocks wanted) data store = (.ok data', store') →
          ∀ x ∈ wanted, fleet.Genuine w v data' x) ∧
      ∀ read, Unmodified (w.hosts v) read → ∃ data' store',
          cfg.fetchRuns read (coalesceBlocks wanted) data store = (.ok data', store') ∧
            ∀ x ∈ wanted, fleet.Genuine w v data' x

end Fleet

variable [DecidableEq V]

def World.set (w : World V) (v : V) (host : Host) : World V :=
  { w with hosts := Function.update w.hosts v host }

def Fleet.step (fleet : Fleet V) (w : World V) : Act V → Option (World V)
  | .writeWithSeqNum v block data seqNum =>
    let host := w.hosts v
    some (w.set v
      (host.setStore (host.volume.vb.blockStore.writeWithSeqNum block data seqNum)))
  | .markPending v block =>
    let host := w.hosts v
    some (w.set v (host.setStore (host.volume.vb.blockStore.markPending block)))
  | .createChunkFile v matchedBlocks out =>
    if isJob (fleet.cfg v) matchedBlocks then
      some
        { w.set v ((w.hosts v).createChunkFile (fleet.cfg v) matchedBlocks out) with
          log := w.log ++ matchedBlocks.map (fleet.chunkCall v) }
    else none
  | .saveMap v =>
    let host := w.hosts v
    some (w.set v
      { host with maps := host.volume.vb.blocksToObject.blockLookup :: host.maps })
  | .sealOther call =>
    -- the last byte of a nonce is its domain
    if call.nonce.getLast? = some domainChunk then none
    else some { w with log := w.log ++ [call] }

end Step

section Maps

variable {cfg : Config} {packing : Nat → List Block} {vb : VB}

/-- Wherever the map or the extents lead to, there is a block of a chunk. -/
structure Mapped (cfg : Config) (packing : Nat → List Block) (vb : VB) : Prop where
  sound : vb.blocksToObject.Sound
  wf : vb.blockStore.persistedExtents.WellFormed
  entries : ∀ block e, vb.blockStore.entries.lookup block = some e → e.state ≠ .persisted
  map : ∀ block loc, lookupBlockToObject cfg.blockStride vb.blocksToObject.blockLookup block =
    some loc → ∃ b, Located cfg packing block loc b
  extents : ∀ block loc, vb.blockStore.persistedExtents.locate block = some loc →
    ∃ b, Located cfg packing block loc b

theorem findBlock_eq_own_iff {store : UnifiedBlockStore} (hwf : store.persistedExtents.WellFormed)
    (hentries : ∀ block e, store.entries.lookup block = some e → e.state ≠ .persisted)
    {block : Nat} {loc : Location} :
    findBlock store [] block = .own loc ↔
      store.entries.lookup block = none ∧ store.persistedExtents.locate block = some loc := by
  unfold findBlock UnifiedBlockStore.readEntry
  cases hentry : store.entries.lookup block with
  | some e =>
    have hstate := hentries block e hentry
    cases hs : e.state <;> simp [hs, findLayer] at hstate ⊢
  | none =>
    simp only [UnifiedBlockStore.readPersisted_eq hwf, true_and]
    cases hlocate : store.persistedExtents.locate block with
    | none => simp [findLayer]
    | some found =>
      simp only [Option.map_some, Found.own.injEq, Option.some.injEq]

theorem Mapped.markPersistedRange {id runStart : Nat} {first : Block} {rest : List Block}
    (h : Mapped cfg packing vb) (hpacked : Packed cfg (packing id))
    (hrun : (runStart, first :: rest) ∈ chunkRuns (packing id)) :
    let entry := newBlock cfg.blockStride id runStart first rest
    Mapped cfg packing
      { vb with
        blockStore :=
          vb.blockStore.markPersistedRange
            ((List.range (rest.length + 1)).map (first.block + ·)) id entry.objectOffset
            cfg.blockStride entry.seqNums } := by
  intro entry
  have hchain : (first :: rest).IsChain fun x y => y.block = x.block + 1 :=
    isChain_of_mem_chunkRuns hrun
  obtain ⟨hextents, hentries⟩ := UnifiedBlockStore.foldl_dropPersisted
    ((Engine.State.runItems first rest).filter vb.blockStore.eligible)
    { vb.blockStore with
      persistedExtents := installRuns id entry.objectOffset cfg.blockStride
        vb.blockStore.persistedExtents
        ((Engine.State.runItems first rest).filter vb.blockStore.eligible) }
  have hsorted := (Engine.pairwise_runItems first rest).filter vb.blockStore.eligible
  obtain ⟨hwf, hlocated, hother⟩ :=
    installRuns_spec id entry.objectOffset cfg.blockStride h.wf hsorted
  refine ⟨h.sound, ?_, fun block e he => h.entries block e (hentries block e he), h.map, ?_⟩
  · exact hextents ▸ hwf
  · intro block loc hloc
    replace hloc := (congrArg (fun index : ExtentIndex => index.locate block) hextents).symm.trans
      hloc
    by_cases hitem : ∃ item ∈ (Engine.State.runItems first rest).filter vb.blockStore.eligible,
        item.block = block
    · obtain ⟨item, hmem, rfl⟩ := hitem
      cases (hlocated item hmem).symm.trans hloc
      obtain ⟨b, hb, hblock, hseqNum⟩ :=
        Engine.exists_of_mem_runItems (List.mem_of_mem_filter hmem)
      refine ⟨b, ?_⟩
      have hnumber := ConsecutiveRuns.number_of_getElem? hchain hb
      rw [hblock, ← hnumber, RangeItem.location, hseqNum]
      exact located_of_run hpacked hrun hb
    · exact h.extents block loc ((hother block fun item hmem heq =>
        hitem ⟨item, hmem, heq⟩).symm.trans hloc)

/-- A run of a chunk is entered into the map and the extents, or held back. -/
theorem Mapped.publishRun {id : Nat} {run : Nat × List Block} (h : Mapped cfg packing vb)
    (hpacked : Packed cfg (packing id)) (hrun : run ∈ chunkRuns (packing id)) :
    Mapped cfg packing (Volume.publishRun cfg.blockStride id vb run) := by
  obtain ⟨runStart, blocks⟩ := run
  cases blocks with
  | nil => exact h
  | cons first rest =>
    have hmapped : Mapped cfg packing
        { vb with
          blocksToObject :=
            vb.blocksToObject.publishRun cfg.blockStride id (runStart, first :: rest) } := by
      refine ⟨h.sound.publishRun cfg.blockStride id (runStart, first :: rest), h.wf, h.entries,
        ?_, h.extents⟩
      intro block loc hloc
      rw [lookup_publishRun h.sound] at hloc
      split at hloc
      · rename_i hcovers
        cases hloc
        exact located_of_covers hpacked hrun hcovers.2
      · exact h.map block loc hloc
    simp only [Volume.publishRun]
    split
    · exact hmapped
    · exact hmapped.markPersistedRange hpacked hrun

theorem Mapped.foldl_publishRun (id : Nat) (hpacked : Packed cfg (packing id))
    (runs : List (Nat × List Block)) (hruns : ∀ run ∈ runs, run ∈ chunkRuns (packing id))
    (h : Mapped cfg packing vb) :
    Mapped cfg packing (runs.foldl (Volume.publishRun cfg.blockStride id) vb) := by
  induction runs generalizing vb with
  | nil => exact h
  | cons run runs ih =>
    exact ih (fun r hr => hruns r (List.mem_cons_of_mem _ hr))
      (h.publishRun hpacked (hruns run List.mem_cons_self))

theorem Mapped.update {id : Nat} (h : Mapped cfg packing vb) (hfree : packing id = [])
    (blocks : List Block) :
    Mapped cfg (Function.update packing id blocks) vb := by
  refine ⟨h.sound, h.wf, h.entries, ?_, ?_⟩
  · intro block loc hloc
    obtain ⟨b, hb⟩ := h.map block loc hloc
    exact ⟨b, hb.update hfree blocks⟩
  · intro block loc hloc
    obtain ⟨b, hb⟩ := h.extents block loc hloc
    exact ⟨b, hb.update hfree blocks⟩

theorem Mapped.setStore {store : UnifiedBlockStore} (h : Mapped cfg packing vb)
    (hextents : store.persistedExtents = vb.blockStore.persistedExtents)
    (hentries : ∀ block e, store.entries.lookup block = some e → e.state ≠ .persisted) :
    Mapped cfg packing { vb with blockStore := store } :=
  ⟨h.sound, hextents ▸ h.wf, hentries, h.map, fun block loc hloc =>
    h.extents block loc (hextents ▸ hloc)⟩

theorem packed_of_length_le {blocks : List Block}
    (hsorted : blocks.Pairwise fun a b => a.block < b.block)
    (hdata : ∀ b ∈ blocks, b.data.length = cfg.blockSize) (hcount : blocks.length ≤ 65535)
    (hsize : chunkHeaderSize + blocks.length * cfg.slotSize ≤ 2 ^ 32) :
    Packed cfg blocks := by
  have hheader : chunkHeaderSize = 10 := rfl
  refine ⟨hsorted, hdata, fun i hi => ?_, fun run hrun => ?_⟩
  · have hlt := Nat.mul_lt_mul_of_pos_right hi cfg.slotSize_pos
    omega
  · have hle : run.length ≤ blocks.length := by
      have hsub := List.sublist_flatten_of_mem hrun
      rw [List.flatten_splitBy] at hsub
      exact hsub.length_le
    have hmul := Nat.mul_le_mul_right cfg.slotSize hle
    exact ⟨by omega, by omega⟩

theorem Mapped.createChunkFile {v : Volume} {blocks : List Block} (h : Mapped cfg packing v.vb)
    (hfree : packing v.vb.objectNum = []) (hpacked : Packed cfg blocks) (out : Outcome) :
    Mapped cfg (Function.update packing v.vb.objectNum blocks)
      (v.createChunkFile cfg blocks out).1.vb := by
  have hupdated := h.update hfree blocks
  have htaken : Mapped cfg (Function.update packing v.vb.objectNum blocks)
      { v.vb with objectNum := v.vb.objectNum + 1 } :=
    { hupdated with }
  have hself : Function.update packing v.vb.objectNum blocks v.vb.objectNum = blocks :=
    Function.update_self ..
  cases out with
  | ok =>
    have hruns := Mapped.foldl_publishRun v.vb.objectNum (hself.symm ▸ hpacked)
      (chunkRuns blocks) (by rw [hself]; exact fun _ hrun => hrun) htaken
    exact { hruns with }
  | failed => exact htaken
  | landed => exact htaken

end Maps

section Hosts

variable {cfg : Config} {host : Host}

/-- The chunks of a volume, and what its maps say about them. -/
structure Host.Inv (cfg : Config) (log : Block → Prop) (host : Host) : Prop where
  mapped : Mapped cfg host.packing host.volume.vb
  saved : ∀ m ∈ host.maps, ∀ block loc, lookupBlockToObject cfg.blockStride m block = some loc →
      ∃ b, Located cfg host.packing block loc b
  free : ∀ id, host.volume.vb.objectNum ≤ id → host.packing id = []
  chunk : ∀ id, host.packing id ≠ [] → Packed cfg (host.packing id) ∧
    host.volume.backend.chunks.lookup id = some (cfg.chunkFile (host.packing id))
  logged : ∀ id, ∀ b ∈ host.packing id, log b ∧ b.block < 2 ^ 64 ∧ b.seqNum < 2 ^ 64

theorem Host.inv_new (log : Block → Prop) :
    Host.new.Inv cfg log := by
  refine ⟨⟨VB.sound_new false, ExtentMap.wellFormed_empty, ?_, ?_, ?_⟩, ?_, fun _ _ => rfl, ?_, ?_⟩
  · intro block e he
    cases he
  · intro block loc hloc
    cases hloc
  · intro block loc hloc
    cases hloc
  · intro m hm
    cases hm
  · intro id hid
    exact absurd rfl hid
  · intro id b hb
    cases hb

section

variable {log : Block → Prop}

/-- Every location that a map of the volume leads to is that of a block. -/
theorem Host.Inv.located (h : host.Inv cfg log) {block : Nat} {loc : Location}
    (hresolves : host.Resolves cfg block loc) :
    ∃ b, Located cfg host.packing block loc b := by
  cases hresolves with
  | store hfind =>
    exact h.mapped.extents block loc
      ((findBlock_eq_own_iff h.mapped.wf h.mapped.entries).mp hfind).2
  | map hlookup => exact h.mapped.map block loc hlookup
  | saved hm hlookup => exact h.saved _ hm block loc hlookup

theorem Host.Inv.mono {log log' : Block → Prop} (h : host.Inv cfg log)
    (himp : ∀ b, log b → log' b) :
    host.Inv cfg log' :=
  ⟨h.mapped, h.saved, h.free, h.chunk, fun id b hb =>
    ⟨himp b (h.logged id b hb).1, (h.logged id b hb).2⟩⟩

section

variable (h : host.Inv cfg log)

include h

theorem Host.Inv.setStore {store : UnifiedBlockStore}
    (hextents : store.persistedExtents = host.volume.vb.blockStore.persistedExtents)
    (hentries : ∀ block e, store.entries.lookup block = some e → e.state ≠ .persisted) :
    (host.setStore store).Inv cfg log :=
  ⟨h.mapped.setStore hextents hentries, h.saved, h.free, h.chunk, h.logged⟩

theorem Host.Inv.writeWithSeqNum (block : Nat) (data : Bytes) (seqNum : Nat) :
    (host.setStore (host.volume.vb.blockStore.writeWithSeqNum block data seqNum)).Inv cfg
      log := by
  refine h.setStore rfl fun other e he => ?_
  rcases FiniteMap.lookup_insert_eq_some he with ⟨rfl, rfl⟩ | hold
  · split
    · simp
    · cases hentry : host.volume.vb.blockStore.entries.lookup other with
      | none => simp
      | some old => exact h.mapped.entries other old hentry
  · exact h.mapped.entries other e hold

theorem Host.Inv.markPending (block : Nat) :
    (host.setStore (host.volume.vb.blockStore.markPending block)).Inv cfg log := by
  unfold UnifiedBlockStore.markPending
  split
  · split
    · refine h.setStore rfl fun other e he => ?_
      rcases FiniteMap.lookup_insert_eq_some he with ⟨-, rfl⟩ | hold
      · simp
      · exact h.mapped.entries other e hold
    · exact h
  · exact h

theorem Host.Inv.saveMap :
    Host.Inv cfg log
      { host with maps := host.volume.vb.blocksToObject.blockLookup :: host.maps } := by
  refine ⟨h.mapped, fun m hm => ?_, h.free, h.chunk, h.logged⟩
  rcases List.mem_cons.mp hm with rfl | hold
  · exact h.mapped.map
  · exact h.saved m hold

theorem Host.Inv.createChunkFile {blocks : List Block} (hpacked : Packed cfg blocks)
    (hlogged : ∀ b ∈ blocks, log b ∧ b.block < 2 ^ 64 ∧ b.seqNum < 2 ^ 64) (out : Outcome) :
    (host.createChunkFile cfg blocks out).Inv cfg log := by
  have hfree := h.free _ (Nat.le_refl host.volume.vb.objectNum)
  have hmapped := h.mapped.createChunkFile hfree hpacked out
  -- what the stored chunk adds, whatever becomes of the map
  have hstored : ∀ vb : VB, vb.objectNum = host.volume.vb.objectNum + 1 →
      Mapped cfg (Function.update host.packing host.volume.vb.objectNum blocks) vb →
      Host.Inv cfg log
        { host with
          volume :=
            { host.volume with
              vb := vb
              backend :=
                { host.volume.backend with
                  chunks := host.volume.backend.chunks.insert host.volume.vb.objectNum
                    (cfg.chunkFile blocks) } }
          packing := Function.update host.packing host.volume.vb.objectNum blocks } := by
    intro vb hnum hvb
    refine ⟨hvb, ?_, ?_, ?_, ?_⟩
    · intro m hm block loc hloc
      obtain ⟨b, hb⟩ := h.saved m hm block loc hloc
      exact ⟨b, hb.update hfree blocks⟩
    · intro id hid
      dsimp only at hid ⊢
      rw [Function.update_of_ne (by omega)]
      exact h.free id (by omega)
    · intro id hid
      dsimp only at hid ⊢
      by_cases hnew : id = host.volume.vb.objectNum
      · subst hnew
        rw [Function.update_self, AList.lookup_insert]
        exact ⟨hpacked, rfl⟩
      · rw [Function.update_of_ne hnew] at hid ⊢
        rw [AList.lookup_insert_ne hnew]
        exact h.chunk id hid
    · intro id b hb
      dsimp only at hb
      by_cases hnew : id = host.volume.vb.objectNum
      · subst hnew
        rw [Function.update_self] at hb
        exact hlogged b hb
      · rw [Function.update_of_ne hnew] at hb
        exact h.logged id b hb
  cases out with
  | ok =>
    refine hstored _ ?_ hmapped
    rw [Volume.foldl_publishRun]
  | failed =>
    exact ⟨⟨h.mapped.sound, h.mapped.wf, h.mapped.entries, h.mapped.map, h.mapped.extents⟩,
      h.saved, fun id hid => h.free id (Nat.le_of_succ_le hid), h.chunk, h.logged⟩
  | landed => exact hstored _ rfl hmapped

end

end

end Hosts

section Calls

theorem eq_of_encode_eq {width n m : Nat} (hn : n < 256 ^ width) (hm : m < 256 ^ width)
    (heq : encode width n = encode width m) :
    n = m := by
  rw [← decode_encode hn, heq, decode_encode hm]

theorem getLast?_makeNonce (seqNum : Nat) (volumeUUID : Bytes) (domain : UInt8) :
    (makeNonce seqNum volumeUUID domain).getLast? = some domain := by
  rw [makeNonce, List.getLast?_concat]

/-- The additional data of a block says whose it is, which and which version. -/
theorem makeAAD_inj {hash hash' : Bytes} {block block' seqNum seqNum' : Nat}
    (hlength : hash.length = hash'.length) (hblock : block < 2 ^ 64) (hblock' : block' < 2 ^ 64)
    (hseqNum : seqNum < 2 ^ 64) (hseqNum' : seqNum' < 2 ^ 64)
    (heq : makeAAD hash block seqNum = makeAAD hash' block' seqNum') :
    hash = hash' ∧ block = block' ∧ seqNum = seqNum' := by
  have hwidth : (256 : Nat) ^ 8 = 2 ^ 64 := by decide
  obtain ⟨hfront, hseq⟩ := List.append_inj heq (by simp [hlength])
  obtain ⟨hhash, hnumber⟩ := List.append_inj hfront hlength
  exact ⟨hhash, eq_of_encode_eq (hwidth ▸ hblock) (hwidth ▸ hblock') hnumber,
    eq_of_encode_eq (hwidth ▸ hseqNum) (hwidth ▸ hseqNum') hseq⟩

end Calls

section Worlds

variable {V : Type} {fleet : Fleet V} {w w' : World V}

/-- The volumes with their chunks, and what the log holds of the chunk domain. -/
structure World.Inv (fleet : Fleet V) (w : World V) : Prop where
  hosts : ∀ v, (w.hosts v).Inv (fleet.cfg v) fun b => fleet.chunkCall v b ∈ w.log
  log : ∀ call ∈ w.log, call.nonce.getLast? = some domainChunk →
    ∃ v b, call = fleet.chunkCall v b ∧ b.block < 2 ^ 64 ∧ b.seqNum < 2 ^ 64

theorem World.inv_new (fleet : Fleet V) : (World.new : World V).Inv fleet :=
  ⟨fun _ => Host.inv_new _, fun _ hcall => by cases hcall⟩

theorem World.Inv.append {calls : List SealCall} (h : w.Inv fleet)
    (hcalls : ∀ call ∈ calls, call.nonce.getLast? = some domainChunk →
      ∃ v b, call = fleet.chunkCall v b ∧ b.block < 2 ^ 64 ∧ b.seqNum < 2 ^ 64) :
    World.Inv fleet { w with log := w.log ++ calls } := by
  refine ⟨fun v => (h.hosts v).mono fun b hb => List.mem_append_left _ hb, ?_⟩
  intro call hcall
  rcases List.mem_append.mp hcall with hold | hnew
  · exact h.log call hold
  · exact hcalls call hnew

theorem Fleet.Reads.agrees {v : V} {cfg : Config} (h : fleet.Reads v cfg) :
    cfg.sealing = (fleet.cfg v).sealing ∧ cfg.blockSize = (fleet.cfg v).blockSize := by
  cases h with
  | own => exact ⟨rfl, rfl⟩
  | base clone hsize =>
    refine ⟨?_, hsize⟩
    rw [Config.under, fleet.sealing, fleet.sealing]
    rfl

/-- What opens for a block of a volume was sealed for it. -/
theorem World.Inv.genuine (h : w.Inv fleet) {v : V} {data : Bytes} {wanted : WantedBlock}
    {read : ObjectReader} (hideal : fleet.Ideal w.log read) (hblock : wanted.block < 2 ^ 64)
    (hseqNum : wanted.loc.seqNum < 2 ^ 64) {id offset length : Nat} {bytes slot : Bytes}
    (hread : read id offset length = .ok bytes) (hslot : slot <:+: bytes)
    (hopen : (fleet.cfg v).openBlock domainChunk wanted.block wanted.loc.seqNum slot = some (slotAt
      (fleet.cfg v).blockSize data wanted.blockPosition)) :
    fleet.Genuine w v data wanted := by
  simp only [Config.openBlock, fleet.sealing] at hopen
  have hcall := hideal id offset length bytes hread slot hslot _ _ _ hopen
  obtain ⟨v', b, heq, hb, hb'⟩ := h.log _ hcall (getLast?_makeNonce _ _ _)
  simp only [Fleet.chunkCall, SealCall.mk.injEq] at heq
  obtain ⟨-, hplain, haad⟩ := heq
  have hlength : (fleet.identity v).nameHash.length = (fleet.identity v').nameHash.length := by
    rw [(fleet.identity v).nameHash_length, (fleet.identity v').nameHash_length]
  obtain ⟨hhash, hnumber, hversion⟩ := makeAAD_inj hlength hblock hb hseqNum hb' haad
  refine ⟨b, ?_, hnumber.symm, hversion.symm, hplain⟩
  rw [Fleet.chunkCall, ← hnumber, ← hversion, ← hplain]
  exact hcall

theorem World.Inv.authentic (h : w.Inv fleet) :
    fleet.Authentic w := by
  intro v cfg hreads first wanted data store hrequested hfits hresolves
  obtain ⟨hsealing, hsize⟩ := hreads.agrees
  have hlocated : ∀ x ∈ wanted, ∃ b, Located (fleet.cfg v) (w.hosts v).packing x.block x.loc b :=
    fun x hx => (h.hosts v).located (hresolves x hx)
  have hlogged : ∀ (x : WantedBlock) b, Located (fleet.cfg v) (w.hosts v).packing x.block x.loc b →
      fleet.chunkCall v b ∈ w.log ∧ b.block = x.block ∧ b.seqNum = x.loc.seqNum ∧
        x.block < 2 ^ 64 ∧ x.loc.seqNum < 2 ^ 64 := by
    rintro x b ⟨hblock, i, hi, hloc⟩
    obtain ⟨hcall, hb, hb'⟩ := (h.hosts v).logged _ b (List.mem_of_getElem? hi)
    have hseqNum : b.seqNum = x.loc.seqNum := by
      rw [hloc]
      rfl
    exact ⟨hcall, hblock, hseqNum, hblock ▸ hb, hseqNum ▸ hb'⟩
  simp only [fetchRuns_congr hsealing hsize]
  rw [hsize] at hfits
  constructor
  · intro read data' store' hideal hfetch x hx
    have hsealed : (fleet.cfg v).sealing.isSome = true := by
      rw [fleet.sealing]
      rfl
    obtain ⟨-, hopened, -⟩ := exists_opened_of_fetchRuns hsealed hrequested hfits hfetch
    obtain ⟨offset, length, bytes, slot, hread, hslot, hopen⟩ := hopened x hx
    obtain ⟨b, hb⟩ := hlocated x hx
    obtain ⟨-, -, -, hblock, hseqNum⟩ := hlogged x b hb
    exact h.genuine hideal hblock hseqNum hread hslot hopen
  · intro read hread
    have hserves : Serves (fleet.cfg v) (w.hosts v).packing read := by
      intro id hid
      obtain ⟨hpacked, hchunk⟩ := (h.hosts v).chunk id hid
      exact ⟨hpacked, fun offset length => by rw [hread, hchunk]⟩
    obtain ⟨data', store', hfetch, -, hfilled, -⟩ := fetchRuns_of_located
      (fun _ => fleet.chunkMagic v) hserves hrequested hfits hlocated store
    refine ⟨data', store', hfetch, fun x hx => ?_⟩
    obtain ⟨b, hb, hdata⟩ := hfilled x hx
    obtain ⟨hcall, hblock, hseqNum, -, -⟩ := hlogged x b hb
    exact ⟨b, hcall, hblock, hseqNum, hdata⟩

variable [DecidableEq V]

theorem World.Inv.set {v : V} {host : Host} (h : w.Inv fleet)
    (hhost : host.Inv (fleet.cfg v) fun b => fleet.chunkCall v b ∈ w.log) :
    (w.set v host).Inv fleet := by
  refine ⟨fun v' => ?_, h.log⟩
  by_cases hv : v' = v
  · subst hv
    simpa only [World.set, Function.update_self] using hhost
  · simpa only [World.set, Function.update_of_ne hv] using h.hosts v'

theorem World.Inv.step {act : Act V} (h : w.Inv fleet) (haddressable : fleet.addressable act = true)
    (hstep : fleet.step w act = some w') :
    w'.Inv fleet := by
  cases act with
  | writeWithSeqNum v block data seqNum =>
    cases hstep
    exact h.set ((h.hosts v).writeWithSeqNum block data seqNum)
  | markPending v block =>
    cases hstep
    exact h.set ((h.hosts v).markPending block)
  | createChunkFile v blocks out =>
    simp only [Fleet.step] at hstep
    split at hstep
    swap
    · cases hstep
    rename_i hjob
    cases hstep
    simp only [isJob, Bool.and_eq_true, decide_eq_true_eq, List.all_eq_true] at hjob
    obtain ⟨hsorted, hblocks⟩ := hjob
    obtain ⟨hcount, hsize⟩ := of_decide_eq_true haddressable
    have hcalls : ∀ call ∈ blocks.map (fleet.chunkCall v),
        call.nonce.getLast? = some domainChunk →
          ∃ v b, call = fleet.chunkCall v b ∧ b.block < 2 ^ 64 ∧ b.seqNum < 2 ^ 64 := by
      intro call hcall _
      obtain ⟨b, hb, rfl⟩ := List.mem_map.mp hcall
      exact ⟨v, b, rfl, (hblocks b hb).2⟩
    have hlogged := h.append hcalls
    refine hlogged.set ((hlogged.hosts v).createChunkFile
      (packed_of_length_le hsorted (fun b hb => (hblocks b hb).1) hcount hsize) ?_ out)
    intro b hb
    exact ⟨List.mem_append_right _ (List.mem_map_of_mem hb), (hblocks b hb).2⟩
  | saveMap v =>
    cases hstep
    exact h.set (h.hosts v).saveMap
  | sealOther call =>
    simp only [Fleet.step] at hstep
    split at hstep
    · cases hstep
    · rename_i hdomain
      cases hstep
      refine h.append fun other hother hlast => ?_
      rw [List.mem_singleton.mp hother] at hlast
      exact absurd hlast hdomain

end Worlds

section Geometry

/-- The tag of a call, by its place in a list of calls. -/
def tableTag (table : List SealCall) (nonce plain aad : Bytes) : Bytes :=
  List.replicate 16 (if ⟨nonce, plain, aad⟩ ∈ table then
    UInt8.ofNat (table.idxOf ⟨nonce, plain, aad⟩ + 1) else 0)

/-- A cipher that knows the calls it will be used for. -/
def tableCipher (table : List SealCall) : Aead :=
  .ofTag (tableTag table) fun _ _ _ => List.length_replicate

/-- One encrypted volume. -/
def single (aead : Aead) (blockSize objBlockSize : Nat) (hpos : 0 < blockSize)
    (hlt : blockSize < 2 ^ 32) (hobj : objBlockSize < 2 ^ 32) : Fleet Unit where
  aead := aead
  cfg _ :=
    { Config.tinySealed with
      blockSize := blockSize
      objBlockSize := objBlockSize
      sealing := some ⟨aead, List.replicate 4 0, List.replicate 32 0⟩
      blockSize_pos := hpos
      blockSize_lt := hlt
      objBlockSize_lt := hobj }
  identity _ := ⟨"vol", List.replicate 4 0, List.replicate 32 0, rfl, rfl⟩
  sealing _ := rfl
  chunkMagic _ := rfl
  nameHash_injective _ _ _ := rfl

theorem mem_of_open_tableCipher {table : List SealCall} {nonce sealed aad plain : Bytes}
    (hopen : (tableCipher table).openBytes nonce sealed aad = some plain) :
    ⟨nonce, plain, aad⟩ ∈ table ∨ List.replicate 16 0 <:+ sealed := by
  by_cases hmem : ⟨nonce, plain, aad⟩ ∈ table
  · exact .inl hmem
  · have hsealed := Aead.eq_append_of_open _ hopen
    rw [tableTag, if_neg hmem] at hsealed
    exact .inr ⟨plain, hsealed.symm⟩

def twoBlocks (data : Bytes) : List Block :=
  [⟨data, 1, 0, data.length⟩, ⟨data, 2, 1, data.length⟩]

/-- Two neighbouring blocks are written, logged and stored in one chunk. -/
def storeTwo (data : Bytes) : List (Act Unit) :=
  [.writeWithSeqNum () 0 data 1, .markPending () 0, .writeWithSeqNum () 1 data 2,
    .markPending () 1, .createChunkFile () (twoBlocks data) .ok]

/-- The block store before the chunk is stored. -/
def loggedTwo (data : Bytes) : UnifiedBlockStore :=
  (((UnifiedBlockStore.new.writeWithSeqNum 0 data 1).markPending 0).writeWithSeqNum 1 data
    2).markPending 1

theorem findBlock_loggedTwo (data : Bytes) (objectOffset stride : Nat) :
    let store := (loggedTwo data).markPersistedRange [0, 1] 0 objectOffset stride [1, 2]
    (∃ offset, findBlock store [] 0 = .own ⟨0, offset, 1⟩) ∧
      ∃ offset, findBlock store [] 1 = .own ⟨0, offset, 2⟩ := by
  intro store
  have hempty : store.entries = ∅ := rfl
  have hextents : store.persistedExtents =
      installRuns 0 objectOffset stride ∅ [⟨0, 0, 1⟩, ⟨1, 1, 2⟩] := rfl
  obtain ⟨hwf, hlocated, -⟩ := installRuns_spec 0 objectOffset stride
    ExtentMap.wellFormed_empty
    (show [(⟨0, 0, 1⟩ : RangeItem), ⟨1, 1, 2⟩].Pairwise fun a b => a.block < b.block by decide)
  have hfind : ∀ {block loc}, store.persistedExtents.locate block = some loc →
      findBlock store [] block = .own loc := by
    intro block loc hloc
    refine (findBlock_eq_own_iff (hextents ▸ hwf) ?_).mpr ⟨by rw [hempty]; rfl, hloc⟩
    intro other e he
    rw [hempty] at he
    cases he
  rw [← hextents] at hlocated
  exact ⟨⟨_, hfind (hlocated ⟨0, 0, 1⟩ (by simp))⟩, _, hfind (hlocated ⟨1, 1, 2⟩ (by simp))⟩

theorem length_lt_of_readFile {object : Option Bytes} {offset length : Nat} {bytes : Bytes}
    (hlength : length < 2 ^ 32) (hread : readFile object offset length = .ok bytes) :
    bytes.length < 2 ^ 32 := by
  unfold readFile at hread
  cases object with
  | none => cases hread
  | some stored =>
    have hwanted : (if length = 0 then safeIntToUint32 stored.length else length) < 2 ^ 32 := by
      unfold safeIntToUint32
      split <;> omega
    dsimp only at hread
    generalize (if length = 0 then safeIntToUint32 stored.length else length) = wanted
      at hread hwanted
    split at hread
    · cases hread
      rw [List.length_take]
      omega
    · cases hread

/-- A run of 4 GiB or more never opens: its length does not fit a request. -/
theorem not_fetchRun_of_large
    {cfg : Config} {host : Host} {read : ObjectReader} {cb : ConsecutiveBlock}
    (hsealed : cfg.sealing.isSome = true) (hread : Fleet.Unmodified host read)
    (hlarge : 2 ^ 32 ≤ cb.numBlocks * (cfg.blockSize + 16)) (plain : Bytes) :
    cfg.fetchRun read cb ≠ .ok plain := by
  intro hfetch
  obtain ⟨-, ciphertext, plains, hbrought, hlength, -⟩ := exists_of_fetchRun hsealed hfetch
  rw [hread] at hbrought
  have hlt := length_lt_of_readFile (Nat.mod_lt _ (by decide)) hbrought
  omega

section Single

variable (aead : Aead) {blockSize objBlockSize : Nat} (hpos : 0 < blockSize)
variable (hlt : blockSize < 2 ^ 32) (hobj : objBlockSize < 2 ^ 32)

theorem exists_storeTwo {data : Bytes} (hdata : data.length = blockSize) :
    ∃ w, Run (single aead blockSize objBlockSize hpos hlt hobj).step (fun _ _ => True) World.new
        (storeTwo data) w ∧
      (∃ offset, findBlock (w.hosts ()).volume.vb.blockStore [] 0 = .own ⟨0, offset, 1⟩) ∧
      ∃ offset, findBlock (w.hosts ()).volume.vb.blockStore [] 1 = .own ⟨0, offset, 2⟩ := by
  have hjob : isJob ((single aead blockSize objBlockSize hpos hlt hobj).cfg ()) (twoBlocks data) =
      true := by
    simp [isJob, hdata, single, twoBlocks]
  refine ⟨_, .cons trivial rfl (.cons trivial rfl (.cons trivial rfl (.cons trivial rfl
    (.cons trivial (if_pos hjob) (.nil _))))), ?_⟩
  exact findBlock_loggedTwo data _ _

theorem not_authentic_storeTwo (hlarge : 2 ^ 32 ≤ 2 * (blockSize + 16)) {w : World Unit}
    {offset offset' : Nat}
    (hfirst : findBlock (w.hosts ()).volume.vb.blockStore [] 0 = .own ⟨0, offset, 1⟩)
    (hsecond : findBlock (w.hosts ()).volume.vb.blockStore [] 1 = .own ⟨0, offset', 2⟩) :
    ¬ (single aead blockSize objBlockSize hpos hlt hobj).Authentic w := by
  intro hauthentic
  obtain ⟨-, hhonest⟩ := hauthentic () _ .own 0
    [⟨0, 0, ⟨0, offset, 1⟩⟩, ⟨1, 1, ⟨0, offset', 2⟩⟩]
    (List.replicate (2 * blockSize) 0) UnifiedBlockStore.new ⟨by simp, by simp⟩
    (by simp [single]; omega)
    (by
      intro x hx
      rcases List.mem_cons.mp hx with rfl | hx
      · exact .store hfirst
      · obtain rfl := List.mem_singleton.mp hx
        exact .store hsecond)
  obtain ⟨data', store', hfetch, -⟩ := hhonest _ fun _ _ _ => rfl
  have hcoalesced : coalesceBlocks [⟨0, 0, ⟨0, offset, 1⟩⟩, ⟨1, 1, ⟨0, offset', 2⟩⟩] =
      [⟨0, 0, 2, 0, offset, [1, 2]⟩] := rfl
  rw [hcoalesced] at hfetch
  unfold Config.fetchRuns at hfetch
  split at hfetch
  · cases hfetch
  · rename_i plain hplain
    exact not_fetchRun_of_large rfl (fun _ _ _ => rfl) hlarge plain hplain

end Single

/-- The calls for two blocks of one byte. -/
def tinyCalls : List SealCall :=
  [⟨makeNonce 1 (List.replicate 4 0) domainChunk, [7], makeAAD (List.replicate 32 0) 0 1⟩,
    ⟨makeNonce 2 (List.replicate 4 0) domainChunk, [7], makeAAD (List.replicate 32 0) 1 2⟩]

theorem one_lt_wordSize : 1 < 2 ^ 32 := by
  decide

theorem two_lt_wordSize : 2 < 2 ^ 32 := by
  decide

def tinyFleet : Fleet Unit :=
  single (tableCipher tinyCalls) 1 2 Nat.one_pos one_lt_wordSize two_lt_wordSize

theorem isInfix_of_readFile {bytes part : Bytes} {offset length : Nat}
    (hread : readFile (some bytes) offset length = .ok part) :
    part <:+: bytes := by
  unfold readFile at hread
  dsimp only at hread
  generalize (if length = 0 then safeIntToUint32 bytes.length else length) = wanted at hread
  split at hread
  · cases hread
    exact (List.take_prefix _ _).isInfix.trans (List.drop_suffix _ _).isInfix
  · cases hread

/-- The chunk of the two blocks holds no sixteen zeros that could pass for a tag. -/
theorem ideal_tinyFleet {host : Host}
    (hchunks : host.volume.backend.chunks.entries =
      [⟨0, (tinyFleet.cfg ()).chunkFile (twoBlocks [7])⟩]) :
    tinyFleet.Ideal tinyCalls fun id offset length =>
      readFile (host.volume.backend.chunks.lookup id) offset length := by
  intro id offset length bytes hread slot hslot nonce aad plain hopen
  dsimp only at hread
  rcases mem_of_open_tableCipher hopen with hmem | hzeros
  · exact hmem
  · exfalso
    cases hchunk : host.volume.backend.chunks.lookup id with
    | none =>
      rw [hchunk] at hread
      cases hread
    | some chunk =>
      rw [hchunk] at hread
      have hentry := FiniteMap.mem_entries_iff.mpr hchunk
      rw [hchunks, List.mem_singleton] at hentry
      cases hentry
      have hinfix := hzeros.isInfix.trans (hslot.trans (isInfix_of_readFile hread))
      revert hinfix
      decide +kernel

end Geometry

section Main

variable {V : Type} [DecidableEq V] {w : World V}

/-- As long as counts and offsets can address the chunks, in every state of the volumes
every read either fails or is genuine, and reads of unmodified chunks do not fail. -/
theorem reads_authentic (fleet : Fleet V) {acts : List (Act V)}
    (hrun : Run fleet.step (fun _ act => fleet.addressable act = true) World.new acts w) :
    fleet.Authentic w :=
  World.Inv.authentic
    (hrun.preserves (fun _ _ _ h haddressable hstep => h.step haddressable hstep)
      (World.inv_new fleet))

/-- Two blocks of one byte are stored, and reads of their chunk bring nothing that was
not sealed. -/
theorem reads_authentic_two :
    ∃ w, Run tinyFleet.step (fun _ act => tinyFleet.addressable act = true) World.new
        (storeTwo [7]) w ∧
      (w.hosts ()).Resolves (tinyFleet.cfg ()) 0 ⟨0, 10, 1⟩ ∧
      (w.hosts ()).Resolves (tinyFleet.cfg ()) 1 ⟨0, 27, 2⟩ ∧
      (∃ read, Fleet.Unmodified (w.hosts ()) read ∧ tinyFleet.Ideal w.log read) ∧
      tinyFleet.Authentic w := by
  obtain ⟨w, hrun, hw⟩ := Run.exists_of_exec tinyFleet.step
    (fun _ act => tinyFleet.addressable act = true) World.new (storeTwo [7])
    (fun w => decide (findBlock (w.hosts ()).volume.vb.blockStore [] 0 = .own ⟨0, 10, 1⟩ ∧
      findBlock (w.hosts ()).volume.vb.blockStore [] 1 = .own ⟨0, 27, 2⟩ ∧
      w.log = tinyCalls ∧
      (w.hosts ()).volume.backend.chunks.entries =
        [⟨0, (tinyFleet.cfg ()).chunkFile (twoBlocks [7])⟩]))
    (by decide +kernel)
  obtain ⟨hfirst, hsecond, hlog, hchunks⟩ := of_decide_eq_true hw
  refine ⟨w, hrun, .store hfirst, .store hsecond, ⟨_, fun _ _ _ => rfl, ?_⟩,
    reads_authentic tinyFleet hrun⟩
  rw [hlog]
  exact ideal_tinyFleet hchunks

/-- Blocks of 2 GiB are stored but never read back. -/
theorem giant_blocks_never_open :
    ∃ (fleet : Fleet Unit) (acts : List (Act Unit)) (w : World Unit),
      Run fleet.step (fun _ _ => True) World.new acts w ∧ ¬ fleet.Authentic w := by
  have hobj : 2 ^ 32 - 1 < 2 ^ 32 := by decide
  obtain ⟨w, hrun, ⟨_, hfirst⟩, _, hsecond⟩ := exists_storeTwo (tableCipher [])
    (Nat.two_pow_pos 31) (by decide) hobj (List.length_replicate (a := (0 : UInt8)))
  exact ⟨_, _, w, hrun, not_authentic_storeTwo _ _ _ hobj (by decide) hfirst hsecond⟩

end Main

end SealedReads

end Viperblock
