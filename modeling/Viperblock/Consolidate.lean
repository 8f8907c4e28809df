import Viperblock.ChunkMap
import Viperblock.Lib.FiniteMap

/-!
# From log records to chunk objects

`WriteWALToChunk` and `RecoverLocalWALs` consolidate log records in the same
way: of every block the version with the highest sequence number is kept, the
survivors are sorted by block and packed into chunks of about `ObjBlockSize`
bytes, and each chunk is stored as a header followed by one slot a block.
-/

namespace Viperblock

open ByteCodec

/-- Keep the newest version of a block; of equal numbers the first stays. -/
def keepNewest (blocksMap : AList fun _ : Nat => Block) (b : Block) :
    AList fun _ : Nat => Block :=
  match blocksMap.lookup b.block with
  | some existing =>
    if existing.seqNum < b.seqNum then blocksMap.insert b.block b else blocksMap
  | none => blocksMap.insert b.block b

/-- The newest version of every block. -/
def newestBlocks (blocks : List Block) : AList fun _ : Nat => Block :=
  blocks.foldl keepNewest ∅

def sortedBlocks (blocks : List Block) : List Block :=
  FiniteMap.sortedValues (newestBlocks blocks)

/-- Bytes the blocks take in the chunk buffer. -/
def bufferSize (blocks : List Block) : Nat :=
  (blocks.map fun b => b.data.length).sum

/-- Cut the blocks into chunks; a chunk is full once it reaches `objBlockSize`. -/
def packChunks (objBlockSize : Nat) : List Block → List Block → List (List Block)
  | buffer, [] => if 0 < bufferSize buffer then [buffer] else []
  | buffer, b :: rest =>
    if objBlockSize ≤ bufferSize (buffer ++ [b]) then
      (buffer ++ [b]) :: packChunks objBlockSize [] rest
    else packChunks objBlockSize (buffer ++ [b]) rest

/-- The chunks a list of log records is consolidated into. -/
def chunkJobs (objBlockSize : Nat) (blocks : List Block) : List (List Block) :=
  packChunks objBlockSize [] (sortedBlocks blocks)

section Newest

/-- What one more record does to the newest version of a block. -/
theorem lookup_keepNewest (blocksMap : AList fun _ : Nat => Block) (b : Block) (block : Nat) :
    (keepNewest blocksMap b).lookup block =
      if block = b.block ∧ ∀ old, blocksMap.lookup block = some old →
          old.seqNum < b.seqNum then some b
      else blocksMap.lookup block := by
  unfold keepNewest
  by_cases hblock : block = b.block
  · subst hblock
    cases hold : blocksMap.lookup b.block with
    | none => simp
    | some existing =>
      by_cases hnewer : existing.seqNum < b.seqNum
      · simp [hnewer]
      · simp [hnewer, hold]
  · cases hold : blocksMap.lookup b.block with
    | none => simp [hblock, AList.lookup_insert_ne hblock]
    | some existing =>
      by_cases hnewer : existing.seqNum < b.seqNum
      · simp [hblock, hnewer, AList.lookup_insert_ne hblock]
      · simp [hblock, hnewer]

/-- The record is the newest of its block among the records. -/
structure IsNewest (blocks : List Block) (b : Block) : Prop where
  mem : b ∈ blocks
  newest : ∀ other ∈ blocks, other.block = b.block → other.seqNum ≤ b.seqNum

theorem foldl_keepNewest_spec (blocks seen : List Block) (blocksMap : AList fun _ : Nat => Block)
    (hsome : ∀ block b, blocksMap.lookup block = some b → b.block = block ∧ IsNewest seen b)
    (hnone : ∀ block, blocksMap.lookup block = none → ∀ b ∈ seen, b.block ≠ block) :
    (∀ block b, (blocks.foldl keepNewest blocksMap).lookup block = some b →
        b.block = block ∧ IsNewest (seen ++ blocks) b) ∧
      (∀ block, (blocks.foldl keepNewest blocksMap).lookup block = none →
        ∀ b ∈ seen ++ blocks, b.block ≠ block) := by
  induction blocks generalizing seen blocksMap with
  | nil =>
    rw [List.append_nil]
    exact ⟨hsome, hnone⟩
  | cons b blocks ih =>
    have hsplit : seen ++ b :: blocks = (seen ++ [b]) ++ blocks := by
      simp
    rw [hsplit]
    refine ih (seen ++ [b]) (keepNewest blocksMap b) ?_ ?_
    · intro block r hr
      rw [lookup_keepNewest] at hr
      split at hr
      · rename_i htaken
        obtain ⟨rfl, hnewer⟩ := htaken
        cases hr
        refine ⟨rfl, by simp, ?_⟩
        intro other hother hblock
        rcases List.mem_append.mp hother with hseen | hself
        · cases hold : blocksMap.lookup b.block with
          | none => exact absurd hblock (hnone _ hold other hseen)
          | some old =>
            obtain ⟨hkey, hnewest⟩ := hsome _ _ hold
            have hle := hnewest.newest other hseen (hblock.trans hkey.symm)
            have hlt := hnewer old hold
            omega
        · simp only [List.mem_singleton] at hself
          rw [hself]
      · rename_i hkept
        obtain ⟨hkey, hnewest⟩ := hsome block r hr
        refine ⟨hkey, by simp [hnewest.mem], ?_⟩
        intro other hother hblock
        rcases List.mem_append.mp hother with hseen | hself
        · exact hnewest.newest other hseen hblock
        · simp only [List.mem_singleton] at hself
          subst hself
          by_contra hnewer
          apply hkept
          refine ⟨by omega, ?_⟩
          intro old hold
          rw [hr] at hold
          cases hold
          omega
    · intro block hr other hother
      rw [lookup_keepNewest] at hr
      split at hr
      · simp at hr
      · rename_i hkept
        rcases List.mem_append.mp hother with hseen | hself
        · exact hnone block hr other hseen
        · simp only [List.mem_singleton] at hself
          subst hself
          rintro rfl
          apply hkept
          exact ⟨rfl, by simp [hr]⟩

theorem newestBlocks_spec (blocks : List Block) :
    (∀ block b, (newestBlocks blocks).lookup block = some b → b.block = block ∧ IsNewest blocks b) ∧
      (∀ block, (newestBlocks blocks).lookup block = none → ∀ b ∈ blocks, b.block ≠ block) := by
  have hspec := foldl_keepNewest_spec blocks [] ∅ (by simp) (by simp)
  exact hspec

theorem isNewest_of_mem_sortedBlocks {blocks : List Block} {b : Block}
    (hb : b ∈ sortedBlocks blocks) :
    IsNewest blocks b := by
  obtain ⟨k, hk⟩ := FiniteMap.mem_sortedValues_iff.mp hb
  exact ((newestBlocks_spec blocks).1 k b hk).2

theorem exists_mem_sortedBlocks {blocks : List Block} {b : Block} (hb : b ∈ blocks) :
    ∃ newest ∈ sortedBlocks blocks, newest.block = b.block := by
  cases hlookup : (newestBlocks blocks).lookup b.block with
  | none => exact absurd rfl ((newestBlocks_spec blocks).2 _ hlookup b hb)
  | some newest =>
    refine ⟨newest, ?_, ((newestBlocks_spec blocks).1 _ _ hlookup).1⟩
    exact FiniteMap.mem_sortedValues_iff.mpr ⟨_, hlookup⟩

theorem sortedBlocks_pairwise (blocks : List Block) :
    (sortedBlocks blocks).Pairwise fun a b => a.block < b.block :=
  FiniteMap.sortedValues_pairwise fun hlookup =>
    ((newestBlocks_spec blocks).1 _ _ hlookup).1

theorem eq_of_ascending {blocks others : List Block}
    (hblocks : blocks.Pairwise fun a b => a.block < b.block)
    (hothers : others.Pairwise fun a b => a.block < b.block) (hmem : ∀ b, b ∈ blocks ↔ b ∈ others) :
    blocks = others := by
  have hnodup : ∀ l : List Block, (l.Pairwise fun a b => a.block < b.block) → l.Nodup := by
    intro l hl
    refine hl.imp ?_
    rintro a b hlt rfl
    exact Nat.lt_irrefl _ hlt
  refine List.Perm.eq_of_pairwise ?_ hblocks hothers
    ((List.perm_ext_iff_of_nodup (hnodup _ hblocks) (hnodup _ hothers)).mpr hmem)
  intro a b _ _ hab hba
  exact absurd hab (Nat.lt_asymm hba)

theorem sortedBlocks_of_sorted {blocks : List Block}
    (hsorted : blocks.Pairwise fun a b => a.block < b.block) :
    sortedBlocks blocks = blocks := by
  refine eq_of_ascending (sortedBlocks_pairwise blocks) hsorted ?_
  intro b
  refine ⟨fun hb => (isNewest_of_mem_sortedBlocks hb).mem, fun hb => ?_⟩
  obtain ⟨newest, hnewest, hblock⟩ := exists_mem_sortedBlocks hb
  have hnodup : (blocks.map Block.block).Nodup :=
    (List.pairwise_map.mpr hsorted).imp Nat.ne_of_lt
  obtain rfl := List.inj_on_of_nodup_map hnodup
    (isNewest_of_mem_sortedBlocks hnewest).mem hb hblock
  exact hnewest

end Newest

section Packing

variable {objBlockSize : Nat}

theorem bufferSize_append (l l' : List Block) :
    bufferSize (l ++ l') = bufferSize l + bufferSize l' := by
  simp [bufferSize]

/-- Packing neither loses nor reorders blocks that hold data. -/
theorem flatten_packChunks (buffer blocks : List Block)
    (hdata : ∀ b ∈ buffer ++ blocks, b.data ≠ []) :
    (packChunks objBlockSize buffer blocks).flatten = buffer ++ blocks := by
  induction blocks generalizing buffer with
  | nil =>
    unfold packChunks
    split
    · simp
    · rename_i hempty
      cases buffer with
      | nil => simp
      | cons b buffer =>
        have hb := List.length_pos_of_ne_nil (hdata b (by simp))
        simp only [bufferSize, List.map_cons, List.sum_cons] at hempty
        omega
  | cons b blocks ih =>
    have hsplit : buffer ++ b :: blocks = (buffer ++ [b]) ++ blocks := by
      simp
    unfold packChunks
    split
    · have hrest : ∀ c ∈ [] ++ blocks, c.data ≠ [] := by
        intro c hc
        exact hdata c (by simp [show c ∈ blocks by simpa using hc])
      rw [List.flatten_cons, ih [] hrest, hsplit, List.nil_append]
    · rw [ih (buffer ++ [b]) (by rwa [← hsplit]), hsplit]

theorem flatten_chunkJobs {blocks : List Block} (hdata : ∀ b ∈ blocks, b.data ≠ []) :
    (chunkJobs objBlockSize blocks).flatten = sortedBlocks blocks := by
  refine flatten_packChunks [] (sortedBlocks blocks) ?_
  intro b hb
  exact hdata b (isNewest_of_mem_sortedBlocks (by simpa using hb)).mem

theorem bufferSize_eq {size : Nat} {blocks : List Block}
    (hdata : ∀ b ∈ blocks, b.data.length = size) :
    bufferSize blocks = blocks.length * size := by
  induction blocks with
  | nil => simp [bufferSize]
  | cons b blocks ih =>
    have hrest := ih fun c hc => hdata c (by simp [hc])
    have hb := hdata b (by simp)
    simp only [bufferSize, List.map_cons, List.sum_cons] at hrest ⊢
    rw [hrest, hb, List.length_cons, Nat.add_mul, Nat.one_mul, Nat.add_comm]

theorem length_of_mem_packChunks {size : Nat} {buffer blocks job : List Block}
    (hdata : ∀ b ∈ buffer ++ blocks, b.data.length = size)
    (hbuffer : buffer = [] ∨ buffer.length * size < objBlockSize)
    (hjob : job ∈ packChunks objBlockSize buffer blocks) :
    job.length ≤ 1 ∨ (job.length - 1) * size < objBlockSize := by
  induction blocks generalizing buffer with
  | nil =>
    unfold packChunks at hjob
    split at hjob
    · obtain rfl := List.mem_singleton.mp hjob
      rcases hbuffer with rfl | hlt
      · simp
      · have hle : (job.length - 1) * size ≤ job.length * size :=
          Nat.mul_le_mul_right _ (Nat.sub_le _ _)
        omega
    · simp at hjob
  | cons b blocks ih =>
    have hsplit : buffer ++ b :: blocks = (buffer ++ [b]) ++ blocks := by
      simp
    unfold packChunks at hjob
    split at hjob
    · rcases List.mem_cons.mp hjob with rfl | hrest
      · rcases hbuffer with rfl | hlt
        · simp
        · simpa using .inr hlt
      · refine ih ?_ (.inl rfl) hrest
        intro c hc
        exact hdata c (by simp [show c ∈ blocks by simpa using hc])
    · rename_i hsmall
      rw [bufferSize_eq fun c hc => hdata c (by
        rw [hsplit]
        exact List.mem_append_left _ hc)] at hsmall
      refine ih ?_ (.inr (by omega)) hjob
      rwa [← hsplit]

theorem ne_nil_of_mem_packChunks {buffer blocks job : List Block}
    (hjob : job ∈ packChunks objBlockSize buffer blocks) :
    job ≠ [] := by
  induction blocks generalizing buffer with
  | nil =>
    unfold packChunks at hjob
    split at hjob
    · rename_i hsize
      obtain rfl := List.mem_singleton.mp hjob
      rintro rfl
      simp [bufferSize] at hsize
    · cases hjob
  | cons b blocks ih =>
    unfold packChunks at hjob
    split at hjob
    · rcases List.mem_cons.mp hjob with rfl | hrest
      · exact List.append_ne_nil_of_right_ne_nil _ (List.cons_ne_nil _ _)
      · exact ih hrest
    · exact ih hjob

theorem length_of_mem_chunkJobs {size : Nat} {blocks job : List Block}
    (hdata : ∀ b ∈ blocks, b.data.length = size) (hjob : job ∈ chunkJobs objBlockSize blocks) :
    job.length ≤ 1 ∨ (job.length - 1) * size < objBlockSize := by
  refine length_of_mem_packChunks ?_ (.inl rfl) hjob
  intro b hb
  exact hdata b (isNewest_of_mem_sortedBlocks (by simpa using hb)).mem

theorem packChunks_eq_singleton {size : Nat} {buffer blocks : List Block} (hsize : 0 < size)
    (hdata : ∀ b ∈ buffer ++ blocks, b.data.length = size)
    (hfew : (buffer.length + blocks.length - 1) * size < objBlockSize)
    (hne : buffer ++ blocks ≠ []) :
    packChunks objBlockSize buffer blocks = [buffer ++ blocks] := by
  induction blocks generalizing buffer with
  | nil =>
    rw [List.append_nil] at hdata hne ⊢
    have hlength := List.length_pos_of_ne_nil hne
    rw [packChunks, bufferSize_eq hdata, if_pos (Nat.mul_pos hlength hsize)]
  | cons b blocks ih =>
    have hsplit : buffer ++ b :: blocks = (buffer ++ [b]) ++ blocks := by simp
    have hfront : bufferSize (buffer ++ [b]) = (buffer.length + 1) * size := by
      rw [bufferSize_eq fun c hc => hdata c (by
        rw [hsplit]
        exact List.mem_append_left _ hc)]
      simp
    rw [packChunks, hfront]
    split
    · -- the chunk is full, so this was the last block
      have hlast : blocks = [] := by
        by_contra hmore
        have hpos := List.length_pos_of_ne_nil hmore
        have hle : (buffer.length + 1) * size ≤ (buffer.length + (blocks.length + 1) - 1) * size :=
          Nat.mul_le_mul_right _ (by omega)
        rw [List.length_cons] at hfew
        omega
      subst hlast
      simp [packChunks, bufferSize]
    · rw [hsplit]
      refine ih ?_ ?_ (by simp)
      · rwa [← hsplit]
      · rw [List.length_cons] at hfew
        rw [List.length_append, List.length_singleton]
        have hsame : buffer.length + 1 + blocks.length - 1 =
            buffer.length + (blocks.length + 1) - 1 := by omega
        rwa [hsame]

/-- Neighbouring blocks of zeros, each written once. -/
def zeroBlocks (size first n : Nat) : List Block :=
  (List.range' first n).map fun i => ⟨List.replicate size 0, i + 1, i, size⟩

section Zeros

variable {size first n : Nat}

@[simp] theorem length_zeroBlocks : (zeroBlocks size first n).length = n := by
  simp [zeroBlocks]

theorem zeroBlocks_ne_nil (hn : 0 < n) : zeroBlocks size first n ≠ [] :=
  List.ne_nil_of_length_pos (by simpa using hn)

theorem zeroBlocks_succ : zeroBlocks size first (n + 1) =
    ⟨List.replicate size 0, first + 1, first, size⟩ :: zeroBlocks size (first + 1) n :=
  rfl

theorem getElem?_zeroBlocks {i : Nat} (hi : i < n) : (zeroBlocks size first n)[i]? =
    some ⟨List.replicate size 0, first + i + 1, first + i, size⟩ := by
  simp [zeroBlocks, hi]

theorem sorted_zeroBlocks : (zeroBlocks size first n).Pairwise fun a b => a.block < b.block := by
  rw [zeroBlocks, List.pairwise_map]
  exact List.pairwise_lt_range'

theorem isChain_zeroBlocks :
    (zeroBlocks size first n).IsChain fun a b => b.block = a.block + 1 :=
  List.isChain_iff_getElem.mpr fun i hi => by simp [zeroBlocks, Nat.add_assoc]

theorem splitBy_zeroBlocks (hn : 0 < n) :
    (zeroBlocks size first n).splitBy BlocksToObject.consecutive = [zeroBlocks size first n] :=
  List.splitBy_of_isChain (zeroBlocks_ne_nil hn)
    (isChain_zeroBlocks.imp fun a b hab => by simp [BlocksToObject.consecutive, hab])

theorem chunkJobs_zeroBlocks (hsize : 0 < size) (hn : 0 < n)
    (hfew : (n - 1) * size < objBlockSize) :
    chunkJobs objBlockSize (zeroBlocks size first n) = [zeroBlocks size first n] := by
  rw [chunkJobs, sortedBlocks_of_sorted sorted_zeroBlocks]
  refine packChunks_eq_singleton hsize (fun b hb => ?_) (by simpa using hfew)
    (zeroBlocks_ne_nil hn)
  obtain ⟨i, -, rfl⟩ := List.mem_map.mp hb
  exact List.length_replicate

end Zeros

end Packing

/-- Magic, version and block size. -/
def Config.chunkHeader (cfg : Config) : Bytes :=
  cfg.chunkMagic ++ encode 2 cfg.version ++ encode 4 cfg.blockSize

/-- The chunk object `createChunkFile` stores for a list of blocks. -/
def Config.chunkFile (cfg : Config) (blocks : List Block) : Bytes :=
  cfg.chunkHeader ++ (blocks.map (cfg.sealBlock domainChunk)).flatten

/-- The data of a block at a location, as a single-block read returns it. -/
def Config.readSlot (cfg : Config) (chunks : AList fun _ : Nat => Bytes)
    (block : Nat) (loc : Location) : Option Bytes :=
  match chunks.lookup loc.objectID with
  | none => none
  | some chunk =>
    let stored := (chunk.drop loc.objectOffset).take cfg.slotSize
    if stored.length < cfg.slotSize then none
    else cfg.openBlock domainChunk block loc.seqNum stored

section Slots

variable {cfg : Config}

theorem length_chunkHeader (cfg : Config) :
    cfg.chunkHeader.length = chunkHeaderSize := by
  simp [Config.chunkHeader, chunkHeaderSize, cfg.chunkMagic_length]

/-- Every block of a chunk is read back from its slot. -/
theorem readSlot_chunkFile {chunks : AList fun _ : Nat => Bytes} {id i : Nat}
    {blocks : List Block} {b : Block} (hchunk : chunks.lookup id = some (cfg.chunkFile blocks))
    (hdata : ∀ b ∈ blocks, b.data.length = cfg.blockSize) (hb : blocks[i]? = some b) :
    cfg.readSlot chunks b.block
      ⟨id, chunkHeaderSize + i * cfg.slotSize, b.seqNum⟩ = some b.data := by
  have hslots : ∀ piece ∈ blocks.map (cfg.sealBlock domainChunk), piece.length = cfg.slotSize := by
    intro piece hpiece
    obtain ⟨c, hc, rfl⟩ := List.mem_map.mp hpiece
    exact Config.length_sealBlock domainChunk (hdata c hc)
  have hslot : (cfg.sealBlock domainChunk b).length = cfg.slotSize :=
    Config.length_sealBlock domainChunk (hdata b (List.mem_of_getElem? hb))
  obtain ⟨hlt, hget⟩ := List.getElem?_eq_some_iff.mp hb
  have hdrop : (cfg.chunkFile blocks).drop (chunkHeaderSize + i * cfg.slotSize) =
      cfg.sealBlock domainChunk b ++
        ((blocks.drop (i + 1)).map (cfg.sealBlock domainChunk)).flatten := by
    rw [Config.chunkFile, ← List.drop_drop, List.drop_left' (length_chunkHeader cfg),
      drop_flatten_frames hslots, ← List.map_drop, List.drop_eq_getElem_cons hlt, hget,
      List.map_cons, List.flatten_cons]
  unfold Config.readSlot
  simp only [hchunk]
  rw [hdrop, List.take_left' hslot, if_neg (by omega)]
  exact cfg.openBlock_sealBlock domainChunk b

end Slots

end Viperblock
