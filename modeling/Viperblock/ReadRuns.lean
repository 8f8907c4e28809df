import Viperblock.MapHistory
import Viperblock.ReadPath

/-!
# Reading runs of blocks

What the requests of a read bring back.  A run of wanted blocks with consecutive numbers
in one chunk is fetched with one request, opened slot by slot and copied into the buffer
at the position of its first block.  If the chunks are those that `createChunkFile` stored
and the blocks are where it put them, every wanted block gets the data that was stored
for it.
-/

namespace Viperblock

open BlocksToObject ByteCodec Config

/-- The data of block `i` in a buffer. -/
def slotAt (size : Nat) (buffer : Bytes) (i : Nat) : Bytes :=
  (buffer.drop (i * size)).take size

section Buffers

variable {size : Nat} {buffer bytes : Bytes}

theorem slotAt_flatten {pieces : List Bytes} {piece : Bytes} {i : Nat}
    (hsize : ∀ piece ∈ pieces, piece.length = size) (hi : pieces[i]? = some piece) :
    slotAt size pieces.flatten i = piece := by
  obtain ⟨hlt, hget⟩ := List.getElem?_eq_some_iff.mp hi
  have hpiece := hsize piece (List.mem_of_getElem? hi)
  rw [slotAt, drop_flatten_frames hsize, List.drop_eq_getElem_cons hlt, hget,
    List.flatten_cons, List.take_left' hpiece]

theorem length_overwrite_of_le {start : Nat} (hfits : start + bytes.length ≤ buffer.length) :
    (overwrite buffer start bytes).length = buffer.length := by
  rw [overwrite, List.length_append, List.length_append, List.length_take, List.length_drop]
  omega

theorem slotAt_overwrite_of_mem {start count i : Nat} (hbytes : bytes.length = count * size)
    (hfits : (start + count) * size ≤ buffer.length) (hi : i < count) :
    slotAt size (overwrite buffer (start * size) bytes) (start + i) = slotAt size bytes i := by
  have hmul : (i + 1) * size ≤ count * size := Nat.mul_le_mul_right _ hi
  rw [Nat.add_mul] at hfits
  rw [Nat.add_one_mul] at hmul
  have htake : (buffer.take (start * size)).length = start * size := by
    rw [List.length_take]
    omega
  unfold slotAt overwrite
  rw [List.append_assoc, Nat.add_mul, ← List.drop_drop, List.drop_left' htake,
    List.drop_append_of_le_length (by omega), List.take_append_of_le_length]
  rw [List.length_drop]
  omega

theorem slotAt_overwrite_of_not_mem {start count i : Nat} (hbytes : bytes.length = count * size)
    (hfits : (start + count) * size ≤ buffer.length) (hi : i < start ∨ start + count ≤ i) :
    slotAt size (overwrite buffer (start * size) bytes) i = slotAt size buffer i := by
  rw [Nat.add_mul] at hfits
  have htake : (buffer.take (start * size)).length = start * size := by
    rw [List.length_take]
    omega
  unfold slotAt overwrite
  rcases hi with hbefore | hafter
  · have hmul : (i + 1) * size ≤ start * size := Nat.mul_le_mul_right _ hbefore
    rw [Nat.add_one_mul] at hmul
    rw [List.append_assoc, List.drop_append_of_le_length (by omega),
      List.take_append_of_le_length (by rw [List.length_drop]; omega), List.drop_take,
      List.take_take, Nat.min_eq_left (by omega)]
  · have hmul : (start + count) * size ≤ i * size := Nat.mul_le_mul_right _ hafter
    rw [Nat.add_mul] at hmul
    have hfront : (buffer.take (start * size) ++ bytes).length = start * size + count * size := by
      rw [List.length_append, htake, hbytes]
    have hsplit : i * size = (start * size + count * size) +
        (i * size - (start * size + count * size)) := by
      omega
    rw [hsplit, ← List.drop_drop, List.drop_left' hfront, hbytes, List.drop_drop]

end Buffers

namespace Config

variable {cfg : Config}

section Opening

/-- The slots of a run that opens are opened one by one, each for its own block. -/
theorem exists_of_openSlots {objectID block : Nat} {seqNums : List Nat} {slots : List Bytes}
    {plain : Bytes} (hlength : seqNums.length = slots.length)
    (hopen : cfg.openSlots objectID block seqNums slots = .ok plain) :
    ∃ plains : List Bytes, plain = plains.flatten ∧ plains.length = seqNums.length ∧
      ∀ k seqNum slot, seqNums[k]? = some seqNum → slots[k]? = some slot →
        ∃ data, plains[k]? = some data ∧
          cfg.openBlock domainChunk (block + k) seqNum slot = some data := by
  induction seqNums generalizing block slots plain with
  | nil =>
    cases hopen
    exact ⟨[], rfl, rfl, by simp⟩
  | cons seqNum seqNums ih =>
    cases slots with
    | nil => cases hlength
    | cons slot slots =>
      unfold openSlots at hopen
      cases hfirst : cfg.openBlock domainChunk block seqNum slot with
      | none => simp [hfirst] at hopen
      | some data =>
        cases hrest : cfg.openSlots objectID (block + 1) seqNums slots with
        | error err => simp [hfirst, hrest] at hopen
        | ok rest =>
          simp only [hfirst, hrest, Except.ok.injEq] at hopen
          obtain ⟨plains, rfl, hplains, hget⟩ := ih (by simpa using hlength) hrest
          refine ⟨data :: plains, by simp [← hopen], by simp [hplains], ?_⟩
          intro k seqNum' slot' hseqNum hslot
          cases k with
          | zero =>
            cases hseqNum
            cases hslot
            exact ⟨data, rfl, hfirst⟩
          | succ k =>
            have hdata := hget k seqNum' slot' hseqNum hslot
            rwa [Nat.add_assoc, Nat.add_comm 1] at hdata

theorem openSlots_sealBlock (objectID : Nat) {block : Nat} {blocks : List Block}
    (hblocks : ∀ k b, blocks[k]? = some b → b.block = block + k) :
    cfg.openSlots objectID block (blocks.map fun b => b.seqNum)
      (blocks.map (cfg.sealBlock domainChunk)) = .ok (blocks.map fun b => b.data).flatten := by
  induction blocks generalizing block with
  | nil => rfl
  | cons b blocks ih =>
    have hfirst : b.block = block := hblocks 0 b rfl
    have hrest := @ih (block + 1) fun k c hc => by
      rw [hblocks (k + 1) c (by simpa using hc), Nat.add_assoc, Nat.add_comm 1]
    simp only [List.map_cons, List.flatten_cons]
    unfold openSlots
    rw [← hfirst, cfg.openBlock_sealBlock, hfirst, hrest]

end Opening

end Config

/-- The blocks of a chunk that 16-bit counts and 32-bit offsets and lengths can address. -/
structure Packed (cfg : Config) (blocks : List Block) : Prop where
  ascending : blocks.Pairwise fun a b => a.block < b.block
  data : ∀ b ∈ blocks, b.data.length = cfg.blockSize
  offset : ∀ i < blocks.length, chunkHeaderSize + i * cfg.slotSize < 2 ^ 32
  run : ∀ run ∈ blocks.splitBy consecutive, run.length ≤ 65535 ∧ run.length * cfg.slotSize < 2 ^ 32

/-- Where `createChunkFile` puts the block with index `i`. -/
def Config.slotLocation (cfg : Config) (chunkIndex i : Nat) (b : Block) : Location :=
  ⟨chunkIndex, chunkHeaderSize + i * cfg.slotSize, b.seqNum⟩

/-- The location is that of the block in a chunk, given what the chunks were made of. -/
def Located (cfg : Config) (packing : Nat → List Block) (block : Nat) (loc : Location)
    (b : Block) : Prop :=
  b.block = block ∧
    ∃ i, (packing loc.objectID)[i]? = some b ∧ loc = cfg.slotLocation loc.objectID i b

/-- A backend that returns the chunks as they were stored. -/
def Serves (cfg : Config) (packing : Nat → List Block) (read : ObjectReader) : Prop :=
  ∀ id, packing id ≠ [] → Packed cfg (packing id) ∧ ∀ offset length, read id offset length =
      readFile (some (cfg.chunkFile (packing id))) offset length

/-- An encrypted volume marks its chunks. -/
def Config.Marked (cfg : Config) : Prop :=
  cfg.sealing.isSome = true → cfg.chunkMagic = encryptedChunkMagic

section Stored

variable {cfg : Config} {packing : Nat → List Block} {blocks : List Block}

section

variable (h : Packed cfg blocks)

include h

theorem Packed.index_succ {i j : Nat} {a b : Block} (ha : blocks[i]? = some a)
    (hb : blocks[j]? = some b) (hsucc : b.block = a.block + 1) :
    j = i + 1 := by
  obtain ⟨hi, rfl⟩ := List.getElem?_eq_some_iff.mp ha
  obtain ⟨hj, rfl⟩ := List.getElem?_eq_some_iff.mp hb
  have hsorted := List.pairwise_iff_getElem.mp h.ascending
  rcases Nat.lt_trichotomy j (i + 1) with hlt | heq | hgt
  · rcases Nat.lt_or_ge j i with hji | hij
    · have := hsorted j i hj hi hji
      omega
    · obtain rfl : j = i := by omega
      omega
  · exact heq
  · have hleft := hsorted i (i + 1) hi (by omega) (by omega)
    have hright := hsorted (i + 1) j (by omega) hj hgt
    omega

/-- Consecutive blocks lie in one run, so a run has room for them. -/
theorem Packed.window {start n first : Nat}
    (hwindow : ∀ k ≤ n, ∃ b, blocks[start + k]? = some b ∧ b.block = first + k) :
    n + 1 ≤ 65535 ∧ (n + 1) * cfg.slotSize < 2 ^ 32 := by
  obtain ⟨head, hhead, hfirst⟩ := hwindow 0 (Nat.zero_le n)
  obtain ⟨run, hrun, hmem⟩ := ConsecutiveRuns.exists_run_mem_iff (r := consecutive).mpr
    (List.mem_of_getElem? hhead)
  have hall : ∀ k ≤ n, ∃ b ∈ run, b.block = first + k := by
    intro k
    induction k with
    | zero => exact fun _ => ⟨head, hmem, hfirst⟩
    | succ k ih =>
      intro hk
      obtain ⟨a, ha, hblock⟩ := ih (by omega)
      obtain ⟨b, hb, hblock'⟩ := hwindow (k + 1) hk
      refine ⟨b, ConsecutiveRuns.mem_run_of_succ h.ascending ?_ hrun ha
        (List.mem_of_getElem? hb) (by omega), hblock'⟩
      intro x y hxy
      simpa [consecutive] using hxy
  have hlength : n + 1 ≤ run.length := by
    obtain ⟨last, hlast, hnumber⟩ := hall n (Nat.le_refl n)
    obtain ⟨i, hi⟩ := List.mem_iff_getElem?.mp hmem
    obtain ⟨j, hj⟩ := List.mem_iff_getElem?.mp hlast
    have hchain := ConsecutiveRuns.isChain_of_mem_runs Block.block
      (fun a b hab => by simpa [consecutive] using hab) hrun
    have hlt := (List.getElem?_eq_some_iff.mp hj).1
    cases run with
    | nil => cases hmem
    | cons x rest =>
      have hleft := ConsecutiveRuns.number_of_getElem? hchain hi
      have hright := ConsecutiveRuns.number_of_getElem? hchain hj
      omega
  obtain ⟨hcount, hsize⟩ := h.run run hrun
  exact ⟨by omega, (Nat.mul_le_mul_right _ hlength).trans_lt hsize⟩

theorem Packed.sealed :
    ∀ piece ∈ blocks.map (cfg.sealBlock domainChunk), piece.length = cfg.slotSize := by
  intro piece hpiece
  obtain ⟨b, hb, rfl⟩ := List.mem_map.mp hpiece
  exact length_sealBlock domainChunk (h.data b hb)

theorem Packed.length_chunkFile :
    (cfg.chunkFile blocks).length = chunkHeaderSize + blocks.length * cfg.slotSize := by
  rw [chunkFile, List.length_append, length_chunkHeader, length_flatten_frames h.sealed,
    List.length_map]

theorem Packed.slice_chunkFile (start count : Nat) :
    ((cfg.chunkFile blocks).drop (chunkHeaderSize + start * cfg.slotSize)).take
        (count * cfg.slotSize) =
      (((blocks.drop start).take count).map (cfg.sealBlock domainChunk)).flatten := by
  have hdropped : ∀ piece ∈ (blocks.map (cfg.sealBlock domainChunk)).drop start,
      piece.length = cfg.slotSize :=
    fun piece hpiece => h.sealed piece (List.mem_of_mem_drop hpiece)
  rw [chunkFile, ← List.drop_drop, List.drop_left' (length_chunkHeader cfg),
    drop_flatten_frames h.sealed, take_flatten_frames hdropped, List.map_take, List.map_drop]

end

theorem exists_window {first : WantedBlock} {rest : List WantedBlock}
    (hpacked : Packed cfg (packing first.loc.objectID))
    (hchain : (first :: rest).IsChain fun a b => a.continues b = true)
    (hlocated : ∀ w ∈ first :: rest, ∃ b, Located cfg packing w.block w.loc b) :
    ∃ start, ∀ k w, (first :: rest)[k]? = some w →
      ∃ b, (packing first.loc.objectID)[start + k]? = some b ∧ b.block = w.block ∧
        w.loc = cfg.slotLocation first.loc.objectID (start + k) b := by
  induction rest generalizing first with
  | nil =>
    obtain ⟨b, hblock, i, hi, hloc⟩ := hlocated first List.mem_cons_self
    refine ⟨i, fun k w hw => ?_⟩
    cases k with
    | zero =>
      cases hw
      exact ⟨b, hi, hblock, hloc⟩
    | succ k => simp at hw
  | cons second rest ih =>
    rw [List.isChain_cons_cons] at hchain
    obtain ⟨hnext, hchain⟩ := hchain
    simp only [WantedBlock.continues, Bool.and_eq_true, beq_iff_eq] at hnext
    obtain ⟨hsucc, hid⟩ := hnext
    obtain ⟨b, hblock, i, hi, hloc⟩ := hlocated first List.mem_cons_self
    obtain ⟨start, hrest⟩ := ih (by rwa [hid]) hchain
      fun w hw => hlocated w (List.mem_cons_of_mem _ hw)
    rw [hid] at hrest
    obtain ⟨b', hb', hblock', -⟩ := hrest 0 second rfl
    have hstart : start = i + 1 :=
      hpacked.index_succ hi hb' (by rw [hblock', hsucc, hblock])
    refine ⟨i, fun k w hw => ?_⟩
    cases k with
    | zero =>
      cases hw
      exact ⟨b, hi, hblock, hloc⟩
    | succ k =>
      have hw' := hrest k w hw
      rwa [hstart, Nat.add_assoc, Nat.add_comm 1] at hw'

/-- The slots of a chunk that a run covers, by the blocks they were made of. -/
structure RunSlice (cfg : Config) (packing : Nat → List Block) (first : WantedBlock)
    (rest : List WantedBlock) (start : Nat) (slice : List Block) : Prop where
  eq : slice = ((packing first.loc.objectID).drop start).take (rest.length + 1)
  fits : start + (rest.length + 1) ≤ (packing first.loc.objectID).length
  offset : first.loc.objectOffset = chunkHeaderSize + start * cfg.slotSize
  seqNums : (first :: rest).map (fun w => w.loc.seqNum) = slice.map fun b => b.seqNum
  blocks : ∀ k b, slice[k]? = some b → b.block = first.block + k
  located : ∀ (k : Nat) (w : WantedBlock), (first :: rest)[k]? = some w →
    ∃ b, slice[k]? = some b ∧ Located cfg packing w.block w.loc b

theorem exists_runSlice {first : WantedBlock} {rest : List WantedBlock}
    (hpacked : Packed cfg (packing first.loc.objectID))
    (hchain : (first :: rest).IsChain fun a b => a.continues b = true)
    (hlocated : ∀ w ∈ first :: rest, ∃ b, Located cfg packing w.block w.loc b) :
    ∃ start slice, RunSlice cfg packing first rest start slice := by
  obtain ⟨start, hwindow⟩ := exists_window hpacked hchain hlocated
  have hfits : start + (rest.length + 1) ≤ (packing first.loc.objectID).length := by
    obtain ⟨b, hb, -⟩ := hwindow rest.length _ (List.getElem?_eq_getElem (by simp))
    have := (List.getElem?_eq_some_iff.mp hb).1
    omega
  generalize hslice : ((packing first.loc.objectID).drop start).take (rest.length + 1) = slice
  have hget : ∀ k, k < rest.length + 1 → slice[k]? = (packing first.loc.objectID)[start + k]? := by
    intro k hk
    rw [← hslice, List.getElem?_take_of_lt hk, List.getElem?_drop]
  have hcount : slice.length = (first :: rest).length := by
    rw [← hslice, List.length_take, List.length_drop, List.length_cons]
    omega
  -- the run and the slice go in step
  have hstep : ∀ k w b, (first :: rest)[k]? = some w → slice[k]? = some b →
      b.block = w.block ∧ w.loc = cfg.slotLocation first.loc.objectID (start + k) b := by
    intro k w b hw hb
    obtain ⟨b', hb', heq⟩ := hwindow k w hw
    rw [hget k (List.getElem?_eq_some_iff.mp hw).1, hb'] at hb
    cases hb
    exact heq
  refine ⟨start, slice, hslice.symm, hfits, ?_, ?_, ?_, ?_⟩
  · obtain ⟨b, -, -, hloc⟩ := hwindow 0 first rfl
    rw [hloc, Nat.add_zero]
    rfl
  · refine List.ext_getElem (by simp [hcount]) fun k hk hk' => ?_
    rw [List.length_map] at hk hk'
    rw [List.getElem_map, List.getElem_map,
      (hstep k _ _ (List.getElem?_eq_getElem hk) (List.getElem?_eq_getElem hk')).2]
    rfl
  · intro k b hb
    have hk : k < (first :: rest).length := hcount ▸ (List.getElem?_eq_some_iff.mp hb).1
    have hw := List.getElem?_eq_getElem hk
    have hnext : (first :: rest).IsChain fun a b => b.block = a.block + 1 := by
      refine hchain.imp fun a b hab => ?_
      simp only [WantedBlock.continues, Bool.and_eq_true, beq_iff_eq] at hab
      exact hab.1
    rw [(hstep k _ b hw hb).1]
    exact ConsecutiveRuns.number_of_getElem? hnext hw
  · intro k w hw
    have hk := (List.getElem?_eq_some_iff.mp hw).1
    have hb := List.getElem?_eq_getElem (l := slice) (hcount ▸ hk)
    obtain ⟨hblock, hloc⟩ := hstep k w _ hw hb
    refine ⟨_, hb, hblock, start + k, ?_, ?_⟩
    · rw [hloc]
      exact (hget k hk).symm.trans hb
    · rw [hloc]
      rfl

theorem readFile_of_le {bytes : Bytes} {offset length : Nat} (hlength : length ≠ 0)
    (hle : offset + length ≤ bytes.length) :
    readFile (some bytes) offset length = .ok ((bytes.drop offset).take length) := by
  unfold readFile
  simp only [if_neg hlength, if_pos hle]

theorem checkChunkMagic_of_serves {read : ObjectReader} {id : Nat} (hmarked : cfg.Marked)
    (hread : ∀ offset length, read id offset length =
      readFile (some (cfg.chunkFile blocks)) offset length) :
    cfg.checkChunkMagic read id = .ok () := by
  unfold checkChunkMagic
  cases hsealing : cfg.sealing with
  | none => rfl
  | some sealing =>
    have hmagic := hmarked (by rw [hsealing]; rfl)
    have hheader : (cfg.chunkFile blocks).take 4 = encryptedChunkMagic := by
      rw [chunkFile, chunkHeader, List.append_assoc, List.append_assoc,
        List.take_left' cfg.chunkMagic_length, hmagic]
    have hlength : 0 + 4 ≤ (cfg.chunkFile blocks).length := by
      rw [chunkFile, List.length_append, length_chunkHeader, chunkHeaderSize]
      omega
    rw [hread, readFile_of_le (by decide) hlength, List.drop_zero, hheader]
    rfl

section Slice

variable {first : WantedBlock} {rest : List WantedBlock} {start : Nat} {slice : List Block}

variable (h : RunSlice cfg packing first rest start slice)

include h

theorem RunSlice.length_eq :
    slice.length = rest.length + 1 := by
  have hfits := h.fits
  rw [h.eq, List.length_take, List.length_drop]
  omega

theorem RunSlice.mem {b : Block} (hb : b ∈ slice) :
    b ∈ packing first.loc.objectID := by
  rw [h.eq] at hb
  exact List.mem_of_mem_drop (List.mem_of_mem_take hb)

section

variable (hpacked : Packed cfg (packing first.loc.objectID))

include hpacked

theorem RunSlice.sealed :
    ∀ piece ∈ slice.map (cfg.sealBlock domainChunk), piece.length = cfg.slotSize := by
  intro piece hpiece
  obtain ⟨b, hb, rfl⟩ := List.mem_map.mp hpiece
  exact length_sealBlock domainChunk (hpacked.data b (h.mem hb))

theorem RunSlice.length_sealed :
    (slice.map (cfg.sealBlock domainChunk)).flatten.length = (rest.length + 1) * cfg.slotSize := by
  rw [length_flatten_frames (h.sealed hpacked), List.length_map, h.length_eq]

theorem RunSlice.end_le :
    first.loc.objectOffset + (rest.length + 1) * cfg.slotSize ≤
      (cfg.chunkFile (packing first.loc.objectID)).length := by
  have hmul := Nat.mul_le_mul_right cfg.slotSize h.fits
  rw [Nat.add_mul] at hmul
  rw [h.offset, hpacked.length_chunkFile]
  omega

theorem RunSlice.lengths :
    safeIntToUint16 (rest.length + 1) = rest.length + 1 ∧
      cfg.blockStride = cfg.slotSize ∧ (rest.length + 1) * cfg.slotSize < 2 ^ 32 := by
  have hwindow : ∀ k ≤ rest.length, ∃ b, (packing first.loc.objectID)[start + k]? = some b ∧
      b.block = first.block + k := by
    intro k hk
    have hlt : k < slice.length := by
      rw [h.length_eq]
      omega
    refine ⟨_, ?_, h.blocks k _ (List.getElem?_eq_getElem hlt)⟩
    rw [← List.getElem?_eq_getElem hlt, h.eq, List.getElem?_take_of_lt (by omega),
      List.getElem?_drop]
  obtain ⟨hcount, hsize⟩ := hpacked.window hwindow
  have hone : cfg.slotSize ≤ (rest.length + 1) * cfg.slotSize :=
    Nat.le_mul_of_pos_left _ (Nat.succ_pos _)
  exact ⟨Nat.min_eq_left hcount, cfg.blockStride_eq (by omega), hsize⟩

theorem RunSlice.readFile_eq :
    readFile (some (cfg.chunkFile (packing first.loc.objectID))) first.loc.objectOffset
        ((rest.length + 1) * cfg.slotSize) =
      .ok (slice.map (cfg.sealBlock domainChunk)).flatten := by
  have hpos : 0 < (rest.length + 1) * cfg.slotSize :=
    Nat.mul_pos (Nat.succ_pos _) cfg.slotSize_pos
  rw [readFile_of_le (by omega) (h.end_le hpacked), h.offset, hpacked.slice_chunkFile, h.eq]

theorem RunSlice.openChunkRun_eq (hsealed : cfg.sealing.isSome = true) {cb : ConsecutiveBlock}
    (hnum : cb.numBlocks = rest.length + 1) (hstart : cb.startBlock = first.block)
    (hseqNums : cb.seqNums = (first :: rest).map fun w => w.loc.seqNum) :
    cfg.openChunkRun cb (slice.map (cfg.sealBlock domainChunk)).flatten =
      .ok (slice.map fun b => b.data).flatten := by
  obtain ⟨sealing, hsealing⟩ := Option.isSome_iff_exists.mp hsealed
  have hslot : cfg.slotSize = cfg.blockSize + 16 := by
    simp only [slotSize, hsealing]
  have hframes : frames (cfg.blockSize + 16) (cb.numBlocks + 1)
      (slice.map (cfg.sealBlock domainChunk)).flatten = slice.map (cfg.sealBlock domainChunk) := by
    have hall := frames_flatten (slice.map (cfg.sealBlock domainChunk)) []
      (h.sealed hpacked) cfg.slotSize_pos (Nat.lt_succ_self _)
    rw [List.append_nil, List.length_map, h.length_eq] at hall
    rw [← hslot, hnum]
    exact hall
  unfold openChunkRun
  rw [if_neg (by rw [h.length_sealed hpacked, hnum, hslot]; exact fun hne => hne rfl),
    if_neg (by rw [hseqNums, hnum, List.length_map]; exact fun hne => hne rfl),
    hframes, hseqNums, h.seqNums, hstart]
  exact openSlots_sealBlock _ h.blocks

end

end Slice

/-- A run of stored blocks is fetched as the data they were stored with. -/
theorem fetchRun_of_located {read : ObjectReader} {first : WantedBlock} {rest : List WantedBlock}
    {cb : ConsecutiveBlock} (hmarked : cfg.Marked) (hserves : Serves cfg packing read)
    (hchain : (first :: rest).IsChain fun a b => a.continues b = true)
    (hlocated : ∀ w ∈ first :: rest, ∃ b, Located cfg packing w.block w.loc b)
    (hcb : coalesceRun (first :: rest) = some cb) :
    cb.numBlocks = rest.length + 1 ∧ ∃ start slice, RunSlice cfg packing first rest start slice ∧
        Packed cfg (packing first.loc.objectID) ∧
        cfg.fetchRun read cb = .ok (slice.map fun b => b.data).flatten := by
  obtain ⟨b, -, i, hi, -⟩ := hlocated first List.mem_cons_self
  obtain ⟨hpacked, hread⟩ := hserves _ (List.ne_nil_of_mem (List.mem_of_getElem? hi))
  obtain ⟨start, slice, hslice⟩ := exists_runSlice hpacked hchain hlocated
  obtain ⟨hnum, hstride, hlt⟩ := hslice.lengths hpacked
  cases hcb
  refine ⟨hnum, start, slice, hslice, hpacked, ?_⟩
  have hlength : cfg.runLength
      { blockPosition := first.blockPosition
        startBlock := first.block
        numBlocks := safeIntToUint16 (rest.length + 1)
        objectID := first.loc.objectID
        objectOffset := first.loc.objectOffset
        seqNums := (first :: rest).map fun w => w.loc.seqNum } =
      (rest.length + 1) * cfg.slotSize := by
    simp only [runLength, hnum, hstride]
    exact Nat.mod_eq_of_lt hlt
  unfold fetchRun
  rw [checkChunkMagic_of_serves hmarked hread]
  simp only [hread, hlength, hslice.readFile_eq hpacked]
  split
  · rename_i hsealed
    exact hslice.openChunkRun_eq hpacked hsealed hnum rfl rfl
  · rename_i hplain
    rw [Bool.not_eq_true, Option.isSome_eq_false_iff, Option.isNone_iff_eq_none] at hplain
    have hslot : cfg.slotSize = cfg.blockSize := by
      simp only [slotSize, hplain]
    have hdata : slice.map (cfg.sealBlock domainChunk) = slice.map fun b => b.data := by
      refine List.map_congr_left fun b _ => ?_
      simp only [sealBlock, hplain]
    rw [if_neg (by rw [hslice.length_sealed hpacked]; exact fun hne => hne rfl), hnum, ← hslot,
      ← hslice.length_sealed hpacked, List.take_length, hdata]

end Stored

section Runs

variable {cfg : Config} {read : ObjectReader}

theorem fetchRuns_congr {cfg cfg' : Config} (hsealing : cfg'.sealing = cfg.sealing)
    (hsize : cfg'.blockSize = cfg.blockSize)
    (read : ObjectReader) (cbs : List ConsecutiveBlock) (data : Bytes) (store : UnifiedBlockStore) :
    cfg'.fetchRuns read cbs data store = cfg.fetchRuns read cbs data store := by
  have hslots : ∀ id block seqNums slots,
      cfg'.openSlots id block seqNums slots = cfg.openSlots id block seqNums slots := by
    intro id block seqNums slots
    induction seqNums generalizing block slots with
    | nil => rfl
    | cons seqNum seqNums ih =>
      cases slots with
      | nil => rfl
      | cons slot slots =>
        simp only [openSlots, openBlock, hsealing, ih]
  have hlength : ∀ cb, cfg'.runLength cb = cfg.runLength cb := by
    intro cb
    simp only [runLength, blockStride, hsealing, hsize]
  have hopen : ∀ cb ciphertext, cfg'.openChunkRun cb ciphertext =
      cfg.openChunkRun cb ciphertext := by
    intro cb ciphertext
    simp only [openChunkRun, hsize, hslots]
  have hmagic : ∀ id, cfg'.checkChunkMagic read id = cfg.checkChunkMagic read id := by
    intro id
    unfold checkChunkMagic
    rw [hsealing]
  have hrun : ∀ cb, cfg'.fetchRun read cb = cfg.fetchRun read cb := by
    intro cb
    unfold fetchRun
    rw [hmagic, hlength, hsealing, hsize]
    simp only [hopen]
  induction cbs generalizing data store with
  | nil => rfl
  | cons cb cbs ih =>
    simp only [fetchRuns, cacheRun, hrun, hsize, ih]

theorem exists_of_fetchRun {cb : ConsecutiveBlock} {plain : Bytes}
    (hsealed : cfg.sealing.isSome = true) (hfetch : cfg.fetchRun read cb = .ok plain) :
    cb.seqNums.length = cb.numBlocks ∧ ∃ (ciphertext : Bytes) (plains : List Bytes),
        read cb.objectID cb.objectOffset (cfg.runLength cb) = .ok ciphertext ∧
        ciphertext.length = cb.numBlocks * (cfg.blockSize + 16) ∧
        plain = plains.flatten ∧ plains.length = cb.numBlocks ∧
        (∀ data ∈ plains, data.length = cfg.blockSize) ∧
        ∀ (k seqNum : Nat), cb.seqNums[k]? = some seqNum →
          ∃ slot data, slot <:+: ciphertext ∧ plains[k]? = some data ∧
            cfg.openBlock domainChunk (cb.startBlock + k) seqNum slot = some data := by
  unfold fetchRun at hfetch
  cases hmagic : cfg.checkChunkMagic read cb.objectID with
  | error err => simp [hmagic] at hfetch
  | ok checked =>
    cases hread : read cb.objectID cb.objectOffset (cfg.runLength cb) with
    | error err => simp [hmagic, hread] at hfetch
    | ok ciphertext =>
      simp only [hmagic, hread, if_pos hsealed] at hfetch
      unfold openChunkRun at hfetch
      dsimp only at hfetch
      split at hfetch
      case isTrue => cases hfetch
      case isFalse hlength =>
        split at hfetch
        case isTrue => cases hfetch
        case isFalse hcount =>
          obtain ⟨sealing, hsealing⟩ := Option.isSome_iff_exists.mp hsealed
          have hslot : cfg.slotSize = cfg.blockSize + 16 := by
            simp only [slotSize, hsealing]
          have hframes := length_frames (Nat.succ_pos (cfg.blockSize + 15))
            (not_not.mp hlength) (Nat.lt_succ_self cb.numBlocks)
          obtain ⟨plains, hplain, hplains, hopened⟩ :=
            exists_of_openSlots ((not_not.mp hcount).trans hframes.symm) hfetch
          have hslots : ∀ k seqNum, cb.seqNums[k]? = some seqNum →
              ∃ slot data, slot <:+: ciphertext ∧ plains[k]? = some data ∧
                data.length = cfg.blockSize ∧
                cfg.openBlock domainChunk (cb.startBlock + k) seqNum slot = some data := by
            intro k seqNum hseqNum
            have hk : k < (frames (cfg.blockSize + 16) (cb.numBlocks + 1) ciphertext).length := by
              rw [hframes, ← not_not.mp hcount]
              exact (List.getElem?_eq_some_iff.mp hseqNum).1
            obtain ⟨data, hdata, hopen⟩ :=
              hopened k seqNum _ hseqNum (List.getElem?_eq_getElem hk)
            refine ⟨_, data, isInfix_of_mem_frames (List.getElem_mem hk), hdata, ?_, hopen⟩
            refine length_of_openBlock hopen ?_
            rw [hslot]
            exact length_of_mem_frames (List.getElem_mem hk)
          refine ⟨not_not.mp hcount, ciphertext, plains, rfl, not_not.mp hlength, hplain,
            hplains.trans (not_not.mp hcount), fun data hdata => ?_,
            fun k seqNum hseqNum => ?_⟩
          · obtain ⟨k, hk⟩ := List.getElem?_of_mem hdata
            have hlt : k < cb.seqNums.length :=
              hplains ▸ (List.getElem?_eq_some_iff.mp hk).1
            obtain ⟨slot, data', -, hdata', hsize, -⟩ :=
              hslots k _ (List.getElem?_eq_getElem hlt)
            cases hk.symm.trans hdata'
            exact hsize
          · obtain ⟨slot, data, hinfix, hdata, -, hopen⟩ := hslots k seqNum hseqNum
            exact ⟨slot, data, hinfix, hdata, hopen⟩

/-- Runs that lie behind one another in the buffer. -/
def Ordered (cbs : List ConsecutiveBlock) : Prop :=
  cbs.Pairwise fun a b => a.blockPosition + a.numBlocks ≤ b.blockPosition

/-- The position in the buffer is one of the run's. -/
def ConsecutiveBlock.Fills (cb : ConsecutiveBlock) (i : Nat) : Prop :=
  cb.blockPosition ≤ i ∧ i < cb.blockPosition + cb.numBlocks

/-- What the runs leave in the buffer. -/
structure Filled (cfg : Config) (read : ObjectReader) (cbs : List ConsecutiveBlock)
    (data data' : Bytes) : Prop where
  length : data'.length = data.length
  run : ∀ cb ∈ cbs, ∃ plain, cfg.fetchRun read cb = .ok plain ∧
    ∀ i < cb.numBlocks, slotAt cfg.blockSize data' (cb.blockPosition + i) =
      slotAt cfg.blockSize plain i
  rest : ∀ i, (∀ cb ∈ cbs, ¬ cb.Fills i) →
    slotAt cfg.blockSize data' i = slotAt cfg.blockSize data i

/-- Runs of whole blocks fill their own parts of the buffer and nothing else. -/
theorem filled_of_fetchRuns {cbs : List ConsecutiveBlock} {data data' : Bytes}
    {store store' : UnifiedBlockStore} (hordered : Ordered cbs)
    (hfits : ∀ cb ∈ cbs, (cb.blockPosition + cb.numBlocks) * cfg.blockSize ≤ data.length)
    (hwhole : ∀ cb ∈ cbs, ∀ plain, cfg.fetchRun read cb = .ok plain → plain.length = cb.numBlocks *
      cfg.blockSize) (hfetch : cfg.fetchRuns read cbs data store = (.ok data', store')) :
    Filled cfg read cbs data data' := by
  induction cbs generalizing data store with
  | nil =>
    obtain rfl := Except.ok.inj (Prod.mk.inj hfetch).1
    exact ⟨rfl, by simp, fun _ _ => rfl⟩
  | cons cb cbs ih =>
    unfold fetchRuns at hfetch
    cases hrun : cfg.fetchRun read cb with
    | error err => simp [hrun] at hfetch
    | ok plain =>
      simp only [hrun] at hfetch
      have hplain := hwhole cb List.mem_cons_self plain hrun
      have hcb := hfits cb List.mem_cons_self
      obtain ⟨hfirst, hrest⟩ := List.pairwise_cons.mp hordered
      have hlength : (overwrite data (cb.blockPosition * cfg.blockSize) plain).length =
          data.length := by
        refine length_overwrite_of_le ?_
        rwa [hplain, ← Nat.add_mul]
      have hfilled := ih hrest
        (fun c hc => by rw [hlength]; exact hfits c (List.mem_cons_of_mem _ hc))
        (fun c hc => hwhole c (List.mem_cons_of_mem _ hc)) hfetch
      refine ⟨hfilled.length.trans hlength, ?_, ?_⟩
      · intro c hc
        rcases List.mem_cons.mp hc with rfl | hc
        · refine ⟨plain, hrun, fun i hi => ?_⟩
          rw [hfilled.rest _ fun other hother hfills => ?_]
          · exact slotAt_overwrite_of_mem hplain hcb hi
          · have hafter := hfirst other hother
            have := hfills.1
            omega
        · exact hfilled.run c hc
      · intro i hi
        rw [hfilled.rest i fun c hc => hi c (List.mem_cons_of_mem _ hc)]
        refine slotAt_overwrite_of_not_mem hplain hcb ?_
        have hnot := hi cb List.mem_cons_self
        unfold ConsecutiveBlock.Fills at hnot
        omega

theorem exists_fetchRuns_ok {cbs : List ConsecutiveBlock}
    (hruns : ∀ cb ∈ cbs, ∃ plain, cfg.fetchRun read cb = .ok plain)
    (data : Bytes) (store : UnifiedBlockStore) :
    ∃ data' store', cfg.fetchRuns read cbs data store = (.ok data', store') := by
  induction cbs generalizing data store with
  | nil => exact ⟨data, store, rfl⟩
  | cons cb cbs ih =>
    obtain ⟨plain, hplain⟩ := hruns cb List.mem_cons_self
    unfold fetchRuns
    simp only [hplain]
    exact ih (fun c hc => hruns c (List.mem_cons_of_mem _ hc)) _ _

end Runs

/-- Blocks of a range that starts at `first`, by their positions in it. -/
structure Requested (first : Nat) (wanted : List WantedBlock) : Prop where
  block : ∀ w ∈ wanted, w.block = first + w.blockPosition
  ascending : wanted.Pairwise fun a b => a.blockPosition < b.blockPosition

section Wanted

variable {cfg : Config} {read : ObjectReader} {first : Nat} {wanted : List WantedBlock}

/-- A run of the request and the fetch that it becomes. -/
structure IsRun (wanted : List WantedBlock) (head : WantedBlock) (rest : List WantedBlock)
    (cb : ConsecutiveBlock) : Prop where
  mem : head :: rest ∈ wanted.splitBy WantedBlock.continues
  coalesced : coalesceRun (head :: rest) = some cb

theorem mem_coalesceBlocks_iff {cb : ConsecutiveBlock} :
    cb ∈ coalesceBlocks wanted ↔ ∃ head rest, IsRun wanted head rest cb := by
  unfold coalesceBlocks
  rw [List.mem_filterMap]
  constructor
  · rintro ⟨run, hrun, hcb⟩
    cases run with
    | nil => cases hcb
    | cons head rest => exact ⟨head, rest, hrun, hcb⟩
  · rintro ⟨head, rest, hrun, hcb⟩
    exact ⟨_, hrun, hcb⟩

section Run

variable {head : WantedBlock} {rest : List WantedBlock} {cb : ConsecutiveBlock}

variable (h : IsRun wanted head rest cb)

include h

theorem IsRun.chain :
    (head :: rest).IsChain fun a b => a.continues b = true :=
  List.isChain_of_mem_splitBy h.mem

theorem IsRun.subset {w : WantedBlock} (hw : w ∈ head :: rest) :
    w ∈ wanted :=
  ConsecutiveRuns.exists_run_mem_iff.mp ⟨_, h.mem, hw⟩

theorem IsRun.position (hrequested : Requested first wanted) {k : Nat} {w : WantedBlock}
    (hw : (head :: rest)[k]? = some w) :
    w.block = cb.startBlock + k ∧ w.blockPosition = cb.blockPosition + k ∧
      cb.seqNums[k]? = some w.loc.seqNum := by
  have hnext : (head :: rest).IsChain fun a b => b.block = a.block + 1 := by
    refine h.chain.imp fun a b hab => ?_
    simp only [WantedBlock.continues, Bool.and_eq_true, beq_iff_eq] at hab
    exact hab.1
  have hblock := ConsecutiveRuns.number_of_getElem? hnext hw
  have hw' := hrequested.block w (h.subset (List.mem_of_getElem? hw))
  have hhead := hrequested.block head (h.subset List.mem_cons_self)
  obtain rfl := Option.some.inj h.coalesced
  refine ⟨hblock, ?_, ?_⟩
  · dsimp only
    omega
  · dsimp only
    rw [List.getElem?_map, hw]
    rfl

theorem IsRun.objectID {w : WantedBlock} (hw : w ∈ head :: rest) :
    w.loc.objectID = cb.objectID := by
  have hsame : (head :: rest).IsChain fun a b => a.loc.objectID = b.loc.objectID := by
    refine h.chain.imp fun a b hab => ?_
    simp only [WantedBlock.continues, Bool.and_eq_true, beq_iff_eq] at hab
    exact hab.2.symm
  obtain rfl := Option.some.inj h.coalesced
  rcases List.mem_cons.mp hw with rfl | hw
  · rfl
  · have : IsTrans WantedBlock fun a b => a.loc.objectID = b.loc.objectID :=
      ⟨fun a b c hab hbc => hab.trans hbc⟩
    exact ((List.pairwise_cons.mp hsame.pairwise).1 w hw).symm

theorem IsRun.numBlocks :
    0 < cb.numBlocks ∧ cb.numBlocks ≤ (head :: rest).length ∧
      cb.seqNums.length = (head :: rest).length := by
  obtain rfl := Option.some.inj h.coalesced
  refine ⟨?_, Nat.min_le_left _ _, by simp only [List.length_map]⟩
  exact Nat.lt_min.mpr ⟨Nat.succ_pos _, by decide⟩

theorem IsRun.exists_last (hrequested : Requested first wanted) :
    ∃ w ∈ head :: rest, w.blockPosition + 1 = cb.blockPosition + cb.numBlocks := by
  obtain ⟨hpos, hle, -⟩ := h.numBlocks
  have hlt : cb.numBlocks - 1 < (head :: rest).length := by omega
  obtain ⟨-, hposition, -⟩ := h.position hrequested (List.getElem?_eq_getElem hlt)
  exact ⟨_, List.getElem_mem hlt, by omega⟩

end Run

theorem ordered_coalesceBlocks (hrequested : Requested first wanted) :
    Ordered (coalesceBlocks wanted) := by
  unfold Ordered coalesceBlocks
  rw [List.pairwise_filterMap]
  have hruns := ConsecutiveRuns.runs_ordered (r := WantedBlock.continues) hrequested.ascending
  refine hruns.imp_of_mem fun {run run'} hrun hrun' hlt cb hcb cb' hcb' => ?_
  cases run with
  | nil => cases hcb
  | cons head rest =>
    cases run' with
    | nil => cases hcb'
    | cons head' rest' =>
      obtain ⟨w, hw, hlast⟩ := IsRun.exists_last ⟨hrun, hcb⟩ hrequested
      have hbefore := hlt w hw head' List.mem_cons_self
      cases hcb'
      dsimp only
      omega

theorem fits_coalesceBlocks (hrequested : Requested first wanted) {data : Bytes}
    (hfits : ∀ w ∈ wanted, (w.blockPosition + 1) * cfg.blockSize ≤ data.length) :
    ∀ cb ∈ coalesceBlocks wanted,
      (cb.blockPosition + cb.numBlocks) * cfg.blockSize ≤ data.length := by
  intro cb hcb
  obtain ⟨head, rest, hrun⟩ := mem_coalesceBlocks_iff.mp hcb
  obtain ⟨w, hw, hlast⟩ := hrun.exists_last hrequested
  rw [← hlast]
  exact hfits w (hrun.subset hw)

theorem exists_isRun {w : WantedBlock} (hw : w ∈ wanted) :
    ∃ head rest cb, IsRun wanted head rest cb ∧ ∃ k : Nat, (head :: rest)[k]? = some w := by
  obtain ⟨run, hrun, hmem⟩ :=
    (ConsecutiveRuns.exists_run_mem_iff (r := WantedBlock.continues)).mpr hw
  cases run with
  | nil => cases hmem
  | cons head rest =>
    obtain ⟨k, hk⟩ := List.getElem?_of_mem hmem
    exact ⟨head, rest, _, ⟨hrun, rfl⟩, k, hk⟩

theorem not_fills_of_not_wanted (hrequested : Requested first wanted) {i : Nat}
    (hi : ∀ w ∈ wanted, w.blockPosition ≠ i) :
    ∀ cb ∈ coalesceBlocks wanted, ¬ cb.Fills i := by
  rintro cb hcb ⟨hlow, hhigh⟩
  obtain ⟨head, rest, hrun⟩ := mem_coalesceBlocks_iff.mp hcb
  obtain ⟨-, hle, -⟩ := hrun.numBlocks
  have hlt : i - cb.blockPosition < (head :: rest).length := by omega
  obtain ⟨-, hposition, -⟩ := hrun.position hrequested (List.getElem?_eq_getElem hlt)
  exact hi _ (hrun.subset (List.getElem_mem hlt)) (by omega)

/-- A request for stored blocks gets the data of each of them. -/
theorem fetchRuns_of_located {packing : Nat → List Block} {data : Bytes} (hmarked : cfg.Marked)
    (hserves : Serves cfg packing read) (hrequested : Requested first wanted)
    (hfits : ∀ w ∈ wanted, (w.blockPosition + 1) * cfg.blockSize ≤ data.length)
    (hlocated : ∀ w ∈ wanted, ∃ b, Located cfg packing w.block w.loc b)
    (store : UnifiedBlockStore) :
    ∃ data' store', cfg.fetchRuns read (coalesceBlocks wanted) data store = (.ok data', store') ∧
      data'.length = data.length ∧
      (∀ w ∈ wanted, ∃ b, Located cfg packing w.block w.loc b ∧
        slotAt cfg.blockSize data' w.blockPosition = b.data) ∧
      ∀ i, (∀ w ∈ wanted, w.blockPosition ≠ i) →
        slotAt cfg.blockSize data' i = slotAt cfg.blockSize data i := by
  have hruns : ∀ head rest cb, IsRun wanted head rest cb → cb.numBlocks = rest.length + 1 ∧
        ∃ start slice, RunSlice cfg packing head rest start slice ∧
          Packed cfg (packing head.loc.objectID) ∧
          cfg.fetchRun read cb = .ok (slice.map fun b => b.data).flatten := by
    intro head rest cb hrun
    exact fetchRun_of_located hmarked hserves hrun.chain
      (fun w hw => hlocated w (hrun.subset hw)) hrun.coalesced
  have hpieces : ∀ {head rest start slice}, RunSlice cfg packing head rest start slice →
      Packed cfg (packing head.loc.objectID) →
      ∀ piece ∈ slice.map fun b => b.data, piece.length = cfg.blockSize := by
    intro head rest start slice hslice hpacked piece hpiece
    obtain ⟨b, hb, rfl⟩ := List.mem_map.mp hpiece
    exact hpacked.data b (hslice.mem hb)
  have hok : ∀ cb ∈ coalesceBlocks wanted, ∃ plain, cfg.fetchRun read cb = .ok plain := by
    intro cb hcb
    obtain ⟨head, rest, hrun⟩ := mem_coalesceBlocks_iff.mp hcb
    obtain ⟨-, start, slice, -, -, hok⟩ := hruns head rest cb hrun
    exact ⟨_, hok⟩
  obtain ⟨data', store', hfetch⟩ := exists_fetchRuns_ok hok data store
  have hfilled := filled_of_fetchRuns (ordered_coalesceBlocks hrequested)
    (fits_coalesceBlocks hrequested hfits) (fun cb hcb plain hplain => by
      obtain ⟨head, rest, hrun⟩ := mem_coalesceBlocks_iff.mp hcb
      obtain ⟨hnum, start, slice, hslice, hpacked, hok⟩ := hruns head rest cb hrun
      obtain rfl := Except.ok.inj (hok.symm.trans hplain)
      rw [length_flatten_frames (hpieces hslice hpacked), List.length_map, hslice.length_eq,
        hnum]) hfetch
  refine ⟨data', store', hfetch, hfilled.length, ?_, ?_⟩
  · intro w hw
    obtain ⟨head, rest, cb, hrun, k, hk⟩ := exists_isRun hw
    obtain ⟨hnum, start, slice, hslice, hpacked, hok⟩ := hruns head rest cb hrun
    obtain ⟨plain, hplain, hslots⟩ :=
      hfilled.run cb (mem_coalesceBlocks_iff.mpr ⟨head, rest, hrun⟩)
    obtain rfl := Except.ok.inj (hok.symm.trans hplain)
    obtain ⟨b, hb, hloc⟩ := hslice.located k w hk
    obtain ⟨-, hposition, -⟩ := hrun.position hrequested hk
    refine ⟨b, hloc, ?_⟩
    rw [hposition, hslots k (hnum ▸ (List.getElem?_eq_some_iff.mp hk).1)]
    exact slotAt_flatten (hpieces hslice hpacked) (by rw [List.getElem?_map, hb]; rfl)
  · intro i hi
    exact hfilled.rest i (not_fills_of_not_wanted hrequested hi)

/-- Whatever the backend returns, the blocks that an encrypted volume reads were opened
for their number and sequence number from bytes of a request to their chunk. -/
theorem exists_opened_of_fetchRuns {data data' : Bytes} {store store' : UnifiedBlockStore}
    (hsealed : cfg.sealing.isSome = true) (hrequested : Requested first wanted)
    (hfits : ∀ w ∈ wanted, (w.blockPosition + 1) * cfg.blockSize ≤ data.length)
    (hfetch : cfg.fetchRuns read (coalesceBlocks wanted) data store = (.ok data', store')) :
    data'.length = data.length ∧ (∀ w ∈ wanted, ∃ offset length ciphertext slot,
        read w.loc.objectID offset length = .ok ciphertext ∧ slot <:+: ciphertext ∧
          cfg.openBlock domainChunk w.block w.loc.seqNum slot =
            some (slotAt cfg.blockSize data' w.blockPosition)) ∧
      ∀ i, (∀ w ∈ wanted, w.blockPosition ≠ i) →
        slotAt cfg.blockSize data' i = slotAt cfg.blockSize data i := by
  have hwhole : ∀ cb ∈ coalesceBlocks wanted, ∀ plain, cfg.fetchRun read cb = .ok plain →
      plain.length = cb.numBlocks * cfg.blockSize := by
    intro cb hcb plain hplain
    obtain ⟨-, ciphertext, plains, -, -, rfl, hlength, hsize, -⟩ :=
      exists_of_fetchRun hsealed hplain
    rw [length_flatten_frames hsize, hlength]
  have hfilled := filled_of_fetchRuns (ordered_coalesceBlocks hrequested)
    (fits_coalesceBlocks hrequested hfits) hwhole hfetch
  refine ⟨hfilled.length, ?_, ?_⟩
  · intro w hw
    obtain ⟨head, rest, cb, hrun, k, hk⟩ := exists_isRun hw
    obtain ⟨plain, hplain, hslots⟩ :=
      hfilled.run cb (mem_coalesceBlocks_iff.mpr ⟨head, rest, hrun⟩)
    obtain ⟨hcount, ciphertext, plains, hread, -, rfl, hlength, hsize, hopened⟩ :=
      exists_of_fetchRun hsealed hplain
    obtain ⟨hblock, hposition, hseqNum⟩ := hrun.position hrequested hk
    obtain ⟨slot, plain, hinfix, hget, hopen⟩ := hopened k _ hseqNum
    have hid : w.loc.objectID = cb.objectID := hrun.objectID (List.mem_of_getElem? hk)
    have hlt : k < cb.numBlocks := hlength ▸ (List.getElem?_eq_some_iff.mp hget).1
    refine ⟨_, _, ciphertext, slot, by rw [hid]; exact hread, hinfix, ?_⟩
    rw [hblock, hposition, hslots k hlt, slotAt_flatten hsize hget]
    exact hopen
  · intro i hi
    exact hfilled.rest i (not_fills_of_not_wanted hrequested hi)

end Wanted

section Publishing

variable {cfg : Config} {packing : Nat → List Block} {id : Nat}
variable {runStart : Nat} {first : Block} {rest : List Block}

theorem located_of_run (hpacked : Packed cfg (packing id))
    (hrun : (runStart, first :: rest) ∈ chunkRuns (packing id)) {i : Nat} {b : Block}
    (hb : (first :: rest)[i]? = some b) :
    Located cfg packing b.block
      ((⟨id, runStart, first :: rest⟩ : PlacedRun).location cfg.blockStride i b) b := by
  have hget := (getElem?_of_mem_placeRuns hrun).2.2 i b hb
  rw [List.flatten_splitBy, Nat.sub_zero] at hget
  have hlt : runStart + i < (packing id).length := (List.getElem?_eq_some_iff.mp hget).1
  refine ⟨rfl, runStart + i, hget, ?_⟩
  exact (PlacedRun.location_eq_iff cfg ⟨id, runStart, first :: rest⟩ i b).mpr
    (hpacked.offset _ hlt)

theorem located_of_covers (hpacked : Packed cfg (packing id))
    (hrun : (runStart, first :: rest) ∈ chunkRuns (packing id)) {block : Nat}
    (hcovers : (newBlock cfg.blockStride id runStart first rest).Covers block) :
    ∃ b, Located cfg packing block
      ((newBlock cfg.blockStride id runStart first rest).blockAt cfg.blockStride
        (block - first.block)) b := by
  have hchain : (first :: rest).IsChain fun x y => y.block = x.block + 1 :=
    isChain_of_mem_chunkRuns hrun
  obtain ⟨b, hb, rfl⟩ := exists_mem_of_newBlock_covers hchain hcovers
  obtain ⟨i, hi⟩ := List.mem_iff_getElem?.mp hb
  have hlt := (newBlock_covers_iff _ _ hchain hi).mp hcovers
  have hloc := located_of_run hpacked hrun hi
  refine ⟨b, ?_⟩
  rwa [← newBlock_blockAt hchain hlt hi] at hloc

theorem Located.update {block : Nat} {loc : Location} {b : Block}
    (h : Located cfg packing block loc b) (hfree : packing id = []) (blocks : List Block) :
    Located cfg (Function.update packing id blocks) block loc b := by
  obtain ⟨hblock, i, hi, hloc⟩ := h
  have hne : loc.objectID ≠ id := by
    rintro rfl
    rw [hfree] at hi
    cases hi
  refine ⟨hblock, i, ?_, hloc⟩
  rwa [Function.update_of_ne hne]

end Publishing

end Viperblock
