import Viperblock.Lib.ByteCodec

/-!
# Volume configuration and sealed blocks

The parameters of a volume that every stage of the data path reads: the block
size, the target size of a chunk, the format version and, on an encrypted
volume, the cipher with the volume's identity.  The cipher is a parameter of
the development; all that is assumed of it is that opening inverts sealing and
that a sealed block is 16 bytes longer than its plaintext.
-/

namespace Viperblock

open ByteCodec

abbrev Bytes := List UInt8

/-- A version of a block on its way through the engine. -/
structure Block where
  data : Bytes
  seqNum : Nat
  block : Nat
  len : Nat
deriving DecidableEq, Repr

/-- An authenticated cipher under a fixed key. -/
structure Aead where
  sealBytes : (nonce plain aad : Bytes) → Bytes
  openBytes : (nonce sealed aad : Bytes) → Option Bytes
  open_seal : ∀ nonce plain aad, openBytes nonce (sealBytes nonce plain aad) aad = some plain
  length_seal : ∀ nonce plain aad, (sealBytes nonce plain aad).length = plain.length + 16
  length_open : ∀ {nonce sealed aad plain}, openBytes nonce sealed aad = some plain →
    sealed.length = plain.length + 16

/-- The cipher that appends a tag and opens what ends with it. -/
def Aead.ofTag (tag : (nonce plain aad : Bytes) → Bytes)
    (hlength : ∀ nonce plain aad, (tag nonce plain aad).length = 16) : Aead where
  sealBytes nonce plain aad := plain ++ tag nonce plain aad
  openBytes nonce sealed aad :=
    let plain := sealed.take (sealed.length - 16)
    if sealed = plain ++ tag nonce plain aad then some plain else none
  open_seal nonce plain aad := by
    simp [hlength]
  length_seal nonce plain aad := by
    rw [List.length_append, hlength]
  length_open := by
    intro nonce sealed aad plain hopen
    dsimp only at hopen
    split at hopen
    · rename_i hsealed
      have hlengths := congrArg List.length hsealed
      rwa [List.length_append, hlength, Option.some.inj hopen] at hlengths
    · cases hopen

theorem Aead.eq_append_of_open {tag : Bytes → Bytes → Bytes → Bytes}
    (hlength : ∀ nonce plain aad, (tag nonce plain aad).length = 16)
    {nonce sealed aad plain : Bytes}
    (hopen : (ofTag tag hlength).openBytes nonce sealed aad = some plain) :
    sealed = plain ++ tag nonce plain aad := by
  simp only [ofTag] at hopen
  split at hopen
  · rename_i hsealed
    rwa [Option.some.inj hopen] at hsealed
  · cases hopen

/-- `NumShards`, of the log as of the locks of blocks. -/
def numShards : Nat := 16

/-- `MaxSeqNum`, the largest number the nonce has room for. -/
def maxSeqNum : Nat := 2 ^ 56 - 1

def domainChunk : UInt8 := 0
def domainWAL : UInt8 := 1

/-- Low 56 bits of the sequence number, the volume's UUID, and the domain. -/
def makeNonce (seqNum : Nat) (volumeUUID : Bytes) (domain : UInt8) : Bytes :=
  encode 7 seqNum ++ volumeUUID ++ [domain]

def makeAAD (volumeNameHash : Bytes) (block seqNum : Nat) : Bytes :=
  volumeNameHash ++ encode 8 block ++ encode 8 seqNum

/-- What an encrypted volume seals its blocks with. -/
structure Sealing where
  aead : Aead
  volumeUUID : Bytes
  volumeNameHash : Bytes

structure Config where
  version : Nat
  blockSize : Nat
  objBlockSize : Nat
  walMagic : Bytes
  chunkMagic : Bytes
  /-- Set on an encrypted volume. -/
  sealing : Option Sealing
  version_lt : version < 2 ^ 16
  blockSize_pos : 0 < blockSize
  blockSize_lt : blockSize < 2 ^ 32
  objBlockSize_lt : objBlockSize < 2 ^ 32
  walMagic_length : walMagic.length = 4
  chunkMagic_length : chunkMagic.length = 4

namespace Config

variable (cfg : Config)

/-- Distance of two blocks of a chunk, as the 32-bit arithmetic computes it. -/
def blockStride : Nat :=
  match cfg.sealing with
  | none => cfg.blockSize
  | some _ => (cfg.blockSize + 16) % 2 ^ 32

/-- Bytes one block occupies in a chunk. -/
def slotSize : Nat :=
  match cfg.sealing with
  | none => cfg.blockSize
  | some _ => cfg.blockSize + 16

/-- What is stored for a block: its data, or its sealed data. -/
def sealBlock (domain : UInt8) (b : Block) : Bytes :=
  match cfg.sealing with
  | none => b.data
  | some s =>
    s.aead.sealBytes (makeNonce b.seqNum s.volumeUUID domain) b.data
      (makeAAD s.volumeNameHash b.block b.seqNum)

/-- Recover the data of a block from what is stored for it. -/
def openBlock (domain : UInt8) (block seqNum : Nat) (stored : Bytes) : Option Bytes :=
  match cfg.sealing with
  | none => some stored
  | some s =>
    s.aead.openBytes (makeNonce seqNum s.volumeUUID domain) stored
      (makeAAD s.volumeNameHash block seqNum)

theorem openBlock_sealBlock (domain : UInt8) (b : Block) :
    cfg.openBlock domain b.block b.seqNum (cfg.sealBlock domain b) = some b.data := by
  unfold openBlock sealBlock
  cases cfg.sealing with
  | none => rfl
  | some s => exact s.aead.open_seal _ _ _

theorem length_sealBlock {cfg : Config} (domain : UInt8) {b : Block}
    (hdata : b.data.length = cfg.blockSize) : (cfg.sealBlock domain b).length = cfg.slotSize := by
  unfold sealBlock slotSize
  cases cfg.sealing with
  | none => exact hdata
  | some s => simp only [s.aead.length_seal, hdata]

theorem length_of_openBlock {cfg : Config} {domain : UInt8} {block seqNum : Nat}
    {stored data : Bytes} (hopen : cfg.openBlock domain block seqNum stored = some data)
    (hstored : stored.length = cfg.slotSize) :
    data.length = cfg.blockSize := by
  unfold openBlock at hopen
  unfold slotSize at hstored
  cases hsealing : cfg.sealing with
  | none =>
    simp only [hsealing, Option.some.injEq] at hopen hstored
    rw [← hopen]
    exact hstored
  | some s =>
    simp only [hsealing] at hopen hstored
    have hlength := s.aead.length_open hopen
    omega

theorem slotSize_pos :
    0 < cfg.slotSize := by
  have hpos := cfg.blockSize_pos
  unfold slotSize
  split <;> omega

/-- The stride is the slot size unless the slot itself exceeds 32 bits. -/
theorem blockStride_eq (hslot : cfg.slotSize < 2 ^ 32) :
    cfg.blockStride = cfg.slotSize := by
  unfold blockStride
  unfold slotSize at hslot ⊢
  cases hsealing : cfg.sealing with
  | none => rfl
  | some s =>
    simp only [hsealing] at hslot ⊢
    exact Nat.mod_eq_of_lt hslot

/-- A plaintext volume with one-byte blocks and four of them to a chunk. -/
def tiny : Config where
  version := 1
  blockSize := 1
  objBlockSize := 4
  walMagic := [86, 66, 87, 76]
  chunkMagic := [86, 66, 67, 72]
  sealing := none
  version_lt := by decide
  blockSize_pos := by decide
  blockSize_lt := by decide
  objBlockSize_lt := by decide
  walMagic_length := rfl
  chunkMagic_length := rfl

/-- An encrypted one, with tags of zeros. -/
def tinySealed : Config :=
  { tiny with
    walMagic := [86, 66, 87, 69]
    chunkMagic := [86, 66, 67, 69]
    sealing := some ⟨.ofTag (fun _ _ _ => List.replicate 16 0) fun _ _ _ => rfl,
      List.replicate 4 0, List.replicate 32 0⟩
    walMagic_length := rfl
    chunkMagic_length := rfl }

end Config

end Viperblock
