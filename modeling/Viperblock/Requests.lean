import Viperblock.ReadPath

/-!
# Requests against the end of the volume

The entry points of the engine that take a position: `ReadAt`, `WriteAt`, `Write` and
`WriteBlockStore`, as one caller runs them.  Positions, lengths and block numbers are 64
bits wide, and so is the arithmetic of the range checks and of everything behind them: a
sum or a product that does not fit is cut off.  A slice whose bounds do not fit, a buffer
that cannot be made and a division by zero end the program.

A call says which blocks it looked up or wrote, next to its result.
-/

namespace Viperblock

namespace Requests

open ByteCodec

inductive RequestError
  | noSpace
  | requestTooLarge
  | requestOutOfRange
  | requestBufferEmpty
  | requestBlockSize
  | read (err : ReadError)
  /-- No sequence number could be reserved. -/
  | seqNum
  | backpressure
deriving DecidableEq, Repr

/-- What a call came to. -/
inductive Ran (α : Type)
  | ok (a : α)
  | error (err : RequestError)
  | panic
deriving DecidableEq, Repr

/-- A volume and what the calls on it meet. -/
structure Device where
  volumeSize : UInt64
  /-- None if `BlockSize` is zero. -/
  cfg : Option Config
  name : String
  read : String → ObjectReader
  layers : List Layer
  /-- The backend is full, or nearly so. -/
  full : Bool
  /-- The reservations of a call that are granted. -/
  reserve : Nat → Bool
  /-- Waiting for the backend to catch up ends without an error. -/
  backpressure : Bool

def Device.blockSize (d : Device) : Nat :=
  match d.cfg with
  | none => 0
  | some cfg => cfg.blockSize

/-- The range checks that every call begins with. -/
def Device.rangeError (d : Device) (offset length : Nat) : Option RequestError :=
  if d.volumeSize.toNat < offset then some .requestTooLarge
  else if d.volumeSize.toNat < (offset + length) % 2 ^ 64 then some .requestOutOfRange
  else none

structure Memory where
  store : UnifiedBlockStore
  writes : List Block
  seqNum : Nat
  /-- The block store numbers the writes of `WriteBlockStore` itself. -/
  storeSeqNum : Nat

structure Result (α : Type) where
  ran : Ran α
  memory : Memory
  /-- The blocks that were looked up or written. -/
  touched : List Nat

namespace Result

variable {α β : Type}

/-- Go on with what a part of a call gave; an error and a panic end the call. -/
def andThen (r : Result α) (next : α → Memory → Result β) : Result β :=
  match r with
  | ⟨.ok a, m, touched⟩ =>
    ⟨(next a m).ran, (next a m).memory, touched ++ (next a m).touched⟩
  | ⟨.error err, m, touched⟩ => ⟨.error err, m, touched⟩
  | ⟨.panic, m, touched⟩ => ⟨.panic, m, touched⟩

theorem andThen_ok {r : Result α} {next : α → Memory → Result β} {b : β}
    (hok : (r.andThen next).ran = .ok b) :
    ∃ a, r.ran = .ok a ∧ (next a r.memory).ran = .ok b ∧
      (r.andThen next).touched = r.touched ++ (next a r.memory).touched := by
  obtain ⟨ran, m, touched⟩ := r
  cases ran with
  | ok a => exact ⟨a, rfl, hok, rfl⟩
  | error err => cases hok
  | panic => cases hok

theorem mem_andThen {r : Result α} {next : α → Memory → Result β} {b : Nat}
    (hb : b ∈ r.touched) : b ∈ (r.andThen next).touched := by
  obtain ⟨ran, m, touched⟩ := r
  cases ran with
  | ok a => exact List.mem_append_left _ hb
  | error err | panic =>
    exact hb

end Result

/-- A Go slice: its bytes and the rest of the array they lie in, up to the capacity. -/
structure Slice where
  bytes : Bytes
  spare : Bytes
  capacity_lt : (bytes ++ spare).length < 2 ^ 63

namespace Slice

theorem length_lt (data : Slice) :
    data.bytes.length < 2 ^ 63 := by
  have hcapacity := data.capacity_lt
  rw [List.length_append] at hcapacity
  omega

end Slice

/-- The largest buffer that can be made. -/
def maxAlloc : Nat := 2 ^ 48

section Read

variable (d : Device)

/-- Consecutive block numbers; they may wrap around. -/
def blockNumbers (block count : Nat) : List Nat :=
  (List.range count).map fun i => (block + i) % 2 ^ 64

/-- The data of the given blocks, one after the other. -/
def readBlocks (cfg : Config) (store : UnifiedBlockStore) (blocks : List Nat) :
    Except ReadError Bytes × UnifiedBlockStore :=
  let found := blocks.zipIdx.map fun item => (item.2, item.1, findBlock store d.layers item.1)
  let data := (found.map fun item => cfg.memoryData item.2.2).flatten
  match cfg.fetchRuns (d.read d.name) (coalesceBlocks (Config.ownWanted found)) data store with
  | (.error err, store) => (.error err, store)
  | (.ok data, store) =>
    cfg.fetchLayers d.read (Config.layerWanted found) d.layers.zipIdx data store

/-- `data[start:stop]` for a slice of the given array. -/
def sliceOf (array : Bytes) (start stop : Nat) : Option Bytes :=
  if start ≤ stop ∧ stop ≤ array.length then some ((array.drop start).take (stop - start))
  else none

/-- The data of a range of blocks. -/
def readBlockStore (cfg : Config) (m : Memory) (block blockLen : Nat) : Result Bytes :=
  if blockLen % cfg.blockSize ≠ 0 then ⟨.error .requestBlockSize, m, []⟩
  else if maxAlloc < blockLen then ⟨.panic, m, []⟩
  else
    let blocks := blockNumbers block (blockLen / cfg.blockSize)
    match readBlocks d cfg m.store blocks with
    | (.error err, store) => ⟨.error (.read err), { m with store := store }, blocks⟩
    | (.ok data, store) => ⟨.ok data, { m with store := store }, blocks⟩

/-- `fullData[start:stop]` of a read that gave data. -/
def returnSlice (start stop : Nat) (fullData : Bytes) (m : Memory) : Result Bytes :=
  match sliceOf fullData start stop with
  | none => ⟨.panic, m, []⟩
  | some data => ⟨.ok data, m, []⟩

def readAt (m : Memory) (offset length : Nat) : Result Bytes :=
  match d.rangeError offset length, d.cfg with
  | some err, _ => ⟨.error err, m, []⟩
  | none, none => ⟨.panic, m, []⟩
  | none, some cfg =>
    let request := cfg.requestBlocks offset length
    let innerOffset := offset % cfg.blockSize
    (readBlockStore d cfg m request.1 request.2).andThen
      (returnSlice innerOffset ((innerOffset + length) % 2 ^ 64))

end Read

section WriteAt

variable (d : Device) (cfg : Config)

/-- What a partial write reads first; a whole block is overwritten unread. -/
def existingBlock (m : Memory) (b : Nat) (isPartial : Bool) : Result Bytes :=
  if isPartial then readAt d m (b * cfg.blockSize % 2 ^ 64) cfg.blockSize
  else ⟨.ok [], m, []⟩

/-- Splice the bytes of a write into a block, and buffer and publish it under the number
that the `i`-th reservation of the call gives. -/
def publishBlock (i b writeStart writeEnd : Nat) (patch existing : Bytes) (m : Memory) :
    Result Unit :=
  let zeros : Bytes := List.replicate cfg.blockSize 0
  let blockData := (existing ++ zeros).take cfg.blockSize
  if writeStart ≤ writeEnd ∧ writeEnd ≤ cfg.blockSize then
    let blockData := overwrite blockData writeStart (patch.take (writeEnd - writeStart))
    let seqNum := m.seqNum + 1
    if d.reserve i then
      ⟨.ok (),
        { m with
          seqNum := seqNum
          writes := m.writes ++ [⟨blockData, seqNum, b, cfg.blockSize⟩]
          store := m.store.writeWithSeqNum b blockData seqNum },
        [b]⟩
    else ⟨.error .seqNum, { m with seqNum := seqNum }, []⟩
  else ⟨.panic, m, []⟩

def writeOneBlockLocked (i b : Nat) (isPartial : Bool) (writeStart writeEnd : Nat)
    (patch : Bytes) (m : Memory) : Result Unit :=
  (existingBlock d cfg m b isPartial).andThen
    (publishBlock d cfg i b writeStart writeEnd patch)

/-- The bounds of a write in a block, and of its bytes in the data. -/
structure Piece where
  writeStart : Nat
  writeEnd : Nat
  dataStart : Nat
  dataEnd : Nat

def pieceOf (offset endOffset b : Nat) : Piece :=
  let blockStart := b * cfg.blockSize % 2 ^ 64
  let blockEnd := (blockStart + cfg.blockSize) % 2 ^ 64
  let writeStart := if blockStart < offset then offset - blockStart else 0
  let writeEnd :=
    if endOffset < blockEnd then (endOffset + 2 ^ 64 - blockStart) % 2 ^ 64
    else cfg.blockSize
  ⟨writeStart, writeEnd, (blockStart + writeStart + 2 ^ 64 - offset) % 2 ^ 64,
    (blockStart + writeEnd + 2 ^ 64 - offset) % 2 ^ 64⟩

/-- One round of the loop of a write. -/
def writePiece (array : Bytes) (i b : Nat) (piece : Piece) (m : Memory) : Result Unit :=
  match sliceOf array piece.dataStart piece.dataEnd with
  | none => ⟨.panic, m, []⟩
  | some patch =>
    writeOneBlockLocked d cfg i b
      (decide (0 < piece.writeStart) || decide (piece.writeEnd < cfg.blockSize))
      piece.writeStart piece.writeEnd patch m

/-- The loop over the blocks of a write. -/
def writeBlocks (offset endOffset : Nat) (array : Bytes) :
    Nat → List Nat → Memory → Result Unit
  | _, [], m => ⟨.ok (), m, []⟩
  | i, b :: rest, m =>
    (writePiece d cfg array i b (pieceOf cfg offset endOffset b) m).andThen
      fun _ m => writeBlocks offset endOffset array (i + 1) rest m

/-- The blocks from the first to the last one.  The counter of the loop is never above
the largest number there is: if that is the last block, the loop goes on at zero. -/
def loopBlocks (startBlock endBlock : Nat) : List Nat :=
  (List.range (endBlock + 1 - startBlock)).map (startBlock + ·) ++
    if endBlock = 2 ^ 64 - 1 then [0] else []

/-- A write that the checks let pass. -/
def writeRange (m : Memory) (offset : Nat) (data : Slice) : Result Unit :=
  let endOffset := (offset + data.bytes.length) % 2 ^ 64
  let blocks := loopBlocks (offset / cfg.blockSize)
    ((endOffset + (2 ^ 64 - 1)) % 2 ^ 64 / cfg.blockSize)
  (writeBlocks d cfg offset endOffset (data.bytes ++ data.spare) 0 blocks m).andThen
    fun _ m => ⟨if d.backpressure then .ok () else .error .backpressure, m, []⟩

def writeAt (m : Memory) (offset : Nat) (data : Slice) : Result Unit :=
  if d.full then ⟨.error .noSpace, m, []⟩
  else
    match d.rangeError offset data.bytes.length with
    | some err => ⟨.error err, m, []⟩
    | none =>
      if data.bytes.length = 0 then ⟨.error .requestBufferEmpty, m, []⟩
      else
        match d.cfg with
        | none => ⟨.panic, m, []⟩
        | some cfg => writeRange d cfg m offset data

end WriteAt

section WholeBlocks

variable (d : Device)

/-- The checks of a write of whole blocks. -/
def admitWhole (block length : Nat) : Ran Config :=
  match d.rangeError (block * d.blockSize % 2 ^ 64) length, d.cfg with
  | some err, _ => .error err
  | none, none => .panic
  | none, some cfg => if length % cfg.blockSize ≠ 0 then .error .requestBlockSize else .ok cfg

/-- Block `i` of the data. -/
def wholeBlock (cfg : Config) (data : Bytes) (i : Nat) : Bytes :=
  (data.drop (i * cfg.blockSize)).take cfg.blockSize

/-- Buffer and publish block `i` of a `Write` that has reserved its numbers. -/
def putBlock (cfg : Config) (block start : Nat) (data : Bytes) (m : Memory) (i : Nat) :
    Memory :=
  let currentBlock := (block + i) % 2 ^ 64
  let seqNum := start + 1 + i
  { m with
    writes := m.writes ++ [⟨wholeBlock cfg data i, seqNum, currentBlock, 0⟩]
    store := m.store.writeWithSeqNum currentBlock (wholeBlock cfg data i) seqNum }

def write (m : Memory) (block : Nat) (data : Bytes) : Result Unit :=
  match admitWhole d block data.length with
  | .error err => ⟨.error err, m, []⟩
  | .panic => ⟨.panic, m, []⟩
  | .ok cfg =>
    let blockRequests := data.length / cfg.blockSize
    let reserved := { m with seqNum := m.seqNum + blockRequests }
    if d.reserve 0 then
      ⟨.ok (), (List.range blockRequests).foldl (putBlock cfg block m.seqNum data) reserved,
        blockNumbers block blockRequests⟩
    else ⟨.error .seqNum, reserved, []⟩

/-- Publish and buffer block `i` under a number of the block store. -/
def storeBlock (cfg : Config) (block : Nat) (data : Bytes) (m : Memory) (i : Nat) : Memory :=
  let currentBlock := (block + i) % 2 ^ 64
  let seqNum := m.storeSeqNum + 1
  { m with
    store := m.store.writeWithSeqNum currentBlock (wholeBlock cfg data i) seqNum
    storeSeqNum := seqNum
    seqNum := max m.seqNum seqNum
    writes := m.writes ++ [⟨wholeBlock cfg data i, seqNum, currentBlock, 0⟩] }

def writeBlockStore (m : Memory) (block : Nat) (data : Bytes) : Result Unit :=
  match admitWhole d block data.length with
  | .error err => ⟨.error err, m, []⟩
  | .panic => ⟨.panic, m, []⟩
  | .ok cfg =>
    let blockRequests := data.length / cfg.blockSize
    ⟨.ok (), (List.range blockRequests).foldl (storeBlock cfg block data) m,
      blockNumbers block blockRequests⟩

end WholeBlocks

/-- What is asked of a request that ends at `finish`, counted without a bound: beyond
the end of the volume it is refused and nothing happens, and otherwise it touches blocks
of the volume only. -/
structure Contained {α : Type} (d : Device) (m : Memory) (finish : Nat) (r : Result α) :
    Prop where
  refused : d.volumeSize.toNat < finish →
    (∃ err, r.ran = .error err) ∧ r.memory = m ∧ r.touched = []
  inside : ∀ a, r.ran = .ok a → ∀ b ∈ r.touched, b * d.blockSize < d.volumeSize.toNat

section Reads

variable {d : Device} {cfg : Config} {m : Memory} {offset length : Nat}

theorem rangeError_eq_none :
    d.rangeError offset length = none ↔
      offset ≤ d.volumeSize.toNat ∧ (offset + length) % 2 ^ 64 ≤ d.volumeSize.toNat := by
  unfold Device.rangeError
  split
  · simp only [reduceCtorEq, false_iff]
    omega
  · split
    · simp only [reduceCtorEq, false_iff]
      omega
    · simp only [true_iff]
      omega

theorem exists_rangeError (hend : offset + length < 2 ^ 64)
    (hbeyond : d.volumeSize.toNat < offset + length) :
    ∃ err, d.rangeError offset length = some err := by
  refine Option.ne_none_iff_exists'.mp fun hnone => ?_
  have hle := (rangeError_eq_none.mp hnone).2
  rw [Nat.mod_eq_of_lt hend] at hle
  omega

theorem Contained.of_refused {α : Type} {r : Result α} {finish : Nat}
    (hr : ∃ err, r = ⟨.error err, m, []⟩) : Contained d m finish r := by
  obtain ⟨err, rfl⟩ := hr
  exact ⟨fun _ => ⟨⟨err, rfl⟩, rfl, rfl⟩, fun _ hok => by cases hok⟩

theorem mem_blockNumbers {block count b : Nat} (hb : b ∈ blockNumbers block count) :
    ∃ i < count, b = (block + i) % 2 ^ 64 := by
  obtain ⟨i, hi, rfl⟩ := List.mem_map.mp hb
  exact ⟨i, List.mem_range.mp hi, rfl⟩

theorem wrapped_blocks_lt {blockSize : Nat} (hpos : 0 < blockSize) (hlt : blockSize < 2 ^ 32) :
    ((2 ^ 64 - 1) / blockSize + 1) % 2 ^ 64 * blockSize % 2 ^ 64 < blockSize := by
  have hle := Nat.div_mul_le_self (2 ^ 64 - 1) blockSize
  have hgt := Nat.lt_div_mul_add (a := 2 ^ 64 - 1) hpos
  rcases Nat.lt_or_ge ((2 ^ 64 - 1) / blockSize + 1) (2 ^ 64) with hsmall | hlarge
  · rw [Nat.mod_eq_of_lt hsmall, Nat.add_mul, Nat.one_mul]
    omega
  · have heq : (2 ^ 64 - 1) / blockSize + 1 = 2 ^ 64 := by
      have hdiv := Nat.div_le_self (2 ^ 64 - 1) blockSize
      omega
    rw [heq]
    simpa using hpos

theorem requestBlocks_le (hpos : 0 < offset + length) (hend : offset + length < 2 ^ 64) :
    (cfg.requestBlocks offset length).2 / cfg.blockSize ≤
      (offset + length - 1) / cfg.blockSize + 1 - offset / cfg.blockSize := by
  have hlast : (offset + length + (2 ^ 64 - 1)) % 2 ^ 64 = offset + length - 1 := by omega
  have hdiv := Nat.div_le_self (offset + length - 1) cfg.blockSize
  have hfirst : offset / cfg.blockSize ≤ (offset + length - 1) / cfg.blockSize + 1 := by
    rw [← Nat.add_div_right _ cfg.blockSize_pos]
    have hblock := cfg.blockSize_pos
    exact Nat.div_le_div_right (by omega)
  have hcount : ((offset + length - 1) / cfg.blockSize + 2 ^ 64 - offset / cfg.blockSize + 1) %
      2 ^ 64 = (offset + length - 1) / cfg.blockSize + 1 - offset / cfg.blockSize := by
    generalize (offset + length - 1) / cfg.blockSize = last at hdiv hfirst ⊢
    generalize offset / cfg.blockSize = first at hfirst ⊢
    omega
  dsimp only [Config.requestBlocks]
  rw [hlast, hcount]
  exact Nat.div_le_of_le_mul (by rw [Nat.mul_comm]; exact Nat.mod_le _ _)

theorem readBlockStore_ok {block blockLen : Nat} {data : Bytes}
    (hok : (readBlockStore d cfg m block blockLen).ran = .ok data) :
    blockLen % cfg.blockSize = 0 ∧ (readBlockStore d cfg m block blockLen).touched =
        blockNumbers block (blockLen / cfg.blockSize) := by
  revert hok
  fun_cases readBlockStore <;> intro hok <;> cases hok
  all_goals exact ⟨not_not.mp ‹_›, rfl⟩

theorem returnSlice_touched (start stop : Nat) (fullData : Bytes) (m : Memory) :
    (returnSlice start stop fullData m).touched = [] := by
  unfold returnSlice
  split <;> rfl

theorem readAt_of_range (hcfg : d.cfg = some cfg) (hrange : d.rangeError offset length = none) :
    readAt d m offset length = (readBlockStore d cfg m (cfg.requestBlocks offset length).1
        (cfg.requestBlocks offset length).2).andThen
          (returnSlice (offset % cfg.blockSize)
            ((offset % cfg.blockSize + length) % 2 ^ 64)) := by
  rw [readAt, hrange, hcfg]

theorem readAt_ok {data : Bytes} (hok : (readAt d m offset length).ran = .ok data) :
    (offset + length) % 2 ^ 64 ≤ d.volumeSize.toNat ∧
      ∃ cfg, d.cfg = some cfg ∧ (cfg.requestBlocks offset length).2 % cfg.blockSize = 0 ∧
        (readAt d m offset length).touched = blockNumbers (cfg.requestBlocks offset length).1
            ((cfg.requestBlocks offset length).2 / cfg.blockSize) := by
  cases hrange : d.rangeError offset length with
  | some err =>
    rw [readAt, hrange] at hok
    cases hok
  | none =>
    refine ⟨(rangeError_eq_none.mp hrange).2, ?_⟩
    cases hcfg : d.cfg with
    | none =>
      rw [readAt, hrange, hcfg] at hok
      cases hok
    | some cfg =>
      rw [readAt_of_range hcfg hrange] at hok ⊢
      obtain ⟨fullData, hread, -, htouched⟩ := Result.andThen_ok hok
      obtain ⟨hmod, hblocks⟩ := readBlockStore_ok hread
      rw [htouched, returnSlice_touched, List.append_nil]
      exact ⟨cfg, rfl, hmod, hblocks⟩

theorem mem_requestBlocks {b : Nat} (hend : offset + length < 2 ^ 64)
    (hb : b ∈ blockNumbers (cfg.requestBlocks offset length).1
      ((cfg.requestBlocks offset length).2 / cfg.blockSize)) :
    b * cfg.blockSize < offset + length := by
  obtain ⟨i, hi, rfl⟩ := mem_blockNumbers hb
  rcases Nat.eq_zero_or_pos (offset + length) with hzero | hpos
  · obtain ⟨rfl, rfl⟩ := Nat.add_eq_zero_iff.mp hzero
    -- the last block of the empty request at zero is the one before the first block
    have hlt : (cfg.requestBlocks 0 0).2 < cfg.blockSize := by
      simpa [Config.requestBlocks, Nat.add_right_comm, Nat.add_mod_right] using
        wrapped_blocks_lt cfg.blockSize_pos cfg.blockSize_lt
    rw [Nat.div_eq_of_lt hlt] at hi
    omega
  · have hi := hi.trans_le (requestBlocks_le hpos hend)
    have hlast := Nat.div_mul_le_self (offset + length - 1) cfg.blockSize
    have hle : (offset / cfg.blockSize + i) % 2 ^ 64 ≤ (offset + length - 1) / cfg.blockSize :=
      (Nat.mod_le _ _).trans (by omega)
    calc (offset / cfg.blockSize + i) % 2 ^ 64 * cfg.blockSize
        ≤ (offset + length - 1) / cfg.blockSize * cfg.blockSize := Nat.mul_le_mul_right _ hle
      _ < offset + length := by omega

/-- A block whose end does not fit 64 bits cannot be read: what is asked for is not a
whole number of blocks. -/
theorem requestBlocks_of_wrap {b : Nat} (hb : b * cfg.blockSize < 2 ^ 64)
    (hwrap : 2 ^ 64 < b * cfg.blockSize + cfg.blockSize) :
    (cfg.requestBlocks (b * cfg.blockSize) cfg.blockSize).2 % cfg.blockSize ≠ 0 := by
  have hpos := cfg.blockSize_pos
  have hlt := cfg.blockSize_lt
  have hle : b ≤ b * cfg.blockSize := Nat.le_mul_of_pos_right b hpos
  have hb1 : 1 < b := by
    by_contra hsmall
    have := Nat.mul_le_mul_right cfg.blockSize (not_lt.mp hsmall)
    omega
  have hlast : (b * cfg.blockSize + cfg.blockSize + (2 ^ 64 - 1)) % 2 ^ 64 / cfg.blockSize =
      0 := Nat.div_eq_of_lt (by omega)
  have hcount : (0 + 2 ^ 64 - b + 1) % 2 ^ 64 = 2 ^ 64 - (b - 1) := by omega
  have hlength : (2 ^ 64 - (b - 1)) * cfg.blockSize % 2 ^ 64 =
      2 ^ 64 + cfg.blockSize - b * cfg.blockSize := by
    rw [Nat.sub_mul, Nat.sub_mul, Nat.one_mul]
    obtain ⟨rest, hrest⟩ : ∃ rest, cfg.blockSize = rest + 1 := ⟨cfg.blockSize - 1, by omega⟩
    have hsplit : 2 ^ 64 * cfg.blockSize - (b * cfg.blockSize - cfg.blockSize) =
        2 ^ 64 * rest + (2 ^ 64 + cfg.blockSize - b * cfg.blockSize) := by
      generalize b * cfg.blockSize = x at hb hwrap ⊢
      omega
    rw [hsplit, Nat.mul_add_mod, Nat.mod_eq_of_lt (by omega)]
  have hrem : (2 ^ 64 + cfg.blockSize - b * cfg.blockSize) % cfg.blockSize =
      2 ^ 64 - b * cfg.blockSize := by
    rw [Nat.mod_eq_sub_mod (by omega), Nat.mod_eq_of_lt (by omega)]
    omega
  dsimp only [Config.requestBlocks]
  rw [hlast, Nat.mul_div_cancel _ hpos, hcount, hlength, hrem]
  omega

theorem requestBlocks_block {b : Nat} (hend : b * cfg.blockSize + cfg.blockSize ≤ 2 ^ 64) :
    cfg.requestBlocks (b * cfg.blockSize) cfg.blockSize = (b, cfg.blockSize) := by
  have hpos := cfg.blockSize_pos
  have hlt := cfg.blockSize_lt
  have hlast : (b * cfg.blockSize + cfg.blockSize + (2 ^ 64 - 1)) % 2 ^ 64 / cfg.blockSize = b := by
    exact Nat.div_eq_of_lt_le (by omega) (by rw [Nat.add_mul, Nat.one_mul]; omega)
  have hcount : (b + 2 ^ 64 - b + 1) % 2 ^ 64 = 1 := by omega
  dsimp only [Config.requestBlocks]
  rw [hlast, Nat.mul_div_cancel _ hpos, hcount, Nat.one_mul, Nat.mod_eq_of_lt (by omega)]

theorem blockRead_inside {b b' : Nat} {data : Bytes} (hcfg : d.cfg = some cfg)
    (hb : b * cfg.blockSize < d.volumeSize.toNat)
    (hok : (readAt d m (b * cfg.blockSize) cfg.blockSize).ran = .ok data)
    (hb' : b' ∈ (readAt d m (b * cfg.blockSize) cfg.blockSize).touched) :
    b' * cfg.blockSize < d.volumeSize.toNat := by
  have hlt := d.volumeSize.toNat_lt
  obtain ⟨hend, cfg', hcfg', hmod, htouched⟩ := readAt_ok hok
  cases hcfg.symm.trans hcfg'
  rw [htouched] at hb'
  rcases Nat.lt_trichotomy (b * cfg.blockSize + cfg.blockSize) (2 ^ 64) with
    hsmall | hexact | hwrap
  · rw [Nat.mod_eq_of_lt hsmall] at hend
    exact (mem_requestBlocks hsmall hb').trans_le hend
  · rw [requestBlocks_block hexact.le, Nat.div_self cfg.blockSize_pos] at hb'
    obtain ⟨i, hi, rfl⟩ := mem_blockNumbers hb'
    have hzero : i = 0 := by omega
    have hle := Nat.mul_le_mul_right cfg.blockSize (Nat.mod_le b (2 ^ 64))
    rw [hzero, Nat.add_zero]
    exact hle.trans_lt hb
  · exact absurd hmod (requestBlocks_of_wrap (by omega) hwrap)

end Reads

section Contained

variable {d : Device} {cfg : Config} {m : Memory} {offset length : Nat}

theorem publishBlock_touched {i b writeStart writeEnd : Nat} {patch existing : Bytes}
    (hok : (publishBlock d cfg i b writeStart writeEnd patch existing m).ran = .ok ()) :
    (publishBlock d cfg i b writeStart writeEnd patch existing m).touched = [b] := by
  revert hok
  fun_cases publishBlock <;> intro hok <;> cases hok
  rfl

theorem existingBlock_inside {b b' : Nat} {isPartial : Bool} {existing : Bytes}
    (hcfg : d.cfg = some cfg) (hb : b * cfg.blockSize < d.volumeSize.toNat)
    (hok : (existingBlock d cfg m b isPartial).ran = .ok existing)
    (hb' : b' ∈ (existingBlock d cfg m b isPartial).touched) :
    b' * cfg.blockSize < d.volumeSize.toNat := by
  have hlt := d.volumeSize.toNat_lt
  unfold existingBlock at hok hb'
  cases isPartial with
  | false => cases hb'
  | true =>
    rw [if_pos rfl, Nat.mod_eq_of_lt (by omega)] at hok hb'
    exact blockRead_inside hcfg hb hok hb'

theorem writePiece_inside {i b b' : Nat} {array : Bytes} {piece : Piece} (hcfg : d.cfg = some cfg)
    (hb : b * cfg.blockSize < d.volumeSize.toNat)
    (hok : (writePiece d cfg array i b piece m).ran = .ok ())
    (hb' : b' ∈ (writePiece d cfg array i b piece m).touched) :
    b' * cfg.blockSize < d.volumeSize.toNat := by
  unfold writePiece at hok hb'
  cases hpatch : sliceOf array piece.dataStart piece.dataEnd with
  | none =>
    rw [hpatch] at hok
    cases hok
  | some patch =>
    rw [hpatch] at hok hb'
    dsimp only [writeOneBlockLocked] at hok hb'
    obtain ⟨existing, hexisting, hpublish, htouched⟩ := Result.andThen_ok hok
    rw [htouched, publishBlock_touched hpublish] at hb'
    rcases List.mem_append.mp hb' with hread | hself
    · exact existingBlock_inside hcfg hb hexisting hread
    · rwa [List.mem_singleton.mp hself]

theorem writeBlocks_inside {endOffset i b' : Nat} {array : Bytes} {blocks : List Nat}
    (hcfg : d.cfg = some cfg) (hblocks : ∀ b ∈ blocks, b * cfg.blockSize < d.volumeSize.toNat)
    (hok : (writeBlocks d cfg offset endOffset array i blocks m).ran = .ok ())
    (hb' : b' ∈ (writeBlocks d cfg offset endOffset array i blocks m).touched) :
    b' * cfg.blockSize < d.volumeSize.toNat := by
  induction blocks generalizing i m with
  | nil => cases hb'
  | cons b rest ih =>
    obtain ⟨_, hone, hrest, htouched⟩ := Result.andThen_ok hok
    rw [writeBlocks, htouched] at hb'
    rcases List.mem_append.mp hb' with hfirst | hlater
    · exact writePiece_inside hcfg (hblocks b List.mem_cons_self) hone hfirst
    · exact ih (fun c hc => hblocks c (List.mem_cons_of_mem _ hc)) hrest hlater

theorem mem_loopBlocks {b : Nat} (hpos : 0 < length) (hend : offset + length < 2 ^ 64)
    (hb : b ∈ loopBlocks (offset / cfg.blockSize) ((offset + length - 1) / cfg.blockSize)) :
    b * cfg.blockSize < offset + length := by
  have hdiv := Nat.div_le_self (offset + length - 1) cfg.blockSize
  have hmul := Nat.div_mul_le_self (offset + length - 1) cfg.blockSize
  unfold loopBlocks at hb
  rw [if_neg (by omega), List.append_nil] at hb
  obtain ⟨i, hi, rfl⟩ := List.mem_map.mp hb
  have hi := List.mem_range.mp hi
  have hle : offset / cfg.blockSize + i ≤ (offset + length - 1) / cfg.blockSize := by omega
  have hscaled := Nat.mul_le_mul_right cfg.blockSize hle
  omega

theorem readAt_contained (hend : offset + length < 2 ^ 64) :
    Contained d m (offset + length) (readAt d m offset length) where
  refused := by
    intro hbeyond
    obtain ⟨err, herr⟩ := exists_rangeError hend hbeyond
    rw [readAt, herr]
    exact ⟨⟨_, rfl⟩, rfl, rfl⟩
  inside := by
    intro data hok b hb
    obtain ⟨hrange, cfg, hcfg, -, htouched⟩ := readAt_ok hok
    rw [htouched] at hb
    rw [Nat.mod_eq_of_lt hend] at hrange
    simp only [Device.blockSize, hcfg]
    exact (mem_requestBlocks hend hb).trans_le hrange

theorem writeAt_of_error {data : Slice} {err : RequestError}
    (herr : d.rangeError offset data.bytes.length = some err) :
    ∃ err, writeAt d m offset data = ⟨.error err, m, []⟩ := by
  unfold writeAt
  rw [herr]
  split <;> exact ⟨_, rfl⟩

theorem writeAt_of_range {data : Slice} (hcfg : d.cfg = some cfg) (hfull : ¬ d.full = true)
    (hrange : d.rangeError offset data.bytes.length = none) (hempty : data.bytes.length ≠ 0) :
    writeAt d m offset data = writeRange d cfg m offset data := by
  rw [writeAt, if_neg hfull, hrange]
  dsimp only
  rw [if_neg hempty, hcfg]

theorem writeAt_ok {data : Slice} (hok : (writeAt d m offset data).ran = .ok ()) :
    (offset + data.bytes.length) % 2 ^ 64 ≤ d.volumeSize.toNat ∧ 0 < data.bytes.length ∧
      ∃ cfg, d.cfg = some cfg ∧ writeAt d m offset data = writeRange d cfg m offset data := by
  by_cases hfull : d.full = true
  · rw [writeAt, if_pos hfull] at hok
    cases hok
  cases hrange : d.rangeError offset data.bytes.length with
  | some err =>
    rw [writeAt, if_neg hfull, hrange] at hok
    cases hok
  | none =>
    rw [writeAt, if_neg hfull, hrange] at hok
    dsimp only at hok
    split at hok
    case isTrue =>
      cases hok
    case isFalse hempty =>
      refine ⟨(rangeError_eq_none.mp hrange).2, Nat.pos_of_ne_zero hempty, ?_⟩
      cases hcfg : d.cfg with
      | none =>
        rw [hcfg] at hok
        cases hok
      | some cfg => exact ⟨cfg, rfl, writeAt_of_range hcfg hfull hrange hempty⟩

theorem writeAt_contained {data : Slice} (hend : offset + data.bytes.length < 2 ^ 64) :
    Contained d m (offset + data.bytes.length) (writeAt d m offset data) where
  refused := by
    intro hbeyond
    obtain ⟨err, herr⟩ := exists_rangeError hend hbeyond
    obtain ⟨err, hr⟩ := writeAt_of_error (m := m) herr
    rw [hr]
    exact ⟨⟨_, rfl⟩, rfl, rfl⟩
  inside := by
    intro _ hok b hb
    obtain ⟨hrange, hpos, cfg, hcfg, hrun⟩ := writeAt_ok hok
    have hlast : (offset + data.bytes.length + (2 ^ 64 - 1)) % 2 ^ 64 =
        offset + data.bytes.length - 1 := by omega
    rw [hrun, writeRange, Nat.mod_eq_of_lt hend, hlast] at hok hb
    obtain ⟨_, hloop, -, htouched⟩ := Result.andThen_ok hok
    rw [htouched, List.append_nil] at hb
    rw [Nat.mod_eq_of_lt hend] at hrange
    simp only [Device.blockSize, hcfg]
    refine writeBlocks_inside hcfg (fun c hc => ?_) hloop hb
    exact (mem_loopBlocks hpos hend hc).trans_le hrange

theorem admitWhole_ok {block : Nat} (hok : admitWhole d block length = .ok cfg) :
    d.cfg = some cfg ∧ cfg.blockSize ∣ length ∧
      d.rangeError (block * d.blockSize % 2 ^ 64) length = none := by
  revert hok
  fun_cases admitWhole <;> intro hok <;> cases hok
  exact ⟨‹_›, Nat.dvd_of_mod_eq_zero (not_not.mp ‹_›), ‹_›⟩

theorem mem_wholeBlocks {block b : Nat} (hb : b ∈ blockNumbers block (length / cfg.blockSize)) :
    b * cfg.blockSize < block * cfg.blockSize + length := by
  obtain ⟨i, hi, rfl⟩ := mem_blockNumbers hb
  have hsucc := Nat.mul_le_mul_right cfg.blockSize (Nat.succ_le_of_lt hi)
  have hmul := Nat.div_mul_le_self length cfg.blockSize
  have hmod := Nat.mul_le_mul_right cfg.blockSize (Nat.mod_le (block + i) (2 ^ 64))
  have hpos := cfg.blockSize_pos
  rw [Nat.add_mul] at hmod
  rw [Nat.succ_mul] at hsucc
  omega

/-- What `Write` and `WriteBlockStore` share: a refused request does nothing, and an
accepted one touches its own blocks at most. -/
structure WholeWrite (d : Device) (m : Memory) (block length : Nat) (r : Result Unit) :
    Prop where
  refused : ∀ err, admitWhole d block length = .error err → r = ⟨.error err, m, []⟩
  accepted : ∀ u, r.ran = .ok u → ∃ cfg, admitWhole d block length = .ok cfg ∧
    r.touched = blockNumbers block (length / cfg.blockSize)

/-- When a write of whole blocks stays inside the volume or is refused. -/
def WholeFits (size blockSize block length : Nat) : Prop :=
  block * blockSize + length ≤ size ∨ size < block * blockSize % 2 ^ 64 ∨
    size < (block * blockSize % 2 ^ 64 + length) % 2 ^ 64 ∨ ¬ blockSize ∣ length

theorem WholeWrite.contained {block : Nat} {r : Result Unit} (hr : WholeWrite d m block length r)
    (hlength : length < 2 ^ 64) (hfits : WholeFits d.volumeSize.toNat d.blockSize block length) :
    Contained d m (block * d.blockSize + length) r := by
  cases hchecks : admitWhole d block length with
  | error err => exact .of_refused ⟨err, hr.refused err hchecks⟩
  | panic =>
    have hle : block * d.blockSize + length ≤ d.volumeSize.toNat := by
      unfold admitWhole at hchecks
      split at hchecks
      case h_1 =>
        cases hchecks
      case h_2 hrange hcfg =>
        have hle := (rangeError_eq_none.mp hrange).2
        simp only [Device.blockSize, hcfg, Nat.mul_zero] at hle ⊢
        omega
      case h_3 =>
        split at hchecks <;> cases hchecks
    refine ⟨fun hbeyond => absurd hbeyond (not_lt.mpr hle), fun u hok => ?_⟩
    obtain ⟨cfg, haccepted, -⟩ := hr.accepted u hok
    cases hchecks.symm.trans haccepted
  | ok cfg =>
    obtain ⟨hcfg, hdvd, hnone⟩ := admitWhole_ok hchecks
    obtain ⟨hstart, hrange⟩ := rangeError_eq_none.mp hnone
    have hsize : d.blockSize = cfg.blockSize := by rw [Device.blockSize, hcfg]
    have hle : block * d.blockSize + length ≤ d.volumeSize.toNat := by
      rcases hfits with hle | hlt | hlt | hnot
      · exact hle
      · exact absurd hlt (not_lt.mpr hstart)
      · exact absurd hlt (not_lt.mpr hrange)
      · exact absurd (hsize ▸ hdvd) hnot
    refine ⟨fun hbeyond => absurd hbeyond (not_lt.mpr hle), fun u hok b hb => ?_⟩
    obtain ⟨cfg', hchecks', htouched⟩ := hr.accepted u hok
    cases hchecks.symm.trans hchecks'
    rw [htouched] at hb
    rw [hsize] at hle ⊢
    exact (mem_wholeBlocks hb).trans_le hle

theorem write_whole (block : Nat) (data : Slice) :
    WholeWrite d m block data.bytes.length (write d m block data.bytes) where
  refused := by
    intro err herr
    rw [write, herr]
  accepted := by
    intro u
    fun_cases write <;> intro hok <;> cases hok
    exact ⟨_, ‹_›, rfl⟩

theorem writeBlockStore_whole (block : Nat) (data : Slice) :
    WholeWrite d m block data.bytes.length (writeBlockStore d m block data.bytes) where
  refused := by
    intro err herr
    rw [writeBlockStore, herr]
  accepted := by
    intro u
    fun_cases writeBlockStore <;> intro hok <;> cases hok
    exact ⟨_, ‹_›, rfl⟩

end Contained

section Wrapping

/-- A plaintext volume with blocks of the given size. -/
def plainOf (blockSize : Nat) (hpos : 0 < blockSize) (hlt : blockSize < 2 ^ 32) : Config :=
  { Config.tiny with blockSize := blockSize, blockSize_pos := hpos, blockSize_lt := hlt }

/-- A volume of the given sizes that nothing was written to. -/
def freshVolume (size : UInt64) (blockSize : UInt32) : Device where
  volumeSize := size
  cfg := if hpos : 0 < blockSize.toNat then some (plainOf _ hpos blockSize.toNat_lt) else none
  name := "vol"
  read := fun _ _ _ _ => .error .backend
  layers := []
  full := false
  reserve := fun _ => true
  backpressure := true

/-- The memory of an engine that nothing was written to. -/
def freshMemory : Memory := ⟨.new, [], 0, 0⟩

variable {size : UInt64} {blockSize : UInt32} {cfg : Config} {offset length : Nat}

theorem freshVolume_blockSize : (freshVolume size blockSize).blockSize = blockSize.toNat := by
  unfold Device.blockSize freshVolume
  by_cases hpos : 0 < blockSize.toNat
  · simp only [dif_pos hpos]
    rfl
  · simp only [dif_neg hpos]
    omega

theorem freshVolume_cfg (size : UInt64) (hpos : 0 < blockSize.toNat) :
    ∃ cfg, (freshVolume size blockSize).cfg = some cfg ∧ cfg.blockSize = blockSize.toNat :=
  ⟨_, dif_pos hpos, rfl⟩

theorem readBlocks_fresh (blocks : List Nat) :
    ∃ data, readBlocks (freshVolume size blockSize) cfg .new blocks = (.ok data, .new) := by
  have hown : Config.ownWanted (blocks.zipIdx.map fun item =>
      (item.2, item.1, findBlock .new (freshVolume size blockSize).layers item.1)) = [] := by
    unfold Config.ownWanted
    rw [List.filterMap_eq_nil_iff]
    intro item hitem
    obtain ⟨block, -, rfl⟩ := List.mem_map.mp hitem
    rfl
  unfold readBlocks
  dsimp only
  rw [hown]
  exact ⟨_, rfl⟩

theorem exists_cfg {d : Device} {n : Nat} (hsize : d.blockSize = n) (hn : n ≠ 0) :
    ∃ cfg, d.cfg = some cfg ∧ cfg.blockSize = n := by
  unfold Device.blockSize at hsize
  cases hcfg : d.cfg with
  | none =>
    rw [hcfg] at hsize
    exact absurd hsize.symm hn
  | some cfg =>
    rw [hcfg] at hsize
    exact ⟨cfg, rfl, hsize⟩

/-- A call without an error, or one that ends the program. -/
def Passes {α : Type} (r : Result α) : Prop :=
  ∀ err, r.ran ≠ .error err

theorem Passes.andThen {α β : Type} {r : Result α} {next : α → Memory → Result β}
    (hr : Passes r) (hnext : ∀ a, Passes (next a r.memory)) : Passes (r.andThen next) := by
  obtain ⟨ran, m, touched⟩ := r
  cases ran with
  | ok a => exact hnext a
  | error err => exact absurd rfl (hr err)
  | panic => exact fun _ h => by cases h

theorem readBlockStore_fresh {block blockLen : Nat} (hmod : blockLen % cfg.blockSize = 0) :
    Passes (readBlockStore (freshVolume size blockSize) cfg freshMemory block blockLen) := by
  intro err
  unfold readBlockStore
  rw [if_neg (not_not.mpr hmod)]
  split
  · exact fun h => by cases h
  · obtain ⟨data, hdata⟩ := @readBlocks_fresh size blockSize cfg
      (blockNumbers block (blockLen / cfg.blockSize))
    dsimp only
    rw [show freshMemory.store = .new from rfl, hdata]
    exact fun h => by cases h

theorem readAt_fresh (hcfg : (freshVolume size blockSize).cfg = some cfg)
    (hrange : (freshVolume size blockSize).rangeError offset length = none)
    (hmod : (cfg.requestBlocks offset length).2 % cfg.blockSize = 0) :
    Passes (readAt (freshVolume size blockSize) freshMemory offset length) := by
  rw [readAt_of_range hcfg hrange]
  refine (readBlockStore_fresh hmod).andThen fun fullData err => ?_
  unfold returnSlice
  split <;> exact fun h => by cases h

theorem readAt_refused {d : Device} {m : Memory} (hcfg : d.cfg = some cfg)
    (hrefused : d.rangeError offset length ≠ none ∨
      (cfg.requestBlocks offset length).2 % cfg.blockSize ≠ 0) :
    ∃ err, readAt d m offset length = ⟨.error err, m, []⟩ := by
  cases hrange : d.rangeError offset length with
  | some err => exact ⟨err, by rw [readAt, hrange]⟩
  | none =>
    rw [readAt_of_range hcfg hrange, readBlockStore,
      if_pos (hrefused.resolve_left (not_not.mpr hrange))]
    exact ⟨_, rfl⟩

/-- The calls on every volume of the given sizes are contained. -/
def ContainedOn {α : Type} (size : UInt64) (blockSize : UInt32) (finish : Nat)
    (call : Device → Memory → Result α) : Prop :=
  ∀ d m, d.volumeSize = size → d.blockSize = blockSize.toNat → Contained d m finish (call d m)

theorem not_containedOn {α : Type} {finish : Nat} {call : Device → Memory → Result α}
    (hbeyond : size.toNat < finish)
    (hcall : Passes (call (freshVolume size blockSize) freshMemory) ∨
      (call (freshVolume size blockSize) freshMemory).touched ≠ []) :
    ¬ ContainedOn size blockSize finish call := by
  intro hcontained
  obtain ⟨⟨err, herr⟩, -, htouched⟩ :=
    (hcontained (freshVolume size blockSize) freshMemory rfl freshVolume_blockSize).refused hbeyond
  rcases hcall with hcall | hcall
  · exact hcall err herr
  · exact hcall htouched

end Wrapping

section Reading

/-- When a read stays inside the volume or is refused: its end fits 64 bits, or it starts
beyond the volume, or the length of its blocks, which is cut off too, is no whole number of
blocks. -/
def ReadFits (size blockSize offset length : Nat) : Prop :=
  offset + length < 2 ^ 64 ∨ size < offset ∨ blockSize ≠ 0 ∧
      (((offset + length + (2 ^ 64 - 1)) % 2 ^ 64 / blockSize + 2 ^ 64 - offset / blockSize + 1) %
        2 ^ 64 * blockSize % 2 ^ 64) % blockSize ≠ 0

theorem readAt_contained_iff (size : UInt64) (blockSize : UInt32) (offset length : UInt64) :
    ContainedOn size blockSize (offset.toNat + length.toNat)
        (readAt · · offset.toNat length.toNat) ↔
      ReadFits size.toNat blockSize.toNat offset.toNat length.toNat := by
  have hlength := length.toNat_lt
  constructor
  · intro hcontained
    by_contra hfits
    obtain ⟨hend, hrest⟩ := not_or.mp hfits
    obtain ⟨hoffset, hmod⟩ := not_or.mp hrest
    have hsize := size.toNat_lt
    have hrange : (freshVolume size blockSize).rangeError offset.toNat length.toNat = none :=
      rangeError_eq_none.mpr ⟨not_lt.mp hoffset, show _ ≤ size.toNat by omega⟩
    refine not_containedOn (hsize.trans_le (not_lt.mp hend)) (.inl ?_) hcontained
    rcases Nat.eq_zero_or_pos blockSize.toNat with hzero | hpos
    · have hcfg : (freshVolume size blockSize).cfg = none := dif_neg (by omega)
      rw [readAt, hrange, hcfg]
      exact fun _ h => by cases h
    · obtain ⟨cfg, hcfg, hblockSize⟩ := freshVolume_cfg size hpos
      rw [← hblockSize] at hmod
      exact readAt_fresh hcfg hrange (not_not.mp fun h => hmod ⟨cfg.blockSize_pos.ne', h⟩)
  · rintro hfits d m rfl hsize
    rcases hfits with hend | hoffset | ⟨hpos, hmod⟩
    · exact readAt_contained hend
    · have herr : d.rangeError offset.toNat length.toNat = some .requestTooLarge := if_pos hoffset
      exact .of_refused ⟨_, show readAt d m _ _ = _ by rw [readAt, herr]⟩
    · obtain ⟨cfg, hcfg, hcfgSize⟩ := exists_cfg hsize hpos
      rw [← hcfgSize] at hmod
      exact .of_refused (readAt_refused hcfg (.inr hmod))

end Reading

section Writing

variable {size : UInt64} {blockSize : UInt32} {cfg : Config} {d : Device} {m : Memory}
  {offset : Nat} {data : Slice}

/-- When a write stays inside the volume or is refused: its end fits 64 bits, or it starts
beyond the volume, or it ends with the 64-bit range and its first block, which it covers in
part, reaches beyond the volume and so cannot be read. -/
def WriteFits (size blockSize offset length : Nat) : Prop :=
  offset + length < 2 ^ 64 ∨ size < offset ∨
    blockSize ≠ 0 ∧ offset + length = 2 ^ 64 ∧ size < offset / blockSize * blockSize + blockSize ∧
      offset / blockSize * blockSize + blockSize ≠ 2 ^ 64 ∧
      (offset % blockSize ≠ 0 ∨ 2 ^ 64 < offset / blockSize * blockSize + blockSize)

/-- The first piece of a write that ends with the 64-bit range. -/
theorem pieceOf_first (hoffset : 2 ^ 63 < offset) (hlt : offset < 2 ^ 64)
    (hstop : offset / cfg.blockSize * cfg.blockSize + cfg.blockSize ≠ 2 ^ 64) :
    pieceOf cfg offset 0 (offset / cfg.blockSize) =
      ⟨offset % cfg.blockSize, 2 ^ 64 - offset / cfg.blockSize * cfg.blockSize, 0,
        2 ^ 64 - offset⟩ := by
  have hpos := cfg.blockSize_pos
  have hsize := cfg.blockSize_lt
  have hdiv := Nat.div_add_mod' offset cfg.blockSize
  have hmod := Nat.mod_lt offset hpos
  unfold pieceOf
  generalize offset / cfg.blockSize * cfg.blockSize = start at hdiv hstop ⊢
  have hstart : start % 2 ^ 64 = start := Nat.mod_eq_of_lt (by omega)
  have hwriteStart : (if start < offset then offset - start else 0) = offset % cfg.blockSize := by
    split <;> omega
  have hwriteEnd : (if 0 < (start + cfg.blockSize) % 2 ^ 64 then (0 + 2 ^ 64 - start) % 2 ^ 64
      else cfg.blockSize) = 2 ^ 64 - start := by
    rw [if_pos (by omega)]
    omega
  simp only [hstart, hwriteStart, hwriteEnd, Piece.mk.injEq, true_and]
  omega

theorem loopBlocks_first (cfg : Config) (hlt : offset < 2 ^ 64) :
    ∃ rest, loopBlocks (offset / cfg.blockSize) ((0 + (2 ^ 64 - 1)) % 2 ^ 64 / cfg.blockSize) =
      offset / cfg.blockSize :: rest := by
  have hle : offset / cfg.blockSize ≤ (2 ^ 64 - 1) / cfg.blockSize :=
    Nat.div_le_div_right (by omega)
  have hlast : (0 + (2 ^ 64 - 1)) % 2 ^ 64 = 2 ^ 64 - 1 := by decide
  unfold loopBlocks
  rw [hlast, Nat.succ_sub hle, List.range_succ_eq_map, List.map_cons, List.cons_append]
  exact ⟨_, rfl⟩

theorem writeRange_refused (hcfg : d.cfg = some cfg) (hend : offset + data.bytes.length = 2 ^ 64)
    (hlt : offset < 2 ^ 64)
    (hsize : d.volumeSize.toNat < offset / cfg.blockSize * cfg.blockSize + cfg.blockSize)
    (hstop : offset / cfg.blockSize * cfg.blockSize + cfg.blockSize ≠ 2 ^ 64)
    (hpart : offset % cfg.blockSize ≠ 0 ∨
      2 ^ 64 < offset / cfg.blockSize * cfg.blockSize + cfg.blockSize) :
    ∃ err, writeRange d cfg m offset data = ⟨.error err, m, []⟩ := by
  have hlength := data.length_lt
  have hstart := Nat.div_mul_le_self offset cfg.blockSize
  obtain ⟨rest, hblocks⟩ := loopBlocks_first cfg hlt
  have hslice : sliceOf (data.bytes ++ data.spare) 0 (2 ^ 64 - offset) = some data.bytes := by
    have hwhole : 2 ^ 64 - offset = data.bytes.length := by omega
    rw [sliceOf, hwhole, if_pos ⟨Nat.zero_le _, by rw [List.length_append]; omega⟩,
      List.drop_zero, Nat.sub_zero, List.take_left]
  obtain ⟨err, herr⟩ : ∃ err, readAt d m (offset / cfg.blockSize * cfg.blockSize % 2 ^ 64)
      cfg.blockSize = ⟨.error err, m, []⟩ := by
    rw [Nat.mod_eq_of_lt (by omega)]
    refine readAt_refused hcfg ?_
    rcases Nat.lt_or_gt_of_ne hstop with hbelow | habove
    · refine .inl fun hnone => ?_
      have hle := (rangeError_eq_none.mp hnone).2
      rw [Nat.mod_eq_of_lt hbelow] at hle
      omega
    · exact .inr (requestBlocks_of_wrap (by omega) habove)
  refine ⟨err, ?_⟩
  rw [writeRange, hend, Nat.mod_self, hblocks, writeBlocks, pieceOf_first (by omega) hlt hstop,
    writePiece]
  dsimp only
  rw [hslice]
  dsimp only [writeOneBlockLocked, existingBlock]
  rw [if_pos (by simp only [Bool.or_eq_true, decide_eq_true_eq]; omega), herr]
  rfl

theorem writePiece_fresh {array : Bytes} {i b : Nat} {piece : Piece}
    (hread : 0 < piece.writeStart ∨ piece.writeEnd < cfg.blockSize → Passes (readAt (freshVolume
      size blockSize) freshMemory (b * cfg.blockSize % 2 ^ 64) cfg.blockSize)) :
    Passes (writePiece (freshVolume size blockSize) cfg array i b piece freshMemory) := by
  unfold writePiece
  split
  · exact fun _ h => by cases h
  refine Passes.andThen ?_ fun existing err => ?_
  · unfold existingBlock
    split
    · rename_i hpart
      simp only [Bool.or_eq_true, decide_eq_true_eq] at hpart
      exact hread hpart
    · exact fun _ h => by cases h
  · dsimp only [publishBlock, freshVolume]
    split <;> exact fun h => by cases h

theorem writePiece_touched {array : Bytes} {i b : Nat} {piece : Piece}
    (hok : (writePiece d cfg array i b piece m).ran = .ok ()) :
    b ∈ (writePiece d cfg array i b piece m).touched := by
  unfold writePiece at hok ⊢
  split at hok
  · cases hok
  · obtain ⟨existing, -, hpublish, htouched⟩ := Result.andThen_ok hok
    rw [writeOneBlockLocked, htouched, publishBlock_touched hpublish]
    exact List.mem_append_right _ List.mem_cons_self

/-- Once the first piece of a loop passes, the call is no refusal. -/
theorem writeBlocks_trace {β : Type} {endOffset b : Nat} {array : Bytes} {rest : List Nat}
    {next : Unit → Memory → Result β}
    (hpiece : Passes (writePiece d cfg array 0 b (pieceOf cfg offset endOffset b) m)) :
    Passes ((writeBlocks d cfg offset endOffset array 0 (b :: rest) m).andThen next) ∨
      ((writeBlocks d cfg offset endOffset array 0 (b :: rest) m).andThen next).touched ≠ [] := by
  have htouched := @writePiece_touched cfg d m array 0 b (pieceOf cfg offset endOffset b)
  rw [writeBlocks]
  generalize writePiece d cfg array 0 b (pieceOf cfg offset endOffset b) m = r at hpiece htouched
  obtain ⟨ran, m', touched⟩ := r
  cases ran with
  | ok u =>
    exact .inr (List.ne_nil_of_mem (Result.mem_andThen (Result.mem_andThen (htouched rfl))))
  | error err => exact absurd rfl (hpiece err)
  | panic => exact .inl fun _ h => by cases h

theorem loopBlocks_wrapped {length : Nat} (hlt : offset < 2 ^ 64) (hlength : length < 2 ^ 63)
    (hover : 2 ^ 64 < offset + length) :
    loopBlocks (offset / cfg.blockSize)
      (((offset + length) % 2 ^ 64 + (2 ^ 64 - 1)) % 2 ^ 64 / cfg.blockSize) = [] := by
  have hlast : ((offset + length) % 2 ^ 64 + (2 ^ 64 - 1)) % 2 ^ 64 =
      offset + length - 2 ^ 64 - 1 := by omega
  have hdiv : (offset + length - 2 ^ 64 - 1) / cfg.blockSize < offset / cfg.blockSize := by
    rw [Nat.div_lt_iff_lt_mul cfg.blockSize_pos]
    have := Nat.lt_div_mul_add (a := offset) cfg.blockSize_pos
    have := cfg.blockSize_lt
    omega
  have hle := Nat.div_le_self (offset + length - 2 ^ 64 - 1) cfg.blockSize
  unfold loopBlocks
  rw [hlast, Nat.sub_eq_zero_of_le (by omega), if_neg (by omega)]
  rfl

/-- A write that wraps around leaves a trace, or an error that is none, unless its first
block cannot be read. -/
theorem writeRange_fresh (hcfg : (freshVolume size blockSize).cfg = some cfg)
    (hlt : offset < 2 ^ 64) (hoffset : offset ≤ size.toNat)
    (hend : 2 ^ 64 ≤ offset + data.bytes.length)
    (hfits : ¬ (offset + data.bytes.length = 2 ^ 64 ∧ size.toNat < offset / cfg.blockSize *
      cfg.blockSize + cfg.blockSize ∧ offset / cfg.blockSize * cfg.blockSize + cfg.blockSize ≠ 2 ^
      64 ∧ (offset % cfg.blockSize ≠ 0 ∨ 2 ^ 64 < offset / cfg.blockSize * cfg.blockSize +
      cfg.blockSize))) :
    Passes (writeRange (freshVolume size blockSize) cfg freshMemory offset data) ∨
      (writeRange (freshVolume size blockSize) cfg freshMemory offset data).touched ≠ [] := by
  have hlength := data.length_lt
  have hsize := size.toNat_lt
  have hstart := Nat.div_mul_le_self offset cfg.blockSize
  have hcfgSize := cfg.blockSize_lt
  unfold writeRange
  rcases Nat.eq_or_lt_of_le hend with hexact | hover
  · rw [← hexact, Nat.mod_self]
    obtain ⟨rest, hblocks⟩ := loopBlocks_first cfg hlt
    dsimp only
    rw [hblocks]
    refine writeBlocks_trace (writePiece_fresh fun hpart => ?_)
    have hreads : offset / cfg.blockSize * cfg.blockSize + cfg.blockSize = 2 ^ 64 ∨
        offset / cfg.blockSize * cfg.blockSize + cfg.blockSize ≤ size.toNat := by
      by_contra hnot
      obtain ⟨hstop, hbeyond⟩ := not_or.mp hnot
      refine hfits ⟨hexact.symm, not_le.mp hbeyond, hstop, ?_⟩
      rw [pieceOf_first (by omega) hlt hstop] at hpart
      dsimp only at hpart
      omega
    rw [Nat.mod_eq_of_lt (by omega)]
    refine readAt_fresh hcfg (rangeError_eq_none.mpr (show _ ≤ size.toNat ∧ _ ≤ size.toNat by
      omega)) ?_
    rw [requestBlocks_block (by omega), Nat.mod_self]
  · dsimp only
    rw [loopBlocks_wrapped hlt hlength hover]
    exact .inl fun _ h => by cases h

theorem writeAt_contained_iff (size : UInt64) (blockSize : UInt32) (offset : UInt64)
    (data : Slice) :
    ContainedOn size blockSize (offset.toNat + data.bytes.length)
        (writeAt · · offset.toNat data) ↔
      WriteFits size.toNat blockSize.toNat offset.toNat data.bytes.length := by
  have hlength := data.length_lt
  have hlt := offset.toNat_lt
  have hsize := size.toNat_lt
  constructor
  · intro hcontained
    by_contra hfits
    obtain ⟨hend, hrest⟩ := not_or.mp hfits
    obtain ⟨hoffset, hrest⟩ := not_or.mp hrest
    refine not_containedOn (hsize.trans_le (not_lt.mp hend)) ?_ hcontained
    have hfull : ¬ (freshVolume size blockSize).full = true := Bool.false_ne_true
    have hrange : (freshVolume size blockSize).rangeError offset.toNat data.bytes.length = none :=
      rangeError_eq_none.mpr (show _ ≤ size.toNat ∧ _ ≤ size.toNat by omega)
    rcases Nat.eq_zero_or_pos blockSize.toNat with hzero | hpos
    · have hcfg : (freshVolume size blockSize).cfg = none := dif_neg (by omega)
      left
      rw [writeAt, if_neg hfull, hrange]
      dsimp only
      rw [if_neg (by omega), hcfg]
      exact fun _ h => by cases h
    · obtain ⟨cfg, hcfg, hblockSize⟩ := freshVolume_cfg size hpos
      rw [← hblockSize] at hrest
      rw [writeAt_of_range hcfg hfull hrange (by omega)]
      exact writeRange_fresh hcfg hlt (not_lt.mp hoffset) (not_lt.mp hend)
        fun h => hrest ⟨cfg.blockSize_pos.ne', h⟩
  · rintro hfits d m rfl hblockSize
    rcases hfits with hend | hoffset | ⟨hpos, hend, hbeyond, hstop, hpart⟩
    · exact writeAt_contained hend
    · exact .of_refused (@writeAt_of_error _ _ _ _ .requestTooLarge (if_pos hoffset))
    · obtain ⟨cfg, hcfg, hcfgSize⟩ := exists_cfg hblockSize hpos
      rw [← hcfgSize] at hbeyond hstop hpart
      refine .of_refused (show ∃ err, writeAt d m offset.toNat data = _ from ?_)
      by_cases hfull : d.full = true
      · exact ⟨_, if_pos hfull⟩
      cases hrange : d.rangeError offset.toNat data.bytes.length with
      | some err => exact writeAt_of_error hrange
      | none =>
        rw [writeAt_of_range hcfg hfull hrange (by omega)]
        exact writeRange_refused hcfg hend hlt hbeyond hstop hpart

end Writing

section Whole

variable {size : UInt64} {blockSize : UInt32} {block : UInt64} {data : Slice}

/-- A call that reports no error once the checks let its blocks pass. -/
theorem whole_contained_iff {call : Device → Memory → Result Unit}
    (hwhole : ∀ d m, WholeWrite d m block.toNat data.bytes.length (call d m))
    (haccepts : ∀ cfg, admitWhole (freshVolume size blockSize) block.toNat data.bytes.length =
      .ok cfg → Passes (call (freshVolume size blockSize) freshMemory)) :
    ContainedOn size blockSize (block.toNat * blockSize.toNat + data.bytes.length) call ↔
      WholeFits size.toNat blockSize.toNat block.toNat data.bytes.length := by
  have hlength := data.length_lt
  constructor
  · intro hcontained
    by_contra hfits
    obtain ⟨hend, hrest⟩ := not_or.mp hfits
    obtain ⟨hstart, hrest⟩ := not_or.mp hrest
    obtain ⟨hrange, hdvd⟩ := not_or.mp hrest
    have hpos : 0 < blockSize.toNat := by
      refine Nat.pos_of_ne_zero fun hzero => hend ?_
      rw [hzero, not_not, Nat.zero_dvd] at hdvd
      rw [hzero, hdvd]
      exact Nat.zero_le _
    obtain ⟨cfg, hcfg, hblockSize⟩ := freshVolume_cfg size hpos
    refine not_containedOn (not_le.mp hend) (.inl (haccepts cfg ?_)) hcontained
    rw [admitWhole, freshVolume_blockSize,
      rangeError_eq_none.mpr ⟨not_lt.mp hstart, not_lt.mp hrange⟩, hcfg]
    rw [← hblockSize, not_not] at hdvd
    exact if_neg (not_not.mpr (Nat.mod_eq_zero_of_dvd hdvd))
  · rintro hfits d m rfl hsize
    rw [← hsize] at hfits ⊢
    exact (hwhole d m).contained (by omega) hfits

end Whole

/-- A request on a volume of the given sizes is refused if it ends beyond the volume, and stays
inside it otherwise, exactly if its end does not wrap around or one of the checks refuses it
all the same. -/
theorem requests_contained_iff (size : UInt64) (blockSize : UInt32)
    (offset length block : UInt64) (data : Slice) :
    (ContainedOn size blockSize (offset.toNat + length.toNat)
          (readAt · · offset.toNat length.toNat) ↔
        ReadFits size.toNat blockSize.toNat offset.toNat length.toNat) ∧
    (ContainedOn size blockSize (offset.toNat + data.bytes.length)
          (writeAt · · offset.toNat data) ↔
        WriteFits size.toNat blockSize.toNat offset.toNat data.bytes.length) ∧
    (ContainedOn size blockSize (block.toNat * blockSize.toNat + data.bytes.length)
          (write · · block.toNat data.bytes) ↔
        WholeFits size.toNat blockSize.toNat block.toNat data.bytes.length) ∧
    (ContainedOn size blockSize (block.toNat * blockSize.toNat + data.bytes.length)
          (writeBlockStore · · block.toNat data.bytes) ↔
        WholeFits size.toNat blockSize.toNat block.toNat data.bytes.length) := by
  refine ⟨readAt_contained_iff size blockSize offset length,
    writeAt_contained_iff size blockSize offset data,
    whole_contained_iff (fun d m => write_whole block.toNat data) fun cfg hchecks => ?_,
    whole_contained_iff (fun d m => writeBlockStore_whole block.toNat data) fun cfg hchecks => ?_⟩
  · rw [write, hchecks]
    exact fun _ h => by cases h
  · rw [writeBlockStore, hchecks]
    exact fun _ h => by cases h

/-- A volume of two blocks of 4096 bytes. -/
def twoBlocks : Device :=
  freshVolume 8192 4096

theorem twoBlocks_blockSize :
    twoBlocks.blockSize = 4096 :=
  rfl

/-- `Write` takes a block beyond the end of a volume of two blocks: the product of its
number and the block size is zero in 64 bits, and the block is buffered and published
under its number. -/
theorem write_beyond_end :
    ∃ data : Bytes, data.length = 4096 ∧
      twoBlocks.volumeSize.toNat < 2 ^ 52 * twoBlocks.blockSize + data.length ∧
      (write twoBlocks freshMemory (2 ^ 52) data).ran = .ok () ∧
      (write twoBlocks freshMemory (2 ^ 52) data).touched = [2 ^ 52] := by
  refine ⟨List.replicate 4096 1, List.length_replicate, ?_, ?_⟩
  · rw [twoBlocks_blockSize, List.length_replicate]
    decide
  · have hchecks : admitWhole twoBlocks (2 ^ 52) 4096 =
        .ok (plainOf 4096 (by decide) (by decide)) := by
      rw [admitWhole, rangeError_eq_none.mpr (by decide)]
      exact if_neg (by decide)
    rw [write, List.length_replicate, hchecks]
    exact ⟨rfl, rfl⟩

end Requests

end Viperblock
