import Mathlib.Data.List.Perm.Basic
import Viperblock.Flush
import Viperblock.Requests

/-!
# The counter of buffered bytes

`pendingBytes` counts the bytes in the write buffer and in the pending backend writes,
and writers wait while it is too high.  A `WriteAt` buffers its blocks one by one and
adds all of them once the last one is in; an uploaded chunk takes its blocks out of the
pending writes and subtracts what they held; `Reset` empties both buffers and sets the
counter to zero.  These steps of different calls interleave.

The counter and the buffers agree up to what is on its way: blocks of a `WriteAt` that
has not added them yet, and blocks of a chunk that has not subtracted them yet.  `Write`
buffers blocks that nobody adds, and so does a `WriteAt` that fails half way.
-/

namespace Viperblock

namespace Accounting

open Flushing GuardedRun

structure Env where
  cfg : Config
  volumeSize : UInt64
  useShardedWAL : Bool

inductive Writer
  /-- The blocks that are left, and how many are in the buffer. -/
  | publishing (todo : List Nat) (written : Nat)
  /-- The blocks are counted, and the call waits for the backend to catch up. -/
  | waiting
deriving DecidableEq, Repr

inductive Drain
  | flushing
  | rotating
  /-- The block numbers of every chunk that is left, and the bytes of every chunk that
  was taken out of the pending writes and is still counted. -/
  | uploading (jobs : List (List Nat)) (freed : List Nat) (failed : Bool)
deriving DecidableEq, Repr

/-- What a `Reset` clears next. -/
inductive Reset
  | writes
  | pendingBackendWrites
  | pendingBytes
deriving DecidableEq, Repr

structure State where
  buffers : Buffers
  seqNum : Nat
  pendingBytes : Int
  /-- The calls of `WriteAt` in progress. -/
  writers : AList fun _ : Nat => Writer
  /-- The drain that holds `drainMu`. -/
  drain : Option Drain
  reset : Option Reset

def State.init : State := ⟨.new, 0, 0, ∅, none, none⟩

inductive Act
  | beginWriteAt (id offset length : Nat)
  /-- The next block is in the buffer, with its data after the splice. -/
  | publish (id : Nat) (data : Bytes)
  /-- A read or a reservation fails. -/
  | failWriteAt (id : Nat)
  | count (id : Nat)
  /-- The wait for the backend is over, or has failed. -/
  | endWriteAt (id : Nat)
  | write (block : Nat) (data : Bytes)
  | flush (results : Nat → Nat → Append)
  | beginDrain
  | drainFlush (results : Nat → Nat → Append)
  /-- The closed segment is read, whatever it holds, and cut into chunks. -/
  | rotate (jobs : List (List Nat))
  | failRotate
  /-- A chunk is stored and its blocks leave the pending writes. -/
  | upload (i : Nat)
  | failUpload (i : Nat)
  /-- An uploaded chunk is taken off the counter. -/
  | release (i : Nat)
  | endDrain
  | beginReset
  | clear

/-- A block is buffered and published. -/
def buffer (s : Buffers) (b : Block) : Buffers :=
  { s with
    writes := s.writes ++ [b]
    store := s.store.writeWithSeqNum b.block b.data b.seqNum
    appended := s.appended ++ [b] }

/-- Block `i` of a `Write`. -/
def wholeWrite (cfg : Config) (block start : Nat) (data : Bytes) (i : Nat) : Block :=
  { seqNum := start + 1 + i
    block := (block + i) % 2 ^ 64
    len := 0
    data := Requests.wholeBlock cfg data i }

/-- Blocks of a chunk leave the pending writes, whatever their versions. -/
def dropMatched (s : Buffers) (matched : List Nat) : Buffers :=
  { s with
    pendingBackendWrites := s.pendingBackendWrites.filter fun b => !matched.contains b.block }

/-- The bytes of the blocks that leave. -/
def freedBytes (s : Buffers) (matched : List Nat) : Nat :=
  bufferSize (s.pendingBackendWrites.filter fun b => matched.contains b.block)

section Step

variable (env : Env)

def admitWriteAt (offset length : Nat) : Bool :=
  offset ≤ env.volumeSize.toNat && (offset + length) % 2 ^ 64 ≤ env.volumeSize.toNat &&
    length != 0

/-- The blocks a `WriteAt` goes through. -/
def writeAtBlocks (offset length : Nat) : List Nat :=
  Requests.loopBlocks (offset / env.cfg.blockSize)
    (((offset + length) % 2 ^ 64 + (2 ^ 64 - 1)) % 2 ^ 64 / env.cfg.blockSize)

def admitWrite (block length : Nat) : Bool :=
  block * env.cfg.blockSize % 2 ^ 64 ≤ env.volumeSize.toNat &&
    (block * env.cfg.blockSize % 2 ^ 64 + length) % 2 ^ 64 ≤ env.volumeSize.toNat &&
    length % env.cfg.blockSize == 0

def stepWriteAt (s : State) : Act → Option State
  | .beginWriteAt id offset length =>
    if s.writers.lookup id = none ∧ admitWriteAt env offset length then
      some
        { s with
          writers := s.writers.insert id (.publishing (writeAtBlocks env offset length) 0) }
    else none
  | .publish id data =>
    match s.writers.lookup id with
    | some (.publishing (b :: todo) written) =>
      if data.length = env.cfg.blockSize then
        some
          { s with
            seqNum := s.seqNum + 1
            buffers := buffer s.buffers ⟨data, s.seqNum + 1, b, env.cfg.blockSize⟩
            writers := s.writers.insert id (.publishing todo (written + 1)) }
      else none
    | _ => none
  | .failWriteAt id =>
    match s.writers.lookup id with
    | some (.publishing (_ :: _) _) => some { s with writers := s.writers.erase id }
    | _ => none
  | .count id =>
    match s.writers.lookup id with
    | some (.publishing [] written) =>
      some
        { s with
          pendingBytes := s.pendingBytes + (written * env.cfg.blockSize : Nat)
          writers := s.writers.insert id .waiting }
    | _ => none
  | .endWriteAt id =>
    match s.writers.lookup id with
    | some .waiting => some { s with writers := s.writers.erase id }
    | _ => none
  | _ => none

def stepDrain (s : State) : Act → Option State
  | .beginDrain => if s.drain = none then some { s with drain := some .flushing } else none
  | .drainFlush results =>
    match s.drain with
    | some .flushing =>
      let flushed := flush env.cfg env.useShardedWAL results s.buffers
      some
        { s with
          buffers := flushed.1
          drain := if flushed.2 then some .rotating else none }
    | _ => none
  | .rotate jobs =>
    match s.drain with
    | some .rotating => some { s with drain := some (.uploading jobs [] false) }
    | _ => none
  | .failRotate =>
    match s.drain with
    | some .rotating => some { s with drain := none }
    | _ => none
  | .upload i =>
    match s.drain with
    | some (.uploading jobs freed failed) =>
      match jobs[i]? with
      | some matched =>
        some
          { s with
            buffers := dropMatched s.buffers matched
            drain := some (.uploading (jobs.eraseIdx i)
              (freedBytes s.buffers matched :: freed) failed) }
      | none => none
    | _ => none
  | .failUpload i =>
    match s.drain with
    | some (.uploading jobs freed _) =>
      if i < jobs.length then
        some { s with drain := some (.uploading (jobs.eraseIdx i) freed true) }
      else none
    | _ => none
  | .release i =>
    match s.drain with
    | some (.uploading jobs freed failed) =>
      match freed[i]? with
      | some bytes =>
        some
          { s with
            pendingBytes := s.pendingBytes - bytes
            drain := some (.uploading jobs (freed.eraseIdx i) failed) }
      | none => none
    | _ => none
  | .endDrain =>
    match s.drain with
    -- after a failed upload the chunks that are left are not submitted
    | some (.uploading jobs [] failed) =>
      if jobs = [] ∨ failed then some { s with drain := none } else none
    | _ => none
  | _ => none

def stepReset (s : State) : Act → Option State
  | .beginReset => if s.reset = none then some { s with reset := some .writes } else none
  | .clear =>
    match s.reset with
    | some .writes =>
      some
        { s with
          buffers := { s.buffers with writes := [] }
          reset := some .pendingBackendWrites }
    | some .pendingBackendWrites =>
      some
        { s with
          buffers := { s.buffers with pendingBackendWrites := [] }
          reset := some .pendingBytes }
    | some .pendingBytes =>
      some
        { s with
          pendingBytes := 0
          seqNum := 0
          buffers := { s.buffers with store := .new }
          reset := none }
    | none => none
  | _ => none

def step (s : State) : Act → Option State
  | .write block data =>
    if admitWrite env block data.length then
      let blockRequests := data.length / env.cfg.blockSize
      some
        { s with
          seqNum := s.seqNum + blockRequests
          buffers := ((List.range blockRequests).map
            (wholeWrite env.cfg block s.seqNum data)).foldl buffer s.buffers }
    else none
  | .flush results =>
    some { s with buffers := (Flushing.flush env.cfg env.useShardedWAL results s.buffers).1 }
  | .beginWriteAt id offset length => stepWriteAt env s (.beginWriteAt id offset length)
  | .publish id data => stepWriteAt env s (.publish id data)
  | .failWriteAt id => stepWriteAt env s (.failWriteAt id)
  | .count id => stepWriteAt env s (.count id)
  | .endWriteAt id => stepWriteAt env s (.endWriteAt id)
  | .beginReset => stepReset s .beginReset
  | .clear => stepReset s .clear
  | act => stepDrain env s act

end Step

/-- Bytes in both buffers. -/
def State.bufferedBytes (s : State) : Nat :=
  bufferSize s.buffers.writes + bufferSize s.buffers.pendingBackendWrites

/-- The counter as `PendingBytes` returns it. -/
def State.unsignedPendingBytes (s : State) : Nat :=
  (s.pendingBytes % 2 ^ 64).toNat

/-- No operation is in progress. -/
structure State.Idle (s : State) : Prop where
  writers : s.writers = ∅
  drain : s.drain = none
  reset : s.reset = none

/-- The call has buffered no block. -/
def wroteNothing : Option Writer → Bool
  | some (.publishing _ written) => written == 0
  | _ => true

/-- The steps that keep the account: no `Write` buffers a block, a `WriteAt` fails with its
first block if at all, and `Reset` has the volume to itself, apart from `Flush`. -/
def balanced (s : State) : Act → Bool
  | .write _ data => data.isEmpty
  | .failWriteAt id => wroteNothing (s.writers.lookup id)
  | .beginWriteAt .. | .beginDrain => s.reset.isNone
  | .beginReset => s.writers.entries.isEmpty && s.drain.isNone
  | _ => true

section Balance

variable {env : Env} {s t : State}

/-- Bytes a `WriteAt` has buffered and not counted yet. -/
def uncounted (blockSize : Nat) : Writer → Nat
  | .publishing _ written => written * blockSize
  | .waiting => 0

/-- Bytes of chunks that are out of the buffers and still counted. -/
def unreleased : Option Drain → Nat
  | some (.uploading _ freed _) => freed.sum
  | _ => 0

/-- What a `Reset` in progress has cleared so far is empty. -/
def Cleared (buffers : Buffers) : Option Reset → Prop
  | some .pendingBackendWrites => buffers.writes = []
  | some .pendingBytes => buffers.writes = [] ∧ buffers.pendingBackendWrites = []
  | _ => True

/-- The counter is right up to what is on its way. -/
def Agrees (env : Env) (s : State) : Prop :=
  s.pendingBytes + (FiniteMap.sumValues (uncounted env.cfg.blockSize) s.writers : Nat) =
    (s.bufferedBytes + unreleased s.drain : Nat)

structure Balanced (env : Env) (s : State) : Prop where
  agrees : s.reset = none → Agrees env s
  /-- A `Reset` has the volume to itself. -/
  alone : s.reset ≠ none → s.writers = ∅ ∧ s.drain = none
  cleared : Cleared s.buffers s.reset

theorem Balanced.init (env : Env) :
    Balanced env .init :=
  ⟨fun _ => rfl, fun h => absurd rfl h, trivial⟩

theorem Balanced.of_none (hreset : t.reset = none) (hagrees : Agrees env t) :
    Balanced env t := by
  refine ⟨fun _ => hagrees, fun h => absurd hreset h, ?_⟩
  rw [hreset]
  trivial

theorem Balanced.reset_of_writer (hs : Balanced env s) {id : Nat} {writer : Writer}
    (hwriter : s.writers.lookup id = some writer) :
    s.reset = none := by
  by_contra hreset
  rw [(hs.alone hreset).1, AList.lookup_empty] at hwriter
  cases hwriter

theorem Balanced.reset_of_drain (hs : Balanced env s) {drain : Drain}
    (hdrain : s.drain = some drain) :
    s.reset = none := by
  by_contra hreset
  rw [(hs.alone hreset).2] at hdrain
  cases hdrain

theorem Agrees.ofDrain (hagrees : Agrees env s) {drain : Option Drain}
    (hsame : unreleased s.drain = unreleased drain) :
    Agrees env { s with drain := drain } := by
  unfold Agrees at *
  rw [hsame] at hagrees
  exact hagrees

theorem Balanced.ofDrain (hs : Balanced env s) {drain : Drain} {next : Option Drain}
    (hdrain : s.drain = some drain) (hsame : unreleased (some drain) = unreleased next) :
    Balanced env { s with drain := next } := by
  have hreset := hs.reset_of_drain hdrain
  exact .of_none hreset ((hs.agrees hreset).ofDrain (hdrain ▸ hsame))

theorem bufferSize_filter (p : Block → Bool) (blocks : List Block) :
    bufferSize (blocks.filter p) + bufferSize (blocks.filter fun b => !p b) =
      bufferSize blocks := by
  unfold bufferSize
  induction blocks with
  | nil => rfl
  | cons b blocks ih =>
    cases hp : p b with
    | true =>
      simp only [List.filter_cons, hp, if_true, Bool.not_true, Bool.false_eq_true, if_false,
        List.map_cons, List.sum_cons]
      omega
    | false =>
      simp only [List.filter_cons, hp, if_true, Bool.not_false, Bool.false_eq_true, if_false,
        List.map_cons, List.sum_cons]
      omega

theorem bufferedBytes_flush (env : Env) (results : Nat → Nat → Append) (s : Buffers) :
    bufferSize (flush env.cfg env.useShardedWAL results s).1.writes +
        bufferSize (flush env.cfg env.useShardedWAL results s).1.pendingBackendWrites =
      bufferSize s.writes + bufferSize s.pendingBackendWrites := by
  rw [flush_eq, flushShards_eq]
  dsimp only
  have hsplit := bufferSize_filter (fun b =>
    (flushedBy (layoutOf env.cfg env.useShardedWAL) results s).any (·.block == b.block)) s.writes
  rw [bufferSize_append]
  omega

theorem Cleared.flush (env : Env) (results : Nat → Nat → Append)
    {s : Buffers} {reset : Option Reset} (hs : Cleared s reset) :
    Cleared (flush env.cfg env.useShardedWAL results s).1 reset := by
  rw [flush_eq]
  cases reset with
  | none => trivial
  | some reset =>
    cases reset with
    | writes => trivial
    | pendingBackendWrites =>
      unfold Cleared flushShards at *
      rw [hs]
      rfl
    | pendingBytes =>
      unfold Cleared flushShards at *
      rw [hs.1, hs.2]
      exact ⟨rfl, rfl⟩

theorem Balanced.flush (hs : Balanced env s) (results : Nat → Nat → Append) :
    Balanced env { s with
      buffers := (flush env.cfg env.useShardedWAL results s.buffers).1 } := by
  refine ⟨fun hreset => ?_, hs.alone, hs.cleared.flush env results⟩
  have hagrees := hs.agrees hreset
  unfold Agrees State.bufferedBytes at *
  dsimp only
  rw [bufferedBytes_flush]
  exact hagrees

theorem Balanced.stepWriteAt (hs : Balanced env s) {act : Act} (hact : balanced s act = true)
    (hstep : stepWriteAt env s act = some t) :
    Balanced env t := by
  revert hact hstep
  fun_cases Accounting.stepWriteAt env s act <;> intro hact hstep <;> cases hstep
  · rename_i hadmitted
    have hreset : s.reset = none := Option.isNone_iff_eq_none.mp hact
    have hagrees := hs.agrees hreset
    refine .of_none hreset ?_
    unfold Agrees State.bufferedBytes at *
    dsimp only
    rw [FiniteMap.sumValues_insert_new _ _ hadmitted.1, uncounted, Nat.zero_mul, Nat.zero_add]
    exact hagrees
  all_goals
    have hreset := hs.reset_of_writer ‹s.writers.lookup _ = _›
    have hagrees := hs.agrees hreset
    refine .of_none hreset ?_
    unfold Agrees State.bufferedBytes at *
    rw [FiniteMap.sumValues_of_lookup ‹_›] at hagrees
  · rename_i hdata
    dsimp only [buffer]
    rw [FiniteMap.sumValues_insert, bufferSize_append]
    simp only [uncounted, bufferSize, List.map_cons, List.map_nil, List.sum_cons,
      List.sum_nil, hdata, Nat.add_mul] at hagrees ⊢
    omega
  · rename_i id _ _ written hwriter
    have hzero : written = 0 := by
      simp only [balanced, hwriter, wroteNothing] at hact
      exact beq_iff_eq.mp hact
    rw [hzero, uncounted, Nat.zero_mul, Nat.zero_add] at hagrees
    exact hagrees
  · dsimp only
    rw [FiniteMap.sumValues_insert]
    simp only [uncounted] at hagrees ⊢
    omega
  · rw [uncounted, Nat.zero_add] at hagrees
    exact hagrees

theorem sum_eraseIdx {l : List Nat} {i n : Nat} (hn : l[i]? = some n) :
    n + (l.eraseIdx i).sum = l.sum := by
  obtain ⟨hlt, rfl⟩ := List.getElem?_eq_some_iff.mp hn
  rw [← (List.getElem_cons_eraseIdx_perm hlt).sum_nat, List.sum_cons]

theorem Balanced.stepDrain (hs : Balanced env s) {act : Act} (hact : balanced s act = true)
    (hstep : stepDrain env s act = some t) :
    Balanced env t := by
  revert hact hstep
  fun_cases Accounting.stepDrain env s act <;> intro hact hstep <;> cases hstep
  · rename_i hidle
    have hreset : s.reset = none := Option.isNone_iff_eq_none.mp hact
    exact .of_none hreset ((hs.agrees hreset).ofDrain (by rw [hidle]; rfl))
  · rename_i results hdrain flushed
    have hreset := hs.reset_of_drain hdrain
    refine .of_none hreset (((hs.flush results).agrees hreset).ofDrain ?_)
    dsimp only
    rw [hdrain]
    split <;> rfl
  · exact hs.ofDrain ‹_› (by rfl)
  · exact hs.ofDrain ‹_› (by rfl)
  · rename_i jobs freed failed hdrain matched hmatched
    have hreset := hs.reset_of_drain hdrain
    have hagrees := hs.agrees hreset
    have hsplit := bufferSize_filter (fun b => matched.contains b.block)
      s.buffers.pendingBackendWrites
    refine .of_none hreset ?_
    unfold Agrees State.bufferedBytes at *
    rw [hdrain] at hagrees
    simp only [unreleased, dropMatched, freedBytes, List.sum_cons] at hagrees ⊢
    omega
  · exact hs.ofDrain ‹_› (by rfl)
  · rename_i jobs freed failed hdrain bytes hbytes
    have hreset := hs.reset_of_drain hdrain
    have hagrees := hs.agrees hreset
    have hsum := sum_eraseIdx hbytes
    refine .of_none hreset ?_
    unfold Agrees State.bufferedBytes at *
    rw [hdrain] at hagrees
    simp only [unreleased] at hagrees ⊢
    omega
  · exact hs.ofDrain ‹_› (by rfl)

theorem Balanced.stepReset (hs : Balanced env s) {act : Act} (hact : balanced s act = true)
    (hstep : stepReset s act = some t) :
    Balanced env t := by
  revert hact hstep
  fun_cases Accounting.stepReset s act <;> intro hact hstep <;> cases hstep
  · obtain ⟨hwriters, hdrain⟩ := Bool.and_eq_true_iff.mp hact
    refine ⟨nofun, fun _ => ⟨?_, Option.isNone_iff_eq_none.mp hdrain⟩, trivial⟩
    exact AList.ext (List.isEmpty_iff.mp hwriters)
  all_goals
    rename_i hreset
    have hcleared := hs.cleared
    have halone := hs.alone (by rw [hreset]; nofun)
    rw [hreset] at hcleared
  · exact ⟨nofun, fun _ => halone, rfl⟩
  · exact ⟨nofun, fun _ => halone, hcleared, rfl⟩
  · refine .of_none rfl ?_
    unfold Agrees State.bufferedBytes
    rw [halone.1, halone.2, hcleared.1, hcleared.2]
    rfl

theorem Balanced.step (hs : Balanced env s) {act : Act} (hact : balanced s act = true)
    (hstep : step env s act = some t) :
    Balanced env t := by
  cases act with
  | write block data =>
    obtain ⟨-, hstep⟩ := Option.ite_none_right_eq_some.mp hstep
    cases hstep
    obtain rfl := List.isEmpty_iff.mp hact
    rw [List.length_nil, Nat.zero_div]
    exact hs
  | flush results =>
    cases hstep
    exact hs.flush results
  | beginWriteAt | publish | failWriteAt | count | endWriteAt =>
    exact hs.stepWriteAt hact hstep
  | beginReset | clear =>
    exact hs.stepReset hact hstep
  | beginDrain | drainFlush | rotate | failRotate | upload | failUpload | release | endDrain =>
    exact hs.stepDrain hact hstep

end Balance

section Outcome

/-- In every run of balanced steps the counter is the number of buffered bytes whenever
no operation is in progress. -/
theorem pendingBytes_eq_bufferedBytes (env : Env) {acts : List Act} {s : State}
    (hrun : Run (step env) (fun s act => balanced s act = true) .init acts s) (hidle : s.Idle) :
    s.pendingBytes = s.bufferedBytes ∧ 0 ≤ s.pendingBytes ∧
      s.unsignedPendingBytes = s.bufferedBytes % 2 ^ 64 := by
  have hbalanced : Balanced env s :=
    hrun.preserves (fun _ _ _ hs hact hstep => hs.step hact hstep) (Balanced.init env)
  have hagrees := hbalanced.agrees hidle.reset
  have hcounter : s.pendingBytes = s.bufferedBytes := by
    unfold Agrees at hagrees
    rw [hidle.writers, hidle.drain] at hagrees
    simpa [FiniteMap.sumValues, unreleased] using hagrees
  refine ⟨hcounter, hcounter ▸ Int.natCast_nonneg _, ?_⟩
  unfold State.unsignedPendingBytes
  rw [hcounter]
  exact Int.toNat_natCast _

/-- A volume of sixteen one-byte blocks. -/
def byteEnv : Env := ⟨Config.tiny, 16, false⟩

def allAppended : Nat → Nat → Append := fun _ _ => .ok

/-- A `WriteAt` of two blocks, the first of which is drained before the second is there. -/
def drainedHalfWay : List Act :=
  [.beginWriteAt 0 0 2, .publish 0 [7], .beginDrain, .drainFlush allAppended, .rotate [[0]],
    .upload 0, .release 0, .endDrain, .publish 0 [8], .count 0, .endWriteAt 0]

theorem exists_idle_of_exec (env : Env) (allowed : State → Act → Prop)
    [∀ s act, Decidable (allowed s act)] (acts : List Act) (p : State → Bool)
    (hexec : (exec (step env) allowed .init acts).any (fun s => s.writers.entries.isEmpty &&
      s.drain.isNone && s.reset.isNone && p s) = true) :
    ∃ s, Run (step env) allowed .init acts s ∧ s.Idle ∧ p s = true := by
  obtain ⟨s, hrun, hs⟩ := Run.exists_of_exec (step env) allowed .init acts _ hexec
  simp only [Bool.and_eq_true, List.isEmpty_iff, Option.isNone_iff_eq_none] at hs
  exact ⟨s, hrun, ⟨AList.ext hs.1.1.1, hs.1.1.2, hs.1.2⟩, hs.2⟩

theorem pendingBytes_drainedHalfWay :
    ∃ s, Run (step byteEnv) (fun s act => balanced s act = true) .init drainedHalfWay s ∧
      s.Idle ∧ s.bufferedBytes = 1 ∧ s.pendingBytes = s.bufferedBytes ∧ 0 ≤ s.pendingBytes ∧
      s.unsignedPendingBytes = s.bufferedBytes % 2 ^ 64 := by
  obtain ⟨s, hrun, hidle, hs⟩ := exists_idle_of_exec byteEnv (fun s act => balanced s act = true)
    drainedHalfWay (fun s => s.bufferedBytes == 1) (by decide +kernel)
  exact ⟨s, hrun, hidle, beq_iff_eq.mp hs, pendingBytes_eq_bufferedBytes byteEnv hrun hidle⟩

/-- One block from `Write`, drained. -/
def writeAndDrain : List Act :=
  [.write 0 [7], .beginDrain, .drainFlush allAppended, .rotate [[0]], .upload 0, .release 0,
    .endDrain]

/-- A `WriteAt` of two blocks that cannot read the second one. -/
def failHalfWay : List Act :=
  [.beginWriteAt 0 0 2, .publish 0 [7], .failWriteAt 0]

/-- A `WriteAt` that counts its block after a `Reset` has thrown it away. -/
def resetHalfWay : List Act :=
  [.beginWriteAt 0 0 1, .publish 0 [7], .beginReset, .clear, .clear, .clear, .count 0,
    .endWriteAt 0]

/-- Nothing is buffered and the counter is negative, one below zero for a block of one byte
from `Write`; a byte is buffered and not counted; a byte is counted and not buffered. -/
theorem pendingBytes_unbalanced :
    (∃ s, Run (step byteEnv) (fun _ _ => True) .init writeAndDrain s ∧ s.Idle ∧
        s.bufferedBytes = 0 ∧ s.pendingBytes = -1 ∧ s.unsignedPendingBytes = 2 ^ 64 - 1) ∧
      (∃ s, Run (step byteEnv) (fun _ _ => True) .init failHalfWay s ∧ s.Idle ∧
        s.bufferedBytes = 1 ∧ s.pendingBytes = 0) ∧
      ∃ s, Run (step byteEnv) (fun _ _ => True) .init resetHalfWay s ∧ s.Idle ∧
        s.bufferedBytes = 0 ∧ s.pendingBytes = 1 := by
  refine ⟨?_, ?_, ?_⟩
  · obtain ⟨s, hrun, hidle, hs⟩ := exists_idle_of_exec byteEnv (fun _ _ => True) writeAndDrain
      (fun s => s.bufferedBytes = 0 ∧ s.pendingBytes = -1 ∧
        s.unsignedPendingBytes = 2 ^ 64 - 1) (by decide +kernel)
    exact ⟨s, hrun, hidle, of_decide_eq_true hs⟩
  · obtain ⟨s, hrun, hidle, hs⟩ := exists_idle_of_exec byteEnv (fun _ _ => True) failHalfWay
      (fun s => s.bufferedBytes = 1 ∧ s.pendingBytes = 0) (by decide +kernel)
    exact ⟨s, hrun, hidle, of_decide_eq_true hs⟩
  · obtain ⟨s, hrun, hidle, hs⟩ := exists_idle_of_exec byteEnv (fun _ _ => True) resetHalfWay
      (fun s => s.bufferedBytes = 0 ∧ s.pendingBytes = 1) (by decide +kernel)
    exact ⟨s, hrun, hidle, of_decide_eq_true hs⟩

end Outcome

end Accounting

end Viperblock
