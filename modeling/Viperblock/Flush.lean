import Mathlib.Data.List.Count
import Mathlib.Logic.Function.Basic
import Viperblock.Lib.GuardedRun
import Viperblock.BlockStore
import Viperblock.Lib.FiniteMap
import Viperblock.Wal

/-!
# Flushing the write buffer

`Flush` appends every buffered write to the log, a single file or, with the sharded log,
one of sixteen files by block number, and stops at the first append to a file that
fails.  What was appended is then taken out of the buffer and handed to the pending
backend writes, and its block is marked as pending in the block store.

The log holds one record a write; the buffer may hold several writes of one block.
What leaves the buffer is decided by block number alone: with a version of a block every
other version leaves too, also one that was not appended.  `keepsVersions` is the
condition that there is no such version.

A failed append may leave part of its record in the file.  The single log is cut back
then, the sharded log is not, and nothing that is appended behind a torn record can be
read again.
-/

namespace Viperblock

namespace Flushing

open GuardedRun

/-- What became of an append. -/
inductive Append
  | ok
  /-- An error, and `left` bytes of the record are still in the file. -/
  | failed (left : Nat)
deriving DecidableEq, Repr

/-- A part of a log file behind its header. -/
inductive Piece
  | record (b : Block)
  | torn (b : Block) (length : Nat)
deriving DecidableEq, Repr

section Files

/-- No torn record is in the file. -/
def aligned (file : List Piece) : Bool :=
  file.all fun
    | .record _ => true
    | .torn _ _ => false

/-- The records of a file that can be read: those before a torn one. -/
def loggedRecords : List Piece → List Block
  | .record b :: rest => b :: loggedRecords rest
  | _ => []

theorem loggedRecords_append (file more : List Piece) :
    loggedRecords (file ++ more) =
      loggedRecords file ++ if aligned file then loggedRecords more else [] := by
  induction file with
  | nil => simp [loggedRecords, aligned]
  | cons piece file ih =>
    cases piece with
    | record b =>
      simp only [List.cons_append, loggedRecords, ih]
      rfl
    | torn b length => simp [loggedRecords, aligned]

end Files

/-- How the log is spread over files. -/
structure Layout where
  /-- Length of the record of a write. -/
  length : Block → Nat
  /-- The file of a block. -/
  route : Nat → Nat
  shards : List Nat
  nodup : shards.Nodup
  routed : ∀ block, route block ∈ shards

namespace Layout

/-- One file, plain or encrypted. -/
def single (cfg : Config) : Layout where
  length b := (cfg.walRecord b).length
  route _ := 0
  shards := [0]
  nodup := by decide
  routed _ := List.mem_singleton.mpr rfl

/-- The sharded log, whose records are always plain. -/
def sharded : Layout where
  length b := 28 + b.data.length
  route block := block % numShards
  shards := List.range numShards
  nodup := List.nodup_range
  routed block := List.mem_range.mpr (Nat.mod_lt block (by decide))

end Layout

structure Buffers where
  writes : List Block
  pendingBackendWrites : List Block
  store : UnifiedBlockStore
  /-- The log files. -/
  files : Nat → List Piece
  /-- Every write that was ever buffered. -/
  appended : List Block

/-- Nothing is buffered or logged. -/
def Buffers.new : Buffers := ⟨[], [], .new, fun _ => [], []⟩

section Flush

variable (layout : Layout)

/-- What a failed append leaves in the file. -/
def leftover (b : Block) (left : Nat) : List Piece :=
  if left = 0 then []
  else if layout.length b ≤ left then [.record b]
  else [.torn b left]

/-- The state of the loop over the writes of one file. -/
structure Loop where
  file : List Piece
  store : UnifiedBlockStore
  flushed : List Block
  failed : Bool

/-- Append one write after the other; `results` says how the appends to the file go. -/
def flushLoop (results : Nat → Append) : Nat → List Block → Loop → Loop
  | _, [], loop => loop
  | i, b :: rest, loop =>
    match results i with
    | .failed left =>
      { loop with file := loop.file ++ leftover layout b left, failed := true }
    | .ok =>
      flushLoop results (i + 1) rest
        { loop with
          file := loop.file ++ [.record b]
          store := loop.store.markPending b.block
          flushed := loop.flushed ++ [b] }

/-- What the loops over the files have done so far. -/
structure Progress where
  files : Nat → List Piece
  store : UnifiedBlockStore
  flushed : List Block
  failed : Bool

/-- The writes that go to a file. -/
def shardGroup (writes : List Block) (shard : Nat) : List Block :=
  writes.filter fun b => layout.route b.block == shard

def flushShard (writes : List Block) (results : Nat → Nat → Append) (p : Progress)
    (shard : Nat) : Progress :=
  let loop := flushLoop layout (results shard) 0 (shardGroup layout writes shard)
    ⟨p.files shard, p.store, [], false⟩
  { files := Function.update p.files shard loop.file
    store := loop.store
    flushed := p.flushed ++ loop.flushed
    failed := p.failed || loop.failed }

/-- Flush to all files, and say whether no append failed. -/
def flushShards (results : Nat → Nat → Append) (s : Buffers) : Buffers × Bool :=
  let p := layout.shards.foldl (flushShard layout s.writes results)
    ⟨s.files, s.store, [], false⟩
  let isFlushed := fun (b : Block) => p.flushed.any (·.block == b.block)
  ({ s with
      writes := s.writes.filter fun b => !isFlushed b
      pendingBackendWrites := s.pendingBackendWrites ++ s.writes.filter isFlushed
      store := p.store
      files := p.files }, !p.failed)

def flushLocked (cfg : Config) (results : Nat → Nat → Append) (s : Buffers) :
    Buffers × Bool :=
  flushShards (.single cfg) results s

def flushLockedSharded (results : Nat → Nat → Append) (s : Buffers) : Buffers × Bool :=
  flushShards .sharded results s

/-- The layout of the engine's log. -/
def layoutOf (cfg : Config) (useShardedWAL : Bool) : Layout :=
  if useShardedWAL then .sharded else .single cfg

/-- `Flush`; the result of append `i` to file `f` is `results f i`. -/
def flush (cfg : Config) (useShardedWAL : Bool) (results : Nat → Nat → Append)
    (s : Buffers) : Buffers × Bool :=
  if useShardedWAL then flushLockedSharded results s else flushLocked cfg results s

theorem flush_eq
    (cfg : Config) (useShardedWAL : Bool) (results : Nat → Nat → Append) (s : Buffers) :
    flush cfg useShardedWAL results s = flushShards (layoutOf cfg useShardedWAL) results s := by
  cases useShardedWAL <;> rfl

end Flush

section Effect

variable (layout : Layout) (results : Nat → Append)

/-- The writes whose append succeeds. -/
def flushedOf : Nat → List Block → List Block
  | _, [] => []
  | i, b :: rest =>
    match results i with
    | .failed _ => []
    | .ok => b :: flushedOf (i + 1) rest

/-- The writes that get no record of their own. -/
def unlogged : Nat → List Block → List Block
  | _, [] => []
  | i, b :: rest =>
    match results i with
    | .failed left => if left ≠ 0 ∧ layout.length b ≤ left then rest else b :: rest
    | .ok => unlogged (i + 1) rest

/-- What the loop appends to its file. -/
def loopTail : Nat → List Block → List Piece
  | _, [] => []
  | i, b :: rest =>
    match results i with
    | .failed left => leftover layout b left
    | .ok => .record b :: loopTail (i + 1) rest

/-- Some append of the loop fails. -/
def loopFails : Nat → List Block → Bool
  | _, [] => false
  | i, _ :: rest =>
    match results i with
    | .failed _ => true
    | .ok => loopFails (i + 1) rest

variable {layout results}

/-- The loop appends to its file and marks what it has appended. -/
theorem flushLoop_eq (i : Nat) (blocks : List Block) (loop : Loop) :
    flushLoop layout results i blocks loop =
      { file := loop.file ++ loopTail layout results i blocks
        store := (flushedOf results i blocks).foldl (fun store b => store.markPending b.block)
          loop.store
        flushed := loop.flushed ++ flushedOf results i blocks
        failed := loop.failed || loopFails results i blocks } := by
  induction blocks generalizing i loop with
  | nil => simp [flushLoop, loopTail, flushedOf, loopFails]
  | cons b rest ih =>
    unfold flushLoop loopTail flushedOf loopFails
    cases results i with
    | failed left => simp
    | ok => simp [ih]

theorem count_loopTail (i : Nat) (blocks : List Block) (b : Block) :
    (loggedRecords (loopTail layout results i blocks)).count b +
      (unlogged layout results i blocks).count b = blocks.count b := by
  induction blocks generalizing i with
  | nil => rfl
  | cons c rest ih =>
    unfold loopTail unlogged
    cases results i with
    | failed left =>
      unfold leftover
      by_cases hzero : left = 0
      · simp [hzero, loggedRecords]
      · by_cases hwhole : layout.length c ≤ left
        · simp only [hzero, hwhole, if_true, if_false, ne_eq, not_false_eq_true, and_self,
            loggedRecords, List.count_cons, List.count_nil]
          omega
        · simp [hzero, hwhole, loggedRecords]
    | ok =>
      have hrest := ih (i + 1)
      simp only [loggedRecords, List.count_cons]
      omega

theorem flushedOf_sublist (i : Nat) (blocks : List Block) :
    (flushedOf results i blocks).Sublist blocks := by
  induction blocks generalizing i with
  | nil => exact List.Sublist.refl _
  | cons b rest ih =>
    unfold flushedOf
    cases results i with
    | failed left => exact List.nil_sublist _
    | ok => exact (ih (i + 1)).cons_cons b

theorem unlogged_sublist (i : Nat) (blocks : List Block) :
    (unlogged layout results i blocks).Sublist blocks := by
  induction blocks generalizing i with
  | nil => exact List.Sublist.refl _
  | cons b rest ih =>
    unfold unlogged
    cases results i with
    | failed left =>
      dsimp only
      split
      · exact List.sublist_cons_self b rest
      · exact List.Sublist.refl _
    | ok => exact (ih (i + 1)).cons b

theorem flushedOf_of_not_fails {i : Nat} {blocks : List Block}
    (hok : loopFails results i blocks = false) :
    flushedOf results i blocks = blocks := by
  induction blocks generalizing i with
  | nil => rfl
  | cons b rest ih =>
    unfold loopFails at hok
    unfold flushedOf
    cases hresult : results i with
    | failed left => simp [hresult] at hok
    | ok =>
      simp only [hresult] at hok
      simp only [ih hok]

end Effect

section Calls

variable (layout : Layout) (results : Nat → Nat → Append) (s : Buffers)

/-- The writes that a call appends to a file. -/
def flushedTo (shard : Nat) : List Block :=
  flushedOf (results shard) 0 (shardGroup layout s.writes shard)

/-- The writes for a file that a call leaves without a record. -/
def unloggedTo (shard : Nat) : List Block :=
  unlogged layout (results shard) 0 (shardGroup layout s.writes shard)

/-- What is appended to a file. -/
def tailOf (shard : Nat) : List Piece :=
  loopTail layout (results shard) 0 (shardGroup layout s.writes shard)

/-- All writes that a call appends. -/
def flushedBy : List Block :=
  layout.shards.flatMap (flushedTo layout results s)

/-- Records of the write in the file it belongs to. -/
def logged (b : Block) : Nat :=
  (loggedRecords (s.files (layout.route b.block))).count b

/-- No version of a block leaves the buffer without a record, and no record is appended
behind a torn one. -/
def keepsVersions : Bool :=
  layout.shards.all fun shard =>
    (flushedTo layout results s shard).isEmpty ||
      (aligned (s.files shard) &&
        (unloggedTo layout results s shard).all fun b =>
          !(flushedTo layout results s shard).any (·.block == b.block))

variable {layout results s}

/-- The loops over files that are all different do not meet. -/
theorem foldl_flushShard {shards : List Nat} (hnodup : shards.Nodup)
    (writes : List Block) (p : Progress) :
    shards.foldl (flushShard layout writes results) p =
      { files := fun shard =>
          if shard ∈ shards then
            p.files shard ++ loopTail layout (results shard) 0 (shardGroup layout writes shard)
          else p.files shard
        store := (shards.flatMap fun shard =>
            flushedOf (results shard) 0 (shardGroup layout writes shard)).foldl
          (fun store b => store.markPending b.block) p.store
        flushed := p.flushed ++ shards.flatMap fun shard =>
          flushedOf (results shard) 0 (shardGroup layout writes shard)
        failed := p.failed || shards.any fun shard =>
          loopFails (results shard) 0 (shardGroup layout writes shard) } := by
  induction shards generalizing p with
  | nil => simp
  | cons shard shards ih =>
    obtain ⟨hnotin, hnodup⟩ := List.nodup_cons.mp hnodup
    rw [List.foldl_cons, ih hnodup, flushShard, flushLoop_eq]
    simp only [List.nil_append, Bool.false_or, List.flatMap_cons, List.foldl_append,
      List.append_assoc, List.any_cons, Bool.or_assoc, Progress.mk.injEq, and_true]
    funext other
    by_cases hother : other = shard
    · subst hother
      simp [hnotin]
    · simp [hother]

theorem flushShards_eq (layout : Layout) (results : Nat → Nat → Append) (s : Buffers) :
    flushShards layout results s = ({ s with
          writes := s.writes.filter fun b =>
            !(flushedBy layout results s).any (·.block == b.block)
          pendingBackendWrites := s.pendingBackendWrites ++ s.writes.filter fun b =>
            (flushedBy layout results s).any (·.block == b.block)
          store := (flushedBy layout results s).foldl
            (fun store b => store.markPending b.block) s.store
          files := fun shard =>
            if shard ∈ layout.shards then s.files shard ++ tailOf layout results s shard
            else s.files shard },
        !layout.shards.any fun shard =>
          loopFails (results shard) 0 (shardGroup layout s.writes shard)) := by
  unfold flushShards
  rw [foldl_flushShard layout.nodup]
  rfl

theorem route_of_mem_flushedTo {shard : Nat} {b : Block}
    (hb : b ∈ flushedTo layout results s shard) :
    b ∈ s.writes ∧ layout.route b.block = shard := by
  have hmem := (flushedOf_sublist 0 _).subset hb
  simpa [shardGroup] using hmem

theorem route_of_mem_unloggedTo {shard : Nat} {b : Block}
    (hb : b ∈ unloggedTo layout results s shard) :
    b ∈ s.writes ∧ layout.route b.block = shard := by
  have hmem := (unlogged_sublist 0 _).subset hb
  simpa [shardGroup] using hmem

theorem any_flushedBy (block : Nat) :
    (flushedBy layout results s).any (·.block == block) =
      (flushedTo layout results s (layout.route block)).any (·.block == block) := by
  rw [Bool.eq_iff_iff, List.any_eq_true, List.any_eq_true]
  constructor
  · rintro ⟨b, hb, hblock⟩
    obtain ⟨shard, -, hb⟩ := List.mem_flatMap.mp hb
    rw [beq_iff_eq] at hblock
    subst hblock
    rw [(route_of_mem_flushedTo hb).2]
    exact ⟨b, hb, beq_self_eq_true _⟩
  · rintro ⟨b, hb, hblock⟩
    exact ⟨b, List.mem_flatMap.mpr ⟨_, layout.routed block, hb⟩, hblock⟩

theorem count_writes_flushShards (b : Block) :
    (flushShards layout results s).1.writes.count b =
      if (flushedBy layout results s).any (·.block == b.block) then 0
      else s.writes.count b := by
  rw [flushShards_eq]
  cases hflushed : (flushedBy layout results s).any (·.block == b.block) with
  | true =>
    rw [if_pos rfl, List.count_eq_zero]
    simp [List.mem_filter, hflushed]
  | false => exact List.count_filter (by simp [hflushed])

theorem logged_flushShards (b : Block) :
    logged layout (flushShards layout results s).1 b = logged layout s b +
        if aligned (s.files (layout.route b.block)) then
          (loggedRecords (tailOf layout results s (layout.route b.block))).count b
        else 0 := by
  unfold logged
  rw [flushShards_eq]
  simp only [layout.routed, if_true, loggedRecords_append, List.count_append]
  split <;> rfl

/-- Where the file can be read to its end, every write for it is accounted for. -/
theorem count_tailOf (b : Block) :
    (loggedRecords (tailOf layout results s (layout.route b.block))).count b +
      (unloggedTo layout results s (layout.route b.block)).count b = s.writes.count b := by
  have hgroup : (shardGroup layout s.writes (layout.route b.block)).count b =
      s.writes.count b := List.count_filter (by simp)
  rw [← hgroup]
  exact count_loopTail 0 _ b

end Calls

section Keeps

variable (layout : Layout) (s t : Buffers)

/-- Every buffered write has got a record of its own, or is still buffered. -/
def Kept : Prop :=
  ∀ b, s.writes.count b + logged layout s b ≤ t.writes.count b + logged layout t b

/-- A version that was marked as pending is in the log. -/
def PendingLogged : Prop :=
  ∀ block entry, t.store.entries.lookup block = some entry → entry.state = .pending →
    s.store.entries.lookup block = some entry ∨
      ∃ b, b.block = block ∧ b.seqNum = entry.seqNum ∧ b.data = entry.data ∧ 0 < logged layout t b

/-- What a flush from `s` to `t` has to keep. -/
def FlushKeeps : Prop :=
  Kept layout s t ∧ PendingLogged layout s t

/-- The versions in memory that are not pending were buffered, and are still buffered or
in the log. -/
structure Backed : Prop where
  acknowledged : ∀ b ∈ s.appended, 0 < s.writes.count b + logged layout s b
  hot : ∀ block entry, s.store.entries.lookup block = some entry → entry.state = .hot →
    ∃ b ∈ s.appended, b.block = block ∧ b.seqNum = entry.seqNum ∧ b.data = entry.data

variable {layout s t} {results : Nat → Nat → Append}

theorem kept_iff :
    Kept layout s (flushShards layout results s).1 ↔ keepsVersions layout results s = true := by
  unfold Kept keepsVersions
  rw [List.all_eq_true]
  constructor
  · intro hkept shard hshard
    rw [Bool.or_eq_true, List.isEmpty_iff, Bool.and_eq_true, List.all_eq_true]
    by_cases hnone : flushedTo layout results s shard = []
    · exact .inl hnone
    right
    obtain ⟨f, hf⟩ := List.exists_mem_of_ne_nil _ hnone
    obtain ⟨hwrite, rfl⟩ := route_of_mem_flushedTo hf
    have hlost : ∀ b : Block,
        (flushedTo layout results s (layout.route b.block)).any (·.block == b.block) = true →
        s.writes.count b ≤ if aligned (s.files (layout.route b.block)) then
            (loggedRecords (tailOf layout results s (layout.route b.block))).count b
          else 0 := by
      intro b hb
      have hcount := hkept b
      rw [count_writes_flushShards, any_flushedBy, hb, if_pos rfl, logged_flushShards] at hcount
      omega
    have haligned : aligned (s.files (layout.route f.block)) = true := by
      by_contra htorn
      have hcount := hlost f (List.any_eq_true.mpr ⟨f, hf, beq_self_eq_true _⟩)
      rw [if_neg htorn] at hcount
      have hpos := List.count_pos_iff.mpr hwrite
      omega
    refine ⟨haligned, fun b hb => ?_⟩
    obtain ⟨-, hroute⟩ := route_of_mem_unloggedTo hb
    rw [Bool.not_eq_true', Bool.eq_false_iff]
    intro hflushed
    rw [← hroute] at hflushed hb haligned
    have hcount := hlost b hflushed
    rw [if_pos haligned] at hcount
    have htail := @count_tailOf layout results s b
    have hpos := List.count_pos_iff.mpr hb
    omega
  · intro hcond b
    rw [count_writes_flushShards, any_flushedBy, logged_flushShards]
    have hshard := hcond _ (layout.routed b.block)
    rw [Bool.or_eq_true, List.isEmpty_iff, Bool.and_eq_true, List.all_eq_true] at hshard
    cases hflushed : (flushedTo layout results s (layout.route b.block)).any
        (·.block == b.block) with
    | false =>
      rw [if_neg Bool.false_ne_true]
      omega
    | true =>
      rcases hshard with hnone | ⟨haligned, hunlogged⟩
      · simp [hnone] at hflushed
      · have hnone : (unloggedTo layout results s (layout.route b.block)).count b = 0 := by
          refine List.count_eq_zero.mpr fun hb => ?_
          have hnot := hunlogged b hb
          rw [hflushed] at hnot
          cases hnot
        have htail := @count_tailOf layout results s b
        rw [if_pos haligned]
        omega

theorem lookup_foldl_markPending
    {flushed : List Block} {store : UnifiedBlockStore} {block : Nat} {entry : BlockEntry}
    (hentry : (flushed.foldl (fun store b => store.markPending b.block) store).entries.lookup
      block = some entry) :
    store.entries.lookup block = some entry ∨
      ∃ old, store.entries.lookup block = some old ∧ old.state = .hot ∧
        entry = { old with state := .pending } ∧ flushed.any (·.block == block) = true := by
  induction flushed generalizing store with
  | nil => exact .inl hentry
  | cons b flushed ih =>
    have hmark : ∀ {e : BlockEntry}, (store.markPending b.block).entries.lookup block = some e →
        store.entries.lookup block = some e ∨
          ∃ old, store.entries.lookup block = some old ∧ old.state = .hot ∧
            e = { old with state := .pending } ∧ b.block = block := by
      intro e he
      unfold UnifiedBlockStore.markPending at he
      split at he
      case h_1 old hold =>
          split at he
          case isTrue hhot =>
              rcases FiniteMap.lookup_insert_eq_some he with ⟨rfl, rfl⟩ | he
              · exact .inr ⟨old, hold, hhot, rfl, rfl⟩
              · exact .inl he
          case isFalse =>
              exact .inl he
      case h_2 =>
          exact .inl he
    rcases ih hentry with hsame | ⟨old, hold, hhot, rfl, hany⟩
    · rcases hmark hsame with hsame | ⟨old, hold, hhot, rfl, rfl⟩
      · exact .inl hsame
      · exact .inr ⟨old, hold, hhot, rfl, by simp⟩
    · rcases hmark hold with hsame | ⟨older, -, -, rfl, -⟩
      · refine .inr ⟨old, hsame, hhot, rfl, ?_⟩
        rw [List.any_cons, hany, Bool.or_true]
      · cases hhot

theorem pendingLogged_of_kept (hbacked : Backed layout s)
    (hkept : Kept layout s (flushShards layout results s).1) :
    PendingLogged layout s (flushShards layout results s).1 := by
  intro block entry hentry hpending
  have hstore := hentry
  rw [flushShards_eq] at hstore
  rcases lookup_foldl_markPending hstore with hsame | ⟨old, hold, hhot, rfl, hany⟩
  · exact .inl hsame
  · obtain ⟨b, hb, rfl, hseqNum, hdata⟩ := hbacked.hot block old hold hhot
    refine .inr ⟨b, rfl, hseqNum, hdata, ?_⟩
    have hcount := hkept b
    have hpos := hbacked.acknowledged b hb
    rw [count_writes_flushShards, hany, if_pos rfl] at hcount
    omega

end Keeps

section Runs

inductive Act
  /-- A write is appended to the buffer. -/
  | append (b : Block)
  /-- A buffered write is published in the block store. -/
  | publish (b : Block)
  | flush (results : Nat → Nat → Append)

variable (cfg : Config) (useShardedWAL : Bool)

def step (s : Buffers) : Act → Option Buffers
  | .append b => some { s with writes := s.writes ++ [b], appended := s.appended ++ [b] }
  | .publish b =>
    if b ∈ s.appended then
      some { s with store := s.store.writeWithSeqNum b.block b.data b.seqNum }
    else none
  | .flush results => some (flush cfg useShardedWAL results s).1

/-- Every flush keeps the versions it does not append. -/
def allowed (s : Buffers) : Act → Bool
  | .flush results => keepsVersions (layoutOf cfg useShardedWAL) results s
  | _ => true

variable {cfg useShardedWAL} {s t : Buffers}

theorem Backed.append {layout : Layout} (h : Backed layout s) (b : Block) :
    Backed layout { s with writes := s.writes ++ [b], appended := s.appended ++ [b] } := by
  refine ⟨fun c hc => ?_, fun block entry hentry hhot => ?_⟩
  · rw [List.count_append]
    rcases List.mem_append.mp hc with hc | hc
    · have hpos := h.acknowledged c hc
      have hlogged : logged layout { s with
          writes := s.writes ++ [b], appended := s.appended ++ [b] } c = logged layout s c := rfl
      omega
    · obtain rfl := List.mem_singleton.mp hc
      simp
  · obtain ⟨c, hc, hversion⟩ := h.hot block entry hentry hhot
    exact ⟨c, List.mem_append_left _ hc, hversion⟩

theorem Backed.publish {layout : Layout} {b : Block} (h : Backed layout s) (hb : b ∈ s.appended) :
    Backed layout { s with store := s.store.writeWithSeqNum b.block b.data b.seqNum } := by
  refine ⟨h.acknowledged, fun block entry hentry hhot => ?_⟩
  rcases FiniteMap.lookup_insert_eq_some hentry with ⟨rfl, hnew⟩ | hsame
  · split at hnew
    · subst hnew
      exact ⟨b, hb, rfl, rfl, rfl⟩
    · cases hold : s.store.entries.lookup b.block with
      | none =>
        rw [hold] at hnew
        subst hnew
        cases hhot
      | some old =>
        rw [hold] at hnew
        subst hnew
        exact h.hot b.block _ hold hhot
  · exact h.hot block entry hsame hhot

theorem Backed.flush {layout : Layout} {results : Nat → Nat → Append} (h : Backed layout s)
    (hkept : Kept layout s (flushShards layout results s).1) :
    Backed layout (flushShards layout results s).1 := by
  have happended : (flushShards layout results s).1.appended = s.appended := by
    rw [flushShards_eq]
  refine ⟨fun b hb => ?_, fun block entry hentry hhot => ?_⟩
  · rw [happended] at hb
    exact (h.acknowledged b hb).trans_le (hkept b)
  · rw [happended]
    rw [flushShards_eq] at hentry
    rcases lookup_foldl_markPending hentry with hsame | ⟨old, -, -, rfl, -⟩
    · exact h.hot block entry hsame hhot
    · cases hhot

theorem Backed.step {act : Act} (h : Backed (layoutOf cfg useShardedWAL) s)
    (hallowed : allowed cfg useShardedWAL s act = true)
    (hstep : step cfg useShardedWAL s act = some t) :
    Backed (layoutOf cfg useShardedWAL) t := by
  cases act with
  | append b =>
    cases hstep
    exact h.append b
  | publish b =>
    simp only [Flushing.step] at hstep
    split at hstep
    · rename_i hb
      cases hstep
      exact h.publish hb
    · cases hstep
  | flush results =>
    cases hstep
    rw [flush_eq]
    exact h.flush (kept_iff.mpr hallowed)

theorem backed_new (layout : Layout) :
    Backed layout Buffers.new := by
  refine ⟨by simp [Buffers.new], fun block entry hentry => ?_⟩
  simp [Buffers.new, UnifiedBlockStore.new] at hentry

theorem writes_of_flush_ok {layout : Layout} {results : Nat → Nat → Append}
    (hok : (flushShards layout results s).2 = true) (b : Block) :
    (flushShards layout results s).1.writes.count b = 0 := by
  rw [flushShards_eq, Bool.not_eq_true', List.any_eq_false] at hok
  rw [count_writes_flushShards]
  by_cases hb : b ∈ s.writes
  · rw [if_pos]
    rw [any_flushedBy, List.any_eq_true]
    refine ⟨b, ?_, beq_self_eq_true _⟩
    have hall := hok _ (layout.routed b.block)
    rw [Bool.not_eq_true] at hall
    rw [flushedTo, flushedOf_of_not_fails hall]
    simp [shardGroup, hb]
  · rw [List.count_eq_zero.mpr hb, ite_self]

/-- After a run in which every flush kept the versions it did not append, a flush loses
no write exactly if it does the same, and if it reports no error every write that was
ever buffered is in the log. -/
theorem flush_keeps_writes_iff {acts : List Act}
    (hrun : Run (step cfg useShardedWAL) (fun s act => allowed cfg useShardedWAL s act) Buffers.new
      acts s) (results : Nat → Nat → Append) :
    (FlushKeeps (layoutOf cfg useShardedWAL) s (flush cfg useShardedWAL results s).1 ↔
      keepsVersions (layoutOf cfg useShardedWAL) results s = true) ∧
    (keepsVersions (layoutOf cfg useShardedWAL) results s = true →
      (flush cfg useShardedWAL results s).2 = true →
      ∀ b ∈ s.appended,
        0 < logged (layoutOf cfg useShardedWAL) (flush cfg useShardedWAL results s).1 b) := by
  have hbacked : Backed (layoutOf cfg useShardedWAL) s :=
    hrun.preserves (fun _ _ _ h hallowed hstep => h.step hallowed hstep) (backed_new _)
  rw [flush_eq]
  refine ⟨⟨fun hkeeps => kept_iff.mp hkeeps.1, fun hcond => ?_⟩, fun hcond hok b hb => ?_⟩
  · have hkept := kept_iff.mpr hcond
    exact ⟨hkept, pendingLogged_of_kept hbacked hkept⟩
  · have hpos := (hbacked.acknowledged b hb).trans_le (kept_iff.mpr hcond b)
    rwa [writes_of_flush_ok hok, Nat.zero_add] at hpos

/-- A flush of which the first `count` appends to a file succeed. -/
def firstAppends (count : Nat) : Nat → Nat → Append :=
  fun _ i => if i < count then .ok else .failed 0

/-- A write of a block, and a later one. -/
def earlier : Block := ⟨[1], 1, 0, 1⟩

def later : Block := ⟨[2], 2, 0, 1⟩

/-- A write is flushed, and the flush of the next one to the same block fails. -/
theorem flush_keeps_next_version :
    ∃ acts s, Run (step Config.tiny true) (fun s act => allowed Config.tiny true s act)
        Buffers.new acts s ∧ s.writes = [later] ∧
      FlushKeeps (layoutOf Config.tiny true) s
        (flush Config.tiny true (firstAppends 0) s).1 := by
  obtain ⟨s, hrun, htest⟩ := Run.exists_of_exec (step Config.tiny true)
    (fun s act => allowed Config.tiny true s act) Buffers.new
    [.append earlier, .publish earlier, .flush (firstAppends 1), .append later, .publish later]
    (fun s => s.writes = [later] ∧
      keepsVersions (layoutOf Config.tiny true) (firstAppends 0) s = true) (by decide +kernel)
  rw [decide_eq_true_eq] at htest
  exact ⟨_, s, hrun, htest.1, (flush_keeps_writes_iff hrun (firstAppends 0)).1.mpr htest.2⟩

theorem exists_dropped_version (useShardedWAL : Bool) :
    ∃ acts s, Run (step Config.tiny useShardedWAL)
        (fun s act => allowed Config.tiny useShardedWAL s act) Buffers.new acts s ∧
      ¬ FlushKeeps (layoutOf Config.tiny useShardedWAL) s
        (flush Config.tiny useShardedWAL (firstAppends 1) s).1 := by
  obtain ⟨s, hrun, htest⟩ := Run.exists_of_exec (step Config.tiny useShardedWAL)
    (fun s act => allowed Config.tiny useShardedWAL s act) Buffers.new
    [.append earlier, .publish earlier, .append later, .publish later]
    (fun s => s.writes.count later = 1 ∧
      (flush Config.tiny useShardedWAL (firstAppends 1) s).1.writes.count later +
        logged (layoutOf Config.tiny useShardedWAL)
          (flush Config.tiny useShardedWAL (firstAppends 1) s).1 later = 0)
    (by cases useShardedWAL <;> decide +kernel)
  rw [decide_eq_true_eq] at htest
  refine ⟨_, s, hrun, fun hkeeps => ?_⟩
  have hcount := hkeeps.1 later
  omega

/-- The log takes the first of two versions of a block and not the second: the second is
neither in the log nor in the buffer any more, with one log file and with many. -/
theorem failed_append_drops_version :
    (∃ acts s, Run (step Config.tiny false) (fun s act => allowed Config.tiny false s act)
        Buffers.new acts s ∧
      ¬ FlushKeeps (layoutOf Config.tiny false) s
        (flush Config.tiny false (firstAppends 1) s).1) ∧
    ∃ acts s, Run (step Config.tiny true) (fun s act => allowed Config.tiny true s act)
        Buffers.new acts s ∧
      ¬ FlushKeeps (layoutOf Config.tiny true) s
        (flush Config.tiny true (firstAppends 1) s).1 :=
  ⟨exists_dropped_version false, exists_dropped_version true⟩

end Runs

end Flushing

end Viperblock
