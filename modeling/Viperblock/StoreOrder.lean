import Viperblock.BlockStore

/-!
# Versions in the block store over a sequence of calls

The version of a block is in its entry, or in an extent once the entry is gone, and an
entry hides whatever the extents say.  `Write`, `WriteWithSeqNum` and `SetPersisted`
update an entry only with a newer version.  They compare with the entry alone: for a
block that has none they make an empty one first, and the version in the extents has
no say.

The module runs every call of the store and shows that the version of each block
never goes back exactly if these three calls bring, for a block without an entry, a
version that is not older than the one in the extents.  The end of an extent is computed
in the 64 bits of a block number, and a lookup would miss the very last block in an extent:
no range may have it.
-/

namespace Viperblock

namespace UnifiedBlockStore

variable (ubs : UnifiedBlockStore) (block : Nat)

/-- The entry a block starts from: its own or an empty one. -/
def entryOrEmpty : BlockEntry :=
  (ubs.entries.lookup block).getD ⟨[], 0, 0, 0, .empty⟩

def setPersisted (block objectID offset seqNum : Nat) :
    UnifiedBlockStore :=
  let entry := ubs.entryOrEmpty block
  { ubs with
    entries := ubs.entries.insert block
      (if entry.seqNum ≤ seqNum ∨ entry.state = .empty then
        ⟨[], seqNum, objectID, offset, .persisted⟩
      else entry) }

/-- Change the entry of a block if it has one that the test admits. -/
def transition (test : BlockEntry → Bool) (change : BlockEntry → BlockEntry) : UnifiedBlockStore :=
  match ubs.entries.lookup block with
  | some entry =>
    if test entry then { ubs with entries := ubs.entries.insert block (change entry) }
    else ubs
  | none => ubs

def markPersisted (block objectID offset seqNum : Nat) :
    UnifiedBlockStore :=
  ubs.transition block (fun entry => entry.state == .pending && seqNum == entry.seqNum)
    fun _ => ⟨[], seqNum, objectID, offset, .persisted⟩

def evictCache : UnifiedBlockStore :=
  ubs.transition block (fun entry => entry.state == .cached)
    fun entry => { entry with state := .persisted, data := [] }

theorem markPending_eq :
    ubs.markPending block = ubs.transition block (fun entry => entry.state == .hot)
        fun entry => { entry with state := .pending } := by
  unfold markPending transition
  cases ubs.entries.lookup block with
  | none => rfl
  | some entry => simp only [beq_iff_eq]

theorem cache_eq (data : Bytes) :
    ubs.cache block data = ubs.transition block (fun entry => entry.state == .persisted)
        fun entry => { entry with state := .cached, data := data } := by
  unfold cache transition
  cases ubs.entries.lookup block with
  | none => rfl
  | some entry => simp only [beq_iff_eq]

/-- The version of a block, as `ReadEntry` resolves it. -/
def resolved : Option Nat :=
  (ubs.readEntry block).map BlockEntry.seqNum

end UnifiedBlockStore

/-- A version that is there is still there, or a newer one is. -/
def NotBelow (old new : Option Nat) : Prop :=
  ∀ n, old = some n → ∃ m, new = some m ∧ n ≤ m

theorem NotBelow.refl (v : Option Nat) :
    NotBelow v v :=
  fun n hn => ⟨n, hn, Nat.le_refl n⟩

theorem NotBelow.trans {u v w : Option Nat} (huv : NotBelow u v) (hvw : NotBelow v w) :
    NotBelow u w := by
  intro n hn
  obtain ⟨m, hm, hnm⟩ := huv n hn
  obtain ⟨k, hk, hmk⟩ := hvw m hm
  exact ⟨k, hk, hnm.trans hmk⟩

namespace StoreOrder

open UnifiedBlockStore

/-- The store and its counter; the extents are disjoint runs. -/
structure Store where
  ubs : UnifiedBlockStore
  seqNum : Nat
  wf : ubs.persistedExtents.WellFormed

inductive Call
  | write (block : Nat) (data : Bytes)
  | writeWithSeqNum (block : Nat) (data : Bytes) (seqNum : Nat)
  | markPending (block : Nat)
  | markPersisted (block objectID offset seqNum : Nat)
  | markPersistedRange (blocks : List Nat) (objectID objectOffset stride : Nat)
      (seqNums : List Nat)
  | setPersisted (block objectID offset seqNum : Nat)
  | cache (block : Nat) (data : Bytes)
  | evictCache (block : Nat)
deriving DecidableEq

/-- The next number of the counter, in 64 bits. -/
def Store.nextSeqNum (s : Store) : Nat :=
  (s.seqNum + 1) % 2 ^ 64

/-- What a call makes of the entries and extents. -/
def Store.update (s : Store) : Call → UnifiedBlockStore
  | .write block data => s.ubs.writeWithSeqNum block data s.nextSeqNum
  | .writeWithSeqNum block data seqNum => s.ubs.writeWithSeqNum block data seqNum
  | .markPending block => s.ubs.markPending block
  | .markPersisted block objectID offset seqNum =>
    s.ubs.markPersisted block objectID offset seqNum
  | .markPersistedRange blocks objectID objectOffset stride seqNums =>
    if blocks.length = seqNums.length then
      s.ubs.markPersistedRange blocks objectID objectOffset stride seqNums
    else s.ubs
  | .setPersisted block objectID offset seqNum =>
    s.ubs.setPersisted block objectID offset seqNum
  | .cache block data => s.ubs.cache block data
  | .evictCache block => s.ubs.evictCache block

section Extents

variable {ubs : UnifiedBlockStore}

theorem extents_transition
    (block : Nat) (test : BlockEntry → Bool) (change : BlockEntry → BlockEntry) :
    (ubs.transition block test change).persistedExtents = ubs.persistedExtents := by
  unfold UnifiedBlockStore.transition
  repeat' split
  all_goals rfl

theorem extents_markPersistedRange
    (blocks : List Nat) (objectID objectOffset stride : Nat) (seqNums : List Nat) :
    (ubs.markPersistedRange blocks objectID objectOffset stride seqNums).persistedExtents =
      installRuns objectID objectOffset stride ubs.persistedExtents
        ((rangeItems blocks seqNums).filter ubs.eligible) :=
  (foldl_dropPersisted _ _).1

theorem wf_update (s : Store) (call : Call) : (s.update call).persistedExtents.WellFormed := by
  cases call with
  | write block data => exact s.wf
  | writeWithSeqNum block data seqNum => exact s.wf
  | markPending block =>
    simp only [Store.update, markPending_eq, extents_transition]
    exact s.wf
  | markPersisted block objectID offset seqNum =>
    simp only [Store.update, UnifiedBlockStore.markPersisted, extents_transition]
    exact s.wf
  | markPersistedRange blocks objectID objectOffset stride seqNums =>
    simp only [Store.update]
    split
    · rw [extents_markPersistedRange]
      exact (installRuns_cases objectID objectOffset stride s.wf _).1
    · exact s.wf
  | setPersisted block objectID offset seqNum => exact s.wf
  | cache block data =>
    simp only [Store.update, UnifiedBlockStore.cache_eq, extents_transition]
    exact s.wf
  | evictCache block =>
    simp only [Store.update, UnifiedBlockStore.evictCache, extents_transition]
    exact s.wf

end Extents

/-- One call; only `Write` takes a number from the counter. -/
def Store.call (s : Store) (call : Call) : Store where
  ubs := s.update call
  seqNum :=
    match call with
    | .write _ _ => s.nextSeqNum
    | _ => s.seqNum
  wf := wf_update s call

def Store.run (s : Store) (calls : List Call) : Store :=
  calls.foldl Store.call s

/-- The range of the call has not the very last block, behind which there is no number for
an end. -/
def Call.BelowLast : Call → Prop
  | .markPersistedRange blocks _ _ _ _ => ∀ block ∈ blocks, block + 1 < 2 ^ 64
  | _ => True

/-- A version that is to become the entry of a block without one is not older than the
version in the extents. -/
def notBehindExtents (ubs : UnifiedBlockStore) (block seqNum : Nat) : Bool :=
  (ubs.readPersisted block).all fun entry => decide (entry.seqNum ≤ seqNum)

/-- `SetPersisted` also replaces an empty entry, whatever its version. -/
def setsNewer (ubs : UnifiedBlockStore) (block seqNum : Nat) : Bool :=
  match ubs.entries.lookup block with
  | some entry => !decide (entry.state = .empty) || decide (entry.seqNum ≤ seqNum)
  | none => notBehindExtents ubs block seqNum

/-- The call meets a store in which it takes no block back. -/
def Store.keepsUp (s : Store) : Call → Bool
  | .write block _ =>
    (s.ubs.entries.lookup block).isSome || notBehindExtents s.ubs block s.nextSeqNum
  | .writeWithSeqNum block _ seqNum =>
    (s.ubs.entries.lookup block).isSome || notBehindExtents s.ubs block seqNum
  | .setPersisted block _ _ seqNum => setsNewer s.ubs block seqNum
  | _ => true

/-- Every call of the sequence meets such a store. -/
def Store.keepsUpAll : Store → List Call → Bool
  | _, [] => true
  | s, call :: calls => s.keepsUp call && (s.call call).keepsUpAll calls

section Resolved

variable {ubs : UnifiedBlockStore}

theorem resolved_of_entry {block : Nat} {entry : BlockEntry}
    (hentry : ubs.entries.lookup block = some entry) :
    ubs.resolved block = some entry.seqNum := by
  unfold UnifiedBlockStore.resolved UnifiedBlockStore.readEntry
  rw [hentry]
  rfl

theorem resolved_of_none {block : Nat} (hnone : ubs.entries.lookup block = none) :
    ubs.resolved block = (ubs.readPersisted block).map BlockEntry.seqNum := by
  unfold UnifiedBlockStore.resolved UnifiedBlockStore.readEntry
  rw [hnone]

theorem resolved_eq (hwf : ubs.persistedExtents.WellFormed) (block : Nat) :
    ubs.resolved block = ((ubs.entries.lookup block).map BlockEntry.seqNum).or
        ((ubs.persistedExtents.locate block).map Location.seqNum) := by
  cases hentry : ubs.entries.lookup block with
  | some entry =>
    rw [resolved_of_entry hentry]
    rfl
  | none =>
    rw [resolved_of_none hentry, readPersisted_eq hwf, Option.map_map]
    rfl

theorem resolved_insert (block other : Nat) (entry : BlockEntry) :
    ({ ubs with entries := ubs.entries.insert block entry } : UnifiedBlockStore).resolved other =
      if other = block then some entry.seqNum else ubs.resolved other := by
  by_cases hblock : other = block
  · subst hblock
    rw [if_pos rfl]
    exact resolved_of_entry (AList.lookup_insert _)
  · rw [if_neg hblock]
    unfold UnifiedBlockStore.resolved UnifiedBlockStore.readEntry
    rw [AList.lookup_insert_ne hblock]
    rfl

/-- A new entry takes no block back exactly if it is not older than what its block
resolved to. -/
theorem notBelow_insert_iff (block : Nat) (entry : BlockEntry) :
    (∀ other, NotBelow (ubs.resolved other)
      (({ ubs with entries := ubs.entries.insert block entry } :
        UnifiedBlockStore).resolved other)) ↔
      ∀ n, ubs.resolved block = some n → n ≤ entry.seqNum := by
  constructor
  · intro hall n hn
    obtain ⟨m, hm, hle⟩ := hall block n hn
    rw [resolved_insert, if_pos rfl] at hm
    exact hle.trans_eq (Option.some.inj hm).symm
  · intro hle other
    rw [resolved_insert]
    split
    · rename_i hblock
      subst hblock
      exact fun n hn => ⟨_, rfl, hle n hn⟩
    · exact NotBelow.refl _

theorem notBelow_transition
    (block : Nat) {test : BlockEntry → Bool} {change : BlockEntry → BlockEntry}
    (hsame : ∀ entry, test entry = true → (change entry).seqNum = entry.seqNum) (other : Nat) :
    NotBelow (ubs.resolved other) ((ubs.transition block test change).resolved other) := by
  unfold UnifiedBlockStore.transition
  split
  · rename_i entry hentry
    split
    · rename_i htest
      refine (notBelow_insert_iff block _).mpr (fun n hn => ?_) other
      rw [resolved_of_entry hentry] at hn
      rw [hsame entry htest, ← Option.some.inj hn]
    · exact NotBelow.refl _
  · exact NotBelow.refl _

theorem notBehindExtents_iff {block seqNum : Nat} (hnone : ubs.entries.lookup block = none) :
    (∀ n, ubs.resolved block = some n → n ≤ seqNum) ↔ notBehindExtents ubs block seqNum = true := by
  rw [resolved_of_none hnone, notBehindExtents]
  cases ubs.readPersisted block with
  | none => simp
  | some entry => simp

theorem notBelow_writeWithSeqNum_iff (block : Nat) (data : Bytes) (seqNum : Nat) :
    (∀ other, NotBelow (ubs.resolved other)
      ((ubs.writeWithSeqNum block data seqNum).resolved other)) ↔
      ((ubs.entries.lookup block).isSome || notBehindExtents ubs block seqNum) = true := by
  refine (notBelow_insert_iff block _).trans ?_
  cases hentry : ubs.entries.lookup block with
  | some entry =>
    rw [resolved_of_entry hentry]
    simp only [Option.getD_some, Option.some.injEq, forall_eq', Option.isSome_some,
      Bool.true_or, iff_true]
    split
    · rename_i hlt
      exact hlt.le
    · exact Nat.le_refl _
  | none =>
    have hseqNum : (if (0 : Nat) < seqNum then (⟨data, seqNum, 0, 0, .hot⟩ : BlockEntry)
        else ⟨[], 0, 0, 0, .empty⟩).seqNum = seqNum := by
      split
      · rfl
      · exact (Nat.eq_zero_of_not_pos ‹_›).symm
    rw [Option.getD_none, hseqNum, notBehindExtents_iff hentry]
    rfl

theorem notBelow_setPersisted_iff (block objectID offset seqNum : Nat) :
    (∀ other, NotBelow (ubs.resolved other)
      ((ubs.setPersisted block objectID offset seqNum).resolved other)) ↔
      setsNewer ubs block seqNum = true := by
  refine (notBelow_insert_iff block _).trans ?_
  unfold UnifiedBlockStore.entryOrEmpty setsNewer
  cases hentry : ubs.entries.lookup block with
  | some entry =>
    rw [resolved_of_entry hentry]
    by_cases hnewer : entry.seqNum ≤ seqNum
    · simp [hnewer]
    · by_cases hempty : entry.state = .empty <;> simp [hnewer, hempty]
  | none => exact notBehindExtents_iff hentry

theorem notBelow_markPersistedRange (hwf : ubs.persistedExtents.WellFormed)
    (blocks : List Nat) (objectID objectOffset stride : Nat) (seqNums : List Nat) (block : Nat) :
    NotBelow (ubs.resolved block)
      ((ubs.markPersistedRange blocks objectID objectOffset stride seqNums).resolved
        block) := by
  let items := (rangeItems blocks seqNums).filter ubs.eligible
  let installed := installRuns objectID objectOffset stride ubs.persistedExtents items
  have hextents : (ubs.markPersistedRange blocks objectID objectOffset stride
      seqNums).persistedExtents = installed := extents_markPersistedRange ..
  obtain ⟨hwf', hlocated⟩ := installRuns_cases objectID objectOffset stride hwf items
  rw [resolved_eq hwf, resolved_eq (hextents ▸ hwf'), hextents]
  cases hentry' : (ubs.markPersistedRange blocks objectID objectOffset stride
      seqNums).entries.lookup block with
  | some entry =>
    have hentry : ubs.entries.lookup block = some entry :=
      (foldl_dropPersisted items ⟨ubs.entries, installed⟩).2 block entry hentry'
    rw [hentry]
    exact NotBelow.refl _
  | none =>
    rcases hlocated block with ⟨item, hitem, rfl, hlocate⟩ | ⟨hother, hlocate⟩
    · -- the entry has the version of the item
      obtain ⟨entry, hentry, -, hseqNum⟩ :=
        seqNum_of_eligible (List.mem_filter.mp hitem).2
      rw [hlocate, hentry, Option.map_some, hseqNum]
      exact NotBelow.refl _
    · have hentry : ubs.entries.lookup block = none :=
        (lookup_foldl_dropPersisted_of_ne hother ⟨ubs.entries, installed⟩).symm.trans hentry'
      rw [hlocate, hentry]
      exact NotBelow.refl _

theorem notBelow_call_iff (s : Store) (call : Call) :
    (∀ block, NotBelow (s.ubs.resolved block) ((s.call call).ubs.resolved block)) ↔
      s.keepsUp call = true := by
  cases call with
  | write block data =>
    exact notBelow_writeWithSeqNum_iff block data s.nextSeqNum
  | writeWithSeqNum block data seqNum =>
    exact notBelow_writeWithSeqNum_iff block data seqNum
  | markPending block =>
    refine iff_of_true (fun other => ?_) rfl
    simp only [Store.call, Store.update, markPending_eq]
    refine notBelow_transition block ?_ other
    exact fun _ _ => rfl
  | markPersisted block objectID offset seqNum =>
    refine iff_of_true (fun other => ?_) rfl
    refine notBelow_transition block (fun entry htest => ?_) other
    simp only [Bool.and_eq_true, beq_iff_eq] at htest
    exact htest.2
  | markPersistedRange blocks objectID objectOffset stride seqNums =>
    refine iff_of_true (fun other => ?_) rfl
    simp only [Store.call, Store.update]
    split
    · exact notBelow_markPersistedRange s.wf blocks objectID objectOffset stride seqNums other
    · exact NotBelow.refl _
  | setPersisted block objectID offset seqNum =>
    exact notBelow_setPersisted_iff block objectID offset seqNum
  | cache block data =>
    simp only [Store.call, Store.update, UnifiedBlockStore.cache_eq]
    exact iff_of_true (notBelow_transition block fun _ _ => rfl) rfl
  | evictCache block =>
    exact iff_of_true (notBelow_transition block fun _ _ => rfl) rfl

end Resolved

section Runs

theorem endsFit_call {s : Store} (hfit : s.ubs.persistedExtents.EndsFit) {call : Call}
    (hlast : call.BelowLast) : (s.call call).ubs.persistedExtents.EndsFit := by
  cases call with
  | markPersistedRange blocks objectID objectOffset stride seqNums =>
    simp only [Store.call, Store.update]
    split
    · rw [extents_markPersistedRange]
      exact endsFit_installRuns _ _ _ s.wf hfit hlast fun item hitem =>
        block_mem_of_mem_rangeItems (List.mem_filter.mp hitem).1
    · exact hfit
  | write | writeWithSeqNum | setPersisted =>
    exact hfit
  | markPending | markPersisted | cache | evictCache =>
    simp only [Store.call, Store.update, markPending_eq, UnifiedBlockStore.markPersisted,
      UnifiedBlockStore.cache_eq, UnifiedBlockStore.evictCache, extents_transition]
    exact hfit

theorem endsFit_run {s : Store} (hfit : s.ubs.persistedExtents.EndsFit) {calls : List Call}
    (hlast : ∀ call ∈ calls, call.BelowLast) : (s.run calls).ubs.persistedExtents.EndsFit := by
  induction calls generalizing s with
  | nil => exact hfit
  | cons call calls ih =>
    rw [List.forall_mem_cons] at hlast
    exact ih (endsFit_call hfit hlast.1) hlast.2

/-- Each call takes no block back exactly if each meets a store in which it does not. -/
theorem notBelow_take_iff (s : Store) (calls : List Call) :
    (∀ k < calls.length, ∀ block, NotBelow ((s.run (calls.take k)).ubs.resolved block)
      ((s.run (calls.take (k + 1))).ubs.resolved block)) ↔
      s.keepsUpAll calls = true := by
  induction calls generalizing s with
  | nil => simp [Store.keepsUpAll]
  | cons call calls ih =>
    rw [Store.keepsUpAll, Bool.and_eq_true, ← notBelow_call_iff, ← ih]
    constructor
    · intro hall
      exact ⟨hall 0 (Nat.succ_pos _), fun k hk => hall (k + 1) (Nat.succ_lt_succ hk)⟩
    · rintro ⟨hfirst, hrest⟩ k hk
      cases k with
      | zero => exact hfirst
      | succ k => exact hrest k (Nat.lt_of_succ_lt_succ hk)

/-- Over a sequence of calls whose ranges do not have the very last block no end leaves its
64 bits, and the version of a block never goes back exactly if every call of `Write`,
`WriteWithSeqNum` and `SetPersisted` meets a store in which it is not behind the extents,
and `SetPersisted` no newer empty entry. -/
theorem resolved_never_back_iff (s : Store) (calls : List Call)
    (hfit : s.ubs.persistedExtents.EndsFit) (hlast : ∀ call ∈ calls, call.BelowLast) :
    (∀ i, (s.run (calls.take i)).ubs.persistedExtents.EndsFit) ∧
    ((∀ i j, i ≤ j → ∀ block, NotBelow ((s.run (calls.take i)).ubs.resolved block)
      ((s.run (calls.take j)).ubs.resolved block)) ↔
      s.keepsUpAll calls = true) := by
  refine ⟨fun i => endsFit_run hfit fun call hcall => hlast call (List.mem_of_mem_take hcall), ?_⟩
  rw [← notBelow_take_iff]
  constructor
  · intro hall k _ block
    exact hall k (k + 1) (Nat.le_succ k) block
  · intro hsteps i j hij block
    induction j, hij using Nat.le_induction with
    | base => exact NotBelow.refl _
    | succ j _ ih =>
      by_cases hlt : j < calls.length
      · exact ih.trans (hsteps j hlt block)
      · have hsame : calls.take (j + 1) = calls.take j := by
          rw [List.take_of_length_le (by omega), List.take_of_length_le (by omega)]
        rw [hsame]
        exact ih

end Runs

/-- The store of a new engine. -/
def Store.new : Store :=
  ⟨UnifiedBlockStore.new, 0, ExtentMap.wellFormed_empty⟩

/-- Block 5 is written, logged and uploaded, and then written as a newer version. -/
def newerWrite : List Call :=
  [.write 5 [1], .markPending 5, .markPersistedRange [5] 0 10 1 [1], .write 5 [2],
    .setPersisted 6 0 0 3]

theorem resolved_never_back_newerWrite :
    Store.new.keepsUpAll newerWrite = true ∧
      ∀ i j, i ≤ j → ∀ block, NotBelow ((Store.new.run (newerWrite.take i)).ubs.resolved block)
        ((Store.new.run (newerWrite.take j)).ubs.resolved block) := by
  have hlast : ∀ call ∈ newerWrite, call.BelowLast := by
    simp [newerWrite, Call.BelowLast]
  have hfit : Store.new.ubs.persistedExtents.EndsFit := fun k pe hpe => by cases hpe
  have hkeeps : Store.new.keepsUpAll newerWrite = true := by decide +kernel
  exact ⟨hkeeps, (resolved_never_back_iff Store.new newerWrite hfit hlast).2.mpr hkeeps⟩

/-- Block 5 is written, logged and uploaded as version 10, and then written as
version 3. -/
def lateWrite : List Call :=
  [.writeWithSeqNum 5 [1] 10, .markPending 5, .markPersistedRange [5] 0 10 1 [10],
    .writeWithSeqNum 5 [2] 3]

/-- Before its upload the entry would have refused the older version. -/
theorem resolved_lateWrite :
    (Store.new.run (lateWrite.take 3)).ubs.resolved 5 = some 10 ∧
      (Store.new.run lateWrite).ubs.resolved 5 = some 3 ∧
      (Store.new.run [.writeWithSeqNum 5 [1] 10, .writeWithSeqNum 5 [2] 3]).ubs.resolved 5 =
        some 10 := by
  decide +kernel

end StoreOrder

end Viperblock
