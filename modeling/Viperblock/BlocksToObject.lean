import Viperblock.BlockLookup

/-!
# Resolving and overriding the block map

`resolveBlockLookup` finds the entry covering a block and
`insertCoalescedLocked` overrides a range.  The first half of the module is
the code; the second half shows that on a well formed map an insertion is a
pointwise override of the function from blocks to locations, and that a
reference count that was exact stays exact.
-/

namespace Viperblock

/-- The Go map from a run's first block to the run. -/
abbrev BlockMap := AList (fun _ : Nat => BlockLookup)

/-- Live entries per chunk object; a bound ID with count zero is garbage. -/
abbrev Refcount := AList (fun _ : Nat => Nat)

/-- The chunk objects the map names. -/
def BlockMap.objectIDs (m : BlockMap) : List Nat :=
  m.entries.map fun entry => entry.2.objectID

/-- What `BlocksToObject.mu` protects; the counts are nil unless GC is enabled. -/
structure BlocksToObject where
  blockLookup : BlockMap
  gcRefcount : Option Refcount
deriving DecidableEq

namespace BlocksToObject

def resolveBlockLookup (m : BlockMap) (block : Nat) :
    Option (BlockLookup × Nat) :=
  match m.lookup block with
  | some bl => some (bl, 0)
  | none =>
    -- the containment scan: only a run's first block is a key
    (m.entries.find? fun entry =>
      decide (entry.2.startBlock < block ∧ block < entry.2.endBlock)).map
        fun entry => (entry.2, block - entry.2.startBlock)

/-- Location of a block, as `LookupBlockToObject` returns it. -/
def lookupBlockToObject (stride : Nat) (m : BlockMap) (block : Nat) :
    Option Location :=
  (resolveBlockLookup m block).map fun found => found.1.blockAt stride found.2

/-- The blocks of the map are in chunks numbered below `objectNum`. -/
def ChunksBelow (stride : Nat) (m : BlockMap) (objectNum : Nat) : Prop :=
  ∀ block loc, lookupBlockToObject stride m block = some loc → loc.objectID < objectNum

def incRef (id : Nat) (rc : Refcount) : Refcount :=
  rc.insert id ((rc.lookup id).getD 0 + 1)

def decRef (id : Nat) (rc : Refcount) : Refcount :=
  if 0 < (rc.lookup id).getD 0 then
    rc.insert id ((rc.lookup id).getD 0 - 1)
  else rc

/-- Delete the entry under key `k` and drop its reference. -/
def remove (b : BlocksToObject) (k : Nat) (existing : BlockLookup) :
    BlocksToObject :=
  { blockLookup := b.blockLookup.erase k
    gcRefcount := b.gcRefcount.map (decRef existing.objectID) }

/-- Store an entry under its first block and count its reference. -/
def put (b : BlocksToObject) (bl : BlockLookup) : BlocksToObject :=
  { blockLookup := b.blockLookup.insert bl.startBlock bl
    gcRefcount := b.gcRefcount.map (incRef bl.objectID) }

/-- One round of the fracturing loop, for the existing entry under key `k`. -/
def fracture (newStart newEnd stride : Nat) (b : BlocksToObject) (k : Nat) :
    BlocksToObject :=
  match b.blockLookup.lookup k with
  | none => b
  | some existing =>
    if existing.endBlock ≤ newStart ∨ newEnd ≤ existing.startBlock then b
    else
      let removed := b.remove k existing
      let headed :=
        if existing.startBlock < newStart then
          removed.put (existing.head newStart)
        else removed
      if newEnd < existing.endBlock then
        headed.put (existing.tail newEnd stride)
      else headed

def insertCoalescedLocked (b : BlocksToObject) (newEntry : BlockLookup)
    (stride : Nat) : BlocksToObject :=
  (b.blockLookup.keys.foldl
    (fracture newEntry.startBlock newEntry.endBlock stride) b).put newEntry

end BlocksToObject

/-- The entries of a block map: keyed by first block, valid, and disjoint. -/
abbrev BlockMap.WellFormed (m : BlockMap) : Prop :=
  ExtentMap.WellFormed BlockLookup.shape m

namespace BlockMap

open BlocksToObject

section Resolve

variable {m : BlockMap} {block stride : Nat}

theorem mem_objectIDs_iff {id : Nat} :
    id ∈ m.objectIDs ↔ ∃ k bl, m.lookup k = some bl ∧ bl.objectID = id := by
  unfold objectIDs
  rw [List.mem_map]
  constructor
  · rintro ⟨⟨k, bl⟩, hmem, rfl⟩
    exact ⟨k, bl, FiniteMap.mem_entries_iff.mp hmem, rfl⟩
  · rintro ⟨k, bl, hbl, rfl⟩
    exact ⟨⟨k, bl⟩, FiniteMap.mem_entries_iff.mpr hbl, rfl⟩

section

variable (hwf : m.WellFormed)

include hwf

theorem WellFormed.resolve_eq_find (block : Nat) :
    resolveBlockLookup m block = (ExtentMap.find BlockLookup.shape m block).map fun bl =>
        (bl, block - bl.startBlock) := by
  unfold resolveBlockLookup ExtentMap.find
  cases hdirect : m.lookup block with
  | none =>
    simp only [Option.map_map]
    rfl
  | some bl =>
    have hkey : bl.startBlock = block := hwf.keyed hdirect
    simp only [Option.map_some, hkey, Nat.sub_self]

theorem WellFormed.lookup_eq_get (stride block : Nat) :
    lookupBlockToObject stride m block = ExtentMap.get (BlockLookup.cutting stride) m block := by
  unfold lookupBlockToObject ExtentMap.get
  rw [hwf.resolve_eq_find, Option.map_map]
  rfl

theorem WellFormed.lookup_eq_some_iff {loc : Location} :
    lookupBlockToObject stride m block = some loc ↔
      ∃ bl, m.lookup bl.startBlock = some bl ∧ bl.Covers block ∧
        loc = bl.blockAt stride (block - bl.startBlock) := by
  rw [hwf.lookup_eq_get]
  exact hwf.get_eq_some_iff _

theorem WellFormed.lookup_of_covers {k : Nat} {bl : BlockLookup} (hbl : m.lookup k = some bl)
    (hcovers : bl.Covers block) :
    lookupBlockToObject stride m block = some (bl.blockAt stride (block - bl.startBlock)) := by
  rw [hwf.lookup_eq_get]
  exact hwf.get_of_covers _ hbl hcovers

theorem WellFormed.mem_objectIDs_iff_lookup (stride : Nat) {id : Nat} :
    id ∈ m.objectIDs ↔ ∃ block loc, lookupBlockToObject stride m block = some loc ∧
        loc.objectID = id := by
  rw [mem_objectIDs_iff]
  constructor
  · rintro ⟨k, bl, hbl, rfl⟩
    exact ⟨k, _, hwf.lookup_of_covers hbl (hwf.covers_start hbl), rfl⟩
  · rintro ⟨block, loc, hloc, rfl⟩
    obtain ⟨bl, hbl, -, rfl⟩ := hwf.lookup_eq_some_iff.mp hloc
    exact ⟨_, bl, hbl, rfl⟩

end

end Resolve

end BlockMap

namespace BlocksToObject

open BlockMap

/-- Every count is the number of entries that name the chunk. -/
def RefExact (b : BlocksToObject) : Prop :=
  ∀ rc, b.gcRefcount = some rc → ∀ id, (rc.lookup id).getD 0 =
      FiniteMap.countValues (fun bl => bl.objectID == id) b.blockLookup

section Counts

theorem getD_lookup_incRef (id other : Nat) (rc : Refcount) :
    ((incRef id rc).lookup other).getD 0 =
      (rc.lookup other).getD 0 + if id = other then 1 else 0 := by
  unfold incRef
  by_cases hid : id = other
  · subst hid
    simp
  · rw [AList.lookup_insert_ne (Ne.symm hid)]
    simp [hid]

theorem getD_lookup_decRef (id other : Nat) (rc : Refcount) :
    ((decRef id rc).lookup other).getD 0 =
      (rc.lookup other).getD 0 - if id = other then 1 else 0 := by
  unfold decRef
  by_cases hid : id = other
  · subst hid
    split
    · simp
    · simp
      omega
  · split
    · rw [AList.lookup_insert_ne (Ne.symm hid)]
      simp
    · simp

variable {b : BlocksToObject}

theorem RefExact.remove (hb : b.RefExact) {k : Nat} {existing : BlockLookup}
    (hlookup : b.blockLookup.lookup k = some existing) : (b.remove k existing).RefExact := by
  intro rc hrc id
  obtain ⟨old, hold, rfl⟩ := Option.map_eq_some_iff.mp hrc
  rw [getD_lookup_decRef, hb old hold id, FiniteMap.countValues_of_lookup hlookup]
  simp only [beq_iff_eq, BlocksToObject.remove]
  omega

theorem RefExact.put (hb : b.RefExact) {bl : BlockLookup}
    (hfree : b.blockLookup.lookup bl.startBlock = none) :
    (b.put bl).RefExact := by
  intro rc hrc id
  obtain ⟨old, hold, rfl⟩ := Option.map_eq_some_iff.mp hrc
  rw [getD_lookup_incRef, hb old hold id]
  simp only [BlocksToObject.put]
  rw [FiniteMap.countValues_insert hfree]
  simp only [beq_iff_eq]

end Counts

/-- The block map as a store of runs, with its reference counts in step. -/
def store : ExtentMap.Store BlockLookup.shape BlocksToObject where
  extents := blockLookup
  remove := remove
  put := put
  InStep := RefExact
  extents_remove _ _ _ := rfl
  extents_put _ _ := rfl
  inStep_remove hb hlookup := hb.remove hlookup
  inStep_put hb hfree := hb.put hfree

/-- The invariant of the block map and its reference counts. -/
structure Sound (b : BlocksToObject) : Prop where
  wf : b.blockLookup.WellFormed
  refExact : b.RefExact

section Insert

variable {b : BlocksToObject} {newEntry : BlockLookup} {stride : Nat}

theorem Sound.store (hb : b.Sound) :
    store.Sound b :=
  ⟨hb.wf, hb.refExact⟩

theorem fracture_eq (newStart newEnd stride : Nat) :
    fracture newStart newEnd stride =
      store.fracture (BlockLookup.cutting stride) newStart newEnd := by
  funext b k
  unfold fracture ExtentMap.Store.fracture
  have hextents : (store.extents b).lookup k = b.blockLookup.lookup k := rfl
  rw [hextents]
  cases b.blockLookup.lookup k <;> rfl

theorem insertCoalescedLocked_eq :
    b.insertCoalescedLocked newEntry stride =
      store.override (BlockLookup.cutting stride) b newEntry := by
  unfold insertCoalescedLocked ExtentMap.Store.override
  rw [fracture_eq]
  rfl

theorem Sound.insertCoalescedLocked (hb : b.Sound) (hvalid : newEntry.Valid) :
    (b.insertCoalescedLocked newEntry stride).Sound := by
  have hsound := hb.store.override (BlockLookup.cutting stride) hvalid
  rw [← insertCoalescedLocked_eq] at hsound
  exact ⟨hsound.wf, hsound.inStep⟩

/-- An insertion overrides the map on the blocks of the new entry. -/
theorem lookup_insertCoalescedLocked (hb : b.Sound) (hvalid : newEntry.Valid) (block : Nat) :
    lookupBlockToObject stride
        (b.insertCoalescedLocked newEntry stride).blockLookup block =
      if newEntry.Covers block then
        some (newEntry.blockAt stride (block - newEntry.startBlock))
      else lookupBlockToObject stride b.blockLookup block := by
  rw [(hb.insertCoalescedLocked hvalid).wf.lookup_eq_get, hb.wf.lookup_eq_get,
    insertCoalescedLocked_eq]
  exact ExtentMap.Store.get_override (BlockLookup.cutting stride) hb.store.wf.loose hvalid block

/-- Where the new entry reaches into another one, that starts behind it. -/
theorem headOf_insertCoalescedLocked (hb : b.Sound) (hvalid : newEntry.Valid) {block : Nat}
    (hblock : ¬ newEntry.Covers block) :
    ExtentMap.headOf BlockLookup.shape
        (b.insertCoalescedLocked newEntry stride).blockLookup block =
      (ExtentMap.headOf BlockLookup.shape b.blockLookup block).map fun k =>
        if k < newEntry.endBlock ∧ newEntry.endBlock ≤ block then newEntry.endBlock
        else k := by
  rw [insertCoalescedLocked_eq]
  exact ExtentMap.Store.headOf_override (BlockLookup.cutting stride) hb.store.wf.loose hvalid hblock

end Insert

end BlocksToObject

end Viperblock
