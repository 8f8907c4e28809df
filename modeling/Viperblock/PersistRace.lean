import Viperblock.Lib.GuardedRun
import Viperblock.StoreOrder

/-!
# Lookups while a range is persisted

`MarkPersistedRange` works in three passes: it looks at the entries of its blocks one
by one, installs extents for the eligible ones under one lock, and drops their entries
one by one, looking again.  A lookup takes two locks, one for the entry and, if there is
none, one for the extents.  Writes of newer versions and `MarkPending` come in between.

A lookup may miss the entry before a write and read the extents after the next pass.
The module shows that it still finds the block if it was there when the lookup began,
in a version that is not older, and that a location it returns is one that a chunk
was sealed with.  `Sealed block loc` says that some chunk holds the block at the place
and under the number of `loc`.

The end of an extent is computed in the 64 bits of a block number.  An extent with the very
last block ends at zero, and a lookup finds only its first block: no chunk may hold it.
-/

namespace Viperblock

namespace PersistRace

open GuardedRun StoreOrder

section Words

/-- `end` as the 64 bits of a block number hold it. -/
def wordEnd (pe : PersistedExtent) : Nat :=
  pe.endBlock % 2 ^ 64

/-- `readPersisted` with the ends in words. -/
def readPersistedWords (ubs : UnifiedBlockStore) (block : Nat) : Option BlockEntry :=
  (ExtentMap.findBy PersistedExtent.shape wordEnd ubs.persistedExtents block).map fun pe =>
    let idx := (block - pe.startBlock) % 2 ^ 16
    { data := []
      seqNum := pe.seqNumAt idx
      objectID := pe.objectID
      objectOffset := pe.offsetAt idx
      state := .persisted }

/-- The version that `ReadEntry` finds. -/
def resolvedWords (ubs : UnifiedBlockStore) (block : Nat) : Option Nat :=
  ((ubs.entries.lookup block).or (readPersistedWords ubs block)).map BlockEntry.seqNum

section

variable (objectID objectOffset stride : Nat)

/-- `installRun` with the ends in words. -/
def installRunWords (index : ExtentIndex) :
    List RangeItem → ExtentIndex
  | [] => index
  | first :: rest =>
    ExtentIndex.store.overrideBy PersistedExtent.cutting wordEnd index
      (runExtent objectID objectOffset stride first rest)

def installRunsWords (index : ExtentIndex) (items : List RangeItem) : ExtentIndex :=
  (ConsecutiveRuns.boundedRuns RangeItem.consecutive 65535 items).foldl
    (installRunWords objectID objectOffset stride) index

theorem wordEnd_eq {pe : PersistedExtent} (hlt : PersistedExtent.shape.stop pe < 2 ^ 64) :
    wordEnd pe = PersistedExtent.shape.stop pe :=
  Nat.mod_eq_of_lt hlt

theorem readPersistedWords_eq {ubs : UnifiedBlockStore} (hfit : ubs.persistedExtents.EndsFit)
    (block : Nat) : readPersistedWords ubs block = ubs.readPersisted block := by
  rw [readPersistedWords, ExtentMap.findBy_eq fun k pe hpe => wordEnd_eq (hfit k pe hpe)]
  rfl

theorem resolvedWords_eq {ubs : UnifiedBlockStore} (hfit : ubs.persistedExtents.EndsFit)
    (block : Nat) : resolvedWords ubs block = ubs.resolved block := by
  unfold resolvedWords UnifiedBlockStore.resolved UnifiedBlockStore.readEntry
  rw [readPersistedWords_eq hfit]
  cases ubs.entries.lookup block <;> rfl

theorem installRunsWords_eq {index : ExtentIndex} (hwf : index.WellFormed) (hfit : index.EndsFit)
    {items : List RangeItem} (hlast : ∀ item ∈ items, item.block + 1 < 2 ^ 64) :
    installRunsWords objectID objectOffset stride index items =
      installRuns objectID objectOffset stride index items := by
  have hlimit : 0 < 65535 := by decide
  have hfold : ∀ runs : List (List RangeItem),
      runs ⊆ ConsecutiveRuns.boundedRuns RangeItem.consecutive 65535 items →
      ∀ index : ExtentIndex, index.WellFormed → index.EndsFit →
        runs.foldl (installRunWords objectID objectOffset stride) index =
          runs.foldl (installRun objectID objectOffset stride) index := by
    intro runs hruns
    induction runs with
    | nil => exact fun _ _ _ => rfl
    | cons run runs ih =>
      intro index hwf hfit
      obtain ⟨hrun, hrest⟩ := List.cons_subset.mp hruns
      obtain ⟨hne, hlength, hchain⟩ := ConsecutiveRuns.mem_boundedRuns hlimit hrun
      obtain ⟨first, rest, rfl⟩ := List.exists_cons_of_ne_nil hne
      obtain ⟨hvalid, -, honly⟩ := runExtent_spec objectID objectOffset stride hchain hlength
      have hend : PersistedExtent.shape.stop
          (runExtent objectID objectOffset stride first rest) < 2 ^ 64 := by
        have hpos : PersistedExtent.shape.Covers (runExtent objectID objectOffset stride first rest)
            (first.block + rest.length) :=
          ⟨Nat.le_add_right _ _, Nat.lt_succ_self _⟩
        obtain ⟨item, hitem, hblock⟩ := honly _ hpos
        have hlt := hlast item (by
          rw [← ConsecutiveRuns.flatten_boundedRuns hlimit RangeItem.consecutive items]
          exact List.mem_flatten.mpr ⟨_, hrun, hitem⟩)
        rw [hblock] at hlt
        exact hlt
      have hround : installRunWords objectID objectOffset stride index (first :: rest) =
          installRun objectID objectOffset stride index (first :: rest) := by
        rw [installRun, ExtentIndex.installExtent_eq]
        exact @ExtentMap.Store.overrideBy_eq _ _ _ _ ExtentIndex.store _ _ _ _ _ hwf.loose
          (fun _ => wordEnd_eq) hfit hend
      rw [List.foldl_cons, List.foldl_cons, hround]
      refine ih hrest _ (hwf.installExtent hvalid) fun k pe hpe => ?_
      rw [installRun, ExtentIndex.installExtent_eq] at hpe
      exact @ExtentMap.Store.stop_override_lt _ _ _ _ ExtentIndex.store _ _ _ _ hwf hvalid hfit hend
        _ _ hpe
  exact hfold _ (List.Subset.refl _) index hwf hfit

end

end Words

/-- Where the chunk of a range keeps its blocks. -/
structure Range where
  objectID : Nat
  objectOffset : Nat
  stride : Nat
deriving DecidableEq

/-- Location of an item of the range. -/
def Range.locate (range : Range) (item : RangeItem) : Location :=
  item.location range.objectID range.objectOffset range.stride

/-- Progress of the one call that runs. -/
inductive Pass
  | idle
  | predicting (range : Range) (todo eligible : List RangeItem)
  | removing (todo : List RangeItem)
deriving DecidableEq

/-- Progress of `ReadEntry` or `ReadBlock`, with what the block resolved to when the
lookup began. -/
inductive Reader
  | looking (block : Nat) (before : Option Nat)
  | missed (block : Nat) (before : Option Nat)
deriving DecidableEq

/-- What a lookup returned. -/
structure Found where
  block : Nat
  before : Option Nat
  entry : Option BlockEntry
deriving DecidableEq

structure State where
  ubs : UnifiedBlockStore
  pass : Pass
  readers : AList fun _ : Nat => Reader
  found : List Found

inductive Act
  | beginRange (range : Range) (blocks seqNums : List Nat)
  | predict
  | install
  | remove
  | write (block : Nat) (data : Bytes) (seqNum : Nat)
  | markPending (block : Nat)
  | beginLookup (reader block : Nat)
  | lookupEntry (reader : Nat)
  | lookupExtents (reader : Nat)
deriving DecidableEq

def step (s : State) : Act → Option State
  | .beginRange range blocks seqNums =>
    match s.pass with
    | .idle =>
      if blocks.length = seqNums.length then
        some { s with pass := .predicting range (rangeItems blocks seqNums) [] }
      else some s
    | _ => none
  | .predict =>
    match s.pass with
    | .predicting range (item :: todo) eligible =>
      some { s with
        pass := .predicting range todo
          (if s.ubs.eligible item then eligible ++ [item] else eligible) }
    | _ => none
  | .install =>
    match s.pass with
    | .predicting range [] eligible =>
      some { s with
        ubs := { s.ubs with
          persistedExtents := installRunsWords range.objectID range.objectOffset range.stride
            s.ubs.persistedExtents eligible }
        pass := .removing eligible }
    | _ => none
  | .remove =>
    match s.pass with
    | .removing [] => some { s with pass := .idle }
    | .removing (item :: todo) =>
      some { s with ubs := s.ubs.dropPersisted item, pass := .removing todo }
    | _ => none
  | .write block data seqNum =>
    some { s with ubs := s.ubs.writeWithSeqNum block data seqNum }
  | .markPending block => some { s with ubs := s.ubs.markPending block }
  | .beginLookup reader block =>
    if reader ∈ s.readers then none
    else some { s with
      readers := s.readers.insert reader (.looking block (resolvedWords s.ubs block)) }
  | .lookupEntry reader =>
    match s.readers.lookup reader with
    | some (.looking block before) =>
      match s.ubs.entries.lookup block with
      | some entry =>
        some { s with
          readers := s.readers.erase reader
          found := ⟨block, before, some entry⟩ :: s.found }
      | none => some { s with readers := s.readers.insert reader (.missed block before) }
    | _ => none
  | .lookupExtents reader =>
    match s.readers.lookup reader with
    | some (.missed block before) =>
      some { s with
        readers := s.readers.erase reader
        found := ⟨block, before, readPersistedWords s.ubs block⟩ :: s.found }
    | _ => none

section Run

variable (Sealed : Nat → Location → Prop)

/-- Writes bring newer versions, and a range is given in ascending order and with the
places and numbers its chunk was sealed with. -/
def Admitted (s : State) : Act → Prop
  | .write block _ seqNum => ∀ n, resolvedWords s.ubs block = some n → n < seqNum
  | .beginRange range blocks seqNums =>
    (rangeItems blocks seqNums).Pairwise (fun a b => a.block < b.block) ∧
      ∀ item ∈ rangeItems blocks seqNums, Sealed item.block (range.locate item)
  | _ => True

/-- What is asked of a lookup: the block is still there and not older, and a persisted
location is one of a chunk. -/
structure Sees (r : Found) : Prop where
  notBelow : NotBelow r.before (r.entry.map BlockEntry.seqNum)
  located : ∀ entry, r.entry = some entry → entry.state = .persisted →
    Sealed r.block ⟨entry.objectID, entry.objectOffset, entry.seqNum⟩

/-- Every persisted location in the store is one of a chunk. -/
structure Stored (ubs : UnifiedBlockStore) : Prop where
  wf : ubs.persistedExtents.WellFormed
  entries : ∀ block entry, ubs.entries.lookup block = some entry → entry.state = .persisted →
    Sealed block ⟨entry.objectID, entry.objectOffset, entry.seqNum⟩
  extents : ∀ block loc, ubs.persistedExtents.locate block = some loc → Sealed block loc

/-- The blocks the call has found eligible. -/
def Pass.eligible : Pass → List RangeItem
  | .predicting _ _ eligible => eligible
  | _ => []

/-- What holds between the passes. -/
def Pass.Fits (ubs : UnifiedBlockStore) : Pass → Prop
  | .idle => True
  | .predicting range todo eligible =>
    (eligible ++ todo).Pairwise (fun a b => a.block < b.block) ∧
      (∀ item ∈ eligible ++ todo, Sealed item.block (range.locate item)) ∧
      -- an entry stays until the third pass, and its version grows
      ∀ item ∈ eligible, ∃ entry, ubs.entries.lookup item.block = some entry ∧
        item.seqNum ≤ entry.seqNum
  | .removing todo =>
    ∀ item ∈ todo, ∃ loc, ubs.persistedExtents.locate item.block = some loc ∧
      loc.seqNum = item.seqNum

end Run

/-- What a lookup can still count on.  One that has missed the entry reads the extents
next, which may have been changed by then: neither they nor an entry or a prediction
that could change them is older than what the lookup began with. -/
def Reader.Safe (s : State) : Reader → Prop
  | .looking block before => NotBelow before (s.ubs.resolved block)
  | .missed block before => ∀ n, before = some n →
      (∃ loc, s.ubs.persistedExtents.locate block = some loc ∧ n ≤ loc.seqNum) ∧
        (∀ entry, s.ubs.entries.lookup block = some entry → n ≤ entry.seqNum) ∧
        ∀ item ∈ s.pass.eligible, item.block = block → n ≤ item.seqNum

structure Inv (Sealed : Nat → Location → Prop) (s : State) : Prop where
  stored : Stored Sealed s.ubs
  fits : s.pass.Fits Sealed s.ubs
  safe : ∀ r reader, s.readers.lookup r = some reader → reader.Safe s
  sees : ∀ r ∈ s.found, Sees Sealed r

section Steps

variable {Sealed : Nat → Location → Prop} {s t : State}

section

variable (hs : Inv Sealed s)

include hs

theorem Inv.beginRange {range : Range} {items : List RangeItem}
    (hsorted : items.Pairwise fun a b => a.block < b.block)
    (hsealed : ∀ item ∈ items, Sealed item.block (range.locate item)) :
    Inv Sealed { s with pass := .predicting range items [] } where
  stored := hs.stored
  fits := ⟨hsorted, hsealed, fun _ hitem => absurd hitem List.not_mem_nil⟩
  safe r reader hreader := by
    have hsafe := hs.safe r reader hreader
    cases reader with
    | looking block before => exact hsafe
    | missed block before =>
      intro n hn
      obtain ⟨hloc, hentry, -⟩ := hsafe n hn
      exact ⟨hloc, hentry, fun _ hitem => absurd hitem List.not_mem_nil⟩
  sees := hs.sees

theorem Inv.predict {range : Range} {item : RangeItem} {todo eligible : List RangeItem}
    (hpass : s.pass = .predicting range (item :: todo) eligible) :
    Inv Sealed { s with
      pass := .predicting range todo
        (if s.ubs.eligible item then eligible ++ [item] else eligible) } := by
  have hfits := hs.fits
  rw [hpass] at hfits
  obtain ⟨hsorted, hsealed, hentries⟩ := hfits
  split
  · rename_i heligible
    obtain ⟨entry, hentry, -, hseqNum⟩ := UnifiedBlockStore.seqNum_of_eligible heligible
    have happend : (eligible ++ [item]) ++ todo = eligible ++ item :: todo := by
      rw [List.append_assoc]
      rfl
    refine ⟨hs.stored, ⟨by rwa [happend], by rwa [happend], ?_⟩, ?_, hs.sees⟩
    · intro other hother
      rcases List.mem_append.mp hother with hold | hnew
      · exact hentries other hold
      · obtain rfl := List.mem_singleton.mp hnew
        exact ⟨entry, hentry, hseqNum.ge⟩
    · intro r reader hreader
      have hsafe := hs.safe r reader hreader
      cases reader with
      | looking block before => exact hsafe
      | missed block before =>
        intro n hn
        obtain ⟨hloc, hnewer, hpredicted⟩ := hsafe n hn
        rw [hpass] at hpredicted
        refine ⟨hloc, hnewer, fun other hother hblock => ?_⟩
        rcases List.mem_append.mp hother with hold | hnew
        · exact hpredicted other hold hblock
        · obtain rfl := List.mem_singleton.mp hnew
          rw [← hseqNum]
          exact hnewer entry (hblock ▸ hentry)
  · have hsub : (eligible ++ todo).Sublist (eligible ++ item :: todo) :=
      (List.sublist_cons_self item todo).append_left eligible
    refine ⟨hs.stored, ⟨hsorted.sublist hsub, fun other hother => hsealed other
      (hsub.subset hother), hentries⟩, ?_, hs.sees⟩
    intro r reader hreader
    have hsafe := hs.safe r reader hreader
    cases reader with
    | looking block before => exact hsafe
    | missed block before =>
      intro n hn
      have hcounts := hsafe n hn
      rw [hpass] at hcounts
      exact hcounts

theorem Inv.install {range : Range} {eligible : List RangeItem}
    (hpass : s.pass = .predicting range [] eligible) :
    Inv Sealed { s with
      ubs := { s.ubs with
        persistedExtents := installRuns range.objectID range.objectOffset range.stride
          s.ubs.persistedExtents eligible }
      pass := .removing eligible } := by
  have hfits := hs.fits
  rw [hpass] at hfits
  obtain ⟨hsorted, hsealed, hentries⟩ := hfits
  rw [List.append_nil] at hsorted hsealed
  obtain ⟨hwf, hlocated, hother⟩ := installRuns_spec range.objectID range.objectOffset
    range.stride hs.stored.wf hsorted
  refine ⟨⟨hwf, hs.stored.entries, ?_⟩, ?_, ?_, hs.sees⟩
  · intro block loc hloc
    by_cases hmem : ∃ item ∈ eligible, item.block = block
    · obtain ⟨item, hitem, rfl⟩ := hmem
      rw [← Option.some.inj ((hlocated item hitem).symm.trans hloc)]
      exact hsealed item hitem
    · refine hs.stored.extents block loc ?_
      exact (hother block fun item hitem heq => hmem ⟨item, hitem, heq⟩).symm.trans hloc
  · exact fun item hitem => ⟨_, hlocated item hitem, rfl⟩
  · intro r reader hreader
    have hsafe := hs.safe r reader hreader
    cases reader with
    | looking block before =>
      -- a block without an entry is not among the eligible ones
      have hsame : s.ubs.entries.lookup block = none →
          (installRuns range.objectID range.objectOffset range.stride
            s.ubs.persistedExtents eligible).locate block =
            s.ubs.persistedExtents.locate block := by
        intro hnone
        refine hother block fun item hitem heq => ?_
        obtain ⟨entry, hentry, -⟩ := hentries item hitem
        rw [heq, hnone] at hentry
        cases hentry
      refine hsafe.trans ?_
      rw [resolved_eq hs.stored.wf, resolved_eq hwf]
      cases hentry : s.ubs.entries.lookup block with
      | some entry => exact NotBelow.refl _
      | none =>
        rw [hsame hentry]
        exact NotBelow.refl _
    | missed block before =>
      intro n hn
      obtain ⟨⟨loc, hloc, hle⟩, hnewer, hpredicted⟩ := hsafe n hn
      rw [hpass] at hpredicted
      refine ⟨?_, hnewer, fun _ hitem => absurd hitem List.not_mem_nil⟩
      by_cases hmem : ∃ item ∈ eligible, item.block = block
      · obtain ⟨item, hitem, rfl⟩ := hmem
        exact ⟨_, hlocated item hitem, hpredicted item hitem rfl⟩
      · exact ⟨loc, (hother block fun item hitem heq => hmem ⟨item, hitem, heq⟩).trans hloc, hle⟩

/-- Third pass: an entry is dropped, and the extents have its version. -/
theorem Inv.remove {item : RangeItem} {todo : List RangeItem}
    (hpass : s.pass = .removing (item :: todo)) :
    Inv Sealed { s with ubs := s.ubs.dropPersisted item, pass := .removing todo } := by
  have hfits := hs.fits
  rw [hpass] at hfits
  have hextents : (s.ubs.dropPersisted item).persistedExtents = s.ubs.persistedExtents :=
    (UnifiedBlockStore.foldl_dropPersisted [item] s.ubs).1
  have hkept : ∀ block entry, (s.ubs.dropPersisted item).entries.lookup block = some entry →
      s.ubs.entries.lookup block = some entry :=
    (UnifiedBlockStore.foldl_dropPersisted [item] s.ubs).2
  have hwf : (s.ubs.dropPersisted item).persistedExtents.WellFormed := hextents ▸ hs.stored.wf
  refine ⟨⟨hwf, fun block entry hentry => hs.stored.entries block entry
    (hkept block entry hentry), ?_⟩, ?_, ?_, hs.sees⟩
  · rw [hextents]
    exact hs.stored.extents
  · intro other hother
    rw [hextents]
    exact hfits other (List.mem_cons_of_mem _ hother)
  · intro r reader hreader
    have hsafe := hs.safe r reader hreader
    cases reader with
    | looking block before =>
      refine hsafe.trans ?_
      rw [resolved_eq hs.stored.wf, resolved_eq hwf, hextents,
        UnifiedBlockStore.lookup_dropPersisted]
      split
      · rename_i hdropped
        obtain ⟨rfl, heligible⟩ := hdropped
        obtain ⟨entry, hentry, -, hseqNum⟩ :=
          UnifiedBlockStore.seqNum_of_eligible heligible
        obtain ⟨loc, hloc, hlocSeq⟩ := hfits item List.mem_cons_self
        rw [hentry, hloc, Option.map_some, Option.map_some, Option.map_none, hseqNum, hlocSeq]
        exact NotBelow.refl _
      · exact NotBelow.refl _
    | missed block before =>
      intro n hn
      obtain ⟨hloc, hnewer, -⟩ := hsafe n hn
      rw [hextents]
      exact ⟨hloc, fun entry hentry => hnewer entry (hkept block entry hentry),
        fun _ hitem => absurd hitem List.not_mem_nil⟩

theorem Inv.setEntry {block : Nat} {entry : BlockEntry} (hstate : entry.state ≠ .persisted)
    (hnewer : ∀ n, s.ubs.resolved block = some n → n ≤ entry.seqNum) :
    Inv Sealed { s with
      ubs := { s.ubs with entries := s.ubs.entries.insert block entry } } := by
  have hwf := hs.stored.wf
  have hentries : ∀ other e, (s.ubs.entries.insert block entry).lookup other = some e →
      other = block ∧ e = entry ∨ s.ubs.entries.lookup other = some e :=
    fun _ _ => FiniteMap.lookup_insert_eq_some
  refine ⟨⟨hwf, ?_, hs.stored.extents⟩, ?_, ?_, hs.sees⟩
  · intro other e he
    rcases hentries other e he with ⟨-, rfl⟩ | hold
    · exact fun hpersisted => absurd hpersisted hstate
    · exact hs.stored.entries other e hold
  · have hfits := hs.fits
    cases hpass : s.pass with
    | idle => trivial
    | removing todo =>
      rw [hpass] at hfits
      exact hfits
    | predicting range todo eligible =>
      rw [hpass] at hfits
      refine ⟨hfits.1, hfits.2.1, fun item hitem => ?_⟩
      obtain ⟨e, he, hle⟩ := hfits.2.2 item hitem
      by_cases hblock : item.block = block
      · refine ⟨entry, by rw [hblock]; exact AList.lookup_insert _, hle.trans ?_⟩
        exact hnewer _ (hblock ▸ resolved_of_entry he)
      · exact ⟨e, (AList.lookup_insert_ne hblock).trans he, hle⟩
  · intro r reader hreader
    have hsafe := hs.safe r reader hreader
    cases reader with
    | looking other before =>
      exact hsafe.trans ((notBelow_insert_iff block entry).mpr hnewer other)
    | missed other before =>
      intro n hn
      obtain ⟨⟨loc, hloc, hle⟩, holder, hpredicted⟩ := hsafe n hn
      refine ⟨⟨loc, hloc, hle⟩, fun e he => ?_, hpredicted⟩
      rcases hentries other e he with ⟨rfl, rfl⟩ | hold
      · -- the version found before the change is at least the one of the lookup
        have hresolved := resolved_eq hwf other
        cases hentry : s.ubs.entries.lookup other with
        | some old =>
          exact (holder old hentry).trans (hnewer _ (resolved_of_entry hentry))
        | none =>
          rw [hentry, hloc] at hresolved
          exact hle.trans (hnewer _ hresolved)
      · exact holder e hold

end

theorem exists_written {ubs : UnifiedBlockStore} {block seqNum : Nat} (data : Bytes)
    (hnewer : ∀ n, ubs.resolved block = some n → n < seqNum) :
    ∃ entry, ubs.writeWithSeqNum block data seqNum =
        { ubs with entries := ubs.entries.insert block entry } ∧
      entry.state ≠ .persisted ∧ entry.seqNum = seqNum := by
  unfold UnifiedBlockStore.writeWithSeqNum
  cases hentry : ubs.entries.lookup block with
  | some old =>
    have hlt := hnewer _ (resolved_of_entry hentry)
    refine ⟨⟨data, seqNum, 0, 0, .hot⟩, ?_, by rintro ⟨⟩, rfl⟩
    simp only [Option.getD_some, if_pos hlt]
  | none =>
    cases seqNum with
    | zero => exact ⟨⟨[], 0, 0, 0, .empty⟩, rfl, by rintro ⟨⟩, rfl⟩
    | succ n => exact ⟨⟨data, n + 1, 0, 0, .hot⟩, rfl, by rintro ⟨⟩, rfl⟩

section

variable (hs : Inv Sealed s)

include hs

theorem Inv.markPending (block : Nat) :
    Inv Sealed { s with ubs := s.ubs.markPending block } := by
  unfold UnifiedBlockStore.markPending
  split
  · rename_i entry hentry
    split
    · refine hs.setEntry (by rintro ⟨⟩) fun n hn => ?_
      rw [resolved_of_entry hentry] at hn
      exact (Option.some.inj hn).ge
    · exact hs
  · exact hs

theorem Inv.setReader (r : Nat) {reader : Reader} (hsafe : reader.Safe s) :
    Inv Sealed { s with readers := s.readers.insert r reader } := by
  refine ⟨hs.stored, hs.fits, fun r' reader' hreader' => ?_, hs.sees⟩
  rcases FiniteMap.lookup_insert_eq_some hreader' with ⟨-, rfl⟩ | hold
  · cases reader' <;> exact hsafe
  · have hold := hs.safe r' reader' hold
    cases reader' <;> exact hold

theorem Inv.return (r : Nat) {found : Found} (hsees : Sees Sealed found) :
    Inv Sealed { s with readers := s.readers.erase r, found := found :: s.found } := by
  refine ⟨hs.stored, hs.fits, fun r' reader' hreader' => ?_, fun other hother => ?_⟩
  · have hold := hs.safe r' reader' (FiniteMap.lookup_erase_eq_some hreader').2
    cases reader' <;> exact hold
  · rcases List.mem_cons.mp hother with rfl | hother
    · exact hsees
    · exact hs.sees other hother

/-- A lookup that misses the entry can count on the extents. -/
theorem Inv.missed {block : Nat} {before : Option Nat} (hnone : s.ubs.entries.lookup block = none)
    (hsafe : NotBelow before (s.ubs.resolved block)) :
    (Reader.missed block before).Safe s := by
  intro n hn
  obtain ⟨m, hm, hle⟩ := hsafe n hn
  rw [resolved_eq hs.stored.wf, hnone, Option.map_none, Option.none_or,
    Option.map_eq_some_iff] at hm
  obtain ⟨loc, hloc, rfl⟩ := hm
  refine ⟨⟨loc, hloc, hle⟩, fun entry hentry => ?_, fun item hitem hblock => ?_⟩
  · rw [hnone] at hentry
    cases hentry
  · -- an eligible block still has its entry
    have hfits := hs.fits
    cases hpass : s.pass with
    | predicting range todo eligible =>
      rw [hpass] at hfits hitem
      obtain ⟨entry, hentry, -⟩ := hfits.2.2 item hitem
      rw [hblock, hnone] at hentry
      cases hentry
    | idle =>
      rw [hpass] at hitem
      cases hitem
    | removing todo =>
      rw [hpass] at hitem
      cases hitem

theorem Inv.sees_extents {block : Nat} {before : Option Nat}
    (hsafe : (Reader.missed block before).Safe s) :
    Sees Sealed ⟨block, before, s.ubs.readPersisted block⟩ := by
  have hread := UnifiedBlockStore.readPersisted_eq hs.stored.wf block
  refine ⟨fun n hn => ?_, fun entry hentry _ => ?_⟩
  · obtain ⟨⟨loc, hloc, hle⟩, -⟩ := hsafe n hn
    exact ⟨loc.seqNum, by rw [hread, hloc]; rfl, hle⟩
  · rw [hread] at hentry
    obtain ⟨loc, hloc, rfl⟩ := Option.map_eq_some_iff.mp hentry
    exact hs.stored.extents block loc hloc

end

theorem inv_step (hlast : ∀ block loc, Sealed block loc → block + 1 < 2 ^ 64)
    (hs : Inv Sealed s) {a : Act} (hadmitted : Admitted Sealed s a) (hstep : step s a = some t) :
    Inv Sealed t := by
  have hfit : s.ubs.persistedExtents.EndsFit := hs.stored.wf.endsFit_iff.mpr
    fun block loc hloc => hlast block loc (hs.stored.extents block loc hloc)
  revert hstep
  fun_cases step s a <;> intro hstep <;> cases hstep
  · exact hs.beginRange hadmitted.1 hadmitted.2
  · exact hs
  · exact hs.predict ‹_›
  · rename_i range eligible hpass
    have hfits := hs.fits
    rw [hpass] at hfits
    rw [installRunsWords_eq _ _ _ hs.stored.wf hfit fun item hitem =>
      hlast _ _ (hfits.2.1 item (List.mem_append_left _ hitem))]
    exact hs.install hpass
  · refine ⟨hs.stored, trivial, fun r reader hreader => ?_, hs.sees⟩
    have hsafe := hs.safe r reader hreader
    cases reader with
    | looking block before => exact hsafe
    | missed block before =>
      intro n hn
      obtain ⟨hloc, hnewer, -⟩ := hsafe n hn
      exact ⟨hloc, hnewer, fun _ hitem => absurd hitem List.not_mem_nil⟩
  · exact hs.remove ‹_›
  · rename_i block data seqNum
    rw [Admitted, resolvedWords_eq hfit] at hadmitted
    obtain ⟨entry, hwrite, hstate, hseqNum⟩ := exists_written data hadmitted
    rw [hwrite]
    exact hs.setEntry hstate fun n hn => hseqNum ▸ (hadmitted n hn).le
  · exact hs.markPending _
  · rw [resolvedWords_eq hfit]
    exact hs.setReader _ (NotBelow.refl _)
  · rename_i reader block before hreader entry hentry
    have hsafe : NotBelow before (s.ubs.resolved block) := hs.safe _ _ hreader
    rw [resolved_of_entry hentry] at hsafe
    refine hs.return reader ⟨hsafe, fun e he => ?_⟩
    rw [← Option.some.inj he]
    exact hs.stored.entries block entry hentry
  · rename_i reader block before hreader hnone
    exact hs.setReader reader (hs.missed hnone (hs.safe _ _ hreader))
  · rw [readPersistedWords_eq hfit]
    exact hs.return _ (hs.sees_extents (hs.safe _ _ ‹_›))

end Steps

/-- While ranges are persisted one after the other, and no chunk holds the last block, every
lookup finds what was there when it began or something newer, and every location it returns
is one of a chunk. -/
theorem lookups_see {Sealed : Nat → Location → Prop} {ubs : UnifiedBlockStore} {acts : List Act}
    {s : State} (hlast : ∀ block loc, Sealed block loc → block + 1 < 2 ^ 64)
    (hstored : Stored Sealed ubs) (hrun : Run step (Admitted Sealed) ⟨ubs, .idle, ∅, []⟩ acts s) :
    ∀ r ∈ s.found, Sees Sealed r := by
  have hstart : Inv Sealed ⟨ubs, .idle, ∅, []⟩ :=
    ⟨hstored, trivial, by rintro _ _ ⟨⟩, fun _ hr => absurd hr List.not_mem_nil⟩
  exact (hrun.preserves (fun _ _ _ hs hadmitted hstep => inv_step hlast hs hadmitted hstep)
    hstart).sees

section Race

/-- What the chunks of a run hold. -/
def Listed (held : List (Nat × Location)) (block : Nat) (loc : Location) : Prop :=
  (block, loc) ∈ held

instance (held : List (Nat × Location)) (block : Nat) (loc : Location) :
    Decidable (Listed held block loc) :=
  inferInstanceAs (Decidable (_ ∈ _))

theorem all_lt_iff (v : Option Nat) (seqNum : Nat) :
    (v.all fun n => decide (n < seqNum)) = true ↔ ∀ n, v = some n → n < seqNum := by
  cases v <;> simp

instance (held : List (Nat × Location)) (s : State) (a : Act) :
    Decidable (Admitted (Listed held) s a) :=
  match a with
  | .write block _ seqNum => decidable_of_iff _ (all_lt_iff (resolvedWords s.ubs block) seqNum)
  | .beginRange _ _ _ => inferInstanceAs (Decidable (_ ∧ _))
  | .predict => .isTrue trivial
  | .install => .isTrue trivial
  | .remove => .isTrue trivial
  | .markPending _ => .isTrue trivial
  | .beginLookup _ _ => .isTrue trivial
  | .lookupEntry _ => .isTrue trivial
  | .lookupExtents _ => .isTrue trivial

/-- Two versions of block 5. -/
def twoVersions : List (Nat × Location) :=
  [(5, ⟨0, 10, 1⟩), (5, ⟨1, 10, 2⟩)]

/-- Block 5 is rewritten after it was found eligible, so an extent for version 1 is left
behind the entry for version 2.  A lookup begins before version 2 is persisted, misses
the entry that was dropped and reads the extents. -/
def rewriteAndLookup : List Act :=
  [.write 5 [7] 1, .markPending 5, .beginRange ⟨0, 10, 1⟩ [5] [1], .predict,
    .write 5 [8] 2, .install, .remove, .remove, .markPending 5,
    .beginRange ⟨1, 10, 1⟩ [5] [2], .predict, .beginLookup 0 5, .install, .remove,
    .lookupEntry 0, .lookupExtents 0]

theorem stored_new (Sealed : Nat → Location → Prop) :
    Stored Sealed UnifiedBlockStore.new :=
  ⟨ExtentMap.wellFormed_empty, by rintro _ _ ⟨⟩, by rintro _ _ ⟨⟩⟩

theorem lookups_see_rewriteAndLookup :
    ∃ s, Run step (Admitted (Listed twoVersions)) ⟨UnifiedBlockStore.new, .idle, ∅, []⟩
        rewriteAndLookup s ∧
      s.found = [⟨5, some 2, some ⟨[], 2, 1, 10, .persisted⟩⟩] ∧
      Sees (Listed twoVersions) ⟨5, some 2, some ⟨[], 2, 1, 10, .persisted⟩⟩ := by
  obtain ⟨s, hrun, hs⟩ := Run.exists_of_exec step (Admitted (Listed twoVersions))
    ⟨UnifiedBlockStore.new, .idle, ∅, []⟩ rewriteAndLookup
    (fun s => decide (s.found = [⟨5, some 2, some ⟨[], 2, 1, 10, .persisted⟩⟩]))
    (by decide +kernel)
  have hfound := of_decide_eq_true hs
  refine ⟨s, hrun, hfound, lookups_see ?_ (stored_new _) hrun _ (by rw [hfound]; simp)⟩
  intro block loc hheld
  simp only [Listed, twoVersions, List.mem_cons, Prod.mk.injEq, List.not_mem_nil, or_false] at hheld
  omega

/-- The last two blocks, in one chunk. -/
def lastBlocks : List (Nat × Location) :=
  [(2 ^ 64 - 2, ⟨0, 10, 1⟩), (2 ^ 64 - 1, ⟨0, 11, 2⟩)]

/-- They are written and persisted together, while a lookup of the last one is on its way. -/
def persistLast : List Act :=
  [.write (2 ^ 64 - 2) [7] 1, .markPending (2 ^ 64 - 2), .write (2 ^ 64 - 1) [8] 2,
    .markPending (2 ^ 64 - 1), .beginRange ⟨0, 10, 1⟩ [2 ^ 64 - 2, 2 ^ 64 - 1] [1, 2], .predict,
    .predict, .beginLookup 0 (2 ^ 64 - 1), .install, .remove, .remove, .lookupEntry 0,
    .lookupExtents 0]

/-- The lookup finds nothing, though the block was there when it began. -/
theorem lastBlock_not_seen :
    ∃ s, Run step (Admitted (Listed lastBlocks)) ⟨UnifiedBlockStore.new, .idle, ∅, []⟩
        persistLast s ∧
      s.found = [⟨2 ^ 64 - 1, some 2, none⟩] ∧
      ¬ Sees (Listed lastBlocks) ⟨2 ^ 64 - 1, some 2, none⟩ := by
  obtain ⟨s, hrun, hs⟩ := Run.exists_of_exec step (Admitted (Listed lastBlocks))
    ⟨UnifiedBlockStore.new, .idle, ∅, []⟩ persistLast
    (fun s => decide (s.found = [⟨2 ^ 64 - 1, some 2, none⟩])) (by decide +kernel)
  refine ⟨s, hrun, of_decide_eq_true hs, fun hsees => ?_⟩
  obtain ⟨_, hnone, -⟩ := hsees.notBelow 2 rfl
  cases hnone

end Race

end PersistRace

end Viperblock
