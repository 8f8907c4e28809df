import Mathlib.Algebra.Order.Floor.Div
import Mathlib.Data.Finset.Basic
import Mathlib.Data.Finset.Dedup
import Mathlib.Tactic.Tauto
import Viperblock.Lib.FiniteMap
import Viperblock.Requests

/-!
# The block accounting of SimpleFS

A file system keeps a list of free blocks, the set of used ones and, for every file, the
list of its blocks.  A file that is created anew first gives back the blocks of the file it
replaces; the allocation that follows may fail.

Every sequence of calls keeps the three in step (`Accounted`).  A single `createFile` is all
or nothing exactly if the block count does not wrap and is one a slice can have, and the
blocks it takes are distinct and of no other file or, if there are too few, it replaces none.
-/

namespace Viperblock

/-- What a call of the file system came to. -/
inductive FSResult (α : Type)
  | ok (a : α)
  | error (msg : String)
  | panic
deriving DecidableEq

structure SimpleVolume where
  used : Finset Nat
  free : List Nat
  size : UInt64
  name : String
deriving DecidableEq

structure SimpleBlock where
  filename : String
  size : UInt64
  blocks : List Nat
deriving DecidableEq

structure SimpleFS where
  volume : SimpleVolume
  blocks : AList fun _ : String => SimpleBlock
  blocksize : UInt64
deriving DecidableEq

def safeUint64ToInt (v : UInt64) : Nat :=
  min v.toNat (2 ^ 63 - 1)

/-- A slice of block numbers of this length is larger than any buffer. -/
def tooManyBlocks (length : UInt64) : Bool :=
  decide (Requests.maxAlloc < 8 * length.toNat)

namespace SimpleVolume

def allocateBlocks (v : SimpleVolume) (size : UInt64) :
    SimpleVolume × FSResult (List Nat) :=
  if tooManyBlocks size then (v, .panic)
  else if v.free.length < safeUint64ToInt size then (v, .error "not enough free blocks")
  else
    let blocks := v.free.take (safeUint64ToInt size)
    ({ v with
        used := blocks.foldl (fun used block => insert block used) v.used
        free := v.free.drop blocks.length },
      .ok blocks)

def freeBlocks (v : SimpleVolume) (blocks : List Nat) : SimpleVolume :=
  blocks.foldl
    (fun v block => { v with used := v.used.erase block, free := v.free ++ [block] }) v

end SimpleVolume

namespace SimpleFS

def new : SimpleFS :=
  ⟨⟨∅, [], 0, ""⟩, ∅, 4096⟩

section

variable (sfs : SimpleFS)

def createVolume (name : String) (size : UInt64) : SimpleFS × FSResult Unit :=
  if sfs.blocksize = 0 then (sfs, .panic)
  else if size % sfs.blocksize ≠ 0 then
    (sfs, .error "size must be a multiple of the blocksize")
  else
    let totalBlocks := size / sfs.blocksize
    let volume := { sfs.volume with size := totalBlocks, name := name, used := ∅ }
    if tooManyBlocks totalBlocks then ({ sfs with volume := volume }, .panic)
    else ({ sfs with volume := { volume with free := List.range totalBlocks.toNat } }, .ok ())

def formatVolume : SimpleFS × FSResult Unit :=
  let volume := { sfs.volume with used := ∅ }
  if tooManyBlocks volume.size then ({ sfs with volume := volume }, .panic)
  else
    ({ sfs with
        volume := { volume with free := List.range volume.size.toNat }
        blocks := ∅ },
      .ok ())

/-- The blocks of a file are freed and the file leaves the table. -/
def release (pathname : String) (file : SimpleBlock) : SimpleFS :=
  { sfs with
    volume := sfs.volume.freeBlocks file.blocks
    blocks := sfs.blocks.erase pathname }

/-- A file of that name is gone before the new one has its blocks. -/
def released (pathname : String) : SimpleFS :=
  match sfs.blocks.lookup pathname with
  | some file => sfs.release pathname file
  | none => sfs

def createFile (pathname : String) (dataLen : UInt64) :
    SimpleFS × FSResult (List Nat) :=
  if sfs.blocksize = 0 then (sfs, .panic)
  else
    let numBlocks := (dataLen + sfs.blocksize - 1) / sfs.blocksize
    let sfs := sfs.released pathname
    match sfs.volume.allocateBlocks numBlocks with
    | (_, .panic) => (sfs, .panic)
    | (_, .error msg) => (sfs, .error msg)
    | (volume, .ok blocks) =>
      ({ sfs with
          volume := volume
          blocks := sfs.blocks.insert pathname ⟨pathname, dataLen, blocks⟩ },
        .ok blocks)

def deleteFile (pathname : String) : SimpleFS × FSResult Unit :=
  match sfs.blocks.lookup pathname with
  | none => (sfs, .error "file not found")
  | some file => (sfs.release pathname file, .ok ())

end

end SimpleFS

inductive FSCall
  | createFile (pathname : String) (dataLen : UInt64)
  | deleteFile (pathname : String)
  | formatVolume

namespace SimpleFS

/-- The file system after a call, whatever the call returned. -/
def call (sfs : SimpleFS) : FSCall → SimpleFS
  | .createFile pathname dataLen => (sfs.createFile pathname dataLen).1
  | .deleteFile pathname => (sfs.deleteFile pathname).1
  | .formatVolume => sfs.formatVolume.1

/-- The free list has no duplicates, free and used blocks partition the volume, and the used
ones are the disjoint union of the block lists of the files. -/
structure Accounted (sfs : SimpleFS) : Prop where
  free_nodup : sfs.volume.free.Nodup
  covers : ∀ b, b < sfs.volume.size.toNat ↔ b ∈ sfs.volume.free ∨ b ∈ sfs.volume.used
  apart : ∀ b ∈ sfs.volume.free, b ∉ sfs.volume.used
  used_iff : ∀ b, b ∈ sfs.volume.used ↔
    ∃ pathname file, sfs.blocks.lookup pathname = some file ∧ b ∈ file.blocks
  file_nodup : ∀ pathname file, sfs.blocks.lookup pathname = some file → file.blocks.Nodup
  files_disjoint : ∀ pathname other file file', pathname ≠ other →
    sfs.blocks.lookup pathname = some file → sfs.blocks.lookup other = some file' →
    file.blocks.Disjoint file'.blocks

/-- The blocks of all files. -/
def fileBlocks (sfs : SimpleFS) : List Nat :=
  sfs.blocks.entries.flatMap fun entry => entry.2.blocks

/-- The free list and the block lists of the files together are the blocks of the volume,
each once, and those of the files are the used ones. -/
structure Partitioned (sfs : SimpleFS) : Prop where
  perm : (sfs.volume.free ++ sfs.fileBlocks).Perm (List.range sfs.volume.size.toNat)
  used_iff : ∀ b, b ∈ sfs.volume.used ↔ b ∈ sfs.fileBlocks

section Partition

variable {sfs : SimpleFS} {pathname : String} {file : SimpleBlock}

theorem mem_fileBlocks_iff {b : Nat} :
    b ∈ sfs.fileBlocks ↔
      ∃ pathname file, sfs.blocks.lookup pathname = some file ∧ b ∈ file.blocks := by
  unfold fileBlocks
  rw [List.mem_flatMap]
  constructor
  · rintro ⟨⟨pathname, file⟩, hentry, hb⟩
    exact ⟨pathname, file, FiniteMap.mem_entries_iff.mp hentry, hb⟩
  · rintro ⟨pathname, file, hlookup, hb⟩
    exact ⟨⟨pathname, file⟩, FiniteMap.mem_entries_iff.mpr hlookup, hb⟩

theorem Partitioned.nodup (h : Partitioned sfs) : (sfs.volume.free ++ sfs.fileBlocks).Nodup :=
  h.perm.nodup_iff.mpr List.nodup_range

theorem Partitioned.files_nodup (h : Partitioned sfs) :
    sfs.fileBlocks.Nodup :=
  (List.nodup_append'.mp h.nodup).2.1

theorem Partitioned.accounted (h : Partitioned sfs) :
    Accounted sfs := by
  obtain ⟨hfree, hfiles, hdisjoint⟩ := List.nodup_append'.mp h.nodup
  obtain ⟨hfile, hpairwise⟩ := List.nodup_flatMap.mp hfiles
  constructor
  · exact hfree
  · intro b
    rw [h.used_iff, ← List.mem_append, h.perm.mem_iff, List.mem_range]
  · intro b hb hused
    exact hdisjoint hb ((h.used_iff b).mp hused)
  · intro b
    rw [h.used_iff, mem_fileBlocks_iff]
  · intro pathname file hlookup
    exact hfile _ (FiniteMap.mem_entries_iff.mpr hlookup)
  · intro pathname other file file' hne hlookup hother
    rw [(FiniteMap.entries_perm_of_lookup hlookup).pairwise_iff fun h => h.symm,
      List.pairwise_cons] at hpairwise
    refine hpairwise.1 ⟨other, file'⟩ (FiniteMap.mem_entries_iff.mpr ?_)
    rwa [AList.lookup_erase_ne hne.symm]

theorem freeBlocks_eq (v : SimpleVolume) (blocks : List Nat) :
    v.freeBlocks blocks =
      { v with used := v.used \ blocks.toFinset, free := v.free ++ blocks } := by
  unfold SimpleVolume.freeBlocks
  induction blocks generalizing v with
  | nil => simp
  | cons b blocks ih =>
    rw [List.foldl_cons, ih]
    congr 1
    · ext x
      simp only [Finset.mem_sdiff, Finset.mem_erase, List.toFinset_cons, Finset.mem_insert]
      tauto
    · simp

theorem mem_foldl_insert {blocks : List Nat} {used : Finset Nat} {b : Nat} :
    b ∈ blocks.foldl (fun used block => insert block used) used ↔ b ∈ blocks ∨ b ∈ used := by
  induction blocks generalizing used with
  | nil => simp
  | cons c blocks ih =>
    rw [List.foldl_cons, ih, List.mem_cons, Finset.mem_insert]
    tauto

theorem fileBlocks_perm (hlookup : sfs.blocks.lookup pathname = some file) :
    sfs.fileBlocks.Perm (file.blocks ++ (sfs.release pathname file).fileBlocks) :=
  (FiniteMap.entries_perm_of_lookup hlookup).flatMap_right _

theorem Partitioned.release (h : Partitioned sfs)
    (hlookup : sfs.blocks.lookup pathname = some file) :
    Partitioned (sfs.release pathname file) := by
  have hperm := fileBlocks_perm hlookup
  have hdisjoint := (List.nodup_append'.mp (hperm.nodup_iff.mp h.files_nodup)).2.2
  have hvolume : (sfs.release pathname file).volume = sfs.volume.freeBlocks file.blocks := rfl
  constructor
  · rw [hvolume, freeBlocks_eq, List.append_assoc]
    exact (hperm.symm.append_left _).trans h.perm
  · intro b
    rw [hvolume, freeBlocks_eq]
    rw [Finset.mem_sdiff, h.used_iff, hperm.mem_iff, List.mem_append, List.mem_toFinset]
    constructor
    · rintro ⟨hb | hb, hnot⟩
      · exact absurd hb hnot
      · exact hb
    · exact fun hb => ⟨.inr hb, fun hfile => hdisjoint hfile hb⟩

theorem tooManyBlocks_iff {length : UInt64} :
    tooManyBlocks length = true ↔ 2 ^ 45 < length.toNat := by
  unfold tooManyBlocks Requests.maxAlloc
  rw [decide_eq_true_iff]
  omega

theorem safeUint64ToInt_eq {size : UInt64} (hfits : ¬ tooManyBlocks size = true) :
    safeUint64ToInt size = size.toNat := by
  rw [tooManyBlocks_iff] at hfits
  unfold safeUint64ToInt
  omega

/-- An allocation takes as many blocks as it was asked for from the front of the free list. -/
theorem allocateBlocks_ok {v volume : SimpleVolume} {size : UInt64} {blocks : List Nat}
    (halloc : v.allocateBlocks size = (volume, .ok blocks)) :
    v.free = blocks ++ volume.free ∧ blocks.length = size.toNat ∧ size.toNat ≤ 2 ^ 45 ∧
      volume.size = v.size ∧ ∀ b, b ∈ volume.used ↔ b ∈ blocks ∨ b ∈ v.used := by
  unfold SimpleVolume.allocateBlocks at halloc
  split at halloc
  · cases halloc
  rename_i hfits
  split at halloc
  · cases halloc
  · rename_i henough
    cases halloc
    rw [safeUint64ToInt_eq hfits] at henough ⊢
    have hlength : (v.free.take size.toNat).length = size.toNat :=
      List.length_take_of_le (by omega)
    refine ⟨?_, hlength, ?_, rfl, fun _ => mem_foldl_insert⟩
    · dsimp only
      rw [hlength, List.take_append_drop]
    · rwa [tooManyBlocks_iff, not_lt] at hfits

theorem Partitioned.add (h : Partitioned sfs) (hnew : sfs.blocks.lookup pathname = none)
    {volume : SimpleVolume} {size : UInt64} {blocks : List Nat} (dataLen : UInt64)
    (halloc : sfs.volume.allocateBlocks size = (volume, .ok blocks)) :
    Partitioned { sfs with
      volume := volume
      blocks := sfs.blocks.insert pathname ⟨pathname, dataLen, blocks⟩ } := by
  obtain ⟨hfree, -, -, hsize, hused⟩ := allocateBlocks_ok halloc
  have hfiles : fileBlocks { sfs with
      volume := volume
      blocks := sfs.blocks.insert pathname ⟨pathname, dataLen, blocks⟩ } =
        blocks ++ sfs.fileBlocks := by
    unfold fileBlocks
    rw [AList.entries_insert_of_notMem (AList.lookup_eq_none.mp hnew)]
    rfl
  constructor
  · rw [hfiles]
    rw [hsize]
    refine .trans ?_ h.perm
    rw [hfree, ← List.append_assoc]
    exact List.perm_append_comm.append_right _
  · intro b
    rw [hfiles, List.mem_append, hused, h.used_iff]

theorem Partitioned.released (h : Partitioned sfs) (pathname : String) :
    Partitioned (sfs.released pathname) := by
  unfold SimpleFS.released
  split
  · exact h.release ‹_›
  · exact h

theorem lookup_released (sfs : SimpleFS) (pathname : String) :
    (sfs.released pathname).blocks.lookup pathname = none := by
  unfold released
  split
  · exact AList.lookup_erase _ _
  · assumption

theorem Partitioned.empty {volume : SimpleVolume} (hused : volume.used = ∅)
    (hfree : volume.free = List.range volume.size.toNat) (blocksize : UInt64) :
    Partitioned ⟨volume, ∅, blocksize⟩ := by
  constructor
  · rw [hfree]
    simp [fileBlocks]
  · simp [hused, fileBlocks]

theorem size_release (sfs : SimpleFS) (pathname : String) (file : SimpleBlock) :
    (sfs.release pathname file).volume.size = sfs.volume.size := by
  unfold release
  rw [freeBlocks_eq]

theorem size_released (sfs : SimpleFS) (pathname : String) :
    (sfs.released pathname).volume.size = sfs.volume.size := by
  fun_cases released sfs pathname
  · exact size_release ..
  · rfl

theorem Partitioned.call (h : Partitioned sfs) (hsize : ¬ tooManyBlocks sfs.volume.size = true)
    (c : FSCall) :
    Partitioned (sfs.call c) ∧ (sfs.call c).volume.size = sfs.volume.size := by
  fun_cases SimpleFS.call sfs c
  · rename_i pathname dataLen
    have hreleased := h.released pathname
    have hsame := size_released sfs pathname
    fun_cases SimpleFS.createFile sfs pathname dataLen
    · exact ⟨h, rfl⟩
    · exact ⟨hreleased, hsame⟩
    · exact ⟨hreleased, hsame⟩
    · rename_i halloc
      refine ⟨hreleased.add (lookup_released sfs pathname) dataLen halloc, ?_⟩
      exact (allocateBlocks_ok halloc).2.2.2.1.trans hsame
  · fun_cases SimpleFS.deleteFile
    · exact ⟨h, rfl⟩
    · exact ⟨h.release ‹_›, size_release ..⟩
  · fun_cases SimpleFS.formatVolume sfs
    · exact absurd ‹_› hsize
    · exact ⟨.empty rfl rfl _, rfl⟩

theorem Partitioned.calls (h : Partitioned sfs) (hsize : ¬ tooManyBlocks sfs.volume.size = true)
    (calls : List FSCall) :
    Partitioned (calls.foldl SimpleFS.call sfs) := by
  induction calls generalizing sfs with
  | nil => exact h
  | cons c calls ih =>
    obtain ⟨hcall, hsame⟩ := h.call hsize c
    exact ih hcall (by rwa [hsame])

/-- After `createVolume` of a new file system, whether it was refused or not, every sequence
of calls keeps the accounting. -/
theorem accounted_of_calls (name : String) (size : UInt64) (calls : List FSCall)
    (hreturns : (new.createVolume name size).2 ≠ .panic) :
    Accounted (calls.foldl call (new.createVolume name size).1) := by
  refine Partitioned.accounted ?_
  revert hreturns
  fun_cases createVolume new name size <;> intro hreturns
  · cases ‹(4096 : UInt64) = 0›
  · exact Partitioned.calls (.empty rfl rfl _) (by decide) calls
  · exact absurd rfl hreturns
  · exact Partitioned.calls (.empty rfl rfl _) ‹_› calls

/-- Two blocks, of which a file gets one, is refused three and then gets both. -/
theorem accounted_of_overwrites :
    (new.createVolume "v" 8192).2 ≠ .panic ∧
      Accounted (List.foldl call (new.createVolume "v" 8192).1
        [.createFile "a" 1, .createFile "a" 10000, .createFile "a" 8192]) :=
  ⟨by decide, accounted_of_calls _ _ _ (by decide)⟩

end Partition

section AllOrNothing

variable {sfs : SimpleFS} {pathname : String} {dataLen : UInt64}

/-- `createFile` has recorded the right number of distinct blocks of no other file, or has
returned an error and left the file system as it was. -/
def AllOrNothing (sfs : SimpleFS) (pathname : String) (dataLen : UInt64) : Prop :=
  match sfs.createFile pathname dataLen with
  | (after, .ok blocks) =>
    after.blocks.lookup pathname = some ⟨pathname, dataLen, blocks⟩ ∧
      blocks.length = dataLen.toNat ⌈/⌉ sfs.blocksize.toNat ∧ blocks.Nodup ∧
      ∀ other file, other ≠ pathname → after.blocks.lookup other = some file →
        blocks.Disjoint file.blocks
  | (after, .error _) =>
    after.blocks = sfs.blocks ∧ after.volume.used = sfs.volume.used ∧
      ∀ b, b ∈ after.volume.free ↔ b ∈ sfs.volume.free
  | (_, .panic) => False

theorem toNat_numBlocks (dataLen : UInt64) {blocksize : UInt64} (hne : blocksize ≠ 0) :
    ((dataLen + blocksize - 1) / blocksize).toNat =
      if dataLen.toNat + blocksize.toNat ≤ 2 ^ 64 then dataLen.toNat ⌈/⌉ blocksize.toNat
      else 0 := by
  have hpos : 0 < blocksize.toNat := by
    rw [Nat.pos_iff_ne_zero]
    exact fun h => hne (UInt64.toNat_inj.mp h)
  have hdata := dataLen.toNat_lt
  rw [UInt64.toNat_div, UInt64.toNat_sub, UInt64.toNat_add, UInt64.toNat_one,
    Nat.ceilDiv_eq_add_pred_div]
  split
  · congr 1
    omega
  · rw [Nat.div_eq_of_lt]
    omega

/-- The blocks there are for a file of this name: the free ones, and then its own. -/
def pool (sfs : SimpleFS) (pathname : String) : List Nat :=
  sfs.volume.free ++ ((sfs.blocks.lookup pathname).map (·.blocks)).getD []

theorem free_released (sfs : SimpleFS) (pathname : String) :
    (sfs.released pathname).volume.free = sfs.pool pathname := by
  unfold pool
  fun_cases released sfs pathname
  · rename_i file hlookup
    unfold release
    rw [freeBlocks_eq, hlookup]
    rfl
  · rename_i hlookup
    rw [hlookup]
    exact (List.append_nil _).symm

theorem lookup_released_ne (sfs : SimpleFS) {other : String} (hne : other ≠ pathname) :
    (sfs.released pathname).blocks.lookup other = sfs.blocks.lookup other := by
  fun_cases released sfs pathname
  · exact AList.lookup_erase_ne hne
  · rfl

theorem allocateBlocks_panic {v volume : SimpleVolume} {size : UInt64}
    (halloc : v.allocateBlocks size = (volume, .panic)) :
    2 ^ 45 < size.toNat := by
  revert halloc
  fun_cases SimpleVolume.allocateBlocks v size <;> intro halloc <;> cases halloc
  exact tooManyBlocks_iff.mp ‹_›

theorem allocateBlocks_error {v volume : SimpleVolume} {size : UInt64} {msg : String}
    (halloc : v.allocateBlocks size = (volume, .error msg)) :
    size.toNat ≤ 2 ^ 45 ∧ v.free.length < size.toNat := by
  revert halloc
  fun_cases SimpleVolume.allocateBlocks v size <;> intro halloc <;> cases halloc
  rename_i hfits hfew
  rw [safeUint64ToInt_eq hfits] at hfew
  rw [tooManyBlocks_iff] at hfits
  exact ⟨by omega, hfew⟩

/-- What a failed allocation leaves is the file system as it was exactly if there was no file
to replace. -/
theorem released_same_iff (sfs : SimpleFS) (pathname : String) :
    ((sfs.released pathname).blocks = sfs.blocks ∧
        (sfs.released pathname).volume.used = sfs.volume.used ∧
        ∀ b, b ∈ (sfs.released pathname).volume.free ↔ b ∈ sfs.volume.free) ↔
      sfs.blocks.lookup pathname = none := by
  constructor
  · intro hsame
    rw [← hsame.1]
    exact lookup_released sfs pathname
  · intro hnone
    have hsame : sfs.released pathname = sfs := by
      unfold released
      rw [hnone]
    simp [hsame]

/-- `createFile` is all or nothing exactly if the number of blocks does not wrap and is one
a slice can have, the blocks it takes are distinct and of no other file, and where there are
too few it replaces no file. -/
theorem allOrNothing_iff (sfs : SimpleFS) (pathname : String) (dataLen : UInt64) :
    AllOrNothing sfs pathname dataLen ↔ let count := dataLen.toNat ⌈/⌉ sfs.blocksize.toNat
      let taken := (sfs.pool pathname).take count
      sfs.blocksize ≠ 0 ∧ dataLen.toNat + sfs.blocksize.toNat ≤ 2 ^ 64 ∧ count ≤ 2 ^ 45 ∧
        if count ≤ (sfs.pool pathname).length then
          taken.Nodup ∧ ∀ other file, other ≠ pathname →
            sfs.blocks.lookup other = some file → taken.Disjoint file.blocks
        else sfs.blocks.lookup pathname = none := by
  unfold AllOrNothing
  have hfree := free_released sfs pathname
  dsimp only
  fun_cases createFile sfs pathname dataLen
  · exact ⟨False.elim, fun hfits => hfits.1 ‹_›⟩
  all_goals
    have hne : sfs.blocksize ≠ 0 := ‹_›
    have hcount := toNat_numBlocks dataLen hne
    rename_i halloc
  · refine ⟨False.elim, fun ⟨_, hwrap, hsmall, _⟩ => ?_⟩
    have hlarge := allocateBlocks_panic halloc
    rw [hcount, if_pos hwrap] at hlarge
    omega
  · obtain ⟨hsmall, hfew⟩ := allocateBlocks_error halloc
    rw [hfree] at hfew
    rw [hcount] at hsmall hfew
    have hwrap : dataLen.toNat + sfs.blocksize.toNat ≤ 2 ^ 64 := by
      by_contra hwrap
      rw [if_neg hwrap] at hfew
      omega
    rw [if_pos hwrap] at hsmall hfew
    rw [if_neg (by omega)]
    refine (released_same_iff sfs pathname).trans ⟨fun hnone => ?_, fun hfits => hfits.2.2.2⟩
    exact ⟨hne, hwrap, hsmall, hnone⟩
  · rename_i blocks
    obtain ⟨hfirst, hlength, hsmall, -⟩ := allocateBlocks_ok halloc
    rw [hfree] at hfirst
    rw [hcount] at hlength hsmall
    by_cases hwrap : dataLen.toNat + sfs.blocksize.toNat ≤ 2 ^ 64
    · rw [if_pos hwrap] at hlength hsmall
      have hothers : ∀ other, other ≠ pathname →
          ((sfs.released pathname).blocks.insert pathname ⟨pathname, dataLen, blocks⟩).lookup
            other = sfs.blocks.lookup other := fun other hother => by
        rw [AList.lookup_insert_ne hother, lookup_released_ne sfs hother]
      rw [← hlength, hfirst, List.take_left, if_pos (by simp)]
      constructor
      · rintro ⟨-, -, hnodup, hapart⟩
        refine ⟨hne, hwrap, hlength ▸ hsmall, hnodup, fun other file hother hlookup => ?_⟩
        exact hapart other file hother ((hothers other hother).trans hlookup)
      · rintro ⟨-, -, -, hnodup, hapart⟩
        refine ⟨AList.lookup_insert _, rfl, hnodup, fun other file hother hlookup => ?_⟩
        exact hapart other file hother ((hothers other hother).symm.trans hlookup)
    · rw [if_neg hwrap] at hlength
      refine iff_of_false (fun hall => ?_) (fun hfits => hwrap hfits.2.1)
      have hlen := hlength.symm.trans hall.2.1
      have hdata := dataLen.toNat_lt
      have hsize := sfs.blocksize.toNat_lt
      rw [Nat.ceilDiv_eq_add_pred_div, eq_comm, Nat.div_eq_zero_iff] at hlen
      omega

/-- Of two blocks a file holds one. -/
def oneFile : SimpleFS :=
  ((new.createVolume "v" 8192).1.createFile "a" 1).1

/-- The file is asked to grow past the volume: an error, and the file is gone. -/
theorem oneFile_is_lost :
    ¬ AllOrNothing oneFile "a" 10000 := by
  intro hkept
  exact absurd ((released_same_iff oneFile "a").mp hkept) (by decide +kernel)

end AllOrNothing

end SimpleFS

end Viperblock
