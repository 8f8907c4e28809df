import Mathlib.Data.List.Infix
import Mathlib.Data.List.TakeWhile
import Viperblock.DualOpen

/-!
# The keys of chunks

The collector lists the keys of a volume and takes the number of a chunk from each with
`/chunks/chunk\.(\d+)\.bin$`.  Volume names are free text and may contain whatever the
pattern asks for, but a path ends with what its file type puts there: of the paths that
`getFilePath` makes the pattern matches those of chunks, and finds their number.
-/

namespace Viperblock

/-- The text that the pattern begins with. -/
def chunkKeyHead : List Char :=
  "/chunks/chunk.".toList

/-- What the group of the pattern matches at the beginning of the text. -/
def matchChunkKey (text : List Char) : Option (List Char) :=
  let rest := text.drop chunkKeyHead.length
  let digits := rest.takeWhile Char.isDigit
  if text.take chunkKeyHead.length = chunkKeyHead ∧ digits ≠ [] ∧
      rest.dropWhile Char.isDigit = ".bin".toList then
    some digits
  else none

/-- The leftmost match counts. -/
def chunkKeyPattern (text : List Char) : Option (List Char) :=
  text.tails.findSome? matchChunkKey

def parseUint (digits : List Char) : Option Nat :=
  let n := Nat.ofDigitChars 10 digits 0
  if n < 2 ^ 64 then some n else none

def parseChunkObjectID (key : String) : Option Nat :=
  (chunkKeyPattern key.toList).bind parseUint

/-- The chunks that a listing shows. -/
def listedChunks (keys : List String) : List Nat :=
  keys.filterMap parseChunkObjectID

section Pattern

variable {text digits : List Char} {path : String}

theorem matchChunkKey_eq_some_iff :
    matchChunkKey text = some digits ↔
      text = chunkKeyHead ++ (digits ++ ".bin".toList) ∧ digits ≠ [] ∧
        ∀ c ∈ digits, c.isDigit = true := by
  constructor
  · intro hmatch
    obtain ⟨⟨hhead, hne, hend⟩, hdigits⟩ := Option.ite_none_right_eq_some.mp hmatch
    cases hdigits
    refine ⟨?_, hne, fun c hc => List.mem_takeWhile_imp hc⟩
    rw [← hend, List.takeWhile_append_dropWhile]
    nth_rewrite 1 [← hhead]
    rw [List.take_append_drop]
  · rintro ⟨rfl, hne, hdigits⟩
    have hbin : List.takeWhile Char.isDigit ".bin".toList = [] := by decide
    have hrest : List.dropWhile Char.isDigit ".bin".toList = ".bin".toList := by decide
    unfold matchChunkKey
    rw [List.take_left, List.drop_left]
    dsimp only
    rw [List.takeWhile_append_of_pos hdigits, List.dropWhile_append_of_pos hdigits, hbin,
      hrest, List.append_nil, if_pos ⟨rfl, hne, rfl⟩]

theorem fileName_of_suffix (hsuffix : text <:+ path.toList)
    (hmatch : matchChunkKey text = some digits) :
    fileName path = "chunk.".toList ++ (digits ++ ".bin".toList) := by
  obtain ⟨before, hpath⟩ := hsuffix
  obtain ⟨rfl, -, hdigits⟩ := matchChunkKey_eq_some_iff.mp hmatch
  refine @fileName_eq _ (before ++ "/chunks".toList) _ ?_
    (slash_not_mem hdigits (by decide) (by decide))
  rw [← hpath, List.append_assoc]
  rfl

theorem fileName_of_chunkKeyPattern (hfind : chunkKeyPattern path.toList = some digits) :
    fileName path = "chunk.".toList ++ (digits ++ ".bin".toList) := by
  obtain ⟨text, hsuffix, hmatch⟩ := List.exists_of_findSome?_eq_some hfind
  exact fileName_of_suffix ((List.mem_tails _ _).mp hsuffix) hmatch

/-- The pattern matches in one place only. -/
theorem chunkKeyPattern_of_suffix (hsuffix : text <:+ path.toList)
    (hmatch : matchChunkKey text = some digits) :
    chunkKeyPattern path.toList = some digits := by
  cases hfind : chunkKeyPattern path.toList with
  | none =>
      have hnone := List.findSome?_eq_none_iff.mp hfind text ((List.mem_tails _ _).mpr hsuffix)
      rw [hmatch] at hnone
      cases hnone
  | some found =>
      have hname := fileName_of_suffix hsuffix hmatch
      rw [fileName_of_chunkKeyPattern hfind] at hname
      rw [List.append_cancel_right (List.append_cancel_left hname)]

theorem parseChunkObjectID_eq_none {c : Char} {name : List Char} (hname : fileName path = c :: name)
    (hchunk : c ≠ 'c' ∨ name.head? ≠ some 'h') :
    parseChunkObjectID path = none := by
  unfold parseChunkObjectID
  cases hfind : chunkKeyPattern path.toList with
  | none => rfl
  | some digits =>
      rw [fileName_of_chunkKeyPattern hfind] at hname
      change 'c' :: 'h' :: _ = _ at hname
      obtain ⟨rfl, rfl⟩ := List.cons_eq_cons.mp hname
      simp at hchunk

end Pattern

section Paths

variable {volume : String}

theorem parseUint_padded {width n : Nat} (hn : n < 2 ^ 64) :
    parseUint (padded width n) = some n := by
  unfold parseUint padded
  rw [Nat.ofDigitChars_append, Nat.ofDigitChars_replicate_zero, Nat.mul_zero,
    Nat.ofDigitChars_toDigits (by decide) (by decide), if_pos hn]

theorem parseChunkObjectID_chunk {id : Nat} (hid : id < 2 ^ 64) (volume : String) :
    parseChunkObjectID (getFilePath .chunk id volume) = some id := by
  have hmatch : matchChunkKey (chunkKeyHead ++ (paddedDigits id ++ ".bin".toList)) =
      some (paddedDigits id) := by
    refine matchChunkKey_eq_some_iff.mpr ⟨rfl, ?_, fun _ => isDigit_of_mem_padded⟩
    exact List.append_ne_nil_of_right_ne_nil _ Nat.toDigits_ne_nil
  have hpath : (getFilePath .chunk id volume).toList =
      volume.toList ++ (chunkKeyHead ++ (paddedDigits id ++ ".bin".toList)) := by
    unfold chunkKeyHead
    simp [getFilePath]
  have hsuffix : chunkKeyHead ++ (paddedDigits id ++ ".bin".toList) <:+
      (getFilePath .chunk id volume).toList := by
    rw [hpath]
    exact List.suffix_append _ _
  unfold parseChunkObjectID
  rw [chunkKeyPattern_of_suffix hsuffix hmatch]
  exact parseUint_padded hid

theorem parseChunkObjectID_numbered
    {dir before after : List Char} {c : Char} {width n : Nat} {path : String}
    (hpath : path.toList = dir ++ '/' :: ((c :: before) ++ (padded width n ++ after)))
    (hbefore : '/' ∉ c :: before) (hafter : '/' ∉ after) (hc : c ≠ 'c') :
    parseChunkObjectID path = none :=
  parseChunkObjectID_eq_none (fileName_eq hpath
    (slash_not_mem (fun _ => isDigit_of_mem_padded) hbefore hafter)) (.inl hc)

theorem parseChunkObjectID_of_ne_chunk {fileType : FileType} (hne : fileType ≠ .chunk)
    (id : Nat) (volume : String) :
    parseChunkObjectID (getFilePath fileType id volume) = none := by
  cases fileType with
  | config =>
      exact parseChunkObjectID_eq_none (@fileName_eq _ volume.toList "config.json".toList
        (by simp [getFilePath]) (by decide)) (.inr (by decide))
  | chunk => exact absurd rfl hne
  | blockCheckpoint =>
      exact @parseChunkObjectID_numbered (volume.toList ++ "/checkpoints".toList)
        "locks.".toList ".bin".toList 'b' 8 id _ (by simp [getFilePath, paddedDigits])
        (by decide) (by decide) (by decide)
  | walChunk =>
      exact @parseChunkObjectID_numbered (volume.toList ++ "/wal/chunks".toList)
        "al.".toList ".bin".toList 'w' 8 id _ (by simp [getFilePath, paddedDigits])
        (by decide) (by decide) (by decide)
  | walBlock =>
      exact @parseChunkObjectID_numbered (volume.toList ++ "/wal/blocks".toList)
        "locks.".toList ".bin".toList 'b' 8 id _ (by simp [getFilePath, paddedDigits])
        (by decide) (by decide) (by decide)
  | walChunkShard =>
      refine @parseChunkObjectID_numbered (volume.toList ++ "/wal/chunks".toList) "al.".toList
        (".shard_".toList ++ (padded 2 (id % 256) ++ ".bin".toList)) 'w' 8 (id / 256) _
        (by simp [getFilePath, paddedDigits]) (by decide) ?_ (by decide)
      exact slash_not_mem (fun _ => isDigit_of_mem_padded) (by decide) (by decide)
  | blockCheckpointLive =>
      exact parseChunkObjectID_eq_none (@fileName_eq _ (volume.toList ++ "/checkpoints".toList)
        "blocks.live.bin".toList (by simp [getFilePath]) (by decide)) (.inl (by decide))
  | snapshotMarker =>
      exact parseChunkObjectID_eq_none (@fileName_eq _ volume.toList "snapshots.marker".toList
        (by simp [getFilePath]) (by decide)) (.inl (by decide))
  | sshAuthKey | other _ =>
      exact @parseChunkObjectID_numbered volume.toList "nknown.".toList ".bin".toList 'u' 8 id _
        (by simp [getFilePath, paddedDigits]) (by decide) (by decide) (by decide)

/-- Of the paths that `getFilePath` makes, those of chunks parse, and to their number; so a
listing of such paths shows the numbers of the chunks in it. -/
theorem parseChunkObjectID_getFilePath :
    (∀ (fileType : FileType) (objectId : UInt64) (volume : String) (id : Nat),
      parseChunkObjectID (getFilePath fileType objectId.toNat volume) = some id ↔
        fileType = .chunk ∧ id = objectId.toNat) ∧
    ∀ keys : List String, (∀ key ∈ keys, ∃ fileType, ∃ objectId : UInt64, ∃ volume,
        key = getFilePath fileType objectId.toNat volume) →
      ∀ id, id ∈ listedChunks keys ↔
        id < 2 ^ 64 ∧ ∃ volume, getFilePath .chunk id volume ∈ keys := by
  have hparse : ∀ (fileType : FileType) (objectId : UInt64) (volume : String) (id : Nat),
      parseChunkObjectID (getFilePath fileType objectId.toNat volume) = some id ↔
        fileType = .chunk ∧ id = objectId.toNat := by
    intro fileType objectId volume id
    by_cases hchunk : fileType = .chunk
    · subst hchunk
      rw [parseChunkObjectID_chunk objectId.toNat_lt]
      simp [eq_comm]
    · rw [parseChunkObjectID_of_ne_chunk hchunk]
      simp [hchunk]
  refine ⟨hparse, fun keys hkeys id => ?_⟩
  unfold listedChunks
  rw [List.mem_filterMap]
  constructor
  · rintro ⟨key, hkey, hid⟩
    obtain ⟨fileType, objectId, volume, rfl⟩ := hkeys key hkey
    obtain ⟨rfl, rfl⟩ := (hparse _ _ _ _).mp hid
    exact ⟨objectId.toNat_lt, volume, hkey⟩
  · rintro ⟨hid, volume, hkey⟩
    exact ⟨_, hkey, parseChunkObjectID_chunk hid volume⟩

/-- A volume whose name looks like the key of another chunk. -/
theorem listed_odd_name :
    3 ∈ listedChunks
      [getFilePath .chunk 3 "v/chunks/chunk.7.bin", getFilePath .walChunk 4 "v"] := by
  refine (parseChunkObjectID_getFilePath.2 _ ?_ 3).mpr ⟨by decide, _, List.mem_cons_self⟩
  intro key hkey
  rcases List.mem_pair.mp hkey with rfl | rfl
  · exact ⟨.chunk, 3, _, rfl⟩
  · exact ⟨.walChunk, 4, _, rfl⟩

end Paths

end Viperblock
