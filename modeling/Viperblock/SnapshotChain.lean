import Mathlib.Data.Finset.Card
import Viperblock.SnapshotFile

/-!
# Chains of clones

A clone resolves a block in its own map, then in the base map, then in the
ancestors in their order.  A snapshot flattens these layers and an open from it
puts them back under another name: the own map becomes the base and the base
becomes the first ancestor.  Nothing is resolved differently, at any depth.

The metadata of a snapshot is JSON; its fields are kept as they are.  On an
encrypted volume it is sealed: a reader with a key takes nothing else, and one without
takes the envelope for metadata with none of the fields.
-/

namespace Viperblock

open ByteCodec BlockMap BlocksToObject

/-- The metadata of a snapshot that a reader uses. -/
structure SnapshotState where
  sourceVolumeName : String
  blockCount : Nat
  /-- Empty on a snapshot of an unencrypted volume.  Text that is not hex counts as bytes
  of a wrong number. -/
  sourceVolumeUUID : Option Bytes
  sourceVolumeNameHash : Option Bytes
  hasFlatSection : Bool
  /-- The metadata is in an envelope of the volume's key. -/
  enveloped : Bool
deriving DecidableEq

/-- A snapshot as the backend stores it. -/
structure SnapshotObject where
  checkpoint : Bytes
  state : SnapshotState

structure CloneVolume where
  version : Nat
  stride : Nat
  encryptionEnabled : Bool
  identity : SourceIdentity
  own : BlocksToObject
  /-- `BaseBlockMap` with the identity of the snapshot's volume. -/
  base : Option Layer
  ancestors : List Layer
  version_lt : version < 2 ^ 16
  /-- Only an encrypted volume has a UUID and a hashed name. -/
  plain_identity : encryptionEnabled = false → identity = SourceIdentity.ofBytes identity.name [] []

/-- The order in which a snapshot walks the maps. -/
structure SnapshotWalk where
  timestamp : Nat
  /-- The own map when it is serialised. -/
  own : List MapEntry
  /-- The own map when the flat section is built. -/
  seen : List MapEntry
  layers : List (List MapEntry)

namespace Layer

def resolve (layer : Layer) (block : Nat) : Option (SourceIdentity × Location) :=
  (layer.blocks.lookup block).map fun bl => (layer.source, recordLocation bl)

/-- The map is keyed by block and its records have the widths of the format. -/
def Valid (layer : Layer) : Prop :=
  ∀ k bl, layer.blocks.lookup k = some bl → bl.startBlock = k ∧ bl.Fits ∧ bl.seqNums = []

end Layer

/-- The first of the layers that has the block decides. -/
def firstLayer (layers : List Layer) (block : Nat) : Option (SourceIdentity × Location) :=
  layers.findSome? fun layer => layer.resolve block

namespace CloneVolume

variable (v : CloneVolume)

/-- What is inherited, in priority order. -/
def layers : List Layer :=
  v.base.toList ++ v.ancestors

/-- The base map, then the ancestors. -/
def inherited (block : Nat) : Option (SourceIdentity × Location) :=
  firstLayer v.layers block

/-- Volume and location a read of the block goes to; none if it was never written. -/
def resolve (block : Nat) : Option (SourceIdentity × Location) :=
  match lookupBlockToObject v.stride v.own.blockLookup block with
  | some loc => some (v.identity, loc)
  | none => v.inherited block

/-- `SaveState` within `CreateSnapshot` mints a missing UUID. -/
def mintVolumeUUID (uuid : Bytes) : CloneVolume :=
  { v with
    identity :=
      if v.encryptionEnabled ∧ v.identity.uuid = List.replicate 4 0 then
        SourceIdentity.ofBytes v.identity.name uuid v.identity.nameHash
      else v.identity
    plain_identity := by
      intro hplain
      simp only [hplain, Bool.false_eq_true, false_and, if_false]
      exact v.plain_identity hplain }

/-- The blocks of walked entries. -/
def ownBlocks (entries : List MapEntry) : List Nat :=
  entries.flatMap fun entry =>
    (List.range entry.2.numBlocks).map fun i => entry.2.startBlock + i

def blockCount (entries : List MapEntry) : Nat :=
  (entries.map fun entry => entry.2.numBlocks).sum

def snapshotState (entries : List MapEntry) : SnapshotState where
  sourceVolumeName := v.identity.name
  blockCount := blockCount entries
  sourceVolumeUUID := if v.encryptionEnabled then some v.identity.uuid else none
  sourceVolumeNameHash := if v.encryptionEnabled then some v.identity.nameHash else none
  hasFlatSection := v.base.isSome
  enveloped := v.encryptionEnabled

/-- The snapshot of the volume, whose UUID is minted. -/
def createSnapshot (walk : SnapshotWalk) : Except SnapshotError SnapshotObject :=
  let checkpoint :=
    checkpointBytes v.version walk.timestamp (expandEntries v.stride walk.own)
  match v.base with
  | none => .ok ⟨checkpoint, v.snapshotState walk.own⟩
  | some _ =>
    match buildFlatSection (ownBlocks walk.seen)
        ((v.layers.map Layer.source).zip walk.layers) with
    | .error err => .error err
    | .ok flatBytes => .ok ⟨checkpoint ++ flatBytes, v.snapshotState walk.own⟩

/-- `math.MaxInt / blockWalChunkSize` -/
def maxBlockCount : Nat := 9223372036854775807 / blockWalChunkSize

/-- The own-blocks section of a snapshot's data, which ends at `ownSize`.  The slice for
each entry is taken without a look at the length of the data. -/
def loadOwnBlocks (state : SnapshotState) (data : Bytes) (ownSize : Nat) :
    Except SnapshotError BlockMap :=
  if ownSize % blockWalChunkSize ≠ 0 then
    .error (.trailingBytes (ownSize % blockWalChunkSize))
  else
    match decodeRecords blockCheckpointHeaderSize
        (frames blockWalChunkSize (ownSize + 1) (data.take ownSize)) with
    | .error err => .error (.entry err)
    | .ok records =>
      if data.length < ownSize then .error .outOfRange
      else
        let baseMap := flatRecords records
        if 0 < state.blockCount ∧ baseMap.entries.length ≠ state.blockCount then
          .error (.blockCountMismatch state.blockCount baseMap.entries.length)
        else .ok baseMap

/-- What is wrong with the UUID or the hashed name. -/
def identityError (encrypted : Bool) (state : SnapshotState) : Option SnapshotError :=
  if encrypted ∧ ((state.sourceVolumeUUID.getD []).length ≠ 4 ∨
      (state.sourceVolumeNameHash.getD []).length ≠ 32) then some .envelope
  else if state.sourceVolumeUUID.any fun uuid => uuid.length ≠ 4 then
    some .invalidSourceVolumeUUID
  else if state.sourceVolumeNameHash.any fun nameHash => nameHash.length ≠ 32 then
    some .invalidSourceVolumeNameHash
  else none

/-- The identity the metadata states. -/
def snapshotIdentity (state : SnapshotState) : SourceIdentity :=
  SourceIdentity.ofBytes state.sourceVolumeName (state.sourceVolumeUUID.getD [])
    (state.sourceVolumeNameHash.getD [])

/-- The state as a reader decodes it.  For a reader without a key the envelope itself is a
state, with none of the fields. -/
def decodedState (encrypted : Bool) (state : SnapshotState) :
    Except SnapshotError SnapshotState :=
  if encrypted = state.enveloped then .ok state
  else if encrypted then .error .envelope
  else .ok ⟨"", 0, none, none, false, true⟩

/-- The length of the own-blocks section, which the metadata states if another one follows. -/
def ownBlocksSize (state : SnapshotState) (data : Bytes) : Nat :=
  if state.hasFlatSection then state.blockCount * blockWalChunkSize else data.length

/-- The base layer, and the bytes of the flat section if there is one. -/
def loadBase (raw : Bytes) (state : SnapshotState) :
    Except SnapshotError (Layer × Option Bytes) :=
  match identityError v.encryptionEnabled state with
  | some err => .error err
  | none =>
    if raw.length < blockCheckpointHeaderSize then .error (.checkpointTooSmall raw.length)
    else if raw.take 4 ≠ blockToObjectWALMagic then .error .magicMismatch
    else if decode ((raw.drop 4).take 2) ≠ v.version then .error .versionMismatch
    else if state.hasFlatSection ∧ maxBlockCount < state.blockCount then
      .error (.blockCountOverflow state.blockCount)
    else
      let data := raw.drop blockCheckpointHeaderSize
      let ownSize := ownBlocksSize state data
      match loadOwnBlocks state data ownSize with
      | .error err => .error err
      | .ok baseMap =>
        .ok (⟨snapshotIdentity state, baseMap⟩,
          if state.hasFlatSection then some (data.drop ownSize) else none)

/-- The base layer and the inherited layers of a snapshot. -/
def loadSnapshotBlockMap (snap : SnapshotObject) :
    Except SnapshotError (Layer × List Layer) :=
  match decodedState v.encryptionEnabled snap.state with
  | .error err => .error err
  | .ok state =>
    match v.loadBase snap.checkpoint state with
    | .error err => .error err
    | .ok (base, none) => .ok (base, [])
    | .ok (base, some flat) =>
      match parseFlatSection flat with
      | .error err => .error err
      | .ok layers => .ok (base, layers)

def openFromSnapshot (snap : SnapshotObject) : Except SnapshotError CloneVolume :=
  match v.loadSnapshotBlockMap snap with
  | .error err => .error err
  | .ok (base, layers) =>
    if base.source.name = "" then .error .emptySourceVolumeName
    else .ok { v with base := some base, ancestors := layers }

/-- An own map: disjoint runs, with numbers of the source's widths. -/
structure OwnMap (stride : Nat) (own : BlocksToObject) : Prop where
  sound : own.Sound
  bounded : ∀ block loc, lookupBlockToObject stride own.blockLookup block = some loc →
    block < 2 ^ 64 ∧ loc.objectID < 2 ^ 64 ∧ loc.seqNum < 2 ^ 64

/-- What the widths of the source's types and the shape of the maps give. -/
structure Valid : Prop extends OwnMap v.stride v.own where
  layers : ∀ layer ∈ v.layers, layer.Valid
  ancestors : v.base = none → v.ancestors = []

end CloneVolume

/-- The walk visits every entry of every map of the volume once. -/
structure SnapshotWalk.Of (walk : SnapshotWalk) (v : CloneVolume) : Prop where
  own : walk.own.Perm v.own.blockLookup.entries
  seen : walk.seen.Perm v.own.blockLookup.entries
  layers : List.Forall₂ (fun (layer : Layer) (entries : List MapEntry) =>
    entries.Perm layer.blocks.entries) v.layers walk.layers

section OwnBlocks

variable {m : BlockMap} {entries : List MapEntry}

theorem ownBlocks_eq (stride : Nat) (entries : List MapEntry) :
    CloneVolume.ownBlocks entries = (expandEntries stride entries).map BlockLookup.startBlock := by
  simp only [CloneVolume.ownBlocks, expandEntries, List.map_flatMap]
  congr 1
  funext entry
  simp [BlockLookup.expandBlockLookup, Function.comp_def]

theorem mem_ownBlocks_iff (stride : Nat) (hwf : m.WellFormed) (horder : entries.Perm m.entries)
    {block : Nat} :
    block ∈ CloneVolume.ownBlocks entries ↔
      ∃ loc, lookupBlockToObject stride m block = some loc := by
  rw [ownBlocks_eq stride, List.mem_map]
  constructor
  · rintro ⟨rec, hrec, rfl⟩
    obtain ⟨loc, hloc, -⟩ := (mem_expandEntries_iff stride hwf horder).mp hrec
    exact ⟨loc, hloc⟩
  · rintro ⟨loc, hloc⟩
    exact ⟨singleRecord block loc,
      (mem_expandEntries_iff stride hwf horder).mpr ⟨loc, hloc, rfl⟩, rfl⟩

theorem nodup_ownBlocks (hwf : m.WellFormed) (horder : entries.Perm m.entries) :
    (CloneVolume.ownBlocks entries).Nodup := by
  have hperm : (CloneVolume.ownBlocks entries).Perm (ExtentMap.numbers BlockLookup.shape m) :=
    horder.flatMap_right _
  exact hperm.nodup_iff.mpr hwf.nodup_numbers

theorem length_expandEntries (stride : Nat) (entries : List MapEntry) :
    (expandEntries stride entries).length = CloneVolume.blockCount entries := by
  simp [expandEntries, CloneVolume.blockCount, BlockLookup.expandBlockLookup, List.length_flatMap]

end OwnBlocks

section FlatRecords

variable {records : List BlockLookup}

theorem length_flatRecords (records : List BlockLookup) :
    (flatRecords records).entries.length = (records.map BlockLookup.startBlock).toFinset.card := by
  have hkeys : (flatRecords records).keys.toFinset =
      (records.map BlockLookup.startBlock).toFinset := by
    ext k
    rw [List.mem_toFinset, List.mem_toFinset, ← AList.mem_keys, ← AList.lookup_isSome,
      Option.isSome_iff_exists, List.mem_map]
    constructor
    · rintro ⟨rec, hrec⟩
      exact ⟨rec, mem_of_lookup_flatRecords hrec⟩
    · rintro ⟨rec, hrec, rfl⟩
      exact exists_lookup_flatRecords hrec
  rw [← hkeys, List.toFinset_card_of_nodup (AList.keys_nodup _)]
  exact (List.length_map _).symm

theorem lookup_flatRecords_iff (hnodup : (records.map BlockLookup.startBlock).Nodup)
    {k : Nat} {rec : BlockLookup} :
    (flatRecords records).lookup k = some rec ↔ rec ∈ records ∧ rec.startBlock = k := by
  constructor
  · exact mem_of_lookup_flatRecords
  · rintro ⟨hrec, rfl⟩
    obtain ⟨last, hlast⟩ := exists_lookup_flatRecords hrec
    obtain ⟨hmem, hstart⟩ := mem_of_lookup_flatRecords hlast
    rw [hlast, List.inj_on_of_nodup_map hnodup hmem hrec hstart]

end FlatRecords

section Flatten

theorem lookup_of_walk {layer : Layer} {entries : List MapEntry}
    (horder : entries.Perm layer.blocks.entries) {entry : MapEntry} :
    entry ∈ entries ↔ layer.blocks.lookup entry.1 = some entry.2 := by
  rw [horder.mem_iff]
  exact FiniteMap.mem_entries_iff

theorem lookup_flatGroup {layer : Layer} {entries : List MapEntry} (hvalid : layer.Valid)
    (horder : entries.Perm layer.blocks.entries) (seen : List Nat) (block : Nat) :
    (flatRecords ((entries.filter fun entry => !seen.contains entry.1).map
      Sigma.snd)).lookup block =
      if block ∈ seen then none else layer.blocks.lookup block := by
  have hkey : ∀ entry ∈ entries, entry.2.startBlock = entry.1 :=
    fun entry hentry => (hvalid _ _ ((lookup_of_walk horder).mp hentry)).1
  have hkeys : (entries.map Sigma.fst).Nodup :=
    (horder.map Sigma.fst).nodup_iff.mpr layer.blocks.keys_nodup
  have hnodup : (((entries.filter fun entry => !seen.contains entry.1).map
      Sigma.snd).map BlockLookup.startBlock).Nodup := by
    have hstarts : ((entries.filter fun entry => !seen.contains entry.1).map
        Sigma.snd).map BlockLookup.startBlock =
          (entries.filter fun entry => !seen.contains entry.1).map Sigma.fst := by
      rw [List.map_map]
      refine List.map_congr_left fun entry hentry => ?_
      exact hkey entry (List.mem_of_mem_filter hentry)
    rw [hstarts]
    exact hkeys.sublist (List.filter_sublist.map _)
  apply Option.ext
  intro bl
  rw [lookup_flatRecords_iff hnodup]
  constructor
  · rintro ⟨hbl, rfl⟩
    obtain ⟨entry, hentry, rfl⟩ := List.mem_map.mp hbl
    rw [List.mem_filter] at hentry
    have hstart := hkey entry hentry.1
    have hunseen : entry.2.startBlock ∉ seen := by
      rw [hstart]
      simpa using hentry.2
    rw [if_neg hunseen, hstart]
    exact (lookup_of_walk horder).mp hentry.1
  · intro hbl
    split at hbl
    · cases hbl
    · rename_i hunseen
      refine ⟨List.mem_map.mpr ⟨⟨block, bl⟩, ?_, rfl⟩, (hvalid _ _ hbl).1⟩
      rw [List.mem_filter]
      exact ⟨(lookup_of_walk horder).mpr hbl, by simpa using hunseen⟩

theorem mem_keys_flatGroup {layer : Layer} {entries : List MapEntry}
    (horder : entries.Perm layer.blocks.entries) {seen : List Nat} {block : Nat} :
    block ∈ (entries.filter fun entry => !seen.contains entry.1).map Sigma.fst ↔
      block ∉ seen ∧ ∃ bl, layer.blocks.lookup block = some bl := by
  rw [List.mem_map]
  constructor
  · rintro ⟨entry, hentry, rfl⟩
    rw [List.mem_filter] at hentry
    exact ⟨by simpa using hentry.2, entry.2, (lookup_of_walk horder).mp hentry.1⟩
  · rintro ⟨hunseen, bl, hbl⟩
    refine ⟨⟨block, bl⟩, ?_, rfl⟩
    rw [List.mem_filter]
    exact ⟨(lookup_of_walk horder).mpr hbl, by simpa using hunseen⟩

/-- The groups resolve every block that was not seen as the layers do. -/
theorem firstLayer_flatGroups {layers : List Layer} {walks : List (List MapEntry)}
    (hwalks : List.Forall₂ (fun (layer : Layer) (entries : List MapEntry) =>
      entries.Perm layer.blocks.entries) layers walks)
    (hvalid : ∀ layer ∈ layers, layer.Valid) (seen : List Nat) (block : Nat) :
    firstLayer ((flatGroups seen ((layers.map Layer.source).zip walks)).map
      SourceGroup.layer) block =
      if block ∈ seen then none else firstLayer layers block := by
  induction hwalks generalizing seen with
  | nil => simp [flatGroups, firstLayer]
  | @cons layer entries layers walks horder _ ih =>
    have hlayer := hvalid layer (by simp)
    have hkept := lookup_flatGroup hlayer horder seen block
    have hlater := ih (fun l hl => hvalid l (by simp [hl]))
      (seen ++ (entries.filter fun entry => !seen.contains entry.1).map Sigma.fst)
    simp only [List.map_cons, List.zip_cons_cons, flatGroups, firstLayer,
      List.findSome?_cons] at hlater ⊢
    simp only [SourceGroup.layer, Layer.resolve] at hkept hlater ⊢
    rw [hkept]
    by_cases hseen : block ∈ seen
    · simp only [hseen, if_true, Option.map_none]
      rw [hlater, if_pos (List.mem_append_left _ hseen)]
    · simp only [hseen, if_false]
      cases hbl : layer.blocks.lookup block with
      | some bl => rfl
      | none =>
        rw [hlater, if_neg]
        intro hmem
        rcases List.mem_append.mp hmem with h | h
        · exact hseen h
        · obtain ⟨-, bl, hsome⟩ := (mem_keys_flatGroup horder).mp h
          rw [hbl] at hsome
          cases hsome

theorem layer_of_mem_flatGroups {layers : List Layer} {walks : List (List MapEntry)}
    (hwalks : List.Forall₂ (fun (layer : Layer) (entries : List MapEntry) => entries.Perm
      layer.blocks.entries) layers walks) (hvalid : ∀ layer ∈ layers, layer.Valid) {seen : List Nat}
    {g : SourceGroup} (hg : g ∈ flatGroups seen ((layers.map Layer.source).zip walks)) :
    ∃ layer ∈ layers, g.source = layer.source ∧
      ∀ bl ∈ g.blocks, layer.blocks.lookup bl.startBlock = some bl := by
  induction hwalks generalizing seen with
  | nil => simp [flatGroups] at hg
  | @cons layer entries layers walks horder _ ih =>
    simp only [List.map_cons, List.zip_cons_cons, flatGroups, List.mem_cons] at hg
    rcases hg with rfl | hg
    · refine ⟨layer, by simp, rfl, ?_⟩
      intro bl hbl
      obtain ⟨entry, hentry, rfl⟩ := List.mem_map.mp hbl
      have hlookup := (lookup_of_walk horder).mp (List.mem_of_mem_filter hentry)
      rwa [(hvalid layer (by simp) _ _ hlookup).1]
    · obtain ⟨layer', hlayer', hrest⟩ := ih (fun l hl => hvalid l (by simp [hl])) hg
      exact ⟨layer', by simp [hlayer'], hrest⟩

end Flatten

namespace CloneVolume

section Open

variable {v w : CloneVolume} {walk : SnapshotWalk} {snap : SnapshotObject}

theorem loadOwnBlocks_write (state : SnapshotState) {records : List BlockLookup}
    (hfits : ∀ rec ∈ records, rec.Fits ∧ rec.seqNums = [])
    (hnodup : (records.map BlockLookup.startBlock).Nodup)
    (hcount : state.blockCount = records.length) (rest : Bytes) :
    loadOwnBlocks state ((records.map writeBlockWalChunk).flatten ++ rest)
      (records.length * blockWalChunkSize) = .ok (flatRecords records) := by
  have hlength := length_flatten_writeBlockWalChunk records
  have hfuel : records.length < records.length * blockWalChunkSize + 1 := by
    rw [blockWalChunkSize]
    omega
  unfold loadOwnBlocks
  rw [if_neg (by simp), List.take_left' hlength, frames_writeBlockWalChunk hfuel,
    decodeRecords_write hfits]
  dsimp only
  rw [if_neg (by rw [List.length_append, hlength]; omega)]
  rw [if_neg]
  rw [length_flatRecords, List.toFinset_card_of_nodup hnodup, List.length_map, hcount]
  exact fun h => h.2 rfl

theorem Valid.fits (hv : v.Valid) {entries : List MapEntry}
    (horder : entries.Perm v.own.blockLookup.entries) {rec : BlockLookup}
    (hrec : rec ∈ expandEntries v.stride entries) :
    rec.Fits ∧ rec.seqNums = [] := by
  have hoffset := offset_lt_of_mem_expandEntries horder hrec
  obtain ⟨loc, hloc, heq⟩ := (mem_expandEntries_iff _ hv.sound.wf horder).mp hrec
  obtain ⟨hblock, hid, hseq⟩ := hv.bounded _ loc hloc
  rw [heq] at hoffset hblock ⊢
  exact ⟨⟨hblock, show 1 < 2 ^ 16 by decide, hid, hoffset, hseq⟩, rfl⟩

theorem snapshotIdentity_snapshotState (entries : List MapEntry) :
    snapshotIdentity (v.snapshotState entries) = v.identity := by
  unfold snapshotIdentity snapshotState
  cases hencrypted : v.encryptionEnabled with
  | true => exact v.identity.ofBytes_self
  | false => exact (v.plain_identity hencrypted).symm

theorem identityError_snapshotState (entries : List MapEntry) :
    identityError v.encryptionEnabled (v.snapshotState entries) = none := by
  have huuid := v.identity.uuid_length
  have hhash := v.identity.nameHash_length
  unfold identityError snapshotState
  cases v.encryptionEnabled with
  | true => simp [huuid, hhash]
  | false => simp

theorem checkpoint_front (v : CloneVolume) (walk : SnapshotWalk) (rest : Bytes) :
    let raw := checkpointBytes v.version walk.timestamp
      (expandEntries v.stride walk.own) ++ rest
    ¬ raw.length < blockCheckpointHeaderSize ∧ raw.take 4 = blockToObjectWALMagic ∧
      decode ((raw.drop 4).take 2) = v.version ∧
      raw.drop blockCheckpointHeaderSize =
        ((expandEntries v.stride walk.own).map writeBlockWalChunk).flatten ++ rest := by
  have hheader := length_blockToObjectWALHeader v.version walk.timestamp
  refine ⟨?_, ?_, ?_, ?_⟩
  · simp only [checkpointBytes, List.length_append, hheader]
    omega
  · simp only [checkpointBytes, blockToObjectWALHeader, List.append_assoc]
    exact List.take_left' rfl
  · simp only [checkpointBytes, blockToObjectWALHeader, List.append_assoc]
    exact decode_field rfl v.version_lt
  · rw [checkpointBytes, List.append_assoc, List.drop_left' hheader]

/-- The layers an open takes from the flat section of a snapshot. -/
def flatLayers (v : CloneVolume) (walk : SnapshotWalk) : List Layer :=
  if v.base.isSome then
    (flatGroups (ownBlocks walk.seen) ((v.layers.map Layer.source).zip walk.layers)).map
      SourceGroup.layer
  else []

/-- What a reader checks before it comes to the entries. -/
structure Readable (v : CloneVolume) (raw : Bytes) (state : SnapshotState) : Prop where
  identity : identityError v.encryptionEnabled state = none
  header : blockCheckpointHeaderSize ≤ raw.length
  magic : raw.take 4 = blockToObjectWALMagic
  version : decode ((raw.drop 4).take 2) = v.version
  count : state.hasFlatSection = true → state.blockCount ≤ maxBlockCount

theorem identityError_inRange (encrypted : Bool) (state : SnapshotState) :
    identityError encrypted state ≠ some .outOfRange := by
  unfold identityError
  split
  · simp
  split
  · simp
  split <;> simp

theorem loadBase_cases (v : CloneVolume) (raw : Bytes) (state : SnapshotState) :
    let data := raw.drop blockCheckpointHeaderSize
    let ownSize := ownBlocksSize state data
    (v.Readable raw state ∧ v.loadBase raw state = match loadOwnBlocks state data ownSize with
        | .error err => .error err
        | .ok baseMap =>
          .ok (⟨snapshotIdentity state, baseMap⟩,
            if state.hasFlatSection then some (data.drop ownSize) else none)) ∨
      (¬ v.Readable raw state ∧ ∃ err, v.loadBase raw state = .error err ∧ err ≠ .outOfRange) := by
  intro data ownSize
  unfold loadBase
  split
  · rename_i err herr
    refine .inr ⟨fun h => ?_, err, rfl, ?_⟩
    · cases herr.symm.trans h.identity
    · rintro rfl
      exact identityError_inRange _ _ herr
  rename_i hidentity
  split
  · exact .inr ⟨fun h => absurd h.header (by omega), _, rfl, by simp⟩
  rename_i hheader
  split
  · exact .inr ⟨fun h => absurd h.magic ‹_›, _, rfl, by simp⟩
  rename_i hmagic
  split
  · exact .inr ⟨fun h => absurd h.version ‹_›, _, rfl, by simp⟩
  rename_i hversion
  split
  · rename_i hcount
    exact .inr ⟨fun h => absurd (h.count hcount.1) (by omega), _, rfl, by simp⟩
  rename_i hcount
  exact .inl ⟨⟨hidentity, by omega, not_not.mp hmagic, not_not.mp hversion,
    fun hflat => Nat.not_lt.mp fun h => hcount ⟨hflat, h⟩⟩, rfl⟩

theorem loadBase_of_readable {raw : Bytes} {state : SnapshotState} (h : v.Readable raw state) :
    v.loadBase raw state = match loadOwnBlocks state (raw.drop blockCheckpointHeaderSize)
        (ownBlocksSize state (raw.drop blockCheckpointHeaderSize)) with
      | .error err => .error err
      | .ok baseMap =>
        .ok (⟨snapshotIdentity state, baseMap⟩,
          if state.hasFlatSection then some ((raw.drop blockCheckpointHeaderSize).drop
            (ownBlocksSize state (raw.drop blockCheckpointHeaderSize))) else none) := by
  rcases v.loadBase_cases raw state with ⟨-, hload⟩ | ⟨hnot, -⟩
  · exact hload
  · exact absurd h hnot

theorem decodedState_snapshotState (entries : List MapEntry) :
    decodedState v.encryptionEnabled (v.snapshotState entries) = .ok (v.snapshotState entries) :=
  if_pos rfl

theorem loadBase_write (hv : v.Valid) (hown : walk.own.Perm v.own.blockLookup.entries)
    (hencrypted : w.encryptionEnabled = v.encryptionEnabled) (hversion : w.version = v.version)
    (hcount : v.base.isSome = true → blockCount walk.own ≤ maxBlockCount) {rest : Bytes}
    (hrest : v.base = none → rest = []) :
    w.loadBase (checkpointBytes v.version walk.timestamp (expandEntries v.stride walk.own) ++ rest)
        (v.snapshotState walk.own) =
      .ok (⟨v.identity, flatRecords (expandEntries v.stride walk.own)⟩,
        if v.base.isSome then some rest else none) := by
  have hfits := fun rec (hrec : rec ∈ expandEntries v.stride walk.own) =>
    hv.fits hown hrec
  have hnodup : ((expandEntries v.stride walk.own).map BlockLookup.startBlock).Nodup := by
    rw [← ownBlocks_eq]
    exact nodup_ownBlocks hv.sound.wf hown
  have hrecords := length_expandEntries v.stride walk.own
  have hlength := length_flatten_writeBlockWalChunk (expandEntries v.stride walk.own)
  have hload := loadOwnBlocks_write (v.snapshotState walk.own) hfits hnodup hrecords.symm rest
  obtain ⟨hlong, hmagic, hfield, hdrop⟩ := checkpoint_front v walk rest
  have hreadable : w.Readable (checkpointBytes v.version walk.timestamp
      (expandEntries v.stride walk.own) ++ rest) (v.snapshotState walk.own) :=
    ⟨hencrypted ▸ identityError_snapshotState walk.own, Nat.not_lt.mp hlong, hmagic,
      hfield.trans hversion.symm, hcount⟩
  have hsize : ownBlocksSize (v.snapshotState walk.own)
      (((expandEntries v.stride walk.own).map writeBlockWalChunk).flatten ++ rest) =
      (expandEntries v.stride walk.own).length * blockWalChunkSize := by
    unfold ownBlocksSize
    split
    · rw [hrecords]
      rfl
    · rename_i hflat
      rw [hrest (Option.not_isSome_iff_eq_none.mp hflat), List.append_nil, hlength]
  rw [loadBase_of_readable hreadable, hdrop, hsize, hload]
  dsimp only
  rw [snapshotIdentity_snapshotState, List.drop_left' hlength]
  rfl

theorem loadSnapshotBlockMap_create (hv : v.Valid) (hown : walk.own.Perm v.own.blockLookup.entries)
    (hlayers : List.Forall₂ (fun (layer : Layer) (entries : List MapEntry) => entries.Perm
      layer.blocks.entries) v.layers walk.layers) (hcreate : v.createSnapshot walk = .ok snap)
    (hencrypted : w.encryptionEnabled = v.encryptionEnabled) (hversion : w.version = v.version)
    (hcount : v.base.isSome = true → blockCount walk.own ≤ maxBlockCount) :
    w.loadSnapshotBlockMap snap = .ok (⟨v.identity, flatRecords (expandEntries v.stride walk.own)⟩,
        v.flatLayers walk) := by
  have hload := fun rest => @loadBase_write v w walk hv hown hencrypted hversion hcount rest
  unfold createSnapshot at hcreate
  unfold loadSnapshotBlockMap flatLayers
  cases hbase : v.base with
  | none =>
    rw [hbase] at hcreate
    cases hcreate
    specialize hload [] fun _ => rfl
    rw [List.append_nil, hbase] at hload
    rw [hencrypted, decodedState_snapshotState]
    dsimp only
    rw [hload]
    rfl
  | some base =>
    rw [hbase] at hcreate
    dsimp only at hcreate
    split at hcreate
    · cases hcreate
    rename_i flatBytes hflat
    cases hcreate
    have hsection : parseFlatSection flatBytes = .ok _ :=
      parseFlatSection_build hflat fun g hg bl hbl => by
        obtain ⟨layer, hlayer, -, hlookup⟩ :=
          layer_of_mem_flatGroups hlayers hv.layers hg
        exact (hv.layers layer hlayer _ _ (hlookup bl hbl)).2
    specialize hload flatBytes fun h => by rw [hbase] at h; cases h
    rw [hbase] at hload
    rw [hencrypted, decodedState_snapshotState]
    dsimp only
    rw [hload]
    simp only [Option.isSome_some, if_true, hsection]

theorem createSnapshot_spec (hcreate : v.createSnapshot walk = .ok snap) :
    snap.state = v.snapshotState walk.own ∧
      ∃ rest, snap.checkpoint = checkpointBytes v.version walk.timestamp
        (expandEntries v.stride walk.own) ++ rest := by
  unfold createSnapshot at hcreate
  cases hbase : v.base with
  | none =>
    rw [hbase] at hcreate
    cases hcreate
    exact ⟨rfl, [], (List.append_nil _).symm⟩
  | some base =>
    rw [hbase] at hcreate
    dsimp only at hcreate
    split at hcreate
    · cases hcreate
    · cases hcreate
      exact ⟨rfl, _, rfl⟩

/-- A volume that opens the snapshot is of the kind that wrote it: the state that a reader
without a key makes of an envelope has no name. -/
theorem kind_of_open (hcreate : v.createSnapshot walk = .ok snap) {opened : CloneVolume}
    (hopen : w.openFromSnapshot snap = .ok opened) :
    w.encryptionEnabled = v.encryptionEnabled ∧ w.version = v.version ∧
      (v.base.isSome = true → blockCount walk.own ≤ maxBlockCount) := by
  obtain ⟨hstate, rest, hcheckpoint⟩ := createSnapshot_spec hcreate
  obtain ⟨-, -, hfield, -⟩ := checkpoint_front v walk rest
  unfold openFromSnapshot at hopen
  split at hopen
  · cases hopen
  rename_i base layers hload
  have hname : base.source.name ≠ "" := by
    intro h
    rw [if_pos h] at hopen
    cases hopen
  obtain ⟨state, flat, hdecoded, hbase⟩ : ∃ state flat,
      decodedState w.encryptionEnabled snap.state = .ok state ∧
        w.loadBase snap.checkpoint state = .ok (base, flat) := by
    revert hload
    fun_cases loadSnapshotBlockMap <;> intro hload <;> cases hload
    · exact ⟨_, _, ‹_›, ‹_›⟩
    · exact ⟨_, _, ‹_›, ‹_›⟩
  rcases w.loadBase_cases snap.checkpoint state with ⟨hreadable, hentries⟩ | ⟨-, err, herr, -⟩
  · have hsource : base.source = snapshotIdentity state := by
      rw [hbase] at hentries
      split at hentries
      · cases hentries
      · cases hentries
        rfl
    rw [hstate, decodedState] at hdecoded
    split at hdecoded
    · rename_i hkind
      cases hdecoded
      exact ⟨hkind, by rw [← hreadable.version, hcheckpoint, hfield], hreadable.count⟩
    · split at hdecoded
      · cases hdecoded
      · cases hdecoded
        exact absurd (congrArg SourceIdentity.name hsource) hname
  · rw [hbase] at herr
    cases herr

/-- What an open makes of a snapshot of `v`. -/
theorem eq_of_openFromSnapshot (hv : v.Valid) (hown : walk.own.Perm v.own.blockLookup.entries)
    (hlayers : List.Forall₂ (fun (layer : Layer) (entries : List MapEntry) => entries.Perm
      layer.blocks.entries) v.layers walk.layers) (hcreate : v.createSnapshot walk = .ok snap)
    {clone : CloneVolume} (hopen : w.openFromSnapshot snap = .ok clone) :
    clone =
      { w with
        base := some ⟨v.identity, flatRecords (expandEntries v.stride walk.own)⟩
        ancestors := v.flatLayers walk } := by
  obtain ⟨hencrypted, hversion, hcount⟩ := kind_of_open hcreate hopen
  unfold openFromSnapshot at hopen
  rw [loadSnapshotBlockMap_create hv hown hlayers hcreate hencrypted hversion hcount] at hopen
  dsimp only at hopen
  split at hopen
  · cases hopen
  · exact (Except.ok.inj hopen).symm

/-- How a clone resolves a block: as the own map that was serialised, and else, unless
the block was seen when the flat section was built, as the volume's layers. -/
theorem inherited_of_open (hv : v.Valid) (hown : walk.own.Perm v.own.blockLookup.entries)
    (hlayers : List.Forall₂ (fun (layer : Layer) (entries : List MapEntry) =>
      entries.Perm layer.blocks.entries) v.layers walk.layers)
    (hcreate : v.createSnapshot walk = .ok snap) {clone : CloneVolume}
    (hopen : w.openFromSnapshot snap = .ok clone) (block : Nat) :
    clone.inherited block = match lookupBlockToObject v.stride v.own.blockLookup block with
      | some loc => some (v.identity, loc)
      | none => if block ∈ ownBlocks walk.seen then none else v.inherited block := by
  have hbase := lookup_flatRecords_expandEntries v.stride hv.sound.wf hown block
  rw [eq_of_openFromSnapshot hv hown hlayers hcreate hopen]
  simp only [inherited, layers, Option.toList_some, List.singleton_append, firstLayer,
    List.findSome?_cons, Layer.resolve, hbase]
  cases lookupBlockToObject v.stride v.own.blockLookup block with
  | some loc => rfl
  | none =>
    simp only [Option.map_none]
    cases hsome : v.base with
    | some base =>
      have hflat := firstLayer_flatGroups hlayers hv.layers (ownBlocks walk.seen) block
      simp only [layers, hsome, firstLayer, Layer.resolve] at hflat
      simp only [flatLayers, hsome, Option.isSome_some, if_true, layers]
      exact hflat
    | none => simp [flatLayers, hsome, hv.ancestors hsome]

end Open

section Chain

/-- Volumes that a series of snapshots and opens leads to, each with any own map. -/
inductive Chain : CloneVolume → Prop
  | root {v : CloneVolume} :
      OwnMap v.stride v.own →
      v.base = none →
      v.ancestors = [] →
      Chain v
  | clone {v w opened : CloneVolume} {walk : SnapshotWalk} {snap : SnapshotObject}
      (uuid : Bytes) (own : BlocksToObject) :
      Chain v →
      walk.Of v →
      (v.mintVolumeUUID uuid).createSnapshot walk = .ok snap →
      w.openFromSnapshot snap = .ok opened →
      OwnMap opened.stride own →
      Chain { opened with own := own }

variable {v w opened : CloneVolume} {walk : SnapshotWalk} {snap : SnapshotObject}

theorem Valid.mintVolumeUUID (hv : v.Valid) (uuid : Bytes) : (v.mintVolumeUUID uuid).Valid :=
  ⟨⟨hv.sound, hv.bounded⟩, hv.layers, hv.ancestors⟩

theorem Valid.layer_of_open (hv : v.Valid) (hwalk : walk.Of v)
    (hcreate : v.createSnapshot walk = .ok snap) (hopen : w.openFromSnapshot snap = .ok opened)
    {layer : Layer} (hlayer : layer ∈ opened.layers) :
    layer.blocks = flatRecords (expandEntries v.stride walk.own) ∨
      ∃ source ∈ v.layers, ∀ block bl, layer.blocks.lookup block = some bl →
        source.blocks.lookup block = some bl := by
  rw [eq_of_openFromSnapshot hv hwalk.own hwalk.layers hcreate hopen] at hlayer
  simp only [CloneVolume.layers, Option.toList_some, List.singleton_append, List.mem_cons] at hlayer
  rcases hlayer with rfl | hlayer
  · exact .inl rfl
  · unfold flatLayers at hlayer
    split at hlayer
    · obtain ⟨g, hg, rfl⟩ := List.mem_map.mp hlayer
      obtain ⟨source, hsource, -, hlookup⟩ :=
        layer_of_mem_flatGroups hwalk.layers hv.layers hg
      refine .inr ⟨source, hsource, fun block bl hbl => ?_⟩
      obtain ⟨hmem, rfl⟩ := mem_of_lookup_flatRecords hbl
      exact hlookup bl hmem
    · cases hlayer

theorem Valid.layers_of_open (hv : v.Valid) (hwalk : walk.Of v)
    (hcreate : v.createSnapshot walk = .ok snap) (hopen : w.openFromSnapshot snap = .ok opened) :
    ∀ layer ∈ opened.layers, layer.Valid := by
  intro layer hlayer k bl hbl
  rcases hv.layer_of_open hwalk hcreate hopen hlayer with hown | ⟨source, hsource, hlookup⟩
  · rw [hown] at hbl
    obtain ⟨hmem, hstart⟩ := mem_of_lookup_flatRecords hbl
    exact ⟨hstart, hv.fits hwalk.own hmem⟩
  · exact hv.layers source hsource k bl (hlookup k bl hbl)

theorem SnapshotWalk.Of.mintVolumeUUID (hwalk : walk.Of v) (uuid : Bytes) :
    walk.Of (v.mintVolumeUUID uuid) :=
  ⟨hwalk.own, hwalk.seen, hwalk.layers⟩

theorem Chain.valid (hv : Chain v) :
    v.Valid := by
  induction hv with
  | @root v hown hbase hancestors =>
    refine ⟨hown, ?_, fun _ => hancestors⟩
    intro layer hlayer
    simp [CloneVolume.layers, hbase, hancestors] at hlayer
  | clone uuid own _ hwalk hcreate hopen hown ih =>
    have hminted := ih.mintVolumeUUID uuid
    have hwalk' := SnapshotWalk.Of.mintVolumeUUID hwalk uuid
    have hlayers := hminted.layers_of_open hwalk' hcreate hopen
    refine ⟨hown, hlayers, ?_⟩
    intro hnone
    rw [eq_of_openFromSnapshot hminted hwalk'.own hwalk'.layers hcreate hopen] at hnone
    cases hnone

/-- A clone opened from a snapshot of a volume resolves every block, in its base map
and its ancestors, to the volume and the location that the volume itself resolved it
to when it was frozen. -/
theorem clone_resolves_as_frozen (uuid : Bytes) (hv : Chain v) (hwalk : walk.Of v)
    (hcreate : (v.mintVolumeUUID uuid).createSnapshot walk = .ok snap)
    (hopen : w.openFromSnapshot snap = .ok opened) (block : Nat) :
    opened.inherited block = (v.mintVolumeUUID uuid).resolve block := by
  have hvalid := hv.valid.mintVolumeUUID uuid
  have hwalk' := SnapshotWalk.Of.mintVolumeUUID hwalk uuid
  rw [inherited_of_open hvalid hwalk'.own hwalk'.layers hcreate hopen, resolve]
  cases hloc : lookupBlockToObject (v.mintVolumeUUID uuid).stride
      (v.mintVolumeUUID uuid).own.blockLookup block with
  | some loc => rfl
  | none =>
    have hunseen : block ∉ ownBlocks walk.seen := by
      intro hseen
      obtain ⟨loc, hsome⟩ := (mem_ownBlocks_iff (v.mintVolumeUUID uuid).stride
        hvalid.sound.wf hwalk'.seen).mp hseen
      rw [hloc] at hsome
      cases hsome
    simp only [hunseen, if_false]

/-- Walk every map in the order it is stored in. -/
def storedWalk (v : CloneVolume) : SnapshotWalk :=
  ⟨0, v.own.blockLookup.entries, v.own.blockLookup.entries,
    v.layers.map fun layer => layer.blocks.entries⟩

theorem storedWalk_of (v : CloneVolume) :
    v.storedWalk.Of v := by
  refine ⟨List.Perm.refl _, List.Perm.refl _, ?_⟩
  simp only [storedWalk]
  induction v.layers with
  | nil => exact List.Forall₂.nil
  | cons layer layers ih => exact List.Forall₂.cons (List.Perm.refl _) ih

/-- Snapshot a volume and open the snapshot in another one. -/
def cloneTo (v w : CloneVolume) : Except SnapshotError CloneVolume :=
  match (v.mintVolumeUUID []).createSnapshot v.storedWalk with
  | .error err => .error err
  | .ok snap => w.openFromSnapshot snap

/-- An unencrypted volume with one-byte blocks and the given own map. -/
def plainVolume (name : String) (own : BlocksToObject) : CloneVolume where
  version := 1
  stride := 1
  encryptionEnabled := false
  identity := SourceIdentity.ofBytes name [] []
  own := own
  base := none
  ancestors := []
  version_lt := Nat.le_of_ble_eq_true rfl
  plain_identity := fun _ => rfl

/-- The map after a chunk with the given blocks was published. -/
def oneChunk (blocks : List Block) : BlocksToObject :=
  (VB.new false).blocksToObject.publishChunk 1 0 blocks

theorem ownMap_oneChunk {blocks : List Block}
    (hsorted : blocks.Pairwise fun x y => x.block < y.block)
    (hfits : ∀ x ∈ blocks, x.block < 2 ^ 64 ∧ x.seqNum < 2 ^ 64) :
    OwnMap 1 (oneChunk blocks) := by
  have hregular : Regular 1 1 (oneChunk blocks) :=
    ((Regular.new 1 false).allocate (by decide)).publish (by decide) (by decide) hsorted
      hfits
  refine ⟨hregular.sound, fun block loc hloc => ?_⟩
  obtain ⟨hblock, hid, hseq⟩ := hregular.bounded block loc hloc
  exact ⟨hblock, by omega, hseq⟩

theorem exists_ok_of_toBool {ε α : Type} {e : Except ε α} (he : e.toBool = true) :
    ∃ a, e = .ok a := by
  cases e with
  | error err => cases he
  | ok a => exact ⟨a, rfl⟩

/-- A volume with blocks 0 and 1. -/
def volumeA : CloneVolume :=
  plainVolume "vol-a" (oneChunk [⟨[7], 1, 0, 1⟩, ⟨[7], 2, 1, 1⟩])

/-- A clone of it in which block 1 was rewritten and block 2 written. -/
def volumeB : Except SnapshotError CloneVolume :=
  match volumeA.cloneTo (plainVolume "vol-b" (oneChunk [])) with
  | .error err => .error err
  | .ok opened =>
    .ok { opened with own := oneChunk [⟨[8], 1, 1, 1⟩, ⟨[8], 2, 2, 1⟩] }

/-- A clone of the clone. -/
def volumeC : Except SnapshotError CloneVolume :=
  match volumeB with
  | .error err => .error err
  | .ok b => b.cloneTo (plainVolume "vol-c" (oneChunk []))

theorem clone_of_clone_resolves :
    ∃ b snap c, volumeB = .ok b ∧ Chain b ∧ b.base.isSome = true ∧
      (b.mintVolumeUUID []).createSnapshot b.storedWalk = .ok snap ∧
      (plainVolume "vol-c" (oneChunk [])).openFromSnapshot snap = .ok c ∧
      ∀ block, c.inherited block = (b.mintVolumeUUID []).resolve block := by
  have hdeep : volumeC.toBool = true := by
    decide +kernel
  obtain ⟨c, hc⟩ := exists_ok_of_toBool hdeep
  unfold volumeC at hc
  cases hb : volumeB with
  | error err =>
    rw [hb] at hc
    cases hc
  | ok b =>
    rw [hb] at hc
    have hroot : Chain volumeA :=
      .root (ownMap_oneChunk (by decide) (by decide)) rfl rfl
    have hchain : Chain b ∧ b.base.isSome = true := by
      unfold volumeB cloneTo at hb
      split at hb
      · cases hb
      rename_i opened hopened
      split at hopened
      · cases hopened
      rename_i snap hsnap
      cases hb
      have hstride : opened.stride = 1 := by
        rw [eq_of_openFromSnapshot (hroot.valid.mintVolumeUUID []) (List.Perm.refl _)
          (storedWalk_of volumeA).layers hsnap hopened]
        rfl
      refine ⟨.clone [] _ hroot (storedWalk_of volumeA) hsnap hopened ?_, ?_⟩
      · rw [hstride]
        exact ownMap_oneChunk (by decide) (by decide)
      · rw [eq_of_openFromSnapshot (hroot.valid.mintVolumeUUID []) (List.Perm.refl _)
          (storedWalk_of volumeA).layers hsnap hopened]
        rfl
    unfold cloneTo at hc
    dsimp only at hc
    split at hc
    · cases hc
    rename_i snap hsnap
    exact ⟨b, snap, c, rfl, hchain.1, hchain.2, hsnap, hc,
      clone_resolves_as_frozen [] hchain.1 (storedWalk_of b) hsnap hc⟩

end Chain

end CloneVolume

end Viperblock
