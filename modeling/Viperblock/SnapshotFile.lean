import Viperblock.MapHistory

/-!
# Snapshots of clones

A snapshot of a volume is a checkpoint of its own blocks and, if the volume is
itself a clone, a flat section with everything it inherits: the base map and the
ancestor maps in their order, each without the blocks that a layer before it
holds.  A clone that is opened from the snapshot takes the own blocks as its
base map and the flat section as its ancestors.

Go walks its maps in any order, so the order of each walk is a parameter.
-/

namespace Viperblock

open ByteCodec BlockMap BlocksToObject

abbrev MapEntry := Sigma fun _ : Nat => BlockLookup

/-- The bytes a fixed-size array holds after a copy into it. -/
def fixedBytes (n : Nat) (bytes : Bytes) : Bytes :=
  (bytes ++ List.replicate n 0).take n

theorem length_fixedBytes (n : Nat) (bytes : Bytes) : (fixedBytes n bytes).length = n := by
  simp [fixedBytes]

theorem fixedBytes_of_length {n : Nat} {bytes : Bytes} (hlength : bytes.length = n) :
    fixedBytes n bytes = bytes := by
  rw [fixedBytes, List.take_left' hlength]

/-- Name of a volume with what its blocks are sealed under. -/
structure SourceIdentity where
  name : String
  uuid : Bytes
  nameHash : Bytes
  uuid_length : uuid.length = 4
  nameHash_length : nameHash.length = 32
deriving DecidableEq

def SourceIdentity.ofBytes (name : String) (uuid nameHash : Bytes) : SourceIdentity :=
  ⟨name, fixedBytes 4 uuid, fixedBytes 32 nameHash, length_fixedBytes 4 uuid,
    length_fixedBytes 32 nameHash⟩

theorem SourceIdentity.ofBytes_self (source : SourceIdentity) :
    ofBytes source.name source.uuid source.nameHash = source := by
  obtain ⟨name, uuid, nameHash, huuid, hhash⟩ := source
  simp [ofBytes, fixedBytes_of_length huuid, fixedBytes_of_length hhash]

/-- A map that is inherited, by block, with the volume its chunks belong to. -/
structure Layer where
  source : SourceIdentity
  blocks : BlockMap

inductive SnapshotError
  | tooManySources (count : Nat)
  | nameTooLong (length : Nat)
  | tooManyBlocks (count : Nat)
  /-- The checkpoint is shorter than its header. -/
  | checkpointTooSmall (length : Nat)
  | magicMismatch
  | versionMismatch
  | trailingBytes (count : Nat)
  /-- A slice expression out of range, which panics. -/
  | outOfRange
  | entry (err : CheckpointError)
  | blockCountMismatch (metadata checkpoint : Nat)
  | flatTooShort (length : Nat)
  | flatMagicMismatch
  | truncatedNameLength (source : Nat)
  | truncatedName (source : Nat)
  | truncatedIdentity (source : Nat)
  | truncatedBlock (source block : Nat)
  | flatBlock (source block : Nat) (err : CheckpointError)
  | emptySourceVolumeName
  /-- The reader has a key and the metadata is not sealed with it. -/
  | envelope
  | invalidSourceVolumeUUID
  | invalidSourceVolumeNameHash
  | blockCountOverflow (count : Nat)
deriving DecidableEq, Repr

/-- `FLAT` -/
def flatSectionMagic : Bytes := [70, 76, 65, 84]

section Names

/-- The bytes of a Go string. -/
def nameBytes (name : String) : Bytes :=
  name.toUTF8.data.toList

/-- The string with the given bytes; only text is ever written. -/
def nameOfBytes (bytes : Bytes) : String :=
  (String.fromUTF8? ⟨bytes.toArray⟩).getD ""

theorem nameOfBytes_nameBytes (name : String) :
    nameOfBytes (nameBytes name) = name := by
  have harray : (⟨(nameBytes name).toArray⟩ : ByteArray) = name.toUTF8 := by
    rw [nameBytes, Array.toArray_toList]
  have hvalid : name.toUTF8.IsValidUTF8 := name.isValidUTF8
  rw [nameOfBytes, harray, String.fromUTF8?, dif_pos hvalid]
  rfl

end Names

section Flat

/-- One layer as the flat section lists it. -/
structure SourceGroup where
  source : SourceIdentity
  blocks : List BlockLookup

/-- What each walked layer adds to the blocks that were seen before it. -/
def flatGroups : List Nat → List (SourceIdentity × List MapEntry) → List SourceGroup
  | _, [] => []
  | seen, (source, entries) :: rest =>
    let kept := entries.filter fun entry => !seen.contains entry.1
    ⟨source, kept.map Sigma.snd⟩ :: flatGroups (seen ++ kept.map Sigma.fst) rest

def groupBytes (g : SourceGroup) : Bytes :=
  encode 2 (nameBytes g.source.name).length ++ nameBytes g.source.name ++
    g.source.uuid ++ g.source.nameHash ++ encode 4 g.blocks.length ++
    (g.blocks.map writeBlockWalChunk).flatten

/-- The groups one after the other; a name or a count that does not fit ends it. -/
def writeGroups : List SourceGroup → Except SnapshotError Bytes
  | [] => .ok []
  | g :: rest =>
    if 65535 < (nameBytes g.source.name).length then
      .error (.nameTooLong (nameBytes g.source.name).length)
    else if 4294967295 < g.blocks.length then .error (.tooManyBlocks g.blocks.length)
    else
      match writeGroups rest with
      | .error err => .error err
      | .ok bytes => .ok (groupBytes g ++ bytes)

def buildFlatSection (seen : List Nat) (layers : List (SourceIdentity × List MapEntry)) :
    Except SnapshotError Bytes :=
  let sources := flatGroups seen layers
  if 255 < sources.length then .error (.tooManySources sources.length)
  else
    match writeGroups sources with
    | .error err => .error err
    | .ok bytes =>
      .ok (flatSectionMagic ++ [1] ++ encode 1 sources.length ++ bytes)

/-- Read `count` records of source `i`, the next of them its record `j`. -/
def parseFlatBlocks (i : Nat) : Nat → Nat → Bytes → Except SnapshotError (List BlockLookup × Bytes)
  | 0, _, data => .ok ([], data)
  | count + 1, j, data =>
    if data.length < blockWalChunkSize then .error (.truncatedBlock i j)
    else
      match decodeBlockWalChunk (data.take blockWalChunkSize) with
      | .error err => .error (.flatBlock i j err)
      | .ok block =>
        match parseFlatBlocks i count (j + 1) (data.drop blockWalChunkSize) with
        | .error err => .error err
        | .ok (blocks, rest) => .ok (block :: blocks, rest)

/-- Read source `i` off the front of the data. -/
def parseFlatSource (i : Nat) (data : Bytes) : Except SnapshotError (Layer × Bytes) :=
  if data.length < 2 then .error (.truncatedNameLength i)
  else
    let nameLen := decode (data.take 2)
    let named := data.drop 2
    if named.length < nameLen then .error (.truncatedName i)
    else
      let identity := named.drop nameLen
      if identity.length < 4 + 32 + 4 then .error (.truncatedIdentity i)
      else
        let source := SourceIdentity.ofBytes (nameOfBytes (named.take nameLen))
          (identity.take 4) ((identity.drop 4).take 32)
        let numBlocks := decode ((identity.drop 36).take 4)
        match parseFlatBlocks i numBlocks 0 (identity.drop 40) with
        | .error err => .error err
        | .ok (blocks, rest) => .ok (⟨source, flatRecords blocks⟩, rest)

/-- Read `count` sources, the next of them source `i`. -/
def parseFlatSources : Nat → Nat → Bytes → Except SnapshotError (List Layer)
  | 0, _, _ => .ok []
  | count + 1, i, data =>
    match parseFlatSource i data with
    | .error err => .error err
    | .ok (layer, rest) =>
      match parseFlatSources count (i + 1) rest with
      | .error err => .error err
      | .ok layers => .ok (layer :: layers)

def parseFlatSection (data : Bytes) : Except SnapshotError (List Layer) :=
  if data.length < 6 then .error (.flatTooShort data.length)
  else if data.take 4 ≠ flatSectionMagic then .error .flatMagicMismatch
  else parseFlatSources (decode ((data.drop 5).take 1)) 0 (data.drop 6)

end Flat

section FlatRoundTrip

/-- The layer a group is read back as. -/
def SourceGroup.layer (g : SourceGroup) : Layer :=
  ⟨g.source, flatRecords g.blocks⟩

/-- The records of a group have the widths of the format. -/
def SourceGroup.Fits (g : SourceGroup) : Prop :=
  ∀ bl ∈ g.blocks, bl.Fits ∧ bl.seqNums = []

theorem parseFlatBlocks_write {blocks : List BlockLookup}
    (hfits : ∀ bl ∈ blocks, bl.Fits ∧ bl.seqNums = []) (i j : Nat) (rest : Bytes) :
    parseFlatBlocks i blocks.length j ((blocks.map writeBlockWalChunk).flatten ++ rest) =
      .ok (blocks, rest) := by
  induction blocks generalizing j with
  | nil => rfl
  | cons bl blocks ih =>
    obtain ⟨hbl, hseqNums⟩ := hfits bl (by simp)
    have hsame : { bl with seqNums := [] } = bl := by
      rw [← hseqNums]
    have hsize := length_writeBlockWalChunk bl
    have hlong : ¬ (((bl :: blocks).map writeBlockWalChunk).flatten ++ rest).length <
        blockWalChunkSize := by
      simp only [List.map_cons, List.flatten_cons, List.length_append, hsize]
      omega
    have hih := ih (fun b hb => hfits b (by simp [hb])) (j + 1)
    rw [List.length_cons, parseFlatBlocks, if_neg hlong, List.map_cons,
      List.flatten_cons, List.append_assoc, List.take_left' hsize,
      List.drop_left' hsize, decodeBlockWalChunk_write hbl, hsame]
    simp only [hih]

/-- What stands in front of the blocks of a source. -/
def sourceHeader (name identity : Bytes) (count : Nat) : Bytes :=
  encode 2 name.length ++ name ++ identity ++ encode 4 count

theorem parseFlatSource_header {name identity : Bytes} {count : Nat} (hname : name.length < 2 ^ 16)
    (hidentity : identity.length = 36) (hcount : count < 2 ^ 32) (i : Nat) (rest : Bytes) :
    parseFlatSource i (sourceHeader name identity count ++ rest) =
      match parseFlatBlocks i count 0 rest with
      | .error err => .error err
      | .ok (blocks, rest) =>
        .ok (⟨SourceIdentity.ofBytes (nameOfBytes name) (identity.take 4) (identity.drop 4),
          flatRecords blocks⟩, rest) := by
  have hdrop : (identity ++ (encode 4 count ++ rest)).drop 40 = rest := by
    rw [← List.append_assoc]
    exact List.drop_left' (by rw [List.length_append, length_encode, hidentity])
  have htake : ((identity ++ (encode 4 count ++ rest)).drop 4).take 32 = identity.drop 4 := by
    rw [List.drop_append_of_le_length (by omega)]
    exact List.take_left' (by rw [List.length_drop, hidentity])
  simp only [sourceHeader, List.append_assoc, parseFlatSource]
  rw [if_neg (by simp only [List.length_append, length_encode]; omega)]
  simp only [List.take_left' (length_encode 2 _), List.drop_left' (length_encode 2 _),
    decode_encode (show name.length < 256 ^ 2 from hname), List.take_left, List.drop_left]
  rw [if_neg (by simp only [List.length_append]; omega),
    if_neg (by simp only [List.length_append, length_encode]; omega), hdrop, htake,
    List.drop_left' hidentity, List.take_left' (length_encode 4 _),
    decode_encode (show count < 256 ^ 4 from hcount), List.take_append_of_le_length (by omega)]

theorem parseFlatSource_write {g : SourceGroup} (hname : (nameBytes g.source.name).length ≤ 65535)
    (hcount : g.blocks.length ≤ 4294967295) (hfits : g.Fits) (i : Nat) (rest : Bytes) :
    parseFlatSource i (groupBytes g ++ rest) = .ok (g.layer, rest) := by
  have hidentity : (g.source.uuid ++ g.source.nameHash).length = 36 := by
    rw [List.length_append, g.source.uuid_length, g.source.nameHash_length]
  have hdata : groupBytes g ++ rest = sourceHeader (nameBytes g.source.name)
      (g.source.uuid ++ g.source.nameHash) g.blocks.length ++
        ((g.blocks.map writeBlockWalChunk).flatten ++ rest) := by
    simp only [groupBytes, sourceHeader, List.append_assoc]
  rw [hdata, parseFlatSource_header (by omega) hidentity (by omega), parseFlatBlocks_write hfits,
    nameOfBytes_nameBytes, List.take_left' g.source.uuid_length,
    List.drop_left' g.source.uuid_length, SourceIdentity.ofBytes_self]
  rfl

theorem parseFlatSources_write {groups : List SourceGroup} {bytes : Bytes}
    (hbytes : writeGroups groups = .ok bytes) (hfits : ∀ g ∈ groups, g.Fits) (i : Nat) :
    parseFlatSources groups.length i bytes = .ok (groups.map SourceGroup.layer) := by
  induction groups generalizing bytes i with
  | nil => rfl
  | cons g groups ih =>
    simp only [writeGroups] at hbytes
    split at hbytes
    · cases hbytes
    split at hbytes
    · cases hbytes
    cases hrest : writeGroups groups with
    | error err =>
      rw [hrest] at hbytes
      cases hbytes
    | ok rest =>
      rw [hrest] at hbytes
      obtain rfl : groupBytes g ++ rest = bytes := Except.ok.inj hbytes
      have hih := ih hrest (fun g' hg' => hfits g' (by simp [hg'])) (i + 1)
      rw [List.length_cons, parseFlatSources,
        parseFlatSource_write (by omega) (by omega) (hfits g (by simp))]
      simp only [hih, List.map_cons]

theorem flatSection_fields (version : UInt8) (sources : Nat) (body : Bytes) :
    let flat := flatSectionMagic ++ ([version] ++ (encode 1 sources ++ body))
    6 ≤ flat.length ∧ flat.take 4 = flatSectionMagic ∧ (flat.drop 5).take 1 = encode 1 sources ∧
      flat.drop 6 = body := by
  have hcount := length_encode 1 sources
  refine ⟨?_, rfl, ?_, ?_⟩
  · simp only [List.length_append, hcount, List.length_singleton,
      show flatSectionMagic.length = 4 from rfl]
    omega
  · exact List.take_left' hcount
  · exact List.drop_left' hcount

/-- A flat section that was built is read back layer by layer. -/
theorem parseFlatSection_build {seen : List Nat} {layers : List (SourceIdentity × List MapEntry)}
    {bytes : Bytes} (hbytes : buildFlatSection seen layers = .ok bytes)
    (hfits : ∀ g ∈ flatGroups seen layers, g.Fits) :
    parseFlatSection bytes = .ok ((flatGroups seen layers).map SourceGroup.layer) := by
  simp only [buildFlatSection] at hbytes
  split at hbytes
  · cases hbytes
  split at hbytes
  · cases hbytes
  rename_i body hgroups
  cases hbytes
  obtain ⟨hlong, hmagic, hcount, hbody⟩ :=
    flatSection_fields 1 (flatGroups seen layers).length body
  rw [parseFlatSection, List.append_assoc, List.append_assoc, if_neg (Nat.not_lt.mpr hlong),
    if_neg (not_not.mpr hmagic), hcount, hbody, decode_encode (by omega)]
  exact parseFlatSources_write hgroups hfits 0

end FlatRoundTrip

end Viperblock
