import Viperblock.CheckpointDecoder
import Viperblock.SnapshotChain

/-!
# Snapshots that are cut or do not match their metadata

`LoadSnapshotBlockMap` takes the length of the own-blocks section from the metadata of a
snapshot with a flat section, and slices the checkpoint by it.  Whatever the bytes are,
every other length is compared with what is there before it is used; but the map of a source
is made for as many blocks as the source states, before they are read.

So a load goes outside of the bytes exactly if the metadata counts more entries than there
are and nothing before that is wrong.  A front part of a snapshot that was written is loaded
only without the key of its metadata, and a clone whose open fails keeps what it was opened
from.
-/

namespace Viperblock

open ByteCodec BlockMap

section Sources

/-- The number of blocks that a source states; the map is made for as many. -/
def numBlocks (data : Bytes) : Option Nat :=
  let named := data.drop 2
  let identity := named.drop (decode (data.take 2))
  if data.length < 2 ∨ named.length < decode (data.take 2) ∨ identity.length < 40 then none
  else some (decode ((identity.drop 36).take 4))

/-- The sizes of the maps that are made for `count` sources. -/
def sourceSizes : Nat → Nat → Bytes → List Nat
  | 0, _, _ => []
  | count + 1, i, data =>
    (numBlocks data).toList ++ match parseFlatSource i data with
      | .error _ => []
      | .ok (_, rest) => sourceSizes count (i + 1) rest

/-- The widths of the fields in front of the blocks. -/
structure HeaderFits (name identity : Bytes) (count : Nat) : Prop where
  name : name.length < 2 ^ 16
  identity : identity.length = 36
  count : count < 2 ^ 32

/-- One of the sources states `n` blocks, and those before it have as many as they state. -/
inductive States (n : Nat) : Nat → Bytes → Prop
  | here {count : Nat} {name identity rest : Bytes} (fits : HeaderFits name identity n) :
      States n (count + 1) (sourceHeader name identity n ++ rest)
  | next {count : Nat} {name identity rest : Bytes} {pieces : List Bytes}
      (fits : HeaderFits name identity pieces.length) (records : AreRecords pieces)
      (later : States n count rest) :
      States n (count + 1)
        (sourceHeader name identity pieces.length ++ (pieces.flatten ++ rest))

theorem numBlocks_header {name identity : Bytes} {count : Nat}
    (hfits : HeaderFits name identity count) (rest : Bytes) :
    numBlocks (sourceHeader name identity count ++ rest) = some count := by
  obtain ⟨hname, hidentity, hcount⟩ := hfits
  simp only [sourceHeader, List.append_assoc, numBlocks]
  simp only [List.take_left' (length_encode 2 _), List.drop_left' (length_encode 2 _),
    decode_encode (show name.length < 256 ^ 2 from hname), List.drop_left]
  rw [if_neg (by simp only [List.length_append, length_encode]; omega),
    List.drop_left' hidentity, List.take_left' (length_encode 4 _),
    decode_encode (show count < 256 ^ 4 from hcount)]

theorem header_cases (data : Bytes) :
    (numBlocks data = none ∧ ∀ i, ∃ err, parseFlatSource i data = .error err ∧ err ≠ .outOfRange) ∨
      ∃ name identity count rest, HeaderFits name identity count ∧
        data = sourceHeader name identity count ++ rest := by
  by_cases hlength : data.length < 2
  · exact .inl ⟨if_pos (.inl hlength), fun i => ⟨_, if_pos hlength, by simp⟩⟩
  by_cases hname : (data.drop 2).length < decode (data.take 2)
  · refine .inl ⟨if_pos (.inr (.inl hname)), fun i => ⟨.truncatedName i, ?_, by simp⟩⟩
    simp only [parseFlatSource, hlength, hname, if_false, if_true]
  by_cases hidentity : ((data.drop 2).drop (decode (data.take 2))).length < 40
  · refine .inl ⟨if_pos (.inr (.inr hidentity)), fun i => ⟨.truncatedIdentity i, ?_, by simp⟩⟩
    simp only [parseFlatSource, hlength, hname, if_false]
    exact if_pos hidentity
  right
  generalize hlen : decode (data.take 2) = nameLen at hname hidentity
  generalize hnamed : data.drop 2 = named at hname hidentity
  have htake : (data.take 2).length = 2 := List.length_take_of_le (by omega)
  have hnameLen : (named.take nameLen).length = nameLen := List.length_take_of_le (by omega)
  have hfield : (((named.drop nameLen).drop 36).take 4).length = 4 :=
    List.length_take_of_le (by rw [List.length_drop]; omega)
  refine ⟨named.take nameLen, (named.drop nameLen).take 36,
    decode (((named.drop nameLen).drop 36).take 4), (named.drop nameLen).drop 40, ⟨?_, ?_, ?_⟩, ?_⟩
  · have hlt := decode_lt (data.take 2)
    rw [htake, hlen] at hlt
    rw [hnameLen]
    exact hlt
  · exact List.length_take_of_le (by omega)
  · have hlt := decode_lt (((named.drop nameLen).drop 36).take 4)
    rwa [hfield] at hlt
  · rw [sourceHeader, hnameLen, encode_decode hfield, ← hlen, encode_decode htake, hlen]
    simp only [List.append_assoc]
    rw [show 40 = 36 + 4 from rfl, ← List.drop_drop, List.take_append_drop,
      List.take_append_drop, List.take_append_drop, ← hnamed, List.take_append_drop]

theorem exists_parseFlatBlocks_iff {i count j : Nat} {data rest : Bytes} :
    (∃ blocks, parseFlatBlocks i count j data = .ok (blocks, rest)) ↔
      ∃ pieces, pieces.length = count ∧ AreRecords pieces ∧ data = pieces.flatten ++ rest := by
  induction count generalizing j data with
  | zero => simp [parseFlatBlocks, AreRecords, eq_comm]
  | succ count ih =>
    constructor
    · rintro ⟨blocks, hparse⟩
      simp only [parseFlatBlocks] at hparse
      split at hparse
      · cases hparse
      split at hparse
      · cases hparse
      rename_i block hblock
      split at hparse
      · cases hparse
      rename_i others left hothers
      cases hparse
      obtain ⟨pieces, hlength, hpieces, hdata⟩ := ih.mp ⟨others, hothers⟩
      refine ⟨data.take blockWalChunkSize :: pieces, by rw [List.length_cons, hlength],
        List.forall_mem_cons.mpr ⟨exists_decode_iff.mp ⟨block, hblock⟩, hpieces⟩, ?_⟩
      rw [List.flatten_cons, List.append_assoc, ← hdata, List.take_append_drop]
    · rintro ⟨_ | ⟨piece, pieces⟩, hlength, hpieces, rfl⟩
      · cases hlength
      obtain ⟨hpiece, hpieces⟩ := List.forall_mem_cons.mp hpieces
      obtain ⟨block, hblock⟩ := exists_decode_iff.mpr hpiece
      have hsize : piece.length = blockWalChunkSize := hpiece.1
      obtain ⟨blocks, hblocks⟩ :=
        ih (j := j + 1).mpr ⟨pieces, Nat.succ.inj hlength, hpieces, rfl⟩
      refine ⟨block :: blocks, ?_⟩
      rw [parseFlatBlocks, List.flatten_cons, List.append_assoc,
        if_neg (by rw [List.length_append, hsize]; omega), List.take_left' hsize,
        List.drop_left' hsize, hblock]
      simp only [hblocks]

theorem mem_sourceSizes_iff {n count i : Nat} {data : Bytes} :
    n ∈ sourceSizes count i data ↔ States n count data := by
  induction count generalizing i data with
  | zero => exact iff_of_false List.not_mem_nil fun h => by cases h
  | succ count ih =>
    rw [sourceSizes, List.mem_append, Option.mem_toList]
    constructor
    · intro hmem
      rcases header_cases data with ⟨hnone, herror⟩ | ⟨name, identity, m, rest, hfits, rfl⟩
      · obtain ⟨err, herr, -⟩ := herror i
        simp [hnone, herr] at hmem
      rw [numBlocks_header hfits,
        parseFlatSource_header hfits.name hfits.identity hfits.count] at hmem
      rcases hmem with hn | hlater
      · cases hn
        exact .here hfits
      cases hblocks : parseFlatBlocks i m 0 rest with
      | error err => simp [hblocks] at hlater
      | ok read =>
        obtain ⟨blocks, left⟩ := read
        rw [hblocks] at hlater
        obtain ⟨pieces, rfl, hpieces, rfl⟩ := exists_parseFlatBlocks_iff.mp ⟨blocks, hblocks⟩
        exact .next hfits hpieces (ih.mp hlater)
    · intro hstates
      cases hstates with
      | here hfits => exact .inl (numBlocks_header hfits _)
      | @next _ name identity rest pieces hfits hpieces hlater =>
        obtain ⟨blocks, hblocks⟩ := exists_parseFlatBlocks_iff.mpr ⟨pieces, rfl, hpieces, rfl⟩
        right
        rw [parseFlatSource_header hfits.name hfits.identity hfits.count, hblocks]
        exact ih.mpr hlater

end Sources

section Front

theorem parseFlatSource_append {i : Nat} {data rest : Bytes} {layer : Layer}
    (hparse : parseFlatSource i data = .ok (layer, rest)) (more : Bytes) :
    ∃ layer', parseFlatSource i (data ++ more) = .ok (layer', rest ++ more) := by
  rcases header_cases data with ⟨-, herror⟩ | ⟨name, identity, count, left, hfits, rfl⟩
  · obtain ⟨err, herr, -⟩ := herror i
    cases hparse.symm.trans herr
  rw [parseFlatSource_header hfits.name hfits.identity hfits.count] at hparse
  split at hparse
  · cases hparse
  rename_i blocks _ hblocks
  cases hparse
  obtain ⟨pieces, hlength, hpieces, rfl⟩ := exists_parseFlatBlocks_iff.mp ⟨blocks, hblocks⟩
  obtain ⟨blocks', hblocks'⟩ := (exists_parseFlatBlocks_iff (i := i) (j := 0)).mpr
    ⟨pieces, hlength, hpieces, List.append_assoc _ rest more⟩
  rw [List.append_assoc, parseFlatSource_header hfits.name hfits.identity hfits.count, hblocks']
  exact ⟨_, rfl⟩

theorem parseFlatSources_front {groups : List SourceGroup} {front tail : Bytes}
    (hbytes : writeGroups groups = .ok (front ++ tail)) (hfits : ∀ g ∈ groups, g.Fits)
    (htail : tail ≠ []) (i : Nat) (layers : List Layer) :
    parseFlatSources groups.length i front ≠ .ok layers := by
  induction groups generalizing front i layers with
  | nil =>
    have hempty := Except.ok.inj hbytes
    exact absurd (List.append_eq_nil_iff.mp hempty.symm).2 htail
  | cons g groups ih =>
    simp only [writeGroups] at hbytes
    split at hbytes
    · cases hbytes
    split at hbytes
    · cases hbytes
    split at hbytes
    · cases hbytes
    rename_i others hothers
    have hsplit := Except.ok.inj hbytes
    intro hparse
    simp only [List.length_cons, parseFlatSources] at hparse
    split at hparse
    · cases hparse
    rename_i layer left hlayer
    split at hparse
    · cases hparse
    rename_i rest hrest
    obtain ⟨layer', hwhole⟩ := parseFlatSource_append hlayer tail
    rw [← hsplit, parseFlatSource_write (by omega) (by omega) (hfits g List.mem_cons_self)]
      at hwhole
    cases hwhole
    exact ih hothers (fun g' hg' => hfits g' (List.mem_cons_of_mem _ hg')) _ _ hrest

/-- A flat section of which the end is missing is not read. -/
theorem parseFlatSection_front {seen : List Nat} {sources : List (SourceIdentity × List MapEntry)}
    {front tail : Bytes} (hbytes : buildFlatSection seen sources = .ok (front ++ tail))
    (hfits : ∀ g ∈ flatGroups seen sources, g.Fits) (htail : tail ≠ []) (layers : List Layer) :
    parseFlatSection front ≠ .ok layers := by
  simp only [buildFlatSection] at hbytes
  split at hbytes
  · cases hbytes
  split at hbytes
  · cases hbytes
  rename_i hsources _ body hgroups
  have hsplit := Except.ok.inj hbytes
  have hlength : (flatSectionMagic ++ [1] ++
      encode 1 (flatGroups seen sources).length).length = 6 := by
    rfl
  intro hparse
  simp only [parseFlatSection] at hparse
  split at hparse
  · cases hparse
  split at hparse
  · cases hparse
  -- the six bytes in front of the groups are there
  have hcount : (front.drop 5).take 1 = encode 1 (flatGroups seen sources).length := by
    have hdrop : ((front ++ tail).drop 5).take 1 = (front.drop 5).take 1 := by
      rw [List.drop_append_of_le_length (by omega),
        List.take_append_of_le_length (by rw [List.length_drop]; omega)]
    rw [← hdrop, ← hsplit, List.append_assoc (flatSectionMagic ++ [1]),
      List.drop_left' (show (flatSectionMagic ++ [1]).length = 5 from rfl),
      List.take_left' (length_encode 1 _)]
  have hbody : body = front.drop 6 ++ tail := by
    have hdrop : (front ++ tail).drop 6 = front.drop 6 ++ tail :=
      List.drop_append_of_le_length (by omega)
    rw [← hdrop, ← hsplit, List.drop_left' hlength]
  rw [hcount, decode_encode (by omega)] at hparse
  rw [hbody] at hgroups
  exact parseFlatSources_front hgroups hfits htail 0 layers hparse

end Front

section Range

theorem parseFlatBlocks_inRange (i count j : Nat) (data : Bytes) :
    parseFlatBlocks i count j data ≠ .error .outOfRange := by
  induction count generalizing j data with
  | zero => simp [parseFlatBlocks]
  | succ count ih =>
    intro hparse
    simp only [parseFlatBlocks] at hparse
    split at hparse
    · cases hparse
    split at hparse
    · cases hparse
    split at hparse
    · rename_i err herr
      cases hparse
      exact ih _ _ herr
    · cases hparse

theorem parseFlatSources_inRange (count i : Nat) (data : Bytes) :
    parseFlatSources count i data ≠ .error .outOfRange := by
  induction count generalizing i data with
  | zero => simp [parseFlatSources]
  | succ count ih =>
    intro hparse
    simp only [parseFlatSources] at hparse
    split at hparse
    · rename_i err herr
      cases hparse
      rcases header_cases data with ⟨-, herror⟩ | ⟨name, identity, n, rest, hfits, rfl⟩
      · obtain ⟨_, herr', hne⟩ := herror i
        cases herr.symm.trans herr'
        exact hne rfl
      rw [parseFlatSource_header hfits.name hfits.identity hfits.count] at herr
      split at herr
      · rename_i herr'
        cases herr
        exact parseFlatBlocks_inRange _ _ _ _ herr'
      · cases herr
    split at hparse
    · rename_i err herr
      cases hparse
      exact ih _ _ herr
    · cases hparse

theorem parseFlatSection_inRange (data : Bytes) :
    parseFlatSection data ≠ .error .outOfRange := by
  unfold parseFlatSection
  split
  · simp
  split
  · simp
  exact parseFlatSources_inRange _ _ _

end Range

namespace CloneVolume

/-- The sizes of the maps that a load makes for inherited layers. -/
def mapSizes (v : CloneVolume) (snap : SnapshotObject) : List Nat :=
  match decodedState v.encryptionEnabled snap.state with
  | .error _ => []
  | .ok state =>
    match v.loadBase snap.checkpoint state with
    | .error _ => []
    | .ok (_, none) => []
    | .ok (_, some flat) =>
      if flat.length < 6 ∨ flat.take 4 ≠ flatSectionMagic then []
      else sourceSizes (decode ((flat.drop 5).take 1)) 0 (flat.drop 6)

/-- A reader of the right kind comes to the entries of a snapshot with a flat section. -/
structure ReadsFlat (v : CloneVolume) (snap : SnapshotObject) : Prop where
  enveloped : v.encryptionEnabled = snap.state.enveloped
  readable : v.Readable snap.checkpoint snap.state
  flat : snap.state.hasFlatSection = true

/-- The metadata counts more entries than the checkpoint has, and nothing before the first
missing one is wrong. -/
structure Overruns (v : CloneVolume) (snap : SnapshotObject) : Prop extends
    v.ReadsFlat snap where
  missing : (snap.checkpoint.drop blockCheckpointHeaderSize).length <
    snap.state.blockCount * blockWalChunkSize
  entries : AreRecords (frames blockWalChunkSize (snap.state.blockCount * blockWalChunkSize + 1)
    ((snap.checkpoint.drop blockCheckpointHeaderSize).take
      (snap.state.blockCount * blockWalChunkSize)))

/-- The block of a record. -/
def recordBlock (piece : Bytes) : Nat :=
  decode (piece.take 8)

/-- The own blocks are as many as the metadata counts, and a source of the flat section states
`n` blocks. -/
structure StatesBlocks (v : CloneVolume) (snap : SnapshotObject) (n : Nat) : Prop extends
    v.ReadsFlat snap where
  sources : ∃ (pieces : List Bytes) (version : UInt8) (sources : Nat) (body : Bytes),
    AreRecords pieces ∧ pieces.length = snap.state.blockCount ∧
    (pieces.map recordBlock).Nodup ∧ sources < 256 ∧
    snap.checkpoint.drop blockCheckpointHeaderSize = pieces.flatten ++
      (flatSectionMagic ++ ([version] ++ (encode 1 sources ++ body))) ∧
    States n sources body

section Load

variable {v : CloneVolume} {snap : SnapshotObject}

theorem map_startBlock_of_decodeRecords {offset : Nat} {pieces : List Bytes}
    {records : List BlockLookup} (hdecode : decodeRecords offset pieces = .ok records) :
    records.map BlockLookup.startBlock = pieces.map recordBlock := by
  rw [decodeRecords_ok_iff] at hdecode
  induction hdecode with
  | nil => rfl
  | @cons piece rec _ _ hrec _ ih =>
    have hstart : rec.startBlock = recordBlock piece := by
      revert hrec
      fun_cases decodeBlockWalChunk piece <;> intro hrec <;> cases hrec
      rfl
    rw [List.map_cons, List.map_cons, hstart, ih]

theorem loadOwnBlocks_iff (state : SnapshotState) (data : Bytes) (ownSize : Nat) :
    let pieces := frames blockWalChunkSize (ownSize + 1) (data.take ownSize)
    (loadOwnBlocks state data ownSize = .error .outOfRange ↔
        ownSize % blockWalChunkSize = 0 ∧ AreRecords pieces ∧ data.length < ownSize) ∧
      ((∃ baseMap, loadOwnBlocks state data ownSize = .ok baseMap) ↔
        ownSize % blockWalChunkSize = 0 ∧ AreRecords pieces ∧ ownSize ≤ data.length ∧
          (0 < state.blockCount → (pieces.map recordBlock).toFinset.card = state.blockCount)) := by
  intro pieces
  unfold loadOwnBlocks
  by_cases hmod : ownSize % blockWalChunkSize = 0
  · rw [if_neg (not_not.mpr hmod),
      ← @exists_decodeRecords_iff blockCheckpointHeaderSize pieces]
    cases hrecords : decodeRecords blockCheckpointHeaderSize pieces with
    | error err => simp [pieces]
    | ok records =>
      have hcard := length_flatRecords records
      rw [map_startBlock_of_decodeRecords hrecords] at hcard
      by_cases hshort : data.length < ownSize
      · simp [pieces, hshort, hmod, Nat.not_le.mpr hshort]
      · by_cases hcount :
          0 < state.blockCount ∧ (flatRecords records).entries.length ≠ state.blockCount
        · simp [pieces, hshort, hmod, Nat.not_lt.mp hshort, hcount, ← hcard]
        · simp only [pieces, hshort, hmod, Nat.not_lt.mp hshort, hcount, ← hcard]
          simp only [not_and, not_not] at hcount
          simpa using hcount
  · simp [hmod]

section

variable {state : SnapshotState}

/-- The own blocks that the metadata counts are loaded exactly if there are as many, all of
them different. -/
theorem exists_loadOwnBlocks_iff {data rest : Bytes} :
    ((∃ baseMap, loadOwnBlocks state data (state.blockCount * blockWalChunkSize) = .ok baseMap) ∧
        data.drop (state.blockCount * blockWalChunkSize) = rest) ↔
      ∃ pieces, AreRecords pieces ∧ pieces.length = state.blockCount ∧
        (pieces.map recordBlock).Nodup ∧ data = pieces.flatten ++ rest := by
  have hpos : 0 < blockWalChunkSize := by decide
  have hfuel : state.blockCount < state.blockCount * blockWalChunkSize + 1 :=
    Nat.lt_succ_of_le (Nat.le_mul_of_pos_right _ hpos)
  rw [(loadOwnBlocks_iff _ _ _).2]
  constructor
  · rintro ⟨⟨hmod, hpieces, hlong, hcard⟩, rfl⟩
    have htake := List.length_take_of_le hlong
    have hlength := length_frames hpos htake hfuel
    refine ⟨_, hpieces, hlength, ?_, ?_⟩
    · rcases Nat.eq_zero_or_pos state.blockCount with hzero | hcount
      · rw [List.length_eq_zero_iff.mp (hlength.trans hzero)]
        exact List.nodup_nil
      · rw [← List.dedup_eq_self]
        refine (List.dedup_sublist _).eq_of_length ?_
        rw [← List.card_toFinset, hcard hcount, List.length_map, hlength]
    · rw [← htake] at hmod
      have hflatten := flatten_frames_of_mod hpos hmod
      rw [htake] at hflatten
      rw [hflatten, List.take_append_drop]
  · rintro ⟨pieces, hpieces, hlength, hnodup, rfl⟩
    have hsize : ∀ piece ∈ pieces, piece.length = blockWalChunkSize := fun piece hpiece =>
      (hpieces piece hpiece).1
    have hflatten := length_flatten_frames hsize
    have hframes := frames_flatten pieces [] hsize hpos (hlength.trans_lt hfuel)
    rw [List.append_nil] at hframes
    rw [← hlength, ← hflatten, List.take_left, List.drop_left, hflatten, hlength, hframes]
    refine ⟨⟨Nat.mul_mod_left _ _, hpieces, ?_, fun _ => ?_⟩, rfl⟩
    · rw [List.length_append, hflatten, hlength]
      exact Nat.le_add_right _ _
    · rw [List.toFinset_card_of_nodup hnodup, List.length_map, hlength]

theorem loadBase_ok_iff {raw : Bytes} {flat : Option Bytes} :
    (∃ base, v.loadBase raw state = .ok (base, flat)) ↔ v.Readable raw state ∧
        (∃ baseMap, loadOwnBlocks state (raw.drop blockCheckpointHeaderSize)
          (ownBlocksSize state (raw.drop blockCheckpointHeaderSize)) = .ok baseMap) ∧
        flat = if state.hasFlatSection then some ((raw.drop blockCheckpointHeaderSize).drop
          (ownBlocksSize state (raw.drop blockCheckpointHeaderSize))) else none := by
  rcases v.loadBase_cases raw state with ⟨hreadable, hload⟩ | ⟨hnot, err, herr, -⟩
  · rw [hload]
    cases loadOwnBlocks state (raw.drop blockCheckpointHeaderSize)
      (ownBlocksSize state (raw.drop blockCheckpointHeaderSize)) with
    | error err => simp
    | ok baseMap =>
      constructor
      · rintro ⟨base, hok⟩
        cases hok
        exact ⟨hreadable, ⟨_, rfl⟩, rfl⟩
      · rintro ⟨-, -, rfl⟩
        exact ⟨_, rfl⟩
  · simp [herr, hnot]

theorem loadBase_outOfRange_iff {raw : Bytes} :
    v.loadBase raw state = .error .outOfRange ↔ v.Readable raw state ∧ state.hasFlatSection = true ∧
        (raw.drop blockCheckpointHeaderSize).length < state.blockCount * blockWalChunkSize ∧
        AreRecords (frames blockWalChunkSize (state.blockCount * blockWalChunkSize + 1)
          ((raw.drop blockCheckpointHeaderSize).take (state.blockCount * blockWalChunkSize))) := by
  rcases v.loadBase_cases raw state with ⟨hreadable, hload⟩ | ⟨hnot, err, herr, hne⟩
  · have hown : v.loadBase raw state = .error .outOfRange ↔
        loadOwnBlocks state (raw.drop blockCheckpointHeaderSize)
          (ownBlocksSize state (raw.drop blockCheckpointHeaderSize)) = .error .outOfRange := by
      rw [hload]
      cases loadOwnBlocks state (raw.drop blockCheckpointHeaderSize)
        (ownBlocksSize state (raw.drop blockCheckpointHeaderSize)) <;> simp
    rw [hown, (loadOwnBlocks_iff _ _ _).1, ownBlocksSize]
    by_cases hflat : state.hasFlatSection = true
    · rw [if_pos hflat]
      simp only [hreadable, hflat, Nat.mul_mod_left, true_and]
      exact and_comm
    · rw [if_neg hflat]
      exact iff_of_false (fun h => Nat.lt_irrefl _ h.2.2) fun h => hflat h.2.1
  · exact iff_of_false (fun h => hne (Except.error.inj (herr.symm.trans h))) fun h => hnot h.1

/-- The state that a reader works with is the one that was written, or it is empty. -/
theorem decodedState_cases {encrypted : Bool} {state decoded : SnapshotState}
    (hdecoded : decodedState encrypted state = .ok decoded) :
    encrypted = state.enveloped ∧ decoded = state ∨ decoded.hasFlatSection = false := by
  unfold decodedState at hdecoded
  split at hdecoded
  · cases hdecoded
    exact .inl ⟨‹_›, rfl⟩
  · split at hdecoded
    · cases hdecoded
    · cases hdecoded
      exact .inr rfl

theorem loadSnapshotBlockMap_outOfRange_iff :
    v.loadSnapshotBlockMap snap = .error .outOfRange ↔ v.Overruns snap := by
  constructor
  · fun_cases loadSnapshotBlockMap <;> intro hload <;> cases hload
    · rename_i herr
      unfold decodedState at herr
      split at herr
      · cases herr
      · split at herr <;> cases herr
    · rename_i hdecoded herr
      obtain ⟨hreadable, hflat, hmissing, hentries⟩ := loadBase_outOfRange_iff.mp herr
      rcases decodedState_cases hdecoded with ⟨henveloped, rfl⟩ | hplain
      · exact ⟨⟨henveloped, hreadable, hflat⟩, hmissing, hentries⟩
      · cases hflat.symm.trans hplain
    · exact absurd ‹_› (parseFlatSection_inRange _)
  · intro h
    have hbase := loadBase_outOfRange_iff.mpr ⟨h.readable, h.flat, h.missing, h.entries⟩
    rw [loadSnapshotBlockMap, decodedState, if_pos h.enveloped]
    dsimp only
    rw [hbase]

theorem mem_mapSizes_iff {n : Nat} : n ∈ v.mapSizes snap ↔ v.StatesBlocks snap n := by
  constructor
  · fun_cases mapSizes <;> intro hmem
    any_goals cases hmem
    rename_i state hdecoded base flat hbase hfront
    obtain ⟨hreadable, hown, hsome⟩ := loadBase_ok_iff.mp ⟨base, hbase⟩
    have hflat : state.hasFlatSection = true := by
      by_contra hnot
      rw [if_neg hnot] at hsome
      cases hsome
    rw [if_pos hflat] at hsome
    rcases decodedState_cases hdecoded with ⟨henveloped, rfl⟩ | hplain
    · rw [ownBlocksSize, if_pos hflat] at hown hsome
      obtain ⟨pieces, hpieces, hlength, hnodup, hdata⟩ :=
        exists_loadOwnBlocks_iff.mp ⟨hown, (Option.some.inj hsome).symm⟩
      rw [not_or, Nat.not_lt, not_not] at hfront
      obtain ⟨hlong, hmagic⟩ := hfront
      have hcount : ((flat.drop 5).take 1).length = 1 :=
        List.length_take_of_le (by rw [List.length_drop]; omega)
      have hversion : ∃ version, (flat.drop 4).take 1 = [version] :=
        List.length_eq_one_iff.mp (List.length_take_of_le (by rw [List.length_drop]; omega))
      obtain ⟨version, hversion⟩ := hversion
      have hlt := decode_lt ((flat.drop 5).take 1)
      rw [hcount] at hlt
      refine ⟨⟨henveloped, hreadable, hflat⟩, pieces, version, _, flat.drop 6, hpieces, hlength,
        hnodup, hlt, ?_, mem_sourceSizes_iff.mp hmem⟩
      rw [hdata, encode_decode hcount, ← hversion, ← hmagic]
      conv_rhs => rw [← List.drop_drop (i := 1) (j := 5), List.take_append_drop,
        ← List.drop_drop (i := 1) (j := 4), List.take_append_drop, List.take_append_drop]
    · cases hflat.symm.trans hplain
  · rintro ⟨⟨henveloped, hreadable, hflat⟩, pieces, version, sources, body, hpieces, hlength,
      hnodup, hlt, hdata, hstates⟩
    obtain ⟨hown, hdrop⟩ := exists_loadOwnBlocks_iff.mpr ⟨pieces, hpieces, hlength, hnodup, hdata⟩
    obtain ⟨base, hbase⟩ := (@loadBase_ok_iff v snap.state snap.checkpoint (some _)).mpr
      ⟨hreadable, by rwa [ownBlocksSize, if_pos hflat],
        by rw [ownBlocksSize, if_pos hflat, if_pos hflat, hdrop]⟩
    rw [mapSizes, decodedState, if_pos henveloped]
    dsimp only
    rw [hbase]
    obtain ⟨hlong, hmagic, hcount, hbody⟩ := flatSection_fields version sources body
    dsimp only
    rw [if_neg (by rw [not_or, Nat.not_lt, not_not]; exact ⟨hlong, hmagic⟩), hcount, hbody,
      decode_encode hlt]
    exact mem_sourceSizes_iff.mpr hstates

theorem of_loadOwnBlocks {data : Bytes} {ownSize : Nat}
    (hload : ∃ baseMap, loadOwnBlocks state data ownSize = .ok baseMap) :
    ownSize ≤ data.length ∧
      (0 < state.blockCount → state.blockCount * blockWalChunkSize ≤ ownSize) := by
  obtain ⟨hmod, -, hlong, hcard⟩ := (loadOwnBlocks_iff _ _ _).2.mp hload
  refine ⟨hlong, fun hpos => ?_⟩
  obtain ⟨k, hk⟩ := Nat.dvd_of_mod_eq_zero hmod
  rw [Nat.mul_comm] at hk
  have hframes : (frames blockWalChunkSize (ownSize + 1) (data.take ownSize)).length = k := by
    refine length_frames (by decide) ((List.length_take_of_le hlong).trans hk) ?_
    rw [hk, blockWalChunkSize]
    omega
  have hle := List.toFinset_card_le
    ((frames blockWalChunkSize (ownSize + 1) (data.take ownSize)).map recordBlock)
  rw [hcard hpos, List.length_map, hframes] at hle
  rw [hk]
  exact Nat.mul_le_mul_right _ hle

end

/-- A reader of the right kind loads no front part of a snapshot that was created. -/
theorem not_load_front {source : CloneVolume} {walk : SnapshotWalk} {whole : SnapshotObject}
    {cut : Nat} (hsource : source.Valid) (hwalk : walk.Of source)
    (hcreate : source.createSnapshot walk = .ok whole) (hcut : cut < whole.checkpoint.length)
    (hkind : v.encryptionEnabled = whole.state.enveloped) (loaded : Layer × List Layer) :
    v.loadSnapshotBlockMap ⟨whole.checkpoint.take cut, whole.state⟩ ≠ .ok loaded := by
  intro hload
  obtain ⟨base, flat, hbase, hlayers⟩ : ∃ base flat,
      v.loadBase (whole.checkpoint.take cut) whole.state = .ok (base, flat) ∧
        ∀ bytes, flat = some bytes → ∃ layers, parseFlatSection bytes = .ok layers := by
    unfold loadSnapshotBlockMap at hload
    rw [decodedState, if_pos hkind] at hload
    dsimp only at hload
    split at hload
    · cases hload
    · rename_i hbase
      exact ⟨_, none, hbase, fun _ h => by cases h⟩
    · rename_i hbase
      split at hload
      · cases hload
      rename_i layers hlayers
      exact ⟨_, _, hbase, fun _ h => ⟨layers, Option.some.inj h ▸ hlayers⟩⟩
  obtain ⟨hreadable, hown, hflat⟩ := loadBase_ok_iff.mp ⟨base, hbase⟩
  obtain ⟨hlong, hcount⟩ := of_loadOwnBlocks hown
  have hheader := hreadable.header
  have hrecords := length_expandEntries source.stride walk.own
  have hlength := length_flatten_writeBlockWalChunk (expandEntries source.stride walk.own)
  rw [hrecords] at hlength
  rw [List.length_take] at hheader
  rw [List.drop_take] at hlong hcount hflat
  unfold createSnapshot at hcreate
  cases hsome : source.base with
  | none =>
    rw [hsome] at hcreate
    cases hcreate
    obtain ⟨-, -, -, hdrop⟩ := checkpoint_front source walk []
    rw [List.append_nil, List.append_nil] at hdrop
    have hwhole := congrArg List.length hdrop
    rw [List.length_drop, hlength] at hwhole
    dsimp only at hcount hcut
    rw [ownBlocksSize, if_neg (by simp [snapshotState, hsome]), List.length_take, hdrop,
      hlength] at hcount
    rcases Nat.eq_zero_or_pos (blockCount walk.own) with hzero | hpos
    · rw [hzero, Nat.zero_mul] at hwhole
      omega
    · have := hcount hpos
      dsimp only [snapshotState] at this
      omega
  | some ancestor =>
    rw [hsome] at hcreate
    dsimp only at hcreate
    split at hcreate
    · cases hcreate
    rename_i flatBytes hbuild
    cases hcreate
    obtain ⟨-, -, -, hdrop⟩ := checkpoint_front source walk flatBytes
    have hhas : (source.snapshotState walk.own).hasFlatSection = true := by
      simp [snapshotState, hsome]
    have hwhole : (checkpointBytes source.version walk.timestamp
        (expandEntries source.stride walk.own) ++ flatBytes).length - blockCheckpointHeaderSize =
        blockCount walk.own * blockWalChunkSize + flatBytes.length := by
      rw [← List.length_drop, hdrop, List.length_append, hlength]
    dsimp only at hcut
    rw [ownBlocksSize, if_pos hhas] at hlong
    rw [if_pos hhas, ownBlocksSize, if_pos hhas] at hflat
    dsimp only [snapshotState] at hlong hflat
    rw [hdrop, List.length_take, List.length_append, hlength] at hlong
    rw [hdrop, List.drop_take, List.drop_left' hlength] at hflat
    obtain ⟨layers, hlayers⟩ := hlayers _ hflat
    rw [← List.take_append_drop (cut - blockCheckpointHeaderSize -
      blockCount walk.own * blockWalChunkSize) flatBytes] at hbuild
    refine parseFlatSection_front hbuild ?_ ?_ layers hlayers
    · intro g hg bl hbl
      obtain ⟨layer, hlayer, -, hlookup⟩ :=
        layer_of_mem_flatGroups hwalk.layers hsource.layers hg
      exact (hsource.layers layer hlayer _ _ (hlookup bl hbl)).2
    · intro hnil
      have hnone := congrArg List.length hnil
      rw [List.length_drop, List.length_nil] at hnone
      omega

/-- Without a key, what is loaded of a sealed snapshot is any checkpoint. -/
theorem exists_load_sealed_iff (hplain : v.encryptionEnabled = false)
    (hsealed : snap.state.enveloped = true) :
    (∃ loaded, v.loadSnapshotBlockMap snap = .ok loaded) ↔
      IsCheckpoint snap.checkpoint v.version := by
  have hload : (∃ loaded, v.loadSnapshotBlockMap snap = .ok loaded) ↔
      ∃ base, v.loadBase snap.checkpoint ⟨"", 0, none, none, false, true⟩ = .ok (base, none) := by
    unfold loadSnapshotBlockMap decodedState
    rw [hplain, hsealed]
    simp only [Bool.false_eq_true, if_false]
    constructor
    · rintro ⟨loaded, hloaded⟩
      split at hloaded
      · cases hloaded
      · exact ⟨_, ‹_›⟩
      · rename_i base flat hbase
        cases (loadBase_ok_iff.mp ⟨base, hbase⟩).2.2
    · rintro ⟨base, hbase⟩
      rw [hbase]
      exact ⟨_, rfl⟩
  rw [hload, loadBase_ok_iff, ← exists_walk_iff v.version_lt]
  simp only [walkBlockCheckpoint_ok_iff, ← @decodeRecords_ok_iff 14, exists_and_left,
    exists_decodeRecords_iff, (loadOwnBlocks_iff _ _ _).2, ownBlocksSize, Bool.false_eq_true,
    if_false, and_true, Nat.lt_irrefl, false_implies, Nat.le_refl, List.take_length]
  constructor
  · rintro ⟨hreadable, hmod, hpieces⟩
    exact ⟨hreadable.header, hreadable.magic, hreadable.version, hmod, hpieces⟩
  · rintro ⟨hheader, hmagic, hversion, hmod, hpieces⟩
    exact ⟨⟨by rw [hplain]; rfl, hheader, hmagic, hversion, fun h => by cases h⟩, hmod, hpieces⟩

end Load

/-- A proper front part of a snapshot that was created. -/
def IsFront (snap : SnapshotObject) : Prop :=
  ∃ (source : CloneVolume) (walk : SnapshotWalk) (whole : SnapshotObject) (cut : Nat),
    source.Valid ∧ walk.Of source ∧ source.createSnapshot walk = .ok whole ∧
      cut < whole.checkpoint.length ∧ snap = ⟨whole.checkpoint.take cut, whole.state⟩

/-- A front part of a sealed snapshot that ends with an entry, for a reader without a key. -/
structure Misread (v : CloneVolume) (snap : SnapshotObject) : Prop where
  plain : v.encryptionEnabled = false
  sealed : snap.state.enveloped = true
  front : IsFront snap
  checkpoint : IsCheckpoint snap.checkpoint v.version

end CloneVolume

/-- A volume with the snapshot it was opened from. -/
structure OpenedClone where
  volume : CloneVolume
  snapshotID : String

/-- `OpenFromSnapshot` on the volume in place. -/
def OpenedClone.openFromSnapshot (o : OpenedClone) (snapshotID : String)
    (snap : SnapshotObject) : OpenedClone × Except SnapshotError Unit :=
  match o.volume.openFromSnapshot snap with
  | .error err => (o, .error err)
  | .ok clone => (⟨clone, snapshotID⟩, .ok ())

/-- What is asked of a load of any snapshot where a map of `memory` entries can be made: it
stays inside of the bytes and of the memory, does not take a front part of a snapshot for the
whole, and leaves the clone as it was if it fails. -/
structure SnapshotHandled (memory : Nat) (v : CloneVolume) (snap : SnapshotObject) : Prop where
  inRange : v.loadSnapshotBlockMap snap ≠ .error .outOfRange
  inMemory : ∀ n ∈ v.mapSizes snap, n ≤ memory
  front : CloneVolume.IsFront snap → ∃ err, v.loadSnapshotBlockMap snap = .error err ∧
    err ≠ .outOfRange
  unchanged : ∀ (snapshotID opened : String) (err : SnapshotError),
    (OpenedClone.openFromSnapshot ⟨v, opened⟩ snapshotID snap).2 = .error err →
    (OpenedClone.openFromSnapshot ⟨v, opened⟩ snapshotID snap).1 = ⟨v, opened⟩

/-- A snapshot is handled exactly if its metadata does not lead beyond its entries, no source
states more blocks than there is memory for, and it is not misread. -/
theorem snapshotHandled_iff (memory : Nat) (v : CloneVolume) (snap : SnapshotObject) :
    SnapshotHandled memory v snap ↔
      ¬ v.Overruns snap ∧ (∀ n, v.StatesBlocks snap n → n ≤ memory) ∧ ¬ v.Misread snap := by
  simp only [← CloneVolume.loadSnapshotBlockMap_outOfRange_iff, ← CloneVolume.mem_mapSizes_iff]
  constructor
  · intro h
    refine ⟨h.inRange, h.inMemory, fun hmisread => ?_⟩
    obtain ⟨err, herr, -⟩ := h.front hmisread.front
    obtain ⟨loaded, hload⟩ := (CloneVolume.exists_load_sealed_iff hmisread.plain
      hmisread.sealed).mpr hmisread.checkpoint
    cases herr.symm.trans hload
  · rintro ⟨hrange, hmemory, hmisread⟩
    refine ⟨hrange, hmemory, fun hfront => ?_, ?_⟩
    · cases hload : v.loadSnapshotBlockMap snap with
      | error err =>
        refine ⟨err, rfl, ?_⟩
        rintro rfl
        exact hrange hload
      | ok loaded =>
        exfalso
        by_cases hkind : v.encryptionEnabled = snap.state.enveloped
        · obtain ⟨source, walk, whole, cut, hsource, hwalk, hcreate, hcut, rfl⟩ := hfront
          exact CloneVolume.not_load_front hsource hwalk hcreate hcut hkind loaded hload
        · have hplain : v.encryptionEnabled = false := by
            by_contra hencrypted
            rw [Bool.not_eq_false] at hencrypted
            rw [CloneVolume.loadSnapshotBlockMap, CloneVolume.decodedState, if_neg hkind,
              if_pos hencrypted] at hload
            cases hload
          have hsealed : snap.state.enveloped = true := by
            rw [hplain] at hkind
            exact (Bool.not_eq_false _).mp (Ne.symm hkind)
          exact hmisread ⟨hplain, hsealed, hfront,
            (CloneVolume.exists_load_sealed_iff hplain hsealed).mp ⟨loaded, hload⟩⟩
    · intro snapshotID opened err herr
      unfold OpenedClone.openFromSnapshot at herr ⊢
      split at herr
      · rfl
      · cases herr

theorem plainClone_version_lt : 1 < 2 ^ 16 := by
  decide

/-- A clone of an unencrypted volume. -/
def plainClone : CloneVolume where
  version := 1
  stride := 4096
  encryptionEnabled := false
  identity := SourceIdentity.ofBytes "clone" [] []
  own := ⟨∅, none⟩
  base := none
  ancestors := []
  version_lt := plainClone_version_lt
  plain_identity _ := rfl

/-- The metadata counts one block, and the checkpoint is a header. -/
theorem headerOnly_not_handled :
    ¬ SnapshotHandled 1 plainClone
      ⟨checkpointBytes 1 0 [], ⟨"source", 1, none, none, true, false⟩⟩ := by
  intro hhandled
  refine hhandled.inRange (CloneVolume.loadSnapshotBlockMap_outOfRange_iff.mpr ?_)
  exact ⟨⟨rfl, ⟨by decide, by decide, rfl, by decide, fun _ => by decide⟩, rfl⟩, by decide,
    fun _ hpiece => absurd hpiece List.not_mem_nil⟩

end Viperblock
