import Viperblock.SealedReads
import Viperblock.StateLoad

/-!
# Sealed metadata and the volume it is read for

On an encrypted volume the JSON of `config.json` and of a snapshot is stored in the clear,
beside a tag that authenticates it.  What the tag covers is the hash of the volume's name,
a text for the role, the state number and the JSON, one behind the other and without
lengths.  A reader takes the nonce and parts of the covered data from the JSON that it has
not verified yet.

The text of a snapshot ends with its ID, so two IDs of different lengths could cover the
same bytes, cut elsewhere.  The state number decides: its first byte is zero, an ID has no
zero byte, and its other bytes are those of the nonce.  A longer ID would shift the number
against itself, and the zero byte would return in the JSON, where there is none.

JSON, hex, base64 and the hash of a name are parameters of the development.
-/

namespace Viperblock

namespace MetaBinding

open ByteCodec
open SealedReads (SealCall)
open StateLoad (StateFile)

def domainVBStateMeta : UInt8 := 2
def domainSnapshotMeta : UInt8 := 3

/-- What sealed metadata is for. -/
inductive Role
  | vbState
  | snapshot (snapshotID : Bytes)
deriving DecidableEq

namespace Role

def domain : Role → UInt8
  | vbState => domainVBStateMeta
  | snapshot _ => domainSnapshotMeta

/-- The text `vbstate`, or `snap:` and the ID. -/
def domainTag : Role → Bytes
  | vbState => [118, 98, 115, 116, 97, 116, 101]
  | snapshot snapshotID => [115, 110, 97, 112, 58] ++ snapshotID

end Role

def makeMetaAAD (volumeNameHash domainTag : Bytes) (stateSeqNum : Nat) : Bytes :=
  volumeNameHash ++ domainTag ++ encode 8 stateSeqNum

/-- The fields of the state that are read before it is verified. -/
structure StatePeek where
  volumeUUID : Bytes
  stateSeqNum : Nat
  keyFingerprint : String

structure SnapshotPeek where
  sourceVolumeUUID : String
  sourceVolumeNameHash : String
  stateSeqNum : Nat

/-- What the libraries for JSON and text make of bytes, and the hash of a name. -/
structure Encodings where
  /-- Payload and `authtag` of a `metaEnvelope`. -/
  envelope : Bytes → Option (Bytes × String)
  /-- The same without the version. -/
  probe : Bytes → Option (Bytes × String)
  statePeek : Bytes → Option StatePeek
  snapshotPeek : Bytes → Option SnapshotPeek
  state : Bytes → Option StateFile
  snapshot : Bytes → Option SnapshotState
  base64 : String → Option Bytes
  hex : String → Option Bytes
  computeVolumeNameHash : String → Bytes
  length_nameHash : ∀ name, (computeVolumeNameHash name).length = 32
  /-- There is no zero byte in JSON. -/
  zero_notMem : ∀ {payload peek}, snapshotPeek payload = some peek → (0 : UInt8) ∉ payload

/-- A blob that `persistStateLocal` or `CreateSnapshot` sealed. -/
structure MetaSeal where
  role : Role
  volumeName : String
  volumeUUID : Bytes
  stateSeqNum : Nat
  jsonData : Bytes

/-- The engine a blob is offered to. -/
structure Reader where
  volumeName : String
  encryptionEnabled : Bool
  /-- `MasterKey.Fingerprint` -/
  fingerprint : String
  aead : Aead

inductive MetaError
  | envelope
  | peekParse
  | encryptionMismatch (sealed supplied : String)
  | invalidUUID
  | invalidNameHash
  | tagVerify
  | parse
deriving DecidableEq

/-- The call of `aead.Seal` in `sealMeta`. -/
def sealMeta (jsonBytes aad nonce : Bytes) : SealCall :=
  ⟨nonce, [], aad ++ jsonBytes⟩

def verifyMeta (aead : Aead) (payload tag aad nonce : Bytes) : Bool :=
  tag.length == 16 && (aead.openBytes nonce tag (aad ++ payload)).isSome

section Functions

variable (enc : Encodings)

def MetaSeal.call (s : MetaSeal) : SealCall :=
  sealMeta s.jsonData
    (makeMetaAAD (enc.computeVolumeNameHash s.volumeName) s.role.domainTag s.stateSeqNum)
    (makeNonce s.stateSeqNum s.volumeUUID s.role.domain)

def splitEnvelope (blob : Bytes) : Option (Bytes × Bytes) :=
  match enc.envelope blob with
  | none => none
  | some (payload, authTag) =>
    if payload = [] ∨ authTag = "" then none
    else (enc.base64 authTag).map fun tag => (payload, tag)

def stateBody (raw : Bytes) : Bytes :=
  match enc.probe raw with
  | none => raw
  | some (payload, authTag) => if payload ≠ [] ∧ authTag ≠ "" then payload else raw

/-- The JSON that `LoadStateRequestCtx` goes on with. -/
def verifiedState (vb : Reader) (jsonData : Bytes) : Except MetaError Bytes :=
  if vb.encryptionEnabled then
    match splitEnvelope enc jsonData with
    | none => .error .envelope
    | some (payload, tag) =>
      match enc.statePeek payload with
      | none => .error .peekParse
      | some peek =>
        if peek.keyFingerprint ≠ vb.fingerprint then
          .error (.encryptionMismatch peek.keyFingerprint vb.fingerprint)
        else if verifyMeta vb.aead payload tag
            (makeMetaAAD (enc.computeVolumeNameHash vb.volumeName) Role.vbState.domainTag
              peek.stateSeqNum)
            (makeNonce peek.stateSeqNum peek.volumeUUID domainVBStateMeta) then
          .ok payload
        else .error .tagVerify
  else .ok jsonData

/-- `LoadStateRequestCtx` on what it has read. -/
def loadStateRequest (vb : Reader) (jsonData : Bytes) : Except MetaError StateFile :=
  match verifiedState enc vb jsonData with
  | .error err => .error err
  | .ok payload =>
    match enc.state (stateBody enc payload) with
    | none => .error .parse
    | some state => .ok state

/-- The JSON that `LoadSnapshotBlockMap` goes on with. -/
def verifiedSnapshot (vb : Reader) (snapshotID configData : Bytes) : Except MetaError Bytes :=
  if vb.encryptionEnabled then
    match splitEnvelope enc configData with
    | none => .error .envelope
    | some (payload, tag) =>
      match enc.snapshotPeek payload with
      | none => .error .peekParse
      | some peek =>
        match (enc.hex peek.sourceVolumeUUID).filter (·.length == 4) with
        | none => .error .invalidUUID
        | some uuid =>
          match (enc.hex peek.sourceVolumeNameHash).filter (·.length == 32) with
          | none => .error .invalidNameHash
          | some nameHash =>
            if verifyMeta vb.aead payload tag
                (makeMetaAAD nameHash (Role.snapshot snapshotID).domainTag
                  peek.stateSeqNum)
                (makeNonce peek.stateSeqNum uuid domainSnapshotMeta) then
              .ok payload
            else .error .tagVerify
  else .ok configData

/-- The first part of `LoadSnapshotBlockMap`, up to the decoded config. -/
def loadSnapshotConfig (vb : Reader) (snapshotID configData : Bytes) :
    Except MetaError SnapshotState :=
  match verifiedSnapshot enc vb snapshotID configData with
  | .error err => .error err
  | .ok payload =>
    match enc.snapshot payload with
    | none => .error .parse
    | some snap => .ok { snap with enveloped := vb.encryptionEnabled }

/-- The state that `CreateSnapshot` fills in on an encrypted volume. -/
def createdState (volumeName : String) (volumeUUID : Bytes) (blockCount : Nat)
    (hasFlatSection : Bool) : SnapshotState where
  sourceVolumeName := volumeName
  blockCount := blockCount
  sourceVolumeUUID := some volumeUUID
  sourceVolumeNameHash := some (enc.computeVolumeNameHash volumeName)
  hasFlatSection := hasFlatSection
  enveloped := false

/-- The seal of `CreateSnapshot`; `marshal` is `json.Marshal` with the fields no reader uses. -/
def createSnapshotSeal (marshal : SnapshotState → Nat → Bytes) (snapshotID : Bytes)
    (volumeName : String) (volumeUUID : Bytes) (stateSeqNum blockCount : Nat)
    (hasFlatSection : Bool) : MetaSeal where
  role := .snapshot snapshotID
  volumeName := volumeName
  volumeUUID := volumeUUID
  stateSeqNum := stateSeqNum
  jsonData := marshal (createdState enc volumeName volumeUUID blockCount hasFlatSection) stateSeqNum

end Functions

section Statement

variable (enc : Encodings)

/-- The state number fits the nonce, and a snapshot says who made it. -/
structure MetaSeal.Made (s : MetaSeal) : Prop where
  stateSeqNum_lt : s.stateSeqNum < 2 ^ 56
  sourceVolumeName : ∀ snapshotID, s.role = .snapshot snapshotID →
    ∀ snap, enc.snapshot s.jsonData = some snap → snap.sourceVolumeName = s.volumeName

/-- What `CreateSnapshot` seals says who made it, if it is decoded as it was marshalled. -/
theorem made_createSnapshotSeal {enc : Encodings} {marshal : SnapshotState → Nat → Bytes}
    {snapshotID volumeUUID : Bytes} {volumeName : String} {stateSeqNum blockCount : Nat}
    {hasFlatSection : Bool} (hlt : stateSeqNum < 2 ^ 56)
    (hdecoded : enc.snapshot
      (marshal (createdState enc volumeName volumeUUID blockCount hasFlatSection) stateSeqNum) =
        some (createdState enc volumeName volumeUUID blockCount hasFlatSection)) :
    (createSnapshotSeal enc marshal snapshotID volumeName volumeUUID stateSeqNum blockCount
      hasFlatSection).Made enc := by
  refine ⟨hlt, fun _ _ snap hsnap => ?_⟩
  cases hdecoded.symm.trans hsnap
  rfl

/-- All that was sealed under the key: metadata, and blocks in other domains. -/
def sealLog (seals : List MetaSeal) (others : List SealCall) : List SealCall :=
  seals.map (MetaSeal.call enc) ++ others

/-- While no nonce is used twice, the tag of the blob opens only what was sealed. -/
def Ideal (aead : Aead) (log : List SealCall) (blob : Bytes) : Prop :=
  (log.map SealCall.nonce).Nodup → ∀ payload tag, splitEnvelope enc blob = some (payload, tag) →
      ∀ nonce plain aad, aead.openBytes nonce tag aad = some plain → ⟨nonce, plain, aad⟩ ∈ log

/-- The payload of the blob was sealed in the role by the volume. -/
def SealedAs (seals : List MetaSeal) (blob : Bytes) (role : Role) (volumeName : String) :
    Prop :=
  ∃ payload tag, splitEnvelope enc blob = some (payload, tag) ∧
    ∃ s ∈ seals, s.role = role ∧ s.volumeName = volumeName ∧ s.jsonData = payload

end Statement

section Framing

/-- A list that is shifted against itself by a part with `c` at its end brings `c` behind
itself. -/
theorem mem_of_shifted {α : Type} {c : α} {x y q : List α} (low : List α)
    (hshift : low ++ y = x ++ c :: (low ++ q)) :
    c ∈ y := by
  rcases List.append_eq_append_iff.mp hshift with ⟨rest, -, hy⟩ | ⟨rest, hlow, hrest⟩
  · rw [hy]
    simp
  · cases rest with
    | nil =>
      rw [← List.nil_append y, ← hrest]
      exact List.mem_cons_self
    | cons c' low' =>
      -- the shift goes on inside `low`, which is shorter now
      rw [List.cons_append, List.cons.injEq] at hrest
      obtain ⟨rfl, hnext⟩ := hrest
      refine mem_of_shifted (x := x) (q := q) low' ?_
      rw [← hnext, hlow]
      simp
termination_by low.length
decreasing_by
  rw [hlow, List.length_append, List.length_cons]
  omega

/-- An ID without zero bytes and a payload without zero bytes are cut as they were put
together, when the number in between begins with a zero and is otherwise known. -/
theorem append_number_inj {id id' low payload payload' : Bytes} {first : UInt8} (hid : 0 ∉ id)
    (hpayload : 0 ∉ payload)
    (heq : id ++ (first :: low) ++ payload = id' ++ (0 :: low) ++ payload') :
    id = id' ∧ payload = payload' := by
  simp only [List.append_assoc, List.cons_append] at heq
  rcases List.append_eq_append_iff.mp heq with ⟨rest, hid', hrest⟩ | ⟨rest, hid', hrest⟩
  · cases rest with
    | nil =>
      refine ⟨by simpa using hid'.symm, ?_⟩
      exact List.append_cancel_left (List.cons.inj hrest).2
    | cons byte rest =>
      exact absurd (mem_of_shifted low (List.cons.inj hrest).2) hpayload
  · cases rest with
    | nil =>
      refine ⟨by simpa using hid', ?_⟩
      exact (List.append_cancel_left (List.cons.inj hrest).2).symm
    | cons byte rest =>
      obtain ⟨rfl, -⟩ := List.cons.inj hrest
      exact absurd (by rw [hid']; simp) hid

end Framing

section Verified

variable {enc : Encodings} {seals : List MetaSeal} {others : List SealCall} {blob : Bytes}

/-- What is verified was sealed as metadata, under the same nonce and over the same bytes. -/
theorem exists_seal_of_verifyMeta {aead : Aead} {payload tag aad uuid : Bytes} {stateSeqNum : Nat}
    {role : Role}
    (hothers : ∀ call ∈ others, call.nonce.getLast? ≠ some domainVBStateMeta ∧ call.nonce.getLast? ≠
      some domainSnapshotMeta) (hnonces : ((sealLog enc seals others).map SealCall.nonce).Nodup)
    (hideal : Ideal enc aead (sealLog enc seals others) blob)
    (hsplit : splitEnvelope enc blob = some (payload, tag))
    (hverify : verifyMeta aead payload tag aad (makeNonce stateSeqNum uuid role.domain) = true) :
    ∃ s ∈ seals, s.role.domain = role.domain ∧ encode 7 s.stateSeqNum = encode 7 stateSeqNum ∧
      makeMetaAAD (enc.computeVolumeNameHash s.volumeName) s.role.domainTag s.stateSeqNum ++
        s.jsonData = aad ++ payload := by
  rw [verifyMeta, Bool.and_eq_true, Option.isSome_iff_exists] at hverify
  obtain ⟨-, plain, hopen⟩ := hverify
  rcases List.mem_append.mp (hideal hnonces payload tag hsplit _ _ _ hopen) with hmeta | hother
  · obtain ⟨s, hs, hcall⟩ := List.mem_map.mp hmeta
    simp only [MetaSeal.call, sealMeta, SealCall.mk.injEq] at hcall
    obtain ⟨hnonce, -, haad⟩ := hcall
    obtain ⟨hfront, hdomain⟩ := List.append_inj' hnonce rfl
    exact ⟨s, hs, (List.cons.inj hdomain).1, (List.append_inj hfront (by simp)).1, haad⟩
  · have hlast := SealedReads.getLast?_makeNonce stateSeqNum uuid role.domain
    obtain ⟨hstate, hsnapshot⟩ := hothers _ hother
    cases role with
    | vbState => exact absurd hlast hstate
    | snapshot snapshotID => exact absurd hlast hsnapshot

theorem verified_of_loadStateRequest {vb : Reader} {state : StateFile}
    (henabled : vb.encryptionEnabled = true) (hload : loadStateRequest enc vb blob = .ok state) :
    ∃ payload tag, ∃ peek : StatePeek, splitEnvelope enc blob = some (payload, tag) ∧
      verifyMeta vb.aead payload tag
        (makeMetaAAD (enc.computeVolumeNameHash vb.volumeName) Role.vbState.domainTag
          peek.stateSeqNum)
        (makeNonce peek.stateSeqNum peek.volumeUUID Role.vbState.domain) = true := by
  unfold loadStateRequest at hload
  cases hverified : verifiedState enc vb blob with
  | error err => simp [hverified] at hload
  | ok payload =>
    revert hverified
    fun_cases verifiedState <;> intro hverified <;> cases hverified
    · exact ⟨_, _, _, ‹_›, ‹_›⟩
    · contradiction

theorem verified_of_loadSnapshotConfig {vb : Reader} {snapshotID : Bytes} {snap : SnapshotState}
    (henabled : vb.encryptionEnabled = true)
    (hload : loadSnapshotConfig enc vb snapshotID blob = .ok snap) :
    ∃ payload tag uuid nameHash, ∃ peek : SnapshotPeek,
      splitEnvelope enc blob = some (payload, tag) ∧
      enc.snapshotPeek payload = some peek ∧
      nameHash.length = 32 ∧
      verifyMeta vb.aead payload tag
        (makeMetaAAD nameHash (Role.snapshot snapshotID).domainTag peek.stateSeqNum)
        (makeNonce peek.stateSeqNum uuid (Role.snapshot snapshotID).domain) = true ∧
      ∃ decoded, enc.snapshot payload = some decoded ∧
        decoded.sourceVolumeName = snap.sourceVolumeName := by
  unfold loadSnapshotConfig at hload
  cases hverified : verifiedSnapshot enc vb snapshotID blob with
  | error err => simp [hverified] at hload
  | ok payload =>
    cases hdecoded : enc.snapshot payload with
    | none => simp [hverified, hdecoded] at hload
    | some decoded =>
      simp only [hverified, hdecoded] at hload
      cases hload
      revert hverified
      fun_cases verifiedSnapshot <;> intro hverified <;> cases hverified
      · have hlength := (Option.filter_eq_some_iff.mp ‹_›).2
        exact ⟨_, _, _, _, _, ‹_›, ‹_›, beq_iff_eq.mp hlength, ‹_›, decoded, hdecoded, rfl⟩
      · contradiction

end Verified

section Bound

variable {enc : Encodings} {seals : List MetaSeal} {blob : Bytes}

theorem encode_succ (width n : Nat) :
    encode (width + 1) n = UInt8.ofNat (n / 256 ^ width) :: encode width n := by
  induction width generalizing n with
  | zero => simp [encode]
  | succ width ih =>
    rw [encode, ih, Nat.div_div_eq_div_mul, ← Nat.pow_succ', encode, List.cons_append]

theorem state_parts_inj {hash hash' payload payload' : Bytes} {stateSeqNum stateSeqNum' : Nat}
    (hlength : hash.length = hash'.length)
    (heq : makeMetaAAD hash Role.vbState.domainTag stateSeqNum ++ payload =
      makeMetaAAD hash' Role.vbState.domainTag stateSeqNum' ++ payload') :
    hash = hash' ∧ payload = payload' := by
  obtain ⟨hfront, hpayload⟩ := List.append_inj heq (by simp [makeMetaAAD, hlength])
  obtain ⟨hrole, -⟩ := List.append_inj hfront (by simp [hlength])
  exact ⟨(List.append_inj hrole hlength).1, hpayload⟩

theorem snapshot_parts_inj
    {hash hash' id id' payload payload' : Bytes} {stateSeqNum stateSeqNum' : Nat}
    (hlength : hash.length = hash'.length) (hid : 0 ∉ id) (hpayload : 0 ∉ payload)
    (hlow : encode 7 stateSeqNum' = encode 7 stateSeqNum) (hlt : stateSeqNum' < 2 ^ 56)
    (heq : makeMetaAAD hash (Role.snapshot id).domainTag stateSeqNum ++ payload =
      makeMetaAAD hash' (Role.snapshot id').domainTag stateSeqNum' ++ payload') :
    id = id' ∧ payload = payload' := by
  have hzero : stateSeqNum' / 256 ^ 7 = 0 := Nat.div_eq_of_lt (by omega)
  simp only [makeMetaAAD, Role.domainTag, List.append_assoc] at heq
  have hnumber := List.append_cancel_left (List.append_inj heq hlength).2
  rw [encode_succ 7 stateSeqNum, encode_succ 7 stateSeqNum', hzero, hlow, ← List.append_assoc,
    ← List.append_assoc id'] at hnumber
  exact append_number_inj hid hpayload hnumber

end Bound

/-- A blob that is accepted as the state was sealed as the state of the volume of this name,
and one that is accepted as a snapshot was sealed for this ID by the volume it names. -/
theorem accepted_metadata_sealed (enc : Encodings) (aead : Aead) (seals : List MetaSeal)
    (others : List SealCall) (blob : Bytes) (hmade : ∀ s ∈ seals, s.Made enc)
    (hothers : ∀ call ∈ others, call.nonce.getLast? ≠ some domainVBStateMeta ∧ call.nonce.getLast? ≠
      some domainSnapshotMeta) (hnonces : ((sealLog enc seals others).map SealCall.nonce).Nodup)
    (hideal : Ideal enc aead (sealLog enc seals others) blob) (volumeName fingerprint : String)
    (hhash : ∀ s ∈ seals, enc.computeVolumeNameHash s.volumeName = enc.computeVolumeNameHash
      volumeName → s.volumeName = volumeName) :
    (∀ state, loadStateRequest enc ⟨volumeName, true, fingerprint, aead⟩ blob = .ok state →
        SealedAs enc seals blob .vbState volumeName) ∧
      ∀ snapshotID snap, 0 ∉ snapshotID →
        loadSnapshotConfig enc ⟨volumeName, true, fingerprint, aead⟩ snapshotID blob = .ok snap →
          SealedAs enc seals blob (.snapshot snapshotID) snap.sourceVolumeName := by
  constructor
  · intro state hload
    obtain ⟨payload, tag, peek, hsplit, hverify⟩ := verified_of_loadStateRequest rfl hload
    obtain ⟨s, hs, hdomain, -, hcovered⟩ :=
      exists_seal_of_verifyMeta hothers hnonces hideal hsplit hverify
    refine ⟨payload, tag, hsplit, s, hs, ?_⟩
    cases hrole : s.role with
    | vbState =>
      rw [hrole] at hcovered
      obtain ⟨hname, hpayload⟩ := state_parts_inj
        ((enc.length_nameHash _).trans (enc.length_nameHash _).symm) hcovered
      exact ⟨rfl, hhash s hs hname, hpayload⟩
    | snapshot snapshotID =>
      rw [hrole] at hdomain
      cases hdomain
  · intro snapshotID snap hid hload
    obtain ⟨payload, tag, uuid, nameHash, peek, hsplit, hpeek, hlength, hverify, decoded,
      hdecoded, hsource⟩ := verified_of_loadSnapshotConfig rfl hload
    obtain ⟨s, hs, hdomain, hlow, hcovered⟩ :=
      exists_seal_of_verifyMeta hothers hnonces hideal hsplit hverify
    refine ⟨payload, tag, hsplit, s, hs, ?_⟩
    cases hrole : s.role with
    | vbState =>
      rw [hrole] at hdomain
      cases hdomain
    | snapshot sealedID =>
      rw [hrole] at hcovered
      obtain ⟨hsameID, hpayload⟩ := snapshot_parts_inj
        (hlength.trans (enc.length_nameHash _).symm) hid (enc.zero_notMem hpeek) hlow
        (hmade s hs).stateSeqNum_lt hcovered.symm
      have hname := (hmade s hs).sourceVolumeName sealedID hrole decoded (hpayload ▸ hdecoded)
      exact ⟨by rw [hsameID], by rw [← hname, hsource], hpayload.symm⟩

section Example

/-- The bytes of an ASCII text. -/
def ascii (text : String) : Bytes :=
  text.toList.map fun c => UInt8.ofNat c.toNat

def stateJSON : Bytes :=
  ascii "\x7b\"VolumeUUID\":[1,2,3,4],\"StateSeqNum\":1,\"KeyFingerprint\":\"key\"\x7d"

/-- The name's hash is thirty-two bytes 7. -/
def hashText : String := String.join (List.replicate 32 "07")

def snapshotJSON : Bytes :=
  ascii "\x7b\"SourceVolumeName\":\"vol\",\"SourceVolumeUUID\":\"01020304\"," ++
    ascii "\"SourceVolumeNameHash\":\"" ++ ascii hashText ++ ascii "\",\"StateSeqNum\":2\x7d"

/-- The envelope as `sealMeta` splices it. -/
def wrap (payload : Bytes) (authTag : String) : Bytes :=
  ascii "\x7b\"v\":1,\"payload\":" ++ payload ++ ascii ",\"authtag\":\"" ++ ascii authTag ++
    ascii "\"\x7d"

/-- Sixteen bytes 1, and sixteen bytes 2. -/
def stateTag : String := "AQEBAQEBAQEBAQEBAQEBAQ=="

def snapshotTag : String := "AgICAgICAgICAgICAgICAg=="

def stateFile : StateFile :=
  { StateFile.zero with volumeUUID := [1, 2, 3, 4], stateSeqNum := 1, keyFingerprint := "key" }

def snapshotState : SnapshotState :=
  ⟨"vol", 0, some [1, 2, 3, 4], some (List.replicate 32 7), false, false⟩

/-- JSON, hex and base64 on the texts of one state and one snapshot. -/
def braces : Encodings where
  envelope blob :=
    if blob = wrap stateJSON stateTag then some (stateJSON, stateTag)
    else if blob = wrap snapshotJSON snapshotTag then some (snapshotJSON, snapshotTag)
    else none
  probe _ := none
  statePeek payload := if payload = stateJSON then some ⟨[1, 2, 3, 4], 1, "key"⟩ else none
  snapshotPeek payload :=
    if payload = snapshotJSON then some ⟨"01020304", hashText, 2⟩ else none
  state payload := if payload = stateJSON then some stateFile else none
  snapshot payload := if payload = snapshotJSON then some snapshotState else none
  base64 text :=
    if text = stateTag then some (List.replicate 16 1)
    else if text = snapshotTag then some (List.replicate 16 2)
    else none
  hex text :=
    if text = "01020304" then some [1, 2, 3, 4]
    else if text = hashText then some (List.replicate 32 7)
    else none
  computeVolumeNameHash _ := List.replicate 32 7
  length_nameHash _ := rfl
  zero_notMem := by
    intro payload peek hpeek
    split at hpeek
    · rename_i hjson
      rw [hjson]
      decide +kernel
    · cases hpeek

/-- The state of a volume and a snapshot of it. -/
def twoSeals : List MetaSeal :=
  [⟨.vbState, "vol", [1, 2, 3, 4], 1, stateJSON⟩,
    createSnapshotSeal braces (fun _ _ => snapshotJSON) (ascii "snap-1") "vol" [1, 2, 3, 4] 2 0
      false]

def bracesAead : Aead :=
  SealedReads.tableCipher (sealLog braces twoSeals [])

theorem made_twoSeals :
    ∀ s ∈ twoSeals, s.Made braces := by
  intro s hs
  simp only [twoSeals, List.mem_cons, List.not_mem_nil, or_false] at hs
  rcases hs with rfl | rfl
  · exact ⟨by decide, fun _ hrole => by cases hrole⟩
  · exact made_createSnapshotSeal (by decide) (by decide +kernel)

theorem splitEnvelope_braces {blob payload tag : Bytes}
    (hsplit : splitEnvelope braces blob = some (payload, tag)) :
    tag = List.replicate 16 1 ∨ tag = List.replicate 16 2 := by
  unfold splitEnvelope at hsplit
  split at hsplit
  · cases hsplit
  split at hsplit
  · cases hsplit
  · obtain ⟨found, hfound, heq⟩ := Option.map_eq_some_iff.mp hsplit
    cases heq
    simp only [braces] at hfound
    split at hfound
    · exact .inl (Option.some.inj hfound).symm
    · split at hfound
      · exact .inr (Option.some.inj hfound).symm
      · cases hfound

theorem ideal_braces (blob : Bytes) :
    Ideal braces bracesAead (sealLog braces twoSeals []) blob := by
  intro _ payload tag hsplit nonce plain aad hopen
  rcases SealedReads.mem_of_open_tableCipher hopen with hmem | hzeros
  · exact hmem
  · have hzero := hzeros.subset (by decide : (0 : UInt8) ∈ _)
    rcases splitEnvelope_braces hsplit with rfl | rfl <;>
      exact absurd (List.mem_replicate.mp hzero).2 (by decide)

theorem accepted_metadata_sealed_braces :
    let vb : Reader := ⟨"vol", true, "key", bracesAead⟩
    let stateBlob := wrap stateJSON stateTag
    let snapshotBlob := wrap snapshotJSON snapshotTag
    loadStateRequest braces vb stateBlob = .ok stateFile ∧
      SealedAs braces twoSeals stateBlob .vbState "vol" ∧
      loadSnapshotConfig braces vb (ascii "snap-1") snapshotBlob =
        .ok { snapshotState with enveloped := true } ∧
      SealedAs braces twoSeals snapshotBlob (.snapshot (ascii "snap-1")) "vol" := by
  intro vb stateBlob snapshotBlob
  have hbound := fun blob => accepted_metadata_sealed braces bracesAead twoSeals [] blob
    made_twoSeals (fun _ hcall => by cases hcall) (by decide +kernel) (ideal_braces blob) "vol"
    "key" (by decide +kernel)
  have hloaded : loadStateRequest braces vb stateBlob = .ok stateFile := by
    decide +kernel
  have hopened : loadSnapshotConfig braces vb (ascii "snap-1") snapshotBlob =
      .ok { snapshotState with enveloped := true } := by
    decide +kernel
  exact ⟨hloaded, (hbound _).1 _ hloaded, hopened, (hbound _).2 _ _ (by decide) hopened⟩

end Example

end MetaBinding

end Viperblock
