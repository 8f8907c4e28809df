import Viperblock.SnapshotChain
import Viperblock.Volume

/-!
# Loading the state of a volume

`LoadState` asks for two copies of `config.json`, one on the local disk and one on the
backend, chooses between them by their generation counters and takes the chosen one
over.  Each request gives a state together with an error or none: a file that cannot
be read gives the zero state, and one whose JSON has a field of the wrong type gives
the fields that could be decoded.

What comes after the state is taken over, the layers of a snapshot and the first
window of sequence numbers of an encrypted volume, may fail as well and is a parameter.
-/

namespace Viperblock

namespace StateLoad

open SeqNumSystem (seqNumReservation)

/-- Why a copy of `config.json` could not be decoded. -/
inductive RequestError
  | notExist
  | integrity
  | encryptionMismatch
  /-- The backend cannot be reached, the file cannot be read, or the JSON is wrong. -/
  | other
deriving DecidableEq, Repr

/-- A decoded `config.json`. -/
structure StateFile where
  volumeName : String
  volumeSize : Nat
  blockSize : Nat
  objBlockSize : Nat
  seqNum : Nat
  objectNum : Nat
  walNum : Nat
  blockToObjectWALNum : Nat
  version : Nat
  /-- `VolumeConfig.VolumeMetadata.SizeGiB` -/
  sizeGiB : Nat
  shardedWAL : Bool
  snapshotID : String
  encryptionEnabled : Bool
  volumeUUID : Bytes
  seqNumHighWater : Nat
  stateSeqNum : Nat
  keyFingerprint : String
deriving DecidableEq, Repr

/-- The state nothing was decoded into. -/
def StateFile.zero : StateFile where
  volumeName := ""
  volumeSize := 0
  blockSize := 0
  objBlockSize := 0
  seqNum := 0
  objectNum := 0
  walNum := 0
  blockToObjectWALNum := 0
  version := 0
  sizeGiB := 0
  shardedWAL := false
  snapshotID := ""
  encryptionEnabled := false
  volumeUUID := [0, 0, 0, 0]
  seqNumHighWater := 0
  stateSeqNum := 0
  keyFingerprint := ""

/-- What a request for a copy gave. -/
structure Copy where
  state : StateFile
  err : Option RequestError
deriving DecidableEq, Repr

/-- The fields of the engine that loading a state reads or writes. -/
structure Engine where
  volumeName : String
  volumeSize : Nat
  blockSize : Nat
  objBlockSize : Nat
  seqNum : Nat
  objectNum : Nat
  walNum : Nat
  blockToObjectWALNum : Nat
  useShardedWAL : Bool
  /-- The number of the sharded log, if the engine has one. -/
  shardedWAL : Option Nat
  version : Nat
  sizeGiB : Nat
  nextStateSeqNum : Nat
  snapshotID : String
  layers : List Layer
  volumeUUID : Bytes
  seqNumHighWater : Nat
  encryptionEnabled : Bool
  /-- Fingerprint of the master key. -/
  masterKey : Option String

/-- How the steps after the state is taken over go. -/
structure Later where
  /-- The layers of the snapshot the volume was made from, if they can be loaded. -/
  snapshot : Option (List Layer)
  bump : Outcome

inductive LoadError
  | localCopy (err : RequestError)
  | backendCopy (err : RequestError)
  | stateBackendUnavailable
  | stateNotFound
  /-- A copy is there, but its block size is zero. -/
  | stateWithoutBlockSize
  | encryptionFlag (runtime persisted : Bool)
  | masterKeyMissing
  | keyFingerprint (sealedUnder supplied : String)
  | snapshot (id : String)
  | seqNumWindow
deriving DecidableEq, Repr

/-- The error is returned before the state is taken over. -/
def LoadError.beforeInstall : LoadError → Bool
  | .snapshot _ | .seqNumWindow => false
  | _ => true

section Load

/-- An error that ends the load at once. -/
def RequestError.isFatal : RequestError → Bool
  | .integrity | .encryptionMismatch => true
  | _ => false

def classifyStateLoad (localErr backendErr : Option RequestError) : LoadError :=
  if backendErr ≠ none ∧ backendErr ≠ some .notExist then .stateBackendUnavailable
  else if localErr = none ∨ localErr = some .notExist then .stateNotFound
  else .stateWithoutBlockSize

/-- A failed local copy always gives way; otherwise the higher number wins. -/
def chooseState (disk backend : Copy) : StateFile :=
  if disk.err ≠ none ∨ disk.state.stateSeqNum < backend.state.stateSeqNum then
    backend.state
  else disk.state

/-- The choice is the newer copy, without a local one that failed. -/
theorem newerCopy_eq_chooseState (disk backend : Copy) :
    newerCopy StateFile.stateSeqNum (if disk.err = none then some disk.state else none)
      (some backend.state) = some (chooseState disk backend) := by
  unfold chooseState
  by_cases herr : disk.err = none
  · by_cases hlt : disk.state.stateSeqNum < backend.state.stateSeqNum <;>
      simp [newerCopy, herr, hlt]
  · simp [newerCopy, herr]

section

variable (vb : Engine)

/-- The state belongs to a volume that the engine has the key of. -/
def checkEncryption (state : StateFile) : Option LoadError :=
  if vb.encryptionEnabled ≠ state.encryptionEnabled then
    some (.encryptionFlag vb.encryptionEnabled state.encryptionEnabled)
  else if vb.encryptionEnabled then
    match vb.masterKey with
    | none => some .masterKeyMissing
    | some fingerprint =>
      if state.keyFingerprint ≠ fingerprint then
        some (.keyFingerprint state.keyFingerprint fingerprint)
      else none
  else none

/-- The state to take over. -/
def selectState (disk backend : Copy) : Except LoadError StateFile :=
  match disk.err.filter RequestError.isFatal with
  | some err => .error (.localCopy err)
  | none =>
    match backend.err.filter RequestError.isFatal with
    | some err => .error (.backendCopy err)
    | none =>
      if backend.state.blockSize = 0 ∧ disk.state.blockSize = 0 then
        .error (classifyStateLoad disk.err backend.err)
      else
        let state := chooseState disk backend
        match checkEncryption vb state with
        | some err => .error err
        | none => .ok state

/-- A resize is recorded in the metadata first; a volume never shrinks. -/
def reconciledSize (state : StateFile) : Nat :=
  let configSizeBytes := state.sizeGiB * 2 ^ 30 % 2 ^ 64
  if state.volumeSize < configSizeBytes then configSizeBytes else state.volumeSize

def install (state : StateFile) : Engine :=
  { vb with
    volumeName := state.volumeName
    volumeSize := reconciledSize state
    blockSize := state.blockSize
    objBlockSize := state.objBlockSize
    seqNum := state.seqNum
    objectNum := state.objectNum
    walNum := state.walNum
    blockToObjectWALNum := state.blockToObjectWALNum
    useShardedWAL := vb.useShardedWAL || state.shardedWAL
    shardedWAL := if state.shardedWAL then some state.walNum else vb.shardedWAL
    version := state.version
    sizeGiB := state.sizeGiB
    nextStateSeqNum := state.stateSeqNum }

def openFromSnapshot (snapshotID : String) (layers : Option (List Layer)) :
    Engine × Bool :=
  match layers with
  | none => (vb, false)
  | some layers => ({ vb with snapshotID := snapshotID, layers := layers }, true)

/-- Persist the next mark and, once it is on the disk, use it. -/
def bumpSeqNumHighWater (out : Outcome) : Engine × Bool :=
  let persisted := { vb with nextStateSeqNum := vb.nextStateSeqNum + 1 }
  if out.isOk then
    ({ persisted with seqNumHighWater := vb.seqNumHighWater + seqNumReservation }, true)
  else (persisted, false)

/-- On an encrypted volume the numbers start at the mark, and a window is taken. -/
def startSeqNums (state : StateFile) (out : Outcome) : Engine × Bool :=
  if vb.encryptionEnabled then
    bumpSeqNumHighWater
      { vb with
        volumeUUID := state.volumeUUID
        seqNum := state.seqNumHighWater
        seqNumHighWater := state.seqNumHighWater } out
  else (vb, true)

def loadState (disk backend : Copy) (later : Later) :
    Engine × Option LoadError :=
  match selectState vb disk backend with
  | .error err => (vb, some err)
  | .ok state =>
    match
      if state.snapshotID = "" then (install vb state, true)
      else openFromSnapshot (install vb state) state.snapshotID later.snapshot with
    | (opened, false) => (opened, some (.snapshot state.snapshotID))
    | (opened, true) =>
      match startSeqNums opened state later.bump with
      | (started, false) => (started, some .seqNumWindow)
      | (started, true) => (started, none)

end

end Load

/-- The engine runs on the given state. -/
structure RunsOn (vb : Engine) (state : StateFile) : Prop where
  volumeName : vb.volumeName = state.volumeName
  volumeSize : vb.volumeSize = reconciledSize state
  blockSize : vb.blockSize = state.blockSize
  objBlockSize : vb.objBlockSize = state.objBlockSize
  objectNum : vb.objectNum = state.objectNum
  walNum : vb.walNum = state.walNum
  blockToObjectWALNum : vb.blockToObjectWALNum = state.blockToObjectWALNum
  version : vb.version = state.version
  sizeGiB : vb.sizeGiB = state.sizeGiB
  seqNum : vb.seqNum = if vb.encryptionEnabled then state.seqNumHighWater else state.seqNum
  stateSeqNum : vb.nextStateSeqNum =
    if vb.encryptionEnabled then state.stateSeqNum + 1 else state.stateSeqNum

section Spec

variable {vb : Engine} {disk backend : Copy} {later : Later} {state : StateFile}

theorem runsOn_startSeqNums
    {opened started : Engine} {snapshotID : String} {layers : List Layer} {out : Outcome}
    (hopened : opened = { install vb state with snapshotID := snapshotID, layers := layers })
    (hstart : startSeqNums opened state out = (started, true)) :
    RunsOn started state := by
  subst hopened
  unfold startSeqNums at hstart
  split at hstart
  · rename_i hencrypted
    unfold bumpSeqNumHighWater at hstart
    split at hstart
    · cases hstart
      exact ⟨rfl, rfl, rfl, rfl, rfl, rfl, rfl, rfl, rfl, (if_pos hencrypted).symm,
        (if_pos hencrypted).symm⟩
    · cases hstart
  · rename_i hplain
    cases hstart
    exact ⟨rfl, rfl, rfl, rfl, rfl, rfl, rfl, rfl, rfl, (if_neg hplain).symm,
      (if_neg hplain).symm⟩

theorem runsOn_loadState {vb' : Engine} (hload : loadState vb disk backend later = (vb', none)) :
    ∃ state, selectState vb disk backend = .ok state ∧ RunsOn vb' state := by
  unfold loadState at hload
  split at hload
  · cases hload
  rename_i state hselect
  refine ⟨state, hselect, ?_⟩
  split at hload
  · cases hload
  rename_i opened hopen
  have hopened : ∃ snapshotID layers, opened =
      { install vb state with snapshotID := snapshotID, layers := layers } := by
    split at hopen
    · cases hopen
      exact ⟨_, _, rfl⟩
    · unfold openFromSnapshot at hopen
      split at hopen
      · cases hopen
      · cases hopen
        exact ⟨_, _, rfl⟩
  obtain ⟨snapshotID, layers, hopened⟩ := hopened
  split at hload
  · cases hload
  rename_i started hstart
  cases hload
  exact runsOn_startSeqNums hopened hstart

/-- Nothing later fails. -/
def Later.good : Later := ⟨some [], .ok⟩

theorem loadState_good (hselect : selectState vb disk backend = .ok state) :
    ∃ vb', loadState vb disk backend Later.good = (vb', none) := by
  have hstart : ∀ opened, ∃ started,
      startSeqNums opened state Later.good.bump = (started, true) := by
    intro opened
    unfold startSeqNums bumpSeqNumHighWater
    split
    · exact ⟨_, rfl⟩
    · exact ⟨_, rfl⟩
  unfold loadState
  rw [hselect]
  by_cases hid : state.snapshotID = ""
  · obtain ⟨started, hstarted⟩ := hstart (install vb state)
    exact ⟨started, by simp only [hid, if_true, hstarted]⟩
  · obtain ⟨started, hstarted⟩ := hstart
      { install vb state with snapshotID := state.snapshotID, layers := [] }
    refine ⟨started, ?_⟩
    simp only [hid, if_false, openFromSnapshot, Later.good] at hstarted ⊢
    simp only [hstarted]

/-- An error returned before the state is taken over leaves the engine as it was. -/
theorem unchanged_of_beforeInstall {vb' : Engine} {err : LoadError}
    (hload : loadState vb disk backend later = (vb', some err))
    (hbefore : err.beforeInstall = true) :
    vb' = vb := by
  unfold loadState at hload
  split at hload
  · exact (Prod.mk.inj hload).1.symm
  · split at hload
    · obtain ⟨-, herr⟩ := Prod.mk.inj hload
      cases herr
      cases hbefore
    · split at hload
      · obtain ⟨-, herr⟩ := Prod.mk.inj hload
        cases herr
        cases hbefore
      · cases hload

end Spec

section Genuine

variable (vb : Engine) (disk backend : Copy)

/-- The copy was decoded without error, has a block size, and no other copy that was
decoded without error has a higher number. -/
structure Genuine (disk backend copy : Copy) : Prop where
  decoded : copy.err = none
  blockSize : copy.state.blockSize ≠ 0
  newest : ∀ other, other = disk ∨ other = backend → other.err = none →
    other.state.stateSeqNum ≤ copy.state.stateSeqNum

/-- What is asked of `LoadState` for two copies, however the later steps go. -/
def LoadsGenuine : Prop :=
  ∀ later, (∀ vb', loadState vb disk backend later = (vb', none) →
      ∃ copy, (copy = disk ∨ copy = backend) ∧ Genuine disk backend copy ∧ RunsOn vb' copy.state) ∧
    ∀ vb' err, loadState vb disk backend later = (vb', some err) →
      err.beforeInstall = true → vb' = vb

/-- The load gives up whatever the copies hold. -/
def refuses : Bool :=
  (disk.err.any RequestError.isFatal || backend.err.any RequestError.isFatal) ||
    (disk.state.blockSize == 0 && backend.state.blockSize == 0) ||
    (checkEncryption vb (chooseState disk backend)).isSome

/-- Of two copies, the one with the higher number has a block size and, if the other is
not decoded, does not lose against it. -/
def genuineInForce : Bool :=
  match disk.err, backend.err with
  | none, none =>
    if disk.state.stateSeqNum < backend.state.stateSeqNum then
      backend.state.blockSize != 0
    else disk.state.blockSize != 0
  | none, some _ =>
    decide (backend.state.stateSeqNum ≤ disk.state.stateSeqNum) &&
      disk.state.blockSize != 0
  | some _, none => backend.state.blockSize != 0
  | some _, some _ => false

variable {vb disk backend}

theorem filter_isFatal_eq_none {err : Option RequestError} :
    err.filter RequestError.isFatal = none ↔ err.any RequestError.isFatal = false := by
  cases err with
  | none => simp
  | some err => simp [Option.filter]

theorem selectState_of_refuses (hrefuses : refuses vb disk backend = true) :
    ∃ err, selectState vb disk backend = .error err := by
  cases hselect : selectState vb disk backend with
  | error err => exact ⟨err, rfl⟩
  | ok state =>
    exfalso
    revert hselect
    fun_cases selectState <;> intro hselect <;> try cases hselect
    rename_i hdisk hbackend hsizes _ hcheck
    change checkEncryption vb (chooseState disk backend) = none at hcheck
    rw [filter_isFatal_eq_none] at hdisk hbackend
    simp only [refuses, hdisk, hbackend, hcheck, Option.isSome_none, Bool.or_false,
      Bool.false_or, Bool.and_eq_true, beq_iff_eq] at hrefuses
    exact hsizes ⟨hrefuses.2, hrefuses.1⟩

theorem selectState_of_not_refuses (hrefuses : refuses vb disk backend = false) :
    selectState vb disk backend = .ok (chooseState disk backend) := by
  simp only [refuses, Bool.or_eq_false_iff, Option.isSome_eq_false_iff,
    Option.isNone_iff_eq_none] at hrefuses
  obtain ⟨⟨⟨hdisk, hbackend⟩, hsizes⟩, hcheck⟩ := hrefuses
  have hnotBoth : ¬ (backend.state.blockSize = 0 ∧ disk.state.blockSize = 0) := by
    rintro ⟨hb, hd⟩
    simp [hb, hd] at hsizes
  unfold selectState
  simp only [filter_isFatal_eq_none.mpr hdisk, filter_isFatal_eq_none.mpr hbackend, hnotBoth,
    if_false, hcheck]

theorem genuine_of_genuineInForce (hgenuine : genuineInForce disk backend = true) :
    ∃ copy, (copy = disk ∨ copy = backend) ∧ Genuine disk backend copy ∧
      copy.state = chooseState disk backend := by
  unfold genuineInForce at hgenuine
  unfold chooseState
  cases hdisk : disk.err with
  | none =>
    cases hbackend : backend.err with
    | none =>
      simp only [hdisk, hbackend] at hgenuine
      by_cases hlt : disk.state.stateSeqNum < backend.state.stateSeqNum
      · simp only [hlt, if_true, bne_iff_ne] at hgenuine
        refine ⟨backend, .inr rfl, ⟨hbackend, hgenuine, ?_⟩, by simp [hlt]⟩
        rintro other (rfl | rfl) -
        · exact hlt.le
        · exact le_rfl
      · simp only [hlt, if_false, bne_iff_ne] at hgenuine
        refine ⟨disk, .inl rfl, ⟨hdisk, hgenuine, ?_⟩, by simp [hlt]⟩
        rintro other (rfl | rfl) -
        · exact le_rfl
        · exact not_lt.mp hlt
    | some err =>
      simp only [hdisk, hbackend, Bool.and_eq_true, decide_eq_true_eq, bne_iff_ne]
        at hgenuine
      refine ⟨disk, .inl rfl, ⟨hdisk, hgenuine.2, ?_⟩, by simp [not_lt.mpr hgenuine.1]⟩
      rintro other (rfl | rfl) hother
      · exact le_rfl
      · rw [hbackend] at hother
        cases hother
  | some err =>
    cases hbackend : backend.err with
    | none =>
      simp only [hdisk, hbackend, bne_iff_ne] at hgenuine
      refine ⟨backend, .inr rfl, ⟨hbackend, hgenuine, ?_⟩, by simp⟩
      rintro other (rfl | rfl) hother
      · rw [hdisk] at hother
        cases hother
      · exact le_rfl
    | some err' => simp [hdisk, hbackend] at hgenuine

/-- An engine that runs on the chosen state and on that of a genuine copy: the copy is
the one in force. -/
theorem genuineInForce_of_genuine {copy : Copy} (hcopy : copy = disk ∨ copy = backend)
    (hgenuine : Genuine disk backend copy)
    (hnumber : copy.state.stateSeqNum = (chooseState disk backend).stateSeqNum)
    (hsize : copy.state.blockSize = (chooseState disk backend).blockSize) :
    genuineInForce disk backend = true := by
  have hchosen : (chooseState disk backend).blockSize ≠ 0 :=
    hsize ▸ hgenuine.blockSize
  unfold genuineInForce
  unfold chooseState at hnumber hchosen
  cases hdisk : disk.err with
  | none =>
    cases hbackend : backend.err with
    | none =>
      by_cases hlt : disk.state.stateSeqNum < backend.state.stateSeqNum
      · simpa [hdisk, hlt] using hchosen
      · simpa [hdisk, hlt] using hchosen
    | some err =>
      have hself : copy = disk := by
        refine hcopy.resolve_right ?_
        rintro rfl
        rw [hgenuine.decoded] at hbackend
        cases hbackend
      subst hself
      by_cases hlt : copy.state.stateSeqNum < backend.state.stateSeqNum
      · simp only [hlt, or_true, if_true] at hnumber
        omega
      · simpa [not_lt.mp hlt] using hgenuine.blockSize
  | some err =>
    have hself : copy = backend := by
      refine hcopy.resolve_left ?_
      rintro rfl
      rw [hgenuine.decoded] at hdisk
      cases hdisk
    subst hself
    simpa [hgenuine.decoded] using hgenuine.blockSize

/-- `LoadState` takes over nothing but a genuine copy exactly if it refuses the two, or
the copy in force is genuine. -/
theorem loadState_genuine_iff (vb : Engine) (disk backend : Copy) :
    LoadsGenuine vb disk backend ↔
      (refuses vb disk backend || genuineInForce disk backend) = true := by
  constructor
  · intro hloads
    by_cases hrefuses : refuses vb disk backend = true
    · simp [hrefuses]
    rw [Bool.not_eq_true] at hrefuses
    have hselect := selectState_of_not_refuses hrefuses
    obtain ⟨vb', hload⟩ := loadState_good hselect
    obtain ⟨copy, hcopy, hgenuine, hruns⟩ := (hloads Later.good).1 vb' hload
    obtain ⟨state, hstate, hruns'⟩ := runsOn_loadState hload
    obtain rfl : chooseState disk backend = state := by
      rw [hselect] at hstate
      exact Except.ok.inj hstate
    have hnumber : copy.state.stateSeqNum = (chooseState disk backend).stateSeqNum := by
      have heq := hruns.stateSeqNum.symm.trans hruns'.stateSeqNum
      split at heq
      · exact Nat.succ.inj heq
      · exact heq
    have hsize := hruns.blockSize.symm.trans hruns'.blockSize
    simp [genuineInForce_of_genuine hcopy hgenuine hnumber hsize]
  · intro hcond later
    refine ⟨fun vb' hload => ?_, fun vb' err hload hbefore =>
      unchanged_of_beforeInstall hload hbefore⟩
    obtain ⟨state, hselect, hruns⟩ := runsOn_loadState hload
    cases hrefuses : refuses vb disk backend with
    | true =>
      obtain ⟨err, herr⟩ := selectState_of_refuses hrefuses
      rw [herr] at hselect
      cases hselect
    | false =>
      rw [hrefuses, Bool.false_or] at hcond
      obtain ⟨copy, hcopy, hgenuine, hstate⟩ := genuine_of_genuineInForce hcond
      rw [selectState_of_not_refuses hrefuses] at hselect
      cases hselect
      exact ⟨copy, hcopy, hgenuine, hstate ▸ hruns⟩

/-- An engine without encryption that nothing was loaded into. -/
def Engine.fresh : Engine where
  volumeName := "vol"
  volumeSize := 8192
  blockSize := 4096
  objBlockSize := 4194304
  seqNum := 0
  objectNum := 0
  walNum := 0
  blockToObjectWALNum := 0
  useShardedWAL := false
  shardedWAL := some 0
  version := 1
  sizeGiB := 0
  nextStateSeqNum := 0
  snapshotID := ""
  layers := []
  volumeUUID := [0, 0, 0, 0]
  seqNumHighWater := 0
  encryptionEnabled := false
  masterKey := none

/-- The local copy has a field of the wrong type, and the backend cannot be reached:
the load returns no error and the volume runs on a state that was never stored. -/
theorem loads_zero_state :
    ¬ LoadsGenuine Engine.fresh ⟨{ StateFile.zero with blockSize := 4096 }, some .other⟩
      ⟨StateFile.zero, some .other⟩ := by
  intro hloads
  obtain ⟨copy, hcopy, hgenuine, -⟩ := (hloads Later.good).1 _ rfl
  rcases hcopy with rfl | rfl
  · cases hgenuine.decoded
  · cases hgenuine.decoded

end Genuine

end StateLoad

end Viperblock
