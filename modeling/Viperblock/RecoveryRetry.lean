import Viperblock.MapHistory
import Viperblock.ReopenSessions

/-!
# Recovery that fails, and the open that follows

An open may end at any point of `RecoverLocalWALs`: a write to the backend fails,
or the process dies.  The next open starts from what is then on the disk and on
the backend.  A session in between writes and flushes blocks, but does not drain.

What the next open loads is the checkpoint in force: the live object or, without
one, the checkpoint with the number that `config.json` names.  Recovery removes
the log once its blocks are in the numbered checkpoint, but a failure to save the
live object is only logged.  If there is an older live object, that one stays in
force and the removed records are lost.  `keepsReachable` is the condition under
which no version is lost over any number of failed opens.
-/

namespace Viperblock

namespace RecoveryRetry

open GuardedRun BlockMap BlocksToObject Volume
open ReopenSystem (Segment Session Disks SameRecords)

/-- How an open goes. -/
structure OpenRun where
  gcEnabled : Bool
  bumpDisk : Outcome
  bumpBackend : Outcome
  recover : RecoverOutcomes

/-- Every write of the open succeeds. -/
structure OpenRun.AllOk (run : OpenRun) : Prop where
  bumpDisk : run.bumpDisk = .ok
  bumpBackend : run.bumpBackend = .ok
  recover : run.recover.AllOk

/-- Every file that is to be removed is removed. -/
def OpenRun.removing (run : OpenRun) : OpenRun :=
  { run with recover := { run.recover with remove := fun _ => true } }

/-- The open ends where it writes the local numbered checkpoint. -/
def OpenRun.stopped (run : OpenRun) : OpenRun :=
  { run with recover := { run.recover with blockStateDisk := .failed } }

theorem OpenRun.AllOk.removing {run : OpenRun} (h : run.AllOk) :
    run.removing.AllOk :=
  ⟨h.bumpDisk, h.bumpBackend, h.recover.chunk, h.recover.stateDisk, h.recover.stateBackend,
    h.recover.blockStateDisk, h.recover.blockStateBackend, h.recover.live⟩

structure State where
  files : LocalFiles
  /-- A local numbered checkpoint that was cut off while it was written. -/
  torn : Option (Nat × Bytes)
  backend : Backend
  running : Option Session

inductive OpenError
  | loadState
  | checkpoint (err : CheckpointError)
  | recover (err : RecoverError)
deriving DecidableEq, Repr

inductive Act
  /-- An open that starts a session unless it fails. -/
  | reopen (run : OpenRun) (segment : Segment)
  /-- The process dies in the open; what did not happen counts as failed. -/
  | die (run : OpenRun)
  /-- The process dies while it writes the local numbered checkpoint. -/
  | tear (run : OpenRun) (timestamp length : Nat)
  | write (block : Nat) (data : Bytes) (disk backend : Outcome)
  | flush (count : Nat)
  | saveState (disk backend : Outcome)
  /-- The process dies; `length` bytes of the open segment are on the disk. -/
  | crash (length : Nat)

section Steps

variable (cfg : Config)

def State.volume (s : State) (vb : VB) : Volume :=
  ⟨vb, s.files, s.backend⟩

def State.put (s : State) (v : Volume) (running : Option Session) : State :=
  { s with files := v.files, backend := v.backend, running := running }

/-- `LoadBlockState`; a local file is parsed even if it was cut off. -/
def loadBlockState (torn : Option (Nat × Bytes)) (v : Volume) :
    Volume × Except CheckpointError Unit :=
  match v.files.numbered.lookup v.vb.blockToObjectWALNum, torn with
  | none, some (num, raw) =>
    if num = v.vb.blockToObjectWALNum then v.parseCheckpointFile cfg raw
    else (v.loadBlockState cfg, .ok ())
  | _, _ => (v.loadBlockState cfg, .ok ())

def loadLiveCheckpoint (torn : Option (Nat × Bytes)) (v : Volume) :
    Volume × Except CheckpointError Unit :=
  match v.backend.live with
  | some records => (v.parseCheckpoint cfg records, .ok ())
  | none => loadBlockState cfg torn v

/-- `LoadState` and `LoadLiveCheckpoint`. -/
def loadVolume (s : State) (run : OpenRun) : Volume × Except OpenError Unit :=
  match (s.volume (VB.new run.gcEnabled)).loadState cfg true run.bumpDisk
      run.bumpBackend with
  | (v, false) => (v, .error .loadState)
  | (v, true) =>
    match loadLiveCheckpoint cfg s.torn v with
    | (loaded, .error err) => (loaded, .error (.checkpoint err))
    | (loaded, .ok ()) => (loaded, .ok ())

/-- The open sequence. -/
def openVolume (s : State) (run : OpenRun) : Volume × Except OpenError Unit :=
  match loadVolume cfg s run with
  | (loaded, .error err) => (loaded, .error err)
  | (loaded, .ok ()) =>
    match loaded.recoverLocalWALs cfg run.recover with
    | (recovered, .error err) => (recovered, .error (.recover err))
    | (recovered, .ok ()) => (recovered, .ok ())

/-- Append to the file of that name, which is created if there is none. -/
def appendFile (files : List (String × Bytes)) (name : String) (bytes : Bytes) :
    List (String × Bytes) :=
  if files.any fun file => file.1 == name then
    files.map fun file => if file.1 = name then (file.1, file.2 ++ bytes) else file
  else files ++ [(name, bytes)]

def step (s : State) : Act → Option State
  | .reopen run segment =>
    match s.running with
    | some _ => none
    | none =>
      match openVolume cfg s run.removing with
      | (v, .error _) => some (s.put v none)
      | (v, .ok ()) =>
        some (s.put v (some ⟨0, v.vb, [], { segment with records := [] }, [], []⟩))
  | .die run =>
    match s.running with
    | some _ => none
    | none => some (s.put (openVolume cfg s run).1 none)
  | .tear run timestamp length =>
    match s.running with
    | some _ => none
    | none =>
      match openVolume cfg s run.stopped with
      | (v, .error (.recover .saveBlockState)) =>
        let num := v.vb.blockToObjectWALNum
        let raw := checkpointBytes cfg.version timestamp (v.checkpoint cfg)
        some
          { files := { v.files with numbered := v.files.numbered.erase num }
            torn := some (num, raw.take length)
            backend := v.backend
            running := none }
      | _ => none
  | .write block data disk backend =>
    match s.running with
    | none => none
    | some sess =>
      if data.length = cfg.blockSize ∧ block < 2 ^ 64 ∧ sess.vb.seqNum + 1 < 2 ^ 64 then
        match (s.volume sess.vb).reserveSeqNum cfg disk backend with
        | (v, none) => some (s.put v (some { sess with vb := v.vb }))
        | (v, some seqNum) =>
          let store := v.vb.blockStore.writeWithSeqNum block data seqNum
          some (s.put v (some
            { sess with
              vb := { v.vb with blockStore := store }
              writes := sess.writes ++ [⟨data, seqNum, block, cfg.blockSize⟩] }))
      else none
  | .flush count =>
    match s.running with
    | none => none
    | some sess => some { s with running := some (sess.flush count) }
  | .saveState disk backend =>
    match s.running with
    | none => none
    | some sess =>
      let v := ((s.volume sess.vb).saveState cfg disk backend).1
      some (s.put v (some { sess with vb := v.vb }))
  | .crash length =>
    match s.running with
    | none => none
    | some sess =>
      let left := (cfg.segment sess.wal.timestamp sess.wal.records).take length
      let walFiles := appendFile s.files.walFiles sess.wal.name left
      some { s with files := { s.files with walFiles := walFiles }, running := none }

end Steps

section Condition

variable (cfg : Config)

/-- The checkpoint with a number as an open finds it, unless it is refused. -/
def numberedCheckpoint (torn : Option (Nat × Bytes)) (files : LocalFiles)
    (backend : Backend) (num : Nat) : Option (List BlockLookup) :=
  match files.numbered.lookup num, torn with
  | some records, _ => some records
  | none, some (cut, raw) =>
    if cut = num then
      (walkBlockCheckpoint raw cfg.version blockToObjectWALMagic).toOption
    else some ((backend.numbered.lookup num).getD [])
  | none, none => some ((backend.numbered.lookup num).getD [])

/-- What an open loads that goes by the number. -/
def checkpointAt (torn : Option (Nat × Bytes)) (files : LocalFiles) (backend : Backend)
    (num : Nat) : Option (List BlockLookup) :=
  match backend.live with
  | some records => some records
  | none => numberedCheckpoint cfg torn files backend num

/-- The copy of `config.json` the next open goes by. -/
def selected (s : State) : Option VBState :=
  selectState s.files.config s.backend.config

/-- The checkpoint the next open loads. -/
def checkpointInForce (s : State) : Option (List BlockLookup) :=
  (selected s).bind fun c => checkpointAt cfg s.torn s.files s.backend c.blockToObjectWALNum

/-- Every write up to the removal of the log succeeds. -/
def completes (out : RecoverOutcomes) (jobs : Nat) : Bool :=
  (List.range jobs).all (fun i => (out.chunk i).isOk) &&
    out.stateDisk.isOk && out.stateBackend.isOk &&
    out.blockStateDisk.isOk && out.blockStateBackend.isOk

/-- No record is removed from the log while an older live checkpoint stays in force. -/
def keepsLog (s : State) (out : RecoverOutcomes) (jobs : Nat) : Bool :=
  s.backend.live.isNone || out.live.lands || !completes out jobs ||
    s.files.walFiles.all fun file =>
      !out.remove file.1 || (validRecords cfg file.2).isEmpty

/-- The replay keeps every run, and the log is kept as long as it is needed. -/
def opensSafely (s : State) (run : OpenRun) : Bool :=
  match loadVolume cfg s run with
  | (_, .error _) => true
  | (loaded, .ok ()) =>
    replayKept cfg ((checkpointInForce cfg s).getD []) loaded &&
      keepsLog cfg s run.recover (loaded.replayJobs cfg).length

/-- With a live checkpoint the number in `config.json` does not matter. -/
def keepsNumber (s : State) (vb : VB) : Bool :=
  s.backend.live.isSome ||
    (selected s).all fun c => c.blockToObjectWALNum == vb.blockToObjectWALNum

def keepsReachable (s : State) : Act → Bool
  | .reopen run segment =>
    opensSafely cfg s run.removing &&
      s.files.walFiles.all fun file =>
        file.1 != segment.name || file.2.isEmpty ||
          (cfg.readWALFileForRecovery file.2).toBool
  | .die run => opensSafely cfg s run
  | .tear run _ _ => s.backend.live.isSome && opensSafely cfg s run.stopped
  | .write _ _ _ _ =>
    s.running.all fun sess =>
      cfg.sealing.isNone || decide (sess.vb.seqNum < sess.vb.seqNumHighWater) ||
        keepsNumber s sess.vb
  | .saveState _ _ => s.running.all fun sess => keepsNumber s sess.vb
  | .flush _ | .crash _ => true

end Condition

section Saving

variable {cfg : Config} {num : Nat} {v v' : Volume}

/-- An open goes by a `config.json` with this number, and the next save is newer than
both copies. -/
structure Numbered (num : Nat) (v : Volume) : Prop where
  exists_selected : ∃ c, selectState v.files.config v.backend.config = some c ∧
    c.blockToObjectWALNum = num
  local_le : ∀ c, v.files.config = some c → c.stateSeqNum ≤ v.vb.nextStateSeqNum
  backend_le : ∀ c, v.backend.config = some c → c.stateSeqNum ≤ v.vb.nextStateSeqNum

theorem Numbered.of_eq (h : Numbered num v) (hlocal : v'.files.config = v.files.config)
    (hbackend : v'.backend.config = v.backend.config)
    (hnext : v'.vb.nextStateSeqNum = v.vb.nextStateSeqNum) :
    Numbered num v' := by
  obtain ⟨hselected, hlocal_le, hbackend_le⟩ := h
  refine ⟨?_, ?_, ?_⟩
  · rwa [hlocal, hbackend]
  · rwa [hlocal, hnext]
  · rwa [hbackend, hnext]

theorem Numbered.persistStateLocal (h : Numbered num v) (highWater : Nat) (out : Outcome) :
    Numbered (if out.lands then v.vb.blockToObjectWALNum else num)
      (v.persistStateLocal highWater out) := by
  have hbackend : ∀ c, v.backend.config = some c → c.stateSeqNum ≤ v.vb.nextStateSeqNum + 1 :=
    fun c hc => (h.backend_le c hc).trans (Nat.le_succ _)
  cases hlands : out.lands with
  | false =>
    have hfiles : (v.persistStateLocal highWater out).files = v.files := by
      simp [Volume.persistStateLocal, hlands]
    refine ⟨?_, ?_, hbackend⟩
    · rw [hfiles]
      exact h.exists_selected
    · rw [hfiles]
      exact fun c hc => (h.local_le c hc).trans (Nat.le_succ _)
  | true =>
    have hfiles : (v.persistStateLocal highWater out).files.config =
        some (v.stateToSave highWater) := by
      simp [Volume.persistStateLocal, hlands]
    refine ⟨⟨v.stateToSave highWater, ?_, rfl⟩, ?_, hbackend⟩
    · rw [hfiles]
      change selectState _ v.backend.config = _
      cases hc : v.backend.config with
      | none => rfl
      | some c => exact if_neg (Nat.not_lt.mpr (hbackend c hc))
    · intro c hc
      rw [hfiles] at hc
      rw [← Option.some.inj hc]
      rfl

theorem Numbered.pushStateToBackend (h : Numbered num v) {c : VBState}
    (hlocal : v.files.config = some c) (out : Outcome) :
    Numbered (if out.lands then c.blockToObjectWALNum else num) (v.pushStateToBackend out) := by
  unfold Volume.pushStateToBackend
  cases out with
  | failed => exact h
  | ok | landed =>
    refine ⟨⟨c, ?_, rfl⟩, h.local_le, h.local_le⟩
    simp only [Outcome.lands, if_true, hlocal]
    exact if_neg (Nat.lt_irrefl _)

/-- At most `config.json` was written, under the number the engine is at. -/
structure SavesConfig (v v' : Volume) : Prop extends SameRecords v v' where
  number : v'.vb.blockToObjectWALNum = v.vb.blockToObjectWALNum
  renumbers : ∀ num, Numbered num v → Numbered num v' ∨ Numbered v.vb.blockToObjectWALNum v'
  pushes : ∀ c, v'.backend.config = some c →
    v.backend.config = some c ∨ c.blockToObjectWALNum = v.vb.blockToObjectWALNum

theorem SavesConfig.of_eq (hrecords : SameRecords v v')
    (hnumber : v'.vb.blockToObjectWALNum = v.vb.blockToObjectWALNum)
    (hlocal : v'.files.config = v.files.config) (hbackend : v'.backend.config = v.backend.config)
    (hnext : v'.vb.nextStateSeqNum = v.vb.nextStateSeqNum) :
    SavesConfig v v' :=
  ⟨hrecords, hnumber, fun _ h => .inl (h.of_eq hlocal hbackend hnext),
    fun _ hc => .inl (hbackend ▸ hc)⟩

theorem SavesConfig.trans {v'' : Volume} (hfirst : SavesConfig v v')
    (hsecond : SavesConfig v' v'') :
    SavesConfig v v'' := by
  refine ⟨⟨hsecond.numbered.trans hfirst.numbered, hsecond.walFiles.trans hfirst.walFiles,
    hsecond.backendLive.trans hfirst.backendLive,
    hsecond.backendNumbered.trans hfirst.backendNumbered⟩,
    hsecond.number.trans hfirst.number, ?_, fun c hc => (hsecond.pushes c hc).elim (hfirst.pushes c)
      fun h => .inr (h.trans hfirst.number)⟩
  intro num h
  have hnumber := hfirst.number
  rcases hfirst.renumbers num h with h | h <;>
    rcases hsecond.renumbers _ h with h | h
  · exact .inl h
  · rw [hnumber] at h
    exact .inr h
  · exact .inr h
  · rw [hnumber] at h
    exact .inr h

theorem SavesConfig.numbered_self (h : SavesConfig v v')
    (hv : Numbered v.vb.blockToObjectWALNum v) :
    Numbered v.vb.blockToObjectWALNum v' :=
  (h.renumbers _ hv).elim id id

theorem savesConfig_persistStateLocal (v : Volume) (highWater : Nat) (out : Outcome) :
    SavesConfig v (v.persistStateLocal highWater out) := by
  refine ⟨?_, rfl, fun num h => ?_, fun _ => .inl⟩
  · cases out <;> exact ⟨rfl, rfl, rfl, rfl⟩
  · have hsaved := h.persistStateLocal highWater out
    split at hsaved
    · exact .inr hsaved
    · exact .inl hsaved

theorem savesConfig_pushStateToBackend {c : VBState} (hlocal : v.files.config = some c)
    (hnum : c.blockToObjectWALNum = v.vb.blockToObjectWALNum) (out : Outcome) :
    SavesConfig v (v.pushStateToBackend out) := by
  refine ⟨?_, rfl, fun num h => ?_, fun c' hc' => ?_⟩
  · cases out <;> exact ⟨rfl, rfl, rfl, rfl⟩
  · have hpushed := h.pushStateToBackend hlocal out
    rw [hnum] at hpushed
    split at hpushed
    · exact .inr hpushed
    · exact .inl hpushed
  · cases out with
    | failed => exact .inl hc'
    | ok | landed =>
      cases hlocal.symm.trans hc'
      exact .inr hnum

theorem savesConfig_raiseHighWater (v : Volume) (highWater : Nat) (disk backend : Outcome) :
    SavesConfig v (v.raiseHighWater highWater disk backend).1 := by
  have hsaved := savesConfig_persistStateLocal v highWater disk
  cases disk with
  | failed | landed =>
    exact hsaved
  | ok =>
    have hraised : SavesConfig (v.persistStateLocal highWater .ok)
        { v.persistStateLocal highWater .ok with
          vb := { (v.persistStateLocal highWater .ok).vb with seqNumHighWater := highWater } } :=
      .of_eq ⟨rfl, rfl, rfl, rfl⟩ rfl rfl rfl rfl
    exact hsaved.trans (hraised.trans (savesConfig_pushStateToBackend rfl rfl backend))

theorem savesConfig_saveState (cfg : Config) (v : Volume) (disk backend : Outcome) :
    SavesConfig v (v.saveState cfg disk backend).1 := by
  have hminted : SavesConfig v (v.mintForSave cfg) := by
    unfold Volume.mintForSave
    split <;> exact SavesConfig.of_eq ⟨rfl, rfl, rfl, rfl⟩ rfl rfl rfl rfl
  refine hminted.trans ?_
  unfold Volume.saveState
  generalize v.mintForSave cfg = minted
  have hsaved := savesConfig_persistStateLocal minted minted.vb.seqNumHighWater disk
  cases disk with
  | failed | landed =>
    exact hsaved
  | ok => exact hsaved.trans (savesConfig_pushStateToBackend rfl rfl backend)

theorem savesConfig_reserveSeqNum (cfg : Config) (v : Volume) (disk backend : Outcome) (num : Nat) :
    SavesConfig v (v.reserveSeqNum cfg disk backend).1 ∧
      (cfg.sealing.isNone = true ∨ v.vb.seqNum < v.vb.seqNumHighWater →
        Numbered num v → Numbered num (v.reserveSeqNum cfg disk backend).1) := by
  have hadded : SavesConfig v v.addSeqNum :=
    SavesConfig.of_eq ⟨rfl, rfl, rfl, rfl⟩ rfl rfl rfl rfl
  have hkept : Numbered num v → Numbered num v.addSeqNum :=
    fun h => h.of_eq rfl rfl rfl
  unfold Volume.reserveSeqNum
  dsimp only
  split
  · exact ⟨hadded, fun _ => hkept⟩
  split
  · exact ⟨hadded, fun _ => hkept⟩
  split
  · exact ⟨hadded, fun _ => hkept⟩
  rename_i hplain _ habove
  have hraised := savesConfig_raiseHighWater v.addSeqNum.mintVolumeUUID
    (SeqNumSystem.raiseWindows v.vb.seqNumHighWater v.addSeqNum.vb.seqNum) disk backend
  have hminted : SavesConfig v.addSeqNum v.addSeqNum.mintVolumeUUID :=
    SavesConfig.of_eq ⟨rfl, rfl, rfl, rfl⟩ rfl rfl rfl rfl
  have hfar : ¬ (cfg.sealing.isNone = true ∨ v.vb.seqNum < v.vb.seqNumHighWater) := by
    rintro (h | h)
    · exact hplain h
    · exact habove h
  split <;>
  · rename_i hraise
    rw [hraise] at hraised
    exact ⟨hadded.trans (hminted.trans hraised), fun h => absurd h hfar⟩

/-- A selected copy is installed, and then at most `config.json` is written. -/
theorem loadState_cases {readable ok : Bool} {disk push : Outcome}
    (hload : v.loadState cfg readable disk push = (v', ok)) :
    let selected := selectState v.files.config (if readable then v.backend.config else none)
    selected = none ∧ v' = v ∨ ∃ c w, selected = some c ∧
      (w = v.installState c ∨ w = (v.installState c).restartSeqNum c) ∧
      SavesConfig w v' ∧ SameBlocks w v' := by
  unfold Volume.loadState at hload
  split at hload
  · rename_i hnone
    cases hload
    exact .inl ⟨hnone, rfl⟩
  · rename_i c hc
    refine .inr ⟨c, ?_⟩
    split at hload
    · cases hload
      exact ⟨_, hc, .inl rfl, .of_eq ⟨rfl, rfl, rfl, rfl⟩ rfl rfl rfl rfl,
        rfl, rfl, rfl, rfl, rfl, rfl, rfl⟩
    · refine ⟨_, hc, .inr rfl, ?_⟩
      rw [← show _ = v' from congrArg Prod.fst hload]
      exact ⟨savesConfig_raiseHighWater _ _ disk push, raiseHighWater_sameBlocks _ _ disk push⟩

theorem loadState_fresh {gcEnabled readable ok : Bool} {files : LocalFiles} {backend : Backend}
    {disk push : Outcome}
    (hload : (⟨VB.new gcEnabled, files, backend⟩ : Volume).loadState cfg readable disk push =
      (v, ok)) :
    SameRecords ⟨VB.new gcEnabled, files, backend⟩ v ∧
      v.vb.blocksToObject = (VB.new gcEnabled).blocksToObject ∧
      v.vb.blockStore = UnifiedBlockStore.new := by
  rcases loadState_cases hload with ⟨-, rfl⟩ | ⟨c, w, -, rfl | rfl, hsaves, hblocks⟩
  · exact ⟨⟨rfl, rfl, rfl, rfl⟩, rfl, rfl⟩
  · exact ⟨{ hsaves.toSameRecords with }, hblocks.blocksToObject, hblocks.blockStore⟩
  · exact ⟨{ hsaves.toSameRecords with }, hblocks.blocksToObject, hblocks.blockStore⟩

theorem loadState_spec {gcEnabled : Bool} {files : LocalFiles} {backend : Backend}
    {disk push : Outcome} {ok : Bool} {c : VBState}
    (hc : selectState files.config backend.config = some c)
    (hload : (⟨VB.new gcEnabled, files, backend⟩ : Volume).loadState cfg true disk push = (v, ok)) :
    Numbered c.blockToObjectWALNum v ∧ v.vb.blockToObjectWALNum = c.blockToObjectWALNum := by
  obtain ⟨-, hlocal_le, hbackend_le⟩ := newerCopy_eq_some hc
  have hinstalled : Numbered c.blockToObjectWALNum
      ((⟨VB.new gcEnabled, files, backend⟩ : Volume).installState c) :=
    ⟨⟨c, hc, rfl⟩, hlocal_le, hbackend_le⟩
  rcases loadState_cases hload with ⟨hnone, -⟩ | ⟨c', w, hc', hw, hsaves, -⟩
  · cases hnone.symm.trans hc
  cases hc'.symm.trans hc
  rcases hw with rfl | rfl
  · exact ⟨hsaves.numbered_self hinstalled, hsaves.number⟩
  · exact ⟨hsaves.numbered_self (hinstalled.of_eq rfl rfl rfl), hsaves.number⟩

end Saving

section Loading

variable {cfg : Config} {torn : Option (Nat × Bytes)} {num : Nat} {v v' : Volume}
variable {records : List BlockLookup}

theorem checkpointAt_of_sameRecords (hsame : SameRecords v v') :
    checkpointAt cfg torn v'.files v'.backend num =
      checkpointAt cfg torn v.files v.backend num := by
  unfold checkpointAt numberedCheckpoint
  rw [hsame.numbered, hsame.backendLive, hsame.backendNumbered]

/-- The memory was filled; nothing was stored and no counter of the saves moved. -/
structure Filled (v v' : Volume) : Prop where
  files : v'.files = v.files
  backend : v'.backend = v.backend
  number : v'.vb.blockToObjectWALNum = v.vb.blockToObjectWALNum
  next : v'.vb.nextStateSeqNum = v.vb.nextStateSeqNum

theorem Filled.sameRecords (h : Filled v v') :
    SameRecords v v' :=
  ⟨by rw [h.files], by rw [h.files], by rw [h.backend], by rw [h.backend]⟩

theorem Filled.numbered (h : Filled v v') (hv : Numbered num v) :
    Numbered num v' :=
  hv.of_eq (by rw [h.files]) (by rw [h.backend]) h.next

theorem loadBlockState_spec {gcEnabled : Bool}
    (hmap : v.vb.blocksToObject = (VB.new gcEnabled).blocksToObject)
    (hfresh : v.vb.blockStore = UnifiedBlockStore.new)
    (hnumbered : numberedCheckpoint cfg torn v.files v.backend v.vb.blockToObjectWALNum = some
      records) (hoffset : ∀ rec ∈ records, rec.objectOffset < 2 ^ 32) :
    ∃ loaded, loadBlockState cfg torn v = (loaded, .ok ()) ∧
      Loaded cfg records loaded ∧ Filled v loaded := by
  have hparsed : Loaded cfg records (v.parseCheckpoint cfg records) ∧
      Filled v (v.parseCheckpoint cfg records) :=
    ⟨loaded_parseCheckpoint hfresh hoffset, rfl, rfl, rfl, rfl⟩
  -- what the backend holds counts if there is no local file
  have hremote : v.files.numbered.lookup v.vb.blockToObjectWALNum = none →
      some ((v.backend.numbered.lookup v.vb.blockToObjectWALNum).getD []) = some records →
      Loaded cfg records (v.loadBlockState cfg) ∧ Filled v (v.loadBlockState cfg) := by
    intro hlocal hrecords
    unfold Volume.loadBlockState
    rw [hlocal]
    cases hbackend : v.backend.numbered.lookup v.vb.blockToObjectWALNum with
    | none =>
      rw [hbackend] at hrecords
      obtain rfl : [] = records := Option.some.inj hrecords
      exact ⟨loaded_new cfg hmap hfresh, rfl, rfl, rfl, rfl⟩
    | some found =>
      rw [hbackend] at hrecords
      obtain rfl : found = records := Option.some.inj hrecords
      exact hparsed
  unfold numberedCheckpoint at hnumbered
  unfold loadBlockState
  cases hlocal : v.files.numbered.lookup v.vb.blockToObjectWALNum with
  | some found =>
    simp only [hlocal] at hnumbered
    cases hnumbered
    refine ⟨_, rfl, ?_⟩
    unfold Volume.loadBlockState
    rw [hlocal]
    exact hparsed
  | none =>
    cases torn with
    | none =>
      simp only [hlocal] at hnumbered
      exact ⟨_, rfl, hremote hlocal hnumbered⟩
    | some cut =>
      obtain ⟨cutAt, raw⟩ := cut
      simp only [hlocal] at hnumbered
      dsimp only
      split
      · rename_i hat
        rw [if_pos hat] at hnumbered
        unfold Volume.parseCheckpointFile
        cases hwalk : walkBlockCheckpoint raw cfg.version blockToObjectWALMagic with
        | error err => simp [hwalk, Except.toOption] at hnumbered
        | ok found =>
          rw [hwalk] at hnumbered
          obtain rfl : found = records := Option.some.inj hnumbered
          exact ⟨_, rfl, hparsed⟩
      · rename_i hat
        rw [if_neg hat] at hnumbered
        exact ⟨_, rfl, hremote hlocal hnumbered⟩

theorem loadLiveCheckpoint_spec {gcEnabled : Bool}
    (hmap : v.vb.blocksToObject = (VB.new gcEnabled).blocksToObject)
    (hfresh : v.vb.blockStore = UnifiedBlockStore.new)
    (hforce : checkpointAt cfg torn v.files v.backend v.vb.blockToObjectWALNum = some records)
    (hoffset : ∀ rec ∈ records, rec.objectOffset < 2 ^ 32) :
    ∃ loaded, loadLiveCheckpoint cfg torn v = (loaded, .ok ()) ∧
      Loaded cfg records loaded ∧ Filled v loaded := by
  unfold checkpointAt at hforce
  unfold loadLiveCheckpoint
  cases hlive : v.backend.live with
  | none =>
    rw [hlive] at hforce
    exact loadBlockState_spec hmap hfresh hforce hoffset
  | some found =>
    rw [hlive] at hforce
    cases hforce
    exact ⟨_, rfl, loaded_parseCheckpoint hfresh hoffset, rfl, rfl, rfl, rfl⟩

/-- What an open has loaded when it comes to the log. -/
structure Ready (cfg : Config) (s : State) (c : VBState) (records : List BlockLookup)
    (loaded : Volume) : Prop extends Loaded cfg records loaded where
  walFiles : loaded.files.walFiles = s.files.walFiles
  live : loaded.backend.live = s.backend.live
  number : loaded.vb.blockToObjectWALNum = c.blockToObjectWALNum
  checkpoint : checkpointAt cfg s.torn loaded.files loaded.backend
    c.blockToObjectWALNum = some records

theorem loadVolume_spec {s : State} {c : VBState} {run : OpenRun} {res : Except OpenError Unit}
    (hc : selected s = some c) (hforce : checkpointInForce cfg s = some records)
    (hoffset : ∀ rec ∈ records, rec.objectOffset < 2 ^ 32)
    (hload : loadVolume cfg s run = (v, res)) :
    SameRecords (s.volume (VB.new run.gcEnabled)) v ∧ Numbered c.blockToObjectWALNum v ∧
      (res = .ok () → Ready cfg s c records v) ∧
      (run.bumpDisk = .ok → res = .ok ()) := by
  have hat : checkpointAt cfg s.torn s.files s.backend c.blockToObjectWALNum = some records := by
    unfold checkpointInForce at hforce
    rwa [hc, Option.bind_some] at hforce
  unfold loadVolume at hload
  cases hstate : (s.volume (VB.new run.gcEnabled)).loadState cfg true run.bumpDisk
      run.bumpBackend with
  | mk started ok =>
    obtain ⟨hsame, hmap, hfresh⟩ := loadState_fresh hstate
    obtain ⟨hnumbered, hnumber⟩ := loadState_spec hc hstate
    rw [hstate] at hload
    have hstarted : checkpointAt cfg s.torn started.files started.backend
        started.vb.blockToObjectWALNum = some records := by
      rw [hnumber, checkpointAt_of_sameRecords hsame]
      exact hat
    cases ok with
    | false =>
      cases hload
      refine ⟨hsame, hnumbered, by simp, ?_⟩
      intro hbump
      unfold Volume.loadState at hstate
      simp only [if_true, State.volume] at hstate
      unfold selected at hc
      rw [hc, hbump] at hstate
      dsimp only at hstate
      split at hstate <;> simp [bumpSeqNumHighWater, raiseHighWater, Outcome.isOk] at hstate
    | true =>
      obtain ⟨loaded, hlive, hloaded, hfilled⟩ :=
        loadLiveCheckpoint_spec hmap hfresh hstarted hoffset
      simp only [hlive] at hload
      cases hload
      have hrecords := hfilled.sameRecords
      refine ⟨⟨?_, ?_, ?_, ?_⟩, hfilled.numbered hnumbered, ?_, fun _ => rfl⟩
      · exact hrecords.numbered.trans hsame.numbered
      · exact hrecords.walFiles.trans hsame.walFiles
      · exact hrecords.backendLive.trans hsame.backendLive
      · exact hrecords.backendNumbered.trans hsame.backendNumbered
      · intro _
        refine ⟨hloaded, hrecords.walFiles.trans hsame.walFiles,
          hrecords.backendLive.trans hsame.backendLive,
          hfilled.number.trans hnumber, ?_⟩
        rw [checkpointAt_of_sameRecords hrecords, ← hnumber]
        exact hstarted

end Loading

section Recovering

variable {cfg : Config} {torn : Option (Nat × Bytes)} {num : Nat} {v v' : Volume}
variable {records : List BlockLookup}

theorem savesConfig_createChunkFile (cfg : Config) (v : Volume) (job : List Block) (out : Outcome) :
    SavesConfig v (v.createChunkFile cfg job out).1 := by
  have hfold := foldl_publishRun cfg.blockStride v.vb.objectNum (chunkRuns job)
    { v.vb with objectNum := v.vb.objectNum + 1 }
  unfold Volume.createChunkFile
  cases out with
  | ok =>
    simp only [Outcome.isOk, Outcome.lands, if_true]
    rw [hfold]
    exact SavesConfig.of_eq ⟨rfl, rfl, rfl, rfl⟩ rfl rfl rfl rfl
  | failed | landed =>
    exact SavesConfig.of_eq ⟨rfl, rfl, rfl, rfl⟩ rfl rfl rfl rfl

theorem savesConfig_createChunks
    (cfg : Config) (out : Nat → Outcome) (i : Nat) (jobs : List (List Block)) (v : Volume) :
    SavesConfig v (v.createChunks cfg out i jobs).1 := by
  induction jobs generalizing i v with
  | nil => exact SavesConfig.of_eq ⟨rfl, rfl, rfl, rfl⟩ rfl rfl rfl rfl
  | cons job jobs ih =>
    have hfirst := savesConfig_createChunkFile cfg v job (out i)
    unfold Volume.createChunks
    generalize v.createChunkFile cfg job (out i) = next at hfirst
    obtain ⟨next, ok⟩ := next
    cases ok with
    | false => exact hfirst
    | true => exact hfirst.trans (ih (i + 1) next)

theorem createChunks_of_true {out : Nat → Outcome} {i : Nat} {jobs : List (List Block)}
    (htrue : v.createChunks cfg out i jobs = (v', true)) :
    (∀ k < jobs.length, (out (i + k)).isOk = true) ∧
      v.createChunks cfg (fun _ => .ok) i jobs = (v', true) := by
  induction jobs generalizing i v with
  | nil => exact ⟨by simp, htrue⟩
  | cons job jobs ih =>
    unfold Volume.createChunks at htrue
    cases hout : out i with
    | failed | landed =>
      rw [hout] at htrue
      simp [Volume.createChunkFile, Outcome.isOk] at htrue
    | ok =>
      rw [hout] at htrue
      unfold Volume.createChunks
      generalize v.createChunkFile cfg job .ok = next at htrue ⊢
      obtain ⟨next, ok⟩ := next
      cases ok with
      | false => simp at htrue
      | true =>
        obtain ⟨hrest, hok⟩ := ih htrue
        refine ⟨?_, hok⟩
        intro k hk
        cases k with
        | zero =>
          rw [Nat.add_zero, hout]
          rfl
        | succ k =>
          rw [Nat.add_comm k, ← Nat.add_assoc]
          exact hrest k (by simpa using hk)

theorem saveBlockState_cases
    (cfg : Config) (torn : Option (Nat × Bytes)) (v : Volume) (disk backend : Outcome) :
    let v' := (v.saveBlockState cfg disk backend).1
    v'.files.config = v.files.config ∧ v'.backend.config = v.backend.config ∧
      v'.vb.nextStateSeqNum = v.vb.nextStateSeqNum ∧
      (checkpointAt cfg torn v'.files v'.backend v.vb.blockToObjectWALNum =
          some (v.checkpoint cfg) ∨
        checkpointAt cfg torn v'.files v'.backend v.vb.blockToObjectWALNum =
            checkpointAt cfg torn v.files v.backend v.vb.blockToObjectWALNum ∧
          ((v.saveBlockState cfg disk backend).2 = true → v.backend.live.isSome)) := by
  have hat : ∀ files b (ok : Bool), files.numbered = v.files.numbered.insert
        v.vb.blockToObjectWALNum (v.checkpoint cfg) → b.live = v.backend.live →
      (checkpointAt cfg torn files b v.vb.blockToObjectWALNum = some (v.checkpoint cfg) ∨
        checkpointAt cfg torn files b v.vb.blockToObjectWALNum =
            checkpointAt cfg torn v.files v.backend v.vb.blockToObjectWALNum ∧
          (ok = true → v.backend.live.isSome)) := by
    intro files b ok hfiles hlive
    unfold checkpointAt numberedCheckpoint
    rw [hlive, hfiles, AList.lookup_insert]
    cases hcase : v.backend.live with
    | none => exact .inl rfl
    | some found => exact .inr ⟨rfl, fun _ => rfl⟩
  unfold Volume.saveBlockState
  cases disk with
  | failed => exact ⟨rfl, rfl, rfl, .inr ⟨rfl, by simp [Outcome.isOk]⟩⟩
  | landed => exact ⟨rfl, rfl, rfl, hat _ _ _ rfl rfl⟩
  | ok =>
    cases backend with
    | ok | failed | landed =>
      exact ⟨rfl, rfl, rfl, hat _ _ _ rfl rfl⟩

/-- What recovery saves is in force afterwards, or what was in force still is and the
log is kept, unless an older live checkpoint could not be replaced. -/
theorem saveRecovered_cases (cfg : Config) (torn : Option (Nat × Bytes)) (out : RecoverOutcomes)
    (names : List String) (hdirty : v.vb.dirty = true) (hnumber : v.vb.blockToObjectWALNum = num)
    (hnumbered : Numbered num v) :
    let v' := (v.saveRecovered cfg out names).1
    Numbered num v' ∧ (v.backend.live.isSome → v'.backend.live.isSome) ∧
      (∀ file ∈ v'.files.walFiles, file ∈ v.files.walFiles) ∧
      (checkpointAt cfg torn v'.files v'.backend num = some (v.checkpoint cfg) ∨
        checkpointAt cfg torn v'.files v'.backend num =
            checkpointAt cfg torn v.files v.backend num ∧
          ∀ file ∈ v.files.walFiles, file ∈ v'.files.walFiles ∨
            out.remove file.1 = true ∧ v.backend.live.isSome ∧ out.live.lands = false ∧
              out.stateDisk.isOk ∧ out.stateBackend.isOk ∧ out.blockStateDisk.isOk ∧
              out.blockStateBackend.isOk) := by
  subst hnumber
  obtain ⟨hblocks, hok⟩ := saveState_spec cfg v out.stateDisk out.stateBackend
  have hsaves := savesConfig_saveState cfg v out.stateDisk out.stateBackend
  unfold Volume.saveRecovered
  generalize v.saveState cfg out.stateDisk out.stateBackend = first at hblocks hok hsaves
  obtain ⟨saved, savedOk⟩ := first
  have hsaved := hsaves.numbered_self hnumbered
  have hat : checkpointAt cfg torn saved.files saved.backend v.vb.blockToObjectWALNum =
      checkpointAt cfg torn v.files v.backend v.vb.blockToObjectWALNum :=
    checkpointAt_of_sameRecords hsaves.toSameRecords
  cases savedOk with
  | false =>
    refine ⟨hsaved, fun hlive => hblocks.live.symm ▸ hlive, ?_, .inr ⟨hat, ?_⟩⟩
    · exact fun file hfile => hblocks.walFiles ▸ hfile
    · exact fun file hfile => .inl (hblocks.walFiles.symm ▸ hfile)
  | true =>
    obtain ⟨hblocks', hok'⟩ := saveBlockState_spec cfg saved out.blockStateDisk
      out.blockStateBackend
    obtain ⟨hlocal, hbackend, hnext, hcases⟩ := saveBlockState_cases cfg torn saved
      out.blockStateDisk out.blockStateBackend
    dsimp only
    generalize saved.saveBlockState cfg out.blockStateDisk out.blockStateBackend =
      second at hblocks' hok' hlocal hbackend hnext hcases
    obtain ⟨numbered, numberedOk⟩ := second
    have hnumbered' : Numbered v.vb.blockToObjectWALNum numbered :=
      hsaved.of_eq hlocal hbackend hnext
    have hcheckpoint : saved.checkpoint cfg = v.checkpoint cfg := by
      unfold Volume.checkpoint
      rw [hblocks.blocksToObject]
    have hwal : numbered.files.walFiles = v.files.walFiles :=
      hblocks'.walFiles.trans hblocks.walFiles
    have hlive' : numbered.backend.live = v.backend.live :=
      hblocks'.live.trans hblocks.live
    rw [hsaves.number, hat, hcheckpoint] at hcases
    cases numberedOk with
    | false =>
      refine ⟨hnumbered', fun hlive => hlive'.symm ▸ hlive, ?_, hcases.imp_right fun h => ⟨h.1, ?_⟩⟩
      · exact fun file hfile => hwal ▸ hfile
      · exact fun file hfile => .inl (hwal.symm ▸ hfile)
    | true =>
      have hdirty' : numbered.vb.dirty = true := by
        rw [hblocks'.dirty, hblocks.dirty, hdirty]
      have hcheckpoint' : numbered.checkpoint cfg = v.checkpoint cfg := by
        unfold Volume.checkpoint
        rw [hblocks'.blocksToObject, hblocks.blocksToObject]
      simp only [saveLiveCheckpoint, hdirty', if_true, removeFiles]
      refine ⟨?_, ?_, ?_, ?_⟩
      · refine hnumbered'.of_eq rfl ?_ rfl
        split <;> rfl
      · intro hlive
        split
        · rfl
        · exact hlive'.symm ▸ hlive
      · intro file hfile
        exact hwal ▸ List.mem_of_mem_filter hfile
      · cases hlands : out.live.lands with
        | true =>
          refine .inl ?_
          rw [hcheckpoint']
          rfl
        | false =>
          refine hcases.imp_right fun h => ⟨h.1, ?_⟩
          intro file hfile
          have hstate : out.stateDisk.isOk ∧ out.stateBackend.isOk := by
            simpa using hok.symm
          have hblock : out.blockStateDisk.isOk ∧ out.blockStateBackend.isOk := by
            simpa using hok'.symm
          have hlive : v.backend.live.isSome := by
            rw [← hblocks.live]
            exact h.2 rfl
          by_cases hremove : out.remove file.1 = true
          · exact .inr ⟨hremove, hlive, rfl, hstate.1, hstate.2, hblock.1, hblock.2⟩
          · refine .inl (List.mem_filter.mpr ⟨hwal.symm ▸ hfile, ?_⟩)
            simp [hremove]

theorem createChunks_replayed {out : Nat → Outcome} (hempty : v.vb.blockStore.entries = ∅)
    (hjobs : v.replayJobs cfg ≠ [])
    (hcreate : v.reconcileObjectNum.createChunks cfg out 0 (v.replayJobs cfg) = (v', true)) :
    v'.vb.blocksToObject = v.replayedMap cfg ∧ v'.vb.dirty = true ∧
      ∀ i < (v.replayJobs cfg).length, (out i).isOk = true := by
  obtain ⟨hchunks, hallOk⟩ := createChunks_of_true hcreate
  rw [createChunks_ok cfg (fun _ => rfl) _ 0 v.reconcileObjectNum hempty] at hallOk
  rw [← (Prod.mk.inj hallOk).1]
  refine ⟨rfl, ?_, ?_⟩
  · cases hcase : v.replayJobs cfg with
    | nil => exact absurd hcase hjobs
    | cons job jobs => simp
  · intro i hi
    have hok := hchunks i hi
    rwa [Nat.zero_add] at hok

theorem validRecords_of_keepsLog
    {s : State} {out : RecoverOutcomes} {jobs : Nat} {file : String × Bytes}
    (hkeeps : keepsLog cfg s out jobs = true) (hlive : s.backend.live.isSome = true)
    (hlands : out.live.lands = false) (hcompletes : completes out jobs = true)
    (hfile : file ∈ s.files.walFiles) (hremove : out.remove file.1 = true) :
    validRecords cfg file.2 = [] := by
  have hnone : s.backend.live.isNone = false := by simpa using hlive
  unfold keepsLog at hkeeps
  rw [hnone, hlands, hcompletes] at hkeeps
  simp only [Bool.not_true, Bool.or_self, Bool.false_or] at hkeeps
  have hall := List.all_eq_true.mp hkeeps file hfile
  rw [hremove] at hall
  simpa using hall

/-- How a recovery can end, whatever fails: with the checkpoint that was in force and
the records of the log, or with a checkpoint of the replayed map. -/
theorem Ready.recover
    {s : State} {c : VBState} {out : RecoverOutcomes} {res : Except RecoverError Unit}
    (h : Ready cfg s c records v) (hnumbered : Numbered c.blockToObjectWALNum v)
    (hkeeps : keepsLog cfg s out (v.replayJobs cfg).length = true)
    (hrecover : v.recoverLocalWALs cfg out = (v', res)) :
    Numbered c.blockToObjectWALNum v' ∧ (s.backend.live.isSome → v'.backend.live.isSome) ∧
      (∀ file ∈ v'.files.walFiles, file ∈ s.files.walFiles) ∧
      (checkpointAt cfg s.torn v'.files v'.backend c.blockToObjectWALNum = some records ∧
          (∀ file ∈ s.files.walFiles, file ∈ v'.files.walFiles ∨ validRecords cfg file.2 = []) ∨
        checkpointAt cfg s.torn v'.files v'.backend c.blockToObjectWALNum =
          some (checkpointRecords cfg.blockStride (v.replayedMap cfg).blockLookup)) := by
  unfold Volume.recoverLocalWALs at hrecover
  cases hread : readLocalWALs cfg (sortedFiles v.files.walFiles) with
  | error err =>
    rw [hread] at hrecover
    cases hrecover
    rw [h.walFiles, h.live]
    exact ⟨hnumbered, id, fun _ => id, .inl ⟨h.checkpoint, fun _ => .inl⟩⟩
  | ok read =>
    have hblocks := Volume.allBlocks_eq_walRecords hread
    simp only [hread, hblocks] at hrecover
    split at hrecover
    · -- only files without a valid record are removed
      rename_i hnone
      cases hrecover
      refine ⟨hnumbered.of_eq rfl rfl rfl, fun hlive => h.live.symm ▸ hlive, ?_,
        .inl ⟨h.checkpoint, ?_⟩⟩
      · exact fun file hfile => h.walFiles ▸ List.mem_of_mem_filter hfile
      · intro file hfile
        refine .inr (List.eq_nil_iff_forall_not_mem.mpr fun w hw => ?_)
        have hmem : w ∈ v.walRecords cfg := List.mem_flatMap.mpr
          ⟨file, Volume.mem_sortedFiles_iff.mpr (h.walFiles.symm ▸ hfile), hw⟩
        rw [hnone] at hmem
        exact absurd hmem List.not_mem_nil
    · rename_i hsome
      have hjobs : v.replayJobs cfg ≠ [] := fun hjobs => hsome (walRecords_of_noJobs hjobs)
      have hsaves := savesConfig_createChunks cfg out.chunk 0 (v.replayJobs cfg)
        v.reconcileObjectNum
      cases hcreate : v.reconcileObjectNum.createChunks cfg out.chunk 0
          (v.replayJobs cfg) with
      | mk replayed ok =>
        rw [hcreate] at hsaves
        have hreplayed : Numbered c.blockToObjectWALNum replayed := by
          rw [← h.number] at hnumbered ⊢
          exact hsaves.numbered_self (hnumbered.of_eq rfl rfl rfl)
        have hwal : replayed.files.walFiles = s.files.walFiles :=
          hsaves.walFiles.trans h.walFiles
        have hlive : replayed.backend.live = s.backend.live :=
          hsaves.backendLive.trans h.live
        have hat : checkpointAt cfg s.torn replayed.files replayed.backend
            c.blockToObjectWALNum = some records :=
          (checkpointAt_of_sameRecords hsaves.toSameRecords).trans h.checkpoint
        have hreplay : v.reconcileObjectNum.createChunks cfg out.chunk 0
            (chunkJobs cfg.objBlockSize (v.walRecords cfg)) = (replayed, ok) := hcreate
        simp only [hreplay] at hrecover
        cases ok with
        | false =>
          cases hrecover
          rw [hwal, hlive]
          exact ⟨hreplayed, id, fun _ => id, .inl ⟨hat, fun _ => .inl⟩⟩
        | true =>
          obtain ⟨hmap, hdirty, hchunks⟩ :=
            createChunks_replayed h.entries hjobs hcreate
          have hcases := saveRecovered_cases (v := replayed.syncRecovered cfg
            (Config.fileMaxSeq (v.walRecords cfg))) cfg s.torn out
            (read.map Prod.fst) hdirty (hsaves.number.trans h.number)
            (hreplayed.of_eq rfl rfl rfl)
          dsimp only at hrecover
          rw [hrecover] at hcases
          obtain ⟨hnumbered', hlive', hsubset, hcases⟩ := hcases
          refine ⟨hnumbered', fun hsome => hlive' (hlive.symm ▸ hsome),
            fun file hfile => hwal ▸ hsubset file hfile, ?_⟩
          rcases hcases with hnew | ⟨hold, hkept⟩
          · refine .inr (hnew.trans ?_)
            unfold Volume.checkpoint
            rw [← hmap]
            rfl
          · refine .inl ⟨hold.trans hat, fun file hfile => ?_⟩
            refine (hkept file (hwal.symm ▸ hfile)).imp_right ?_
            rintro ⟨hremove, hsome, hlands, hdisk, hback, hblock, hblock'⟩
            refine validRecords_of_keepsLog hkeeps ?_ hlands ?_ hfile hremove
            · rw [← hlive]
              exact hsome
            · unfold completes
              rw [hdisk, hback, hblock, hblock', List.all_eq_true.mpr]
              · rfl
              · exact fun i hi => hchunks i (List.mem_range.mp hi)

theorem mem_names_of_readable {files : List (String × Bytes)} {read : List (String × List Block)}
    (hread : readLocalWALs cfg files = .ok read) {file : String × Bytes} {blocks : List Block}
    (hfile : file ∈ files) (hblocks : cfg.readWALFileForRecovery file.2 = .ok blocks) :
    file.1 ∈ read.map Prod.fst := by
  induction files generalizing read with
  | nil => simp at hfile
  | cons head files ih =>
    obtain ⟨name, bytes⟩ := head
    simp only [readLocalWALs] at hread
    cases hhead : cfg.readWALFileForRecovery bytes with
    | error err =>
      have htail : file ∈ files := by
        rcases List.mem_cons.mp hfile with rfl | htail
        · rw [hhead] at hblocks
          cases hblocks
        · exact htail
      rw [hhead] at hread
      cases err with
      | integrity a b => simp at hread
      | _ => exact ih hread htail
    | ok found =>
      rw [hhead] at hread
      cases hrest : readLocalWALs cfg files with
      | error err => simp [hrest] at hread
      | ok more =>
        simp only [hrest] at hread
        cases hread
        rcases List.mem_cons.mp hfile with rfl | htail
        · exact List.mem_cons_self
        · exact List.mem_cons_of_mem _ (ih hrest htail)

theorem not_readable_of_recovered {out : RecoverOutcomes} (hremove : ∀ name, out.remove name = true)
    (hrecover : v.recoverLocalWALs cfg out = (v', .ok ())) {file : String × Bytes}
    (hfile : file ∈ v'.files.walFiles) (hmem : file ∈ v.files.walFiles) (blocks : List Block) :
    cfg.readWALFileForRecovery file.2 ≠ .ok blocks := by
  intro hblocks
  unfold Volume.recoverLocalWALs at hrecover
  cases hread : readLocalWALs cfg (sortedFiles v.files.walFiles) with
  | error err =>
    rw [hread] at hrecover
    simp at hrecover
  | ok read =>
    have hname := mem_names_of_readable hread
      (Volume.mem_sortedFiles_iff.mpr hmem) hblocks
    have hgone : ∀ w : Volume,
        file ∉ (w.removeFiles (read.map Prod.fst) out.remove).files.walFiles := by
      intro w hin
      have hkept := (List.mem_filter.mp hin).2
      rw [hremove, List.contains_iff_mem.mpr hname] at hkept
      simp at hkept
    simp only [hread] at hrecover
    split at hrecover
    · rw [← (Prod.mk.inj hrecover).1] at hfile
      exact hgone _ hfile
    split at hrecover
    · simp at hrecover
    unfold Volume.saveRecovered at hrecover
    split at hrecover
    · simp at hrecover
    split at hrecover
    · simp at hrecover
    · rw [← (Prod.mk.inj hrecover).1] at hfile
      exact hgone _ hfile

end Recovering

end RecoveryRetry

end Viperblock
