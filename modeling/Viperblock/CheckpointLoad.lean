import Viperblock.CheckpointDecoder
import Viperblock.GcSafety
import Viperblock.MapHistory

/-!
# Reading a checkpoint when an open begins

`LoadLiveCheckpoint` asks the backend for the live checkpoint and, if there is none, goes
on to the numbered one: to its local file if there is one, else to the backend again.
The two backends report failures in their own words, an API error code of the object
store or an error number of the file system, and both turn "no such object" into
`os.ErrNotExist`.  Only that may let a volume be opened with an empty block map: an
empty map shows zeros for every block and hands the chunk numbers out from zero again.

The outcome of every read is a parameter, and so is what is really stored.

The last section is about a checkpoint that is rejected while the engine goes on serving:
what is left of its memory, and what a later sweep takes from it.
-/

namespace Viperblock

namespace CheckpointLoad

open BlockMap

/-- Errors of a backend read, as far as callers tell them apart. -/
inductive BackendError
  /-- Wraps `os.ErrNotExist`. -/
  | notExist
  | shortRead (got expected : Nat)
  | endOfFile
  | failed
deriving DecidableEq, Repr

section ObjectStore

/-- What became of a request to the object store. -/
inductive GetObject
  | clientNotInitialised
  | apiError (code : String)
  /-- No answer: a timeout, a refused connection. -/
  | noResponse
  /-- The bytes of the body, and whether reading them ended with an error. -/
  | response (body : Bytes) (cut : Bool)
deriving DecidableEq, Repr

/-- The codes that say the object is not there. -/
def notFoundCodes : List String := ["NoSuchKey", "NoSuchBucket", "NotFound", "NoSuchVersion"]

def wrapNotFound (code : String) : BackendError :=
  if code ∈ notFoundCodes then .notExist else .failed

/-- A request of length zero is one for the whole object. -/
def s3Read (length : Nat) : GetObject → Except BackendError Bytes
  | .clientNotInitialised => .error .failed
  | .apiError code => .error (wrapNotFound code)
  | .noResponse => .error .failed
  | .response body cut =>
    if cut then .error .failed
    else if 0 < length ∧ body.length ≠ length then
      .error (.shortRead body.length length)
    else .ok body

end ObjectStore

section FileSystem

inductive Errno
  | enoent
  | other
deriving DecidableEq, Repr

def Errno.toError : Errno → BackendError
  | .enoent => .notExist
  | .other => .failed

/-- What the calls on a file came to: opening it, its size, and reading it. -/
structure FileCalls where
  opened : Option Errno
  size : Except Errno Nat
  content : Except Errno Bytes

/-- `ReadAt` into a buffer of the given size; an empty one is filled without a read. -/
def FileCalls.readAt (calls : FileCalls) (offset wanted : Nat) :
    Except BackendError Bytes :=
  if wanted = 0 then .ok []
  else
    match calls.content with
    | .error err => .error err.toError
    | .ok bytes =>
      if offset + wanted ≤ bytes.length then .ok ((bytes.drop offset).take wanted)
      else .error .endOfFile

def fileRead (offset length : Nat) (calls : FileCalls) : Except BackendError Bytes :=
  match calls.opened with
  | some err => .error err.toError
  | none =>
    if length = 0 then
      match calls.size with
      | .error err => .error err.toError
      | .ok size => calls.readAt offset (safeIntToUint32 size)
    else calls.readAt offset length

end FileSystem

/-- A read of a whole object, from one of the two backends. -/
inductive BackendRead
  | s3 (result : GetObject)
  | file (calls : FileCalls)

namespace BackendRead

def outcome : BackendRead → Except BackendError Bytes
  | .s3 result => s3Read 0 result
  | .file calls => fileRead 0 0 calls

/-- The backend says that there is no such object. -/
def reportsAbsent : BackendRead → Bool
  | .s3 (.apiError code) => notFoundCodes.contains code
  | .s3 _ => false
  | .file calls =>
    match calls.opened with
    | some err => err == .enoent
    | none =>
      match calls.size with
      | .error err => err == .enoent
      | .ok size =>
        safeIntToUint32 size != 0 &&
          match calls.content with
          | .error err => err == .enoent
          | .ok _ => false

theorem toError_eq_notExist (err : Errno) :
    err.toError = .notExist ↔ err = .enoent := by
  cases err <;> simp [Errno.toError]

theorem outcome_eq_notExist (read : BackendRead) :
    read.outcome = .error .notExist ↔ read.reportsAbsent = true := by
  cases read with
  | s3 result =>
    cases result with
    | clientNotInitialised => simp [outcome, s3Read, reportsAbsent]
    | apiError code =>
      simp [outcome, s3Read, reportsAbsent, wrapNotFound, apply_ite]
    | noResponse => simp [outcome, s3Read, reportsAbsent]
    | response body cut => cases cut <;> simp [outcome, s3Read, reportsAbsent]
  | file calls =>
    obtain ⟨opened, size, content⟩ := calls
    cases opened with
    | some err => simp [outcome, fileRead, reportsAbsent, toError_eq_notExist]
    | none =>
      cases size with
      | error err =>
        simp [outcome, fileRead, reportsAbsent, toError_eq_notExist]
      | ok size =>
        by_cases hzero : safeIntToUint32 size = 0
        · simp [outcome, fileRead, reportsAbsent, FileCalls.readAt, hzero]
        · cases content with
          | error err =>
            simp [outcome, fileRead, reportsAbsent, FileCalls.readAt, hzero, toError_eq_notExist]
          | ok bytes =>
            simp only [outcome, fileRead, reportsAbsent, FileCalls.readAt, hzero, if_true, if_false]
            split <;> simp

end BackendRead

/-- The objects that are really stored. -/
structure Stored where
  live : Option Bytes
  numbered : Option Bytes

/-- What the reads of an open come to. -/
structure Reads where
  live : BackendRead
  /-- The local file of the numbered checkpoint if `Stat` finds one, with its bytes
  unless it cannot be read. -/
  disk : Option (Option Bytes)
  numbered : BackendRead

inductive LoadError
  | disk
  | live (err : BackendError)
  | checkpoint (err : CheckpointError)
deriving DecidableEq, Repr

/-- Where the block map comes from. -/
inductive Source
  | checkpoint (raw : Bytes)
  /-- No checkpoint was found, and the map is left as it is. -/
  | empty
deriving DecidableEq, Repr

section Load

variable (cfg : Config)

/-- The checkpoint that was read, and where the map comes from then. -/
def parseRaw (v : Volume) (raw : Bytes) : Volume × Except LoadError Source :=
  match v.parseCheckpointFile cfg raw with
  | (v', .error err) => (v', .error (.checkpoint err))
  | (v', .ok ()) => (v', .ok (.checkpoint raw))

def loadBlockState (v : Volume) (reads : Reads) : Volume × Except LoadError Source :=
  match reads.disk with
  | some none => (v, .error .disk)
  | some (some raw) => parseRaw cfg v raw
  | none =>
    match reads.numbered.outcome with
    -- taken for a volume nothing was written to, whatever the error says
    | .error _ => (v, .ok .empty)
    | .ok raw => parseRaw cfg v raw

def loadLiveCheckpoint (v : Volume) (reads : Reads) : Volume × Except LoadError Source :=
  match reads.live.outcome with
  | .error .notExist => loadBlockState cfg v reads
  | .error err => (v, .error (.live err))
  | .ok raw => parseRaw cfg v raw

end Load

section Serves

variable (cfg : Config) (v : Volume) (stored : Stored) (reads : Reads)

/-- The bytes are those of a stored checkpoint. -/
def IsStored (raw : Bytes) : Prop :=
  stored.live = some raw ∨ reads.disk = some (some raw) ∨ stored.numbered = some raw

/-- The map is that of the checkpoint, and its chunk numbers are taken. -/
def LoadedFrom (v' : Volume) (raw : Bytes) : Prop :=
  ∃ records, walkBlockCheckpoint raw cfg.version blockToObjectWALMagic = .ok records ∧
    v' = v.parseCheckpoint cfg records ∧ ∀ rec ∈ records, rec.objectID < v'.vb.objectNum

/-- What is asked of a load that returns no error: the map comes from a stored
checkpoint, or `absent` holds and the map is as it was. -/
def Serves (absent : Prop) (result : Volume × Except LoadError Source) : Prop :=
  match result.2 with
  | .ok (.checkpoint raw) => IsStored stored reads raw ∧ LoadedFrom cfg v result.1 raw
  | .ok .empty => absent ∧ result.1 = v
  | .error _ => True

/-- The numbered checkpoint is asked for if there is no local file. -/
def BlockStateServes : Prop :=
  Serves cfg v stored reads (reads.numbered.reportsAbsent = true) (loadBlockState cfg v reads)

def LiveCheckpointServes : Prop :=
  Serves cfg v stored reads
    (reads.live.reportsAbsent = true ∧ reads.numbered.reportsAbsent = true)
    (loadLiveCheckpoint cfg v reads)

/-- A body with the form of a checkpoint is that of a stored one. -/
def Faithful (read : BackendRead) : Prop :=
  ∀ raw, read.outcome = .ok raw → IsCheckpoint raw cfg.version → IsStored stored reads raw

/-- Without a local file the read of the numbered checkpoint gives a faithful body, or
fails because there is none. -/
def NumberedSettled : Prop :=
  reads.disk = none → Faithful cfg stored reads reads.numbered ∧
      ∀ err, reads.numbered.outcome = .error err → reads.numbered.reportsAbsent = true

variable {cfg v stored reads}

theorem serves_parseRaw (absent : Prop) (raw : Bytes) :
    Serves cfg v stored reads absent (parseRaw cfg v raw) ↔
      (IsCheckpoint raw cfg.version → IsStored stored reads raw) := by
  rw [← exists_walk_iff cfg.version_lt]
  unfold parseRaw Volume.parseCheckpointFile
  cases hwalk : walkBlockCheckpoint raw cfg.version blockToObjectWALMagic with
  | error err => simp [Serves]
  | ok records =>
    have hloaded : LoadedFrom cfg v (v.parseCheckpoint cfg records) raw :=
      ⟨records, hwalk, rfl, (lt_raiseObjectNum v.vb.objectNum records).2⟩
    simp [Serves, hloaded]

theorem blockStateServes_iff :
    BlockStateServes cfg v stored reads ↔ NumberedSettled cfg stored reads := by
  unfold BlockStateServes NumberedSettled loadBlockState
  cases hdisk : reads.disk with
  | some file =>
    cases file with
    | none => simp [Serves]
    | some raw =>
      have hstored : IsStored stored reads raw := .inr (.inl hdisk)
      simp [serves_parseRaw, hstored]
  | none =>
    cases hread : reads.numbered.outcome with
    | error err => simp [Serves, Faithful, hread]
    | ok raw => simp [serves_parseRaw, Faithful, hread]

theorem liveCheckpointServes_iff :
    LiveCheckpointServes cfg v stored reads ↔ Faithful cfg stored reads reads.live ∧
        (reads.live.reportsAbsent = true → NumberedSettled cfg stored reads) := by
  unfold LiveCheckpointServes loadLiveCheckpoint
  cases hread : reads.live.outcome with
  | ok raw =>
    have hpresent : reads.live.reportsAbsent ≠ true := by
      rw [ne_eq, ← BackendRead.outcome_eq_notExist, hread]
      simp
    simp [serves_parseRaw, Faithful, hread, hpresent]
  | error err =>
    by_cases herr : err = .notExist
    · subst herr
      have habsent : reads.live.reportsAbsent = true :=
        (BackendRead.outcome_eq_notExist _).mp hread
      simp only [habsent, true_and, forall_const]
      rw [← blockStateServes_iff (v := v)]
      simp [BlockStateServes, Faithful, hread]
    · have hpresent : reads.live.reportsAbsent ≠ true := by
        rw [ne_eq, ← BackendRead.outcome_eq_notExist, hread]
        simpa using herr
      cases err <;> simp_all [Serves, Faithful]

/-- The two loaders serve only stored checkpoints, or the absence of one, exactly if no
foreign body has the form of a checkpoint and the read of the numbered checkpoint, where it
comes to that, does not fail in any other way than that it is absent. -/
theorem checkpoint_loads_iff (cfg : Config) (v : Volume) (stored : Stored) (reads : Reads) :
    (BlockStateServes cfg v stored reads ↔ NumberedSettled cfg stored reads) ∧
      (LiveCheckpointServes cfg v stored reads ↔ Faithful cfg stored reads reads.live ∧
          (reads.live.reportsAbsent = true → NumberedSettled cfg stored reads)) :=
  ⟨blockStateServes_iff, liveCheckpointServes_iff⟩

/-- A volume of which only a numbered checkpoint is stored; the request for it gets no
answer, and the volume is opened as an empty one. -/
theorem no_response_opens_empty :
    ∃ stored reads, stored.numbered ≠ none ∧
      ¬ LiveCheckpointServes Config.tiny ⟨VB.new false, ⟨none, ∅, []⟩, ⟨none, ∅, none, ∅⟩⟩
        stored reads := by
  let record : BlockLookup :=
    { startBlock := 0, numBlocks := 1, objectID := 0, objectOffset := 10, seqNum := 1,
      seqNums := [] }
  refine ⟨⟨none, some (checkpointBytes 1 0 [record])⟩,
    ⟨.s3 (.apiError "NoSuchKey"), none, .s3 .noResponse⟩, by simp, ?_⟩
  rintro ⟨⟨-, habsent⟩, -⟩
  revert habsent
  decide

end Serves

section Rejected

open GuardedRun GcSystem

/-- The parts of the memory that a checkpoint replaces are as they were. -/
structure Untouched (v v' : Viperblock.Volume) : Prop where
  blockLookup : v'.vb.blocksToObject.blockLookup = v.vb.blocksToObject.blockLookup
  gcRefcount : v'.vb.blocksToObject.gcRefcount = v.vb.blocksToObject.gcRefcount
  objectNum : v'.vb.objectNum = v.vb.objectNum
  blockStore : v'.vb.blockStore = v.vb.blockStore

/-- The engine goes on with the map and the chunk numbers of the volume. -/
def resumed (s : GcState) (v : Viperblock.Volume) : GcState :=
  { s with blocksToObject := v.vb.blocksToObject, objectNum := v.vb.objectNum }

/-- An engine that was in order goes on after `v` has become `v'`.  Whatever drains, sweeps
and snapshots follow, the chunks its map names exist. -/
def SweepsSafely (v v' : Viperblock.Volume) : Prop :=
  ∀ (stride : Nat) (s : GcState), Safe (resumed s v) → ∀ acts t,
    Run (step stride) (fun s a => uploadsUntracked s a = true) (resumed s v') acts t → MapClosed t

variable {cfg : Config} {v : Viperblock.Volume} {raw : Bytes} {err : LoadError}

/-- All that a rejected checkpoint changes. -/
theorem parseRaw_of_rejected (hreject : (parseRaw cfg v raw).2 = .error err) :
    (parseRaw cfg v raw).1 =
      { v with vb := { v.vb with
        blocksToObject := mapRefs (fun _ => ∅) v.vb.blocksToObject } } := by
  unfold parseRaw Volume.parseCheckpointFile at hreject ⊢
  cases hwalk : walkBlockCheckpoint raw cfg.version blockToObjectWALMagic with
  | error _ => rfl
  | ok _ =>
    rw [hwalk] at hreject
    cases hreject

theorem sweepsSafely_self (v : Viperblock.Volume) :
    SweepsSafely v v := by
  intro stride s hsafe acts t hrun
  exact (hrun.preserves (fun _ _ _ hs hallowed hstep => step_safe hs hallowed hstep)
    hsafe).mapClosed

/-- A rejected checkpoint leaves the engine as it was exactly if it has no reference counts,
or none are recorded. -/
theorem rejected_checkpoint_changes_nothing_iff (hreject : (parseRaw cfg v raw).2 = .error err) :
    (Untouched v (parseRaw cfg v raw).1 ∧ SweepsSafely v (parseRaw cfg v raw).1) ↔
      (v.vb.blocksToObject.gcRefcount = none ∨ v.vb.blocksToObject.gcRefcount = some ∅) := by
  rw [parseRaw_of_rejected hreject]
  constructor
  · rintro ⟨huntouched, -⟩
    have hcounts := huntouched.gcRefcount
    cases hgc : v.vb.blocksToObject.gcRefcount with
    | none => exact .inl rfl
    | some rc =>
      simp only [mapRefs, hgc, Option.map_some] at hcounts
      exact .inr hcounts.symm
  · intro hempty
    have hsame : mapRefs (fun _ => ∅) v.vb.blocksToObject = v.vb.blocksToObject := by
      unfold mapRefs
      rcases hempty with hgc | hgc <;> rw [hgc] <;> simp only [Option.map_none, Option.map_some]
      all_goals rw [← hgc]
    rw [hsame]
    exact ⟨⟨rfl, rfl, rfl, rfl⟩, sweepsSafely_self v⟩

/-- A volume with one block, with or without reference counts. -/
def oneBlockEngine (gcEnabled : Bool) : Viperblock.Volume :=
  ⟨{ VB.new gcEnabled with
      objectNum := 1
      blocksToObject := parseBlockCheckpoint gcEnabled 4096 oneBlock },
    ⟨none, ∅, []⟩, ⟨none, ∅, none, ∅⟩⟩

/-- A checkpoint whose second record is all zeros, its checksum included. -/
def badRecord : Bytes :=
  checkpointBytes 1 0 oneBlock ++ List.replicate 34 0

/-- Without reference counts a bad record is rejected without a trace. -/
theorem rejected_checkpoint_without_gc :
    Untouched (oneBlockEngine false) (parseRaw Config.tiny (oneBlockEngine false) badRecord).1 ∧
      SweepsSafely (oneBlockEngine false)
        (parseRaw Config.tiny (oneBlockEngine false) badRecord).1 := by
  have hreject : (parseRaw Config.tiny (oneBlockEngine false) badRecord).2 =
      .error (.checkpoint (.record 48 (.checksumMismatch 278197 0))) := by
    decide +kernel
  exact (rejected_checkpoint_changes_nothing_iff hreject).mpr (.inl rfl)

/-- A sweep that finds nothing to upload. -/
def plainSweep : List Act :=
  [.drain (.begin .sweep), .drain .finishUploads, .drain .serialize,
    .sweep .readBaseline, .sweep .listPrefixes, .sweep .probe,
    .sweep (.listChunks true), .sweep .reconcile, .sweep (.readFloor true),
    .sweep .readWatermark, .sweep .select, .sweep .checkMarker,
    .sweep (.delete true true)]

/-- With reference counts, the next sweep deletes the only chunk of the volume. -/
theorem sweep_after_rejected_checkpoint_loses_chunk :
    (parseRaw Config.tiny (oneBlockEngine true) []).2 = .error (.checkpoint (.header 0)) ∧
      Safe (resumed (opened 4096 oneBlockVolume oneBlock 1) (oneBlockEngine true)) ∧
      ∃ t, Run (step 4096) (fun s a => uploadsUntracked s a = true)
          (resumed (opened 4096 oneBlockVolume oneBlock 1)
            (parseRaw Config.tiny (oneBlockEngine true) []).1) plainSweep t ∧
        ¬ MapClosed t := by
  have hsafe : Safe (opened 4096 oneBlockVolume oneBlock 1) :=
    opened_safe (by decide) (by decide)
  refine ⟨rfl, hsafe, ?_⟩
  obtain ⟨t, hrun, hlost⟩ := Run.exists_of_exec
    (step 4096) (fun s a => uploadsUntracked s a = true)
    (resumed (opened 4096 oneBlockVolume oneBlock 1)
      (parseRaw Config.tiny (oneBlockEngine true) []).1) plainSweep
    (fun s => !decide (MapClosed s)) (by decide)
  exact ⟨t, hrun, by simpa using hlost⟩

end Rejected

end CheckpointLoad

end Viperblock
