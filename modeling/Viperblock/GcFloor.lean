import Viperblock.GcSafety
import Viperblock.RecoveryRetry
import Viperblock.ReopenSafety

/-!
# The floor of chunk garbage collection

A sweep spares every chunk below the floor, one past the highest object that the
numbered checkpoint names.  It is meant to keep what an open would load that finds
no live checkpoint.  The floor is read at the number the engine is at and kept for
the life of the engine; the open goes by the number in `config.json`.

Recovery saves `config.json`, then the checkpoint with the same number, and only then
advances the number.  From there on the engine is one ahead of `config.json`, finds
no checkpoint at its number and sets the floor to zero.  `floorFits` is the condition
under which the floor covers what the open would load.
-/

namespace Viperblock

namespace GcFloor

open GuardedRun BlockMap BlocksToObject Volume
open GcSystem (numberedFloor sweepCandidates mapRefs)
open ReopenSystem (Disks Session)
open RecoveryRetry (Numbered SavesConfig savesConfig_createChunkFile savesConfig_reserveSeqNum
  savesConfig_saveState)

/-- Progress of `sweepChunks`. -/
inductive Sweep
  | idle
  | reconciled
  | floored (floor : Nat)
  | watermarked (floor watermark : Nat)
  | deleting (candidates : List Nat)
deriving DecidableEq

structure State where
  volume : ReopenSystem.State
  gcReconciled : Bool
  gcFloor : Option Nat
  sweep : Sweep

inductive Act
  /-- Anything but a sweep: opens, writes, drains, saves, crashes. -/
  | engine (a : ReopenSystem.Act)
  /-- A sweep that the snapshot checks admit; listing the chunks may fail. -/
  | reconcile (listed : Bool)
  | readFloor (readable : Bool)
  | readWatermark
  | select
  /-- Delete the first candidate. -/
  | delete (out : Outcome)
  /-- The sweep ends, or is abandoned for a snapshot. -/
  | finish

section Steps

variable (cfg : Config)

/-- Change the memory of the running engine and what is on the backend. -/
def State.update (s : State) (sess : Session) (vb : VB) (backend : Backend)
    (sweep : Sweep) : State :=
  { s with
    volume :=
      { s.volume with
        disks := { s.volume.disks with backend := backend }
        running := some { sess with vb := vb } }
    sweep := sweep }

/-- Chunk objects that no count is kept of are counted as unreferenced. -/
def trackChunks (vb : VB) (ids : List Nat) : VB :=
  { vb with
    blocksToObject :=
      mapRefs (fun rc => ids.foldl (fun rc id => trackRef id rc) rc) vb.blocksToObject }

def forgetChunk (vb : VB) (id : Nat) : VB :=
  { vb with blocksToObject := mapRefs (fun rc => rc.erase id) vb.blocksToObject }

def step (s : State) : Act → Option State
  | .engine a =>
    match ReopenSystem.step cfg s.volume a with
    | none => none
    | some volume =>
      if s.volume.running.isSome && volume.running.isSome then
        some { s with volume := volume }
      else some ⟨volume, false, none, .idle⟩
  | .reconcile listed =>
    match s.volume.running, s.sweep with
    | some sess, .idle =>
      let backend := s.volume.disks.backend
      if s.gcReconciled || !listed then
        some (s.update sess sess.vb backend .reconciled)
      else
        let tracked := trackChunks sess.vb backend.chunks.keys
        some { s.update sess tracked backend .reconciled with gcReconciled := true }
    | _, _ => none
  | .readFloor readable =>
    match s.volume.running, s.sweep with
    | some sess, .reconciled =>
      match s.gcFloor with
      | some floor => some { s with sweep := .floored floor }
      | none =>
        if readable then
          let num := sess.vb.blockToObjectWALNum
          let floor := numberedFloor (s.volume.disks.backend.numbered.lookup num)
          some { s with gcFloor := some floor, sweep := .floored floor }
        else some { s with sweep := .floored (2 ^ 64 - 1) }
    | _, _ => none
  | .readWatermark =>
    match s.volume.running, s.sweep with
    | some sess, .floored floor =>
      some { s with sweep := .watermarked floor (sess.vb.objectNum % 2 ^ 64) }
    | _, _ => none
  | .select =>
    match s.volume.running, s.sweep with
    | some sess, .watermarked floor watermark =>
      let rc := sess.vb.blocksToObject.gcRefcount.getD ∅
      some { s with sweep := .deleting (sweepCandidates rc floor watermark) }
    | _, _ => none
  | .delete out =>
    match s.volume.running, s.sweep with
    | some sess, .deleting (id :: candidates) =>
      let backend := s.volume.disks.backend
      let deleted :=
        if out.lands then { backend with chunks := backend.chunks.erase id }
        else backend
      -- a chunk whose deletion failed is tried again by the next sweep
      let vb := if out.isOk then forgetChunk sess.vb id else sess.vb
      some (s.update sess vb deleted (.deleting candidates))
    | _, _ => none
  | .finish =>
    match s.volume.running with
    | none => none
    | some _ => some { s with sweep := .idle }

end Steps

section Condition

/-- What an open with these local files loads if there is no live checkpoint. -/
def fallback (files : LocalFiles) (backend : Backend) : List BlockLookup :=
  match selectState files.config backend.config with
  | none => []
  | some c =>
    match files.numbered.lookup c.blockToObjectWALNum with
    | some records => records
    | none => (backend.numbered.lookup c.blockToObjectWALNum).getD []

/-- The files of a node on which the volume was never open. -/
def noFiles : LocalFiles := ⟨none, ∅, []⟩

/-- No chunk that a sweep deletes is named by the checkpoint that an open without the
live one would load, on the node of the engine or on a new node. -/
def KeepsFallback (cfg : Config) (s : State) : Prop :=
  ∀ sess id candidates out t,
    s.volume.running = some sess → s.sweep = .deleting (id :: candidates) →
    step cfg s (.delete out) = some t →
    (∀ rec ∈ fallback (s.volume.disks.nodes sess.node) s.volume.disks.backend, rec.objectID ≠ id) ∧
      ∀ rec ∈ fallback noFiles s.volume.disks.backend, rec.objectID ≠ id

/-- Where the floor is read, the engine is at the number of every `config.json` an open
may go by, neither copy is ahead of the engine, and what the node has of the checkpoint
names no later chunk than what is on the backend. -/
def floorFits (s : State) : Act → Bool
  | .readFloor true =>
    s.gcFloor.isSome || s.volume.running.all fun sess =>
      let files := s.volume.disks.nodes sess.node
      let backend := s.volume.disks.backend
      let num := sess.vb.blockToObjectWALNum
      let next := sess.vb.nextStateSeqNum
      (selectState files.config backend.config).any
          (fun c => c.blockToObjectWALNum == num) &&
        files.config.all (fun c => decide (c.stateSeqNum ≤ next)) &&
        backend.config.all
          (fun c => decide (c.stateSeqNum ≤ next) && c.blockToObjectWALNum == num) &&
        (files.numbered.lookup num).all fun records => records.all fun rec =>
          decide (rec.objectID < numberedFloor (backend.numbered.lookup num))
  | _ => true

end Condition

section Numbers

variable {cfg : Config} {v v' v'' : Volume}

/-- The engine is at the number of every `config.json` an open may go by. -/
structure AtNumber (v : Volume) : Prop where
  numbered : Numbered v.vb.blockToObjectWALNum v
  backend : ∀ c, v.backend.config = some c → c.blockToObjectWALNum = v.vb.blockToObjectWALNum

/-- The number and the numbered checkpoints are as they were. -/
structure KeepsNumber (v v' : Volume) : Prop where
  number : v'.vb.blockToObjectWALNum = v.vb.blockToObjectWALNum
  localNumbered : v'.files.numbered = v.files.numbered
  backendNumbered : v'.backend.numbered = v.backend.numbered
  atNumber : AtNumber v → AtNumber v'

theorem KeepsNumber.trans (hfirst : KeepsNumber v v') (hsecond : KeepsNumber v' v'') :
    KeepsNumber v v'' :=
  ⟨hsecond.number.trans hfirst.number, hsecond.localNumbered.trans hfirst.localNumbered,
    hsecond.backendNumbered.trans hfirst.backendNumbered,
    fun h => hsecond.atNumber (hfirst.atNumber h)⟩

theorem KeepsNumber.of_eq (hnumber : v'.vb.blockToObjectWALNum = v.vb.blockToObjectWALNum)
    (hlocalNumbered : v'.files.numbered = v.files.numbered)
    (hbackendNumbered : v'.backend.numbered = v.backend.numbered)
    (hlocal : v'.files.config = v.files.config) (hbackend : v'.backend.config = v.backend.config)
    (hnext : v'.vb.nextStateSeqNum = v.vb.nextStateSeqNum) :
    KeepsNumber v v' := by
  refine ⟨hnumber, hlocalNumbered, hbackendNumbered, fun h => ⟨?_, ?_⟩⟩
  · rw [hnumber]
    exact h.numbered.of_eq hlocal hbackend hnext
  · rw [hbackend, hnumber]
    exact h.backend

theorem KeepsNumber.of_savesConfig (h : SavesConfig v v') : KeepsNumber v v' := by
  refine ⟨h.number, h.numbered, h.backendNumbered, fun hat => ⟨?_, fun c hc => ?_⟩⟩
  · rw [h.number]
    exact h.numbered_self hat.numbered
  · rw [h.number]
    exact (h.pushes c hc).elim (hat.backend c) id

theorem keepsNumber_saveLiveCheckpoint (cfg : Config) (v : Volume) (out : Outcome) :
    KeepsNumber v (v.saveLiveCheckpoint cfg out).1 := by
  unfold Volume.saveLiveCheckpoint
  cases v.vb.dirty <;> cases out <;> exact KeepsNumber.of_eq rfl rfl rfl rfl rfl rfl

theorem keepsNumber_uploadJobs
    (cfg : Config) (jobs : List (List Block)) (uploads : List ReopenSystem.Upload) (v : Volume) :
    KeepsNumber v (ReopenSystem.uploadJobs cfg jobs uploads v).1 := by
  induction uploads generalizing v with
  | nil => exact KeepsNumber.of_eq rfl rfl rfl rfl rfl rfl
  | cons u uploads ih =>
    have hfirst := savesConfig_createChunkFile cfg v ((jobs[u.job]?).getD []) u.out
    exact (KeepsNumber.of_savesConfig hfirst).trans (ih _)

end Numbers

section Sessions

variable {cfg : Config} {d d' : Disks} {sess sess' : Session}

/-- A step of a session: it stays on its node and at its number. -/
structure SameSession (d : Disks) (sess : Session) (d' : Disks) (sess' : Session) : Prop where
  node : sess'.node = sess.node
  keeps : KeepsNumber (d.volume sess.node sess.vb) (d'.volume sess'.node sess'.vb)

theorem sameSession_put {v : Volume} (hkeeps : KeepsNumber (d.volume sess.node sess.vb) v)
    (hnode : sess'.node = sess.node) (hvb : ∃ store, sess'.vb = { v.vb with blockStore := store }) :
    SameSession d sess (d.put sess.node v) sess' := by
  obtain ⟨store, hvb⟩ := hvb
  refine ⟨hnode, hkeeps.trans ?_⟩
  unfold Disks.volume
  rw [hnode, Disks.put_nodes_self, hvb]
  exact KeepsNumber.of_eq rfl rfl rfl rfl rfl rfl

theorem sameSession_flush (d : Disks) (sess : Session) (count : Nat) :
    SameSession d sess d (sess.flush count) :=
  ⟨rfl, KeepsNumber.of_eq rfl rfl rfl rfl rfl rfl⟩

theorem SameSession.trans {d'' : Disks} {sess'' : Session} (hfirst : SameSession d sess d' sess')
    (hsecond : SameSession d' sess' d'' sess'') :
    SameSession d sess d'' sess'' :=
  ⟨hsecond.node.trans hfirst.node, hfirst.keeps.trans hsecond.keeps⟩

theorem sameSession_write {block : Nat} {data : Bytes} {disk backend : Outcome}
    (hwrite : ReopenSystem.write cfg d sess block data disk backend = (d', sess')) :
    SameSession d sess d' sess' := by
  have hkeeps := KeepsNumber.of_savesConfig
    (savesConfig_reserveSeqNum cfg (d.volume sess.node sess.vb) disk backend 0).1
  unfold ReopenSystem.write at hwrite
  split at hwrite <;>
  · rename_i hreserve
    rw [hreserve] at hkeeps
    cases hwrite
    exact sameSession_put hkeeps rfl ⟨_, rfl⟩

theorem sameSession_writeWALToChunk {run : ReopenSystem.DrainRun} {ok : Bool}
    (hchunk : ReopenSystem.writeWALToChunk cfg d sess run = some (d', sess', ok)) :
    SameSession d sess d' sess' := by
  have hclosed : ∀ left, KeepsNumber (d.volume sess.node sess.vb)
      (ReopenSystem.leaveSegment d sess left) :=
    fun _ => KeepsNumber.of_eq rfl rfl rfl rfl rfl rfl
  unfold ReopenSystem.writeWALToChunk at hchunk
  dsimp only at hchunk
  split at hchunk
  · cases hchunk
    exact sameSession_put (hclosed _) rfl ⟨_, rfl⟩
  · split at hchunk
    · cases hchunk
      exact sameSession_put ((hclosed _).trans (keepsNumber_uploadJobs cfg _ _ _)) rfl
        ⟨_, rfl⟩
    · simp at hchunk

theorem sameSession_drainChunks {run : ReopenSystem.DrainRun}
    (hdrain : ReopenSystem.drainChunks cfg d sess run = some (d', sess')) :
    SameSession d sess d' sess' := by
  unfold ReopenSystem.drainChunks at hdrain
  split at hdrain
  · simp at hdrain
  · rename_i d₁ sess₁ hchunk
    refine (sameSession_writeWALToChunk hchunk).trans ?_
    cases hdrain
    exact sameSession_put (keepsNumber_saveLiveCheckpoint cfg _ _) rfl ⟨_, rfl⟩
  · rename_i hchunk
    cases hdrain
    exact sameSession_writeWALToChunk hchunk

theorem sameSession_step {s t : ReopenSystem.State} {a : ReopenSystem.Act}
    (hs : s.running = some sess) (ht : t.running = some sess')
    :
    ReopenSystem.step cfg s a = some t → SameSession s.disks sess t.disks sess' := by
  fun_cases ReopenSystem.step cfg s a <;> rintro ⟨⟩
  case case14 n =>
    have hn : sess.node ≠ n ∧ sess = sess' := by
      by_cases hnode : sess.node = n
      · simp [Option.filter, hs, hnode] at ht
      · simpa [Option.filter, hs, hnode] using ht
    obtain ⟨hnode, rfl⟩ := hn
    refine ⟨rfl, ?_⟩
    have hfiles : (s.disks.lose n).nodes sess.node = s.disks.nodes sess.node :=
      Function.update_of_ne hnode _ _
    unfold Disks.volume
    rw [hfiles]
    exact KeepsNumber.of_eq rfl rfl rfl rfl rfl rfl
  -- a closed engine runs no more, and one that runs is not reopened
  case case20 | case12 | case17 | case18 => first | cases ht | cases hs.symm.trans ‹_›
  all_goals
    cases hs.symm.trans ‹s.running = _›
    cases ht
  · exact sameSession_write ‹_›
  · exact sameSession_flush s.disks sess _
  · rename_i hdrain
    unfold ReopenSystem.drain at hdrain
    split at hdrain
    · exact (sameSession_flush _ _ _).trans (sameSession_drainChunks hdrain)
    · cases hdrain
      exact sameSession_flush _ _ _
  · exact sameSession_put (.of_savesConfig (savesConfig_saveState cfg _ _ _)) rfl ⟨_, rfl⟩

end Sessions

section Safety

variable {cfg : Config} {s t : State} {sess : Session} {floor id : Nat}

/-- The floor is past every chunk of the checkpoint with the engine's number. -/
structure FloorCovers (d : Disks) (sess : Session) (floor : Nat) : Prop where
  atNumber : AtNumber (d.volume sess.node sess.vb)
  local_lt : ∀ records,
    (d.nodes sess.node).numbered.lookup sess.vb.blockToObjectWALNum = some records →
      ∀ rec ∈ records, rec.objectID < floor
  backend_lt : ∀ records, d.backend.numbered.lookup sess.vb.blockToObjectWALNum = some records →
      ∀ rec ∈ records, rec.objectID < floor

theorem FloorCovers.of_sameSession {d d' : Disks} {sess' : Session} (h : FloorCovers d sess floor)
    (hsame : SameSession d sess d' sess') :
    FloorCovers d' sess' floor := by
  have hnumber : sess'.vb.blockToObjectWALNum = sess.vb.blockToObjectWALNum :=
    hsame.keeps.number
  have hlocal : (d'.nodes sess'.node).numbered = (d.nodes sess.node).numbered :=
    hsame.keeps.localNumbered
  have hbackend : d'.backend.numbered = d.backend.numbered :=
    hsame.keeps.backendNumbered
  refine ⟨hsame.keeps.atNumber h.atNumber, ?_, ?_⟩
  · rw [hnumber, hlocal]
    exact h.local_lt
  · rw [hnumber, hbackend]
    exact h.backend_lt

/-- What an open would load without the live checkpoint is below the floor. -/
theorem FloorCovers.fallback_lt {d : Disks} (h : FloorCovers d sess floor) :
    (∀ rec ∈ fallback (d.nodes sess.node) d.backend, rec.objectID < floor) ∧
      ∀ rec ∈ fallback noFiles d.backend, rec.objectID < floor := by
  have hremote : ∀ rec ∈ (d.backend.numbered.lookup sess.vb.blockToObjectWALNum).getD [],
      rec.objectID < floor := by
    intro rec hrec
    cases hrecords : d.backend.numbered.lookup sess.vb.blockToObjectWALNum with
    | none => simp [hrecords] at hrec
    | some records =>
      rw [hrecords] at hrec
      exact h.backend_lt records hrecords rec hrec
  constructor
  · obtain ⟨c, hc, hnum⟩ := h.atNumber.numbered.exists_selected
    have hselect : selectState (d.nodes sess.node).config d.backend.config = some c := hc
    have hnum : c.blockToObjectWALNum = sess.vb.blockToObjectWALNum := hnum
    unfold fallback
    simp only [hselect]
    rw [hnum]
    cases hrecords : (d.nodes sess.node).numbered.lookup sess.vb.blockToObjectWALNum with
    | none => exact hremote
    | some records => exact h.local_lt records hrecords
  · unfold fallback
    cases hc : d.backend.config with
    | none => simp [noFiles, selectState, newerCopy]
    | some c =>
      have hnum : c.blockToObjectWALNum = sess.vb.blockToObjectWALNum :=
        h.atNumber.backend c hc
      simp only [noFiles, selectState, newerCopy, AList.lookup_empty]
      rw [hnum]
      exact hremote

/-- The floor of a sweep that goes on: it covers, or no chunk is past it. -/
def Usable (d : Disks) (sess : Session) (floor : Nat) : Prop :=
  FloorCovers d sess floor ∨ floor = 2 ^ 64 - 1

/-- What a sweep has found out so far. -/
def SweepCovers (d : Disks) (sess : Session) : Sweep → Prop
  | .idle | .reconciled => True
  | .floored floor => Usable d sess floor
  | .watermarked floor watermark => Usable d sess floor ∧ watermark < 2 ^ 64
  | .deleting candidates => ∀ id ∈ candidates, ∃ floor ≤ id, FloorCovers d sess floor

/-- The invariant of runs. -/
structure Inv (s : State) : Prop where
  floor : ∀ sess floor, s.volume.running = some sess → s.gcFloor = some floor →
    FloorCovers s.volume.disks sess floor
  sweep : ∀ sess, s.volume.running = some sess → SweepCovers s.volume.disks sess s.sweep

theorem SweepCovers.of_sameSession {d d' : Disks} {sess' : Session} {sweep : Sweep}
    (h : SweepCovers d sess sweep) (hsame : SameSession d sess d' sess') :
    SweepCovers d' sess' sweep := by
  have husable : ∀ floor, Usable d sess floor → Usable d' sess' floor :=
    fun _ => Or.imp_left fun hcovers => hcovers.of_sameSession hsame
  cases sweep with
  | idle | reconciled =>
    trivial
  | floored floor => exact husable floor h
  | watermarked floor watermark => exact ⟨husable floor h.1, h.2⟩
  | deleting candidates =>
    intro id hid
    obtain ⟨floor, hle, hcovers⟩ := h id hid
    exact ⟨floor, hle, hcovers.of_sameSession hsame⟩

theorem Inv.update {vb : VB} {backend : Backend} {sweep : Sweep} (h : Inv s)
    (hs : s.volume.running = some sess)
    (hkeeps : KeepsNumber (s.volume.disks.volume sess.node sess.vb) ⟨vb, s.volume.disks.nodes
      sess.node, backend⟩) (hsweep : SweepCovers s.volume.disks sess sweep) :
    Inv (s.update sess vb backend sweep) := by
  have hsame : SameSession s.volume.disks sess
      { s.volume.disks with backend := backend } { sess with vb := vb } :=
    ⟨rfl, hkeeps⟩
  constructor
  · intro sess' floor hsess' hfloor
    cases hsess'
    exact (h.floor sess floor hs hfloor).of_sameSession hsame
  · intro sess' hsess'
    cases hsess'
    exact hsweep.of_sameSession hsame

theorem lt_numberedFloor {records : List BlockLookup} {rec : BlockLookup} (hrec : rec ∈ records) :
    rec.objectID < numberedFloor (some records) :=
  (lt_raiseObjectNum 0 records).2 rec hrec

theorem floorCovers_of_fits (hs : s.volume.running = some sess) (hnone : s.gcFloor = none)
    (hfits : floorFits s (.readFloor true) = true) :
    FloorCovers s.volume.disks sess
      (numberedFloor
        (s.volume.disks.backend.numbered.lookup sess.vb.blockToObjectWALNum)) := by
  simp only [floorFits, hnone, hs, Option.isSome_none, Bool.false_or, Option.all_some,
    Bool.and_eq_true] at hfits
  obtain ⟨⟨⟨hselected, hlocal⟩, hbackend⟩, hrecords⟩ := hfits
  rw [Option.any_eq_true] at hselected
  obtain ⟨c, hc, hnum⟩ := hselected
  refine ⟨⟨⟨⟨c, hc, eq_of_beq hnum⟩, ?_, ?_⟩, ?_⟩, ?_, ?_⟩
  · intro c' hc'
    have hlocal' : (s.volume.disks.nodes sess.node).config = some c' := hc'
    rw [hlocal', Option.all_some, decide_eq_true_eq] at hlocal
    exact hlocal
  · intro c' hc'
    have hbackend' : s.volume.disks.backend.config = some c' := hc'
    rw [hbackend', Option.all_some, Bool.and_eq_true, decide_eq_true_eq] at hbackend
    exact hbackend.1
  · intro c' hc'
    have hbackend' : s.volume.disks.backend.config = some c' := hc'
    rw [hbackend', Option.all_some, Bool.and_eq_true] at hbackend
    exact eq_of_beq hbackend.2
  · intro records hlookup rec hrec
    rw [hlookup, Option.all_some] at hrecords
    exact of_decide_eq_true (List.all_eq_true.mp hrecords rec hrec)
  · intro records hlookup rec hrec
    rw [hlookup]
    exact lt_numberedFloor hrec

/-- Every step that meets the condition keeps the invariant. -/
theorem Inv.step {a : Act} (h : Inv s) (hfits : floorFits s a = true)
    :
    step cfg s a = some t → Inv t := by
  fun_cases GcFloor.step cfg s a <;> rintro ⟨⟩
  · rename_i volume hvolume hboth
    rw [Bool.and_eq_true, Option.isSome_iff_exists] at hboth
    obtain ⟨⟨sess, hs⟩, -⟩ := hboth
    constructor
    · intro sess' floor hsess' hfloor
      exact (h.floor sess floor hs hfloor).of_sameSession
        (sameSession_step hs hsess' hvolume)
    · intro sess' hsess'
      exact (h.sweep sess hs).of_sameSession (sameSession_step hs hsess' hvolume)
  · exact ⟨by simp, fun _ _ => trivial⟩
  · exact h.update ‹_› (KeepsNumber.of_eq rfl rfl rfl rfl rfl rfl) trivial
  · rename_i sess _ hs _ _ _
    have hinv : Inv (s.update sess
        (trackChunks sess.vb s.volume.disks.backend.chunks.keys)
        s.volume.disks.backend .reconciled) :=
      h.update hs (KeepsNumber.of_eq rfl rfl rfl rfl rfl rfl) trivial
    exact ⟨hinv.floor, hinv.sweep⟩
  · exact ⟨h.floor, fun sess' hsess' => .inl (h.floor sess' _ hsess' ‹_›)⟩
  · rename_i sess _ hs hnone _ _
    have hcovers := floorCovers_of_fits hs hnone hfits
    constructor
    · intro sess' floor hsess' hfloor
      obtain rfl : sess = sess' := Option.some.inj (hs.symm.trans hsess')
      cases hfloor
      exact hcovers
    · intro sess' hsess'
      obtain rfl : sess = sess' := Option.some.inj (hs.symm.trans hsess')
      exact .inl hcovers
  · exact ⟨h.floor, fun _ _ => .inr rfl⟩
  · rename_i sess floor hfloored hs
    refine ⟨h.floor, fun sess' hsess' => ⟨?_, Nat.mod_lt _ (by decide)⟩⟩
    have hsweep := h.sweep sess' hsess'
    rw [hfloored] at hsweep
    exact hsweep
  · rename_i sess floor watermark hmarked hs _
    refine ⟨h.floor, fun sess' hsess' => ?_⟩
    obtain rfl : sess = sess' := Option.some.inj (hs.symm.trans hsess')
    have hsweep := h.sweep sess hs
    rw [hmarked] at hsweep
    obtain ⟨husable, hwatermark⟩ := hsweep
    intro id hid
    obtain ⟨-, hle, hlt⟩ := GcSystem.mem_sweepCandidates_iff.mp hid
    rcases husable with hcovers | hmax
    · exact ⟨floor, hle, hcovers⟩
    · omega
  · rename_i out sess id candidates hdeleting hs _ _ _
    have hsweep := h.sweep sess hs
    rw [hdeleting] at hsweep
    refine h.update hs ?_ fun id' hid' => hsweep id' (List.mem_cons_of_mem _ hid')
    cases out <;> exact KeepsNumber.of_eq rfl rfl rfl rfl rfl rfl
  · exact ⟨h.floor, fun _ _ => trivial⟩

/-- In every state of a run in which the floor is only read where it fits, a sweep
spares the chunks of the checkpoint that an open without the live one would load. -/
theorem sweep_keeps_fallback {acts : List Act} (hrest : s.volume.running = none)
    (hrun : Run (step cfg) (fun s a => floorFits s a = true) s acts t) :
    KeepsFallback cfg t := by
  have hinv : Inv t := hrun.preserves (fun _ _ _ => Inv.step)
    ⟨by simp [hrest], by simp [hrest]⟩
  intro sess id candidates out u hsess hdeleting _
  have hsweep := hinv.sweep sess hsess
  rw [hdeleting] at hsweep
  obtain ⟨floor, hle, hcovers⟩ := hsweep id List.mem_cons_self
  obtain ⟨hnode, hnew⟩ := hcovers.fallback_lt
  constructor
  · intro rec hrec heq
    have hlt := hnode rec hrec
    omega
  · intro rec hrec heq
    have hlt := hnew rec hrec
    omega

end Safety

section Runs

/-- A new volume. -/
def start : State := ⟨ReopenSystem.created ⟨0, 0, 0, false, 0, 1⟩, false, none, .idle⟩

def opening : ReopenSystem.OpenRun :=
  ⟨true, .ok, .ok, allOk, true, ⟨"wal.00000001.bin", 0, []⟩⟩

def draining : ReopenSystem.DrainRun := ⟨1, [⟨0, .ok⟩], .ok, ⟨"wal.00000002.bin", 0, []⟩⟩

/-- Write block 0 and drain it. -/
def overwrite (data : UInt8) : List Act :=
  [.engine (.write 0 [data] .ok .ok), .engine (.drain draining)]

def sweeping : List Act := [.reconcile true, .readFloor true, .readWatermark, .select]

/-- A session that shuts down cleanly, and one that overwrites its block twice. -/
def sweptAfterShutdown : List Act :=
  [.engine (.reopen 0 opening), .engine (.write 0 [1] .ok .ok),
    .engine (.close draining .ok .ok .ok .ok true), .engine (.reopen 0 opening)] ++
    overwrite 2 ++ overwrite 3 ++ sweeping

/-- Some record names the chunk. -/
def names (records : List BlockLookup) (id : Nat) : Bool :=
  records.any fun rec => rec.objectID == id

/-- The chunk of the numbered checkpoint is spared, the one after it is deleted. -/
theorem spares_numbered_after_shutdown :
    ∃ t, Run (step Config.tiny) (fun s a => floorFits s a = true) start sweptAfterShutdown
        t ∧
      t.sweep = .deleting [1] ∧ names (fallback noFiles t.volume.disks.backend) 0 = true ∧
      KeepsFallback Config.tiny t := by
  obtain ⟨t, hrun, ht⟩ := Run.exists_of_exec (step Config.tiny)
    (fun s a => floorFits s a = true) start sweptAfterShutdown
    (fun t => decide (t.sweep = .deleting [1]) &&
      names (fallback noFiles t.volume.disks.backend) 0)
    (by decide +kernel)
  rw [Bool.and_eq_true, decide_eq_true_eq] at ht
  exact ⟨t, hrun, ht.1, ht.2, sweep_keeps_fallback rfl hrun⟩

/-- A session that crashes, and one that recovers its block and overwrites it. -/
def sweptAfterRecovery : List Act :=
  [.engine (.reopen 0 opening), .engine (.write 0 [1] .ok .ok), .engine (.flush 1),
    .engine (.crash 1 []), .engine (.reopen 0 opening)] ++ overwrite 2 ++ sweeping

/-- After a recovery the sweep deletes the chunk of the numbered checkpoint that the
recovery has just saved. -/
theorem deletes_numbered_after_recovery :
    ∃ t, Run (step Config.tiny) (fun _ _ => True) start sweptAfterRecovery t ∧
      t.sweep = .deleting [0] ∧ names (fallback noFiles t.volume.disks.backend) 0 = true ∧
      ¬ KeepsFallback Config.tiny t := by
  obtain ⟨t, hrun, ht⟩ := Run.exists_of_exec (step Config.tiny) (fun _ _ => True) start
    sweptAfterRecovery
    (fun t => decide (t.sweep = .deleting [0]) && t.volume.running.isSome &&
      names (fallback noFiles t.volume.disks.backend) 0)
    (by decide +kernel)
  simp only [Bool.and_eq_true, decide_eq_true_eq, Option.isSome_iff_exists] at ht
  obtain ⟨⟨hsweep, sess, hsess⟩, hnames⟩ := ht
  refine ⟨t, hrun, hsweep, hnames, fun hkeeps => ?_⟩
  have hstep : (step Config.tiny t (.delete .ok)).isSome := by
    simp only [step, hsess, hsweep]
    rfl
  obtain ⟨u, hu⟩ := Option.isSome_iff_exists.mp hstep
  obtain ⟨rec, hrec, hid⟩ := List.any_eq_true.mp hnames
  exact (hkeeps sess 0 [] .ok u hsess hsweep hu).2 rec hrec (eq_of_beq hid)

end Runs

end GcFloor

end Viperblock
