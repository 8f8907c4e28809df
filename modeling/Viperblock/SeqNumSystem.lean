import Mathlib.Algebra.Order.Ring.Nat
import Mathlib.Data.List.AList
import Viperblock.Config
import Viperblock.Lib.GuardedRun

/-!
# Reserving sequence numbers on an encrypted volume

A sequence number seeds the nonce of a sealed block, so no number may be
handed out twice in the life of a volume.  `reserveSeqNum` hands out numbers
below a high-water mark that is persisted in `config.json` before it is
published, and `LoadState` restarts the counter at the persisted mark.

The step system interleaves `reserveSeqNum`, `SaveState` (which
`CreateSnapshot` calls as well), `EnsureVolumeUUID`, crashes and `LoadState`,
one atomic operation or one critical section a step.  The counters are 64 bits
wide; the loops that raise the mark by whole windows are given by their result.
-/

namespace Viperblock

namespace SeqNumSystem

open GuardedRun

/-- Size of one reservation window. -/
def seqNumReservation : Nat := 2 ^ 20

/-- The numbers `start + 1` up to `start + n`. -/
structure Range where
  start : Nat
  n : Nat
deriving DecidableEq

namespace Range

/-- The last number of the range, as 64-bit addition computes it. -/
def last (r : Range) : Nat :=
  (r.start + r.n) % 2 ^ 64

/-- The two ranges share no number. -/
def Apart (r other : Range) : Prop :=
  r.start + r.n ≤ other.start ∨ other.start + other.n ≤ r.start

instance (r other : Range) : Decidable (r.Apart other) :=
  inferInstanceAs (Decidable (_ ∨ _))

theorem Apart.symm {r other : Range} (h : r.Apart other) :
    other.Apart r :=
  Or.symm h

end Range

/-- Raise `hw` by whole windows until it reaches `target`. -/
def raiseWindows (hw target : Nat) : Nat :=
  hw + (target - hw + (seqNumReservation - 1)) / seqNumReservation * seqNumReservation

section Windows

theorem raiseWindows_le (hw target : Nat) :
    hw ≤ raiseWindows hw target := by
  unfold raiseWindows
  omega

theorem le_raiseWindows (hw target : Nat) :
    target ≤ raiseWindows hw target := by
  unfold raiseWindows seqNumReservation
  omega

/-- The closed form satisfies the equation of the loop. -/
theorem raiseWindows_loop (hw target : Nat) :
    raiseWindows hw target =
      if hw < target then raiseWindows (hw + seqNumReservation) target else hw := by
  unfold raiseWindows seqNumReservation
  split <;> omega

theorem reservation_le_raiseWindows {hw target : Nat} (hlt : hw < target) :
    seqNumReservation ≤ raiseWindows hw target := by
  rw [raiseWindows_loop, if_pos hlt]
  have := raiseWindows_le (hw + seqNumReservation) target
  omega

end Windows

/-- Progress of one call. -/
inductive Call
  /-- `reserveSeqNum` has added to the counter. -/
  | added (r : Range)
  /-- It found the range above the published mark. -/
  | slow (r : Range)
  /-- It holds `seqNumHighWaterMu`. -/
  | locked (r : Range)
  | persisting (r : Range) (hw : Nat)
  | publishing (r : Range) (hw : Nat)
  /-- `SaveState` has minted the UUID and not yet published a mark. -/
  | saveMinted
  | saveReading
  | savePersisting (hw : Nat)
  | ensureWaiting
  | ensurePersisting (hw : Nat)
  | ensurePublishing (hw : Nat)
deriving DecidableEq

namespace Call

/-- The call is inside the critical section of `seqNumHighWaterMu`. -/
def holdsMutex : Call → Bool
  | .locked _ | .persisting _ _ | .publishing _ _ => true
  | .ensurePersisting _ | .ensurePublishing _ => true
  | _ => false

/-- The range the call is going to return. -/
def range : Call → Option Range
  | .added r | .slow r | .locked r => some r
  | .persisting r _ | .publishing r _ => some r
  | _ => none

/-- The mark the call is going to persist or has persisted. -/
def mark : Call → Option Nat
  | .persisting _ hw | .publishing _ hw => some hw
  | .ensurePersisting hw | .ensurePublishing hw => some hw
  | _ => none

end Call

inductive Mode
  | running
  /-- `LoadState` has installed the persisted mark and not yet bumped it. -/
  | loading
  | down
deriving DecidableEq

/-- What the local `config.json` says. -/
structure StateFile where
  seqNumHighWater : Nat
  volumeUUID : Bool
deriving DecidableEq

structure SeqState where
  mode : Mode
  seqNum : Nat
  seqNumHighWater : Nat
  /-- The UUID is minted. -/
  volumeUUID : Bool
  /-- Holder of `seqNumHighWaterMu`. -/
  mutex : Option Nat
  config : Option StateFile
  calls : AList fun _ : Nat => Call
  /-- Every range ever returned. -/
  issued : List Range

/-- The durable high-water mark. -/
def durable (s : SeqState) : Nat :=
  match s.config with
  | some file => file.seqNumHighWater
  | none => 0

inductive Act
  | reserve (call n : Nat)
  | check (call : Nat)
  | lock (call : Nat)
  | recheck (call : Nat)
  | persist (call : Nat) (ok landed : Bool)
  | publish (call : Nat)
  | save (call : Nat)
  | store (call : Nat)
  | read (call : Nat)
  | ensure (call : Nat)
  | ensureLock (call : Nat)
  | crash
  | load
  | bump (ok landed : Bool)

section

variable (s : SeqState)

/-- The call goes on with `next`. -/
def setCall (call : Nat) (next : Call) : SeqState :=
  { s with calls := s.calls.insert call next }

/-- The call returns. -/
def endCall (call : Nat) : SeqState :=
  { s with calls := s.calls.erase call }

/-- The call leaves the critical section and returns. -/
def unlockCall (call : Nat) : SeqState :=
  { s with mutex := none, calls := s.calls.erase call }

/-- The range is handed out. -/
def issue (r : Range) : SeqState :=
  { s with issued := r :: s.issued }

/-- `persistStateLocal`; a failed one may have renamed the file nevertheless. -/
def persistState (hw : Nat) (ok landed : Bool) : SeqState :=
  if ok || landed then { s with config := some ⟨hw, s.volumeUUID⟩ } else s

def step : Act → Option SeqState
  | .reserve call n =>
    if s.mode = .running ∧ s.calls.lookup call = none then
      some (setCall { s with seqNum := (s.seqNum + n) % 2 ^ 64 } call
        (.added ⟨s.seqNum, n⟩))
    else none
  | .check call =>
    match s.calls.lookup call with
    | some (.added r) =>
      if maxSeqNum < r.last then some (endCall s call)
      else if r.last ≤ s.seqNumHighWater then some (issue (endCall s call) r)
      else some (setCall s call (.slow r))
    | _ => none
  | .lock call =>
    match s.calls.lookup call, s.mutex with
    | some (.slow r), none =>
      some (setCall { s with mutex := some call } call (.locked r))
    | _, _ => none
  | .recheck call =>
    match s.calls.lookup call with
    | some (.locked r) =>
      if r.last ≤ s.seqNumHighWater then some (issue (unlockCall s call) r)
      else
        some (setCall { s with volumeUUID := true } call
          (.persisting r (raiseWindows s.seqNumHighWater r.last)))
    | _ => none
  | .persist call ok landed =>
    match s.calls.lookup call with
    | some (.persisting r hw) =>
      let persisted := persistState s hw ok landed
      if ok then some (setCall persisted call (.publishing r hw))
      else some (unlockCall persisted call)
    | some (.savePersisting hw) =>
      some (endCall (persistState s hw ok landed) call)
    | some (.ensurePersisting hw) =>
      let persisted := persistState s hw ok landed
      if ok then some (setCall persisted call (.ensurePublishing hw))
      else some (unlockCall persisted call)
    | _ => none
  | .publish call =>
    match s.calls.lookup call with
    | some (.publishing r hw) =>
      some (issue (unlockCall { s with seqNumHighWater := hw } call) r)
    | some (.ensurePublishing hw) =>
      some (unlockCall { s with seqNumHighWater := hw } call)
    | _ => none
  | .save call =>
    if s.mode = .running ∧ s.calls.lookup call = none then
      if s.volumeUUID then some (setCall s call .saveReading)
      else some (setCall { s with volumeUUID := true } call .saveMinted)
    else none
  | .store call =>
    match s.calls.lookup call with
    | some .saveMinted =>
      -- published before it is persisted
      some (setCall { s with seqNumHighWater := seqNumReservation } call
        .saveReading)
    | _ => none
  | .read call =>
    match s.calls.lookup call with
    | some .saveReading =>
      some (setCall s call (.savePersisting s.seqNumHighWater))
    | _ => none
  | .ensure call =>
    if s.mode = .running ∧ s.calls.lookup call = none ∧ s.volumeUUID = false then
      some (setCall s call .ensureWaiting)
    else none
  | .ensureLock call =>
    match s.calls.lookup call, s.mutex with
    | some .ensureWaiting, none =>
      if s.volumeUUID then some (endCall s call)
      else
        some (setCall { s with volumeUUID := true, mutex := some call } call
          (.ensurePersisting
            (raiseWindows (max s.seqNumHighWater seqNumReservation) s.seqNum)))
    | _, _ => none
  | .crash =>
    some { s with
      mode := .down, seqNum := 0, seqNumHighWater := 0, volumeUUID := false
      mutex := none, calls := ∅ }
  | .load =>
    if s.mode = .down then
      match s.config with
      | none => some { s with mode := .running }
      | some file =>
        some { s with
          mode := .loading
          seqNum := file.seqNumHighWater
          seqNumHighWater := file.seqNumHighWater
          volumeUUID := file.volumeUUID }
    else none
  | .bump ok landed =>
    if s.mode = .loading then
      let hw := (s.seqNumHighWater + seqNumReservation) % 2 ^ 64
      let persisted := persistState s hw ok landed
      if ok then some { persisted with mode := .running, seqNumHighWater := hw }
      else
        some { persisted with
          mode := .down, seqNum := 0, seqNumHighWater := 0, volumeUUID := false }
    else none

end

/-- A volume nobody has open, with the given `config.json`. -/
def atRest (config : Option StateFile) : SeqState where
  mode := .down
  seqNum := 0
  seqNumHighWater := 0
  volumeUUID := false
  mutex := none
  config := config
  calls := ∅
  issued := []

end SeqNumSystem

end Viperblock
