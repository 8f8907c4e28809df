import Viperblock.Volume

/-!
# Sealing metadata from several engines

On an encrypted volume `config.json` and the metadata of snapshots are sealed.
The nonce of such a seal is made of the volume's UUID, the domain and a state
number, which an engine takes from a counter in its memory: one number for every
`config.json` it saves and one for every snapshot.  `LoadState` sets the counter
to the number of the `config.json` it selects and saves at once.

Engines on the same volume share the two copies of `config.json` and nothing
else, so a counter may fall behind: another engine saves, or an engine goes down
before the last `config.json` it sealed is on the disk.  `numbersInOrder` is the
condition that no number is taken from a counter that is behind.

One step is one critical section: taking a number and sealing, the write of the
local file, the push to the backend, the seal of a snapshot.
-/

namespace Viperblock

namespace MetaSeals

open GuardedRun
open SeqNumSystem (seqNumReservation raiseWindows)

/-- What `config.json` says, as far as it changes. -/
structure StateFile where
  seqNum : Nat
  objectNum : Nat
  seqNumHighWater : Nat
  /-- Zero if it is not minted. -/
  volumeUUID : Nat
  stateSeqNum : Nat
deriving DecidableEq

/-- What a snapshot records before its metadata is sealed. -/
structure SnapshotInfo where
  snapshotID : String
  seqNum : Nat
  objectNum : Nat
  stateSeqNum : Nat
deriving DecidableEq

inductive Domain
  | vbStateMeta
  | snapshotMeta
deriving DecidableEq

/-- What is sealed. -/
inductive Payload
  | vbState (state : StateFile)
  | snapshot (info : SnapshotInfo) (sourceVolumeUUID : Nat)
deriving DecidableEq

namespace Payload

def stateSeqNum : Payload → Nat
  | .vbState state => state.stateSeqNum
  | .snapshot info _ => info.stateSeqNum

/-- State number, UUID and domain the seal is made under. -/
def nonce : Payload → Nat × Nat × Domain
  | .vbState state => (state.stateSeqNum, state.volumeUUID, .vbStateMeta)
  | .snapshot info sourceVolumeUUID =>
    (info.stateSeqNum, sourceVolumeUUID, .snapshotMeta)

end Payload

/-- What a call saves the state for. -/
inductive Purpose
  | saveState
  | reserveSeqNum
  | loadState
  | createSnapshot (info : SnapshotInfo)
deriving DecidableEq

inductive Stage
  /-- It is about to save the state with a mark. -/
  | persisting (highWater : Nat)
  /-- It has sealed the state and holds `saveStateMu`. -/
  | writing (state : StateFile)
  | pushing (state : StateFile)
  /-- The state of a snapshot is saved; its metadata is sealed next. -/
  | sealing
deriving DecidableEq

structure Call where
  purpose : Purpose
  stage : Stage
deriving DecidableEq

/-- The memory of an engine, with the calls in progress. -/
structure Memory where
  seqNum : Nat
  objectNum : Nat
  seqNumHighWater : Nat
  volumeUUID : Nat
  nextStateSeqNum : Nat
  calls : AList fun _ : Nat => Call

namespace Memory

/-- An engine that has loaded nothing. -/
def new : Memory := ⟨0, 0, 0, 0, 0, ∅⟩

section

variable (m : Memory)

def setCall (c : Nat) (call : Call) : Memory :=
  { m with calls := m.calls.insert c call }

def endCall (c : Nat) : Memory :=
  { m with calls := m.calls.erase c }

/-- A call holds `saveStateMu`. -/
def saving : Bool :=
  m.calls.entries.any fun entry =>
    match entry.2.stage with
    | .writing _ => true
    | _ => false

/-- The state as the next save seals it. -/
def stateToSave (highWater : Nat) : StateFile where
  seqNum := m.seqNum
  objectNum := m.objectNum
  seqNumHighWater := highWater
  volumeUUID := m.volumeUUID
  stateSeqNum := m.nextStateSeqNum + 1

def mintVolumeUUID (rand : Nat) : Memory :=
  { m with volumeUUID := if m.volumeUUID = 0 then rand else m.volumeUUID }

/-- `SaveState` up to the save: mint a missing UUID and reset the mark with it. -/
def beginSave (c : Nat) (purpose : Purpose) (rand : Nat) : Memory :=
  let highWater := if m.volumeUUID = 0 then seqNumReservation else m.seqNumHighWater
  { m.mintVolumeUUID rand with seqNumHighWater := highWater }.setCall c
    ⟨purpose, .persisting highWater⟩

/-- A mark that was saved for a reservation is published. -/
def publish (purpose : Purpose) (highWater : Nat) : Memory :=
  match purpose with
  | .reserveSeqNum | .loadState => { m with seqNumHighWater := highWater }
  | _ => m

end

end Memory

structure State where
  /-- The local copy of `config.json`. -/
  config : Option StateFile
  backend : Option StateFile
  engines : AList fun _ : Nat => Memory
  /-- Everything that was ever sealed. -/
  seals : List Payload

inductive Act
  | start (e : Nat)
  | crash (e : Nat)
  | upload (e : Nat)
  | reserveSeqNum (e c n rand : Nat)
  | loadState (e c : Nat) (readable : Bool)
  | saveState (e c rand : Nat)
  | createSnapshot (e c : Nat) (snapshotID : String) (rand : Nat)
  | persist (e c : Nat)
  | write (e c : Nat) (out : Outcome)
  | push (e c : Nat) (out : Outcome)
  | sealSnapshot (e c : Nat)

/-- Number of a copy of `config.json`; without one a counter starts at zero. -/
def generation : Option StateFile → Nat
  | none => 0
  | some file => file.stateSeqNum

/-- The copy an open goes by. -/
def selectState : Option StateFile → Option StateFile → Option StateFile :=
  newerCopy StateFile.stateSeqNum

namespace State

def setMemory (s : State) (e : Nat) (m : Memory) : State :=
  { s with engines := s.engines.insert e m }

/-- The higher of the numbers of the two copies. -/
def inForce (s : State) : Nat :=
  max (generation s.config) (generation s.backend)

/-- The counters of all running engines are at most `n`. -/
def countersAtMost (s : State) (n : Nat) : Bool :=
  s.engines.entries.all fun entry => entry.2.nextStateSeqNum ≤ n

/-- The counter of the engine is behind no other counter and no `config.json`. -/
def leads (s : State) (e : Nat) : Bool :=
  match s.engines.lookup e with
  | none => true
  | some m => s.inForce ≤ m.nextStateSeqNum && s.countersAtMost m.nextStateSeqNum

/-- Losing the counter of the engine loses no number. -/
def expendable (s : State) (e : Nat) : Bool :=
  match s.engines.lookup e with
  | none => true
  | some m =>
    m.nextStateSeqNum ≤ s.inForce ||
      s.engines.entries.any fun entry =>
        entry.1 != e && decide (m.nextStateSeqNum ≤ entry.2.nextStateSeqNum)

end State

/-- Memory of an engine after `LoadState` took over a state. -/
def installState (m : Memory) (c : Nat) (file : StateFile) : Memory :=
  { m with
    seqNum := file.seqNumHighWater
    objectNum := file.objectNum
    seqNumHighWater := file.seqNumHighWater
    volumeUUID := file.volumeUUID
    nextStateSeqNum := file.stateSeqNum }.setCall c
    ⟨.loadState, .persisting (file.seqNumHighWater + seqNumReservation)⟩

/-- `reserveSeqNum` on the fast path, or up to the save on the slow one. -/
def reserve (m : Memory) (c n rand : Nat) : Memory :=
  let seqNum := m.seqNum + n
  let added := { m with seqNum := seqNum }
  if maxSeqNum < seqNum then added
  else if seqNum ≤ m.seqNumHighWater then added
  else
    (added.mintVolumeUUID rand).setCall c
      ⟨.reserveSeqNum, .persisting (raiseWindows m.seqNumHighWater seqNum)⟩

/-- `CreateSnapshot` takes its number before it saves the state. -/
def beginSnapshot (m : Memory) (c : Nat) (snapshotID : String) (rand : Nat) : Memory :=
  let info : SnapshotInfo := ⟨snapshotID, m.seqNum, m.objectNum, m.nextStateSeqNum + 1⟩
  { m with nextStateSeqNum := m.nextStateSeqNum + 1 }.beginSave c (.createSnapshot info) rand

/-- Where a call goes once its state is pushed. -/
def afterPush (m : Memory) (c : Nat) (purpose : Purpose) (out : Outcome) : Memory :=
  match purpose with
  | .createSnapshot info =>
    if out.isOk then m.setCall c ⟨.createSnapshot info, .sealing⟩ else m.endCall c
  | _ => m.endCall c

def step (s : State) : Act → Option State
  | .start e =>
    match s.engines.lookup e with
    | none => some (s.setMemory e Memory.new)
    | some _ => none
  | .crash e => some { s with engines := s.engines.erase e }
  | .upload e =>
    match s.engines.lookup e with
    | none => none
    | some m => some (s.setMemory e { m with objectNum := m.objectNum + 1 })
  | .reserveSeqNum e c n rand =>
    match s.engines.lookup e with
    | none => none
    | some m =>
      if m.calls.lookup c = none then some (s.setMemory e (reserve m c n rand))
      else none
  | .loadState e c readable =>
    match s.engines.lookup e with
    | none => none
    | some m =>
      if m.calls.lookup c = none then
        match selectState s.config (if readable then s.backend else none) with
        | none => some s
        | some file => some (s.setMemory e (installState m c file))
      else none
  | .saveState e c rand =>
    match s.engines.lookup e with
    | none => none
    | some m =>
      if m.calls.lookup c = none then
        some (s.setMemory e (m.beginSave c .saveState rand))
      else none
  | .createSnapshot e c snapshotID rand =>
    match s.engines.lookup e with
    | none => none
    | some m =>
      if m.calls.lookup c = none then
        some (s.setMemory e (beginSnapshot m c snapshotID rand))
      else none
  | .persist e c =>
    match s.engines.lookup e with
    | none => none
    | some m =>
      match m.calls.lookup c with
      | some ⟨purpose, .persisting highWater⟩ =>
        if m.saving then none
        else
          let state := m.stateToSave highWater
          some
            { s.setMemory e
                ({ m with nextStateSeqNum := state.stateSeqNum }.setCall c
                  ⟨purpose, .writing state⟩) with
              seals := .vbState state :: s.seals }
      | _ => none
  | .write e c out =>
    match s.engines.lookup e with
    | none => none
    | some m =>
      match m.calls.lookup c with
      | some ⟨purpose, .writing state⟩ =>
        let written :=
          if out.isOk then
            (m.publish purpose state.seqNumHighWater).setCall c
              ⟨purpose, .pushing state⟩
          else m.endCall c
        some
          { s.setMemory e written with
            config := if out.lands then some state else s.config }
      | _ => none
  | .push e c out =>
    match s.engines.lookup e with
    | none => none
    | some m =>
      match m.calls.lookup c with
      | some ⟨purpose, .pushing state⟩ =>
        some
          { s.setMemory e (afterPush m c purpose out) with
            backend := if out.lands then some state else s.backend }
      | _ => none
  | .sealSnapshot e c =>
    match s.engines.lookup e with
    | none => none
    | some m =>
      match m.calls.lookup c with
      | some ⟨.createSnapshot info, .sealing⟩ =>
        some
          { s.setMemory e (m.endCall c) with
            seals := .snapshot info m.volumeUUID :: s.seals }
      | _ => none

/-- No number is taken from a counter that is behind, and none is lost. -/
def numbersInOrder (s : State) : Act → Bool
  | .persist e _ => s.leads e
  | .createSnapshot e _ _ _ => s.leads e
  | .loadState _ _ readable =>
    match selectState s.config (if readable then s.backend else none) with
    | none => true
    | some file => s.countersAtMost file.stateSeqNum
  | .crash e => s.expendable e
  | _ => true

/-- Every seal has a nonce of its own. -/
def NoReuse (seals : List Payload) : Prop :=
  (seals.map Payload.nonce).Nodup

/-- Nothing runs, and everything that was sealed is covered by a `config.json`. -/
structure AtRest (s : State) : Prop where
  engines : s.engines = ∅
  unique : NoReuse s.seals
  sealed : ∀ p ∈ s.seals, p.stateSeqNum ≤ s.inForce

/-- A volume that was never saved. -/
def newVolume : State := ⟨none, none, ∅, []⟩

theorem atRest_newVolume :
    AtRest newVolume :=
  ⟨rfl, List.nodup_nil, fun _ hp => absurd hp List.not_mem_nil⟩

section Views

variable {s t : State} {e c : Nat} {m m' : Memory} {call : Option Call}

/-- The engine runs and has the call in progress. -/
def HasCall (s : State) (e c : Nat) (call : Call) : Prop :=
  ∃ m, s.engines.lookup e = some m ∧ m.calls.lookup c = some call

/-- The call takes a snapshot. -/
def Pending (s : State) (e c : Nat) (info : SnapshotInfo) : Prop :=
  ∃ stage, HasCall s e c ⟨.createSnapshot info, stage⟩

def Writing (s : State) (e c : Nat) (state : StateFile) : Prop :=
  ∃ purpose, HasCall s e c ⟨purpose, .writing state⟩

def Pushing (s : State) (e c : Nat) (state : StateFile) : Prop :=
  ∃ purpose, HasCall s e c ⟨purpose, .pushing state⟩

/-- The number is ahead of both copies and of the other engines. -/
def Ahead (s : State) (e n : Nat) : Prop :=
  s.inForce < n ∧ ∀ e' m, e' ≠ e → s.engines.lookup e' = some m → m.nextStateSeqNum < n

/-- The number is not above every counter and every `config.json`. -/
def Bounded (s : State) (n : Nat) : Prop :=
  n ≤ s.inForce ∨ ∃ e m, s.engines.lookup e = some m ∧ n ≤ m.nextStateSeqNum

theorem countersAtMost_iff {n : Nat} :
    s.countersAtMost n = true ↔ ∀ e m, s.engines.lookup e = some m → m.nextStateSeqNum ≤ n := by
  simp only [State.countersAtMost, List.all_eq_true, decide_eq_true_eq]
  constructor
  · intro hall e m hm
    exact hall ⟨e, m⟩ (FiniteMap.mem_entries_iff.mpr hm)
  · rintro hall ⟨e, m⟩ hmem
    exact hall e m (FiniteMap.mem_entries_iff.mp hmem)

theorem leads_iff (hm : s.engines.lookup e = some m) :
    s.leads e = true ↔ s.inForce ≤ m.nextStateSeqNum ∧
        ∀ e' m', s.engines.lookup e' = some m' → m'.nextStateSeqNum ≤ m.nextStateSeqNum := by
  rw [State.leads, hm]
  simp only [Bool.and_eq_true, decide_eq_true_eq, countersAtMost_iff]

theorem Bounded.le_of_leads {n : Nat} (h : Bounded s n) (hm : s.engines.lookup e = some m)
    (hleads : s.leads e = true) :
    n ≤ m.nextStateSeqNum := by
  obtain ⟨hforce, hothers⟩ := (leads_iff hm).mp hleads
  rcases h with hle | ⟨e', m', hm', hle⟩
  · exact hle.trans hforce
  · exact hle.trans (hothers e' m' hm')

theorem le_inForce_of_select {readable : Bool} {file : StateFile}
    (hselect : selectState s.config (if readable then s.backend else none) = some file) :
    file.stateSeqNum ≤ s.inForce := by
  rcases (newerCopy_eq_some hselect).1 with hfile | hfile
  · rw [State.inForce, hfile]
    exact Nat.le_max_left _ _
  · split at hfile
    · rw [State.inForce, hfile]
      exact Nat.le_max_right _ _
    · cases hfile

/-- The memory of one engine is replaced, and of its calls at most one, by `call`. -/
structure Update (s t : State) (e c : Nat) (m m' : Memory) (call : Option Call) : Prop where
  before : s.engines.lookup e = some m
  engines : t.engines = s.engines.insert e m'
  lookup : m'.calls.lookup c = call
  calls : ∀ c', c' ≠ c → m'.calls.lookup c' = m.calls.lookup c'

namespace Update

variable (hu : Update s t e c m m' call)

include hu

theorem lookup_eq :
    t.engines.lookup e = some m' := by
  rw [hu.engines, AList.lookup_insert]

theorem lookup_cases {e' : Nat} {m₁ : Memory} (hm₁ : t.engines.lookup e' = some m₁) :
    e' = e ∧ m₁ = m' ∨ e' ≠ e ∧ s.engines.lookup e' = some m₁ := by
  by_cases heq : e' = e
  · subst heq
    rw [hu.lookup_eq] at hm₁
    exact .inl ⟨rfl, (Option.some.inj hm₁).symm⟩
  · rw [hu.engines, AList.lookup_insert_ne heq] at hm₁
    exact .inr ⟨heq, hm₁⟩

theorem hasCall {e' c' : Nat} {call' : Call} (hcall : HasCall t e' c' call') :
    e' = e ∧ c' = c ∧ call = some call' ∨ HasCall s e' c' call' ∧ ¬ (e' = e ∧ c' = c) := by
  obtain ⟨m₁, hm₁, hc⟩ := hcall
  rcases hu.lookup_cases hm₁ with ⟨rfl, rfl⟩ | ⟨hne, hm₁⟩
  · by_cases heq : c' = c
    · subst heq
      exact .inl ⟨rfl, rfl, hu.lookup.symm.trans hc⟩
    · rw [hu.calls c' heq] at hc
      exact .inr ⟨⟨m, hu.before, hc⟩, fun h => heq h.2⟩
  · exact .inr ⟨⟨m₁, hm₁, hc⟩, fun h => hne h.1⟩

theorem bounded (hnext : m.nextStateSeqNum ≤ m'.nextStateSeqNum) (hforce : s.inForce ≤ t.inForce)
    {n : Nat} (h : Bounded s n) :
    Bounded t n := by
  rcases h with hle | ⟨e', m₁, hm₁, hle⟩
  · exact .inl (hle.trans hforce)
  · right
    by_cases heq : e' = e
    · subst heq
      rw [hu.before] at hm₁
      obtain rfl := Option.some.inj hm₁
      exact ⟨e', m', hu.lookup_eq, hle.trans hnext⟩
    · refine ⟨e', m₁, ?_, hle⟩
      rw [hu.engines, AList.lookup_insert_ne heq]
      exact hm₁

end Update

end Views

/-- Numbers in use are distinct and below what every engine will take next. -/
structure Inv (s : State) : Prop where
  unique : NoReuse s.seals
  sealed : ∀ p ∈ s.seals, Bounded s p.stateSeqNum
  pending : ∀ {e c info}, Pending s e c info → Bounded s info.stateSeqNum
  pending_fresh : ∀ {e c info}, Pending s e c info →
    ∀ other uuid, .snapshot other uuid ∈ s.seals → other.stateSeqNum ≠ info.stateSeqNum
  pending_apart : ∀ {e c info e' c' info'}, Pending s e c info → Pending s e' c' info' →
    info.stateSeqNum = info'.stateSeqNum → e = e' ∧ c = c'
  writing : ∀ {e c state m}, Writing s e c state → s.engines.lookup e = some m →
    state.stateSeqNum ≤ m.nextStateSeqNum ∧ Ahead s e state.stateSeqNum
  writing_once : ∀ {e c state c' state'}, Writing s e c state → Writing s e c' state' → c = c'
  pushing : ∀ {e c state}, Pushing s e c state →
    state.stateSeqNum ≤ generation s.config ∧ generation s.backend ≤ generation s.config

namespace Inv

variable {s t : State} {e c : Nat} {m m' : Memory} {call : Option Call}

theorem of_atRest (h : AtRest s) :
    Inv s := by
  have hcalls : ∀ e c call, ¬ HasCall s e c call := by
    rintro e c call ⟨m, hm, -⟩
    rw [h.engines] at hm
    simp at hm
  exact
    { unique := h.unique
      sealed := fun p hp => .inl (h.sealed p hp)
      pending := fun ⟨_, hcall⟩ => absurd hcall (hcalls _ _ _)
      pending_fresh := fun ⟨_, hcall⟩ => absurd hcall (hcalls _ _ _)
      pending_apart := fun ⟨_, hcall⟩ => absurd hcall (hcalls _ _ _)
      writing := fun ⟨_, hcall⟩ => absurd hcall (hcalls _ _ _)
      writing_once := fun ⟨_, hcall⟩ => absurd hcall (hcalls _ _ _)
      pushing := fun ⟨_, hcall⟩ => absurd hcall (hcalls _ _ _) }

theorem eq_of_writing (h : Inv s) {e' c' : Nat} {state : StateFile}
    (hm : s.engines.lookup e = some m) (hleads : s.leads e = true)
    (hwriting : Writing s e' c' state) :
    e' = e := by
  by_contra hne
  obtain ⟨-, m₁, hm₁, -⟩ := id hwriting
  obtain ⟨hle, -, hothers⟩ := h.writing hwriting hm₁
  have hlt := hothers e m (Ne.symm hne) hm
  have hge := ((leads_iff hm).mp hleads).2 e' m₁ hm₁
  omega

/-- A snapshot that one engine starts is above all numbers in use; what the engines write
and push is up to the step. -/
theorem of_update (h : Inv s) (hu : Update s t e c m m' call) (hseals : t.seals = s.seals)
    (hnext : m.nextStateSeqNum ≤ m'.nextStateSeqNum) (hforce : s.inForce ≤ t.inForce)
    (hpurpose : ∀ info stage, call = some ⟨.createSnapshot info, stage⟩ → Pending s e c info ∨
      info.stateSeqNum ≤ m'.nextStateSeqNum ∧ ∀ {n}, Bounded s n → n < info.stateSeqNum)
    (hwriting : ∀ {e' c' state m₁}, Writing t e' c' state → t.engines.lookup e' = some m₁ →
      state.stateSeqNum ≤ m₁.nextStateSeqNum ∧ Ahead t e' state.stateSeqNum)
    (honce : ∀ {e' c₁ state₁ c₂ state₂}, Writing t e' c₁ state₁ → Writing t e' c₂ state₂ → c₁ = c₂)
    (hpushing : ∀ {e' c' state}, Pushing t e' c' state →
      state.stateSeqNum ≤ generation t.config ∧ generation t.backend ≤ generation t.config) :
    Inv t := by
  have hbounded : ∀ {n}, Bounded s n → Bounded t n := hu.bounded hnext hforce
  -- a snapshot in progress was so before, or has a new number
  have hpending : ∀ {e' c' info}, Pending t e' c' info → Pending s e' c' info ∨
        (e' = e ∧ c' = c) ∧ info.stateSeqNum ≤ m'.nextStateSeqNum ∧
          ∀ {n}, Bounded s n → n < info.stateSeqNum := by
    rintro e' c' info ⟨stage, hcall⟩
    rcases hu.hasCall hcall with ⟨rfl, rfl, hc⟩ | ⟨hcall, -⟩
    · exact (hpurpose info stage hc).imp_right fun hnew => ⟨⟨rfl, rfl⟩, hnew⟩
    · exact .inl ⟨stage, hcall⟩
  refine
    { unique := hseals ▸ h.unique
      sealed := fun p hp => hbounded (h.sealed p (hseals ▸ hp))
      pending := ?_
      pending_fresh := ?_
      pending_apart := ?_
      writing := hwriting
      writing_once := honce
      pushing := hpushing }
  · intro e' c' info hinfo
    rcases hpending hinfo with hold | ⟨-, hle, -⟩
    · exact hbounded (h.pending hold)
    · exact .inr ⟨e, m', hu.lookup_eq, hle⟩
  · intro e' c' info hinfo other uuid hmem
    rw [hseals] at hmem
    rcases hpending hinfo with hold | ⟨-, -, habove⟩
    · exact h.pending_fresh hold other uuid hmem
    · exact (habove (h.sealed _ hmem)).ne
  · intro e₁ c₁ info₁ e₂ c₂ info₂ hinfo₁ hinfo₂ heq
    rcases hpending hinfo₁ with hold₁ | ⟨⟨rfl, rfl⟩, -, habove₁⟩ <;>
      rcases hpending hinfo₂ with hold₂ | ⟨⟨rfl, rfl⟩, -, habove₂⟩
    · exact h.pending_apart hold₁ hold₂ heq
    · exact absurd heq (habove₂ (h.pending hold₁)).ne
    · exact absurd heq (habove₁ (h.pending hold₂)).ne'
    · exact ⟨rfl, rfl⟩

theorem proceed (h : Inv s) (hu : Update s t e c m m' call) (hseals : t.seals = s.seals)
    (hle : m.nextStateSeqNum ≤ m'.nextStateSeqNum)
    (hnext : m'.nextStateSeqNum = m.nextStateSeqNum ∨ ∀ e' c' state, ¬ Writing s e' c' state)
    (hforce : s.inForce ≤ t.inForce)
    (hpurpose : ∀ info stage, call = some ⟨.createSnapshot info, stage⟩ → Pending s e c info)
    (hwriting : ∀ {e' c' state}, Writing t e' c' state →
      Writing s e' c' state ∧ t.inForce < state.stateSeqNum)
    (hpushing : ∀ {e' c' state}, Pushing t e' c' state →
      state.stateSeqNum ≤ generation t.config ∧ generation t.backend ≤ generation t.config) :
    Inv t := by
  refine h.of_update hu hseals hle hforce (fun info stage hc => .inl (hpurpose info stage hc)) ?_
    (fun h₁ h₂ => h.writing_once (hwriting h₁).1 (hwriting h₂).1) hpushing
  intro e' c' state m₁ hwrite hm₁
  obtain ⟨hwrite, hlt⟩ := hwriting hwrite
  obtain ⟨-, m₀, hm₀, -⟩ := id hwrite
  obtain ⟨hle, -, hothers⟩ := h.writing hwrite hm₀
  have hnext := hnext.resolve_right fun hno => hno e' c' state hwrite
  refine ⟨?_, hlt, ?_⟩
  · rcases hu.lookup_cases hm₁ with ⟨rfl, rfl⟩ | ⟨-, hm₁⟩
    · cases hu.before.symm.trans hm₀
      omega
    · cases hm₀.symm.trans hm₁
      exact hle
  · intro e₂ m₂ hne hm₂
    rcases hu.lookup_cases hm₂ with ⟨rfl, rfl⟩ | ⟨-, hm₂⟩
    · have := hothers e₂ m hne hu.before
      omega
    · exact hothers e₂ m₂ hne hm₂

theorem quiet (h : Inv s) (hu : Update s t e c m m' call) (hconfig : t.config = s.config)
    (hbackend : t.backend = s.backend) (hseals : t.seals = s.seals)
    (hle : m.nextStateSeqNum ≤ m'.nextStateSeqNum)
    (hnext : m'.nextStateSeqNum = m.nextStateSeqNum ∨ ∀ e' c' state, ¬ Writing s e' c' state)
    (hnew : ∀ call', call = some call' → m.calls.lookup c = some call' ∨
      (∀ info, call'.purpose ≠ .createSnapshot info) ∧ ∃ hw, call'.stage = .persisting hw) :
    Inv t := by
  have hforce : t.inForce = s.inForce := by
    rw [State.inForce, State.inForce, hconfig, hbackend]
  have hold : ∀ {e' c' call'}, HasCall t e' c' call' →
      HasCall s e' c' call' ∨ ∃ hw, call'.stage = .persisting hw := by
    intro e' c' call' hcall
    rcases hu.hasCall hcall with ⟨rfl, rfl, hc⟩ | ⟨hcall, -⟩
    · exact (hnew call' hc).imp (fun hc => ⟨m, hu.before, hc⟩) And.right
    · exact .inl hcall
  refine h.proceed hu hseals hle hnext hforce.ge ?_ ?_ ?_
  · intro info stage hc
    rcases hnew _ hc with hc | ⟨hno, -⟩
    · exact ⟨stage, m, hu.before, hc⟩
    · exact absurd rfl (hno info)
  · rintro e' c' state ⟨purpose, hcall⟩
    rcases hold hcall with ⟨m₀, hm₀, hc₀⟩ | ⟨hw, hstage⟩
    · have hwriting : Writing s e' c' state := ⟨purpose, m₀, hm₀, hc₀⟩
      exact ⟨hwriting, hforce ▸ (h.writing hwriting hm₀).2.1⟩
    · cases hstage
  · rintro e' c' state ⟨purpose, hcall⟩
    rw [hconfig, hbackend]
    rcases hold hcall with hcall | ⟨hw, hstage⟩
    · exact h.pushing ⟨purpose, hcall⟩
    · cases hstage

theorem not_writing (hm : s.engines.lookup e = some m) (hsaving : m.saving = false)
    {state : StateFile} :
    ¬ Writing s e c state := by
  rintro ⟨purpose, m₁, hm₁, hc⟩
  cases hm.symm.trans hm₁
  rw [Memory.saving, List.any_eq_false] at hsaving
  exact hsaving ⟨c, _⟩ (FiniteMap.mem_entries_iff.mpr hc) rfl

theorem advance (h : Inv s) (hu : Update s t e c m m' call) (hconfig : t.config = s.config)
    (hbackend : t.backend = s.backend) (hseals : t.seals = s.seals) (hleads : s.leads e = true)
    (hnext : m'.nextStateSeqNum = m.nextStateSeqNum + 1)
    (hpurpose : ∀ info stage, call = some ⟨.createSnapshot info, stage⟩ → Pending s e c info ∨
      info.stateSeqNum = m.nextStateSeqNum + 1)
    (hstage : ∀ purpose state, call = some ⟨purpose, .writing state⟩ →
      state.stateSeqNum = m.nextStateSeqNum + 1 ∧ m.saving = false)
    (hpushing : ∀ purpose state, call ≠ some ⟨purpose, .pushing state⟩) :
    Inv t := by
  have hm := hu.before
  have hforce : t.inForce = s.inForce := by
    rw [State.inForce, State.inForce, hconfig, hbackend]
  obtain ⟨hlead, hlast⟩ := (leads_iff hm).mp hleads
  have hwriting : ∀ {e' c' state}, Writing t e' c' state → e' = e ∧ (c' = c ∧
      state.stateSeqNum = m.nextStateSeqNum + 1 ∧ m.saving = false ∨ Writing s e' c' state) := by
    rintro e' c' state ⟨purpose, hcall⟩
    rcases hu.hasCall hcall with ⟨rfl, rfl, hc⟩ | ⟨hcall, -⟩
    · exact ⟨rfl, .inl ⟨rfl, hstage purpose state hc⟩⟩
    · exact ⟨h.eq_of_writing hm hleads ⟨purpose, hcall⟩, .inr ⟨purpose, hcall⟩⟩
  have hothers : ∀ {e₂ m₂}, e₂ ≠ e → t.engines.lookup e₂ = some m₂ →
      s.engines.lookup e₂ = some m₂ :=
    fun hne hm₂ => ((hu.lookup_cases hm₂).resolve_left fun h => hne h.1).2
  refine h.of_update hu hseals (by omega) hforce.ge ?_ ?_ ?_ ?_
  · intro info stage hc
    refine (hpurpose info stage hc).imp_right fun hnumber => ⟨by omega, fun hn => ?_⟩
    have hle := hn.le_of_leads hm hleads
    omega
  · intro e' c' state m₁ hwrite hm₁
    obtain ⟨rfl, ⟨-, hnumber, -⟩ | hold⟩ := hwriting hwrite
    · cases hu.lookup_eq.symm.trans hm₁
      refine ⟨by omega, by omega, fun e₂ m₂ hne hm₂ => ?_⟩
      have := hlast e₂ m₂ (hothers hne hm₂)
      omega
    · obtain ⟨hle, hlt, hless⟩ := h.writing hold hm
      cases hu.lookup_eq.symm.trans hm₁
      exact ⟨by omega, by omega, fun e₂ m₂ hne hm₂ => hless e₂ m₂ hne (hothers hne hm₂)⟩
  · intro e' c₁ state₁ c₂ state₂ hwrite₁ hwrite₂
    obtain ⟨rfl, ⟨rfl, -, hsaving₁⟩ | hold₁⟩ := hwriting hwrite₁ <;>
      obtain ⟨-, ⟨rfl, -, hsaving₂⟩ | hold₂⟩ := hwriting hwrite₂
    · rfl
    · exact absurd hold₂ (not_writing hm hsaving₁)
    · exact absurd hold₁ (not_writing hm hsaving₂)
    · exact h.writing_once hold₁ hold₂
  · rintro e' c' state ⟨purpose, hcall⟩
    rw [hconfig, hbackend]
    rcases hu.hasCall hcall with ⟨rfl, rfl, hc⟩ | ⟨hcall, -⟩
    · exact absurd hc (hpushing purpose state)
    · exact h.pushing ⟨purpose, hcall⟩

/-- A payload is sealed under a new nonce. -/
theorem addSeal (h : Inv s) {p : Payload} (hnonce : ∀ q ∈ s.seals, q.nonce ≠ p.nonce)
    (hbounded : Bounded s p.stateSeqNum)
    (hapart : ∀ other uuid, p = .snapshot other uuid → ∀ {e c info}, Pending s e c info →
      other.stateSeqNum ≠ info.stateSeqNum) :
    Inv { s with seals := p :: s.seals } := by
  refine { h with unique := ?_, sealed := ?_, pending_fresh := ?_ }
  · refine List.nodup_cons.mpr ⟨fun hmem => ?_, h.unique⟩
    obtain ⟨q, hq, heq⟩ := List.mem_map.mp hmem
    exact hnonce q hq heq
  · intro q hq
    rcases List.mem_cons.mp hq with rfl | hq
    · exact hbounded
    · exact h.sealed q hq
  · intro e c info hinfo other uuid hmem
    rcases List.mem_cons.mp hmem with heq | hmem
    · exact hapart other uuid heq.symm hinfo
    · exact h.pending_fresh hinfo other uuid hmem

theorem engines (h : Inv s) {engines : AList fun _ : Nat => Memory}
    (hbounded : ∀ {n}, Bounded s n → Bounded { s with engines := engines } n)
    (hcalls : ∀ {e c call}, HasCall { s with engines := engines } e c call → HasCall s e c call)
    (hlookup : ∀ {e m}, engines.lookup e = some m → s.engines.lookup e = some m ∨ m.nextStateSeqNum
      = 0 ∧ ∀ c, m.calls.lookup c = none) :
    Inv { s with engines := engines } where
  unique := h.unique
  sealed p hp := hbounded (h.sealed p hp)
  pending := fun ⟨stage, hcall⟩ => hbounded (h.pending ⟨stage, hcalls hcall⟩)
  pending_fresh := fun ⟨stage, hcall⟩ => h.pending_fresh ⟨stage, hcalls hcall⟩
  pending_apart := fun ⟨stage, hcall⟩ ⟨stage', hcall'⟩ =>
    h.pending_apart ⟨stage, hcalls hcall⟩ ⟨stage', hcalls hcall'⟩
  writing := by
    rintro e c state m ⟨purpose, m₁, hm₁, hc₁⟩ hm
    obtain rfl : m₁ = m := Option.some.inj (hm₁.symm.trans hm)
    have hold : s.engines.lookup e = some m₁ := by
      rcases hlookup hm with hold | ⟨-, hnone⟩
      · exact hold
      · rw [hnone c] at hc₁
        cases hc₁
    obtain ⟨hle, hlt, hothers⟩ := h.writing ⟨purpose, m₁, hold, hc₁⟩ hold
    refine ⟨hle, hlt, fun e' m' hne hm' => ?_⟩
    rcases hlookup hm' with hm' | ⟨hzero, -⟩
    · exact hothers e' m' hne hm'
    · omega
  writing_once := fun ⟨purpose, hcall⟩ ⟨purpose', hcall'⟩ =>
    h.writing_once ⟨purpose, hcalls hcall⟩ ⟨purpose', hcalls hcall'⟩
  pushing := fun ⟨purpose, hcall⟩ => h.pushing ⟨purpose, hcalls hcall⟩

theorem start (h : Inv s) (hfresh : s.engines.lookup e = none) :
    Inv (s.setMemory e Memory.new) := by
  have hlookup : ∀ {e' m}, (s.engines.insert e Memory.new).lookup e' = some m →
      s.engines.lookup e' = some m ∨ m.nextStateSeqNum = 0 ∧ ∀ c, m.calls.lookup c = none := by
    intro e' m hm
    rcases FiniteMap.lookup_insert_eq_some hm with ⟨rfl, rfl⟩ | hold
    · exact .inr ⟨rfl, fun c => rfl⟩
    · exact .inl hold
  refine h.engines ?_ ?_ hlookup
  · rintro n (hle | ⟨e', m, hm, hle⟩)
    · exact .inl hle
    · refine .inr ⟨e', m, ?_, hle⟩
      have hne : e' ≠ e := by
        rintro rfl
        rw [hfresh] at hm
        cases hm
      rw [AList.lookup_insert_ne hne]
      exact hm
  · rintro e' c call ⟨m, hm, hc⟩
    rcases hlookup hm with hold | ⟨-, hnone⟩
    · exact ⟨m, hold, hc⟩
    · rw [hnone c] at hc
      cases hc

theorem crash (h : Inv s) (hexpendable : s.expendable e = true) :
    Inv { s with engines := s.engines.erase e } := by
  have hlookup : ∀ {e' m}, (s.engines.erase e).lookup e' = some m → s.engines.lookup e' = some m :=
    fun hm => (FiniteMap.lookup_erase_eq_some hm).2
  refine h.engines ?_ ?_ fun hm => .inl (hlookup hm)
  · rintro n (hle | ⟨e', m, hm, hle⟩)
    · exact .inl hle
    by_cases heq : e' = e
    · subst heq
      simp only [State.expendable, hm, Bool.or_eq_true, decide_eq_true_eq,
        List.any_eq_true, Bool.and_eq_true, bne_iff_ne] at hexpendable
      rcases hexpendable with hforce | ⟨⟨e₂, m₂⟩, hmem, hne, hge⟩
      · exact .inl (hle.trans hforce)
      · refine .inr ⟨e₂, m₂, ?_, hle.trans hge⟩
        rw [AList.lookup_erase_ne hne]
        exact FiniteMap.mem_entries_iff.mp hmem
    · refine .inr ⟨e', m, ?_, hle⟩
      rw [AList.lookup_erase_ne heq]
      exact hm
  · rintro e' c call ⟨m, hm, hc⟩
    exact ⟨m, hlookup hm, hc⟩

theorem update_setCall (hm : s.engines.lookup e = some m)
    (ht : t.engines = s.engines.insert e m') {call : Call}
    (hcalls : m'.calls = m.calls.insert c call) :
    Update s t e c m m' (some call) where
  before := hm
  engines := ht
  lookup := by rw [hcalls, AList.lookup_insert]
  calls c' hne := by rw [hcalls, AList.lookup_insert_ne hne]

theorem update_endCall (hm : s.engines.lookup e = some m)
    (ht : t.engines = s.engines.insert e m') (hcalls : m'.calls = m.calls.erase c) :
    Update s t e c m m' none where
  before := hm
  engines := ht
  lookup := by rw [hcalls, AList.lookup_erase]
  calls c' hne := by rw [hcalls, AList.lookup_erase_ne hne]

section

variable (h : Inv s)

include h

section

variable (hm : s.engines.lookup e = some m)

include hm

theorem upload :
    Inv (s.setMemory e { m with objectNum := m.objectNum + 1 }) :=
  h.quiet (c := 0) ⟨hm, rfl, rfl, fun _ _ => rfl⟩ rfl rfl rfl le_rfl (.inl rfl)
    fun _ hc => .inl hc

theorem reserveSeqNum (c n rand : Nat) :
    Inv (s.setMemory e (reserve m c n rand)) := by
  have hadded : Inv (s.setMemory e { m with seqNum := m.seqNum + n }) :=
    h.quiet (c := 0) ⟨hm, rfl, rfl, fun _ _ => rfl⟩ rfl rfl rfl le_rfl (.inl rfl)
      fun _ hc => .inl hc
  unfold reserve
  dsimp only
  split
  · exact hadded
  split
  · exact hadded
  refine h.quiet (update_setCall hm (by rfl) (by rfl)) rfl rfl rfl (by rfl) (.inl (by rfl)) ?_
  rintro _ ⟨⟩
  exact .inr ⟨fun info hinfo => (by cases hinfo), _, rfl⟩

theorem saveState (c rand : Nat) :
    Inv (s.setMemory e (m.beginSave c .saveState rand)) := by
  refine h.quiet (update_setCall hm (by rfl) (by rfl)) rfl rfl rfl (by rfl) (.inl (by rfl)) ?_
  rintro _ ⟨⟩
  exact .inr ⟨fun info hinfo => (by cases hinfo), _, rfl⟩

theorem loadState (c : Nat) {readable : Bool} {file : StateFile}
    (hselect : selectState s.config (if readable then s.backend else none) = some file)
    (hcounters : s.countersAtMost file.stateSeqNum = true) :
    Inv (s.setMemory e (installState m c file)) := by
  have hcounters := countersAtMost_iff.mp hcounters
  have hforce := le_inForce_of_select hselect
  refine h.quiet (update_setCall hm rfl rfl) rfl rfl rfl (hcounters e m hm) (.inr ?_) ?_
  · -- a state that is being written would be ahead of the selected copy
    rintro e' c' state ⟨purpose, m₁, hm₁, hc⟩
    obtain ⟨hle, hlt, -⟩ := h.writing ⟨purpose, m₁, hm₁, hc⟩ hm₁
    have := hcounters e' m₁ hm₁
    omega
  · rintro _ ⟨⟩
    exact .inr ⟨fun info hinfo => (by cases hinfo), _, rfl⟩

theorem createSnapshot (hleads : s.leads e = true) (c : Nat) (snapshotID : String) (rand : Nat) :
    Inv (s.setMemory e (beginSnapshot m c snapshotID rand)) := by
  refine h.advance (update_setCall hm rfl rfl) rfl rfl rfl hleads rfl ?_ nofun nofun
  rintro _ _ ⟨⟩
  exact .inr rfl

theorem persist (hleads : s.leads e = true) {purpose : Purpose} {highWater : Nat}
    (hcall : m.calls.lookup c = some ⟨purpose, .persisting highWater⟩)
    (hsaving : m.saving = false) :
    Inv
      { s.setMemory e
          ({ m with nextStateSeqNum := (m.stateToSave highWater).stateSeqNum }.setCall c
            ⟨purpose, .writing (m.stateToSave highWater)⟩) with
        seals := .vbState (m.stateToSave highWater) :: s.seals } := by
  have hu := update_setCall (t := s.setMemory e
    ({ m with nextStateSeqNum := (m.stateToSave highWater).stateSeqNum }.setCall c
      ⟨purpose, .writing (m.stateToSave highWater)⟩)) hm rfl rfl
  have hsaved := h.advance hu rfl rfl rfl hleads rfl (by
      rintro _ _ ⟨⟩
      exact .inl ⟨_, m, hm, hcall⟩) (by
      rintro _ _ ⟨⟩
      exact ⟨rfl, hsaving⟩) nofun
  refine hsaved.addSeal (fun p hp hnonce => ?_) (.inr ⟨e, _, hu.lookup_eq, le_rfl⟩) nofun
  have hle := (h.sealed p hp).le_of_leads hm hleads
  have heq : p.stateSeqNum = m.nextStateSeqNum + 1 := by
    cases p <;> exact congrArg Prod.fst hnonce
  omega

theorem write {purpose : Purpose} {state : StateFile}
    (hcall : m.calls.lookup c = some ⟨purpose, .writing state⟩) (out : Outcome) :
    Inv
      { s.setMemory e
          (if out.isOk then
            (m.publish purpose state.seqNumHighWater).setCall c ⟨purpose, .pushing state⟩
          else m.endCall c) with
        config := if out.lands then some state else s.config } := by
  have hwriting : Writing s e c state := ⟨purpose, m, hm, hcall⟩
  obtain ⟨-, hlt, hothers⟩ := h.writing hwriting hm
  have hbackend : generation s.backend ≤ s.inForce := le_max_right _ _
  have hconfig : generation s.config ≤ s.inForce := le_max_left _ _
  -- no other call is between its seal and its write
  have hnone : ∀ {e' c' state'}, ¬ (e' = e ∧ c' = c) → ¬ Writing s e' c' state' := by
    rintro e' c' state' hne ⟨purpose', m₁, hm₁, hc₁⟩
    by_cases heq : e' = e
    · subst heq
      exact hne ⟨rfl, h.writing_once ⟨purpose', m₁, hm₁, hc₁⟩ hwriting⟩
    · obtain ⟨hle₁, -, hothers₁⟩ := h.writing ⟨purpose', m₁, hm₁, hc₁⟩ hm₁
      have := hothers e' m₁ heq hm₁
      have := hothers₁ e m (Ne.symm heq) hm
      have := (h.writing hwriting hm).1
      omega
  have hforce : s.inForce ≤ max
      (generation (if out.lands then some state else s.config)) (generation s.backend) := by
    split
    · exact hlt.le.trans (le_max_left _ _)
    · exact le_rfl
  have hpublish : (m.publish purpose state.seqNumHighWater).calls = m.calls ∧
      (m.publish purpose state.seqNumHighWater).nextStateSeqNum = m.nextStateSeqNum := by
    cases purpose <;> exact ⟨rfl, rfl⟩
  have hpushed : ∀ {e' c' state'}, Pushing s e' c' state' →
      state'.stateSeqNum ≤ generation (if out.lands then some state else s.config) ∧
        generation s.backend ≤ generation (if out.lands then some state else s.config) := by
    intro e' c' state' hpushing
    have hold := h.pushing hpushing
    split
    · exact ⟨hold.1.trans (hconfig.trans hlt.le), hbackend.trans hlt.le⟩
    · exact hold
  cases hok : out.isOk with
  | false =>
    simp only [Bool.false_eq_true, if_false]
    have hu := update_endCall (c := c) (t := { s.setMemory e (m.endCall c) with
      config := if out.lands then some state else s.config }) hm rfl rfl
    refine h.proceed hu rfl le_rfl (.inl rfl) hforce nofun ?_ ?_
    · rintro e' c' state' ⟨purpose', hother⟩
      obtain ⟨hother, hne⟩ := (hu.hasCall hother).resolve_left nofun
      exact absurd ⟨purpose', hother⟩ (hnone hne)
    · rintro e' c' state' ⟨purpose', hother⟩
      exact hpushed ⟨purpose', ((hu.hasCall hother).resolve_left nofun).1⟩
  | true =>
    simp only [if_true]
    have hlands : out.lands = true := by
      cases out <;> first | rfl | cases hok
    have hu := update_setCall (t := { s.setMemory e
      ((m.publish purpose state.seqNumHighWater).setCall c ⟨purpose, .pushing state⟩) with
      config := if out.lands then some state else s.config }) hm rfl
      (congrArg (·.insert c ⟨purpose, .pushing state⟩) hpublish.1)
    refine h.proceed hu rfl hpublish.2.ge (.inl hpublish.2) hforce ?_ ?_ ?_
    · rintro _ _ ⟨⟩
      exact ⟨_, m, hm, hcall⟩
    · rintro e' c' state' ⟨purpose', hother⟩
      obtain ⟨hother, hne⟩ := (hu.hasCall hother).resolve_left nofun
      exact absurd ⟨purpose', hother⟩ (hnone hne)
    · rintro e' c' state' ⟨purpose', hother⟩
      rcases hu.hasCall hother with ⟨-, -, ⟨⟩⟩ | ⟨hother, -⟩
      · simp only [hlands, if_true]
        exact ⟨le_rfl, hbackend.trans hlt.le⟩
      · exact hpushed ⟨purpose', hother⟩

theorem push {purpose : Purpose} {state : StateFile}
    (hcall : m.calls.lookup c = some ⟨purpose, .pushing state⟩) (out : Outcome) :
    Inv
      { s.setMemory e (afterPush m c purpose out) with
        backend := if out.lands then some state else s.backend } := by
  obtain ⟨hle, hbackend⟩ := h.pushing ⟨purpose, m, hm, hcall⟩
  -- the local copy stays the newer one, so nothing is overtaken
  have hnewer : generation (if out.lands then some state else s.backend) ≤ generation s.config := by
    split
    · exact hle
    · exact hbackend
  have hforce : max (generation s.config)
      (generation (if out.lands then some state else s.backend)) = s.inForce := by
    rw [State.inForce, max_eq_left hnewer, max_eq_left hbackend]
  have hafter : ∃ call, (call = none ∨ call = some ⟨purpose, .sealing⟩) ∧
      Update s { s.setMemory e (afterPush m c purpose out) with
        backend := if out.lands then some state else s.backend } e c m
        (afterPush m c purpose out) call ∧
      (afterPush m c purpose out).nextStateSeqNum = m.nextStateSeqNum := by
    unfold afterPush
    split
    · split
      · exact ⟨_, .inr rfl, update_setCall hm rfl rfl, rfl⟩
      · exact ⟨_, .inl rfl, update_endCall hm rfl rfl, rfl⟩
    · exact ⟨_, .inl rfl, update_endCall hm rfl rfl, rfl⟩
  obtain ⟨call, hcalls, hu, hnext⟩ := hafter
  have hnot : ∀ {purpose' stage}, stage ≠ .sealing → call ≠ some ⟨purpose', stage⟩ := by
    rintro purpose' stage hne rfl
    rcases hcalls with hc | hc <;> cases hc
    exact hne rfl
  refine h.proceed hu rfl hnext.ge (.inl hnext) hforce.ge ?_ ?_ ?_
  · rintro info stage rfl
    rcases hcalls with hc | hc <;> cases hc
    exact ⟨_, m, hm, hcall⟩
  · rintro e' c' state' ⟨purpose', hother⟩
    obtain ⟨⟨m₁, hm₁, hc₁⟩, -⟩ := (hu.hasCall hother).resolve_left fun hc => hnot (by nofun) hc.2.2
    have hwriting : Writing s e' c' state' := ⟨purpose', m₁, hm₁, hc₁⟩
    exact ⟨hwriting, hforce.trans_lt (h.writing hwriting hm₁).2.1⟩
  · rintro e' c' state' ⟨purpose', hother⟩
    obtain ⟨hother, -⟩ := (hu.hasCall hother).resolve_left fun hc => hnot (by nofun) hc.2.2
    exact ⟨(h.pushing ⟨purpose', hother⟩).1, hnewer⟩

theorem sealSnapshot {info : SnapshotInfo}
    (hcall : m.calls.lookup c = some ⟨.createSnapshot info, .sealing⟩) :
    Inv
      { s.setMemory e (m.endCall c) with
        seals := .snapshot info m.volumeUUID :: s.seals } := by
  have hu := update_endCall (c := c) (t := s.setMemory e (m.endCall c)) hm rfl rfl
  have hpending : Pending s e c info := ⟨_, m, hm, hcall⟩
  have hended : Inv (s.setMemory e (m.endCall c)) :=
    h.quiet hu rfl rfl rfl le_rfl (.inl rfl) nofun
  refine hended.addSeal ?_ (hu.bounded le_rfl le_rfl (h.pending hpending)) ?_
  · intro p hp hnonce
    cases p with
    | vbState state => cases congrArg (fun n => n.2.2) hnonce
    | snapshot other uuid =>
      exact h.pending_fresh hpending other uuid hp (congrArg Prod.fst hnonce)
  · rintro other uuid heq e' c' info' ⟨stage, hother⟩ hnumber
    obtain ⟨rfl, -⟩ := Payload.snapshot.inj heq
    obtain ⟨hother, hne⟩ := (hu.hasCall hother).resolve_left nofun
    exact hne (h.pending_apart ⟨stage, hother⟩ hpending hnumber.symm)

end

theorem step {a : Act} (hallowed : numbersInOrder s a = true) :
    MetaSeals.step s a = some t → Inv t := by
  fun_cases MetaSeals.step s a <;> rintro ⟨⟩
  · exact h.start ‹_›
  · exact h.crash hallowed
  · exact h.upload ‹_›
  · exact h.reserveSeqNum ‹_› _ _ _
  · exact h
  · rename_i hm _ _ hselect
    simp only [numbersInOrder, hselect] at hallowed
    exact h.loadState hm _ hselect hallowed
  · exact h.saveState ‹_› _ _
  · exact h.createSnapshot ‹_› hallowed _ _ _
  · rename_i hsaving _
    exact h.persist ‹_› hallowed ‹_› (Bool.eq_false_iff.mpr hsaving)
  · exact h.write ‹_› ‹_› _
  · exact h.push ‹_› ‹_› _
  · exact h.sealSnapshot ‹_› ‹_›

end

end Inv

/-- While numbers are taken in order no nonce is used twice. -/
theorem seals_never_reuse_nonce {s u : State} {acts : List Act} (hrest : AtRest s)
    (hrun : Run step (fun s a => numbersInOrder s a = true) s acts u) :
    NoReuse u.seals :=
  (hrun.preserves (fun _ _ _ h hallowed hstep => h.step hallowed hstep)
    (Inv.of_atRest hrest)).unique

/-- The steps of a save that goes well. -/
def saved (e c : Nat) : List Act :=
  [.persist e c, .write e c .ok, .push e c .ok]

/-- A snapshot that goes well. -/
def snapshotTaken (e c : Nat) (snapshotID : String) : List Act :=
  .createSnapshot e c snapshotID 7 :: saved e c ++ [.sealSnapshot e c]

/-- The volume is created by engine 1 and loaded by engine 2. -/
def openedTwice : List Act :=
  [.start 1, .saveState 1 0 7] ++ saved 1 0 ++ [.start 2, .loadState 2 0 true] ++ saved 2 0

/-- The second engine takes a snapshot and goes down before the first loads again. -/
def takesTurns : List Act :=
  openedTwice ++ snapshotTaken 2 1 "snap-a" ++
    [.crash 2, .loadState 1 1 true] ++ saved 1 1 ++ [.saveState 1 2 7] ++ saved 1 2

theorem taking_turns_never_reuses :
    ∃ u, Run step (fun s a => numbersInOrder s a = true) newVolume takesTurns u ∧
      u.seals.length = 6 ∧ NoReuse u.seals := by
  obtain ⟨u, hrun, hlength⟩ := Run.exists_of_exec step
    (fun s a => numbersInOrder s a = true) newVolume takesTurns
    (fun u => u.seals.length = 6) (by decide +kernel)
  exact ⟨u, hrun, of_decide_eq_true hlength, seals_never_reuse_nonce atRest_newVolume hrun⟩

/-- Two payloads of the domain share a nonce. -/
def Reused (seals : List Payload) (domain : Domain) : Prop :=
  ∃ p ∈ seals, ∃ q ∈ seals, p ≠ q ∧ p.nonce = q.nonce ∧ p.nonce.2.2 = domain

instance (seals : List Payload) (domain : Domain) : Decidable (Reused seals domain) :=
  inferInstanceAs (Decidable (∃ p ∈ seals, ∃ q ∈ seals, _))

/-- The serving engine saves after the second one has loaded; a third one follows. -/
def savesBehind : List Act :=
  openedTwice ++ [.saveState 1 0 7] ++ saved 1 0 ++
    snapshotTaken 2 1 "snap-a" ++ snapshotTaken 2 1 "snap-b" ++
    [.saveState 1 0 7] ++ saved 1 0 ++
    [.crash 2, .start 3, .loadState 3 0 true] ++ saved 3 0 ++ snapshotTaken 3 1 "snap-c"

theorem serving_engine_reuses_nonce :
    ∃ u, Run step (fun _ _ => True) newVolume savesBehind u ∧
      Reused u.seals .vbStateMeta ∧ Reused u.seals .snapshotMeta := by
  obtain ⟨u, hrun, hreused⟩ := Run.exists_of_exec step (fun _ _ => True) newVolume
    savesBehind (fun u => Reused u.seals .vbStateMeta ∧ Reused u.seals .snapshotMeta)
    (by decide +kernel)
  exact ⟨u, hrun, of_decide_eq_true hreused⟩

end MetaSeals

end Viperblock
