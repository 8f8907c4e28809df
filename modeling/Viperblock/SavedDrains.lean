import Viperblock.DrainedMemory

/-!
# What drains save

A drain reads the block map in one step and stores it as the live checkpoint in a later
one, while writes, flushes and reads go on.  Since drains run one at a time, the map is
then still as it was read: what is stored has each block where the engine finds it.
-/

namespace Viperblock

namespace Engine

open GuardedRun BlockMap BlocksToObject Volume
open ReopenSystem (openRun openVolume)

variable {env : Env} {v : Volume} {s t : State} {act : Act}

/-- A map on its way to the backend was read by this step, or before and has not changed. -/
theorem saving_of_step {records : List BlockLookup} (hserial : Serial s)
    (hstep : step env s act = some t) (hsaving : t.drainPhase = some (.saving records)) :
    records = t.volume.checkpoint env.cfg ∨ s.drainPhase = some (.saving records) ∧
      t.volume.vb.blocksToObject = s.volume.vb.blocksToObject := by
  have hcalm : s.drainPhase = some (.saving records) → s.mapInsert = none :=
    fun hphase => (hserial.nothing_packed fun b => by simp [hphase]).2
  cases act with
  | beginWrite id offset data nearFull =>
    obtain ⟨hidle, hphase⟩ := idle_beginWrite hstep
    exact .inr ⟨hphase ▸ hsaving, hidle.blocksToObject⟩
  | insertRun =>
    simp only [step, State.insertRun] at hstep
    repeat' split at hstep
    all_goals cases hstep
    all_goals
      have hmap := hcalm hsaving
      simp_all
  | reserve id disk backend =>
    have hsame := reserveSeqNum_sameBlocks env.cfg s.volume disk backend
    simp only [step, State.reserve] at hstep
    repeat' split at hstep
    all_goals cases hstep
    all_goals
      rename_i hreserve
      rw [hreserve] at hsame
      exact .inr ⟨hsaving, hsame.blocksToObject⟩
  | saveState disk backend =>
    cases hstep
    exact .inr ⟨hsaving, (saveState_spec env.cfg s.volume disk backend).1.blocksToObject⟩
  | serialiseLive =>
    simp only [step, State.serialiseLive] at hstep
    repeat' split at hstep
    all_goals cases hstep
    all_goals cases hsaving
    exact .inl rfl
  | _ =>
    simp only [step, State.lock, State.rmw, State.splice, State.append, State.publish,
      State.endWrite, State.beginRead, State.read, State.endRead, State.beginFlush,
      State.appendWAL, State.markPending, State.endFlush, State.beginDrain,
      State.rotate, State.allocate, State.put, State.skip, State.evict, State.lockMap, State.mark,
      State.unlockMap, State.endBatch, State.putLive] at hstep
    repeat' split at hstep
    all_goals cases hstep
    all_goals
      first
        | exact .inr ⟨hsaving, rfl⟩
        | simp_all [State.drainPhase, State.failDrain, State.returnDrain]

theorem live_of_putLive {records : List BlockLookup} {out : Outcome} {noSpace : Bool}
    (hput : s.putLive out noSpace = some t) (hlands : out.lands = true)
    (hphase : s.drainPhase = some (.saving records)) :
    t.volume.backend.live = some records := by
  simp only [State.putLive, hlands] at hput
  split at hput <;> cases hput
  simp_all only [State.drainPhase, Option.map_some, Option.some.injEq, DrainPhase.saving.injEq]
  split <;> rfl

/-- What holds while drains run one at a time. -/
structure Saving (env : Env) (s : State) : Prop extends Steady env s where
  current : ∀ records, s.drainPhase = some (.saving records) → records = s.volume.checkpoint env.cfg

theorem Saving.step (h : Saving env s) (hact : (drainsOnly s act && countsRun s act) = true)
    (hstep : step env s act = some t) :
    Saving env t := by
  obtain ⟨hdrains, hcounts⟩ := Bool.and_eq_true_iff.mp hact
  refine ⟨⟨h.basic.step hstep, h.serial.step h.basic hdrains hstep,
    h.agreeing.step h.basic h.serial hcounts hstep⟩, fun records hsaving => ?_⟩
  rcases saving_of_step h.serial hstep hsaving with hnow | ⟨hphase, hmap⟩
  · exact hnow
  · rw [h.current records hphase, Volume.checkpoint, Volume.checkpoint, hmap]

/-- A live checkpoint that a drain stores, whatever has failed before, has every block that
the store resolves as persisted, with its object, offset and number, and no block that the
store does not know. -/
theorem stored_checkpoint_is_current {d : ReopenSystem.Disks} {n : Nat} {run : ReopenSystem.OpenRun}
    {wal : ReopenSystem.Segment} {acts : List Act} {out : Outcome} {noSpace : Bool}
    (hoffset : ∀ records, ReopenSystem.Saved d records → ∀ rec ∈ records, rec.objectOffset < 2 ^ 32)
    (hopen : openVolume env.cfg d n run = (v, true))
    (hrun : Run (step env) (fun s act => drainsOnly s act && countsRun s act) (State.opened v wal)
      acts s) (hput : step env s (.putLive out noSpace) = some t) (hlands : out.lands = true)
    (hquiet : publishing t = false) :
    ∃ records, t.volume.backend.live = some records ∧ ∀ block,
      (∀ entry, t.store.readEntry block = some entry → entry.state = .persisted →
        (flatRecords records).lookup block =
          some (singleRecord block ⟨entry.objectID, entry.objectOffset, entry.seqNum⟩)) ∧
      (t.store.readEntry block = none → (flatRecords records).lookup block = none) := by
  have hopened := opened_openVolume hoffset hopen
  have hfirst : Saving env (State.opened v wal) :=
    ⟨⟨basic_opened hopened.entries wal, serial_opened v wal, agreeing_opened hopened wal⟩,
      fun _ hsaving => by cases hsaving⟩
  have hs := hrun.preserves (fun _ _ _ h hact hstep => h.step hact hstep) hfirst
  have ht := hs.step rfl hput
  obtain ⟨hrests, records, hphase⟩ := rests_putLive hput
  refine ⟨records, live_of_putLive hput hlands hphase, fun block => ?_⟩
  have hlookup : (flatRecords records).lookup block =
      (mapped env t block).map (singleRecord block) := by
    rw [hs.current records hphase, mapped, hrests.blocksToObject]
    exact lookup_flatRecords_expandEntries _ hs.agreeing.sound.wf (List.Perm.refl _) block
  obtain ⟨hpersisted, habsent⟩ := ht.agreeing.indexesAgree ht.basic hquiet block
  rw [hlookup]
  constructor
  · intro entry hentry hstate
    rw [hpersisted entry hentry hstate]
    rfl
  · intro hnone
    rw [habsent hnone]
    rfl

/-- The checkpoint of the drain has the second of the two blocks. -/
theorem stored_checkpoint_of_drainBoth :
    ∃ s t records, Run (step tinyEnv) (fun s act => drainsOnly s act && countsRun s act)
        (State.opened tinyVolume openRun.segment) (writeTwo ++ drainBoth) s ∧
      step tinyEnv s (.putLive .ok false) = some t ∧ t.volume.backend.live = some records ∧
      (flatRecords records).lookup 1 = some (singleRecord 1 ⟨0, 11, 2⟩) := by
  have hexec : ((exec (step tinyEnv) (fun s act => drainsOnly s act && countsRun s act)
      (State.opened tinyVolume openRun.segment) (writeTwo ++ drainBoth)).any fun s =>
        (step tinyEnv s (.putLive .ok false)).any fun t => !publishing t &&
          t.store.readEntry 1 == some ⟨[], 2, 0, 11, .persisted⟩) = true := by
    decide +kernel
  obtain ⟨s, hrun, hs⟩ := (Option.any_eq_true _ _).mp hexec
  obtain ⟨t, hput, ht⟩ := (Option.any_eq_true _ _).mp hs
  obtain ⟨hquiet, hentry⟩ := Bool.and_eq_true_iff.mp ht
  obtain ⟨records, hlive, hrecords⟩ := stored_checkpoint_is_current
    (fun records hsaved => absurd hsaved (not_saved_created records)) opens_tinyVolume
    (.of_exec hrun) hput rfl (by simpa using hquiet)
  exact ⟨s, t, records, .of_exec hrun, hput, hlive, (hrecords 1).1 _ (beq_iff_eq.mp hentry) rfl⟩

end Engine

end Viperblock
