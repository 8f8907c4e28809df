import Viperblock.GcSafety

/-!
# Snapshots taken by another engine pin their chunks

`CreateSnapshot` writes a marker before it freezes the block map, and a sweep
reads that marker again after it has selected its candidates.  The protocol is
sound only for a map that is read after the marker is written.  The engine that
takes snapshots of an attached volume reads the map when it loads the live
checkpoint, before the marker; and a sweeper may take its marker baseline
while a snapshot is between its marker and its `config.json`.

The main result states the two conditions under which every completed snapshot
keeps all its chunks for ever; the runs at the end break one condition each.
-/

namespace Viperblock

namespace GcSystem

open BlocksToObject BlockMap GuardedRun

/-- Chunks a sweep is deleting, its last check of the marker being passed. -/
def doomed : SweepPhase → List Nat
  | .deleting candidates => candidates
  | .untracking _ candidates => candidates
  | _ => []

section

variable (s : GcState)

/-- When a marker is written, every chunk of the loaded map exists and is not
being deleted; when a baseline is read, no snapshot is on its way. -/
def markedInTime : Act → Bool
  | .snapshot (.mark _) =>
    s.snapshotMap.objectIDs.all fun id =>
      s.chunks.contains id && !(doomed s.sweep).contains id
  | .sweep .readBaseline => s.snapshotPhase == .idle
  | _ => true

/-- Every chunk a completed snapshot names exists. -/
def SnapshotsClosed : Prop :=
  ∀ name checkpoint, s.snapshots.lookup name = some ⟨checkpoint, true⟩ →
    ∀ rec ∈ checkpoint, rec.objectID ∈ s.chunks

/-- The snapshot's `config.json` is written. -/
def HasConfig (name : Nat) : Prop :=
  ∃ checkpoint, s.snapshots.lookup name = some ⟨checkpoint, true⟩

/-- Some snapshot is complete or on its way. -/
def Active : Prop :=
  s.snapshotPhase ≠ .idle ∨ ∃ name, HasConfig s name

/-- Chunks the running `CreateSnapshot` call is going to name or has named. -/
def heldByCall : List Nat :=
  match s.snapshotPhase with
  | .idle => []
  | .marked _ => s.snapshotMap.objectIDs
  | .frozen _ checkpoint => checkpoint.map BlockLookup.objectID
  | .stored name =>
    match s.snapshots.lookup name with
    | some snapshot => snapshot.checkpoint.map BlockLookup.objectID
    | none => []

/-- Chunks named by a completed snapshot or by the running call. -/
def Pinned (id : Nat) : Prop :=
  id ∈ heldByCall s ∨ ∃ name checkpoint, s.snapshots.lookup name = some ⟨checkpoint, true⟩ ∧
      id ∈ checkpoint.map BlockLookup.objectID

/-- No sweep can pass its last check of the marker. -/
def Guarded : Prop :=
  match s.sweep with
  | .scanning baseline => baseline ≠ s.marker ∨ ∃ name, HasConfig s name
  | .probing baseline names =>
    baseline ≠ s.marker ∨ ∃ name ∈ names, HasConfig s name
  | _ => s.gcSnapshotSafe = some true → s.gcMarkerBaseline ≠ s.marker

end

/-- The sweep has not asked for the snapshot check. -/
def quiet : SweepPhase → Bool
  | .idle | .draining | .entered => true
  | _ => false

/-- The baseline of a scan in progress. -/
def scanBaseline : SweepPhase → Option (Option Marker)
  | .scanning baseline => some baseline
  | .probing baseline _ => some baseline
  | _ => none

/-- The marker was written before the given time. -/
def Older (clock : Nat) (marker : Option Marker) : Prop :=
  ∀ m, marker = some m → m.createdAt < clock

/-- The invariant behind the closure of snapshots. -/
structure SnapshotSafe (s : GcState) : Prop where
  pinned : ∀ id, Pinned s id → id ∈ s.chunks ∧ id ∉ doomed s.sweep
  guarded : Active s → Guarded s
  off_quiet : s.gcLatchedOff = true ∨ s.gcSnapshotSafe = some false → quiet s.sweep = true
  scanning : ∀ baseline, scanBaseline s.sweep = some baseline →
    s.gcSnapshotSafe = none ∧ Older s.clock baseline
  scanned : quiet s.sweep = false → scanBaseline s.sweep = none → s.gcSnapshotSafe = some true
  older : Older s.clock s.marker ∧ Older s.clock s.gcMarkerBaseline

section Steps

variable {stride : Nat} {s t : GcState}

theorem guarded_iff_of_not_scanning (hphase : scanBaseline s.sweep = none) :
    Guarded s ↔ (s.gcSnapshotSafe = some true → s.gcMarkerBaseline ≠ s.marker) := by
  unfold Guarded
  cases hsweep : s.sweep <;> simp_all [scanBaseline]

theorem scanBaseline_of_quiet {phase : SweepPhase} (hquiet : quiet phase = true) :
    scanBaseline phase = none ∧ doomed phase = [] := by
  cases phase <;> simp_all [quiet, scanBaseline, doomed]

theorem not_pinned_of_not_active (hactive : ¬ Active s) {id : Nat} :
    ¬ Pinned s id := by
  simp only [Active, not_or, not_not, not_exists] at hactive
  rintro (hheld | ⟨name, checkpoint, hlookup, -⟩)
  · simp [heldByCall, hactive.1] at hheld
  · exact hactive.2 name ⟨checkpoint, hlookup⟩

section

variable (hs : SnapshotSafe s)

include hs

theorem SnapshotSafe.guarded_quiet (hactive : Active s) :
    s.gcSnapshotSafe = some true → s.gcMarkerBaseline ≠ s.marker := by
  intro hsafe
  cases hscan : scanBaseline s.sweep with
  | none =>
    exact (guarded_iff_of_not_scanning hscan).mp (hs.guarded hactive) hsafe
  | some baseline =>
    have hnone := (hs.scanning baseline hscan).1
    rw [hsafe] at hnone
    simp at hnone

theorem SnapshotSafe.toQuiet {chunks : List Nat} (phase : SweepPhase)
    (hchunks : ∀ id ∈ s.chunks, id ∈ chunks) (hquiet : quiet phase = true) :
    SnapshotSafe { s with chunks := chunks, sweep := phase } := by
  obtain ⟨hscan, hdoomed⟩ := scanBaseline_of_quiet hquiet
  refine ⟨?_, ?_, fun _ => hquiet, ?_, ?_, hs.older⟩
  · intro id hid
    refine ⟨hchunks id (hs.pinned id hid).1, ?_⟩
    simp [hdoomed]
  · intro hactive
    rw [guarded_iff_of_not_scanning hscan]
    exact hs.guarded_quiet hactive
  · intro baseline hbaseline
    simp [hscan] at hbaseline
  · intro hbusy
    simp [hquiet] at hbusy

theorem SnapshotSafe.addChunks {chunks : List Nat} (hchunks : ∀ id ∈ s.chunks, id ∈ chunks) :
    SnapshotSafe { s with chunks := chunks } :=
  { hs with pinned := fun id hid =>
      ⟨hchunks id (hs.pinned id hid).1, (hs.pinned id hid).2⟩ }

theorem SnapshotSafe.endDrain (trigger : Trigger) (ok : Bool) :
    SnapshotSafe (endDrain s trigger ok) := by
  cases trigger with
  | sweep =>
    cases ok with
    | true => exact { hs.toQuiet .entered (fun _ h => h) rfl with }
    | false => exact { hs.toQuiet .idle (fun _ h => h) rfl with }
  | other => exact { hs with }

theorem drainStep_snapshotSafe (hstep : DrainStep stride s t) :
    SnapshotSafe t := by
  cases hstep with
  | beginSweep _ _ => exact { hs.toQuiet .draining (fun _ h => h) rfl with }
  | uploadOk _ _ =>
    exact { hs.addChunks (fun _ h => List.mem_cons_of_mem _ h) with }
  | uploadFailed id landed _ =>
    have hchunks : ∀ other ∈ s.chunks,
        other ∈ if landed = true then id :: s.chunks else s.chunks := by
      intro other hother
      split
      · exact List.mem_cons_of_mem _ hother
      · exact hother
    exact { hs.addChunks hchunks with }
  | putFailed landed _ =>
    refine SnapshotSafe.endDrain ?_ _ _
    exact { hs with }
  | clearDirty _ =>
    refine SnapshotSafe.endDrain ?_ _ _
    exact { hs with }
  | finish _ => exact hs.endDrain _ _
  | _ => exact { hs with }

theorem SnapshotSafe.toScanned (phase : SweepPhase)
    (hold : quiet s.sweep = false ∧ scanBaseline s.sweep = none)
    (hnew : quiet phase = false ∧ scanBaseline phase = none)
    (hdoomed : ∀ id ∈ doomed phase, id ∈ doomed s.sweep) :
    SnapshotSafe { s with sweep := phase } := by
  refine ⟨?_, ?_, ?_, ?_, fun _ _ => hs.scanned hold.1 hold.2, hs.older⟩
  · intro id hid
    exact ⟨(hs.pinned id hid).1, fun h => (hs.pinned id hid).2 (hdoomed id h)⟩
  · intro hactive
    rw [guarded_iff_of_not_scanning hnew.2]
    exact (guarded_iff_of_not_scanning hold.2).mp (hs.guarded hactive)
  · intro hoff
    have := hs.off_quiet hoff
    simp [hold.1] at this
  · intro baseline hbaseline
    simp [hnew.2] at hbaseline

theorem SnapshotSafe.pinned_spared {phase : SweepPhase} (hspared : doomed phase = []) :
    ∀ id, Pinned s id → id ∈ s.chunks ∧ id ∉ doomed phase :=
  fun id hid => ⟨(hs.pinned id hid).1, by simp [hspared]⟩

theorem SnapshotSafe.not_off (hbusy : quiet s.sweep = false) :
    ¬ (s.gcLatchedOff = true ∨ s.gcSnapshotSafe = some false) := by
  intro hoff
  simp [hs.off_quiet hoff] at hbusy

theorem SnapshotSafe.toScanning {baseline : Option Marker} {phase : SweepPhase}
    (hold : quiet s.sweep = false ∧ scanBaseline s.sweep = some baseline)
    (hnew : scanBaseline phase = some baseline ∧ doomed phase = [])
    (hguarded : Guarded s → Guarded { s with sweep := phase }) :
    SnapshotSafe { s with sweep := phase } := by
  refine ⟨hs.pinned_spared hnew.2, fun hactive => hguarded (hs.guarded hactive),
    fun hoff => absurd hoff (hs.not_off hold.1), ?_, by simp [hnew.1], hs.older⟩
  intro baseline' hbaseline
  obtain rfl := Option.some.inj (hnew.1.symm.trans hbaseline)
  exact hs.scanning baseline hold.2

/-- While no snapshot is on its way, an active one has its config already. -/
theorem SnapshotSafe.readBaseline (hidle : s.snapshotPhase = .idle)
    (hlatch : s.gcLatchedOff = false) (hunchecked : s.gcSnapshotSafe = none) :
    SnapshotSafe { s with sweep := .scanning s.marker } := by
  refine ⟨hs.pinned_spared rfl, ?_, ?_, ?_, by simp [scanBaseline], hs.older⟩
  · rintro (hbusy | hconfig)
    · exact absurd hidle hbusy
    · exact .inr hconfig
  · rintro (hoff | hoff)
    · simp [hlatch] at hoff
    · simp [hunchecked] at hoff
  · intro baseline hbaseline
    obtain rfl : s.marker = baseline := by
      simpa [scanBaseline] using hbaseline
    exact ⟨hunchecked, hs.older.1⟩

theorem SnapshotSafe.scanSafe {baseline : Option Marker} (hphase : s.sweep = .probing baseline []) :
    SnapshotSafe { s with
      gcMarkerBaseline := baseline, gcSnapshotSafe := some true, sweep := .safe } := by
  obtain ⟨-, holder⟩ := hs.scanning baseline (by simp [hphase, scanBaseline])
  refine ⟨hs.pinned_spared rfl, ?_, ?_, by simp [scanBaseline], fun _ _ => rfl,
    ⟨hs.older.1, holder⟩⟩
  · intro hactive _
    have hguarded := hs.guarded hactive
    simp only [Guarded, hphase] at hguarded
    simpa using hguarded
  · rintro (hoff | hoff)
    · exact absurd (.inl hoff) (hs.not_off (by simp [hphase, quiet]))
    · simp at hoff

/-- A guarded sweep finds the marker moved, so nothing is pinned where it is not. -/
theorem SnapshotSafe.markerSame {candidates : List Nat} (hphase : s.sweep = .selected candidates)
    (hsame : s.marker = s.gcMarkerBaseline) :
    SnapshotSafe { s with sweep := .deleting candidates } := by
  have hbusy : quiet s.sweep = false := by simp [hphase, quiet]
  have hsafe := hs.scanned hbusy (by simp [hphase, scanBaseline])
  have hactive : ¬ Active s := fun hactive => hs.guarded_quiet hactive hsafe hsame.symm
  exact ⟨fun id hid => absurd hid (not_pinned_of_not_active hactive),
    fun hactive' => absurd hactive' hactive, fun hoff => absurd hoff (hs.not_off hbusy),
    by simp [scanBaseline], fun _ _ => hsafe, hs.older⟩

/-- The chunk that was next to be deleted may be gone. -/
theorem SnapshotSafe.delete {id : Nat} {candidates chunks : List Nat} {phase : SweepPhase}
    (hphase : s.sweep = .deleting (id :: candidates))
    (hnew : quiet phase = false ∧ scanBaseline phase = none)
    (hdoomed : ∀ other ∈ doomed phase, other ∈ doomed s.sweep)
    (hkept : ∀ other ∈ s.chunks, other ≠ id → other ∈ chunks) :
    SnapshotSafe { s with chunks := chunks, sweep := phase } := by
  have hnext := hs.toScanned phase (by simp [hphase, quiet, scanBaseline]) hnew hdoomed
  refine { hnext with pinned := fun other hother => ⟨?_, (hnext.pinned other hother).2⟩ }
  obtain ⟨hexists, hspared⟩ := hs.pinned other hother
  refine hkept other hexists ?_
  rintro rfl
  simp [hphase, doomed] at hspared

end

theorem sweepStep_snapshotSafe (hs : SnapshotSafe s) {a : SweepAct}
    (hallowed : markedInTime s (.sweep a) = true) (hstep : SweepStep s a t) :
    SnapshotSafe t := by
  cases hstep with
  | stop => exact hs.toQuiet .idle (fun _ h => h) rfl
  | cached hphase hsafe hlatch =>
    refine ⟨hs.pinned_spared rfl, ?_, ?_, by simp [scanBaseline], fun _ _ => hsafe, hs.older⟩
    · intro hactive
      exact hs.guarded_quiet hactive
    · rintro (hoff | hoff)
      · simp [hlatch] at hoff
      · simp [hsafe] at hoff
  | readBaseline hphase hlatch hunchecked =>
    exact hs.readBaseline (by simpa [markedInTime] using hallowed) hlatch hunchecked
  | listPrefixes hphase =>
    refine hs.toScanning (by simp [hphase, quiet, scanBaseline]) ⟨rfl, rfl⟩ ?_
    simp only [Guarded, hphase]
    rintro (hmoved | ⟨name, hconfig⟩)
    · exact .inl hmoved
    · refine .inr ⟨name, ?_, hconfig⟩
      obtain ⟨checkpoint, hlookup⟩ := hconfig
      rw [← AList.mem_keys, ← AList.lookup_isSome, hlookup]
      rfl
  | scanSafe hphase => exact hs.scanSafe hphase
  | @scanUnsafe baseline name names hphase =>
    obtain ⟨-, holder⟩ := hs.scanning baseline (by simp [hphase, scanBaseline])
    refine ⟨hs.pinned_spared rfl, ?_, fun _ => rfl, by simp [scanBaseline], by simp [quiet],
      ⟨hs.older.1, holder⟩⟩
    intro _ hsafe
    simp at hsafe
  | probeNext hphase hmissing =>
    refine hs.toScanning (by simp [hphase, quiet, scanBaseline]) ⟨rfl, rfl⟩ ?_
    simp only [Guarded, hphase]
    rintro (hmoved | ⟨name', hmem, hconfig⟩)
    · exact .inl hmoved
    · rcases List.mem_cons.mp hmem with rfl | hrest
      · obtain ⟨checkpoint, hlookup⟩ := hconfig
        exact absurd hlookup (hmissing checkpoint)
      · exact .inr ⟨name', hrest, hconfig⟩
  | skipListing hphase =>
    exact hs.toScanned _ (by simp [hphase, quiet, scanBaseline]) (by decide)
      (by simp [doomed])
  | reconcile hphase =>
    exact { hs.toScanned .reconciled
      (by simp [hphase, quiet, scanBaseline]) ⟨rfl, rfl⟩ (by simp [doomed]) with }
  | readFloor cached hphase =>
    exact { hs.toScanned (.floored _)
      (by simp [hphase, quiet, scanBaseline]) ⟨rfl, rfl⟩ (by simp [doomed]) with }
  | list hphase | readWatermark hphase | select hphase =>
    exact hs.toScanned _ (by simp [hphase, quiet, scanBaseline]) ⟨rfl, rfl⟩
      (by simp [doomed])
  | markerSame hphase hsame => exact hs.markerSame hphase hsame
  | markerMoved hphase =>
    exact { hs.toQuiet .idle (fun _ h => h) rfl with
      off_quiet := fun _ => rfl }
  | deleteOk hphase =>
    exact hs.delete hphase ⟨rfl, rfl⟩ (by simp +contextual [doomed, hphase])
      (by simp +contextual)
  | deleteFailed landed hphase =>
    refine hs.delete hphase ⟨rfl, rfl⟩ (by simp +contextual [doomed, hphase]) ?_
    intro other hother hne
    split
    · simp [hother, hne]
    · exact hother
  | untrack hphase =>
    exact { hs.toScanned (.deleting _)
      (by simp [hphase, quiet, scanBaseline]) ⟨rfl, rfl⟩
      (by simp [doomed, hphase]) with }

theorem SnapshotSafe.setSnapshots (hs : SnapshotSafe s) (snapshots : AList fun _ : Nat => Snapshot)
    {phase : SnapshotPhase} (hactive : Active s)
    (hpinned : ∀ id, Pinned { s with snapshots := snapshots, snapshotPhase := phase } id → Pinned s
      id)
    (hconfig : ∀ name, HasConfig s name → HasConfig { s with snapshots := snapshots, snapshotPhase
      := phase } name) :
    SnapshotSafe { s with snapshots := snapshots, snapshotPhase := phase } := by
  refine { hs with pinned := fun id hid => hs.pinned id (hpinned id hid), guarded := ?_ }
  intro _
  have hguarded := hs.guarded hactive
  revert hguarded
  unfold Guarded
  dsimp only
  split
  · rintro (hmoved | ⟨name, hname⟩)
    · exact .inl hmoved
    · exact .inr ⟨name, hconfig name hname⟩
  · rintro (hmoved | ⟨name, hmem, hname⟩)
    · exact .inl hmoved
    · exact .inr ⟨name, hmem, hconfig name hname⟩
  · exact id

theorem SnapshotSafe.storeSnapshot (hs : SnapshotSafe s)
    {snapshotID : Nat} {checkpoint : List BlockLookup} {config : Bool} {phase : SnapshotPhase}
    (hactive : Active s) (hheld : heldByCall s = checkpoint.map BlockLookup.objectID)
    (hphase : phase = .stored snapshotID ∨ phase = .idle)
    (hconfig : HasConfig s snapshotID → config = true) :
    SnapshotSafe { s with
      snapshots := s.snapshots.insert snapshotID ⟨checkpoint, config⟩
      snapshotPhase := phase } := by
  refine hs.setSnapshots _ hactive ?_ ?_
  · rintro id (hnew | ⟨name, stored, hstored, hid⟩)
    · left
      rw [hheld]
      rcases hphase with rfl | rfl
      · simpa [heldByCall] using hnew
      · simp [heldByCall] at hnew
    · rcases FiniteMap.lookup_insert_eq_some hstored with ⟨-, heq⟩ | hstored
      · cases heq
        exact .inl (hheld ▸ hid)
      · exact .inr ⟨name, stored, hstored, hid⟩
  · rintro name ⟨stored, hstored⟩
    by_cases hname : name = snapshotID
    · subst hname
      obtain rfl := hconfig ⟨stored, hstored⟩
      exact ⟨checkpoint, AList.lookup_insert _⟩
    · exact ⟨stored, (AList.lookup_insert_ne hname).trans hstored⟩

/-- A marker written now differs from every marker read before. -/
theorem ne_fresh_marker (snapshotID : Nat) {clock : Nat} {marker : Option Marker}
    (holder : Older clock marker) :
    marker ≠ some ⟨snapshotID, clock⟩ := by
  rintro rfl
  exact Nat.lt_irrefl _ (holder _ rfl)

theorem Older.succ {clock : Nat} {marker : Option Marker} (holder : Older clock marker) :
    Older (clock + 1) marker :=
  fun m hm => Nat.lt_succ_of_lt (holder m hm)

/-- Writing the marker pins the loaded map and guards it. -/
theorem SnapshotSafe.mark (hs : SnapshotSafe s) {snapshotID : Nat}
    (hallowed : markedInTime s (.snapshot (.mark snapshotID)) = true) :
    SnapshotSafe { s with
      marker := some ⟨snapshotID, s.clock⟩
      clock := s.clock + 1
      snapshotPhase := .marked snapshotID } := by
  refine ⟨?_, ?_, hs.off_quiet, ?_, hs.scanned, ?_⟩
  · rintro id (hheld | hstored)
    · simp only [markedInTime, List.all_eq_true, Bool.and_eq_true,
        List.contains_eq_mem, decide_eq_true_eq, Bool.not_eq_true',
        decide_eq_false_iff_not] at hallowed
      exact hallowed id hheld
    · exact hs.pinned id (.inr hstored)
  · intro _
    cases hscan : scanBaseline s.sweep with
    | none =>
      rw [guarded_iff_of_not_scanning (by exact hscan)]
      intro _
      exact ne_fresh_marker _ hs.older.2
    | some baseline =>
      have hne := ne_fresh_marker snapshotID
        (hs.scanning baseline hscan).2
      cases hsweep : s.sweep with
      | scanning baseline' =>
        obtain rfl : baseline' = baseline := by
          simpa [hsweep, scanBaseline] using hscan
        exact .inl hne
      | probing baseline' names =>
        obtain rfl : baseline' = baseline := by
          simpa [hsweep, scanBaseline] using hscan
        exact .inl hne
      | _ => simp [hsweep, scanBaseline] at hscan
  · intro baseline hbaseline
    obtain ⟨hunchecked, holder⟩ := hs.scanning baseline hbaseline
    exact ⟨hunchecked, holder.succ⟩
  · refine ⟨?_, hs.older.2.succ⟩
    intro m hm
    cases hm
    exact Nat.lt_succ_self _

theorem snapshotStep_snapshotSafe (hs : SnapshotSafe s) {a : SnapshotAct}
    (hallowed : markedInTime s (.snapshot a) = true) (hstep : SnapshotStep stride s a t) :
    SnapshotSafe t := by
  cases hstep with
  | load loaded hidle =>
    refine { hs with pinned := ?_ }
    rintro id (hheld | hstored)
    · simp [heldByCall, hidle] at hheld
    · exact hs.pinned id (.inr hstored)
  | mark hidle => exact hs.mark hallowed
  | @freeze snapshotID hphase =>
    have hactive : Active s := .inl (by simp [hphase])
    refine hs.setSnapshots s.snapshots hactive ?_ (fun _ h => h)
    rintro id (hheld | hstored)
    · left
      obtain ⟨rec, hrec, rfl⟩ := List.mem_map.mp hheld
      simp only [heldByCall, hphase]
      exact objectID_mem_of_mem_checkpointRecords hrec
    · exact .inr hstored
  | storeCheckpoint hphase =>
    refine hs.storeSnapshot (.inl (by simp [hphase])) (by simp [heldByCall, hphase])
      (.inl rfl) ?_
    rintro ⟨stored, hlookup⟩
    simp [hlookup]
  | storeConfig hphase hlookup =>
    exact hs.storeSnapshot (.inl (by simp [hphase])) (by simp [heldByCall, hphase, hlookup])
      (.inr rfl) fun _ => rfl
  | abandon =>
    refine { hs with pinned := ?_, guarded := ?_ }
    · rintro id (hheld | hstored)
      · simp [heldByCall] at hheld
      · exact hs.pinned id (.inr hstored)
    · rintro (hbusy | hconfig)
      · exact absurd rfl hbusy
      · exact hs.guarded (.inr hconfig)

theorem step_snapshotSafe (hs : SnapshotSafe s) {a : Act} (hallowed : markedInTime s a = true)
    (hstep : step stride s a = some t) :
    SnapshotSafe t := by
  cases a with
  | drain a => exact drainStep_snapshotSafe hs (drainStep_inv hstep)
  | sweep a => exact sweepStep_snapshotSafe hs hallowed (sweepStep_inv hstep)
  | snapshot a =>
    exact snapshotStep_snapshotSafe hs hallowed (snapshotStep_inv hstep)

end Steps

section Runs

variable {stride : Nat} {s : GcState}

/-- In a run whose markers are written in time, every chunk a completed
snapshot names exists in every state reached. -/
theorem snapshotsClosed_of_run {volume : Volume} {loaded : List BlockLookup} {objectNum : Nat}
    {acts : List Act} (hclosed : SnapshotsClosed (opened stride volume loaded objectNum))
    (hmarker : Older volume.clock volume.marker)
    (hrun : Run (step stride) (fun s a => markedInTime s a = true) (opened stride volume loaded
      objectNum) acts s) :
    SnapshotsClosed s := by
  have hopened : SnapshotSafe (opened stride volume loaded objectNum) := by
    refine ⟨?_, ?_, fun _ => rfl, ?_, ?_, hmarker, ?_⟩
    · rintro id (hheld | ⟨name, checkpoint, hlookup, hid⟩)
      · simp [heldByCall, opened] at hheld
      · obtain ⟨rec, hrec, rfl⟩ := List.mem_map.mp hid
        exact ⟨hclosed name checkpoint hlookup rec hrec, by simp [opened, doomed]⟩
    · intro _ hsafe
      simp [opened] at hsafe
    · simp [opened, scanBaseline]
    · simp [opened, quiet]
    · intro m hm
      simp [opened] at hm
  have hsafe := hrun.preserves
    (fun _ _ _ hs hallowed hstep => step_snapshotSafe hs hallowed hstep) hopened
  intro name checkpoint hlookup rec hrec
  exact (hsafe.pinned _
    (.inr ⟨name, checkpoint, hlookup, List.mem_map_of_mem hrec⟩)).1

/-- Executable form of the closure of snapshots. -/
def snapshotsClosedTest (s : GcState) : Bool :=
  s.snapshots.entries.all fun entry =>
    !entry.2.config || recordsClosed s.chunks entry.2.checkpoint

theorem SnapshotsClosed.test (hs : SnapshotsClosed s) :
    snapshotsClosedTest s = true := by
  unfold snapshotsClosedTest
  rw [List.all_eq_true]
  rintro ⟨name, checkpoint, config⟩ hmem
  cases config with
  | false => rfl
  | true =>
    have hlookup := FiniteMap.mem_entries_iff.mp hmem
    simpa [recordsClosed] using hs name checkpoint hlookup

/-- The calls of `CreateSnapshot` after the marker. -/
def completeSnapshot : List Act :=
  [.snapshot .freeze, .snapshot .storeCheckpoint, .snapshot .storeConfig]

/-- A snapshot whose map is loaded after the rewriting sweep. -/
def sweepThenSnapshot : List Act :=
  rewriteThenSweep ++ [.snapshot .load, .snapshot (.mark 7)] ++ completeSnapshot

/-- That snapshot is complete and keeps its chunk. -/
theorem snapshotsClosed_sweepThenSnapshot :
    ∃ s, Run (step 4096) (fun s a => markedInTime s a = true)
        (opened 4096 oneBlockVolume oneBlock 1) sweepThenSnapshot s ∧
      s.snapshots.keys = [7] ∧ SnapshotsClosed s := by
  obtain ⟨s, hrun, hkeys⟩ := Run.exists_of_exec
    (step 4096) (fun s a => markedInTime s a = true)
    (opened 4096 oneBlockVolume oneBlock 1) sweepThenSnapshot
    (fun s => s.snapshots.keys == [7]) (by decide)
  refine ⟨s, hrun, by simpa using hkeys, snapshotsClosed_of_run ?_ ?_ hrun⟩
  · intro name checkpoint hlookup
    simp [opened, oneBlockVolume] at hlookup
  · simp [Older, oneBlockVolume]

/-- The other engine loads the map, the sweep of the serving engine then
deletes chunk 0, and only after that the snapshot is marked and taken. -/
def loadBeforeSweep : List Act :=
  [.snapshot .load] ++ rewriteThenSweep ++ [.snapshot (.mark 7)] ++ completeSnapshot

/-- The completed snapshot names a chunk the sweep has deleted. -/
theorem loadBeforeSweep_loses_snapshot_chunk :
    ∃ s, Run (step 4096) (fun _ _ => True)
        (opened 4096 oneBlockVolume oneBlock 1) loadBeforeSweep s ∧
      ¬ SnapshotsClosed s := by
  obtain ⟨s, hrun, hlost⟩ := Run.exists_of_exec
    (step 4096) (fun _ _ => True)
    (opened 4096 oneBlockVolume oneBlock 1) loadBeforeSweep
    (fun s => !snapshotsClosedTest s) (by decide)
  refine ⟨s, hrun, fun hclosed => ?_⟩
  simp [hclosed.test] at hlost

end Runs

end GcSystem

end Viperblock
