import Viperblock.RefCounts

/-!
# A sweep leaves no garbage

Chunk objects go out of use when their last entry is replaced, when all their runs
are held back, or when an earlier process left them behind.  The counts hold every
chunk object the engine has put into the map or held back, and one listing in the
life of the engine adds those it does not know.  So once the listing has been taken,
every chunk object has a count, and a sweep that deletes all chunks with count zero
leaves only those the map names.

The engine runs alone: no snapshot is taken, its drains and sweeps do not overlap, and
an upload that fails leaves no object.  No block is the very last one, whose entry would
have no end in 64 bits.
-/

namespace Viperblock

namespace GcSystem

open BlocksToObject BlockMap GuardedRun RefCounts

/-- Drains and sweeps take turns, a drain submits no chunk without blocks and none with the
very last block, and a failed upload leaves no object. -/
def alone (s : GcState) : Act → Bool
  | .drain (.begin .other) => decide (s.sweep = .idle)
  | .drain (.allocate blocks) =>
    !blocks.isEmpty && blocks.all fun w => decide (w.block + 1 < 2 ^ 64)
  | .drain (.upload _ ok landed) => ok || !landed
  | .snapshot _ => false
  | _ => true

/-- The sweep goes on: its listing, its read of the floor and its deletes succeed. -/
def succeeds : Act → Bool
  | .sweep (.listChunks ok) => ok
  | .sweep (.readFloor ok) => ok
  | .sweep (.delete ok _) => ok
  | .sweep .abandon => false
  | _ => true

/-- What a phase of the sweep remembers of the chunk objects is so. -/
def remembers (chunks : List Nat) : SweepPhase → Prop
  | .listed ids => ids = chunks
  | .untracking id _ => id ∉ chunks
  | _ => True

/-- The invariant of an engine that runs alone.  `missing` holds of the chunks that
were named and not there when the volume was opened. -/
structure Clean (missing : Nat → Prop) (s : GcState) : Prop where
  sound : s.blocksToObject.Sound
  fit : s.blocksToObject.blockLookup.EndsFit
  counted : s.blocksToObject.gcRefcount.isSome
  named_lt : ∀ id ∈ s.blocksToObject.blockLookup.objectIDs, id < s.objectNum
  upload_lt : ∀ id ∈ s.uploads, id < s.objectNum
  upload_blocks : ∀ id up, s.uploads.lookup id = some up →
    up.blocks ≠ [] ∧ ∀ w ∈ up.blocks, w.block + 1 < 2 ^ 64
  uploaded : ∀ id blocks, s.uploads.lookup id = some ⟨blocks, true⟩ → id ∈ s.chunks
  tracked : s.gcReconciled = true → ∀ id ∈ s.chunks,
    id ∈ refs s ∨ ∃ blocks, s.uploads.lookup id = some ⟨blocks, true⟩
  named_exists : ∀ id ∈ s.blocksToObject.blockLookup.objectIDs, id ∈ s.chunks ∨ missing id
  pending : ∀ id ∈ pendingDeletes s.sweep, id ∉ s.blocksToObject.blockLookup.objectIDs
  turns : s.sweep = .idle ∨ s.sweep = .draining ∨ s.drain = .idle
  uploads_empty : (∀ trigger failed, s.drain ≠ .uploading trigger failed) → s.uploads = ∅
  remembered : remembers s.chunks s.sweep
  floor_zero : ∀ floor, s.gcFloor = some floor → floor = 0
  numbered_zero : numberedFloor s.numbered = 0

section Steps

variable {stride : Nat} {missing : Nat → Prop} {s t : GcState}

section

variable (hs : Clean missing s)

include hs

theorem Clean.waiting (hdrain : s.drain ≠ .idle) :
    s.sweep = .idle ∨ s.sweep = .draining := by
  rcases hs.turns with hidle | hdraining | hdone
  · exact .inl hidle
  · exact .inr hdraining
  · exact absurd hdone hdrain

theorem Clean.pending_nil (hdrain : s.drain ≠ .idle) :
    pendingDeletes s.sweep = [] := by
  rcases hs.waiting hdrain with hphase | hphase <;> rw [hphase] <;> rfl

theorem Clean.remembers_any (hdrain : s.drain ≠ .idle) (chunks : List Nat) :
    remembers chunks s.sweep := by
  rcases hs.waiting hdrain with hphase | hphase <;> rw [hphase] <;> trivial

theorem Clean.uploading {id : Nat} {up : Upload} (hlookup : s.uploads.lookup id = some up) :
    ∃ trigger failed, s.drain = .uploading trigger failed := by
  by_contra hnone
  have hempty := hs.uploads_empty fun trigger failed h => hnone ⟨trigger, failed, h⟩
  rw [hempty] at hlookup
  cases hlookup

theorem Clean.setDrain (hempty : s.uploads = ∅) (hwaiting : s.sweep = .idle ∨ s.sweep = .draining)
    (phase : DrainPhase) :
    Clean missing { s with drain := phase } :=
  { hs with
    turns := hwaiting.imp_right .inl
    uploads_empty := fun _ => hempty }

theorem Clean.endDrain (hempty : s.uploads = ∅) (trigger : Trigger) (ok : Bool) :
    Clean missing (endDrain s trigger ok) := by
  cases trigger with
  | other =>
    exact { hs with turns := .inr (.inr rfl), uploads_empty := fun _ => hempty }
  | sweep =>
    refine { hs with
      turns := .inr (.inr rfl)
      uploads_empty := fun _ => hempty
      pending := ?_
      remembered := ?_ }
    · cases ok <;> exact fun id hid => absurd hid List.not_mem_nil
    · cases ok <;> trivial

theorem Clean.setLive (live : Option (List BlockLookup)) :
    Clean missing { s with live := live } :=
  { hs with }

section

variable {blocks : List Block}

theorem Clean.allocate {trigger : Trigger} {failed : Bool}
    (hdrain : s.drain = .uploading trigger failed)
    (hblocks : blocks ≠ [] ∧ ∀ w ∈ blocks, w.block + 1 < 2 ^ 64) :
    Clean missing { s with
      objectNum := s.objectNum + 1
      uploads := s.uploads.insert s.objectNum ⟨blocks, false⟩ } := by
  have hold : ∀ id blocks', s.uploads.lookup id = some ⟨blocks', true⟩ →
      (s.uploads.insert s.objectNum ⟨blocks, false⟩).lookup id = some ⟨blocks', true⟩ := by
    intro id blocks' hid
    have hlt := hs.upload_lt id (AList.lookup_isSome.mp (by rw [hid]; rfl))
    rwa [AList.lookup_insert_ne hlt.ne]
  refine { hs with
    named_lt := fun id hid => Nat.lt_succ_of_lt (hs.named_lt id hid)
    upload_lt := ?_
    upload_blocks := ?_
    uploaded := ?_
    tracked := ?_
    uploads_empty := fun h => absurd hdrain (h trigger failed) }
  · intro id hid
    rcases (AList.mem_insert s.uploads).mp hid with rfl | hid
    · exact Nat.lt_succ_self _
    · exact Nat.lt_succ_of_lt (hs.upload_lt id hid)
  · intro id up hup
    rcases FiniteMap.lookup_insert_eq_some hup with ⟨-, rfl⟩ | hup
    · exact hblocks
    · exact hs.upload_blocks id up hup
  · intro id blocks' hid
    rcases FiniteMap.lookup_insert_eq_some hid with ⟨-, hnew⟩ | hid
    · cases hnew
    · exact hs.uploaded id blocks' hid
  · intro hreconciled id hid
    refine (hs.tracked hreconciled id hid).imp_right ?_
    rintro ⟨blocks', hup⟩
    exact ⟨blocks', hold id blocks' hup⟩

theorem Clean.uploadOk {id : Nat} (hlookup : s.uploads.lookup id = some ⟨blocks, false⟩) :
    Clean missing { s with
      uploads := s.uploads.insert id ⟨blocks, true⟩
      chunks := id :: s.chunks } := by
  obtain ⟨trigger, failed, hdrain⟩ := hs.uploading hlookup
  have hbusy : s.drain ≠ .idle := by
    rw [hdrain]
    rintro ⟨⟩
  have hmem : id ∈ s.uploads := AList.lookup_isSome.mp (by rw [hlookup]; rfl)
  refine { hs with
    upload_lt := ?_
    upload_blocks := ?_
    uploaded := ?_
    tracked := ?_
    named_exists := fun other hother =>
      (hs.named_exists other hother).imp_left (List.mem_cons_of_mem _)
    uploads_empty := fun h => absurd hdrain (h trigger failed)
    remembered := hs.remembers_any hbusy _ }
  · intro other hother
    rcases (AList.mem_insert s.uploads).mp hother with rfl | hother
    · exact hs.upload_lt other hmem
    · exact hs.upload_lt other hother
  · intro other up hup
    rcases FiniteMap.lookup_insert_eq_some hup with ⟨-, rfl⟩ | hup
    · exact hs.upload_blocks id ⟨blocks, false⟩ hlookup
    · exact hs.upload_blocks other up hup
  · intro other blocks' hother
    rcases FiniteMap.lookup_insert_eq_some hother with ⟨rfl, -⟩ | hother
    · exact List.mem_cons_self
    · exact List.mem_cons_of_mem _ (hs.uploaded other blocks' hother)
  · intro hreconciled other hother
    by_cases hid : other = id
    · exact .inr ⟨blocks, by rw [hid, AList.lookup_insert]⟩
    · rcases hs.tracked hreconciled other ((List.mem_cons.mp hother).resolve_left hid) with
        hcount | ⟨blocks', hup⟩
      · exact .inl hcount
      · exact .inr ⟨blocks', by rwa [AList.lookup_insert_ne hid]⟩

theorem Clean.uploadFailed {id : Nat} {trigger : Trigger}
    (hlookup : s.uploads.lookup id = some ⟨blocks, false⟩) :
    Clean missing { s with
      uploads := s.uploads.erase id
      drain := .uploading trigger true } := by
  obtain ⟨_, _, hdrain⟩ := hs.uploading hlookup
  have hbusy : s.drain ≠ .idle := by
    rw [hdrain]
    rintro ⟨⟩
  refine { hs with
    upload_lt := fun other hother => hs.upload_lt other (AList.mem_erase.mp hother).2
    upload_blocks := fun other up hup =>
      hs.upload_blocks other up (FiniteMap.lookup_erase_eq_some hup).2
    uploaded := fun other blocks' hother =>
      hs.uploaded other blocks' (FiniteMap.lookup_erase_eq_some hother).2
    tracked := ?_
    turns := (hs.waiting hbusy).imp_right .inl
    uploads_empty := fun h => absurd rfl (h trigger true) }
  intro hreconciled other hother
  refine (hs.tracked hreconciled other hother).imp_right ?_
  rintro ⟨blocks', hup⟩
  refine ⟨blocks', ?_⟩
  by_cases hid : other = id
  · rw [hid, hlookup] at hup
    cases hup
  · rwa [AList.lookup_erase_ne hid]

/-- A chunk that enters the map, or is held back, has a count from then on. -/
theorem Clean.publish {id : Nat} (hlookup : s.uploads.lookup id = some ⟨blocks, true⟩) :
    Clean missing { s with
      uploads := s.uploads.erase id
      blocksToObject := publishChunk stride id s.blocksToObject blocks
      dirty := true } := by
  obtain ⟨trigger, failed, hdrain⟩ := hs.uploading hlookup
  have hbusy : s.drain ≠ .idle := by
    rw [hdrain]
    rintro ⟨⟩
  have hmem : id ∈ s.uploads := AList.lookup_isSome.mp (by rw [hlookup]; rfl)
  have hkeeps := keeps_publishChunk stride id s.blocksToObject blocks
  obtain ⟨hblocks, hlast⟩ := hs.upload_blocks id _ hlookup
  refine { hs with
    sound := hs.sound.publishChunk blocks
    fit := (publishChunkWords_eq stride id hs.sound hs.fit hlast).2
    counted := hkeeps.isSome hs.counted
    named_lt := ?_
    upload_lt := fun other hother => hs.upload_lt other (AList.mem_erase.mp hother).2
    upload_blocks := fun other up hup =>
      hs.upload_blocks other up (FiniteMap.lookup_erase_eq_some hup).2
    uploaded := fun other blocks' hother =>
      hs.uploaded other blocks' (FiniteMap.lookup_erase_eq_some hother).2
    tracked := ?_
    named_exists := ?_
    pending := ?_
    uploads_empty := fun h => absurd hdrain (h trigger failed) }
  · intro other hother
    rcases mem_objectIDs_publishChunk hs.sound hother with hold | rfl
    · exact hs.named_lt other hold
    · exact hs.upload_lt other hmem
  · intro hreconciled other hother
    by_cases hid : other = id
    · rw [hid]
      exact .inl (mem_getD_publishChunk hs.counted stride id hblocks)
    · rcases hs.tracked hreconciled other hother with hcount | ⟨blocks', hup⟩
      · exact .inl (hkeeps.mem_getD hcount)
      · exact .inr ⟨blocks', by rwa [AList.lookup_erase_ne hid]⟩
  · intro other hother
    rcases mem_objectIDs_publishChunk hs.sound hother with hold | rfl
    · exact hs.named_exists other hold
    · exact .inl (hs.uploaded other blocks hlookup)
  · rw [hs.pending_nil hbusy]
    exact fun other hother => absurd hother List.not_mem_nil

end

theorem Clean.uploads_eq_empty {phase : DrainPhase} (hdrain : s.drain = phase)
    (hphase : ∀ trigger failed, phase ≠ .uploading trigger failed) :
    s.uploads = ∅ :=
  hs.uploads_empty (hdrain ▸ hphase)

theorem Clean.begin (hidle : s.drain = .idle) (trigger : Trigger) {phase : SweepPhase}
    (hphase : phase = .idle ∨ phase = .draining) :
    Clean missing { s with drain := .uploading trigger false, sweep := phase } := by
  refine { hs with
    pending := ?_
    turns := hphase.imp_right .inl
    uploads_empty := fun _ => hs.uploads_eq_empty hidle (by rintro _ _ ⟨⟩)
    remembered := ?_ }
  · rcases hphase with rfl | rfl <;> exact fun id hid => absurd hid List.not_mem_nil
  · rcases hphase with rfl | rfl <;> trivial

theorem drainStep_clean {a : DrainAct} (halone : alone s (.drain a) = true)
    (hstep : drainStep stride s a = some t) :
    Clean missing t := by
  have hempty : ∀ {phase}, s.drain = phase → (∀ t f, phase ≠ .uploading t f) →
      s.uploads = ∅ := fun hdrain => hs.uploads_eq_empty hdrain
  have hwaiting : ∀ {phase}, s.drain = phase → phase ≠ .idle →
      s.sweep = .idle ∨ s.sweep = .draining := fun hdrain hne => hs.waiting (hdrain ▸ hne)
  revert hstep
  fun_cases drainStep stride s a <;> intro hstep <;> cases hstep
  · exact hs.begin ‹_› .other (.inl (of_decide_eq_true halone))
  · rename_i hidle
    exact hs.begin hidle.1 .sweep (.inr rfl)
  · exact hs.allocate ‹_› (by simpa [alone] using halone)
  · exact hs.uploadOk ‹_›
  · rename_i landed _ _ _ hlookup _ hfailed
    rw [Bool.eq_false_iff.mpr hfailed] at halone
    obtain rfl : landed = false := by simpa [alone] using halone
    exact hs.uploadFailed hlookup
  · exact hs.publish ‹_›
  · exact hs.endDrain (eq_empty_of_keys ‹_›) _ false
  · rename_i hdrain hkeys _
    exact hs.setDrain (eq_empty_of_keys hkeys) (hwaiting hdrain (by simp)) _
  · exact hs.endDrain (eq_empty_of_keys ‹_›) _ false
  · rename_i hdrain _
    exact hs.setDrain (hempty hdrain (by simp)) (hwaiting hdrain (by simp)) _
  · rename_i hdrain _
    exact hs.endDrain (hempty hdrain (by simp)) _ true
  · rename_i checkpoint _ hdrain
    exact (hs.setLive (some checkpoint)).setDrain (hempty hdrain (by simp))
      (hwaiting hdrain (by simp)) _
  · rename_i landed _ checkpoint _ hdrain _ _ _
    cases landed
    · exact hs.setDrain (hempty hdrain (by simp)) (hwaiting hdrain (by simp)) _
    · exact (hs.setLive (some checkpoint)).setDrain (hempty hdrain (by simp))
        (hwaiting hdrain (by simp)) _
  · rename_i landed _ checkpoint _ hdrain _ _ _
    cases landed
    · exact hs.endDrain (hempty hdrain (by simp)) _ false
    · exact (hs.setLive (some checkpoint)).endDrain (hempty hdrain (by simp)) _ false
  · rename_i hdrain _
    exact hs.endDrain (hempty hdrain (by simp)) _ false
  · rename_i hdrain
    have hcleared : Clean missing { s with dirty := false } := { hs with }
    exact hcleared.endDrain (hempty hdrain (by simp)) _ true

theorem Clean.drain_idle {phase : SweepPhase} (hphase : s.sweep = phase) (hidle : phase ≠ .idle)
    (hdraining : phase ≠ .draining) :
    s.drain = .idle := by
  rcases hs.turns with h | h | h
  · exact absurd (hphase.symm.trans h) hidle
  · exact absurd (hphase.symm.trans h) hdraining
  · exact h

theorem Clean.setSweep (phase : SweepPhase) (hturns : phase = .idle ∨ s.drain = .idle)
    (hpending : pendingDeletes phase = []) (hremembers : remembers s.chunks phase) :
    Clean missing { s with sweep := phase } :=
  { hs with
    pending := by rw [hpending]; exact fun id hid => absurd hid List.not_mem_nil
    turns := hturns.imp_right .inr
    remembered := hremembers }

end

theorem mem_foldl_trackRef {ids : List Nat} {rc : Refcount} {id : Nat} (hid : id ∈ ids ∨ id ∈ rc) :
    id ∈ ids.foldl (fun rc id => trackRef id rc) rc := by
  induction ids generalizing rc with
  | nil => exact hid.resolve_left List.not_mem_nil
  | cons i ids ih =>
    refine ih ?_
    rcases hid with hid | hid
    · rcases List.mem_cons.mp hid with rfl | hid
      · exact .inr ((mem_trackRef _).mpr (.inl rfl))
      · exact .inl hid
    · exact .inr ((mem_trackRef _).mpr (.inr hid))

theorem mem_refs_mapRefs {b : BlocksToObject} (hb : b.gcRefcount.isSome)
    {f : Refcount → Refcount} {id : Nat} (hid : id ∈ f (b.gcRefcount.getD ∅)) :
    id ∈ (mapRefs f b).gcRefcount.getD ∅ := by
  obtain ⟨rc, hrc⟩ := Option.isSome_iff_exists.mp hb
  rw [hrc] at hid
  rw [mapRefs, hrc]
  exact hid

/-- Once the listing is taken every chunk object has a count. -/
theorem Clean.reconcile (hs : Clean missing s) {ids : List Nat} (hphase : s.sweep = .listed ids) :
    Clean missing { s with
      blocksToObject :=
        mapRefs (fun rc => ids.foldl (fun rc id => trackRef id rc) rc) s.blocksToObject
      gcReconciled := true
      sweep := .reconciled } := by
  have hdrain := hs.drain_idle hphase (by rintro ⟨⟩) (by rintro ⟨⟩)
  have hids : ids = s.chunks := by
    have hremembered := hs.remembered
    rwa [hphase] at hremembered
  refine { hs.setSweep .reconciled (.inr hdrain) rfl trivial with
    sound := mapRefs_sound hs.sound fun rc _ id => getD_foldl_trackRef _ rc id
    counted := isSome_mapRefs hs.counted _
    tracked := fun _ id hid => .inl ?_ }
  exact mem_refs_mapRefs hs.counted (mem_foldl_trackRef (.inl (hids ▸ hid)))

theorem Clean.deleteChunk (hs : Clean missing s)
    {id : Nat} {candidates chunks : List Nat} {phase : SweepPhase}
    (hphase : s.sweep = .deleting (id :: candidates)) (hsub : ∀ other ∈ chunks, other ∈ s.chunks)
    (hkept : ∀ other ∈ s.chunks, other ≠ id → other ∈ chunks)
    (hpending : ∀ other ∈ pendingDeletes phase, other ∈ id :: candidates)
    (hremembers : remembers chunks phase) :
    Clean missing { s with chunks := chunks, sweep := phase } := by
  have hdrain := hs.drain_idle hphase (by rintro ⟨⟩) (by rintro ⟨⟩)
  have hempty := hs.uploads_eq_empty hdrain (by rintro _ _ ⟨⟩)
  have hold := hs.pending
  rw [hphase] at hold
  refine { hs with
    uploaded := fun other blocks hother => ?_
    tracked := fun hreconciled other hother => hs.tracked hreconciled other (hsub other hother)
    named_exists := fun other hother => ?_
    pending := fun other hother => hold other (hpending other hother)
    turns := .inr (.inr hdrain)
    remembered := hremembers }
  · dsimp only at hother
    rw [hempty] at hother
    cases hother
  · refine (hs.named_exists other hother).imp_left fun hexists => hkept other hexists ?_
    rintro rfl
    exact hold other List.mem_cons_self hother

theorem Clean.untrack (hs : Clean missing s) {id : Nat} {candidates : List Nat}
    (hphase : s.sweep = .untracking id candidates) :
    Clean missing { s with
      blocksToObject := mapRefs (fun rc => rc.erase id) s.blocksToObject
      sweep := .deleting candidates } := by
  have hdrain := hs.drain_idle hphase (by rintro ⟨⟩) (by rintro ⟨⟩)
  have hold := hs.pending
  rw [hphase] at hold
  have hgone : id ∉ s.chunks := by
    have hremembered := hs.remembered
    rwa [hphase] at hremembered
  refine { hs with
    sound := eraseRef_sound hs.sound (hold id List.mem_cons_self)
    counted := isSome_mapRefs hs.counted _
    tracked := fun hreconciled other hother => ?_
    pending := fun other hother => hold other (List.mem_cons_of_mem _ hother)
    turns := .inr (.inr hdrain)
    remembered := trivial }
  refine (hs.tracked hreconciled other hother).imp_left fun hcount => ?_
  refine mem_refs_mapRefs hs.counted (AList.mem_erase.mpr ⟨?_, hcount⟩)
  rintro rfl
  exact hgone hother

theorem exists_floor {ok : Bool} (hstep : sweepStep s (.readFloor ok) = some t) :
    s.sweep = .reconciled ∧ ∃ cached floor,
      t = { s with gcFloor := cached, sweep := .floored floor } ∧
        (cached = s.gcFloor ∨ cached = some (numberedFloor s.numbered)) ∧
        (ok = true → cached = some floor) := by
  simp only [sweepStep] at hstep
  split at hstep
  swap
  · cases hstep
  rename_i hphase
  refine ⟨hphase, ?_⟩
  cases hfloor : s.gcFloor with
  | some floor =>
    simp only [hfloor] at hstep
    cases hstep
    exact ⟨some floor, floor, rfl, .inl rfl, fun _ => rfl⟩
  | none =>
    simp only [hfloor] at hstep
    split at hstep
    · cases hstep
      exact ⟨_, _, rfl, .inr rfl, fun _ => rfl⟩
    · rename_i hok
      cases hstep
      exact ⟨none, _, rfl, .inl rfl, fun h => absurd h hok⟩

theorem Clean.zero_of_cached (hs : Clean missing s) {cached : Option Nat}
    (hcached : cached = s.gcFloor ∨ cached = some (numberedFloor s.numbered)) :
    ∀ floor, cached = some floor → floor = 0 := by
  rintro floor hfloor
  rcases hcached with h | h
  · exact hs.floor_zero floor (h.symm.trans hfloor)
  · rw [← hs.numbered_zero]
    exact (Option.some.inj (h.symm.trans hfloor)).symm

theorem sweepStep_clean (hs : Clean missing s) {a : SweepAct} (hstep : sweepStep s a = some t) :
    Clean missing t := by
  by_cases hread : ∃ ok, a = .readFloor ok
  · obtain ⟨ok, rfl⟩ := hread
    obtain ⟨hphase, cached, floor, rfl, hcached, -⟩ := exists_floor hstep
    have hdrain := hs.drain_idle hphase (by rintro ⟨⟩) (by rintro ⟨⟩)
    have hnext := hs.setSweep (.floored floor) (.inr hdrain) rfl trivial
    exact { hnext with floor_zero := hs.zero_of_cached hcached }
  · have hidle := fun {phase} (hphase : s.sweep = phase) => hs.drain_idle hphase
    cases sweepStep_inv hstep with
    | stop => exact hs.setSweep _ (.inl rfl) rfl trivial
    | cached hphase _ _ =>
      exact hs.setSweep _ (.inr (hidle hphase (by rintro ⟨⟩) (by rintro ⟨⟩))) rfl trivial
    | readBaseline hphase _ _ =>
      exact hs.setSweep _ (.inr (hidle hphase (by rintro ⟨⟩) (by rintro ⟨⟩))) rfl trivial
    | listPrefixes hphase =>
      exact hs.setSweep _ (.inr (hidle hphase (by rintro ⟨⟩) (by rintro ⟨⟩))) rfl trivial
    | scanSafe hphase =>
      have hnext := hs.setSweep .safe
        (.inr (hidle hphase (by rintro ⟨⟩) (by rintro ⟨⟩))) rfl trivial
      exact { hnext with }
    | scanUnsafe _ =>
      have hnext := hs.setSweep .idle (.inl rfl) rfl trivial
      exact { hnext with }
    | probeNext hphase _ =>
      exact hs.setSweep _ (.inr (hidle hphase (by rintro ⟨⟩) (by rintro ⟨⟩))) rfl trivial
    | skipListing hphase =>
      exact hs.setSweep _ (.inr (hidle hphase (by rintro ⟨⟩) (by rintro ⟨⟩))) rfl trivial
    | list hphase =>
      exact hs.setSweep _ (.inr (hidle hphase (by rintro ⟨⟩) (by rintro ⟨⟩))) rfl rfl
    | reconcile hphase => exact hs.reconcile hphase
    | @readFloor ok floor cached hphase => exact absurd ⟨ok, rfl⟩ hread
    | readWatermark hphase =>
      exact hs.setSweep _ (.inr (hidle hphase (by rintro ⟨⟩) (by rintro ⟨⟩))) rfl trivial
    | select hphase =>
      refine { hs with
        pending := fun id hid => ?_
        turns := .inr (.inr (hidle hphase (by rintro ⟨⟩) (by rintro ⟨⟩)))
        remembered := trivial }
      exact not_mem_objectIDs_of_zero hs.sound (mem_sweepCandidates_iff.mp hid).1
    | markerSame hphase _ =>
      have hpending := hs.pending
      rw [hphase] at hpending
      exact { hs with
        pending := hpending
        turns := .inr (.inr (hidle hphase (by rintro ⟨⟩) (by rintro ⟨⟩)))
        remembered := trivial }
    | markerMoved _ =>
      have hnext := hs.setSweep .idle (.inl rfl) rfl trivial
      exact { hnext with }
    | deleteOk hphase =>
      refine hs.deleteChunk hphase ?_ ?_ (fun _ hother => hother) ?_
      · exact fun other hother => (List.mem_filter.mp hother).1
      · exact fun other hother hne => List.mem_filter.mpr ⟨hother, by simpa using hne⟩
      · simp [remembers]
    | deleteFailed landed hphase =>
      refine hs.deleteChunk hphase ?_ ?_ (fun _ => List.mem_cons_of_mem _) trivial
      · intro other hother
        cases landed
        · exact hother
        · exact (List.mem_filter.mp hother).1
      · intro other hother hne
        cases landed
        · exact hother
        · exact List.mem_filter.mpr ⟨hother, by simpa using hne⟩
    | untrack hphase => exact hs.untrack hphase

theorem step_clean (hs : Clean missing s) {a : Act} (halone : alone s a = true)
    (hstep : step stride s a = some t) :
    Clean missing t := by
  cases a with
  | drain a => exact drainStep_clean hs halone hstep
  | sweep a => exact sweepStep_clean hs hstep
  | snapshot a => cases halone

end Steps

/-- What a sweep without a failure has achieved in each phase. -/
def achieved (s : GcState) : SweepPhase → Prop
  | .reconciled => s.gcReconciled = true
  | .floored floor => s.gcReconciled = true ∧ floor = 0
  | .watermarked floor watermark =>
    s.gcReconciled = true ∧ floor = 0 ∧ watermark = s.objectNum
  | .selected candidates | .deleting candidates | .untracking _ candidates =>
    ∀ id ∈ s.chunks, id < s.objectNum →
      id ∈ s.blocksToObject.blockLookup.objectIDs ∨ id ∈ candidates
  | _ => True

/-- The invariant of a sweep without a failure. -/
structure Sweeping (missing : Nat → Prop) (s : GcState) : Prop extends Clean missing s where
  so_far : achieved s s.sweep

section Progress

variable {stride : Nat} {missing : Nat → Prop} {s t : GcState}

theorem Clean.waiting_of_drainStep (hs : Clean missing s) {a : DrainAct}
    (halone : alone s (.drain a) = true) (hstep : drainStep stride s a = some t) :
    s.sweep = .idle ∨ s.sweep = .draining := by
  have hbusy : ∀ {phase}, s.drain = phase → phase ≠ .idle →
      s.sweep = .idle ∨ s.sweep = .draining := fun hphase hne => hs.waiting (hphase ▸ hne)
  revert hstep
  fun_cases drainStep stride s a <;> intro hstep <;> cases hstep
  case case1 =>
    exact .inl (of_decide_eq_true halone)
  case case3 hidle =>
    exact .inl hidle.2
  case case10 hlookup =>
    obtain ⟨_, _, hdrain⟩ := hs.uploading hlookup
    exact hbusy hdrain (by simp)
  all_goals
    have hdrain := ‹s.drain = _›
    exact hbusy hdrain (by simp)

theorem sweep_of_drainStep {a : DrainAct} (hwaiting : s.sweep = .idle ∨ s.sweep = .draining)
    (hstep : drainStep stride s a = some t) :
    t.sweep = .idle ∨ t.sweep = .draining ∨ t.sweep = .entered := by
  have hend : ∀ (u : GcState) trigger ok, u.sweep = s.sweep →
      (endDrain u trigger ok).sweep = .idle ∨ (endDrain u trigger ok).sweep = .draining ∨
        (endDrain u trigger ok).sweep = .entered := by
    intro u trigger ok hu
    cases trigger with
    | other =>
      rw [← hu] at hwaiting
      exact hwaiting.imp_right .inl
    | sweep =>
      cases ok
      · exact .inl rfl
      · exact .inr (.inr rfl)
  have hsame := hwaiting.imp_right (Or.inl (b := s.sweep = .entered))
  cases drainStep_inv hstep with
  | beginSweep _ _ => exact .inr (.inl rfl)
  | putFailed landed _ => exact hend _ _ _ rfl
  | clearDirty _ => exact hend _ _ _ rfl
  | finish _ => exact hend _ _ _ rfl
  | _ => exact hsame

theorem achieved_of_drainStep (hs : Clean missing s) {a : DrainAct}
    (halone : alone s (.drain a) = true) (hstep : drainStep stride s a = some t) :
    achieved t t.sweep := by
  rcases sweep_of_drainStep (hs.waiting_of_drainStep halone hstep) hstep with h | h | h <;>
    rw [h] <;> trivial

/-- The candidates are all chunk objects the map does not name. -/
theorem Clean.named_or_candidate (hs : Clean missing s) (hempty : s.uploads = ∅)
    (hreconciled : s.gcReconciled = true) {id : Nat} (hid : id ∈ s.chunks)
    (hlt : id < s.objectNum) :
    id ∈ s.blocksToObject.blockLookup.objectIDs ∨
      id ∈ sweepCandidates (s.blocksToObject.gcRefcount.getD ∅) 0 s.objectNum := by
  have hmem : id ∈ refs s := by
    refine (hs.tracked hreconciled id hid).resolve_right ?_
    rintro ⟨blocks, hup⟩
    rw [hempty] at hup
    cases hup
  obtain ⟨count, hcount⟩ := Option.isSome_iff_exists.mp (AList.lookup_isSome.mpr hmem)
  cases count with
  | zero =>
    exact .inr (mem_sweepCandidates_iff.mpr ⟨hcount, Nat.zero_le _, hlt⟩)
  | succ n =>
    left
    obtain ⟨rc, hrc⟩ := Option.isSome_iff_exists.mp hs.counted
    have hexact := hs.sound.refExact rc hrc id
    have hlookup : rc.lookup id = some (n + 1) := by
      rw [refs, hrc] at hcount
      exact hcount
    rw [hlookup, Option.getD_some] at hexact
    have hpos : 0 < FiniteMap.countValues (fun bl : BlockLookup => bl.objectID == id)
        s.blocksToObject.blockLookup := by
      rw [← hexact]
      exact Nat.succ_pos n
    obtain ⟨k, bl, hbl, hname⟩ := FiniteMap.countValues_pos_iff.mp hpos
    exact mem_objectIDs_iff.mpr ⟨k, bl, hbl, by simpa using hname⟩

theorem achieved_of_listChunks (hstep : sweepStep s (.listChunks true) = some t) :
    achieved t t.sweep := by
  simp only [sweepStep] at hstep
  split at hstep
  · split at hstep
    · rename_i hreconciled
      cases hstep
      exact hreconciled
    · cases hstep
      trivial
  · cases hstep

theorem achieved_of_sweepStep (hs : Clean missing s) (hachieved : achieved s s.sweep) {a : SweepAct}
    (hsucceeds : succeeds (.sweep a) = true) (hstep : sweepStep s a = some t) :
    achieved t t.sweep := by
  cases sweepStep_inv hstep with
  | @skipListing ok _ =>
    obtain rfl : ok = true := hsucceeds
    exact achieved_of_listChunks hstep
  | reconcile _ => exact rfl
  | readFloor _ _ =>
    obtain ⟨hphase, cached, floor, hnext, hcached, hfloor⟩ := exists_floor hstep
    rw [hphase] at hachieved
    rw [hnext]
    exact ⟨hachieved, hs.zero_of_cached hcached floor (hfloor hsucceeds)⟩
  | readWatermark hphase =>
    rw [hphase] at hachieved
    exact ⟨hachieved.1, hachieved.2, rfl⟩
  | select hphase =>
    have hdrain := hs.drain_idle hphase (by rintro ⟨⟩) (by rintro ⟨⟩)
    rw [hphase] at hachieved
    obtain ⟨hreconciled, rfl, rfl⟩ := hachieved
    intro id hid hlt
    exact hs.named_or_candidate (hs.uploads_eq_empty hdrain (by rintro _ _ ⟨⟩))
      hreconciled hid hlt
  | markerSame hphase _ =>
    rw [hphase] at hachieved
    exact hachieved
  | deleteOk hphase =>
    rw [hphase] at hachieved
    intro other hother hlt
    obtain ⟨hother, hne⟩ := List.mem_filter.mp hother
    refine (hachieved other hother hlt).imp_right fun hcandidate => ?_
    exact (List.mem_cons.mp hcandidate).resolve_left (by simpa using hne)
  | deleteFailed _ _ => cases hsucceeds
  | untrack hphase =>
    rw [hphase] at hachieved
    exact hachieved
  | _ => trivial

theorem step_sweeping (hs : Sweeping missing s) {a : Act} (halone : alone s a = true)
    (hsucceeds : succeeds a = true) (hstep : step stride s a = some t) :
    Sweeping missing t := by
  refine { step_clean hs.toClean halone hstep with so_far := ?_ }
  cases a with
  | drain a => exact achieved_of_drainStep hs.toClean halone hstep
  | sweep a => exact achieved_of_sweepStep hs.toClean hs.so_far hsucceeds hstep
  | snapshot a => cases halone

theorem opened_clean {volume : Volume} {loaded : List BlockLookup} {objectNum : Nat}
    (hoffset : ∀ rec ∈ loaded, rec.objectOffset < 2 ^ 32)
    (hlast : ∀ rec ∈ loaded, rec.startBlock + 1 < 2 ^ 64)
    (hfloor : numberedFloor volume.numbered = 0) :
    Clean (fun id => id ∈ loaded.map BlockLookup.objectID ∧ id ∉ volume.chunks)
      (opened stride volume loaded objectNum) where
  sound := parseBlockCheckpoint_sound _ _ hoffset
  fit := endsFit_parseBlockCheckpoint _ _ hoffset hlast
  counted := rfl
  named_lt id hid := by
    obtain ⟨rec, hrec, rfl⟩ := List.mem_map.mp (mem_records_of_mem_objectIDs hoffset hid)
    exact (lt_raiseObjectNum _ _).2 rec hrec
  upload_lt id hid := absurd hid (AList.notMem_empty id)
  upload_blocks := by rintro _ _ ⟨⟩
  uploaded := by rintro _ _ ⟨⟩
  tracked := by rintro ⟨⟩
  named_exists id hid := by
    by_cases hchunk : id ∈ volume.chunks
    · exact .inl hchunk
    · exact .inr ⟨mem_records_of_mem_objectIDs hoffset hid, hchunk⟩
  pending id hid := absurd hid List.not_mem_nil
  turns := .inl rfl
  uploads_empty _ := rfl
  remembered := trivial
  floor_zero := by rintro _ ⟨⟩
  numbered_zero := hfloor

end Progress

/-- When a sweep without a failure has no candidate left, all entries of the map have their
ends in 64 bits, the chunk objects below the next identifier are those the map names, and
a named chunk is missing only if it was missing when the volume was opened. -/
theorem chunks_eq_named_of_sweep {stride : Nat} {volume : Volume} {loaded : List BlockLookup}
    {objectNum : Nat} {acts sweepActs : List Act} {s t : GcState}
    (hoffset : ∀ rec ∈ loaded, rec.objectOffset < 2 ^ 32)
    (hlast : ∀ rec ∈ loaded, rec.startBlock + 1 < 2 ^ 64)
    (hfloor : numberedFloor volume.numbered = 0)
    (hrun : Run (step stride) (fun s a => alone s a = true) (opened stride volume loaded objectNum)
      acts s) (hidle : s.sweep = .idle)
    (hsweep : Run (step stride) (fun s a => alone s a = true ∧ succeeds a = true) s sweepActs t)
    (hdone : t.sweep = .deleting []) :
    t.blocksToObject.blockLookup.EndsFit ∧ (∀ id ∈ t.chunks,
        id < t.objectNum ↔ id ∈ t.blocksToObject.blockLookup.objectIDs) ∧
      ∀ id ∈ t.blocksToObject.blockLookup.objectIDs, id ∈ t.chunks ∨
        (id ∈ loaded.map BlockLookup.objectID ∧ id ∉ volume.chunks) := by
  have hs := hrun.preserves (fun _ _ _ hs halone hstep => step_clean hs halone hstep)
    (opened_clean hoffset hlast hfloor)
  have hstart : Sweeping (fun id => id ∈ loaded.map BlockLookup.objectID ∧
      id ∉ volume.chunks) s := by
    refine { hs with so_far := ?_ }
    rw [hidle]
    trivial
  have ht := hsweep.preserves
    (fun _ _ _ hs hallowed hstep => step_sweeping hs hallowed.1 hallowed.2 hstep) hstart
  have hachieved := ht.so_far
  rw [hdone] at hachieved
  refine ⟨ht.fit, fun id hid => ⟨fun hlt => ?_, ht.named_lt id⟩, ht.named_exists⟩
  exact (hachieved id hid hlt).resolve_right List.not_mem_nil

/-- Chunk 1 was left behind by an earlier process. -/
def orphanVolume : Volume :=
  { oneBlockVolume with chunks := [0, 1] }

/-- A drain rewrites block 0 into chunk 2 and fails to upload chunk 3. -/
def failedDrain : List Act :=
  [.drain (.begin .other), .drain (.allocate [⟨[], 2, 0, 4096⟩]),
    .drain (.allocate [⟨[], 3, 1, 4096⟩]), .drain (.upload 3 false false),
    .drain (.upload 2 true true), .drain (.publish 2), .drain .finishUploads]

def wholeSweep : List Act :=
  [.drain (.begin .sweep), .drain .finishUploads, .drain .serialize,
    .drain (.put true true), .drain .clearDirty,
    .sweep .readBaseline, .sweep .listPrefixes, .sweep .probe,
    .sweep (.listChunks true), .sweep .reconcile, .sweep (.readFloor true),
    .sweep .readWatermark, .sweep .select, .sweep .checkMarker,
    .sweep (.delete true true), .sweep .untrack, .sweep (.delete true true),
    .sweep .untrack]

/-- Of the chunks 0, 1 and 2 the sweep leaves the one the map names. -/
theorem chunks_eq_named_of_sweep_orphan :
    ∃ s t, Run (step 4096) (fun s a => alone s a = true)
        (opened 4096 orphanVolume oneBlock 2) failedDrain s ∧
      Run (step 4096) (fun s a => alone s a = true ∧ succeeds a = true) s wholeSweep t ∧
      t.chunks = [2] ∧
      (∀ id ∈ t.chunks, id < t.objectNum ↔ id ∈ t.blocksToObject.blockLookup.objectIDs) := by
  obtain ⟨s, hrun, hs⟩ := Run.exists_of_exec (step 4096) (fun s a => alone s a = true)
    (opened 4096 orphanVolume oneBlock 2) failedDrain
    (fun s => decide (s.sweep = .idle) &&
      (exec (step 4096) (fun s a => alone s a = true ∧ succeeds a = true) s wholeSweep).any
        fun t : GcState => decide (t.sweep = .deleting [] ∧ t.chunks = [2]))
    (by decide +kernel)
  obtain ⟨hidle, hexec⟩ := Bool.and_eq_true_iff.mp hs
  obtain ⟨t, hsweep, ht⟩ := Run.exists_of_exec _ _ s wholeSweep _ hexec
  obtain ⟨hdone, hchunks⟩ := of_decide_eq_true ht
  exact ⟨s, t, hrun, hsweep, hchunks, (chunks_eq_named_of_sweep (by decide) (by decide)
    rfl hrun (of_decide_eq_true hidle) hsweep hdone).2.1⟩

/-- A sweep that finds nothing to delete. -/
def idleSweep : List Act :=
  [.drain (.begin .sweep), .drain .finishUploads, .drain .serialize,
    .sweep .readBaseline, .sweep .listPrefixes, .sweep .probe,
    .sweep (.listChunks true), .sweep .reconcile, .sweep (.readFloor true),
    .sweep .readWatermark, .sweep .select, .sweep .checkMarker]

/-- The checkpoint names chunk 0, which is not there when the volume is opened.  The sweep
cannot tell: the map goes on to name a chunk that does not exist. -/
theorem named_chunk_missing_after_sweep :
    ∃ t, Run (step 4096) (fun s a => alone s a = true ∧ succeeds a = true)
        (opened 4096 { oneBlockVolume with chunks := [] } oneBlock 2) idleSweep t ∧
      t.sweep = .deleting [] ∧ 0 ∈ t.blocksToObject.blockLookup.objectIDs ∧
      0 < t.objectNum ∧ 0 ∉ t.chunks := by
  obtain ⟨t, hrun, ht⟩ := Run.exists_of_exec (step 4096)
    (fun s a => alone s a = true ∧ succeeds a = true)
    (opened 4096 { oneBlockVolume with chunks := [] } oneBlock 2) idleSweep
    (fun t => decide (t.sweep = .deleting [] ∧
      0 ∈ t.blocksToObject.blockLookup.objectIDs ∧ 0 < t.objectNum ∧ 0 ∉ t.chunks))
    (by decide +kernel)
  exact ⟨t, hrun, of_decide_eq_true ht⟩

end GcSystem

end Viperblock
