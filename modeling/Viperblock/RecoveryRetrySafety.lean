import Viperblock.RecoveryRetry

/-!
# What the next open still finds

In every run whose steps meet `keepsReachable`, each version that an open without
failures would have produced stays held: it is in the checkpoint in force or in the
log.  So the next open without failures resolves every block to a version that is at
least as new.
-/

namespace Viperblock

namespace RecoveryRetry

open GuardedRun BlockMap BlocksToObject Volume
open ReopenSystem (Segment Session SameRecords)

section Invariant

variable {cfg : Config} {versions : Nat → Nat → Prop} {s t : State} {v : Volume}
variable {records : List BlockLookup}

/-- The next open finds a version of the block that is at least as new. -/
def Held (cfg : Config) (s : State) (block seqNum : Nat) : Prop :=
  (∃ records rec, checkpointInForce cfg s = some records ∧
    (flatRecords records).lookup block = some rec ∧ seqNum ≤ rec.seqNum) ∨
  ∃ file ∈ s.files.walFiles, ∃ w ∈ validRecords cfg file.2, w.block = block ∧ seqNum ≤ w.seqNum

/-- What holds of a session: it can save its state, and its segment is a log file of
its own. -/
structure Serves (cfg : Config) (s : State) (sess : Session) : Prop where
  numbered : ∃ num, Numbered num (s.volume sess.vb)
  fits : ∀ r ∈ sess.wal.records ++ sess.writes, r.Fits cfg
  empty : ∀ file ∈ s.files.walFiles, file.1 = sess.wal.name → file.2 = []

/-- The invariant of runs: the next open can go through, and every one of the
versions is held. -/
structure Inv (cfg : Config) (versions : Nat → Nat → Prop) (s : State) : Prop where
  checkpoint : ∃ records, checkpointInForce cfg s = some records ∧
    ∀ rec ∈ records, rec.objectOffset < 2 ^ 32
  intact : ∀ file ∈ s.files.walFiles, Volume.Intact cfg file.2
  held : ∀ block seqNum, versions block seqNum → Held cfg s block seqNum
  serves : ∀ sess, s.running = some sess → Serves cfg s sess

theorem exists_selected (hforce : checkpointInForce cfg s = some records) :
    ∃ c, selected s = some c := by
  unfold checkpointInForce at hforce
  cases hc : selected s with
  | none => simp [hc] at hforce
  | some c => exact ⟨c, rfl⟩

theorem Numbered.checkpointInForce {num : Nat} (h : Numbered num v) (hfiles : t.files = v.files)
    (hbackend : t.backend = v.backend) :
    checkpointInForce cfg t = checkpointAt cfg t.torn v.files v.backend num := by
  obtain ⟨c, hc, hnum⟩ := h.exists_selected
  unfold RecoveryRetry.checkpointInForce selected
  rw [hfiles, hbackend, hc, Option.bind_some, hnum]

theorem Held.of_kept {block seqNum : Nat} (h : Held cfg s block seqNum)
    (hforce : checkpointInForce cfg t = checkpointInForce cfg s)
    (hfiles : ∀ file ∈ s.files.walFiles, file ∈ t.files.walFiles ∨ validRecords cfg file.2 = []) :
    Held cfg t block seqNum := by
  rcases h with ⟨records, rec, hrecords, hrec⟩ | ⟨file, hfile, w, hw, hle⟩
  · exact .inl ⟨records, rec, hforce.trans hrecords, hrec⟩
  · rcases hfiles file hfile with hin | hempty
    · exact .inr ⟨file, hin, w, hw, hle⟩
    · rw [hempty] at hw
      exact absurd hw List.not_mem_nil

/-- A version that is held is in the replayed map, unless the replay drops it. -/
theorem Ready.lookup_of_held {c : VBState} {block seqNum : Nat} (h : Ready cfg s c records v)
    (hforce : checkpointInForce cfg s = some records) (hkept : replayKept cfg records v = true)
    (hheld : Held cfg s block seqNum) :
    ∃ loc, lookupBlockToObject cfg.blockStride (v.replayedMap cfg).blockLookup block =
      some loc ∧ seqNum ≤ loc.seqNum := by
  have hnewest := h.toLoaded.newest_iff.mpr hkept block
  cases hloc : lookupBlockToObject cfg.blockStride (v.replayedMap cfg).blockLookup
      block with
  | none =>
    rw [hloc] at hnewest
    rcases hheld with ⟨records', rec, hforce', hrec, -⟩ | ⟨file, hfile, w, hw, hblock, -⟩
    · rw [hforce] at hforce'
      cases hforce'
      rw [hnewest.1] at hrec
      cases hrec
    · have hmem : w ∈ v.walRecords cfg := List.mem_flatMap.mpr
        ⟨file, Volume.mem_sortedFiles_iff.mpr (h.walFiles.symm ▸ hfile), hw⟩
      exact absurd hblock (hnewest.2 w hmem)
  | some loc =>
    rw [hloc] at hnewest
    refine ⟨loc, rfl, ?_⟩
    rcases hheld with ⟨records', rec, hforce', hrec, hle⟩ | ⟨file, hfile, w, hw, hblock, hle⟩
    · rw [hforce] at hforce'
      cases hforce'
      exact hle.trans (hnewest.2.1 rec hrec)
    · have hmem : w ∈ v.walRecords cfg := List.mem_flatMap.mpr
        ⟨file, Volume.mem_sortedFiles_iff.mpr (h.walFiles.symm ▸ hfile), hw⟩
      exact hle.trans (hnewest.2.2 w hmem hblock)

/-- An open, whether or not it goes through, keeps every version. -/
theorem Inv.opening {run : OpenRun} {res : Except OpenError Unit} (h : Inv cfg versions s)
    (hsafe : opensSafely cfg s run = true) (hopen : openVolume cfg s run = (v, res)) :
    Inv cfg versions (s.put v none) ∧ (∃ num, Numbered num v) ∧
      (s.backend.live.isSome → v.backend.live.isSome) ∧
      ∀ file ∈ v.files.walFiles, file ∈ s.files.walFiles := by
  obtain ⟨records, hforce, hoffset⟩ := h.checkpoint
  obtain ⟨c, hc⟩ := exists_selected hforce
  have hat : checkpointAt cfg s.torn s.files s.backend c.blockToObjectWALNum = some records := by
    unfold checkpointInForce at hforce
    rwa [hc, Option.bind_some] at hforce
  cases hload : loadVolume cfg s run with
  | mk loaded res' =>
    obtain ⟨hsame, hnumbered, hready, -⟩ := loadVolume_spec hc hforce hoffset hload
    unfold RecoveryRetry.openVolume at hopen
    unfold opensSafely at hsafe
    rw [hload] at hopen hsafe
    cases res' with
    | error err =>
      obtain ⟨rfl, -⟩ := Prod.mk.inj hopen
      have hforce' : checkpointInForce cfg (s.put loaded none) = some records := by
        rw [hnumbered.checkpointInForce rfl rfl]
        exact (checkpointAt_of_sameRecords hsame).trans hat
      refine ⟨⟨⟨records, hforce', hoffset⟩, ?_, ?_, by simp [State.put]⟩,
        ⟨_, hnumbered⟩, fun hlive => hsame.backendLive.symm ▸ hlive, ?_⟩
      · intro file hfile
        exact h.intact file (hsame.walFiles ▸ hfile)
      · intro block seqNum hversion
        exact (h.held block seqNum hversion).of_kept (hforce'.trans hforce.symm)
          fun file hfile => .inl (hsame.walFiles.symm ▸ hfile)
      · exact fun file hfile => hsame.walFiles ▸ hfile
    | ok u =>
      have hready := hready rfl
      simp only [hforce, Option.getD_some, Bool.and_eq_true] at hsafe
      cases hrecover : loaded.recoverLocalWALs cfg run.recover with
      | mk recovered res'' =>
        obtain rfl : recovered = v := by
          simp only [hrecover] at hopen
          cases res'' <;> exact (Prod.mk.inj hopen).1
        obtain ⟨hnumbered', hlive, hsubset, hcases⟩ :=
          hready.recover hnumbered hsafe.2 hrecover
        have hinForce : checkpointInForce cfg (s.put recovered none) =
            checkpointAt cfg s.torn recovered.files recovered.backend
              c.blockToObjectWALNum :=
          hnumbered'.checkpointInForce rfl rfl
        refine ⟨⟨?_, ?_, ?_, by simp [State.put]⟩, ⟨_, hnumbered'⟩, hlive, hsubset⟩
        · rcases hcases with ⟨hold, -⟩ | hnew
          · exact ⟨records, hinForce.trans hold, hoffset⟩
          · exact ⟨_, hinForce.trans hnew,
              fun rec hrec => offset_lt_of_mem_checkpointRecords hrec⟩
        · exact fun file hfile => h.intact file (hsubset file hfile)
        · intro block seqNum hversion
          have hheld := h.held block seqNum hversion
          rcases hcases with ⟨hold, hkept⟩ | hnew
          · exact hheld.of_kept (hinForce.trans (hold.trans hforce.symm)) hkept
          · obtain ⟨loc, hloc, hle⟩ :=
              hready.lookup_of_held hforce hsafe.1 hheld
            rw [← lookup_checkpointRecords
              hready.toLoaded.replayedMap_spec.1.wf block] at hloc
            obtain ⟨rec, hrec, rfl⟩ := Option.map_eq_some_iff.mp hloc
            exact .inl ⟨_, rec, hinForce.trans hnew, hrec, hle⟩

/-- A session that saves its state keeps the checkpoint in force, given that it is at
the number of the `config.json` or that the live checkpoint counts. -/
theorem Inv.save {sess sess' : Session} (h : Inv cfg versions s) (hrunning : s.running = some sess)
    (hrecords : SameRecords (s.volume sess.vb) v)
    (hrenumbers : ∀ num, Numbered num (s.volume sess.vb) → Numbered num v ∨ s.backend.live.isSome ∧
      ∃ num', Numbered num' v) (hnext : sess'.vb.nextStateSeqNum = v.vb.nextStateSeqNum)
    (hfits : ∀ r ∈ sess'.wal.records ++ sess'.writes, r.Fits cfg)
    (hname : sess'.wal.name = sess.wal.name) :
    Inv cfg versions (s.put v (some sess')) := by
  obtain ⟨records, hforce, hoffset⟩ := h.checkpoint
  obtain ⟨⟨num, hnumbered⟩, -, hempty⟩ := h.serves sess hrunning
  have hwal : v.files.walFiles = s.files.walFiles := hrecords.walFiles
  have hat : ∀ num, checkpointAt cfg s.torn v.files v.backend num =
      checkpointAt cfg s.torn s.files s.backend num :=
    fun num => checkpointAt_of_sameRecords hrecords
  have hbefore : checkpointInForce cfg s = checkpointAt cfg s.torn s.files s.backend num :=
    hnumbered.checkpointInForce rfl rfl
  have hafter : (∃ num, Numbered num v) ∧
      checkpointInForce cfg (s.put v (some sess')) = checkpointInForce cfg s := by
    rcases hrenumbers num hnumbered with hsame | ⟨hlive, num', hnew⟩
    · refine ⟨⟨num, hsame⟩, ?_⟩
      rw [hbefore, ← hat]
      exact hsame.checkpointInForce rfl rfl
    · refine ⟨⟨num', hnew⟩, ?_⟩
      obtain ⟨found, hfound⟩ := Option.isSome_iff_exists.mp hlive
      rw [hbefore, hnew.checkpointInForce rfl rfl]
      refine (hat num').trans ?_
      unfold checkpointAt
      rw [hfound]
  obtain ⟨⟨num', hnumbered'⟩, hforce'⟩ := hafter
  refine ⟨⟨records, hforce'.trans hforce, hoffset⟩, ?_, ?_, ?_⟩
  · exact fun file hfile => h.intact file (hwal ▸ hfile)
  · intro block seqNum hversion
    exact (h.held block seqNum hversion).of_kept hforce'
      fun file hfile => .inl (hwal.symm ▸ hfile)
  · intro sess'' hsess''
    obtain rfl : sess' = sess'' := Option.some.inj hsess''
    refine ⟨⟨num', hnumbered'.of_eq rfl rfl hnext⟩, hfits, ?_⟩
    intro file hfile hfileName
    exact hempty file (hwal ▸ hfile) (hfileName.trans hname)

theorem renumbers_of_keepsNumber {sess : Session} (hsaves : SavesConfig (s.volume sess.vb) v)
    (hkeeps : keepsNumber s sess.vb = true) (num : Nat)
    (hnumbered : Numbered num (s.volume sess.vb)) :
    Numbered num v ∨ s.backend.live.isSome ∧ ∃ num', Numbered num' v := by
  unfold keepsNumber at hkeeps
  rw [Bool.or_eq_true] at hkeeps
  rcases hkeeps with hlive | hsame
  · refine .inr ⟨hlive, ?_⟩
    rcases hsaves.renumbers num hnumbered with h | h
    · exact ⟨_, h⟩
    · exact ⟨_, h⟩
  · obtain ⟨c, hc, hnum⟩ := hnumbered.exists_selected
    have hselected : selected s = some c := hc
    rw [hselected] at hsame
    have hnumber : sess.vb.blockToObjectWALNum = num := by
      rw [← hnum]
      exact (by simpa using hsame : c.blockToObjectWALNum = _).symm
    refine .inl ((hsaves.renumbers num hnumbered).elim id fun h => ?_)
    rw [← hnumber]
    exact h

theorem intact_take_segment (cfg : Config) (timestamp length : Nat) {blocks : List Block}
    (hblocks : ∀ b ∈ blocks, b.Fits cfg) :
    Volume.Intact cfg ((cfg.segment timestamp blocks).take length) := by
  intro block seqNum herror
  rcases Config.readWALFileForRecovery_take cfg timestamp length hblocks with h | ⟨kept, h⟩
  · rw [h] at herror
    cases herror
  · rw [h] at herror
    cases herror

theorem validRecords_nil (cfg : Config) :
    validRecords cfg [] = [] :=
  rfl

theorem mem_appendFile {files : List (String × Bytes)} {name : String} (bytes : Bytes)
    (hempty : ∀ file ∈ files, file.1 = name → file.2 = []) :
    (∀ file ∈ appendFile files name bytes, file ∈ files ∨ file = (name, bytes)) ∧
      ∀ file ∈ files, file ∈ appendFile files name bytes ∨ file.2 = [] := by
  unfold appendFile
  split
  · constructor
    · intro file hfile
      obtain ⟨old, hold, rfl⟩ := List.mem_map.mp hfile
      split
      · rename_i hname
        rw [hempty old hold hname, List.nil_append, hname]
        exact .inr rfl
      · exact .inl hold
    · intro file hfile
      by_cases hname : file.1 = name
      · exact .inr (hempty file hfile hname)
      · exact .inl (List.mem_map.mpr ⟨file, hfile, if_neg hname⟩)
  · constructor
    · intro file hfile
      simpa using hfile
    · exact fun file hfile => .inl (List.mem_append_left _ hfile)

theorem Inv.crash {sess : Session} (h : Inv cfg versions s) (hrunning : s.running = some sess)
    (length : Nat) :
    let left := (cfg.segment sess.wal.timestamp sess.wal.records).take length
    Inv cfg versions
      { s with
        files :=
          { s.files with walFiles := appendFile s.files.walFiles sess.wal.name left }
        running := none } := by
  intro left
  obtain ⟨-, hfits, hempty⟩ := h.serves sess hrunning
  obtain ⟨hnew, hold⟩ := mem_appendFile left hempty
  refine ⟨h.checkpoint, ?_, ?_, by simp⟩
  · intro file hfile
    rcases hnew file hfile with hmem | rfl
    · exact h.intact file hmem
    · exact intact_take_segment cfg _ length
        fun r hr => hfits r (List.mem_append_left _ hr)
  · intro block seqNum hversion
    refine (h.held block seqNum hversion).of_kept rfl fun file hfile => ?_
    refine (hold file hfile).imp_right fun hnone => ?_
    rw [hnone]
    exact validRecords_nil cfg

theorem exists_recovered {run : OpenRun} (hopen : openVolume cfg s run = (v, .ok ())) :
    ∃ loaded, loadVolume cfg s run = (loaded, .ok ()) ∧
      loaded.recoverLocalWALs cfg run.recover = (v, .ok ()) := by
  unfold RecoveryRetry.openVolume at hopen
  split at hopen
  · simp at hopen
  · rename_i loaded hload
    split at hopen
    · simp at hopen
    · rename_i recovered hrecover
      rw [(Prod.mk.inj hopen).1] at hrecover
      exact ⟨loaded, hload, hrecover⟩

section

variable (h : Inv cfg versions s)

include h

theorem Inv.reopen {run : OpenRun} {segment : Segment}
    (hremove : ∀ name, run.recover.remove name = true) (hsafe : opensSafely cfg s run = true)
    (hname : (s.files.walFiles.all fun file => file.1 != segment.name ||
      file.2.isEmpty || (cfg.readWALFileForRecovery file.2).toBool) = true)
    (hopen : openVolume cfg s run = (v, .ok ())) :
    Inv cfg versions
      (s.put v (some ⟨0, v.vb, [], { segment with records := [] }, [], []⟩)) := by
  obtain ⟨hinv, ⟨num, hnumbered⟩, -, hsubset⟩ := h.opening hsafe hopen
  refine ⟨hinv.checkpoint, hinv.intact, hinv.held, ?_⟩
  intro sess hsess
  cases hsess
  refine ⟨⟨num, hnumbered.of_eq rfl rfl rfl⟩, by simp, ?_⟩
  intro file hfile hfileName
  have hcases := List.all_eq_true.mp hname file (hsubset file hfile)
  simp only [Bool.or_eq_true, bne_iff_ne, List.isEmpty_iff] at hcases
  rcases hcases with (hother | hempty) | hreadable
  · exact absurd hfileName hother
  · exact hempty
  · -- a file that was read has been removed
    obtain ⟨records, hforce, hoffset⟩ := h.checkpoint
    obtain ⟨c, hc⟩ := exists_selected hforce
    obtain ⟨loaded, hload, hrecover⟩ := exists_recovered hopen
    have hsame := (loadVolume_spec hc hforce hoffset hload).1
    cases hread : cfg.readWALFileForRecovery file.2 with
    | error err => simp [hread, Except.toBool] at hreadable
    | ok blocks =>
      refine absurd hread (not_readable_of_recovered hremove hrecover hfile ?_ blocks)
      exact hsame.walFiles.symm ▸ hsubset file hfile

/-- With a live checkpoint a numbered one that is cut off does no harm. -/
theorem Inv.tear {run : OpenRun} {res : Except OpenError Unit}
    (hlive : s.backend.live.isSome = true) (hsafe : opensSafely cfg s run = true)
    (hopen : openVolume cfg s run = (v, res)) (num : Nat) (torn : Option (Nat × Bytes)) :
    Inv cfg versions
      { files := { v.files with numbered := v.files.numbered.erase num }
        torn := torn
        backend := v.backend
        running := none } := by
  obtain ⟨hinv, -, hlive', -⟩ := h.opening hsafe hopen
  obtain ⟨found, hfound⟩ := Option.isSome_iff_exists.mp (hlive' hlive)
  have hforce : ∀ files torn, files.config = v.files.config →
      checkpointInForce cfg ⟨files, torn, v.backend, none⟩ =
        (selectState v.files.config v.backend.config).map fun _ => found := by
    intro files torn hfiles
    unfold checkpointInForce selected checkpointAt
    simp only [hfiles]
    cases selectState v.files.config v.backend.config with
    | none => rfl
    | some c =>
      rw [Option.bind_some, hfound]
      rfl
  have hsame : checkpointInForce cfg
        { files := { v.files with numbered := v.files.numbered.erase num }
          torn := torn
          backend := v.backend
          running := none } =
      checkpointInForce cfg (s.put v none) :=
    (hforce { v.files with numbered := v.files.numbered.erase num } torn rfl).trans
      (hforce v.files s.torn rfl).symm
  obtain ⟨records, hrecords, hoffset⟩ := hinv.checkpoint
  refine ⟨⟨records, hsame.trans hrecords, hoffset⟩, hinv.intact, ?_, by simp⟩
  intro block seqNum hversion
  exact (hinv.held block seqNum hversion).of_kept hsame fun _ => .inl

theorem Inv.write {sess : Session} {block : Nat} {data : Bytes} {disk backend : Outcome}
    (hallowed : keepsReachable cfg s (.write block data disk backend) = true)
    (hrunning : s.running = some sess) (hdata : data.length = cfg.blockSize)
    (hblock : block < 2 ^ 64) (hseqNum : sess.vb.seqNum + 1 < 2 ^ 64) {res : Option Nat}
    (hreserve : (s.volume sess.vb).reserveSeqNum cfg disk backend = (v, res)) :
    Inv cfg versions (s.put v (some { sess with vb := v.vb })) ∧
      ∀ seqNum, res = some seqNum → ∀ store, Inv cfg versions (s.put v (some
          { sess with
            vb := { v.vb with blockStore := store }
            writes := sess.writes ++ [⟨data, seqNum, block, cfg.blockSize⟩] })) := by
  have hfits := (h.serves sess hrunning).fits
  have hsaves := (savesConfig_reserveSeqNum cfg (s.volume sess.vb) disk backend 0).1
  have hrenumbers : ∀ num, Numbered num (s.volume sess.vb) →
      Numbered num v ∨ s.backend.live.isSome ∧ ∃ num', Numbered num' v := by
    intro num hnumbered
    have hwindow := (savesConfig_reserveSeqNum cfg (s.volume sess.vb) disk backend num).2
    rw [hreserve] at hsaves hwindow
    simp only [keepsReachable, hrunning, Option.all_some, Bool.or_eq_true,
      decide_eq_true_eq] at hallowed
    rcases hallowed with hquiet | hkeeps
    · exact .inl (hwindow hquiet hnumbered)
    · exact renumbers_of_keepsNumber hsaves hkeeps num hnumbered
  rw [hreserve] at hsaves
  refine ⟨h.save hrunning hsaves.toSameRecords hrenumbers rfl hfits rfl, ?_⟩
  intro seqNum hres store
  refine h.save hrunning hsaves.toSameRecords hrenumbers rfl ?_ rfl
  intro r hr
  rw [← List.append_assoc, List.mem_append, List.mem_singleton] at hr
  rcases hr with hr | rfl
  · exact hfits r hr
  · subst hres
    refine ⟨hdata, ?_, hblock, cfg.blockSize_lt.trans (by decide)⟩
    obtain ⟨hcounter, hnumber⟩ := reserveSeqNum_seqNum hreserve
    rw [hnumber _ rfl, hcounter]
    exact hseqNum

theorem Inv.step {a : Act} (hallowed : keepsReachable cfg s a = true)
    (hstep : step cfg s a = some t) :
    Inv cfg versions t := by
  revert hallowed hstep
  fun_cases RecoveryRetry.step cfg s a <;> intro hallowed hstep <;> cases hstep
  · exact (h.opening (Bool.and_eq_true_iff.mp hallowed).1 ‹_›).1
  · obtain ⟨hkeeps, hfresh⟩ := Bool.and_eq_true_iff.mp hallowed
    exact h.reopen (fun _ => rfl) hkeeps hfresh ‹_›
  · exact (h.opening hallowed rfl).1
  · simp only [keepsReachable, Bool.and_eq_true] at hallowed
    rename_i hopen _ _
    exact h.tear hallowed.1 hallowed.2 hopen _ _
  · rename_i hrunning hguard _ hreserve
    exact (h.write hallowed hrunning hguard.1 hguard.2.1 hguard.2.2 hreserve).1
  · rename_i hrunning hguard _ seqNum hreserve _
    exact (h.write hallowed hrunning hguard.1 hguard.2.1 hguard.2.2 hreserve).2 seqNum rfl _
  · rename_i count sess hrunning
    obtain ⟨⟨num, hnumbered⟩, hfits, hempty⟩ := h.serves sess hrunning
    refine ⟨h.checkpoint, h.intact, h.held, ?_⟩
    intro sess' hsess'
    cases hsess'
    refine ⟨⟨num, hnumbered.of_eq rfl rfl rfl⟩, ?_, hempty⟩
    exact fun r hr => hfits r ((ReopenSystem.flush_sublist sess count).subset hr)
  · rename_i disk backend sess hrunning _
    have hsaves := savesConfig_saveState cfg (s.volume sess.vb) disk backend
    simp only [keepsReachable, hrunning, Option.all_some] at hallowed
    exact h.save hrunning hsaves.toSameRecords
      (renumbers_of_keepsNumber hsaves hallowed) rfl (h.serves sess hrunning).fits rfl
  · rename_i length sess hrunning _ _
    exact h.crash hrunning length

end

end Invariant

section Reference

variable {cfg : Config} {s : State} {v : Volume} {run : OpenRun}
variable {records : List BlockLookup}

/-- The volume resolves every block to a version that is at least as new as that of
the map, and the block store says where it is. -/
def ResolvesAtLeast (cfg : Config) (b : BlocksToObject) (vb : VB) : Prop :=
  ∀ block loc, lookupBlockToObject cfg.blockStride b.blockLookup block = some loc →
    ∃ loc', lookupBlockToObject cfg.blockStride vb.blocksToObject.blockLookup block =
        some loc' ∧ loc.seqNum ≤ loc'.seqNum ∧
      vb.blockStore.readEntry block =
        some ⟨[], loc'.seqNum, loc'.objectID, loc'.objectOffset, .persisted⟩

theorem exists_checkpointInForce (hload : loadVolume cfg s run = (v, .ok ())) :
    ∃ records, checkpointInForce cfg s = some records := by
  unfold loadVolume at hload
  cases hc : selected s with
  | none =>
    have hselect : selectState s.files.config s.backend.config = none := hc
    simp [Volume.loadState, State.volume, hselect] at hload
  | some c =>
    unfold checkpointInForce
    rw [hc, Option.bind_some]
    cases hstate : (s.volume (VB.new run.gcEnabled)).loadState cfg true run.bumpDisk
        run.bumpBackend with
    | mk started ok =>
      obtain ⟨hsame, -⟩ := loadState_fresh hstate
      have hnumber := (loadState_spec hc hstate).2
      have hat : checkpointAt cfg s.torn started.files started.backend
            c.blockToObjectWALNum =
          checkpointAt cfg s.torn s.files s.backend c.blockToObjectWALNum :=
        checkpointAt_of_sameRecords hsame
      rw [← hat]
      rw [hstate] at hload
      cases ok with
      | false => simp at hload
      | true =>
        unfold loadLiveCheckpoint loadBlockState at hload
        unfold checkpointAt numberedCheckpoint
        dsimp only at hload
        rw [hnumber] at hload
        cases hlive : started.backend.live with
        | some found => exact ⟨found, rfl⟩
        | none =>
          cases hlocal : started.files.numbered.lookup
              c.blockToObjectWALNum with
          | some found => exact ⟨found, rfl⟩
          | none =>
            cases htorn : s.torn with
            | none => exact ⟨_, rfl⟩
            | some cut =>
              simp only [hlive, hlocal, htorn] at hload
              dsimp only
              split
              · rename_i hcut
                rw [if_pos hcut] at hload
                unfold Volume.parseCheckpointFile at hload
                cases hwalk : walkBlockCheckpoint cut.2 cfg.version
                    blockToObjectWALMagic with
                | error err => simp [hwalk] at hload
                | ok found => exact ⟨found, rfl⟩
              · exact ⟨_, rfl⟩

theorem intact_of_read {files : List (String × Bytes)} {read : List (String × List Block)}
    (hread : readLocalWALs cfg files = .ok read) :
    ∀ file ∈ files, Volume.Intact cfg file.2 := by
  induction files generalizing read with
  | nil => simp
  | cons head files ih =>
    obtain ⟨name, bytes⟩ := head
    simp only [readLocalWALs] at hread
    intro file hfile
    cases hhead : cfg.readWALFileForRecovery bytes with
    | error err =>
      rw [hhead] at hread
      have hhere : Volume.Intact cfg bytes := by
        intro block seqNum herror
        rw [hhead] at herror
        cases herror
        simp at hread
      rcases List.mem_cons.mp hfile with rfl | htail
      · exact hhere
      · cases err with
        | integrity a b => simp at hread
        | _ => exact ih hread file htail
    | ok blocks =>
      rw [hhead] at hread
      rcases List.mem_cons.mp hfile with rfl | htail
      · exact Volume.intact_of_ok hhead
      · cases hrest : readLocalWALs cfg files with
        | error err => simp [hrest] at hread
        | ok more => exact ih hrest file htail

theorem version_of_lookup {block : Nat} {loc : Location} (hv : Loaded cfg records v)
    (hloc : lookupBlockToObject cfg.blockStride (v.replayedMap cfg).blockLookup block = some loc) :
    (∃ rec, (flatRecords records).lookup block = some rec ∧ loc.seqNum ≤ rec.seqNum) ∨
      ∃ w ∈ v.walRecords cfg, w.block = block ∧ loc.seqNum ≤ w.seqNum := by
  obtain ⟨-, hplanned, hunlogged⟩ := hv.replayedMap_spec
  have hloaded : lookupBlockToObject cfg.blockStride v.vb.blocksToObject.blockLookup
        block = some loc →
      ∃ rec, (flatRecords records).lookup block = some rec ∧ loc.seqNum ≤ rec.seqNum := by
    intro hloc
    obtain ⟨rec, hrec, rfl⟩ := hv.record_of_lookup block loc hloc
    exact ⟨rec, hrec, le_rfl⟩
  by_cases hlogged : ∃ w ∈ v.walRecords cfg, w.block = block
  · obtain ⟨w, hw, rfl⟩ := hlogged
    obtain ⟨p, hp, i, newest, hget, hblock⟩ :=
      exists_planned v.vb.blocksToObject.blockLookup [] hw
    have hat := hplanned p hp i newest hget
    rw [hblock, hloc] at hat
    split at hat
    · refine .inr ⟨newest, (planned_spec hp hget).1.mem, hblock, ?_⟩
      rw [Option.some.inj hat]
      exact le_rfl
    · exact .inl (hloaded hat.symm)
  · rw [hunlogged block fun w hw hblock => hlogged ⟨w, hw, hblock⟩] at hloc
    exact .inl (hloaded hloc)

theorem inv_of_opened (hrest : s.running = none)
    (hoffset : ∀ records, checkpointInForce cfg s = some records → ∀ rec ∈ records, rec.objectOffset
      < 2 ^ 32) (hrun : run.AllOk) (hopen : openVolume cfg s run = (v, .ok ())) :
    Inv cfg (fun block seqNum => ∃ loc,
      lookupBlockToObject cfg.blockStride v.vb.blocksToObject.blockLookup block =
        some loc ∧ seqNum = loc.seqNum) s := by
  obtain ⟨loaded, hload, hrecover⟩ := exists_recovered hopen
  obtain ⟨records, hforce⟩ := exists_checkpointInForce hload
  obtain ⟨c, hc⟩ := exists_selected hforce
  obtain ⟨-, -, hready, -⟩ := loadVolume_spec hc hforce (hoffset records hforce) hload
  have hready := hready rfl
  cases hread : readLocalWALs cfg (sortedFiles loaded.files.walFiles) with
  | error err => simp [Volume.recoverLocalWALs, hread] at hrecover
  | ok read =>
    refine ⟨⟨records, hforce, hoffset records hforce⟩, ?_, ?_, by simp [hrest]⟩
    · intro file hfile
      rw [← hready.walFiles] at hfile
      exact intact_of_read hread file (Volume.mem_sortedFiles_iff.mpr hfile)
    · rintro block seqNum ⟨loc, hloc, rfl⟩
      obtain ⟨v', hrecover', hmap, -⟩ := hready.toLoaded.recovered hread hrun.recover
      rw [hrecover] at hrecover'
      rw [(Prod.mk.inj hrecover').1, hmap] at hloc
      rcases version_of_lookup hready.toLoaded hloc with ⟨rec, hrec, hle⟩ | ⟨w, hw, hle⟩
      · exact .inl ⟨records, rec, hforce, hrec, hle⟩
      · obtain ⟨file, hfile, hvalid⟩ := List.mem_flatMap.mp hw
        have hfile := Volume.mem_sortedFiles_iff.mp hfile
        rw [hready.walFiles] at hfile
        exact .inr ⟨file, hfile, w, hvalid, hle⟩

theorem Inv.opened {versions : Nat → Nat → Prop} (h : Inv cfg versions s) (hrun : run.AllOk)
    (hsafe : opensSafely cfg s run = true) :
    ∃ v, openVolume cfg s run = (v, .ok ()) ∧ ∀ block seqNum, versions block seqNum → ∃ loc,
        lookupBlockToObject cfg.blockStride v.vb.blocksToObject.blockLookup block =
            some loc ∧ seqNum ≤ loc.seqNum ∧
          v.vb.blockStore.readEntry block =
            some ⟨[], loc.seqNum, loc.objectID, loc.objectOffset, .persisted⟩ := by
  obtain ⟨records, hforce, hoffset⟩ := h.checkpoint
  obtain ⟨c, hc⟩ := exists_selected hforce
  cases hload : loadVolume cfg s run with
  | mk loaded res =>
    obtain ⟨-, -, hready, hok⟩ := loadVolume_spec hc hforce hoffset hload
    obtain rfl := hok hrun.bumpDisk
    have hready := hready rfl
    have hintact : ∀ file ∈ sortedFiles loaded.files.walFiles, Volume.Intact cfg file.2 := by
      intro file hfile
      have hmem := Volume.mem_sortedFiles_iff.mp hfile
      rw [hready.walFiles] at hmem
      exact h.intact file hmem
    obtain ⟨read, hread⟩ := Volume.exists_readLocalWALs_ok hintact
    obtain ⟨v, hrecover, hmap, -, hstore, -⟩ := hready.toLoaded.recovered hread hrun.recover
    unfold opensSafely at hsafe
    simp only [hload, hforce, Option.getD_some, Bool.and_eq_true] at hsafe
    refine ⟨v, ?_, ?_⟩
    · simp only [RecoveryRetry.openVolume, hload, hrecover]
    · intro block seqNum hversion
      obtain ⟨loc, hloc, hle⟩ :=
        hready.lookup_of_held hforce hsafe.1 (h.held block seqNum hversion)
      rw [← hmap] at hloc
      refine ⟨loc, hloc, hle, ?_⟩
      rw [hready.toLoaded.readEntry_recovered hmap hstore block, hloc]
      rfl

end Reference

/-- Let an open without failures go through from some state.  Whatever opens fail or
die from there, and whatever sessions without a drain crash, as long as every step
meets the condition the next open without failures goes through as well and resolves
every block to a version that is at least as new. -/
theorem retried_open_keeps_versions {cfg : Config} {s u : State} {acts : List Act}
    {first last : OpenRun} {segment : Segment} {v : Volume} (hrest : s.running = none)
    (hoffset : ∀ records, checkpointInForce cfg s = some records → ∀ rec ∈ records, rec.objectOffset
      < 2 ^ 32) (hfirst : first.AllOk) (hopen : openVolume cfg s first = (v, .ok ()))
    (hrun : Run (step cfg) (fun s a => keepsReachable cfg s a = true) s acts u)
    (hdown : u.running = none) (hlast : last.AllOk)
    (hsafe : keepsReachable cfg u (.reopen last segment) = true) :
    ∃ t sess, step cfg u (.reopen last segment) = some t ∧ t.running = some sess ∧
      ResolvesAtLeast cfg v.vb.blocksToObject sess.vb := by
  have hinv := hrun.preserves (fun _ _ _ h => h.step) (inv_of_opened hrest hoffset hfirst hopen)
  simp only [keepsReachable, Bool.and_eq_true] at hsafe
  obtain ⟨v', hopen', hresolves⟩ := hinv.opened hlast.removing hsafe.1
  have hstep : step cfg u (.reopen last segment) =
      some (u.put v' (some ⟨0, v'.vb, [], { segment with records := [] }, [], []⟩)) := by
    simp only [step, hdown, hopen']
  refine ⟨_, _, hstep, rfl, ?_⟩
  intro block loc hloc
  exact hresolves block loc.seqNum ⟨loc, hloc, rfl⟩

section Runs

/-- The live checkpoint has block 5, the log block 6. -/
def unsaved : State where
  files := ⟨none, ∅, [("wal.00000001.bin", Config.tiny.segment 0 [⟨[3], 12, 6, 1⟩])]⟩
  torn := none
  backend :=
    { config := some ⟨12, 1, 0, false, 0, 1⟩
      chunks := AList.insert 0 (Config.tiny.chunkFile [⟨[1], 10, 5, 1⟩]) ∅
      live := some [savedBlock]
      numbered := ∅ }
  running := none

def withoutFailures : OpenRun := ⟨false, .ok, .ok, allOk⟩

/-- The upload of the first chunk fails. -/
def chunkFails : OpenRun :=
  { withoutFailures with recover := { allOk with chunk := fun _ => .failed } }

/-- All is saved but the live checkpoint. -/
def liveFails : OpenRun :=
  { withoutFailures with recover := { allOk with live := .failed } }

theorem withoutFailures_allOk : withoutFailures.AllOk :=
  ⟨rfl, rfl, allOk_allOk⟩

/-- The process dies before it removes the log. -/
def keepsFiles : OpenRun :=
  { withoutFailures with recover := { allOk with remove := fun _ => false } }

def nextSegment : Segment := ⟨"wal.00000002.bin", 0, []⟩

def retries : List Act :=
  [.reopen chunkFails nextSegment, .die keepsFiles, .reopen withoutFailures nextSegment, .crash 20]

/-- The version of a block in the map. -/
def versionOf (vb : VB) (block : Nat) : Option Nat :=
  (lookupBlockToObject Config.tiny.blockStride vb.blocksToObject.blockLookup block).map
    Location.seqNum

theorem opened_unsaved :
    ∃ v, openVolume Config.tiny unsaved withoutFailures = (v, .ok ()) ∧
      versionOf v.vb 6 = some 12 := by
  have hok : (match openVolume Config.tiny unsaved withoutFailures with
      | (v, .ok ()) => decide (versionOf v.vb 6 = some 12)
      | (_, .error _) => false) = true := by
    decide +kernel
  split at hok
  · rename_i v hopen
    exact ⟨v, hopen, of_decide_eq_true hok⟩
  · simp at hok

/-- After an upload failed, the process died in the next open between saving the live
checkpoint and removing the log, and a session crashed, the block is still found. -/
theorem retried_after_failed_upload :
    ∃ v u t sess, openVolume Config.tiny unsaved withoutFailures = (v, .ok ()) ∧
      versionOf v.vb 6 = some 12 ∧
      Run (step Config.tiny) (fun s a => keepsReachable Config.tiny s a = true) unsaved
        retries u ∧
      step Config.tiny u (.reopen withoutFailures nextSegment) = some t ∧
      t.running = some sess ∧
      ResolvesAtLeast Config.tiny v.vb.blocksToObject sess.vb := by
  obtain ⟨v, hopen, hversion⟩ := opened_unsaved
  obtain ⟨u, hrun, hu⟩ := Run.exists_of_exec (step Config.tiny)
    (fun s a => keepsReachable Config.tiny s a = true) unsaved retries
    (fun u => u.running.isNone &&
      keepsReachable Config.tiny u (.reopen withoutFailures nextSegment))
    (by decide +kernel)
  rw [Bool.and_eq_true, Option.isNone_iff_eq_none] at hu
  have hoffset : ∀ records, checkpointInForce Config.tiny unsaved = some records →
      ∀ rec ∈ records, rec.objectOffset < 2 ^ 32 := by
    intro records hrecords
    obtain rfl : [savedBlock] = records := Option.some.inj hrecords
    decide
  obtain ⟨t, sess, hstep, hrunning, hresolves⟩ := retried_open_keeps_versions
    rfl hoffset withoutFailures_allOk hopen hrun hu.1 withoutFailures_allOk hu.2
  exact ⟨v, u, t, sess, hopen, hversion, hrun, hstep, hrunning, hresolves⟩

/-- The live checkpoint cannot be replaced, the log is removed all the same, and the
next open does not find the block. -/
theorem failed_live_save_loses_block :
    ∃ v u t sess, openVolume Config.tiny unsaved withoutFailures = (v, .ok ()) ∧
      Run (step Config.tiny) (fun _ _ => True) unsaved
        [.reopen liveFails nextSegment, .crash 0] u ∧
      u.running = none ∧
      step Config.tiny u (.reopen withoutFailures nextSegment) = some t ∧
      t.running = some sess ∧
      versionOf v.vb 6 = some 12 ∧ versionOf sess.vb 6 = none ∧
      ¬ ResolvesAtLeast Config.tiny v.vb.blocksToObject sess.vb := by
  obtain ⟨v, hopen, hversion⟩ := opened_unsaved
  obtain ⟨u, hrun, hu⟩ := Run.exists_of_exec (step Config.tiny) (fun _ _ => True) unsaved
    [.reopen liveFails nextSegment, .crash 0]
    (fun u => u.running.isNone &&
      (step Config.tiny u (.reopen withoutFailures nextSegment)).any fun t =>
        t.running.any fun sess => decide (versionOf sess.vb 6 = none))
    (by decide +kernel)
  rw [Bool.and_eq_true, Option.isNone_iff_eq_none, Option.any_eq_true] at hu
  obtain ⟨hdown, t, hstep, ht⟩ := hu
  rw [Option.any_eq_true] at ht
  obtain ⟨sess, hrunning, hnone⟩ := ht
  have hnone := of_decide_eq_true hnone
  refine ⟨v, u, t, sess, hopen, hrun, hdown, hstep, hrunning, hversion, hnone, ?_⟩
  intro hresolves
  obtain ⟨loc, hloc, -⟩ := Option.map_eq_some_iff.mp hversion
  obtain ⟨loc', hloc', -⟩ := hresolves 6 loc hloc
  rw [versionOf, hloc'] at hnone
  cases hnone

end Runs

end RecoveryRetry

end Viperblock
