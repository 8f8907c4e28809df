import Viperblock.RecoverySafety
import Viperblock.ReopenSystem

/-!
# The counters of an open volume

The invariant of a volume that is open on a node, `Counted`, says that every
number in a checkpoint, in a log or in memory is at most the counter and at most
the mark that the next save would write, and that every number in a checkpoint
or in the map is covered by the saved `config.json` or by the log of the node.
What is left when a session ends is `Recoverable`; a clean shutdown leaves
`Resting`.  The module shows what the saves and the reservation of a number do
to these.
-/

namespace Viperblock

namespace ReopenSystem

open GuardedRun BlockMap BlocksToObject Volume
open SeqNumSystem (seqNumReservation raiseWindows)

namespace Disks

variable (d : Disks) (n : Nat) (v : Volume)

@[simp] theorem put_backend :
    (d.put n v).backend = v.backend :=
  rfl

@[simp] theorem put_nodes_self :
    (d.put n v).nodes n = v.files := by
  simp [put]

theorem put_nodes_of_ne {m : Nat} (hm : m ≠ n) : (d.put n v).nodes m = d.nodes m := by
  simp [put, hm]

variable {d n v} in
theorem nodes_of_put (P : LocalFiles → Prop) {m : Nat} (h : P v.files → P (d.nodes n))
    (hput : P ((d.put n v).nodes m)) :
    P (d.nodes m) := by
  by_cases hm : m = n
  · subst hm
    rw [put_nodes_self] at hput
    exact h hput
  · rwa [put_nodes_of_ne _ _ _ hm] at hput

@[simp] theorem put_put (v' : Volume) : (d.put n v).put n v' = d.put n v' := by
  simp [put]

variable {d n v} in
theorem put_nodes_congr {α : Sort*} {v' : Volume} (f : LocalFiles → α)
    (h : f v'.files = f v.files) (m : Nat) :
    f ((d.put n v').nodes m) = f ((d.put n v).nodes m) := by
  by_cases hm : m = n
  · subst hm
    rwa [put_nodes_self, put_nodes_self]
  · rw [put_nodes_of_ne _ _ _ hm, put_nodes_of_ne _ _ _ hm]

@[simp] theorem put_volume (vb : VB) :
    d.put n (d.volume n vb) = d := by
  simp [put, volume]

@[simp] theorem volume_put :
    (d.put n v).volume n v.vb = v := by
  simp [put, volume]

end Disks

section Numbers

variable (cfg : Config)

/-- The number from which the counter restarts. -/
def base (c : VBState) : Nat :=
  if cfg.sealing.isSome then c.seqNumHighWater else c.seqNum

/-- What the next save would write as that number. -/
def ceiling (vb : VB) : Nat :=
  if cfg.sealing.isSome then vb.seqNumHighWater else vb.seqNum

/-- The copy of `config.json` the next open on the node goes by. -/
def selected (d : Disks) (n : Nat) : Option VBState :=
  selectState (d.nodes n).config d.backend.config

def LocalSaved (files : LocalFiles) (records : List BlockLookup) : Prop :=
  ∃ k, files.numbered.lookup k = some records

def BackendSaved (b : Backend) (records : List BlockLookup) : Prop :=
  b.live = some records ∨ ∃ k, b.numbered.lookup k = some records

/-- A checkpoint that is stored somewhere. -/
def Saved (d : Disks) (records : List BlockLookup) : Prop :=
  BackendSaved d.backend records ∨ ∃ m, LocalSaved (d.nodes m) records

/-- The number of a record in a log of the node. -/
def Logged (files : LocalFiles) (q : Nat) : Prop :=
  ∃ file ∈ files.walFiles, ∃ r ∈ validRecords cfg file.2, r.seqNum = q

/-- A number in a stored checkpoint or log. -/
def Known (d : Disks) (q : Nat) : Prop :=
  (∃ records, Saved d records ∧ ∃ rec ∈ records, rec.seqNum = q) ∨ ∃ m, Logged cfg (d.nodes m) q

/-- A number in the block map. -/
def Mapped (vb : VB) (q : Nat) : Prop :=
  ∃ block loc, lookupBlockToObject cfg.blockStride vb.blocksToObject.blockLookup block = some loc ∧
      loc.seqNum = q

/-- What the end of a session leaves for an open on node `n`. -/
structure Recoverable (d : Disks) (n : Nat) : Prop where
  offset_lt : ∀ records, Saved d records → ∀ rec ∈ records, rec.objectOffset < 2 ^ 32
  covered : ∀ c, selected d n = some c → ∀ q, Known cfg d q →
    q ≤ base cfg c ∨ ∃ q', q ≤ q' ∧ Logged cfg (d.nodes n) q'
  logged_le : cfg.sealing.isSome → ∀ c, selected d n = some c →
    ∀ q, Logged cfg (d.nodes n) q → q ≤ base cfg c + seqNumReservation
  newest : ∀ c, selected d n = some c →
    ∀ m c', (d.nodes m).config = some c' → c'.stateSeqNum ≤ c.stateSeqNum

/-- What a clean shutdown leaves for an open on any node. -/
structure Resting (d : Disks) (c : VBState) : Prop where
  offset_lt : ∀ records, Saved d records → ∀ rec ∈ records, rec.objectOffset < 2 ^ 32
  config : d.backend.config = some c
  newest : ∀ m c', (d.nodes m).config = some c' → c'.stateSeqNum < c.stateSeqNum ∨ c' = c
  known_le : ∀ q, Known cfg d q → q ≤ base cfg c

/-- What a volume that is open on node `n` has saved covers its numbers. -/
structure Covered (d : Disks) (n : Nat) (vb : VB) : Prop where
  offset_lt : ∀ records, Saved d records → ∀ rec ∈ records, rec.objectOffset < 2 ^ 32
  covered : ∀ c, selected d n = some c → ∀ q, Known cfg d q ∨ Mapped cfg vb q →
    q ≤ base cfg c ∨ ∃ q', q ≤ q' ∧ Logged cfg (d.nodes n) q'
  window : cfg.sealing.isSome → ∀ c, selected d n = some c →
    vb.seqNumHighWater ≤ base cfg c + seqNumReservation
  newest : ∀ c, selected d n = some c →
    ∀ m c', (d.nodes m).config = some c' → c'.stateSeqNum ≤ c.stateSeqNum
  local_le : ∀ m c, (d.nodes m).config = some c → c.stateSeqNum ≤ vb.nextStateSeqNum
  backend_le : ∀ c, d.backend.config = some c → c.stateSeqNum ≤ vb.nextStateSeqNum

/-- A number that is stored, mapped or held by a block still to be drained. -/
def Issued (d : Disks) (vb : VB) (held : List Block) (q : Nat) : Prop :=
  Known cfg d q ∨ Mapped cfg vb q ∨ ∃ r ∈ held, r.seqNum = q

/-- Moreover the counters of the open volume are past every number. -/
structure Counted (d : Disks) (n : Nat) (vb : VB) (held : List Block) : Prop
    extends Covered cfg d n vb where
  le_seqNum : ∀ q, Issued cfg d vb held q → q ≤ vb.seqNum
  le_ceiling : ∀ q, Issued cfg d vb held q → q ≤ ceiling cfg vb

end Numbers

section Invariants

variable {cfg : Config} {d d' : Disks} {n : Nat} {vb vb' : VB} {held held' : List Block}

theorem Resting.selected_eq {c : VBState} (hrest : Resting cfg d c) (n : Nat) :
    selected d n = some c := by
  unfold selected
  rw [hrest.config]
  cases hlocal : (d.nodes n).config with
  | none => rfl
  | some l =>
    rcases hrest.newest n l hlocal with hlt | rfl
    · simp [selectState, newerCopy, hlt]
    · simp [selectState, newerCopy]

theorem Resting.recoverable {c : VBState} (hrest : Resting cfg d c) (n : Nat) :
    Recoverable cfg d n := by
  refine ⟨hrest.offset_lt, ?_, ?_, ?_⟩
  · intro c' hc' q hq
    rw [hrest.selected_eq] at hc'
    cases hc'
    exact .inl (hrest.known_le q hq)
  · intro _ c' hc' q hq
    rw [hrest.selected_eq] at hc'
    cases hc'
    have := hrest.known_le q (.inr ⟨n, hq⟩)
    omega
  · intro c' hc' m c'' hm
    rw [hrest.selected_eq] at hc'
    cases hc'
    rcases hrest.newest m c'' hm with hlt | rfl
    · omega
    · exact le_rfl

theorem Counted.recoverable (hopen : Counted cfg d n vb held) :
    Recoverable cfg d n := by
  refine ⟨hopen.offset_lt, fun c hc q hq => hopen.covered c hc q (.inl hq), ?_, hopen.newest⟩
  intro hsealed c hc q hq
  have hle := hopen.le_ceiling q (.inl (.inr ⟨n, hq⟩))
  have hwindow := hopen.window hsealed c hc
  rw [ceiling, if_pos hsealed] at hle
  omega

theorem mapped_of_mem_checkpoint (hwf : vb.blocksToObject.blockLookup.WellFormed)
    {rec : BlockLookup}
    (hrec : rec ∈ checkpointRecords cfg.blockStride vb.blocksToObject.blockLookup) :
    Mapped cfg vb rec.seqNum :=
  ⟨_, _, lookup_of_mem_checkpointRecords hwf hrec, rfl⟩

theorem Covered.transfer (hopen : Covered cfg d n vb)
    (hoffset : ∀ records, Saved d' records → ∀ rec ∈ records, rec.objectOffset < 2 ^ 32)
    (hselected : selected d' n = selected d n)
    (hconfig : ∀ m, (d'.nodes m).config = (d.nodes m).config)
    (hbackend : ∀ c, d'.backend.config = some c → c.stateSeqNum ≤ vb.nextStateSeqNum)
    (hnext : vb'.nextStateSeqNum = vb.nextStateSeqNum)
    (hwindow : cfg.sealing.isSome → ∀ c, selected d n = some c →
      vb'.seqNumHighWater ≤ base cfg c + seqNumReservation)
    (hknown : ∀ q, Known cfg d' q ∨ Mapped cfg vb' q →
      (Known cfg d q ∨ Mapped cfg vb q) ∨ Logged cfg (d'.nodes n) q)
    (hkept : ∀ q, Logged cfg (d.nodes n) q → Logged cfg (d'.nodes n) q) :
    Covered cfg d' n vb' := by
  refine ⟨hoffset, fun c hc q hq => ?_, ?_, ?_, ?_, hnext ▸ hbackend⟩
  · rw [hselected] at hc
    rcases hknown q hq with hold | hlog
    · exact (hopen.covered c hc q hold).imp_right fun ⟨q', hle, hlog⟩ => ⟨q', hle, hkept q' hlog⟩
    · exact .inr ⟨q, le_rfl, hlog⟩
  · rwa [hselected]
  · simp only [hselected, hconfig]
    exact hopen.newest
  · simp only [hconfig, hnext]
    exact hopen.local_le

/-- A change that leaves the counters alone: checkpoints of the map are saved,
blocks are appended to the log of the node, and blocks of the log are mapped. -/
theorem Counted.transfer (hopen : Counted cfg d n vb held)
    (hwf : vb.blocksToObject.blockLookup.WellFormed)
    (hcounters : vb'.seqNum = vb.seqNum ∧ vb'.seqNumHighWater = vb.seqNumHighWater ∧
      vb'.nextStateSeqNum = vb.nextStateSeqNum)
    (hconfig : ∀ m, (d'.nodes m).config = (d.nodes m).config)
    (hbackend : d'.backend.config = d.backend.config)
    (hsaved : ∀ records, Saved d' records → Saved d records ∨ records = checkpointRecords
      cfg.blockStride vb.blocksToObject.blockLookup)
    (hlogged : ∀ m q, Logged cfg (d'.nodes m) q → Logged cfg (d.nodes m) q ∨ m = n ∧ ∃ r ∈ held,
      r.seqNum = q) (hkept : ∀ q, Logged cfg (d.nodes n) q → Logged cfg (d'.nodes n) q)
    (hmapped : ∀ q, Mapped cfg vb' q → Mapped cfg vb q ∨ Logged cfg (d.nodes n) q)
    (hheld : ∀ r ∈ held', r ∈ held) :
    Counted cfg d' n vb' held' := by
  obtain ⟨hseqNum, hhighWater, hnext⟩ := hcounters
  have hknown : ∀ q, Known cfg d' q → Known cfg d q ∨ Mapped cfg vb q ∨
      Logged cfg (d'.nodes n) q ∧ ∃ r ∈ held, r.seqNum = q := by
    rintro q (⟨records, hrecords, rec, hrec, rfl⟩ | ⟨m, hm⟩)
    · rcases hsaved records hrecords with hold | rfl
      · exact .inl (.inl ⟨records, hold, rec, hrec, rfl⟩)
      · exact .inr (.inl (mapped_of_mem_checkpoint hwf hrec))
    · rcases hlogged m q hm with hold | ⟨rfl, hmem⟩
      · exact .inl (.inr ⟨m, hold⟩)
      · exact .inr (.inr ⟨hm, hmem⟩)
  have hold : ∀ q, Issued cfg d' vb' held' q → Issued cfg d vb held q := by
    rintro q (hq | hq | ⟨r, hr, hq⟩)
    · exact (hknown q hq).imp_right fun h => h.imp_right And.right
    · rcases hmapped q hq with h | h
      · exact .inr (.inl h)
      · exact .inl (.inr ⟨n, h⟩)
    · exact .inr (.inr ⟨r, hheld r hr, hq⟩)
  have hceiling : ceiling cfg vb' = ceiling cfg vb := by
    rw [ceiling, ceiling, hseqNum, hhighWater]
  refine ⟨hopen.toCovered.transfer ?_ ?_ hconfig (hbackend ▸ hopen.backend_le) hnext
    (hhighWater ▸ hopen.window) ?_ hkept, ?_, ?_⟩
  · intro records hrecords rec hrec
    rcases hsaved records hrecords with h | rfl
    · exact hopen.offset_lt records h rec hrec
    · exact offset_lt_of_mem_checkpointRecords hrec
  · rw [selected, selected, hconfig, hbackend]
  · rintro q (hq | hq)
    · rcases hknown q hq with h | h | ⟨h, -⟩
      · exact .inl (.inl h)
      · exact .inl (.inr h)
      · exact .inr h
    · exact (hmapped q hq).imp .inr (hkept q)
  · intro q hq
    rw [hseqNum]
    exact hopen.le_seqNum q (hold q hq)
  · intro q hq
    rw [hceiling]
    exact hopen.le_ceiling q (hold q hq)

end Invariants

section Saves

variable {cfg : Config} {d : Disks} {n : Nat} {v v' : Volume} {held : List Block}

/-- The two volumes store the same checkpoints and logs. -/
structure SameRecords (v v' : Volume) : Prop where
  numbered : v'.files.numbered = v.files.numbered
  walFiles : v'.files.walFiles = v.files.walFiles
  backendLive : v'.backend.live = v.backend.live
  backendNumbered : v'.backend.numbered = v.backend.numbered

theorem saved_put_iff (hnumbered : v'.files.numbered = v.files.numbered)
    (hlive : v'.backend.live = v.backend.live) (hbackend : v'.backend.numbered = v.backend.numbered)
    (d : Disks) (n : Nat) (records : List BlockLookup) :
    Saved (d.put n v') records ↔ Saved (d.put n v) records := by
  have hlocal : ∀ m, LocalSaved ((d.put n v').nodes m) records ↔
      LocalSaved ((d.put n v).nodes m) records :=
    fun m => Iff.of_eq (Disks.put_nodes_congr (LocalSaved · records)
      (by simp only [LocalSaved, hnumbered]) m)
  simp only [Saved, Disks.put_backend, BackendSaved, hlive, hbackend, hlocal]

theorem SameRecords.saved_iff (hsame : SameRecords v v') (d : Disks) (n : Nat)
    (records : List BlockLookup) :
    Saved (d.put n v') records ↔ Saved (d.put n v) records :=
  saved_put_iff hsame.numbered hsame.backendLive hsame.backendNumbered d n records

theorem SameRecords.logged_iff (hsame : SameRecords v v') (d : Disks) (n m q : Nat) :
    Logged cfg ((d.put n v').nodes m) q ↔ Logged cfg ((d.put n v).nodes m) q :=
  Iff.of_eq (Disks.put_nodes_congr (Logged cfg · q) (by simp only [Logged, hsame.walFiles]) m)

theorem SameRecords.known_iff (hsame : SameRecords v v') (d : Disks) (n q : Nat) :
    Known cfg (d.put n v') q ↔ Known cfg (d.put n v) q := by
  simp only [Known, hsame.saved_iff d n, hsame.logged_iff d n]

theorem selected_put_of_local {c : VBState} (hlocal : v.files.config = some c)
    (hbackend : ∀ c', v.backend.config = some c' → c'.stateSeqNum ≤ c.stateSeqNum) :
    selected (d.put n v) n = some c := by
  simp only [selected, Disks.put_nodes_self, Disks.put_backend, hlocal]
  cases hb : v.backend.config with
  | none => rfl
  | some b =>
    have hle := hbackend b hb
    simp [selectState, newerCopy, Nat.not_lt.mpr hle]

section

variable (hopen : Covered cfg (d.put n v) n v.vb)

include hopen

theorem Covered.selected_persistStateLocal (highWater : Nat) (out : Outcome) :
    selected (d.put n (v.persistStateLocal highWater out)) n =
      if out.lands then some (v.stateToSave highWater) else selected (d.put n v) n := by
  cases out with
  | failed => rfl
  | ok | landed =>
    refine selected_put_of_local rfl fun c hc => ?_
    exact (hopen.backend_le c hc).trans (Nat.le_succ _)

theorem Covered.persistStateLocal {highWater : Nat}
    (hcovers : ∀ q, Known cfg (d.put n v) q ∨ Mapped cfg v.vb q →
      q ≤ base cfg (v.stateToSave highWater) ∨ ∃ q', q ≤ q' ∧ Logged cfg v.files q')
    (hwindow : cfg.sealing.isSome → v.vb.seqNumHighWater ≤ highWater + seqNumReservation)
    (out : Outcome) :
    Covered cfg (d.put n (v.persistStateLocal highWater out)) n
      (v.persistStateLocal highWater out).vb := by
  have hsame : SameRecords v (v.persistStateLocal highWater out) := by
    cases out <;> exact ⟨rfl, rfl, rfl, rfl⟩
  have hmapped : ∀ q, Mapped cfg (v.persistStateLocal highWater out).vb q ↔
      Mapped cfg v.vb q := fun _ => Iff.rfl
  have hselected := hopen.selected_persistStateLocal highWater out
  have hlocal : ∀ m c, ((d.put n (v.persistStateLocal highWater out)).nodes m).config =
      some c → out.lands ∧ c = v.stateToSave highWater ∨ ((d.put n v).nodes m).config = some c := by
    intro m c hc
    by_cases hm : m = n
    · subst hm
      rw [Disks.put_nodes_self] at hc ⊢
      cases out with
      | failed => exact .inr hc
      | ok | landed =>
        exact .inl ⟨rfl, (Option.some.inj hc).symm⟩
    · rw [Disks.put_nodes_of_ne _ _ _ hm] at hc ⊢
      exact .inr hc
  refine ⟨?_, ?_, ?_, ?_, ?_, ?_⟩
  · intro records hrecords
    exact hopen.offset_lt records ((hsame.saved_iff d n records).mp hrecords)
  · intro c hc q hq
    rw [hsame.known_iff, hmapped] at hq
    rw [Disks.put_nodes_self]
    have hlogged : ∀ q', Logged cfg v.files q' →
        Logged cfg (v.persistStateLocal highWater out).files q' := by
      intro q' hlog
      rwa [Logged, hsame.walFiles]
    rw [hselected] at hc
    split at hc
    · cases hc
      rcases hcovers q hq with hle | ⟨q', hle, hlog⟩
      · exact .inl hle
      · exact .inr ⟨q', hle, hlogged q' hlog⟩
    · rcases hopen.covered c hc q hq with hle | ⟨q', hle, hlog⟩
      · exact .inl hle
      · rw [Disks.put_nodes_self] at hlog
        exact .inr ⟨q', hle, hlogged q' hlog⟩
  · intro hsealed c hc
    rw [hselected] at hc
    split at hc
    · cases hc
      rw [base, if_pos hsealed]
      exact hwindow hsealed
    · exact hopen.window hsealed c hc
  · intro c hc m c' hm
    rw [hselected] at hc
    split at hc
    · cases hc
      rcases hlocal m c' hm with ⟨-, rfl⟩ | hm
      · exact le_rfl
      · exact (hopen.local_le m c' hm).trans (Nat.le_succ _)
    · rename_i hfailed
      rcases hlocal m c' hm with ⟨hlands, -⟩ | hm
      · exact absurd hlands hfailed
      · exact hopen.newest c hc m c' hm
  · intro m c hc
    rcases hlocal m c hc with ⟨-, rfl⟩ | hc
    · exact le_rfl
    · exact (hopen.local_le m c hc).trans (Nat.le_succ _)
  · intro c hc
    exact (hopen.backend_le c hc).trans (Nat.le_succ _)

/-- A change of the mark and of the backend's copy of `config.json` after which
the same copy is selected. -/
theorem Covered.of_sameRecords (v' : Volume) (hsame : SameRecords v v')
    (hmap : v'.vb.blocksToObject = v.vb.blocksToObject)
    (hnext : v'.vb.nextStateSeqNum = v.vb.nextStateSeqNum)
    (hconfig : v'.files.config = v.files.config)
    (hselected : selected (d.put n v') n = selected (d.put n v) n)
    (hbackend : ∀ c, v'.backend.config = some c → c.stateSeqNum ≤ v.vb.nextStateSeqNum)
    (hwindow : cfg.sealing.isSome → ∀ c, selected (d.put n v) n = some c →
      v'.vb.seqNumHighWater ≤ base cfg c + seqNumReservation) :
    Covered cfg (d.put n v') n v'.vb := by
  refine hopen.transfer ?_ hselected (Disks.put_nodes_congr LocalFiles.config hconfig) hbackend
    hnext hwindow (fun q hq => .inl ?_) fun q => (hsame.logged_iff d n n q).mpr
  · intro records hrecords
    exact hopen.offset_lt records ((hsame.saved_iff d n records).mp hrecords)
  · rwa [hsame.known_iff, Mapped, hmap] at hq

end

theorem Counted.of_covered (hopen : Counted cfg (d.put n v) n v.vb held) (v' : Volume)
    (hcovered : Covered cfg (d.put n v') n v'.vb) (hsame : SameRecords v v')
    (hmap : v'.vb.blocksToObject = v.vb.blocksToObject) (hseqNum : v.vb.seqNum ≤ v'.vb.seqNum)
    (hhighWater : v.vb.seqNumHighWater ≤ v'.vb.seqNumHighWater) {held' : List Block}
    (hheld : ∀ r ∈ held', r ∈ held ∨ r.seqNum ≤ v'.vb.seqNum ∧ r.seqNum ≤ ceiling cfg v'.vb) :
    Counted cfg (d.put n v') n v'.vb held' := by
  have hceiling : ceiling cfg v.vb ≤ ceiling cfg v'.vb := by
    unfold ceiling
    split
    · exact hhighWater
    · exact hseqNum
  have hissued : ∀ q, Issued cfg (d.put n v') v'.vb held' q → Issued cfg (d.put n v) v.vb held q ∨
        q ≤ v'.vb.seqNum ∧ q ≤ ceiling cfg v'.vb := by
    intro q hq
    rw [Issued, hsame.known_iff, Mapped, hmap] at hq
    rcases hq with h | h | ⟨r, hr, rfl⟩
    · exact .inl (.inl h)
    · exact .inl (.inr (.inl h))
    · exact (hheld r hr).imp_left fun hr => .inr (.inr ⟨r, hr, rfl⟩)
  refine ⟨hcovered, ?_, ?_⟩
  · intro q hq
    rcases hissued q hq with h | h
    · exact (hopen.le_seqNum q h).trans hseqNum
    · exact h.1
  · intro q hq
    rcases hissued q hq with h | h
    · exact (hopen.le_ceiling q h).trans hceiling
    · exact h.2

theorem Counted.hold_more {d : Disks} {vb vb' : VB} {held' : List Block}
    (hopen : Counted cfg d n vb held)
    (hsame : vb'.blocksToObject = vb.blocksToObject ∧ vb'.seqNum = vb.seqNum ∧ vb'.seqNumHighWater =
      vb.seqNumHighWater ∧ vb'.nextStateSeqNum = vb.nextStateSeqNum)
    (hheld : ∀ r ∈ held', r ∈ held ∨ r.seqNum ≤ vb.seqNum ∧ r.seqNum ≤ ceiling cfg vb) :
    Counted cfg d n vb' held' := by
  obtain ⟨hmap, hseqNum, hhighWater, hnext⟩ := hsame
  have hput : ∀ vb : VB, d.put n (d.volume n vb) = d := Disks.put_volume d n
  have hopen' : Counted cfg (d.put n (d.volume n vb)) n vb held := by
    rwa [hput]
  have hcovered := hopen'.toCovered.of_sameRecords (d.volume n vb') ⟨rfl, rfl, rfl, rfl⟩
    hmap hnext rfl rfl hopen'.backend_le fun hsealed c hc => by
      rw [show (d.volume n vb').vb = vb' from rfl, hhighWater]
      exact hopen'.window hsealed c hc
  have hheld' : ∀ r ∈ held', r ∈ held ∨ r.seqNum ≤ vb'.seqNum ∧ r.seqNum ≤ ceiling cfg vb' := by
    rw [ceiling, hseqNum, hhighWater]
    exact hheld
  have hmore := hopen'.of_covered _ hcovered ⟨rfl, rfl, rfl, rfl⟩ hmap hseqNum.ge
    hhighWater.ge hheld'
  rwa [hput] at hmore

theorem Covered.pushStateToBackend (hopen : Covered cfg (d.put n v) n v.vb) {c : VBState}
    (hlocal : v.files.config = some c) (hlast : c.stateSeqNum = v.vb.nextStateSeqNum)
    (out : Outcome) :
    Covered cfg (d.put n (v.pushStateToBackend out)) n
      (v.pushStateToBackend out).vb := by
  cases hlands : out.lands with
  | false =>
    have heq : v.pushStateToBackend out = v := by
      simp [Volume.pushStateToBackend, hlands]
    rw [heq]
    exact hopen
  | true =>
    have hbackend : (v.pushStateToBackend out).backend.config = some c := by
      simp [Volume.pushStateToBackend, hlands, hlocal]
    refine hopen.of_sameRecords (v.pushStateToBackend out) ?_ rfl rfl rfl ?_ ?_
      hopen.window
    · constructor <;> simp [Volume.pushStateToBackend, hlands]
    · rw [selected_put_of_local (c := c), selected_put_of_local (c := c)]
      · exact hlocal
      · intro c' hc'
        rw [hlast]
        exact hopen.backend_le c' hc'
      · exact hlocal
      · intro c' hc'
        rw [hbackend] at hc'
        rw [Option.some.inj hc']
    · intro c' hc'
      rw [hbackend] at hc'
      rw [← Option.some.inj hc', hlast]

/-- The save does not lower the mark: the UUID is minted, or the mark is low. -/
def saveKeepsMark (cfg : Config) (vb : VB) : Bool :=
  cfg.sealing.isNone || vb.volumeUUID || decide (vb.seqNumHighWater ≤ seqNumReservation)

theorem saveKeepsMark_congr {vb vb' : VB} (huuid : vb'.volumeUUID = vb.volumeUUID)
    (hhighWater : vb'.seqNumHighWater = vb.seqNumHighWater) :
    saveKeepsMark cfg vb' = saveKeepsMark cfg vb := by
  simp only [saveKeepsMark, huuid, hhighWater]

theorem le_mintForSave (hmark : saveKeepsMark cfg v.vb = true) :
    v.vb.seqNumHighWater ≤ (v.mintForSave cfg).vb.seqNumHighWater := by
  unfold Volume.mintForSave
  split
  · rename_i hmint
    simp only [saveKeepsMark, hmint.2, Bool.or_false, Bool.or_eq_true,
      Option.isNone_iff_eq_none, decide_eq_true_eq] at hmark
    rcases hmark with hplain | hle
    · simp [hplain] at hmint
    · exact hle
  · exact le_rfl

theorem Counted.mintForSave (hopen : Counted cfg (d.put n v) n v.vb held)
    (hmark : saveKeepsMark cfg v.vb = true) :
    Counted cfg (d.put n (v.mintForSave cfg)) n (v.mintForSave cfg).vb held := by
  have hle := le_mintForSave hmark
  have hframe : SameRecords v (v.mintForSave cfg) ∧
      (v.mintForSave cfg).vb.blocksToObject = v.vb.blocksToObject ∧
      (v.mintForSave cfg).vb.seqNum = v.vb.seqNum ∧
      (v.mintForSave cfg).vb.nextStateSeqNum = v.vb.nextStateSeqNum ∧
      (v.mintForSave cfg).files = v.files ∧
      (v.mintForSave cfg).backend = v.backend ∧
      ((v.mintForSave cfg).vb.seqNumHighWater = v.vb.seqNumHighWater ∨
        (v.mintForSave cfg).vb.seqNumHighWater = seqNumReservation) := by
    unfold Volume.mintForSave
    split
    · exact ⟨⟨rfl, rfl, rfl, rfl⟩, rfl, rfl, rfl, rfl, rfl, .inr rfl⟩
    · exact ⟨⟨rfl, rfl, rfl, rfl⟩, rfl, rfl, rfl, rfl, rfl, .inl rfl⟩
  obtain ⟨hsame, hmap, hseqNum, hnext, hfiles, hbackend, hhighWater⟩ := hframe
  refine hopen.of_covered _ ?_ hsame hmap hseqNum.ge hle fun _ => .inl
  refine hopen.toCovered.of_sameRecords _ hsame hmap hnext (by rw [hfiles]) ?_ ?_ ?_
  · simp only [selected, Disks.put_nodes_self, Disks.put_backend, hfiles, hbackend]
  · rw [hbackend]
    exact hopen.backend_le
  · intro hsealed c hc
    rcases hhighWater with heq | heq
    · rw [heq]
      exact hopen.window hsealed c hc
    · rw [heq]
      exact Nat.le_add_left _ _

/-- After a save that succeeded both copies are `c`, which covers every number. -/
structure Settled (cfg : Config) (d : Disks) (n : Nat) (v : Volume) (c : VBState) :
    Prop where
  localConfig : v.files.config = some c
  backendConfig : v.backend.config = some c
  newest : ∀ m, m ≠ n → ∀ c', (d.nodes m).config = some c' → c'.stateSeqNum < c.stateSeqNum
  covers : ∀ q, Known cfg (d.put n v) q ∨ Mapped cfg v.vb q → q ≤ base cfg c

/-- `SaveState`, whatever becomes of it; if it succeeds the volume is settled. -/
theorem Counted.saveState (hopen : Counted cfg (d.put n v) n v.vb held)
    (hmark : saveKeepsMark cfg v.vb = true) (disk backend : Outcome) :
    Counted cfg (d.put n (v.saveState cfg disk backend).1) n
        (v.saveState cfg disk backend).1.vb held ∧
      ((v.saveState cfg disk backend).2 = true →
        ∃ c, Settled cfg d n (v.saveState cfg disk backend).1 c) := by
  have hminted := hopen.mintForSave hmark
  generalize hmint : v.mintForSave cfg = minted at hminted
  have hcovers : ∀ q, Known cfg (d.put n minted) q ∨ Mapped cfg minted.vb q →
      q ≤ base cfg (minted.stateToSave minted.vb.seqNumHighWater) := by
    intro q hq
    exact hminted.le_ceiling q (hq.imp_right .inl)
  have hsaved := hminted.toCovered.persistStateLocal (fun q hq => .inl (hcovers q hq))
    (fun _ => Nat.le_add_right _ _) disk
  simp only [Volume.saveState, hmint]
  cases disk with
  | failed | landed =>
    refine ⟨?_, by simp [Outcome.isOk]⟩
    exact hminted.of_covered _ hsaved ⟨rfl, rfl, rfl, rfl⟩ rfl le_rfl le_rfl
      fun _ => .inl
  | ok =>
    simp only [Outcome.isOk, if_true]
    refine ⟨hminted.of_covered _ (hsaved.pushStateToBackend rfl rfl backend) ?_ rfl
      le_rfl le_rfl fun _ => .inl, ?_⟩
    · unfold Volume.pushStateToBackend
      cases backend <;> exact ⟨rfl, rfl, rfl, rfl⟩
    intro hok
    cases backend with
    | failed | landed =>
      simp at hok
    | ok =>
      refine ⟨minted.stateToSave minted.vb.seqNumHighWater, rfl, rfl, ?_, ?_⟩
      · intro m hm c' hc'
        refine Nat.lt_succ_of_le (hminted.local_le m c' ?_)
        rw [Disks.put_nodes_of_ne _ _ _ hm]
        exact hc'
      · intro q hq
        have hsame : SameRecords minted
            ((minted.persistStateLocal minted.vb.seqNumHighWater
              .ok).pushStateToBackend .ok) :=
          ⟨rfl, rfl, rfl, rfl⟩
        exact hcovers q (hq.imp_left (hsame.known_iff d n q).mp)

/-- Nothing but checkpoints of the map was saved. -/
structure SavesCheckpoint (cfg : Config) (v v' : Volume) : Prop where
  blocksToObject : v'.vb.blocksToObject = v.vb.blocksToObject
  seqNum : v'.vb.seqNum = v.vb.seqNum
  highWater : v'.vb.seqNumHighWater = v.vb.seqNumHighWater
  next : v'.vb.nextStateSeqNum = v.vb.nextStateSeqNum
  localConfig : v'.files.config = v.files.config
  backendConfig : v'.backend.config = v.backend.config
  walFiles : v'.files.walFiles = v.files.walFiles
  localSaved : ∀ records, LocalSaved v'.files records →
    LocalSaved v.files records ∨ records = v.checkpoint cfg
  backendSaved : ∀ records, BackendSaved v'.backend records →
    BackendSaved v.backend records ∨ records = v.checkpoint cfg

theorem SavesCheckpoint.saved (hsaves : SavesCheckpoint cfg v v') {records : List BlockLookup}
    (hrecords : Saved (d.put n v') records) :
    Saved (d.put n v) records ∨ records = v.checkpoint cfg := by
  rcases hrecords with hbackend | ⟨m, hlocal⟩
  · exact (hsaves.backendSaved records hbackend).imp_left .inl
  · by_cases hm : m = n
    · subst hm
      rw [Disks.put_nodes_self] at hlocal
      refine (hsaves.localSaved records hlocal).imp_left fun h => .inr ⟨m, ?_⟩
      rwa [Disks.put_nodes_self]
    · rw [Disks.put_nodes_of_ne _ _ _ hm] at hlocal
      refine .inl (.inr ⟨m, ?_⟩)
      rwa [Disks.put_nodes_of_ne _ _ _ hm]

theorem SavesCheckpoint.logged_iff (hsaves : SavesCheckpoint cfg v v') (d : Disks) (n m q : Nat) :
    Logged cfg ((d.put n v').nodes m) q ↔ Logged cfg ((d.put n v).nodes m) q :=
  Iff.of_eq (Disks.put_nodes_congr (Logged cfg · q) (by simp only [Logged, hsaves.walFiles]) m)

theorem Counted.savesCheckpoint (hopen : Counted cfg (d.put n v) n v.vb held)
    (hwf : v.vb.blocksToObject.blockLookup.WellFormed) (hsaves : SavesCheckpoint cfg v v') :
    Counted cfg (d.put n v') n v'.vb held := by
  refine hopen.transfer hwf ⟨hsaves.seqNum, hsaves.highWater, hsaves.next⟩ ?_
    hsaves.backendConfig (fun _ => hsaves.saved)
    (fun m q hq => .inl ((hsaves.logged_iff d n m q).mp hq))
    (fun q hq => (hsaves.logged_iff d n n q).mpr hq) (fun q hq => ?_) fun _ => id
  · exact Disks.put_nodes_congr LocalFiles.config hsaves.localConfig
  · rw [Mapped, hsaves.blocksToObject] at hq
    exact .inl hq

theorem Settled.savesCheckpoint {c : VBState} (hsettled : Settled cfg d n v c)
    (hwf : v.vb.blocksToObject.blockLookup.WellFormed) (hsaves : SavesCheckpoint cfg v v') :
    Settled cfg d n v' c := by
  refine ⟨hsaves.localConfig.trans hsettled.localConfig,
    hsaves.backendConfig.trans hsettled.backendConfig, hsettled.newest, ?_⟩
  intro q hq
  apply hsettled.covers
  rcases hq with (⟨records, hrecords, rec, hrec, rfl⟩ | ⟨m, hm⟩) | hq
  · rcases hsaves.saved hrecords with hold | rfl
    · exact .inl (.inl ⟨records, hold, rec, hrec, rfl⟩)
    · exact .inr (mapped_of_mem_checkpoint hwf hrec)
  · exact .inl (.inr ⟨m, (hsaves.logged_iff d n m q).mp hm⟩)
  · rw [Mapped, hsaves.blocksToObject] at hq
    exact .inr hq

theorem lookup_insert_cases {m : AList fun _ : Nat => List BlockLookup} {num k : Nat}
    {records records' : List BlockLookup} (hk : (m.insert num records').lookup k = some records) :
    (∃ k, m.lookup k = some records) ∨ records = records' := by
  by_cases hnum : k = num
  · subst hnum
    rw [AList.lookup_insert] at hk
    exact .inr (Option.some.inj hk).symm
  · rw [AList.lookup_insert_ne hnum] at hk
    exact .inl ⟨k, hk⟩

theorem savesCheckpoint_saveBlockState (cfg : Config) (v : Volume) (disk backend : Outcome) :
    SavesCheckpoint cfg v (v.saveBlockState cfg disk backend).1 := by
  have hlocal : ∀ records, LocalSaved
      { v.files with
        numbered := v.files.numbered.insert v.vb.blockToObjectWALNum
          (v.checkpoint cfg) } records →
      LocalSaved v.files records ∨ records = v.checkpoint cfg :=
    fun records ⟨_, hk⟩ => lookup_insert_cases hk
  have hbackend : ∀ records, BackendSaved
      { v.backend with
        numbered := v.backend.numbered.insert v.vb.blockToObjectWALNum
          (v.checkpoint cfg) } records →
      BackendSaved v.backend records ∨ records = v.checkpoint cfg := by
    rintro records (hlive | ⟨k, hk⟩)
    · exact .inl (.inl hlive)
    · exact (lookup_insert_cases hk).imp_left .inr
  unfold Volume.saveBlockState
  cases disk with
  | failed =>
    exact ⟨rfl, rfl, rfl, rfl, rfl, rfl, rfl, fun _ => .inl, fun _ => .inl⟩
  | landed => exact ⟨rfl, rfl, rfl, rfl, rfl, rfl, rfl, hlocal, fun _ => .inl⟩
  | ok =>
    cases backend with
    | failed => exact ⟨rfl, rfl, rfl, rfl, rfl, rfl, rfl, hlocal, fun _ => .inl⟩
    | ok | landed =>
      exact ⟨rfl, rfl, rfl, rfl, rfl, rfl, rfl, hlocal, hbackend⟩

theorem savesCheckpoint_saveLiveCheckpoint (cfg : Config) (v : Volume) (out : Outcome) :
    SavesCheckpoint cfg v (v.saveLiveCheckpoint cfg out).1 := by
  unfold Volume.saveLiveCheckpoint
  split
  · cases out with
    | failed =>
      exact ⟨rfl, rfl, rfl, rfl, rfl, rfl, rfl, fun _ => .inl, fun _ => .inl⟩
    | ok | landed =>
      refine ⟨rfl, rfl, rfl, rfl, rfl, rfl, rfl, fun _ => .inl, ?_⟩
      rintro records (hlive | hk)
      · exact .inr (Option.some.inj hlive).symm
      · exact .inl (.inr hk)
  · exact ⟨rfl, rfl, rfl, rfl, rfl, rfl, rfl, fun _ => .inl, fun _ => .inl⟩

end Saves

section Reserve

variable {cfg : Config} {d : Disks} {n : Nat} {v : Volume} {held : List Block}

theorem Covered.raiseHighWater (hopen : Covered cfg (d.put n v) n v.vb)
    (hsealed : cfg.sealing.isSome) {highWater : Nat} (hle : v.vb.seqNumHighWater ≤ highWater)
    (hcovers : ∀ q, Known cfg (d.put n v) q ∨ Mapped cfg v.vb q → q ≤ highWater ∨ ∃ q', q ≤ q' ∧
      Logged cfg v.files q') (disk backend : Outcome) :
    Covered cfg (d.put n (v.raiseHighWater highWater disk backend).1) n
      (v.raiseHighWater highWater disk backend).1.vb := by
  have hbase : base cfg (v.stateToSave highWater) = highWater := by
    rw [base, if_pos hsealed]
    rfl
  have hsaved := hopen.persistStateLocal
    (fun q hq => by rw [hbase]; exact hcovers q hq) (fun _ => by omega) disk
  unfold Volume.raiseHighWater
  cases disk with
  | failed | landed =>
    exact hsaved
  | ok =>
    refine Covered.pushStateToBackend (c := v.stateToSave highWater) ?_ rfl rfl backend
    refine hsaved.of_sameRecords _ ⟨rfl, rfl, rfl, rfl⟩ rfl rfl rfl rfl
      hsaved.backend_le fun _ c hc => ?_
    rw [hopen.selected_persistStateLocal highWater .ok] at hc
    rw [← Option.some.inj hc, hbase]
    exact Nat.le_add_right _ _

theorem Covered.selected_raiseHighWater (hopen : Covered cfg (d.put n v) n v.vb)
    (highWater : Nat) (disk backend : Outcome) :
    selected (d.put n (v.raiseHighWater highWater disk backend).1) n =
      if disk.lands then some (v.stateToSave highWater) else selected (d.put n v) n := by
  cases disk with
  | failed | landed =>
    exact hopen.selected_persistStateLocal highWater _
  | ok =>
    refine selected_put_of_local rfl fun c hc => ?_
    cases backend with
    | failed => exact (hopen.backend_le c hc).trans (Nat.le_succ _)
    | ok | landed =>
      rw [← Option.some.inj hc]

theorem raiseHighWater_counters (v : Volume) (highWater : Nat) (disk backend : Outcome) :
    SameRecords v (v.raiseHighWater highWater disk backend).1 ∧
      (v.raiseHighWater highWater disk backend).1.vb.seqNum = v.vb.seqNum ∧
      (v.raiseHighWater highWater disk backend).1.vb.volumeUUID = v.vb.volumeUUID ∧
      (v.raiseHighWater highWater disk backend).2 = disk.isOk ∧
      (v.raiseHighWater highWater disk backend).1.vb.seqNumHighWater =
        if disk.isOk then highWater else v.vb.seqNumHighWater := by
  cases disk <;> cases backend <;> exact ⟨⟨rfl, rfl, rfl, rfl⟩, rfl, rfl, rfl, rfl⟩

theorem Counted.reserveSeqNum (hopen : Counted cfg (d.put n v) n v.vb held) {disk backend : Outcome}
    {v' : Volume} {res : Option Nat} (hreserve : v.reserveSeqNum cfg disk backend = (v', res)) :
    Counted cfg (d.put n v') n v'.vb held ∧ v'.vb.seqNum = v.vb.seqNum + 1 ∧
      ∀ seqNum, res = some seqNum → seqNum = v.vb.seqNum + 1 ∧ seqNum ≤ ceiling cfg v'.vb := by
  have hadded : Counted cfg (d.put n v.addSeqNum) n v.addSeqNum.vb held := by
    refine hopen.of_covered v.addSeqNum ?_ ⟨rfl, rfl, rfl, rfl⟩ rfl (Nat.le_succ _)
      le_rfl fun _ => .inl
    exact hopen.toCovered.of_sameRecords _ ⟨rfl, rfl, rfl, rfl⟩ rfl rfl rfl rfl
      hopen.backend_le hopen.window
  unfold Volume.reserveSeqNum at hreserve
  dsimp only at hreserve
  split at hreserve
  · rename_i hplain
    cases hreserve
    refine ⟨hadded, rfl, fun seqNum hseqNum => ?_⟩
    cases hseqNum
    rw [Option.isNone_iff_eq_none] at hplain
    simp [ceiling, hplain, addSeqNum]
  rename_i hsealed
  have hsealed : cfg.sealing.isSome := by
    cases hcfg : cfg.sealing <;> simp [hcfg] at hsealed ⊢
  split at hreserve
  · cases hreserve
    exact ⟨hadded, rfl, by simp⟩
  split at hreserve
  · rename_i hle
    cases hreserve
    refine ⟨hadded, rfl, fun seqNum hseqNum => ?_⟩
    cases hseqNum
    rw [ceiling, if_pos hsealed]
    exact ⟨rfl, hle⟩
  -- the mark is raised under the minted UUID, which the counters do not depend on
  generalize hminted : v.addSeqNum.mintVolumeUUID = minted at hreserve
  generalize hmark : raiseWindows v.vb.seqNumHighWater v.addSeqNum.vb.seqNum = highWater
    at hreserve
  have hle : v.vb.seqNumHighWater ≤ highWater := by
    rw [← hmark]
    exact SeqNumSystem.raiseWindows_le _ _
  have htarget : v.vb.seqNum + 1 ≤ highWater := by
    rw [← hmark]
    exact SeqNumSystem.le_raiseWindows _ _
  have hcounted : Counted cfg (d.put n minted) n minted.vb held := by
    rw [← hminted]
    refine hadded.of_covered v.addSeqNum.mintVolumeUUID ?_ ⟨rfl, rfl, rfl, rfl⟩ rfl
      le_rfl le_rfl fun _ => .inl
    exact hadded.toCovered.of_sameRecords _ ⟨rfl, rfl, rfl, rfl⟩ rfl rfl rfl rfl
      hadded.backend_le hadded.window
  have hhighWater : minted.vb.seqNumHighWater = v.vb.seqNumHighWater := by
    rw [← hminted]
    rfl
  have hraised : Counted cfg (d.put n (minted.raiseHighWater highWater disk backend).1) n
      (minted.raiseHighWater highWater disk backend).1.vb held := by
    obtain ⟨hsame, hseqNum, -, -, hmark'⟩ :=
      raiseHighWater_counters minted highWater disk backend
    refine hcounted.of_covered _ ?_ hsame
      (raiseHighWater_sameBlocks minted highWater disk backend).blocksToObject
      hseqNum.ge ?_ fun _ => .inl
    · refine hcounted.toCovered.raiseHighWater hsealed (by omega) (fun q hq => .inl ?_)
        disk backend
      have hq' := hcounted.le_ceiling q (hq.imp_right .inl)
      rw [ceiling, if_pos hsealed] at hq'
      omega
    · rw [hmark']
      split
      · omega
      · exact le_rfl
  obtain ⟨-, hseqNum, -, hok, hmark'⟩ :=
    raiseHighWater_counters minted highWater disk backend
  have hcounter : minted.vb.seqNum = v.vb.seqNum + 1 := by
    rw [← hminted]
    rfl
  split at hreserve
  · rename_i raised hraise
    rw [hraise] at hraised hseqNum hok hmark'
    cases hreserve
    refine ⟨hraised, hseqNum.trans hcounter, ?_⟩
    intro seqNum hsome
    cases hsome
    rw [ceiling, if_pos hsealed, hmark', if_pos hok.symm]
    exact ⟨rfl, htarget⟩
  · rename_i raised hraise
    rw [hraise] at hraised hseqNum
    cases hreserve
    exact ⟨hraised, hseqNum.trans hcounter, by simp⟩

end Reserve

end ReopenSystem

end Viperblock
