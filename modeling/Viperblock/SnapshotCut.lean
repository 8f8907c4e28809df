import Viperblock.Lib.GuardedRun
import Viperblock.SnapshotChain

/-!
# A snapshot of a clone that goes on uploading

`CreateSnapshot` reads the own map of a clone twice, in two locked sections: once
to serialise it and once, for the flat section, to leave out the inherited blocks
it shadows.  A chunk that is published between the two may bring in a block that
was inherited so far.  That block is then in neither part of the snapshot.

Uploads are seen through the one locked section in which `createChunkFile` enters
a chunk into the map.
-/

namespace Viperblock

namespace SnapshotCut

open GuardedRun BlocksToObject CloneVolume

inductive Phase
  | idle
  /-- `CreateSnapshot` was called and has drained. -/
  | begun
  /-- The own map, when it was serialised, in the order it was walked. -/
  | serialised (timestamp : Nat) (own : BlocksToObject) (entries : List MapEntry)
  | finished (result : Except SnapshotError SnapshotObject)

structure State where
  clone : CloneVolume
  phase : Phase
  /-- The own maps of all instants of the call. -/
  instants : List BlocksToObject

inductive Act
  | publish (id : Nat) (blocks : List Block)
  | begin
  | serialise (timestamp : Nat) (entries : List MapEntry)
  | build (seen : List MapEntry) (layers : List (List MapEntry))

/-- The clone at an instant at which its own map was `own`. -/
def State.at (s : State) (own : BlocksToObject) : CloneVolume :=
  { s.clone with own := own }

/-- Each walk visits the entries of its layer once. -/
def walksLayers (layers : List Layer) (walks : List (List MapEntry)) : Bool :=
  layers.length == walks.length &&
    (layers.zip walks).all fun pair => decide (pair.2.Perm pair.1.blocks.entries)

def step (s : State) : Act → Option State
  | .publish id blocks =>
    if id < 2 ^ 64 ∧ ∀ b ∈ blocks, b.block < 2 ^ 64 ∧ b.seqNum < 2 ^ 64 then
      let own := s.clone.own.publishChunk s.clone.stride id blocks
      match s.phase with
      | .idle => some { s with clone := s.at own }
      | .finished _ => some { s with clone := s.at own }
      | _ => some { s with clone := s.at own, instants := own :: s.instants }
    else none
  | .begin =>
    match s.phase with
    | .idle => some { s with phase := .begun, instants := [s.clone.own] }
    | _ => none
  | .serialise timestamp entries =>
    match s.phase with
    | .begun =>
      if entries.Perm s.clone.own.blockLookup.entries then
        some { s with phase := .serialised timestamp s.clone.own entries }
      else none
    | _ => none
  | .build seen layers =>
    match s.phase with
    | .serialised timestamp _ entries =>
      if seen.Perm s.clone.own.blockLookup.entries ∧ walksLayers s.clone.layers layers = true then
        some
          { s with
            phase := .finished
              (s.clone.createSnapshot ⟨timestamp, entries, seen, layers⟩) }
      else none
    | _ => none

/-- Between the two sections of a snapshot no chunk is published with a block that is
inherited so far. -/
def keepsInherited (s : State) (a : Act) : Bool :=
  match a, s.phase with
  | .publish _ blocks, .serialised _ _ _ =>
    blocks.all fun b =>
      (lookupBlockToObject s.clone.stride s.clone.own.blockLookup b.block).isSome ||
        (s.clone.inherited b.block).isNone
  | _, _ => true

/-- Opened in whatever volume, the snapshot resolves every block as the clone did at
one instant of the call. -/
def ConsistentCut (s : State) : Prop :=
  ∀ snap, s.phase = .finished (.ok snap) →
    ∃ own ∈ s.instants, ∀ w opened : CloneVolume, w.openFromSnapshot snap = .ok opened →
      ∀ block, opened.inherited block = (s.at own).resolve block

section Publish

variable {stride id : Nat} {own : BlocksToObject} {blocks : List Block}

theorem exists_mem_of_lookup_publishChunk (hown : own.Sound) {block : Nat} {loc : Location}
    (hnone : lookupBlockToObject stride own.blockLookup block = none)
    (hloc : lookupBlockToObject stride
      (own.publishChunk stride id blocks).blockLookup block = some loc) :
    ∃ b ∈ blocks, b.block = block := by
  rcases lookup_publishChunk_cases hown hloc with hold | hrun
  · rw [hnone] at hold
    cases hold
  · obtain ⟨runStart, first, rest, hmem, hcovers, -⟩ := hrun
    obtain ⟨w, -, hw, hblock, -⟩ := exists_block_of_covers hmem hcovers
    exact ⟨w, hw, hblock⟩

theorem OwnMap.publishChunk (hown : OwnMap stride own) (hid : id < 2 ^ 64)
    (hfits : ∀ b ∈ blocks, b.block < 2 ^ 64 ∧ b.seqNum < 2 ^ 64) :
    OwnMap stride (own.publishChunk stride id blocks) := by
  refine ⟨hown.sound.publishChunk blocks, fun block loc hloc => ?_⟩
  rcases lookup_publishChunk_cases hown.sound hloc with hold | hrun
  · exact hown.bounded block loc hold
  · obtain ⟨runStart, first, rest, hmem, hcovers, rfl⟩ := hrun
    obtain ⟨w, -, hw, rfl, hseq⟩ := exists_block_of_covers hmem hcovers
    obtain ⟨hblock, hseqNum⟩ := hfits w hw
    exact ⟨hblock, hid, by rwa [hseq]⟩

end Publish

section Safety

theorem forall₂_of_walksLayers {layers : List Layer} {walks : List (List MapEntry)}
    (hwalks : walksLayers layers walks = true) :
    List.Forall₂ (fun (layer : Layer) (entries : List MapEntry) =>
      entries.Perm layer.blocks.entries) layers walks := by
  simp only [walksLayers, Bool.and_eq_true, beq_iff_eq, List.all_eq_true,
    decide_eq_true_eq] at hwalks
  rw [List.forall₂_iff_zip]
  exact ⟨hwalks.1, fun {a b} hab => hwalks.2 (a, b) hab⟩

/-- What is known of the own map that was serialised until the flat section is built. -/
structure Frozen (s : State) (own : BlocksToObject) (entries : List MapEntry) : Prop where
  instant : own ∈ s.instants
  walked : entries.Perm own.blockLookup.entries
  ownMap : OwnMap s.clone.stride own
  /-- What came to the map since then was not inherited. -/
  fresh : ∀ block loc, lookupBlockToObject s.clone.stride own.blockLookup block = none →
      lookupBlockToObject s.clone.stride s.clone.own.blockLookup block = some loc →
        s.clone.inherited block = none

structure Inv (s : State) : Prop where
  valid : s.clone.Valid
  current : s.phase = .begun → s.clone.own ∈ s.instants
  frozen : ∀ timestamp own entries, s.phase = .serialised timestamp own entries →
    Frozen s own entries
  cut : ConsistentCut s

variable {s t : State}

theorem Valid.publish (hv : s.clone.Valid) {id : Nat} {blocks : List Block} (hid : id < 2 ^ 64)
    (hfits : ∀ b ∈ blocks, b.block < 2 ^ 64 ∧ b.seqNum < 2 ^ 64) :
    (s.at (s.clone.own.publishChunk s.clone.stride id blocks)).Valid :=
  ⟨OwnMap.publishChunk hv.toOwnMap hid hfits, hv.layers, hv.ancestors⟩

theorem Frozen.publish (hv : s.clone.Valid) {own : BlocksToObject} {entries : List MapEntry}
    (hfrozen : Frozen s own entries) (id : Nat) {blocks : List Block}
    (hkeeps : ∀ b ∈ blocks,
      lookupBlockToObject s.clone.stride s.clone.own.blockLookup b.block = none →
        s.clone.inherited b.block = none) :
    let own' := s.clone.own.publishChunk s.clone.stride id blocks
    Frozen { s with clone := s.at own', instants := own' :: s.instants } own entries := by
  refine ⟨List.mem_cons_of_mem _ hfrozen.instant, hfrozen.walked, hfrozen.ownMap, ?_⟩
  intro block loc hnone hloc
  cases hold : lookupBlockToObject s.clone.stride s.clone.own.blockLookup block with
  | some loc' => exact hfrozen.fresh block loc' hnone hold
  | none =>
    obtain ⟨b, hb, rfl⟩ := exists_mem_of_lookup_publishChunk hv.sound hold hloc
    exact hkeeps b hb hold

/-- The snapshot that is built resolves every block as at the frozen instant. -/
theorem Frozen.resolves (hv : s.clone.Valid) {own : BlocksToObject} {entries seen : List MapEntry}
    {layers : List (List MapEntry)} {timestamp : Nat} {snap : SnapshotObject}
    (hfrozen : Frozen s own entries) (hseen : seen.Perm s.clone.own.blockLookup.entries)
    (hlayers : walksLayers s.clone.layers layers = true)
    (hcreate : s.clone.createSnapshot ⟨timestamp, entries, seen, layers⟩ = .ok snap)
    {w opened : CloneVolume} (hopen : w.openFromSnapshot snap = .ok opened) (block : Nat) :
    opened.inherited block = (s.at own).resolve block := by
  have hvalid : (s.at own).Valid := ⟨hfrozen.ownMap, hv.layers, hv.ancestors⟩
  have hsame : (s.at own).createSnapshot ⟨timestamp, entries, seen, layers⟩ = .ok snap :=
    hcreate
  have hwalks : List.Forall₂ (fun (layer : Layer) (entries : List MapEntry) =>
      entries.Perm layer.blocks.entries) (s.at own).layers layers :=
    forall₂_of_walksLayers hlayers
  rw [inherited_of_open hvalid hfrozen.walked hwalks hsame hopen, resolve]
  cases hloc : lookupBlockToObject (s.at own).stride (s.at own).own.blockLookup block with
  | some loc => rfl
  | none =>
    dsimp only
    split
    · rename_i hmem
      obtain ⟨loc, hnow⟩ :=
        (mem_ownBlocks_iff s.clone.stride hv.sound.wf hseen).mp hmem
      exact (hfrozen.fresh block loc hloc hnow).symm
    · rfl

theorem Inv.publish (hs : Inv s) {id : Nat} {blocks : List Block}
    (hkeeps : keepsInherited s (.publish id blocks) = true)
    (hstep : step s (.publish id blocks) = some t) :
    Inv t := by
  simp only [step] at hstep
  split at hstep
  swap
  · cases hstep
  rename_i hfits
  have hvalid := Valid.publish hs.valid hfits.1 hfits.2
  cases hphase : s.phase with
  | idle =>
    rw [hphase] at hstep
    cases hstep
    exact ⟨hvalid, by simp, by simp, by simp [ConsistentCut]⟩
  | begun =>
    rw [hphase] at hstep
    cases hstep
    exact ⟨hvalid, fun _ => List.mem_cons_self, by simp, by simp [ConsistentCut]⟩
  | serialised timestamp own entries =>
    have hblocks : ∀ b ∈ blocks,
        lookupBlockToObject s.clone.stride s.clone.own.blockLookup b.block = none →
          s.clone.inherited b.block = none := by
      intro b hb hnone
      simp only [keepsInherited, hphase, List.all_eq_true, Bool.or_eq_true,
        Option.isNone_iff_eq_none] at hkeeps
      rcases hkeeps b hb with hown | hfree
      · rw [hnone] at hown
        cases hown
      · exact hfree
    have hfrozen := (hs.frozen _ _ _ hphase).publish hs.valid id hblocks
    rw [hphase] at hstep hfrozen
    cases hstep
    refine ⟨hvalid, by simp, ?_, by simp [ConsistentCut]⟩
    intro timestamp' own' entries' h
    obtain ⟨-, rfl, rfl⟩ := Phase.serialised.inj h
    exact hfrozen
  | finished result =>
    have hcut := hs.cut
    rw [ConsistentCut, hphase] at hcut
    rw [hphase] at hstep
    cases hstep
    exact ⟨hvalid, by simp, by simp, hcut⟩

theorem Inv.begin (hs : Inv s) (hstep : step s .begin = some t) :
    Inv t := by
  simp only [step] at hstep
  split at hstep
  swap
  · cases hstep
  cases hstep
  exact ⟨hs.valid, fun _ => List.mem_cons_self, by simp, by simp [ConsistentCut]⟩

theorem Inv.serialise (hs : Inv s) {timestamp : Nat} {entries : List MapEntry}
    (hstep : step s (.serialise timestamp entries) = some t) :
    Inv t := by
  simp only [step] at hstep
  split at hstep
  swap
  · cases hstep
  rename_i hphase
  split at hstep
  swap
  · cases hstep
  rename_i hwalked
  cases hstep
  refine ⟨hs.valid, by simp, ?_, by simp [ConsistentCut]⟩
  intro timestamp' own entries' h
  obtain ⟨-, rfl, rfl⟩ := Phase.serialised.inj h
  refine ⟨hs.current hphase, hwalked, hs.valid.toOwnMap, ?_⟩
  intro block loc hnone hloc
  rw [hnone] at hloc
  cases hloc

theorem Inv.build (hs : Inv s) {seen : List MapEntry} {layers : List (List MapEntry)}
    (hstep : step s (.build seen layers) = some t) :
    Inv t := by
  simp only [step] at hstep
  split at hstep
  swap
  · cases hstep
  rename_i timestamp own entries hphase
  split at hstep
  swap
  · cases hstep
  rename_i hwalk
  cases hstep
  refine ⟨hs.valid, by simp, by simp, ?_⟩
  intro snap hsnap
  have hfrozen := hs.frozen _ _ _ hphase
  refine ⟨own, hfrozen.instant, fun w opened hopen block => ?_⟩
  exact hfrozen.resolves hs.valid hwalk.1 hwalk.2 (Phase.finished.inj hsnap) hopen block

theorem Inv.step {a : Act} (hs : Inv s) (hkeeps : keepsInherited s a = true)
    (hstep : step s a = some t) :
    Inv t := by
  cases a with
  | publish id blocks => exact hs.publish hkeeps hstep
  | begin => exact hs.begin hstep
  | serialise timestamp entries => exact hs.serialise hstep
  | build seen layers => exact hs.build hstep

/-- In every run in which no chunk brings in an inherited block between the two
sections of a snapshot, every snapshot that is created is a consistent cut. -/
theorem snapshot_is_consistent_cut {clone : CloneVolume} {acts : List Act} {u : State}
    (hclone : Chain clone)
    (hrun : Run step (fun s a => keepsInherited s a = true) ⟨clone, .idle, []⟩ acts u) :
    ConsistentCut u := by
  have hinit : Inv ⟨clone, .idle, []⟩ :=
    ⟨hclone.valid, by simp, by simp, by simp [ConsistentCut]⟩
  exact (hrun.preserves (fun s a t hs => hs.step) hinit).cut

/-- A clone of a volume with blocks 0 and 1 that has no block of its own yet. -/
def freshClone : CloneVolume :=
  match volumeA.cloneTo (plainVolume "vol-b" (oneChunk [])) with
  | .error _ => plainVolume "vol-b" (oneChunk [])
  | .ok opened => opened

theorem chain_freshClone :
    Chain freshClone := by
  have hown : OwnMap 1 (oneChunk []) := ownMap_oneChunk (by simp) (by simp)
  have hroot : Chain volumeA := .root (ownMap_oneChunk (by decide) (by decide)) rfl rfl
  unfold freshClone
  split
  · exact .root hown rfl rfl
  · rename_i opened hopened
    unfold cloneTo at hopened
    split at hopened
    · cases hopened
    rename_i snap hsnap
    have heq := eq_of_openFromSnapshot (hroot.valid.mintVolumeUUID []) (List.Perm.refl _)
      (storedWalk_of volumeA).layers hsnap hopened
    have hsame : OwnMap opened.stride opened.own := by
      rw [heq]
      exact hown
    exact .clone [] opened.own hroot (storedWalk_of volumeA) hsnap hopened hsame

/-- A snapshot during which one block is published between the two sections. -/
def publishedBetween (block : Nat) : List Act :=
  [.begin, .serialise 0 [], .publish 0 [⟨[8], 1, block, 1⟩],
    .build (oneChunk [⟨[8], 1, block, 1⟩]).blockLookup.entries
      (freshClone.layers.map fun layer => layer.blocks.entries)]

/-- A snapshot was created. -/
def hasSnapshot (s : State) : Bool :=
  match s.phase with
  | .finished (.ok _) => true
  | _ => false

theorem publish_new_block_consistent :
    ∃ u, Run step (fun s a => keepsInherited s a = true) ⟨freshClone, .idle, []⟩
        (publishedBetween 5) u ∧
      hasSnapshot u = true ∧ ConsistentCut u := by
  obtain ⟨u, hrun, hsnap⟩ := Run.exists_of_exec step
    (fun s a => keepsInherited s a = true) ⟨freshClone, .idle, []⟩ (publishedBetween 5)
    hasSnapshot (by decide +kernel)
  exact ⟨u, hrun, hsnap, snapshot_is_consistent_cut chain_freshClone hrun⟩

/-- The snapshot has lost block 0, which the clone resolved throughout the call. -/
def losesBlock (s : State) : Bool :=
  match s.phase with
  | .finished (.ok snap) =>
    match (plainVolume "vol-c" (oneChunk [])).openFromSnapshot snap with
    | .ok opened =>
      (opened.inherited 0).isNone &&
        s.instants.all fun own => ((s.at own).resolve 0).isSome
    | .error _ => false
  | _ => false

theorem not_consistentCut_of_losesBlock (hs : losesBlock s = true) :
    ¬ ConsistentCut s := by
  intro hcut
  unfold losesBlock at hs
  split at hs
  swap
  · cases hs
  rename_i snap hphase
  split at hs
  swap
  · cases hs
  rename_i opened hopened
  simp only [Bool.and_eq_true, List.all_eq_true, Option.isNone_iff_eq_none] at hs
  obtain ⟨own, hown, hresolves⟩ := hcut snap hphase
  have hsome := hs.2 own hown
  rw [← hresolves _ opened hopened 0, hs.1] at hsome
  cases hsome

/-- The block of a chunk that is published between the two sections is in neither. -/
theorem publish_between_loses_block :
    ∃ u, Run step (fun _ _ => True) ⟨freshClone, .idle, []⟩ (publishedBetween 0) u ∧
      ¬ ConsistentCut u := by
  obtain ⟨u, hrun, hloses⟩ := Run.exists_of_exec step (fun _ _ => True)
    ⟨freshClone, .idle, []⟩ (publishedBetween 0) losesBlock (by decide +kernel)
  exact ⟨u, hrun, not_consistentCut_of_losesBlock hloses⟩

end Safety

end SnapshotCut

end Viperblock
