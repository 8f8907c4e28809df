import Viperblock.Lib.GuardedRun
import Viperblock.MapHistory

/-!
# The dirty flag of the block map

`createChunkFile` sets the flag when it has entered a chunk into the map, and
`SaveLiveCheckpoint` clears it when it has stored the map.  A save looks at the
flag, serialises the map under the read lock, stores the bytes in up to three
attempts with the lock released, and then clears the flag without looking at the
map again.

Drains run one at a time, but `WriteWALToChunk` is also called directly, by
`ImportDiskImage` and `Close`, and saves have callers outside of drains.  So here
chunks are published and saves run concurrently in any number.
-/

namespace Viperblock

namespace LiveCheckpoint

open GuardedRun BlockMap BlocksToObject

inductive SavePhase
  /-- The flag was found set. -/
  | checked
  /-- The bytes to store, and the number of attempts that failed. -/
  | serialised (records : List BlockLookup) (attempt : Nat)
  /-- The bytes are stored and the flag is about to be cleared. -/
  | stored

structure State where
  objectNum : Nat
  map : BlocksToObject
  dirty : Bool
  /-- The records of the live checkpoint on the backend. -/
  live : Option (List BlockLookup)
  /-- Chunks that are being uploaded, by object number. -/
  uploads : AList fun _ : Nat => List Block
  /-- Calls of `SaveLiveCheckpoint` in progress. -/
  saves : AList fun _ : Nat => SavePhase

inductive Act
  /-- `createChunkFile` takes an object number. -/
  | allocate (blocks : List Block)
  | uploadFailed (id : Nat)
  /-- The chunk is stored and entered into the map. -/
  | publish (id : Nat)
  | saveBegin (call : Nat)
  | serialise (call : Nat) (entries : List (Sigma fun _ : Nat => BlockLookup))
  /-- One attempt to store the bytes; one that fails may have taken effect. -/
  | put (call : Nat) (ok landed : Bool)
  /-- The context ends between two attempts. -/
  | giveUp (call : Nat)
  | clearDirty (call : Nat)

/-- Blocks of one chunk: sorted, with numbers of the source's widths. -/
def chunkFits (blocks : List Block) : Bool :=
  decide (blocks.Pairwise fun x y => x.block < y.block) &&
    blocks.all fun b => decide (b.block < 2 ^ 64 ∧ b.seqNum < 2 ^ 64)

def step (stride : Nat) (s : State) : Act → Option State
  | .allocate blocks =>
    if s.objectNum + 1 < 2 ^ 64 ∧ chunkFits blocks = true then
      some
        { s with
          objectNum := s.objectNum + 1
          uploads := s.uploads.insert s.objectNum blocks }
    else none
  | .uploadFailed id => some { s with uploads := s.uploads.erase id }
  | .publish id =>
    match s.uploads.lookup id with
    | none => none
    | some blocks =>
      some
        { s with
          map := s.map.publishChunk stride id blocks
          dirty := true
          uploads := s.uploads.erase id }
  | .saveBegin call =>
    if s.saves.lookup call = none then
      if s.dirty then some { s with saves := s.saves.insert call .checked }
      else some s
    else none
  | .serialise call entries =>
    match s.saves.lookup call with
    | some .checked =>
      if entries.Perm s.map.blockLookup.entries then
        some
          { s with
            saves := s.saves.insert call
              (.serialised (expandEntries stride entries) 0) }
      else none
    | _ => none
  | .put call ok landed =>
    match s.saves.lookup call with
    | some (.serialised records attempt) =>
      if ok then
        some { s with live := some records, saves := s.saves.insert call .stored }
      else
        let live := if landed then some records else s.live
        if attempt < 2 then
          some
            { s with
              live := live
              saves := s.saves.insert call (.serialised records (attempt + 1)) }
        else some { s with live := live, saves := s.saves.erase call }
    | _ => none
  | .giveUp call =>
    match s.saves.lookup call with
    | some (.serialised _ _) => some { s with saves := s.saves.erase call }
    | _ => none
  | .clearDirty call =>
    match s.saves.lookup call with
    | some .stored => some { s with dirty := false, saves := s.saves.erase call }
    | _ => none

/-- Where a checkpoint puts a block once it is loaded. -/
def recordsLookup (stride : Nat) (records : List BlockLookup) (block : Nat) :
    Option Location :=
  lookupBlockToObject stride (parseBlockCheckpoint false stride records).blockLookup block

/-- Where the stored checkpoint puts a block; without one there is no block. -/
def liveLookup (stride : Nat) (s : State) (block : Nat) : Option Location :=
  match s.live with
  | some records => recordsLookup stride records block
  | none => none

/-- The stored checkpoint resolves every block as the map in memory does. -/
def LiveCurrent (stride : Nat) (s : State) : Prop :=
  ∀ block, liveLookup stride s block = lookupBlockToObject stride s.map.blockLookup block

/-- With the flag clear and no save running, the stored checkpoint is the map. -/
def CleanIsSaved (stride : Nat) (s : State) : Prop :=
  s.dirty = false → s.saves = ∅ → LiveCurrent stride s

/-- The save has not serialised the map yet. -/
def SavePhase.unread : SavePhase → Bool
  | .checked => true
  | _ => false

/-- No chunk is published between the serialisation of the map by a save and the end
of that save. -/
def publishesOutsideSaves (s : State) (a : Act) : Bool :=
  match a with
  | .publish _ => s.saves.entries.all fun entry => entry.2.unread
  | _ => true

/-- An engine that was opened with the map that the backend stores. -/
structure Opened (stride : Nat) (s : State) : Prop where
  reachable : Reachable stride s.objectNum s.map
  current : LiveCurrent stride s
  uploads : s.uploads = ∅
  saves : s.saves = ∅

section Safety

variable {stride : Nat} {s t : State}

structure Inv (stride : Nat) (s : State) : Prop where
  regular : Regular stride s.objectNum s.map
  uploads : ∀ id blocks, s.uploads.lookup id = some blocks →
    id < s.objectNum ∧ id ∉ s.map.blockLookup.objectIDs ∧ chunkFits blocks = true
  /-- What a save is about to store is the map. -/
  serialised : ∀ call records attempt, s.saves.lookup call = some (.serialised records attempt) →
      ∀ block, recordsLookup stride records block =
        lookupBlockToObject stride s.map.blockLookup block
  stored : ∀ call, s.saves.lookup call = some .stored → LiveCurrent stride s
  clean : s.dirty = false → LiveCurrent stride s

theorem Opened.inv (hs : Opened stride s) :
    Inv stride s where
  regular := hs.reachable.regular
  uploads := by simp [hs.uploads]
  serialised := by simp [hs.saves]
  stored := by simp [hs.saves]
  clean := fun _ => hs.current

section

variable (hs : Inv stride s)

include hs

theorem Inv.setSave (call : Nat) {phase : SavePhase}
    (hserialised : ∀ records attempt, phase = .serialised records attempt →
      ∀ block, recordsLookup stride records block =
        lookupBlockToObject stride s.map.blockLookup block)
    (hstored : phase = .stored → LiveCurrent stride s) :
    Inv stride { s with saves := s.saves.insert call phase } := by
  refine ⟨hs.regular, hs.uploads, ?_, ?_, hs.clean⟩
  · intro call' records attempt h
    rcases FiniteMap.lookup_insert_eq_some h with ⟨-, hphase⟩ | hold
    · exact hserialised records attempt hphase.symm
    · exact hs.serialised call' records attempt hold
  · intro call' h
    rcases FiniteMap.lookup_insert_eq_some h with ⟨-, hphase⟩ | hold
    · exact hstored hphase.symm
    · exact hs.stored call' hold

theorem Inv.dropSave (call : Nat) :
    Inv stride { s with saves := s.saves.erase call } := by
  refine ⟨hs.regular, hs.uploads, ?_, ?_, hs.clean⟩
  · intro call' records attempt h
    exact hs.serialised call' records attempt (FiniteMap.lookup_erase_eq_some h).2
  · intro call' h
    exact hs.stored call' (FiniteMap.lookup_erase_eq_some h).2

theorem Inv.store {records : List BlockLookup}
    (hrecords : ∀ block, recordsLookup stride records block =
      lookupBlockToObject stride s.map.blockLookup block) :
    Inv stride { s with live := some records } ∧
      LiveCurrent stride { s with live := some records } := by
  have hcurrent : LiveCurrent stride { s with live := some records } := hrecords
  exact ⟨⟨hs.regular, hs.uploads, hs.serialised, fun _ _ => hcurrent, fun _ => hcurrent⟩, hcurrent⟩

theorem Inv.land {records : List BlockLookup}
    (hrecords : ∀ block, recordsLookup stride records block =
      lookupBlockToObject stride s.map.blockLookup block) (landed : Bool) :
    Inv stride { s with live := if landed then some records else s.live } := by
  cases landed with
  | true => exact (hs.store hrecords).1
  | false => exact hs

theorem Inv.allocate {blocks : List Block} (hroom : s.objectNum + 1 < 2 ^ 64)
    (hfits : chunkFits blocks = true) :
    Inv stride { s with
      objectNum := s.objectNum + 1
      uploads := s.uploads.insert s.objectNum blocks } := by
  refine ⟨hs.regular.allocate hroom, ?_, hs.serialised, hs.stored, hs.clean⟩
  intro id blocks' hid
  rcases FiniteMap.lookup_insert_eq_some hid with ⟨rfl, rfl⟩ | hold
  · refine ⟨Nat.lt_succ_self _, ?_, hfits⟩
    intro hmem
    obtain ⟨block, loc, hloc, heq⟩ :=
      (hs.regular.sound.wf.mem_objectIDs_iff_lookup stride).mp hmem
    have hlt := (hs.regular.bounded block loc hloc).2.1
    omega
  · obtain ⟨hlt, hnew, hfits'⟩ := hs.uploads id blocks' hold
    exact ⟨Nat.lt_succ_of_lt hlt, hnew, hfits'⟩

theorem Inv.uploadFailed (id : Nat) :
    Inv stride { s with uploads := s.uploads.erase id } := by
  refine ⟨hs.regular, ?_, hs.serialised, hs.stored, hs.clean⟩
  intro id' blocks h
  exact hs.uploads id' blocks (FiniteMap.lookup_erase_eq_some h).2

end

theorem chunkFits_iff {blocks : List Block} :
    chunkFits blocks = true ↔ blocks.Pairwise (fun x y => x.block < y.block) ∧
      ∀ b ∈ blocks, b.block < 2 ^ 64 ∧ b.seqNum < 2 ^ 64 := by
  simp [chunkFits]

/-- The only step that changes the map; no save then knows its content. -/
theorem Inv.publish (hs : Inv stride s) {id : Nat} {blocks : List Block}
    (hblocks : s.uploads.lookup id = some blocks)
    (hguard : publishesOutsideSaves s (.publish id) = true) :
    Inv stride { s with
      map := s.map.publishChunk stride id blocks
      dirty := true
      uploads := s.uploads.erase id } := by
  obtain ⟨hlt, hnew, hfits⟩ := hs.uploads id blocks hblocks
  obtain ⟨hsorted, hwidths⟩ := chunkFits_iff.mp hfits
  have hunread : ∀ call phase, s.saves.lookup call = some phase → phase.unread = true := by
    intro call phase hphase
    simp only [publishesOutsideSaves, List.all_eq_true] at hguard
    exact hguard ⟨call, phase⟩ (FiniteMap.mem_entries_iff.mpr hphase)
  refine ⟨hs.regular.publish hlt hnew hsorted hwidths, ?_, ?_, ?_, by simp⟩
  · intro id' blocks' h
    obtain ⟨hne, hold⟩ := FiniteMap.lookup_erase_eq_some h
    obtain ⟨hlt', hnew', hfits'⟩ := hs.uploads id' blocks' hold
    refine ⟨hlt', ?_, hfits'⟩
    intro hmem
    rcases mem_objectIDs_publishChunk hs.regular.sound hmem with hbefore | heq
    · exact hnew' hbefore
    · exact hne heq
  · intro call records attempt hphase
    cases hunread call _ hphase
  · intro call hphase
    cases hunread call _ hphase

theorem Inv.step {a : Act} (hs : Inv stride s) (hguard : publishesOutsideSaves s a = true)
    (hstep : step stride s a = some t) :
    Inv stride t := by
  revert hguard hstep
  fun_cases LiveCheckpoint.step stride s a <;> intro hguard hstep <;> cases hstep
  · rename_i hroom
    exact hs.allocate hroom.1 hroom.2
  · exact hs.uploadFailed _
  · exact hs.publish ‹_› hguard
  · exact hs.setSave _ nofun nofun
  · exact hs
  · refine hs.setSave _ ?_ nofun
    rintro records attempt ⟨⟩
    exact lookup_parse_expandEntries hs.regular.sound hs.regular.narrow ‹_› false
  · rename_i call _ records attempt hcall
    obtain ⟨hstore, hcurrent⟩ := hs.store (hs.serialised call records attempt hcall)
    exact hstore.setSave _ nofun fun _ => hcurrent
  · rename_i call _ landed records attempt hcall _ _ _
    have hrecords := hs.serialised call records attempt hcall
    refine (hs.land hrecords landed).setSave _ ?_ nofun
    rintro records' attempt' ⟨⟩
    exact hrecords
  · rename_i call _ landed records attempt hcall _ _ _
    exact (hs.land (hs.serialised call records attempt hcall) landed).dropSave call
  · exact hs.dropSave _
  · rename_i call hcall
    have hcleared : Inv stride { s with dirty := false } :=
      ⟨hs.regular, hs.uploads, hs.serialised, hs.stored, fun _ => hs.stored call hcall⟩
    exact hcleared.dropSave call

/-- In every run in which no chunk is published while a save holds an earlier map, the
stored checkpoint is the map whenever the flag is clear and no save is running. -/
theorem clean_map_is_saved {acts : List Act} {u : State} (hs : Opened stride s)
    (hrun : Run (step stride) (fun s a => publishesOutsideSaves s a = true) s acts u) :
    CleanIsSaved stride u := by
  intro hclean _
  exact (hrun.preserves (fun s a t hs => hs.step) hs.inv).clean hclean

/-- The engine of a new volume. -/
def created : State :=
  ⟨0, (VB.new false).blocksToObject, false, none, ∅, ∅⟩

theorem opened_created (stride : Nat) :
    Opened stride created := by
  refine ⟨.new false, ?_, rfl, rfl⟩
  intro block
  rfl

/-- The entries of a map that took over one block from each of the given chunks. -/
def entriesAfter (chunks : List (Nat × List Block)) :
    List (Sigma fun _ : Nat => BlockLookup) :=
  (chunks.foldl (fun b chunk => b.publishChunk 1 chunk.1 chunk.2)
    (VB.new false).blocksToObject).blockLookup.entries

/-- Two chunks are published one after the other, each of them saved. -/
def savedTwice : List Act :=
  [.allocate [⟨[7], 1, 0, 1⟩], .publish 0, .saveBegin 0,
    .serialise 0 (entriesAfter [(0, [⟨[7], 1, 0, 1⟩])]), .put 0 true true, .clearDirty 0,
    .allocate [⟨[8], 2, 1, 1⟩], .publish 1, .saveBegin 0,
    .serialise 0 (entriesAfter [(0, [⟨[7], 1, 0, 1⟩]), (1, [⟨[8], 2, 1, 1⟩])]),
    .put 0 false false, .put 0 true true, .clearDirty 0]

/-- The flag is clear and no save is running. -/
def isClean (s : State) : Bool :=
  !s.dirty && s.saves.entries.isEmpty

theorem saved_twice_is_saved :
    ∃ u, Run (step 1) (fun s a => publishesOutsideSaves s a = true) created savedTwice u ∧
      isClean u = true ∧ CleanIsSaved 1 u := by
  obtain ⟨u, hrun, hclean⟩ := Run.exists_of_exec (step 1)
    (fun s a => publishesOutsideSaves s a = true) created savedTwice isClean
    (by decide +kernel)
  exact ⟨u, hrun, hclean, clean_map_is_saved (opened_created 1) hrun⟩

/-- A second chunk is published while the first map is being stored. -/
def publishedDuringPut : List Act :=
  [.allocate [⟨[7], 1, 0, 1⟩], .publish 0, .saveBegin 0,
    .serialise 0 (entriesAfter [(0, [⟨[7], 1, 0, 1⟩])]),
    .allocate [⟨[8], 2, 1, 1⟩], .publish 1, .put 0 true true, .clearDirty 0]

/-- The map is clean and has block 1, the stored checkpoint has not. -/
def missesBlock (s : State) : Bool :=
  isClean s && (liveLookup 1 s 1).isNone &&
    (lookupBlockToObject 1 s.map.blockLookup 1).isSome

theorem not_cleanIsSaved_of_missesBlock (hs : missesBlock s = true) :
    ¬ CleanIsSaved 1 s := by
  intro hsaved
  simp only [missesBlock, isClean, Bool.and_eq_true, Bool.not_eq_true',
    List.isEmpty_iff, Option.isNone_iff_eq_none] at hs
  obtain ⟨⟨⟨hdirty, hsaves⟩, hnone⟩, hsome⟩ := hs
  have hempty : s.saves = ∅ := AList.ext hsaves
  rw [← hsaved hdirty hempty 1, hnone] at hsome
  cases hsome

theorem publish_during_put_is_hidden :
    ∃ u, Run (step 1) (fun _ _ => True) created publishedDuringPut u ∧ ¬ CleanIsSaved 1 u := by
  obtain ⟨u, hrun, hmisses⟩ := Run.exists_of_exec (step 1) (fun _ _ => True) created
    publishedDuringPut missesBlock (by decide +kernel)
  exact ⟨u, hrun, not_cleanIsSaved_of_missesBlock hmisses⟩

end Safety

end LiveCheckpoint

end Viperblock
