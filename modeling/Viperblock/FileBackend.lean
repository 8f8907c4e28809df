import Viperblock.CheckpointLoad

/-!
# Objects that are files

The file backend stores an object by creating its file, which empties one that is there,
and then writing headers and data into it.  A call that fails on the way, or a process that
dies, leaves the part that was written; the next reader takes it for the object.  The
writers of checkpoints go through the same calls, on the backend and for the local copy.

How far a call gets is a parameter.  A later read returns the previous or the new content
exactly if the call stopped before the first or behind the last byte, up to contents that
happen to agree.
-/

namespace Viperblock

namespace FileBackend

open CheckpointLoad

/-- How far the writing of a file gets before it fails or the process dies. -/
inductive Progress
  /-- The directory or the file is not created. -/
  | notCreated
  | headers (n : Nat)
  | data (n : Nat)
  /-- Everything is written, and the file is not closed. -/
  | written
  | closed
deriving DecidableEq, Repr

/-- The file after `os.Create`, the two writes and `Close`, and whether all succeeded. -/
def writeFile (headers data : Bytes) (old : Option Bytes) : Progress → Option Bytes × Bool
  | .notCreated => (old, false)
  | .headers n => (some (headers.take n), false)
  | .data n => (some (headers ++ data.take n), false)
  | .written => (some (headers ++ data), false)
  | .closed => (some (headers ++ data), true)

/-- `Write` of an object of the volume. -/
def write (headers data : Bytes) (old : Option Bytes) (progress : Progress) :
    Option Bytes × Bool :=
  writeFile headers data old progress

/-- `WriteTo`, which makes the directory too. -/
def writeTo (headers data : Bytes) (old : Option Bytes) (progress : Progress) :
    Option Bytes × Bool :=
  writeFile headers data old progress

/-- `Read` of a whole object. -/
def read : Option Bytes → Except BackendError Bytes
  | none => fileRead 0 0 ⟨some .enoent, .error .enoent, .error .enoent⟩
  | some bytes => fileRead 0 0 ⟨none, .ok bytes.length, .ok bytes⟩

/-- `SaveLiveCheckpointCtx` on a volume whose map has changed, with the attempts that are
left.  The list ends with an attempt after which the context is cancelled or the process
dies. -/
def saveLiveCheckpoint (checkpoint : Bytes) :
    Nat → Option Bytes → List Progress → Option Bytes × Bool
  | 0, live, _ => (live, false)
  | _ + 1, live, [] => (live, false)
  | attempts + 1, live, progress :: rest =>
    let result := write [] checkpoint live progress
    if result.2 then result
    else saveLiveCheckpoint checkpoint attempts result.1 rest

/-- `SaveBlockStateCtx`: the local file, then the object of the same number.  The local
file is closed at the end, whatever comes of it. -/
def saveBlockState (checkpoint : Bytes) (disk numbered : Option Bytes)
    (toDisk toBackend : Progress) : Option Bytes × Option Bytes :=
  let file := (writeFile [] checkpoint disk toDisk).1
  match toDisk with
  | .written | .closed => (file, (write [] checkpoint numbered toBackend).1)
  | _ => (file, numbered)

/-- The answer for a content that is returned completely. -/
def complete : Option Bytes → Except BackendError Bytes
  | none => .error .notExist
  | some bytes => .ok bytes

/-- A read returns all of the previous content or all of the new one. -/
def AllOrNothing (old : Option Bytes) (new : Bytes) (content : Option Bytes) : Prop :=
  read content = complete old ∨ read content = complete (some new)

/-- The longest content that a read returns completely: a length has 32 bits. -/
def readLimit : Nat := 4294967295

/-- What a read returns of a file. -/
def served (content : Option Bytes) : Option Bytes :=
  content.map (List.take readLimit)

/-- The call stops before it empties the file, or behind its last byte, or what is written
by then, as far as it is read, is the previous content. -/
def harmless (headers data : Bytes) (old : Option Bytes) : Progress → Bool
  | .notCreated =>
    old.all fun bytes => bytes.length ≤ readLimit || bytes.take readLimit == headers ++ data
  | .headers n =>
    (data == [] && headers.length ≤ min readLimit n) ||
      old == some (headers.take (min readLimit n))
  | .data n =>
    (data.length ≤ n && headers.length + data.length ≤ readLimit) ||
      old == some ((headers ++ data.take n).take readLimit)
  | .written | .closed =>
    headers.length + data.length ≤ readLimit || old == some ((headers ++ data).take readLimit)

/-- The attempt that decides what a save leaves: of those up to the first that succeeds, the
last one that creates the file. -/
def deciding : Nat → Progress → List Progress → Progress
  | 0, last, _ => last
  | _ + 1, last, [] => last
  | attempts + 1, last, progress :: rest =>
    let last := if progress = .notCreated then last else progress
    if progress = .closed then last else deciding attempts last rest

section Reads

theorem read_eq (content : Option Bytes) :
    read content = complete (served content) := by
  cases content with
  | none => rfl
  | some bytes =>
    have hlen : safeIntToUint32 bytes.length = min bytes.length 4294967295 := rfl
    simp only [read, fileRead, FileCalls.readAt, served, Option.map_some, complete, if_true]
    by_cases hempty : bytes = []
    · rw [hempty]
      rfl
    · have hpos := List.length_pos_of_ne_nil hempty
      rw [if_neg (by omega), if_pos (by omega), List.drop_zero, hlen, Nat.min_comm,
        ← List.take_take, List.take_length]
      rfl

theorem complete_injective :
    Function.Injective complete := by
  intro a b h
  cases a with
  | none =>
    cases b with
    | none => rfl
    | some bytes => cases h
  | some bytes =>
    cases b with
    | none => cases h
    | some bytes' => rw [Except.ok.inj h]

theorem allOrNothing_iff_served {old content : Option Bytes} {new : Bytes} :
    AllOrNothing old new content ↔ served content = old ∨ served content = some new := by
  rw [AllOrNothing, read_eq, complete_injective.eq_iff, complete_injective.eq_iff]

theorem take_eq_append_iff (headers data : Bytes) (n : Nat) :
    headers.take n = headers ++ data ↔ data = [] ∧ headers.length ≤ n := by
  constructor
  · intro htake
    have hlength := congrArg List.length htake
    rw [List.length_take, List.length_append] at hlength
    exact ⟨List.length_eq_zero_iff.mp (by omega), by omega⟩
  · rintro ⟨rfl, hle⟩
    rw [List.append_nil, List.take_of_length_le hle]

theorem harmless_iff (headers data : Bytes) (old : Option Bytes) (progress : Progress) :
    AllOrNothing old (headers ++ data) (writeFile headers data old progress).1 ↔
      harmless headers data old progress = true := by
  rw [allOrNothing_iff_served]
  cases progress with
  | notCreated =>
    cases old with
    | none => simp [writeFile, served, harmless]
    | some bytes =>
      have hself := take_eq_append_iff bytes [] readLimit
      rw [List.append_nil] at hself
      simp [writeFile, served, harmless, hself]
  | headers n =>
    simp only [writeFile, served, harmless, Option.map_some, List.take_take, Option.some.injEq,
      take_eq_append_iff, Bool.or_eq_true, Bool.and_eq_true, beq_iff_eq, decide_eq_true_eq]
    exact or_comm.trans (or_congr_right eq_comm)
  | data n =>
    have hall : (headers ++ data.take n).take readLimit = headers ++ data ↔
        data.length ≤ n ∧ headers.length + data.length ≤ readLimit := by
      constructor
      · intro htake
        have hlength := congrArg List.length htake
        rw [List.length_take, List.length_append, List.length_append, List.length_take] at hlength
        omega
      · rintro ⟨hn, hle⟩
        rw [List.take_of_length_le hn, List.take_of_length_le (by simpa using hle)]
    simp only [writeFile, served, harmless, Option.map_some, Option.some.injEq, hall,
      Bool.or_eq_true, Bool.and_eq_true, beq_iff_eq, decide_eq_true_eq]
    exact or_comm.trans (or_congr_right eq_comm)
  | written | closed =>
    have hself := take_eq_append_iff (headers ++ data) [] readLimit
    rw [List.append_nil, List.length_append] at hself
    simp only [writeFile, served, harmless, Option.map_some, Option.some.injEq, hself, true_and,
      Bool.or_eq_true, beq_iff_eq, decide_eq_true_eq]
    exact or_comm.trans (or_congr_right eq_comm)

end Reads

/-- What the attempts leave is what the deciding one makes of the first content. -/
theorem saveLiveCheckpoint_eq (checkpoint : Bytes) (old : Option Bytes) (attempts : Nat)
    (last : Progress) (progress : List Progress) :
    (saveLiveCheckpoint checkpoint attempts (writeFile [] checkpoint old last).1 progress).1 =
      (writeFile [] checkpoint old (deciding attempts last progress)).1 := by
  fun_induction deciding attempts last progress with
  | case1 | case2 =>
    rfl
  | case3 => rfl
  | case4 last attempts progress rest next hclosed ih =>
    rw [saveLiveCheckpoint, ← ih]
    cases progress <;> first | rfl | exact absurd rfl hclosed

/-- A read after an interrupted `Write` or `WriteTo` is all or nothing exactly if the call
stopped at a harmless point.  The same holds of the live checkpoint for the attempt that
decides, and of both copies of a numbered one; the object is written after the local file. -/
theorem write_allOrNothing_iff (headers data : Bytes) (old : Option Bytes) (progress : Progress) :
    (AllOrNothing old (headers ++ data) (write headers data old progress).1 ↔
        harmless headers data old progress = true) ∧
      (AllOrNothing old (headers ++ data) (writeTo headers data old progress).1 ↔
        harmless headers data old progress = true) ∧
      (∀ attempts : List Progress,
        AllOrNothing old data (saveLiveCheckpoint data 3 old attempts).1 ↔
          harmless [] data old (deciding 3 .notCreated attempts) = true) ∧
      ∀ (disk : Option Bytes) (toDisk : Progress),
        let saved := saveBlockState data disk old toDisk progress
        (AllOrNothing disk data saved.1 ↔ harmless [] data disk toDisk = true) ∧
          (AllOrNothing old data saved.2 ↔ harmless [] data old
            (if toDisk = .written ∨ toDisk = .closed then progress else .notCreated) = true) := by
  refine ⟨harmless_iff .., harmless_iff .., fun attempts => ?_, fun disk toDisk => ?_⟩
  · rw [← harmless_iff, ← saveLiveCheckpoint_eq]
    rfl
  · refine ⟨?_, ?_⟩ <;> rw [← harmless_iff] <;> cases toDisk <;> rfl

section Truncated

/-- The record of a block in a chunk of its own. -/
def record (block : Nat) : BlockLookup :=
  ⟨[], block, block + 1, block + 1, 10, 1⟩

def oldCheckpoint : Bytes :=
  checkpointBytes 1 0 [record 0]

def newCheckpoint : Bytes :=
  checkpointBytes 1 0 [record 0, record 1]

/-- The process dies after 20 bytes of the second live checkpoint of a volume: the object
is neither checkpoint, and the volume does not open with it. -/
theorem live_checkpoint_truncated :
    ¬ AllOrNothing (some oldCheckpoint) newCheckpoint
        (write [] newCheckpoint (some oldCheckpoint) (.data 20)).1 ∧
      saveLiveCheckpoint newCheckpoint 3 (some oldCheckpoint) [.data 20] =
        (some (newCheckpoint.take 20), false) ∧
      read (some (newCheckpoint.take 20)) = .ok (newCheckpoint.take 20) ∧
      walkBlockCheckpoint (newCheckpoint.take 20) 1 blockToObjectWALMagic =
        .error (.trailingBytes 6) := by
  refine ⟨?_, rfl, ?_, ?_⟩
  · intro hread
    have hharmless := (harmless_iff [] newCheckpoint _ _).mp hread
    exact absurd hharmless (by decide +kernel)
  · rw [read_eq, served, Option.map_some, List.take_of_length_le (by decide +kernel)]
    rfl
  · decide +kernel

end Truncated

end FileBackend

end Viperblock
