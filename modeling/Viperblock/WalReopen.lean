import Mathlib.Data.List.Perm.Subperm
import Viperblock.WalFile

/-!
# Opening a log file that is there already

`openWALLocked` and `OpenShardedWAL` append a header to whatever the file holds.  The
reader expects one header, at the front.  If the file held something, then the records
that are appended now do not begin where the reader looks for records, or a record before
them has the new header for its last bytes.

For every content the module decides whether the records appended after the opening, and
those that were there, are found after a crash: exactly if there was no content.
-/

namespace Viperblock

open ByteCodec Config

section Checksum

theorem crcBit_odd_iff (crc : UInt32) :
    crc &&& 1 = 1 ↔ crc.toNat % 2 = 1 := by
  rw [← UInt32.toNat_inj, UInt32.toNat_and, UInt32.toNat_one, Nat.and_one_is_mod]

theorem toNat_shiftRight_one (crc : UInt32) : (crc >>> 1).toNat = crc.toNat / 2 := by
  simp [Nat.shiftRight_eq_div_pow]

theorem shiftRight_ne_polynomial (a b : UInt32) :
    (a >>> 1) ^^^ (0xEDB88320 : UInt32) ≠ b >>> 1 := by
  intro h
  have hcancel : (0xEDB88320 : UInt32) = (a >>> 1) ^^^ (b >>> 1) := by
    rw [← h, ← UInt32.xor_assoc, UInt32.xor_self, UInt32.zero_xor]
  have hlt : ((a >>> 1) ^^^ (b >>> 1)).toNat < 2 ^ 31 := by
    have ha := a.toNat_lt
    have hb := b.toNat_lt
    rw [UInt32.toNat_xor]
    refine Nat.xor_lt_two_pow ?_ ?_ <;> rw [toNat_shiftRight_one] <;> omega
  rw [← hcancel] at hlt
  exact absurd hlt (by decide)

theorem crcBit_injective :
    Function.Injective crcBit := by
  intro a b h
  have hhalf : (a >>> 1) = (b >>> 1) ∧ (a &&& 1 = 1 ↔ b &&& 1 = 1) := by
    unfold crcBit at h
    split at h <;> split at h
    · rename_i ha hb
      exact ⟨(UInt32.xor_left_inj _).mp h, by simp only [ha, hb]⟩
    · exact absurd h (shiftRight_ne_polynomial a b)
    · exact absurd h.symm (shiftRight_ne_polynomial b a)
    · rename_i ha hb
      exact ⟨h, by simp only [ha, hb]⟩
  obtain ⟨hshift, hodd⟩ := hhalf
  have hdiv := congrArg UInt32.toNat hshift
  rw [toNat_shiftRight_one, toNat_shiftRight_one] at hdiv
  rw [crcBit_odd_iff, crcBit_odd_iff] at hodd
  refine UInt32.toNat_inj.mp ?_
  omega

theorem crcByte_injective (crc : UInt32) :
    Function.Injective (crcByte crc) := by
  have hiterate : ∀ n : Nat, Function.Injective
      fun c => (List.range n).foldl (fun c _ => crcBit c) c := by
    intro n
    induction n with
    | zero => exact fun a b h => h
    | succ n ih =>
      intro a b h
      simp only [List.range_succ, List.foldl_append, List.foldl_cons, List.foldl_nil] at h
      exact ih (crcBit_injective h)
  intro a b h
  have hxor := hiterate 8 h
  exact UInt8.toUInt32_inj.mp ((UInt32.xor_right_inj _).mp hxor)

theorem recordChecksum_concat_inj {head data : Bytes} {a b : UInt8}
    (h : recordChecksum head (data ++ [a]) = recordChecksum head (data ++ [b])) :
    a = b := by
  simp only [recordChecksum, crc32Update, List.foldl_append, List.foldl_cons, List.foldl_nil] at h
  exact crcByte_injective _ (UInt32.not_inj.mp h)

/-- At most one last byte fits the rest of a record. -/
theorem checksumOk_concat_inj {front : Bytes} {a b : UInt8} (hlong : 28 ≤ front.length)
    (ha : checksumOk (front ++ [a]) = true) (hb : checksumOk (front ++ [b]) = true) :
    a = b := by
  have hparts : ∀ c : UInt8, checksumOk (front ++ [c]) = true →
      decode ((front.drop 24).take 4) =
        (recordChecksum (front.take 24) (front.drop 28 ++ [c])).toNat := by
    intro c hc
    rw [checksumOk, beq_iff_eq, List.drop_append_of_le_length (by omega),
      List.take_append_of_le_length (by rw [List.length_drop]; omega),
      List.take_append_of_le_length (by omega),
      List.drop_append_of_le_length (by omega)] at hc
    exact hc
  exact recordChecksum_concat_inj
    (UInt32.toNat_inj.mp ((hparts a ha).symm.trans (hparts b hb)))

end Checksum

namespace Config

variable (cfg : Config)

/-- The checksum is right, or the record opens. -/
def recordReads (record : Bytes) : Prop :=
  match cfg.sealing with
  | none => checksumOk record = true
  | some _ => ∃ b, cfg.sealedBlock record = .ok b

variable {cfg}

variable {blocks : List Block}

theorem sealedBlocks_append {fs gs : List Bytes}
    (hread : cfg.sealedBlocks (fs ++ gs) = .ok blocks) :
    ∃ front rest, cfg.sealedBlocks fs = .ok front ∧ cfg.sealedBlocks gs = .ok rest ∧
      blocks = front ++ rest := by
  induction fs generalizing blocks with
  | nil => exact ⟨[], blocks, rfl, hread, rfl⟩
  | cons f fs ih =>
    simp only [List.cons_append, sealedBlocks] at hread ⊢
    split at hread
    · cases hread
    rename_i b hb
    split at hread
    · cases hread
    rename_i others hothers
    cases hread
    obtain ⟨front, rest, hfront, hrest, rfl⟩ := ih hothers
    refine ⟨b :: front, rest, ?_, hrest, rfl⟩
    rw [hfront]

theorem readRecords_append {fs gs : List Bytes} (hread : cfg.readRecords (fs ++ gs) = .ok blocks) :
    ∃ front, cfg.readRecords fs = .ok front ∧
      (blocks = front ∨ ∃ rest, cfg.readRecords gs = .ok rest ∧ blocks = front ++ rest) := by
  unfold readRecords at hread ⊢
  cases hsealing : cfg.sealing with
  | none =>
    simp only [hsealing] at hread ⊢
    cases hread
    refine ⟨_, rfl, ?_⟩
    rw [List.takeWhile_append]
    split
    · rename_i hall
      have htake : fs.takeWhile checksumOk = fs :=
        (List.takeWhile_prefix _).eq_of_length hall
      refine .inr ⟨_, rfl, ?_⟩
      rw [List.map_append, htake]
    · exact .inl rfl
  | some s =>
    simp only [hsealing] at hread ⊢
    obtain ⟨front, rest, hfront, hrest, rfl⟩ := sealedBlocks_append hread
    exact ⟨front, hfront, .inr ⟨rest, hrest, rfl⟩⟩

theorem seqNum_of_readRecords {records : List Bytes} (hread : cfg.readRecords records = .ok blocks)
    {b : Block} (hb : b ∈ blocks) :
    ∃ record ∈ records, recordSeqNum record = b.seqNum := by
  obtain ⟨record, hrecord, ⟨-, rfl⟩ | ⟨-, hsealed⟩⟩ := exists_record_of_readRecords hread hb
  · exact ⟨record, hrecord, rfl⟩
  · revert hsealed
    fun_cases sealedBlock <;> intro hsealed <;> cases hsealed
    exact ⟨record, hrecord, rfl⟩

theorem eq_nil_of_readRecords {record : Bytes} {records : List Bytes}
    (hread : cfg.readRecords (record :: records) = .ok blocks)
    (hrecord : ¬ cfg.recordReads record) :
    blocks = [] := by
  unfold readRecords at hread
  unfold recordReads at hrecord
  cases hsealing : cfg.sealing with
  | none =>
    simp only [hsealing, Bool.not_eq_true] at hread hrecord
    rw [List.takeWhile_cons, hrecord] at hread
    exact (Except.ok.inj hread).symm
  | some s =>
    simp only [hsealing, sealedBlocks] at hread hrecord
    split at hread
    · cases hread
    · rename_i b hb
      exact absurd ⟨b, hb⟩ hrecord

theorem readWALFileForRecovery_of_append {file more : Bytes}
    (hread : cfg.readWALFileForRecovery (file ++ more) = .ok blocks)
    (hlong : walHeaderSize ≤ file.length) :
    cfg.readWALFileForRecovery file =
      cfg.readRecords (frames cfg.recordSize file.length (file.drop walHeaderSize)) := by
  rw [walHeaderSize] at hlong
  have hmagic : cfg.checkMagic (file ++ more) = cfg.checkMagic file := by
    unfold checkMagic
    rw [List.take_append_of_le_length (by omega)]
  have hversion : ((file ++ more).drop 4).take 2 = (file.drop 4).take 2 := by
    rw [List.drop_append_of_le_length (by omega),
      List.take_append_of_le_length (by rw [List.length_drop]; omega)]
  have hsize : ((file ++ more).drop 6).take 4 = (file.drop 6).take 4 := by
    rw [List.drop_append_of_le_length (by omega),
      List.take_append_of_le_length (by rw [List.length_drop]; omega)]
  unfold readWALFileForRecovery at hread ⊢
  rw [hmagic, hversion, hsize] at hread
  rw [if_neg (by rw [walHeaderSize]; omega)]
  split at hread
  · cases hread
  split at hread
  · cases hread
  split at hread
  · cases hread
  rename_i hsame
  split at hread
  · cases hread
  rename_i hsame'
  simp only [if_neg hsame, if_neg hsame']
  rfl

end Config

section Opening

variable {cfg : Config}

/-- The records that recovery would find in the file before it is opened. -/
def wholeRecords (cfg : Config) (old : Option Bytes) : List Block :=
  match cfg.readWALFileForRecovery (old.getD []) with
  | .error _ => []
  | .ok blocks => blocks

/-- Whatever is appended after the file was opened, and wherever a crash tears the last
append, recovery returns the records that were there and those whose calls returned nil. -/
def KeepsAfterOpen (cfg : Config) (write : Bytes → AppendCall → Bytes × Bool)
    (assumed : AppendCall → Prop) (old : Option Bytes) : Prop :=
  ∀ (timestamp : Nat) (calls : List AppendCall) (torn : Bytes),
    (∀ call ∈ calls, call.block.Fits cfg ∧ assumed call) →
    torn.length < cfg.recordSize →
    let log := calls.foldl (AppendedLog.append write)
      ⟨(cfg.openWALLocked old timestamp .ok).1, []⟩
    ∃ blocks, cfg.readWALFileForRecovery (log.file ++ torn) = .ok blocks ∧
      (wholeRecords cfg old ++ log.blocks).Subperm blocks

/-- No record that ends with a header opens.  Headers are not sealed, so a cipher that
opens only what was sealed has the property. -/
def RefusesHeaders (cfg : Config) : Prop :=
  cfg.sealing.isSome → ∀ (front : Bytes) (timestamp : Nat),
    (front ++ cfg.walHeader timestamp).length = cfg.recordSize →
    ¬ ∃ b, cfg.sealedBlock (front ++ cfg.walHeader timestamp) = .ok b

section

variable {write : Bytes → AppendCall → Bytes × Bool} {assumed : AppendCall → Prop}
  {old : Option Bytes}

theorem keepsAfterOpen_of_empty (hrolls : ∀ call, assumed call → Rolls cfg write call)
    (hempty : old.getD [] = []) :
    KeepsAfterOpen cfg write assumed old := by
  intro timestamp calls torn hcalls htorn log
  obtain ⟨blocks, hrolled⟩ := exists_rolled (rolled_openWALLocked hempty timestamp)
    fun call hcall => ⟨(hcalls call hcall).1, hrolls call (hcalls call hcall).2⟩
  have hwhole : wholeRecords cfg old = [] := by
    rw [wholeRecords, hempty]
    rfl
  refine ⟨blocks, ?_, ?_⟩
  · rw [hrolled.file]
    exact readWALFileForRecovery_segment timestamp hrolled.fits htorn
  · rw [hwhole, List.nil_append, AppendedLog.blocks, hrolled.acked, map_fst_recordEnds]

theorem head_of_recordSeqNum {frame : Bytes} {x : UInt8} (hlong : 8 ≤ frame.length)
    (hseqNum : recordSeqNum frame = x.toNat * 256 ^ 7) :
    frame.head? = some x := by
  cases frame with
  | nil => simp at hlong
  | cons y rest =>
    have hlength : (rest.take 7).length = 7 := by
      rw [List.length_cons] at hlong
      rw [List.length_take]
      omega
    have hlt := decode_lt (rest.take 7)
    rw [recordSeqNum, List.take_succ_cons, decode_cons, hlength] at hseqNum
    rw [hlength] at hlt
    have hsame : y.toNat = x.toNat := by
      omega
    rw [List.head?_cons, UInt8.toNat_inj.mp hsame]

theorem exists_byte_ne (a b : Option UInt8) :
    ∃ x : UInt8, a ≠ some x ∧ b ≠ some x := by
  by_cases h0 : a ≠ some 0 ∧ b ≠ some 0
  · exact ⟨0, h0⟩
  by_cases h1 : a ≠ some 1 ∧ b ≠ some 1
  · exact ⟨1, h1⟩
  refine ⟨2, ?_⟩
  constructor <;> rintro rfl <;> simp_all

/-- A block is not found if it begins between two frames and the frames around it begin
with another byte. -/
theorem exists_block_between_frames (cfg : Config) {u : Bytes}
    (hmod : u.length % cfg.recordSize ≠ 0) (hshort : u.length < 2 * cfg.recordSize) :
    ∃ b : Block, b.Fits cfg ∧ ∀ fuel, ∀ frame ∈ frames cfg.recordSize fuel (u ++ cfg.walRecord b),
        recordSeqNum frame ≠ b.seqNum := by
  obtain ⟨x, hfirst, hsecond⟩ := exists_byte_ne u.head? (u.drop cfg.recordSize).head?
  have hx := x.toNat_lt
  have hfits : Block.Fits cfg
      ⟨List.replicate cfg.blockSize 0, x.toNat * 256 ^ 7, 0, 0⟩ :=
    ⟨List.length_replicate, by simp only; omega, by simp, by simp⟩
  refine ⟨_, hfits, ?_⟩
  intro fuel frame hframe hseqNum
  have hlong : 8 ≤ cfg.recordSize := by
    unfold recordSize
    split <;> omega
  have hhead := head_of_recordSeqNum (by rw [length_of_mem_frames hframe]; exact hlong) hseqNum
  obtain ⟨i, hi, rfl⟩ := exists_eq_take_drop_of_mem_frames hframe
  rw [List.length_append, length_walRecord hfits, Nat.add_one_mul] at hi
  have hinside : i * cfg.recordSize < u.length := by
    refine Nat.lt_of_le_of_ne (by omega) ?_
    intro heq
    rw [← heq, Nat.mul_mod_left] at hmod
    exact hmod rfl
  rw [List.drop_append_of_le_length (by omega), List.head?_take, if_neg (by omega),
    List.head?_append_of_ne_nil _ (by
      intro hnil
      have := congrArg List.length hnil
      rw [List.length_drop, List.length_nil] at this
      omega)] at hhead
  have hsmall : i < 2 := by
    by_contra hlarge
    have : 2 * cfg.recordSize ≤ i * cfg.recordSize := Nat.mul_le_mul_right _ (by omega)
    omega
  rcases (by omega : i = 0 ∨ i = 1) with rfl | rfl
  · exact hfirst (by simpa using hhead)
  · exact hsecond (by simpa using hhead)

/-- A record that ends with a header does not check, for one header or another. -/
theorem exists_header_unread {front : Bytes} (hrefuses : RefusesHeaders cfg)
    (hfront : front.length + walHeaderSize = cfg.recordSize) :
    ∃ timestamp, ¬ cfg.recordReads (front ++ cfg.walHeader timestamp) := by
  cases hsealing : cfg.sealing with
  | none =>
    have hlast : ∀ timestamp : Nat, timestamp < 2 → front ++ cfg.walHeader timestamp =
          front ++ (cfg.walMagic ++ encode 2 cfg.version ++ encode 4 cfg.blockSize ++
            encode 7 0) ++ [UInt8.ofNat timestamp] := by
      intro timestamp hsmall
      have hdiv : timestamp / 256 = 0 := by
        omega
      simp only [walHeader, encode, hdiv, List.append_assoc]
    by_contra hreads
    simp only [not_exists, not_not, recordReads, hsealing] at hreads
    have hzero := hreads 0
    have hone := hreads 1
    rw [hlast _ (by omega)] at hzero hone
    have hsame := checksumOk_concat_inj (by
      have hmagic := cfg.walMagic_length
      have hpos := cfg.blockSize_pos
      rw [recordSize, hsealing, walHeaderSize] at hfront
      simp only at hfront
      simp only [List.length_append, length_encode]
      omega) hzero hone
    exact absurd hsame (by decide)
  | some s =>
    refine ⟨0, ?_⟩
    simp only [recordReads, hsealing]
    refine hrefuses (by rw [hsealing]; rfl) front 0 ?_
    rw [List.length_append, length_walHeader]
    exact hfront

/-- The content of the file and a header behind it, cut where the last whole record of the
content ends. -/
structure CutBehind (cfg : Config) (old : Option Bytes) (fs : List Bytes) (u : Nat → Bytes) :
    Prop where
  size : ∀ f ∈ fs, f.length = cfg.recordSize
  body : ∀ timestamp, (old.getD [] ++ cfg.walHeader timestamp).drop walHeaderSize =
    fs.flatten ++ u timestamp
  whole : ∀ more blocks front, cfg.readWALFileForRecovery (old.getD [] ++ more) = .ok blocks →
    cfg.readRecords fs = .ok front → wholeRecords cfg old = front

/-- Any block can be appended. -/
def Appends (cfg : Config) (write : Bytes → AppendCall → Bytes × Bool)
    (assumed : AppendCall → Prop) : Prop :=
  ∀ b, ∃ call : AppendCall, call.block = b ∧ assumed call ∧
    ∀ file, write file call = (file ++ cfg.walRecord b, true)

theorem KeepsAfterOpen.reads_record {b : Block} (hkeeps : KeepsAfterOpen cfg write assumed old)
    (happends : Appends cfg write assumed) (hb : b.Fits cfg) (timestamp : Nat) :
    ∃ blocks, cfg.readWALFileForRecovery
        (old.getD [] ++ cfg.walHeader timestamp ++ cfg.walRecord b) = .ok blocks ∧
      (wholeRecords cfg old ++ [b]).Subperm blocks := by
  obtain ⟨call, hblock, hassumed, hwrite⟩ := happends b
  obtain ⟨blocks, hread, hsub⟩ := hkeeps timestamp [call] [] (by
    intro c hc
    rw [List.mem_singleton.mp hc, hblock]
    exact ⟨hb, hassumed⟩) (recordSize_pos cfg)
  refine ⟨blocks, ?_, ?_⟩
  · simpa [AppendedLog.append, hwrite, openWALLocked, WriteResult.written] using hread
  · simpa [AppendedLog.append, AppendedLog.blocks, hwrite, hblock] using hsub

section

variable {fs : List Bytes} {u : Nat → Bytes} (hcut : CutBehind cfg old fs u)
  (hkeeps : KeepsAfterOpen cfg write assumed old) (happends : Appends cfg write assumed)

include hcut hkeeps happends

/-- The frames up to the content's last whole one are the old records, so the new record is
in a later one. -/
theorem CutBehind.mem_later {b : Block} (hb : b.Fits cfg) (timestamp : Nat) :
    ∃ fuel rest, b ∈ rest ∧
      cfg.readRecords (frames cfg.recordSize (fuel + 1) (u timestamp ++ cfg.walRecord b)) =
        .ok rest := by
  obtain ⟨blocks, hread, hsub⟩ := hkeeps.reads_record happends hb timestamp
  have hheader := length_walHeader cfg timestamp
  have hbody := hcut.body timestamp
  have hfuel : ∃ fuel, (old.getD [] ++ cfg.walHeader timestamp ++
      cfg.walRecord b).length = fs.length + (fuel + 1) := by
    have hlength := congrArg List.length hbody
    have hmul := Nat.le_mul_of_pos_right fs.length (recordSize_pos cfg)
    rw [List.length_drop, List.length_append, List.length_append,
      length_flatten_frames hcut.size, hheader] at hlength
    refine Nat.exists_eq_add_of_lt ?_
    rw [List.length_append, List.length_append, hheader, walHeaderSize]
    omega
  obtain ⟨fuel, hfuel⟩ := hfuel
  have hrecords := readRecords_of_readWALFileForRecovery hread
  rw [hfuel, List.drop_append_of_le_length (by rw [List.length_append]; omega), hbody,
    List.append_assoc, frames_flatten_append hcut.size] at hrecords
  obtain ⟨front, hfront, hblocks⟩ := readRecords_append hrecords
  rw [List.append_assoc] at hread
  rw [hcut.whole _ _ front hread hfront] at hsub
  rcases hblocks with rfl | ⟨rest, hrest, rfl⟩
  · have hlength := hsub.length_le
    rw [List.length_append, List.length_singleton] at hlength
    omega
  · rw [List.subperm_append_left, List.singleton_subperm_iff] at hsub
    exact ⟨fuel, rest, hsub, hrest⟩

/-- The new record is not found if it begins inside of a frame. -/
theorem CutBehind.not_between (timestamp : Nat)
    (hshort : (u timestamp).length < 2 * cfg.recordSize) :
    (u timestamp).length % cfg.recordSize = 0 := by
  by_contra hmod
  obtain ⟨b, hb, hframes⟩ := exists_block_between_frames cfg hmod hshort
  obtain ⟨fuel, rest, hmem, hrest⟩ := hcut.mem_later hkeeps happends hb timestamp
  obtain ⟨frame, hframe, hseqNum⟩ := seqNum_of_readRecords hrest hmem
  exact hframes _ frame hframe hseqNum

/-- Nor is it found behind a header that ends a frame. -/
theorem CutBehind.not_aligned (hrefuses : RefusesHeaders cfg) {torn : Bytes}
    (hu : u = fun timestamp => torn ++ cfg.walHeader timestamp) :
    torn.length + walHeaderSize ≠ cfg.recordSize := by
  intro haligned
  obtain ⟨timestamp, hunread⟩ := exists_header_unread hrefuses haligned
  obtain ⟨b, hb⟩ := exists_fits cfg
  obtain ⟨fuel, rest, hmem, hrest⟩ := hcut.mem_later hkeeps happends hb timestamp
  have hlength : (torn ++ cfg.walHeader timestamp).length = cfg.recordSize := by
    rw [List.length_append, length_walHeader]
    exact haligned
  subst hu
  dsimp only at hrest
  rw [frames, if_neg (by rw [List.length_append]; omega), List.take_left' hlength] at hrest
  rw [eq_nil_of_readRecords hrest hunread] at hmem
  cases hmem

end

theorem exists_cutBehind_of_long (cfg : Config)
    (hlong : walHeaderSize ≤ (old.getD []).length) :
    ∃ fs torn, torn.length < cfg.recordSize ∧
      CutBehind cfg old fs fun timestamp => torn ++ cfg.walHeader timestamp := by
  have hfuel : ((old.getD []).drop walHeaderSize).length < (old.getD []).length := by
    rw [List.length_drop]
    rw [walHeaderSize] at hlong ⊢
    omega
  obtain ⟨torn, hold, htorn⟩ := exists_flatten_frames (recordSize_pos cfg) hfuel
  refine ⟨frames cfg.recordSize (old.getD []).length ((old.getD []).drop walHeaderSize), torn,
    htorn, fun f hf => length_of_mem_frames hf, fun timestamp => ?_, ?_⟩
  · rw [List.drop_append_of_le_length hlong, ← List.append_assoc, ← hold]
  · intro more blocks front hread hfront
    rw [wholeRecords, readWALFileForRecovery_of_append hread hlong, hfront]

theorem cutBehind_of_short (hshort : (old.getD []).length < walHeaderSize) :
    CutBehind cfg old [] fun timestamp =>
      (old.getD [] ++ cfg.walHeader timestamp).drop walHeaderSize := by
  refine ⟨by simp, fun _ => rfl, ?_⟩
  intro more blocks front _ hfront
  have hempty : front = [] := by
    unfold readRecords at hfront
    split at hfront <;> exact (Except.ok.inj hfront).symm
  rw [hempty, wholeRecords, readWALFileForRecovery, if_pos hshort]

theorem eq_nil_of_keepsAfterOpen (hrefuses : RefusesHeaders cfg)
    (happends : Appends cfg write assumed) (hkeeps : KeepsAfterOpen cfg write assumed old) :
    old.getD [] = [] := by
  have hlarge : walHeaderSize < cfg.recordSize := by
    unfold recordSize walHeaderSize
    split <;> omega
  by_contra hne
  have hsome := List.length_pos_of_ne_nil hne
  have hheader := length_walHeader cfg 0
  by_cases hlong : walHeaderSize ≤ (old.getD []).length
  · obtain ⟨fs, torn, htorn, hcut⟩ := exists_cutBehind_of_long cfg hlong
    have haligned := hcut.not_aligned hkeeps happends hrefuses rfl
    have hmod := hcut.not_between hkeeps happends 0 (by rw [List.length_append]; omega)
    rw [List.length_append, hheader] at hmod
    obtain ⟨k, hk⟩ := Nat.dvd_of_mod_eq_zero hmod
    have hupper : cfg.recordSize * k < cfg.recordSize * 2 := by
      omega
    have hk2 := Nat.lt_of_mul_lt_mul_left hupper
    obtain rfl | rfl : k = 0 ∨ k = 1 := by
      omega
    · rw [walHeaderSize] at hk
      omega
    · exact haligned (hk.trans (Nat.mul_one _))
  · have hlength : ((old.getD [] ++ cfg.walHeader 0).drop walHeaderSize).length =
        (old.getD []).length := by
      rw [List.length_drop, List.length_append, hheader]
      omega
    have hmod := (cutBehind_of_short (by omega)).not_between hkeeps happends 0 (by omega)
    rw [hlength, Nat.mod_eq_of_lt (by omega)] at hmod
    omega

end

/-- A file that is opened keeps what is in it and what is appended, by `WriteWAL` with
failures that are rolled back or, on a plaintext volume, by `WriteShardedWAL`, exactly if
there was nothing in it. -/
theorem keeps_after_open_iff (cfg : Config) (old : Option Bytes) (hrefuses : RefusesHeaders cfg) :
    (KeepsAfterOpen cfg cfg.writeWAL (fun call => call.truncateFails = false) old ↔
      old.getD [] = []) ∧
    (cfg.sealing = none →
      (KeepsAfterOpen cfg writeShardedWAL (fun call => call.write = .ok) old ↔
        old.getD [] = [])) := by
  constructor
  · constructor
    · exact eq_nil_of_keepsAfterOpen hrefuses fun b =>
        ⟨⟨b, .ok, false, false⟩, rfl, rfl, fun _ => rfl⟩
    · exact keepsAfterOpen_of_empty fun call => rolls_writeWAL
  · intro hplain
    constructor
    · refine eq_nil_of_keepsAfterOpen hrefuses fun b =>
        ⟨⟨b, .ok, false, false⟩, rfl, rfl, fun file => ?_⟩
      simp only [writeShardedWAL, WriteResult.written, WriteResult.isOk,
        shardRecord_eq hplain]
    · refine keepsAfterOpen_of_empty fun call hok file => .inl ?_
      simp only [writeShardedWAL, hok, WriteResult.written, WriteResult.isOk,
        shardRecord_eq hplain]

theorem refusesHeaders_tiny :
    RefusesHeaders Config.tiny := by
  intro hsealed
  cases hsealed

/-- A header ends with sixteen bytes that are not all zero. -/
theorem refusesHeaders_tinySealed :
    RefusesHeaders Config.tinySealed := by
  rintro - front timestamp hlength ⟨b, hb⟩
  have hfront : front.length = 23 := by
    rw [List.length_append, length_walHeader] at hlength
    exact Nat.add_right_cancel hlength
  have hstored : (front ++ Config.tinySealed.walHeader timestamp).drop 24 =
      [66] ++ (Config.tinySealed.walHeader timestamp).drop 2 := by
    rw [List.drop_append, List.drop_of_length_le (by omega), hfront]
    rfl
  unfold sealedBlock at hb
  split at hb
  · cases hb
  · rename_i data hopen
    rw [hstored] at hopen
    have htag := (List.append_inj' (Aead.eq_append_of_open (fun _ _ _ => rfl) hopen) (by
      rw [List.length_drop, length_walHeader]
      rfl)).2
    cases htag

/-- A new file keeps its records, a file with one byte does not. -/
theorem keeps_after_open_tiny :
    (KeepsAfterOpen Config.tiny Config.tiny.writeWAL (fun call => call.truncateFails = false)
        none ∧
      ¬ KeepsAfterOpen Config.tiny Config.tiny.writeWAL
        (fun call => call.truncateFails = false) (some [86])) ∧
      KeepsAfterOpen Config.tinySealed Config.tinySealed.writeWAL
        (fun call => call.truncateFails = false) none ∧
      ¬ KeepsAfterOpen Config.tinySealed Config.tinySealed.writeWAL
        (fun call => call.truncateFails = false) (some [86]) := by
  have hplain := fun old => keeps_after_open_iff Config.tiny old refusesHeaders_tiny
  have hsealed := fun old => keeps_after_open_iff Config.tinySealed old refusesHeaders_tinySealed
  exact ⟨⟨(hplain none).1.mpr rfl, fun hkeeps => absurd ((hplain (some [86])).1.mp hkeeps)
    (by decide)⟩, (hsealed none).1.mpr rfl,
    fun hkeeps => absurd ((hsealed (some [86])).1.mp hkeeps) (by decide)⟩

/-- An append that succeeds on a file that was opened with five bytes of a header in it,
and on one that was opened with a record in it. -/
theorem opened_on_content_loses_record :
    let call : AppendCall := ⟨⟨[11], 2, 8, 1⟩, .ok, false, false⟩
    let tornHeader := (Config.tiny.walHeader 0).take 5
    let segment := Config.tiny.segment 0 [⟨[10], 1, 7, 1⟩]
    let append := fun old =>
      AppendedLog.append Config.tiny.writeWAL ⟨(Config.tiny.openWALLocked (some old) 1 .ok).1, []⟩
        call
    (append tornHeader).blocks = [call.block] ∧
      Config.tiny.readWALFileForRecovery (append tornHeader).file = .error .versionMismatch ∧
      (append segment).blocks = [call.block] ∧
      Config.tiny.readWALFileForRecovery (append segment).file = .ok [⟨[10], 1, 7, 1⟩] := by
  decide +kernel

end Opening

end Viperblock
