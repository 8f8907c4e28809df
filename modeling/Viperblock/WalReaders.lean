import Viperblock.Accounting
import Viperblock.Consolidators

/-!
# Reading a log by its length fields

The drain and recovery know how long a record is, `ReadWAL` takes it from the record.  Both
`ReadWAL` and the drain read with one call of `Read`, the drain a whole record and `ReadWAL`
the data behind a head.
-/

namespace Viperblock

/-- What a reader of the log makes known of a record. -/
def Block.logged (b : Block) : Nat × Nat × Bytes :=
  (b.seqNum, b.block, b.data)

namespace Config

/-- `ReadWAL` behind the header.  A short head is filled with zeros. -/
def readWAL : Nat → Bytes → Except WalError (List Block)
  | 0, _ => .ok []
  | fuel + 1, bytes =>
    let head := bytes.take 28 ++ List.replicate (28 - bytes.length) 0
    let rest := bytes.drop 28
    let record := head ++ rest.take (recordLen head)
    if bytes = [] then .ok []
    else if min rest.length maxRead < recordLen head then .error .unexpectedEOF
    else if checksumOk record then
      (readWAL fuel (rest.drop (recordLen head))).map (plainBlock record :: ·)
    else .error .checksumMismatch

section Readers

variable {cfg : Config} {blocks : List Block}

/-- Framed by their length fields, records are read back if these are right. -/
theorem readWAL_walRecords_iff (hplain : cfg.sealing = none) {fuel : Nat}
    (hblocks : ∀ b ∈ blocks, b.Fits cfg) (hfuel : blocks.length < fuel) :
    (∃ read, readWAL fuel (blocks.map cfg.walRecord).flatten = .ok read ∧
      read.map Block.logged = blocks.map Block.logged) ↔
    ∀ b ∈ blocks, b.len = cfg.blockSize ∧ cfg.blockSize ≤ maxRead := by
  induction blocks generalizing fuel with
  | nil =>
    obtain ⟨fuel, rfl⟩ := Nat.exists_eq_succ_of_ne_zero (Nat.ne_of_gt hfuel)
    simp [readWAL]
  | cons b blocks ih =>
    obtain ⟨fuel, rfl⟩ := Nat.exists_eq_succ_of_ne_zero (Nat.ne_of_gt (Nat.zero_lt_of_lt hfuel))
    have hb := hblocks b List.mem_cons_self
    have hrest := @ih fuel (fun c hc => hblocks c (List.mem_cons_of_mem _ hc))
      (Nat.lt_of_succ_lt_succ hfuel)
    obtain ⟨hok, hfirst⟩ := plainBlock_walRecord hb hplain
    generalize hhead :
      recordHead b ++ ByteCodec.encode 4 (recordChecksum (recordHead b) b.data).toNat = head
    have hrecord : cfg.walRecord b = head ++ b.data := by
      rw [walRecord, hplain, hhead]
    have hlength : head.length = 28 := by
      simp [← hhead, length_recordHead]
    have hlen : recordLen head = b.len := by
      rw [← hhead]
      exact (fields_of_recordHead hb _).2.2
    rw [List.map_cons, List.flatten_cons, hrecord, List.append_assoc, readWAL]
    generalize (blocks.map cfg.walRecord).flatten = tail at hrest ⊢
    have hne : head ++ (b.data ++ tail) ≠ [] := by
      intro hnil
      simp [(List.append_eq_nil_iff.mp hnil).1] at hlength
    simp only [List.take_left' hlength, List.drop_left' hlength, List.length_append, hlength,
      Nat.sub_eq_zero_of_le (Nat.le_add_right 28 _), List.replicate_zero, List.append_nil, hlen,
      if_neg hne]
    by_cases hsize : b.len = cfg.blockSize ∧ cfg.blockSize ≤ maxRead
    · rw [List.forall_mem_cons, ← hrest, hsize.1, List.take_left' hb.data,
        List.drop_left' hb.data, ← hrecord, hfirst, hok, if_neg (by rw [hb.data]; omega),
        if_pos rfl]
      cases readWAL fuel tail with
      | error err => simp [Except.map]
      | ok read => simp [Except.map, hsize]
    · refine iff_of_false ?_ fun hall => hsize (hall b List.mem_cons_self)
      rintro ⟨read, hread, hsame⟩
      split at hread
      · cases hread
      split at hread
      · cases htail : readWAL fuel ((b.data ++ tail).drop b.len) with
        | error err =>
          rw [htail] at hread
          cases hread
        | ok rest =>
          rw [htail] at hread
          cases hread
          -- the data that is read is as long as the length field says
          have hdata := congrArg (fun item => item.2.2.length) (List.cons_eq_cons.mp hsame).1
          have hwhole := hb.data
          simp only [Block.logged, plainBlock, List.drop_left' hlength, List.length_take,
            List.length_append] at hdata
          omega
      · cases hread

theorem length_le_of_readBuffers {size fuel : Nat} {bytes : Bytes} {read : List Block}
    (hfuel : bytes.length < fuel) (hsize : 28 ≤ size)
    (hread : readBuffers size fuel bytes = .ok read) :
    bytes.length ≤ read.length * maxRead := by
  induction fuel generalizing bytes read with
  | zero => cases hfuel
  | succ fuel ih =>
    rw [readBuffers] at hread
    split at hread
    · rename_i hempty
      rw [hempty.2]
      exact Nat.zero_le _
    rename_i hempty
    rw [if_neg (Nat.not_lt.mpr hsize)] at hread
    dsimp only at hread
    split at hread
    swap
    · cases hread
    have hpos : 0 < bytes.length :=
      List.length_pos_iff.mpr fun hnil => hempty ⟨by omega, hnil⟩
    have hmin : 0 < min size maxRead := by
      simp only [maxRead]
      omega
    cases hrest : readBuffers size fuel (bytes.drop (min size maxRead)) with
    | error err =>
      rw [hrest] at hread
      cases hread
    | ok rest =>
      rw [hrest] at hread
      cases hread
      have hle := ih (by rw [List.length_drop]; omega) hrest
      rw [List.length_drop] at hle
      rw [List.length_cons, Nat.succ_mul]
      omega

/-- The three readers of a plaintext segment get the same records exactly if every record
has the size of a block in its length field and is returned by one `Read`, or there is no
record and the buffer of the drain is not empty. -/
theorem wal_readers_agree_iff (timestamp : Nat) (hplain : cfg.sealing = none)
    (hblocks : ∀ b ∈ blocks, b.Fits cfg) :
    let file := cfg.segment timestamp blocks
    (∃ read drained recovered, readWAL file.length (file.drop walHeaderSize) = .ok read ∧
      cfg.closedSegment readBuffers file = .ok drained ∧
      cfg.readWALFileForRecovery file = .ok recovered ∧
      read.map Block.logged = recovered.map Block.logged ∧
      drained.map Block.logged = recovered.map Block.logged) ↔
    (28 + cfg.blockSize ≤ maxRead ∧ ∀ b ∈ blocks, b.len = cfg.blockSize) ∨
      blocks = [] ∧ 28 + cfg.blockSize ≠ 2 ^ 32 := by
  intro file
  have hrecovered : cfg.readWALFileForRecovery file = .ok blocks := by
    rw [← List.append_nil file]
    exact readWALFileForRecovery_segment timestamp hblocks (recordSize_pos cfg)
  have hlength := length_segment timestamp hblocks
  have hrecord : cfg.recordSize = 28 + cfg.blockSize := by
    rw [recordSize, hplain]
  have hfuel : blocks.length < file.length := by
    have hle := Nat.le_mul_of_pos_right blocks.length (recordSize_pos cfg)
    rw [hlength, walHeaderSize]
    omega
  have hbody : file.drop walHeaderSize = (blocks.map cfg.walRecord).flatten :=
    List.drop_left' (length_walHeader cfg timestamp)
  have hread := readWAL_walRecords_iff hplain hblocks hfuel
  rw [hbody]
  constructor
  · rintro ⟨read, drained, recovered, hwal, hclosed, hrecovered', hsame, hsame'⟩
    cases hrecovered.symm.trans hrecovered'
    have hlens := hread.mp ⟨read, hwal, hsame⟩
    by_cases hfits : 28 + cfg.blockSize ≤ maxRead
    · exact .inl ⟨hfits, fun b hb => (hlens b hb).1⟩
    · have hlt := cfg.blockSize_lt
      rw [closedSegment_segment] at hclosed
      simp only [hplain] at hclosed
      by_cases hsmall : (28 + cfg.blockSize) % 2 ^ 32 < 28
      · rw [readBuffers] at hclosed
        split at hclosed
        · rename_i hempty
          have hcount := length_walRecords hblocks
          rw [hempty.2, List.length_nil, hrecord, eq_comm, Nat.mul_eq_zero] at hcount
          exact .inr ⟨List.length_eq_zero_iff.mp (by omega), by omega⟩
        · cases hclosed
      · -- a `Read` for each GiB, so more of them than there are records
        have hle := length_le_of_readBuffers (Nat.lt_succ_self _) (Nat.not_lt.mp hsmall) hclosed
        have hsame := congrArg List.length hsame'
        simp only [List.length_map] at hsame
        rw [length_walRecords hblocks, hrecord, hsame] at hle
        refine .inr ⟨List.length_eq_zero_iff.mp ?_, by omega⟩
        by_contra hne
        have hlarge := Nat.mul_lt_mul_of_pos_left (Nat.not_le.mp hfits) (Nat.pos_of_ne_zero hne)
        omega
  · intro hfits
    have hdrained : cfg.closedSegment readBuffers file = .ok blocks := by
      refine closedSegment_of_fits timestamp hblocks ((recordBufferFits_iff cfg blocks).mpr ?_)
      exact .inr (hfits.imp_left And.left)
    have hlens : ∀ b ∈ blocks, b.len = cfg.blockSize ∧ cfg.blockSize ≤ maxRead := by
      rcases hfits with ⟨hsize, hlens⟩ | ⟨rfl, -⟩
      · exact fun b hb => ⟨hlens b hb, by omega⟩
      · exact fun b hb => absurd hb List.not_mem_nil
    obtain ⟨read, hwal, hsame⟩ := hread.mpr hlens
    exact ⟨read, blocks, blocks, hwal, hdrained, hrecovered, hsame, rfl⟩

end Readers

/-- Two records, the older one of block 7. -/
def twoRecords : List Block :=
  [⟨[10], 1, 7, 1⟩, ⟨[11], 2, 3, 1⟩]

theorem wal_readers_agree_twoRecords :
    ∃ read drained recovered, readWAL (tiny.segment 0 twoRecords).length
          ((tiny.segment 0 twoRecords).drop walHeaderSize) = .ok read ∧
        tiny.closedSegment readBuffers (tiny.segment 0 twoRecords) = .ok drained ∧
        tiny.readWALFileForRecovery (tiny.segment 0 twoRecords) = .ok recovered ∧
        read.map Block.logged = recovered.map Block.logged ∧
        drained.map Block.logged = recovered.map Block.logged := by
  refine (wal_readers_agree_iff 0 rfl ?_).mpr (.inl ⟨by decide, by decide⟩)
  intro b hb
  simp only [twoRecords, List.mem_cons, List.not_mem_nil, or_false] at hb
  rcases hb with rfl | rfl <;> exact ⟨rfl, by decide, by decide, by decide⟩

/-- `Write` leaves the length zero. -/
theorem readWAL_refuses_wholeWrite :
    let b := Accounting.wholeWrite tiny 7 0 [10] 0
    let file := tiny.segment 0 [b]
    readWAL file.length (file.drop walHeaderSize) = .error .checksumMismatch ∧
      tiny.closedSegment readBuffers file = .ok [b] ∧
      tiny.readWALFileForRecovery file = .ok [b] := by
  decide +kernel

end Config

end Viperblock
