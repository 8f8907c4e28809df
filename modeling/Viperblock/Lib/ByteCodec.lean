import Mathlib.Algebra.Order.Ring.Nat
import Mathlib.Data.List.Basic
import Mathlib.Data.List.Induction

/-!
# Fixed-width integers and fixed-size frames

Big-endian integers of a given width, and the cutting of a byte string into
frames of one size.  A reader of a log cuts it into frames up to a torn rest;
a writer that appends whole frames is read back exactly.
-/

namespace ByteCodec

/-- The `width` big-endian bytes of `n`; higher bytes are dropped. -/
def encode : Nat → Nat → List UInt8
  | 0, _ => []
  | width + 1, n => encode width (n / 256) ++ [UInt8.ofNat n]

/-- The number with the given big-endian bytes. -/
def decode (bytes : List UInt8) : Nat :=
  bytes.foldl (fun n byte => n * 256 + byte.toNat) 0

@[simp] theorem length_encode (width n : Nat) : (encode width n).length = width := by
  induction width generalizing n with
  | zero => rfl
  | succ width ih => simp [encode, ih]

/-- A number that fits is read back. -/
theorem decode_encode {width n : Nat} (hn : n < 256 ^ width) :
    decode (encode width n) = n := by
  induction width generalizing n with
  | zero =>
    have hzero : n = 0 := by simpa using hn
    simp [hzero, encode, decode]
  | succ width ih =>
    have hdiv : n / 256 < 256 ^ width := by
      exact Nat.div_lt_of_lt_mul (by rwa [Nat.mul_comm])
    have hih := ih hdiv
    simp only [decode] at hih
    simp only [decode, encode, List.foldl_append, hih, List.foldl_cons, List.foldl_nil,
      UInt8.toNat_ofNat']
    omega

/-- A number that was read fits its bytes. -/
theorem decode_lt (bytes : List UInt8) :
    decode bytes < 256 ^ bytes.length := by
  induction bytes using List.reverseRecOn with
  | nil => decide
  | append_singleton bytes byte ih =>
    have hbyte := byte.toNat_lt
    simp only [decode, List.foldl_append, List.foldl_cons, List.foldl_nil] at ih ⊢
    rw [List.length_append, List.length_singleton, Nat.pow_succ]
    omega

theorem encode_decode {width : Nat} {bytes : List UInt8} (hlength : bytes.length = width) :
    encode width (decode bytes) = bytes := by
  induction bytes using List.reverseRecOn generalizing width with
  | nil =>
    cases hlength
    rfl
  | append_singleton bytes byte ih =>
    obtain rfl : width = bytes.length + 1 := by simpa using hlength.symm
    have hbyte := byte.toNat_lt
    have hdecode : decode (bytes ++ [byte]) = decode bytes * 256 + byte.toNat := by
      simp [decode]
    have hdiv : (decode bytes * 256 + byte.toNat) / 256 = decode bytes := by omega
    have hlast : UInt8.ofNat (decode bytes * 256 + byte.toNat) = byte := by
      rw [← UInt8.toNat_inj, UInt8.toNat_ofNat']
      omega
    rw [hdecode, encode, hdiv, ih rfl, hlast]

theorem decode_cons (byte : UInt8) (bytes : List UInt8) :
    decode (byte :: bytes) = byte.toNat * 256 ^ bytes.length + decode bytes := by
  induction bytes using List.reverseRecOn with
  | nil => simp [decode]
  | append_singleton bytes last ih =>
    simp only [decode, List.foldl_cons, List.foldl_append, List.foldl_nil] at ih ⊢
    rw [ih, List.length_append, List.length_singleton, Nat.pow_succ, Nat.add_mul,
      Nat.mul_assoc, Nat.add_assoc]

section Frames

variable {α : Type*}

/-- The whole frames of `size` elements at the front, up to a shorter rest. -/
def frames (size : Nat) : Nat → List α → List (List α)
  | 0, _ => []
  | fuel + 1, l =>
    if l.length < size then []
    else l.take size :: frames size fuel (l.drop size)

theorem length_of_mem_frames {size fuel : Nat} {l frame : List α}
    (hframe : frame ∈ frames size fuel l) :
    frame.length = size := by
  induction fuel generalizing l with
  | zero => simp [frames] at hframe
  | succ fuel ih =>
    simp only [frames] at hframe
    split at hframe
    · simp at hframe
    · rename_i hlong
      rcases List.mem_cons.mp hframe with rfl | hrest
      · simp only [List.length_take]
        omega
      · exact ih hrest

theorem isInfix_of_mem_frames {size fuel : Nat} {l frame : List α}
    (hframe : frame ∈ frames size fuel l) :
    frame <:+: l := by
  induction fuel generalizing l with
  | zero => simp [frames] at hframe
  | succ fuel ih =>
    simp only [frames] at hframe
    split at hframe
    · simp at hframe
    · rcases List.mem_cons.mp hframe with rfl | hrest
      · exact (List.take_prefix _ _).isInfix
      · exact (ih hrest).trans (List.drop_suffix _ _).isInfix

theorem length_frames {size count fuel : Nat} {l : List α} (hpos : 0 < size)
    (hlength : l.length = count * size) (hfuel : count < fuel) :
    (frames size fuel l).length = count := by
  induction count generalizing fuel l with
  | zero =>
    cases fuel with
    | zero => rfl
    | succ fuel =>
      rw [Nat.zero_mul] at hlength
      simp only [frames, hlength, if_pos hpos, List.length_nil]
  | succ count ih =>
    cases fuel with
    | zero => simp at hfuel
    | succ fuel =>
      rw [Nat.add_one_mul] at hlength
      have hrest := @ih fuel (l.drop size) (by rw [List.length_drop]; omega) (by omega)
      rw [frames, if_neg (by omega), List.length_cons, hrest]

section

variable {pieces : List (List α)} {size : Nat}

theorem frames_flatten_append (hsize : ∀ piece ∈ pieces, piece.length = size) (fuel : Nat)
    (l : List α) :
    frames size (pieces.length + fuel) (pieces.flatten ++ l) = pieces ++ frames size fuel l := by
  induction pieces with
  | nil => simp
  | cons piece pieces ih =>
    have hpiece := hsize piece List.mem_cons_self
    have hrest := ih fun p hp => hsize p (List.mem_cons_of_mem _ hp)
    have hlong : ¬ (piece ++ (pieces.flatten ++ l)).length < size := by
      rw [List.length_append]
      omega
    rw [List.length_cons, Nat.succ_add, List.flatten_cons, List.append_assoc, frames,
      if_neg hlong, List.take_left' hpiece, List.drop_left' hpiece, hrest,
      List.cons_append]

/-- Whole frames followed by a torn one are read back. -/
theorem frames_flatten {size fuel : Nat} (pieces : List (List α)) (torn : List α)
    (hsize : ∀ piece ∈ pieces, piece.length = size) (htorn : torn.length < size)
    (hfuel : pieces.length < fuel) :
    frames size fuel (pieces.flatten ++ torn) = pieces := by
  obtain ⟨more, rfl⟩ := Nat.exists_eq_add_of_lt hfuel
  rw [Nat.add_assoc, frames_flatten_append hsize, frames, if_pos htorn, List.append_nil]

/-- Everything is the frames at its front and a torn one. -/
theorem exists_flatten_frames {size fuel : Nat} {l : List α} (hpos : 0 < size)
    (hfuel : l.length < fuel) :
    ∃ torn, l = (frames size fuel l).flatten ++ torn ∧ torn.length < size := by
  induction fuel generalizing l with
  | zero => omega
  | succ fuel ih =>
    by_cases hshort : l.length < size
    · exact ⟨l, by simp [frames, hshort], hshort⟩
    · obtain ⟨torn, hrest, htorn⟩ := @ih (l.drop size) (by
        rw [List.length_drop]
        omega)
      refine ⟨torn, ?_, htorn⟩
      rw [frames, if_neg hshort, List.flatten_cons, List.append_assoc, ← hrest,
        List.take_append_drop]

theorem exists_eq_take_drop_of_mem_frames {size fuel : Nat} {l frame : List α}
    (hframe : frame ∈ frames size fuel l) :
    ∃ i, (i + 1) * size ≤ l.length ∧ frame = (l.drop (i * size)).take size := by
  induction fuel generalizing l with
  | zero => simp [frames] at hframe
  | succ fuel ih =>
    simp only [frames] at hframe
    split at hframe
    · simp at hframe
    · rename_i hlong
      rcases List.mem_cons.mp hframe with rfl | hrest
      · exact ⟨0, by omega, by simp⟩
      · obtain ⟨i, hi, rfl⟩ := ih hrest
        rw [List.length_drop] at hi
        refine ⟨i + 1, ?_, ?_⟩
        · rw [Nat.add_one_mul]
          omega
        · rw [List.drop_drop, Nat.add_one_mul, Nat.add_comm]

section

variable (hsize : ∀ piece ∈ pieces, piece.length = size)

include hsize

theorem take_flatten_frames (i : Nat) :
    pieces.flatten.take (i * size) = (pieces.take i).flatten := by
  induction i generalizing pieces with
  | zero => simp
  | succ i ih =>
    cases pieces with
    | nil => simp
    | cons piece pieces =>
      have hpiece := hsize piece (by simp)
      have hkeep : (i + 1) * size = piece.length + i * size := by
        rw [hpiece, Nat.add_mul, Nat.one_mul, Nat.add_comm]
      rw [hkeep, List.flatten_cons, List.take_length_add_append,
        ih (fun p hp => hsize p (by simp [hp])), List.take_succ_cons, List.flatten_cons]

theorem drop_flatten_frames (i : Nat) :
    pieces.flatten.drop (i * size) = (pieces.drop i).flatten := by
  have hsplit : pieces.flatten.take (i * size) ++ pieces.flatten.drop (i * size) =
      (pieces.take i).flatten ++ (pieces.drop i).flatten := by
    rw [← List.flatten_append, List.take_append_drop, List.take_append_drop]
  rw [take_flatten_frames hsize] at hsplit
  exact List.append_cancel_left hsplit

theorem length_flatten_frames :
    pieces.flatten.length = pieces.length * size := by
  rw [List.length_flatten, List.map_eq_replicate_iff.mpr hsize, List.sum_replicate_nat]

end

/-- A whole number of frames is all there is. -/
theorem flatten_frames_of_mod {l : List α} (hpos : 0 < size) (hmod : l.length % size = 0) :
    (frames size (l.length + 1) l).flatten = l := by
  obtain ⟨torn, hl, htorn⟩ := exists_flatten_frames hpos (Nat.lt_succ_self l.length)
  have hlength := congrArg List.length hl
  rw [List.length_append, length_flatten_frames fun _ => length_of_mem_frames] at hlength
  rw [hlength, Nat.mul_add_mod_self_right, Nat.mod_eq_of_lt htorn, List.length_eq_zero_iff] at hmod
  rw [hmod, List.append_nil] at hl
  exact hl.symm

/-- A front part of whole frames is as many whole frames as it has room for and a torn
one. -/
theorem exists_take_flatten_div (hpos : 0 < size) (hsize : ∀ piece ∈ pieces, piece.length = size)
    (n : Nat) :
    ∃ torn, pieces.flatten.take n = (pieces.take (n / size)).flatten ++ torn ∧
      torn.length < size := by
  refine ⟨(pieces.flatten.drop (n / size * size)).take (n % size), ?_, ?_⟩
  · rw [← take_flatten_frames hsize, ← List.take_add, Nat.div_add_mod']
  · have hmod := Nat.mod_lt n hpos
    rw [List.length_take]
    omega

end

end Frames

end ByteCodec
