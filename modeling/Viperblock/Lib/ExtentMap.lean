import Mathlib.Data.List.AList
import Viperblock.Lib.FiniteMap

/-!
# Maps of disjoint extents

An extent covers a range of consecutive numbers and has a value at each of
them.  A map keyed by first numbers holds pairwise disjoint extents and thereby
a partial function from numbers to values.  A new extent overrides a range of
that function: every extent it overlaps is removed, what sticks out of the
range in front and behind is put back, and the new extent is put in.

A map is loose if it may hold empty extents as well.  Such an extent has a key all the
same, and a lookup by that key finds it.  Everything below is proved of loose maps, by
one closed form of what the fracturing loop leaves: the parts of every extent that was
there.

The map may be part of a larger store that keeps other data in step with it,
such as a count of the extents by some attribute; the store says how one extent
is removed and put, and which invariant of its own that keeps.
-/

namespace ExtentMap

/-- Which numbers an extent covers, and which extents are well built. -/
structure Shape (E : Type*) where
  start : E → Nat
  count : E → Nat
  Valid : E → Prop
  count_pos : ∀ {e}, Valid e → 0 < count e

namespace Shape

variable {E : Type*} (shape : Shape E)

/-- Exclusive upper bound of the range. -/
def stop (e : E) : Nat :=
  shape.start e + shape.count e

def Covers (e : E) (n : Nat) : Prop :=
  shape.start e ≤ n ∧ n < shape.stop e

/-- The two extents share no number. -/
def Apart (e e' : E) : Prop :=
  shape.stop e ≤ shape.start e' ∨ shape.stop e' ≤ shape.start e

instance (e : E) (n : Nat) : Decidable (shape.Covers e n) :=
  inferInstanceAs (Decidable (_ ∧ _))

variable {shape}

theorem covers_start {e : E} (hvalid : shape.Valid e) :
    shape.Covers e (shape.start e) := by
  have hpos := shape.count_pos hvalid
  exact ⟨Nat.le_refl _, Nat.lt_add_of_pos_right hpos⟩

theorem Apart.not_covers {e e' : E} {n : Nat} (hapart : shape.Apart e e')
    (hcovers : shape.Covers e n) :
    ¬ shape.Covers e' n := by
  intro hcovers'
  simp only [Apart, Covers] at hapart hcovers hcovers'
  omega

end Shape

/-- The value of an extent at each position, and how an extent is cut. -/
structure Cutting {E : Type*} (shape : Shape E) (V : Type*) where
  value : E → Nat → V
  /-- What lies in front of a number inside the extent. -/
  head : E → Nat → E
  /-- What lies behind a number inside the extent, that number included. -/
  tail : E → Nat → E
  head_valid : ∀ {e n}, shape.Valid e → shape.start e < n → n < shape.stop e →
    shape.Valid (head e n)
  head_covers : ∀ {e n}, shape.Valid e → shape.start e < n → n < shape.stop e →
    ∀ i, shape.Covers (head e n) i ↔ shape.Covers e i ∧ i < n
  head_start : ∀ e n, shape.start (head e n) = shape.start e
  head_value : ∀ {e n}, shape.Valid e → ∀ i, shape.Covers e i → i < n →
    value (head e n) (i - shape.start e) = value e (i - shape.start e)
  tail_valid : ∀ {e n}, shape.Valid e → shape.start e < n → n < shape.stop e →
    shape.Valid (tail e n)
  tail_covers : ∀ {e n}, shape.Valid e → shape.start e < n → n < shape.stop e →
    ∀ i, shape.Covers (tail e n) i ↔ shape.Covers e i ∧ n ≤ i
  tail_start : ∀ e n, shape.start (tail e n) = n
  tail_value : ∀ {e n}, shape.Valid e → shape.start e < n → ∀ i, shape.Covers e i →
    n ≤ i → value (tail e n) (i - n) = value e (i - shape.start e)

/-- The extents of a map: keyed by first number, valid, and disjoint. -/
structure WellFormed {E : Type*} (shape : Shape E) (m : AList fun _ : Nat => E) :
    Prop where
  keyed : ∀ {k e}, m.lookup k = some e → shape.start e = k
  valid : ∀ {k e}, m.lookup k = some e → shape.Valid e
  apart : ∀ {k k' e e'}, m.lookup k = some e → m.lookup k' = some e' → k ≠ k' → shape.Apart e e'

/-- The extent covering `n`: by its key, or else by a scan of the entries. -/
def find {E : Type*} (shape : Shape E) (m : AList fun _ : Nat => E) (n : Nat) :
    Option E :=
  match m.lookup n with
  | some e => some e
  | none =>
    (m.entries.find? fun entry =>
      decide (shape.start entry.2 < n ∧ n < shape.stop entry.2)).map Sigma.snd

/-- The value of the map at `n`. -/
def get {E V : Type*} {shape : Shape E} (cut : Cutting shape V)
    (m : AList fun _ : Nat => E) (n : Nat) : Option V :=
  (find shape m n).map fun e => cut.value e (n - shape.start e)

/-- The first number of the extent covering `n`. -/
def headOf {E : Type*} (shape : Shape E) (m : AList fun _ : Nat => E) (n : Nat) :
    Option Nat :=
  (find shape m n).map shape.start

/-- Keyed by first number and apart; what is not empty is valid. -/
structure Loose (shape : Shape E) (m : AList fun _ : Nat => E) : Prop where
  keyed : ∀ {k e}, m.lookup k = some e → shape.start e = k
  valid : ∀ {k e}, m.lookup k = some e → 0 < shape.count e → shape.Valid e
  apart : ∀ {k k' e e'}, m.lookup k = some e → m.lookup k' = some e' → k ≠ k' → shape.Apart e e'

/-- A lookup of `n` finds the extent: it has the key, or it covers `n`. -/
def Shape.Found {E : Type*} (shape : Shape E) (e : E) (n : Nat) : Prop :=
  shape.start e = n ∨ shape.Covers e n

section Lookup

variable {E V : Type*} {shape : Shape E} {m : AList fun _ : Nat => E}

theorem wellFormed_empty :
    WellFormed shape (∅ : AList fun _ : Nat => E) := by
  constructor <;> simp

theorem WellFormed.loose (hwf : WellFormed shape m) : Loose shape m :=
  ⟨hwf.keyed, fun he _ => hwf.valid he, hwf.apart⟩

theorem Loose.lookup_start (hm : Loose shape m) {k : Nat} {e : E} (he : m.lookup k = some e) :
    m.lookup (shape.start e) = some e := by
  rwa [hm.keyed he]

/-- Resolution finds the extent, whichever branch it takes. -/
theorem Loose.find_eq_some_iff (hm : Loose shape m) {n : Nat} {e : E} :
    find shape m n = some e ↔ m.lookup (shape.start e) = some e ∧ shape.Found e n := by
  have hunique : ∀ {k k' e e'}, m.lookup k = some e → m.lookup k' = some e' →
      shape.Found e n → shape.Found e' n → e = e' := by
    intro k k' e e' he he' hfound hfound'
    by_cases hk : k = k'
    · subst hk
      exact Option.some.inj (he.symm.trans he')
    · have hapart := hm.apart he he' hk
      have hkey := hm.keyed he
      have hkey' := hm.keyed he'
      simp only [Shape.Found, Shape.Covers, Shape.Apart, Shape.stop] at hapart hfound hfound'
      omega
  unfold find
  cases hdirect : m.lookup n with
  | some direct =>
    have hkey := hm.keyed hdirect
    constructor
    · rintro ⟨⟩
      exact ⟨hm.lookup_start hdirect, .inl hkey⟩
    · rintro ⟨he, hfound⟩
      exact congrArg some (hunique hdirect he (.inl hkey) hfound)
  | none =>
    simp only [Option.map_eq_some_iff]
    constructor
    · rintro ⟨⟨k, found⟩, hscan, rfl⟩
      have hlookup := FiniteMap.mem_entries_iff.mp (List.mem_of_find?_eq_some hscan)
      have htest := List.find?_some hscan
      simp only [decide_eq_true_eq] at htest
      exact ⟨hm.lookup_start hlookup, .inr ⟨Nat.le_of_lt htest.1, htest.2⟩⟩
    · rintro ⟨he, hfound⟩
      have hne : shape.start e ≠ n := by
        rintro rfl
        simp [hdirect] at he
      have hcovers := hfound.resolve_left hne
      have hsome : (m.entries.find? fun entry => decide
          (shape.start entry.2 < n ∧ n < shape.stop entry.2)).isSome := by
        rw [List.find?_isSome]
        refine ⟨⟨shape.start e, e⟩, FiniteMap.mem_entries_iff.mpr he, ?_⟩
        simp only [decide_eq_true_eq]
        exact ⟨Nat.lt_of_le_of_ne hcovers.1 hne, hcovers.2⟩
      obtain ⟨⟨k, found⟩, hscan⟩ := Option.isSome_iff_exists.mp hsome
      have hlookup := FiniteMap.mem_entries_iff.mp (List.mem_of_find?_eq_some hscan)
      have htest := List.find?_some hscan
      simp only [decide_eq_true_eq] at htest
      obtain rfl := hunique hlookup he (.inr ⟨Nat.le_of_lt htest.1, htest.2⟩) hfound
      exact ⟨⟨k, found⟩, hscan, rfl⟩

theorem Shape.found_iff_covers {e : E} {n : Nat} (hpos : 0 < shape.count e) :
    shape.Found e n ↔ shape.Covers e n := by
  simp only [Found, Covers, stop]
  omega

theorem WellFormed.find_eq_some_iff (hwf : WellFormed shape m) {n : Nat} {e : E} :
    find shape m n = some e ↔ m.lookup (shape.start e) = some e ∧ shape.Covers e n := by
  rw [hwf.loose.find_eq_some_iff]
  exact and_congr_right fun he => Shape.found_iff_covers (shape.count_pos (hwf.valid he))

theorem WellFormed.covers_start (hwf : WellFormed shape m) {k : Nat} {e : E}
    (he : m.lookup k = some e) :
    shape.Covers e k := by
  have hcovers := shape.covers_start (hwf.valid he)
  rwa [hwf.keyed he] at hcovers

theorem WellFormed.pairwise_apart (hwf : WellFormed shape m) :
    m.entries.Pairwise fun a b => shape.Apart a.2 b.2 := by
  have hkeys := m.keys_nodup
  rw [AList.keys, List.keys, List.nodup_iff_pairwise_ne, List.pairwise_map] at hkeys
  exact hkeys.imp_of_mem fun ha hb hne =>
    hwf.apart (FiniteMap.mem_entries_iff.mp ha) (FiniteMap.mem_entries_iff.mp hb) hne

/-- The numbers that the extents cover, extent by extent. -/
def numbers (shape : Shape E) (m : AList fun _ : Nat => E) : List Nat :=
  m.entries.flatMap fun entry => (List.range (shape.count entry.2)).map (shape.start entry.2 + ·)

theorem mem_numbers_iff {n : Nat} :
    n ∈ numbers shape m ↔ ∃ k e, m.lookup k = some e ∧ shape.Covers e n := by
  simp only [numbers, List.mem_flatMap, List.mem_map, List.mem_range]
  constructor
  · rintro ⟨⟨k, e⟩, hentry, i, hi, rfl⟩
    exact ⟨k, e, FiniteMap.mem_entries_iff.mp hentry, Nat.le_add_right _ _,
      Nat.add_lt_add_left hi _⟩
  · rintro ⟨k, e, he, hlow, hhigh⟩
    refine ⟨⟨k, e⟩, FiniteMap.mem_entries_iff.mpr he, n - shape.start e, ?_,
      Nat.add_sub_cancel' hlow⟩
    exact Nat.sub_lt_left_of_lt_add hlow hhigh

/-- Disjoint extents list no number twice. -/
theorem WellFormed.nodup_numbers (hwf : WellFormed shape m) : (numbers shape m).Nodup := by
  rw [numbers, List.nodup_flatMap]
  constructor
  · exact fun entry _ => List.nodup_range.map fun i j hij => Nat.add_left_cancel hij
  · refine hwf.pairwise_apart.imp fun {a b} hapart => List.disjoint_left.mpr ?_
    intro n hn hn'
    obtain ⟨i, hi, rfl⟩ := List.mem_map.mp hn
    obtain ⟨j, hj, hij⟩ := List.mem_map.mp hn'
    have hi := List.mem_range.mp hi
    have hj := List.mem_range.mp hj
    simp only [Shape.Apart, Shape.stop] at hapart
    omega

theorem length_numbers (shape : Shape E) (m : AList fun _ : Nat => E) :
    (numbers shape m).length = FiniteMap.sumValues shape.count m := by
  simp [numbers, FiniteMap.sumValues, List.length_flatMap, List.sum, List.foldr_map]

variable (cut : Cutting shape V)

theorem WellFormed.get_eq_some_iff (hwf : WellFormed shape m) {n : Nat} {v : V} :
    get cut m n = some v ↔ ∃ e, m.lookup (shape.start e) = some e ∧ shape.Covers e n ∧
        v = cut.value e (n - shape.start e) := by
  unfold get
  simp only [Option.map_eq_some_iff, hwf.find_eq_some_iff]
  constructor
  · rintro ⟨e, ⟨he, hcovers⟩, rfl⟩
    exact ⟨e, he, hcovers, rfl⟩
  · rintro ⟨e, he, hcovers, rfl⟩
    exact ⟨e, ⟨he, hcovers⟩, rfl⟩

theorem WellFormed.get_of_covers (hwf : WellFormed shape m) {k n : Nat} {e : E}
    (he : m.lookup k = some e) (hcovers : shape.Covers e n) :
    get cut m n = some (cut.value e (n - shape.start e)) :=
  (hwf.get_eq_some_iff cut).mpr ⟨e, hwf.loose.lookup_start he, hcovers, rfl⟩

theorem WellFormed.get_eq_none_iff (hwf : WellFormed shape m) {n : Nat} :
    get cut m n = none ↔ ∀ k e, m.lookup k = some e → ¬ shape.Covers e n := by
  constructor
  · intro hnone k e he hcovers
    rw [hwf.get_of_covers cut he hcovers] at hnone
    simp at hnone
  · intro hall
    cases hget : get cut m n with
    | none => rfl
    | some v =>
      obtain ⟨e, he, hcovers, -⟩ := (hwf.get_eq_some_iff cut).mp hget
      exact absurd hcovers (hall _ _ he)

end Lookup

section Insert

variable {E V : Type*} {shape : Shape E} {m : AList fun _ : Nat => E} {e : E}

theorem Loose.insert (hm : Loose shape m) (hvalid : shape.Valid e)
    (hapart : ∀ k e', m.lookup k = some e' → shape.Apart e' e) :
    Loose shape (m.insert (shape.start e) e) := by
  refine ⟨?_, ?_, ?_⟩
  · intro k e' he'
    rcases FiniteMap.lookup_insert_eq_some he' with ⟨rfl, rfl⟩ | hold
    · rfl
    · exact hm.keyed hold
  · intro k e' he' hpos
    rcases FiniteMap.lookup_insert_eq_some he' with ⟨rfl, rfl⟩ | hold
    · exact hvalid
    · exact hm.valid hold hpos
  · intro k k' e₁ e₂ h₁ h₂ hne
    rcases FiniteMap.lookup_insert_eq_some h₁ with ⟨rfl, rfl⟩ | hold₁ <;>
      rcases FiniteMap.lookup_insert_eq_some h₂ with ⟨rfl, rfl⟩ | hold₂
    · exact absurd rfl hne
    · exact (hapart _ _ hold₂).symm
    · exact hapart _ _ hold₁
    · exact hm.apart hold₁ hold₂ hne

theorem Loose.find_insert (hm : Loose shape m) (hvalid : shape.Valid e)
    (hapart : ∀ k e', m.lookup k = some e' → shape.Apart e' e) (n : Nat) :
    find shape (m.insert (shape.start e) e) n =
      if shape.Covers e n then some e else find shape m n := by
  have hpos := shape.count_pos hvalid
  have hinsert := hm.insert hvalid hapart
  split
  · rename_i hcovers
    exact hinsert.find_eq_some_iff.mpr ⟨AList.lookup_insert _, .inr hcovers⟩
  · rename_i hcovers
    ext x
    rw [hinsert.find_eq_some_iff, hm.find_eq_some_iff]
    refine and_congr_left fun hfound => ?_
    by_cases hkey : shape.start x = shape.start e
    · -- neither map has an extent under this key that is found
      constructor
      · intro hx
        rw [hkey, AList.lookup_insert] at hx
        cases hx
        exact absurd ((Shape.found_iff_covers hpos).mp hfound) hcovers
      · intro hx
        have hxe := hapart _ _ hx
        simp only [Shape.Found, Shape.Covers, Shape.Apart, Shape.stop] at hfound hcovers hxe
        omega
    · rw [AList.lookup_insert_ne hkey]

theorem Loose.wellFormed (hm : Loose shape m)
    (hfull : ∀ k e, m.lookup k = some e → 0 < shape.count e) :
    WellFormed shape m :=
  ⟨hm.keyed, fun he => hm.valid he (hfull _ _ he), hm.apart⟩

theorem WellFormed.insert (hwf : WellFormed shape m) (hvalid : shape.Valid e)
    (hapart : ∀ k e', m.lookup k = some e' → shape.Apart e' e) :
    WellFormed shape (m.insert (shape.start e) e) := by
  refine (hwf.loose.insert hvalid hapart).wellFormed fun k e' he' => ?_
  rcases FiniteMap.lookup_insert_eq_some he' with ⟨-, rfl⟩ | hold
  · exact shape.count_pos hvalid
  · exact shape.count_pos (hwf.valid hold)

theorem WellFormed.start_free (hwf : WellFormed shape m) (hvalid : shape.Valid e)
    (hapart : ∀ k e', m.lookup k = some e' → shape.Apart e' e) :
    m.lookup (shape.start e) = none := by
  cases hlookup : m.lookup (shape.start e) with
  | none => rfl
  | some e' =>
    exact absurd (shape.covers_start hvalid)
      ((hapart _ _ hlookup).not_covers (hwf.covers_start hlookup))

end Insert

/-- A store of extents: the map, and how the store removes and puts an extent. -/
structure Store {E : Type*} (shape : Shape E) (S : Type*) where
  extents : S → AList fun _ : Nat => E
  remove : S → Nat → E → S
  put : S → E → S
  /-- What the store keeps in step with the map. -/
  InStep : S → Prop
  extents_remove : ∀ s k e, extents (remove s k e) = (extents s).erase k
  extents_put : ∀ s e, extents (put s e) = (extents s).insert (shape.start e) e
  inStep_remove : ∀ {s k e}, InStep s → (extents s).lookup k = some e → InStep (remove s k e)
  inStep_put : ∀ {s e}, InStep s → (extents s).lookup (shape.start e) = none → InStep (put s e)

namespace Store

variable {E V S : Type*} {shape : Shape E} (store : Store shape S)
variable (cut : Cutting shape V)

/-- One round of the fracturing loop, for the extent under key `k`. -/
def fracture (newStart newEnd : Nat) (s : S) (k : Nat) : S :=
  match (store.extents s).lookup k with
  | none => s
  | some existing =>
    if shape.stop existing ≤ newStart ∨ newEnd ≤ shape.start existing then s
    else
      let removed := store.remove s k existing
      let headed :=
        if shape.start existing < newStart then
          store.put removed (cut.head existing newStart)
        else removed
      if newEnd < shape.stop existing then
        store.put headed (cut.tail existing newEnd)
      else headed

/-- Make room for an extent and put it in. -/
def override (s : S) (e : E) : S :=
  store.put
    ((store.extents s).keys.foldl
      (store.fracture cut (shape.start e) (shape.stop e)) s) e

structure Sound (s : S) : Prop where
  wf : WellFormed shape (store.extents s)
  inStep : store.InStep s

end Store

section Parts

variable {E V : Type*} {shape : Shape E} (cut : Cutting shape V)

/-- What a round leaves of an extent that reaches into the new range. -/
def pieces (newStart newEnd : Nat) (e : E) : List E :=
  (if shape.start e < newStart then [cut.head e newStart] else []) ++
    if newEnd < shape.stop e then [cut.tail e newEnd] else []

/-- What a round leaves of any extent. -/
def parts (newStart newEnd : Nat) (e : E) : List E :=
  if shape.stop e ≤ newStart ∨ newEnd ≤ shape.start e then [e] else pieces cut newStart newEnd e

variable {cut} {newStart newEnd : Nat} {e x : E}

theorem mem_pieces_iff :
    x ∈ pieces cut newStart newEnd e ↔ x = cut.head e newStart ∧ shape.start e < newStart ∨
        x = cut.tail e newEnd ∧ newEnd < shape.stop e := by
  unfold pieces
  split <;> split <;> simp [*]

theorem Cutting.stop_head (hvalid : shape.Valid e) (hlow : shape.start e < newStart)
    (hhigh : newStart < shape.stop e) :
    shape.stop (cut.head e newStart) = newStart := by
  have hpos := shape.count_pos (cut.head_valid hvalid hlow hhigh)
  have hcovers := cut.head_covers hvalid hlow hhigh
  have hlast := hcovers (newStart - 1)
  have hbehind := hcovers (shape.stop (cut.head e newStart) - 1)
  have hstart := cut.head_start e newStart
  simp only [Shape.Covers, Shape.stop] at hlast hbehind hhigh ⊢
  omega

theorem Cutting.stop_tail (hvalid : shape.Valid e) (hlow : shape.start e < newEnd)
    (hhigh : newEnd < shape.stop e) :
    shape.stop (cut.tail e newEnd) = shape.stop e := by
  have hpos := shape.count_pos (cut.tail_valid hvalid hlow hhigh)
  have hcovers := cut.tail_covers hvalid hlow hhigh
  have hlast := hcovers (shape.stop e - 1)
  have hbehind := hcovers (shape.stop (cut.tail e newEnd) - 1)
  have hstart := cut.tail_start e newEnd
  simp only [Shape.Covers, Shape.stop] at hlast hbehind hhigh ⊢
  omega

section

variable (hvalid : 0 < shape.count e → shape.Valid e) (hx : x ∈ parts cut newStart newEnd e)

include hvalid hx

/-- The kinds of parts, with their bounds. -/
theorem mem_parts_cases :
    (x = e ∧ (shape.stop e ≤ newStart ∨ newEnd ≤ shape.start e)) ∨
      shape.Valid e ∧ shape.Valid x ∧ newStart < shape.stop e ∧ shape.start e < newEnd ∧
        (x = cut.head e newStart ∧ shape.start x = shape.start e ∧ shape.stop x = newStart ∨
          x = cut.tail e newEnd ∧ shape.start x = newEnd ∧ shape.stop x = shape.stop e) := by
  unfold parts at hx
  split at hx
  · exact .inl ⟨List.mem_singleton.mp hx, ‹_›⟩
  · rename_i hoverlap
    have hlow : newStart < shape.stop e := by omega
    have hhigh : shape.start e < newEnd := by omega
    rcases mem_pieces_iff.mp hx with ⟨rfl, hstart⟩ | ⟨rfl, hstop⟩
    · have hv := hvalid (by simp only [Shape.stop] at hlow; omega)
      exact .inr ⟨hv, cut.head_valid hv hstart hlow, hlow, hhigh,
        .inl ⟨rfl, cut.head_start e _, Cutting.stop_head hv hstart hlow⟩⟩
    · have hv := hvalid (by simp only [Shape.stop] at hstop; omega)
      exact .inr ⟨hv, cut.tail_valid hv hhigh hstop, hlow, hhigh,
        .inr ⟨rfl, cut.tail_start e _, Cutting.stop_tail hv hhigh hstop⟩⟩

/-- A part lies in its extent and outside the new range. -/
theorem bounds_of_mem_parts :
    shape.start e ≤ shape.start x ∧ shape.stop x ≤ shape.stop e ∧
      (shape.stop x ≤ newStart ∨ newEnd ≤ shape.start x) ∧
      (shape.start x = shape.start e ∨
        shape.start x = newEnd ∧ shape.start e < newEnd ∧ newEnd < shape.stop e) := by
  rcases mem_parts_cases hvalid hx with ⟨rfl, hout⟩ | ⟨-, hv, hlow, hhigh, hpart⟩
  · exact ⟨Nat.le_refl _, Nat.le_refl _, hout, .inl rfl⟩
  · have hpos := shape.count_pos hv
    have hstop : shape.start x < shape.stop x := by
      simp only [Shape.stop]
      omega
    rcases hpart with ⟨-, hstart, hend⟩ | ⟨-, hstart, hend⟩ <;> omega

theorem valid_of_mem_parts :
    (0 < shape.count x → shape.Valid x) ∧ (0 < shape.count e → 0 < shape.count x) ∧
      (¬ 0 < shape.count x → x = e) := by
  rcases mem_parts_cases hvalid hx with ⟨rfl, -⟩ | ⟨-, hv, -⟩
  · exact ⟨hvalid, id, fun _ => rfl⟩
  · have hpos := shape.count_pos hv
    exact ⟨fun _ => hv, fun _ => hpos, fun hnot => absurd hpos hnot⟩

/-- Where a part is found its extent is, with the same value. -/
theorem found_of_part (hrange : newStart < newEnd) {n : Nat} (hfound : shape.Found x n) :
    shape.Found e n ∧ cut.value x (n - shape.start x) = cut.value e (n - shape.start e) ∧
      shape.start x = if shape.start e < newEnd ∧ newEnd ≤ n then newEnd else shape.start e := by
  rcases mem_parts_cases hvalid hx with ⟨rfl, hout⟩ | ⟨hv, hv', hlow, hhigh, hpart⟩
  · refine ⟨hfound, rfl, (if_neg ?_).symm⟩
    simp only [Shape.Found, Shape.Covers, Shape.stop] at hfound hout
    omega
  · have hcovers := (Shape.found_iff_covers (shape.count_pos hv')).mp hfound
    rcases hpart with ⟨rfl, hstart, hend⟩ | ⟨rfl, hstart, hend⟩
    · have hn : shape.Covers e n := by
        simp only [Shape.Covers] at hcovers ⊢
        omega
      have hlt : n < newStart := hend ▸ hcovers.2
      refine ⟨.inr hn, ?_, ?_⟩
      · rw [hstart]
        exact cut.head_value hv n hn hlt
      · rw [hstart, if_neg (by omega)]
    · have hle : newEnd ≤ n := hstart ▸ hcovers.1
      have hn : shape.Covers e n := by
        simp only [Shape.Covers] at hcovers ⊢
        omega
      refine ⟨.inr hn, ?_, ?_⟩
      · rw [hstart]
        exact cut.tail_value hv hhigh n hn hle
      · rw [hstart, if_pos ⟨hhigh, hle⟩]

end

variable (cut) in
/-- Outside the range an extent is found by one of its parts. -/
theorem exists_part (hvalid : 0 < shape.count e → shape.Valid e) {n : Nat}
    (hfound : shape.Found e n) (hn : n < newStart ∨ newEnd ≤ n) :
    ∃ x ∈ parts cut newStart newEnd e, shape.Found x n := by
  by_cases hout : shape.stop e ≤ newStart ∨ newEnd ≤ shape.start e
  · exact ⟨e, by simp [parts, hout], hfound⟩
  · simp only [parts, if_neg hout]
    have hcovers : shape.Covers e n := by
      simp only [Shape.Found, Shape.Covers, Shape.stop] at hfound hout ⊢
      omega
    have hv := hvalid (by simp only [Shape.Covers, Shape.stop] at hcovers; omega)
    rcases hn with hn | hn
    · have hstart : shape.start e < newStart := hcovers.1.trans_lt hn
      exact ⟨_, mem_pieces_iff.mpr (.inl ⟨rfl, hstart⟩),
        .inr ((cut.head_covers hv hstart (by omega) n).mpr ⟨hcovers, hn⟩)⟩
    · have hstop : newEnd < shape.stop e := hn.trans_lt hcovers.2
      exact ⟨_, mem_pieces_iff.mpr (.inr ⟨rfl, hstop⟩),
        .inr ((cut.tail_covers hv (by omega) hstop n).mpr ⟨hcovers, hn⟩)⟩

end Parts

namespace Store

variable {E V S : Type*} {shape : Shape E} {store : Store shape S} {cut : Cutting shape V}
variable {newStart newEnd : Nat} {m : AList fun _ : Nat => E} {s : S} {e : E}

/-- A round does nothing, or puts the pieces in the place of the extent. -/
theorem fracture_eq (s : S) (k : Nat) :
    store.fracture cut newStart newEnd s k = match (store.extents s).lookup k with
      | none => s
      | some e =>
        if shape.stop e ≤ newStart ∨ newEnd ≤ shape.start e then s
        else (pieces cut newStart newEnd e).foldl store.put (store.remove s k e) := by
  unfold fracture
  cases (store.extents s).lookup k with
  | none => rfl
  | some e =>
    dsimp only
    split
    · rfl
    · unfold pieces
      split <;> split <;> rfl

variable (store) in
theorem foldl_put_spec {l : List E} (hl : l.Pairwise fun a b => shape.start a ≠ shape.start b) :
    (∀ k x, (store.extents (l.foldl store.put s)).lookup k = some x ↔ x ∈ l ∧ shape.start x = k ∨
        (∀ y ∈ l, shape.start y ≠ k) ∧ (store.extents s).lookup k = some x) ∧
      ((∀ y ∈ l, (store.extents s).lookup (shape.start y) = none) → store.InStep s →
        store.InStep (l.foldl store.put s)) := by
  induction l generalizing s with
  | nil => simp
  | cons y l ih =>
    rw [List.pairwise_cons] at hl
    obtain ⟨hlookup, hinStep⟩ := ih hl.2 (s := store.put s y)
    refine ⟨fun k x => ?_, fun hfree hs => ?_⟩
    · rw [List.foldl_cons, hlookup, store.extents_put]
      by_cases hk : shape.start y = k
      · subst hk
        have hother : ∀ z ∈ l, shape.start z ≠ shape.start y := fun z hz => (hl.1 z hz).symm
        rw [AList.lookup_insert]
        constructor
        · rintro (⟨hx, heq⟩ | ⟨-, heq⟩)
          · exact .inl ⟨List.mem_cons_of_mem _ hx, heq⟩
          · cases heq
            exact .inl ⟨List.mem_cons_self, rfl⟩
        · rintro (⟨hx, heq⟩ | ⟨hnot, -⟩)
          · rcases List.mem_cons.mp hx with rfl | hx
            · exact .inr ⟨hother, rfl⟩
            · exact .inl ⟨hx, heq⟩
          · exact absurd rfl (hnot y List.mem_cons_self)
      · rw [AList.lookup_insert_ne (Ne.symm hk)]
        simp only [List.mem_cons, forall_eq_or_imp, ne_eq, hk, not_false_eq_true, true_and]
        refine or_congr_left ⟨fun h => ⟨.inr h.1, h.2⟩, fun h => ⟨h.1.resolve_left ?_, h.2⟩⟩
        rintro rfl
        exact hk h.2
    · refine hinStep (fun z hz => ?_) (store.inStep_put hs (hfree y List.mem_cons_self))
      rw [store.extents_put, AList.lookup_insert_ne (hl.1 z hz).symm]
      exact hfree z (List.mem_cons_of_mem _ hz)

variable (store cut) in
/-- The map while the keys in `left` are still to be visited: these extents are whole, of
the others the parts are left. -/
def Visiting (newStart newEnd : Nat) (m : AList fun _ : Nat => E) (left : List Nat) (s : S) :
    Prop :=
  ∀ k x, (store.extents s).lookup k = some x ↔
    ∃ e, m.lookup (shape.start e) = some e ∧ shape.start x = k ∧
      x ∈ if shape.start e ∈ left then [e] else parts cut newStart newEnd e

/-- One round of the loop. -/
theorem Visiting.fracture (hm : Loose shape m) {k : Nat} {left : List Nat} (hk : k ∉ left)
    (he : m.lookup k = some e) (hs : store.Visiting cut newStart newEnd m (k :: left) s) :
    store.Visiting cut newStart newEnd m left (store.fracture cut newStart newEnd s k) ∧
      (store.InStep s → store.InStep (store.fracture cut newStart newEnd s k)) := by
  have hkey := hm.keyed he
  have hown : ∀ {e'}, m.lookup (shape.start e') = some e' → shape.start e' = k → e' = e := by
    intro e' he' heq
    rw [heq, he] at he'
    exact (Option.some.inj he').symm
  have hlookup : (store.extents s).lookup k = some e :=
    (hs k e).mpr ⟨e, hm.lookup_start he, hkey, by simp [hkey]⟩
  rw [fracture_eq, hlookup]
  dsimp only
  split
  · rename_i hout
    refine ⟨fun k' x => ?_, id⟩
    rw [hs k' x]
    refine exists_congr fun e' => and_congr_right fun he' => and_congr_right fun _ => ?_
    by_cases heq : shape.start e' = k
    · obtain rfl := hown he' heq
      rw [parts, if_pos hout]
      simp
    · simp [heq]
  · rename_i hoverlap
    have hparts : parts cut newStart newEnd e = pieces cut newStart newEnd e := if_neg hoverlap
    have hpiece : ∀ y ∈ pieces cut newStart newEnd e, shape.start y = k ∨
        shape.start y = newEnd ∧ k < newEnd ∧ newEnd < shape.stop e := by
      intro y hy
      rw [← hparts] at hy
      have hbounds := (bounds_of_mem_parts (hm.valid he) hy).2.2.2
      rwa [hkey] at hbounds
    have hdistinct : (pieces cut newStart newEnd e).Pairwise
        fun a b => shape.start a ≠ shape.start b := by
      unfold pieces
      split <;> split <;> simp [cut.head_start, cut.tail_start]
      omega
    -- no part of another extent starts where a piece does
    have hfree : ∀ {e' x}, m.lookup (shape.start e') = some e' → shape.start e' ≠ k →
        (x ∈ if shape.start e' ∈ left then [e'] else parts cut newStart newEnd e') →
        shape.start x ≠ k ∧ ∀ y ∈ pieces cut newStart newEnd e, shape.start y ≠ shape.start x := by
      intro e' x he' hne hx
      have hapart := hm.apart he he' (Ne.symm hne)
      have hstart : shape.start x = shape.start e' ∨
          shape.start x = newEnd ∧ shape.start e' < newEnd ∧ newEnd < shape.stop e' := by
        split at hx
        · exact .inl (by rw [List.mem_singleton.mp hx])
        · exact (bounds_of_mem_parts (hm.valid he') hx).2.2.2
      simp only [Shape.Apart, Shape.stop] at hapart hstart
      refine ⟨by omega, fun y hy => ?_⟩
      have hy := hpiece y hy
      simp only [Shape.stop] at hy
      omega
    obtain ⟨hput, hinStep⟩ := foldl_put_spec store (s := store.remove s k e) hdistinct
    rw [store.extents_remove] at hput hinStep
    have herased : ∀ {k' x}, ((store.extents s).erase k).lookup k' = some x → ∃ e',
        m.lookup (shape.start e') = some e' ∧ shape.start e' ≠ k ∧ shape.start x = k' ∧
          x ∈ if shape.start e' ∈ left then [e'] else parts cut newStart newEnd e' := by
      intro k' x hx
      obtain ⟨hne, hold⟩ := FiniteMap.lookup_erase_eq_some hx
      obtain ⟨e', he', hstart, hpart⟩ := (hs k' x).mp hold
      have hne' : shape.start e' ≠ k := by
        intro heq
        rw [heq, if_pos List.mem_cons_self, List.mem_singleton] at hpart
        exact hne (by rw [← hstart, hpart, heq])
      exact ⟨e', he', hne', hstart, by simpa [hne'] using hpart⟩
    refine ⟨fun k' x => ?_, fun hs' => hinStep (fun y hy => ?_)
      (store.inStep_remove hs' hlookup)⟩
    · rw [hput]
      constructor
      · rintro (⟨hx, rfl⟩ | ⟨-, hx⟩)
        · exact ⟨e, hm.lookup_start he, rfl, by simpa [hkey, hk, hparts] using hx⟩
        · obtain ⟨e', he', -, heq, hx⟩ := herased hx
          exact ⟨e', he', heq, hx⟩
      · rintro ⟨e', he', rfl, hx⟩
        by_cases heq : shape.start e' = k
        · obtain rfl := hown he' heq
          exact .inl ⟨by simpa [heq, hk, hparts] using hx, rfl⟩
        · obtain ⟨hne, hclear⟩ := hfree he' heq hx
          refine .inr ⟨hclear, ?_⟩
          rw [AList.lookup_erase_ne hne]
          exact (hs _ x).mpr ⟨e', he', rfl, by simpa [heq] using hx⟩
    · rw [Option.eq_none_iff_forall_ne_some]
      intro x hx
      obtain ⟨e', he', hne, heq, hx⟩ := herased hx
      exact (hfree he' hne hx).2 y hy heq.symm

/-- The whole loop. -/
theorem Visiting.foldl_fracture (hm : Loose shape m) (keys : List Nat) (hnodup : keys.Nodup)
    (hkeys : ∀ k ∈ keys, ∃ e, m.lookup k = some e)
    (hs : store.Visiting cut newStart newEnd m keys s) :
    store.Visiting cut newStart newEnd m []
        (keys.foldl (store.fracture cut newStart newEnd) s) ∧
      (store.InStep s → store.InStep (keys.foldl (store.fracture cut newStart newEnd) s)) := by
  induction keys generalizing s with
  | nil => exact ⟨hs, id⟩
  | cons k keys ih =>
    rw [List.nodup_cons] at hnodup
    rw [List.forall_mem_cons] at hkeys
    obtain ⟨e, he⟩ := hkeys.1
    obtain ⟨hnext, hstep⟩ := hs.fracture hm hnodup.1 he
    obtain ⟨hdone, hsteps⟩ := ih hnodup.2 hkeys.2 hnext
    exact ⟨hdone, hsteps ∘ hstep⟩

variable (store cut) in
/-- The loop over all keys the map had. -/
def fractured (newStart newEnd : Nat) (s : S) : S :=
  (store.extents s).keys.foldl (store.fracture cut newStart newEnd) s

theorem mem_keys_iff (k : Nat) : k ∈ m.keys ↔ ∃ e, m.lookup k = some e := by
  rw [← AList.mem_keys, ← AList.lookup_isSome, Option.isSome_iff_exists]

theorem visiting_keys (hm : Loose shape (store.extents s)) :
    store.Visiting cut newStart newEnd (store.extents s) (store.extents s).keys s := by
  intro k x
  constructor
  · intro hx
    have hstart := hm.lookup_start hx
    exact ⟨x, hstart, hm.keyed hx, by simp [(mem_keys_iff _).mpr ⟨x, hstart⟩]⟩
  · rintro ⟨e, he, rfl, hx⟩
    rw [if_pos ((mem_keys_iff _).mpr ⟨e, he⟩), List.mem_singleton] at hx
    rwa [hx]

/-- After the loop the map holds the parts of its extents. -/
theorem fractured_spec (cut : Cutting shape V) (newStart newEnd : Nat)
    (hm : Loose shape (store.extents s)) :
    (∀ k x, (store.extents (store.fractured cut newStart newEnd s)).lookup k = some x ↔
      ∃ e, (store.extents s).lookup (shape.start e) = some e ∧ shape.start x = k ∧
        x ∈ parts cut newStart newEnd e) ∧
      (store.InStep s → store.InStep (store.fractured cut newStart newEnd s)) := by
  obtain ⟨hdone, hinStep⟩ := (visiting_keys hm).foldl_fracture hm _ (store.extents s).nodupKeys
    fun k hk => (mem_keys_iff k).mp hk
  refine ⟨fun k x => (hdone k x).trans ?_, hinStep⟩
  simp

variable (cut) (newStart) in
theorem loose_fractured (hm : Loose shape (store.extents s)) (hrange : newStart < newEnd) :
    Loose shape (store.extents (store.fractured cut newStart newEnd s)) := by
  obtain ⟨hlookup, -⟩ := fractured_spec cut newStart newEnd hm
  refine ⟨?_, ?_, ?_⟩
  · intro k x hx
    obtain ⟨e, -, hstart, -⟩ := (hlookup k x).mp hx
    exact hstart
  · intro k x hx
    obtain ⟨e, he, -, hx⟩ := (hlookup k x).mp hx
    exact (valid_of_mem_parts (hm.valid he) hx).1
  · intro k k' x x' hx hx' hne
    obtain ⟨e, he, hkey, hpart⟩ := (hlookup k x).mp hx
    obtain ⟨e', he', hkey', hpart'⟩ := (hlookup k' x').mp hx'
    have hbounds := bounds_of_mem_parts (hm.valid he) hpart
    have hbounds' := bounds_of_mem_parts (hm.valid he') hpart'
    simp only [Shape.Apart]
    by_cases hstart : shape.start e = shape.start e'
    · obtain rfl : e = e' := Option.some.inj (he.symm.trans (hstart ▸ he'))
      omega
    · have hapart := hm.apart he he' hstart
      simp only [Shape.Apart] at hapart
      omega

/-- What a lookup finds after the loop is a part of what it found before. -/
theorem find_fractured (hm : Loose shape (store.extents s)) (hrange : newStart < newEnd)
    {n : Nat} {x : E} :
    find shape (store.extents (store.fractured cut newStart newEnd s)) n = some x ↔
      ∃ e, find shape (store.extents s) n = some e ∧ x ∈ parts cut newStart newEnd e ∧
        shape.Found x n := by
  obtain ⟨hlookup, -⟩ := fractured_spec cut newStart newEnd hm
  rw [(loose_fractured cut newStart hm hrange).find_eq_some_iff, hlookup]
  constructor
  · rintro ⟨⟨e, he, -, hx⟩, hfound⟩
    have hcame := (found_of_part (hm.valid he) hx hrange hfound).1
    exact ⟨e, hm.find_eq_some_iff.mpr ⟨he, hcame⟩, hx, hfound⟩
  · rintro ⟨e, he, hx, hfound⟩
    exact ⟨⟨e, (hm.find_eq_some_iff.mp he).1, rfl, hx⟩, hfound⟩

/-- Outside the range a lookup finds a part of the extent it found. -/
theorem find_fractured_cases (cut : Cutting shape V) (hm : Loose shape (store.extents s))
    (hrange : newStart < newEnd) {n : Nat} (hn : n < newStart ∨ newEnd ≤ n) :
    find shape (store.extents s) n = none ∧
        find shape (store.extents (store.fractured cut newStart newEnd s)) n = none ∨
      ∃ e x, find shape (store.extents s) n = some e ∧
        find shape (store.extents (store.fractured cut newStart newEnd s)) n = some x ∧
        cut.value x (n - shape.start x) = cut.value e (n - shape.start e) ∧
        shape.start x = if shape.start e < newEnd ∧ newEnd ≤ n then newEnd else shape.start e := by
  cases hfind : find shape (store.extents s) n with
  | none =>
    refine .inl ⟨rfl, Option.eq_none_iff_forall_ne_some.mpr fun x hx => ?_⟩
    obtain ⟨e, he, -⟩ := (find_fractured hm hrange).mp hx
    simp [hfind] at he
  | some e =>
    obtain ⟨he, hfound⟩ := hm.find_eq_some_iff.mp hfind
    obtain ⟨x, hx, hfound'⟩ := exists_part cut (hm.valid he) hfound hn
    obtain ⟨-, hvalue, hstart⟩ := found_of_part (hm.valid he) hx hrange hfound'
    exact .inr ⟨e, x, rfl, (find_fractured hm hrange).mpr ⟨e, hfind, hx, hfound'⟩, hvalue, hstart⟩

theorem get_fractured (cut : Cutting shape V) (hm : Loose shape (store.extents s))
    (hrange : newStart < newEnd) {n : Nat} (hn : n < newStart ∨ newEnd ≤ n) :
    get cut (store.extents (store.fractured cut newStart newEnd s)) n =
      get cut (store.extents s) n := by
  rcases find_fractured_cases cut hm hrange hn with ⟨hold, hnew⟩ | ⟨e, x, hold, hnew, hvalue, -⟩
  · rw [get, get, hold, hnew]
  · rw [get, get, hold, hnew, Option.map_some, Option.map_some, hvalue]

/-- What the loop leaves is apart from the new range. -/
theorem apart_fractured (hm : Loose shape (store.extents s)) {k : Nat} {x : E}
    (hx : (store.extents (store.fractured cut (shape.start e) (shape.stop e) s)).lookup k = some x)
    :
    shape.Apart x e := by
  obtain ⟨e', he', -, hpart⟩ := ((fractured_spec cut _ _ hm).1 k x).mp hx
  exact (bounds_of_mem_parts (hm.valid he') hpart).2.2.1

section Override

variable (cut) (hm : Loose shape (store.extents s)) (hvalid : shape.Valid e)
include hm hvalid

/-- An override keeps the extents disjoint. -/
theorem loose_override : Loose shape (store.extents (store.override cut s e)) := by
  have hrange : shape.start e < shape.stop e := (shape.covers_start hvalid).2
  rw [override, store.extents_put]
  exact (loose_fractured cut _ hm hrange).insert hvalid fun k x hx => apart_fractured hm hx

theorem find_override (n : Nat) :
    find shape (store.extents (store.override cut s e)) n = if shape.Covers e n then some e
      else find shape (store.extents (store.fractured cut (shape.start e) (shape.stop e) s)) n := by
  have hrange : shape.start e < shape.stop e := (shape.covers_start hvalid).2
  rw [override, store.extents_put]
  exact (loose_fractured cut _ hm hrange).find_insert hvalid (fun k x hx => apart_fractured hm hx) n

/-- An override sets the values of the new extent and keeps all others. -/
theorem get_override (n : Nat) :
    get cut (store.extents (store.override cut s e)) n =
      if shape.Covers e n then some (cut.value e (n - shape.start e))
      else get cut (store.extents s) n := by
  rw [get, find_override cut hm hvalid]
  split
  · rfl
  · rename_i hcovers
    refine get_fractured cut hm (shape.covers_start hvalid).2 ?_
    simp only [Shape.Covers] at hcovers
    omega

/-- An override moves the first number of an extent to the end of the new one
where the new one reaches into it. -/
theorem headOf_override {n : Nat} (hn : ¬ shape.Covers e n) :
    headOf shape (store.extents (store.override cut s e)) n =
      (headOf shape (store.extents s) n).map fun k =>
        if k < shape.stop e ∧ shape.stop e ≤ n then shape.stop e else k := by
  rw [headOf, find_override cut hm hvalid, if_neg hn]
  have hout : n < shape.start e ∨ shape.stop e ≤ n := by
    simp only [Shape.Covers] at hn
    omega
  rcases find_fractured_cases cut hm (shape.covers_start hvalid).2 hout with
    ⟨hold, hnew⟩ | ⟨e', x, hold, hnew, -, hstart⟩
  · rw [headOf, hold, hnew, Option.map_none, Option.map_none]
  · rw [headOf, hold, hnew, Option.map_some, Option.map_some, Option.map_some, hstart]

/-- The empty extents of an overridden map were there before. -/
theorem lookup_override_of_empty {k : Nat} {x : E} (hempty : ¬ 0 < shape.count x)
    (hx : (store.extents (store.override cut s e)).lookup k = some x) :
    (store.extents s).lookup k = some x := by
  rw [override, store.extents_put] at hx
  rcases FiniteMap.lookup_insert_eq_some hx with ⟨-, rfl⟩ | hold
  · exact absurd (shape.count_pos hvalid) hempty
  · obtain ⟨e', he', rfl, hpart⟩ := ((fractured_spec cut _ _ hm).1 k x).mp hold
    rwa [(valid_of_mem_parts (hm.valid he') hpart).2.2 hempty]

end Override

section Sound

variable (cut) (hs : store.Sound s)
include hs

theorem Sound.fractured (hrange : newStart < newEnd) :
    store.Sound (store.fractured cut newStart newEnd s) := by
  obtain ⟨hlookup, hinStep⟩ := fractured_spec cut newStart newEnd hs.wf.loose
  refine ⟨(loose_fractured cut newStart hs.wf.loose hrange).wellFormed fun k x hx => ?_,
    hinStep hs.inStep⟩
  obtain ⟨e, he, -, hpart⟩ := (hlookup k x).mp hx
  exact (valid_of_mem_parts (hs.wf.loose.valid he) hpart).2.1 (shape.count_pos (hs.wf.valid he))

/-- The loop empties the range and nothing else. -/
theorem Sound.get_fractured (hrange : newStart < newEnd) (n : Nat) :
    get cut (store.extents (store.fractured cut newStart newEnd s)) n =
      if newStart ≤ n ∧ n < newEnd then none else get cut (store.extents s) n := by
  split
  · rename_i hn
    rw [get, Option.map_eq_none_iff, Option.eq_none_iff_forall_ne_some]
    intro x hx
    obtain ⟨hlookup, hcovers⟩ := (hs.fractured cut hrange).wf.find_eq_some_iff.mp hx
    obtain ⟨e, he, -, hpart⟩ := ((fractured_spec cut _ _ hs.wf.loose).1 _ x).mp hlookup
    have hbounds := (bounds_of_mem_parts (hs.wf.loose.valid he) hpart).2.2.1
    simp only [Shape.Covers] at hcovers
    omega
  · exact Store.get_fractured cut hs.wf.loose hrange (by omega)

theorem Sound.override (hvalid : shape.Valid e) :
    store.Sound (store.override cut s e) := by
  have hfractured := hs.fractured cut (shape.covers_start hvalid).2
  have hapart : ∀ k x, (store.extents (store.fractured cut (shape.start e) (shape.stop e)
      s)).lookup k = some x → shape.Apart x e := fun k x hx => apart_fractured hs.wf.loose hx
  refine ⟨?_, store.inStep_put hfractured.inStep (hfractured.wf.start_free hvalid hapart)⟩
  rw [Store.override, store.extents_put]
  exact hfractured.wf.insert hvalid hapart

end Sound

end Store

end ExtentMap
