import Mathlib.Data.List.Find
import Viperblock.Lib.ExtentMap

/-!
# Extents whose ends are cut off

A program that keeps the bounds of its extents in machine words may get another end of an
extent than the one behind its last number.  The operations of an extent map are written
here with the ends the program computes.  They are those of the map as long as these ends
are right for all its extents.
-/

namespace ExtentMap

section Find

variable {E : Type*} {shape : Shape E} {m : AList fun _ : Nat => E} {stop : E → Nat}

/-- The extent covering `n`, as far as the computed ends tell. -/
def findBy (shape : Shape E) (stop : E → Nat) (m : AList fun _ : Nat => E) (n : Nat) :
    Option E :=
  match m.lookup n with
  | some e => some e
  | none =>
    (m.entries.find? fun entry =>
      decide (shape.start entry.2 < n ∧ n < stop entry.2)).map Sigma.snd

theorem findBy_eq (hstop : ∀ k e, m.lookup k = some e → stop e = shape.stop e) (n : Nat) :
    findBy shape stop m n = find shape m n := by
  have hscan : (m.entries.find? fun entry =>
      decide (shape.start entry.2 < n ∧ n < stop entry.2)) = m.entries.find? fun entry =>
        decide (shape.start entry.2 < n ∧ n < shape.stop entry.2) :=
    List.find?_congr fun entry hentry => by
      rw [hstop _ _ (FiniteMap.mem_entries_iff.mp hentry)]
  cases hlookup : m.lookup n <;> simp only [findBy, find, hlookup, hscan]

/-- The ends are below a limit if no extent covers the last number in front of it. -/
theorem WellFormed.stop_lt_iff {V : Type*} (hwf : WellFormed shape m) (cut : Cutting shape V)
    {limit : Nat} :
    (∀ k e, m.lookup k = some e → shape.stop e < limit) ↔
      ∀ n v, get cut m n = some v → n + 1 < limit := by
  constructor
  · intro hstop n v hget
    obtain ⟨e, he, hcovers, -⟩ := (hwf.get_eq_some_iff cut).mp hget
    exact Nat.lt_of_le_of_lt hcovers.2 (hstop _ e he)
  · intro hget k e he
    have hpos := shape.count_pos (hwf.valid he)
    have hlast : shape.Covers e (shape.stop e - 1) := by
      simp only [Shape.Covers, Shape.stop]
      omega
    have hlt := hget _ _ (hwf.get_of_covers cut he hlast)
    simp only [Shape.stop] at hlt ⊢
    omega

end Find

namespace Store

variable {E V S : Type*} {shape : Shape E} (store : Store shape S) (cut : Cutting shape V)

/-- One round of the fracturing loop with computed ends. -/
def fractureBy (stop : E → Nat) (newStart newEnd : Nat) (s : S) (k : Nat) : S :=
  match (store.extents s).lookup k with
  | none => s
  | some existing =>
    if stop existing ≤ newStart ∨ newEnd ≤ shape.start existing then s
    else
      let removed := store.remove s k existing
      let headed :=
        if shape.start existing < newStart then
          store.put removed (cut.head existing newStart)
        else removed
      if newEnd < stop existing then
        store.put headed (cut.tail existing newEnd)
      else headed

def overrideBy (stop : E → Nat) (s : S) (e : E) : S :=
  store.put
    ((store.extents s).keys.foldl (store.fractureBy cut stop (shape.start e) (stop e)) s) e

variable {store cut} {stop : E → Nat} {limit newStart newEnd : Nat}
variable {m : AList fun _ : Nat => E} {s : S} {e : E}

theorem foldl_fractureBy (hm : Loose shape m) (hstop : ∀ e, shape.stop e < limit →
      stop e = shape.stop e) (hbelow : ∀ k e, m.lookup k = some e → shape.stop e < limit)
    (keys : List Nat) (hnodup : keys.Nodup) (hkeys : ∀ k ∈ keys, ∃ e, m.lookup k = some e)
    (hs : store.Visiting cut newStart newEnd m keys s) :
    keys.foldl (store.fractureBy cut stop newStart newEnd) s =
      keys.foldl (store.fracture cut newStart newEnd) s := by
  induction keys generalizing s with
  | nil => rfl
  | cons k keys ih =>
    rw [List.nodup_cons] at hnodup
    rw [List.forall_mem_cons] at hkeys
    obtain ⟨e, he⟩ := hkeys.1
    -- the extent that the round meets is the one the map had under this key
    have hround : store.fractureBy cut stop newStart newEnd s k =
        store.fracture cut newStart newEnd s k := by
      have hlookup : (store.extents s).lookup k = some e :=
        (hs k e).mpr ⟨e, hm.lookup_start he, hm.keyed he, by simp [hm.keyed he]⟩
      simp only [fractureBy, fracture, hlookup, hstop e (hbelow k e he)]
    rw [List.foldl_cons, List.foldl_cons, hround]
    exact ih hnodup.2 hkeys.2 (hs.fracture hm hnodup.1 he).1

/-- While all ends are below the limit, computed ends make no difference. -/
theorem overrideBy_eq (hm : Loose shape (store.extents s))
    (hstop : ∀ e, shape.stop e < limit → stop e = shape.stop e)
    (hbelow : ∀ k e, (store.extents s).lookup k = some e → shape.stop e < limit)
    (he : shape.stop e < limit) :
    store.overrideBy cut stop s e = store.override cut s e := by
  rw [overrideBy, override, hstop e he]
  exact congrArg (store.put · e) (foldl_fractureBy hm hstop hbelow _ (store.extents s).nodupKeys
    (fun k hk => (mem_keys_iff k).mp hk) (visiting_keys hm))

/-- An override keeps the ends below the limit. -/
theorem stop_override_lt (hm : WellFormed shape (store.extents s)) (hvalid : shape.Valid e)
    (hbelow : ∀ k e, (store.extents s).lookup k = some e → shape.stop e < limit)
    (he : shape.stop e < limit) {k : Nat} {x : E}
    (hx : (store.extents (store.override cut s e)).lookup k = some x) :
    shape.stop x < limit := by
  rw [override, store.extents_put] at hx
  rcases FiniteMap.lookup_insert_eq_some hx with ⟨-, rfl⟩ | hold
  · exact he
  · obtain ⟨e', he', -, hpart⟩ := ((fractured_spec cut _ _ hm.loose).1 k x).mp hold
    exact ((bounds_of_mem_parts (hm.loose.valid he') hpart).2.1).trans_lt (hbelow _ _ he')

end Store

end ExtentMap
