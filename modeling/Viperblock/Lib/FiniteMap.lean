import Mathlib.Data.List.AList
import Mathlib.Data.List.Sort

/-!
# Counting, adding up and sorting the values of a finite map

Association lists with unique keys model hash maps.  Besides the library's
lookup lemmas, a reference count needs to know how many values satisfy a test
and how an insertion or a deletion changes that number, and an account what the
values add up to; and a map over natural numbers is walked in the order of its
keys.
-/

namespace FiniteMap

section Counting

variable {Key Value : Type*} [DecidableEq Key]

theorem mem_entries_iff {m : AList (fun _ : Key => Value)} {k : Key} {v : Value} :
    (⟨k, v⟩ : Sigma fun _ : Key => Value) ∈ m.entries ↔ m.lookup k = some v :=
  AList.mem_lookup_iff.symm

/-- The entries of a map with one bound key pulled to the front. -/
theorem entries_perm_of_lookup {m : AList (fun _ : Key => Value)} {k : Key} {v : Value}
    (hlookup : m.lookup k = some v) :
    List.Perm m.entries (⟨k, v⟩ :: (m.erase k).entries) := by
  have hkey : k ∈ m.entries.keys := by
    have hmem : (⟨k, v⟩ : Sigma fun _ : Key => Value) ∈ m.entries :=
      mem_entries_iff.mpr hlookup
    exact List.mem_keys_of_mem hmem
  obtain ⟨w, before, after, hbefore, hentries, herase⟩ :=
    List.exists_of_kerase hkey
  have hw : m.lookup k = some w := by
    apply mem_entries_iff.mp
    rw [hentries]
    simp
  have hvw : v = w :=
    Option.some.inj (hlookup.symm.trans hw)
  subst hvw
  have hrest : (m.erase k).entries = before ++ after := herase
  rw [hrest, hentries]
  exact List.perm_middle

/-- How many values of a map satisfy a test. -/
def countValues
    (p : Value → Bool)
    (m : AList (fun _ : Key => Value)) : Nat :=
  m.entries.countP fun entry => p entry.2

section

variable {m : AList (fun _ : Key => Value)} {p : Value → Bool}

theorem countValues_of_lookup {k : Key} {v : Value} (hlookup : m.lookup k = some v) :
    countValues p m = countValues p (m.erase k) + if p v then 1 else 0 := by
  unfold countValues
  rw [(entries_perm_of_lookup hlookup).countP_eq]
  simp [List.countP_cons]

theorem countValues_insert {k : Key} {v : Value} (hfresh : m.lookup k = none) :
    countValues p (m.insert k v) = countValues p m + if p v then 1 else 0 := by
  have hnot : k ∉ m := AList.lookup_eq_none.mp hfresh
  unfold countValues
  rw [AList.entries_insert_of_notMem hnot]
  simp [List.countP_cons]

/-- A test is met by some value exactly when its count is positive. -/
theorem countValues_pos_iff :
    0 < countValues p m ↔ ∃ k v, m.lookup k = some v ∧ p v = true := by
  unfold countValues
  rw [List.countP_pos_iff]
  constructor
  · rintro ⟨⟨k, v⟩, hmem, hp⟩
    exact ⟨k, v, mem_entries_iff.mp hmem, hp⟩
  · rintro ⟨k, v, hlookup, hp⟩
    exact ⟨⟨k, v⟩, mem_entries_iff.mpr hlookup, hp⟩

end

end Counting

section Adding

variable {Key Value : Type*} [DecidableEq Key] {m : AList fun _ : Key => Value}

/-- What the values of a map add up to. -/
def sumValues
    (f : Value → Nat)
    (m : AList fun _ : Key => Value) : Nat :=
  m.entries.foldr (fun entry total => f entry.2 + total) 0

theorem sumValues_of_lookup {f : Value → Nat} {k : Key} {v : Value}
    (hlookup : m.lookup k = some v) :
    sumValues f m = f v + sumValues f (m.erase k) := by
  refine (entries_perm_of_lookup hlookup).foldr_eq' ?_ 0
  exact fun a _ b _ total => Nat.add_left_comm (f b.2) (f a.2) total

theorem sumValues_insert (f : Value → Nat) (m : AList fun _ : Key => Value) (k : Key) (v : Value) :
    sumValues f (m.insert k v) = f v + sumValues f (m.erase k) := by
  rfl

theorem sumValues_insert_new (f : Value → Nat) {k : Key} (v : Value) (hfresh : m.lookup k = none) :
    sumValues f (m.insert k v) = f v + sumValues f m := by
  unfold sumValues
  rw [AList.entries_insert_of_notMem (AList.lookup_eq_none.mp hfresh), List.foldr_cons]

end Adding

section Sorting

variable {Value : Type*} {number : Value → Nat} {m : AList fun _ : Nat => Value}

/-- The values of a map in the order of their keys. -/
def sortedValues (m : AList fun _ : Nat => Value) : List Value :=
  (m.keys.insertionSort (· ≤ ·)).filterMap fun k => m.lookup k

theorem mem_sortedValues_iff {v : Value} :
    v ∈ sortedValues m ↔ ∃ k, m.lookup k = some v := by
  unfold sortedValues
  simp only [List.mem_filterMap, List.mem_insertionSort]
  constructor
  · rintro ⟨k, -, hk⟩
    exact ⟨k, hk⟩
  · rintro ⟨k, hk⟩
    refine ⟨k, ?_, hk⟩
    rw [← AList.mem_keys, ← AList.lookup_isSome, hk]
    rfl

theorem sortedValues_pairwise (hkeyed : ∀ {k v}, m.lookup k = some v → number v = k) :
    (sortedValues m).Pairwise fun a b => number a < number b := by
  have hsorted : (m.keys.insertionSort (· ≤ ·)).Pairwise (· ≤ ·) :=
    List.pairwise_insertionSort _ _
  have hnodup : (m.keys.insertionSort (· ≤ ·)).Nodup :=
    (List.perm_insertionSort _ _).nodup_iff.mpr m.keys_nodup
  unfold sortedValues
  rw [List.pairwise_filterMap]
  refine (hsorted.and hnodup).imp ?_
  intro k k' hkk' a ha b hb
  rw [hkeyed ha, hkeyed hb]
  omega

end Sorting

section Updates

variable {Key Value : Type*} [DecidableEq Key] {m : AList fun _ : Key => Value}

theorem lookup_insert_eq_some {k k' : Key} {v v' : Value} (h : (m.insert k v).lookup k' = some v') :
    k' = k ∧ v' = v ∨ m.lookup k' = some v' := by
  by_cases hkey : k' = k
  · subst hkey
    rw [AList.lookup_insert] at h
    exact .inl ⟨rfl, (Option.some.inj h).symm⟩
  · rw [AList.lookup_insert_ne hkey] at h
    exact .inr h

theorem lookup_erase_eq_some {k k' : Key} {v : Value} (h : (m.erase k).lookup k' = some v) :
    k' ≠ k ∧ m.lookup k' = some v := by
  by_cases hkey : k' = k
  · subst hkey
    rw [AList.lookup_erase] at h
    cases h
  · rw [AList.lookup_erase_ne hkey] at h
    exact ⟨hkey, h⟩

end Updates

end FiniteMap
