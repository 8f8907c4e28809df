import Mathlib.Data.List.SplitBy
import Mathlib.Data.List.Pairwise

/-!
# Runs of consecutive elements

A list whose elements carry strictly increasing numbers is cut into maximal
runs by a relation that holds only between neighbours with consecutive
numbers.  Inside a run the numbers count up from the first element, and the
runs themselves are ordered.
-/

namespace ConsecutiveRuns

section Runs

variable {α : Type*} {number : α → Nat}

/-- Numbers count up along a chain of consecutive elements. -/
theorem number_of_getElem? {first : α} {rest : List α}
    (hchain : (first :: rest).IsChain fun a b => number b = number a + 1) {i : Nat} {x : α}
    (hx : (first :: rest)[i]? = some x) :
    number x = number first + i := by
  induction rest generalizing first i with
  | nil =>
    cases i with
    | zero => simp_all
    | succ i => simp at hx
  | cons second rest ih =>
    rw [List.isChain_cons_cons] at hchain
    cases i with
    | zero => simp_all
    | succ i =>
      have hrest := ih hchain.2 hx
      omega

/-- A number inside the range of a run belongs to one of its elements. -/
theorem exists_mem_of_number_lt {first : α} {rest : List α}
    (hchain : (first :: rest).IsChain fun a b => number b = number a + 1) {n : Nat}
    (hlow : number first ≤ n) (hhigh : n < number first + (rest.length + 1)) :
    ∃ x, (first :: rest)[n - number first]? = some x ∧ number x = n := by
  have hlt : n - number first < (first :: rest).length := by
    simp only [List.length_cons]
    omega
  refine ⟨_, List.getElem?_eq_getElem hlt, ?_⟩
  have hnumber := number_of_getElem? hchain (List.getElem?_eq_getElem hlt)
  omega

variable {r : α → α → Bool} {l : List α}

/-- Every run is a chain of consecutive elements. -/
theorem isChain_of_mem_runs (number : α → Nat) (hr : ∀ a b, r a b = true → number b = number a + 1)
    {run : List α} (hrun : run ∈ l.splitBy r) :
    run.IsChain fun a b => number b = number a + 1 := by
  have hchain := List.isChain_of_mem_splitBy hrun
  exact hchain.imp fun a b hab => hr a b hab

/-- The runs of a sorted list are ordered. -/
theorem runs_ordered (hsorted : l.Pairwise fun a b => number a < number b) :
    (l.splitBy r).Pairwise fun run run' =>
      ∀ x ∈ run, ∀ y ∈ run', number x < number y := by
  rw [← List.flatten_splitBy r l, List.pairwise_flatten] at hsorted
  exact hsorted.2

/-- The elements of the runs are the elements of the list. -/
theorem exists_run_mem_iff {x : α} : (∃ run ∈ l.splitBy r, x ∈ run) ↔ x ∈ l := by
  rw [← List.mem_flatten, List.flatten_splitBy]

/-- Two runs with an element of the same number are one run. -/
theorem run_eq_of_number_eq (hsorted : l.Pairwise fun a b => number a < number b)
    {run run' : List α} {x y : α} (hrun : run ∈ l.splitBy r) (hrun' : run' ∈ l.splitBy r)
    (hx : x ∈ run) (hy : y ∈ run') (hnumber : number x = number y) :
    run = run' := by
  have hapart : (l.splitBy r).Pairwise fun run run' =>
      ∀ x ∈ run, ∀ y ∈ run', number x ≠ number y :=
    (runs_ordered hsorted).imp fun hlt x hx y hy => Nat.ne_of_lt (hlt x hx y hy)
  have hsymm : Std.Symm fun run run' : List α =>
      ∀ x ∈ run, ∀ y ∈ run', number x ≠ number y :=
    ⟨fun _ _ h x hx y hy heq => h y hy x hx heq.symm⟩
  by_contra hne
  exact hapart.forall hrun hrun' hne x hx y hy hnumber

/-- Runs are maximal: the successor of an element is in the element's run. -/
theorem mem_run_of_succ (hsorted : l.Pairwise fun a b => number a < number b)
    (hr : ∀ a b, number b = number a + 1 → r a b = true) {run : List α} {x y : α}
    (hrun : run ∈ l.splitBy r) (hx : x ∈ run) (hy : y ∈ l) (hsucc : number y = number x + 1) :
    y ∈ run := by
  have hgap := List.isChain_getLast_head_splitBy r l
  have hordered := hsorted
  rw [← List.flatten_splitBy r l] at hordered hy
  generalize l.splitBy r = runs at hrun hgap hordered hy
  induction runs with
  | nil => simp at hrun
  | cons first later ih =>
    rw [List.flatten_cons, List.pairwise_append] at hordered
    obtain ⟨hfirst, hlater, hacross⟩ := hordered
    rw [List.flatten_cons, List.mem_append] at hy
    rcases List.mem_cons.mp hrun with rfl | hrun
    · rcases hy with hy | hy
      · exact hy
      · -- then the two ends of neighbouring runs would be consecutive
        exfalso
        cases later with
        | nil => simp at hy
        | cons next rest =>
          rw [List.isChain_cons_cons] at hgap
          obtain ⟨⟨hlast, hhead, hcut⟩, -⟩ := hgap
          have hlow : number x ≤ number (run.getLast hlast) :=
            (hfirst.imp le_of_lt).rel_getLast_of_rel_getLast_getLast hx (le_refl _)
          have hhigh : number (next.head hhead) ≤ number y := by
            rw [List.flatten_cons] at hy hlater
            rw [← List.cons_head_tail hhead, List.cons_append, List.pairwise_cons] at hlater
            rw [← List.cons_head_tail hhead, List.cons_append] at hy
            rcases List.mem_cons.mp hy with rfl | hy
            · exact le_refl _
            · exact le_of_lt (hlater.1 y hy)
          have hbetween := hacross (run.getLast hlast) (List.getLast_mem hlast)
            (next.head hhead) (by
              exact List.mem_append_left _ (List.head_mem hhead))
          have hcons := hr (run.getLast hlast) (next.head hhead) (by omega)
          rw [hcut] at hcons
          cases hcons
    · have hback : y ∈ later.flatten := by
        rcases hy with hy | hy
        · have hlt := hacross y hy x (List.mem_flatten.mpr ⟨run, hrun, hx⟩)
          omega
        · exact hy
      exact ih hrun (List.isChain_of_isChain_cons hgap) hlater hback

end Runs

section Bounded

variable {α : Type*}

/-- Cut a list into pieces of at most `limit` elements. -/
def pieces (limit : Nat) : Nat → List α → List (List α)
  | 0, _ => []
  | fuel + 1, l =>
    if l.isEmpty then [] else l.take limit :: pieces limit fuel (l.drop limit)

theorem flatten_pieces {limit fuel : Nat} {l : List α} (hlimit : 0 < limit)
    (hfuel : l.length ≤ fuel) : (pieces limit fuel l).flatten = l := by
  induction fuel generalizing l with
  | zero =>
    have hempty : l = [] := List.length_eq_zero_iff.mp (by omega)
    simp [hempty, pieces]
  | succ fuel ih =>
    simp only [pieces]
    split
    · rename_i hempty
      simp [List.isEmpty_iff.mp hempty]
    · rename_i hsome
      rw [List.flatten_cons, ih (by simp only [List.length_drop]; omega), List.take_append_drop]

theorem mem_pieces {limit fuel : Nat} {l piece : List α} (hlimit : 0 < limit)
    (hpiece : piece ∈ pieces limit fuel l) :
    piece ≠ [] ∧ piece.length ≤ limit ∧ piece <:+: l := by
  induction fuel generalizing l with
  | zero => simp [pieces] at hpiece
  | succ fuel ih =>
    simp only [pieces] at hpiece
    split at hpiece
    · simp at hpiece
    · rename_i hsome
      rcases List.mem_cons.mp hpiece with rfl | hrest
      · refine ⟨?_, List.length_take_le _ _, (List.take_prefix _ _).isInfix⟩
        intro hempty
        rcases List.take_eq_nil_iff.mp hempty with hzero | hnil
        · omega
        · exact hsome (List.isEmpty_iff.mpr hnil)
      · obtain ⟨hne, hle, hinfix⟩ := ih hrest
        exact ⟨hne, hle, hinfix.trans (List.drop_suffix _ _).isInfix⟩

/-- Maximal runs, cut into pieces of at most `limit` elements. -/
def boundedRuns (r : α → α → Bool) (limit : Nat) (l : List α) : List (List α) :=
  (l.splitBy r).flatMap fun run => pieces limit run.length run

theorem flatten_boundedRuns {limit : Nat} (hlimit : 0 < limit) (r : α → α → Bool) (l : List α) :
    (boundedRuns r limit l).flatten = l := by
  have hpieces : ∀ runs : List (List α),
      (runs.flatMap fun run => pieces limit run.length run).flatten = runs.flatten := by
    intro runs
    induction runs with
    | nil => rfl
    | cons run runs ih =>
      rw [List.flatMap_cons, List.flatten_append, ih,
        flatten_pieces hlimit (Nat.le_refl _), List.flatten_cons]
  rw [boundedRuns, hpieces, List.flatten_splitBy]

theorem mem_boundedRuns {limit : Nat} {r : α → α → Bool} {l run : List α} (hlimit : 0 < limit)
    (hrun : run ∈ boundedRuns r limit l) :
    run ≠ [] ∧ run.length ≤ limit ∧ run.IsChain fun a b => r a b = true := by
  obtain ⟨whole, hwhole, hpiece⟩ := List.mem_flatMap.mp hrun
  obtain ⟨hne, hle, hinfix⟩ := mem_pieces hlimit hpiece
  exact ⟨hne, hle, List.IsChain.infix (List.isChain_of_mem_splitBy hwhole) hinfix⟩

end Bounded

end ConsecutiveRuns
