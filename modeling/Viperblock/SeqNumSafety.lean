import Viperblock.SeqNumSystem

/-!
# No sequence number is handed out twice

Three things can go wrong between a mark being read, published and persisted:
a `SaveState` persists a mark it read before a reservation moved it, a minting
`SaveState` publishes a first window that is not durable, and it may thereby
lower a mark that is already published.  In a run without them, and without
64-bit overflow, the durable mark covers every number ever returned, the
returned ranges are disjoint over all crashes and none exceeds `maxSeqNum`.
-/

namespace Viperblock

namespace SeqNumSystem

open GuardedRun

/-- No step lowers a mark or relies on one that is not durable. -/
def marksKept (s : SeqState) : Act → Bool
  | .reserve _ n => decide (s.seqNum + n + seqNumReservation < 2 ^ 64)
  | .check _ => decide (s.seqNumHighWater ≤ durable s)
  | .recheck _ => decide (s.seqNumHighWater ≤ durable s)
  | .store _ => decide (s.seqNumHighWater ≤ seqNumReservation)
  | .persist call _ _ =>
    match s.calls.lookup call with
    | some (.savePersisting hw) => decide (durable s ≤ hw)
    | _ => true
  | .bump _ _ => decide (s.seqNumHighWater + seqNumReservation < 2 ^ 64)
  | _ => true

/-- Every returned range is durably covered, within the nonce, and disjoint
from every other. -/
structure RangesSafe (s : SeqState) : Prop where
  covered : ∀ r ∈ s.issued, r.start + r.n ≤ durable s
  bounded : ∀ r ∈ s.issued, r.start + r.n ≤ maxSeqNum
  apart : s.issued.Pairwise Range.Apart

/-- What is known of a call in progress. -/
structure CallSafe (s : SeqState) (id : Nat) (call : Call) : Prop where
  mutex : call.holdsMutex = true → s.mutex = some id
  exact : ∀ r, call.range = some r → r.last = r.start + r.n
  below : ∀ r, call.range = some r → r.start + r.n ≤ s.seqNum
  fresh : ∀ r, call.range = some r → ∀ r' ∈ s.issued, r.Apart r'
  bounded : ∀ r, call.range = some r → call ≠ .added r → r.start + r.n ≤ maxSeqNum
  marked : ∀ hw, call.mark = some hw → s.seqNumHighWater ≤ hw ∧ seqNumReservation ≤ hw
  reached : ∀ r hw, call.range = some r → call.mark = some hw → r.start + r.n ≤ hw
  persisted : ∀ r hw, call = .publishing r hw → hw ≤ durable s

/-- The invariant of the step system. -/
structure Safe (s : SeqState) : Prop extends RangesSafe s where
  published : s.mode ≠ .down → ∀ r ∈ s.issued,
    r.start + r.n ≤ s.seqNumHighWater ∧ r.start + r.n ≤ s.seqNum
  noCalls : s.mode ≠ .running → s.calls = ∅
  calls : ∀ id call, s.calls.lookup id = some call → CallSafe s id call
  callsApart : ∀ id id' call call' r r', id ≠ id' →
    s.calls.lookup id = some call → s.calls.lookup id' = some call' →
    call.range = some r → call'.range = some r' → r.Apart r'

section Calls

variable {s t : SeqState}

theorem RangesSafe.of_issued (hs : RangesSafe s) (hissued : t.issued = s.issued)
    (hcovered : ∀ r ∈ s.issued, r.start + r.n ≤ durable t) :
    RangesSafe t := by
  refine ⟨?_, ?_, ?_⟩ <;> rw [hissued]
  · exact hcovered
  · exact hs.bounded
  · exact hs.apart

theorem Safe.of_idle (hranges : RangesSafe t) (hcalls : t.calls = ∅)
    (hpublished : t.mode ≠ .down → ∀ r ∈ t.issued,
      r.start + r.n ≤ t.seqNumHighWater ∧ r.start + r.n ≤ t.seqNum) :
    Safe t where
  toRangesSafe := hranges
  published := hpublished
  noCalls _ := hcalls
  calls id call h := by simp [hcalls] at h
  callsApart id id' call call' r r' _ h := by simp [hcalls] at h

/-- A step of one call: the other calls stay, and what is known of them. -/
theorem Safe.of_call (hs : Safe s) (id : Nat) (hmode : t.mode = .running) (hranges : RangesSafe t)
    (hpublished : ∀ r ∈ t.issued, r.start + r.n ≤ t.seqNumHighWater ∧ r.start + r.n ≤ t.seqNum)
    (hlookup : ∀ other, other ≠ id → t.calls.lookup other = s.calls.lookup other)
    (hothers : ∀ other call, other ≠ id → s.calls.lookup other = some call → CallSafe t other call)
    (hself : ∀ call, t.calls.lookup id = some call → CallSafe t id call ∧ ∀ r, call.range = some r →
      ∀ other call' r', other ≠ id → s.calls.lookup other = some call' → call'.range = some r' →
      r.Apart r') :
    Safe t := by
  refine { hranges with published := fun _ => hpublished, noCalls := ?_, calls := ?_,
                        callsApart := ?_ }
  · intro hbusy
    exact absurd hmode hbusy
  · intro other call hcall
    by_cases hid : other = id
    · subst hid
      exact (hself call hcall).1
    · rw [hlookup other hid] at hcall
      exact hothers other call hid hcall
  · intro a b call call' r r' hne hcall hcall' hr hr'
    by_cases ha : a = id
    · subst ha
      rw [hlookup b (Ne.symm hne)] at hcall'
      exact (hself call hcall).2 r hr b call' r' (Ne.symm hne) hcall' hr'
    · rw [hlookup a ha] at hcall
      by_cases hb : b = id
      · subst hb
        exact ((hself call' hcall').2 r' hr' a call r ha hcall hr).symm
      · rw [hlookup b hb] at hcall'
        exact hs.callsApart a b call call' r r' hne hcall hcall' hr hr'

/-- What a call in progress relies on is the same in `t` as in `s`. -/
structure Untouched (s t : SeqState) (call : Call) : Prop where
  mutex : call.holdsMutex = true → t.mutex = s.mutex
  mark : ∀ hw, call.mark = some hw → t.seqNumHighWater ≤ hw
  durable : ∀ r hw, call = .publishing r hw → durable s ≤ durable t

section

variable {call : Call} {id : Nat}

/-- A call's knowledge survives when the counters grow as they should. -/
theorem CallSafe.mono (hcall : CallSafe s id call) (hsame : Untouched s t call)
    (hseq : s.seqNum ≤ t.seqNum)
    (hissued : ∀ r, call.range = some r → ∀ r' ∈ t.issued, r.Apart r') :
    CallSafe t id call where
  mutex h := (hsame.mutex h).trans (hcall.mutex h)
  exact := hcall.exact
  below r hr := Nat.le_trans (hcall.below r hr) hseq
  fresh := hissued
  bounded := hcall.bounded
  marked hw h := ⟨hsame.mark hw h, (hcall.marked hw h).2⟩
  reached := hcall.reached
  persisted r hw h := Nat.le_trans (hcall.persisted r hw h) (hsame.durable r hw h)

theorem CallSafe.untouched (hcall : CallSafe s id call) (hmutex : t.mutex = s.mutex)
    (hhw : t.seqNumHighWater = s.seqNumHighWater)
    (hdurable : SeqNumSystem.durable s ≤ SeqNumSystem.durable t) :
    Untouched s t call where
  mutex _ := hmutex
  mark hw h := Nat.le_trans (Nat.le_of_eq hhw) (hcall.marked hw h).1
  durable _ _ _ := hdurable

theorem untouched_of_outside (houtside : call.holdsMutex = false) :
    Untouched s t call where
  mutex h := by simp [houtside] at h
  mark hw h := by
    cases call <;> simp_all [Call.holdsMutex, Call.mark]
  durable r hw h := by
    subst h
    simp [Call.holdsMutex] at houtside

section

variable (hs : Safe s)

include hs

theorem Safe.running_of_lookup (hcall : s.calls.lookup id = some call) :
    s.mode = .running := by
  by_contra hmode
  rw [hs.noCalls hmode] at hcall
  simp at hcall

theorem Safe.outside_of_holder {id other : Nat} {call call' : Call}
    (hcall : s.calls.lookup id = some call) (hholds : call.holdsMutex = true) (hne : other ≠ id)
    (hcall' : s.calls.lookup other = some call') :
    call'.holdsMutex = false := by
  by_contra hbusy
  have hmine := (hs.calls id call hcall).mutex hholds
  have hother := (hs.calls other call' hcall').mutex (by simpa using hbusy)
  rw [hmine] at hother
  exact hne (Option.some.inj hother).symm

theorem Safe.untouched_by_holder {id other : Nat} {call call' : Call}
    (hcall : s.calls.lookup id = some call) (hholds : call.holdsMutex = true) (hne : other ≠ id)
    (hcall' : s.calls.lookup other = some call') :
    Untouched s t call' :=
  untouched_of_outside (hs.outside_of_holder hcall hholds hne hcall')

theorem Safe.untouched_of_free {other : Nat} {call' : Call} (hfree : s.mutex = none)
    (hcall' : s.calls.lookup other = some call') :
    Untouched s t call' := by
  apply untouched_of_outside
  by_contra hbusy
  have hheld := (hs.calls other call' hcall').mutex (by simpa using hbusy)
  rw [hfree] at hheld
  simp at hheld

/-- A step of one call that returns no range. -/
theorem Safe.of_call_issued (id : Nat) (hrunning : s.mode = .running) (hmode : t.mode = s.mode)
    (hissued : t.issued = s.issued) (hseq : s.seqNum ≤ t.seqNum)
    (hcovered : ∀ r ∈ s.issued, r.start + r.n ≤ durable t)
    (hgrows : s.seqNumHighWater ≤ t.seqNumHighWater)
    (hlookup : ∀ other, other ≠ id → t.calls.lookup other = s.calls.lookup other)
    (hothers : ∀ other call', other ≠ id → s.calls.lookup other = some call' → Untouched s t call')
    (hself : ∀ call, t.calls.lookup id = some call → CallSafe t id call ∧ ∀ r, call.range = some r →
      ∀ other call' r', other ≠ id → s.calls.lookup other = some call' → call'.range = some r' →
      r.Apart r') :
    Safe t := by
  refine hs.of_call id (hmode.trans hrunning) (hs.toRangesSafe.of_issued hissued hcovered) ?_
    hlookup ?_ hself
  · rw [hissued]
    intro r hr
    obtain ⟨hhw, hbelow⟩ := hs.published (by simp [hrunning]) r hr
    exact ⟨hhw.trans hgrows, hbelow.trans hseq⟩
  · intro other call' hne hcall'
    refine (hs.calls other call' hcall').mono (hothers other call' hne hcall') hseq ?_
    rw [hissued]
    exact (hs.calls other call' hcall').fresh

theorem Safe.drop (hcall : s.calls.lookup id = some call) (hmode : t.mode = s.mode)
    (hissued : t.issued = s.issued) (hseq : t.seqNum = s.seqNum)
    (hcalls : t.calls = s.calls.erase id) (hcovered : ∀ r ∈ s.issued, r.start + r.n ≤ durable t)
    (hgrows : s.seqNumHighWater ≤ t.seqNumHighWater)
    (hothers : ∀ other call', other ≠ id → s.calls.lookup other = some call' →
      Untouched s t call') :
    Safe t := by
  refine hs.of_call_issued id (hs.running_of_lookup hcall) hmode hissued hseq.ge hcovered hgrows
    ?_ hothers ?_
  · intro other hne
    rw [hcalls, AList.lookup_erase_ne hne]
  · intro call' hcall'
    simp [hcalls] at hcall'

theorem Safe.issue {r : Range} (hcall : s.calls.lookup id = some call) (hr : call.range = some r)
    (hmode : t.mode = s.mode) (hissued : t.issued = r :: s.issued) (hseq : t.seqNum = s.seqNum)
    (hconfig : t.config = s.config) (hcalls : t.calls = s.calls.erase id)
    (hbounded : r.start + r.n ≤ maxSeqNum) (hcovered : r.start + r.n ≤ durable s)
    (hpublished : r.start + r.n ≤ t.seqNumHighWater)
    (hgrows : s.seqNumHighWater ≤ t.seqNumHighWater)
    (hothers : ∀ other call', other ≠ id → s.calls.lookup other = some call' →
      Untouched s t call') :
    Safe t := by
  have hrunning := hs.running_of_lookup hcall
  have hknown := hs.calls id call hcall
  have hdurable : durable t = durable s := by
    simp [durable, hconfig]
  refine hs.of_call id (hmode.trans hrunning) ?_ ?_ ?_ ?_ ?_
  · refine ⟨?_, ?_, ?_⟩
    · rw [hissued, hdurable]
      intro r' hr'
      rcases List.mem_cons.mp hr' with rfl | hold
      · exact hcovered
      · exact hs.covered r' hold
    · rw [hissued]
      intro r' hr'
      rcases List.mem_cons.mp hr' with rfl | hold
      · exact hbounded
      · exact hs.bounded r' hold
    · rw [hissued, List.pairwise_cons]
      exact ⟨hknown.fresh r hr, hs.apart⟩
  · rw [hissued, hseq]
    intro r' hr'
    rcases List.mem_cons.mp hr' with rfl | hold
    · exact ⟨hpublished, hknown.below r' hr⟩
    · obtain ⟨hhw, hbelow⟩ := hs.published (by simp [hrunning]) r' hold
      exact ⟨Nat.le_trans hhw hgrows, hbelow⟩
  · intro other hne
    rw [hcalls, AList.lookup_erase_ne hne]
  · intro other call' hne hcall'
    refine (hs.calls other call' hcall').mono (hothers other call' hne hcall') ?_ ?_
    · rw [hseq]
    · rw [hissued]
      intro r' hr' r'' hr''
      rcases List.mem_cons.mp hr'' with rfl | hold
      · exact hs.callsApart other id call' call r' r'' hne hcall' hcall hr' hr
      · exact (hs.calls other call' hcall').fresh r' hr' r'' hold
  · intro call' hcall'
    rw [hcalls, AList.lookup_erase] at hcall'
    simp at hcall'

theorem Safe.advance (next : Call) (hcall : s.calls.lookup id = some call)
    (hrange : ∀ r, next.range = some r → call.range = some r) (hmode : t.mode = s.mode)
    (hissued : t.issued = s.issued) (hseq : t.seqNum = s.seqNum)
    (hcalls : t.calls = s.calls.insert id next)
    (hcovered : ∀ r ∈ s.issued, r.start + r.n ≤ durable t)
    (hgrows : s.seqNumHighWater ≤ t.seqNumHighWater)
    (hothers : ∀ other call', other ≠ id → s.calls.lookup other = some call' → Untouched s t call')
    (hnext : CallSafe t id next) :
    Safe t := by
  refine hs.of_call_issued id (hs.running_of_lookup hcall) hmode hissued hseq.ge hcovered hgrows
    ?_ hothers ?_
  · intro other hne
    rw [hcalls, AList.lookup_insert_ne hne]
  · intro call' hcall'
    rw [hcalls, AList.lookup_insert] at hcall'
    cases hcall'
    refine ⟨hnext, fun r hr other call' r' hne hcall' hr' => ?_⟩
    exact hs.callsApart id other call call' r r' hne.symm hcall hcall' (hrange r hr) hr'

theorem Safe.start {next : Call} (hrunning : s.mode = .running) (hmode : t.mode = s.mode)
    (hissued : t.issued = s.issued) (hseq : s.seqNum ≤ t.seqNum)
    (hhw : t.seqNumHighWater = s.seqNumHighWater) (hmutex : t.mutex = s.mutex)
    (hconfig : t.config = s.config) (hcalls : t.calls = s.calls.insert id next)
    (habove : ∀ r, next.range = some r → s.seqNum ≤ r.start) (hnext : CallSafe t id next) :
    Safe t := by
  have hdurable : durable t = durable s := by
    simp [durable, hconfig]
  refine hs.of_call_issued id hrunning hmode hissued hseq (hdurable ▸ hs.covered) hhw.ge ?_ ?_ ?_
  · intro other hne
    rw [hcalls, AList.lookup_insert_ne hne]
  · intro other call' _ hcall'
    exact (hs.calls other call' hcall').untouched hmutex hhw hdurable.ge
  · intro call' hcall'
    rw [hcalls, AList.lookup_insert] at hcall'
    cases hcall'
    refine ⟨hnext, fun r hr other call' r' hne hcall' hr' => ?_⟩
    have hbelow := (hs.calls other call' hcall').below r' hr'
    exact .inr (hbelow.trans (habove r hr))

end

theorem callSafe_of_idle (hmutex : call.holdsMutex = false) (hrange : call.range = none) :
    CallSafe s id call where
  mutex h := by simp [hmutex] at h
  exact r h := by simp [hrange] at h
  below r h := by simp [hrange] at h
  fresh r h := by simp [hrange] at h
  bounded r h := by simp [hrange] at h
  marked hw h := by cases call <;> simp_all [Call.holdsMutex, Call.mark]
  reached r hw h := by simp [hrange] at h
  persisted r hw h := by simp [h, Call.range] at hrange

end

end Calls

section Steps

variable {s t : SeqState}

theorem Safe.reserve (hs : Safe s) {id n : Nat}
    (hallowed : s.seqNum + n + seqNumReservation < 2 ^ 64) (hrunning : s.mode = .running) :
    Safe (setCall { s with seqNum := (s.seqNum + n) % 2 ^ 64 } id
      (.added ⟨s.seqNum, n⟩)) := by
  have hmod : (s.seqNum + n) % 2 ^ 64 = s.seqNum + n :=
    Nat.mod_eq_of_lt (by omega)
  have hr : ∀ r, Call.range (.added ⟨s.seqNum, n⟩) = some r → r = ⟨s.seqNum, n⟩ := by
    intro r h
    simpa [Call.range, eq_comm] using h
  refine hs.start hrunning rfl rfl ?_ rfl rfl rfl rfl ?_ ?_
  · simp only [setCall, hmod]
    omega
  · intro r h
    rw [hr r h]
  · refine ⟨by simp [Call.holdsMutex], ?_, ?_, ?_, ?_, by simp [Call.mark],
      by simp [Call.mark], by simp⟩
    · intro r h
      rw [hr r h]
      exact hmod
    · intro r h
      rw [hr r h]
      simp only [setCall, hmod]
      exact Nat.le_refl _
    · intro r h r' hr'
      rw [hr r h]
      exact .inr (hs.published (by simp [hrunning]) r' hr').2
    · intro r h hne
      rw [hr r h] at hne
      exact absurd rfl hne

theorem Safe.check (hs : Safe s) {id : Nat} (hallowed : s.seqNumHighWater ≤ durable s)
    (hstep : step s (.check id) = some t) :
    Safe t := by
  simp only [step] at hstep
  split at hstep
  swap
  · simp at hstep
  rename_i r hcall
  have hknown := hs.calls id _ hcall
  have hexact := hknown.exact r rfl
  have hsame : ∀ other call', other ≠ id → s.calls.lookup other = some call' →
      Untouched s s call' :=
    fun other call' _ h => (hs.calls other call' h).untouched rfl rfl (Nat.le_refl _)
  split at hstep
  · cases hstep
    exact hs.drop hcall rfl rfl rfl rfl hs.covered (Nat.le_refl _)
      (fun other call' hne h => { hsame other call' hne h with })
  · rename_i hmax
    split at hstep
    · rename_i hbelow
      cases hstep
      exact hs.issue hcall rfl rfl rfl rfl rfl rfl (by omega) (by omega)
        (show r.start + r.n ≤ s.seqNumHighWater by omega) (Nat.le_refl _)
        (fun other call' hne h => { hsame other call' hne h with })
    · cases hstep
      refine hs.advance (.slow r) hcall (fun _ h => h) rfl rfl rfl rfl
        hs.covered (Nat.le_refl _)
        (fun other call' hne h => { hsame other call' hne h with }) ?_
      · exact ⟨by simp [Call.holdsMutex], hknown.exact, hknown.below, hknown.fresh,
          fun r' h _ => by
            obtain rfl : r = r' := by simpa [Call.range] using h
            omega,
          by simp [Call.mark], by simp [Call.mark], by simp⟩

theorem Safe.lock (hs : Safe s) {id : Nat} (hstep : step s (.lock id) = some t) :
    Safe t := by
  simp only [step] at hstep
  split at hstep
  · rename_i r hcall hfree
    cases hstep
    have hknown := hs.calls id _ hcall
    refine hs.advance (.locked r) hcall (fun _ h => h) rfl rfl rfl rfl
      hs.covered (Nat.le_refl _) (fun _ _ _ => hs.untouched_of_free hfree) ?_
    · exact ⟨fun _ => rfl, hknown.exact, hknown.below, hknown.fresh,
        fun r' h _ => hknown.bounded r' h (by simp),
        by simp [Call.mark], by simp [Call.mark], by simp⟩
  · simp at hstep

theorem Safe.recheck (hs : Safe s) {id : Nat} (hallowed : s.seqNumHighWater ≤ durable s)
    (hstep : step s (.recheck id) = some t) :
    Safe t := by
  simp only [step] at hstep
  split at hstep
  swap
  · simp at hstep
  rename_i r hcall
  have hknown := hs.calls id _ hcall
  have hexact := hknown.exact r rfl
  have hmax := hknown.bounded r rfl (by simp)
  split at hstep
  · rename_i hbelow
    cases hstep
    exact hs.issue hcall rfl rfl rfl rfl rfl rfl hmax (by omega)
      (show r.start + r.n ≤ s.seqNumHighWater by omega) (Nat.le_refl _)
      (fun _ _ => hs.untouched_by_holder hcall rfl)
  · rename_i habove
    cases hstep
    refine hs.advance (.persisting r (raiseWindows s.seqNumHighWater r.last))
      hcall (fun _ h => h) rfl rfl rfl rfl hs.covered (Nat.le_refl _)
      (fun _ _ => hs.untouched_by_holder hcall rfl) ?_
    · refine ⟨fun _ => hknown.mutex rfl, hknown.exact, hknown.below, hknown.fresh,
        fun r' h _ => hknown.bounded r' h (by simp), ?_, ?_, by simp⟩
      · intro hw hmark
        obtain rfl : raiseWindows s.seqNumHighWater r.last = hw := by
          simpa [Call.mark] using hmark
        exact ⟨raiseWindows_le _ _, reservation_le_raiseWindows (by omega)⟩
      · intro r' hw hr' hmark
        obtain rfl : r = r' := by simpa [Call.range] using hr'
        obtain rfl : raiseWindows s.seqNumHighWater r.last = hw := by
          simpa [Call.mark] using hmark
        rw [← hexact]
        exact le_raiseWindows _ _

theorem durable_persistState (s : SeqState) (hw : Nat) (ok landed : Bool) :
    durable (persistState s hw ok landed) = hw ∨ ok = false ∧ persistState s hw ok landed = s := by
  unfold persistState
  cases ok <;> cases landed <;> simp [durable]

theorem persistState_frame (s : SeqState) (hw : Nat) (ok landed : Bool) :
    (persistState s hw ok landed).mode = s.mode ∧ (persistState s hw ok landed).issued = s.issued ∧
      (persistState s hw ok landed).seqNum = s.seqNum ∧
      (persistState s hw ok landed).seqNumHighWater = s.seqNumHighWater ∧
      (persistState s hw ok landed).mutex = s.mutex ∧
      (persistState s hw ok landed).calls = s.calls := by
  unfold persistState
  split <;> simp

section

variable (hs : Safe s)

include hs

theorem Safe.persist_covered (hmode : s.mode ≠ .down) (hw : Nat) (ok landed : Bool)
    (hle : s.seqNumHighWater ≤ hw ∨ durable s ≤ hw) :
    ∀ r ∈ s.issued, r.start + r.n ≤ durable (persistState s hw ok landed) := by
  intro r hr
  have hdurable := hs.covered r hr
  have hpublished := (hs.published hmode r hr).1
  rcases durable_persistState s hw ok landed with hnew | ⟨-, hsame⟩
  · rw [hnew]
    omega
  · rw [hsame]
    exact hdurable

/-- The holder of the mutex persists its mark: it goes on or returns. -/
theorem Safe.persistMark (ok landed : Bool) {id hw : Nat} {call : Call} (next : Call)
    (hcall : s.calls.lookup id = some call) (hholds : call.holdsMutex = true)
    (hmark : call.mark = some hw) (hrange : ∀ r, next.range = some r → call.range = some r)
    (hadded : ∀ r, call ≠ .added r) (hnext : next.mark = some hw)
    (hpublishing : ∀ r hw', next = .publishing r hw' → hw' = hw) :
    Safe (if ok then setCall (persistState s hw ok landed) id next
      else unlockCall (persistState s hw ok landed) id) := by
  have hrunning := hs.running_of_lookup hcall
  have hknown := hs.calls id call hcall
  obtain ⟨hmode, hissued, hseq, hhw, hmutex, hcalls⟩ :=
    persistState_frame s hw ok landed
  have hcovered := hs.persist_covered (by simp [hrunning]) hw ok landed
    (.inl (hknown.marked hw hmark).1)
  cases ok with
  | false =>
    refine hs.drop hcall hmode hissued hseq ?_ hcovered (Nat.le_of_eq hhw.symm)
      (fun _ _ => hs.untouched_by_holder hcall hholds)
    simp only [Bool.false_eq_true, if_false, unlockCall, hcalls]
  | true =>
    refine hs.advance next hcall hrange hmode hissued hseq ?_ hcovered
      (Nat.le_of_eq hhw.symm)
      (fun _ _ => hs.untouched_by_holder hcall hholds) ?_
    · simp only [if_true, setCall, hcalls]
    · refine ⟨?_, fun r h => hknown.exact r (hrange r h), ?_, ?_, ?_, ?_, ?_, ?_⟩
      · intro _
        exact hmutex.trans (hknown.mutex hholds)
      · intro r h
        exact Nat.le_trans (hknown.below r (hrange r h)) (Nat.le_of_eq hseq.symm)
      · intro r h r' hr'
        have hold : r' ∈ s.issued := by
          rw [← hissued]
          exact hr'
        exact hknown.fresh r (hrange r h) r' hold
      · intro r h _
        exact hknown.bounded r (hrange r h) (hadded r)
      · intro hw' h
        obtain rfl : hw = hw' := by
          rw [hnext] at h
          exact Option.some.inj h
        refine ⟨?_, (hknown.marked hw hmark).2⟩
        exact Nat.le_trans (Nat.le_of_eq hhw) (hknown.marked hw hmark).1
      · intro r hw' h h'
        obtain rfl : hw = hw' := by
          rw [hnext] at h'
          exact Option.some.inj h'
        exact hknown.reached r hw (hrange r h) hmark
      · intro r hw' h
        obtain rfl := hpublishing r hw' h
        exact Nat.le_refl _

theorem Safe.persist {id : Nat} {ok landed : Bool}
    (hallowed : marksKept s (.persist id ok landed) = true)
    (hstep : step s (.persist id ok landed) = some t) :
    Safe t := by
  simp only [step] at hstep
  split at hstep
  · rename_i r hw hcall
    have hsafe := hs.persistMark ok landed (.publishing r hw) hcall rfl rfl (fun _ h => h)
      (by simp) rfl (fun _ _ h => by simpa [eq_comm] using (Call.publishing.inj h).2)
    rw [← apply_ite some] at hstep
    cases hstep
    exact hsafe
  · rename_i hw hcall
    cases hstep
    simp only [marksKept, hcall, decide_eq_true_eq] at hallowed
    have hrunning := hs.running_of_lookup hcall
    obtain ⟨hmode, hissued, hseq, hhw, hmutex, hcalls⟩ :=
      persistState_frame s hw ok landed
    refine hs.drop hcall hmode hissued hseq ?_
      (hs.persist_covered (by simp [hrunning]) hw ok landed (.inr hallowed))
      (Nat.le_of_eq hhw.symm) ?_
    · simp only [endCall, hcalls]
    · intro other call' hne hcall'
      refine (hs.calls other call' hcall').untouched hmutex hhw ?_
      rcases durable_persistState s hw ok landed with hnew | ⟨-, hsame⟩
      · exact Nat.le_trans hallowed (Nat.le_of_eq hnew.symm)
      · simp only [endCall, durable, hsame, Nat.le_refl]
  · rename_i hw hcall
    have hsafe := hs.persistMark ok landed (.ensurePublishing hw) hcall rfl rfl (fun _ h => h)
      (by simp) rfl (by simp)
    rw [← apply_ite some] at hstep
    cases hstep
    exact hsafe
  · simp at hstep

theorem Safe.publish {id : Nat} (hstep : step s (.publish id) = some t) :
    Safe t := by
  simp only [step] at hstep
  split at hstep
  · rename_i r hw hcall
    cases hstep
    have hknown := hs.calls id _ hcall
    have hreached := hknown.reached r hw rfl rfl
    exact hs.issue hcall rfl rfl rfl rfl rfl rfl (hknown.bounded r rfl (by simp))
      (Nat.le_trans hreached (hknown.persisted r hw rfl)) hreached
      (hknown.marked hw rfl).1
      (fun _ _ => hs.untouched_by_holder hcall rfl)
  · rename_i hw hcall
    cases hstep
    exact hs.drop hcall rfl rfl rfl rfl hs.covered
      ((hs.calls id _ hcall).marked hw rfl).1
      (fun _ _ => hs.untouched_by_holder hcall rfl)
  · simp at hstep

theorem Safe.save {id : Nat} (hstep : step s (.save id) = some t) :
    Safe t := by
  simp only [step] at hstep
  split at hstep
  · rename_i hready
    split at hstep
    all_goals
      cases hstep
      exact hs.start hready.1 rfl rfl (Nat.le_refl _) rfl rfl rfl rfl
        (by simp [Call.range]) (callSafe_of_idle rfl rfl)
  · simp at hstep

theorem Safe.store {id : Nat} (hallowed : s.seqNumHighWater ≤ seqNumReservation)
    (hstep : step s (.store id) = some t) :
    Safe t := by
  simp only [step] at hstep
  split at hstep
  · rename_i hcall
    cases hstep
    refine hs.advance _ hcall (by simp [Call.range]) rfl rfl rfl rfl hs.covered hallowed
      ?_ (callSafe_of_idle rfl rfl)
    intro other call' _ hcall'
    -- every mark in flight is at least one window
    exact ⟨fun _ => rfl, fun hw h => ((hs.calls other call' hcall').marked hw h).2,
      fun _ _ _ => Nat.le_refl _⟩
  · simp at hstep

theorem Safe.read {id : Nat} (hstep : step s (.read id) = some t) :
    Safe t := by
  simp only [step] at hstep
  split at hstep
  · rename_i hcall
    cases hstep
    exact hs.advance _ hcall (by simp [Call.range]) rfl rfl rfl rfl hs.covered
      (Nat.le_refl _)
      (fun other call' _ h =>
        (hs.calls other call' h).untouched rfl rfl (Nat.le_refl _))
      (callSafe_of_idle rfl rfl)
  · simp at hstep

theorem Safe.ensure {id : Nat} (hstep : step s (.ensure id) = some t) :
    Safe t := by
  simp only [step] at hstep
  split at hstep
  · rename_i hready
    cases hstep
    exact hs.start hready.1 rfl rfl (Nat.le_refl _) rfl rfl rfl rfl
      (by simp [Call.range]) (callSafe_of_idle rfl rfl)
  · simp at hstep

theorem Safe.ensureLock {id : Nat} (hstep : step s (.ensureLock id) = some t) :
    Safe t := by
  simp only [step] at hstep
  split at hstep
  swap
  · simp at hstep
  rename_i hcall hfree
  split at hstep
  · cases hstep
    exact hs.drop hcall rfl rfl rfl rfl hs.covered (Nat.le_refl _)
      (fun other call' _ h =>
        (hs.calls other call' h).untouched rfl rfl (Nat.le_refl _))
  · cases hstep
    refine hs.advance _ hcall (by simp [Call.range]) rfl rfl rfl rfl hs.covered
      (Nat.le_refl _) (fun _ _ _ => hs.untouched_of_free hfree) ?_
    refine ⟨fun _ => rfl, by simp [Call.range], by simp [Call.range],
      by simp [Call.range], by simp [Call.range], ?_, by simp [Call.range], by simp⟩
    intro hw hmark
    have hle := raiseWindows_le (max s.seqNumHighWater seqNumReservation) s.seqNum
    cases hmark
    simp only [setCall]
    omega

/-- A crash loses the memory and no durable fact. -/
theorem Safe.stop (hmode : t.mode = .down) (hissued : t.issued = s.issued) (hcalls : t.calls = ∅)
    (hcovered : ∀ r ∈ s.issued, r.start + r.n ≤ durable t) :
    Safe t :=
  .of_idle (hs.toRangesSafe.of_issued hissued hcovered) hcalls fun hbusy => absurd hmode hbusy

theorem Safe.load (hstep : step s .load = some t) :
    Safe t := by
  simp only [step] at hstep
  split at hstep
  · rename_i hdown
    have hcalls := hs.noCalls (by simp [hdown])
    -- the loaded mark is the durable one, which covers what was returned
    split at hstep
    all_goals
      rename_i hconfig
      cases hstep
      refine .of_idle { hs with } hcalls fun _ r hr => ?_
      have hcovered := hs.covered r hr
      simp only [durable, hconfig] at hcovered ⊢
      omega
  · simp at hstep

theorem Safe.bump {ok landed : Bool} (hallowed : s.seqNumHighWater + seqNumReservation < 2 ^ 64)
    (hstep : step s (.bump ok landed) = some t) :
    Safe t := by
  simp only [step] at hstep
  split at hstep
  swap
  · simp at hstep
  rename_i hloading
  have hbusy : s.mode ≠ .down := by simp [hloading]
  have hcalls := hs.noCalls (by simp [hloading])
  have hmod : (s.seqNumHighWater + seqNumReservation) % 2 ^ 64 =
      s.seqNumHighWater + seqNumReservation :=
    Nat.mod_eq_of_lt hallowed
  have hcovered := hs.persist_covered hbusy
    ((s.seqNumHighWater + seqNumReservation) % 2 ^ 64) ok landed (.inl (by omega))
  obtain ⟨-, hissued, hseq, -, -, hkept⟩ := persistState_frame s
    ((s.seqNumHighWater + seqNumReservation) % 2 ^ 64) ok landed
  split at hstep
  · cases hstep
    refine .of_idle (hs.toRangesSafe.of_issued hissued hcovered) (hkept.trans hcalls) ?_
    rw [hissued, hseq]
    intro _ r hr
    obtain ⟨hhw, hbelow⟩ := hs.published hbusy r hr
    refine ⟨?_, hbelow⟩
    rw [hmod]
    exact hhw.trans (Nat.le_add_right _ _)
  · cases hstep
    exact hs.stop rfl hissued (hkept.trans hcalls) hcovered

theorem step_safe {act : Act} (hallowed : marksKept s act = true) (hstep : step s act = some t) :
    Safe t := by
  cases act with
  | reserve id n =>
    simp only [step] at hstep
    split at hstep
    · rename_i hready
      cases hstep
      exact hs.reserve (by simpa [marksKept] using hallowed) hready.1
    · simp at hstep
  | check id => exact hs.check (by simpa [marksKept] using hallowed) hstep
  | lock id => exact hs.lock hstep
  | recheck id => exact hs.recheck (by simpa [marksKept] using hallowed) hstep
  | persist id ok landed => exact hs.persist hallowed hstep
  | publish id => exact hs.publish hstep
  | save id => exact hs.save hstep
  | store id => exact hs.store (by simpa [marksKept] using hallowed) hstep
  | read id => exact hs.read hstep
  | ensure id => exact hs.ensure hstep
  | ensureLock id => exact hs.ensureLock hstep
  | crash =>
    cases hstep
    exact hs.stop rfl rfl rfl hs.covered
  | load => exact hs.load hstep
  | bump ok landed => exact hs.bump (by simpa [marksKept] using hallowed) hstep

end

theorem atRest_safe (config : Option StateFile) :
    Safe (atRest config) :=
  .of_idle ⟨by simp [atRest], by simp [atRest], .nil⟩ rfl fun hbusy => absurd rfl hbusy

end Steps

section Runs

/-- In every run that keeps its marks, over any number of crashes, the durable
mark covers every number ever returned, no number is returned twice and none
exceeds the nonce. -/
theorem rangesSafe_of_run
    {config : Option StateFile} {acts : List Act} {s : SeqState}
    (hrun : Run step (fun s a => marksKept s a = true) (atRest config) acts s) :
    RangesSafe s := by
  have hsafe : Safe s :=
    hrun.preserves
      (fun _ _ _ hs hallowed hstep => step_safe hs hallowed hstep)
      (atRest_safe config)
  exact hsafe.toRangesSafe

/-- The steps of a `reserveSeqNum` that has to move the mark. -/
def slowReserve (call n : Nat) : List Act :=
  [.reserve call n, .check call, .lock call, .recheck call, .persist call true false, .publish call]

/-- A reservation, a `SaveState` and a crash between two reservations. -/
def reserveSaveReload : List Act :=
  [.load, .ensure 0, .ensureLock 0, .persist 0 true false, .publish 0,
    .reserve 1 3, .check 1, .save 2, .read 2, .persist 2 true false,
    .crash, .load, .bump true false, .reserve 3 2, .check 3]

theorem rangesSafe_reserveSaveReload :
    ∃ s, Run step (fun s a => marksKept s a = true) (atRest none)
        reserveSaveReload s ∧
      s.issued = [⟨2 ^ 20, 2⟩, ⟨0, 3⟩] ∧ RangesSafe s := by
  obtain ⟨s, hrun, hissued⟩ := Run.exists_of_exec
    step (fun s a => marksKept s a = true) (atRest none) reserveSaveReload
    (fun s => decide (s.issued = [⟨2 ^ 20, 2⟩, ⟨0, 3⟩])) (by decide)
  exact ⟨s, hrun, by simpa using hissued, rangesSafe_of_run hrun⟩

/-- A `SaveState` reads the mark, a reservation moves and persists it, and the
`SaveState` persists what it read.  After a crash the volume starts below. -/
def staleSave : List Act :=
  [.load] ++ slowReserve 1 1 ++ [.save 2, .read 2] ++ slowReserve 3 (2 ^ 20) ++
    [.persist 2 true false, .crash, .load, .bump true false, .reserve 4 1, .check 4]

/-- The number `2 ^ 20 + 1` is then returned a second time. -/
theorem staleSave_returns_number_twice :
    ∃ s, Run step (fun _ _ => True) (atRest none) staleSave s ∧
      s.issued = [⟨2 ^ 20, 1⟩, ⟨1, 2 ^ 20⟩, ⟨0, 1⟩] ∧
      ¬ Range.Apart ⟨2 ^ 20, 1⟩ ⟨1, 2 ^ 20⟩ ∧ ¬ RangesSafe s := by
  obtain ⟨s, hrun, hissued⟩ := Run.exists_of_exec
    step (fun _ _ => True) (atRest none) staleSave
    (fun s => decide (s.issued = [⟨2 ^ 20, 1⟩, ⟨1, 2 ^ 20⟩, ⟨0, 1⟩])) (by decide)
  have hissued : s.issued = [⟨2 ^ 20, 1⟩, ⟨1, 2 ^ 20⟩, ⟨0, 1⟩] := by
    simpa using hissued
  have hshared : ¬ Range.Apart ⟨2 ^ 20, 1⟩ ⟨1, 2 ^ 20⟩ := by decide
  refine ⟨s, hrun, hissued, hshared, ?_⟩
  intro hsafe
  have hapart := hsafe.apart
  rw [hissued, List.pairwise_cons] at hapart
  exact hshared (hapart.1 _ (by simp))

end Runs

end SeqNumSystem

end Viperblock
