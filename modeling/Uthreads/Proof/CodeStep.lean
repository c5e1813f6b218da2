import Uthreads.Proof.Wf

/-!
# What an instruction does to the code

The code that an instruction puts in front continues where the instruction was:

* `effect_held`: it holds the same POSIX mutexes, unless the instruction locks, unlocks or
  switches;
* `effect_owns`: it owns no more uthread mutexes, unless the instruction takes one;
* `effect_depth`: it switches preemption on as often.
-/

namespace Uthreads

variable {N L : ℕ} {l : Fin L} {t : Fin N} {s s' : State N L} {i : Instr N} {c cs new : Code N}
  {p : PmtxId N} {m : MtxId}

open Instr

/-- The instructions that change what the LWP holds. -/
def Instr.moves : Instr N → Bool
  | lock _ | unlock _ | swtch _ _ _ => true
  | _ => false

theorem held_mtxUnlock (hm : ¬ Held (.mPmut m) c) : Held p (uthreadMtxUnlock m ++ c) ↔ Held p c := by
  by_cases hp : p = .mPmut m
  · subst hp; simp [uthreadMtxUnlock, hm]
  · simp [uthreadMtxUnlock, hp]

theorem held_mtxLock (hm : ¬ Held (.mPmut m) c) : Held p (uthreadMtxLock m ++ c) ↔ Held p c := by
  by_cases hp : p = .mPmut m
  · subst hp; simp [uthreadMtxLock, hm]
  · simp [uthreadMtxLock, hp]

theorem held_wake (u : Fin N) (hr : ¬ Held .runqMtx c) : Held p (uthreadWake u ++ c) ↔ Held p c := by
  by_cases hp : p = .runqMtx
  · subst hp; simp [uthreadWake, hr]
  · simp [uthreadWake, hp]

theorem held_switch {q : Option (QueueId N)} {saveonrq : Bool} {m : Option (PmtxId N)}
    (hr : ¬ Held .runqMtx c) (hm : .runqMtx ∉ m.toList) :
    Held p (uthreadSwitch q saveonrq m ++ c) ↔ p ∈ m.toList ∨ Held p c := by
  by_cases hp : p = .runqMtx
  · subst hp; simp [uthreadSwitch, hr]; simpa using hm
  · simp [uthreadSwitch, hp]

theorem held_yield (hr : ¬ Held .runqMtx c) : Held p (uthreadYield ++ c) ↔ Held p c := by
  by_cases hp : p = .runqMtx
  · subst hp; simp [uthreadYield, uthreadSwitch, hr]
  · simp [uthreadYield, uthreadSwitch, hp]

theorem held_condSignal (cond : CondId) (hc : ¬ Held (.cPmut cond) c) :
    Held p (uthreadCondSignal cond ++ c) ↔ Held p c := by
  by_cases hp : p = .cPmut cond
  · subst hp; simp [uthreadCondSignal, hc]
  · simp [uthreadCondSignal, hp]

theorem not_held_condWait (cond : CondId) (m : MtxId) (hh : ∀ p, ¬ Held p c) :
    ¬ Held p (uthreadCondWait cond m ++ c) := by
  simp [uthreadCondWait, uthreadMtxUnlock, uthreadMtxLock, uthreadSwitch, hh]
  tauto

/-- A code-only instruction leaves what the thread holds. -/
theorem plain_held (h : Wf t (i :: cs)) (hst : (s.uthreads t).utState = expect (i :: cs))
    (he : Plain t s i new) : Held p (new ++ cs) ↔ Held p (i :: cs) := by
  obtain ⟨hok, -, -⟩ := h
  cases he with
  | resume | yieldAssert | wakeAssert | lockOwned | waitDone | threadStart | ret => simp
  | wakeDrop | signalNone | broadcastNone =>
    simp only [List.nil_append, held_cons, needs, locks, List.mem_singleton]
    constructor
    · intro h; exact .inr ⟨by simp, by simp, h⟩
    · rintro (rfl | ⟨-, -, h⟩)
      · first | exact hok | exact hok.1
      · exact h
  | setprio | trylockFail | allocNone | allocReturnNone | allocReturn
  | allocStack | allocStackFail | joinFail | joinZombie | claimFail | detachFail | reaperGo
  | reaperDrained | scanFound | scanNext | allocStart =>
    simp only [Ok] at hok
    subst hok
    simp
  | reapableNot u hz =>
    rcases hok with ⟨rfl, rfl⟩ | ⟨hne, r, rfl⟩
    · refine absurd ?_ hz
      rw [hst]; simp [expect, deadCode]
    · simp [uthreadMtxUnlock]
  | reapLate u k rv hz | detachLate u k hz =>
    simp only [Ok] at hok
    subst hok
    simp [uthreadMtxUnlock]
  | reap u k rv hz | detachZombie u k hz =>
    simp only [Ok] at hok
    subst hok
    simp
  | reaperWait hq =>
    simp only [Ok] at hok
    subst hok
    simpa using not_held_condWait .reapCond .reapMtx (c := [reaperWait]) (by simp)

/-- **What the thread holds goes on.** -/
theorem effect_held (h : Wf t (i :: cs)) (hst : (s.uthreads t).utState = expect (i :: cs))
    (he : Effect l t s i s' new) (hm : i.moves = false) :
    Held p (new ++ cs) ↔ Held p (i :: cs) := by
  cases he with
  | plain hp => exact plain_held h hst hp
  | lock | unlock | swtch => cases hm
  | nopreemptOn | nopreemptOff | interruptLeave => simp
  | wake =>
    have hok := h.1
    simp only [List.nil_append, held_cons, needs, locks, List.mem_singleton]
    constructor
    · intro h; exact .inr ⟨by simp, by simp, h⟩
    · rintro (rfl | ⟨-, -, h⟩)
      · exact hok
      · exact h
  | start =>
    obtain ⟨r, rfl⟩ := h.1
    simp
  | waitMark cond hs =>
    obtain ⟨cs', rfl⟩ := h.1
    by_cases hp : p = .cPmut cond
    · subst hp; simp [uthreadSwitch]
    · simp [hp]
  | setprio u prio hs hnew =>
    have hcs : cs = [] := h.1
    subst hcs
    rcases hnew with rfl | rfl
    · simp [uthreadYield, uthreadSwitch]
    · simp
  | take m ho hs hnew =>
    rcases hnew with ⟨rfl, rfl⟩ | ⟨rfl, rfl⟩
    · simp
    · have hcs : cs = [] := h.1
      subst hcs
      simp
  | block m ho =>
    have hr : ¬ Held .runqMtx cs := h.1.1.not_held (by simp)
    have : Held p (uthreadSwitch (some (.mWaiters m)) false (some (.mPmut m)) ++
        lockOwned m :: nopreemptOff :: cs) ↔ _ := held_switch (by simp [hr]) (by simp)
    simpa using this
  | release m hq hs => simp
  | handOver m u hq hs =>
    have hr : ¬ Held .runqMtx cs := h.1.1.not_held (by simp [PmtxId.rank])
    have := held_wake (p := p) (c := nopreemptOff :: cs) u (by simp [hr])
    simpa using or_congr_right this
  | signal cond u hq hs hnew =>
    rcases hnew with ⟨rfl, rfl⟩ | ⟨rfl, rfl⟩
    · have hr : ¬ Held .runqMtx cs := h.1.2.not_held (by simp [PmtxId.rank])
      rw [held_wake u hr]
      simp only [held_cons, needs, locks, List.mem_singleton]
      constructor
      · intro h; exact .inr ⟨by simp, by simp, h⟩
      · rintro (rfl | ⟨-, -, hp⟩)
        · exact h.1.1
        · exact hp
    · have hr : ¬ Held .runqMtx cs := h.1.2.not_held (by simp [PmtxId.rank])
      have := held_wake (p := p) (c := broadcastTest cond :: cs) u (by simp [hr])
      simpa using this
  | alloc start prio j hj hs =>
    have hcs : cs = [] := h.1
    subst hcs
    simp
  | create w tid prio =>
    have hcs : cs = [] := h.1
    subst hcs
    cases w <;> simp [createRest, uthreadStartonrunq]
  | destroy d u =>
    have hcs : cs = [reaperDrain] := h.1
    subst hcs
    cases d <;> simp [destroyRest]
  | exitDetached u status hd =>
    obtain ⟨rfl, rfl⟩ := h.1
    simp [held_deadCode]
  | exitAlone u status hd hq =>
    obtain ⟨rfl, rfl⟩ := h.1
    rw [List.append_nil, held_mtxUnlock (by simp [held_deadCode]), held_deadCode]
    simp
  | exitJoined u w status hd hq =>
    obtain ⟨rfl, rfl⟩ := h.1
    have hu := held_mtxUnlock (p := p) (m := .reapMtx) (c := deadCode u) (by simp [held_deadCode])
    have hw := held_wake (p := p) (c := uthreadMtxUnlock .reapMtx ++ deadCode u) w
      (by rw [held_mtxUnlock] <;> simp [held_deadCode])
    rw [held_deadCode] at hu
    rw [hu] at hw
    simpa using hw
  | makeReapable u hz hs₁ hs hnew =>
    subst hnew
    have hsig : ∀ c : Code N, ¬ Held (.cPmut .reapCond) c →
        (Held p (uthreadCondSignal .reapCond ++ c) ↔ Held p c) := fun c hc =>
      held_condSignal .reapCond hc
    rcases h.1 with ⟨rfl, rfl⟩ | ⟨hne, r, rfl⟩
    · have := hsig (unlock (.utPmut u) :: (uthreadMtxUnlock .reapMtx ++
        uthreadSwitch none false none ++ [panicDead] ++ deadCode u))
        (by simp [uthreadMtxUnlock, uthreadSwitch])
      simp only [if_true, List.append_assoc, List.cons_append, List.nil_append] at this ⊢
      rw [this]
      simp [uthreadMtxUnlock, uthreadSwitch, held_deadCode]
    · have := hsig (unlock (.utPmut u) :: (uthreadMtxUnlock .reapMtx ++ [nopreemptOff, ret r]))
        (by simp [uthreadMtxUnlock])
      simp only [if_neg hne, List.append_nil, List.append_assoc, List.cons_append,
        List.nil_append] at this ⊢
      rw [this]
      simp [uthreadMtxUnlock]
  | joinWait u k hq hd hz hinit hs₁ hs =>
    have hcs : cs = [] := h.1
    subst hcs
    have : Held p (uthreadSwitch none false (some (.utPmut u)) ++
        [lock (.utPmut u), joinClaim u k]) ↔ _ := held_switch (by simp) (by simp)
    simpa using this
  | claim u k hz =>
    have hcs : cs = [] := h.1
    subst hcs
    simp [uthreadMtxLock]
  | detach u k hq hd hinit hs hnew =>
    have hcs : cs = [] := h.1
    subst hcs
    rcases hnew with ⟨-, rfl⟩ | ⟨-, rfl⟩
    · have := held_mtxLock (p := p) (m := .reapMtx) (c := [detachReap u k]) (by simp)
      simpa using this
    · simp
  | drain u hq hz =>
    have hcs : cs = [] := h.1
    subst hcs
    simp

theorem owns_mtxUnlock {m' : MtxId} :
    Owns m (uthreadMtxUnlock m' ++ c) ↔ m = m' ∨ Owns m c := by
  simp [uthreadMtxUnlock]

@[simp] theorem owns_wake (u : Fin N) : Owns m (uthreadWake u ++ c) ↔ Owns m c := by
  simp [uthreadWake]

@[simp] theorem owns_condSignal (cond : CondId) :
    Owns m (uthreadCondSignal cond ++ c) ↔ Owns m c := by
  simp [uthreadCondSignal]

theorem plain_owns (h : Wf t (i :: cs)) (he : Plain t s i new) (ho : Owns m (new ++ cs)) :
    Owns m (i :: cs) ∧ i ≠ unlockTest m ∨ m ∈ i.takes ∧ (s.mtx m).mOwner = some t := by
  cases he with
  | resume | yieldAssert | wakeAssert | waitDone | threadStart | wakeDrop | signalNone
  | broadcastNone | ret => left; simpa using ho
  | lockOwned m' hown =>
    by_cases hm : m = m'
    · subst hm; right; simpa using hown
    · left; simpa [hm] using ho
  | setprio | trylockFail | allocNone | allocReturnNone | allocReturn
  | allocStack | allocStackFail | joinFail | joinZombie | claimFail | detachFail
  | allocStart =>
    have hcs : cs = [] := h.1
    subst hcs
    simp at ho
  | reaperGo | reaperDrained | scanFound | scanNext =>
    have hcs : cs = [] := h.1
    subst hcs
    left; simpa using ho
  | reapableNot u hz =>
    left
    rcases h.1 with ⟨rfl, rfl⟩ | ⟨hne, r, rfl⟩ <;> simpa [uthreadMtxUnlock] using ho
  | reapLate u k rv hz | detachLate u k hz =>
    have hcs : cs = [] := h.1
    subst hcs
    left; simpa [uthreadMtxUnlock] using ho
  | reap u k rv hz | detachZombie u k hz =>
    have hcs : cs = [] := h.1
    subst hcs
    left; simpa using ho
  | reaperWait hq =>
    have hcs : cs = [] := h.1
    subst hcs
    left
    simp [uthreadCondWait, uthreadMtxUnlock, uthreadMtxLock, uthreadSwitch] at ho ⊢
    tauto

/-- **The code after an instruction owns no more**, unless the instruction takes the mutex. -/
theorem effect_owns (h : Wf t (i :: cs)) (he : Effect l t s i s' new) (ho : Owns m (new ++ cs)) :
    Owns m (i :: cs) ∧ i ≠ unlockTest m ∨ m ∈ i.takes ∧ (s'.mtx m).mOwner = some t := by
  cases he with
  | plain hp hs => rw [hs.mtx]; exact plain_owns h hp ho
  | lock | unlock | nopreemptOn | nopreemptOff | interruptLeave | swtch | wake | start
  | waitMark => left; simpa using ho
  | destroy d u =>
    have hcs : cs = [reaperDrain] := h.1
    subst hcs
    left
    cases d <;> simpa [destroyRest] using ho
  | setprio u prio hs hnew =>
    have hcs : cs = [] := h.1
    subst hcs
    rcases hnew with rfl | rfl <;> simp [uthreadYield, uthreadSwitch] at ho
  | take m' hown hs hnew =>
    rcases hnew with ⟨rfl, rfl⟩ | ⟨rfl, rfl⟩
    · by_cases hm : m = m'
      · subst hm; right; rw [hs.mtx]; simp
      · left; simpa [hm] using ho
    · have hcs : cs = [] := h.1
      subst hcs
      simp at ho
  | block m' hown => left; simpa [uthreadSwitch] using ho
  | release m' hq hs =>
    left
    have hne : m ≠ m' := by rintro rfl; exact h.1.2 (by simpa using ho)
    simpa [hne, hne.symm] using ho
  | handOver m' u hq hs =>
    left
    have ho' : Owns m cs := by simpa [uthreadWake] using ho
    have hne : m ≠ m' := by rintro rfl; exact h.1.2 ho'
    simpa [hne, hne.symm] using ho'
  | signal cond u hq hs hnew =>
    left
    rcases hnew with ⟨rfl, rfl⟩ | ⟨rfl, rfl⟩ <;> simpa [uthreadWake] using ho
  | alloc start prio j hj hs =>
    have hcs : cs = [] := h.1
    subst hcs
    simp at ho
  | create w tid prio =>
    have hcs : cs = [] := h.1
    subst hcs
    cases w <;> simp [createRest, uthreadStartonrunq] at ho
  | exitDetached u status hd =>
    obtain ⟨rfl, rfl⟩ := h.1
    left; simpa using ho
  | exitAlone u status hd hq =>
    obtain ⟨rfl, rfl⟩ := h.1
    left; simpa [owns_mtxUnlock] using ho
  | exitJoined u w status hd hq =>
    obtain ⟨rfl, rfl⟩ := h.1
    left; simpa [owns_mtxUnlock] using ho
  | makeReapable u hz hs₁ hs hnew =>
    subst hnew
    left
    rcases h.1 with ⟨rfl, rfl⟩ | ⟨hne, r, rfl⟩
    · simp [uthreadMtxUnlock, uthreadSwitch] at ho ⊢
      exact ho
    · simp [uthreadMtxUnlock, hne] at ho ⊢
      exact ho
  | joinWait u k hq hd hz hinit hs₁ hs =>
    have hcs : cs = [] := h.1
    subst hcs
    simp [uthreadSwitch] at ho
  | claim u k hz =>
    have hcs : cs = [] := h.1
    subst hcs
    simp [uthreadMtxLock] at ho
  | detach u k hq hd hinit hs hnew =>
    have hcs : cs = [] := h.1
    subst hcs
    rcases hnew with ⟨-, rfl⟩ | ⟨-, rfl⟩ <;> simp [uthreadMtxLock] at ho
  | drain u hq hz =>
    have hcs : cs = [] := h.1
    subst hcs
    left; simpa using ho

/-- What an instruction makes of the `ut_no_preempt_count` of its thread. -/
def Instr.count : Instr N → ℕ → ℕ
  | nopreemptOn, c => c + 1
  | nopreemptOff, c => c - 1
  | interruptLeave, _ => 0
  | _, c => c

theorem plain_depth (h : Wf t (i :: cs)) (he : Plain t s i new) :
    depth (new ++ cs) ≤ depth (i :: cs) ∧ i.count = id := by
  cases he with
  | resume | yieldAssert | wakeAssert | wakeDrop | lockOwned | waitDone | signalNone
  | broadcastNone | threadStart | ret => exact ⟨le_rfl, rfl⟩
  | setprio | trylockFail | allocNone | allocReturnNone | allocReturn
  | allocStack | allocStackFail | joinFail | joinZombie | claimFail | detachFail | reaperGo
  | reaperDrained | scanFound | scanNext | allocStart =>
    have hcs : cs = [] := h.1
    subst hcs
    exact ⟨by simp, rfl⟩
  | reapableNot u hz =>
    refine ⟨?_, rfl⟩
    rcases h.1 with ⟨rfl, rfl⟩ | ⟨hne, r, rfl⟩ <;> simp [uthreadMtxUnlock]
  | reapLate u k rv hz | detachLate u k hz =>
    have hcs : cs = [] := h.1
    subst hcs
    exact ⟨by simp [uthreadMtxUnlock], rfl⟩
  | reap u k rv hz | detachZombie u k hz =>
    have hcs : cs = [] := h.1
    subst hcs
    exact ⟨by simp, rfl⟩
  | reaperWait hq =>
    have hcs : cs = [] := h.1
    subst hcs
    exact ⟨by simp [uthreadCondWait, uthreadMtxUnlock, uthreadMtxLock, uthreadSwitch], rfl⟩

/-- **Preemption is switched on as often as before.** `d` is the `ut_no_preempt_count`. -/
theorem effect_depth (h : Wf t (i :: cs)) (he : Effect l t s i s' new)
    (hd : depth (i :: cs) ≤ (s.uthreads t).utNoPreemptCount) :
    new ++ cs = [nopreemptOff] ∨ depth (new ++ cs) ≤ i.count (s.uthreads t).utNoPreemptCount := by
  cases he with
  | plain hp hs =>
    obtain ⟨hle, hc⟩ := plain_depth h hp
    rw [hc]
    exact .inr (hle.trans hd)
  | lock | unlock | swtch | wake | start | waitMark => exact .inr hd
  | nopreemptOn => right; simp [Instr.count] at hd ⊢; omega
  | nopreemptOff => right; simp [Instr.count] at hd ⊢; omega
  | interruptLeave =>
    rcases h.1 with rfl | h0
    · exact .inl rfl
    · right; simpa [Instr.count] using h0
  | setprio u prio hs hnew =>
    right
    have hcs : cs = [] := h.1
    subst hcs
    refine le_trans ?_ hd
    rcases hnew with rfl | rfl <;> simp [uthreadYield, uthreadSwitch]
  | take m' hown hs hnew =>
    right
    rcases hnew with ⟨rfl, rfl⟩ | ⟨rfl, rfl⟩
    · simpa [Instr.count] using hd
    · have hcs : cs = [] := h.1
      subst hcs
      simpa [Instr.count] using hd
  | block m' hown => right; simpa [Instr.count, uthreadSwitch] using hd
  | release m' hq hs => right; simpa [Instr.count] using hd
  | handOver m' u hq hs => right; simpa [Instr.count, uthreadWake] using hd
  | signal cond u hq hs hnew =>
    right
    rcases hnew with ⟨rfl, rfl⟩ | ⟨rfl, rfl⟩ <;> simpa [Instr.count, uthreadWake] using hd
  | alloc start prio j hj hs =>
    right
    have hcs : cs = [] := h.1
    subst hcs
    simpa [Instr.count] using hd
  | create w tid prio =>
    right
    have hcs : cs = [] := h.1
    subst hcs
    cases w <;> simp [createRest, uthreadStartonrunq]
  | destroy d u =>
    right
    have hcs : cs = [reaperDrain] := h.1
    subst hcs
    cases d <;> simpa [Instr.count, destroyRest] using hd
  | exitDetached u status hd' =>
    right
    obtain ⟨rfl, rfl⟩ := h.1
    simpa [Instr.count] using hd
  | exitAlone u status hd' hq =>
    right
    obtain ⟨rfl, rfl⟩ := h.1
    simpa [Instr.count, uthreadMtxUnlock] using hd
  | exitJoined u w status hd' hq =>
    right
    obtain ⟨rfl, rfl⟩ := h.1
    simpa [Instr.count, uthreadMtxUnlock, uthreadWake] using hd
  | makeReapable u hz hs₁ hs hnew =>
    right
    subst hnew
    rcases h.1 with ⟨rfl, rfl⟩ | ⟨hne, r, rfl⟩
    · simpa [Instr.count, uthreadMtxUnlock, uthreadSwitch, uthreadCondSignal] using hd
    · simpa [Instr.count, uthreadMtxUnlock, uthreadCondSignal, hne] using hd
  | joinWait u k hq hd' hz hinit hs₁ hs =>
    right
    have hcs : cs = [] := h.1
    subst hcs
    simpa [Instr.count, uthreadSwitch] using hd
  | claim u k hz =>
    right
    have hcs : cs = [] := h.1
    subst hcs
    simpa [Instr.count, uthreadMtxLock] using hd
  | detach u k hq hd' hinit hs hnew =>
    right
    have hcs : cs = [] := h.1
    subst hcs
    rcases hnew with ⟨-, rfl⟩ | ⟨-, rfl⟩ <;> simpa [Instr.count, uthreadMtxLock] using hd
  | drain u hq hz =>
    right
    have hcs : cs = [] := h.1
    subst hcs
    simpa [Instr.count] using hd

end Uthreads
