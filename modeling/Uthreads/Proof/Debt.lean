import Uthreads.Proof.Turn

/-!
# What a code owes

`debt c` is the number of `uthread_nopreempt_off` that the code `c` executes over and above its
`uthread_nopreempt_on`. `effect_debt`: an instruction changes the debt by what it does to the count
(`effect_pays`). `effect_entry`, `call_entry`: where the instructions come from that need the count
at zero.
-/

namespace Uthreads

variable {N L : ℕ} {l : Fin L} {t : Fin N} {s s₁ : State N L} {i : Instr N} {c cs new : Code N}

open Instr

/-- The debt of a code, given that of the rest. -/
@[simp] def Instr.debtBefore (d : ℤ) : Instr N → ℤ
  | nopreemptOn => d - 1
  | nopreemptOff | interruptLeave | setprioTest _ _ | lockTest _ | trylockTest _ | unlockTest _
  | allocScan _ _ | allocStack _ _ | joinTest _ _ | joinClaim _ _ | joinReap _ _ _ | detachTest _ _
  | detachReap _ _ | destroy .stack _ => d + 1
  | panicDead | exitTest _ _ | reaperWait | reaperDrain | reaperScan _ => 1
  | _ => d

/-- How often the code switches preemption on again more than it switches it off. -/
def debt : Code N → ℤ
  | [] => 0
  | i :: cs => i.debtBefore (debt cs)

@[simp] theorem debt_nil : debt ([] : Code N) = 0 := rfl

@[simp] theorem debt_cons (i : Instr N) (cs : Code N) : debt (i :: cs) = i.debtBefore (debt cs) := rfl

/-- The debt that the execution of an instruction pays. -/
def Instr.pays : Instr N → ℤ
  | nopreemptOn => -1
  | nopreemptOff | interruptLeave => 1
  | _ => 0

theorem plain_debt (h : Ok t i cs) (he : Plain t s i new) :
    debt (new ++ cs) + i.pays = debt (i :: cs) := by
  cases he with
  | resume | yieldAssert | wakeAssert | wakeDrop | lockOwned | waitDone | signalNone
  | broadcastNone | threadStart | ret => exact add_zero _
  | setprio | trylockFail | allocNone | allocReturnNone | allocReturn
  | allocStack | allocStackFail | joinFail | joinZombie | claimFail | detachFail | reaperGo
  | reaperDrained | scanFound | scanNext | allocStart =>
    have hcs : cs = [] := h
    subst hcs
    simp [pays]
  | reapableNot u hz =>
    rcases h with ⟨rfl, rfl⟩ | ⟨hne, r, rfl⟩ <;> simp [uthreadMtxUnlock, pays]
  | reapLate | detachLate =>
    have hcs : cs = [] := h
    subst hcs
    simp [uthreadMtxUnlock, pays]
  | reap | detachZombie =>
    have hcs : cs = [] := h
    subst hcs
    simp [pays]
  | reaperWait =>
    have hcs : cs = [] := h
    subst hcs
    simp [uthreadCondWait, uthreadMtxUnlock, uthreadMtxLock, uthreadSwitch, pays]

/-- **The books balance.** What an instruction puts in front owes what the instruction owed, less what
its execution pays. -/
theorem effect_debt (h : Ok t i cs) (he : Effect l t s i s₁ new) :
    debt (new ++ cs) + i.pays = debt (i :: cs) := by
  cases he with
  | plain hp => exact plain_debt h hp
  | lock | unlock | swtch | wake | start | waitMark => exact add_zero _
  | nopreemptOn | nopreemptOff | interruptLeave => simp [pays, sub_eq_add_neg]
  | setprio u prio hs hnew =>
    have hcs : cs = [] := h
    subst hcs
    rcases hnew with rfl | rfl <;> simp [uthreadYield, uthreadSwitch, pays]
  | take m ho hs hnew =>
    rcases hnew with ⟨rfl, rfl⟩ | ⟨rfl, rfl⟩ <;> simp [pays]
  | block => simp [uthreadSwitch, pays]
  | release => simp [pays]
  | handOver => simp [uthreadWake, pays]
  | signal c u hq hs hnew =>
    rcases hnew with ⟨rfl, rfl⟩ | ⟨rfl, rfl⟩ <;> simp [uthreadWake, pays]
  | alloc => simp [pays]
  | create w =>
    have hcs : cs = [] := h
    subst hcs
    cases w <;> simp [createRest, uthreadStartonrunq, pays]
  | destroy d =>
    have hcs : cs = [reaperDrain] := h
    subst hcs
    cases d <;> simp [destroyRest, pays]
  | exitDetached u status =>
    obtain ⟨rfl, rfl⟩ := h
    simp [deadCode, uthreadSwitch, pays]
  | exitAlone u status =>
    obtain ⟨rfl, rfl⟩ := h
    simp [uthreadMtxUnlock, deadCode, uthreadSwitch, pays]
  | exitJoined u w status =>
    obtain ⟨rfl, rfl⟩ := h
    simp [uthreadMtxUnlock, uthreadWake, deadCode, uthreadSwitch, pays]
  | makeReapable u hz hs₁ hs hnew =>
    subst hnew
    rcases h with ⟨rfl, rfl⟩ | ⟨hne, r, rfl⟩
    · simp [uthreadMtxUnlock, uthreadSwitch, uthreadCondSignal, deadCode, pays]
    · simp [uthreadMtxUnlock, uthreadCondSignal, hne, pays]
  | joinWait => simp [uthreadSwitch, pays]
  | claim => simp [uthreadMtxLock, pays]
  | detach u k hq hd hinit hs hnew => rcases hnew with ⟨-, rfl⟩ | ⟨-, rfl⟩ <;> simp [uthreadMtxLock, pays]
  | drain => simp [pays]

/-- The count goes down by what the instruction pays. -/
theorem effect_pays (hc : Core s) (hon : OnStack s l t) (hcode : (s.uthreads t).utCtx = i :: cs)
    (he : Effect l t s i s₁ new) :
    ((s₁.uthreads t).utNoPreemptCount : ℤ) + i.pays = (s.uthreads t).utNoPreemptCount := by
  rw [self_count hc hon hcode he]
  cases i with
  | nopreemptOn => simp [count, pays]
  | nopreemptOff =>
    have := effect_off he
    simp only [count, pays]
    omega
  | interruptLeave =>
    have := effect_leave he
    simp [count, pays, this]
  | _ => exact add_zero _

/-- The debt of a call. -/
theorem call_debt (inc : Fin N → ℕ) (t : Fin N) (c : Call) : debt (c.code inc t) =
    match c with
    | .nopreemptOn => -1
    | .nopreemptOff => 1
    | _ => 0 := by
  cases c with
  | join uid => simp only [Call.code, uthreadJoin]; split <;> simp
  | detach uid => simp only [Call.code, uthreadDetach]; split <;> simp
  | setprio uid prio =>
    simp only [Call.code, uthreadSetprio]
    split
    · simp
    · split <;> simp
  | _ => simp [Call.code, uthreadCreate, uthreadExit, uthreadMtxLock, uthreadYield, uthreadSwitch,
      uthreadMtxTrylock, uthreadMtxUnlock, uthreadCondWait, uthreadCondSignal, uthreadCondBroadcast]

/-- The instructions that only a call, an interrupt or the start of a thread brings in. -/
@[simp] def Instr.entry : Instr N → Bool
  | interruptLeave | threadStart | exitTest _ _ => true
  | _ => false

theorem effect_entry (he : Effect l t s i s₁ new) : ∀ j ∈ new, j.entry = false := by
  intro j hj
  cases j with
  | interruptLeave | threadStart | exitTest => exact (effect_before he _ hj).elim
  | _ => rfl

theorem call_entry (inc : Fin N → ℕ) (t : Fin N) (c : Call) {j : Instr N} (hj : j ∈ c.code inc t)
    (he : j.entry = true) : ∃ status, c = .exit status ∧ j = exitTest t status := by
  have hnone : (∀ x ∈ c.code inc t, x.entry = false) →
      ∃ status, c = .exit status ∧ j = exitTest t status := fun h => by
    rw [h j hj] at he
    cases he
  cases c with
  | exit status =>
    refine ⟨status, rfl, ?_⟩
    simp only [Call.code, uthreadExit, uthreadMtxLock, List.mem_append, List.mem_cons,
      List.not_mem_nil, or_false] at hj
    rcases hj with (rfl | rfl | rfl | rfl) | rfl | rfl <;> first | rfl | cases he
  | join uid => exact hnone (by simp only [Call.code, uthreadJoin]; split <;> simp)
  | detach uid => exact hnone (by simp only [Call.code, uthreadDetach]; split <;> simp)
  | setprio uid prio =>
    refine hnone ?_
    simp only [Call.code, uthreadSetprio]
    split
    · simp
    · split <;> simp
  | _ => exact hnone (by simp [Call.code, uthreadCreate, uthreadMtxLock, uthreadYield, uthreadSwitch,
      uthreadMtxTrylock, uthreadMtxUnlock, uthreadCondWait, uthreadCondSignal, uthreadCondBroadcast])

/-- The instructions behind which a thread runs with its count at zero, but for the calls of
`uthread_nopreempt_on` that are open. -/
@[simp] def Instr.zeroes : Instr N → Bool
  | interruptLeave | threadStart => true
  | _ => false

theorem Instr.entry_of_zeroes {j : Instr N} (h : j.zeroes = true) : j.entry = true := by
  cases j <;> simp at h ⊢

/-- What stands behind such an instruction stays as the code in front of it is executed. -/
theorem suffix_kept {p : Code N} (hp : ∀ j ∈ p, j.zeroes = false) (hi : i.zeroes = true)
    (h : i :: cs <:+ p ++ c) : i :: cs <:+ c := by
  induction p with
  | nil => exact h
  | cons j p ih =>
    rcases List.suffix_cons_iff.1 h with e | h
    · have := hp j List.mem_cons_self
      rw [← (List.cons.inj e).1, hi] at this
      cases this
    · exact ih (fun k hk => hp k (List.mem_cons_of_mem j hk)) h

end Uthreads
