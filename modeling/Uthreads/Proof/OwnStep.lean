import Uthreads.Proof.MaskStep

/-!
# Who owns a uthread mutex

`own_step`: if a call unlocks or waits with `m` only while its thread owns `m`, then every
operation on `m` that needs to own it finds it owned. No call of the user does so with the reaper's
`reap_mtx`.
-/

namespace Uthreads

variable {N L : ℕ} {l : Fin L} {t u : Fin N} {s s' s₁ : State N L} {i : Instr N} {cs new : Code N}
  {m : MtxId}

open Instr

/-- The owner of `m` after an instruction, while another thread owns it. -/
theorem kept_owner (he : Effect l t s i s₁ new) (hu : (s.mtx m).mOwner = some u)
    (hi : i ≠ unlockTest m) : (s₁.mtx m).mOwner = some u := by
  by_cases hm : i ≠ lockTest m ∧ i ≠ trylockTest m
  · rw [effect_mtx he m ⟨hm.1, hm.2, hi⟩, hu]
  · cases he with
    | plain hp hs => rw [hs.mtx, hu]
    | take m' ho hs hnew =>
      have hmm : m' = m := by
        rcases hnew with ⟨rfl, -⟩ | ⟨rfl, -⟩ <;> by_contra hne <;> simp [hne] at hm
      rw [hmm, hu] at ho
      cases ho
    | signal _ _ _ _ hnew => rcases hnew with ⟨rfl, -⟩ | ⟨rfl, -⟩ <;> simp at hm
    | block => exact hu
    | _ => simp at hm

theorem own_thread (hc : Core s) (ho : OwnInv m s) (hcode : (s.uthreads t).utCtx = i :: cs)
    (he : Effect l t s i s₁ new) : OwnInv m (s₁.setCtx t (new ++ cs)) := by
  have hwf := hc.codes.wf t
  rw [hcode] at hwf
  intro u hown
  rw [State.setCtx_mtx]
  by_cases hu : u = t
  · subst hu
    rcases effect_owns hwf he (by simpa using hown) with ⟨h, hi⟩ | ⟨-, h⟩
    · exact kept_owner he (ho u (by rw [hcode]; exact h)) hi
    · exact h
  · have hown' : Owns m (s.uthreads u).utCtx := by
      rcases other_code cs he hu with e | ⟨-, -, e⟩
      · rwa [e] at hown
      · rw [e] at hown
        simp [threadStartCode] at hown
    refine kept_owner he (ho u hown') ?_
    rintro rfl
    have := ho t (by rw [hcode]; exact .inl (by simp))
    rw [ho u hown'] at this
    exact hu (Option.some.inj this)

/-- **Every step keeps the owners.** -/
theorem own_step {a : Act} (hc : Core s) (ho : OwnInv m s) (h : Move s l a s')
    (hcall : ∀ t c, a = .call c → OnStack s l t → Owns m (c.code s.incarnation t) →
      (s.mtx m).mOwner = some t) : OwnInv m s' := by
  cases h with
  | halted e => exact ho
  | thread t i cs new hon hcode he => exact own_thread hc ho hcode he
  | call t c hon hcode =>
    intro u hown
    by_cases hu : u = t
    · subst hu
      exact hcall u c rfl hon (by simpa using hown)
    · exact ho u (by simpa [hu] using hown)
  | preempt t hon hm hst h0 =>
    intro u hown
    by_cases hu : u = t
    · subst hu
      exact ho u (by simpa [clockInterrupt, uthreadYield, uthreadSwitch] using hown)
    · exact ho u (by simpa [hu] using hown)
  | acquire _ _ _ _ hs | idle _ _ hs | leave _ _ _ hs =>
    intro u hown
    rw [hs.mtx]
    exact ho u (by simpa [hs.uthreads] using hown)
  | unlock p hm hown => exact ho
  | dispatch t hm hd =>
    obtain ⟨p, x, -, -, rfl⟩ := dispatchBody_some hd
    intro u hown
    exact ho u (by simpa [State.setState] using hown)

/-- The uthread mutex that the call unlocks. -/
def Call.unlocks : Call → Option MtxId
  | mtxUnlock i | condWait _ i => some (.user i)
  | _ => none

@[simp] def Act.unlocks : Act → Option MtxId
  | call c => c.unlocks
  | _ => none

/-- The calls of the user use the other mutexes, also `reap_mtx`, not before they lock them. -/
theorem call_owns (inc : Fin N → ℕ) (t : Fin N) (c : Call) (hown : Owns m (c.code inc t)) :
    c.unlocks = some m := by
  cases c with
  | mtxUnlock i | condWait _ i =>
    simpa [Call.code, Call.unlocks, uthreadMtxUnlock, uthreadCondWait, uthreadSwitch, uthreadMtxLock,
      eq_comm] using hown
  | create | exit | yield | mtxLock | mtxTrylock | condSignal | condBroadcast | nopreemptOn
  | nopreemptOff =>
    simp [Call.code, uthreadCreate, uthreadExit, uthreadYield, uthreadSwitch, uthreadMtxLock,
      uthreadMtxTrylock, uthreadCondSignal, uthreadCondBroadcast] at hown
  | join uid =>
    simp only [Call.code, uthreadJoin] at hown
    split at hown <;> simp at hown
  | detach uid =>
    simp only [Call.code, uthreadDetach] at hown
    split at hown <;> simp at hown
  | setprio uid prio =>
    simp only [Call.code, uthreadSetprio] at hown
    split at hown
    · simp at hown
    · split at hown <;> simp at hown

theorem reap_step {a : Act} (hc : Core s) (h : Move s l a s') : OwnInv .reapMtx s' := by
  refine own_step hc hc.reap h fun t c _ _ hown => ?_
  have := call_owns s.incarnation t c hown
  cases c <;> cases this

end Uthreads
