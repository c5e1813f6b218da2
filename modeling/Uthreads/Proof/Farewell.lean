import Uthreads.Proof.Debt
import Uthreads.Proof.Joiner

/-!
# The last steps of a thread

A joinable thread that has ended holds its `ut_pmut` until its LWP has left its stack (`Dying`); its
exit value is the one that it was given by its own call of `uthread_exit`.
-/

namespace Uthreads

variable {N L : ℕ} {l k : Fin L} {t u v : Fin N} {s s' s₁ : State N L} {i : Instr N} {c cs new : Code N}
  {a : Act}

open Instr

/-- The instructions of a dead thread in front of its switch. -/
@[simp] def Instr.parting : Instr N → Bool
  | lock (.utPmut _) | unlock (.utPmut _) => false
  | lock _ | unlock _ | nopreemptOn | nopreemptOff | wakeAssert _ | wakeTest _ | unlockTest _ => true
  | _ => false

/-- The code of a dead joinable thread on its stack. -/
def Dying (u : Fin N) (c : Code N) : Prop :=
  ∃ pre, c = pre ++ [swtch none false (some (.utPmut u)), resume, panicDead] ∧
    ∀ i ∈ pre, i.parting = true

theorem effect_parting (he : Effect l t s i s₁ new) (hi : i.parting = true) :
    ∀ j ∈ new, j.parting = true := by
  cases he with
  | plain hp => cases hp <;> simp at hi ⊢
  | take _ _ _ hnew | signal _ _ _ _ hnew =>
    rcases hnew with ⟨rfl, -⟩ | ⟨rfl, -⟩ <;> simp at hi
  | handOver => simp [uthreadWake]
  | release => simp
  | lock | unlock | nopreemptOn | nopreemptOff | wake => simp
  | _ => simp at hi

/-- A dying thread holds its `ut_pmut`. -/
theorem Dying.held (h : Dying u c) : Held (.utPmut u) c := by
  obtain ⟨pre, rfl, hpre⟩ := h
  induction pre with
  | nil => simp
  | cons i pre ih =>
    have hi := hpre i List.mem_cons_self
    have hrest := ih fun j hj => hpre j (List.mem_cons_of_mem i hj)
    refine .inr ⟨?_, ?_, hrest⟩
    · cases i <;> simp at hi ⊢
      rintro rfl
      simp at hi
    · rintro rfl
      simp at hi

theorem Dying.step (h : Dying u (i :: cs)) (he : Effect l t s i s₁ new)
    (hsw : ∀ q sv m, i ≠ swtch q sv m) : Dying u (new ++ cs) := by
  obtain ⟨pre, hc, hpre⟩ := h
  cases pre with
  | nil => exact absurd (List.cons.inj hc).1 (hsw _ _ _)
  | cons i' pre =>
    obtain ⟨rfl, rfl⟩ := List.cons.inj hc
    refine ⟨new ++ pre, by simp, fun j hj => ?_⟩
    rcases List.mem_append.1 hj with hj | hj
    · exact effect_parting he (hpre i List.mem_cons_self) j hj
    · exact hpre j (List.mem_cons_of_mem i hj)

/-- The end of a thread that is not detached. -/
theorem effect_dying {status : ℤ} (he : Effect l t s (exitTest u status) s₁ new)
    (hd : (s.uthreads u).utDetached = false) : Dying u new := by
  cases he with
  | plain hp => cases hp
  | take _ _ _ h | signal _ _ _ _ h => rcases h with ⟨h, -⟩ | ⟨h, -⟩ <;> cases h
  | exitDetached _ _ h => rw [hd] at h; cases h
  | exitAlone =>
    exact ⟨uthreadMtxUnlock .reapMtx ++ [lock .runqMtx], by simp [deadCode, uthreadSwitch],
      by simp [uthreadMtxUnlock]⟩
  | exitJoined _ w =>
    exact ⟨uthreadWake w ++ uthreadMtxUnlock .reapMtx ++ [lock .runqMtx],
      by simp [deadCode, uthreadSwitch], by simp [uthreadMtxUnlock, uthreadWake]⟩

/-- A dead thread is not dispatched. -/
theorem Core.undead (hc : Core s) (hz : (s.uthreads u).utState = .zombie)
    (hcur : (s.lwps k).utCurthr = some u) : (s.lwps k).mode ≠ .dispatching := by
  intro hm
  cases hc.places.place u with
  | free off | created off | queued off | waiting _ off | woken off | razed off => exact off k hcur
  | active l cur mode st =>
    rcases mode with hm' | ⟨-, hr⟩
    · rw [hc.places.cur k l u hcur cur, hm'] at hm; cases hm
    · rw [hz] at st
      simp [expect, hr.1, hr.2] at st
  | leaving _ _ _ _ _ st => rw [st] at hz; cases hz
  | dead off =>
    rcases off with off | ⟨l, cur, hm'⟩
    · exact off k hcur
    · rw [hc.places.cur k l u hcur cur, hm'] at hm; cases hm

/-- Who is dead and off its stack stays there. -/
theorem off_turn (hc : Core s) (h : Turn s l a s') (hz : (s.uthreads u).utState = .zombie)
    (hoff : ∀ k, ¬ OnStack s k u) (k : Fin L) : ¬ OnStack s' k u := by
  intro hon'
  cases h with
  | @thread _ t i cs new s₁ hon hcode he =>
    by_cases hk : k = l
    · subst hk
      obtain ⟨rfl, -⟩ := ((onStack_thread hon he (k := k)).2).1 hon'
      exact hoff k hon
    · exact hoff k (((onStack_thread hon he).1 hk).1.1 hon')
  | call t c hon hcode => exact hoff k hon'
  | preempt t hon =>
    refine hoff k ?_
    unfold OnStack at hon' ⊢
    by_cases hk : k = l
    · subst hk; simpa using hon'
    · simpa [hk] using hon'
  | lwp hb =>
    rcases hb.resumes k u hon' with h | ⟨hm, hcur⟩
    · exact hoff k h
    · exact hc.undead hz hcur hm

/-- **The code of a dead thread on its stack** has the property `P` if `uthread_exit` gives it, and the
thread's instructions but the switch keep it. -/
theorem farewell_step {P : Code N → Prop} (hc : Core s)
    (hexit : ∀ {status s₁ new}, (s.uthreads u).utState ≠ .zombie →
      Effect l u s (exitTest u status) s₁ new → P new)
    (hstep : ∀ {i cs new s₁}, (s.uthreads u).utState = .zombie → P (i :: cs) → Effect l u s i s₁ new →
      (∀ q sv m, i ≠ swtch q sv m) → P (new ++ cs))
    (hi : ∀ k, OnStack s k u → (s.uthreads u).utState = .zombie → P (s.uthreads u).utCtx)
    (h : Turn s l a s') : ∀ k, OnStack s' k u → (s'.uthreads u).utState = .zombie →
      P (s'.uthreads u).utCtx := by
  intro k hon' hz'
  -- a step that leaves its code
  have hsame : (s'.uthreads u).utCtx = (s.uthreads u).utCtx → (s.uthreads u).utState = .zombie →
      P (s'.uthreads u).utCtx := by
    intro hcode hz
    rw [hcode]
    by_cases hon : ∃ k, OnStack s k u
    · obtain ⟨k, hon⟩ := hon
      exact hi k hon hz
    · exact absurd hon' (off_turn hc h hz (fun k hk => hon ⟨k, hk⟩) k)
  cases h with
  | @thread _ t i cs new s₁ hon hcode he =>
    have hwf := hc.codes.wf t
    rw [hcode] at hwf
    rw [setCtx_utState] at hz'
    by_cases hu : u = t
    · subst hu
      have hk : k = l := by
        by_contra hne
        exact hne (hc.places.cur k l u (((onStack_thread hon he).1 hne).1.1 hon').2 hon.2)
      subst hk
      have hsw := (((onStack_thread hon he (k := k)).2).1 hon').2
      rw [setCtx_self]
      by_cases hz : (s.uthreads u).utState = .zombie
      · have hP := hi k hon hz
        rw [hcode] at hP
        exact hstep hz hP he hsw
      · -- it ends in this step
        cases effect_state he u with
        | same h => rw [h] at hz'; exact absurd hz' hz
        | saved _ _ _ h' | woken _ _ h' | started _ _ _ h' | blocked _ _ h' | allocated _ _ _ _ h'
        | destroyed _ h' => rw [h'] at hz'; cases hz'
        | exited status hx =>
          subst hx
          obtain ⟨-, rfl⟩ := hwf.1
          rw [List.append_nil]
          exact hexit hz he
    · have hz : (s.uthreads u).utState = .zombie := by
        by_cases hx : ∃ status, i = exitTest u status
        · obtain ⟨status, rfl⟩ := hx
          exact absurd hwf.1.1 hu
        · by_cases hdy : i = destroy .state u
          · subst hdy
            simp [(effect_destroy he).1] at hz'
          · exact (effect_ended hc hon hcode he (fun x hi => hx ⟨x, hi⟩) hdy).1 hz'
      rcases other_code cs he hu with e | ⟨-, hv, -⟩
      · exact hsame e hz
      · exact absurd hz hv.2.1
  | call t c hon hcode =>
    have hz : (s.uthreads u).utState = .zombie := by simpa using hz'
    by_cases hu : u = t
    · subst hu
      rw [(hc.active hon).1, hcode] at hz
      simp [expect, asleep] at hz
    · exact hsame (by simp [hu]) hz
  | preempt t hon hm hst =>
    have hz : (s.uthreads u).utState = .zombie := by simpa using hz'
    by_cases hu : u = t
    · subst hu
      rw [hst] at hz
      cases hz
    · exact hsame (by simp [hu]) hz
  | lwp hb =>
    refine hsame (hb.fields u).1 ?_
    rcases hb.state u with ⟨e, -⟩ | ⟨-, e, -⟩ <;> rw [e] at hz'
    · exact hz'
    · cases hz'

/-- **A joinable thread that has ended holds its `ut_pmut` while it is on its stack.** -/
theorem dying_step (hc : Core s)
    (hd : (s.uthreads u).utDetached = true → (s.uthreads u).utState = .zombie)
    (hi : ∀ k, OnStack s k u → (s.uthreads u).utState = .zombie → Dying u (s.uthreads u).utCtx)
    (h : Turn s l a s') : ∀ k, OnStack s' k u → (s'.uthreads u).utState = .zombie →
      Dying u (s'.uthreads u).utCtx :=
  farewell_step hc (fun hz he => effect_dying he (Bool.eq_false_iff.2 fun hd' => hz (hd hd')))
    (fun _ hdy he hsw => hdy.step he hsw) hi h

/-! ## The exit value -/

/-- Only its own exit sets the exit value of a thread that has been set up. -/
theorem effect_utExit (he : Effect l t s i s₁ new) (v : Fin N) :
    (s₁.uthreads v).utExit = (s.uthreads v).utExit ∨
      (∃ status, i = exitTest v status ∧ (s₁.uthreads v).utExit = status) ∨
      (∃ prio, i = createInit .exit v prio) ∨ i = destroy .exit v := by
  have hrest : ∀ {f : Uthread N}, s₁.uthreads v = f → f.utExit = (s.uthreads v).utExit →
      (s₁.uthreads v).utExit = (s.uthreads v).utExit ∨
      (∃ status, i = exitTest v status ∧ (s₁.uthreads v).utExit = status) ∨
      (∃ prio, i = createInit .exit v prio) ∨ i = destroy .exit v := fun h h₁ => .inl (by rw [h, h₁])
  cases he with
  | plain hp hs => exact hrest (by rw [hs.uthreads]) rfl
  | lock | unlock => exact hrest rfl rfl
  | nopreemptOn | nopreemptOff | interruptLeave | block | claim => exact hrest rfl (by simp)
  | swtch hsw =>
    cases hsw with
    | yield hz hs₁ =>
      obtain ⟨lk, h⟩ := runqEnqueue_rest_thread hs₁ v
      exact hrest h (by simp)
    | queue q p hs₁ hs =>
      obtain ⟨lk, h⟩ := enqueue_rest_thread hs₁ v
      exact hrest ((congrFun hs.uthreads v).trans h) rfl
    | leave | gone => exact hrest rfl rfl
  | wake u hw hs | start u prio hw hs =>
    obtain ⟨lk, h⟩ := runqEnqueue_rest_thread hs v
    exact hrest h (by simp)
  | setprio u prio hs hnew =>
    rcases hs with ⟨rfl, -⟩ | ⟨-, hr⟩
    · exact hrest rfl (by simp)
    · obtain ⟨lk, h⟩ := requeue_rest_thread hr v
      exact hrest h (by simp)
  | take _ _ hs | release _ _ hs => exact hrest (by rw [hs.uthreads]; rfl) rfl
  | waitMark _ hs | alloc _ _ _ _ hs | detach _ _ _ _ _ hs => exact hrest (by rw [hs.uthreads]) (by simp)
  | handOver m u hq hs | signal c u hq hs =>
    obtain ⟨lk, h⟩ := dequeue_rest_thread hq v
    exact hrest ((congrFun hs.uthreads v).trans h) rfl
  | create w u prio =>
    by_cases hv : w = .exit ∧ v = u
    · obtain ⟨rfl, rfl⟩ := hv
      exact .inr (.inr (.inl ⟨prio, rfl⟩))
    · exact .inl (by simp [hv])
  | exitDetached u status | exitAlone u status =>
    by_cases hv : v = u
    · subst hv; exact .inr (.inl ⟨status, rfl, by simp⟩)
    · exact hrest rfl (by simp [hv])
  | exitJoined u w status hd hq =>
    obtain ⟨lk, h⟩ := dequeue_rest_thread hq v
    by_cases hv : v = u
    · subst hv; exact .inr (.inl ⟨status, rfl, by rw [h]; simp⟩)
    · exact hrest h (by simp [hv])
  | makeReapable u hz hs₁ hs =>
    obtain ⟨lk, h⟩ := enqueue_rest_thread hs₁ v
    exact hrest ((congrFun hs.uthreads v).trans h) rfl
  | joinWait u k hq hd hz hinit hs₁ hs =>
    obtain ⟨lk, h⟩ := enqueue_rest_thread hs₁ v
    exact hrest ((congrFun hs.uthreads v).trans h) (by simp)
  | drain u hq =>
    obtain ⟨lk, h⟩ := dequeue_rest_thread hq v
    exact hrest h rfl
  | destroy d u =>
    by_cases hv : d = .exit ∧ v = u
    · obtain ⟨rfl, rfl⟩ := hv
      exact .inr (.inr (.inr rfl))
    · exact .inl (by simp [hv])

/-- Every exit of `u` that is still to come is with the value `x`. -/
def ExitsWith (u : Fin N) (x : ℤ) (s : State N L) : Prop :=
  ∀ status, exitTest u status ∈ (s.uthreads u).utCtx → status = x

theorem exits_turn {x : ℤ} (hx : ExitsWith u x s)
    (hcall : OnStack s l u → ∀ status, a = .call (.exit status) → status = x)
    (h : Turn s l a s') : ExitsWith u x s' := by
  intro status hm
  cases code_turn h u with
  | same e => rw [e] at hm; exact hx status hm
  | @thread i cs new s₁ hon hcode he e =>
    rw [e, List.mem_append] at hm
    rcases hm with hm | hm
    · have := effect_entry he _ hm
      simp at this
    · exact hx status (by rw [hcode]; exact List.mem_cons_of_mem i hm)
  | create t prio cs hon hcode hv e => rw [e] at hm; simp [threadStartCode] at hm
  | call c ha hon hcode e =>
    rw [e] at hm
    obtain ⟨status', rfl, e'⟩ := call_entry _ _ c hm rfl
    cases e'
    exact hcall hon status ha
  | preempt ha hon hst h0 e =>
    rw [e] at hm
    exact hx status (by simpa [clockInterrupt, uthreadYield, uthreadSwitch] using hm)

end Uthreads
