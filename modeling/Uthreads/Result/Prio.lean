import Uthreads.Proof.Turn

/-!
# Priorities

`uthread_setprio` rejects a priority outside `0..UTH_MAXPRIO`; `uthread_create` does not look at its
priority, and sets `ut_prio` to -1 in the slot that it was told. `prio_in_range`: as long as the callers
of `uthread_create` keep to the range and it writes to no slot that is in use, every started thread has
a priority inside the range and every access to `runq_table` is inside the table.
`create_unchecked`: one call that does not keep to it makes the library write outside the table.
-/

namespace Uthreads

variable {N L : ℕ} {l : Fin L} {t v : Fin N} {s s' s₁ : State N L} {i : Instr N} {cs new : Code N}
  {a : Act}

open Instr

/-- `prio` is an index of `runq_table`. -/
def InRange (prio : ℤ) : Prop := 0 ≤ prio ∧ prio ≤ uthMaxprio

instance (prio : ℤ) : Decidable (InRange prio) := inferInstanceAs (Decidable (_ ∧ _))

/-- The slot has a thread that has been started. -/
def UthreadState.started (st : UthreadState) : Prop := st ≠ .noState ∧ st ≠ .transition

/-- The priorities that an instruction is going to use. -/
@[simp] def Instr.prios : Instr N → List ℤ
  | setprioTest _ prio | startTest _ prio | allocStart prio | allocScan _ prio | allocReturn _ prio
  | allocStack _ prio | createInit _ _ prio => [prio]
  | _ => []

/-- What the instruction `i` does to the `ut_prio` of `v`. -/
inductive PrioStep (v : Fin N) (i : Instr N) (prio prio' : ℤ) : Prop
  | same (h : prio' = prio)
  | set (hi : i = setprioTest v prio' ∨ i = startTest v prio')
  | created (pr : ℤ) (hi : i = createInit .prio v pr)

/-- **The priorities.** -/
theorem effect_prio (he : Effect l t s i s₁ new) (v : Fin N) :
    PrioStep v i (s.uthreads v).utPrio (s₁.uthreads v).utPrio := by
  cases he with
  | plain hp hs => exact .same (by rw [hs.uthreads])
  | lock | unlock => exact .same rfl
  | nopreemptOn | nopreemptOff | interruptLeave | claim | block | exitDetached | exitAlone =>
    exact .same (by simp)
  | swtch hsw =>
    cases hsw with
    | yield hz hs₁ => exact .same ((runqEnqueue_thread hs₁ v).2.2.1.trans (by simp))
    | queue q p hs₁ hs => exact .same (by rw [hs.uthreads]; exact (enqueue_thread hs₁ v).2.2.1)
    | leave | gone => exact .same rfl
  | wake u hw hs => exact .same ((runqEnqueue_thread hs v).2.2.1.trans (by simp))
  | start u prio hw hs =>
    have h := (runqEnqueue_thread hs v).2.2.1
    by_cases hv : v = u
    · subst hv
      rw [h]
      exact .set (.inr (by simp))
    · exact .same (h.trans (by simp [hv]))
  | setprio u prio hs hnew =>
    by_cases hv : v = u
    · subst hv
      refine .set (.inl ?_)
      rcases hs with ⟨rfl, -⟩ | ⟨-, hr⟩
      · simp
      · rw [(requeue_thread hr v).2.2.1]; simp
    · refine .same ?_
      rcases hs with ⟨rfl, -⟩ | ⟨-, hr⟩
      · simp [hv]
      · rw [(requeue_thread hr v).2.2.1]; simp [hv]
  | take m ho hs | release m hq hs | waitMark c hs | alloc start prio j hj hs
  | detach u k hq hd hinit hs => exact .same (by simp [hs.uthreads])
  | handOver m u hq hs | signal c u hq hs =>
    exact .same (by rw [hs.uthreads]; exact (dequeue_thread hq v).2.2.1)
  | create w u prio =>
    by_cases h : w = .prio ∧ v = u
    · obtain ⟨rfl, rfl⟩ := h
      exact .created prio rfl
    · exact .same (by rw [createWrite_utPrio, if_neg h])
  | exitJoined u w status hd hq => exact .same ((dequeue_thread hq v).2.2.1.trans (by simp))
  | makeReapable u hz hs₁ hs => exact .same (by rw [hs.uthreads, (enqueue_thread hs₁ v).2.2.1])
  | joinWait u k hq hd hz hinit hs₁ hs =>
    exact .same (by rw [hs.uthreads, (enqueue_thread hs₁ v).2.2.1]; simp)
  | drain u hq => exact .same (dequeue_thread hq v).2.2.1
  | destroy => exact .same (by simp)

/-- The code in front uses no other priority than the instruction. -/
theorem effect_prios (he : Effect l t s i s₁ new) {p : ℤ} (hp : p ∈ new.flatMap prios) :
    p ∈ i.prios := by
  obtain ⟨j, hj, hp⟩ := List.mem_flatMap.1 hp
  have hb := effect_before he j hj
  cases j with
  | setprioTest | allocStart => exact hb.elim
  | startTest | allocScan => rw [hb]; exact hp
  | allocReturn => obtain ⟨start, rfl⟩ := hb; exact hp
  | allocStack => obtain ⟨k, rfl⟩ := hb; exact hp
  | createInit => rcases hb with ⟨-, rfl⟩ | ⟨w, rfl, -⟩ <;> exact hp
  | _ => cases hp

/-! ## The invariant -/

/-- The priority that a step passes to `uthread_create`. -/
def Act.createPrio : Act → Option ℤ
  | .call (.create prio) => some prio
  | _ => none

/-- The steps of callers that keep to the range in `uthread_create`. -/
def validPrio (_ : State N L) (b : Fin L × Act) : Prop := ∀ prio ∈ b.2.createPrio, InRange prio

instance (s : State N L) (b : Fin L × Act) : Decidable (validPrio s b) :=
  inferInstanceAs (Decidable (∀ prio ∈ _, _))

/-- The priorities in the table and in the codes. -/
structure PrioInv (s : State N L) : Prop where
  table : ∀ v, (s.uthreads v).utState.started → InRange (s.uthreads v).utPrio
  code : ∀ v, ∀ p ∈ (s.uthreads v).utCtx.flatMap prios, InRange p

/-- The code of a call. -/
theorem call_prios {inc : Fin N → ℕ} {c : Call} (hc : ∀ prio, c = .create prio → InRange prio)
    {p : ℤ} (hp : p ∈ (c.code inc t).flatMap prios) : InRange p := by
  cases c with
  | create prio =>
    simp only [Call.code, uthreadCreate, List.flatMap_cons, prios, List.flatMap_nil, List.append_nil,
      List.mem_singleton] at hp
    exact hp ▸ hc prio rfl
  | setprio uid prio =>
    -- the code has looked at the priority
    simp only [Call.code, uthreadSetprio] at hp
    split_ifs at hp with hr
    · simp at hp
    · split at hp
      · simp at hp
      · obtain rfl : p = prio := by simpa using hp
        rw [not_or, not_lt, not_lt] at hr
        exact ⟨hr.2, hr.1⟩
  | join uid => simp only [Call.code, uthreadJoin] at hp; split at hp <;> simp at hp
  | detach uid => simp only [Call.code, uthreadDetach] at hp; split at hp <;> simp at hp
  | _ => simp [Call.code, uthreadExit, uthreadMtxLock, uthreadYield, uthreadSwitch, uthreadMtxTrylock,
      uthreadMtxUnlock, uthreadCondWait, uthreadCondSignal, uthreadCondBroadcast] at hp

/-! ## The priorities to be set -/

/-- The priorities that `uthread_setprio` is going to write. -/
@[simp] def Instr.setprios : Instr N → List ℤ
  | setprioTest _ prio => [prio]
  | _ => []

/-- No instruction starts a `uthread_setprio`. -/
theorem effect_setprios (he : Effect l t s i s₁ new) : new.flatMap setprios = [] := by
  rw [List.flatMap_eq_nil_iff]
  intro j hj
  cases j with
  | setprioTest => exact (effect_before he _ hj).elim
  | _ => rfl

/-- The code of a call has looked at the priority. -/
theorem call_setprios {inc : Fin N → ℕ} {c : Call} {p : ℤ} (hp : p ∈ (c.code inc t).flatMap setprios) :
    InRange p := by
  by_cases hcr : ∃ prio, c = .create prio
  · obtain ⟨prio, rfl⟩ := hcr
    simp [Call.code, uthreadCreate] at hp
  · have hmem : p ∈ (c.code inc t).flatMap prios := by
      obtain ⟨i, hi, hp⟩ := List.mem_flatMap.1 hp
      refine List.mem_flatMap.2 ⟨i, hi, ?_⟩
      cases i <;> simp_all
    exact call_prios (fun prio e => absurd ⟨prio, e⟩ hcr) hmem

/-- `uthread_setprio` has looked at its priority. -/
def SetsInRange (s : State N L) : Prop := ∀ v, ∀ p ∈ (s.uthreads v).utCtx.flatMap setprios, InRange p

/-- Only a call brings in a priority to set, and it has looked at it. -/
theorem sets_turn (hr : SetsInRange s) (h : Turn s l a s') : SetsInRange s' := by
  intro v p hp
  rcases mem_code_turn (f := setprios) rfl (by simp [clockInterrupt, uthreadYield, uthreadSwitch]) h hp
    with h | ⟨i, cs, new, s₁, hon, hcode, he, h⟩ | ⟨c, rfl, hon, h⟩
  · exact hr v p h
  · rw [effect_setprios he] at h
    cases h
  · exact call_setprios h

/-! ## Every step keeps it -/

theorem prio_table (hc : Core s) (hi : PrioInv s) (hon : OnStack s l t)
    (hcode : (s.uthreads t).utCtx = i :: cs) (he : Effect l t s i s₁ new)
    (hst : (s₁.uthreads v).utState.started) : InRange (s₁.uthreads v).utPrio := by
  have hprio : ∀ p ∈ i.prios, InRange p := fun p hp =>
    hi.code t p (by rw [hcode, List.flatMap_cons]; exact List.mem_append_left _ hp)
  have hold : (s.uthreads v).utState.started ∨ ∃ prio, i = startTest v prio := by
    by_contra hne
    simp only [not_or, UthreadState.started, not_and_or, not_not] at hne
    rcases unstarted_thread hc hon hcode he (u := v) hne.1 with h | h
    · exact h.elim hst.1 hst.2
    · exact hne.2 h
  cases effect_prio he v with
  | same h =>
    rw [h]
    rcases hold with hold | ⟨prio, rfl⟩
    · exact hi.table v hold
    · cases effect_prio he v with
      | same h =>
        -- a start writes its own priority
        cases he with
        | plain hp => cases hp
        | take _ _ _ h => rcases h with ⟨h, -⟩ | ⟨h, -⟩ <;> cases h
        | signal _ _ _ _ h => rcases h with ⟨h, -⟩ | ⟨h, -⟩ <;> cases h
        | start _ _ hw hs =>
          rw [← h, (runqEnqueue_thread hs v).2.2.1]
          simpa using hprio prio (by simp)
      | set hset =>
        rcases hset with hset | hset <;> cases hset
        rw [← h]
        exact hprio _ (by simp)
      | created _ h => cases h
  | set hset => rcases hset with rfl | rfl <;> exact hprio _ (by simp)
  | created pr h =>
    -- a slot that is set up has not been started
    subst h
    rcases hold with hold | ⟨prio, h⟩
    · exact ((hc.creating hcode he).2.1.elim hold.1 hold.2).elim
    · cases h

theorem prio_step (hc : Core s) (hi : PrioInv s) (h : Turn s l a s')
    (hok : validPrio s (l, a)) : PrioInv s' := by
  refine ⟨fun v hst => ?_, fun v p hp => ?_⟩
  · cases h with
    | @thread _ t i cs new s₁ hon hcode he =>
      have hv : ((s₁.setCtx t (new ++ cs)).uthreads v).utState = (s₁.uthreads v).utState ∧
          ((s₁.setCtx t (new ++ cs)).uthreads v).utPrio = (s₁.uthreads v).utPrio := by simp
      rw [hv.1] at hst
      rw [hv.2]
      exact prio_table hc hi hon hcode he hst
    | call t c hon hcode => simpa using hi.table v (by simpa using hst)
    | preempt t hon hm _ h0 => simpa using hi.table v (by simpa using hst)
    | lwp hb =>
      rw [(hb.fields v).2.1]
      apply hi.table v
      rcases hb.state v with ⟨e, -⟩ | ⟨e, -⟩
      · rwa [← e]
      · rw [e]; exact ⟨by decide, by decide⟩
  · rcases mem_code_turn (f := prios) rfl (by simp [clockInterrupt, uthreadYield, uthreadSwitch]) h hp
      with h | ⟨i, cs, new, s₁, hon, hcode, he, h⟩ | ⟨c, rfl, hon, h⟩
    · exact hi.code v p h
    · refine hi.code v p ?_
      rw [hcode, List.flatMap_cons]
      exact List.mem_append_left _ (effect_prios he h)
    · exact call_prios (fun prio hc => hok prio (by rw [hc]; rfl)) h

theorem boot_prio : PrioInv (boot N L) := by
  refine ⟨fun v hst => ?_, fun v p hp => ?_⟩
  · rcases boot_cases (L := L) v with ⟨-, -, h, -⟩ | ⟨h, -⟩
    · rw [h]; exact ⟨by decide, le_rfl⟩
    · rw [h] at hst; exact absurd rfl hst.1
  · rcases boot_code (L := L) v with h | h | h <;> rw [h] at hp <;>
      simp [threadStartCode, reaper, uthreadMtxLock] at hp

/-! ## The table is accessed inside its bounds -/

theorem runqIndex_ne_none {prio : ℤ} (h : InRange prio) : runqIndex prio ≠ none := by
  have h' : 0 ≤ prio ∧ prio < uthMaxprio + 1 := ⟨h.1, Int.lt_add_one_of_le h.2⟩
  unfold runqIndex
  rw [dif_pos h']
  simp

/-- A started thread is put on a level of `runq_table`. -/
theorem runqFault_index {e : Halt} (h : RunqFault s v e) (hp : InRange (s.uthreads v).utPrio) :
    e ≠ .undefined .runqIndex := by
  cases h with
  | index h => exact absurd h (runqIndex_ne_none hp)
  | link => simp

theorem OnStack.started (hc : Core s) (hon : OnStack s l t) : (s.uthreads t).utState.started := by
  rw [(hc.active hon).1]
  unfold expect
  split_ifs <;> exact ⟨by decide, by decide⟩

/-- **No access outside `runq_table`.** -/
theorem fault_index {e : Halt} (hc : Core s) (hi : PrioInv s) (hon : OnStack s l t)
    (hcode : (s.uthreads t).utCtx = i :: cs) (hf : Fault l t s i e) :
    e ≠ .undefined .runqIndex := by
  have hprio : ∀ p ∈ i.prios, InRange p := fun p hp =>
    hi.code t p (by rw [hcode, List.flatMap_cons]; exact List.mem_append_left _ hp)
  cases hf with
  | switchSave h => exact runqFault_index h (hi.table t (hon.started hc))
  | wake u hu h => exact runqFault_index h (hi.table u (by rw [hu]; exact ⟨by decide, by decide⟩))
  | start u prio hu h => exact runqFault_index h (by simpa using hprio prio (by simp))
  | setprio u prio hu h =>
    have hold := hi.table u (by rw [hu]; exact ⟨by decide, by decide⟩)
    cases h with
    | index h =>
      rcases h with h | h
      · exact absurd h (runqIndex_ne_none hold)
      · exact absurd h (runqIndex_ne_none (by simpa using hprio prio (by simp)))
    | link | missing => simp
  | _ => simp

/-! ## Safety -/

/-- Every thread that can run has a priority inside the range, and no step has left the table. -/
def PrioSafe (s : State N L) : Prop :=
  (∀ v, (s.uthreads v).utState = .runnable ∨ (s.uthreads v).utState = .onCpu ∨
    (s.uthreads v).utState = .wait → InRange (s.uthreads v).utPrio) ∧
  s.halt ≠ some (.undefined .runqIndex)

/-- The step of a caller that keeps to the range, and no slot that is in use is written to. -/
def priosCalm (s : State N L) (b : Fin L × Act) : Prop := validPrio s b ∧ sparesSlots s b

instance (s : State N L) (b : Fin L × Act) : Decidable (priosCalm s b) :=
  inferInstanceAs (Decidable (_ ∧ _))

/-- The first thread creates a thread of priority `prio`. -/
def createOne (l : Fin L) (prio : ℤ) : List (Fin L × Act) :=
  turns l 4 ++ [(l, .call (.create prio))] ++ turns l 20

end Uthreads
