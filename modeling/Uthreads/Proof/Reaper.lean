import Uthreads.Proof.Turn

/-!
# The code of the reaper

The reaper thread runs the loop of `reaper` and nothing else, and no other thread runs any of it.

* `ReaperCode c`: the codes of the reaper, by the place in its loop.
* `reaper_code_step`: its instructions lead from one to the next.
* `effect_reaps`, `call_reaps`: the other threads stay out of the loop.
-/

namespace Uthreads

variable {N L : ℕ} {l : Fin L} {t u : Fin N} {s s' s₁ : State N L} {i j : Instr N}
  {c cs new pre : Code N}

open Instr

/-- The instructions of the reaper's loop. -/
@[simp] def Instr.reaps : Instr N → Bool
  | reaperWait | reaperDrain | reaperScan _ | destroy _ _ => true
  | waitMark c | waitDone c => decide (c = .reapCond)
  | swtch (some (.ucWaiters c)) _ _ => decide (c = .reapCond)
  | _ => false

/-- Only the loop leads into the loop. -/
theorem effect_reaps (he : Effect l t s i s₁ new) :
    i.reaps = true ∨ ∀ j ∈ new, j.reaps = false := by
  by_contra! h
  obtain ⟨hi, j, hj, hr⟩ := h
  have hb := effect_before he j hj
  cases j with
  | swtch q =>
    rcases q with _ | q
    · exact hr rfl
    · cases q with
      | ucWaiters c => rw [hb.2] at hi; exact hi rfl
      | _ => exact hr rfl
  | waitMark | waitDone => rw [hb.2] at hi; exact hi rfl
  | reaperWait => rcases hb with rfl | ⟨th, rfl⟩ <;> exact hi rfl
  | reaperDrain => rcases hb with rfl | rfl <;> exact hi rfl
  | reaperScan => rcases hb with rfl | ⟨th, rfl⟩ <;> exact hi rfl
  | destroy => rcases hb with ⟨-, rfl⟩ | ⟨d, rfl, -⟩ <;> exact hi rfl
  | _ => exact hr rfl

/-- A call does not lead into the loop. -/
theorem call_reaps (inc : Fin N → ℕ) (t : Fin N) (call : Call) :
    ∀ j ∈ call.code inc t, j.reaps = false := by
  intro j hj
  have := call_called inc t call j hj
  cases j with
  | swtch q =>
    rcases q with _ | q
    · rfl
    · cases q <;> simp_all
  | waitMark | waitDone => simpa using this
  | _ => first | rfl | cases this

/-- Only `make_reapable` signals `reap_cond`. -/
theorem effect_signals (he : Effect l t s i s₁ new) (hj : signalTest .reapCond ∈ new) :
    ∃ u, i = makeReapable u ∧ new = uthreadCondSignal .reapCond ++ [unlock (.utPmut u)] ++
      uthreadMtxUnlock .reapMtx ++ if u = t then uthreadSwitch none false none ++ [panicDead] else [] := by
  obtain ⟨-, u, rfl⟩ := effect_before he _ hj
  refine ⟨u, rfl, ?_⟩
  cases he with
  | plain hp => cases hp; simp [uthreadMtxUnlock] at hj
  | take _ _ _ h | signal _ _ _ _ h => rcases h with ⟨h, -⟩ | ⟨h, -⟩ <;> cases h
  | makeReapable _ hz hs₁ hs hnew => exact hnew

/-! ## The places in the loop -/

/-- What is left of `uthread_cond_wait` and of the loop after the switch. -/
def reaperTail : Code N :=
  [nopreemptOff] ++ uthreadMtxLock .reapMtx ++ [nopreemptOn, waitDone .reapCond, nopreemptOff, reaperWait]

/-- `uthread_cond_wait` from the switch on. -/
def reaperSleep : Code N :=
  uthreadSwitch (some (.ucWaiters .reapCond)) false (some (.cPmut .reapCond)) ++ reaperTail

/-- The instruction puts nothing in front, and leaves `reap_cond`'s `pmut` alone. -/
@[simp] def Instr.aside : Instr N → Bool
  | lock p | unlock p => decide (p ≠ .cPmut .reapCond)
  | nopreemptOn | nopreemptOff | wakeAssert _ | wakeTest _ => true
  | _ => false

/-- The rest of a round in which the reaper destroys a thread. -/
def Destroys (c : Code N) : Prop :=
  ∃ d u, ∃ pre ∈ destroyFront u d, c = pre ++ [destroy d u, reaperDrain]

/-- The codes of the reaper. -/
inductive ReaperCode : Code N → Prop
  /-- On its way to the test of the queue. -/
  | busy {c : Code N} (hl : c.getLast? = some reaperWait)
    (hs : ∀ sv m, swtch (some (.ucWaiters .reapCond)) sv m ∉ c) : ReaperCode c
  /-- In `uthread_cond_wait`, before it unlocks `reap_mtx`. -/
  | enter {pre : Code N}
    (hp : pre <:+ [nopreemptOn, lock (.cPmut .reapCond), nopreemptOn, lock (.mPmut .reapMtx)]) :
    ReaperCode (pre ++ unlockTest .reapMtx :: waitMark .reapCond :: reaperSleep)
  /-- `reap_mtx` is unlocked, `pmut` is held. -/
  | released {pre : Code N} (hp : ∀ i ∈ pre, i.aside = true) :
    ReaperCode (pre ++ waitMark .reapCond :: reaperSleep)
  /-- About to switch. -/
  | leaving {c : Code N} (hc : c = reaperSleep ∨
      c = swtch (some (.ucWaiters .reapCond)) false (some (.cPmut .reapCond)) :: resume :: reaperTail) :
    ReaperCode c
  /-- In the loop that destroys the queued threads. -/
  | drain {c : Code N} (hc : c = [reaperDrain] ∨ Destroys c) : ReaperCode c
  /-- In the scan of the table. -/
  | scan (th : ℕ) : ReaperCode [reaperScan th]

/-- The instructions of a round. -/
theorem Destroys.mem (h : Destroys c) (hi : i ∈ c) :
    i.straight = true ∧ i.aside = true ∨ (∃ d u, i = destroy d u) ∨ i = reaperDrain := by
  obtain ⟨d, u, pre, hpre, rfl⟩ := h
  simp only [List.mem_append, List.mem_cons, List.not_mem_nil, or_false] at hi
  rcases hi with hi | rfl | rfl
  · left
    rcases mem_front.1 hpre with rfl | ⟨-, rfl | rfl⟩ | ⟨-, rfl⟩ | ⟨-, rfl⟩ <;> simp at hi
    all_goals rcases hi with rfl | rfl <;> simp
  · exact .inr (.inl ⟨d, u, rfl⟩)
  · exact .inr (.inr rfl)

theorem Destroys.getLast (h : Destroys c) : c.getLast? = some reaperDrain := by
  obtain ⟨d, u, pre, -, rfl⟩ := h
  simp [List.getLast?_append]

theorem Destroys.depth_pos (h : Destroys c) : 0 < depth c := by
  obtain ⟨d, u, pre, hpre, rfl⟩ := h
  exact depth_front hpre

/-- A round goes on to its end. -/
theorem Destroys.step (h : Destroys (i :: cs)) (he : Effect l t s i s₁ new) :
    new ++ cs = [reaperDrain] ∨ Destroys (new ++ cs) := by
  obtain ⟨d, u, pre, hpre, e⟩ := h
  cases pre with
  | nil =>
    obtain ⟨rfl, rfl⟩ := List.cons.inj e
    obtain ⟨-, rfl, -⟩ := effect_destroy he
    cases d with
    | test => exact .inr ⟨.stack, u, [nopreemptOn], by simp [destroyFront], rfl⟩
    | stack => exact .inr ⟨.detached, u, [nopreemptOff], by simp [destroyFront], rfl⟩
    | detached => exact .inr ⟨.exit, u, [], by simp [destroyFront], rfl⟩
    | exit => exact .inr ⟨.waiter, u, [], by simp [destroyFront], rfl⟩
    | waiter => exact .inr ⟨.pmut, u, [], by simp [destroyFront], rfl⟩
    | pmut => exact .inr ⟨.state, u, [], by simp [destroyFront], rfl⟩
    | state => exact .inl rfl
  | cons j pre =>
    obtain ⟨rfl, rfl⟩ := List.cons.inj e
    rw [effect_straight he (front_straight hpre i List.mem_cons_self)]
    refine .inr ⟨d, u, pre, ?_, rfl⟩
    rcases mem_front.1 hpre with h | ⟨rfl, h | h⟩ | ⟨rfl, h⟩ | ⟨rfl, h⟩ <;> cases h <;>
      simp [destroyFront]

theorem ReaperCode.ne_nil (h : ReaperCode c) : c ≠ [] := by
  rintro rfl
  generalize hc : ([] : Code N) = c at h
  cases h with
  | busy hl => rw [← hc] at hl; cases hl
  | enter | released => exact absurd hc.symm (List.append_ne_nil_of_right_ne_nil _ (by simp))
  | leaving h => rcases h with h | h <;> rw [h] at hc <;> cases hc
  | drain h =>
    rcases h with h | ⟨d, u, pre, -, h⟩
    · rw [h] at hc; cases hc
    · exact absurd (hc.trans h).symm (List.append_ne_nil_of_right_ne_nil _ (by simp))
  | scan => cases hc

/-- **The reaper stays in its loop.** -/
theorem ReaperCode.step (h : ReaperCode (i :: cs)) (hok : Ok t i cs) (he : Effect l t s i s₁ new) :
    ReaperCode (new ++ cs) := by
  generalize hc : i :: cs = c at h
  cases h with
  | busy hl hs =>
    subst hc
    by_cases hne : cs = []
    · -- the test of the queue
      subst hne
      obtain rfl : i = reaperWait := by simpa using hl
      cases he with
      | plain hp =>
        cases hp with
        | reaperWait => exact .enter (List.suffix_refl _)
        | reaperGo => exact .drain (.inl rfl)
      | take _ _ _ hnew => rcases hnew with ⟨h, -⟩ | ⟨h, -⟩ <;> cases h
      | signal _ _ _ _ hnew => rcases hnew with ⟨h, -⟩ | ⟨h, -⟩ <;> cases h
    · have hlast : cs.getLast? = some reaperWait := by
        obtain ⟨x, hx⟩ := Option.ne_none_iff_exists'.1 (mt List.getLast?_eq_none_iff.1 hne)
        simpa [List.getLast?_cons, hx] using hl
      have hnew : ∀ sv m, swtch (some (.ucWaiters .reapCond)) sv m ∉ new := by
        intro sv m hmem
        rcases effect_reaps he with hr | hr
        · have hstr : i.straight = true ∨ new = [] := by
            cases i <;> simp [Ok, hne] at hr hok ⊢
            · cases he with
              | plain hp => cases hp; rfl
              | take _ _ _ h => rcases h with ⟨h, -⟩ | ⟨h, -⟩ <;> cases h
              | signal _ _ _ _ h => rcases h with ⟨h, -⟩ | ⟨h, -⟩ <;> cases h
            · rw [hok] at hlast
              cases hlast
          rcases hstr with hstr | h
          · rw [effect_straight he hstr] at hmem; cases hmem
          · rw [h] at hmem; cases hmem
        · simpa using hr _ hmem
      refine .busy (by rw [List.getLast?_append, hlast]; rfl) fun sv m hmem => ?_
      rcases List.mem_append.1 hmem with hmem | hmem
      · exact hnew sv m hmem
      · exact hs sv m (List.mem_cons_of_mem i hmem)
  | @enter pre hp =>
    cases pre with
    | nil =>
      -- `reap_mtx` is handed on, or free
      obtain ⟨rfl, rfl⟩ := List.cons.inj hc
      cases he with
      | plain hp => cases hp
      | take _ _ _ h => rcases h with ⟨h, -⟩ | ⟨h, -⟩ <;> cases h
      | signal _ _ _ _ h => rcases h with ⟨h, -⟩ | ⟨h, -⟩ <;> cases h
      | release => exact @ReaperCode.released N [unlock (.mPmut .reapMtx), nopreemptOff] (by simp)
      | handOver m w =>
        exact @ReaperCode.released N ([unlock (.mPmut .reapMtx)] ++ uthreadWake w ++ [nopreemptOff])
          (by simp [uthreadWake])
    | cons j pre =>
      obtain ⟨rfl, rfl⟩ := List.cons.inj hc
      have hstr : i.straight = true := by
        have hmem : i ∈ _ := hp.subset List.mem_cons_self
        simp only [List.mem_cons, List.not_mem_nil, or_false] at hmem
        rcases hmem with rfl | rfl | rfl | rfl <;> rfl
      rw [effect_straight he hstr]
      exact .enter ((List.suffix_cons i pre).trans hp)
  | @released pre hp =>
    cases pre with
    | nil =>
      obtain ⟨rfl, rfl⟩ := List.cons.inj hc
      rw [effect_straight he rfl]
      exact .leaving (.inl rfl)
    | cons j pre =>
      obtain ⟨rfl, rfl⟩ := List.cons.inj hc
      have hstr : i.straight = true := by
        have := hp i List.mem_cons_self
        cases i <;> simp at this ⊢
      rw [effect_straight he hstr]
      exact .released fun k hk => hp k (List.mem_cons_of_mem i hk)
  | leaving h =>
    rcases h with rfl | rfl <;> obtain ⟨rfl, rfl⟩ := List.cons.inj hc <;> rw [effect_straight he rfl]
    · exact .leaving (.inr rfl)
    · refine .busy (by rfl) fun sv m hmem => ?_
      simp [reaperTail, uthreadMtxLock] at hmem
  | drain h =>
    rcases h with rfl | h
    · obtain ⟨rfl, rfl⟩ := List.cons.inj hc
      cases he with
      | plain hp => cases hp; exact .scan 0
      | take _ _ _ h => rcases h with ⟨h, -⟩ | ⟨h, -⟩ <;> cases h
      | signal _ _ _ _ h => rcases h with ⟨h, -⟩ | ⟨h, -⟩ <;> cases h
      | drain u =>
        exact .drain (.inr ⟨.test, u, [lock (.utPmut u), unlock (.utPmut u)], by simp [destroyFront],
          rfl⟩)
    · subst hc
      exact .drain (h.step he)
  | scan th =>
    obtain ⟨rfl, rfl⟩ := List.cons.inj hc
    cases he with
    | plain hp =>
      cases hp with
      | scanFound => exact .busy rfl (by simp)
      | scanNext => exact .scan (th + 1)
    | take _ _ _ h => rcases h with ⟨h, -⟩ | ⟨h, -⟩ <;> cases h
    | signal _ _ _ _ h => rcases h with ⟨h, -⟩ | ⟨h, -⟩ <;> cases h

/-! ## What a place in the loop says -/

theorem held_released (hp : ∀ i ∈ pre, i.aside = true) :
    Held (.cPmut .reapCond) (pre ++ waitMark .reapCond :: c) := by
  induction pre with
  | nil => simp
  | cons i pre ih =>
    have hi := hp i List.mem_cons_self
    refine .inr ⟨?_, ?_, ih fun j hj => hp j (List.mem_cons_of_mem i hj)⟩
    · cases i <;> simp at hi ⊢
      exact Ne.symm hi
    · rintro rfl; cases hi

/-- Before its switch the reaper owns `reap_mtx` or holds the `pmut` of `reap_cond`. -/
theorem ReaperCode.guarded (h : ReaperCode c) {sv : Bool} {m : Option (PmtxId N)}
    (hs : swtch (some (.ucWaiters .reapCond)) sv m ∈ c) :
    Owns .reapMtx c ∨ Held (.cPmut .reapCond) c := by
  cases h with
  | busy _ hn => exact absurd hs (hn sv m)
  | enter hp =>
    left
    simp only [List.suffix_cons_iff, List.suffix_nil] at hp
    rcases hp with rfl | rfl | rfl | rfl | rfl <;> simp
  | released hp => exact .inr (held_released hp)
  | leaving h =>
    right
    rcases h with rfl | rfl <;> simp [reaperSleep, uthreadSwitch]
  | drain h =>
    rcases h with rfl | h
    · simp at hs
    · have := h.mem hs
      simp at this
  | scan => simp at hs

/-- Except in the loops behind the test of the queue, the reaper comes back to the test. -/
theorem ReaperCode.last (h : ReaperCode c) : c.getLast? = some reaperWait ∨ c = [reaperDrain] ∨
    Destroys c ∨ ∃ th, c = [reaperScan th] := by
  have hsleep : (reaperSleep : Code N).getLast? = some reaperWait := rfl
  cases h with
  | busy hl => exact .inl hl
  | enter | released =>
    left
    simp [List.getLast?_append, List.getLast?_cons, hsleep]
  | leaving h =>
    left
    rcases h with rfl | rfl <;> rfl
  | drain h => exact .inr (h.imp_right .inl)
  | scan th => exact .inr (.inr (.inr ⟨th, rfl⟩))

/-- The reaper that may be preempted is on its way to the test. -/
theorem ReaperCode.preempt (h : ReaperCode c) (hwf : Wf t c)
    (hd : c = [nopreemptOff] ∨ depth c = 0) : ReaperCode (clockInterrupt ++ c) := by
  have hpos : 0 < depth c → c ≠ [nopreemptOff] → ReaperCode (clockInterrupt ++ c) := fun h₁ h₂ =>
    (hd.elim h₂ fun h => by omega).elim
  cases h with
  | busy hl hs =>
    refine .busy (by rw [List.getLast?_append, hl]; rfl) fun sv m hmem => ?_
    rcases List.mem_append.1 hmem with h | h
    · simp [clockInterrupt, uthreadYield, uthreadSwitch] at h
    · exact hs sv m h
  | enter hp =>
    simp only [List.suffix_cons_iff, List.suffix_nil] at hp
    refine hpos ?_ ?_ <;> rcases hp with rfl | rfl | rfl | rfl | rfl <;>
      simp [reaperSleep, uthreadSwitch, reaperTail, uthreadMtxLock]
  | @released pre hp =>
    refine hpos (hwf.depth_pos (held_released hp)) fun h => ?_
    have := congrArg List.length h
    simp [reaperSleep, uthreadSwitch, reaperTail, uthreadMtxLock] at this
  | leaving h =>
    refine hpos ?_ ?_ <;> rcases h with rfl | rfl <;>
      simp [reaperSleep, uthreadSwitch, reaperTail, uthreadMtxLock]
  | drain h =>
    rcases h with rfl | h
    · exact hpos (by simp) (by simp)
    · refine hpos h.depth_pos ?_
      rintro rfl
      obtain ⟨d, u, pre, -, e⟩ := h
      have := congrArg List.length e
      simp at this
  | scan th => exact hpos (by simp) (by simp)

/-- A reaper that is about to sleep does not signal. -/
theorem ReaperCode.not_signal (h : ReaperCode (signalTest .reapCond :: cs)) (sv : Bool)
    (m : Option (PmtxId N)) : swtch (some (.ucWaiters .reapCond)) sv m ∉ signalTest .reapCond :: cs := by
  generalize hc : signalTest .reapCond :: cs = c at h
  cases h with
  | busy _ hs => exact hs sv m
  | @enter pre hp =>
    cases pre with
    | nil => cases hc
    | cons j pre =>
      obtain ⟨rfl, -⟩ := List.cons.inj hc
      have := hp.subset List.mem_cons_self
      simp at this
  | @released pre hp =>
    cases pre with
    | nil => cases hc
    | cons j pre =>
      obtain ⟨rfl, -⟩ := List.cons.inj hc
      have := hp _ List.mem_cons_self
      simp at this
  | leaving h => rcases h with rfl | rfl <;> cases hc
  | drain h =>
    rcases h with rfl | h
    · cases hc
    · have := h.mem (hc ▸ List.mem_cons_self)
      simp at this
  | scan => cases hc

/-- The reaper that goes to sleep has its switch behind it. -/
theorem ReaperCode.switch {sv : Bool} {m : Option (PmtxId N)}
    (h : ReaperCode (swtch (some (.ucWaiters .reapCond)) sv m :: cs)) : cs = resume :: reaperTail := by
  generalize hc : swtch (some (.ucWaiters .reapCond)) sv m :: cs = c at h
  cases h with
  | busy _ hs => exact absurd (hc ▸ List.mem_cons_self) (hs sv m)
  | @enter pre hp =>
    cases pre with
    | nil => cases hc
    | cons j pre =>
      obtain ⟨rfl, -⟩ := List.cons.inj hc
      have := hp.subset List.mem_cons_self
      simp at this
  | @released pre hp =>
    cases pre with
    | nil => cases hc
    | cons j pre =>
      obtain ⟨rfl, -⟩ := List.cons.inj hc
      have := hp _ List.mem_cons_self
      simp at this
  | leaving h =>
    rcases h with rfl | rfl
    · cases hc
    · exact (List.cons.inj hc).2
  | drain h =>
    rcases h with rfl | h
    · cases hc
    · have := h.mem (hc ▸ List.mem_cons_self)
      simp at this
  | scan => cases hc

end Uthreads
