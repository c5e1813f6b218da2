import Uthreads.Proof.Move

/-!
# The library leaves well-formed code

* `wf_wake`, `wf_mtxLock`, `wf_mtxUnlock`, `wf_switch`, `wf_yield`: the code of a function in front
  of a code that fits.
* `effect_wf`: the code after an instruction is well formed if the code before it was.
* `call_wf`, `interrupt_wf`: so is the code of a call, and that of the timer's handler in front of
  code that runs with preemption on.
-/

namespace Uthreads

variable {N L : ℕ} {l : Fin L} {t : Fin N} {s s' : State N L} {i : Instr N} {c cs new : Code N}

open Instr

attribute [local simp] Ok

theorem Wf.guarded (h : Wf t c) (hne : c ≠ []) : Guarded c := by
  cases c with
  | nil => exact absurd rfl hne
  | cons i cs => exact h.2.1

/-- A code that holds a mutex runs with preemption off. -/
theorem Wf.depth_pos (h : Wf t c) {p : PmtxId N} (hp : Held p c) : 0 < depth c := by
  have hne : c ≠ [] := by rintro rfl; exact hp
  rcases (h.guarded hne).masked with hd | ⟨hfree, -⟩
  · exact hd
  · exact absurd hp (hfree p)

/-- Only behind the lock of `runq_mtx` and a `UT_WAIT` mark does a thread go to sleep. -/
theorem Guarded.awake (h : Guarded (i :: cs)) (hl : i ≠ lock .runqMtx) (hm : ∀ k, i ≠ waitMark k) :
    Awake cs :=
  h.calm i cs rfl hl hm

theorem front_straight {d : DestroyStep} {u : Fin N} {pre : Code N} (h : pre ∈ destroyFront u d) :
    ∀ j ∈ pre, j.straight = true := by
  rcases mem_front.1 h with rfl | ⟨-, rfl | rfl⟩ | ⟨-, rfl⟩ | ⟨-, rfl⟩ <;> simp

theorem depth_front {d : DestroyStep} {u : Fin N} {pre : Code N} (h : pre ∈ destroyFront u d) :
    0 < depth (pre ++ [destroy d u, reaperDrain]) := by
  rcases mem_front.1 h with rfl | ⟨rfl, rfl | rfl⟩ | ⟨rfl, rfl⟩ | ⟨rfl, rfl⟩
  · cases d <;> simp
  all_goals simp

/-- Only instructions that put nothing in front stand in front of a destruction. -/
theorem Guarded.no_destroy (h : Guarded (i :: cs)) (hs : i.straight = false)
    (hd : ∀ d u, i ≠ destroy d u) (d : DestroyStep) (u : Fin N) : destroy d u ∉ cs := by
  intro hmem
  obtain ⟨pre, hpre, e⟩ := h.destroys d u (List.mem_cons_of_mem i hmem)
  cases pre with
  | nil => exact hd d u (List.cons.inj e).1
  | cons j pre =>
    rw [← (List.cons.inj e).1] at hpre
    rw [front_straight hpre i List.mem_cons_self] at hs
    cases hs

theorem DetachOnly.not_held (h : DetachOnly c) {p : PmtxId N} (hp : ∀ u, p ≠ .utPmut u) :
    ¬ Held p c := by
  intro hh
  obtain ⟨u, -, rfl, -⟩ := h p hh
  exact hp u rfl

theorem DetachOnly.of_free (h : ∀ p, ¬ Held p c) : DetachOnly c := fun p hp => absurd hp (h p)

/-- `runq_mtx` is the last mutex to be taken. -/
@[simp] theorem below_runq (c : Code N) : Below .runqMtx c := by
  intro q _
  cases q <;> simp [PmtxId.rank]

theorem DetachOnly.under (h : DetachOnly c) : Under 2 c := by
  intro q hq
  obtain ⟨u, -, rfl, -⟩ := h q hq
  simp [PmtxId.rank]

theorem Under.not_held {n : ℕ} (h : Under n c) {p : PmtxId N} (hp : n ≤ p.rank) : ¬ Held p c :=
  fun hh => absurd (h p hh) (not_lt.2 hp)

/-- An instruction that needs only `p` in front of code that holds less. -/
theorem Under.below {n : ℕ} (h : Under n c) {p : PmtxId N} (hp : n ≤ p.rank)
    (hi : ∀ q ∈ i.needs, q = p) : Below p (i :: c) := by
  rintro q (hq | ⟨-, -, hq⟩)
  · exact .inl (hi q hq)
  · exact .inr ((h q hq).trans_le hp)

/-- The wake-up of a thread in front of code that does not hold `runq_mtx`. -/
theorem wf_wake (u : Fin N) (h : Wf t c) (hh : ¬ Held .runqMtx c) (hg : 0 < depth c)
    (hd : ∀ d u, destroy d u ∉ c) (ha : Awake c) : Wf t (uthreadWake u ++ c) := by
  simp [uthreadWake, wf_cons, guarded_iff, h, hh, hg, hd, ha]

/-- The switch of a thread, in front of code that fits its arguments. -/
theorem wf_switch {q : Option (QueueId N)} {saveonrq : Bool} {m : Option (PmtxId N)}
    (h : Wf t c) (hok : OkSwitch t q saveonrq m (resume :: c)) (hg : 0 < depth c)
    (hd : ∀ d u, destroy d u ∉ c) (ha : Awake c) : Wf t (uthreadSwitch q saveonrq m ++ c) := by
  simp [uthreadSwitch, wf_cons, guarded_iff, h, hok, hg, hd, ha]

/-- The lock of a uthread mutex. -/
theorem wf_mtxLock (m : MtxId) (h : Wf t c) (hh : DetachOnly c) (hp : panicDead ∉ c)
    (hg : 0 < depth c ∨ ∀ p, ¬ Held p c) (hd : ∀ d u, destroy d u ∉ c) (ha : Awake c) :
    Wf t (uthreadMtxLock m ++ c) := by
  have hb : Below (.mPmut m) (lockTest m :: c) :=
    hh.under.below (by simp [PmtxId.rank]) (by simp)
  have hg' : 0 < depth c ∨ ∀ p, ¬ p = .mPmut m → ¬ p = .mPmut m ∧ ¬ Held p c :=
    hg.imp_right fun h p hp => ⟨hp, h p⟩
  simp [uthreadMtxLock, wf_cons, guarded_iff, h, hh, hp, hd, hb, ha,
    hg']

/-- The unlock of a uthread mutex in front of code that does not own it. -/
theorem wf_mtxUnlock (m : MtxId) (h : Wf t c) (hh : Under 3 c) (ho : ¬ Owns m c)
    (hg : 0 < depth c) (hd : ∀ d u, destroy d u ∉ c) (ha : Awake c) :
    Wf t (uthreadMtxUnlock m ++ c) := by
  have hb : Below (.mPmut m) (unlockTest m :: c) :=
    hh.below (by simp [PmtxId.rank]) (by simp)
  simp [uthreadMtxUnlock, wf_cons, guarded_iff, h, hd, hg, hb, hh, ha,
    ho]

/-- The yield of a thread that holds nothing. -/
theorem wf_yield (h : Wf t c) (hh : ∀ p, ¬ Held p c) (hp : panicDead ∉ c) (hd : ∀ d u, destroy d u ∉ c)
    (ha : Awake c) : Wf t (uthreadYield ++ c) := by
  have hsw : OkSwitch t none true none (resume :: nopreemptOff :: c) :=
    .yield (by simp [hh]) (by simp [hp])
  simp [uthreadYield, uthreadSwitch, wf_cons, guarded_iff, h,
    hh, hp, hd, hsw, ha]

theorem wf_deadCode (t : Fin N) : Wf t (deadCode t) :=
  wf_switch (by simp [wf_cons, guarded_iff]) .exit (by simp) (by simp) (by simp)

@[simp] theorem depth_deadCode (t : Fin N) : depth (deadCode t) = 1 := rfl

theorem held_deadCode {t : Fin N} {p : PmtxId N} :
    Held p (deadCode t) ↔ p = .utPmut t := by
  simp [deadCode, uthreadSwitch]
  constructor
  · rintro ⟨hne, rfl | rfl⟩
    · exact absurd rfl hne
    · rfl
  · rintro rfl; simp

@[simp] theorem owns_deadCode {t : Fin N} {m : MtxId} : ¬ Owns m (deadCode t) := by
  simp [deadCode, uthreadSwitch]

@[simp] theorem awake_deadCode (t : Fin N) : Awake (deadCode t) := by
  simp [deadCode, uthreadSwitch]

@[simp] theorem destroy_deadCode (d : DestroyStep) (t u : Fin N) : destroy d u ∉ deadCode t := by
  simp [deadCode, uthreadSwitch]

/-- `uthread_cond_wait` in front of code that holds nothing. -/
theorem wf_condWait (cond : CondId) (m : MtxId) (h : Wf t c) (hh : ∀ p, ¬ Held p c)
    (hp : panicDead ∉ c) (hd : ∀ d u, destroy d u ∉ c) (ha : Awake c) :
    Wf t (uthreadCondWait cond m ++ c) := by
  have h₁ : Wf t ([nopreemptOn, waitDone cond, nopreemptOff] ++ c) := by
    simp [wf_cons, guarded_iff, h, hh, hp, hd, ha]
  have h₂ : Wf t (uthreadMtxLock m ++ ([nopreemptOn, waitDone cond, nopreemptOff] ++ c)) :=
    wf_mtxLock m h₁ (.of_free (by simp [hh])) (by simp [hp])
      (.inr (by simp [hh])) (by simp [hd]) (by simp)
  set c₂ := uthreadMtxLock m ++ ([nopreemptOn, waitDone cond, nopreemptOff] ++ c) with hc₂
  have hh₂ : ∀ p, ¬ Held p c₂ := by
    simp [hc₂, uthreadMtxLock, hh]
  have hp₂ : panicDead ∉ c₂ := by simp [hc₂, uthreadMtxLock, hp]
  have hd₂ : ∀ d u, destroy d u ∉ c₂ := by simp [hc₂, uthreadMtxLock, hd]
  have ha₂ : Awake c₂ := by simp [hc₂, uthreadMtxLock]
  have h₃ : Wf t (nopreemptOff :: c₂) := by
    simp [wf_cons, guarded_iff, h₂, hd₂, ha₂]
  have h₄ : Wf t (uthreadSwitch (some (.ucWaiters cond)) false (some (.cPmut cond)) ++
      nopreemptOff :: c₂) :=
    wf_switch h₃ (.cond (by simp [hh₂]) (by simp [hp₂]))
      (by simp) (by simp [hd₂]) (by simp)
  set c₄ := uthreadSwitch (some (.ucWaiters cond)) false (some (.cPmut cond)) ++
    nopreemptOff :: c₂ with hc₄
  have hh₄ : ∀ p, Held p (waitMark cond :: c₄) ↔ p = .cPmut cond := by
    intro p
    simp [hc₄, uthreadSwitch, hh₂]
    tauto
  have hd₄ : ∀ d u, destroy d u ∉ c₄ := by simp [hc₄, uthreadSwitch, hd₂]
  have hdepth : 0 < depth c₄ := by simp [hc₄, uthreadSwitch]
  have h₅ : Wf t (waitMark cond :: c₄) := by
    refine ⟨⟨_, hc₄⟩, guarded_iff.2 ⟨by simp, .inl (by simpa using hdepth), ?_⟩, h₄⟩
    simp [hd₄]
  have howns : ¬ Owns m (waitMark cond :: c₄) := by
    simp [hc₄, hc₂, uthreadSwitch, uthreadMtxLock]
  have h₆ := wf_mtxUnlock m h₅ (fun q hq => by simp [(hh₄ q).1 hq, PmtxId.rank]) howns
    (by simpa using hdepth) (by simp [hd₄]) (by simp)
  set c₆ := uthreadMtxUnlock m ++ waitMark cond :: c₄ with hc₆
  have hh₆ : ∀ p, Held p c₆ ↔ p = .cPmut cond := by
    intro p
    have hp : Held p c₄ → p = .cPmut cond := fun hp => (hh₄ p).1 (.inr ⟨by simp, by simp, hp⟩)
    simp [hc₆, uthreadMtxUnlock]
    constructor
    · rintro ⟨hne, e | hq | hq⟩
      · exact absurd e hne
      · exact hq
      · exact hp hq
    · rintro rfl; simp
  have hd₆ : ∀ d u, destroy d u ∉ c₆ := by simp [hc₆, uthreadMtxUnlock, hd₄]
  have hp₆ : panicDead ∉ c₆ := by simp [hc₆, hc₄, uthreadMtxUnlock, uthreadSwitch, hp₂]
  have hdepth₆ : depth c₆ = depth c₄ := by
    simp [hc₆, uthreadMtxUnlock]
  have hcode : uthreadCondWait cond m ++ c = nopreemptOn :: lock (.cPmut cond) :: c₆ := by
    simp [uthreadCondWait, hc₆, hc₄, hc₂]
  rw [hcode]
  have hb : Below (.cPmut cond) c₆ := fun q hq => .inl ((hh₆ q).1 hq)
  have ha₆ : Awake c₆ := by simp [hc₆, uthreadMtxUnlock]
  simp [wf_cons, guarded_iff, h₆, hh₆, hd₆, hb, hp₆, hdepth₆, hdepth, ha₆]

/-- The end of a call that returns `r`. -/
theorem wf_offRet (r : Ret N) : Wf t [nopreemptOff, ret r] := by
  simp [wf_cons, guarded_iff]

theorem wf_unlockReap {u : Fin N} {r : Ret N} (h : Wf t [nopreemptOff, ret r]) :
    Wf t (([unlock (.utPmut u)] ++ uthreadMtxUnlock .reapMtx) ++ [nopreemptOff, ret r]) := by
  have h₁ := wf_mtxUnlock .reapMtx h (by simp [Under])
    (by simp) (by simp) (by simp) (by simp)
  simp only [List.cons_append, List.nil_append]
  refine ⟨?_, guarded_iff.2 ⟨?_, .inl ?_, ?_⟩, h₁⟩
  · simp [uthreadMtxUnlock]
  · simp [uthreadMtxUnlock]
  · simp [uthreadMtxUnlock]
  · simp [uthreadMtxUnlock]

theorem wf_makeReapable {u : Fin N} (hne : u ≠ t) (r : Ret N) :
    Wf t (([makeReapable u, nopreemptOff, ret r] : Code N) ++ []) := by
  simp [wf_cons, guarded_iff, hne]

theorem plain_wf (h : Wf t (i :: cs)) (hst : (s.uthreads t).utState = expect (i :: cs))
    (he : Plain t s i new) : Wf t (new ++ cs) := by
  obtain ⟨hok, hg, hcs⟩ := h
  cases he with
  | resume | yieldAssert | wakeAssert | wakeDrop | lockOwned | waitDone | signalNone
  | broadcastNone | threadStart | ret => exact hcs
  | allocStart =>
    simp only [Ok] at hok
    subst hok
    have hb : ∀ start prio, Below .uthreadsMtx ([allocScan start prio] : Code N) := by
      intro start prio q hq
      exact .inl (by simpa using hq)
    simp [wf_cons, guarded_iff, hb]
  | setprio | trylockFail | allocNone | allocReturnNone | allocReturn
  | allocStack | allocStackFail | joinFail | joinZombie | claimFail | detachFail | reaperGo
  | reaperDrained | scanFound | scanNext =>
    simp only [Ok] at hok
    subst hok
    simp [wf_cons, guarded_iff]
  | reapableNot u hz =>
    rcases hok with ⟨rfl, rfl⟩ | ⟨hne, r, rfl⟩
    · refine absurd ?_ hz
      rw [hst]; simp [expect, deadCode]
    · exact wf_unlockReap hcs
  | reapLate u k rv hz =>
    simp only [Ok] at hok
    subst hok
    simpa using wf_unlockReap (u := u) (wf_offRet (t := t) (.join u k .ok (some rv)))
  | reap u k rv hz =>
    simp only [Ok] at hok
    subst hok
    have hne : u ≠ t := by rintro rfl; rw [hst] at hz; simp [expect, asleep] at hz
    exact wf_makeReapable hne _
  | detachLate u k hz =>
    simp only [Ok] at hok
    subst hok
    simpa using wf_unlockReap (u := u) (wf_offRet (t := t) (.detach u k .ok))
  | detachZombie u k hz =>
    simp only [Ok] at hok
    subst hok
    have hne : u ≠ t := by rintro rfl; rw [hst] at hz; simp [expect, asleep] at hz
    exact wf_makeReapable hne _
  | reaperWait hq =>
    simp only [Ok] at hok
    subst hok
    have h : Wf t [reaperWait] := ⟨rfl, hg, hcs⟩
    simpa using wf_condWait .reapCond .reapMtx h (by simp) (by simp) (by simp)

/-- `uthread_cond_signal` in front of code that holds `ut_pmut` at most. -/
theorem wf_condSignal (cond : CondId) (h : Wf t c) (hh : Under 2 c) (hg : 0 < depth c)
    (hd : ∀ d u, destroy d u ∉ c) (ha : Awake c) : Wf t (uthreadCondSignal cond ++ c) := by
  have hc : ¬ Held (.cPmut cond) c := hh.not_held (by simp [PmtxId.rank])
  have hb : Below (.cPmut cond) (signalTest cond :: unlock (.cPmut cond) :: nopreemptOff :: c) := by
    rintro q (hq | ⟨-, -, hq⟩)
    · exact .inl (by simpa using hq)
    · rcases hq with hq | ⟨-, -, hq⟩
      · exact .inl (by simpa using hq)
      · exact .inr (by simpa [PmtxId.rank] using hh q (by simpa using hq))
  have hu : Under 3 (unlock (.cPmut cond) :: nopreemptOff :: c) := by
    rintro q (hq | ⟨-, -, hq⟩)
    · simp only [needs, List.mem_singleton] at hq; simp [hq, PmtxId.rank]
    · exact (hh q (by simpa using hq)).trans_le (by omega)
  simp [uthreadCondSignal, wf_cons, guarded_iff, h, hg, hd, hc, hb, hu, ha]

/-- The end of a call of the dead: `reap_mtx` is unlocked, then the thread leaves its LWP. -/
theorem wf_unlockDead (t : Fin N) : Wf t (uthreadMtxUnlock .reapMtx ++ deadCode t) :=
  wf_mtxUnlock .reapMtx (wf_deadCode t) (fun q hq => by rw [held_deadCode.1 hq]; simp [PmtxId.rank])
    (by simp) (by simp) (by simp) (by simp)

theorem Held.of_mtxUnlock {p : PmtxId N} {m : MtxId} (h : Held p (uthreadMtxUnlock m ++ c)) :
    Held p c := by
  simp only [uthreadMtxUnlock, List.cons_append, List.nil_append, held_cons, needs, locks,
    List.not_mem_nil, List.mem_singleton] at h
  tauto

/-- **The code after an instruction is well formed.** -/
theorem effect_wf (h : Wf t (i :: cs)) (hst : (s.uthreads t).utState = expect (i :: cs))
    (he : Effect l t s i s' new) : Wf t (new ++ cs) := by
  cases he with
  | plain hp => exact plain_wf h hst hp
  | lock | unlock | nopreemptOn | nopreemptOff | interruptLeave | swtch | wake | start | waitMark =>
    exact h.2.2
  | setprio u prio hs hnew =>
    have hcs : cs = [] := h.1
    subst hcs
    rcases hnew with rfl | rfl
    · have hr : Wf t [ret (.setprio .ok)] := by simp [wf_cons, guarded_iff]
      have hy := wf_yield hr (by simp) (by simp) (by simp) (by simp)
      have ha : Awake (uthreadYield ++ [ret (.setprio .ok)] : Code N) := by simp [uthreadYield]
      have hh : ∀ p, ¬ Held p (uthreadYield ++ [ret (.setprio .ok)] : Code N) := by
        simp [uthreadYield, uthreadSwitch]
      have hd : ∀ d u, destroy d u ∉ (uthreadYield ++ [ret (.setprio .ok)] : Code N) := by
        simp [uthreadYield, uthreadSwitch]
      rw [List.append_nil, List.append_assoc]
      simp only [List.cons_append, List.nil_append]
      simp [wf_cons, guarded_iff, hy, hh, hd, ha]
    · simp [wf_cons, guarded_iff]
  | take m ho hs hnew =>
    obtain ⟨hok, hg, hcs⟩ := h
    rcases hnew with ⟨rfl, rfl⟩ | ⟨rfl, rfl⟩
    · have hm : ¬ Held (.mPmut m) cs := hok.1.not_held (by simp)
      have hd := hg.no_destroy rfl (by simp)
      have ha : Awake cs := hg.awake (by simp) (by simp)
      simp [wf_cons, guarded_iff, hcs, hm, hd, ha]
    · simp only [Ok] at hok
      subst hok
      simp [wf_cons, guarded_iff]
  | block m ho =>
    obtain ⟨hok, hg, hcs⟩ := h
    have hd := hg.no_destroy rfl (by simp)
    have ha : Awake cs := hg.awake (by simp) (by simp)
    have h₁ : Wf t (lockOwned m :: nopreemptOff :: cs) := by
      simp [wf_cons, guarded_iff, hcs, hd, ha]
    have hdet : DetachOnly (nopreemptOff :: cs) := by
      rintro p (hp | ⟨-, -, hp⟩)
      · simp at hp
      · obtain ⟨u, k, rfl, hk⟩ := hok.1 p hp
        exact ⟨u, k, rfl, List.mem_cons_of_mem _ hk⟩
    have h₂ := wf_switch h₁ (.mutex hdet (by simp [hok.2])) (by simp) (by simp [hd]) (by simp)
    simpa using h₂
  | release m hq hs =>
    obtain ⟨hok, hg, hcs⟩ := h
    have hm : ¬ Held (.mPmut m) cs := hok.1.not_held (by simp [PmtxId.rank])
    have hd := hg.no_destroy rfl (by simp)
    have ha : Awake cs := hg.awake (by simp) (by simp)
    simp [wf_cons, guarded_iff, hcs, hm, hd, ha]
  | handOver m u hq hs =>
    obtain ⟨hok, hg, hcs⟩ := h
    have hm : ¬ Held (.mPmut m) cs := hok.1.not_held (by simp [PmtxId.rank])
    have hr : ¬ Held .runqMtx cs := hok.1.not_held (by simp [PmtxId.rank])
    have hd := hg.no_destroy rfl (by simp)
    have ha : Awake cs := hg.awake (by simp) (by simp)
    have h₁ : Wf t (nopreemptOff :: cs) := by simp [wf_cons, guarded_iff, hcs, hd, ha]
    have h₂ := wf_wake u h₁ (by simp [hr]) (by simp) (by simp [hd]) (by simp)
    have hm₂ : ¬ Held (.mPmut m) (uthreadWake u ++ nopreemptOff :: cs) := by
      simp [uthreadWake, hm]
    have hd₂ : ∀ d v, destroy d v ∉ uthreadWake u ++ nopreemptOff :: cs := by simp [uthreadWake, hd]
    have hdep : 0 < depth (uthreadWake u ++ nopreemptOff :: cs) := by simp [uthreadWake]
    have ha₂ : Awake (uthreadWake u ++ nopreemptOff :: cs) := by simp [uthreadWake]
    have h₃ : Wf t (unlock (.mPmut m) :: (uthreadWake u ++ nopreemptOff :: cs)) := by
      simp [wf_cons, guarded_iff, h₂, hm₂, hd₂, hdep, ha₂]
    simpa using h₃
  | signal cond u hq hs hnew =>
    rcases hnew with ⟨rfl, rfl⟩ | ⟨rfl, rfl⟩
    · obtain ⟨hok, hg, hcs⟩ := h
      exact wf_wake u hcs (hok.2.not_held (by simp [PmtxId.rank])) (hcs.depth_pos hok.1)
        (hg.no_destroy rfl (by simp)) (hg.awake (by simp) (by simp))
    · obtain ⟨hok, hg, hcs⟩ := id h
      have hr : ¬ Held .runqMtx cs := hok.2.not_held (by simp [PmtxId.rank])
      have hw := wf_wake u h (by simp [hr]) (hcs.depth_pos hok.1)
        (by simpa using hg.no_destroy rfl (by simp)) (by simp)
      simpa using hw
  | alloc start prio j hj hs =>
    have hcs : cs = [] := h.1
    subst hcs
    simp [wf_cons, guarded_iff]
  | create w tid prio =>
    have hcs : cs = [] := h.1
    subst hcs
    cases w <;> simp [createRest, uthreadStartonrunq, wf_cons, guarded_iff]
  | exitDetached u status hd =>
    obtain ⟨⟨rfl, rfl⟩, hg, hcs⟩ := h
    simp [wf_cons, guarded_iff, wf_deadCode]
  | exitAlone u status hd hq =>
    obtain ⟨⟨rfl, rfl⟩, hg, hcs⟩ := h
    simpa using wf_unlockDead u
  | exitJoined u w status hd hq =>
    obtain ⟨⟨rfl, rfl⟩, hg, hcs⟩ := h
    have hr : ¬ Held .runqMtx (uthreadMtxUnlock .reapMtx ++ deadCode u) := by
      intro hr
      simpa using held_deadCode.1 hr.of_mtxUnlock
    have hw := wf_wake w (wf_unlockDead u) hr (by simp [uthreadMtxUnlock])
      (by simp [uthreadMtxUnlock]) (by simp [uthreadMtxUnlock])
    simpa using hw
  | makeReapable u hz hs₁ hs hnew =>
    obtain ⟨hok, hg, hcs⟩ := h
    rcases hok with ⟨rfl, rfl⟩ | ⟨hne, r, rfl⟩
    · simp only [if_true] at hnew
      have h₁ : Wf u (panicDead :: deadCode u) := by
        simp [wf_cons, guarded_iff, wf_deadCode]
      have h₂ := wf_switch h₁ .reaped (by simp) (by simp) (by simp)
      set c₂ := uthreadSwitch none false none ++ panicDead :: deadCode u with hc₂
      have hh₂ : ∀ p, ¬ Held p c₂ := by simp [hc₂, uthreadSwitch]
      have hd₂ : ∀ d v, destroy d v ∉ c₂ := by simp [hc₂, uthreadSwitch]
      have ho₂ : ¬ Owns .reapMtx c₂ := by simp [hc₂, uthreadSwitch]
      have hg₂ : 0 < depth c₂ := by simp [hc₂, uthreadSwitch]
      have ha₂ : Awake c₂ := by simp [hc₂, uthreadSwitch]
      have h₃ := wf_mtxUnlock .reapMtx h₂ (fun q hq => absurd hq (hh₂ q)) ho₂ hg₂ hd₂ ha₂
      have h₄ : Wf u (unlock (.utPmut u) :: (uthreadMtxUnlock .reapMtx ++ c₂)) :=
        ⟨fun hp => hh₂ _ hp.of_mtxUnlock, guarded_iff.2 ⟨by simp [uthreadMtxUnlock],
          .inl (by simp [uthreadMtxUnlock, hg₂]), by simp [uthreadMtxUnlock, hd₂]⟩, h₃⟩
      have hu₄ : Under 2 (unlock (.utPmut u) :: (uthreadMtxUnlock .reapMtx ++ c₂)) := by
        rintro q (hq | ⟨-, -, hq⟩)
        · simp only [needs, List.mem_singleton] at hq; simp [hq, PmtxId.rank]
        · exact absurd hq.of_mtxUnlock (hh₂ q)
      have h₅ := wf_condSignal .reapCond h₄ hu₄ (by simp [uthreadMtxUnlock, hg₂])
        (by simp [uthreadMtxUnlock, hd₂]) (by simp)
      simpa [hnew, hc₂] using h₅
    · simp only [if_neg hne, List.append_nil] at hnew
      have h₁ := wf_unlockReap (u := u) hcs
      have hu₁ : Under 2 ([unlock (.utPmut u)] ++ uthreadMtxUnlock .reapMtx ++
          [nopreemptOff, ret r] : Code N) := by
        rintro q (hq | ⟨-, -, hq⟩)
        · simp only [needs, List.mem_singleton] at hq; simp [hq, PmtxId.rank]
        · have hq' := Held.of_mtxUnlock (m := .reapMtx) (c := [nopreemptOff, ret r]) (by simpa using hq)
          simp at hq'
      have h₂ := wf_condSignal .reapCond h₁ hu₁ (by simp [uthreadMtxUnlock])
        (by simp [uthreadMtxUnlock]) (by simp)
      simpa [hnew] using h₂
  | joinWait u k hq hd hz hinit hs₁ hs =>
    have hcs : cs = [] := h.1
    subst hcs
    have hb : Below (.utPmut u) [joinClaim u k] := fun q hq => .inl (by simpa using hq)
    have h₁ : Wf t [lock (.utPmut u), joinClaim u k] := by
      simp [wf_cons, guarded_iff, hb]
    simpa using wf_switch h₁ .join (by simp) (by simp) (by simp)
  | claim u k hz =>
    have hcs : cs = [] := h.1
    subst hcs
    have hb : Below (.utPmut u) [joinReap u k (s.uthreads u).utExit] :=
      fun q hq => .inl (by simpa using hq)
    have h₁ : Wf t [lock (.utPmut u), joinReap u k (s.uthreads u).utExit] := by
      simp [wf_cons, guarded_iff, hb]
    have hfree : ∀ p, ¬ Held p [lock (.utPmut u), joinReap u k (s.uthreads u).utExit] := by simp
    have h₂ := wf_mtxLock .reapMtx h₁ (.of_free hfree) (by simp) (.inl (by simp)) (by simp) (by simp)
    have h₃ : Wf t (unlock (.utPmut u) :: (uthreadMtxLock .reapMtx ++
        [lock (.utPmut u), joinReap u k (s.uthreads u).utExit])) := by
      refine ⟨?_, guarded_iff.2 ⟨?_, .inl ?_, ?_⟩, h₂⟩ <;> simp [uthreadMtxLock]
    simpa using h₃
  | detach u k hq hd hinit hs hnew =>
    have hcs : cs = [] := h.1
    subst hcs
    rcases hnew with ⟨-, rfl⟩ | ⟨-, rfl⟩
    · have h₁ : Wf t [detachReap u k] := by simp [wf_cons, guarded_iff]
      have hdet : DetachOnly [detachReap u k] := fun p hp => ⟨u, k, by simpa using hp, by simp⟩
      simpa using wf_mtxLock .reapMtx h₁ hdet (by simp) (.inl (by simp)) (by simp) (by simp)
    · simp [wf_cons, guarded_iff]
  | drain u hq hz =>
    have hcs : cs = [] := h.1
    subst hcs
    have hb : Below (.utPmut u) [unlock (.utPmut u), destroy .test u, reaperDrain] := by
      intro q hq
      exact .inl (by simpa using hq)
    simp [wf_cons, guarded_iff, destroyFront, hb]
  | destroy d u =>
    have hcs : cs = [reaperDrain] := h.1
    subst hcs
    cases d <;> simp [destroyRest, wf_cons, guarded_iff, destroyFront]

/-- The code of a call. -/
theorem call_wf (inc : Fin N → ℕ) (t : Fin N) (call : Call) : Wf t (call.code inc t) := by
  cases call with
  | create prio => simp [Call.code, uthreadCreate, wf_cons, guarded_iff]
  | exit status =>
    have h₁ : Wf t [lock (.utPmut t), exitTest t status] := by
      simp [wf_cons, guarded_iff, Below]
    have h₂ := wf_mtxLock .reapMtx h₁ (.of_free (by simp)) (by simp) (.inl (by simp)) (by simp)
      (by simp)
    have h₃ : Wf t (nopreemptOn :: (uthreadMtxLock .reapMtx ++
        [lock (.utPmut t), exitTest t status])) := by
      refine ⟨trivial, guarded_iff.2 ⟨?_, .inr ⟨?_, ?_⟩, ?_⟩, h₂⟩ <;> simp [uthreadMtxLock]
    simpa [Call.code, uthreadExit] using h₃
  | join uid =>
    simp only [Call.code, uthreadJoin]
    split <;> simp [wf_cons, guarded_iff, Below]
  | detach uid =>
    simp only [Call.code, uthreadDetach]
    split <;> simp [wf_cons, guarded_iff, Below]
  | yield => simpa [Call.code] using wf_yield (wf_nil t) (by simp) (by simp) (by simp) (by simp)
  | setprio uid prio =>
    simp only [Call.code, uthreadSetprio]
    split
    · simp [wf_cons, guarded_iff]
    · split <;> simp [wf_cons, guarded_iff]
  | mtxLock i =>
    simpa [Call.code] using
      wf_mtxLock (.user i) (wf_nil t) (.of_free (by simp)) (by simp) (.inr (by simp)) (by simp)
        (by simp)
  | mtxTrylock i => simp [Call.code, uthreadMtxTrylock, wf_cons, guarded_iff, Below]
  | mtxUnlock i => simp [Call.code, uthreadMtxUnlock, wf_cons, guarded_iff, Below, Under]
  | condWait c i =>
    simpa [Call.code] using
      wf_condWait (.user c) (.user i) (wf_nil t) (by simp) (by simp) (by simp) (by simp)
  | condSignal c =>
    simp [Call.code, uthreadCondSignal, wf_cons, guarded_iff, Below, Under, PmtxId.rank]
  | condBroadcast c =>
    simp [Call.code, uthreadCondBroadcast, wf_cons, guarded_iff, Below, Under, PmtxId.rank]
  | nopreemptOn => simp [Call.code, wf_cons, guarded_iff]
  | nopreemptOff => simp [Call.code, wf_cons, guarded_iff]

/-- A code that runs with preemption on is not about to leave the LWP. -/
theorem Wf.awake (h : Wf t c) (hd : depth c = 0) : Awake c := by
  intro ha
  unfold asleep at ha
  split at ha
  · have := h.2.2.depth_pos (p := .runqMtx) (by simp)
    simp only [depth_cons, depthBefore] at this hd
    omega
  · have := h.depth_pos (p := .runqMtx) (by simp)
    omega
  · cases ha

/-- The handler of `SIGVTALRM` in front of code that runs with preemption on. -/
theorem interrupt_wf (h : Wf t c) (hm : c = [nopreemptOff] ∨ depth c = 0) :
    Wf t (clockInterrupt ++ c) := by
  have hfree : (∀ p, ¬ Held p c) ∧ panicDead ∉ c ∧ ∀ d u, destroy d u ∉ c := by
    rcases hm with rfl | hm
    · simp
    · by_cases hne : c = []
      · subst hne; simp
      · have hg := h.guarded hne
        refine ⟨?_, ?_, ?_⟩
        · exact (hg.masked.resolve_left (by omega)).1
        · exact (hg.masked.resolve_left (by omega)).2
        · intro d u hu
          obtain ⟨pre, hpre, e⟩ := hg.destroys d u hu
          have := depth_front hpre
          rw [← e] at this
          omega
  obtain ⟨hh, hp, hd⟩ := hfree
  have ha : Awake c := hm.elim (fun e => by simp [e]) h.awake
  have h₁ : Wf t (interruptLeave :: c) := by
    simp [wf_cons, guarded_iff, h, hd, hm, ha]
  have h₂ := wf_yield h₁ (by simp [hh]) (by simp [hp]) (by simp [hd]) (by simp)
  simpa [clockInterrupt] using h₂

end Uthreads
