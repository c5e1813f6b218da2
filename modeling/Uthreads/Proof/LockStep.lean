import Uthreads.Proof.Invariant

/-!
# One holder for each POSIX mutex

A step makes a thread or an LWP a holder of a mutex that nobody held (`Locks.acquire`), passes
what a thread holds at a switch on to its LWP (`Locks.pass`), or leaves every mutex with the
holders it had or fewer (`Locks.mono`). `locks_step` is the step lemma.
-/

namespace Uthreads

variable {N L : ℕ} {l : Fin L} {t u : Fin N} {s s' s₁ : State N L} {i : Instr N} {cs new : Code N}
  {p : PmtxId N}

open Instr

/-- Nobody holds what it did not hold before. -/
theorem Locks.mono (h : Locks s) (hh : ∀ p x, HeldBy s' p x → HeldBy s p x ∧
    (s'.pmtx p).owner = (s.pmtx p).owner ∧ (s'.pmtx p).status = (s.pmtx p).status) : Locks s' := by
  constructor
  · intro p x y hx hy
    exact h.one p x y (hh p x hx).1 (hh p y hy).1
  · intro p x hx
    obtain ⟨hp, ho, hst⟩ := hh p x hx
    rw [ho, hst]
    exact h.taken p x hp

/-- `x` locks a mutex that is free. -/
theorem Locks.acquire (h : Locks s) (x : Fin N ⊕ Fin L) (ho : (s.pmtx p).owner = none)
    (hx : (s'.pmtx p).owner ≠ none ∧ (s'.pmtx p).status ≠ .destroyed)
    (hh : ∀ q y, HeldBy s' q y → q = p ∧ y = x ∨ q ≠ p ∧ HeldBy s q y ∧ s'.pmtx q = s.pmtx q) :
    Locks s' := by
  constructor
  · intro q y z hy hz
    rcases hh q y hy with ⟨rfl, rfl⟩ | ⟨hq, hy, -⟩
    · rcases hh q z hz with ⟨-, rfl⟩ | ⟨hq, -⟩
      · rfl
      · exact absurd rfl hq
    · rcases hh q z hz with ⟨rfl, -⟩ | ⟨-, hz, -⟩
      · exact absurd rfl hq
      · exact h.one q y z hy hz
  · intro q y hy
    rcases hh q y hy with ⟨rfl, rfl⟩ | ⟨-, hy, he⟩
    · exact hx
    · rw [he]
      exact h.taken q y hy

/-- `x` passes some of the mutexes it holds on to `y`. -/
theorem Locks.pass (h : Locks s) (x y : Fin N ⊕ Fin L) (hp : s'.pmtx = s.pmtx)
    (hh : ∀ q z, HeldBy s' q z → z = y ∧ HeldBy s q x ∧ ¬ HeldBy s' q x ∨ z ≠ y ∧ HeldBy s q z) :
    Locks s' := by
  constructor
  · intro q z w hz hw
    rcases hh q z hz with ⟨rfl, hx, hn⟩ | ⟨-, hzs⟩
    · rcases hh q w hw with ⟨rfl, -⟩ | ⟨-, hws⟩
      · rfl
      · rw [← h.one q x w hx hws] at hw
        exact absurd hw hn
    · rcases hh q w hw with ⟨rfl, hx, hn⟩ | ⟨-, hws⟩
      · rw [← h.one q x z hx hzs] at hz
        exact absurd hz hn
      · exact h.one q z w hzs hws
  · intro q z hz
    rw [hp]
    rcases hh q z hz with ⟨-, hx, -⟩ | ⟨-, hz⟩
    · exact h.taken q x hx
    · exact h.taken q z hz

/-- The code of another thread after an instruction of `t`. -/
theorem other_code (cs : Code N) (he : Effect l t s i s₁ new) (hu : u ≠ t) :
    ((s₁.setCtx t (new ++ cs)).uthreads u).utCtx = (s.uthreads u).utCtx ∨
      (∃ prio, i = createInit .ctx u prio) ∧ Vacant s u ∧
        ((s₁.setCtx t (new ++ cs)).uthreads u).utCtx = threadStartCode := by
  rcases (effect_code he u).1 with h | ⟨hi, hv, h⟩
  · exact .inl (by simpa [hu] using h)
  · exact .inr ⟨hi, hv, by simpa [hu] using h⟩

/-- What another thread holds after an instruction of `t`. -/
theorem other_held (he : Effect l t s i s₁ new) (hu : u ≠ t)
    (h : Held p ((s₁.setCtx t (new ++ cs)).uthreads u).utCtx) : Held p (s.uthreads u).utCtx := by
  rcases other_code cs he hu with e | ⟨-, -, e⟩
  · rwa [e] at h
  · rw [e] at h
    simp [threadStartCode] at h

/-- An instruction that does not switch leaves what the LWPs hold. -/
theorem lwp_held (he : Effect l t s i s₁ new) (hi : ∀ q sv m, i ≠ swtch q sv m) (k : Fin L) :
    HeldBy (s₁.setCtx t (new ++ cs)) p (.inr k) ↔ HeldBy s p (.inr k) := by
  simp only [HeldBy, State.setCtx_lwps, (effect_lwps he hi k).1]

/-- A POSIX mutex keeps its owner and its life under an instruction that does not lock or unlock,
if someone holds it. -/
theorem kept_pmtx (hl : Locks s) (he : Effect l t s i s₁ new) (hm : i.moves = false)
    {x : Fin N ⊕ Fin L} (hx : HeldBy s p x) :
    (s₁.pmtx p).owner = (s.pmtx p).owner ∧ (s₁.pmtx p).status = (s.pmtx p).status := by
  have ho := (hl.taken p x hx).1
  cases hw : i.writesPmtx with
  | false => rw [effect_pmtx he hw]; exact ⟨rfl, rfl⟩
  | true =>
    cases he with
    | lock | unlock => cases hm
    | create w v prio _ _ hp =>
      have hne : ¬ (w = .pmut ∧ p = .utPmut v) := by
        rintro ⟨hw', rfl⟩
        exact ho (hp hw').2
      simp [hne]
    | destroy d v _ _ hown =>
      have hne : ¬ (d = .pmut ∧ p = .utPmut v) := by
        rintro ⟨hd, rfl⟩
        exact ho (hown hd)
      simp [hne]
    | plain hp => cases hp <;> cases hw
    | take _ _ _ hnew => rcases hnew with ⟨rfl, -⟩ | ⟨rfl, -⟩ <;> cases hw
    | signal _ _ _ _ hnew => rcases hnew with ⟨rfl, -⟩ | ⟨rfl, -⟩ <;> cases hw
    | _ => cases hw

/-- What a switch leaves to the code of the thread: nothing that goes to the LWP. -/
theorem switch_held {q : Option (QueueId N)} {sv : Bool} {m : Option (PmtxId N)}
    (hok : OkSwitch t q sv m cs) : ¬ Held .runqMtx cs ∧ ∀ p ∈ m, ¬ Held p cs := by
  cases hok with
  | yield hh => simp [hh]
  | mutex hh => simp [hh.not_held]
  | cond hh => simp [hh]
  | join => simp
  | exit => simp
  | reaped => simp

/-- What the LWP is doing after a switch. -/
theorem switch_mode {q : Option (QueueId N)} {sv : Bool} {m : Option (PmtxId N)}
    (he : Effect l t s (swtch q sv m) s₁ new) : new = [] ∧ s₁.pmtx = s.pmtx ∧
      s₁.lwps = Function.update s.lwps l
        (match m with
        | some p => ⟨.unlocking p, some t, true⟩
        | none => ⟨.searching, none, true⟩) := by
  obtain ⟨hnew, hsw⟩ := effect_switch he
  cases hsw with
  | yield hz hs₁ =>
    have hr := runqEnqueue_rest (s := s.setState t .runnable) hs₁
    exact ⟨hnew, hr.pmtx, by simp [State.setLwp, hr.lwps]⟩
  | queue q p hs₁ hs =>
    have hr := enqueue_rest hs₁
    exact ⟨hnew, hs.pmtx.trans hr.pmtx, by simp [hs.lwps, State.setLwp, hr.lwps]⟩
  | leave | gone => exact ⟨hnew, rfl, rfl⟩

/-- **An instruction keeps the holders apart.** -/
theorem locks_thread (hc : Core s) (hon : OnStack s l t) (hcode : (s.uthreads t).utCtx = i :: cs)
    (he : Effect l t s i s₁ new) : Locks (s₁.setCtx t (new ++ cs)) := by
  have hwf := hc.codes.wf t
  have hst := (hc.active hon).1
  rw [hcode] at hwf hst
  have hself : ∀ p, HeldBy s p (.inl t) ↔ Held p (i :: cs) := fun p => by rw [← hcode]; rfl
  have hself' : ∀ p, HeldBy (s₁.setCtx t (new ++ cs)) p (.inl t) ↔ Held p (new ++ cs) :=
    fun p => by simp [HeldBy]
  cases hm : i.moves with
  | false =>
    have hi : ∀ q sv m, i ≠ swtch q sv m := by rintro q sv m rfl; cases hm
    refine hc.locks.mono fun p x hx => ?_
    have hs : HeldBy s p x := by
      cases x with
      | inl u =>
        by_cases hu : u = t
        · subst hu
          exact (hself p).2 ((effect_held hwf hst he hm).1 ((hself' p).1 hx))
        · exact other_held he hu hx
      | inr k => exact (lwp_held he hi k).1 hx
    have hk := kept_pmtx hc.locks he hm hs
    exact ⟨hs, hk⟩
  | true =>
    cases i with
    | lock p =>
      obtain ⟨rfl, hst', ho, rfl⟩ := effect_lock he
      refine hc.locks.acquire (.inl t) ho (by simp [hst']) fun q y hy => ?_
      by_cases hq : q = p
      · subst hq
        refine .inl ⟨rfl, ?_⟩
        cases y with
        | inl u =>
          by_cases hu : u = t
          · rw [hu]
          · exact absurd ho (hc.locks.taken q (.inl u) (other_held he hu hy)).1
        | inr k => exact absurd ho (hc.locks.taken q (.inr k) ((lwp_held he (by simp) k).1 hy)).1
      · refine .inr ⟨hq, ?_, by simp [hq]⟩
        cases y with
        | inl u =>
          by_cases hu : u = t
          · subst hu
            exact (hself q).2 (.inr ⟨by simpa using hq, by simp, (hself' q).1 hy⟩)
          · exact other_held he hu hy
        | inr k => exact (lwp_held he (by simp) k).1 hy
    | unlock p =>
      obtain ⟨rfl, -, rfl⟩ := effect_unlock he
      have hp : HeldBy s p (.inl t) := (hself p).2 (.inl (by simp))
      refine hc.locks.mono fun q y hy => ?_
      have hs : HeldBy s q y ∧ q ≠ p := by
        cases y with
        | inl u =>
          by_cases hu : u = t
          · subst hu
            have hcs := (hself' q).1 hy
            have hq : q ≠ p := by rintro rfl; exact hwf.1 hcs
            exact ⟨(hself q).2 (.inr ⟨by simp, by simp, hcs⟩), hq⟩
          · have h := other_held he hu hy
            refine ⟨h, ?_⟩
            rintro rfl
            exact hu (Sum.inl.inj (hc.locks.one q _ _ h hp))
        | inr k =>
          have h := (lwp_held he (by simp) k).1 hy
          refine ⟨h, ?_⟩
          rintro rfl
          cases hc.locks.one q _ _ h hp
      simp [hs.1, hs.2]
    | swtch q sv m =>
      obtain ⟨hr, hmh⟩ := switch_held hwf.1
      obtain ⟨rfl, hpm, hlw⟩ := switch_mode he
      have hmode : ∀ p, HeldBy (s₁.setCtx t ([] ++ cs)) p (.inr l) → p = .runqMtx ∨ p ∈ m := by
        intro p hp
        cases m with
        | none => exact .inl (by simpa [HeldBy, hlw] using hp)
        | some p' =>
          have hp' : p = p' ∨ p = .runqMtx := by simpa [HeldBy, hlw] using hp
          rcases hp' with rfl | h
          · exact .inr rfl
          · exact .inl h
      refine hc.locks.pass (.inl t) (.inr l) hpm ?_
      intro p z hz
      cases z with
      | inl u =>
        refine .inr ⟨by simp, ?_⟩
        by_cases hu : u = t
        · subst hu
          exact (hself p).2 (.inr ⟨by simp, by simp, (hself' p).1 hz⟩)
        · exact other_held he hu hz
      | inr k =>
        by_cases hk : k = l
        · subst hk
          refine .inl ⟨rfl, ?_⟩
          rw [hself, hself']
          rcases hmode p hz with rfl | hp
          · exact ⟨.inl (by simp), by simpa using hr⟩
          · exact ⟨.inl (by simpa using .inr hp), by simpa using hmh p hp⟩
        · exact .inr ⟨by simpa using hk, by simpa [HeldBy, hlw, hk] using hz⟩
    | _ => cases hm

/-- The code of a call starts with nothing held. -/
theorem call_held (inc : Fin N → ℕ) (t : Fin N) (c : Call) : ¬ Held p (c.code inc t) := by
  intro hp
  have hwf := call_wf inc t c
  have hd := hwf.depth_pos hp
  cases c with
  | create | exit | yield | mtxLock | mtxTrylock | mtxUnlock | condWait | condSignal
  | condBroadcast | nopreemptOn =>
    simp [Call.code, uthreadCreate, uthreadExit, uthreadYield, uthreadSwitch, uthreadMtxLock,
      uthreadMtxTrylock, uthreadMtxUnlock, uthreadCondWait, uthreadCondSignal,
      uthreadCondBroadcast] at hd
  | join uid =>
    simp only [Call.code, uthreadJoin] at hd
    split at hd <;> simp at hd
  | detach uid =>
    simp only [Call.code, uthreadDetach] at hd
    split at hd <;> simp at hd
  | setprio uid prio =>
    simp only [Call.code, uthreadSetprio] at hd
    split at hd
    · simp at hd
    · split at hd <;> simp at hd
  | nopreemptOff => simp [Call.code] at hp

/-- The code of a thread that may be preempted. -/
theorem preemptible (hc : Core s) (hon : OnStack s l t)
    (h0 : (s.uthreads t).utNoPreemptCount = 0) :
    (s.uthreads t).utCtx = [nopreemptOff] ∨ depth (s.uthreads t).utCtx = 0 := by
  rcases hc.depth hon with h | h
  · exact .inl h
  · exact .inr (by omega)

/-- It holds nothing. -/
theorem calm_held {c : Code N} (hwf : Wf t c) (hm : c = [nopreemptOff] ∨ depth c = 0) :
    ¬ Held p c := by
  intro hp
  have := hwf.depth_pos hp
  rcases hm with rfl | h0
  · simp at hp
  · omega

theorem interrupt_held {c : Code N} (hwf : Wf t c) (hm : c = [nopreemptOff] ∨ depth c = 0) :
    ¬ Held p (clockInterrupt ++ c) := by
  have hc : ∀ q, ¬ Held q c := fun q => calm_held hwf hm
  have hy := held_yield (p := p) (c := interruptLeave :: c) (by simpa using hc .runqMtx)
  simp only [clockInterrupt, List.append_assoc, List.cons_append, List.nil_append]
  rw [hy]
  simpa using hc p

/-- **Every step keeps the holders apart.** -/
theorem locks_step {a : Act} (hc : Core s) (h : Move s l a s') : Locks s' := by
  cases h with
  | halted e => exact hc.locks.mono fun p x hx => ⟨by cases x <;> exact hx, rfl, rfl⟩
  | thread t i cs new hon hcode he => exact locks_thread hc hon hcode he
  | call t c hon hcode =>
    refine hc.locks.mono fun p x hx => ⟨?_, rfl, rfl⟩
    cases x with
    | inl u =>
      by_cases hu : u = t
      · subst hu
        exact absurd (by simpa [HeldBy] using hx) (call_held (p := p) s.incarnation u c)
      · simpa [HeldBy, hu] using hx
    | inr k => exact hx
  | preempt t hon hm hst h0 =>
    refine hc.locks.mono fun p x hx => ⟨?_, rfl, rfl⟩
    cases x with
    | inl u =>
      by_cases hu : u = t
      · subst hu
        exact absurd (by simpa [HeldBy] using hx)
          (interrupt_held (p := p) (hc.codes.wf u) (preemptible hc hon h0))
      · simpa [HeldBy, hu] using hx
    | inr k =>
      by_cases hk : k = l
      · subst hk; simpa [HeldBy] using hx
      · simpa [HeldBy, hk] using hx
  | acquire m hm hst ho hs =>
    refine hc.locks.acquire (p := .runqMtx) (.inr l) ho (by simp [hs.pmtx, hst]) fun q y hy => ?_
    have hy' : HeldBy s q y ∨ q = .runqMtx ∧ y = .inr l := by
      cases y with
      | inl u => exact .inl (by simpa [HeldBy, hs.uthreads] using hy)
      | inr k =>
        by_cases hk : k = l
        · subst hk
          rcases hm with ⟨-, rfl⟩ | ⟨-, rfl⟩ <;>
            exact .inr ⟨by simpa [HeldBy, hs.lwps] using hy, rfl⟩
        · exact .inl (by simpa [HeldBy, hs.lwps, hk] using hy)
    rcases hy' with hy | ⟨rfl, rfl⟩
    · have hq : q ≠ .runqMtx := by rintro rfl; exact (hc.locks.taken _ _ hy).1 ho
      exact .inr ⟨hq, hy, by simp [hs.pmtx, hq]⟩
    · exact .inl ⟨rfl, rfl⟩
  | unlock p hm ho =>
    refine hc.locks.mono fun q y hy => ?_
    have hp : HeldBy s p (.inr l) := by simp [HeldBy, hm]
    have hs : HeldBy s q y ∧ q ≠ p := by
      cases y with
      | inl u =>
        have hu : HeldBy s q (.inl u) := hy
        refine ⟨hu, ?_⟩
        rintro rfl
        cases hc.locks.one q _ _ hu hp
      | inr k =>
        by_cases hk : k = l
        · subst hk
          have hq : q = .runqMtx := by simpa [HeldBy] using hy
          exact ⟨by simp [HeldBy, hm, hq], by rw [hq]; exact (hc.places.unlocking k p hm).symm⟩
        · have hk' : HeldBy s q (.inr k) := by simpa [HeldBy, hk] using hy
          refine ⟨hk', ?_⟩
          rintro rfl
          exact hk (Sum.inr.inj (hc.locks.one q _ _ hk' hp))
    simp [hs.1, hs.2]
  | dispatch t hm hd =>
    obtain ⟨p, x, -, -, rfl⟩ := dispatchBody_some hd
    refine hc.locks.mono fun q y hy => ⟨?_, rfl, rfl⟩
    cases y with
    | inl u => simpa [HeldBy, State.setState] using hy
    | inr k =>
      by_cases hk : k = l
      · subst hk; simpa [HeldBy, hm] using hy
      · simpa [HeldBy, hk] using hy
  | idle m hm hs =>
    refine hc.locks.mono fun q y hy => ⟨?_, by simp [hs.pmtx], by simp [hs.pmtx]⟩
    cases y with
    | inl u => simpa [HeldBy, hs.uthreads] using hy
    | inr k =>
      by_cases hk : k = l
      · subst hk
        rcases hm with ⟨hm, rfl⟩ | ⟨hm, rfl⟩ <;> simpa [HeldBy, hm, hs.lwps] using hy
      · simpa [HeldBy, hs.lwps, hk] using hy
  | leave m hm ho hs =>
    have hr : HeldBy s .runqMtx (.inr l) := by
      rcases hm with ⟨hm, -⟩ | ⟨hm, -⟩ <;> simp [HeldBy, hm]
    refine hc.locks.mono fun q y hy => ?_
    have hsq : HeldBy s q y ∧ q ≠ .runqMtx := by
      cases y with
      | inl u =>
        have hy : HeldBy s q (.inl u) := by simpa [HeldBy, hs.uthreads] using hy
        refine ⟨hy, ?_⟩
        rintro rfl
        cases hc.locks.one _ _ _ hy hr
      | inr k =>
        by_cases hk : k = l
        · subst hk
          rcases hm with ⟨-, rfl⟩ | ⟨-, rfl⟩ <;> simp [HeldBy, hs.lwps] at hy
        · have hy : HeldBy s q (.inr k) := by simpa [HeldBy, hs.lwps, hk] using hy
          refine ⟨hy, ?_⟩
          rintro rfl
          exact hk (Sum.inr.inj (hc.locks.one _ _ _ hy hr))
    simp [hs.pmtx, hsq.1, hsq.2]

end Uthreads
