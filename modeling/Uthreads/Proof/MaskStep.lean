import Uthreads.Proof.LockStep

/-!
# Codes, counters and signal masks

`codes_step`: every step leaves well-formed codes that agree with the preemption counters, and a
thread with the clock signal unmasked has the counter at zero.
-/

namespace Uthreads

variable {N L : ℕ} {l : Fin L} {t u : Fin N} {s s' s₁ : State N L} {i : Instr N} {cs new : Code N}

open Instr

@[simp] theorem wf_threadStart (t : Fin N) : Wf t threadStartCode := by
  simp [threadStartCode, wf_cons, Ok, guarded_iff]

/-- The counter of the thread itself: no instruction creates its own thread. -/
theorem self_count (hc : Core s) (hon : OnStack s l t) (hcode : (s.uthreads t).utCtx = i :: cs)
    (he : Effect l t s i s₁ new) :
    (s₁.uthreads t).utNoPreemptCount = i.count (s.uthreads t).utNoPreemptCount := by
  rcases (effect_code he t).2 with h | ⟨⟨prio, rfl⟩, -⟩
  · simpa using h
  · exact absurd (hc.creating hcode he).1 hon.not_off

/-- The instructions that change a mask or a counter. -/
def Instr.masks : Instr N → Bool
  | nopreemptOn | nopreemptOff | interruptLeave | swtch _ _ _ => true
  | _ => false

/-- The others leave the LWPs and the counters alone. -/
theorem effect_calm (he : Effect l t s i s₁ new) (hi : i.masks = false) :
    s₁.lwps = s.lwps ∧ i.count = id := by
  constructor
  · cases he with
    | nopreemptOn | nopreemptOff | interruptLeave | swtch => cases hi
    | plain _ hs | release _ _ hs | waitMark _ hs | alloc _ _ _ _ hs => exact hs.lwps
    | take _ _ hs | detach _ _ _ _ _ hs => exact hs.lwps
    | create | destroy => simp
    | wake v hw hs => exact (runqEnqueue_rest hs).lwps
    | start v prio hv hs => exact (runqEnqueue_rest hs).lwps
    | setprio v prio hs hnew =>
      rcases hs with ⟨rfl, -⟩ | ⟨-, hr⟩
      · rfl
      · exact (requeue_rest hr).lwps
    | handOver m v hq hs => exact hs.lwps.trans (dequeue_rest hq).lwps
    | signal c v hq hs => exact hs.lwps.trans (dequeue_rest hq).lwps
    | exitJoined v w status hd hq => exact (dequeue_rest hq).lwps
    | makeReapable v hz hs₁ hs => exact hs.lwps.trans (enqueue_rest hs₁).lwps
    | joinWait v k hq hd hz hinit hs₁ hs => exact hs.lwps.trans (enqueue_rest hs₁).lwps
    | drain v hq hz => exact (dequeue_rest hq).lwps
    | lock | unlock | block | exitDetached | exitAlone | claim => rfl
  · cases i <;> first | rfl | cases hi

/-- An instruction that leaves the clock signal unmasked leaves the counter at zero. -/
theorem effect_unmasked (he : Effect l t s i s₁ new)
    (h0 : (s.lwps l).masked = false → (s.uthreads t).utNoPreemptCount = 0)
    (hm : (s₁.lwps l).masked = false) (hi : ∀ q sv m, i ≠ swtch q sv m) :
    i.count (s.uthreads t).utNoPreemptCount = 0 := by
  cases hc : i.masks with
  | false =>
    obtain ⟨hl, hid⟩ := effect_calm he hc
    rw [hid]
    exact h0 (hl ▸ hm)
  | true =>
    cases he with
    | swtch => exact absurd rfl (hi _ _ _)
    | nopreemptOn => simp at hm
    | nopreemptOff masked _ hcnt h =>
      have h1 := h.1 (by simpa using hm)
      simp [count, h1]
    | interruptLeave => rfl
    | plain hp => cases hp <;> cases hc
    | take _ _ _ hnew => rcases hnew with ⟨rfl, -⟩ | ⟨rfl, -⟩ <;> cases hc
    | signal _ _ _ _ hnew => rcases hnew with ⟨rfl, -⟩ | ⟨rfl, -⟩ <;> cases hc
    | _ => cases hc

/-- An instruction that leaves it masked leaves the counter positive. -/
theorem effect_masked (he : Effect l t s i s₁ new)
    (h0 : (s.lwps l).masked = true → 0 < (s.uthreads t).utNoPreemptCount)
    (hm : (s₁.lwps l).masked = true) (hi : ∀ q sv m, i ≠ swtch q sv m) :
    0 < i.count (s.uthreads t).utNoPreemptCount := by
  cases hc : i.masks with
  | false =>
    obtain ⟨hl, hid⟩ := effect_calm he hc
    rw [hid]
    exact h0 (hl ▸ hm)
  | true =>
    cases he with
    | swtch => exact absurd rfl (hi _ _ _)
    | nopreemptOn => exact Nat.succ_pos _
    | nopreemptOff masked _ hcnt h =>
      have hm₁ : masked = true := by simpa using hm
      have hne : (s.uthreads t).utNoPreemptCount ≠ 1 := fun e => by
        rw [h.2 e] at hm₁
        cases hm₁
      simp only [count]
      omega
    | interruptLeave => simp at hm
    | plain hp => cases hp <;> cases hc
    | take _ _ _ hnew => rcases hnew with ⟨rfl, -⟩ | ⟨rfl, -⟩ <;> cases hc
    | signal _ _ _ _ hnew => rcases hnew with ⟨rfl, -⟩ | ⟨rfl, -⟩ <;> cases hc
    | _ => cases hc

/-- An instruction that switches leaves a masked LWP in its own code. -/
theorem switch_lwp {q : Option (QueueId N)} {sv : Bool} {m : Option (PmtxId N)}
    (he : Effect l t s (swtch q sv m) s₁ new) :
    (s₁.lwps l).mode ≠ .running ∧ (s₁.lwps l).masked = true ∧ ∀ k, k ≠ l → s₁.lwps k = s.lwps k := by
  obtain ⟨-, -, hl⟩ := switch_mode he
  rw [hl]
  cases m <;> simp +contextual

/-- A thread that is not started yet is started by `uthread_startonrunq` only. -/
theorem unstarted_thread (hc : Core s) (hon : OnStack s l t) (hcode : (s.uthreads t).utCtx = i :: cs)
    (he : Effect l t s i s₁ new) (hu : Unstarted s u) :
    Unstarted s₁ u ∨ ∃ prio, i = startTest u prio := by
  have hut : u ≠ t := by rintro rfl; exact hon.not_off (hc.unstarted hu).1
  unfold Unstarted at hu ⊢
  cases effect_state he u with
  | same h => rw [h]; exact .inl hu
  | saved _ h | blocked _ h => exact absurd h hut
  | woken _ h => rw [h] at hu; rcases hu with hu | hu <;> cases hu
  | started prio hi => exact .inr ⟨prio, hi⟩
  | allocated _ _ _ _ h => exact .inl (.inr h)
  | exited status hi =>
    subst hi
    have hwf := hc.codes.wf t
    rw [hcode] at hwf
    exact absurd hwf.1.1 hut
  | destroyed _ h => exact .inl (.inl h)

theorem codes_thread (hc : Core s) (hon : OnStack s l t) (hcode : (s.uthreads t).utCtx = i :: cs)
    (he : Effect l t s i s₁ new) : Codes (s₁.setCtx t (new ++ cs)) := by
  have hwf := hc.codes.wf t
  have hst := (hc.active hon).1
  have hd := hc.depth hon
  rw [hcode] at hwf hst hd
  constructor
  · intro u
    by_cases hu : u = t
    · subst hu
      simpa using effect_wf hwf hst he
    · rcases other_code cs he hu with e | ⟨-, -, e⟩ <;> rw [e]
      · exact hc.codes.wf u
      · simp
  · intro u
    by_cases hu : u = t
    · subst hu
      have hd' : depth (i :: cs) ≤ (s.uthreads u).utNoPreemptCount := by
        rcases hd with h | h
        · obtain ⟨rfl, rfl⟩ := List.cons.inj h
          have := effect_off he
          simp only [depth_cons, depth_nil, depthBefore]
          omega
        · exact h
      right
      simpa [self_count hc hon hcode he] using effect_depth hwf he hd'
    · rw [show Unstarted (s₁.setCtx t (new ++ cs)) u ↔ Unstarted s₁ u by simp [Unstarted]]
      by_cases hun : Unstarted s u
      · rcases unstarted_thread hc hon hcode he hun with h | ⟨prio, rfl⟩
        · exact .inl h
        · -- it was set up
          have hmem : startTest u prio ∈ (s.uthreads t).utCtx := by
            rw [hcode]; exact List.mem_cons_self
          have hset := hc.slots.setUp t _ hmem
          have hstart := hc.slots.start t u (by rw [hcode]; simp)
          obtain ⟨hcode', hcnt⟩ := effect_code he u
          have e : (s₁.uthreads u).utCtx = threadStartCode := by
            rcases hcode' with e | ⟨-, -, e⟩
            · rw [e, hstart.2]
            · exact e
          have hcnt' : (s₁.uthreads u).utNoPreemptCount = (s.uthreads u).utNoPreemptCount := by
            rcases hcnt with h | ⟨⟨_, h⟩, -⟩
            · simpa [hu] using h
            · cases h
          right; right
          have := hset.2
          simp only [State.setCtx_uthreads, if_neg hu, e, hcnt', threadStartCode, depth_cons, depth_nil,
            depthBefore]
          omega
      · obtain ⟨hcode', hcnt⟩ := effect_code he u
        have e : (s₁.uthreads u).utCtx = (s.uthreads u).utCtx := by
          rcases hcode' with e | ⟨⟨prio, rfl⟩, -⟩
          · exact e
          · exact absurd (hc.creating hcode he).2.1 hun
        have hcnt' : (s₁.uthreads u).utNoPreemptCount = (s.uthreads u).utNoPreemptCount := by
          rcases hcnt with h | ⟨⟨prio, rfl⟩, -⟩
          · simpa [hu] using h
          · exact absurd (hc.creating hcode he).2.1 hun
        right
        simpa [hu, e, hcnt'] using (hc.codes.depth u).resolve_left hun
  · intro k u hk hm
    by_cases hi : ∃ q sv m, i = swtch q sv m
    · obtain ⟨q, sv, m, rfl⟩ := hi
      obtain ⟨hmode, -, hother⟩ := switch_lwp he
      have hkl : k ≠ l := by rintro rfl; exact hmode hk.1
      have hon' : OnStack s k u := by
        simpa [OnStack, hother k hkl] using hk
      have hut : u ≠ t := by rintro rfl; exact hkl (hc.places.cur k l u hon'.2 hon.2)
      have hcnt : (s₁.uthreads u).utNoPreemptCount = (s.uthreads u).utNoPreemptCount := by
        rcases (effect_code he u).2 with h | ⟨⟨_, h⟩, -⟩
        · simpa [hut] using h
        · cases h
      simpa [hut, hcnt] using hc.codes.unmasked k u hon' (by simpa [hother k hkl] using hm)
    · have hi' : ∀ q sv m, i ≠ swtch q sv m := fun q sv m e => hi ⟨q, sv, m, e⟩
      obtain ⟨hmode, hcur, hmask⟩ := effect_lwps he hi' k
      have hon' : OnStack s k u := ⟨hmode ▸ hk.1, hcur ▸ hk.2⟩
      by_cases hkl : k = l
      · subst hkl
        have hut : u = t := Option.some.inj (hon'.2.symm.trans hon.2)
        subst hut
        have h0 := effect_unmasked he (hc.codes.unmasked k u hon) (by simpa using hm) hi'
        simpa [self_count hc hon hcode he] using h0
      · have hut : u ≠ t := by rintro rfl; exact hkl (hc.places.cur k l u hon'.2 hon.2)
        have h0 := hc.codes.unmasked k u hon' (by rw [← hmask hkl]; exact hm)
        rcases (effect_code he u).2 with h | ⟨⟨prio, rfl⟩, -⟩
        · simpa [hut, h] using h0
        · exact absurd (hc.creating hcode he).1 hon'.not_off
  · intro k hk
    by_cases hi : ∃ q sv m, i = swtch q sv m
    · obtain ⟨q, sv, m, rfl⟩ := hi
      obtain ⟨-, hmask, hother⟩ := switch_lwp he
      by_cases hkl : k = l
      · subst hkl; simpa using hmask
      · have hmode : (s.lwps k).mode ≠ .running := by simpa [hother k hkl] using hk
        simpa [hother k hkl] using hc.codes.masked k hmode
    · have hi' : ∀ q sv m, i ≠ swtch q sv m := fun q sv m e => hi ⟨q, sv, m, e⟩
      obtain ⟨hmode, -, hmask⟩ := effect_lwps he hi' k
      have hkl : k ≠ l := by
        rintro rfl
        exact hk (by simpa [hmode] using hon.1)
      have := hc.codes.masked k (by simpa [hmode] using hk)
      simpa [hmask hkl] using this

/-- The codes with the steps of `lwp_switch` and `lwp_park`. -/
theorem Codes.lwp (hc : Codes s) (hu : ∀ t, (s'.uthreads t).utCtx = (s.uthreads t).utCtx ∧
      (s'.uthreads t).utNoPreemptCount = (s.uthreads t).utNoPreemptCount ∧
      (Unstarted s t → Unstarted s' t))
    (hl : ∀ k, k ≠ l → s'.lwps k = s.lwps k)
    (hm : (s'.lwps l).masked = true) : Codes s' := by
  constructor
  · intro t; rw [(hu t).1]; exact hc.wf t
  · intro t
    rw [(hu t).1, (hu t).2.1]
    exact (hc.depth t).imp_left (hu t).2.2
  · intro k t hk hmk
    have hkl : k ≠ l := by rintro rfl; rw [hm] at hmk; cases hmk
    rw [(hu t).2.1]
    simp only [OnStack, hl k hkl] at hk hmk
    exact hc.unmasked k t hk hmk
  · intro k hk
    by_cases hkl : k = l
    · rw [hkl]; exact hm
    · rw [hl k hkl] at hk ⊢
      exact hc.masked k hk

/-- The code of a call switches preemption on as often as off. -/
theorem call_depth (inc : Fin N → ℕ) (t : Fin N) (c : Call) :
    depth (c.code inc t) = 0 ∨ c.code inc t = [nopreemptOff] := by
  cases c with
  | create | exit | yield | mtxLock | mtxTrylock | mtxUnlock | condWait | condSignal
  | condBroadcast | nopreemptOn =>
    left
    simp [Call.code, uthreadCreate, uthreadExit, uthreadYield, uthreadSwitch, uthreadMtxLock,
      uthreadMtxTrylock, uthreadMtxUnlock, uthreadCondWait, uthreadCondSignal,
      uthreadCondBroadcast]
  | join uid =>
    left
    simp only [Call.code, uthreadJoin]
    split <;> simp
  | detach uid =>
    left
    simp only [Call.code, uthreadDetach]
    split <;> simp
  | setprio uid prio =>
    left
    simp only [Call.code, uthreadSetprio]
    split
    · simp
    · split <;> simp
  | nopreemptOff => right; rfl

theorem depth_interrupt {c : Code N} : depth (clockInterrupt ++ c) = 1 := by
  simp [clockInterrupt, uthreadYield, uthreadSwitch]

/-- **Every step keeps the codes well formed.** -/
theorem codes_step {a : Act} (hc : Core s) (h : Move s l a s') : Codes s' := by
  cases h with
  | halted e =>
    exact ⟨hc.codes.wf, fun t => hc.codes.depth t, fun k t hk => hc.codes.unmasked k t hk, hc.codes.masked⟩
  | thread t i cs new hon hcode he => exact codes_thread hc hon hcode he
  | call t c hon hcode =>
    have hd : c.code s.incarnation t = [nopreemptOff] ∨
        depth (c.code s.incarnation t) ≤ (s.uthreads t).utNoPreemptCount :=
      (call_depth s.incarnation t c).symm.imp_right fun h => by omega
    refine ⟨fun u => ?_, fun u => ?_, fun k u hk hm => ?_, hc.codes.masked⟩
    · by_cases hu : u = t
      · subst hu; simpa using call_wf s.incarnation u c
      · simpa [hu] using hc.codes.wf u
    · by_cases hu : u = t
      · subst hu
        right
        simpa using hd
      · simpa [Unstarted, hu] using hc.codes.depth u
    · simpa using hc.codes.unmasked k u hk hm
  | preempt t hon hm hst h0 =>
    refine ⟨fun u => ?_, fun u => ?_, fun k u hk hmk => ?_, fun k hk => ?_⟩
    · by_cases hu : u = t
      · subst hu
        simpa using interrupt_wf (hc.codes.wf u) (preemptible hc hon h0)
      · simpa [hu] using hc.codes.wf u
    · by_cases hu : u = t
      · subst hu
        right
        simp [depth_interrupt]
      · simpa [Unstarted, hu] using hc.codes.depth u
    · have hkl : k ≠ l := by rintro rfl; simp at hmk
      have hon' : OnStack s k u := by simpa [OnStack, hkl] using hk
      have hut : u ≠ t := by rintro rfl; exact hkl (hc.places.cur k l u hon'.2 hon.2)
      simpa [hut] using hc.codes.unmasked k u hon' (by simpa [hkl] using hmk)
    · have hkl : k ≠ l := by rintro rfl; simp [hon.1] at hk
      simpa [hkl] using hc.codes.masked k (by simpa [hkl] using hk)
  | acquire m hm hst ho hs =>
    refine hc.codes.lwp (l := l) (fun t => by simp [Unstarted, hs.uthreads])
      (fun k hk => by simp [hs.lwps, hk]) ?_
    have := hc.codes.masked l (by rcases hm with ⟨h, -⟩ | ⟨h, -⟩ <;> simp [h])
    simpa [hs.lwps] using this
  | unlock p hm ho =>
    exact hc.codes.lwp (l := l) (fun t => by simp [Unstarted]) (fun k hk => by simp [hk]) (by simp)
  | dispatch t hm hd =>
    obtain ⟨p, x, hq, -, rfl⟩ := dispatchBody_some hd
    refine hc.codes.lwp (l := l) (fun u => ⟨by simp [State.setState], by simp [State.setState],
      fun hu => ?_⟩) (fun k hk => by simp [hk]) (by simp)
    have hut : u ≠ t := by
      rintro rfl
      have hrun := ((hc.runq.mem u p).1 (by rw [hq]; exact List.mem_cons_self)).1
      rcases hu with hu | hu <;> rw [hu] at hrun <;> cases hrun
    simpa [Unstarted, State.setState, hut] using hu
  | idle m hm hs =>
    refine hc.codes.lwp (l := l) (fun t => by simp [Unstarted, hs.uthreads])
      (fun k hk => by simp [hs.lwps, hk]) ?_
    have := hc.codes.masked l (by rcases hm with ⟨h, -⟩ | ⟨h, -⟩ <;> simp [h])
    simpa [hs.lwps] using this
  | leave m hm ho hs =>
    refine hc.codes.lwp (l := l) (fun t => by simp [Unstarted, hs.uthreads])
      (fun k hk => by simp [hs.lwps, hk]) ?_
    have := hc.codes.masked l (by rcases hm with ⟨h, -⟩ | ⟨h, -⟩ <;> simp [h])
    simpa [hs.lwps] using this

end Uthreads
