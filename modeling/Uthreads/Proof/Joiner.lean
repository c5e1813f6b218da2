import Uthreads.Proof.Life

/-!
# Waiting in a join

A join that has to wait for its target puts itself on `ut_waiter` and switches; behind the switch it
takes `ut_pmut` again and looks whether the target has ended.

* `joinCodes_step`: the code of a joiner, from its switch to that look.
* `joinWaits_step`: while it is in `UT_WAIT` it is on `ut_waiter`, or its target is about to wake it.
* `joiner_awake`: so it waits no more when the target has ended and has left its stack.
-/

namespace Uthreads

variable {N L : ℕ} {l : Fin L} {t u v : Fin N} {s s' s₁ : State N L} {i : Instr N} {c cs new : Code N}
  {k : ℕ} {a : Act}

open Instr

/-- What a waiting join still has to execute until it looks. -/
def joinRest (u : Fin N) (k : ℕ) : Code N :=
  uthreadSwitch none false (some (.utPmut u)) ++ [lock (.utPmut u), joinClaim u k]

/-- A joiner that is still to look is in the wait of its join. -/
def JoinCodes (s : State N L) : Prop :=
  ∀ v u k, joinClaim u k ∈ (s.uthreads v).utCtx → (s.uthreads v).utCtx <:+ joinRest u k

theorem joinRest_suffix (h : i :: cs <:+ joinRest u k) :
    i :: cs = joinRest u k ∨
      i :: cs = [swtch none false (some (.utPmut u)), resume, lock (.utPmut u), joinClaim u k] ∨
      i :: cs = [resume, lock (.utPmut u), joinClaim u k] ∨
      i :: cs = [lock (.utPmut u), joinClaim u k] ∨ i :: cs = [joinClaim u k] := by
  unfold joinRest uthreadSwitch at h ⊢
  simp only [List.cons_append, List.nil_append, List.suffix_cons_iff, List.suffix_nil] at h
  simp only [List.cons_append, List.nil_append]
  tauto

/-- A test of a join that has passed. -/
theorem effect_joins (he : Effect l t s i s₁ new) (hm : joinClaim u k ∈ new) :
    i = joinTest u k ∧ (new = [joinClaim u k] ∧ s₁.uthreads = s.uthreads ∧
        (s.uthreads u).utState = .zombie ∨
      new = joinRest u k ∧ t ∈ (s₁.queues (.utWaiter u)).tqWaiters) := by
  obtain rfl : i = joinTest u k := effect_before he _ hm
  refine ⟨rfl, ?_⟩
  cases he with
  | plain hp hs =>
    cases hp with
    | joinZombie _ _ hq hd hz => exact .inl ⟨rfl, hs.uthreads, hz⟩
    | joinFail => simp at hm
  | take _ _ _ h | signal _ _ _ _ h => rcases h with ⟨h, -⟩ | ⟨h, -⟩ <;> cases h
  | joinWait _ _ hq hd hz hinit hs₁ hs =>
    obtain ⟨-, rfl⟩ := utqueueEnqueue_ok hs₁
    exact .inr ⟨rfl, by rw [hs.queues]; simp⟩

/-- The instructions in front of the look put nothing there. -/
theorem effect_joinRest (he : Effect l t s i s₁ new) (h : i :: cs <:+ joinRest u k) (hcs : cs ≠ []) :
    new = [] ∧ i.wakes = [] := by
  rcases joinRest_suffix h with e | e | e | e | e <;> obtain ⟨rfl, rfl⟩ := List.cons.inj e
  · exact ⟨(effect_lock he).1, rfl⟩
  · exact ⟨(effect_switch he).1, rfl⟩
  · refine ⟨?_, rfl⟩
    cases he with
    | plain hp => cases hp; rfl
    | take _ _ _ h | signal _ _ _ _ h => rcases h with ⟨h, -⟩ | ⟨h, -⟩ <;> cases h
  · exact ⟨(effect_lock he).1, rfl⟩
  · exact absurd rfl hcs

theorem joinCodes_step (hc : Core s) (hj : JoinCodes s) (h : Turn s l a s') : JoinCodes s' := by
  intro v u k hm
  cases code_turn h v with
  | same e => rw [e] at hm ⊢; exact hj v u k hm
  | @thread i cs new s₁ hon hcode he e =>
    rw [e] at hm ⊢
    have hwf := hc.codes.wf v
    rw [hcode] at hwf
    rcases List.mem_append.1 hm with hm | hm
    · obtain ⟨rfl, hnew⟩ := effect_joins he hm
      have hcs : cs = [] := hwf.1
      rw [hcs, List.append_nil]
      rcases hnew with ⟨rfl, -⟩ | ⟨rfl, -⟩
      · exact ⟨uthreadSwitch none false (some (.utPmut u)) ++ [lock (.utPmut u)], by simp [joinRest]⟩
      · exact List.suffix_rfl
    · have hsuf : i :: cs <:+ joinRest u k := by
        have := hj v u k (by rw [hcode]; exact List.mem_cons_of_mem i hm)
        rwa [hcode] at this
      obtain ⟨rfl, -⟩ := effect_joinRest he hsuf (List.ne_nil_of_mem hm)
      exact (List.suffix_cons i cs).trans hsuf
  | create t prio cs hon hcode hv e => rw [e] at hm; simp [threadStartCode] at hm
  | call c ha hon hcode e =>
    rw [e] at hm
    have := call_ends _ _ c _ hm
    simp at this
  | preempt ha hon hst h0 e =>
    -- preemption is off in a join
    rw [e] at hm
    have hm' : joinClaim u k ∈ (s.uthreads v).utCtx := by
      simpa [clockInterrupt, uthreadYield, uthreadSwitch] using hm
    exfalso
    have hsuf := hj v u k hm'
    have h0' := preemptible hc hon h0
    cases hcode : (s.uthreads v).utCtx with
    | nil => rw [hcode] at hm'; cases hm'
    | cons i cs =>
      rw [hcode] at hsuf h0'
      rcases joinRest_suffix hsuf with e | e | e | e | e <;> rw [e] at h0' <;>
        simp [joinRest, uthreadSwitch] at h0'

/-- A joiner in `UT_WAIT` is on `ut_waiter`, or its target is about to wake it. -/
def JoinWaits (s : State N L) : Prop :=
  ∀ v u k, joinClaim u k ∈ (s.uthreads v).utCtx → (s.uthreads v).utState = .wait →
    v ∈ (s.queues (.utWaiter u)).tqWaiters ∨ v ∈ wakes (s.uthreads u).utCtx

/-- What a step leaves of a waiter: it stays on `ut_waiter`, until the target ends and is to wake
it. -/
theorem waiter_turn (hc : Core s) (h : Turn s l a s')
    (hv : v ∈ (s.queues (.utWaiter u)).tqWaiters) : v ∈ (s'.queues (.utWaiter u)).tqWaiters ∨
      (s'.uthreads u).utState = .zombie ∧ v ∈ wakes (s'.uthreads u).utCtx := by
  have hne : (s.queues (.utWaiter u)).tqWaiters ≠ [] := List.ne_nil_of_mem hv
  cases h with
  | @thread _ t i cs new s₁ hon hcode he =>
    by_cases hq : QueueId.utWaiter u ∈ i.queues
    · have he' := he
      cases he with
      | plain hp hs => left; rw [State.setCtx_queues, hs.queues]; exact hv
      | swtch hsw =>
        have hwf := hc.codes.wf t
        rw [hcode] at hwf
        cases hwf.1 <;> simp at hq
      | take _ _ _ hnew | signal _ _ _ _ hnew =>
        rcases hnew with ⟨rfl, -⟩ | ⟨rfl, -⟩ <;> simp at hq
      | create w x prio =>
        obtain ⟨rfl, hx⟩ := queues_createInit hq
        cases hx
        exact absurd (hc.create_empty hcode he') hne
      | exitDetached | exitAlone => exact .inl hv
      | exitJoined w x status hd hdq =>
        obtain rfl : u = w := by simpa using hq
        have hwf := hc.codes.wf t
        rw [hcode] at hwf
        obtain ⟨rfl, -⟩ := hwf.1
        obtain ⟨y, hy, rfl⟩ := utqueueDequeue_some hdq
        have hy' : (s.queues (.utWaiter u)).tqWaiters = x :: y.tqWaiters := hy
        rw [hy', List.mem_cons] at hv
        rcases hv with rfl | hv
        · -- the target wakes it
          right
          refine ⟨?_, by simp [uthreadWake]⟩
          by_cases hx : u = v <;> simp [hx]
        · exact .inl (by simpa using hv)
      | joinWait w k hq' hd hz hinit hs₁ hs =>
        obtain rfl : u = w := by simpa using hq
        exact absurd hq' hne
      | destroy d w =>
        obtain ⟨rfl, hx⟩ := queues_destroy hq
        cases hx
        have hz := (hc.slots.destroy t .waiter u (by rw [hcode]; simp)).st
        exact absurd (hc.slots.noWaiter u (.inr (.inl hz))) hne
      | _ => simp at hq
    · left
      rw [State.setCtx_queues, effect_queues he (by simp) hq]
      exact hv
  | call | preempt => exact .inl hv
  | lwp hb => left; rw [hb.queues _ (by simp)]; exact hv

/-- What a step leaves of a wake-up: it is still to come, or the thread is awake. -/
theorem wakes_turn (hc : Core s) (h : Turn s l a s') (hv : v ∈ wakes (s.uthreads u).utCtx) :
    v ∈ wakes (s'.uthreads u).utCtx ∨ (s'.uthreads v).utState ≠ .wait := by
  have hst : (s.uthreads v).utState = .wait := (hc.places.woken v ⟨u, hv⟩).2.1
  cases h with
  | @thread _ t i cs new s₁ hon hcode he =>
    by_cases hu : u = t
    · subst hu
      rw [hcode, wakes_cons, List.mem_append] at hv
      rcases hv with hv | hv
      · right
        obtain rfl : i = wakeTest v := by
          cases i <;> simp at hv
          rw [hv]
        cases he with
        | plain hp => cases hp with | wakeDrop _ hn => exact absurd hst hn
        | take _ _ _ hnew | signal _ _ _ _ hnew => rcases hnew with ⟨h, -⟩ | ⟨h, -⟩ <;> cases h
        | wake _ _ hs =>
          have h := (runqEnqueue_thread hs v).2.1
          simp only [State.setState_uthreads, if_true] at h
          rw [setCtx_utState, h]
          decide
      · left
        simp [hv]
    · rcases other_code cs he hu with e | ⟨-, hva, -⟩
      · exact .inl (by rw [e]; exact hv)
      · rcases (hc.free hva.1).2.2.2 with h | h
        · rw [h.wakes_eq] at hv; cases hv
        · rw [h] at hv; simp [threadStartCode] at hv
  | call t c hon hcode =>
    by_cases hu : u = t
    · subst hu; rw [hcode] at hv; cases hv
    · exact .inl (by simpa [hu] using hv)
  | preempt t hon =>
    left
    by_cases hu : u = t
    · subst hu; simp [hv]
    · simpa [hu] using hv
  | lwp hb => left; rw [(hb.fields u).1]; exact hv

/-- A step that brings in the look of a join. -/
theorem joinClaim_turn (hc : Core s) (h : Turn s l a s')
    (hm : joinClaim u k ∈ (s'.uthreads v).utCtx) : joinClaim u k ∈ (s.uthreads v).utCtx ∨
      (s.uthreads v).utCtx = [joinTest u k] ∧ (v ∈ (s'.queues (.utWaiter u)).tqWaiters ∨
        (s'.uthreads u).utState = .zombie ∧ (s'.uthreads v).utState ≠ .wait) := by
  cases h with
  | @thread _ t i cs new s₁ hon hcode he =>
    by_cases hv : v = t
    · subst hv
      have hm' : joinClaim u k ∈ new ++ cs := by simpa using hm
      rcases List.mem_append.1 hm' with hm' | hm'
      · obtain ⟨rfl, hnew⟩ := effect_joins he hm'
        have hst := (hc.active hon).1
        have hwf := hc.codes.wf v
        rw [hcode] at hst hwf
        have hcs : cs = [] := hwf.1
        refine .inr ⟨by rw [hcode, hcs], ?_⟩
        rcases hnew with ⟨-, hu, hz⟩ | ⟨-, hq⟩
        · -- the target has ended already
          right
          rw [setCtx_utState, setCtx_utState, hu, hst, hcs]
          exact ⟨hz, by simp [expect, asleep]⟩
        · exact .inl hq
      · exact .inl (by rw [hcode]; exact List.mem_cons_of_mem i hm')
    · rcases other_code cs he hv with e | ⟨-, -, e⟩
      · exact .inl (e ▸ hm)
      · rw [e] at hm; simp [threadStartCode] at hm
  | call t c hon hcode =>
    by_cases hv : v = t
    · subst hv
      have hm' : joinClaim u k ∈ c.code s.incarnation v := by simpa using hm
      have := call_ends _ _ c _ hm'
      simp at this
    · exact .inl (by simpa [hv] using hm)
  | preempt t hon =>
    by_cases hv : v = t
    · subst hv
      left
      simpa [clockInterrupt, uthreadYield, uthreadSwitch] using hm
    · exact .inl (by simpa [hv] using hm)
  | lwp hb => exact .inl (by rw [← (hb.fields v).1]; exact hm)

/-- A joiner does not go to sleep again before it has looked. -/
theorem joiner_waits (hj : JoinCodes s) (h : Turn s l a s')
    (hm : joinClaim u k ∈ (s.uthreads v).utCtx) (hw : (s'.uthreads v).utState = .wait) :
    (s.uthreads v).utState = .wait := by
  cases h with
  | @thread _ t i cs new s₁ hon hcode he =>
    rw [setCtx_utState] at hw
    cases effect_state he v with
    | same h => rw [← h]; exact hw
    | saved _ _ _ h' | woken _ _ h' | started _ _ _ h' | allocated _ _ _ _ h' | exited _ _ h'
    | destroyed _ h' => rw [h'] at hw; cases hw
    | blocked hi hv =>
      subst hv
      have hsuf := hj v u k hm
      rw [hcode] at hsuf
      exfalso
      rcases joinRest_suffix hsuf with e | e | e | e | e <;> obtain ⟨rfl, -⟩ := List.cons.inj e <;>
        rcases hi with ⟨m, h⟩ | ⟨c, h⟩ | ⟨w, k', h⟩ <;> cases h
  | call t c hon hcode => simpa using hw
  | preempt t hon => simpa using hw
  | lwp hb =>
    rcases hb.state v with ⟨e, -⟩ | ⟨-, e, -⟩
    · rw [← e]; exact hw
    · rw [e] at hw; cases hw

/-- **A joiner is not forgotten.** -/
theorem joinWaits_step (hc : Core s) (hj : JoinCodes s) (hw : JoinWaits s) (h : Turn s l a s') :
    JoinWaits s' := by
  intro v u k hm hst
  rcases joinClaim_turn hc h hm with hm | ⟨-, hq | ⟨-, hn⟩⟩
  · rcases hw v u k hm (joiner_waits hj h hm hst) with hq | hwk
    · exact (waiter_turn hc h hq).imp_right And.right
    · exact .inr ((wakes_turn hc h hwk).resolve_right fun hn => hn hst)
  · exact .inl hq
  · exact absurd hst hn

/-- A zombie that is off its stack has nothing left to do. -/
theorem Core.gone (hc : Core s) (hz : (s.uthreads u).utState = .zombie)
    (hoff : ∀ l, ¬ OnStack s l u) : Gone u (s.uthreads u).utCtx := by
  cases hc.places.place u with
  | free _ st | created _ st => rcases st with e | e <;> rw [e] at hz <;> cases hz
  | queued _ st | leaving _ _ _ _ _ st | waiting _ _ st | woken _ st => rw [st] at hz; cases hz
  | active l cur mode st =>
    rcases mode with hm | ⟨hm, hr⟩
    · exact absurd ⟨hm, cur⟩ (hoff l)
    · -- who is dispatched is not dead
      rw [hz] at st
      simp [expect, hr.1, hr.2] at st
  | dead _ _ code | razed _ _ code => exact code

/-- **No joiner waits for a thread that has ended and has left its stack.** -/
theorem joiner_awake (hc : Core s) (hw : JoinWaits s) (hz : (s.uthreads u).utState = .zombie)
    (hoff : ∀ l, ¬ OnStack s l u) (hm : joinClaim u k ∈ (s.uthreads v).utCtx) :
    (s.uthreads v).utState ≠ .wait := by
  intro hst
  rcases hw v u k hm hst with hq | hwk
  · rw [hc.slots.noWaiter u (.inr (.inl hz))] at hq
    cases hq
  · rw [(hc.gone hz hoff).wakes_eq] at hwk
    cases hwk

/-- A joiner that looks is not on `ut_waiter`. -/
theorem joiner_off (hc : Core s) (hon : OnStack s l v)
    (hcode : (s.uthreads v).utCtx = joinClaim u k :: cs) :
    v ∉ (s.queues (.utWaiter u)).tqWaiters := by
  intro hq
  have hlk := (hc.links.link v (.utWaiter u)).2 hq
  have hwf := hc.codes.wf v
  rw [hcode] at hwf
  have hcs : cs = [] := hwf.1
  rw [(hc.active hon).2.1 (by rw [hcode, hcs]; simp), hcode] at hlk
  simp [linkOf] at hlk

theorem joiner_reachable {ok : State (N + 2) (L + 1) → Fin (L + 1) × Act → Prop}
    {s : State (N + 2) (L + 1)} (h : Reachable ok (boot N L) s) : JoinCodes s ∧ JoinWaits s := by
  have hno : ∀ v u k, joinClaim u k ∉ ((boot N L).uthreads v).utCtx := by
    intro v u k hm
    rcases boot_code (L := L) v with e | e | e <;> rw [e] at hm <;>
      simp [threadStartCode, reaper, uthreadMtxLock] at hm
  refine h.invariant_of (P := fun s => JoinCodes s ∧ JoinWaits s)
    (fun _ hr => core_reachable boot_core hr)
    ⟨fun v u k hm => absurd hm (hno v u k), fun v u k hm => absurd hm (hno v u k)⟩ ?_
  rintro s s' ⟨l, a⟩ hc ⟨hj, hw⟩ - hn
  have ht := move_turn hc (step_move hc.codes.wf hn)
  exact ⟨joinCodes_step hc hj ht, joinWaits_step hc hj hw ht⟩

end Uthreads
