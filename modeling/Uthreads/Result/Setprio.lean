import Uthreads.Result.Prio
import Uthreads.Result.Queues
import Uthreads.Sched.Ops

/-!
# Changing a priority

`uthread_setprio` moves one thread and may yield.

* `setprioBody_changed`: what it does to a table and run queues that agree.
* `requeue_inMemory`: `uthread_runq_requeue` on the pointers of the rings.
* `overtaken_step`: after a yield to a runnable thread of higher priority the caller stays behind it.
* `setprio_moves_one`: the whole call.
-/

namespace Uthreads

variable {N L : ℕ} {l : Fin L} {t u v cur : Fin N} {s s' s₁ : State N L} {i : Instr N}
  {cs new : Code N} {a : Act} {prio : ℤ}

open Instr

/-! ## The move -/

/-- From `s` to `s'` thread `u` gets the priority `prio`, and nothing else changes but its place on
the run queues. -/
structure OnlyMoved (s s' : State N L) (u : Fin N) (prio : ℤ) : Prop where
  target : s'.uthreads u =
    { s.uthreads u with utPrio := prio, utLink := (s'.uthreads u).utLink }
  others : ∀ v, v ≠ u → s'.uthreads v = s.uthreads v
  /-- In particular `runq_size` is unchanged. -/
  rest : s' = { s with uthreads := s'.uthreads, queues := s'.queues }
  /-- A running or waiting thread stays where it is. -/
  stays : (s.uthreads u).utState ≠ .runnable →
    (s'.uthreads u).utLink = (s.uthreads u).utLink ∧ s'.queues = s.queues
  /-- A runnable one leaves its level and is the last of the new one; no other thread moves. -/
  moves : (s.uthreads u).utState = .runnable → ∃ old lvl : Fin (uthMaxprio + 1),
    (s.uthreads u).utPrio = ((old : ℕ) : ℤ) ∧ prio = ((lvl : ℕ) : ℤ) ∧
    (s.uthreads u).utLink = some (.runq old) ∧ (s'.uthreads u).utLink = some (.runq lvl) ∧
    (s'.queues (.runq old)).tqWaiters = (s.queues (.runq old)).tqWaiters.erase u ∧
    (s'.queues (.runq lvl)).tqWaiters = (s.queues (.runq lvl)).tqWaiters ++ [u] ∧
    ∀ q, q ≠ .runq old → q ≠ .runq lvl → s'.queues q = s.queues q

/-- A priority in the range is a level of `runq_table`. -/
theorem InRange.level (h : InRange prio) : ∃ p : Fin (uthMaxprio + 1), prio = ((p : ℕ) : ℤ) := by
  obtain ⟨p, hp⟩ := Option.ne_none_iff_exists'.1 (runqIndex_ne_none h)
  exact ⟨p, runqIndex_eq hp⟩

/-- `uthread_runq_requeue` of a runnable thread succeeds. -/
theorem runqRequeue_succeeds (hr : RunqInv s) (hl : LinkInv s)
    (hst : (s.uthreads u).utState = .runnable) (hp : InRange prio) :
    ∃ s', uthreadRunqRequeue u (s.uthreads u).utPrio
      (s.modUthread u fun x => { x with utPrio := prio }) = .ok s' := by
  obtain ⟨old, hold, hmem⟩ := hr.mem_of_runnable hst
  obtain ⟨lvl, rfl⟩ := hp.level
  have hm : u ∈ (s.queues (.runq old)).tqWaiters := (hmem old).2 rfl
  have hlink : (s.uthreads u).utLink = some (.runq old) := (hl.link u _).2 hm
  unfold uthreadRunqRequeue
  rw [hold, runqIndex_cast, State.modUthread_uthreads, if_pos rfl, runqIndex_cast]
  simp [utqueueRemove, utqueueEnqueue, hlink, hm, bind, Except.bind]

/-- An inactive target. -/
theorem setprioBody_inactive (h : ¬ Alive s u) :
    setprioBody cur u prio s = .ok (s, .inactive) := by
  unfold setprioBody
  rw [if_pos]
  unfold Alive at h
  tauto

theorem setprioBody_unchanged (h : Alive s u) (hp : (s.uthreads u).utPrio = prio) :
    setprioBody cur u prio s = .ok (s, .unchanged) := by
  unfold setprioBody
  rw [if_neg, if_pos hp]
  obtain ⟨h₁, h₂, h₃⟩ := h
  simp [h₁, h₂, h₃]

/-- What `uthread_runq_requeue` does to a runnable thread whose priority has been changed. -/
theorem requeue_onlyMoved (hl : LinkInv s)
    (hst : (s.uthreads u).utState = .runnable) (hp : (s.uthreads u).utPrio ≠ prio)
    (h : uthreadRunqRequeue u (s.uthreads u).utPrio
      (s.modUthread u fun x => { x with utPrio := prio }) = .ok s') : OnlyMoved s s' u prio := by
  obtain ⟨old, lvl, hold, hlvl, hm, rfl⟩ := runqRequeue_ok h
  simp only [State.modUthread_uthreads, if_true, State.modUthread_queues] at hlvl hm
  have hne : lvl ≠ old := by
    rintro rfl
    exact hp (hold.trans hlvl.symm)
  refine ⟨by simp, fun v hv => by simp [hv], ?_, fun h => absurd hst h, fun _ => ?_⟩
  · rfl
  · refine ⟨old, lvl, hold, hlvl, (hl.link u _).2 hm, by simp, ?_, ?_, fun q hq hq' => ?_⟩
    · simp [hne.symm]
    · simp [hne]
    · simp [hq, hq']

/-- An active target with another priority: the call succeeds, and the caller is told to yield
exactly when the target is runnable and above it. -/
theorem setprioBody_changed (cur : Fin N) (hr : RunqInv s) (hl : LinkInv s) (h : Alive s u)
    (hp : (s.uthreads u).utPrio ≠ prio) (hin : InRange prio) :
    ∃ s', OnlyMoved s s' u prio ∧ setprioBody cur u prio s = .ok (s', .changed
      (prio > (s'.uthreads cur).utPrio ∧ (s.uthreads u).utState = .runnable)) := by
  obtain ⟨h₁, h₂, h₃⟩ := h
  by_cases hst : (s.uthreads u).utState = .runnable
  · obtain ⟨s', hs'⟩ := runqRequeue_succeeds hr hl hst hin
    have hmoved := requeue_onlyMoved hl hst hp hs'
    refine ⟨s', hmoved, ?_⟩
    have hst' : (s'.uthreads u).utState = .runnable := by rw [hmoved.target]; exact hst
    unfold setprioBody
    rw [if_neg (by simp [h₁, h₂, h₃]), if_neg hp]
    simp [hst, hs', bind, Except.bind, pure, Except.pure, hst']
  · refine ⟨s.modUthread u fun x => { x with utPrio := prio }, ?_, ?_⟩
    · exact ⟨by simp, fun v hv => by simp [hv], rfl, fun _ => ⟨by simp, rfl⟩, fun h => absurd h hst⟩
    · unfold setprioBody
      rw [if_neg (by simp [h₁, h₂, h₃]), if_neg hp]
      simp [hst, bind, Except.bind, pure, Except.pure]

/-! ## Behind the target -/

/-- The code is on its way into the switch of `uthread_yield`. -/
def toYield : Code N → Bool
  | swtch none true none :: _ => true
  | lock _ :: cs | unlock _ :: cs | nopreemptOn :: cs | nopreemptOff :: cs | yieldAssert :: cs =>
    toYield cs
  | _ => false

/-- The thread that a step dispatches. -/
def dispatched (s : State N L) (b : Fin L × Act) : Option (Fin N) :=
  if (s.lwps b.1).mode = .searching then (dispatchBody s).map Prod.fst else none

/-- The step is that of a `uthread_setprio` under `runq_mtx`. -/
def setsPrio (s : State N L) (b : Fin L × Act) : Prop :=
  ∃ t u prio cs, OnStack s b.1 t ∧ (s.uthreads t).utCtx = setprioTest u prio :: cs

/-- The runnable thread `u` is above `cur`, which is about to yield or has done so. -/
structure Overtaken (s : State N L) (cur u : Fin N) : Prop where
  target : (s.uthreads u).utState = .runnable
  prio : (s.uthreads cur).utPrio < (s.uthreads u).utPrio
  caller : (s.uthreads cur).utState = .runnable ∨
    (s.uthreads cur).utState = .onCpu ∧ toYield (s.uthreads cur).utCtx = true

/-- The loop of `lwp_switch` does not get down to `cur`. -/
theorem Overtaken.behind (h : Overtaken s cur u) (hr : RunqInv s) (b : Fin L × Act) :
    dispatched s b ≠ some cur := by
  intro hd
  unfold dispatched at hd
  split_ifs at hd
  obtain ⟨⟨t, s₁⟩, hd', rfl⟩ := Option.map_eq_some_iff.1 hd
  obtain ⟨p, x, hx, htop, -⟩ := dispatchBody_some hd'
  obtain ⟨-, hp⟩ := (hr.mem t p).1 (by rw [hx]; exact List.mem_cons_self)
  obtain ⟨r, hr', hlev⟩ := hr.mem_of_runnable h.target
  have hlt : p < r := by
    have := h.prio
    simp only [hp, hr'] at this
    exact_mod_cast this
  have hmem := (hlev r).2 rfl
  rw [htop r hlt] at hmem
  cases hmem

/-- A thread with a stack stands by while another one executes. -/
theorem bystander (hc : Core s) (hcode : (s.uthreads t).utCtx = i :: cs)
    (he : Effect l t s i s₁ new) (hv : v ≠ t)
    (hst : (s.uthreads v).utState = .runnable ∨ (s.uthreads v).utState = .onCpu)
    (hset : ∀ prio, i ≠ setprioTest v prio) :
    (s₁.uthreads v).utState = (s.uthreads v).utState ∧
      (s₁.uthreads v).utCtx = (s.uthreads v).utCtx ∧
      (s₁.uthreads v).utPrio = (s.uthreads v).utPrio := by
  have hns : ¬ Unstarted s v := by
    rintro (e | e) <;> rcases hst with h | h <;> rw [e] at h <;> cases h
  have hcreate : ∀ w prio, i ≠ createInit w v prio := by
    rintro w prio rfl
    exact hns (hc.creating hcode he).2.1
  have hstate : (s₁.uthreads v).utState = (s.uthreads v).utState := by
    cases effect_state he v with
    | same h => exact h
    | saved _ h | blocked _ h => exact absurd h hv
    | woken _ h | started _ _ h | allocated _ _ _ h =>
      rw [h] at hst
      rcases hst with h | h <;> cases h
    | destroyed hi =>
      subst hi
      have hz := (hc.slots.destroy t .state v (hcode ▸ List.mem_cons_self)).st
      rcases hst with h | h <;> rw [hz] at h <;> cases h
    | exited status hi =>
      have hwf := hc.codes.wf t
      rw [hcode, hi] at hwf
      exact absurd hwf.1.1 hv
  refine ⟨hstate, ?_, ?_⟩
  · rcases (effect_code he v).1 with h | ⟨⟨prio, hi⟩, -⟩
    · exact h
    · exact absurd hi (hcreate _ prio)
  · cases effect_prio he v with
    | same h => exact h
    | created prio hi => exact absurd hi (hcreate _ prio)
    | set hi =>
      rcases hi with hi | hi
      · exact absurd hi (hset _)
      · -- a thread that is started was in transition
        subst hi
        rw [effect_start he] at hst
        rcases hst with h | h <;> cases h

/-- A running thread that is about to yield gets on with it, or is on the run queue. -/
theorem toYield_step (hst : (s.uthreads t).utState = .onCpu) (hy : toYield (i :: cs) = true)
    (he : Effect l t s i s₁ new) : (s₁.uthreads t).utState = .runnable ∨
      (s₁.uthreads t).utState = .onCpu ∧ toYield (new ++ cs) = true := by
  have hsame : i.straight = true ∨ i = yieldAssert := by
    unfold toYield at hy
    split at hy <;> simp_all
  have hnew : new = [] := by
    rcases hsame with h | rfl
    · exact effect_straight he h
    · cases he with
      | plain hp => cases hp; rfl
      | take _ _ _ h => rcases h with ⟨h, -⟩ | ⟨h, -⟩ <;> cases h
      | signal _ _ _ _ h => rcases h with ⟨h, -⟩ | ⟨h, -⟩ <;> cases h
  subst hnew
  by_cases hsw : i = swtch none true none
  · subst hsw
    left
    cases (effect_switch he).2 with
    | yield hz hs₁ => exact (runqEnqueue_thread hs₁ t).2.1.trans (by simp)
    | gone _ h =>
      rw [hst] at h
      rcases h with h | h <;> cases h
  · right
    have hcs : toYield cs = true := by
      unfold toYield at hy
      split at hy <;> simp_all
    refine ⟨?_, hcs⟩
    cases effect_state he t with
    | same h => rw [h, hst]
    | saved hi => exact absurd hi hsw
    | woken hi | started _ hi | allocated _ _ hi | exited _ hi | destroyed hi =>
      subst hi
      cases hy
    | blocked hi =>
      rcases hi with ⟨_, rfl⟩ | ⟨_, rfl⟩ | ⟨_, _, rfl⟩ <;> cases hy

theorem OnStack.not_runnable (hc : Core s) (hon : OnStack s l t) :
    (s.uthreads t).utState ≠ .runnable := by
  rw [(hc.active hon).1]
  unfold expect
  split_ifs <;> decide

/-- The invariant reads only the two threads. -/
theorem Overtaken.congr (h : Overtaken s cur u) (hu : s'.uthreads u = s.uthreads u)
    (hcur : s'.uthreads cur = s.uthreads cur) : Overtaken s' cur u := by
  constructor
  · rw [hu]; exact h.target
  · rw [hu, hcur]; exact h.prio
  · rw [hcur]; exact h.caller

/-- **Behind stays behind**, until a priority is set or the thread in front is dispatched. -/
theorem overtaken_step (hc : Core s) (ho : Overtaken s cur u) (h : Move s l a s')
    (hset : ¬ setsPrio s (l, a)) (hd : dispatched s (l, a) ≠ some u) : Overtaken s' cur u := by
  cases h with
  | halted | unlock => exact ho.congr rfl rfl
  | acquire m _ _ _ hs | idle m _ hs | leave m _ _ hs =>
    exact ho.congr (by rw [hs.uthreads]; rfl) (by rw [hs.uthreads]; rfl)
  | @dispatch _ t s₂ hm hdis =>
    have hout : dispatched s (l, a) = some t := by
      unfold dispatched
      rw [if_pos hm, hdis]
      rfl
    have hu : u ≠ t := fun e => hd (e ▸ hout)
    have hcur : cur ≠ t := fun e => ho.behind hc.runq (l, a) (e ▸ hout)
    obtain ⟨p, x, -, -, rfl⟩ := dispatchBody_some hdis
    exact ho.congr (by simp [hu]) (by simp [hcur])
  | @thread _ t i cs new s₁ hon hcode he =>
    have hne : ∀ v prio, i ≠ setprioTest v prio := by
      rintro v prio rfl
      exact hset ⟨t, v, prio, cs, hon, hcode⟩
    have hstay : ∀ v, v ≠ t → (s.uthreads v).utState = .runnable ∨ (s.uthreads v).utState = .onCpu →
        ((s₁.setCtx t (new ++ cs)).uthreads v).utState = (s.uthreads v).utState ∧
          ((s₁.setCtx t (new ++ cs)).uthreads v).utCtx = (s.uthreads v).utCtx ∧
          ((s₁.setCtx t (new ++ cs)).uthreads v).utPrio = (s.uthreads v).utPrio := by
      intro v hv hst
      simpa [hv] using bystander hc hcode he hv hst (hne v)
    have hu : u ≠ t := fun e => hon.not_runnable hc (e ▸ ho.target)
    obtain ⟨hust, -, hupr⟩ := hstay u hu (.inl ho.target)
    by_cases hcur : cur = t
    · subst hcur
      rcases ho.caller with hst | ⟨hst, hy⟩
      · exact absurd hst (hon.not_runnable hc)
      · rw [hcode] at hy
        refine ⟨hust.trans ho.target, ?_, by simpa using toYield_step hst hy he⟩
        have hprio : (s₁.uthreads cur).utPrio = (s.uthreads cur).utPrio := by
          cases effect_prio he cur with
          | same h => exact h
          | created _ hi => subst hi; cases hy
          | set hi => rcases hi with rfl | rfl <;> cases hy
        rw [hupr]
        simpa [hprio] using ho.prio
    · obtain ⟨hcst, hccode, hcpr⟩ := hstay cur hcur (ho.caller.imp_right And.left)
      exact ⟨hust.trans ho.target, by rw [hcpr, hupr]; exact ho.prio,
        by rw [hcst, hccode]; exact ho.caller⟩
  | call t c hon hcode =>
    have hu : u ≠ t := fun e => hon.not_runnable hc (e ▸ ho.target)
    have hcur : cur ≠ t := by
      rintro rfl
      rcases ho.caller with hst | ⟨-, hy⟩
      · exact hon.not_runnable hc hst
      · rw [hcode] at hy; cases hy
    exact ho.congr (by simp [hu]) (by simp [hcur])
  | preempt t hon hm hst h0 =>
    have hu : u ≠ t := fun e => hon.not_runnable hc (e ▸ ho.target)
    refine ⟨by simpa [hu] using ho.target, ?_, ?_⟩
    · by_cases hcur : cur = t
      · subst hcur; simpa [hu] using ho.prio
      · simpa [hu, hcur] using ho.prio
    · by_cases hcur : cur = t
      · -- the interrupt yields first
        subst hcur
        exact .inr ⟨by simpa using hst, by simp [clockInterrupt, uthreadYield, uthreadSwitch, toYield]⟩
      · simpa [hcur] using ho.caller

/-! ## The call -/

/-- How `uthread_setprio` goes on behind its critical section. -/
def setprioTail (yields : Bool) (e : Errno) : Code N :=
  [unlock .runqMtx, nopreemptOff] ++ (if yields then uthreadYield else []) ++ [ret (.setprio e)]

/-- What a call by `cur` does: the tests of the arguments, and the critical section. -/
structure SetprioCall (s : State N L) (l : Fin L) (cur : Fin N) (id prio : ℤ) : Prop where
  badPrio : ¬ InRange prio → uthreadSetprio (N := N) id prio = [ret (.setprio .einval)]
  badId : InRange prio → slotOf (N := N) id = none →
    uthreadSetprio (N := N) id prio = [ret (.setprio .esrch)]
  code : InRange prio → ∀ u : Fin N, slotOf id = some u →
    uthreadSetprio id prio = [nopreemptOn, lock .runqMtx, setprioTest u prio]
  inactive : ∀ u, slotOf id = some u → ¬ Alive s u → ∀ ok,
    exec l cur ok (setprioTest u prio) s = .ok (s, setprioTail false .einval)
  unchanged : ∀ u, slotOf id = some u → Alive s u → (s.uthreads u).utPrio = prio → ∀ ok,
    exec l cur ok (setprioTest u prio) s = .ok (s, setprioTail false .ok)
  changed : InRange prio → ∀ u, slotOf id = some u → Alive s u → (s.uthreads u).utPrio ≠ prio →
    ∃ s', OnlyMoved s s' u prio ∧ RunqInv s' ∧ LinkInv s' ∧
      (∀ ok, exec l cur ok (setprioTest u prio) s = .ok (s', setprioTail
        ((s'.uthreads cur).utPrio < prio ∧ (s.uthreads u).utState = .runnable) .ok)) ∧
      -- on the rings, wherever the thread stands in its own
      ∀ m, InMemory m s → (s.uthreads u).utState = .runnable → ∃ old lvl : Fin (uthMaxprio + 1),
        (s.uthreads u).utPrio = ((old : ℕ) : ℤ) ∧ prio = ((lvl : ℕ) : ℤ) ∧
        ∃ m', m.uthreadRunqRequeue (.runq old) (.runq lvl) u = .ok m' ∧ InMemory m' s'

theorem execSetprioTest_changed (cur : Fin N) (hr : RunqInv s) (hl : LinkInv s) (h : Alive s u)
    (hp : (s.uthreads u).utPrio ≠ prio) (hin : InRange prio) :
    ∃ s', OnlyMoved s s' u prio ∧ setprioBody cur u prio s = .ok (s', .changed
        (prio > (s'.uthreads cur).utPrio ∧ (s.uthreads u).utState = .runnable)) ∧
      execSetprioTest cur u prio s = .ok (s', setprioTail
        ((s'.uthreads cur).utPrio < prio ∧ (s.uthreads u).utState = .runnable) .ok) := by
  obtain ⟨s', hmoved, hbody⟩ := setprioBody_changed cur hr hl h hp hin
  refine ⟨s', hmoved, hbody, ?_⟩
  simp only [execSetprioTest, hbody]
  by_cases hy : (s'.uthreads cur).utPrio < prio ∧ (s.uthreads u).utState = .runnable <;>
    simp [hy, bind, Except.bind, pure, Except.pure, setprioTail]

theorem setprio_call (hr : RunqInv s) (hl : LinkInv s) (l : Fin L) (cur : Fin N) (id prio : ℤ) :
    SetprioCall s l cur id prio where
  badPrio hp := by
    unfold uthreadSetprio
    rw [if_pos]
    by_contra hne
    rw [not_or, not_lt, not_lt] at hne
    exact hp ⟨hne.2, hne.1⟩
  badId hp hid := by
    unfold uthreadSetprio
    rw [if_neg (by rw [not_or, not_lt, not_lt]; exact ⟨hp.2, hp.1⟩), hid]
  code hp u hid := by
    unfold uthreadSetprio
    rw [if_neg (by rw [not_or, not_lt, not_lt]; exact ⟨hp.2, hp.1⟩), hid]
  inactive u _ hd ok := by
    simp only [exec, execSetprioTest, setprioBody_inactive hd]
    rfl
  unchanged u _ ha hp ok := by
    simp only [exec, execSetprioTest, setprioBody_unchanged ha hp]
    rfl
  changed hin u _ ha hp := by
    obtain ⟨s', hmoved, hbody, hex⟩ := execSetprioTest_changed cur hr hl ha hp hin
    obtain ⟨hr', hl'⟩ := hr.setprio hl hbody
    refine ⟨s', hmoved, hr', hl', fun ok => hex, fun m hm hst => ?_⟩
    rcases setprioBody_ok hbody with ⟨-, hno | hno⟩ | ⟨-, hno, -⟩ | ⟨-, -, hreq⟩
    · rw [hst] at hno; simp at hno
    · exact absurd hno hp
    · rw [hst] at hno; simp at hno
    · have hl₀ : LinkInv (s.modUthread u fun x => { x with utPrio := prio }) := hl.setPrio prio
      simpa using requeue_inMemory (show InMemory m (s.modUthread u _) from hm) hl₀ hreq

/-- A call that has told its caller to yield. -/
theorem overtaken_start (hc : Core s) (hon : OnStack s l cur)
    (hcode : (s.uthreads cur).utCtx = setprioTest u prio :: cs)
    (hst : (s.uthreads u).utState = .runnable) (hp : (s.uthreads u).utPrio ≠ prio)
    (hlt : (s.uthreads cur).utPrio < prio) (hn : next s (l, .exec) = some s₁)
    (hh : s₁.halt = none) : Overtaken s₁ cur u := by
  have hne : cur ≠ u := by
    rintro rfl
    exact hon.not_runnable hc hst
  have halive : Alive s u := by
    unfold Alive
    rw [hst]
    decide
  have hn' : next s (l, .mallocs true) = some s₁ := hn
  obtain ⟨i, cs', hcode', ⟨e, rfl⟩ | ⟨s', new, hex, rfl⟩⟩ := alone_step hon hn'
  · cases hh
  rw [hcode] at hcode'
  obtain ⟨rfl, rfl⟩ := List.cons.inj hcode'
  obtain ⟨⟨s₂, r⟩, hbody, -⟩ := except_bind_ok.1 hex
  -- the requeue has found a level for the new priority
  have hin : InRange prio := by
    rcases setprioBody_ok hbody with ⟨-, hno | hno⟩ | ⟨-, hno, -⟩ | ⟨-, -, hreq⟩
    · rw [hst] at hno; simp at hno
    · exact absurd hno hp
    · rw [hst] at hno; simp at hno
    · obtain ⟨p, p', -, hp', -⟩ := runqRequeue_ok hreq
      rw [State.modUthread_uthreads, if_pos rfl] at hp'
      have hbound : (p' : ℕ) ≤ uthMaxprio := Nat.le_of_lt_succ p'.2
      exact ⟨by simp only at hp'; omega, by simp only at hp'; omega⟩
  obtain ⟨s₃, hmoved, -, hex'⟩ := execSetprioTest_changed cur hc.runq hc.links halive hp hin
  have hcprio : (s₃.uthreads cur).utPrio = (s.uthreads cur).utPrio := by rw [hmoved.others cur hne]
  rw [hcprio] at hex'
  obtain ⟨rfl, rfl⟩ := Prod.mk.inj (Except.ok.inj (hex.symm.trans hex'))
  have hwf := hc.codes.wf cur
  rw [hcode] at hwf
  obtain rfl : cs = [] := hwf.1
  have hcst : (s.uthreads cur).utState = .onCpu := by
    rw [(hc.active hon).1, hcode]
    simp [expect, asleep]
  have htarget : (s'.uthreads u).utState = .runnable ∧ (s'.uthreads u).utPrio = prio := by
    rw [hmoved.target]
    exact ⟨hst, rfl⟩
  refine ⟨by simpa [hne.symm] using htarget.1, ?_, .inr ⟨?_, ?_⟩⟩
  · simpa [hne.symm, htarget.2, hcprio] using hlt
  · simpa [hmoved.others cur hne] using hcst
  · simp [hlt, hst, setprioTail, uthreadYield, uthreadSwitch, toYield]

/-- The steps between which nobody sets a priority and `u` is not dispatched. -/
def waitsFor (u : Fin N) (s : State N L) (b : Fin L × Act) : Prop :=
  ¬ setsPrio s b ∧ dispatched s b ≠ some u

/-- **`uthread_setprio` moves exactly one thread**, in every state of the run queues that satisfies the
representation invariant; and a caller that yields to the target is not dispatched again before it. -/
theorem setprio_moves_one :
    (∀ (N L : ℕ) (s : State N L) (l : Fin L) (cur : Fin N) (id prio : ℤ), RunqInv s → LinkInv s →
      SetprioCall s l cur id prio) ∧
    ∀ (N L : ℕ) (s s₁ s₂ s₃ : State (N + 2) (L + 1)) (l : Fin (L + 1)) (cur u : Fin (N + 2))
      (prio : ℤ) (cs : Code (N + 2)) (b : Fin (L + 1) × Act),
      Reachable Runs.always (boot N L) s → OnStack s l cur →
      (s.uthreads cur).utCtx = setprioTest u prio :: cs → (s.uthreads u).utPrio ≠ prio →
      -- the caller yields
      (s.uthreads u).utState = .runnable → (s.uthreads cur).utPrio < prio →
      next s (l, .exec) = some s₁ → Reachable (waitsFor u) s₁ s₂ → next s₂ b = some s₃ →
      dispatched s₂ b ≠ some cur := by
  refine ⟨fun N L s l cur id prio hr hl => setprio_call hr hl l cur id prio, ?_⟩
  intro N L s s₁ s₂ s₃ l cur u prio cs b hreach hon hcode hp hst hlt hn h hb
  have hc := core_reachable boot_core hreach
  have hinv : Core s₂ ∧ (s₂.halt = none → Overtaken s₂ cur u) := by
    refine h.invariant (P := fun x => Core x ∧ (x.halt = none → Overtaken x cur u))
      ⟨core_next hc hn, overtaken_start hc hon hcode hst hp hlt hn⟩ ?_
    rintro x y ⟨k, a⟩ ⟨hx, ho⟩ ⟨hset, hd⟩ hxy
    exact ⟨core_next hx hxy, fun _ =>
      overtaken_step hx (ho (next_live hxy)) (step_move hx.codes.wf hxy) hset hd⟩
  exact (hinv.2 (next_live hb)).behind hinv.1.runq b

set_option maxRecDepth 4000 in
/-- The first thread lowers its own priority and raises that of a thread that waits to run. -/
theorem setprio_moves_one_yield : ∃ s s₁ : State 3 1, RunqInv s ∧ next s (0, .exec) = some s₁ ∧
    (∃ s', OnlyMoved s s' 2 5) ∧
    ∀ s₂ s₃ b, Reachable (waitsFor 2) s₁ s₂ → next s₂ b = some s₃ → dispatched s₂ b ≠ some 0 := by
  obtain ⟨s, hs, hon, hcode, hst, hp, hlt, hsome⟩ : ∃ s : State 3 1,
      Reachable Runs.always (boot 1 0) s ∧ OnStack s 0 0 ∧
      (s.uthreads 0).utCtx = [setprioTest 2 5] ∧ (s.uthreads 2).utState = .runnable ∧
      (s.uthreads 2).utPrio = 3 ∧ (s.uthreads 0).utPrio = 2 ∧ (next s (0, .exec)).isSome = true :=
    Runs.exists_reach (turns 0 4 ++ [(0, .call (.create 3))] ++ turns 0 23 ++
      [(0, .call (.setprio 0 2))] ++ turns 0 6 ++ [(0, .call (.setprio 2 5))] ++ turns 0 2)
      (by decide)
  obtain ⟨s₁, hn⟩ := Option.isSome_iff_exists.1 hsome
  have hc := core_reachable boot_core hs
  obtain ⟨s', hmoved, -⟩ := (setprio_moves_one.1 3 1 s 0 0 2 5 hc.runq hc.links).changed (by decide) 2
    (by decide) (by unfold Alive; rw [hst]; decide) (by rw [hp]; decide)
  exact ⟨s, s₁, hc.runq, hn, ⟨s', hmoved⟩, fun s₂ s₃ b h hb =>
    setprio_moves_one.2 1 0 s s₁ s₂ s₃ 0 0 2 5 [] b hs hon hcode (by rw [hp]; decide) hst
      (by rw [hlt]; decide) hn h hb⟩

end Uthreads
