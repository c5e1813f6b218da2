import Uthreads.Proof.Debt
import Uthreads.Result.Cond

/-!
# Signals and broadcasts

A signal or a broadcast of the condition variable `c` by `u` begins with the test of the queue, with
`pmut` held, and is over when `u` is back at the code `cs` behind it. `serving_step` follows a run in
between: the queue that was there loses its threads from the front, and `u` makes them runnable.
-/

namespace Uthreads

variable {N L : ℕ} {l : Fin L} {t u v w : Fin N} {s s' s₁ : State N L} {i : Instr N} {cs d new : Code N}
  {a : Act} {c : CondId} {acts : List (List (Fin N))} {Q : List (Fin N)}

open Instr Events

/-- The threads that the step from `s` to `s'` makes runnable. -/
def wakesNow (s s' : State N L) : List (Fin N) :=
  (List.finRange N).filter fun w => (s.uthreads w).utState = .wait ∧ (s'.uthreads w).utState = .runnable

/-- A step of `u`, as the threads that it makes runnable. -/
def workOf (u : Fin N) (s : State N L) (b : Fin L × Act) (s' : State N L) : List (List (Fin N)) :=
  if OnStack s b.1 u then [wakesNow s s'] else []

/-- What comes behind the wake-up of a waiter. -/
def again (c : CondId) : Instr N → Code N
  | broadcastTest _ => [broadcastTest c]
  | _ => []

/-- The queue of which a signal or a broadcast makes threads runnable. -/
def served (test : Instr N) (Q : List (Fin N)) : List (Fin N) :=
  match test with
  | broadcastTest _ => Q
  | _ => Q.take 1

/-- Where `u` is in the signal or the broadcast that found the queue `Q`, and what it has done. -/
structure Serving (c : CondId) (u : Fin N) (test : Instr N) (cs : Code N) (Q : List (Fin N))
    (s : State N L) (acts : List (List (Fin N))) (d : Code N) : Prop where
  code : (s.uthreads u).utCtx = d ++ cs
  place : d = [test] ∨ ∃ w, d <:+ uthreadWake w ++ again c test
  queue : Q = acts.flatten ++ wakes d ++ (s.queues (.ucWaiters c)).tqWaiters
  bound : acts.length + d.length + 7 * (s.queues (.ucWaiters c)).tqWaiters.length ≤ 7 * Q.length + 1
  /-- A signal tests once. -/
  signal : test = signalTest c → (d = [test] → acts.flatten = []) ∧
    (d ≠ [test] → acts.flatten ++ wakes d = Q.take 1)
  /-- A broadcast ends when the queue is empty. -/
  broadcast : test = broadcastTest c → d = [] → (s.queues (.ucWaiters c)).tqWaiters = []

/-! ## The threads that a step makes runnable -/

theorem mem_wakesNow : w ∈ wakesNow s s' ↔
    (s.uthreads w).utState = .wait ∧ (s'.uthreads w).utState = .runnable := by
  simp [wakesNow]

theorem wakesNow_nil (he : Effect l t s i s₁ new) (hi : ∀ w, i ≠ wakeTest w)
    (hsw : i ≠ swtch none true none) : wakesNow s (s₁.setCtx t d) = [] := by
  refine List.eq_nil_iff_forall_not_mem.2 fun w hw => ?_
  obtain ⟨hst, hst'⟩ := mem_wakesNow.1 hw
  have hst₁ : (s₁.uthreads w).utState = .runnable := by simpa using hst'
  cases effect_state he w with
  | same h =>
    rw [h, hst] at hst₁
    cases hst₁
  | saved h => exact hsw h
  | woken h => exact hi w h
  | started _ _ h =>
    rw [hst] at h
    cases h
  | blocked _ _ h' | allocated _ _ _ _ h' | exited _ _ h' | destroyed _ h' =>
    rw [h'] at hst₁
    cases hst₁

theorem effect_wakeTest (he : Effect l t s (wakeTest w) s₁ new)
    (hst : (s.uthreads w).utState = .wait) : (s₁.uthreads w).utState = .runnable := by
  cases he with
  | plain hp =>
    cases hp
    exact absurd hst ‹_›
  | take _ _ _ hnew | signal _ _ _ _ hnew => rcases hnew with ⟨h, -⟩ | ⟨h, -⟩ <;> cases h
  | wake _ _ hs => exact (runqEnqueue_thread hs w).2.1.trans (by simp)

/-- A wake-up is not dropped, and it wakes nobody else. -/
theorem wakesNow_wake (hc : Core s) (hcode : (s.uthreads t).utCtx = wakeTest w :: cs)
    (he : Effect l t s (wakeTest w) s₁ new) : wakesNow s (s₁.setCtx t d) = [w] := by
  have hst : (s.uthreads w).utState = .wait := (hc.places.woken w ⟨t, by rw [hcode]; simp⟩).2.1
  have hiff : ∀ v, v ∈ wakesNow s (s₁.setCtx t d) ↔ v = w := by
    intro v
    rw [mem_wakesNow]
    constructor
    · rintro ⟨hv, hv'⟩
      have hv₁ : (s₁.uthreads v).utState = .runnable := by simpa using hv'
      cases effect_state he v with
      | same h =>
        rw [h, hv] at hv₁
        cases hv₁
      | woken h =>
        cases h
        rfl
      | started _ _ h =>
        rw [hv] at h
        cases h
      | saved h => cases h
      | blocked _ _ h' | allocated _ _ _ _ h' | exited _ _ h' | destroyed _ h' =>
        rw [h'] at hv₁
        cases hv₁
    · rintro rfl
      exact ⟨hst, by simpa using effect_wakeTest he hst⟩
  have hnd : (wakesNow s (s₁.setCtx t d)).Nodup := (List.nodup_finRange N).filter _
  exact List.perm_singleton.1 ((List.perm_ext_iff_of_nodup hnd (List.nodup_singleton w)).2 fun v => by
    rw [hiff, List.mem_singleton])

/-! ## The steps of the run -/

theorem mem_wakeCode {j : Instr N} (hj : j ∈ uthreadWake w) : j.straight = true ∧ j.queues = [] ∧
    j ≠ swtch none true none ∧ (∀ v, j = wakeTest v → v = w) ∧ (∀ k, PmtxId.cPmut k ∉ j.locks) ∧
      j ≠ panicDead := by
  simp only [uthreadWake, List.mem_cons, List.not_mem_nil, or_false] at hj
  rcases hj with rfl | rfl | rfl | rfl | rfl | rfl <;> simp

/-- The place, once more: at the test, or at an instruction of `uthread_wake`. -/
theorem Serving.front {test : Instr N} (h : Serving c u test cs Q s acts (i :: d))
    (htest : test = signalTest c ∨ test = broadcastTest c) (hne : i :: d ≠ [test]) :
    ∃ w, i ∈ uthreadWake w ∧ d <:+ uthreadWake w ++ again c test := by
  obtain ⟨w, hsuf⟩ := h.place.resolve_left hne
  refine ⟨w, ?_, (List.suffix_cons i d).trans hsuf⟩
  rcases List.mem_append.1 (hsuf.subset List.mem_cons_self) with hi | hi
  · exact hi
  · exfalso
    rcases htest with rfl | rfl
    · cases hi
    · obtain rfl : i = broadcastTest c := List.mem_singleton.1 hi
      obtain ⟨pre, hpre⟩ := hsuf
      simp only [again] at hpre
      rcases List.eq_nil_or_concat' d with rfl | ⟨d', x, rfl⟩
      · exact hne rfl
      · rw [← List.cons_append, ← List.append_assoc] at hpre
        have := (List.append_inj' hpre rfl).1
        have hmem : broadcastTest c ∈ (uthreadWake w : Code N) := by rw [← this]; simp
        simp [uthreadWake] at hmem

/-- `u` holds `pmut` all the time. -/
theorem Serving.held {test : Instr N} (h : Serving c u test cs Q s acts d)
    (htest : test = signalTest c ∨ test = broadcastTest c) (hcs : Held (.cPmut c) cs) :
    Held (.cPmut c) (s.uthreads u).utCtx := by
  have happ : ∀ {d : Code N}, (∀ j ∈ d, PmtxId.cPmut c ∉ j.locks ∧ j ≠ panicDead) →
      Held (.cPmut c) (d ++ cs) := by
    intro d hd
    induction d with
    | nil => exact hcs
    | cons i d ih =>
      exact .inr ⟨(hd i (by simp)).1, (hd i (by simp)).2,
        ih fun j hj => hd j (List.mem_cons_of_mem _ hj)⟩
  rw [h.code]
  have hfree : ∀ j ∈ (test :: again c test), PmtxId.cPmut c ∉ j.locks ∧ j ≠ panicDead := by
    rcases htest with rfl | rfl <;> simp [again]
  rcases h.place with rfl | ⟨w, hsuf⟩
  · exact happ fun j hj => hfree j (by simp_all)
  · refine happ fun j hj => ?_
    rcases List.mem_append.1 (hsuf.subset hj) with hj | hj
    · have := mem_wakeCode hj
      exact ⟨this.2.2.2.2.1 c, this.2.2.2.2.2⟩
    · exact hfree j (List.mem_cons_of_mem _ hj)

/-- The step of another thread, or of an LWP. -/
theorem Serving.other {test : Instr N} (h : Serving c u test cs Q s acts d)
    (hcode : (s'.uthreads u).utCtx = (s.uthreads u).utCtx)
    (hq : s'.queues (.ucWaiters c) = s.queues (.ucWaiters c)) : Serving c u test cs Q s' acts d :=
  ⟨hcode.trans h.code, h.place, by rw [hq]; exact h.queue, by rw [hq]; exact h.bound, h.signal,
    by rw [hq]; exact h.broadcast⟩

/-- The instruction of `u` itself. -/
theorem serving_own {test : Instr N} (hc : Core s) (h : Serving c u test cs Q s acts (i :: d))
    (htest : test = signalTest c ∨ test = broadcastTest c) (he : Effect l u s i s₁ new) :
    Serving c u test cs Q (s₁.setCtx u (new ++ (d ++ cs)))
      (acts ++ [wakesNow s (s₁.setCtx u (new ++ (d ++ cs)))]) (new ++ d) := by
  by_cases hne : i :: d = [test]
  · obtain ⟨rfl, rfl⟩ := List.cons.inj hne
    have hnow : wakesNow s (s₁.setCtx u (new ++ ([] ++ cs))) = [] := by
      refine wakesNow_nil he (fun w e => ?_) ?_ <;> rcases htest with rfl | rfl
      · cases e
      · cases e
      · simp
      · simp
    have hwakes : wakes [i] = ([] : List (Fin N)) := by rcases htest with rfl | rfl <;> rfl
    have hQ := h.queue
    have hb := h.bound
    rw [hwakes, List.append_nil] at hQ
    rw [hnow]
    rcases hw : (s.queues (.ucWaiters c)).tqWaiters with _ | ⟨w, x⟩
    · -- nobody waits
      obtain ⟨hs, rfl⟩ := effect_unsignalled he htest hw
      have hq₁ : (s₁.queues (.ucWaiters c)).tqWaiters = [] := by rw [hs.queues, hw]
      rw [hw] at hQ hb
      refine ⟨by simp, .inr ⟨u, by simp⟩, ?_, ?_, fun e => ⟨fun h' => (by cases h'), fun _ => ?_⟩,
        fun _ _ => hq₁⟩
      · rw [State.setCtx_queues, hq₁]
        simpa using hQ
      · rw [State.setCtx_queues, hq₁]
        simp at hb ⊢
        omega
      · rw [(h.signal e).1 rfl] at hQ
        rw [hQ]
        simp [(h.signal e).1 rfl]
    · obtain ⟨hq₁, hnew⟩ := effect_signalled he htest hw
      have hnew' : new = uthreadWake w ++ again c i := by
        rcases hnew with ⟨rfl, rfl⟩ | ⟨rfl, rfl⟩
        · simp [again]
        · rfl
      have hwk : wakes new = [w] := by
        rw [hnew']
        rcases htest with rfl | rfl <;> simp [uthreadWake, again]
      rw [hw] at hQ hb
      refine ⟨by simp, .inr ⟨w, by rw [List.append_nil, hnew']⟩, ?_, ?_, fun e => ⟨fun h' => ?_, fun _ => ?_⟩,
        fun _ h' => ?_⟩
      · rw [State.setCtx_queues, hq₁, List.append_nil, hwk]
        simpa using hQ
      · rw [State.setCtx_queues, hq₁]
        rcases htest with rfl | rfl <;> simp [hnew', uthreadWake, again] at hb ⊢ <;> omega
      · rw [hnew', e] at h'
        simp [uthreadWake] at h'
      · rw [(h.signal e).1 rfl] at hQ
        rw [List.append_nil, hwk, hQ]
        simp [(h.signal e).1 rfl]
      · rw [hnew'] at h'
        simp [uthreadWake] at h'
  · obtain ⟨w, hi, hsuf⟩ := h.front htest hne
    obtain ⟨hstr, hqs, hsw, hwake, -⟩ := mem_wakeCode hi
    obtain rfl := effect_straight he hstr
    have hq₁ : s₁.queues (.ucWaiters c) = s.queues (.ucWaiters c) :=
      effect_queues he (by simp) (by rw [hqs]; simp)
    -- what `u` has made runnable now is what it was about to wake
    have hnow : wakesNow s (s₁.setCtx u ([] ++ (d ++ cs))) = i.wakes := by
      by_cases hiw : ∃ v, i = wakeTest v
      · obtain ⟨v, rfl⟩ := hiw
        exact wakesNow_wake hc (by rw [h.code]; rfl) he
      · rw [wakesNow_nil he (fun v e => hiw ⟨v, e⟩) hsw]
        cases i <;> first | rfl | exact absurd ⟨_, rfl⟩ hiw
    have hfl : (acts ++ [i.wakes]).flatten ++ wakes d = acts.flatten ++ wakes (i :: d) := by
      simp
    have hnot : d = [test] → test ≠ signalTest c := by
      rintro rfl rfl
      have : signalTest c ∈ (uthreadWake w ++ again c (signalTest c) : Code N) := hsuf.subset (by simp)
      simp [uthreadWake, again] at this
    rw [hnow]
    refine ⟨by simp, .inr ⟨w, hsuf⟩, ?_, ?_, fun e => ⟨fun h' => absurd e (hnot h'), fun _ => ?_⟩,
      fun e h' => ?_⟩
    · rw [State.setCtx_queues, hq₁, List.nil_append, hfl]
      exact h.queue
    · have hb := h.bound
      rw [State.setCtx_queues, hq₁]
      simp at hb ⊢
      omega
    · rw [List.nil_append, hfl]
      exact (h.signal e).2 hne
    · -- a broadcast goes back to its test
      rw [List.nil_append] at h'
      subst h' e
      obtain ⟨w', pre, hpre⟩ := h.place.resolve_left hne
      exact absurd (List.append_inj' hpre rfl).2 hne

/-- The instructions that change the queue are executed with `pmut` held. -/
theorem cond_queue (hwf : Wf t (i :: cs)) (he : Effect l t s i s₁ new)
    (hp : ¬ Held (.cPmut c) (i :: cs)) : s₁.queues (.ucWaiters c) = s.queues (.ucWaiters c) := by
  refine effect_queues he (by simp) fun hq => hp ?_
  cases i with
  | swtch q sv r =>
    obtain rfl : q = some (.ucWaiters c) := by simpa using hq
    cases hwf.1 with
    | cond => simp
  | signalTest c' | broadcastTest c' =>
    obtain rfl : c = c' := by simpa using hq
    simp
  | createInit => cases (queues_createInit hq).2
  | destroy => cases (queues_destroy hq).2
  | _ => simp at hq

/-- **One step of the run.** -/
theorem serving_step {test : Instr N} (hc : Core s) (hcs : Held (.cPmut c) cs)
    (htest : test = signalTest c ∨ test = broadcastTest c) (h : Serving c u test cs Q s acts d)
    (hne : (s.uthreads u).utCtx ≠ cs) (hm : Move s l a s') (hh : s'.halt = none) :
    ∃ d', Serving c u test cs Q s' (acts ++ workOf u s (l, a) s') d' := by
  have hheld := h.held htest hcs
  have hgone : ¬ (Gone u (s.uthreads u).utCtx ∨ (s.uthreads u).utCtx = threadStartCode) := by
    rintro (hg | hg)
    · exact hg.not_held _ hheld
    · simp [hg, threadStartCode] at hheld
  -- a step of somebody else
  have hother : ¬ OnStack s l u → (s'.uthreads u).utCtx = (s.uthreads u).utCtx →
      s'.queues (.ucWaiters c) = s.queues (.ucWaiters c) →
      ∃ d', Serving c u test cs Q s' (acts ++ workOf u s (l, a) s') d' := by
    intro hon hcode hq
    refine ⟨d, ?_⟩
    rw [workOf, if_neg hon, List.append_nil]
    exact h.other hcode hq
  by_cases hon : OnStack s l u
  · cases hm with
    | halted e => cases hh
    | @thread _ t i rest new s₁ hon' hcode he =>
      obtain rfl : t = u := Option.some.inj (hon'.2.symm.trans hon.2)
      rw [workOf, if_pos hon]
      have hd := h.code.symm.trans hcode
      rcases d with _ | ⟨j, d⟩
      · exact absurd h.code hne
      · obtain ⟨rfl, rfl⟩ := List.cons.inj hd
        exact ⟨new ++ d, serving_own hc h htest he⟩
    | call t call hon' hcode =>
      obtain rfl : t = u := Option.some.inj (hon'.2.symm.trans hon.2)
      rw [hcode] at hheld
      exact absurd hheld id
    | preempt t hon' hmask hst h0 =>
      obtain rfl : t = u := Option.some.inj (hon'.2.symm.trans hon.2)
      exact absurd hheld (calm_held (hc.codes.wf t) (preemptible hc hon h0))
    | acquire m hmode | idle m hmode | leave m hmode =>
      rcases hmode with ⟨hmode, -⟩ | ⟨hmode, -⟩ <;> rw [hon.1] at hmode <;> cases hmode
    | unlock p hmode | dispatch t hmode =>
      rw [hon.1] at hmode
      cases hmode
  · cases move_turn hc hm with
    | @thread _ t i rest new s₁ hon' hcode he hh' =>
      have htu : u ≠ t := fun e => hon (e ▸ hon')
      refine hother hon ?_ ?_
      · rcases other_code rest he htu with e | ⟨-, hv, -⟩
        · exact e
        · exact absurd (hc.free hv.1).2.2.2 hgone
      · have hwf := hc.codes.wf t
        rw [hcode] at hwf
        show s₁.queues (.ucWaiters c) = s.queues (.ucWaiters c)
        refine cond_queue hwf he fun hp => htu ?_
        rw [← hcode] at hp
        exact Sum.inl.inj (hc.locks.one (.cPmut c) (.inl u) (.inl t) hheld hp)
    | call t call hon' hcode =>
      have htu : u ≠ t := fun e => hon (e ▸ hon')
      exact hother hon (by simp [htu]) rfl
    | preempt t hon' =>
      have htu : u ≠ t := fun e => hon (e ▸ hon')
      exact hother hon (by simp [htu]) rfl
    | lwp hb => exact hother hon (hb.fields u).1 (hb.queues _ (by simp))

/-- **A whole signal or broadcast.** The run from its test of the queue as long as `u` is in it. -/
theorem serve {test : Instr N} {s₀ : State N L} (hreach : ∀ s, Reachable Runs.always s₀ s → Core s)
    (hcode : (s₀.uthreads u).utCtx = test :: cs) (htest : test = signalTest c ∨ test = broadcastTest c)
    (hrun : Runs.Trace next (fun s _ => (s.uthreads u).utCtx ≠ cs) (workOf u) s₀ s acts)
    (hh : s.halt = none) :
    ∃ d, Serving c u test cs (s₀.queues (.ucWaiters c)).tqWaiters s acts d := by
  have hcs : Held (.cPmut c) cs := by
    have hwf := (hreach s₀ .start).codes.wf u
    rw [hcode] at hwf
    rcases htest with rfl | rfl <;> exact hwf.1.1
  refine hrun.invariant_of (P := fun s acts => s.halt = none → ∃ d, Serving c u test cs
    (s₀.queues (.ucWaiters c)).tqWaiters s acts d) (I := Core)
    (fun s hr => hreach s (hr.mono fun _ _ _ => trivial)) (fun _ => ⟨[test], ?_⟩) ?_ hh
  · have hwakes : wakes [test] = ([] : List (Fin N)) := by rcases htest with rfl | rfl <;> rfl
    refine ⟨hcode, .inl rfl, by simp [hwakes], by simp; omega, fun _ => ⟨fun _ => rfl, fun h => absurd rfl h⟩,
      fun _ h => ?_⟩
    cases h
  · intro s s' b acts hc hserve hne hn hh'
    have hm := step_move hc.codes.wf hn
    obtain ⟨d, hd⟩ := hserve (next_live hn)
    exact serving_step hc hcs htest hd hne hm hh'

/-- What a signal or a broadcast has done when it is over. -/
theorem Serving.over {test : Instr N} (h : Serving c u test cs Q s acts d)
    (htest : test = signalTest c ∨ test = broadcastTest c) (hcode : (s.uthreads u).utCtx = cs) :
    acts.flatten = served test Q ∧ Q = acts.flatten ++ (s.queues (.ucWaiters c)).tqWaiters := by
  have hd : d = [] := by
    have hlen := congrArg List.length (h.code.symm.trans hcode)
    rw [List.length_append] at hlen
    exact List.length_eq_zero_iff.1 (by omega)
  subst hd
  have hQ := h.queue
  simp only [wakes_nil, List.append_nil] at hQ
  refine ⟨?_, hQ⟩
  rcases htest with rfl | rfl
  · simpa [served] using (h.signal rfl).2 (by simp)
  · rw [h.broadcast rfl rfl, List.append_nil] at hQ
    exact hQ.symm

/-! ## The mutex after a wait -/

/-- The thread is going to take `m` again, or has it, and does not release it any more. -/
inductive Retakes (m : MtxId) (log : List (Event N)) (t : Fin N) : Code N → Prop
  | lock (pre rest : Code N) (h : unlockTest m ∉ rest) : Retakes m log t (pre ++ lockTest m :: rest)
  | back (pre rest : Code N) (h : unlockTest m ∉ rest) : Retakes m log t (pre ++ lockOwned m :: rest)
  | taken {d : Code N} (h : unlockTest m ∉ d) (hin : InSection m log t) : Retakes m log t d

/-- The library unlocks no mutex of the user that it has not been called for. -/
theorem effect_unlockTest {k : ℕ} (he : Effect l t s i s₁ new) : unlockTest (.user k) ∉ new := by
  intro hm
  cases effect_before he _ hm

theorem mem_logOf_released {m : MtxId} (h : Event.released m u ∈ logOf s t i) :
    u = t ∧ i = unlockTest m := by
  cases i with
  | swtch q sv r =>
    unfold logOf at h
    split at h <;> simp_all
  | lockTest m' | trylockTest m' =>
    simp only [logOf] at h
    split at h <;> simp_all
  | unlockTest m' =>
    simp only [logOf, List.mem_cons, Option.mem_toList, Option.map_eq_some_iff] at h
    rcases h with h | ⟨v, -, h⟩
    · cases h
      exact ⟨rfl, rfl⟩
    · cases h
  | signalTest c' | broadcastTest c' =>
    simp only [logOf, Option.mem_toList, Option.map_eq_some_iff] at h
    obtain ⟨v, -, h⟩ := h
    cases h
  | makeReapable v =>
    simp only [logOf] at h
    split at h <;> simp_all
  | allocScan start prio =>
    simp only [logOf, Option.mem_toList, Option.map_eq_some_iff] at h
    obtain ⟨v, -, h⟩ := h
    cases h
  | destroy d => cases d <;> simp_all [logOf]
  | _ => simp_all [logOf]

/-- **An instruction of the thread.** -/
theorem effect_retakes {k : ℕ} (h : Retakes (.user k) s.log t (i :: cs)) (he : Effect l t s i s₁ new)
    (hh : Hist t s i s₁) : Retakes (.user k) s₁.log t (new ++ cs) := by
  have hnew := effect_unlockTest (k := k) he
  generalize hd : i :: cs = d at h
  cases h with
  | lock pre rest hrest =>
    rcases pre with _ | ⟨j, pre⟩
    · obtain ⟨rfl, rfl⟩ := List.cons.inj hd
      by_cases hfree : (s.mtx (.user k)).mOwner = none
      · refine .taken (by simp [hnew, hrest]) ?_
        rw [hh.log, InSection]
        simp [logOf, hfree, since_concat]
      · cases he with
        | plain hp => cases hp
        | take _ ho _ hcode =>
          rcases hcode with ⟨e, -⟩ | ⟨e, -⟩ <;> cases e
          exact absurd ho hfree
        | signal _ _ _ _ hcode => rcases hcode with ⟨e, -⟩ | ⟨e, -⟩ <;> cases e
        | block =>
          rw [List.append_assoc]
          exact .back _ _ (by simpa using hrest)
    · obtain ⟨rfl, rfl⟩ := List.cons.inj hd
      have hpre := List.append_assoc new pre (lockTest (.user k) :: rest)
      exact hpre ▸ .lock (new ++ pre) rest hrest
  | back pre rest hrest =>
    rcases pre with _ | ⟨j, pre⟩
    · obtain ⟨rfl, rfl⟩ := List.cons.inj hd
      refine .taken (by simp [hnew, hrest]) ?_
      rw [hh.log, InSection]
      simp [logOf, since_concat]
    · obtain ⟨rfl, rfl⟩ := List.cons.inj hd
      have hpre := List.append_assoc new pre (lockOwned (.user k) :: rest)
      exact hpre ▸ .back (new ++ pre) rest hrest
  | taken hno hin =>
    subst hd
    refine .taken (fun hm => ?_) ?_
    · rcases List.mem_append.1 hm with hm | hm
      · exact hnew hm
      · exact hno (List.mem_cons_of_mem _ hm)
    · rw [hh.log]
      refine hin.append ?_
      rintro e he' rfl
      obtain ⟨-, rfl⟩ := mem_logOf_released he'
      simp at hno

theorem Retakes.front {m : MtxId} {log : List (Event N)} (h : Retakes m log t d)
    (hnew : unlockTest m ∉ new) : Retakes m log t (new ++ d) := by
  cases h with
  | lock pre rest h => exact List.append_assoc new pre (lockTest m :: rest) ▸ .lock (new ++ pre) rest h
  | back pre rest h => exact List.append_assoc new pre (lockOwned m :: rest) ▸ .back (new ++ pre) rest h
  | taken h hin => exact .taken (by simp [hnew, h]) hin

theorem Retakes.log {m : MtxId} {log es : List (Event N)} (h : Retakes m log t d)
    (hes : ∀ e ∈ es, e ≠ .released m t) : Retakes m (log ++ es) t d := by
  cases h with
  | lock pre rest h => exact .lock pre rest h
  | back pre rest h => exact .back pre rest h
  | taken h hin => exact .taken h (hin.append hes)

/-- `t` is in a call of `uthread_cond_wait` with the mutex `k`. -/
structure Returning (k : ℕ) (t : Fin N) (s : State N L) : Prop where
  alive : Alive s t
  stays : ∀ j ∈ (s.uthreads t).utCtx, j.entry = false ∨ j = interruptLeave
  retakes : Retakes (.user k) s.log t (s.uthreads t).utCtx

theorem returning_step {k : ℕ} (hc : Core s) (h : Returning k t s) (hne : (s.uthreads t).utCtx ≠ [])
    (ht : Turn s l a s') : Returning k t s' := by
  have halive : Alive s' t := alive_step hc ht h.alive fun status cs e => by
    have := h.stays (exitTest t status) (by rw [e]; simp)
    simp at this
  cases ht with
  | @thread _ v i cs new s₁ hon hcode he hh =>
    by_cases hv : t = v
    · subst hv
      have hstays := h.stays
      have hretakes := h.retakes
      rw [hcode] at hstays hretakes
      refine ⟨halive, fun j hj => ?_, by simpa using effect_retakes hretakes he hh⟩
      simp only [State.setCtx_uthreads, if_true] at hj
      rcases List.mem_append.1 hj with hj | hj
      · exact .inl (effect_entry he j hj)
      · exact hstays j (List.mem_cons_of_mem _ hj)
    · rcases other_code cs he hv with e | ⟨-, hvac, -⟩
      · refine ⟨halive, by rw [e]; exact h.stays, ?_⟩
        rw [e]
        show Retakes (.user k) s₁.log t _
        rw [hh.log]
        refine h.retakes.log ?_
        rintro ev hev rfl
        exact hv (mem_logOf_released hev).1
      · -- the slot of a thread that is alive is not set up
        rcases (hc.vacant hvac).2.1 with hst | hst
        · exact absurd hst h.alive.1
        · exact absurd hst h.alive.2.1
  | call v call hon hcode =>
    have hv : t ≠ v := fun e => hne (e ▸ hcode)
    exact ⟨halive, by simpa [hv] using h.stays, by simpa [hv] using h.retakes⟩
  | preempt v hon =>
    by_cases hv : t = v
    · subst hv
      refine ⟨halive, fun j hj => ?_, ?_⟩
      · rcases List.mem_append.1 (by simpa using hj : j ∈ clockInterrupt ++ (s.uthreads t).utCtx)
          with hj | hj
        · simp only [clockInterrupt, uthreadYield, uthreadSwitch, List.mem_append, List.mem_cons,
            List.not_mem_nil, or_false] at hj
          rcases hj with (((rfl | rfl) | rfl | rfl | rfl) | rfl) | rfl <;> simp
        · exact h.stays j hj
      · have hfront : Retakes (.user k) s.log t (clockInterrupt ++ (s.uthreads t).utCtx) :=
          h.retakes.front (by simp [clockInterrupt, uthreadYield, uthreadSwitch])
        simpa using hfront
    · exact ⟨halive, by simpa [hv] using h.stays, by simpa [hv] using h.retakes⟩
  | lwp hb =>
    refine ⟨halive, ?_, ?_⟩
    · rw [(hb.fields t).1]
      exact h.stays
    · rw [(hb.fields t).1, hb.hist.log]
      exact h.retakes

/-! ## Signals and waits -/

/-- What a condition variable promises. -/
structure NoLostSignal (c : CondId) (s : State N L) : Prop where
  /-- Whoever has released its mutex is found by the signals and broadcasts that follow. -/
  finds : ∀ u i cs t, (s.uthreads u).utCtx = i :: cs → i = signalTest c ∨ i = broadcastTest c →
    Released c (s.uthreads t).utCtx ∨ Sleeps c t s.log → t ∈ (s.queues (.ucWaiters c)).tqWaiters
  /-- They find the waiters in the order in which these have gone to sleep. -/
  inOrder : ∀ u i cs, (s.uthreads u).utCtx = i :: cs → i = signalTest c ∨ i = broadcastTest c →
    begunBy c s.log = wokenBy c s.log ++ (s.queues (.ucWaiters c)).tqWaiters
  /-- The waits of a thread: each is woken once before it returns. -/
  matched : ∀ t, ∃ es rest, waitsOf c t s.log = es ++ rest ∧ Rounds c t es ∧
    (rest = [] ∨ rest = [.waitBegun c t] ∨ ∃ u, rest = [.waitBegun c t, .waitWoken c t u])
  /-- From the test of the queue to its end, a signal makes the first waiter runnable and a broadcast
  all of them, in a bounded number of steps of its thread. -/
  served : ∀ u test cs s' acts, (s.uthreads u).utCtx = test :: cs →
    test = signalTest c ∨ test = broadcastTest c →
    Runs.Trace next (fun s _ => (s.uthreads u).utCtx ≠ cs) (workOf u) s s' acts → s'.halt = none →
    acts.flatten <+: served test (s.queues (.ucWaiters c)).tqWaiters ∧
      acts.length ≤ 7 * (s.queues (.ucWaiters c)).tqWaiters.length + 1 ∧
      ((s'.uthreads u).utCtx = cs →
        acts.flatten = served test (s.queues (.ucWaiters c)).tqWaiters ∧
        (s.queues (.ucWaiters c)).tqWaiters = acts.flatten ++ (s'.queues (.ucWaiters c)).tqWaiters)

/-- A thread that comes back from a wait with the mutex `k` owns it, in the runs of `ok`. -/
def OwnsAgain (k : ℕ) (ok : State N L → Fin L × Act → Prop) (s₀ : State N L) : Prop :=
  ∀ (l : Fin L) (t : Fin N) (c : ℕ) (s s₁ s₂ : State N L), Reachable ok s₀ s → OnStack s l t →
    ok s (l, .call (.condWait c k)) → next s (l, .call (.condWait c k)) = some s₁ →
    Reachable (fun s b => ok s b ∧ (s.uthreads t).utCtx ≠ []) s₁ s₂ → (s₂.uthreads t).utCtx = [] →
    (s₂.mtx (.user k)).mOwner = some t

theorem Serving.served_prefix {test : Instr N} (h : Serving c u test cs Q s acts d)
    (htest : test = signalTest c ∨ test = broadcastTest c) : acts.flatten <+: served test Q := by
  rcases htest with rfl | rfl
  · by_cases hd : d = [signalTest c]
    · rw [(h.signal rfl).1 hd]
      exact List.nil_prefix
    · exact ⟨wakes d, (h.signal rfl).2 hd⟩
  · exact ⟨wakes d ++ (s.queues (.ucWaiters c)).tqWaiters, by rw [← List.append_assoc]; exact h.queue.symm⟩

theorem no_lost_signal {s : State (N + 2) (L + 1)} (h : Reachable Runs.always (boot N L) s) :
    NoLostSignal c s := by
  have hc := core_reachable boot_core h
  have hi : CondInv c s := cond_reachable h
  refine ⟨fun u i cs t hcode htest ht => hi.finds hc hcode htest ht,
    fun u i cs hcode htest => hi.order (hi.tested hc hcode htest), fun t => ?_,
    fun u test cs s' acts hcode htest hrun hh => ?_⟩
  · obtain ⟨es, rest, hes, hr, hrest⟩ := hi.rounds t
    refine ⟨es, rest, hes, hr, ?_⟩
    cases hrest with
    | out => exact .inl rfl
    | begun => exact .inr (.inl rfl)
    | woken u => exact .inr (.inr ⟨u, rfl⟩)
  · obtain ⟨d, hd⟩ := serve (fun s' hr => core_reachable boot_core (h.trans hr)) hcode htest hrun hh
    have hb := hd.bound
    exact ⟨hd.served_prefix htest, by omega, fun hcs => hd.over htest hcs⟩

theorem owns_again (k : ℕ) : OwnsAgain k (unlocksOwn (.user k)) (boot N L) := by
  intro l t c s s₁ s₂ hs hon hok hn hrun hend
  have hs₁ : Reachable (unlocksOwn (.user k)) (boot N L) s₁ := .step hs hok hn
  have hs₂ := hs₁.trans (hrun.mono fun _ _ h => h.1)
  have hc := core_reachable boot_core hs
  -- the call
  have hstart : Returning k t s₁ := by
    have hempty : (s.uthreads t).utCtx = [] ∧
        s₁ = s.setCtx t ((Call.condWait c k).code s.incarnation t) := by
      have hn := (next_step hn).2
      unfold step at hn
      split at hn
      · cases hn
      · simp only [hon.1, hon.2] at hn
        split_ifs at hn with hnil
        exact ⟨hnil, (Option.some.inj hn).symm⟩
    obtain ⟨hempty, rfl⟩ := hempty
    have hst := (hc.active hon).1
    rw [hempty] at hst
    have hcpu : (s.uthreads t).utState = .onCpu := hst
    refine ⟨?_, ?_, ?_⟩
    · simp [Alive, hcpu]
    · simp [Call.code, uthreadCondWait, uthreadMtxUnlock, uthreadMtxLock, uthreadSwitch]
    · have hlock : Retakes (.user k) s.log t ([nopreemptOn, lock (.cPmut (.user c))] ++
          uthreadMtxUnlock (.user k) ++ [waitMark (.user c)] ++
          uthreadSwitch (some (.ucWaiters (.user c))) false (some (.cPmut (.user c))) ++
          [nopreemptOff, nopreemptOn, lock (.mPmut (.user k))] ++ lockTest (.user k) ::
            [nopreemptOn, waitDone (.user c), nopreemptOff]) := .lock _ _ (by simp)
      simpa [Call.code, uthreadCondWait, uthreadMtxLock] using hlock
  have hret : Returning k t s₂ := hrun.invariant_of (P := Returning k t) (I := Core)
    (fun s' hr => core_reachable boot_core (hs₁.trans (hr.mono fun _ _ h => h.1))) hstart
    fun _ _ _ hc hi hok hn => returning_step hc hi hok.2 (move_turn hc (step_move hc.codes.wf hn))
  have hin : InSection (.user k) s₂.log t := by
    have := hret.retakes
    rw [hend] at this
    generalize hd : ([] : Code (_ + 2)) = d at this
    cases this with
    | lock => exact absurd hd.symm (List.append_ne_nil_of_right_ne_nil _ (by simp))
    | back => exact absurd hd.symm (List.append_ne_nil_of_right_ne_nil _ (by simp))
    | taken _ hin => exact hin
  exact ((mtx_reachable hs₂).owner_iff t).2 (.inl hin)

/-- **Condition variables lose no signal and invent none.** -/
theorem cond_waits : (∀ (c : CondId) (s : State (N + 2) (L + 1)), Reachable Runs.always (boot N L) s →
    NoLostSignal c s) ∧ ∀ k, OwnsAgain k (unlocksOwn (.user k)) (boot N L) :=
  ⟨fun _ _ h => no_lost_signal h, owns_again⟩

/-- A thread waits, and the first thread signals it and yields. -/
def signalled (l : Fin L) : List (Fin L × Act) :=
  turns l 4 ++ [(l, .call (.create 7))] ++ turns l 23 ++ [(l, .call .yield)] ++ turns l 30 ++
    [(l, .call (.mtxLock 0))] ++ turns l 5 ++ [(l, .call (.condWait 0 0))] ++ turns l 15 ++
    [(l, .call (.condSignal 0))] ++ turns l 11 ++ [(l, .call .yield)]

theorem cond_waits_signalled : ∃ s : State 3 1, NoLostSignal (.user 0) s ∧
    waitsOf (.user 0) 2 s.log =
      [.waitBegun (.user 0) 2, .waitWoken (.user 0) 2 0, .waitReturned (.user 0) 2] := by
  obtain ⟨s, hs, hlog⟩ : ∃ s : State 3 1, Reachable Runs.always (boot 1 0) s ∧
      waitsOf (.user 0) 2 s.log =
        [.waitBegun (.user 0) 2, .waitWoken (.user 0) 2 0, .waitReturned (.user 0) 2] :=
    Runs.exists_reach (signalled 0 ++ turns 0 16) (by decide +kernel)
  exact ⟨s, cond_waits.1 (.user 0) s hs, hlog⟩

/-- The mutex with which the call waits. -/
def Act.waitsWith : Act → Option MtxId
  | call (.condWait _ i) => some (.user i)
  | _ => none

/-- A call waits with `m` only while its thread owns it. -/
def waitsOwn (m : MtxId) (s : State N L) (b : Fin L × Act) : Prop :=
  ∀ t, OnStack s b.1 t → b.2.waitsWith = some m → (s.mtx m).mOwner = some t

instance (m : MtxId) (s : State N L) (b : Fin L × Act) : Decidable (waitsOwn m s b) :=
  inferInstanceAs (Decidable (∀ _, _))

/-- The steps of a wait on the only LWP, from the call to its end, in which the first thread signals it
and then unlocks the mutex that the waiter has taken again. -/
def robbed (l : Fin L) : List (Fin L × Act) :=
  turns l 15 ++ [(l, .call (.condSignal 0))] ++ turns l 11 ++ [(l, .call .yield)] ++ turns l 13 ++
    [(l, .preempt)] ++ turns l 8 ++ [(l, .call (.mtxUnlock 0))] ++ turns l 5 ++ [(l, .call .yield)] ++
    turns l 12

/-- If another thread may unlock the mutex, a thread can come back from its wait without it. -/
theorem wait_robbed : ¬ OwnsAgain 0 (waitsOwn (.user 0)) (boot 1 0) := by
  intro h
  obtain ⟨s, hs, hon, hok, hrun⟩ : ∃ s : State 3 1, Reachable (waitsOwn (.user 0)) (boot 1 0) s ∧
      OnStack s 0 2 ∧ waitsOwn (.user 0) s (0, .call (.condWait 0 0)) ∧
      ((next s (0, .call (.condWait 0 0))).any fun s₁ =>
        (Runs.follow next (fun s b => waitsOwn (.user 0) s b ∧ (s.uthreads 2).utCtx ≠ []) s₁
          (robbed 0)).any fun s₂ =>
            decide ((s₂.uthreads 2).utCtx = [] ∧ (s₂.mtx (.user 0)).mOwner ≠ some 2)) = true :=
    Runs.exists_reach (turns 0 4 ++ [(0, .call (.create 7))] ++ turns 0 23 ++ [(0, .call .yield)] ++
      turns 0 30 ++ [(0, .call (.mtxLock 0))] ++ turns 0 5) (by decide +kernel)
  obtain ⟨s₁, hn, hrun⟩ := (Option.any_eq_true _ _).1 hrun
  obtain ⟨s₂, hs₂, hend⟩ := (Option.any_eq_true _ _).1 hrun
  obtain ⟨hcode, howner⟩ := of_decide_eq_true hend
  exact howner (h 0 2 0 s s₁ s₂ hs hon hok hn (Runs.follow_reach hs₂) hcode)

end Uthreads
