import Uthreads.Proof.CodeStep

/-!
# What an instruction leaves alone

One lemma for each kind of data: the codes and counters of the other threads, the POSIX mutexes,
the LWPs and the owners of the uthread mutexes.
-/

namespace Uthreads

variable {N L : ℕ} {l : Fin L} {t u : Fin N} {s s' : State N L} {i : Instr N} {new : Code N}

open Instr

/-- `uthread_runq_enqueue` of `t` writes nothing but its link. -/
theorem runqEnqueue_thread (h : uthreadRunqEnqueue t s = .ok s') (u : Fin N) :
    (s'.uthreads u).utCtx = (s.uthreads u).utCtx ∧ (s'.uthreads u).utState = (s.uthreads u).utState ∧
      (s'.uthreads u).utPrio = (s.uthreads u).utPrio ∧
      (s'.uthreads u).utDetached = (s.uthreads u).utDetached ∧
      (s'.uthreads u).utNoPreemptCount = (s.uthreads u).utNoPreemptCount := by
  obtain ⟨p, -, -, hu, -⟩ := runqEnqueue_ok h
  rw [hu]
  by_cases hut : u = t
  · subst hut; simp
  · simp [hut]

theorem runqEnqueue_rest (h : uthreadRunqEnqueue t s = .ok s') : SameRest s s' := by
  obtain ⟨-, -, -, -, -, -, hr⟩ := runqEnqueue_ok h
  exact hr

/-- A field of the table that the queue operations do not write. -/
theorem enqueue_thread {q : QueueId N} (h : utqueueEnqueue q t s = .ok s') (u : Fin N) :
    (s'.uthreads u).utCtx = (s.uthreads u).utCtx ∧ (s'.uthreads u).utState = (s.uthreads u).utState ∧
      (s'.uthreads u).utPrio = (s.uthreads u).utPrio ∧
      (s'.uthreads u).utDetached = (s.uthreads u).utDetached ∧
      (s'.uthreads u).utNoPreemptCount = (s.uthreads u).utNoPreemptCount := by
  obtain ⟨-, rfl⟩ := utqueueEnqueue_ok h
  simp

theorem dequeue_thread {q : QueueId N} (h : utqueueDequeue q s = some (t, s')) (u : Fin N) :
    (s'.uthreads u).utCtx = (s.uthreads u).utCtx ∧ (s'.uthreads u).utState = (s.uthreads u).utState ∧
      (s'.uthreads u).utPrio = (s.uthreads u).utPrio ∧
      (s'.uthreads u).utDetached = (s.uthreads u).utDetached ∧
      (s'.uthreads u).utNoPreemptCount = (s.uthreads u).utNoPreemptCount := by
  obtain ⟨x, -, rfl⟩ := utqueueDequeue_some h
  simp

theorem enqueue_rest {q : QueueId N} (h : utqueueEnqueue q t s = .ok s') : SameRest s s' := by
  obtain ⟨-, rfl⟩ := utqueueEnqueue_ok h
  constructor <;> rfl

theorem dequeue_rest {q : QueueId N} (h : utqueueDequeue q s = some (t, s')) : SameRest s s' := by
  obtain ⟨x, -, rfl⟩ := utqueueDequeue_some h
  constructor <;> rfl

theorem requeue_thread {oldprio : ℤ} (h : uthreadRunqRequeue t oldprio s = .ok s') (u : Fin N) :
    (s'.uthreads u).utCtx = (s.uthreads u).utCtx ∧ (s'.uthreads u).utState = (s.uthreads u).utState ∧
      (s'.uthreads u).utPrio = (s.uthreads u).utPrio ∧
      (s'.uthreads u).utDetached = (s.uthreads u).utDetached ∧
      (s'.uthreads u).utNoPreemptCount = (s.uthreads u).utNoPreemptCount := by
  obtain ⟨p, p', -, -, hm, rfl⟩ := runqRequeue_ok h
  simp

theorem requeue_rest {oldprio : ℤ} (h : uthreadRunqRequeue t oldprio s = .ok s') :
    SameRest s s' := by
  obtain ⟨p, p', -, -, hm, rfl⟩ := runqRequeue_ok h
  constructor <;> rfl

/-- **The codes and the counters.** Only `uthread_create` writes those of another thread. -/
theorem effect_code (he : Effect l t s i s' new) (u : Fin N) :
    ((s'.uthreads u).utCtx = (s.uthreads u).utCtx ∨
      (∃ prio, i = createInit .ctx u prio) ∧ Vacant s u ∧ (s'.uthreads u).utCtx = threadStartCode) ∧
    ((s'.uthreads u).utNoPreemptCount = (if u = t then i.count (s.uthreads u).utNoPreemptCount
        else (s.uthreads u).utNoPreemptCount) ∨
      (∃ prio, i = createInit .count u prio) ∧ (s'.uthreads u).utNoPreemptCount = 1) := by
  suffices h : ((s'.uthreads u).utCtx = (s.uthreads u).utCtx ∧ (s'.uthreads u).utNoPreemptCount =
        if u = t then i.count (s.uthreads u).utNoPreemptCount
        else (s.uthreads u).utNoPreemptCount) ∨ ∃ w prio, i = createInit w u prio by
    rcases h with ⟨hctx, hcnt⟩ | ⟨w, prio, rfl⟩
    · exact ⟨.inl hctx, .inl hcnt⟩
    · obtain ⟨rfl, -, hv, -⟩ := effect_create he
      by_cases hon : ∃ l, OnStack s l u <;> cases w <;> simp_all [createWrite, Instr.count]
  cases he with
  | plain hp hs =>
    left
    rw [hs.uthreads]
    refine ⟨rfl, ?_⟩
    have hc : i.count (s.uthreads u).utNoPreemptCount = (s.uthreads u).utNoPreemptCount := by
      cases hp <;> rfl
    rw [hc, ite_self]
  | lock | unlock | exitDetached | exitAlone | claim | block =>
    left; simp [Instr.count]
  | nopreemptOn | nopreemptOff | interruptLeave =>
    left
    simp only [State.modUthread_uthreads, State.setLwp_uthreads, ite_utCtx, ite_self_utCtx, true_and]
    split
    · subst_vars; rfl
    · rfl
  | swtch hsw =>
    left
    cases hsw with
    | yield hz hs₁ =>
      obtain ⟨h₁, -, -, -, h₂⟩ := runqEnqueue_thread hs₁ u
      simpa [Instr.count] using And.intro h₁ h₂
    | queue q p hs₁ hs =>
      obtain ⟨h₁, -, -, -, h₂⟩ := enqueue_thread hs₁ u
      rw [hs.uthreads]
      simpa [Instr.count] using And.intro h₁ h₂
    | leave | gone => simp [Instr.count]
  | wake v hw hs =>
    left
    obtain ⟨h₁, -, -, -, h₂⟩ := runqEnqueue_thread hs u
    simpa [Instr.count] using And.intro h₁ h₂
  | start v prio hv hs =>
    left
    obtain ⟨h₁, -, -, -, h₂⟩ := runqEnqueue_thread hs u
    simpa [Instr.count] using And.intro h₁ h₂
  | setprio v prio hs hnew =>
    left
    rcases hs with ⟨rfl, -⟩ | ⟨-, hr⟩
    · simp [Instr.count]
    · obtain ⟨h₁, -, -, -, h₂⟩ := requeue_thread hr u
      simpa [Instr.count] using And.intro h₁ h₂
  | take m ho hs hnew =>
    left
    rw [hs.uthreads]
    rcases hnew with ⟨rfl, -⟩ | ⟨rfl, -⟩ <;> simp [Instr.count]
  | release m hq hs => left; rw [hs.uthreads]; simp [Instr.count]
  | handOver m v hq hs =>
    left
    obtain ⟨h₁, -, -, -, h₂⟩ := dequeue_thread hq u
    rw [hs.uthreads]
    simpa [Instr.count] using And.intro h₁ h₂
  | waitMark c hs => left; rw [hs.uthreads]; simp [Instr.count]
  | signal c v hq hs hnew =>
    left
    obtain ⟨h₁, -, -, -, h₂⟩ := dequeue_thread hq u
    rw [hs.uthreads]
    rcases hnew with ⟨rfl, -⟩ | ⟨rfl, -⟩ <;> simpa [Instr.count] using And.intro h₁ h₂
  | alloc start prio j hj hs => left; rw [hs.uthreads]; simp [Instr.count]
  | create w tid prio =>
    by_cases hu : u = tid
    · exact .inr ⟨w, prio, by rw [hu]⟩
    · left; simp [createWrite_of_ne s w hu, Instr.count]
  | exitJoined v w status hd hq =>
    left
    obtain ⟨h₁, -, -, -, h₂⟩ := dequeue_thread hq u
    simpa [Instr.count] using And.intro h₁ h₂
  | makeReapable v hz hs₁ hs hnew =>
    left
    obtain ⟨h₁, -, -, -, h₂⟩ := enqueue_thread hs₁ u
    rw [hs.uthreads]
    simpa [Instr.count] using And.intro h₁ h₂
  | joinWait v k hq hd hz hinit hs₁ hs =>
    left
    obtain ⟨h₁, -, -, -, h₂⟩ := enqueue_thread hs₁ u
    rw [hs.uthreads]
    simpa [Instr.count] using And.intro h₁ h₂
  | detach v k hq hd hinit hs hnew => left; rw [hs.uthreads]; simp [Instr.count]
  | drain v hq hz =>
    left
    obtain ⟨h₁, -, -, -, h₂⟩ := dequeue_thread hq u
    simpa [Instr.count] using And.intro h₁ h₂
  | destroy => left; simp [Instr.count]

/-- How the instruction `i` of `t` can change the `ut_state` of `v`. -/
inductive StateStep (t v : Fin N) (i : Instr N) (st st' : UthreadState) : Prop
  | same (h : st' = st)
  | saved (hi : i = swtch none true none) (hv : v = t) (h : st ≠ .zombie) (h' : st' = .runnable)
  | woken (hi : i = wakeTest v) (h : st = .wait) (h' : st' = .runnable)
  | started (prio : ℤ) (hi : i = startTest v prio) (h : st = .transition) (h' : st' = .runnable)
  | blocked (hi : (∃ m, i = lockTest m) ∨ (∃ c, i = waitMark c) ∨ ∃ u k, i = joinTest u k)
    (hv : v = t) (h' : st' = .wait)
  | allocated (start : ℕ) (prio : ℤ) (hi : i = allocScan start prio) (h : st = .noState)
    (h' : st' = .transition)
  | exited (status : ℤ) (hi : i = exitTest v status) (h' : st' = .zombie)
  | destroyed (hi : i = destroy .state v) (h' : st' = .noState)

/-- **The states.** -/
theorem effect_state (he : Effect l t s i s' new) (v : Fin N) :
    StateStep t v i (s.uthreads v).utState (s'.uthreads v).utState := by
  cases he with
  | plain hp hs => exact .same (by rw [hs.uthreads])
  | lock | unlock => exact .same rfl
  | nopreemptOn | nopreemptOff | interruptLeave | claim => exact .same (by simp)
  | swtch hsw =>
    cases hsw with
    | yield hz hs₁ =>
      have h := (runqEnqueue_thread hs₁ v).2.1
      by_cases hv : v = t
      · subst hv; exact .saved rfl rfl hz (h.trans (by simp))
      · exact .same (h.trans (by simp [hv]))
    | queue q p hs₁ hs => exact .same (by rw [hs.uthreads]; exact (enqueue_thread hs₁ v).2.1)
    | leave | gone => exact .same rfl
  | wake u hw hs =>
    have h := (runqEnqueue_thread hs v).2.1
    by_cases hv : v = u
    · subst hv; exact .woken rfl hw (h.trans (by simp))
    · exact .same (h.trans (by simp [hv]))
  | start u prio hw hs =>
    have h := (runqEnqueue_thread hs v).2.1
    by_cases hv : v = u
    · subst hv; exact .started prio rfl hw (h.trans (by simp))
    · exact .same (h.trans (by simp [hv]))
  | setprio u prio hs hnew =>
    rcases hs with ⟨rfl, -⟩ | ⟨-, hr⟩
    · exact .same (by simp)
    · exact .same ((requeue_thread hr v).2.1.trans (by simp))
  | take m ho hs | release m hq hs => exact .same (by simp [hs.uthreads])
  | detach u k hq hd hinit hs => exact .same (by simp [hs.uthreads])
  | block m ho =>
    by_cases hv : v = t
    · exact .blocked (.inl ⟨m, rfl⟩) hv (by simp [hv])
    · exact .same (by simp [hv])
  | waitMark c hs =>
    by_cases hv : v = t
    · exact .blocked (.inr (.inl ⟨c, rfl⟩)) hv (by simp [hs.uthreads, hv])
    · exact .same (by simp [hs.uthreads, hv])
  | handOver m u hq hs | signal c u hq hs =>
    exact .same (by rw [hs.uthreads]; exact (dequeue_thread hq v).2.1)
  | alloc start prio j hj hs =>
    by_cases hv : v = j
    · subst hv; exact .allocated start prio rfl (allocWhile_noState hj) (by simp [hs.uthreads])
    · exact .same (by simp [hs.uthreads, hv])
  | create => exact .same (by simp)
  | exitDetached u status | exitAlone u status =>
    by_cases hv : v = u
    · subst hv; exact .exited status rfl (by simp)
    · exact .same (by simp [hv])
  | exitJoined u w status hd hq =>
    have h := (dequeue_thread hq v).2.1
    by_cases hv : v = u
    · subst hv; exact .exited status rfl (h.trans (by simp))
    · exact .same (h.trans (by simp [hv]))
  | makeReapable u hz' hs₁ hs => exact .same (by rw [hs.uthreads, (enqueue_thread hs₁ v).2.1])
  | joinWait u k hq hd hz' hinit hs₁ hs =>
    have h := (enqueue_thread hs₁ v).2.1
    by_cases hv : v = t
    · exact .blocked (.inr (.inr ⟨u, k, rfl⟩)) hv (by rw [hs.uthreads, h]; simp [hv])
    · exact .same (by rw [hs.uthreads, h]; simp [hv])
  | drain u hq => exact .same (dequeue_thread hq v).2.1
  | destroy d u =>
    by_cases hv : d = .state ∧ v = u
    · obtain ⟨rfl, rfl⟩ := hv
      exact .destroyed rfl (by simp)
    · exact .same (by simp [hv])

/-- The instructions that write a POSIX mutex. -/
def Instr.writesPmtx : Instr N → Bool
  | lock _ | unlock _ | createInit .pmut _ _ | destroy .pmut _ => true
  | _ => false

/-- **The POSIX mutexes.** -/
theorem effect_pmtx (he : Effect l t s i s' new) (hi : i.writesPmtx = false) :
    s'.pmtx = s.pmtx := by
  cases he with
  | lock | unlock => cases hi
  | create w u prio =>
    have hw : w ≠ .pmut := by rintro rfl; cases hi
    funext p
    simp [hw]
  | destroy d u =>
    have hd : d ≠ .pmut := by rintro rfl; cases hi
    funext p
    simp [hd]
  | plain hp hs => exact hs.pmtx
  | swtch hsw =>
    cases hsw with
    | yield hz hs₁ => exact (runqEnqueue_rest hs₁).pmtx
    | queue q p hs₁ hs => exact hs.pmtx.trans (enqueue_rest hs₁).pmtx
    | leave | gone => rfl
  | wake v hw hs => exact (runqEnqueue_rest hs).pmtx
  | start v prio hv hs => exact (runqEnqueue_rest hs).pmtx
  | setprio v prio hs hnew =>
    rcases hs with ⟨rfl, -⟩ | ⟨-, hr⟩
    · rfl
    · exact (requeue_rest hr).pmtx
  | handOver m v hq hs => exact hs.pmtx.trans (dequeue_rest hq).pmtx
  | signal c v hq hs hnew => exact hs.pmtx.trans (dequeue_rest hq).pmtx
  | exitJoined v w status hd hq => exact (dequeue_rest hq).pmtx
  | makeReapable v hz hs₁ hs hnew => exact hs.pmtx.trans (enqueue_rest hs₁).pmtx
  | joinWait v k hq hd hz hinit hs₁ hs => exact hs.pmtx.trans (enqueue_rest hs₁).pmtx
  | drain v hq hz => exact (dequeue_rest hq).pmtx
  | take _ _ hs | release _ _ hs | waitMark _ hs | alloc _ _ _ _ hs => exact hs.pmtx
  | detach _ _ _ _ _ hs => exact hs.pmtx
  | _ => rfl

/-- **The owners of the uthread mutexes.** Only the three uthread mutex operations write them. -/
theorem effect_mtx (he : Effect l t s i s' new) (m : MtxId)
    (hi : i ≠ lockTest m ∧ i ≠ trylockTest m ∧ i ≠ unlockTest m) : s'.mtx m = s.mtx m := by
  cases he with
  | plain hp hs => rw [hs.mtx]
  | take m' ho hs hnew =>
    rw [hs.mtx]
    have hne : m ≠ m' := by
      rintro rfl
      rcases hnew with ⟨rfl, -⟩ | ⟨rfl, -⟩
      · exact hi.1 rfl
      · exact hi.2.1 rfl
    simp [hne]
  | release m' hq hs =>
    rw [hs.mtx]
    have hne : m ≠ m' := by rintro rfl; exact hi.2.2 rfl
    simp [hne]
  | handOver m' v hq hs =>
    rw [hs.mtx]
    have hne : m ≠ m' := by rintro rfl; exact hi.2.2 rfl
    simp [hne, (dequeue_rest hq).mtx]
  | swtch hsw =>
    cases hsw with
    | yield hz hs₁ => exact congrFun (runqEnqueue_rest hs₁).mtx m
    | queue q p hs₁ hs => rw [hs.mtx]; exact congrFun (enqueue_rest hs₁).mtx m
    | leave | gone => rfl
  | wake v hw hs => exact congrFun (runqEnqueue_rest hs).mtx m
  | start v prio hv hs => exact congrFun (runqEnqueue_rest hs).mtx m
  | setprio v prio hs hnew =>
    rcases hs with ⟨rfl, -⟩ | ⟨-, hr⟩
    · rfl
    · exact congrFun (requeue_rest hr).mtx m
  | signal c v hq hs hnew => rw [hs.mtx]; exact congrFun (dequeue_rest hq).mtx m
  | exitJoined v w status hd hq => exact congrFun (dequeue_rest hq).mtx m
  | makeReapable v hz hs₁ hs hnew => rw [hs.mtx]; exact congrFun (enqueue_rest hs₁).mtx m
  | joinWait v k hq hd hz hinit hs₁ hs => rw [hs.mtx]; exact congrFun (enqueue_rest hs₁).mtx m
  | drain v hq hz => exact congrFun (dequeue_rest hq).mtx m
  | waitMark _ hs | alloc _ _ _ _ hs => rw [hs.mtx]; rfl
  | detach _ _ _ _ _ hs => rw [hs.mtx]; rfl
  | create | destroy => simp
  | _ => rfl

/-- The queues other than the run queues that an instruction writes. -/
@[simp] def Instr.queues : Instr N → List (QueueId N)
  | swtch q _ _ => q.toList
  | unlockTest m => [.mWaiters m]
  | signalTest c | broadcastTest c => [.ucWaiters c]
  | createInit .waiter u _ | exitTest u _ | joinTest u _ | destroy .waiter u => [.utWaiter u]
  | makeReapable _ | reaperDrain => [.reapQueue]
  | _ => []

theorem queues_createInit {w : CreateStep} {u : Fin N} {prio : ℤ} {q : QueueId N}
    (h : q ∈ (createInit w u prio).queues) : w = .waiter ∧ q = .utWaiter u := by
  cases w <;> simp at h
  exact ⟨rfl, h⟩

theorem queues_destroy {d : DestroyStep} {u : Fin N} {q : QueueId N}
    (h : q ∈ (destroy d u).queues) : d = .waiter ∧ q = .utWaiter u := by
  cases d <;> simp at h
  exact ⟨rfl, h⟩

/-- **The queues.** -/
theorem effect_queues (he : Effect l t s i s' new) {q : QueueId N} (hr : ∀ r, q ≠ .runq r)
    (hq : q ∉ i.queues) : s'.queues q = s.queues q := by
  have henq : ∀ {u : Fin N} {s₀ s₁ : State N L} {r : QueueId N}, utqueueEnqueue r u s₀ = .ok s₁ →
      q ≠ r → s₁.queues q = s₀.queues q := by
    intro u s₀ s₁ r h hne
    obtain ⟨-, rfl⟩ := utqueueEnqueue_ok h
    simp [hne]
  have hdeq : ∀ {u : Fin N} {s₀ s₁ : State N L} {r : QueueId N},
      utqueueDequeue r s₀ = some (u, s₁) → q ≠ r → s₁.queues q = s₀.queues q := by
    intro u s₀ s₁ r h hne
    obtain ⟨x, -, rfl⟩ := utqueueDequeue_some h
    simp [hne]
  have hrunq : ∀ {u : Fin N} {s₀ s₁ : State N L}, uthreadRunqEnqueue u s₀ = .ok s₁ →
      s₁.queues q = s₀.queues q := by
    intro u s₀ s₁ h
    obtain ⟨p, -, -, -, hqs, -⟩ := runqEnqueue_ok h
    rw [hqs, Function.update_of_ne (hr p)]
  cases he with
  | plain hp hs => rw [hs.queues]
  | swtch hsw =>
    cases hsw with
    | yield hz hs₁ => exact (hrunq hs₁ :)
    | queue r p hs₁ hs => rw [hs.queues]; exact (henq hs₁ (by simpa using hq) :)
    | leave | gone => rfl
  | wake v hw hs => exact (hrunq hs :)
  | start v prio hv hs => exact (hrunq hs :)
  | setprio v prio hs hnew =>
    rcases hs with ⟨rfl, -⟩ | ⟨-, hrq⟩
    · rfl
    · obtain ⟨p, p', -, -, hm, rfl⟩ := runqRequeue_ok hrq
      simp [hr]
  | handOver m v hd hs => rw [hs.queues]; exact (hdeq hd (by simpa using hq) :)
  | signal c v hd hs hnew =>
    rw [hs.queues]
    exact (hdeq hd (by rcases hnew with ⟨rfl, -⟩ | ⟨rfl, -⟩ <;> simpa using hq) :)
  | exitJoined v w status _ hd => exact (hdeq hd (by simpa using hq) :)
  | makeReapable v hz hs₁ hs hnew => rw [hs.queues]; exact (henq hs₁ (by simpa using hq) :)
  | joinWait v k _ hd hz hinit hs₁ hs => rw [hs.queues]; exact (henq hs₁ (by simpa using hq) :)
  | drain v hd hz => exact (hdeq hd (by simpa using hq) :)
  | create w v prio =>
    have hw : ¬ (w = .waiter ∧ q = .utWaiter v) := by
      rintro ⟨rfl, rfl⟩
      simp at hq
    simp [hw]
  | destroy d v =>
    have hd : ¬ (d = .waiter ∧ q = .utWaiter v) := by
      rintro ⟨rfl, rfl⟩
      simp at hq
    simp [hd]
  | take _ _ hs | release _ _ hs | waitMark _ hs | alloc _ _ _ _ hs => rw [hs.queues]; rfl
  | detach _ _ _ _ _ hs => rw [hs.queues]; rfl
  | _ => rfl

/-- **The LWPs.** Unless it switches, an instruction writes only the signal mask of its LWP. -/
theorem effect_lwps (he : Effect l t s i s' new) (hi : ∀ q sv m, i ≠ swtch q sv m) (k : Fin L) :
    (s'.lwps k).mode = (s.lwps k).mode ∧ (s'.lwps k).utCurthr = (s.lwps k).utCurthr ∧
      (k ≠ l → (s'.lwps k).masked = (s.lwps k).masked) := by
  have hsame : s'.lwps = s.lwps → (s'.lwps k).mode = (s.lwps k).mode ∧
      (s'.lwps k).utCurthr = (s.lwps k).utCurthr ∧
      (k ≠ l → (s'.lwps k).masked = (s.lwps k).masked) := fun e => by simp [e]
  cases he with
  | plain hp hs => exact hsame hs.lwps
  | swtch => exact absurd rfl (hi _ _ _)
  | nopreemptOn | nopreemptOff | interruptLeave =>
    by_cases hk : k = l
    · subst hk; simp
    · simp [hk]
  | wake v hw hs => exact hsame (runqEnqueue_rest hs).lwps
  | start v prio hv hs => exact hsame (runqEnqueue_rest hs).lwps
  | setprio v prio hs hnew =>
    rcases hs with ⟨rfl, -⟩ | ⟨-, hr⟩
    · exact hsame rfl
    · exact hsame (requeue_rest hr).lwps
  | handOver m v hq hs => exact hsame (hs.lwps.trans (dequeue_rest hq).lwps)
  | signal c v hq hs hnew => exact hsame (hs.lwps.trans (dequeue_rest hq).lwps)
  | exitJoined v w status hd hq => exact hsame (dequeue_rest hq).lwps
  | makeReapable v hz hs₁ hs hnew => exact hsame (hs.lwps.trans (enqueue_rest hs₁).lwps)
  | joinWait v k hq hd hz hinit hs₁ hs => exact hsame (hs.lwps.trans (enqueue_rest hs₁).lwps)
  | drain v hq hz => exact hsame (dequeue_rest hq).lwps
  | take _ _ hs | release _ _ hs | waitMark _ hs | alloc _ _ _ _ hs => exact hsame hs.lwps
  | detach _ _ _ _ _ hs => exact hsame hs.lwps
  | create | destroy => exact hsame (by simp)
  | lock | unlock | block | exitDetached | exitAlone | claim =>
    exact hsame rfl

end Uthreads
