import Uthreads.Proof.Effect

/-!
# How an instruction can fail

`Fault l t s i h` lists the reasons for which an instruction ends the process with `h`: a failed
assertion, a `PANIC`, an error of a wrapped call, an undefined operation. `exec_fault` says that
the list is complete.
-/

namespace Uthreads

variable {N L : ℕ}

open Instr

/-- `uthread_runq_enqueue` fails. -/
inductive RunqFault (s : State N L) (u : Fin N) : Halt → Prop
  | index (h : runqIndex (s.uthreads u).utPrio = none) : RunqFault s u (.undefined .runqIndex)
  | link (h : (s.uthreads u).utLink ≠ none) : RunqFault s u (.assertion .enqueueLink)

/-- `uthread_runq_requeue` fails. -/
inductive RequeueFault (s : State N L) (u : Fin N) (oldprio : ℤ) : Halt → Prop
  | index (h : runqIndex oldprio = none ∨ runqIndex (s.uthreads u).utPrio = none) :
    RequeueFault s u oldprio (.undefined .runqIndex)
  | link (h : (s.uthreads u).utLink = none) : RequeueFault s u oldprio (.assertion .removeLink)
  | missing (p : Fin (uthMaxprio + 1)) (hp : runqIndex oldprio = some p)
    (h : u ∉ (s.queues (.runq p)).tqWaiters) :
    RequeueFault s u oldprio (.undefined .queueRemove)

/-- An instruction of `t` on LWP `l` ends the process. -/
inductive Fault (l : Fin L) (t : Fin N) (s : State N L) : Instr N → Halt → Prop
  | lockDestroyed (p : PmtxId N) (h : (s.pmtx p).status = .destroyed) :
    Fault l t s (lock p) (.wrapper .einval)
  | lockHeld (p : PmtxId N) (h : (s.pmtx p).owner ≠ none) :
    Fault l t s (lock p) (.wrapper .edeadlk)
  | unlockDestroyed (p : PmtxId N) (h : (s.pmtx p).status = .destroyed) :
    Fault l t s (unlock p) (.wrapper .einval)
  | unlockOther (p : PmtxId N) (h : (s.pmtx p).errorcheck = true) (ho : (s.pmtx p).owner ≠ some l) :
    Fault l t s (unlock p) (.wrapper .eperm)
  | nopreemptOn (hm : (s.lwps l).masked = true) (h : (s.uthreads t).utNoPreemptCount = 0) :
    Fault l t s nopreemptOn (.assertion .nopreemptOn)
  | nopreemptMax (h : intMax ≤ (s.uthreads t).utNoPreemptCount) :
    Fault l t s nopreemptOn (.assertion .nopreemptOn)
  | nopreemptOff (h : (s.lwps l).masked = false ∨ (s.uthreads t).utNoPreemptCount = 0) :
    Fault l t s nopreemptOff (.assertion .nopreemptOff)
  | interruptLeave (h : (s.uthreads t).utNoPreemptCount ≠ 1 ∨ (s.lwps l).masked = false) :
    Fault l t s interruptLeave (.assertion .clockInterrupt)
  | switchMasked (q : Option (QueueId N)) (sv : Bool) (m : Option (PmtxId N))
    (h : (s.lwps l).masked = false) : Fault l t s (swtch q sv m) (.assertion .switchMasked)
  | switchCount (q : Option (QueueId N)) (sv : Bool) (m : Option (PmtxId N))
    (h : (s.uthreads t).utNoPreemptCount = 0) : Fault l t s (swtch q sv m) (.assertion .switchCount)
  | switchLink (q : QueueId N) (m : Option (PmtxId N)) (h : (s.uthreads t).utLink ≠ none) :
    Fault l t s (swtch (some q) false m) (.assertion .enqueueLink)
  | switchSave {e : Halt} (h : RunqFault s t e) : Fault l t s (swtch none true none) e
  | resume (h : (s.uthreads t).utState = .zombie) : Fault l t s resume (.panic .deadThread)
  | yieldMasked (h : (s.lwps l).masked = false) : Fault l t s yieldAssert (.assertion .yieldMasked)
  | yieldLink (h : (s.uthreads t).utLink ≠ none) : Fault l t s yieldAssert (.assertion .yieldLink)
  | wakeState (u : Fin N) (h : (s.uthreads u).utState = .noState) :
    Fault l t s (wakeAssert u) (.assertion .wakeState)
  | wake (u : Fin N) {e : Halt} (hu : (s.uthreads u).utState = .wait) (h : RunqFault s u e) :
    Fault l t s (wakeTest u) e
  | setprio (u : Fin N) (prio : ℤ) {e : Halt} (hu : (s.uthreads u).utState = .runnable)
    (h : RequeueFault (s.modUthread u fun x => { x with utPrio := prio }) u
      (s.uthreads u).utPrio e) : Fault l t s (setprioTest u prio) e
  | start (u : Fin N) (prio : ℤ) {e : Halt} (hu : (s.uthreads u).utState = .transition)
    (h : RunqFault (s.modUthread u fun x => { x with utPrio := prio }) u e) :
    Fault l t s (startTest u prio) e
  | startState (u : Fin N) (prio : ℤ) (h : (s.uthreads u).utState ≠ .transition) :
    Fault l t s (startTest u prio) (.panic .notTransition)
  | lockOwned (m : MtxId) (h : (s.mtx m).mOwner ≠ some t) :
    Fault l t s (lockOwned m) (.assertion .mtxOwner)
  | waitDone (c : CondId) (h : (s.uthreads t).utLink ≠ none) :
    Fault l t s (waitDone c) (.assertion .condLink)
  | createLink (u : Fin N) (prio : ℤ) (h : (s.uthreads u).utLink ≠ none) :
    Fault l t s (createInit .link u prio) (.undefined .brokenRing)
  | createMutex (u : Fin N) (prio : ℤ)
    (h : (s.pmtx (.utPmut u)).status = .live ∨ (s.pmtx (.utPmut u)).owner ≠ none) :
    Fault l t s (createInit .pmut u prio) (.undefined .mutexInit)
  | threadStart (h : (s.lwps l).masked = true) : Fault l t s threadStart (.assertion .threadStart)
  | exitQueue (u : Fin N) (status : ℤ) (h : (s.uthreads u).utWaiterInit = false) :
    Fault l t s (exitTest u status) (.assertion .queueEmpty)
  | reapableMasked (u : Fin N) (h : (s.lwps l).masked = false) :
    Fault l t s (makeReapable u) (.assertion .makeReapable)
  | reapableLink (u : Fin N) (hz : (s.uthreads u).utState = .zombie)
    (h : (s.uthreads u).utLink ≠ none) : Fault l t s (makeReapable u) (.assertion .enqueueLink)
  | joinQueue (u : Fin N) (k : ℕ) (h : (s.uthreads u).utWaiterInit = false) :
    Fault l t s (joinTest u k) (.assertion .queueEmpty)
  | joinLink (u : Fin N) (k : ℕ) (h : (s.uthreads t).utLink ≠ none) :
    Fault l t s (joinTest u k) (.assertion .enqueueLink)
  | detachQueue (u : Fin N) (k : ℕ) (h : (s.uthreads u).utWaiterInit = false) :
    Fault l t s (detachTest u k) (.assertion .queueEmpty)
  | reaperZombie (u : Fin N) (hq : u ∈ (s.queues .reapQueue).tqWaiters)
    (h : (s.uthreads u).utState ≠ .zombie) : Fault l t s reaperDrain (.assertion .reaperZombie)
  | destroyZombie (u : Fin N) (h : (s.uthreads u).utState ≠ .zombie) :
    Fault l t s (destroy .test u) (.assertion .destroyZombie)
  | liveStack (u : Fin N) (k : Fin L) (h : OnStack s k u) :
    Fault l t s (destroy .stack u) (.undefined .liveStack)
  | mutexDestroy (u : Fin N) (h : (s.pmtx (.utPmut u)).owner ≠ none) :
    Fault l t s (destroy .pmut u) (.undefined .mutexDestroy)
  | exit (th : ℕ) (h : N ≤ th) : Fault l t s (reaperScan th) .exit0
  | panicDead : Fault l t s panicDead (.panic .deadThread)

/-! ## The list is complete -/

theorem except_bind_error {ε α β : Type} {x : Except ε α} {f : α → Except ε β} {e : ε} :
    (x >>= f) = .error e ↔ x = .error e ∨ ∃ a, x = .ok a ∧ f a = .error e := by
  cases x <;> simp [bind, Except.bind]

theorem except_pure_error {ε α : Type} {a : α} {e : ε} : (pure a : Except ε α) ≠ .error e := by
  simp [pure, Except.pure]

theorem check_error {c : Bool} {a : Assertion} {e : Halt} :
    check c a = .error e ↔ c = false ∧ e = .assertion a := by
  unfold check
  cases c <;> simp [eq_comm]

variable {s s' : State N L} {l : Fin L} {t u : Fin N} {i : Instr N} {cs : Code N} {ok : Bool}
  {e : Halt}

theorem utqueueEnqueue_error {q : QueueId N} (h : utqueueEnqueue q u s = .error e) :
    e = .assertion .enqueueLink ∧ (s.uthreads u).utLink ≠ none := by
  unfold utqueueEnqueue at h
  split_ifs at h with hl
  exact ⟨(Except.error.inj h).symm, hl⟩

theorem runqEnqueue_error (h : uthreadRunqEnqueue u s = .error e) : RunqFault s u e := by
  unfold uthreadRunqEnqueue at h
  split at h
  · rename_i hp
    rw [← Except.error.inj h]
    exact .index hp
  · rcases except_bind_error.1 h with h | ⟨s₁, -, h⟩
    · obtain ⟨rfl, hl⟩ := utqueueEnqueue_error h
      exact .link hl
    · exact absurd h except_pure_error

theorem runqRequeue_error {oldprio : ℤ} (h : uthreadRunqRequeue u oldprio s = .error e) :
    RequeueFault s u oldprio e := by
  unfold uthreadRunqRequeue at h
  split at h
  · rename_i p p' hp hp'
    rcases except_bind_error.1 h with h | ⟨s₁, hr, h⟩
    · unfold utqueueRemove at h
      split_ifs at h with hl hm
      · rw [← Except.error.inj h]; exact .link hl
      · rw [← Except.error.inj h]; exact .missing p hp hm
    · -- the link has just been cleared
      obtain ⟨hm, rfl⟩ := utqueueRemove_ok hr
      exact absurd (by simp) (utqueueEnqueue_error h).2
  · rename_i hp
    rw [← Except.error.inj h]
    refine .index ?_
    cases h₁ : runqIndex oldprio with
    | none => exact .inl rfl
    | some p =>
      cases h₂ : runqIndex (s.uthreads u).utPrio with
      | none => exact .inr rfl
      | some p' => exact absurd h₂ (hp p p' h₁)

theorem execSwtch_fault {q : Option (QueueId N)} {saveonrq : Bool} {m : Option (PmtxId N)}
    (hok : OkSwitch t q saveonrq m cs) (h : execSwtch l t q saveonrq m s = .error e) :
    Fault l t s (swtch q saveonrq m) e := by
  unfold execSwtch at h
  rcases except_bind_error.1 h with h | ⟨-, -, h⟩
  · obtain ⟨hm, rfl⟩ := check_error.1 h
    exact .switchMasked q saveonrq m hm
  rcases except_bind_error.1 h with h | ⟨-, -, h⟩
  · obtain ⟨hc, rfl⟩ := check_error.1 h
    exact .switchCount q saveonrq m (by simpa using hc)
  cases hok with
  | yield =>
    by_cases hz : (s.uthreads t).utState = .zombie
    · simp [hz, bind, Except.bind, pure, Except.pure] at h
    · simp only [hz, if_false, bind, Except.bind, ne_eq, not_false_eq_true, and_self, if_true] at h
      split at h
      · rename_i e' hs
        cases runqEnqueue_error hs with
        | index h' =>
          rw [← Except.error.inj h]
          exact .switchSave (.index (by simpa using h'))
        | link h' =>
          rw [← Except.error.inj h]
          exact .switchSave (.link (by simpa using h'))
      · cases h
  | mutex | cond =>
    rcases except_bind_error.1 h with h | ⟨s₁, -, h⟩
    · obtain ⟨rfl, hl⟩ := utqueueEnqueue_error h
      exact .switchLink _ _ hl
    · simp [bind, Except.bind, pure, Except.pure] at h
  | join | exit | reaped => simp [bind, Except.bind, pure, Except.pure] at h

theorem execSetprioTest_fault {prio : ℤ} (h : execSetprioTest t u prio s = .error e) :
    Fault l t s (setprioTest u prio) e := by
  rcases except_bind_error.1 h with h | ⟨⟨s₁, r⟩, -, h⟩
  · unfold setprioBody at h
    split at h
    · cases h
    split at h
    · cases h
    simp only at h
    split at h
    · rename_i hr
      rcases except_bind_error.1 h with h | ⟨s₁, -, h⟩
      · exact .setprio u prio (by simpa using hr) (runqRequeue_error h)
      · exact absurd h except_pure_error
    · rcases except_bind_error.1 h with h | ⟨s₁, -, h⟩
      · cases h
      · exact absurd h except_pure_error
  · cases r with
    | inactive | unchanged => exact absurd h except_pure_error
    | changed y => cases y <;> exact absurd h except_pure_error

theorem execExitTest_fault {status : ℤ} (h : execExitTest u status s = .error e) :
    Fault l t s (exitTest u status) e := by
  simp only [execExitTest, State.modUthread_uthreads, if_true] at h
  split at h
  · exact absurd h except_pure_error
  · rcases except_bind_error.1 h with h | ⟨-, -, h⟩
    · obtain ⟨hw, rfl⟩ := check_error.1 h
      exact .exitQueue u status hw
    · split at h <;> exact absurd h except_pure_error

theorem execMakeReapable_fault (h : execMakeReapable l t u s = .error e) :
    Fault l t s (makeReapable u) e := by
  rcases except_bind_error.1 h with h | ⟨-, -, h⟩
  · obtain ⟨hm, rfl⟩ := check_error.1 h
    exact .reapableMasked u hm
  split at h
  · exact absurd h except_pure_error
  · rename_i hz
    rcases except_bind_error.1 h with h | ⟨s₁, -, h⟩
    · obtain ⟨rfl, hl⟩ := utqueueEnqueue_error h
      exact .reapableLink u (by simpa using hz) hl
    · split at h <;> exact absurd h except_pure_error

theorem execJoinTest_fault {k : ℕ} (h : execJoinTest t u k s = .error e) :
    Fault l t s (joinTest u k) e := by
  simp only [execJoinTest] at h
  rcases except_bind_error.1 h with h | ⟨-, -, h⟩
  · obtain ⟨hw, rfl⟩ := check_error.1 h
    exact .joinQueue u k hw
  split at h
  · exact absurd h except_pure_error
  split at h
  · exact absurd h except_pure_error
  split at h
  · rcases except_bind_error.1 h with h | ⟨s₁, -, h⟩
    · obtain ⟨rfl, hl⟩ := utqueueEnqueue_error h
      exact .joinLink u k (by simpa using hl)
    · exact absurd h except_pure_error
  · exact absurd h except_pure_error

theorem execDetachTest_fault {k : ℕ} (h : execDetachTest u k s = .error e) :
    Fault l t s (detachTest u k) e := by
  simp only [execDetachTest] at h
  rcases except_bind_error.1 h with h | ⟨-, -, h⟩
  · obtain ⟨hw, rfl⟩ := check_error.1 h
    exact .detachQueue u k hw
  split at h
  · exact absurd h except_pure_error
  split at h
  · exact absurd h except_pure_error
  split at h <;> exact absurd h except_pure_error

theorem execReaperDrain_fault (h : execReaperDrain s = .error e) : Fault l t s reaperDrain e := by
  unfold execReaperDrain at h
  split at h
  · cases h
  · rename_i u s₁ hq
    obtain ⟨x, hx, rfl⟩ := utqueueDequeue_some hq
    rcases except_bind_error.1 h with h | ⟨-, -, h⟩
    · obtain ⟨hz, rfl⟩ := check_error.1 h
      exact .reaperZombie u (by rw [hx]; exact List.mem_cons_self) (by simpa using hz)
    · exact absurd h except_pure_error

theorem execCreateInit_fault {w : CreateStep} {prio : ℤ} (h : execCreateInit w u prio s = .error e) :
    Fault l t s (createInit w u prio) e := by
  unfold execCreateInit at h
  split_ifs at h with hl hp
  · obtain ⟨rfl, hl⟩ := hl
    rw [← Except.error.inj h]
    exact .createLink u prio hl
  · obtain ⟨rfl, hp⟩ := hp
    rw [← Except.error.inj h]
    exact .createMutex u prio hp

theorem execDestroy_fault {d : DestroyStep} (h : execDestroy d u s = .error e) :
    Fault l t s (destroy d u) e := by
  rcases except_bind_error.1 h with h | ⟨-, -, h⟩
  · obtain ⟨hc, rfl⟩ := check_error.1 h
    obtain ⟨rfl, hz⟩ : d = .test ∧ (s.uthreads u).utState ≠ .zombie := by simpa using hc
    exact .destroyZombie u hz
  split_ifs at h with hon ho
  · rw [← Except.error.inj h]
    obtain ⟨rfl, k, hk⟩ := hon
    exact .liveStack u k hk
  · rw [← Except.error.inj h]
    obtain ⟨rfl, ho⟩ := ho
    exact .mutexDestroy u ho

/-- **The list of faults is complete.** -/
theorem exec_fault (hok : Ok t i cs) (h : exec l t ok i s = .error e) : Fault l t s i e := by
  cases i with
  | lock p =>
    rcases except_bind_error.1 h with h | ⟨s₁, -, h⟩
    · unfold pthreadMutexLock at h
      split_ifs at h with hst ho
      · rw [← Except.error.inj h]; exact .lockDestroyed p hst
      · rw [← Except.error.inj h]; exact .lockHeld p ho
    · exact absurd h except_pure_error
  | unlock p =>
    rcases except_bind_error.1 h with h | ⟨s₁, -, h⟩
    · unfold pthreadMutexUnlock at h
      split_ifs at h with hst ho
      · rw [← Except.error.inj h]; exact .unlockDestroyed p hst
      · rw [← Except.error.inj h]; exact .unlockOther p ho.1 ho.2
    · exact absurd h except_pure_error
  | nopreemptOn =>
    rcases except_bind_error.1 h with h | ⟨-, -, h⟩
    · obtain ⟨hc, rfl⟩ := check_error.1 h
      simp only [Bool.or_eq_false_iff, Bool.not_eq_false', decide_eq_false_iff_not, not_not] at hc
      exact .nopreemptOn hc.1 hc.2
    rcases except_bind_error.1 h with h | ⟨-, -, h⟩
    · obtain ⟨hc, rfl⟩ := check_error.1 h
      exact .nopreemptMax (Nat.le_of_not_lt (of_decide_eq_false hc))
    · exact absurd h except_pure_error
  | nopreemptOff =>
    rcases except_bind_error.1 h with h | ⟨-, -, h⟩
    · obtain ⟨hc, rfl⟩ := check_error.1 h
      exact .nopreemptOff (.inl hc)
    rcases except_bind_error.1 h with h | ⟨-, -, h⟩
    · obtain ⟨hc, rfl⟩ := check_error.1 h
      exact .nopreemptOff (.inr (by simpa using hc))
    · simp only at h
      split at h <;> exact absurd h except_pure_error
  | swtch q sv m => exact execSwtch_fault hok h
  | resume =>
    simp only [exec] at h
    split at h
    · rw [← Except.error.inj h]; exact .resume ‹_›
    · cases h
  | yieldAssert =>
    rcases except_bind_error.1 h with h | ⟨-, -, h⟩
    · obtain ⟨hc, rfl⟩ := check_error.1 h
      exact .yieldMasked hc
    rcases except_bind_error.1 h with h | ⟨-, -, h⟩
    · obtain ⟨hc, rfl⟩ := check_error.1 h
      exact .yieldLink (by simpa using hc)
    · exact absurd h except_pure_error
  | interruptLeave =>
    rcases except_bind_error.1 h with h | ⟨-, -, h⟩
    · obtain ⟨hc, rfl⟩ := check_error.1 h
      exact .interruptLeave (.inl (by simpa using hc))
    rcases except_bind_error.1 h with h | ⟨-, -, h⟩
    · obtain ⟨hc, rfl⟩ := check_error.1 h
      exact .interruptLeave (.inr hc)
    · exact absurd h except_pure_error
  | wakeAssert u =>
    rcases except_bind_error.1 h with h | ⟨-, -, h⟩
    · obtain ⟨hc, rfl⟩ := check_error.1 h
      exact .wakeState u (by simpa using hc)
    · exact absurd h except_pure_error
  | wakeTest u =>
    rcases except_bind_error.1 h with h | ⟨s₁, -, h⟩
    · unfold wakeBody at h
      split_ifs at h with hu
      cases runqEnqueue_error h with
      | index h' => exact .wake u hu (.index (by simpa using h'))
      | link h' => exact .wake u hu (.link (by simpa using h'))
    · exact absurd h except_pure_error
  | setprioTest u prio => exact execSetprioTest_fault h
  | startTest u prio =>
    rcases except_bind_error.1 h with h | ⟨s₁, -, h⟩
    · simp only [startBody, State.modUthread_uthreads, if_true] at h
      split_ifs at h with hu
      · cases runqEnqueue_error h with
        | index h' => exact .start u prio hu (.index (by simpa using h'))
        | link h' => exact .start u prio hu (.link (by simpa using h'))
      · rw [← Except.error.inj h]; exact .startState u prio hu
    · exact absurd h except_pure_error
  | lockTest m => simp only [exec, execLockTest] at h; split_ifs at h
  | lockOwned m =>
    rcases except_bind_error.1 h with h | ⟨-, -, h⟩
    · obtain ⟨hc, rfl⟩ := check_error.1 h
      exact .lockOwned m (by simpa using hc)
    · exact absurd h except_pure_error
  | trylockTest m => simp only [exec, execTrylockTest] at h; split_ifs at h
  | unlockTest m => simp only [exec, execUnlockTest] at h; split at h <;> cases h
  | waitMark c => cases h
  | waitDone c =>
    rcases except_bind_error.1 h with h | ⟨-, -, h⟩
    · obtain ⟨hc, rfl⟩ := check_error.1 h
      exact .waitDone c (by simpa using hc)
    · exact absurd h except_pure_error
  | signalTest c => simp only [exec, execSignalTest] at h; split at h <;> cases h
  | broadcastTest c => simp only [exec, execBroadcastTest] at h; split at h <;> cases h
  | allocStart prio => cases h
  | allocScan start prio => simp only [exec, execAllocScan] at h; split at h <;> cases h
  | allocReturn j prio => simp only [exec, execAllocReturn] at h; split at h <;> cases h
  | allocStack tid prio => simp only [exec, execAllocStack] at h; split at h <;> cases h
  | createInit w tid prio => exact execCreateInit_fault h
  | threadStart =>
    rcases except_bind_error.1 h with h | ⟨-, -, h⟩
    · obtain ⟨hc, rfl⟩ := check_error.1 h
      exact .threadStart (by simpa using hc)
    · exact absurd h except_pure_error
  | exitTest u status => exact execExitTest_fault h
  | makeReapable u => exact execMakeReapable_fault h
  | joinTest u k => exact execJoinTest_fault h
  | joinClaim u k => simp only [exec, execJoinClaim] at h; split_ifs at h
  | joinReap u k rv => simp only [exec, execJoinReap] at h; split_ifs at h
  | detachTest u k => exact execDetachTest_fault h
  | detachReap u k => simp only [exec, execDetachReap] at h; split_ifs at h
  | reaperWait => simp only [exec, execReaperWait] at h; split_ifs at h
  | reaperDrain => exact execReaperDrain_fault h
  | destroy d u => exact execDestroy_fault h
  | reaperScan th =>
    simp only [exec, execReaperScan] at h
    split_ifs at h with hth
    rw [← Except.error.inj h]
    exact .exit th (Nat.le_of_not_lt hth)
  | panicDead =>
    rw [← Except.error.inj h]
    exact .panicDead
  | ret r => cases h

end Uthreads
