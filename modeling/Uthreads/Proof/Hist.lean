import Uthreads.Proof.Effect

/-!
# What an instruction records

`Effect` leaves the history out. `Hist t s i s'` says what the successful execution of an
instruction does to the log, to `PrevID` and to the counters of the history; `exec_hist` is the
lemma.
-/

namespace Uthreads

variable {N L : ℕ}

open Instr

/-- The events of an instruction. -/
def logOf (s : State N L) (t : Fin N) : Instr N → List (Event N)
  | swtch (some (.mWaiters m)) _ _ => [.queued m t]
  | lockTest m | trylockTest m => if (s.mtx m).mOwner = none then [.taken m t] else []
  | lockOwned m => [.acquired m t]
  | unlockTest m => .released m t :: ((s.queues (.mWaiters m)).tqWaiters.head?.map (.handed m)).toList
  | waitMark c => [.waitBegun c t]
  | waitDone c => [.waitReturned c t]
  | signalTest c | broadcastTest c =>
    ((s.queues (.ucWaiters c)).tqWaiters.head?.map fun u => .waitWoken c u t).toList
  | allocScan start _ => ((allocWhile (fun i => (s.uthreads i).utState) start).map (.alloc t)).toList
  | allocReturn i _ => [.allocReturned t i s.prevId]
  | makeReapable u =>
    if (s.uthreads u).utState = .zombie then [.reapQueued u (s.incarnation u)] else []
  | destroy .state u => [.destroyed u]
  | ret r => [.returned t r]
  | _ => []

/-- `PrevID` after an instruction. -/
def prevIdOf (s : State N L) : Instr N → Option (Fin N)
  | allocScan start _ =>
    (allocWhile (fun i => (s.uthreads i).utState) start).or s.prevId
  | _ => s.prevId

/-- The incarnations after an instruction. -/
def incarnationOf (s : State N L) : Instr N → Fin N → ℕ
  | allocScan start _, u =>
    if allocWhile (fun i => (s.uthreads i).utState) start = some u then s.incarnation u + 1
    else s.incarnation u
  | _, u => s.incarnation u

/-- The calls that have looked at a slot, after an instruction. -/
def testedOf (s : State N L) : Instr N → Fin N → ℕ
  | joinTest v _, u | detachTest v _, u => if u = v then s.tested u + 1 else s.tested u
  | destroy .state v, u => if u = v then 0 else s.tested u
  | _, u => s.tested u

/-- What a successful instruction of `t` records. -/
structure Hist (t : Fin N) (s : State N L) (i : Instr N) (s' : State N L) : Prop where
  log : s'.log = s.log ++ logOf s t i
  prevId : s'.prevId = prevIdOf s i
  incarnation : ∀ u, s'.incarnation u = incarnationOf s i u
  tested : ∀ u, s'.tested u = testedOf s i u
  reaperThrId : s'.reaperThrId = s.reaperThrId

/-- The history is the same. -/
structure SameHist (s s' : State N L) : Prop where
  log : s'.log = s.log
  prevId : s'.prevId = s.prevId
  incarnation : s'.incarnation = s.incarnation
  tested : s'.tested = s.tested
  reaperThrId : s'.reaperThrId = s.reaperThrId

theorem SameHist.rfl {s : State N L} : SameHist s s := by constructor <;> exact Eq.refl _

theorem SameRest.sameHist {s s' : State N L} (h : SameRest s s') : SameHist s s' :=
  ⟨h.log, h.prevId, h.incarnation, h.tested, h.reaperThrId⟩

variable {s s' s₁ : State N L} {l : Fin L} {t : Fin N} {i : Instr N} {cs new : Code N} {ok : Bool}

/-- An instruction that records nothing. -/
theorem SameHist.hist (h : SameHist s s') (hlog : logOf s t i = [])
    (hp : prevIdOf s i = s.prevId) (hi : ∀ u, incarnationOf s i u = s.incarnation u)
    (ht : ∀ u, testedOf s i u = s.tested u) : Hist t s i s' :=
  ⟨by rw [h.log, hlog, List.append_nil], by rw [h.prevId, hp], fun u => by rw [h.incarnation, hi],
    fun u => by rw [h.tested, ht], h.reaperThrId⟩

theorem sameHist_enqueue {q : QueueId N} (h : utqueueEnqueue q t s = .ok s') : SameHist s s' := by
  obtain ⟨-, rfl⟩ := utqueueEnqueue_ok h
  constructor <;> rfl

theorem sameHist_dequeue {q : QueueId N} (h : utqueueDequeue q s = some (t, s')) :
    SameHist s s' := by
  obtain ⟨x, -, rfl⟩ := utqueueDequeue_some h
  constructor <;> rfl

theorem sameHist_runqEnqueue (h : uthreadRunqEnqueue t s = .ok s') : SameHist s s' := by
  obtain ⟨-, -, -, -, -, -, hr⟩ := runqEnqueue_ok h
  exact hr.sameHist

theorem sameHist_requeue {oldprio : ℤ} (h : uthreadRunqRequeue t oldprio s = .ok s') :
    SameHist s s' := by
  obtain ⟨p, p', -, -, hm, rfl⟩ := runqRequeue_ok h
  constructor <;> rfl

/-- The head of a queue that `utqueue_dequeue` returns. -/
theorem head_dequeue {q : QueueId N} (h : utqueueDequeue q s = some (t, s')) :
    (s.queues q).tqWaiters.head? = some t := by
  obtain ⟨x, hx, -⟩ := utqueueDequeue_some h
  simp [hx]

theorem hist_switch {q : Option (QueueId N)} {saveonrq : Bool} {m : Option (PmtxId N)}
    (hok : OkSwitch t q saveonrq m cs) (h : execSwtch l t q saveonrq m s = .ok (s', new)) :
    Hist t s (swtch q saveonrq m) s' := by
  unfold execSwtch at h
  cases hok with
  | yield =>
    by_cases hz : (s.uthreads t).utState = .zombie
    · simp [hz] at h
      obtain ⟨-, -, rfl, -⟩ := h
      constructor <;> simp [logOf, prevIdOf, incarnationOf, testedOf]
    · simp [hz] at h
      obtain ⟨-, -, s₁, hs₁, rfl, -⟩ := h
      have h₁ := sameHist_runqEnqueue (s := s.setState t .runnable) hs₁
      exact SameHist.hist ⟨h₁.log, h₁.prevId, h₁.incarnation, h₁.tested, h₁.reaperThrId⟩ rfl rfl
        (fun _ => rfl) fun _ => rfl
  | mutex =>
    simp at h
    obtain ⟨-, -, s₁, hs₁, rfl, -⟩ := h
    have h₁ := sameHist_enqueue hs₁
    exact ⟨by simp [h₁.log, logOf], h₁.prevId, fun u => congrFun h₁.incarnation u,
      fun u => congrFun h₁.tested u, h₁.reaperThrId⟩
  | cond =>
    simp at h
    obtain ⟨-, -, s₁, hs₁, rfl, -⟩ := h
    have h₁ := sameHist_enqueue hs₁
    exact SameHist.hist ⟨h₁.log, h₁.prevId, h₁.incarnation, h₁.tested, h₁.reaperThrId⟩ rfl rfl
      (fun _ => rfl) fun _ => rfl
  | join | exit | reaped =>
    simp at h
    obtain ⟨-, -, rfl, -⟩ := h
    constructor <;> simp [logOf, prevIdOf, incarnationOf, testedOf]

/-- **The history of an instruction.** -/
theorem exec_hist (hok : Ok t i cs) (h : exec l t ok i s = .ok (s', new)) : Hist t s i s' := by
  cases i with
  | lock p | unlock p =>
    obtain ⟨s₁, hp, h⟩ := except_bind_ok.1 h
    simp only [except_pure_ok, Prod.mk.injEq] at h
    obtain ⟨rfl, -⟩ := h
    simp only [pthreadMutexLock, pthreadMutexUnlock] at hp
    split_ifs at hp
    rw [← Except.ok.inj hp]
    constructor <;> simp [logOf, prevIdOf, incarnationOf, testedOf]
  | swtch q sv m => exact hist_switch hok h
  | nopreemptOn =>
    simp only [exec, execNopreemptOn, except_bind_ok, check_ok, except_pure_ok, Prod.mk.injEq] at h
    obtain ⟨-, -, -, -, rfl, rfl⟩ := h
    constructor <;> simp [logOf, prevIdOf, incarnationOf, testedOf]
  | nopreemptOff =>
    simp only [exec, execNopreemptOff, except_bind_ok, check_ok, State.modUthread_uthreads,
      if_true] at h
    obtain ⟨-, hm, -, hc, h⟩ := h
    split at h <;> simp only [except_pure_ok, Prod.mk.injEq] at h <;> obtain ⟨rfl, rfl⟩ := h <;>
      constructor <;> simp [logOf, prevIdOf, incarnationOf, testedOf]
  | interruptLeave =>
    simp only [exec, execInterruptLeave, except_bind_ok, check_ok,
      except_pure_ok, Prod.mk.injEq] at h
    obtain ⟨-, -, -, hc, rfl, rfl⟩ := h
    constructor <;> simp [logOf, prevIdOf, incarnationOf, testedOf]
  | wakeTest u =>
    simp only [exec, except_bind_ok, except_pure_ok, Prod.mk.injEq] at h
    obtain ⟨s₁, hw, rfl, rfl⟩ := h
    unfold wakeBody at hw
    split at hw
    · have h₁ := sameHist_runqEnqueue hw
      exact SameHist.hist ⟨h₁.log, h₁.prevId, h₁.incarnation, h₁.tested, h₁.reaperThrId⟩ rfl rfl
        (fun _ => rfl) fun _ => rfl
    · rw [← Except.ok.inj hw]
      constructor <;> simp [logOf, prevIdOf, incarnationOf, testedOf]
  | startTest u prio =>
    simp only [exec, except_bind_ok, except_pure_ok, Prod.mk.injEq, startBody] at h
    obtain ⟨s₁, hw, rfl, rfl⟩ := h
    split at hw
    · have h₁ := sameHist_runqEnqueue hw
      exact SameHist.hist ⟨h₁.log, h₁.prevId, h₁.incarnation, h₁.tested, h₁.reaperThrId⟩ rfl rfl
        (fun _ => rfl) fun _ => rfl
    · cases hw
  | setprioTest u prio =>
    refine SameHist.hist ?_ rfl rfl (fun _ => rfl) fun _ => rfl
    obtain ⟨⟨s₁, r⟩, hb, h⟩ := except_bind_ok.1 h
    have hs' : s' = s₁ := by
      cases r with
      | inactive | unchanged =>
        simp only [except_pure_ok, Prod.mk.injEq] at h
        exact h.1.symm
      | changed y =>
        cases y <;> simp only [except_pure_ok, Prod.mk.injEq] at h <;> exact h.1.symm
    subst hs'
    unfold setprioBody at hb
    split at hb
    · simp only [Except.ok.injEq, Prod.mk.injEq] at hb
      exact hb.1 ▸ .rfl
    split at hb
    · simp only [Except.ok.injEq, Prod.mk.injEq] at hb
      exact hb.1 ▸ .rfl
    simp only [State.modUthread_uthreads, if_true] at hb
    split at hb <;> obtain ⟨s₂, hb₂, hb⟩ := except_bind_ok.1 hb <;>
      simp only [except_pure_ok, Prod.mk.injEq] at hb <;> obtain ⟨rfl, -⟩ := hb
    · have h₁ := sameHist_requeue hb₂
      exact ⟨h₁.log, h₁.prevId, h₁.incarnation, h₁.tested, h₁.reaperThrId⟩
    · rw [← Except.ok.inj hb₂]
      constructor <;> rfl
  | lockTest m | trylockTest m =>
    simp only [exec, execLockTest, execTrylockTest] at h
    split at h <;> rename_i ho <;> simp only [Except.ok.injEq, Prod.mk.injEq] at h <;>
      obtain ⟨rfl, rfl⟩ := h <;>
      constructor <;> simp [logOf, prevIdOf, incarnationOf, testedOf, ho]
  | resume =>
    simp only [exec] at h
    split_ifs at h with hz
    simp only [Except.ok.injEq, Prod.mk.injEq] at h
    obtain ⟨rfl, rfl⟩ := h
    constructor <;> simp [logOf, prevIdOf, incarnationOf, testedOf]
  | yieldAssert =>
    simp only [exec, except_bind_ok, check_ok, except_pure_ok, Prod.mk.injEq] at h
    obtain ⟨-, -, -, -, rfl, rfl⟩ := h
    constructor <;> simp [logOf, prevIdOf, incarnationOf, testedOf]
  | wakeAssert | lockOwned | waitDone | threadStart =>
    simp only [exec, except_bind_ok, check_ok, except_pure_ok, Prod.mk.injEq] at h
    obtain ⟨-, -, rfl, rfl⟩ := h
    constructor <;> simp [logOf, prevIdOf, incarnationOf, testedOf]
  | unlockTest m =>
    simp only [exec, execUnlockTest] at h
    split at h
    · rename_i hq
      simp only [Except.ok.injEq, Prod.mk.injEq] at h
      obtain ⟨rfl, rfl⟩ := h
      constructor <;> simp [logOf, prevIdOf, incarnationOf, testedOf, utqueueDequeue_none.1 hq]
    · rename_i u s₁ hq
      simp only [Except.ok.injEq, Prod.mk.injEq] at h
      obtain ⟨rfl, rfl⟩ := h
      have h₁ := sameHist_dequeue hq
      exact ⟨by simp [h₁.log, logOf, head_dequeue hq], h₁.prevId, fun u => congrFun h₁.incarnation u,
        fun u => congrFun h₁.tested u, h₁.reaperThrId⟩
  | waitMark | allocStart | ret =>
    simp only [exec, Except.ok.injEq, Prod.mk.injEq] at h
    obtain ⟨rfl, rfl⟩ := h
    constructor <;> simp [logOf, prevIdOf, incarnationOf, testedOf]
  | signalTest c | broadcastTest c =>
    simp only [exec, execSignalTest, execBroadcastTest] at h
    split at h
    · rename_i hq
      simp only [Except.ok.injEq, Prod.mk.injEq] at h
      obtain ⟨rfl, rfl⟩ := h
      constructor <;> simp [logOf, prevIdOf, incarnationOf, testedOf, utqueueDequeue_none.1 hq]
    · rename_i u s₁ hq
      simp only [Except.ok.injEq, Prod.mk.injEq] at h
      obtain ⟨rfl, rfl⟩ := h
      have h₁ := sameHist_dequeue hq
      exact ⟨by simp [h₁.log, logOf, head_dequeue hq], h₁.prevId, fun u => congrFun h₁.incarnation u,
        fun u => congrFun h₁.tested u, h₁.reaperThrId⟩
  | allocScan start prio =>
    simp only [exec, execAllocScan] at h
    split at h <;> rename_i hj <;> simp only [Except.ok.injEq, Prod.mk.injEq] at h <;>
      obtain ⟨rfl, rfl⟩ := h
    · rename_i j
      refine ⟨by simp [logOf, hj], by simp [prevIdOf, hj], fun u => ?_, fun u => rfl, rfl⟩
      simp only [State.emit_incarnation, Function.update_apply, incarnationOf, hj, Option.some.injEq]
      by_cases hu : u = j
      · subst hu; simp
      · simp [hu, Ne.symm hu]
    · constructor <;> simp [logOf, prevIdOf, incarnationOf, testedOf, hj]
  | allocReturn j prio =>
    simp only [exec, execAllocReturn] at h
    split at h <;> rename_i hp <;> simp only [Except.ok.injEq, Prod.mk.injEq] at h <;>
      obtain ⟨rfl, rfl⟩ := h <;>
      constructor <;> simp [logOf, prevIdOf, incarnationOf, testedOf, hp]
  | allocStack tid prio =>
    simp only [exec, execAllocStack] at h
    split at h <;> simp only [Except.ok.injEq, Prod.mk.injEq] at h <;> obtain ⟨rfl, rfl⟩ := h <;>
      constructor <;> simp [logOf, prevIdOf, incarnationOf, testedOf]
  | createInit w tid prio =>
    simp only [exec, execCreateInit] at h
    split_ifs at h
    simp only [Except.ok.injEq, Prod.mk.injEq] at h
    obtain ⟨rfl, rfl⟩ := h
    have h₁ := (createWrite_rest s tid w).1
    exact SameHist.hist ⟨h₁.log, h₁.prevId, h₁.incarnation, h₁.tested, h₁.reaperThrId⟩ rfl rfl
      (fun _ => rfl) fun _ => rfl
  | exitTest u status =>
    simp only [exec, execExitTest, State.modUthread_uthreads, if_true] at h
    split at h
    · simp only [except_pure_ok, Prod.mk.injEq] at h
      obtain ⟨rfl, rfl⟩ := h
      constructor <;> simp [logOf, prevIdOf, incarnationOf, testedOf]
    · obtain ⟨-, -, h⟩ := except_bind_ok.1 h
      split at h
      · simp only [except_pure_ok, Prod.mk.injEq] at h
        obtain ⟨rfl, rfl⟩ := h
        constructor <;> simp [logOf, prevIdOf, incarnationOf, testedOf]
      · rename_i w s₁ hq
        simp only [except_pure_ok, Prod.mk.injEq] at h
        obtain ⟨rfl, rfl⟩ := h
        have h₁ := sameHist_dequeue hq
        exact SameHist.hist ⟨h₁.log, h₁.prevId, h₁.incarnation, h₁.tested, h₁.reaperThrId⟩ rfl rfl
          (fun _ => rfl) fun _ => rfl
  | makeReapable u =>
    obtain ⟨-, -, h⟩ := except_bind_ok.1 h
    split at h
    · rename_i hz
      simp only [except_pure_ok, Prod.mk.injEq] at h
      obtain ⟨rfl, rfl⟩ := h
      constructor <;> simp [logOf, prevIdOf, incarnationOf, testedOf, hz]
    · rename_i hz
      obtain ⟨s₁, hs₁, h⟩ := except_bind_ok.1 h
      have h₁ := sameHist_enqueue hs₁
      split at h <;> simp only [except_pure_ok, Prod.mk.injEq] at h <;> obtain ⟨rfl, -⟩ := h <;>
        exact ⟨by simp [logOf, not_not.1 hz, h₁.log, h₁.incarnation], h₁.prevId,
          fun u => congrFun h₁.incarnation u, fun u => congrFun h₁.tested u, h₁.reaperThrId⟩
  | joinTest u k =>
    simp only [exec, execJoinTest] at h
    obtain ⟨-, -, h⟩ := except_bind_ok.1 h
    have hcall : s'.log = s.log ∧ s'.prevId = s.prevId ∧ s'.incarnation = s.incarnation ∧
        s'.tested = Function.update s.tested u (s.tested u + 1) ∧ s'.reaperThrId = s.reaperThrId := by
      split at h
      · simp only [except_pure_ok, Prod.mk.injEq] at h
        exact h.1 ▸ by simp
      split at h
      · simp only [except_pure_ok, Prod.mk.injEq] at h
        exact h.1 ▸ by simp
      split at h
      · obtain ⟨s₁, hs₁, h⟩ := except_bind_ok.1 h
        simp only [except_pure_ok, Prod.mk.injEq] at h
        have h₁ := sameHist_enqueue hs₁
        exact h.1 ▸ ⟨h₁.log, h₁.prevId, h₁.incarnation, h₁.tested, h₁.reaperThrId⟩
      · simp only [except_pure_ok, Prod.mk.injEq] at h
        exact h.1 ▸ by simp
    obtain ⟨hl, hp, hi, ht, hr⟩ := hcall
    exact ⟨by simp [hl, logOf], hp, fun v => by rw [hi]; rfl,
      fun v => by simp only [ht, Function.update_apply, testedOf]; split <;> simp_all, hr⟩
  | detachTest u k =>
    simp only [exec, execDetachTest] at h
    obtain ⟨-, -, h⟩ := except_bind_ok.1 h
    have hcall : s'.log = s.log ∧ s'.prevId = s.prevId ∧ s'.incarnation = s.incarnation ∧
        s'.tested = Function.update s.tested u (s.tested u + 1) ∧ s'.reaperThrId = s.reaperThrId := by
      split at h
      · simp only [except_pure_ok, Prod.mk.injEq] at h
        exact h.1 ▸ by simp
      split at h
      · simp only [except_pure_ok, Prod.mk.injEq] at h
        exact h.1 ▸ by simp
      split at h <;> simp only [except_pure_ok, Prod.mk.injEq] at h <;> exact h.1 ▸ by simp
    obtain ⟨hl, hp, hi, ht, hr⟩ := hcall
    exact ⟨by simp [hl, logOf], hp, fun v => by rw [hi]; rfl,
      fun v => by simp only [ht, Function.update_apply, testedOf]; split <;> simp_all, hr⟩
  | joinClaim | joinReap | detachReap | reaperWait | reaperScan =>
    simp only [exec, execJoinClaim, execJoinReap, execDetachReap, execReaperWait,
      execReaperScan] at h
    split_ifs at h <;> simp only [Except.ok.injEq, Prod.mk.injEq] at h <;> obtain ⟨rfl, rfl⟩ := h <;>
      constructor <;> simp [logOf, prevIdOf, incarnationOf, testedOf]
  | reaperDrain =>
    simp only [exec, execReaperDrain] at h
    split at h
    · simp only [Except.ok.injEq, Prod.mk.injEq] at h
      obtain ⟨rfl, rfl⟩ := h
      constructor <;> simp [logOf, prevIdOf, incarnationOf, testedOf]
    · rename_i u s₁ hq
      obtain ⟨_, hz, h⟩ := except_bind_ok.1 h
      simp only [except_pure_ok, Prod.mk.injEq] at h
      obtain ⟨rfl, rfl⟩ := h
      exact (sameHist_dequeue hq).hist rfl rfl (fun _ => rfl) fun _ => rfl
  | destroy d u =>
    obtain ⟨_, -, h⟩ := except_bind_ok.1 h
    split_ifs at h
    simp only [Except.ok.injEq, Prod.mk.injEq] at h
    obtain ⟨rfl, rfl⟩ := h
    cases d with
    | state =>
      refine ⟨rfl, rfl, fun v => rfl, fun v => ?_, rfl⟩
      simp only [destroyWrite, State.emit_tested, Function.update_apply, testedOf]
    | _ => exact SameHist.hist (by constructor <;> rfl) rfl rfl (fun _ => rfl) fun _ => rfl
  | panicDead => cases h

end Uthreads
