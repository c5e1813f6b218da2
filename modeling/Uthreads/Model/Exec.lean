import Uthreads.Model.Ops

/-!
# What one instruction does

`exec l t ok i s` executes the instruction `i` of thread `t` on LWP `l`: the new state and the
instructions that go in front of the rest of `t`'s code, or the way the process ends. `ok` is
the outcome of the `malloc` in `alloc_stack`.
-/

namespace Uthreads

variable {N L : ℕ}

open Instr

/-- The state after an instruction and the code it puts in front, or the end of the process. -/
abbrev Result (N L : ℕ) := Except Halt (State N L × Code N)

/-- `assert`. -/
def check (c : Bool) (a : Assertion) : Except Halt Unit :=
  if c then .ok () else .error (.assertion a)

/-- LWP `l` is executing on the stack of `t`. -/
def OnStack (s : State N L) (l : Fin L) (t : Fin N) : Prop :=
  (s.lwps l).mode = .running ∧ (s.lwps l).utCurthr = some t

instance (s : State N L) (l : Fin L) (t : Fin N) : Decidable (OnStack s l t) :=
  inferInstanceAs (Decidable (_ ∧ _))

/-! ## Preemption and switching -/

/-- `INT_MAX`. -/
def intMax : ℕ := 2147483647

/-- `uthread_nopreempt_on`; an `int` that is incremented beyond `intMax` is not positive. -/
def execNopreemptOn (l : Fin L) (t : Fin N) (s : State N L) : Result N L := do
  check (!(s.lwps l).masked || (s.uthreads t).utNoPreemptCount ≠ 0) .nopreemptOn
  let s := s.setLwp l { s.lwps l with masked := true }
  check ((s.uthreads t).utNoPreemptCount < intMax) .nopreemptOn
  pure (s.modUthread t fun u => { u with utNoPreemptCount := u.utNoPreemptCount + 1 }, [])

/-- `uthread_nopreempt_off`. -/
def execNopreemptOff (l : Fin L) (t : Fin N) (s : State N L) : Result N L := do
  check (s.lwps l).masked .nopreemptOff
  check ((s.uthreads t).utNoPreemptCount ≠ 0) .nopreemptOff
  let s := s.modUthread t fun u => { u with utNoPreemptCount := u.utNoPreemptCount - 1 }
  if (s.uthreads t).utNoPreemptCount = 0 then
    pure (s.setLwp l { s.lwps l with masked := false }, [])
  else pure (s, [])

/-- The end of `clock_interrupt`, and the return from the signal handler. -/
def execInterruptLeave (l : Fin L) (t : Fin N) (s : State N L) : Result N L := do
  check ((s.uthreads t).utNoPreemptCount = 1) .clockInterrupt
  check (s.lwps l).masked .clockInterrupt
  let s := s.modUthread t fun u => { u with utNoPreemptCount := 0 }
  pure (s.setLwp l { s.lwps l with masked := false }, [])

/-- `uthread_switch` under `runq_mtx`: a zombie is never saved on the run queue, the context is
saved, and the LWP goes on in `lwp_switch`: it puts `t` on `q` or on the run queue. -/
def execSwtch (l : Fin L) (t : Fin N) (q : Option (QueueId N)) (saveonrq : Bool)
    (m : Option (PmtxId N)) (s : State N L) : Result N L := do
  check (s.lwps l).masked .switchMasked
  check ((s.uthreads t).utNoPreemptCount ≠ 0) .switchCount
  let saveonrq := if (s.uthreads t).utState = .zombie then false else saveonrq
  let s ← match q with
    | none => .ok s
    | some q => utqueueEnqueue q t s
  let s := match q with
    | some (.mWaiters mtx) => s.emit (.queued mtx t)
    | _ => s
  let s ← if saveonrq ∧ (s.uthreads t).utState ≠ .zombie then saveBody t s else .ok s
  match m with
  | some p => pure (s.setLwp l ⟨.unlocking p, some t, true⟩, [])
  | none => pure (s.setLwp l ⟨.searching, none, true⟩, [])

/-! ## The scheduler's functions -/

/-- `uthread_setprio` under `runq_mtx`. -/
def execSetprioTest (t uth : Fin N) (prio : ℤ) (s : State N L) : Result N L := do
  let (s, r) ← setprioBody t uth prio s
  match r with
  | .inactive => pure (s, [unlock .runqMtx, nopreemptOff, ret (.setprio .einval)])
  | .unchanged => pure (s, [unlock .runqMtx, nopreemptOff, ret (.setprio .ok)])
  | .changed true =>
    pure (s, [unlock .runqMtx, nopreemptOff] ++ uthreadYield ++ [ret (.setprio .ok)])
  | .changed false => pure (s, [unlock .runqMtx, nopreemptOff, ret (.setprio .ok)])

/-! ## Mutexes and condition variables -/

/-- `uthread_mtx_lock` under `m_pmut`. -/
def execLockTest (t : Fin N) (mtx : MtxId) (s : State N L) : Result N L :=
  if (s.mtx mtx).mOwner = none then
    .ok ((s.setOwner mtx (some t)).emit (.taken mtx t), [unlock (.mPmut mtx), nopreemptOff])
  else
    .ok (s.setState t .wait,
      uthreadSwitch (some (.mWaiters mtx)) false (some (.mPmut mtx)) ++ [lockOwned mtx, nopreemptOff])

/-- `uthread_mtx_trylock` under `m_pmut`. -/
def execTrylockTest (t : Fin N) (mtx : MtxId) (s : State N L) : Result N L :=
  if (s.mtx mtx).mOwner = none then
    .ok ((s.setOwner mtx (some t)).emit (.taken mtx t),
      [unlock (.mPmut mtx), nopreemptOff, ret (.trylock true)])
  else .ok (s, [unlock (.mPmut mtx), nopreemptOff, ret (.trylock false)])

/-- `uthread_mtx_unlock` under `m_pmut`. -/
def execUnlockTest (t : Fin N) (mtx : MtxId) (s : State N L) : Result N L :=
  match utqueueDequeue (.mWaiters mtx) s with
  | none =>
    .ok ((s.setOwner mtx none).emit (.released mtx t), [unlock (.mPmut mtx), nopreemptOff])
  | some (next, s) =>
    .ok (((s.setOwner mtx (some next)).emit (.released mtx t)).emit (.handed mtx next),
      [unlock (.mPmut mtx)] ++ uthreadWake next ++ [nopreemptOff])

/-- `uthread_cond_signal` under `pmut`. -/
def execSignalTest (t : Fin N) (cond : CondId) (s : State N L) : Result N L :=
  match utqueueDequeue (.ucWaiters cond) s with
  | none => .ok (s, [])
  | some (thr, s) => .ok (s.emit (.waitWoken cond thr t), uthreadWake thr)

/-- One round of the loop of `uthread_cond_broadcast` under `pmut`. -/
def execBroadcastTest (t : Fin N) (cond : CondId) (s : State N L) : Result N L :=
  match utqueueDequeue (.ucWaiters cond) s with
  | none => .ok (s, [])
  | some (waiter, s) =>
    .ok (s.emit (.waitWoken cond waiter t), uthreadWake waiter ++ [broadcastTest cond])

/-! ## Creating threads -/

/-- The scan of `uthread_alloc` under `uthreads_mtx`. -/
def execAllocScan (t : Fin N) (start : ℕ) (prio : ℤ) (s : State N L) : Result N L :=
  match allocWhile (fun i => (s.uthreads i).utState) start with
  | some i =>
    .ok ({ s.setState i .transition with
        prevId := some i
        incarnation := Function.update s.incarnation i (s.incarnation i + 1) }.emit (.alloc t i),
      [unlock .uthreadsMtx, nopreemptOff, allocReturn i prio])
  | none => .ok (s, [unlock .uthreadsMtx, nopreemptOff, ret (.create .eagain none)])

/-- `return (PrevID)` of `uthread_alloc`, and the test for -1 in `uthread_create`. -/
def execAllocReturn (t i : Fin N) (prio : ℤ) (s : State N L) : Result N L :=
  match s.prevId with
  | none => .ok (s.emit (.allocReturned t i none), [ret (.create .eagain none)])
  | some tid => .ok (s.emit (.allocReturned t i (some tid)), [nopreemptOn, allocStack tid prio])

/-- `alloc_stack` after its `uthread_nopreempt_on`, and the test for NULL in `uthread_create`. -/
def execAllocStack (ok : Bool) (tid : Fin N) (prio : ℤ) (s : State N L) : Result N L :=
  if ok then .ok (s, [nopreemptOff, createInit .ctx tid prio])
  else .ok (s, [nopreemptOff, ret (.create .eagain none)])

/-- The slot after a write of `uthread_create`. The context of a thread that an LWP is executing is
in its registers: what is written to `ut_ctx` is lost when it is switched out. -/
def createWrite (tid : Fin N) (s : State N L) : CreateStep → State N L
  | .ctx =>
    if ∃ l, OnStack s l tid then s else s.modUthread tid fun u => { u with utCtx := threadStartCode }
  | .link => s.modUthread tid fun u => { u with utLink := none }
  | .prio => s.modUthread tid fun u => { u with utPrio := -1 }
  | .exit => s.modUthread tid fun u => { u with utExit := 0 }
  | .waiter =>
    (s.modUthread tid fun u => { u with utWaiterInit := true }).setQueue (.utWaiter tid) .init
  | .pmut => s.setPmtx (.utPmut tid) ⟨.live, true, none⟩
  | .count => s.modUthread tid fun u => { u with utNoPreemptCount := 1 }

/-- A write of `uthread_create` from `uthread_makecontext` on. -/
def execCreateInit (w : CreateStep) (tid : Fin N) (prio : ℤ) (s : State N L) : Result N L :=
  if w = .link ∧ (s.uthreads tid).utLink ≠ none then .error (.undefined .brokenRing)
  else if w = .pmut ∧
      ((s.pmtx (.utPmut tid)).status = .live ∨ (s.pmtx (.utPmut tid)).owner ≠ none) then
    .error (.undefined .mutexInit)
  else .ok (createWrite tid s w, createRest tid prio w)

/-! ## Ending threads -/

/-- `uthread_exit` under `reap_mtx` and `ut_pmut`. -/
def execExitTest (uth : Fin N) (status : ℤ) (s : State N L) : Result N L := do
  let s := s.modUthread uth fun u => { u with utState := .zombie, utExit := status }
  let dead := uthreadSwitch none false (some (.utPmut uth)) ++ [panicDead]
  if (s.uthreads uth).utDetached then pure (s, [makeReapable uth] ++ dead)
  else
    check (s.uthreads uth).utWaiterInit .queueEmpty
    match utqueueDequeue (.utWaiter uth) s with
    | none => pure (s, uthreadMtxUnlock .reapMtx ++ dead)
    | some (waiter, s) => pure (s, uthreadWake waiter ++ uthreadMtxUnlock .reapMtx ++ dead)

/-- `make_reapable`, called by `t` with `reap_mtx` and `ut_pmut` held. -/
def execMakeReapable (l : Fin L) (t uth : Fin N) (s : State N L) : Result N L := do
  check (s.lwps l).masked .makeReapable
  if (s.uthreads uth).utState ≠ .zombie then
    pure (s, [unlock (.utPmut uth)] ++ uthreadMtxUnlock .reapMtx)
  else
    let s ← utqueueEnqueue .reapQueue uth s
    let s := s.emit (.reapQueued uth (s.incarnation uth))
    let unlocks := uthreadCondSignal .reapCond ++ [unlock (.utPmut uth)] ++ uthreadMtxUnlock .reapMtx
    if uth = t then pure (s, unlocks ++ uthreadSwitch none false none ++ [panicDead])
    else pure (s, unlocks)

/-- The tests of `uthread_join` under `ut_pmut`. -/
def execJoinTest (t uth : Fin N) (k : ℕ) (s : State N L) : Result N L := do
  let s := { s with tested := Function.update s.tested uth (s.tested uth + 1) }
  let einval := [unlock (.utPmut uth), nopreemptOff, ret (.join uth k .einval none)]
  check (s.uthreads uth).utWaiterInit .queueEmpty
  if ¬ (s.queues (.utWaiter uth)).empty then pure (s, einval)
  else if (s.uthreads uth).utDetached then pure (s, einval)
  else if (s.uthreads uth).utState ≠ .zombie then
    let s ← utqueueEnqueue (.utWaiter uth) t (s.setState t .wait)
    pure (s, uthreadSwitch none false (some (.utPmut uth)) ++ [lock (.utPmut uth), joinClaim uth k])
  else pure (s, [joinClaim uth k])

/-- `uthread_join` with the target terminated: the exit value is read, the target is marked
detached. -/
def execJoinClaim (uth : Fin N) (k : ℕ) (s : State N L) : Result N L :=
  if (s.uthreads uth).utState ≠ .zombie then
    .ok (s, [unlock (.utPmut uth), nopreemptOff, ret (.join uth k .einval none)])
  else
    .ok (s.modUthread uth fun u => { u with utDetached := true },
      [unlock (.utPmut uth)] ++ uthreadMtxLock .reapMtx ++
        [lock (.utPmut uth), joinReap uth k (s.uthreads uth).utExit])

/-- `uthread_join` with `reap_mtx` and, again, `ut_pmut` held. -/
def execJoinReap (uth : Fin N) (k : ℕ) (rv : ℤ) (s : State N L) : Result N L :=
  if (s.uthreads uth).utState ≠ .zombie then
    .ok (s, [unlock (.utPmut uth)] ++ uthreadMtxUnlock .reapMtx ++
      [nopreemptOff, ret (.join uth k .ok (some rv))])
  else .ok (s, [makeReapable uth, nopreemptOff, ret (.join uth k .ok (some rv))])

/-- The tests of `uthread_detach` under `ut_pmut`. -/
def execDetachTest (uth : Fin N) (k : ℕ) (s : State N L) : Result N L := do
  let s := { s with tested := Function.update s.tested uth (s.tested uth + 1) }
  let einval := [unlock (.utPmut uth), nopreemptOff, ret (.detach uth k .einval)]
  check (s.uthreads uth).utWaiterInit .queueEmpty
  if ¬ (s.queues (.utWaiter uth)).empty then pure (s, einval)
  else if (s.uthreads uth).utDetached then pure (s, einval)
  else
    let s := s.modUthread uth fun u => { u with utDetached := true }
    if (s.uthreads uth).utState = .zombie then
      pure (s, uthreadMtxLock .reapMtx ++ [detachReap uth k])
    else pure (s, [unlock (.utPmut uth), nopreemptOff, ret (.detach uth k .ok)])

/-- `uthread_detach` of a zombie with `ut_pmut` and `reap_mtx` held. -/
def execDetachReap (uth : Fin N) (k : ℕ) (s : State N L) : Result N L :=
  if (s.uthreads uth).utState ≠ .zombie then
    .ok (s, [unlock (.utPmut uth)] ++ uthreadMtxUnlock .reapMtx ++
      [nopreemptOff, ret (.detach uth k .ok)])
  else .ok (s, [makeReapable uth, nopreemptOff, ret (.detach uth k .ok)])

/-! ## The reaper -/

/-- The test of the reaper's first inner loop. -/
def execReaperWait (s : State N L) : Result N L :=
  if (s.queues .reapQueue).empty then
    .ok (s, uthreadCondWait .reapCond .reapMtx ++ [reaperWait])
  else .ok (s, [reaperDrain])

/-- The test of the reaper's second inner loop, and the start of its body. -/
def execReaperDrain (s : State N L) : Result N L :=
  match utqueueDequeue .reapQueue s with
  | none => .ok (s, [reaperScan 0])
  | some (thread, s) => do
    check ((s.uthreads thread).utState = .zombie) .reaperZombie
    pure (s, [lock (.utPmut thread), unlock (.utPmut thread), destroy .test thread, reaperDrain])

/-- The slot after a step of `uthread_destroy`. -/
def destroyWrite (uth : Fin N) (s : State N L) : DestroyStep → State N L
  | .test | .stack => s
  | .detached => s.modUthread uth fun u => { u with utDetached := false }
  | .exit => s.modUthread uth fun u => { u with utExit := 0 }
  | .waiter => s.setQueue (.utWaiter uth) .init
  | .pmut => s.setPmtx (.utPmut uth) { s.pmtx (.utPmut uth) with status := .destroyed }
  | .state =>
    { s.setState uth .noState with tested := Function.update s.tested uth 0 }.emit (.destroyed uth)

/-- A step of `uthread_destroy`. -/
def execDestroy (d : DestroyStep) (uth : Fin N) (s : State N L) : Result N L := do
  check (d ≠ .test ∨ (s.uthreads uth).utState = .zombie) .destroyZombie
  if d = .stack ∧ ∃ l, OnStack s l uth then .error (.undefined .liveStack)
  else if d = .pmut ∧ (s.pmtx (.utPmut uth)).owner ≠ none then .error (.undefined .mutexDestroy)
  else .ok (destroyWrite uth s d, destroyRest uth d)

/-- One round of the reaper's scan of the table. -/
def execReaperScan (th : ℕ) (s : State N L) : Result N L :=
  if h : th < N then
    if ⟨th, h⟩ ≠ s.reaperThrId ∧ (s.uthreads ⟨th, h⟩).utState ≠ .noState then .ok (s, [reaperWait])
    else .ok (s, [reaperScan (th + 1)])
  else .error .exit0

/-! ## All instructions -/

/-- Thread `t` on LWP `l` executes the instruction. -/
def exec (l : Fin L) (t : Fin N) (ok : Bool) (i : Instr N) (s : State N L) : Result N L :=
  match i with
  | lock p => do pure (← pthreadMutexLock l p s, [])
  | unlock p => do pure (← pthreadMutexUnlock l p s, [])
  | nopreemptOn => execNopreemptOn l t s
  | nopreemptOff => execNopreemptOff l t s
  | swtch q saveonrq m => execSwtch l t q saveonrq m s
  | resume => if (s.uthreads t).utState = .zombie then .error (.panic .deadThread) else .ok (s, [])
  | yieldAssert => do
    check (s.lwps l).masked .yieldMasked
    check ((s.uthreads t).utLink = none) .yieldLink
    pure (s, [])
  | interruptLeave => execInterruptLeave l t s
  | wakeAssert uthr => do
    check ((s.uthreads uthr).utState ≠ .noState) .wakeState
    pure (s, [])
  | wakeTest uthr => do pure (← wakeBody uthr s, [])
  | setprioTest uth prio => execSetprioTest t uth prio s
  | startTest uth prio => do pure (← startBody uth prio s, [])
  | lockTest mtx => execLockTest t mtx s
  | lockOwned mtx => do
    check ((s.mtx mtx).mOwner = some t) .mtxOwner
    pure (s.emit (.acquired mtx t), [])
  | trylockTest mtx => execTrylockTest t mtx s
  | unlockTest mtx => execUnlockTest t mtx s
  | waitMark cond => .ok ((s.setState t .wait).emit (.waitBegun cond t), [])
  | waitDone cond => do
    check ((s.uthreads t).utLink = none) .condLink
    pure (s.emit (.waitReturned cond t), [])
  | signalTest cond => execSignalTest t cond s
  | broadcastTest cond => execBroadcastTest t cond s
  | allocStart prio =>
    .ok (s, [nopreemptOn, lock .uthreadsMtx, allocScan (allocFrom s.prevId) prio])
  | allocScan start prio => execAllocScan t start prio s
  | allocReturn i prio => execAllocReturn t i prio s
  | allocStack tid prio => execAllocStack ok tid prio s
  | createInit w tid prio => execCreateInit w tid prio s
  | threadStart => do
    check (!(s.lwps l).masked) .threadStart
    pure (s, [])
  | exitTest uth status => execExitTest uth status s
  | makeReapable uth => execMakeReapable l t uth s
  | joinTest uth k => execJoinTest t uth k s
  | joinClaim uth k => execJoinClaim uth k s
  | joinReap uth k rv => execJoinReap uth k rv s
  | detachTest uth k => execDetachTest uth k s
  | detachReap uth k => execDetachReap uth k s
  | reaperWait => execReaperWait s
  | reaperDrain => execReaperDrain s
  | destroy d uth => execDestroy d uth s
  | reaperScan th => execReaperScan th s
  | panicDead => .error (.panic .deadThread)
  | ret r => .ok (s.emit (.returned t r), [])

end Uthreads
