import Uthreads.Model.State

/-!
# The functions of the library as code

Each C function is the list of the instructions it executes up to the point where a test of
shared data decides how it goes on; that instruction (`lockTest`, `joinTest`, ..., executed by
`exec`) then puts the chosen branch in front of the rest. A nested call is the callee's list.
-/

namespace Uthreads

variable {N : ℕ}

open Instr

/-- `uthread_switch`: lock `runq_mtx`, save the context, go to the LWP's. -/
def uthreadSwitch (q : Option (QueueId N)) (saveonrq : Bool) (m : Option (PmtxId N)) : Code N :=
  [lock .runqMtx, swtch q saveonrq m, resume]

/-- `uthread_yield`. -/
def uthreadYield : Code N :=
  [nopreemptOn, yieldAssert] ++ uthreadSwitch none true none ++ [nopreemptOff]

/-- `clock_interrupt`, the handler of `SIGVTALRM`, from its call of `uthread_yield` on. -/
def clockInterrupt : Code N := uthreadYield ++ [interruptLeave]

/-- `uthread_wake`. -/
def uthreadWake (uthr : Fin N) : Code N :=
  [wakeAssert uthr, nopreemptOn, lock .runqMtx, wakeTest uthr, unlock .runqMtx, nopreemptOff]

/-- `uthread_startonrunq`. -/
def uthreadStartonrunq (tid : Fin N) (prio : ℤ) : Code N :=
  [nopreemptOn, lock .runqMtx, startTest tid prio, unlock .runqMtx, nopreemptOff]

/-- `uthread_mtx_lock`. -/
def uthreadMtxLock (mtx : MtxId) : Code N := [nopreemptOn, lock (.mPmut mtx), lockTest mtx]

/-- `uthread_mtx_trylock`. -/
def uthreadMtxTrylock (mtx : MtxId) : Code N := [nopreemptOn, lock (.mPmut mtx), trylockTest mtx]

/-- `uthread_mtx_unlock`. -/
def uthreadMtxUnlock (mtx : MtxId) : Code N := [nopreemptOn, lock (.mPmut mtx), unlockTest mtx]

/-- `uthread_cond_wait`. -/
def uthreadCondWait (cond : CondId) (mtx : MtxId) : Code N :=
  [nopreemptOn, lock (.cPmut cond)] ++ uthreadMtxUnlock mtx ++ [waitMark cond] ++
    uthreadSwitch (some (.ucWaiters cond)) false (some (.cPmut cond)) ++ [nopreemptOff] ++
    uthreadMtxLock mtx ++ [nopreemptOn, waitDone cond, nopreemptOff]

/-- `uthread_cond_broadcast`; `broadcastTest` is the test of its loop. -/
def uthreadCondBroadcast (cond : CondId) : Code N :=
  [nopreemptOn, lock (.cPmut cond), broadcastTest cond, unlock (.cPmut cond), nopreemptOff]

/-- `uthread_cond_signal`. -/
def uthreadCondSignal (cond : CondId) : Code N :=
  [nopreemptOn, lock (.cPmut cond), signalTest cond, unlock (.cPmut cond), nopreemptOff]

/-- `uthread_create`; it starts with `uthread_alloc`. -/
def uthreadCreate (prio : ℤ) : Code N := [allocStart prio]

/-- `uthread_create` after a write to the slot. -/
def createRest (tid : Fin N) (prio : ℤ) : CreateStep → Code N
  | .ctx => [createInit .link tid prio]
  | .link => [createInit .prio tid prio]
  | .prio => [createInit .exit tid prio]
  | .exit => [createInit .waiter tid prio]
  | .waiter => [createInit .pmut tid prio]
  | .pmut => [createInit .count tid prio]
  | .count => uthreadStartonrunq tid prio ++ [ret (.create .ok (some tid))]

/-- `uthread_destroy` after one of its steps. -/
def destroyRest (uth : Fin N) : DestroyStep → Code N
  | .test => [nopreemptOn, destroy .stack uth]
  | .stack => [nopreemptOff, destroy .detached uth]
  | .detached => [destroy .exit uth]
  | .exit => [destroy .waiter uth]
  | .waiter => [destroy .pmut uth]
  | .pmut => [destroy .state uth]
  | .state => []

/-- `uthread_exit` by `self`. -/
def uthreadExit (self : Fin N) (status : ℤ) : Code N :=
  [nopreemptOn] ++ uthreadMtxLock .reapMtx ++ [lock (.utPmut self), exitTest self status]

/-- The index of an `int` thread id in the table: `none` when it is out of range. -/
def slotOf (uid : ℤ) : Option (Fin N) :=
  if h : 0 ≤ uid ∧ uid < N then some ⟨uid.toNat, by omega⟩ else none

/-- `uthread_setprio`. -/
def uthreadSetprio (id prio : ℤ) : Code N :=
  if prio > uthMaxprio ∨ prio < 0 then [ret (.setprio .einval)]
  else match slotOf id with
    | none => [ret (.setprio .esrch)]
    | some uth => [nopreemptOn, lock .runqMtx, setprioTest uth prio]

/-- `uthread_join`; `inc` gives the incarnation of each slot at the call. -/
def uthreadJoin (inc : Fin N → ℕ) (uid : ℤ) : Code N :=
  match slotOf uid with
  | none => [ret (.badId .esrch)]
  | some uth => [nopreemptOn, lock (.utPmut uth), joinTest uth (inc uth)]

/-- `uthread_detach`. -/
def uthreadDetach (inc : Fin N → ℕ) (uid : ℤ) : Code N :=
  match slotOf uid with
  | none => [ret (.badId .esrch)]
  | some uth => [nopreemptOn, lock (.utPmut uth), detachTest uth (inc uth)]

/-- `reaper`. -/
def reaper : Code N := [nopreemptOn] ++ uthreadMtxLock .reapMtx ++ [reaperWait]

/-- `thread_start` of a created thread, up to the call of the user's function. -/
def threadStartCode : Code N := [nopreemptOff, threadStart]

/-- A call of the user's code into the library. -/
inductive Call
  | create (prio : ℤ)
  | exit (status : ℤ)
  | join (uid : ℤ)
  | detach (uid : ℤ)
  | yield
  | setprio (uid prio : ℤ)
  | mtxLock (i : ℕ)
  | mtxTrylock (i : ℕ)
  | mtxUnlock (i : ℕ)
  | condWait (c i : ℕ)
  | condSignal (c : ℕ)
  | condBroadcast (c : ℕ)
  | nopreemptOn
  | nopreemptOff
  deriving DecidableEq

/-- The code of a call by `self`. -/
def Call.code (inc : Fin N → ℕ) (self : Fin N) : Call → Code N
  | create prio => uthreadCreate prio
  | exit status => uthreadExit self status
  | join uid => uthreadJoin inc uid
  | detach uid => uthreadDetach inc uid
  | yield => uthreadYield
  | setprio uid prio => uthreadSetprio uid prio
  | mtxLock i => uthreadMtxLock (.user i)
  | mtxTrylock i => uthreadMtxTrylock (.user i)
  | mtxUnlock i => uthreadMtxUnlock (.user i)
  | condWait c i => uthreadCondWait (.user c) (.user i)
  | condSignal c => uthreadCondSignal (.user c)
  | condBroadcast c => uthreadCondBroadcast (.user c)
  | nopreemptOn => [Instr.nopreemptOn]
  | nopreemptOff => [Instr.nopreemptOff]

end Uthreads
