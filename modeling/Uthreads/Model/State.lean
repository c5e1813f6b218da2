import Mathlib.Logic.Function.Basic
import Mathlib.Data.Fintype.Basic
import Uthreads.Model.Queue

/-!
# The data of the library

The table `uthreads`, the run queues, uthread mutexes and condition variables, the POSIX mutexes,
the reaper's queue and the LWPs, as `uthread.h`, `uthread_sched.c`, `uthread_mtx.h` and
`uthread_cond.h` declare them.

A uthread's control state is a list of instructions (`Code`): what it still has to execute, which
is the saved `ut_ctx` while the thread is off its LWP and the live stack while it is on one. One
instruction is one lock operation, or the code of a C function between two lock operations, or a
single access to shared data that no lock protects (the reads of `PrevID`, the reaper's scan).
-/

namespace Uthreads

/-- `UTH_MAXPRIO`. -/
def uthMaxprio : ℕ := 7

/-- `uthread_state_t`. -/
inductive UthreadState
  | noState | onCpu | runnable | wait | zombie | transition
  deriving DecidableEq

/-- The error codes that the calls return. -/
inductive Errno
  | ok | eagain | esrch | einval | edeadlk | eperm
  deriving DecidableEq

/-- A `uthread_mtx_t`: the reaper's `reap_mtx`, or one of the user's. -/
inductive MtxId
  | reapMtx
  | user (i : ℕ)
  deriving DecidableEq

/-- A `uthread_cond_t`: the reaper's `reap_cond`, or one of the user's. -/
inductive CondId
  | reapCond
  | user (i : ℕ)
  deriving DecidableEq

/-- A `pthread_mutex_t`. -/
inductive PmtxId (N : ℕ)
  | runqMtx
  | uthreadsMtx
  | utPmut (uth : Fin N)
  | mPmut (mtx : MtxId)
  | cPmut (cond : CondId)
  deriving DecidableEq

/-- A `utqueue_t`: a level of `runq_table`, the `m_waiters` of a mutex, the `uc_waiters` of a
condition variable, the `ut_waiter` of a thread, or `reap_queue`. -/
inductive QueueId (N : ℕ)
  | runq (prio : Fin (uthMaxprio + 1))
  | mWaiters (mtx : MtxId)
  | ucWaiters (cond : CondId)
  | utWaiter (uth : Fin N)
  | reapQueue
  deriving DecidableEq

/-- What a public call returns to its caller. `k` is the incarnation of the target slot when the
call was made (history, see `State.incarnation`). -/
inductive Ret (N : ℕ)
  | create (err : Errno) (uidp : Option (Fin N))
  | join (uth : Fin N) (k : ℕ) (err : Errno) (rv : Option ℤ)
  | detach (uth : Fin N) (k : ℕ) (err : Errno)
  | badId (err : Errno)
  | setprio (err : Errno)
  | trylock (got : Bool)
  | done
  deriving DecidableEq

/-- The writes by which `uthread_create` sets a slot up, in their order; no lock protects them. -/
inductive CreateStep
  /-- `uthread_makecontext`. -/
  | ctx
  /-- `memset` of `ut_link`. -/
  | link
  | prio
  | exit
  /-- `utqueue_init` of `ut_waiter`. -/
  | waiter
  /-- `pthread_mutex_init` of `ut_pmut`. -/
  | pmut
  | count
  deriving DecidableEq

/-- What `uthread_destroy` does, in its order; no lock protects its writes. -/
inductive DestroyStep
  /-- The assertion that the thread is a zombie. -/
  | test
  /-- The `free` of `free_stack`. -/
  | stack
  | detached
  | exit
  /-- `utqueue_init` of `ut_waiter`. -/
  | waiter
  /-- `pthread_mutex_destroy` of `ut_pmut`. -/
  | pmut
  | state
  deriving DecidableEq

/-- One step of a uthread's code. The instructions of a function are named after it. -/
inductive Instr (N : ℕ)
  /-- `pthread_mutex_lock`. -/
  | lock (p : PmtxId N)
  /-- `pthread_mutex_unlock`. -/
  | unlock (p : PmtxId N)
  | nopreemptOn
  | nopreemptOff
  /-- `uthread_switch` with `runq_mtx` held, up to `lwp_switch`'s unlock of the mutex `m`. -/
  | swtch (q : Option (QueueId N)) (saveonrq : Bool) (m : Option (PmtxId N))
  /-- The second return of `getcontext` in `uthread_switch`. -/
  | resume
  | yieldAssert
  | interruptLeave
  | wakeAssert (uthr : Fin N)
  | wakeTest (uthr : Fin N)
  | setprioTest (uth : Fin N) (prio : ℤ)
  | startTest (uth : Fin N) (prio : ℤ)
  | lockTest (mtx : MtxId)
  | lockOwned (mtx : MtxId)
  | trylockTest (mtx : MtxId)
  | unlockTest (mtx : MtxId)
  | waitMark (cond : CondId)
  | waitDone (cond : CondId)
  | signalTest (cond : CondId)
  | broadcastTest (cond : CondId)
  /-- `int start = PrevID + 1` of `uthread_alloc`. -/
  | allocStart (prio : ℤ)
  | allocScan (start : ℕ) (prio : ℤ)
  /-- `return (PrevID)` of `uthread_alloc`; `i` is its loop variable. -/
  | allocReturn (i : Fin N) (prio : ℤ)
  | allocStack (tid : Fin N) (prio : ℤ)
  | createInit (w : CreateStep) (tid : Fin N) (prio : ℤ)
  | threadStart
  | exitTest (uth : Fin N) (status : ℤ)
  | makeReapable (uth : Fin N)
  | joinTest (uth : Fin N) (k : ℕ)
  | joinClaim (uth : Fin N) (k : ℕ)
  | joinReap (uth : Fin N) (k : ℕ) (rv : ℤ)
  | detachTest (uth : Fin N) (k : ℕ)
  | detachReap (uth : Fin N) (k : ℕ)
  | reaperWait
  | reaperDrain
  | destroy (d : DestroyStep) (uth : Fin N)
  | reaperScan (th : ℕ)
  | panicDead
  | ret (r : Ret N)
  deriving DecidableEq

/-- What a uthread still has to execute; `[]` is the user's own code. -/
abbrev Code (N : ℕ) := List (Instr N)

/-- The assertions of the library. -/
inductive Assertion
  | queueEmpty | enqueueLink | removeLink | yieldMasked | yieldLink | wakeState | switchMasked
  | switchCount | mtxOwner | condLink | destroyZombie | reaperZombie | makeReapable
  | clockInterrupt | nopreemptOn | nopreemptOff | threadStart
  deriving DecidableEq

/-- The `PANIC`s of the library. -/
inductive Panic
  | notTransition | deadThread | allParked
  deriving DecidableEq

/-- Operations that C or POSIX leave undefined; a run ends there. -/
inductive Undefined
  /-- `pthread_mutex_init` of a mutex that is initialised or locked. -/
  | mutexInit
  /-- `pthread_mutex_destroy` of a locked mutex. -/
  | mutexDestroy
  /-- An index outside `runq_table`. -/
  | runqIndex
  /-- `list_remove` of a thread that is not on that queue. -/
  | queueRemove
  /-- `free` of the stack that an LWP is executing on. -/
  | liveStack
  /-- `memset` of the link of a thread that is on a queue: its ring is no ring any more. -/
  | brokenRing
  deriving DecidableEq

/-- How the process ends. -/
inductive Halt
  | assertion (a : Assertion)
  | panic (p : Panic)
  /-- `abort` in a wrapper of `wrapper.c`, with the error of the wrapped call. -/
  | wrapper (e : Errno)
  | undefined (u : Undefined)
  | exit0
  deriving DecidableEq

/-- `uthread_t`. -/
structure Uthread (N : ℕ) where
  /-- `ut_link`: `none` is the NULL link, `some q` a link in the ring of `q`. -/
  utLink : Option (QueueId N)
  utCtx : Code N
  utState : UthreadState
  utPrio : ℤ
  utExit : ℤ
  utDetached : Bool
  /-- `utqueue_init` has seen `ut_waiter` (it is zero-filled memory before). -/
  utWaiterInit : Bool
  utNoPreemptCount : ℕ

/-- The life of a `pthread_mutex_t`: static zeros (a default mutex), initialised, destroyed. -/
inductive PmtxStatus
  | zeroed | live | destroyed
  deriving DecidableEq

/-- A `pthread_mutex_t`; `errorcheck` is its type, `owner` the LWP that holds it. -/
structure Pmtx (L : ℕ) where
  status : PmtxStatus
  errorcheck : Bool
  owner : Option (Fin L)

/-- What an LWP is doing. -/
inductive LwpMode (N : ℕ)
  /-- `lwp_start`, before it locks `runq_mtx`. -/
  | start
  /-- On the stack of `ut_curthr`. -/
  | running
  /-- In `lwp_switch`: `ut_curthr` is off its stack and queued, `pmut` is to be unlocked. -/
  | unlocking (pmut : PmtxId N)
  /-- In the search loop of `lwp_switch`, with `runq_mtx` held. -/
  | searching
  /-- `ut_curthr` has been chosen, `runq_mtx` is to be unlocked. -/
  | dispatching
  /-- At the test of `lwp_park`'s loop, with `runq_mtx` held. -/
  | parking
  /-- In `pthread_cond_wait` of `lwp_park`. -/
  | parked
  deriving DecidableEq

/-- An `lwp_t` with its thread-local `ut_curthr` and its signal mask. -/
structure Lwp (N : ℕ) where
  mode : LwpMode N
  utCurthr : Option (Fin N)
  masked : Bool

/-- What a run leaves behind for the statements about it; no code reads it. -/
inductive Event (N : ℕ)
  /-- `uthread_alloc` by `t` moved `i` from `UT_NO_STATE` to `UT_TRANSITION`. -/
  | alloc (t i : Fin N)
  /-- The `uthread_alloc` by `t` that had moved `i` returned `r`. -/
  | allocReturned (t i : Fin N) (r : Option (Fin N))
  /-- `uthread_destroy` returned the slot to `UT_NO_STATE`. -/
  | destroyed (i : Fin N)
  /-- `t` joined `m_waiters`. -/
  | queued (mtx : MtxId) (t : Fin N)
  /-- An unlock handed the mutex to the waiter `t`. -/
  | handed (mtx : MtxId) (t : Fin N)
  /-- `t` took the mutex without waiting. -/
  | taken (mtx : MtxId) (t : Fin N)
  /-- `t` came back from the blocking branch of `uthread_mtx_lock`. -/
  | acquired (mtx : MtxId) (t : Fin N)
  | released (mtx : MtxId) (t : Fin N)
  /-- `t` has released the mutex in `uthread_cond_wait` and goes to sleep. -/
  | waitBegun (cond : CondId) (t : Fin N)
  /-- A signal or broadcast by `by` took `t` off `uc_waiters`. -/
  | waitWoken (cond : CondId) (t signaller : Fin N)
  | waitReturned (cond : CondId) (t : Fin N)
  /-- Incarnation `k` of `uth` was put on `reap_queue`. -/
  | reapQueued (uth : Fin N) (k : ℕ)
  | returned (t : Fin N) (r : Ret N)
  deriving DecidableEq

/-- A `uthread_mtx_t` without its queue and its POSIX mutex, which `State.queues` and
`State.pmtx` hold. -/
structure UthreadMtx (N : ℕ) where
  mOwner : Option (Fin N)

/-- The state of the process: `N` is `UTH_MAX_UTHREADS`, `L` the number of LWPs. -/
structure State (N L : ℕ) where
  uthreads : Fin N → Uthread N
  queues : QueueId N → Utqueue (Fin N)
  runqSize : ℤ
  mtx : MtxId → UthreadMtx N
  pmtx : PmtxId N → Pmtx L
  reaperThrId : Fin N
  /-- `PrevID` of `uthread_alloc`; `none` is its initial -1. -/
  prevId : Option (Fin N)
  lwps : Fin L → Lwp N
  lwpCnt : ℕ
  lwpParkedCnt : ℕ
  /-- The LWPs waiting on `lwp_park_cond` that no `pthread_cond_signal` has woken yet. -/
  parkWaiters : ℕ
  /-- The wake-ups that `pthread_cond_signal` has given to waiting LWPs and that they have not
  used yet. -/
  parkSignals : ℕ
  halt : Option Halt
  log : List (Event N)
  /-- How often `uthread_alloc` has handed out the slot (history). -/
  incarnation : Fin N → ℕ
  /-- How many join and detach calls have looked at the slot since it was last freed (history). -/
  tested : Fin N → ℕ

end Uthreads
