import Uthreads.Model.Code

/-!
# The shared operations

POSIX mutexes as the wrappers of `wrapper.c` use them, the queue operations with their link
assertions, and the functions that work on the run queues under `runq_mtx`.
-/

namespace Uthreads

variable {N L : ℕ}

namespace State

/-- Write fields of one `uthread_t`. -/
def modUthread (s : State N L) (t : Fin N) (f : Uthread N → Uthread N) : State N L :=
  { s with uthreads := Function.update s.uthreads t (f (s.uthreads t)) }

def setQueue (s : State N L) (q : QueueId N) (x : Utqueue (Fin N)) : State N L :=
  { s with queues := Function.update s.queues q x }

def setPmtx (s : State N L) (p : PmtxId N) (x : Pmtx L) : State N L :=
  { s with pmtx := Function.update s.pmtx p x }

def setLwp (s : State N L) (l : Fin L) (x : Lwp N) : State N L :=
  { s with lwps := Function.update s.lwps l x }

def setOwner (s : State N L) (mtx : MtxId) (o : Option (Fin N)) : State N L :=
  { s with mtx := Function.update s.mtx mtx ⟨o⟩ }

def setState (s : State N L) (t : Fin N) (st : UthreadState) : State N L :=
  s.modUthread t fun u => { u with utState := st }

def emit (s : State N L) (e : Event N) : State N L := { s with log := s.log ++ [e] }

end State

/-! ## POSIX mutexes -/

/-- `pthread_mutex_lock` by LWP `l` has to wait: the mutex is held, and it is not an
error-checking one that `l` holds itself. -/
def lockBlocked (s : State N L) (l : Fin L) (p : PmtxId N) : Bool :=
  (s.pmtx p).status ≠ .destroyed && (s.pmtx p).owner.isSome &&
    !((s.pmtx p).errorcheck && (s.pmtx p).owner = some l)

/-- `__wrap_pthread_mutex_lock` by LWP `l`, once it does not have to wait. -/
def pthreadMutexLock (l : Fin L) (p : PmtxId N) (s : State N L) : Except Halt (State N L) :=
  if (s.pmtx p).status = .destroyed then .error (.wrapper .einval)
  else if (s.pmtx p).owner = none then .ok (s.setPmtx p { s.pmtx p with owner := some l })
  else .error (.wrapper .edeadlk)

/-- `__wrap_pthread_mutex_unlock` by LWP `l`. -/
def pthreadMutexUnlock (l : Fin L) (p : PmtxId N) (s : State N L) : Except Halt (State N L) :=
  if (s.pmtx p).status = .destroyed then .error (.wrapper .einval)
  else if (s.pmtx p).errorcheck ∧ (s.pmtx p).owner ≠ some l then .error (.wrapper .eperm)
  else .ok (s.setPmtx p { s.pmtx p with owner := none })

/-! ## Queues -/

/-- `utqueue_enqueue` with its assertion that the link is NULL. -/
def utqueueEnqueue (q : QueueId N) (thr : Fin N) (s : State N L) : Except Halt (State N L) :=
  if (s.uthreads thr).utLink = none then
    .ok ((s.setQueue q ((s.queues q).enqueue thr)).modUthread thr
      fun u => { u with utLink := some q })
  else .error (.assertion .enqueueLink)

/-- `utqueue_dequeue`: the oldest thread, its link set to NULL. -/
def utqueueDequeue (q : QueueId N) (s : State N L) : Option (Fin N × State N L) :=
  match (s.queues q).dequeue with
  | none => none
  | some (thr, x) => some (thr, (s.setQueue q x).modUthread thr fun u => { u with utLink := none })

/-- `utqueue_remove` with its assertion that the thread is linked. -/
def utqueueRemove (q : QueueId N) (thr : Fin N) (s : State N L) : Except Halt (State N L) :=
  if (s.uthreads thr).utLink = none then .error (.assertion .removeLink)
  else if h : thr ∈ (s.queues q).tqWaiters then
    .ok ((s.setQueue q ((s.queues q).remove thr h)).modUthread thr fun u => { u with utLink := none })
  else .error (.undefined .queueRemove)

/-! ## The run queues -/

/-- The index of a priority in `runq_table`; `none` is an access outside the table. -/
def runqIndex (prio : ℤ) : Option (Fin (uthMaxprio + 1)) :=
  if h : 0 ≤ prio ∧ prio < uthMaxprio + 1 then
    some ⟨prio.toNat, (Int.toNat_lt h.1).2 (by exact_mod_cast h.2)⟩
  else none

/-- `lwp_release`: `pthread_cond_signal` wakes a waiting LWP, if there is one. -/
def lwpRelease (s : State N L) : State N L :=
  if s.parkWaiters = 0 then s
  else { s with parkWaiters := s.parkWaiters - 1, parkSignals := s.parkSignals + 1 }

/-- `uthread_runq_enqueue`. -/
def uthreadRunqEnqueue (thr : Fin N) (s : State N L) : Except Halt (State N L) :=
  match runqIndex (s.uthreads thr).utPrio with
  | none => .error (.undefined .runqIndex)
  | some p => do
    let s ← utqueueEnqueue (.runq p) thr s
    let s := { s with runqSize := s.runqSize + 1 }
    pure (if s.runqSize = 1 then lwpRelease s else s)

/-- `uthread_runq_requeue`. -/
def uthreadRunqRequeue (thr : Fin N) (oldprio : ℤ) (s : State N L) : Except Halt (State N L) :=
  match runqIndex oldprio, runqIndex (s.uthreads thr).utPrio with
  | some p, some p' => do
    let s ← utqueueRemove (.runq p) thr s
    utqueueEnqueue (.runq p') thr s
  | _, _ => .error (.undefined .runqIndex)

/-- The body of `uthread_wake` under `runq_mtx`. -/
def wakeBody (uthr : Fin N) (s : State N L) : Except Halt (State N L) :=
  if (s.uthreads uthr).utState = .wait then uthreadRunqEnqueue uthr (s.setState uthr .runnable)
  else .ok s

/-- The body of `uthread_startonrunq` under `runq_mtx`. -/
def startBody (thr : Fin N) (prio : ℤ) (s : State N L) : Except Halt (State N L) :=
  let s := s.modUthread thr fun u => { u with utPrio := prio }
  if (s.uthreads thr).utState = .transition then
    uthreadRunqEnqueue thr (s.setState thr .runnable)
  else .error (.panic .notTransition)

/-- How `uthread_setprio` goes on. -/
inductive SetprioResult
  | inactive | unchanged | changed (yield : Bool)
  deriving DecidableEq

/-- The body of `uthread_setprio` by `cur` under `runq_mtx`. -/
def setprioBody (cur thr : Fin N) (prio : ℤ) (s : State N L) :
    Except Halt (State N L × SetprioResult) :=
  if (s.uthreads thr).utState = .noState ∨ (s.uthreads thr).utState = .transition ∨
      (s.uthreads thr).utState = .zombie then .ok (s, .inactive)
  else if (s.uthreads thr).utPrio = prio then .ok (s, .unchanged)
  else do
    let oldprio := (s.uthreads thr).utPrio
    let s := s.modUthread thr fun u => { u with utPrio := prio }
    let s ← if (s.uthreads thr).utState = .runnable then uthreadRunqRequeue thr oldprio s else .ok s
    pure (s, .changed (prio > (s.uthreads cur).utPrio ∧ (s.uthreads thr).utState = .runnable))

/-- `lwp_switch`'s save of the thread it comes from on the run queue. -/
def saveBody (thr : Fin N) (s : State N L) : Except Halt (State N L) :=
  uthreadRunqEnqueue thr (s.setState thr .runnable)

/-- The highest level of `runq_table` that is not empty: the loop of `lwp_switch` from
`UTH_MAXPRIO` down. -/
def highestRunq (s : State N L) : Option (Fin (uthMaxprio + 1)) :=
  (List.finRange (uthMaxprio + 1)).reverse.find? fun p => !(s.queues (.runq p)).empty

/-- The dispatch of `lwp_switch`: the next thread, off the run queue and `UT_ON_CPU`. -/
def dispatchBody (s : State N L) : Option (Fin N × State N L) :=
  match highestRunq s with
  | none => none
  | some p =>
    match utqueueDequeue (.runq p) s with
    | none => none
    | some (thr, s) => some (thr, { s with runqSize := s.runqSize - 1 }.setState thr .onCpu)

/-! ## `uthread_alloc` -/

/-- The `for` loop of `uthread_alloc` over the `n` slots from `i` on. -/
def allocFor (st : Fin N → UthreadState) : (i n : ℕ) → Option (Fin N)
  | _, 0 => none
  | i, n + 1 =>
    if h : i < N then
      if st ⟨i, h⟩ = .noState then some ⟨i, h⟩ else allocFor st (i + 1) n
    else none

/-- The `while (1)` of `uthread_alloc`: from `start` to the end of the table, then, if `start` is
positive, from 0 to `start`; `start` is 0 in the second pass, which is the last. -/
def allocWhile (st : Fin N → UthreadState) (start : ℕ) : Option (Fin N) :=
  match allocFor st start (N - start) with
  | some i => some i
  | none => if 0 < start then allocFor st 0 start else none

/-- The `while (1)` of `uthread_alloc` as it stands, for `fuel` rounds at most: a round searches from
`start` to before `last` and, if `start` is positive, the next one from 0 to before `start`. -/
def allocRounds (st : Fin N → UthreadState) : (fuel start last : ℕ) → Option (Option (Fin N))
  | 0, _, _ => none
  | fuel + 1, start, last =>
    match allocFor st start (last - start) with
    | some i => some (some i)
    | none => if 0 < start then allocRounds st fuel 0 start else some none

/-- `start` of `uthread_alloc`: one after `PrevID`, or 0 at the end of the table. -/
def allocFrom (prevId : Option (Fin N)) : ℕ :=
  match prevId with
  | none => 0
  | some i => if N ≤ i.val + 1 then 0 else i.val + 1

end Uthreads
