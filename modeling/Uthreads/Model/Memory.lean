import Uthreads.Model.Pointers
import Uthreads.Model.Step

/-!
# The library on its memory

The queue functions that a step of the library calls, with their arguments and in their order;
`memNext` takes the step and, beside it, makes these calls on the pointers of `list.h`.
-/

namespace Uthreads

/-- A call of a queue function, `utqueue_empty` included. -/
inductive QueueCall (Q T : Type)
  | empty (q : Q)
  | op (op : QueueOp Q T)

/-- What a queue function returns: the truth value of `utqueue_empty`, or the thread of
`utqueue_dequeue`. -/
inductive Answer (T : Type)
  | bool (b : Bool)
  | thread (t : Option T)
  deriving DecidableEq

section Calls

variable {Q T : Type} [DecidableEq Q] [DecidableEq T]

/-- One call on the memory. -/
def memCall (m : QueueMem Q T) : QueueCall Q T → Except QueueFault (QueueMem Q T × Answer T)
  | .empty q => (m.utqueueEmpty q).map fun b => (m, .bool b)
  | .op op => (queueStep m op).map fun r => (r.1, .thread r.2)

/-- The calls one after the other, with what they return. -/
def memCalls (m : QueueMem Q T) : List (QueueCall Q T) → Except QueueFault (QueueMem Q T × List (Answer T))
  | [] => .ok (m, [])
  | c :: cs =>
    match memCall m c with
    | .error e => .error e
    | .ok (m, r) => (memCalls m cs).map fun x => (x.1, r :: x.2)

end Calls

variable {N L : ℕ}

/-- A queue function called on the queues of the library. -/
abbrev LibCall (N : ℕ) := QueueCall (QueueId N) (Fin N)

/-- The memory of the queues and links of the library. -/
abbrev LibMem (N : ℕ) := QueueMem (QueueId N) (Fin N)

/-- `uthread_runq_enqueue` of a thread at level `prio`. -/
def runqCalls (thr : Fin N) (prio : ℤ) : List (LibCall N) :=
  (runqIndex prio).toList.map fun p => .op (.enqueue (.runq p) thr)

/-- `uthread_runq_requeue` from level `oldprio` to level `prio`. -/
def requeueCalls (thr : Fin N) (oldprio prio : ℤ) : List (LibCall N) :=
  match runqIndex oldprio, runqIndex prio with
  | some p, some p' => [.op (.remove (.runq p) thr), .op (.enqueue (.runq p') thr)]
  | _, _ => []

/-- A test for an empty queue, and a dequeue if it is not. -/
def drainCalls (s : State N L) (q : QueueId N) : List (LibCall N) :=
  .empty q :: if (s.queues q).empty then [] else [.op (.dequeue q)]

/-- The loop of `lwp_switch` over the levels of `runq_table`. -/
def dispatchCalls (s : State N L) : List (Fin (uthMaxprio + 1)) → List (LibCall N)
  | [] => []
  | p :: ps =>
    .empty (.runq p) ::
      if (s.queues (.runq p)).empty then dispatchCalls s ps else [.op (.dequeue (.runq p))]

/-- The queue functions that an instruction of `t` calls. -/
def Instr.queueCalls (s : State N L) (t : Fin N) : Instr N → List (LibCall N)
  | .swtch q saveonrq _ =>
    (q.toList.map fun q => .op (.enqueue q t)) ++
      if saveonrq ∧ (s.uthreads t).utState ≠ .zombie then runqCalls t (s.uthreads t).utPrio else []
  | .wakeTest uthr =>
    if (s.uthreads uthr).utState = .wait then runqCalls uthr (s.uthreads uthr).utPrio else []
  | .startTest uth prio =>
    if (s.uthreads uth).utState = .transition then runqCalls uth prio else []
  | .setprioTest uth prio =>
    if (s.uthreads uth).utState = .runnable ∧ (s.uthreads uth).utPrio ≠ prio then
      requeueCalls uth (s.uthreads uth).utPrio prio
    else []
  | .unlockTest mtx => drainCalls s (.mWaiters mtx)
  | .signalTest cond => [.op (.dequeue (.ucWaiters cond))]
  | .broadcastTest cond => drainCalls s (.ucWaiters cond)
  | .createInit .waiter tid _ => [.op (.init (.utWaiter tid))]
  | .exitTest uth _ => if (s.uthreads uth).utDetached then [] else [.op (.dequeue (.utWaiter uth))]
  | .makeReapable uth =>
    if (s.uthreads uth).utState = .zombie then [.op (.enqueue .reapQueue uth)] else []
  | .joinTest uth _ =>
    .empty (.utWaiter uth) ::
      if (s.queues (.utWaiter uth)).empty ∧ (s.uthreads uth).utDetached = false ∧
          (s.uthreads uth).utState ≠ .zombie then [.op (.enqueue (.utWaiter uth) t)] else []
  | .detachTest uth _ => [.empty (.utWaiter uth)]
  | .reaperWait => [.empty .reapQueue]
  | .reaperDrain => drainCalls s .reapQueue
  | .destroy .waiter uth => [.op (.init (.utWaiter uth))]
  | _ => []

/-- The queue functions that a step calls: those of the next instruction, or those of the search in
`lwp_switch`. -/
def stepCalls (s : State N L) (l : Fin L) (a : Act) : List (LibCall N) :=
  match a, (s.lwps l).mode, (s.lwps l).utCurthr with
  | .exec, .running, some t => (s.uthreads t).utCtx.head?.toList.flatMap (Instr.queueCalls s t)
  | .mallocFail, .running, some t => (s.uthreads t).utCtx.head?.toList.flatMap (Instr.queueCalls s t)
  | .exec, .searching, _ => dispatchCalls s (List.finRange (uthMaxprio + 1)).reverse
  | _, _, _ => []

/-- What the library goes on with after a queue function. -/
def answer (s : State N L) : LibCall N → Answer (Fin N)
  | .empty q => .bool (s.queues q).empty
  | .op (.dequeue q) => .thread (s.queues q).tqWaiters.head?
  | .op _ => .thread none

/-- A step of the library, with its queue functions on the memory: they have to succeed and to return
what the step goes on with. -/
def memNext (x : State N L × LibMem N) (b : Fin L × Act) : Option (State N L × LibMem N) :=
  match step x.1 b.1 b.2, memCalls x.2 (stepCalls x.1 b.1 b.2) with
  | some s, .ok (m, rs) =>
    if rs = (stepCalls x.1 b.1 b.2).map (answer x.1) then some (s, m) else none
  | _, _ => none

/-- The queue functions that `uthread_start` calls, with the first thread in slot `t` and the reaper in
slot `r`. -/
def startCalls (t r : Fin N) : List (LibCall N) :=
  ((List.finRange (uthMaxprio + 1)).map fun p => .op (.init (.runq p))) ++
    [.op (.init .reapQueue), .op (.init (.mWaiters .reapMtx)), .op (.init (.ucWaiters .reapCond)),
      .op (.init (.utWaiter t)), .op (.enqueue (.runq (Fin.last uthMaxprio)) t),
      .op (.init (.utWaiter r)), .op (.enqueue (.runq (Fin.last uthMaxprio)) r)]

/-- A queue of the user's. -/
def QueueId.user : QueueId N → Bool
  | .mWaiters (.user _) => true
  | .ucWaiters (.user _) => true
  | _ => false

/-- The memory before `uthread_start`: zero-filled, the user's mutexes and condition variables are
initialised. -/
def memStatic (N : ℕ) : LibMem N where
  lNext
    | .tqWaiters q => if q.user then some (.tqWaiters q) else none
    | .utLink _ => none
  lPrev
    | .tqWaiters q => if q.user then some (.tqWaiters q) else none
    | .utLink _ => none
  tqSize _ := 0

end Uthreads
