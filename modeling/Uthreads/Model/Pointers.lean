import Mathlib.Logic.Function.Basic
import Uthreads.Model.State

/-!
# Thread queues as pointers

`list.h` and `uthread_queue.c` assignment by assignment: a `list_t` is the `tq_waiters` of a queue
or the `ut_link` of a thread, and a queue is the ring of `l_next` and `l_prev` pointers through its
`tq_waiters`. A failed assertion, or a NULL pointer that is followed, ends the program.
-/

namespace Uthreads

variable {Q T : Type}

/-- A `list_t` or `list_link_t`: the `tq_waiters` of a queue, or the `ut_link` of a thread. -/
inductive ListLink (Q T : Type)
  | tqWaiters (q : Q)
  | utLink (t : T)
  deriving DecidableEq

/-- The memory that the queues and the links of the threads take up; `none` is NULL. -/
structure QueueMem (Q T : Type) where
  lNext : ListLink Q T → Option (ListLink Q T)
  lPrev : ListLink Q T → Option (ListLink Q T)
  tqSize : Q → ℤ

/-- How a queue function goes wrong. -/
inductive QueueFault
  | assertion (a : Assertion)
  | nullPointer
  /-- `list_item` of a link that is in no `uthread_t`. -/
  | notThread
  deriving DecidableEq

/-- The link that a pointer points to. -/
def deref (p : Option (ListLink Q T)) : Except QueueFault (ListLink Q T) :=
  match p with
  | some link => .ok link
  | none => .error .nullPointer

/-- `assert` in a queue function. -/
def queueAssert (c : Bool) (a : Assertion) : Except QueueFault Unit :=
  if c then .ok () else .error (.assertion a)

/-- `list_item(link, uthread_t, ut_link)`. -/
def listItem (link : ListLink Q T) : Except QueueFault T :=
  match link with
  | .utLink t => .ok t
  | .tqWaiters _ => .error .notThread

variable [DecidableEq Q]

namespace QueueMem

def setSize (m : QueueMem Q T) (q : Q) (n : ℤ) : QueueMem Q T :=
  { m with tqSize := Function.update m.tqSize q n }

section Fields

variable (m : QueueMem Q T) (q : Q) (n : ℤ)

@[simp] theorem setSize_lNext : (m.setSize q n).lNext = m.lNext := rfl

@[simp] theorem setSize_lPrev : (m.setSize q n).lPrev = m.lPrev := rfl

@[simp] theorem setSize_tqSize : (m.setSize q n).tqSize = Function.update m.tqSize q n := rfl

end Fields

variable [DecidableEq T]

def setNext (m : QueueMem Q T) (link : ListLink Q T) (p : Option (ListLink Q T)) : QueueMem Q T :=
  { m with lNext := Function.update m.lNext link p }

def setPrev (m : QueueMem Q T) (link : ListLink Q T) (p : Option (ListLink Q T)) : QueueMem Q T :=
  { m with lPrev := Function.update m.lPrev link p }

section Fields

variable (m : QueueMem Q T) (link : ListLink Q T) (p : Option (ListLink Q T))

@[simp] theorem setNext_lNext : (m.setNext link p).lNext = Function.update m.lNext link p := rfl

@[simp] theorem setNext_lPrev : (m.setNext link p).lPrev = m.lPrev := rfl

@[simp] theorem setNext_tqSize : (m.setNext link p).tqSize = m.tqSize := rfl

@[simp] theorem setPrev_lNext : (m.setPrev link p).lNext = m.lNext := rfl

@[simp] theorem setPrev_lPrev : (m.setPrev link p).lPrev = Function.update m.lPrev link p := rfl

@[simp] theorem setPrev_tqSize : (m.setPrev link p).tqSize = m.tqSize := rfl

end Fields

/-- `list_init`. -/
def listInit (list : ListLink Q T) (m : QueueMem Q T) : QueueMem Q T :=
  (m.setPrev list (some list)).setNext list (some list)

/-- `list_empty`. -/
def listEmpty (list : ListLink Q T) (m : QueueMem Q T) : Bool := m.lNext list = some list

/-- `list_insert_before`: its four assignments. -/
def listInsertBefore (old : Option (ListLink Q T)) (new : ListLink Q T) (m : QueueMem Q T) :
    Except QueueFault (QueueMem Q T) := do
  let m := m.setNext new old
  let next ← deref old
  let m := m.setPrev new (m.lPrev next)
  let before ← deref (m.lPrev next)
  let m := m.setNext before (some new)
  pure (m.setPrev next (some new))

/-- `list_insert_head`. -/
def listInsertHead (list link : ListLink Q T) (m : QueueMem Q T) :
    Except QueueFault (QueueMem Q T) :=
  listInsertBefore (m.lNext list) link m

/-- `list_remove`. -/
def listRemove (ll : ListLink Q T) (m : QueueMem Q T) : Except QueueFault (QueueMem Q T) := do
  let prev ← deref (m.lPrev ll)
  let next := m.lNext ll
  let m := m.setNext prev next
  let next ← deref next
  let m := m.setPrev next (some prev)
  pure ((m.setPrev ll none).setNext ll none)

/-- `utqueue_init`. -/
def utqueueInit (q : Q) (m : QueueMem Q T) : QueueMem Q T :=
  (m.listInit (.tqWaiters q)).setSize q 0

/-- `utqueue_empty`. -/
def utqueueEmpty (q : Q) (m : QueueMem Q T) : Except QueueFault Bool := do
  queueAssert (m.listEmpty (.tqWaiters q) == decide (m.tqSize q = 0)) .queueEmpty
  pure (m.tqSize q = 0)

/-- `utqueue_enqueue`. -/
def utqueueEnqueue (q : Q) (thr : T) (m : QueueMem Q T) : Except QueueFault (QueueMem Q T) := do
  queueAssert (m.lNext (.utLink thr) = none ∧ m.lPrev (.utLink thr) = none) .enqueueLink
  let m ← m.listInsertHead (.tqWaiters q) (.utLink thr)
  pure (m.setSize q (m.tqSize q + 1))

/-- `utqueue_dequeue`. -/
def utqueueDequeue (q : Q) (m : QueueMem Q T) : Except QueueFault (QueueMem Q T × Option T) := do
  if ← m.utqueueEmpty q then pure (m, none)
  else
    let link ← deref (m.lPrev (.tqWaiters q))
    let thr ← listItem link
    let m ← m.listRemove link
    pure (m.setSize q (m.tqSize q - 1), some thr)

/-- `utqueue_remove`. -/
def utqueueRemove (q : Q) (thr : T) (m : QueueMem Q T) : Except QueueFault (QueueMem Q T) := do
  queueAssert (m.lNext (.utLink thr) ≠ none ∧ m.lPrev (.utLink thr) ≠ none) .removeLink
  let m ← m.listRemove (.utLink thr)
  pure (m.setSize q (m.tqSize q - 1))

/-- `uthread_runq_requeue` between the queues `old` and `new`. -/
def uthreadRunqRequeue (old new : Q) (thr : T) (m : QueueMem Q T) :
    Except QueueFault (QueueMem Q T) := do
  let m ← m.utqueueRemove old thr
  m.utqueueEnqueue new thr

end QueueMem

/-- A call of a queue function. -/
inductive QueueOp (Q T : Type)
  | init (q : Q)
  | enqueue (q : Q) (thr : T)
  | dequeue (q : Q)
  | remove (q : Q) (thr : T)

/-- The queue that a call is made on. -/
def QueueOp.queue : QueueOp Q T → Q
  | init q | enqueue q _ | dequeue q | remove q _ => q

variable [DecidableEq T]

/-- A call: the memory after it, and the thread that it returns. -/
def queueStep (m : QueueMem Q T) : QueueOp Q T → Except QueueFault (QueueMem Q T × Option T)
  | .init q => .ok (m.utqueueInit q, none)
  | .enqueue q thr => do pure (← m.utqueueEnqueue q thr, none)
  | .dequeue q => m.utqueueDequeue q
  | .remove q thr => do pure (← m.utqueueRemove q thr, none)

end Uthreads
