import Uthreads.Model.Exec

/-!
# Steps and runs of the library

One step is one LWP taking its next instruction: of the uthread it is running, of `lwp_switch`
and `lwp_park`, or a call or a timer interrupt that starts in the user's code. A run is any
interleaving of such steps; `halt` records an abort or the exit of the process, after which
nothing moves.
-/

namespace Uthreads

variable {N L : ℕ}

/-- What an LWP does in a step. -/
inductive Act
  /-- The next instruction. -/
  | exec
  /-- The next instruction, a `malloc` that fails. -/
  | mallocFail
  /-- The user's code calls the library. -/
  | call (c : Call)
  /-- `SIGVTALRM` is delivered. -/
  | preempt
  /-- A spurious return from `pthread_cond_wait`. -/
  | spurious
  deriving DecidableEq

namespace State

def setCtx (s : State N L) (t : Fin N) (c : Code N) : State N L :=
  s.modUthread t fun u => { u with utCtx := c }

def setMode (s : State N L) (l : Fin L) (m : LwpMode N) : State N L :=
  s.setLwp l { s.lwps l with mode := m }

end State

/-- `SIGVTALRM` is delivered to thread `t` on LWP `l`: the signal is masked, and `clock_interrupt`
runs up to its call of `uthread_yield`. -/
def enterInterrupt (l : Fin L) (t : Fin N) (s : State N L) : Except Halt (State N L) := do
  let s := s.setLwp l { s.lwps l with masked := true }
  check ((s.uthreads t).utState = .onCpu) .clockInterrupt
  check ((s.uthreads t).utNoPreemptCount = 0) .clockInterrupt
  pure (s.modUthread t fun u => { u with
    utNoPreemptCount := 1, utCtx := clockInterrupt ++ u.utCtx })

/-- The state after a result; an error ends the process. -/
def settle (s : State N L) : Except Halt (State N L) → State N L
  | .ok s' => s'
  | .error h => { s with halt := some h }

/-- Thread `t` on LWP `l` takes its next instruction. -/
def stepThread (s : State N L) (l : Fin L) (t : Fin N) (ok : Bool) : Option (State N L) :=
  match (s.uthreads t).utCtx with
  | [] => none
  | .lock p :: rest =>
    if lockBlocked s l p then none
    else some (settle s ((pthreadMutexLock l p s).map fun s' => s'.setCtx t rest))
  | i :: rest =>
    some (settle s ((exec l t ok i s).map fun r => r.1.setCtx t (r.2 ++ rest)))

/-- `lwp_start` with `runq_mtx` free: lock it and count the LWP. -/
def stepStart (s : State N L) (l : Fin L) : Except Halt (State N L) := do
  let s ← pthreadMutexLock l .runqMtx s
  pure ({ s with lwpCnt := s.lwpCnt + 1 }.setMode l .searching)

/-- The search loop of `lwp_switch`: dispatch, or go to `lwp_park`. -/
def stepSearch (s : State N L) (l : Fin L) : Except Halt (State N L) :=
  match dispatchBody s with
  | some (t, s) => .ok (s.setLwp l ⟨.dispatching, some t, true⟩)
  | none =>
    let s := { s with lwpParkedCnt := s.lwpParkedCnt + 1 }
    if s.lwpParkedCnt = s.lwpCnt then .error (.panic .allParked) else .ok (s.setMode l .parking)

/-- The loop test of `lwp_park`: wait, or go back to `lwp_switch`. -/
def stepPark (s : State N L) (l : Fin L) : Except Halt (State N L) :=
  if s.runqSize = 0 then do
    let s ← pthreadMutexUnlock l .runqMtx s
    pure ({ s with parkWaiters := s.parkWaiters + 1 }.setMode l .parked)
  else .ok ({ s with lwpParkedCnt := s.lwpParkedCnt - 1 }.setMode l .searching)

/-- LWP `l` takes a step of its own code. -/
def stepLwp (s : State N L) (l : Fin L) : Option (State N L) :=
  match (s.lwps l).mode with
  | .start => if lockBlocked s l .runqMtx then none else some (settle s (stepStart s l))
  | .running => none
  | .unlocking p =>
    some (settle s ((pthreadMutexUnlock l p s).map fun s' => s'.setLwp l ⟨.searching, none, true⟩))
  | .searching => some (settle s (stepSearch s l))
  | .dispatching =>
    some (settle s ((pthreadMutexUnlock l .runqMtx s).map fun s' => s'.setMode l .running))
  | .parking => some (settle s (stepPark s l))
  | .parked =>
    if lockBlocked s l .runqMtx ∨ s.parkSignals = 0 then none
    else some (settle s ((pthreadMutexLock l .runqMtx s).map fun s' =>
      { s' with parkSignals := s'.parkSignals - 1 }.setMode l .parking))

/-- LWP `l` returns from `pthread_cond_wait` without a signal. -/
def stepSpurious (s : State N L) (l : Fin L) : Option (State N L) :=
  if (s.lwps l).mode ≠ .parked ∨ lockBlocked s l .runqMtx ∨ s.parkWaiters = 0 then none
  else some (settle s ((pthreadMutexLock l .runqMtx s).map fun s' =>
    { s' with parkWaiters := s'.parkWaiters - 1 }.setMode l .parking))

/-- The step of LWP `l`; `none` when it cannot take it. -/
def step (s : State N L) (l : Fin L) (a : Act) : Option (State N L) :=
  if s.halt ≠ none then none
  else match a, (s.lwps l).mode, (s.lwps l).utCurthr with
    | .exec, .running, some t => stepThread s l t true
    | .mallocFail, .running, some t => stepThread s l t false
    | .call c, .running, some t =>
      if (s.uthreads t).utCtx = [] then some (s.setCtx t (c.code s.incarnation t)) else none
    | .preempt, .running, some t =>
      if (s.lwps l).masked then none
      else some (settle s (enterInterrupt l t s))
    | .exec, _, _ => stepLwp s l
    | .spurious, _, _ => stepSpurious s l
    | _, _, _ => none

/-! ## Slots in use -/

/-- The instruction belongs to a `uthread_create` that has begun to set up slot `u`. -/
@[simp] def Instr.setsUp (u : Fin N) : Instr N → Bool
  | .createInit .ctx _ _ => false
  | .createInit _ tid _ | .startTest tid _ => decide (tid = u)
  | _ => false

/-- The slot holds no thread, not even one that is being destroyed, and no `uthread_create` is
setting it up. -/
def Vacant (s : State N L) (u : Fin N) : Prop :=
  (s.pmtx (.utPmut u)).status ≠ .live ∧ (s.uthreads u).utState ≠ .zombie ∧
    ∀ t, (s.uthreads t).utCtx.any (Instr.setsUp u) = false

instance (s : State N L) (u : Fin N) : Decidable (Vacant s u) :=
  inferInstanceAs (Decidable (_ ∧ _ ∧ _))

/-- In the step a `uthread_create` begins to write to a slot that is in use. It may do so only when it
was told the slot of another call. -/
def intrudes (s : State N L) (b : Fin L × Act) : Bool :=
  match b.2, (s.lwps b.1).mode, (s.lwps b.1).utCurthr with
  | .exec, .running, some t | .mallocFail, .running, some t =>
    match (s.uthreads t).utCtx with
    | .createInit .ctx tid _ :: _ => !decide (Vacant s tid)
    | _ => false
  | _, _, _ => false

/-- The instruction does not write to a slot that is still in use: `uthread_create` sets up a slot without
a thread and with an unlocked mutex, `uthread_destroy` frees the stack of a thread that has left it and
destroys an unlocked mutex. -/
def Instr.spares (s : State N L) : Instr N → Bool
  | .createInit .ctx u _ => decide (Vacant s u)
  | .createInit .pmut u _ =>
    decide ((s.pmtx (.utPmut u)).status ≠ .live ∧ (s.pmtx (.utPmut u)).owner = none)
  | .destroy .stack u => decide (∀ l, ¬ OnStack s l u)
  | .destroy .pmut u => decide ((s.pmtx (.utPmut u)).owner = none)
  | _ => true

/-- In the step no `uthread_create` and no `uthread_destroy` writes to a slot that is still in use. -/
def sparesSlots (s : State N L) (b : Fin L × Act) : Prop :=
  ∀ t, OnStack s b.1 t → (s.uthreads t).utCtx.head?.all (Instr.spares s) = true

instance (s : State N L) (b : Fin L × Act) : Decidable (sparesSlots s b) :=
  inferInstanceAs (Decidable (∀ _, _))

/-- Take the steps of a schedule. -/
def run (s : State N L) : List (Fin L × Act) → Option (State N L)
  | [] => some s
  | (l, a) :: sched => (step s l a).bind fun s' => run s' sched

/-- A `uthread_t` of the static, zero-filled table after the loop of `uthread_start`. -/
def Uthread.zero : Uthread N :=
  ⟨none, [], .noState, 0, 0, false, false, 0⟩

/-- The first thread and the reaper thread as `create_first_thr` sets them up. -/
def Uthread.first (ctx : Code N) : Uthread N :=
  ⟨some (.runq (Fin.last uthMaxprio)), ctx, .runnable, uthMaxprio, 0, true, true, 1⟩

/-- The state in which `create_first_thr` enters `lwp_switch`: the first thread in slot 0 and
the reaper in slot 1 are on the run queue, LWP 0 searches it with `runq_mtx` held, the other LWPs
are about to lock it. -/
def boot (N L : ℕ) : State (N + 2) (L + 1) where
  uthreads i :=
    if i = 0 then Uthread.first threadStartCode
    else if i = 1 then Uthread.first (threadStartCode ++ reaper)
    else Uthread.zero
  queues q :=
    if q = .runq (Fin.last uthMaxprio) then ((Utqueue.init.enqueue 0).enqueue 1) else .init
  runqSize := 2
  mtx _ := ⟨none⟩
  pmtx
    | .runqMtx => ⟨.live, true, some 0⟩
    | .uthreadsMtx => ⟨.live, true, none⟩
    | .utPmut i => if i = 0 ∨ i = 1 then ⟨.live, true, none⟩ else ⟨.zeroed, false, none⟩
    | .mPmut _ => ⟨.live, false, none⟩
    | .cPmut _ => ⟨.live, false, none⟩
  reaperThrId := 1
  prevId := some 1
  lwps l := if l = 0 then ⟨.searching, none, true⟩ else ⟨.start, none, true⟩
  lwpCnt := 1
  lwpParkedCnt := 0
  parkWaiters := 0
  parkSignals := 0
  halt := none
  log := []
  incarnation _ := 0
  tested _ := 0

end Uthreads
