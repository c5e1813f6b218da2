import Uthreads.Model.Step

/-!
# The start of the library

`uthread_start` on the static memory of the process, up to the point where `create_first_thr` enters
`lwp_switch`: the table, the run queues, the reaper's data, the first thread, the reaper thread and
the LWPs. LWP 0 is the one that the process starts on.
-/

namespace Uthreads

variable {N L : ℕ}

/-- How the start goes wrong. -/
inductive StartFault
  | halt (h : Halt)
  /-- `assert(is_masked())` in `create_first_thr` and at the top of `lwp_switch`. -/
  | unmasked
  /-- `PANIC`: no memory for the stack of the first thread, or of the reaper. -/
  | noStack (reaper : Bool)
  /-- `uthread_alloc` found no slot for the reaper. -/
  | noSlot
  deriving DecidableEq

/-- The state of a start, and the mutexes that were initialised although they were already: POSIX
leaves that undefined. -/
structure Starting (N L : ℕ) where
  state : State N L
  reinit : List (PmtxId N)

namespace Starting

def map (x : Starting N L) (f : State N L → State N L) : Starting N L := { x with state := f x.state }

/-- A part of the start that can fail. -/
def bind (x : Starting N L) (f : State N L → Except Halt (State N L)) :
    Except StartFault (Starting N L) :=
  match f x.state with
  | .ok s => .ok { x with state := s }
  | .error h => .error (.halt h)

end Starting

/-- `pthread_mutex_init`. -/
def pthreadMutexInit (p : PmtxId N) (errorcheck : Bool) (x : Starting N L) : Starting N L :=
  ⟨x.state.setPmtx p ⟨.live, errorcheck, none⟩,
    if (x.state.pmtx p).status = .live then x.reinit ++ [p] else x.reinit⟩

/-- `utqueue_init`. -/
def startQueue (q : QueueId N) (x : Starting N L) : Starting N L := x.map fun s => s.setQueue q .init

/-- `uthread_mtx_init`. -/
def uthreadMtxInit (mtx : MtxId) (x : Starting N L) : Starting N L :=
  pthreadMutexInit (.mPmut mtx) false
    (startQueue (.mWaiters mtx) (x.map fun s => s.setOwner mtx none))

/-- `uthread_cond_init`. -/
def uthreadCondInit (cond : CondId) (x : Starting N L) : Starting N L :=
  pthreadMutexInit (.cPmut cond) false (startQueue (.ucWaiters cond) x)

/-- The loop of `uthread_start` over the table. -/
def tableInit (x : Starting N L) : Starting N L :=
  (List.finRange N).foldl (fun x i => x.map fun s => s.setState i .noState) x

/-- `uthread_sched_init` on LWP `l`; `uthread_start_timer` masks `SIGVTALRM`. -/
def uthreadSchedInit (l : Fin L) (x : Starting N L) : Starting N L :=
  let x := pthreadMutexInit .runqMtx true x
  let x := (List.finRange (uthMaxprio + 1)).foldl (fun x i => startQueue (.runq i) x) x
  x.map fun s => s.setLwp l { s.lwps l with masked := true }

/-- `reaper_init`. -/
def reaperInit (x : Starting N L) : Starting N L :=
  uthreadCondInit .reapCond (uthreadMtxInit .reapMtx (startQueue .reapQueue x))

/-- `alloc_stack` by `t` on `l`; `malloc` itself leaves the state alone. -/
def startStack (l : Fin L) (t : Fin N) (s : State N L) : Except Halt (State N L) := do
  let (s, _) ← execNopreemptOn l t s
  let (s, _) ← execNopreemptOff l t s
  pure s

/-- What `create_first_thr` does for the first thread, and then again for the reaper: `t` gets its
fields and its stack and goes on the run queue. `ok` is the outcome of `malloc`. -/
def createThr (l : Fin L) (t : Fin N) (ctx : Code N) (ok reaper : Bool) (x : Starting N L) :
    Except StartFault (Starting N L) := do
  let x := x.map fun s => (s.setLwp l { s.lwps l with utCurthr := some t }).modUthread t fun u =>
    { u with utLink := none, utPrio := uthMaxprio, utExit := 0, utDetached := true }
  let x := (startQueue (.utWaiter t) x).map fun s => s.modUthread t fun u =>
    { u with utWaiterInit := true, utState := .runnable }
  let x := (pthreadMutexInit (.utPmut t) true x).map fun s => s.modUthread t fun u =>
    { u with utNoPreemptCount := 1 }
  let x ← x.bind (startStack l t)
  if ok then
    let x := x.map fun s => s.modUthread t fun u => { u with utCtx := ctx }
    x.bind (uthreadRunqEnqueue t)
  else .error (.noStack reaper)

/-- `uthread_alloc` by `t` on `l`, with nobody else running. -/
def startAlloc (l : Fin L) (t : Fin N) (s : State N L) :
    Except Halt (State N L × Option (Fin N)) := do
  let start := allocFrom s.prevId
  let (s, _) ← execNopreemptOn l t s
  let s ← pthreadMutexLock l .uthreadsMtx s
  match allocWhile (fun i => (s.uthreads i).utState) start with
  | some i =>
    let s ← pthreadMutexUnlock l .uthreadsMtx { s.setState i .transition with prevId := some i }
    let (s, _) ← execNopreemptOff l t s
    pure (s, s.prevId)
  | none =>
    let s ← pthreadMutexUnlock l .uthreadsMtx s
    let (s, _) ← execNopreemptOff l t s
    pure (s, none)

/-- The LWPs that `create_first_thr` starts: they inherit the signal mask. -/
def startLwps (ls : List (Fin L)) (s : State N L) : State N L :=
  ls.foldl (fun s l => s.setLwp l ⟨.start, none, true⟩) s

/-- The top of `lwp_switch` on an LWP that has just been started. -/
def enterSwitch (l : Fin L) (x : Starting N L) : Except StartFault (Starting N L) :=
  if (x.state.lwps l).masked then .ok (x.map fun s => s.setMode l .searching) else .error .unmasked

/-- `create_first_thr`, with LWP `l` and the first thread in slot `t`; `ls` are the other LWPs. -/
def createFirstThr (l : Fin L) (ls : List (Fin L)) (t : Fin N) (ok₀ ok₁ : Bool) (x : Starting N L) :
    Except StartFault (Starting N L) := do
  if (x.state.lwps l).masked then
    let x ← createThr l t threadStartCode ok₀ false (x.map fun s => s.setState t .transition)
    match startAlloc l t x.state with
    | .error h => .error (.halt h)
    | .ok (_, none) => .error .noSlot
    | .ok (s, some r) =>
      let x := { x with state := { s with reaperThrId := r } }
      let x ← createThr l r (threadStartCode ++ reaper) ok₁ true x
      let x ← x.bind (pthreadMutexLock l .runqMtx)
      let x := x.map fun s => startLwps ls { s with lwpCnt := 1 }
      enterSwitch l (x.map fun s => s.setLwp l { s.lwps l with utCurthr := none })
  else .error .unmasked

/-- `uthread_start`, on LWP `l`. -/
def uthreadStart (l : Fin L) (ls : List (Fin L)) (t : Fin N) (ok₀ ok₁ : Bool) (x : Starting N L) :
    Except StartFault (Starting N L) :=
  let x := tableInit x
  let x := pthreadMutexInit .uthreadsMtx true (pthreadMutexInit .runqMtx true x)
  createFirstThr l ls t ok₀ ok₁ (reaperInit (uthreadSchedInit l x))

/-- The process when its `main` calls `uthread_start`: the library's memory is zero-filled, the
mutexes and condition variables of the user are taken to be initialised. `t` is slot 0. -/
def static (L : ℕ) (t : Fin N) : State N L where
  uthreads _ := Uthread.zero
  queues _ := .init
  runqSize := 0
  mtx _ := ⟨none⟩
  pmtx
    | .mPmut (.user _) => ⟨.live, false, none⟩
    | .cPmut (.user _) => ⟨.live, false, none⟩
    | _ => ⟨.zeroed, false, none⟩
  reaperThrId := t
  prevId := none
  lwps _ := ⟨.running, none, false⟩
  lwpCnt := 0
  lwpParkedCnt := 0
  parkWaiters := 0
  parkSignals := 0
  halt := none
  log := []
  incarnation _ := 0
  tested _ := 0

end Uthreads
