import Uthreads.Model.Lemmas

/-!
# What a code says about its thread

A thread's code determines what the thread holds and in which state it is. `Held p c` looks for
the next operation of `c` on the POSIX mutex `p`, `Owns m c` for the next one on the uthread mutex
`m`; `depth c` is the number of `uthread_nopreempt_off` to come; `expect c` is the `ut_state` of a
thread that runs `c`, `linkOf c` its `ut_link`.

`Wf t c` says that `c` is code that the library can leave to thread `t`: locks are taken in the
order of `PmtxId.rank`, nothing but the mutexes given to `uthread_switch` is held at a switch (the
detach of a zombie excepted), and a code that holds something runs with preemption off.
-/

namespace Uthreads

variable {N : ℕ}

open Instr

/-- The POSIX mutexes that the instruction finds held. -/
@[simp] def Instr.needs : Instr N → List (PmtxId N)
  | unlock p => [p]
  | swtch _ _ m => .runqMtx :: m.toList
  | wakeTest _ | setprioTest _ _ | startTest _ _ => [.runqMtx]
  | lockTest mtx | trylockTest mtx | unlockTest mtx => [.mPmut mtx]
  | waitMark cond | signalTest cond | broadcastTest cond => [.cPmut cond]
  | allocScan _ _ => [.uthreadsMtx]
  | exitTest u _ | makeReapable u | joinTest u _ | joinClaim u _ | joinReap u _ _
  | detachTest u _ | detachReap u _ => [.utPmut u]
  | _ => []

/-- The POSIX mutexes that the instruction locks. -/
@[simp] def Instr.locks : Instr N → List (PmtxId N)
  | lock p => [p]
  | _ => []

/-- The thread with this code holds `p`: the next operation on `p` finds it held. -/
def Held (p : PmtxId N) : Code N → Prop
  | [] => False
  | i :: cs => p ∈ i.needs ∨ (p ∉ i.locks ∧ i ≠ panicDead ∧ Held p cs)

/-- The uthread mutexes that the instruction finds owned by its thread. -/
@[simp] def Instr.owned : Instr N → List MtxId
  | unlockTest mtx => [mtx]
  | exitTest _ _ | makeReapable _ | joinReap _ _ _ | detachReap _ _ | reaperWait | reaperDrain
  | destroy _ _ | reaperScan _ => [.reapMtx]
  | _ => []

/-- The uthread mutexes that the instruction takes, or waits for. -/
@[simp] def Instr.takes : Instr N → List MtxId
  | lockTest mtx | lockOwned mtx | trylockTest mtx => [mtx]
  | _ => []

/-- The next operation of the code on `m` finds it owned by the thread. -/
def Owns (m : MtxId) : Code N → Prop
  | [] => False
  | i :: cs => m ∈ i.owned ∨ (m ∉ i.takes ∧ i ≠ panicDead ∧ Owns m cs)

/-- How often preemption is still to be switched on again, given the number for the rest. -/
@[simp] def Instr.depthBefore (d : ℕ) : Instr N → ℕ
  | nopreemptOn => d - 1
  | nopreemptOff | setprioTest _ _ | lockTest _ | trylockTest _ | unlockTest _ | allocScan _ _
  | allocStack _ _ | joinTest _ _ | joinClaim _ _ | joinReap _ _ _ | detachTest _ _
  | detachReap _ _ | destroy .stack _ => d + 1
  | interruptLeave | panicDead | exitTest _ _ | reaperWait | reaperDrain | reaperScan _ => 1
  | _ => d

/-- The `ut_no_preempt_count` that the code brings down to zero. -/
def depth : Code N → ℕ
  | [] => 0
  | i :: cs => i.depthBefore (depth cs)

/-- The code is about to leave the LWP, not for the run queue. -/
def asleep : Code N → Bool
  | lock .runqMtx :: swtch _ saveonrq _ :: _ => !saveonrq
  | swtch _ saveonrq _ :: _ => !saveonrq
  | _ => false

/-- The `ut_state` of a running thread with this code. -/
def expect (c : Code N) : UthreadState :=
  if panicDead ∈ c then .zombie else if asleep c then .wait else .onCpu

/-- The `ut_link` of a running thread with this code that is not dying: only `uthread_join` puts a
thread on a queue before it switches. -/
def linkOf : Code N → Option (QueueId N)
  | lock .runqMtx :: swtch none false (some (.utPmut u)) :: _ => some (.utWaiter u)
  | swtch none false (some (.utPmut u)) :: _ => some (.utWaiter u)
  | _ => none

/-- The code is not about to leave the LWP, except to end the thread. -/
def Awake (c : Code N) : Prop := asleep c = true → panicDead ∈ c

/-- The code of a thread that goes on when it is dispatched. -/
def Ready (c : Code N) : Prop := panicDead ∉ c ∧ asleep c = false

/-- The order in which POSIX mutexes are taken. -/
def PmtxId.rank : PmtxId N → ℕ
  | uthreadsMtx => 0
  | utPmut _ => 1
  | cPmut _ => 2
  | mPmut _ => 3
  | runqMtx => 4

/-- The code holds nothing of rank `n` or more. -/
def Under (n : ℕ) (c : Code N) : Prop := ∀ q, Held q c → q.rank < n

/-- `p` may be taken in front of the code: what else it holds comes before `p`. -/
def Below (p : PmtxId N) (c : Code N) : Prop := ∀ q, Held q c → q = p ∨ q.rank < p.rank

/-- The code of a dead thread: `uthread_switch` with `ut_pmut`, and the panic behind it. -/
def deadCode (t : Fin N) : Code N := uthreadSwitch none false (some (.utPmut t)) ++ [panicDead]

/-- The only POSIX mutex that code may hold over a switch is the `ut_pmut` of a zombie that
`uthread_detach` works on. -/
def DetachOnly (c : Code N) : Prop := ∀ p, Held p c → ∃ u k, p = .utPmut u ∧ detachReap u k ∈ c

/-- What the arguments of a switch and the code behind it say about each other. -/
inductive OkSwitch (t : Fin N) :
    Option (QueueId N) → Bool → Option (PmtxId N) → Code N → Prop
  | yield {cs : Code N} (hh : ∀ p, ¬ Held p cs) (hd : panicDead ∉ cs) :
    OkSwitch t none true none (resume :: cs)
  | mutex {mtx : MtxId} {cs : Code N} (hh : DetachOnly cs) (hd : panicDead ∉ cs) :
    OkSwitch t (some (.mWaiters mtx)) false (some (.mPmut mtx)) (resume :: lockOwned mtx :: cs)
  | cond {c : CondId} {cs : Code N} (hh : ∀ p, ¬ Held p cs) (hd : panicDead ∉ cs) :
    OkSwitch t (some (.ucWaiters c)) false (some (.cPmut c)) (resume :: cs)
  | join {u : Fin N} {k : ℕ} :
    OkSwitch t none false (some (.utPmut u)) [resume, lock (.utPmut u), joinClaim u k]
  | exit : OkSwitch t none false (some (.utPmut t)) [resume, panicDead]
  | reaped : OkSwitch t none false none (resume :: panicDead :: deadCode t)

/-- What the code behind an instruction has to be. -/
def Ok (t : Fin N) : Instr N → Code N → Prop
  | lock p, cs => Held p cs ∧ Below p cs
  | unlock p, cs => ¬ Held p cs
  | swtch q saveonrq m, cs => OkSwitch t q saveonrq m cs
  | wakeTest _, cs => Held .runqMtx cs
  | startTest _ _, cs => ∃ r, cs = [unlock .runqMtx, nopreemptOff, ret r]
  | waitMark c, cs => ∃ cs', cs = uthreadSwitch (some (.ucWaiters c)) false (some (.cPmut c)) ++ cs'
  | lockTest _, cs => DetachOnly cs ∧ panicDead ∉ cs
  | unlockTest m, cs => Under 3 cs ∧ ¬ Owns m cs
  | signalTest c, cs | broadcastTest c, cs =>
    Held (.cPmut c) cs ∧ Under 3 cs
  | interruptLeave, cs => cs = [nopreemptOff] ∨ depth cs = 0
  | makeReapable u, cs => (u = t ∧ cs = deadCode t) ∨ (u ≠ t ∧ ∃ r, cs = [nopreemptOff, ret r])
  | exitTest u _, cs => u = t ∧ cs = []
  | destroy _ _, cs => cs = [reaperDrain]
  | setprioTest _ _, cs | trylockTest _, cs | allocStart _, cs | allocScan _ _, cs
  | allocReturn _ _, cs | allocStack _ _, cs | createInit _ _ _, cs | joinTest _ _, cs
  | joinClaim _ _, cs | joinReap _ _ _, cs | detachTest _ _, cs | detachReap _ _, cs
  | reaperWait, cs | reaperDrain, cs | reaperScan _, cs | ret _, cs => cs = []
  | _, _ => True

/-- What can stand in front of a step of `uthread_destroy`. -/
def destroyFront (u : Fin N) : DestroyStep → List (Code N)
  | .test => [[], [unlock (.utPmut u)], [lock (.utPmut u), unlock (.utPmut u)]]
  | .stack => [[], [nopreemptOn]]
  | .detached => [[], [nopreemptOff]]
  | .exit | .waiter | .pmut | .state => [[]]

/-- A code with something to lose runs with preemption off, a thread goes to sleep only where it
has marked itself `UT_WAIT`, and one is destroyed only at the end of the reaper's round. -/
structure Guarded (c : Code N) : Prop where
  calm : ∀ i cs, c = i :: cs → i ≠ lock .runqMtx → (∀ k, i ≠ waitMark k) → Awake cs
  masked : 0 < depth c ∨ (∀ p, ¬ Held p c) ∧ panicDead ∉ c
  destroys : ∀ d u, destroy d u ∈ c → ∃ pre ∈ destroyFront u d, c = pre ++ [destroy d u, reaperDrain]

/-- `c` is code that the library can leave to `t`. -/
def Wf (t : Fin N) : Code N → Prop
  | [] => True
  | i :: cs => Ok t i cs ∧ Guarded (i :: cs) ∧ Wf t cs

@[simp] theorem held_nil (p : PmtxId N) : ¬ Held p [] := id

@[simp] theorem held_cons (p : PmtxId N) (i : Instr N) (cs : Code N) :
    Held p (i :: cs) ↔ p ∈ i.needs ∨ (p ∉ i.locks ∧ i ≠ panicDead ∧ Held p cs) := Iff.rfl

@[simp] theorem owns_nil (m : MtxId) : ¬ Owns m ([] : Code N) := id

@[simp] theorem owns_cons (m : MtxId) (i : Instr N) (cs : Code N) :
    Owns m (i :: cs) ↔ m ∈ i.owned ∨ (m ∉ i.takes ∧ i ≠ panicDead ∧ Owns m cs) := Iff.rfl

@[simp] theorem depth_nil : depth ([] : Code N) = 0 := rfl

@[simp] theorem depth_cons (i : Instr N) (cs : Code N) :
    depth (i :: cs) = i.depthBefore (depth cs) := rfl

@[simp] theorem awake_nil : Awake ([] : Code N) := by simp [Awake, asleep]

/-- Nothing but the switch, and the lock in front of it, leaves the LWP. -/
@[simp] theorem awake_cons {i : Instr N} {cs : Code N} (hl : i ≠ lock .runqMtx)
    (hs : ∀ q sv m, i ≠ swtch q sv m) : Awake (i :: cs) := by
  intro h
  unfold asleep at h
  split at h
  · exact absurd (List.cons.inj ‹_›).1 hl
  · exact absurd (List.cons.inj ‹_›).1 (hs _ _ _)
  · cases h

@[simp] theorem awake_lock {i : Instr N} {cs : Code N} (hs : ∀ q sv m, i ≠ swtch q sv m) :
    Awake (lock .runqMtx :: i :: cs) := by
  intro h
  unfold asleep at h
  split at h
  · exact absurd (List.cons.inj (List.cons.inj ‹_›).2).1 (hs _ _ _)
  · cases (List.cons.inj ‹_›).1
  · cases h

/-- A switch for the run queue, or to end the thread. -/
@[simp] theorem awake_switch {q : Option (QueueId N)} {sv : Bool} {m : Option (PmtxId N)}
    {cs : Code N} : Awake (lock .runqMtx :: swtch q sv m :: cs) ↔ (sv = false → panicDead ∈ cs) := by
  simp [Awake, asleep]

theorem guarded_iff {c : Code N} : Guarded c ↔
    (∀ i cs, c = i :: cs → i ≠ lock .runqMtx → (∀ k, i ≠ waitMark k) → Awake cs) ∧
    (0 < depth c ∨ (∀ p, ¬ Held p c) ∧ panicDead ∉ c) ∧
      ∀ d u, destroy d u ∈ c →
        ∃ pre ∈ destroyFront u d, c = pre ++ [destroy d u, reaperDrain] :=
  ⟨fun h => ⟨h.calm, h.masked, h.destroys⟩, fun h => ⟨h.1, h.2.1, h.2.2⟩⟩

theorem mem_front {u : Fin N} {d : DestroyStep} {pre : Code N} : pre ∈ destroyFront u d ↔ pre = [] ∨
    d = .test ∧ (pre = [unlock (.utPmut u)] ∨ pre = [lock (.utPmut u), unlock (.utPmut u)]) ∨
    d = .stack ∧ pre = [nopreemptOn] ∨ d = .detached ∧ pre = [nopreemptOff] := by
  cases d <;> simp [destroyFront]

@[simp] theorem wf_nil (t : Fin N) : Wf t [] := trivial

theorem wf_cons {t : Fin N} {i : Instr N} {cs : Code N} :
    Wf t (i :: cs) ↔ Ok t i cs ∧ Guarded (i :: cs) ∧ Wf t cs := Iff.rfl

theorem Wf.suffix {t : Fin N} {c c' : Code N} (h : Wf t c) (hs : c' <:+ c) : Wf t c' := by
  induction c with
  | nil => rw [List.suffix_nil.1 hs]; trivial
  | cons i c ih =>
    rcases List.suffix_cons_iff.1 hs with rfl | hs
    · exact h
    · exact ih h.2.2 hs

/-- The instructions that a call of `t` starts with. -/
@[simp] def Instr.called (t : Fin N) : Instr N → Bool
  | exitTest u _ => decide (u = t)
  | swtch (some (.ucWaiters c)) _ _ | waitMark c | waitDone c | signalTest c | broadcastTest c =>
    decide (c ≠ .reapCond)
  | swtch none _ _ | lock _ | unlock _ | nopreemptOn | nopreemptOff | resume | yieldAssert
  | setprioTest _ _ | lockTest _ | trylockTest _ | unlockTest _ | allocStart _ | joinTest _ _
  | detachTest _ _ | ret _ => true
  | _ => false

/-- **The code of a call.** -/
theorem call_called (inc : Fin N → ℕ) (t : Fin N) (c : Call) :
    ∀ j ∈ c.code inc t, j.called t = true := by
  cases c with
  | join uid =>
    simp only [Call.code, uthreadJoin]
    split <;> simp
  | detach uid =>
    simp only [Call.code, uthreadDetach]
    split <;> simp
  | setprio uid prio =>
    simp only [Call.code, uthreadSetprio]
    split
    · simp
    · split <;> simp
  | _ =>
    simp [Call.code, uthreadCreate, uthreadExit, uthreadYield, uthreadSwitch, uthreadMtxLock,
      uthreadMtxTrylock, uthreadMtxUnlock, uthreadCondWait, uthreadCondSignal, uthreadCondBroadcast]

end Uthreads
