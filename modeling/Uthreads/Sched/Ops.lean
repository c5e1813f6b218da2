import Uthreads.Lib.System
import Uthreads.Sched.Runq

/-!
# Sequences of run-queue operations

What happens under `runq_mtx`, as a system of its own: the operations on the run queues, and what
the rest of the library does to threads in between (allocating and freeing slots, blocking,
exiting, queueing on other queues). Each operation is the function that the code executes; one
that ends the process, or that the code cannot execute in that state, has no successor.

* `opStep_links`, `opStep_runq`: every operation keeps `LinkInv` and `RunqInv`.
* `runq_representation`: from the empty run queues every sequence of operations keeps the
  representation invariant.
-/

namespace Uthreads

open Finset

variable {N L : ℕ}

/-- An operation under `runq_mtx`, or what may happen to a thread between two of them. -/
inductive RunqOp (N : ℕ)
  /-- `uthread_startonrunq`. -/
  | start (t : Fin N) (prio : Fin (uthMaxprio + 1))
  /-- `uthread_wake`. -/
  | wake (t : Fin N)
  /-- `uthread_setprio` of `t` by `cur`, with a priority that passed its first test. -/
  | setprio (cur t : Fin N) (prio : Fin (uthMaxprio + 1))
  /-- `lwp_switch` saves the thread of a yield or a preemption on the run queue. -/
  | save (t : Fin N)
  /-- `lwp_switch` looks for the next thread. -/
  | dispatch
  | alloc (t : Fin N)
  | free (t : Fin N)
  | block (t : Fin N)
  | exit (t : Fin N)
  /-- `utqueue_enqueue` on a queue that is not a run queue. -/
  | enqueue (q : QueueId N) (t : Fin N)
  | dequeue (q : QueueId N)

/-- A level of `runq_table`. -/
def QueueId.isRunq : QueueId N → Bool
  | runq _ => true
  | _ => false

/-- A state change that the code makes only in state `st`. -/
def changeState (s : State N L) (t : Fin N) (st st' : UthreadState) : Option (State N L) :=
  if (s.uthreads t).utState = st then some (s.setState t st') else none

/-- The state after an operation, before what it returns is looked at. -/
def opState (s : State N L) : RunqOp N → Option (State N L)
  | .start t prio => (startBody t (prio : ℕ) s).toOption
  | .wake t => (wakeBody t s).toOption
  | .setprio cur t prio => (setprioBody cur t (prio : ℕ) s).toOption.map Prod.fst
  | .save t => if (s.uthreads t).utState = .onCpu then (saveBody t s).toOption else none
  | .dispatch => some (match dispatchBody s with | some (_, s') => s' | none => s)
  | .alloc t => changeState s t .noState .transition
  | .free t => changeState s t .zombie .noState
  | .block t => changeState s t .onCpu .wait
  | .exit t => changeState s t .onCpu .zombie
  | .enqueue q t => if q.isRunq then none else (utqueueEnqueue q t s).toOption
  | .dequeue q => if q.isRunq then none else (utqueueDequeue q s).map Prod.snd

/-- The thread that an operation dispatches. -/
def opOut (s : State N L) : RunqOp N → Option (Fin N)
  | .dispatch => (dispatchBody s).map Prod.fst
  | _ => none

/-- One operation; the output is the thread that it dispatches. -/
def opStep (s : State N L) (op : RunqOp N) : Option (State N L × Option (Fin N)) :=
  (opState s op).map fun s' => (s', opOut s op)

/-- The run queues as `uthread_sched_init` leaves them: nothing is linked anywhere. -/
structure EmptyRunq (s : State N L) : Prop where
  link : ∀ t, (s.uthreads t).utLink = none
  queues : ∀ q, (s.queues q).tqWaiters = []
  state : ∀ t, (s.uthreads t).utState ≠ .runnable
  size : s.runqSize = 0

/-- What the run queues represent: state, links, priorities and the two counters agree. -/
structure RunqRepresentation (s : State N L) : Prop where
  runnable_iff : ∀ t, (s.uthreads t).utState = .runnable ↔
    ∃ p, (s.uthreads t).utLink = some (.runq p)
  once : ∀ t, (s.uthreads t).utState = .runnable →
    ∃ p : Fin (uthMaxprio + 1), (s.uthreads t).utPrio = ((p : ℕ) : ℤ) ∧
      ∀ r, (s.queues (.runq r)).tqWaiters.count t = if r = p then 1 else 0
  others : ∀ t, (s.uthreads t).utState ≠ .runnable →
    ∀ r, (s.queues (.runq r)).tqWaiters.count t = 0
  size_sum : s.runqSize = ∑ p, ((s.queues (.runq p)).tqSize : ℤ)
  size_card : s.runqSize = (univ.filter fun t => (s.uthreads t).utState = .runnable).card

variable {s s' : State N L} {t : Fin N}

theorem EmptyRunq.links (h : EmptyRunq s) : LinkInv s := by
  constructor
  · intro t q; simp [h.link, h.queues]
  · intro q; simp [h.queues]

theorem EmptyRunq.runq (h : EmptyRunq s) : RunqInv s := by
  constructor
  · intro t p; simp [h.queues, h.state]
  · intro t ht; exact absurd ht (h.state t)
  · simp [h.size, Utqueue.size_eq, h.queues]

theorem RunqInv.representation (h : RunqInv s) (hl : LinkInv s) : RunqRepresentation s where
  runnable_iff t := by
    constructor
    · intro ht
      obtain ⟨p, -, hlev⟩ := h.mem_of_runnable ht
      exact ⟨p, (hl.link t _).2 ((hlev p).2 rfl)⟩
    · rintro ⟨p, hp⟩
      exact ((h.mem t p).1 ((hl.link t _).1 hp)).1
  once t ht := by
    obtain ⟨p, hp, hlev⟩ := h.mem_of_runnable ht
    refine ⟨p, hp, fun r => ?_⟩
    rw [List.Nodup.count (hl.nodup _)]
    simp only [hlev]
  others t ht r := List.count_eq_zero.2 (h.not_mem ht r)
  size_sum := h.size
  size_card := h.size_eq_card hl

/-! ## Every operation keeps the invariant -/

theorem toOption_eq_some {ε α : Type} {x : Except ε α} {a : α} : x.toOption = some a ↔ x = .ok a := by
  cases x <;> simp [Except.toOption]

/-- `uthread_startonrunq` succeeds on a thread in transition. -/
theorem startBody_ok {prio : ℤ} (h : startBody t prio s = .ok s') :
    (s.uthreads t).utState = .transition ∧ uthreadRunqEnqueue t
      ((s.modUthread t fun u => { u with utPrio := prio }).setState t .runnable) = .ok s' := by
  simp only [startBody] at h
  split at h
  · rename_i ht
    exact ⟨by simpa using ht, h⟩
  · cases h

/-- `uthread_wake` enqueues a waiting thread, and drops the wake-up of any other. -/
theorem wakeBody_ok (h : wakeBody t s = .ok s') :
    ((s.uthreads t).utState = .wait ∧ uthreadRunqEnqueue t (s.setState t .runnable) = .ok s') ∨
      ((s.uthreads t).utState ≠ .wait ∧ s' = s) := by
  unfold wakeBody at h
  split at h
  · exact .inl ⟨‹_›, h⟩
  · exact .inr ⟨‹_›, (Except.ok.inj h).symm⟩

/-- `uthread_setprio` leaves an inactive thread and one with that priority alone; a runnable thread
is requeued. -/
theorem setprioBody_ok {cur : Fin N} {prio : ℤ} {r : SetprioResult}
    (h : setprioBody cur t prio s = .ok (s', r)) :
    (s' = s ∧ ((s.uthreads t).utState ∈ [.noState, .transition, .zombie] ∨
      (s.uthreads t).utPrio = prio)) ∨
    ((s.uthreads t).utPrio ≠ prio ∧ (s.uthreads t).utState ∈ [.onCpu, .wait] ∧
      s' = s.modUthread t fun u => { u with utPrio := prio }) ∨
    ((s.uthreads t).utPrio ≠ prio ∧ (s.uthreads t).utState = .runnable ∧
      uthreadRunqRequeue t (s.uthreads t).utPrio
        (s.modUthread t fun u => { u with utPrio := prio }) = .ok s') := by
  unfold setprioBody at h
  split at h
  · rename_i hst
    simp only [Except.ok.injEq, Prod.mk.injEq] at h
    exact .inl ⟨h.1.symm, .inl (by simpa using hst)⟩
  · rename_i hst
    split at h
    · simp only [Except.ok.injEq, Prod.mk.injEq] at h
      exact .inl ⟨h.1.symm, .inr ‹_›⟩
    · rename_i hne
      simp only [State.modUthread_uthreads, if_true] at h
      split at h
      · rename_i hrun
        cases hr : uthreadRunqRequeue t (s.uthreads t).utPrio
            (s.modUthread t fun u => { u with utPrio := prio }) with
        | error e => rw [hr] at h; cases h
        | ok s₁ =>
          rw [hr] at h
          simp only [bind, Except.bind, pure, Except.pure, Except.ok.injEq, Prod.mk.injEq] at h
          exact .inr (.inr ⟨hne, hrun, h.1 ▸ rfl⟩)
      · rename_i hrun
        simp only [bind, Except.bind, pure, Except.pure, Except.ok.injEq, Prod.mk.injEq] at h
        refine .inr (.inl ⟨hne, ?_, h.1.symm⟩)
        cases hs : (s.uthreads t).utState <;> simp_all

theorem changeState_some {st st' : UthreadState} (h : changeState s t st st' = some s') :
    (s.uthreads t).utState = st ∧ s' = s.setState t st' := by
  unfold changeState at h
  split at h
  · exact ⟨‹_›, (Option.some.inj h).symm⟩
  · cases h

theorem LinkInv.setState (hl : LinkInv s) (st : UthreadState) : LinkInv (s.setState t st) := by
  refine hl.congr (fun u => ?_) fun r => rfl
  by_cases hut : u = t
  · subst hut; simp [State.setState]
  · simp [State.setState, hut]

theorem LinkInv.setPrio (hl : LinkInv s) (prio : ℤ) :
    LinkInv (s.modUthread t fun u => { u with utPrio := prio }) := by
  refine hl.congr (fun u => ?_) fun r => rfl
  by_cases hut : u = t
  · subst hut; simp
  · simp [hut]

/-- A change between two states other than `UT_RUNNABLE` keeps the invariant. -/
theorem RunqInv.setState (h : RunqInv s) (ht : (s.uthreads t).utState ≠ .runnable)
    {st : UthreadState} (hst : st ≠ .runnable) : RunqInv (s.setState t st) := by
  refine h.congr (fun u => ?_) (fun u _ => ?_) (fun p => rfl) rfl
  · by_cases hut : u = t
    · subst hut; simp [State.setState, ht, hst]
    · simp [State.setState, hut]
  · by_cases hut : u = t
    · subst hut; simp [State.setState]
    · simp [State.setState, hut]

/-- The priority of a thread that is not runnable is free. -/
theorem RunqInv.setPrio (h : RunqInv s) (ht : (s.uthreads t).utState ≠ .runnable) (prio : ℤ) :
    RunqInv (s.modUthread t fun u => { u with utPrio := prio }) := by
  refine h.congr (fun u => ?_) (fun u hu => ?_) (fun p => rfl) rfl
  · by_cases hut : u = t
    · subst hut; simp
    · simp [hut]
  · have hut : u ≠ t := fun e => ht (e ▸ hu)
    simp [hut]

/-- Queueing on another queue leaves the run queues alone. -/
theorem RunqInv.enqueueOther (h : RunqInv s) {q : QueueId N} (hq : q.isRunq = false)
    (hs : utqueueEnqueue q t s = .ok s') : RunqInv s' := by
  obtain ⟨-, rfl⟩ := utqueueEnqueue_ok hs
  refine h.congr (fun u => ?_) (fun u _ => ?_) (fun p => ?_) rfl
  · by_cases hut : u = t
    · subst hut; simp
    · simp [hut]
  · by_cases hut : u = t
    · subst hut; simp
    · simp [hut]
  · have hne : QueueId.runq p ≠ q := by rintro rfl; cases hq
    simp [hne]

theorem RunqInv.dequeueOther (h : RunqInv s) {q : QueueId N} (hq : q.isRunq = false)
    (hs : utqueueDequeue q s = some (t, s')) : RunqInv s' := by
  obtain ⟨x, -, rfl⟩ := utqueueDequeue_some hs
  refine h.congr (fun u => ?_) (fun u _ => ?_) (fun p => ?_) rfl
  · by_cases hut : u = t
    · subst hut; simp
    · simp [hut]
  · by_cases hut : u = t
    · subst hut; simp
    · simp [hut]
  · have hne : QueueId.runq p ≠ q := by rintro rfl; cases hq
    simp [hne]

theorem RunqInv.save (h : RunqInv s) (hl : LinkInv s) (ht : (s.uthreads t).utState ≠ .runnable)
    (hs : saveBody t s = .ok s') : RunqInv s' :=
  h.enqueue hl ht hs

theorem RunqInv.wake (h : RunqInv s) (hl : LinkInv s) (hs : wakeBody t s = .ok s') :
    RunqInv s' ∧ LinkInv s' := by
  rcases wakeBody_ok hs with ⟨ht, he⟩ | ⟨-, rfl⟩
  · exact ⟨h.enqueue hl (by rw [ht]; decide) he, hl.runqEnqueue he⟩
  · exact ⟨h, hl⟩

theorem RunqInv.start {prio : ℤ} (h : RunqInv s) (hl : LinkInv s)
    (hs : startBody t prio s = .ok s') : RunqInv s' ∧ LinkInv s' := by
  obtain ⟨ht, he⟩ := startBody_ok hs
  have hne : (s.uthreads t).utState ≠ .runnable := by rw [ht]; decide
  exact ⟨(h.setPrio hne prio).enqueue (hl.setPrio prio) (by simpa using hne) he,
    (hl.setPrio prio).runqEnqueue he⟩

theorem RunqInv.setprio {cur : Fin N} {prio : ℤ} {r : SetprioResult} (h : RunqInv s)
    (hl : LinkInv s) (hs : setprioBody cur t prio s = .ok (s', r)) : RunqInv s' ∧ LinkInv s' := by
  rcases setprioBody_ok hs with ⟨rfl, -⟩ | ⟨-, hst, rfl⟩ | ⟨-, hst, hr⟩
  · exact ⟨h, hl⟩
  · have hne : (s.uthreads t).utState ≠ .runnable := by
      intro e; rw [e] at hst; simp at hst
    exact ⟨h.setPrio hne prio, hl.setPrio prio⟩
  · exact ⟨h.requeue hl hst hr, (hl.setPrio prio).requeue hr⟩

/-- **Every operation keeps the invariant.** -/
theorem opStep_runq {op : RunqOp N} {out : Option (Fin N)} (h : RunqInv s) (hl : LinkInv s)
    (hs : opStep s op = some (s', out)) : RunqInv s' ∧ LinkInv s' := by
  obtain ⟨s₁, hop, he⟩ := Option.map_eq_some_iff.1 hs
  simp only [Prod.mk.injEq] at he
  obtain ⟨rfl, -⟩ := he
  have hchange : ∀ {t : Fin N} {st st' : UthreadState}, st ≠ .runnable → st' ≠ .runnable →
      changeState s t st st' = some s₁ → RunqInv s₁ ∧ LinkInv s₁ := by
    intro t st st' hst hst' hc
    obtain ⟨ht, rfl⟩ := changeState_some hc
    exact ⟨h.setState (by rw [ht]; exact hst) hst', hl.setState st'⟩
  clear hs
  cases op with
  | start t prio => exact h.start hl (toOption_eq_some.1 hop)
  | wake t => exact h.wake hl (toOption_eq_some.1 hop)
  | setprio cur t prio =>
    obtain ⟨⟨s₂, r⟩, hr, rfl⟩ := Option.map_eq_some_iff.1 hop
    exact h.setprio hl (toOption_eq_some.1 hr)
  | save t =>
    simp only [opState] at hop
    split at hop
    · rename_i ht
      have hsave := toOption_eq_some.1 hop
      exact ⟨h.save hl (by rw [ht]; decide) hsave, hl.runqEnqueue hsave⟩
    · cases hop
  | dispatch =>
    simp only [opState, Option.some.injEq] at hop
    subst hop
    split
    · rename_i hd; exact ⟨h.dispatch hl hd, hl.dispatch hd⟩
    · exact ⟨h, hl⟩
  | alloc t => exact hchange (by decide) (by decide) hop
  | free t => exact hchange (by decide) (by decide) hop
  | block t => exact hchange (by decide) (by decide) hop
  | exit t => exact hchange (by decide) (by decide) hop
  | enqueue q t =>
    simp only [opState] at hop
    split at hop
    · cases hop
    · rename_i hq
      have he := toOption_eq_some.1 hop
      exact ⟨h.enqueueOther (by simpa using hq) he, hl.enqueue he⟩
  | dequeue q =>
    simp only [opState] at hop
    split at hop
    · cases hop
    · rename_i hq
      obtain ⟨⟨t, s₂⟩, hd, rfl⟩ := Option.map_eq_some_iff.1 hop
      exact ⟨h.dequeueOther (by simpa using hq) hd, hl.dequeue hd⟩

/-- The invariant along a sequence of operations. -/
theorem ops_invariant {s₀ : State N L} {ops : List (RunqOp N)} {out : List (Option (Fin N))}
    (h₀ : EmptyRunq s₀) (hs : Runs.outputs opStep s₀ ops = some (s, out)) :
    RunqInv s ∧ LinkInv s :=
  Runs.outputs_invariant (P := fun s => RunqInv s ∧ LinkInv s)
    (fun _ _ _ _ hP hn => opStep_runq hP.1 hP.2 hn) ⟨h₀.runq, h₀.links⟩ hs

/-- **The run queues represent the runnable threads.** From the empty run queues, every sequence of
operations ends in a state in which state, links, priorities and counters agree. -/
theorem runq_representation {s₀ : State N L} {ops : List (RunqOp N)} {out : List (Option (Fin N))}
    (h₀ : EmptyRunq s₀) (hs : Runs.outputs opStep s₀ ops = some (s, out)) :
    RunqRepresentation s :=
  have h := ops_invariant h₀ hs
  h.1.representation h.2

/-- The process after `uthread_sched_init`: nothing in the table, nothing linked. -/
def schedInit (N L : ℕ) : State (N + 1) L where
  uthreads _ := Uthread.zero
  queues _ := .init
  runqSize := 0
  mtx _ := ⟨none⟩
  pmtx _ := ⟨.zeroed, false, none⟩
  reaperThrId := ⟨0, N.succ_pos⟩
  prevId := none
  lwps _ := ⟨.start, none, true⟩
  lwpCnt := 0
  lwpParkedCnt := 0
  parkWaiters := 0
  parkSignals := 0
  halt := none
  log := []
  incarnation _ := 0
  tested _ := 0

theorem schedInit_empty (N L : ℕ) : EmptyRunq (schedInit N L) := by
  constructor <;> simp [schedInit, Uthread.zero]

theorem runq_representation_preempted : ∃ (s : State 2 1) (out : List (Option (Fin 2))),
    Runs.outputs opStep (schedInit 1 1) [.alloc 0, .start 0 7, .dispatch, .alloc 1, .start 1 3,
      .setprio 0 1 7, .save 0, .dispatch] = some (s, out) ∧
    out.getLast? = some (some 1) ∧ RunqRepresentation s := by
  obtain ⟨⟨s, out⟩, h⟩ := Option.isSome_iff_exists.1
    (show (Runs.outputs opStep (schedInit 1 1) [.alloc 0, .start 0 7, .dispatch, .alloc 1,
      .start 1 3, .setprio 0 1 7, .save 0, .dispatch]).isSome by decide)
  refine ⟨s, out, h, ?_, runq_representation (schedInit_empty 1 1) h⟩
  have hout := congrArg (Option.map fun r => r.2.getLast?) h
  simp only [Option.map_some] at hout
  rw [← Option.some_inj, ← hout]
  decide

end Uthreads
