import Uthreads.Sched.Ops
import Uthreads.Proof.OwnStep

/-!
# Links and run queues in the whole library

`queues_step`: every step of the library keeps `LinkInv` and `RunqInv`. The lemmas of the scheduler
do the work; here the instructions are sorted by the operation that they perform.
-/

namespace Uthreads

variable {N L : ℕ} {l : Fin L} {t u : Fin N} {s s' s₁ : State N L} {i : Instr N} {cs new : Code N}

open Instr

/-- The two invariants read nothing but the table, the queues and the counter. -/
theorem queues_congr (hl : LinkInv s) (hr : RunqInv s)
    (hu : ∀ u, (s'.uthreads u).utLink = (s.uthreads u).utLink ∧
      ((s'.uthreads u).utState = .runnable ↔ (s.uthreads u).utState = .runnable) ∧
      ((s.uthreads u).utState = .runnable → (s'.uthreads u).utPrio = (s.uthreads u).utPrio))
    (hq : s'.queues = s.queues) (hs : s'.runqSize = s.runqSize) : LinkInv s' ∧ RunqInv s' :=
  ⟨hl.congr (fun u => (hu u).1) (fun r => by rw [hq]),
    hr.congr (fun u => (hu u).2.1) (fun u h => (hu u).2.2 h) (fun p => by rw [hq]) hs⟩

theorem queues_same (h : LinkInv s ∧ RunqInv s) (hu : s'.uthreads = s.uthreads)
    (hq : s'.queues = s.queues) (hs : s'.runqSize = s.runqSize) : LinkInv s' ∧ RunqInv s' :=
  queues_congr h.1 h.2 (fun u => by simp [hu]) hq hs

theorem queues_core (h : LinkInv s ∧ RunqInv s) (hs : SameCore s s') : LinkInv s' ∧ RunqInv s' :=
  queues_same h hs.uthreads hs.queues hs.runqSize

theorem queues_setLwp (h : LinkInv s ∧ RunqInv s) (l : Fin L) (x : Lwp N) :
    LinkInv (s.setLwp l x) ∧ RunqInv (s.setLwp l x) :=
  queues_same h rfl rfl rfl

theorem queues_setState (h : LinkInv s ∧ RunqInv s) (ht : (s.uthreads t).utState ≠ .runnable)
    {st : UthreadState} (hst : st ≠ .runnable) :
    LinkInv (s.setState t st) ∧ RunqInv (s.setState t st) :=
  ⟨h.1.setState st, h.2.setState ht hst⟩

/-- Fields of a thread that the invariants do not read, and the state of one that is not runnable. -/
theorem queues_modUthread (h : LinkInv s ∧ RunqInv s) (f : Uthread N → Uthread N)
    (hlk : (f (s.uthreads t)).utLink = (s.uthreads t).utLink)
    (hst : (f (s.uthreads t)).utState = (s.uthreads t).utState ∧
        (f (s.uthreads t)).utPrio = (s.uthreads t).utPrio ∨
      (f (s.uthreads t)).utState ≠ .runnable ∧ (s.uthreads t).utState ≠ .runnable) :
    LinkInv (s.modUthread t f) ∧ RunqInv (s.modUthread t f) := by
  refine queues_congr h.1 h.2 (fun u => ?_) rfl rfl
  by_cases hu : u = t
  · subst hu
    rcases hst with ⟨h₁, h₂⟩ | ⟨h₁, h₂⟩ <;> simp [hlk, h₁, h₂]
  · simp [hu]

/-- The empty queue of the joiners is initialised again. -/
theorem queues_initWaiter (h : LinkInv s ∧ RunqInv s)
    (hq : (s.queues (.utWaiter u)).tqWaiters = []) :
    LinkInv (s.setQueue (.utWaiter u) .init) ∧ RunqInv (s.setQueue (.utWaiter u) .init) := by
  refine ⟨h.1.congr (fun v => rfl) fun r => ?_,
    h.2.congr (fun v => Iff.rfl) (fun v _ => rfl) (fun p => by simp) rfl⟩
  by_cases hr : r = .utWaiter u
  · subst hr; simp [hq]
  · simp [hr]

/-- The run queue with the waiting threads that a queue operation moves. -/
theorem queues_enqueue {q : QueueId N} (h : LinkInv s ∧ RunqInv s) (hq : q.isRunq = false)
    (hs : utqueueEnqueue q t s = .ok s') : LinkInv s' ∧ RunqInv s' :=
  ⟨h.1.enqueue hs, h.2.enqueueOther hq hs⟩

theorem queues_dequeue {q : QueueId N} (h : LinkInv s ∧ RunqInv s) (hq : q.isRunq = false)
    (hs : utqueueDequeue q s = some (t, s')) : LinkInv s' ∧ RunqInv s' :=
  ⟨h.1.dequeue hs, h.2.dequeueOther hq hs⟩

/-- A dying or waiting or running thread is not runnable. -/
theorem expect_ne_runnable (c : Code N) : expect c ≠ .runnable := by
  unfold expect
  split
  · simp
  · split <;> simp

/-- Nobody waits for the thread of a slot whose queue of joiners `uthread_create` initialises. -/
theorem Core.create_empty {prio : ℤ} (hc : Core s)
    (hcode : (s.uthreads t).utCtx = createInit .waiter u prio :: cs)
    (he : Effect l t s (createInit .waiter u prio) s₁ new) :
    (s.queues (.utWaiter u)).tqWaiters = [] := by
  have hlive := (hc.creating hcode he).2.2.2 (by decide)
  have hwf := hc.codes.wf t
  rw [hcode] at hwf
  have hcs : cs = [] := hwf.1
  by_cases hinit : (s.uthreads u).utWaiterInit = true
  · rcases hc.slots.init u hinit with hz | ⟨t', prio', hmem⟩
    · refine hc.slots.noWaiter u (.inr (.inr (.inl ?_)))
      cases e : (s.pmtx (.utPmut u)).status with
      | zeroed => exact absurd e hz
      | live => exact absurd e hlive
      | destroyed => rfl
    · have ht : t = t' := hc.slots.starter t t' u (by rw [hcode]; simp)
        (mem_starts.2 (List.any_eq_true.2 ⟨_, hmem, by simp⟩))
      rw [← ht, hcode, hcs] at hmem
      simp at hmem
  · exact hc.slots.noWaiter u (.inr (.inr (.inr (by simpa using hinit))))

theorem queues_thread (hc : Core s) (hon : OnStack s l t) (hcode : (s.uthreads t).utCtx = i :: cs)
    (he : Effect l t s i s₁ new) : LinkInv s₁ ∧ RunqInv s₁ := by
  have hwf := hc.codes.wf t
  have hst := (hc.active hon).1
  rw [hcode] at hwf
  have hrun : (s.uthreads t).utState ≠ .runnable := by rw [hst]; exact expect_ne_runnable _
  have h : LinkInv s ∧ RunqInv s := ⟨hc.links, hc.runq⟩
  cases he with
  | plain hp hs => exact queues_core h hs
  | lock | unlock => exact queues_same h rfl rfl rfl
  | nopreemptOn | nopreemptOff | interruptLeave =>
    exact queues_modUthread (queues_setLwp h _ _) _ rfl (.inl ⟨rfl, rfl⟩)
  | claim => exact queues_modUthread h _ rfl (.inl ⟨rfl, rfl⟩)
  | swtch hsw =>
    cases hsw with
    | yield hz hs₁ => exact queues_same ⟨h.1.runqEnqueue hs₁, h.2.save h.1 hrun hs₁⟩ rfl rfl rfl
    | queue q p hs₁ hs =>
      have hq : q.isRunq = false := by
        cases hwf.1 <;> rfl
      exact queues_same (queues_enqueue h hq hs₁) hs.uthreads hs.queues hs.runqSize
    | leave | gone => exact queues_same h rfl rfl rfl
  | wake v hw hs => exact ⟨h.1.runqEnqueue hs, h.2.enqueue h.1 (by rw [hw]; decide) hs⟩
  | start v prio hv hs =>
    have hne : (s.uthreads v).utState ≠ .runnable := by rw [hv]; decide
    exact ⟨(h.1.setPrio prio).runqEnqueue hs,
      (h.2.setPrio hne prio).enqueue (h.1.setPrio prio) (by simpa using hne) hs⟩
  | setprio v prio hs hnew =>
    rcases hs with ⟨rfl, hne⟩ | ⟨hv, hr⟩
    · exact ⟨h.1.setPrio prio, h.2.setPrio hne prio⟩
    · exact ⟨(h.1.setPrio prio).requeue hr, h.2.requeue h.1 hv hr⟩
  | take m ho hs | release m hq hs =>
    exact queues_same h hs.uthreads hs.queues hs.runqSize
  | block m ho => exact queues_setState h hrun (by decide)
  | waitMark c hs => exact queues_core (queues_setState h hrun (by decide)) hs
  | handOver m v hq hs =>
    exact queues_same (queues_dequeue h rfl hq) hs.uthreads hs.queues hs.runqSize
  | signal c v hq hs hnew => exact queues_core (queues_dequeue h rfl hq) hs
  | alloc start prio v hv hs =>
    have hno := allocWhile_noState hv
    exact queues_core (queues_setState h (by rw [hno]; decide) (by decide)) hs
  | create w v prio hv hl hp =>
    have he : Effect l t s _ _ _ := .create w v prio hv hl hp
    obtain ⟨-, hv, hlk, -⟩ := hc.creating hcode he
    have hne : (s.uthreads v).utState ≠ .runnable := by rcases hv with e | e <;> rw [e] <;> decide
    cases w with
    | ctx =>
      simp only [createWrite]
      split_ifs
      · exact h
      · exact queues_modUthread h _ rfl (.inl ⟨rfl, rfl⟩)
    | link => exact queues_modUthread h (fun x => { x with utLink := none }) hlk.symm (.inl ⟨rfl, rfl⟩)
    | prio => exact queues_modUthread h (fun x => { x with utPrio := -1 }) rfl (.inr ⟨hne, hne⟩)
    | exit => exact queues_modUthread h (fun x => { x with utExit := 0 }) rfl (.inl ⟨rfl, rfl⟩)
    | count =>
      exact queues_modUthread h (fun x => { x with utNoPreemptCount := 1 }) rfl (.inl ⟨rfl, rfl⟩)
    | waiter =>
      exact queues_initWaiter (queues_modUthread h (fun x => { x with utWaiterInit := true }) rfl
        (.inl ⟨rfl, rfl⟩)) (hc.create_empty hcode he)
    | pmut => exact queues_same h rfl rfl rfl
  | exitDetached v status hd | exitAlone v status hd =>
    obtain ⟨rfl, -⟩ := hwf.1
    exact queues_modUthread h _ rfl (.inr ⟨by simp, hrun⟩)
  | exitJoined v w status hd hq =>
    obtain ⟨rfl, -⟩ := hwf.1
    exact queues_dequeue (queues_modUthread h _ rfl (.inr ⟨by simp, hrun⟩)) rfl hq
  | makeReapable v hz hs₁ hs => exact queues_core (queues_enqueue h rfl hs₁) hs
  | joinWait v k hq hd hz hinit hs₁ hs =>
    exact queues_core (queues_enqueue (queues_setState h hrun (by decide)) rfl hs₁) hs
  | detach v k hq hd hinit hs =>
    exact queues_core (queues_modUthread h _ rfl (.inl ⟨rfl, rfl⟩)) hs
  | drain v hq hz => exact queues_dequeue h rfl hq
  | destroy d v =>
    have hz := (hc.slots.destroy t d v (by rw [hcode]; exact List.mem_cons_self)).st
    cases d with
    | test | stack => exact h
    | detached => exact queues_modUthread h (fun x => { x with utDetached := false }) rfl (.inl ⟨rfl, rfl⟩)
    | exit => exact queues_modUthread h (fun x => { x with utExit := 0 }) rfl (.inl ⟨rfl, rfl⟩)
    | waiter => exact queues_initWaiter h (hc.slots.noWaiter v (.inr (.inl hz)))
    | pmut => exact queues_same h rfl rfl rfl
    | state => exact queues_same (queues_setState h (by rw [hz]; decide) (by decide)) rfl rfl rfl

/-- **Every step keeps the links and the run queues.** -/
theorem queues_step {a : Act} (hc : Core s) (h : Move s l a s') : LinkInv s' ∧ RunqInv s' := by
  have hs : LinkInv s ∧ RunqInv s := ⟨hc.links, hc.runq⟩
  cases h with
  | halted e => exact queues_same hs rfl rfl rfl
  | thread t i cs new hon hcode he =>
    exact queues_modUthread (queues_thread hc hon hcode he) _ rfl (.inl ⟨rfl, rfl⟩)
  | call t c hon hcode => exact queues_modUthread hs _ rfl (.inl ⟨rfl, rfl⟩)
  | preempt t hon hm hst h0 =>
    exact queues_modUthread (queues_setLwp hs _ _) _ rfl (.inl ⟨rfl, rfl⟩)
  | acquire m hm hst ho hk => exact queues_same hs hk.uthreads hk.queues hk.runqSize
  | unlock p hm ho => exact queues_same hs rfl rfl rfl
  | dispatch t hm hd =>
    exact queues_same ⟨hs.1.dispatch hd, hs.2.dispatch hs.1 hd⟩ rfl rfl rfl
  | idle m hm hk => exact queues_same hs hk.uthreads hk.queues hk.runqSize
  | leave m hm ho hk => exact queues_same hs hk.uthreads hk.queues hk.runqSize

end Uthreads
