import Uthreads.Sched.Runq
import Uthreads.Proof.Frame

/-!
# The invariant of the library

`Core` is what holds between any two steps, whatever the calls are: the codes are well formed and
agree with the preemption counters (`Codes`), a POSIX mutex has one holder (`Locks`), every thread
is in one of the places of `Place` and has one waker (`Places`), and the slots of the table are
used in the order of the life of a thread (`Slots`).
-/

namespace Uthreads

variable {N L : ℕ}

open Instr

/-- No LWP has `t` as its `ut_curthr`. -/
def Off (s : State N L) (t : Fin N) : Prop := ∀ l, (s.lwps l).utCurthr ≠ some t

/-- The mutex under which a queue of waiters is used. -/
@[simp] def QueueId.guard : QueueId N → Option (PmtxId N)
  | .mWaiters m => some (.mPmut m)
  | .ucWaiters c => some (.cPmut c)
  | .utWaiter u => some (.utPmut u)
  | .runq _ | .reapQueue => none

/-- The POSIX mutexes that an LWP holds in its own code. -/
@[simp] def LwpMode.holds : LwpMode N → List (PmtxId N)
  | .unlocking p => [p, .runqMtx]
  | .searching | .dispatching | .parking => [.runqMtx]
  | .start | .running | .parked => []

/-- A uthread, or an LWP in its own code, holds `p`. -/
def HeldBy (s : State N L) (p : PmtxId N) : Fin N ⊕ Fin L → Prop
  | .inl t => Held p (s.uthreads t).utCtx
  | .inr l => p ∈ (s.lwps l).mode.holds

/-- A POSIX mutex has at most one holder, and is locked while it has one. -/
structure Locks (s : State N L) : Prop where
  one : ∀ p x y, HeldBy s p x → HeldBy s p y → x = y
  taken : ∀ p x, HeldBy s p x → (s.pmtx p).owner ≠ none ∧ (s.pmtx p).status ≠ .destroyed

/-- No thread that was started is in the slot. -/
def Unstarted (s : State N L) (u : Fin N) : Prop :=
  (s.uthreads u).utState = .noState ∨ (s.uthreads u).utState = .transition

/-- The codes are well formed and agree with the counters and the signal masks. -/
structure Codes (s : State N L) : Prop where
  wf : ∀ t, Wf t (s.uthreads t).utCtx
  depth : ∀ t, Unstarted s t ∨ (s.uthreads t).utCtx = [nopreemptOff] ∨
    depth (s.uthreads t).utCtx ≤ (s.uthreads t).utNoPreemptCount
  unmasked : ∀ l t, OnStack s l t → (s.lwps l).masked = false →
    (s.uthreads t).utNoPreemptCount = 0
  masked : ∀ l, (s.lwps l).mode ≠ .running → (s.lwps l).masked = true

/-- The threads that a code is about to wake. -/
@[simp] def Instr.wakes : Instr N → List (Fin N)
  | wakeTest u => [u]
  | _ => []

def wakes (c : Code N) : List (Fin N) := c.flatMap Instr.wakes

/-- The threads that a code has begun to set up and is about to start. -/
@[simp] def Instr.starts : Instr N → List (Fin N)
  | createInit .ctx _ _ => []
  | createInit _ u _ | startTest u _ => [u]
  | _ => []

def starts (c : Code N) : List (Fin N) := c.flatMap Instr.starts

/-- Another thread has taken `u` off its queue and is about to wake it. -/
def Woken (s : State N L) (u : Fin N) : Prop := ∃ t, u ∈ wakes (s.uthreads t).utCtx

/-- The code of a slot without a thread: never used, or left behind by a thread that has ended. -/
def Gone (t : Fin N) (c : Code N) : Prop :=
  c = [] ∨ c = [resume, panicDead] ∨ c = resume :: panicDead :: deadCode t

/-- Where a thread is. -/
inductive Place (s : State N L) (t : Fin N) : Prop
  /-- A slot without a thread; `uthread_create` may have begun to set it up. -/
  | free (off : Off s t) (st : Unstarted s t) (link : (s.uthreads t).utLink = none)
    (code : Gone t (s.uthreads t).utCtx ∨ (s.uthreads t).utCtx = threadStartCode)
    (hl : (s.pmtx (.utPmut t)).status ≠ .live)
  /-- `uthread_create` has set the slot up, but for the counter, and not started the thread yet. -/
  | created (off : Off s t) (st : Unstarted s t) (link : (s.uthreads t).utLink = none) (code : (s.uthreads t).utCtx = threadStartCode)
    (hl : (s.pmtx (.utPmut t)).status = .live)
  /-- On the run queue. -/
  | queued (off : Off s t) (st : (s.uthreads t).utState = .runnable)
    (code : Ready (s.uthreads t).utCtx) (hl : (s.pmtx (.utPmut t)).status = .live)
  /-- On an LWP, also on its way into or out of `uthread_switch`. -/
  | active (l : Fin L) (cur : (s.lwps l).utCurthr = some t)
    (mode : (s.lwps l).mode = .running ∨
      (s.lwps l).mode = .dispatching ∧ Ready (s.uthreads t).utCtx)
    (st : (s.uthreads t).utState = expect (s.uthreads t).utCtx)
    (link : panicDead ∉ (s.uthreads t).utCtx → (s.uthreads t).utLink = linkOf (s.uthreads t).utCtx)
    (dying : panicDead ∈ (s.uthreads t).utCtx →
      (s.uthreads t).utLink = none ∨ (s.uthreads t).utLink = some .reapQueue)
    (hl : (s.pmtx (.utPmut t)).status = .live)
  /-- Queued as a waiter, while its LWP is about to unlock the mutex of the queue. -/
  | leaving (l : Fin L) (p : PmtxId N) (q : QueueId N) (cur : (s.lwps l).utCurthr = some t)
    (mode : (s.lwps l).mode = .unlocking p) (st : (s.uthreads t).utState = .wait)
    (code : Ready (s.uthreads t).utCtx) (link : (s.uthreads t).utLink = some q)
    (guard : q.guard = some p) (hl : (s.pmtx (.utPmut t)).status = .live)
  /-- Queued as a waiter, off its LWP. -/
  | waiting (q : QueueId N) (off : Off s t) (st : (s.uthreads t).utState = .wait)
    (code : Ready (s.uthreads t).utCtx) (link : (s.uthreads t).utLink = some q)
    (guard : q.guard ≠ none) (hl : (s.pmtx (.utPmut t)).status = .live)
  /-- Taken off the queue by a thread that is about to wake it. -/
  | woken (off : Off s t) (st : (s.uthreads t).utState = .wait)
    (code : Ready (s.uthreads t).utCtx) (link : (s.uthreads t).utLink = none) (w : Woken s t)
    (hl : (s.pmtx (.utPmut t)).status = .live)
  /-- Ended, and off its stack. -/
  | dead (off : Off s t ∨ ∃ l, (s.lwps l).utCurthr = some t ∧ (s.lwps l).mode = .unlocking (.utPmut t))
    (st : (s.uthreads t).utState = .zombie) (code : Gone t (s.uthreads t).utCtx)
    (link : (s.uthreads t).utLink = none ∨ (s.uthreads t).utLink = some .reapQueue)
    (hl : (s.pmtx (.utPmut t)).status = .live)
  /-- Destroyed, but for its state. -/
  | razed (off : Off s t) (st : (s.uthreads t).utState = .zombie) (code : Gone t (s.uthreads t).utCtx)
    (link : (s.uthreads t).utLink = none) (hl : (s.pmtx (.utPmut t)).status = .destroyed)

/-- The places of the threads and their wakers. -/
structure Places (s : State N L) : Prop where
  place : ∀ t, Place s t
  /-- A thread is on one LWP at most. -/
  cur : ∀ l k t, (s.lwps l).utCurthr = some t → (s.lwps k).utCurthr = some t → l = k
  busy : ∀ l, (s.lwps l).utCurthr ≠ none → (s.lwps l).mode = .running ∨
    (s.lwps l).mode = .dispatching ∨ ∃ p, (s.lwps l).mode = .unlocking p
  unlocking : ∀ l p, (s.lwps l).mode = .unlocking p → p ≠ .runqMtx
  woken : ∀ u, Woken s u →
    Off s u ∧ (s.uthreads u).utState = .wait ∧ (s.uthreads u).utLink = none
  waker : ∀ t t' u, u ∈ wakes (s.uthreads t).utCtx → u ∈ wakes (s.uthreads t').utCtx → t = t'
  once : ∀ t, (wakes (s.uthreads t).utCtx).Nodup

/-- How far a slot is set up when `uthread_create` reaches an instruction. -/
@[simp] def SetUp (s : State N L) : Instr N → Prop
  | createInit .ctx _ _ => True
  | createInit .count u _ => (s.pmtx (.utPmut u)).status = .live
  | createInit _ u _ => (s.pmtx (.utPmut u)).status ≠ .live
  | startTest u _ => (s.pmtx (.utPmut u)).status = .live ∧ (s.uthreads u).utNoPreemptCount = 1
  | _ => True

/-- A thread that the reaper is destroying. -/
structure Doomed (s : State N L) (d : DestroyStep) (u : Fin N) : Prop where
  st : (s.uthreads u).utState = .zombie
  link : (s.uthreads u).utLink = none
  off : d ≠ .test → d ≠ .stack → ∀ l, ¬ OnStack s l u
  hl : (s.pmtx (.utPmut u)).status = if d = .state then .destroyed else .live

/-- No thread waits for that of the slot, and none may. -/
def Unwaited (s : State N L) (u : Fin N) : Prop :=
  (s.uthreads u).utDetached = true ∨ (s.uthreads u).utState = .zombie ∨
    (s.pmtx (.utPmut u)).status = .destroyed ∨ (s.uthreads u).utWaiterInit = false

/-- The life of the slots. -/
structure Slots (s : State N L) : Prop where
  init : ∀ u, (s.uthreads u).utWaiterInit = true → (s.pmtx (.utPmut u)).status ≠ .zeroed ∨
    ∃ t prio, createInit .pmut u prio ∈ (s.uthreads t).utCtx
  start : ∀ t u, u ∈ starts (s.uthreads t).utCtx →
    Unstarted s u ∧ (s.uthreads u).utCtx = threadStartCode
  starter : ∀ t t' u, u ∈ starts (s.uthreads t).utCtx → u ∈ starts (s.uthreads t').utCtx → t = t'
  setUp : ∀ t, ∀ i ∈ (s.uthreads t).utCtx, SetUp s i
  waiter : ∀ u, (s.queues (.utWaiter u)).tqWaiters.length ≤ 1
  noWaiter : ∀ u, Unwaited s u → (s.queues (.utWaiter u)).tqWaiters = []
  destroy : ∀ t d u, destroy d u ∈ (s.uthreads t).utCtx → Doomed s d u

/-- The next operation of any thread on `m` that needs to own it finds it owned. -/
def OwnInv (m : MtxId) (s : State N L) : Prop :=
  ∀ t, Owns m (s.uthreads t).utCtx → (s.mtx m).mOwner = some t

/-- **The invariant.** -/
structure Core (s : State N L) : Prop where
  codes : Codes s
  locks : Locks s
  links : LinkInv s
  runq : RunqInv s
  places : Places s
  slots : Slots s
  reap : OwnInv .reapMtx s

@[simp] theorem wakes_nil : wakes ([] : Code N) = [] := rfl

@[simp] theorem wakes_cons (i : Instr N) (cs : Code N) : wakes (i :: cs) = i.wakes ++ wakes cs :=
  List.flatMap_cons

@[simp] theorem wakes_append (c cs : Code N) : wakes (c ++ cs) = wakes c ++ wakes cs :=
  List.flatMap_append

@[simp] theorem starts_nil : starts ([] : Code N) = [] := rfl

@[simp] theorem starts_cons (i : Instr N) (cs : Code N) : starts (i :: cs) = i.starts ++ starts cs :=
  List.flatMap_cons

@[simp] theorem starts_append (c cs : Code N) : starts (c ++ cs) = starts c ++ starts cs :=
  List.flatMap_append

@[simp] theorem wakes_createRest (tid : Fin N) (prio : ℤ) (w : CreateStep) :
    wakes (createRest tid prio w) = [] := by
  cases w <;> simp [createRest, uthreadStartonrunq]

@[simp] theorem wakes_destroyRest (uth : Fin N) (d : DestroyStep) :
    wakes (destroyRest uth d) = [] := by
  cases d <;> simp [destroyRest]

@[simp] theorem starts_createRest (tid : Fin N) (prio : ℤ) (w : CreateStep) :
    starts (createRest tid prio w) = [tid] := by
  cases w <;> simp [createRest, uthreadStartonrunq]

@[simp] theorem starts_destroyRest (uth : Fin N) (d : DestroyStep) :
    starts (destroyRest uth d) = [] := by
  cases d <;> simp [destroyRest]

theorem Gone.not_held {t : Fin N} {c : Code N} (h : Gone t c) (p : PmtxId N) : ¬ Held p c := by
  rcases h with rfl | rfl | rfl <;> simp

theorem Gone.wakes_eq {t : Fin N} {c : Code N} (h : Gone t c) : wakes c = [] := by
  rcases h with rfl | rfl | rfl <;> simp [deadCode, uthreadSwitch]

theorem mem_starts {u : Fin N} {c : Code N} : u ∈ starts c ↔ c.any (Instr.setsUp u) = true := by
  simp only [starts, List.mem_flatMap, List.any_eq_true]
  refine exists_congr fun i => and_congr_right fun _ => ?_
  cases i with
  | createInit w => cases w <;> simp [eq_comm]
  | startTest => simp [eq_comm]
  | _ => simp

variable {s s' : State N L} {t u : Fin N} {l : Fin L}

theorem OnStack.not_off (h : OnStack s l t) : ¬ Off s t := fun ho => ho l h.2

/-- A running thread is where its code says. -/
theorem Core.active (h : Core s) (hon : OnStack s l t) :
    (s.uthreads t).utState = expect (s.uthreads t).utCtx ∧
      (panicDead ∉ (s.uthreads t).utCtx → (s.uthreads t).utLink = linkOf (s.uthreads t).utCtx) ∧
      (panicDead ∈ (s.uthreads t).utCtx →
        (s.uthreads t).utLink = none ∨ (s.uthreads t).utLink = some .reapQueue) ∧
      (s.pmtx (.utPmut t)).status = .live := by
  cases h.places.place t with
  | free off | created off | queued off | waiting _ off | woken off | razed off =>
    exact absurd off hon.not_off
  | active k hk hm hst hlk hd hl => exact ⟨hst, hlk, hd, hl⟩
  | leaving k p q hk hm =>
    rw [← h.places.cur l k t hon.2 hk, hon.1] at hm
    cases hm
  | dead off =>
    rcases off with off | ⟨k, hk, hm⟩
    · exact absurd off hon.not_off
    · rw [← h.places.cur l k t hon.2 hk, hon.1] at hm
      cases hm

/-- A running thread is on no queue of waiters of a uthread mutex or a condition variable. -/
theorem Core.not_queued (h : Core s) (hon : OnStack s l t) {q : QueueId N}
    (hj : ∀ u, q ≠ .utWaiter u) (hr : q ≠ .reapQueue) : t ∉ (s.queues q).tqWaiters := by
  intro hmem
  have hlk := (h.links.link t q).2 hmem
  obtain ⟨-, hlink, hdy, -⟩ := h.active hon
  by_cases hd : panicDead ∈ (s.uthreads t).utCtx
  · rcases hdy hd with e | e <;> rw [e] at hlk <;> cases hlk
    exact hr rfl
  · rw [hlink hd] at hlk
    unfold linkOf at hlk
    split at hlk <;> cases hlk <;> exact hj _ rfl

/-- A slot whose mutex is not in use has no thread. -/
theorem Core.free (h : Core s) (hl : (s.pmtx (.utPmut t)).status ≠ .live) :
    Off s t ∧ (Unstarted s t ∨ (s.uthreads t).utState = .zombie) ∧ (s.uthreads t).utLink = none ∧
      (Gone t (s.uthreads t).utCtx ∨ (s.uthreads t).utCtx = threadStartCode) := by
  cases h.places.place t with
  | free off st link code => exact ⟨off, .inl st, link, code⟩
  | razed off st code link => exact ⟨off, .inr st, link, .inl code⟩
  | created _ _ _ _ h | queued _ _ _ h | active _ _ _ _ _ _ h | leaving _ _ _ _ _ _ _ _ _ h
  | waiting _ _ _ _ _ _ h | woken _ _ _ _ _ h | dead _ _ _ _ h => exact absurd h hl

/-- A vacant slot. -/
theorem Core.vacant (h : Core s) (hv : Vacant s u) : Off s u ∧ Unstarted s u ∧
    (s.uthreads u).utLink = none ∧ ∀ t, u ∉ starts (s.uthreads t).utCtx := by
  obtain ⟨off, st, link, -⟩ := h.free hv.1
  refine ⟨off, st.resolve_right hv.2.1, link, fun t hm => ?_⟩
  rw [mem_starts, hv.2.2 t] at hm
  cases hm

/-- A slot whose thread has not been started yet. -/
theorem Core.unstarted (h : Core s) (hu : Unstarted s t) : Off s t ∧ (s.uthreads t).utLink = none ∧
    (Gone t (s.uthreads t).utCtx ∨ (s.uthreads t).utCtx = threadStartCode) := by
  unfold Unstarted at hu
  cases h.places.place t with
  | free off _ link code => exact ⟨off, link, code⟩
  | created off _ link code => exact ⟨off, link, .inr code⟩
  | queued _ st | leaving _ _ _ _ _ st | waiting _ _ st | woken _ st | dead _ st | razed _ st =>
    rw [st] at hu
    rcases hu with hu | hu <;> cases hu
  | active _ _ _ st =>
    rw [st] at hu
    unfold expect at hu
    split_ifs at hu <;> rcases hu with hu | hu <;> cases hu

/-- The slot that a `uthread_create` is about to write to. -/
theorem Core.creating {w : CreateStep} {prio : ℤ} {cs new : Code N} (h : Core s)
    (hcode : (s.uthreads t).utCtx = createInit w u prio :: cs)
    (he : Effect l t s (createInit w u prio) s' new) :
    Off s u ∧ Unstarted s u ∧ (s.uthreads u).utLink = none ∧
      (w ≠ .count → (s.pmtx (.utPmut u)).status ≠ .live) := by
  obtain ⟨-, -, hv, -⟩ := effect_create he
  by_cases hw : w = .ctx
  · obtain ⟨off, st, link, -⟩ := h.vacant (hv hw)
    exact ⟨off, st, link, fun _ => (hv hw).1⟩
  · have hst := (h.slots.start t u (by rw [hcode]; cases w <;> simp at hw ⊢)).1
    obtain ⟨off, link, -⟩ := h.unstarted hst
    refine ⟨off, hst, link, fun hcount => ?_⟩
    have hset := h.slots.setUp t (createInit w u prio) (by rw [hcode]; exact List.mem_cons_self)
    cases w <;> first | exact hset | exact absurd rfl hw | exact absurd rfl hcount

/-- What a running thread has to switch on again. -/
theorem Core.depth (h : Core s) (hon : OnStack s l t) : (s.uthreads t).utCtx = [nopreemptOff] ∨
    Uthreads.depth (s.uthreads t).utCtx ≤ (s.uthreads t).utNoPreemptCount :=
  (h.codes.depth t).resolve_left fun hu => hon.not_off (h.unstarted hu).1

/-- **Whom a queue operation finds.** A waiter that another thread takes off its queue under the
mutex of the queue has left its LWP. -/
theorem Core.waiting (h : Core s) {q : QueueId N} {p : PmtxId N} (hq : q.guard = some p)
    (hlk : (s.uthreads u).utLink = some q) (hp : Held p (s.uthreads t).utCtx)
    (ht : linkOf (s.uthreads t).utCtx = none) :
    Off s u ∧ (s.uthreads u).utState = .wait ∧ Ready (s.uthreads u).utCtx ∧
      (s.pmtx (.utPmut u)).status = .live := by
  cases h.places.place u with
  | free _ _ link | created _ _ link | woken _ _ _ link | razed _ _ _ link => rw [link] at hlk; cases hlk
  | queued off st =>
    obtain ⟨r, -, hr⟩ := h.runq.mem_of_runnable st
    have := (h.links.link u (.runq r)).2 ((hr r).2 rfl)
    rw [hlk] at this
    cases this
    cases hq
  | active k hk hm hst hlink hdy =>
    by_cases hd : panicDead ∈ (s.uthreads u).utCtx
    · rcases hdy hd with e | e <;> rw [e] at hlk <;> cases hlk
      cases hq
    · have hlo := hlk.symm.trans (hlink hd)
      have hheld : Held p (s.uthreads u).utCtx := by
        unfold linkOf at hlo
        split at hlo <;> cases hlo <;> cases hq <;> rename_i e <;> simp [e]
      have := h.locks.one p (.inl u) (.inl t) hheld hp
      cases this
      rw [ht] at hlo
      cases hlo
  | leaving k p' q' hk hm _ _ hlink hg =>
    rw [hlink] at hlk
    cases hlk
    rw [hg] at hq
    cases hq
    have := h.locks.one p (.inr k) (.inl t) (by simp [HeldBy, hm]) hp
    cases this
  | waiting q' off st code _ _ hl => exact ⟨off, st, code, hl⟩
  | dead _ _ _ link =>
    rcases link with e | e <;> rw [e] at hlk <;> cases hlk
    cases hq

end Uthreads
