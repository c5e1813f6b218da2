import Uthreads.Proof.Turn

/-!
# Threads between two LWPs

`well_placed`: in every reachable state a thread is in one place, also in the middle of the switches of
any number of LWPs. A thread that somebody can dispatch or take off a queue of waiters is off its
stack, a thread that waits is on its way, queued once or about to be woken by one thread, and no
wake-up is dropped.
-/

namespace Uthreads

variable {N L : ℕ} {l : Fin L} {t u : Fin N} {s : State N L} {cs : Code N}

open Instr

/-- The mutex of the uthread mutex or condition variable whose waiters the queue holds. -/
def QueueId.pmut : QueueId N → Option (PmtxId N)
  | mWaiters m => some (.mPmut m)
  | ucWaiters c => some (.cPmut c)
  | _ => none

/-- The thread is on its stack, on its way to `uthread_switch`. -/
def OnItsWay (s : State N L) (t : Fin N) : Prop :=
  ∃ l, OnStack s l t ∧ asleep (s.uthreads t).utCtx = true

/-- The thread is on one queue of waiters, once, and on no other queue. -/
def QueuedOnce (s : State N L) (t : Fin N) : Prop :=
  ∃ q : QueueId N, q.guard ≠ none ∧
    ∀ r, (s.queues r).tqWaiters.count t = if r = q then 1 else 0

/-- The thread is on no queue, and exactly one other has a wake-up for it in its code, once. -/
def AboutToWake (s : State N L) (t : Fin N) : Prop :=
  (∀ r, t ∉ (s.queues r).tqWaiters) ∧
    ∃ w, (wakes (s.uthreads w).utCtx).count t = 1 ∧ ∀ x, t ∈ wakes (s.uthreads x).utCtx → x = w

/-- Where the threads are. -/
structure WellPlaced (s : State N L) : Prop where
  oneLwp : ∀ l k t, (s.lwps l).utCurthr = some t → (s.lwps k).utCurthr = some t → l = k
  /-- Whom `lwp_switch` can dispatch. -/
  runnable : ∀ p, ∀ t ∈ (s.queues (.runq p)).tqWaiters, Off s t
  /-- Whom an unlock or a signal can take off its queue: the mutex of the queue is not held by an LWP
  that has queued a thread and not left its stack behind yet. -/
  waiter : ∀ q p, q.pmut = some p → (∀ l, (s.lwps l).mode ≠ .unlocking p) →
    ∀ t ∈ (s.queues q).tqWaiters, Off s t
  waiting : ∀ t, (s.uthreads t).utState = .wait → OnItsWay s t ∨ QueuedOnce s t ∨ AboutToWake s t
  wakes : ∀ l t u cs, OnStack s l t → (s.uthreads t).utCtx = wakeTest u :: cs →
    (s.uthreads u).utState = .wait

theorem LinkInv.queuedOnce (h : LinkInv s) {q : QueueId N} (hlk : (s.uthreads t).utLink = some q)
    (hq : q.guard ≠ none) : QueuedOnce s t := by
  refine ⟨q, hq, fun r => ?_⟩
  rw [List.Nodup.count (h.nodup r)]
  simp only [h.mem_iff ((h.link t q).1 hlk)]

theorem Places.aboutToWake (h : Places s) (hl : LinkInv s) (hlk : (s.uthreads t).utLink = none)
    (hw : Woken s t) : AboutToWake s t := by
  obtain ⟨w, hw⟩ := hw
  refine ⟨hl.not_mem hlk, w, ?_, fun x hx => h.waker x w t hx hw⟩
  rw [List.Nodup.count (h.once w), if_pos hw]

theorem Core.waiting_place (h : Core s) (hst : (s.uthreads t).utState = .wait) :
    OnItsWay s t ∨ QueuedOnce s t ∨ AboutToWake s t := by
  cases h.places.place t with
  | free _ st | created _ st => rcases st with e | e <;> rw [hst] at e <;> cases e
  | queued _ st | dead _ st | razed _ st => rw [hst] at st; cases st
  | active l hcur hm st =>
    left
    have hsleep : asleep (s.uthreads t).utCtx = true := by
      rw [hst] at st
      unfold expect at st
      split_ifs at st
      assumption
    rcases hm with hm | ⟨-, hready⟩
    · exact ⟨l, ⟨hm, hcur⟩, hsleep⟩
    · rw [hready.2] at hsleep
      cases hsleep
  | leaving l p q _ _ _ _ hlk hg => exact .inr (.inl (h.links.queuedOnce hlk (by rw [hg]; simp)))
  | waiting q _ _ _ hlk hg => exact .inr (.inl (h.links.queuedOnce hlk hg))
  | woken _ _ _ hlk hw => exact .inr (.inr (h.places.aboutToWake h.links hlk hw))

/-- Who is queued on a mutex or a condition variable has left its stack once the LWP has unlocked. -/
theorem Core.waiter_off (h : Core s) {q : QueueId N} {p : PmtxId N} (hq : q.pmut = some p)
    (hno : ∀ l, (s.lwps l).mode ≠ .unlocking p) (ht : t ∈ (s.queues q).tqWaiters) : Off s t := by
  have hlk : (s.uthreads t).utLink = some q := (h.links.link t q).2 ht
  cases h.places.place t with
  | free off | created off | queued off | waiting _ off | woken off | razed off => exact off
  | active l hcur hm st link dying =>
    exfalso
    by_cases hd : panicDead ∈ (s.uthreads t).utCtx
    · rcases dying hd with e | e <;> rw [hlk] at e <;> cases e
      cases hq
    · -- `uthread_join` queues its caller on a `ut_waiter`
      have hof := hlk.symm.trans (link hd)
      unfold linkOf at hof
      split at hof <;> cases hof <;> cases hq
  | leaving l r q' _ hm _ _ hlk' hg =>
    rw [hlk] at hlk'
    cases hlk'
    have hpr : r = p := by
      cases q <;> simp only [QueueId.pmut, QueueId.guard, Option.some.injEq, reduceCtorEq] at hq hg
      · exact hg.symm.trans hq
      · exact hg.symm.trans hq
    exact absurd (hpr ▸ hm) (hno l)
  | dead _ _ _ link =>
    rcases link with e | e <;> rw [hlk] at e <;> cases e
    cases hq

/-- **No thread runs twice and no blocked thread is lost.** -/
theorem well_placed {s : State (N + 2) (L + 1)} (h : Reachable Runs.always (boot N L) s) :
    WellPlaced s := by
  have hc := core_reachable boot_core h
  refine ⟨hc.places.cur, fun p t ht => ?_, fun q p hq hno t ht => hc.waiter_off hq hno ht,
    fun t hst => hc.waiting_place hst, fun l t u cs hon hcode => ?_⟩
  · have hst := ((hc.runq.mem t p).1 ht).1
    cases hc.places.place t with
    | free off | created off | queued off | waiting _ off | woken off | razed off => exact off
    | active l _ _ st =>
      rw [hst] at st
      unfold expect at st
      split_ifs at st
    | leaving _ _ _ _ _ st | dead _ st => rw [hst] at st; cases st
  · exact (hc.places.woken u ⟨t, by rw [hcode]; simp⟩).2.1

/-- The first thread takes a mutex on LWP `l`, and a thread that it has created wants it on LWP `k`. -/
def contend (l k : Fin L) : List (Fin L × Act) :=
  turns l 4 ++ [(l, .call (.create 7))] ++ turns l 23 ++ turns k 27 ++ [(l, .call (.mtxLock 0))] ++
    turns l 5 ++ [(k, .call (.mtxLock 0))] ++ turns k 8

theorem well_placed_blocked : ∃ s : State 3 2, WellPlaced s ∧ OnStack s 0 0 ∧
    (s.mtx (.user 0)).mOwner = some 0 ∧ (s.uthreads 2).utState = .wait ∧ (s.lwps 1).utCurthr = none := by
  obtain ⟨s, hs, hP⟩ : ∃ s : State 3 2, Reachable Runs.always (boot 1 1) s ∧ OnStack s 0 0 ∧
      (s.mtx (.user 0)).mOwner = some 0 ∧ (s.uthreads 2).utState = .wait ∧
      (s.lwps 1).utCurthr = none :=
    Runs.exists_reach (contend 0 1) (by decide +kernel)
  exact ⟨s, well_placed hs, hP⟩

end Uthreads
