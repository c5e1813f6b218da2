import Mathlib.Algebra.BigOperators.Group.Finset.Basic
import Mathlib.Algebra.BigOperators.Fin
import Mathlib.Tactic.Ring
import Uthreads.Sched.Links

/-!
# The run queues under `runq_mtx`

`RunqInv`, with `LinkInv`, ties the four records of the same fact together: the state of a thread,
its priority, the level of `runq_table` it is linked on, and the two counters.

* `RunqInv.enqueue`: making a thread runnable with `uthread_runq_enqueue` (a start, a wake-up, the
  save of a yielding thread) keeps it.
* `RunqInv.requeue`: `uthread_runq_requeue` after a change of priority keeps it.
* `RunqInv.dispatch`: the dispatch of `lwp_switch` keeps it.
* `RunqInv.congr`: so does everything that leaves the runnable threads and the run queues alone.
* `RunqInv.size_eq_card`: `runq_size` is the number of runnable threads.
-/

namespace Uthreads

open Finset

variable {N L : ℕ}

/-- The representation invariant of the run queues. -/
structure RunqInv (s : State N L) : Prop where
  mem : ∀ t p, t ∈ (s.queues (.runq p)).tqWaiters ↔
    (s.uthreads t).utState = .runnable ∧ (s.uthreads t).utPrio = ((p : ℕ) : ℤ)
  prio : ∀ t, (s.uthreads t).utState = .runnable →
    ∃ p : Fin (uthMaxprio + 1), (s.uthreads t).utPrio = ((p : ℕ) : ℤ)
  size : s.runqSize = ∑ p, ((s.queues (.runq p)).tqSize : ℤ)

variable {s s' : State N L} {t : Fin N}

theorem RunqInv.not_mem (h : RunqInv s) (ht : (s.uthreads t).utState ≠ .runnable)
    (p : Fin (uthMaxprio + 1)) : t ∉ (s.queues (.runq p)).tqWaiters :=
  fun hm => ht ((h.mem t p).1 hm).1

/-- A runnable thread is linked on the level of its priority. -/
theorem RunqInv.mem_of_runnable (h : RunqInv s) (ht : (s.uthreads t).utState = .runnable) :
    ∃ p : Fin (uthMaxprio + 1), (s.uthreads t).utPrio = ((p : ℕ) : ℤ) ∧
      ∀ r, t ∈ (s.queues (.runq r)).tqWaiters ↔ r = p := by
  obtain ⟨p, hp⟩ := h.prio t ht
  refine ⟨p, hp, fun r => ?_⟩
  rw [h.mem, hp]
  constructor
  · rintro ⟨-, e⟩; exact Fin.ext (by exact_mod_cast e.symm)
  · rintro rfl; exact ⟨ht, rfl⟩

/-- The invariant reads only the run queues and the state, priority and link of the threads. -/
theorem RunqInv.congr (h : RunqInv s)
    (hst : ∀ u, (s'.uthreads u).utState = .runnable ↔ (s.uthreads u).utState = .runnable)
    (hpr : ∀ u, (s.uthreads u).utState = .runnable → (s'.uthreads u).utPrio = (s.uthreads u).utPrio)
    (hq : ∀ p, s'.queues (.runq p) = s.queues (.runq p)) (hsz : s'.runqSize = s.runqSize) :
    RunqInv s' := by
  constructor
  · intro u p
    rw [hq, h.mem, hst]
    exact and_congr_right fun hu => by rw [hpr u hu]
  · intro u hu
    rw [hst] at hu
    rw [hpr u hu]; exact h.prio u hu
  · simp only [hsz, hq]; exact h.size

/-- The number of the levels that hold `t`: one if it is runnable. -/
theorem RunqInv.sum_mem (h : RunqInv s) (t : Fin N) :
    ∑ r, (if t ∈ (s.queues (.runq r)).tqWaiters then 1 else 0 : ℤ) =
      if (s.uthreads t).utState = .runnable then 1 else 0 := by
  by_cases ht : (s.uthreads t).utState = .runnable
  · obtain ⟨p, -, hlev⟩ := h.mem_of_runnable ht
    simp only [hlev, ht, if_true, Finset.sum_ite_eq', mem_univ]
  · simp only [h.not_mem ht, ht, if_false, Finset.sum_const_zero]

/-- **One thread moves.** `t` leaves the run queues and, if `lvl` names a level, is appended to
it: every operation on the run queues is of this form. -/
theorem RunqInv.move (h : RunqInv s) (hl : LinkInv s) (t : Fin N) (lvl : Option (Fin (uthMaxprio + 1)))
    (hst : ∀ u, u ≠ t → (s'.uthreads u).utState = (s.uthreads u).utState)
    (hpr : ∀ u, u ≠ t → (s'.uthreads u).utPrio = (s.uthreads u).utPrio)
    (hq : ∀ r, (s'.queues (.runq r)).tqWaiters =
      (s.queues (.runq r)).tqWaiters.erase t ++ if lvl = some r then [t] else [])
    (hst' : (s'.uthreads t).utState = .runnable ↔ lvl ≠ none)
    (hpr' : ∀ r, lvl = some r → (s'.uthreads t).utPrio = ((r : ℕ) : ℤ))
    (hsz : s'.runqSize = s.runqSize - (if (s.uthreads t).utState = .runnable then 1 else 0) +
      if lvl = none then 0 else 1) : RunqInv s' := by
  have hmem : ∀ u r, u ∈ (s'.queues (.runq r)).tqWaiters ↔
      (u ≠ t ∧ u ∈ (s.queues (.runq r)).tqWaiters) ∨ (u = t ∧ lvl = some r) := by
    intro u r
    rw [hq, List.mem_append, (hl.nodup _).mem_erase_iff]
    by_cases hr : lvl = some r <;> simp [hr]
  constructor
  · intro u r
    rw [hmem]
    by_cases hut : u = t
    · subst hut
      rw [hst']
      constructor
      · rintro (⟨hne, -⟩ | ⟨-, hr⟩)
        · exact absurd rfl hne
        · exact ⟨by simp [hr], hpr' r hr⟩
      · rintro ⟨hsome, hp⟩
        obtain ⟨r', hr'⟩ := Option.ne_none_iff_exists'.1 hsome
        have hrr : r' = r := Fin.ext (by exact_mod_cast (hpr' r' hr').symm.trans hp)
        exact .inr ⟨rfl, hrr ▸ hr'⟩
    · rw [hst u hut, hpr u hut, ← h.mem]
      simp [hut]
  · intro u hu
    by_cases hut : u = t
    · subst hut
      obtain ⟨r, hr⟩ := Option.ne_none_iff_exists'.1 (hst'.1 hu)
      exact ⟨r, hpr' r hr⟩
    · rw [hst u hut] at hu
      rw [hpr u hut]
      exact h.prio u hu
  · have hlen : ∀ r, ((s'.queues (.runq r)).tqSize : ℤ) = (s.queues (.runq r)).tqSize -
        (if t ∈ (s.queues (.runq r)).tqWaiters then 1 else 0) + if lvl = some r then 1 else 0 := by
      intro r
      rw [Utqueue.size_eq, Utqueue.size_eq, hq, List.length_append]
      by_cases hm : t ∈ (s.queues (.runq r)).tqWaiters
      · have := List.length_pos_of_mem hm
        rw [List.length_erase_of_mem hm]
        split <;> simp <;> omega
      · rw [List.erase_of_not_mem hm]
        split <;> simp
    have hlvl : ∑ r, (if lvl = some r then 1 else 0 : ℤ) = if lvl = none then 0 else 1 := by
      cases lvl with
      | none => simp
      | some p => simp
    simp only [hlen, Finset.sum_add_distrib, Finset.sum_sub_distrib, h.sum_mem, hlvl, hsz, h.size]

/-- **Enqueueing keeps the invariant**: a thread that is not runnable becomes runnable and goes
through `uthread_runq_enqueue`. -/
theorem RunqInv.enqueue (h : RunqInv s) (hl : LinkInv s)
    (ht : (s.uthreads t).utState ≠ .runnable)
    (hs : uthreadRunqEnqueue t (s.setState t .runnable) = .ok s') : RunqInv s' := by
  obtain ⟨p, hp, -, hu, hq, hsz, -⟩ := runqEnqueue_ok hs
  simp only [State.setState, State.modUthread_uthreads, if_true, State.modUthread_queues,
    State.modUthread_runqSize] at hp hu hq hsz
  have hother : ∀ u, u ≠ t → s'.uthreads u = s.uthreads u := by
    intro u hut; rw [hu, Function.update_of_ne hut]; simp [hut]
  refine h.move hl t (some p) (fun u hut => by rw [hother u hut]) (fun u hut => by rw [hother u hut])
    (fun r => ?_) ?_ ?_ ?_
  · rw [List.erase_of_not_mem (h.not_mem ht r), hq, Function.update_apply]
    by_cases hr : r = p
    · subst hr; simp
    · simp [hr, Ne.symm hr]
  · simp [hu]
  · rintro r ⟨⟩; simpa [hu] using hp
  · simp [ht, hsz]

/-- **Requeueing keeps the invariant**: a runnable thread gets another priority and moves to the
end of its level. -/
theorem RunqInv.requeue {prio : ℤ} (h : RunqInv s) (hl : LinkInv s)
    (ht : (s.uthreads t).utState = .runnable)
    (hs : uthreadRunqRequeue t (s.uthreads t).utPrio
      (s.modUthread t fun u => { u with utPrio := prio }) = .ok s') : RunqInv s' := by
  obtain ⟨p, p', hp, hp', hm, rfl⟩ := runqRequeue_ok hs
  simp only [State.modUthread_uthreads, if_true, State.modUthread_queues] at hp' hm
  have hlev : ∀ r, r ≠ p → t ∉ (s.queues (.runq r)).tqWaiters := by
    intro r hr hmem
    refine hr (Fin.ext ?_)
    exact_mod_cast ((h.mem t r).1 hmem).2.symm.trans hp
  refine h.move hl t (some p') (fun u hut => by simp [hut]) (fun u hut => by simp [hut])
    (fun r => ?_) ?_ ?_ ?_
  · by_cases hr : r = p
    · subst hr
      by_cases hr' : r = p'
      · subst hr'; simp
      · simp [hr', Ne.symm hr']
    · rw [List.erase_of_not_mem (hlev r hr)]
      by_cases hr' : r = p'
      · subst hr'; simp [hr]
      · simp [hr, hr', Ne.symm hr']
  · simp [ht]
  · rintro r ⟨⟩; simpa using hp'
  · simp [ht]

/-- The level that `lwp_switch` finds: not empty, and every higher one is. -/
theorem highestRunq_some {p : Fin (uthMaxprio + 1)} (h : highestRunq s = some p) :
    (s.queues (.runq p)).tqWaiters ≠ [] ∧ ∀ r, p < r → (s.queues (.runq r)).tqWaiters = [] := by
  obtain ⟨hp, as, bs, hsplit, has⟩ := List.find?_eq_some_iff_append.1 h
  refine ⟨by simpa using hp, fun r hr => ?_⟩
  have hdec : (as ++ p :: bs).Pairwise (· > ·) := by
    rw [← hsplit, List.pairwise_reverse]
    exact List.pairwise_lt_finRange _
  have hmem : r ∈ as ++ p :: bs := by
    rw [← hsplit, List.mem_reverse]
    exact List.mem_finRange r
  rcases List.mem_append.1 hmem with hm | hm
  · simpa using has r hm
  · rcases List.mem_cons.1 hm with rfl | hm
    · exact absurd hr (lt_irrefl _)
    · have hlt := (List.pairwise_cons.1 (List.pairwise_append.1 hdec).2.1).1 r hm
      exact absurd hr (not_lt.2 (le_of_lt hlt))

/-- Nothing is dispatched only from empty run queues. -/
theorem dispatchBody_none : dispatchBody s = none ↔ ∀ p, (s.queues (.runq p)).tqWaiters = [] := by
  unfold dispatchBody
  constructor
  · intro h p
    split at h
    · rename_i hnone
      have := List.find?_eq_none.1 hnone p (by simp)
      simpa using this
    · rename_i r hr
      split at h
      · rename_i hd
        exact absurd (utqueueDequeue_none.1 hd) (highestRunq_some hr).1
      · cases h
  · intro h
    split
    · rfl
    · rename_i r hr
      exact absurd (h r) (highestRunq_some hr).1

/-- What the dispatch does: it takes the head of the highest level that is not empty. -/
theorem dispatchBody_some (h : dispatchBody s = some (t, s')) :
    ∃ p x, (s.queues (.runq p)).tqWaiters = t :: x.tqWaiters ∧
      (∀ r, p < r → (s.queues (.runq r)).tqWaiters = []) ∧
      s' = { (s.setQueue (.runq p) x).modUthread t fun u => { u with utLink := none } with
        runqSize := s.runqSize - 1 }.setState t .onCpu := by
  unfold dispatchBody at h
  split at h
  · cases h
  · rename_i p hp
    split at h
    · cases h
    · rename_i thr s₁ hd
      simp only [Option.some.injEq, Prod.mk.injEq] at h
      obtain ⟨rfl, rfl⟩ := h
      obtain ⟨x, hx, rfl⟩ := utqueueDequeue_some hd
      exact ⟨p, x, hx, (highestRunq_some hp).2, rfl⟩

/-- **Dispatching keeps the invariant.** -/
theorem RunqInv.dispatch (h : RunqInv s) (hl : LinkInv s)
    (hs : dispatchBody s = some (t, s')) : RunqInv s' := by
  obtain ⟨p, x, hx, -, rfl⟩ := dispatchBody_some hs
  have htp : t ∈ (s.queues (.runq p)).tqWaiters := by rw [hx]; exact List.mem_cons_self
  obtain ⟨ht, hp⟩ := (h.mem t p).1 htp
  have hlev : ∀ r, r ≠ p → t ∉ (s.queues (.runq r)).tqWaiters := by
    intro r hr hmem
    refine hr (Fin.ext ?_)
    exact_mod_cast ((h.mem t r).1 hmem).2.symm.trans hp
  refine h.move hl t none (fun u hut => by simp [State.setState, hut])
    (fun u hut => by simp [State.setState, hut]) (fun r => ?_) ?_ ?_ ?_
  · by_cases hr : r = p
    · subst hr; simp [State.setState, hx]
    · simp [State.setState, hr, List.erase_of_not_mem (hlev r hr)]
  · simp [State.setState]
  · rintro r ⟨⟩
  · simp [State.setState, ht]

/-! ## The links -/

theorem LinkInv.runqEnqueue (hl : LinkInv s)
    (hs : uthreadRunqEnqueue t (s.setState t .runnable) = .ok s') : LinkInv s' := by
  obtain ⟨p, -, hlk, hu, hq, -⟩ := runqEnqueue_ok hs
  simp only [State.setState, State.modUthread_uthreads, if_true, State.modUthread_queues] at hlk hu hq
  refine hl.move t (some (.runq p)) (fun u hut => ?_) (by simp [hu]) fun r => ?_
  · rw [hu, Function.update_of_ne hut]; simp [hut]
  · rw [List.erase_of_not_mem (hl.not_mem hlk r), hq, Function.update_apply]
    by_cases hr : r = .runq p
    · subst hr; simp
    · simp [hr, Ne.symm hr]

theorem LinkInv.requeue {oldprio : ℤ} (hl : LinkInv s) (hs : uthreadRunqRequeue t oldprio s = .ok s') :
    LinkInv s' := by
  obtain ⟨p, p', -, -, hm, rfl⟩ := runqRequeue_ok hs
  refine hl.move t (some (.runq p')) (fun u hut => by simp [hut]) (by simp) fun r => ?_
  by_cases hr : r = .runq p
  · subst hr
    by_cases hr' : p = p'
    · subst hr'; simp
    · simp [hr', Ne.symm hr']
  · have hmem : t ∉ (s.queues r).tqWaiters := by rw [hl.mem_iff hm]; exact hr
    rw [List.erase_of_not_mem hmem]
    by_cases hr' : r = .runq p'
    · subst hr'
      have hne : ¬ p' = p := fun e => hr (e ▸ rfl)
      simp [hne]
    · simp [hr, hr', Ne.symm hr']

theorem LinkInv.dispatch (hl : LinkInv s) (hs : dispatchBody s = some (t, s')) : LinkInv s' := by
  obtain ⟨p, x, hx, -, rfl⟩ := dispatchBody_some hs
  have htp : t ∈ (s.queues (.runq p)).tqWaiters := by rw [hx]; exact List.mem_cons_self
  refine hl.move t none (fun u hut => by simp [State.setState, hut]) (by simp [State.setState])
    fun r => ?_
  by_cases hr : r = .runq p
  · subst hr; simp [State.setState, hx]
  · have hmem : t ∉ (s.queues r).tqWaiters := by rw [hl.mem_iff htp]; exact hr
    simp [State.setState, hr, List.erase_of_not_mem hmem]

/-- `runq_size` is the number of the runnable threads. -/
theorem RunqInv.size_eq_card (h : RunqInv s) (hl : LinkInv s) :
    s.runqSize = (univ.filter fun t => (s.uthreads t).utState = .runnable).card := by
  have hcard : ∀ r, ((s.queues (.runq r)).tqSize : ℤ) =
      ∑ t, if t ∈ (s.queues (.runq r)).tqWaiters then 1 else 0 := by
    intro r
    rw [Utqueue.size_eq, ← List.toFinset_card_of_nodup (hl.nodup _), Finset.sum_boole]
    congr 2
    ext t
    simp
  rw [h.size, Finset.sum_congr rfl fun r _ => hcard r, Finset.sum_comm,
    Finset.sum_congr rfl fun t _ => h.sum_mem t, Finset.sum_boole]

end Uthreads
