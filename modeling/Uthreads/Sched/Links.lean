import Uthreads.Model.Lemmas

/-!
# Links and rings

A thread has one `ut_link`, so it is on one queue at most. `LinkInv` says that the links and the
rings agree; the three queue operations keep it, whatever queue they work on.
-/

namespace Uthreads

variable {N L : ℕ}

/-- The links of the threads and the rings of the queues agree. -/
structure LinkInv (s : State N L) : Prop where
  link : ∀ t q, (s.uthreads t).utLink = some q ↔ t ∈ (s.queues q).tqWaiters
  nodup : ∀ q, (s.queues q).tqWaiters.Nodup

variable {s s' : State N L} {t : Fin N} {q : QueueId N}

/-- A linked thread is on the queue of its link only. -/
theorem LinkInv.mem_iff (h : LinkInv s) (ht : t ∈ (s.queues q).tqWaiters) (r : QueueId N) :
    t ∈ (s.queues r).tqWaiters ↔ r = q := by
  rw [← h.link, (h.link t q).2 ht, Option.some.injEq, eq_comm]

theorem LinkInv.not_mem (h : LinkInv s) (ht : (s.uthreads t).utLink = none) (r : QueueId N) :
    t ∉ (s.queues r).tqWaiters := by
  simp [← h.link, ht]

/-- The invariant reads only the links and the rings. -/
theorem LinkInv.congr (h : LinkInv s)
    (hlk : ∀ u, (s'.uthreads u).utLink = (s.uthreads u).utLink)
    (hq : ∀ r, (s'.queues r).tqWaiters = (s.queues r).tqWaiters) : LinkInv s' := by
  constructor
  · intro u r; rw [hlk, hq]; exact h.link u r
  · intro r; rw [hq]; exact h.nodup r

/-- **One thread moves**: `t` leaves the queue it is on and, if `dst` names one, is appended to it. -/
theorem LinkInv.move (h : LinkInv s) (t : Fin N) (dst : Option (QueueId N))
    (hlk : ∀ u, u ≠ t → (s'.uthreads u).utLink = (s.uthreads u).utLink)
    (hlk' : (s'.uthreads t).utLink = dst)
    (hq : ∀ r, (s'.queues r).tqWaiters =
      (s.queues r).tqWaiters.erase t ++ if dst = some r then [t] else []) : LinkInv s' := by
  constructor
  · intro u r
    rw [hq, List.mem_append, (h.nodup r).mem_erase_iff, ← h.link]
    by_cases hut : u = t
    · subst hut
      rw [hlk']
      by_cases hr : dst = some r <;> simp [hr]
    · rw [hlk u hut]
      by_cases hr : dst = some r <;> simp [hr, hut]
  · intro r
    rw [hq]
    refine List.nodup_append.2 ⟨(h.nodup r).erase t, by split <;> simp, ?_⟩
    rintro a ha b hb rfl
    split at hb
    · rw [List.mem_singleton] at hb
      exact ((h.nodup r).mem_erase_iff.1 ha).1 hb
    · cases hb

theorem LinkInv.enqueue (h : LinkInv s) (hs : utqueueEnqueue q t s = .ok s') : LinkInv s' := by
  obtain ⟨hl, rfl⟩ := utqueueEnqueue_ok hs
  refine h.move t (some q) (fun u hut => by simp [hut]) (by simp) fun r => ?_
  rw [List.erase_of_not_mem (h.not_mem hl r)]
  by_cases hr : r = q
  · subst hr; simp
  · simp [hr, Ne.symm hr]

/-- The thread that `utqueue_dequeue` returns was linked on that queue. -/
theorem LinkInv.dequeue_link (h : LinkInv s) (hs : utqueueDequeue q s = some (t, s')) :
    (s.uthreads t).utLink = some q := by
  obtain ⟨x, hx, -⟩ := utqueueDequeue_some hs
  rw [h.link, hx]
  exact List.mem_cons_self

theorem LinkInv.dequeue (h : LinkInv s) (hs : utqueueDequeue q s = some (t, s')) : LinkInv s' := by
  have hlink := h.dequeue_link hs
  obtain ⟨x, hx, rfl⟩ := utqueueDequeue_some hs
  refine h.move t none (fun u hut => by simp [hut]) (by simp) fun r => ?_
  by_cases hr : r = q
  · subst hr; simp [hx]
  · have hmem : t ∉ (s.queues r).tqWaiters := by
      rw [h.mem_iff ((h.link t q).1 hlink)]; exact hr
    simp [hr, List.erase_of_not_mem hmem]

theorem LinkInv.remove (h : LinkInv s) (hs : utqueueRemove q t s = .ok s') : LinkInv s' := by
  obtain ⟨hm, rfl⟩ := utqueueRemove_ok hs
  refine h.move t none (fun u hut => by simp [hut]) (by simp) fun r => ?_
  by_cases hr : r = q
  · subst hr; simp
  · have hmem : t ∉ (s.queues r).tqWaiters := by rw [h.mem_iff hm]; exact hr
    simp [hr, List.erase_of_not_mem hmem]

end Uthreads
