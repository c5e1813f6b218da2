import Uthreads.Lib.Acyclic
import Uthreads.Proof.Turn

/-!
# Joins that wait for each other

`uthread_join` does not look for a deadlock. `joins_acyclic`: as long as no join is made whose
waiting would close a cycle, the joins that wait do not wait for each other. `join_self`: a thread
that joins itself waits for itself.
-/

namespace Uthreads

variable {N L : ℕ} {l : Fin L} {t u v : Fin N} {s s' s₁ : State N L} {i : Instr N} {cs new : Code N}
  {a : Act}

open Instr Relation Chains

/-- `u` is blocked in `uthread_join` on `v`. -/
def JoinBlocked (s : State N L) (u v : Fin N) : Prop := u ∈ (s.queues (.utWaiter v)).tqWaiters

instance (s : State N L) (u v : Fin N) : Decidable (JoinBlocked s u v) :=
  inferInstanceAs (Decidable (_ ∈ _))

/-- A join on `v` that has passed its tests has to wait. -/
structure Waits (s : State N L) (v : Fin N) : Prop where
  alone : (s.queues (.utWaiter v)).tqWaiters = []
  joinable : (s.uthreads v).utDetached = false
  alive : (s.uthreads v).utState ≠ .zombie

/-- The step does not make a thread wait in `uthread_join` for one that, in the end, waits for it. -/
def opensCycle (s : State N L) (b : Fin L × Act) : Prop :=
  ∃ t v k cs, OnStack s b.1 t ∧ (s.uthreads t).utCtx = joinTest v k :: cs ∧ Waits s v ∧
    ReflTransGen (JoinBlocked s) v t

/-- Whom an instruction puts on a queue of joiners. -/
theorem effect_waiters (hok : Ok t i cs) (he : Effect l t s i s₁ new)
    (hu : u ∈ (s₁.queues (.utWaiter v)).tqWaiters) :
    u ∈ (s.queues (.utWaiter v)).tqWaiters ∨ u = t ∧ (∃ k, i = joinTest v k) ∧ Waits s v := by
  by_cases hq : QueueId.utWaiter v ∈ i.queues
  · -- the instructions that write the queue
    cases he with
    | plain hp hs => rw [hs.queues] at hu; exact .inl hu
    | swtch hsw => cases hok <;> simp at hq
    | create =>
      obtain ⟨rfl, hw⟩ := queues_createInit hq
      obtain rfl := QueueId.utWaiter.inj hw
      simp at hu
    | destroy =>
      obtain ⟨rfl, hw⟩ := queues_destroy hq
      obtain rfl := QueueId.utWaiter.inj hw
      simp at hu
    | exitDetached | exitAlone => exact .inl hu
    | exitJoined w x status hd hdq =>
      obtain ⟨y, hy, rfl⟩ := utqueueDequeue_some hdq
      obtain rfl : v = w := by simpa using hq
      left
      have : u ∈ y.tqWaiters := by simpa using hu
      rw [show (s.queues (.utWaiter v)).tqWaiters = _ from hy]
      exact List.mem_cons_of_mem _ this
    | joinWait w k hq' hd hz hinit hs₁ hs =>
      obtain ⟨-, rfl⟩ := utqueueEnqueue_ok hs₁
      obtain rfl : v = w := by simpa using hq
      have : u ∈ (s.queues (.utWaiter v)).tqWaiters ∨ u = t := by simpa [hs.queues] using hu
      exact this.imp_right fun e => ⟨e, ⟨k, rfl⟩, hq', hd, hz⟩
    | take _ _ _ hnew => rcases hnew with ⟨rfl, -⟩ | ⟨rfl, -⟩ <;> simp at hq
    | signal _ _ _ _ hnew => rcases hnew with ⟨rfl, -⟩ | ⟨rfl, -⟩ <;> simp at hq
    | _ => simp at hq
  · rw [effect_queues he (by simp) hq] at hu
    exact .inl hu

theorem acyclic_step (hc : Core s) (hi : Acyclic (JoinBlocked s)) (h : Turn s l a s')
    (hok : ¬ opensCycle s (l, a)) : Acyclic (JoinBlocked s') := by
  have hsame : s'.queues = s.queues → Acyclic (JoinBlocked s') := fun hq => by
    unfold JoinBlocked
    rw [hq]
    exact hi
  cases h with
  | @thread _ t i cs new s₁ hon hcode he =>
    have hwf := hc.codes.wf t
    rw [hcode] at hwf
    by_cases hj : ∃ v k, i = joinTest v k ∧ Waits s v
    · obtain ⟨v, k, rfl, hw⟩ := hj
      refine acyclic_insert (a := t) (b := v) hi (fun x y hxy => ?_) fun hr =>
        hok ⟨t, v, k, cs, hon, hcode, hw, hr⟩
      rcases effect_waiters hwf.1 he hxy with h | ⟨rfl, ⟨k', hi'⟩, -⟩
      · exact .inl h
      · cases hi'; exact .inr ⟨rfl, rfl⟩
    · refine hi.mono fun x y hxy => ?_
      rcases effect_waiters hwf.1 he hxy with h | ⟨-, ⟨k, rfl⟩, hw⟩
      · exact h
      · exact absurd ⟨y, k, rfl, hw⟩ hj
  | call | preempt => exact hsame rfl
  | lwp hb =>
    refine hi.mono fun x y hxy => ?_
    unfold JoinBlocked at hxy ⊢
    rwa [hb.queues _ (by simp)] at hxy

/-- **Joins do not deadlock among themselves** in a run in which no join is made whose waiting closes
a cycle. -/
theorem joins_acyclic {s : State (N + 2) (L + 1)}
    (h : Reachable (fun s b => ¬ opensCycle s b) (boot N L) s) : ∀ u, ¬ TransGen (JoinBlocked s) u u := by
  refine h.invariant_of (P := fun s => Acyclic (JoinBlocked s))
    (fun _ hr => core_reachable boot_core hr) ?_ ?_
  · refine Acyclic.mono (R := fun _ _ => False) (fun x hx => ?_) fun x y hxy => ?_
    · obtain ⟨-, -, hf⟩ := TransGen.tail'_iff.1 hx
      exact hf
    · unfold JoinBlocked at hxy
      rw [boot_queue] at hxy
      simp at hxy
  · rintro s s' ⟨l, a⟩ hc hi hok hn
    exact acyclic_step hc hi (move_turn hc (step_move hc.codes.wf hn)) hok

/-- The step is no test of a join, or that of a join on another thread, which waits for nobody. -/
def plainJoin (s : State N L) (b : Fin L × Act) : Bool :=
  match (s.lwps b.1).utCurthr with
  | none => true
  | some t =>
    match (s.uthreads t).utCtx with
    | joinTest v _ :: _ => t ≠ v && decide (∀ w, ¬ JoinBlocked s v w)
    | _ => true

theorem plainJoin_opens {b : Fin L × Act} (h : plainJoin s b = true) : ¬ opensCycle s b := by
  rintro ⟨t, v, k, cs, hon, hcode, -, hchain⟩
  simp only [plainJoin, hon.2, hcode, Bool.and_eq_true, decide_eq_true_eq] at h
  rcases ReflTransGen.cases_head hchain with e | ⟨w, hw, -⟩
  · exact h.1 e.symm
  · exact h.2 w hw

/-- The first thread creates a thread and joins it. -/
theorem joins_acyclic_main : ∃ s, Reachable (fun s b => ¬ opensCycle s b) (boot 1 0) s ∧
    JoinBlocked s 0 2 ∧ ∀ u, ¬ TransGen (JoinBlocked s) u u := by
  obtain ⟨s, hs, hj⟩ : ∃ s, Reachable (fun s b => plainJoin s b = true) (boot 1 0) s ∧
      JoinBlocked s 0 2 :=
    Runs.exists_reach (turns 0 4 ++ [(0, .call (.create 3))] ++ turns 0 23 ++
      [(0, .call (.join 2))] ++ turns 0 3) (by decide)
  have hs' := hs.mono fun s b hb => plainJoin_opens hb
  exact ⟨s, hs', hj, joins_acyclic hs'⟩

/-- A thread that joins itself waits for itself. -/
theorem join_self : ¬ ∀ (N L : ℕ) (s : State (N + 2) (L + 1)), Reachable Runs.always (boot N L) s →
    ∀ u, ¬ TransGen (JoinBlocked s) u u := by
  obtain ⟨s, hs, hj⟩ : ∃ s, Reachable Runs.always (boot 1 1) s ∧ JoinBlocked s 2 2 :=
    Runs.exists_reach (turns 0 4 ++ turns 1 25 ++ [(0, .call (.create 3))] ++ turns 0 23 ++
      turns 1 6 ++ [(1, .call (.join 2))] ++ turns 1 3) (by decide)
  exact fun h => h 1 1 s hs 2 (.single hj)

end Uthreads
