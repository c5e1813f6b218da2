import Uthreads.Lib.PrioFifo
import Uthreads.Sched.Ops

/-!
# Strict priority with FIFO order inside a level

The reference scheduler `RefSched` knows the priority of each thread, which threads are blocked,
and the runnable threads with the time each arrived at its priority; it always picks the highest
priority and, within it, the earliest arrival.

* `sched_simulation`: the rings of `runq_table` simulate it, step by step.
* `dispatch_order`: along every sequence of operations both dispatch the same threads; no thread
  is dispatched while one of higher priority is runnable; a thread that stays runnable at its
  priority is not overtaken by one that arrives there later.
-/

namespace Uthreads

open PrioFifo

variable {N L : ℕ}

/-- The reference scheduler. -/
structure RefSched (N : ℕ) where
  prio : Fin N → ℤ
  blocked : Fin N → Bool
  ready : Arrivals (Fin N) ℤ

namespace RefSched

/-- `t` arrives at its priority now. -/
def arrive (r : RefSched N) (t : Fin N) : RefSched N :=
  { r with ready := r.ready.arrive t (r.prio t), blocked := Function.update r.blocked t false }

def setPrio (r : RefSched N) (t : Fin N) (prio : ℤ) : RefSched N :=
  { r with prio := Function.update r.prio t prio }

/-- What an operation does to the reference, and which thread it dispatches. -/
noncomputable def step (r : RefSched N) : RunqOp N → RefSched N × Option (Fin N)
  | .start t prio => ((r.setPrio t (prio : ℕ)).arrive t, none)
  | .wake t => (if r.blocked t then r.arrive t else r, none)
  | .setprio _ t prio =>
    if r.prio t = (prio : ℕ) then (r, none)
    else if r.ready.arrival t = none then (r.setPrio t (prio : ℕ), none)
    else ((r.setPrio t (prio : ℕ)).arrive t, none)
  | .save t => (r.arrive t, none)
  | .dispatch =>
    match r.ready.next with
    | some t => ({ r with ready := r.ready.leave t }, some t)
    | none => (r, none)
  | .block t => ({ r with blocked := Function.update r.blocked t true }, none)
  | _ => (r, none)

/-- The reference for a state with empty run queues. -/
def init (s : State N L) : RefSched N where
  prio t := (s.uthreads t).utPrio
  blocked t := (s.uthreads t).utState = .wait
  ready := .empty

end RefSched

/-- The threads on the level of a priority. -/
def level (s : State N L) (prio : ℤ) : List (Fin N) :=
  match runqIndex prio with
  | some p => (s.queues (.runq p)).tqWaiters
  | none => []

/-- The states of a thread in which `uthread_setprio` changes its priority. -/
def Active (s : State N L) (t : Fin N) : Prop :=
  (s.uthreads t).utState ∈ [.onCpu, .runnable, .wait]

/-- The relation between the scheduler and its reference. -/
structure Matches (s : State N L) (r : RefSched N) : Prop where
  runq : RunqInv s
  links : LinkInv s
  prio : ∀ t, Active s t → r.prio t = (s.uthreads t).utPrio
  blocked : ∀ t, r.blocked t = true ↔ (s.uthreads t).utState = .wait
  ready : Refines (level s) r.ready

variable {s s' : State N L} {r : RefSched N} {t : Fin N}

theorem level_cast (p : Fin (uthMaxprio + 1)) :
    level s ((p : ℕ) : ℤ) = (s.queues (.runq p)).tqWaiters := by
  simp [level, runqIndex_cast]

theorem LinkInv.level_nodup (hl : LinkInv s) (prio : ℤ) : (level s prio).Nodup := by
  unfold level
  split
  · exact hl.nodup _
  · exact List.nodup_nil

/-- The levels hold the runnable threads. -/
theorem Matches.arrival_iff (h : Matches s r) (t : Fin N) :
    r.ready.arrival t ≠ none ↔ (s.uthreads t).utState = .runnable := by
  constructor
  · intro hne
    obtain ⟨⟨prio, a⟩, ha⟩ := Option.ne_none_iff_exists'.1 hne
    have hmem := (h.ready.mem t prio).2 ⟨a, ha⟩
    unfold level at hmem
    split at hmem
    · exact ((h.runq.mem t _).1 hmem).1
    · cases hmem
  · intro ht hnone
    obtain ⟨p, -, hlev⟩ := h.runq.mem_of_runnable ht
    have hmem : t ∈ level s ((p : ℕ) : ℤ) := by rw [level_cast]; exact (hlev p).2 rfl
    obtain ⟨a, ha⟩ := (h.ready.mem t _).1 hmem
    rw [hnone] at ha
    cases ha

/-- A runnable thread has arrived at its priority. -/
theorem Matches.arrival_prio (h : Matches s r) (ht : (s.uthreads t).utState = .runnable) :
    ∃ a, r.ready.arrival t = some ((s.uthreads t).utPrio, a) := by
  obtain ⟨p, hp, hlev⟩ := h.runq.mem_of_runnable ht
  rw [hp, ← h.ready.mem, level_cast]
  exact (hlev p).2 rfl

theorem EmptyRunq.matches (h : EmptyRunq s) : Matches s (RefSched.init s) where
  runq := h.runq
  links := h.links
  prio _ _ := rfl
  blocked t := by simp [RefSched.init]
  ready := Refines.empty fun prio => by
    unfold level
    split
    · exact h.queues _
    · rfl

/-! ## The operations simulate the reference -/

/-- What an enqueue on the run queue does to the levels. -/
theorem level_runqEnqueue (hl : LinkInv s) (hs : uthreadRunqEnqueue t s = .ok s') (prio : ℤ) :
    level s' prio =
      (level s prio).erase t ++ if prio = (s.uthreads t).utPrio then [t] else [] := by
  obtain ⟨p, hp, hlk, -, hq, -⟩ := runqEnqueue_ok hs
  have hlev : level s' prio = level s prio ++ if prio = (s.uthreads t).utPrio then [t] else [] := by
    unfold level
    split
    · rename_i p' hp'
      rw [hq, runqIndex_eq hp', hp, Function.update_apply]
      by_cases hpp : p' = p
      · subst hpp; simp
      · have hne : ¬ ((p' : ℕ) : ℤ) = ((p : ℕ) : ℤ) := fun e => hpp (Fin.ext (by exact_mod_cast e))
        simp [hpp, hne]
    · rename_i hnone
      have hne : prio ≠ (s.uthreads t).utPrio := by
        rintro rfl
        rw [hp, runqIndex_cast] at hnone
        cases hnone
      simp [hne]
  have hmem : t ∉ level s prio := by
    unfold level
    split
    · exact hl.not_mem hlk _
    · exact List.not_mem_nil
  rw [hlev, List.erase_of_not_mem hmem]

/-- A thread that is enqueued on the run queue arrives. -/
theorem Matches.arrive (h : Matches s r) (ht : (s.uthreads t).utState ≠ .runnable)
    (hp : r.prio t = (s.uthreads t).utPrio)
    (hs : uthreadRunqEnqueue t (s.setState t .runnable) = .ok s') : Matches s' (r.arrive t) := by
  have hu : ∀ u, u ≠ t → s'.uthreads u = s.uthreads u := by
    intro u hut
    obtain ⟨p, -, -, hu, -⟩ := runqEnqueue_ok hs
    rw [hu, Function.update_of_ne hut]; simp [State.setState, hut]
  have ht' : (s'.uthreads t).utState = .runnable ∧ (s'.uthreads t).utPrio = (s.uthreads t).utPrio := by
    obtain ⟨p, -, -, hu, -⟩ := runqEnqueue_ok hs
    rw [hu, Function.update_self]; simp [State.setState]
  refine ⟨h.runq.enqueue h.links ht hs, h.links.runqEnqueue hs, fun u hu' => ?_, fun u => ?_, ?_⟩
  · by_cases hut : u = t
    · subst hut; simpa [RefSched.arrive, ht'.2] using hp
    · simp only [Active, hu u hut] at hu'
      rw [hu u hut]; exact h.prio u hu'
  · by_cases hut : u = t
    · subst hut; simp [RefSched.arrive, ht'.1]
    · simp [RefSched.arrive, hut, hu u hut, h.blocked]
  · refine h.ready.arrive h.links.level_nodup fun q => ?_
    rw [level_runqEnqueue (h.links.setState _) hs, hp]
    simp [State.setState, level]

/-- The reference reads only which threads wait, and the priority of the active ones. -/
theorem Matches.congr (h : Matches s r) (hrunq : RunqInv s') (hlinks : LinkInv s')
    (hprio : ∀ u, Active s' u → Active s u ∧ (s'.uthreads u).utPrio = (s.uthreads u).utPrio)
    (hwait : ∀ u, (s'.uthreads u).utState = .wait ↔ (s.uthreads u).utState = .wait)
    (hq : ∀ p, s'.queues (.runq p) = s.queues (.runq p)) : Matches s' r := by
  refine ⟨hrunq, hlinks, fun u hu => ?_, fun u => ?_, ?_⟩
  · rw [(hprio u hu).2]; exact h.prio u (hprio u hu).1
  · rw [hwait]; exact h.blocked u
  · have hlev : level s' = level s := by funext prio; simp only [level, hq]
    rw [hlev]; exact h.ready

/-- A new priority for a thread that is not runnable. -/
theorem Matches.setPrio (h : Matches s r) (ht : (s.uthreads t).utState ≠ .runnable) (prio : ℤ) :
    Matches (s.modUthread t fun u => { u with utPrio := prio }) (r.setPrio t prio) := by
  refine ⟨h.runq.setPrio ht prio, h.links.setPrio prio, fun u hu => ?_, fun u => ?_, ?_⟩
  · by_cases hut : u = t
    · subst hut; simp [RefSched.setPrio]
    · simp only [Active, State.modUthread_uthreads, hut, if_false] at hu
      simpa [RefSched.setPrio, hut] using h.prio u hu
  · by_cases hut : u = t
    · subst hut; simpa [RefSched.setPrio] using h.blocked u
    · simpa [RefSched.setPrio, hut] using h.blocked u
  · exact h.ready

/-- The priority of an inactive thread is free in the reference. -/
theorem Matches.setPrioRef (h : Matches s r) (ht : ¬ Active s t) (prio : ℤ) :
    Matches s (r.setPrio t prio) := by
  refine ⟨h.runq, h.links, fun u hu => ?_, h.blocked, h.ready⟩
  have hut : u ≠ t := by rintro rfl; exact ht hu
  simpa [RefSched.setPrio, hut] using h.prio u hu

/-- A requeue is an arrival at the new priority. -/
theorem Matches.requeue {prio : ℤ} (h : Matches s r) (ht : (s.uthreads t).utState = .runnable)
    (hs : uthreadRunqRequeue t (s.uthreads t).utPrio
      (s.modUthread t fun u => { u with utPrio := prio }) = .ok s') :
    Matches s' ((r.setPrio t prio).arrive t) := by
  have hrunq := h.runq.requeue h.links ht hs
  have hlinks := (h.links.setPrio prio).requeue hs
  obtain ⟨p, p', hp, hp', hm, rfl⟩ := runqRequeue_ok hs
  simp only [State.modUthread_uthreads, if_true, State.modUthread_queues] at hp' hm
  refine ⟨hrunq, hlinks, fun u hu => ?_, fun u => ?_, ?_⟩
  · by_cases hut : u = t
    · subst hut; simp [RefSched.arrive, RefSched.setPrio]
    · simp only [Active, State.modUthread_uthreads, State.setQueue_uthreads, hut, if_false] at hu
      simpa [RefSched.arrive, RefSched.setPrio, hut] using h.prio u hu
  · by_cases hut : u = t
    · subst hut; simp [RefSched.arrive, RefSched.setPrio, ht]
    · simpa [RefSched.arrive, RefSched.setPrio, hut] using h.blocked u
  · refine h.ready.arrive h.links.level_nodup fun q => ?_
    have hne : ∀ r, r ≠ p → t ∉ (s.queues (.runq r)).tqWaiters := by
      intro r hr hmem
      rw [h.links.mem_iff hm] at hmem
      simp only [QueueId.runq.injEq] at hmem
      exact hr hmem
    simp only [RefSched.setPrio, Function.update_self]
    unfold level
    split
    · rename_i l hl
      rw [runqIndex_eq hl, hp']
      by_cases hlp' : l = p'
      · subst hlp'
        by_cases hlp : l = p
        · subst hlp; simp
        · simp [hlp, List.erase_of_not_mem (hne l hlp)]
      · have hcast : ¬ ((l : ℕ) : ℤ) = ((p' : ℕ) : ℤ) :=
          fun e => hlp' (Fin.ext (by exact_mod_cast e))
        by_cases hlp : l = p
        · subst hlp; simp [hlp', hcast]
        · simp [hlp, hlp', hcast, List.erase_of_not_mem (hne l hlp)]
    · rename_i hnone
      have hcast : q ≠ prio := by
        rintro rfl
        rw [hp', runqIndex_cast] at hnone
        cases hnone
      simp [hcast]

/-- The dispatched thread is the one that the reference picks. -/
theorem Matches.isNext (h : Matches s r) (hs : dispatchBody s = some (t, s')) :
    r.ready.IsNext t := by
  obtain ⟨p, x, hx, hhigh, -⟩ := dispatchBody_some hs
  refine h.ready.isNext_head (p := ((p : ℕ) : ℤ)) (by rw [level_cast, hx]) fun q hq => ?_
  unfold level
  split
  · rename_i l hl
    rw [runqIndex_eq hl] at hq
    exact hhigh l (by exact_mod_cast hq)
  · rfl

theorem Matches.dispatch (h : Matches s r) (hs : dispatchBody s = some (t, s')) :
    Matches s' { r with ready := r.ready.leave t } := by
  have hrunq := h.runq.dispatch h.links hs
  have hlinks := h.links.dispatch hs
  obtain ⟨p, x, hx, -, rfl⟩ := dispatchBody_some hs
  have hm : t ∈ (s.queues (.runq p)).tqWaiters := by rw [hx]; exact List.mem_cons_self
  have ht := ((h.runq.mem t p).1 hm).1
  refine ⟨hrunq, hlinks, fun u hu => ?_, fun u => ?_, ?_⟩
  · by_cases hut : u = t
    · subst hut
      simpa [State.setState] using h.prio u (by simp [Active, ht])
    · simp only [Active, State.setState, State.modUthread_uthreads, State.setQueue_uthreads, hut,
        if_false] at hu
      simpa [State.setState, hut] using h.prio u hu
  · by_cases hut : u = t
    · subst hut
      have hb : r.blocked u = false := by
        rw [← Bool.not_eq_true, h.blocked, ht]; decide
      simp [State.setState, hb]
    · simpa [State.setState, hut] using h.blocked u
  · refine h.ready.leave h.links.level_nodup fun q => ?_
    unfold level
    split
    · rename_i l hl
      by_cases hlp : l = p
      · subst hlp; simp [State.setState, hx]
      · have hne : t ∉ (s.queues (.runq l)).tqWaiters := by
          rw [h.links.mem_iff hm]; simpa using hlp
        simp [State.setState, hlp, List.erase_of_not_mem hne]
    · simp

/-- **One operation**: the scheduler and its reference dispatch the same thread and stay related. -/
theorem sched_simulation :
    Runs.Simulation (Matches (N := N) (L := L)) opStep RefSched.step := by
  intro s r op s' out h hs
  obtain ⟨s₁, hop, he⟩ := Option.map_eq_some_iff.1 hs
  simp only [Prod.mk.injEq] at he
  obtain ⟨rfl, rfl⟩ := he
  have hkeep := opStep_runq h.runq h.links hs
  clear hs
  have hother : ∀ q : QueueId N, q.isRunq = false → ∀ p, QueueId.runq p ≠ q := by
    rintro q hq p rfl; cases hq
  -- a change of state among those in which no thread waits, is runnable or becomes active
  have hchange : ∀ {t : Fin N} {st st' : UthreadState}, st ≠ .wait → st' ≠ .wait →
      st' ∉ [UthreadState.onCpu, .runnable, .wait] → changeState s t st st' = some s₁ →
      Matches s₁ r := by
    intro t st st' hst hst' hact hc
    obtain ⟨ht, rfl⟩ := changeState_some hc
    refine h.congr hkeep.1 hkeep.2 (fun u hu => ?_) (fun u => ?_) fun p => rfl
    · by_cases hut : u = t
      · subst hut; simp [Active, State.setState] at hu; simp [hu] at hact
      · simp only [Active, State.setState, State.modUthread_uthreads, hut, if_false] at hu
        exact ⟨hu, by simp [State.setState, hut]⟩
    · by_cases hut : u = t
      · subst hut; simp [State.setState, hst', ht, hst]
      · simp [State.setState, hut]
  cases op with
  | start t prio =>
    obtain ⟨ht, hq⟩ := startBody_ok (toOption_eq_some.1 hop)
    have hne : (s.uthreads t).utState ≠ .runnable := by rw [ht]; decide
    refine ⟨rfl, (h.setPrio hne _).arrive (by simpa using hne) ?_ hq⟩
    simp [RefSched.setPrio]
  | wake t =>
    refine ⟨rfl, ?_⟩
    rcases wakeBody_ok (toOption_eq_some.1 hop) with ⟨ht, hq⟩ | ⟨ht, rfl⟩
    · simp only [RefSched.step, (h.blocked t).2 ht, if_true]
      exact h.arrive (by rw [ht]; decide) (h.prio t (by simp [Active, ht])) hq
    · have hb : ¬ r.blocked t = true := fun hb => ht ((h.blocked t).1 hb)
      simp only [RefSched.step, if_neg hb]
      exact h
  | setprio cur t prio =>
    obtain ⟨⟨s₂, res⟩, hr, rfl⟩ := Option.map_eq_some_iff.1 hop
    simp only [RefSched.step, opOut]
    rcases setprioBody_ok (toOption_eq_some.1 hr) with ⟨rfl, hst⟩ | ⟨hne, hst, rfl⟩ | ⟨hne, hst, hq⟩
    · split
      · exact ⟨rfl, h⟩
      · rename_i hp
        have hinact : ¬ Active s₂ t := by
          intro hact
          rcases hst with hst | hst
          · simp only [Active, List.mem_cons, List.not_mem_nil, or_false] at hact hst
            rcases hact with e | e | e <;> simp [e] at hst
          · exact hp ((h.prio t hact).trans hst)
        have hnone : r.ready.arrival t = none := by
          by_contra hsome
          exact hinact (by simp [Active, (h.arrival_iff t).1 hsome])
        simp only [hnone, if_true]
        exact ⟨trivial, h.setPrioRef hinact _⟩
    · have hact : Active s t := by
        simp only [Active, List.mem_cons, List.not_mem_nil, or_false] at hst ⊢
        rcases hst with e | e <;> simp [e]
      have hrun : (s.uthreads t).utState ≠ .runnable := by
        intro e; rw [e] at hst; simp at hst
      have hnone : r.ready.arrival t = none := by
        by_contra hsome; exact hrun ((h.arrival_iff t).1 hsome)
      have hp : ¬ r.prio t = ((prio : ℕ) : ℤ) := by rw [h.prio t hact]; exact hne
      simp only [hp, if_false, hnone, if_true]
      exact ⟨trivial, h.setPrio hrun _⟩
    · have hp : ¬ r.prio t = ((prio : ℕ) : ℤ) := by
        rw [h.prio t (by simp [Active, hst])]; exact hne
      simp only [hp, if_false, (h.arrival_iff t).2 hst]
      exact ⟨trivial, h.requeue hst hq⟩
  | save t =>
    simp only [opState] at hop
    split at hop
    · rename_i ht
      exact ⟨rfl, h.arrive (by rw [ht]; decide) (h.prio t (by simp [Active, ht]))
        (toOption_eq_some.1 hop)⟩
    · cases hop
  | dispatch =>
    simp only [opState, Option.some.injEq] at hop
    subst hop
    simp only [RefSched.step, opOut]
    cases hd : dispatchBody s with
    | none =>
      have hlev : ∀ prio, level s prio = [] := by
        intro prio
        unfold level
        split
        · exact dispatchBody_none.1 hd _
        · rfl
      rw [Arrivals.next_eq_none (h.ready.arrival_none hlev)]
      exact ⟨rfl, h⟩
    | some ts =>
      obtain ⟨t, s₁⟩ := ts
      rw [Arrivals.next_eq_some (h.isNext hd)]
      exact ⟨rfl, h.dispatch hd⟩
  | alloc t => exact ⟨rfl, hchange (by decide) (by decide) (by decide) hop⟩
  | free t => exact ⟨rfl, hchange (by decide) (by decide) (by decide) hop⟩
  | exit t => exact ⟨rfl, hchange (by decide) (by decide) (by decide) hop⟩
  | block t =>
    obtain ⟨ht, rfl⟩ := changeState_some hop
    refine ⟨rfl, hkeep.1, hkeep.2, fun u hu => ?_, fun u => ?_, h.ready⟩
    · by_cases hut : u = t
      · subst hut
        simpa [RefSched.step, State.setState] using h.prio u (by simp [Active, ht])
      · simp only [Active, State.setState, State.modUthread_uthreads, hut, if_false] at hu
        simpa [RefSched.step, State.setState, hut] using h.prio u hu
    · by_cases hut : u = t
      · subst hut; simp [RefSched.step, State.setState]
      · simpa [RefSched.step, State.setState, hut] using h.blocked u
  | enqueue q t =>
    simp only [opState] at hop
    split at hop
    · cases hop
    · rename_i hq
      obtain ⟨-, rfl⟩ := utqueueEnqueue_ok (toOption_eq_some.1 hop)
      refine ⟨rfl, h.congr hkeep.1 hkeep.2 (fun u hu => ?_) (fun u => ?_) fun p => ?_⟩
      · by_cases hut : u = t
        · subst hut; simpa [Active] using hu
        · simpa [Active, hut] using hu
      · by_cases hut : u = t
        · subst hut; simp
        · simp [hut]
      · simp [hother q (by simpa using hq) p]
  | dequeue q =>
    simp only [opState] at hop
    split at hop
    · cases hop
    · rename_i hq
      obtain ⟨⟨t, s₂⟩, hd, rfl⟩ := Option.map_eq_some_iff.1 hop
      obtain ⟨x, -, rfl⟩ := utqueueDequeue_some hd
      refine ⟨rfl, h.congr hkeep.1 hkeep.2 (fun u hu => ?_) (fun u => ?_) fun p => ?_⟩
      · by_cases hut : u = t
        · subst hut; simpa [Active] using hu
        · simpa [Active, hut] using hu
      · by_cases hut : u = t
        · subst hut; simp
        · simp [hut]
      · simp [hother q (by simpa using hq) p]

/-- The reference along a sequence of operations. -/
theorem ops_matches {s₀ : State N L} {ops : List (RunqOp N)} {out : List (Option (Fin N))}
    (h : Matches s₀ r) (hs : Runs.outputs opStep s₀ ops = some (s, out)) :
    (Runs.totalOutputs RefSched.step r ops).2 = out ∧
      Matches s (Runs.totalOutputs RefSched.step r ops).1 :=
  sched_simulation.outputs_eq h hs

/-! ## Nobody overtakes -/

/-- `t` has arrived at `prio`, and `u` only later if at all. -/
structure Ahead (r : RefSched N) (t u : Fin N) (prio : ℤ) (a : ℕ) : Prop where
  arrived : r.ready.arrival t = some (prio, a)
  later : ∀ b, r.ready.arrival u = some (prio, b) → a < b

variable {u v : Fin N} {prio : ℤ} {a : ℕ}

/-- Whoever else arrives does so later. -/
theorem Ahead.arrive (h : Ahead r t u prio a) (hv : v ≠ t) : Ahead (r.arrive v) t u prio a := by
  refine ⟨?_, fun b hb => ?_⟩
  · simpa [RefSched.arrive, hv.symm] using h.arrived
  · simp only [RefSched.arrive, Arrivals.arrive_arrival] at hb
    split at hb
    · simp only [Option.some.injEq, Prod.mk.injEq] at hb
      exact hb.2 ▸ r.ready.past t prio a h.arrived
    · exact h.later b hb

theorem Ahead.leave (h : Ahead r t u prio a) (hv : v ≠ t) :
    Ahead { r with ready := r.ready.leave v } t u prio a := by
  refine ⟨?_, fun b hb => ?_⟩
  · simpa [hv.symm] using h.arrived
  · simp only [Arrivals.leave_arrival] at hb
    split at hb
    · cases hb
    · exact h.later b hb

/-- An operation after which `t` is still runnable at its priority keeps `t` ahead. -/
theorem Ahead.opStep {op : RunqOp N} {o : Option (Fin N)} (h : Ahead r t u prio a)
    (hm : Matches s r) (hs : opStep s op = some (s', o))
    (ht' : (s'.uthreads t).utState = .runnable) (hp' : (s'.uthreads t).utPrio = prio) :
    Ahead (r.step op).1 t u prio a := by
  have hm' : Matches s' (r.step op).1 := (sched_simulation s r op s' o hm hs).2
  have ht : (s.uthreads t).utState = .runnable :=
    (hm.arrival_iff t).1 (by rw [h.arrived]; exact Option.some_ne_none _)
  obtain ⟨s₁, hop, he⟩ := Option.map_eq_some_iff.1 hs
  simp only [Prod.mk.injEq] at he
  obtain ⟨rfl, -⟩ := he
  clear hs
  cases op with
  | start v q =>
    obtain ⟨hv, -⟩ := startBody_ok (toOption_eq_some.1 hop)
    have hne : v ≠ t := by rintro rfl; rw [ht] at hv; cases hv
    exact Ahead.arrive ⟨h.arrived, h.later⟩ hne
  | wake v =>
    simp only [RefSched.step]
    split
    · rename_i hb
      have hne : v ≠ t := by
        rintro rfl
        rw [(hm.blocked v).1 hb] at ht; cases ht
      exact h.arrive hne
    · exact h
  | setprio cur v q =>
    simp only [RefSched.step] at hm' ⊢
    split
    · exact h
    · rename_i hq
      split
      · exact ⟨h.arrived, h.later⟩
      · rename_i hready
        by_cases hv : v = t
        · -- `t` itself has arrived anew, at another priority
          subst hv
          rw [if_neg hq, if_neg hready] at hm'
          obtain ⟨b, hb⟩ := hm'.arrival_prio ht'
          simp only [RefSched.arrive, RefSched.setPrio, Arrivals.arrive_arrival, if_true,
            Function.update_self, Option.some.injEq, Prod.mk.injEq] at hb
          obtain ⟨c, hc⟩ := hm.arrival_prio ht
          rw [h.arrived] at hc
          simp only [Option.some.injEq, Prod.mk.injEq] at hc
          refine absurd ?_ hq
          rw [hm.prio v (by simp [Active, ht]), ← hc.1, hb.1, hp']
        · exact Ahead.arrive ⟨h.arrived, h.later⟩ hv
  | save v =>
    simp only [opState] at hop
    split at hop
    · rename_i hv
      have hne : v ≠ t := by rintro rfl; rw [ht] at hv; cases hv
      exact h.arrive hne
    · cases hop
  | dispatch =>
    simp only [RefSched.step] at hm' ⊢
    split
    · rename_i v hv
      by_cases hvt : v = t
      · -- `t` is on an LWP now
        subst hvt
        rw [hv] at hm'
        refine absurd ?_ ((hm'.arrival_iff v).2 ht')
        simp
      · exact h.leave hvt
    · exact h
  | block v => exact ⟨h.arrived, h.later⟩
  | alloc v => exact h
  | free v => exact h
  | exit v => exact h
  | enqueue q v => exact h
  | dequeue q => exact h

/-- Along operations during which `t` stays runnable at its priority it stays ahead. -/
theorem Ahead.ops {ops : List (RunqOp N)} :
    ∀ {s s' : State N L} {r : RefSched N} {out : List (Option (Fin N))}, Ahead r t u prio a →
      Matches s r → Runs.outputs Uthreads.opStep s ops = some (s', out) →
      (∀ pre s₁ out₁, pre <+: ops → Runs.outputs Uthreads.opStep s pre = some (s₁, out₁) →
        (s₁.uthreads t).utState = .runnable ∧ (s₁.uthreads t).utPrio = prio) →
      Ahead (Runs.totalOutputs RefSched.step r ops).1 t u prio a := by
  induction ops with
  | nil => intro s s' r out h _ _ _; exact h
  | cons op ops ih =>
    intro s s' r out h hm hs hstay
    simp only [Runs.outputs] at hs
    split at hs
    · cases hs
    · rename_i s₁ o hn
      obtain ⟨⟨s₂, out'⟩, hrun, -⟩ := Option.map_eq_some_iff.1 hs
      have h₁ := hstay [op] s₁ [o] (by simp) (by simp [Runs.outputs, hn])
      refine ih (h.opStep hm hn h₁.1 h₁.2) (sched_simulation s r op s₁ o hm hn).2 hrun ?_
      intro pre s₃ out₃ hpre hout
      refine hstay (op :: pre) s₃ (o :: out₃) (List.cons_prefix_cons.2 ⟨rfl, hpre⟩) ?_
      simp [Runs.outputs, hn, hout]

/-- **Strict priority, FIFO inside a level.** From the empty run queues, a sequence of operations
dispatches the threads that the reference dispatches. No thread is dispatched while one of higher
priority is runnable; and while `t` stays runnable at its priority, no `u` that arrives there
later is dispatched from it. -/
theorem dispatch_order {s₀ s : State N L} {ops : List (RunqOp N)} {out : List (Option (Fin N))}
    (h₀ : EmptyRunq s₀) (hs : Runs.outputs opStep s₀ ops = some (s, out)) :
    (Runs.totalOutputs RefSched.step (RefSched.init s₀) ops).2 = out ∧
    (∀ t s', opStep s .dispatch = some (s', some t) →
      ∀ u, (s.uthreads u).utState = .runnable → (s.uthreads u).utPrio ≤ (s.uthreads t).utPrio) ∧
    (∀ t u, (s.uthreads t).utState = .runnable →
      ¬ ((s.uthreads u).utState = .runnable ∧ (s.uthreads u).utPrio = (s.uthreads t).utPrio) →
      ∀ more s₂ out₂, Runs.outputs opStep s more = some (s₂, out₂) →
        (∀ pre s₁ out₁, pre <+: more → Runs.outputs opStep s pre = some (s₁, out₁) →
          (s₁.uthreads t).utState = .runnable ∧
            (s₁.uthreads t).utPrio = (s.uthreads t).utPrio) →
        ∀ s₃, opStep s₂ .dispatch = some (s₃, some u) →
          (s₂.uthreads u).utPrio ≠ (s.uthreads t).utPrio) := by
  obtain ⟨hout, hm⟩ := ops_matches h₀.matches hs
  have hdisp : ∀ {s : State N L} {r : RefSched N} {t : Fin N} {s' : State N L}, Matches s r →
      opStep s .dispatch = some (s', some t) → r.ready.IsNext t ∧
        (s.uthreads t).utState = .runnable := by
    intro s r t s' hm hd
    obtain ⟨s₁, -, he⟩ := Option.map_eq_some_iff.1 hd
    simp only [opOut, Prod.mk.injEq, Option.map_eq_some_iff] at he
    obtain ⟨-, ⟨t', s₂⟩, hd', rfl⟩ := he
    obtain ⟨p, x, hx, -, -⟩ := dispatchBody_some hd'
    refine ⟨hm.isNext hd', ((hm.runq.mem t' p).1 ?_).1⟩
    rw [hx]; exact List.mem_cons_self
  refine ⟨hout, fun t s' hd u hu => ?_, fun t u ht hu more s₂ out₂ hmore hstay s₃ hd heq => ?_⟩
  · obtain ⟨⟨p, a, hta, hnext⟩, ht⟩ := hdisp hm hd
    obtain ⟨b, hb⟩ := hm.arrival_prio hu
    obtain ⟨c, hc⟩ := hm.arrival_prio ht
    rw [hta] at hc
    simp only [Option.some.injEq, Prod.mk.injEq] at hc
    rcases hnext u _ b hb with hlt | ⟨hle, -⟩
    · rw [← hc.1]; exact le_of_lt hlt
    · rw [← hc.1, hle]
  · obtain ⟨a, ha⟩ := hm.arrival_prio ht
    have hahead : Ahead (Runs.totalOutputs RefSched.step (RefSched.init s₀) ops).1 t u
        (s.uthreads t).utPrio a := by
      refine ⟨ha, fun b hb => absurd ?_ hu⟩
      have hrun : (s.uthreads u).utState = .runnable :=
        (hm.arrival_iff u).1 (by rw [hb]; exact Option.some_ne_none _)
      obtain ⟨c, hc⟩ := hm.arrival_prio hrun
      rw [hb] at hc
      simp only [Option.some.injEq, Prod.mk.injEq] at hc
      exact ⟨hrun, hc.1.symm⟩
    have hahead₂ := hahead.ops hm hmore hstay
    have hm₂ := (ops_matches hm hmore).2
    obtain ⟨⟨p, b, hub, hnext⟩, hu₂⟩ := hdisp hm₂ hd
    obtain ⟨c, hc⟩ := hm₂.arrival_prio hu₂
    rw [hub] at hc
    simp only [Option.some.injEq, Prod.mk.injEq] at hc
    have hp : p = (s.uthreads t).utPrio := hc.1.trans heq
    subst hp
    have hlt := hahead₂.later b hub
    rcases hnext t _ a hahead₂.arrived with h | ⟨-, hle⟩
    · exact lt_irrefl _ h
    · omega

theorem dispatch_order_preempted :
    (Runs.totalOutputs RefSched.step (RefSched.init (schedInit 1 1))
      [.alloc 0, .start 0 7, .dispatch, .alloc 1, .start 1 3, .setprio 0 1 7, .save 0, .dispatch]).2 =
      [none, none, some 0, none, none, none, none, some 1] := by
  obtain ⟨⟨s, out⟩, h⟩ := Option.isSome_iff_exists.1
    (show (Runs.outputs opStep (schedInit 1 1) [.alloc 0, .start 0 7, .dispatch, .alloc 1,
      .start 1 3, .setprio 0 1 7, .save 0, .dispatch]).isSome by decide)
  rw [(dispatch_order (schedInit_empty 1 1) h).1, ← Option.some_inj]
  have hout := congrArg (Option.map Prod.snd) h
  simp only [Option.map_some] at hout
  rw [← hout]
  decide

end Uthreads
