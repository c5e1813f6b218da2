import Mathlib.Tactic.SplitIfs
import Uthreads.Model.Step

/-!
# Rules for the state updates

The fields of an updated state, as simp lemmas, and what the shared operations do when they
succeed: `utqueueEnqueue_ok`, `utqueueDequeue_some`, `utqueueRemove_ok`, `runqEnqueue_ok`,
`runqRequeue_ok`. Later proofs use these and do not unfold the operations.
-/

namespace Uthreads

variable {N L : ℕ}

/-! ## Fields of a conditional record -/

section Ite

variable (c : Prop) [Decidable c] (a b : Uthread N)

@[simp] theorem ite_utLink : (if c then a else b).utLink = if c then a.utLink else b.utLink :=
  apply_ite _ _ _ _
@[simp] theorem ite_utCtx : (if c then a else b).utCtx = if c then a.utCtx else b.utCtx :=
  apply_ite _ _ _ _
@[simp] theorem ite_utState : (if c then a else b).utState = if c then a.utState else b.utState :=
  apply_ite _ _ _ _
@[simp] theorem ite_utPrio : (if c then a else b).utPrio = if c then a.utPrio else b.utPrio :=
  apply_ite _ _ _ _
@[simp] theorem ite_utExit : (if c then a else b).utExit = if c then a.utExit else b.utExit :=
  apply_ite _ _ _ _
@[simp] theorem ite_utDetached :
    (if c then a else b).utDetached = if c then a.utDetached else b.utDetached :=
  apply_ite _ _ _ _
@[simp] theorem ite_utWaiterInit :
    (if c then a else b).utWaiterInit = if c then a.utWaiterInit else b.utWaiterInit :=
  apply_ite _ _ _ _
@[simp] theorem ite_utNoPreemptCount :
    (if c then a else b).utNoPreemptCount = if c then a.utNoPreemptCount else b.utNoPreemptCount :=
  apply_ite _ _ _ _

end Ite

/-! ## A field that a conditional update does not write -/

section IteSelf

variable (f : Fin N → Uthread N) (t u : Fin N)

@[simp] theorem ite_self_utLink :
    (if u = t then (f t).utLink else (f u).utLink) = (f u).utLink := by
  split <;> simp_all
@[simp] theorem ite_self_utCtx :
    (if u = t then (f t).utCtx else (f u).utCtx) = (f u).utCtx := by
  split <;> simp_all
@[simp] theorem ite_self_utState :
    (if u = t then (f t).utState else (f u).utState) = (f u).utState := by
  split <;> simp_all
@[simp] theorem ite_self_utPrio :
    (if u = t then (f t).utPrio else (f u).utPrio) = (f u).utPrio := by
  split <;> simp_all
@[simp] theorem ite_self_utExit :
    (if u = t then (f t).utExit else (f u).utExit) = (f u).utExit := by
  split <;> simp_all
@[simp] theorem ite_self_utDetached :
    (if u = t then (f t).utDetached else (f u).utDetached) = (f u).utDetached := by
  split <;> simp_all
@[simp] theorem ite_self_utWaiterInit :
    (if u = t then (f t).utWaiterInit else (f u).utWaiterInit) = (f u).utWaiterInit := by
  split <;> simp_all
@[simp] theorem ite_self_utNoPreemptCount :
    (if u = t then (f t).utNoPreemptCount else (f u).utNoPreemptCount) = (f u).utNoPreemptCount := by
  split <;> simp_all

end IteSelf

/-! ## Fields of an updated state -/

namespace State

variable (s : State N L)

@[simp] theorem modUthread_uthreads (t : Fin N) (f : Uthread N → Uthread N) (u : Fin N) :
    (s.modUthread t f).uthreads u = if u = t then f (s.uthreads t) else s.uthreads u := by
  simp [modUthread, Function.update_apply]

@[simp] theorem setQueue_queues (q : QueueId N) (x : Utqueue (Fin N)) (r : QueueId N) :
    (s.setQueue q x).queues r = if r = q then x else s.queues r := by
  simp [setQueue, Function.update_apply]

@[simp] theorem setPmtx_pmtx (p : PmtxId N) (x : Pmtx L) (r : PmtxId N) :
    (s.setPmtx p x).pmtx r = if r = p then x else s.pmtx r := by
  simp [setPmtx, Function.update_apply]

@[simp] theorem setLwp_lwps (l : Fin L) (x : Lwp N) (k : Fin L) :
    (s.setLwp l x).lwps k = if k = l then x else s.lwps k := by
  simp [setLwp, Function.update_apply]

@[simp] theorem setOwner_mtx (m : MtxId) (o : Option (Fin N)) (n : MtxId) :
    (s.setOwner m o).mtx n = if n = m then ⟨o⟩ else s.mtx n := by
  simp [setOwner, Function.update_apply]

section Frame

variable (t : Fin N) (f : Uthread N → Uthread N) (q : QueueId N) (x : Utqueue (Fin N))
  (p : PmtxId N) (y : Pmtx L) (l : Fin L) (z : Lwp N) (m : MtxId) (o : Option (Fin N)) (e : Event N)

@[simp] theorem modUthread_queues : (s.modUthread t f).queues = s.queues := rfl
@[simp] theorem modUthread_runqSize : (s.modUthread t f).runqSize = s.runqSize := rfl
@[simp] theorem modUthread_mtx : (s.modUthread t f).mtx = s.mtx := rfl
@[simp] theorem modUthread_pmtx : (s.modUthread t f).pmtx = s.pmtx := rfl
@[simp] theorem modUthread_reaperThrId : (s.modUthread t f).reaperThrId = s.reaperThrId := rfl
@[simp] theorem modUthread_prevId : (s.modUthread t f).prevId = s.prevId := rfl
@[simp] theorem modUthread_lwps : (s.modUthread t f).lwps = s.lwps := rfl
@[simp] theorem modUthread_halt : (s.modUthread t f).halt = s.halt := rfl
@[simp] theorem modUthread_log : (s.modUthread t f).log = s.log := rfl
@[simp] theorem modUthread_incarnation : (s.modUthread t f).incarnation = s.incarnation := rfl
@[simp] theorem modUthread_tested : (s.modUthread t f).tested = s.tested := rfl

@[simp] theorem setQueue_uthreads : (s.setQueue q x).uthreads = s.uthreads := rfl
@[simp] theorem setQueue_runqSize : (s.setQueue q x).runqSize = s.runqSize := rfl
@[simp] theorem setQueue_mtx : (s.setQueue q x).mtx = s.mtx := rfl
@[simp] theorem setQueue_pmtx : (s.setQueue q x).pmtx = s.pmtx := rfl
@[simp] theorem setQueue_reaperThrId : (s.setQueue q x).reaperThrId = s.reaperThrId := rfl
@[simp] theorem setQueue_prevId : (s.setQueue q x).prevId = s.prevId := rfl
@[simp] theorem setQueue_lwps : (s.setQueue q x).lwps = s.lwps := rfl
@[simp] theorem setQueue_halt : (s.setQueue q x).halt = s.halt := rfl
@[simp] theorem setQueue_log : (s.setQueue q x).log = s.log := rfl
@[simp] theorem setQueue_incarnation : (s.setQueue q x).incarnation = s.incarnation := rfl
@[simp] theorem setQueue_tested : (s.setQueue q x).tested = s.tested := rfl

@[simp] theorem setPmtx_uthreads : (s.setPmtx p y).uthreads = s.uthreads := rfl
@[simp] theorem setPmtx_queues : (s.setPmtx p y).queues = s.queues := rfl
@[simp] theorem setPmtx_runqSize : (s.setPmtx p y).runqSize = s.runqSize := rfl
@[simp] theorem setPmtx_mtx : (s.setPmtx p y).mtx = s.mtx := rfl
@[simp] theorem setPmtx_reaperThrId : (s.setPmtx p y).reaperThrId = s.reaperThrId := rfl
@[simp] theorem setPmtx_prevId : (s.setPmtx p y).prevId = s.prevId := rfl
@[simp] theorem setPmtx_lwps : (s.setPmtx p y).lwps = s.lwps := rfl
@[simp] theorem setPmtx_halt : (s.setPmtx p y).halt = s.halt := rfl
@[simp] theorem setPmtx_log : (s.setPmtx p y).log = s.log := rfl
@[simp] theorem setPmtx_incarnation : (s.setPmtx p y).incarnation = s.incarnation := rfl
@[simp] theorem setPmtx_tested : (s.setPmtx p y).tested = s.tested := rfl

@[simp] theorem setLwp_uthreads : (s.setLwp l z).uthreads = s.uthreads := rfl
@[simp] theorem setLwp_queues : (s.setLwp l z).queues = s.queues := rfl
@[simp] theorem setLwp_runqSize : (s.setLwp l z).runqSize = s.runqSize := rfl
@[simp] theorem setLwp_mtx : (s.setLwp l z).mtx = s.mtx := rfl
@[simp] theorem setLwp_pmtx : (s.setLwp l z).pmtx = s.pmtx := rfl
@[simp] theorem setLwp_reaperThrId : (s.setLwp l z).reaperThrId = s.reaperThrId := rfl
@[simp] theorem setLwp_prevId : (s.setLwp l z).prevId = s.prevId := rfl
@[simp] theorem setLwp_halt : (s.setLwp l z).halt = s.halt := rfl
@[simp] theorem setLwp_log : (s.setLwp l z).log = s.log := rfl
@[simp] theorem setLwp_incarnation : (s.setLwp l z).incarnation = s.incarnation := rfl
@[simp] theorem setLwp_tested : (s.setLwp l z).tested = s.tested := rfl

@[simp] theorem setOwner_uthreads : (s.setOwner m o).uthreads = s.uthreads := rfl
@[simp] theorem setOwner_queues : (s.setOwner m o).queues = s.queues := rfl
@[simp] theorem setOwner_runqSize : (s.setOwner m o).runqSize = s.runqSize := rfl
@[simp] theorem setOwner_pmtx : (s.setOwner m o).pmtx = s.pmtx := rfl
@[simp] theorem setOwner_reaperThrId : (s.setOwner m o).reaperThrId = s.reaperThrId := rfl
@[simp] theorem setOwner_prevId : (s.setOwner m o).prevId = s.prevId := rfl
@[simp] theorem setOwner_lwps : (s.setOwner m o).lwps = s.lwps := rfl
@[simp] theorem setOwner_halt : (s.setOwner m o).halt = s.halt := rfl
@[simp] theorem setOwner_log : (s.setOwner m o).log = s.log := rfl
@[simp] theorem setOwner_incarnation : (s.setOwner m o).incarnation = s.incarnation := rfl
@[simp] theorem setOwner_tested : (s.setOwner m o).tested = s.tested := rfl

@[simp] theorem emit_uthreads : (s.emit e).uthreads = s.uthreads := rfl
@[simp] theorem emit_queues : (s.emit e).queues = s.queues := rfl
@[simp] theorem emit_runqSize : (s.emit e).runqSize = s.runqSize := rfl
@[simp] theorem emit_mtx : (s.emit e).mtx = s.mtx := rfl
@[simp] theorem emit_pmtx : (s.emit e).pmtx = s.pmtx := rfl
@[simp] theorem emit_reaperThrId : (s.emit e).reaperThrId = s.reaperThrId := rfl
@[simp] theorem emit_prevId : (s.emit e).prevId = s.prevId := rfl
@[simp] theorem emit_lwps : (s.emit e).lwps = s.lwps := rfl
@[simp] theorem emit_halt : (s.emit e).halt = s.halt := rfl
@[simp] theorem emit_log : (s.emit e).log = s.log ++ [e] := rfl
@[simp] theorem emit_incarnation : (s.emit e).incarnation = s.incarnation := rfl
@[simp] theorem emit_tested : (s.emit e).tested = s.tested := rfl

variable (st : UthreadState) (k : Code N) (w : LwpMode N)

@[simp] theorem setState_uthreads (u : Fin N) : (s.setState t st).uthreads u =
    if u = t then { s.uthreads t with utState := st } else s.uthreads u :=
  modUthread_uthreads s t _ u

@[simp] theorem setCtx_uthreads (u : Fin N) : (s.setCtx t k).uthreads u =
    if u = t then { s.uthreads t with utCtx := k } else s.uthreads u :=
  modUthread_uthreads s t _ u

@[simp] theorem setMode_lwps (j : Fin L) : (s.setMode l w).lwps j =
    if j = l then { s.lwps l with mode := w } else s.lwps j :=
  setLwp_lwps s l _ j

@[simp] theorem setState_queues : (s.setState t st).queues = s.queues := rfl
@[simp] theorem setState_runqSize : (s.setState t st).runqSize = s.runqSize := rfl
@[simp] theorem setState_mtx : (s.setState t st).mtx = s.mtx := rfl
@[simp] theorem setState_pmtx : (s.setState t st).pmtx = s.pmtx := rfl
@[simp] theorem setState_reaperThrId : (s.setState t st).reaperThrId = s.reaperThrId := rfl
@[simp] theorem setState_prevId : (s.setState t st).prevId = s.prevId := rfl
@[simp] theorem setState_lwps : (s.setState t st).lwps = s.lwps := rfl
@[simp] theorem setState_halt : (s.setState t st).halt = s.halt := rfl
@[simp] theorem setState_log : (s.setState t st).log = s.log := rfl
@[simp] theorem setState_incarnation : (s.setState t st).incarnation = s.incarnation := rfl
@[simp] theorem setState_tested : (s.setState t st).tested = s.tested := rfl

@[simp] theorem setCtx_queues : (s.setCtx t k).queues = s.queues := rfl
@[simp] theorem setCtx_runqSize : (s.setCtx t k).runqSize = s.runqSize := rfl
@[simp] theorem setCtx_mtx : (s.setCtx t k).mtx = s.mtx := rfl
@[simp] theorem setCtx_pmtx : (s.setCtx t k).pmtx = s.pmtx := rfl
@[simp] theorem setCtx_reaperThrId : (s.setCtx t k).reaperThrId = s.reaperThrId := rfl
@[simp] theorem setCtx_prevId : (s.setCtx t k).prevId = s.prevId := rfl
@[simp] theorem setCtx_lwps : (s.setCtx t k).lwps = s.lwps := rfl
@[simp] theorem setCtx_halt : (s.setCtx t k).halt = s.halt := rfl
@[simp] theorem setCtx_log : (s.setCtx t k).log = s.log := rfl
@[simp] theorem setCtx_incarnation : (s.setCtx t k).incarnation = s.incarnation := rfl
@[simp] theorem setCtx_tested : (s.setCtx t k).tested = s.tested := rfl

@[simp] theorem setMode_uthreads : (s.setMode l w).uthreads = s.uthreads := rfl
@[simp] theorem setMode_queues : (s.setMode l w).queues = s.queues := rfl
@[simp] theorem setMode_runqSize : (s.setMode l w).runqSize = s.runqSize := rfl
@[simp] theorem setMode_mtx : (s.setMode l w).mtx = s.mtx := rfl
@[simp] theorem setMode_pmtx : (s.setMode l w).pmtx = s.pmtx := rfl
@[simp] theorem setMode_reaperThrId : (s.setMode l w).reaperThrId = s.reaperThrId := rfl
@[simp] theorem setMode_prevId : (s.setMode l w).prevId = s.prevId := rfl
@[simp] theorem setMode_halt : (s.setMode l w).halt = s.halt := rfl
@[simp] theorem setMode_log : (s.setMode l w).log = s.log := rfl
@[simp] theorem setMode_incarnation : (s.setMode l w).incarnation = s.incarnation := rfl
@[simp] theorem setMode_tested : (s.setMode l w).tested = s.tested := rfl

end Frame

end State

/-! ## The shared operations -/

/-- Everything but the table, the queues and the counters of the run queue and of parking is
the same. -/
structure SameRest (s s' : State N L) : Prop where
  mtx : s'.mtx = s.mtx
  pmtx : s'.pmtx = s.pmtx
  reaperThrId : s'.reaperThrId = s.reaperThrId
  prevId : s'.prevId = s.prevId
  lwps : s'.lwps = s.lwps
  lwpCnt : s'.lwpCnt = s.lwpCnt
  lwpParkedCnt : s'.lwpParkedCnt = s.lwpParkedCnt
  halt : s'.halt = s.halt
  log : s'.log = s.log
  incarnation : s'.incarnation = s.incarnation
  tested : s'.tested = s.tested

variable {s s' : State N L} {q : QueueId N} {t : Fin N}

theorem utqueueEnqueue_ok (h : utqueueEnqueue q t s = .ok s') :
    (s.uthreads t).utLink = none ∧
      s' = (s.setQueue q ((s.queues q).enqueue t)).modUthread t fun u => { u with utLink := some q } := by
  unfold utqueueEnqueue at h
  split at h
  · exact ⟨‹_›, (Except.ok.inj h).symm⟩
  · cases h

theorem utqueueDequeue_none : utqueueDequeue q s = none ↔ (s.queues q).tqWaiters = [] := by
  unfold utqueueDequeue
  split
  · rename_i h; simpa using h
  · rename_i h; simp [Utqueue.dequeue_some_iff.1 h]

theorem utqueueDequeue_some (h : utqueueDequeue q s = some (t, s')) :
    ∃ x, (s.queues q).tqWaiters = t :: x.tqWaiters ∧
      s' = (s.setQueue q x).modUthread t fun u => { u with utLink := none } := by
  unfold utqueueDequeue at h
  split at h
  · cases h
  · rename_i thr x hx
    simp only [Option.some.injEq, Prod.mk.injEq] at h
    obtain ⟨rfl, rfl⟩ := h
    exact ⟨x, Utqueue.dequeue_some_iff.1 hx, rfl⟩

theorem utqueueRemove_ok (h : utqueueRemove q t s = .ok s') :
    ∃ hm : t ∈ (s.queues q).tqWaiters,
      s' = (s.setQueue q ((s.queues q).remove t hm)).modUthread t fun u => { u with utLink := none } := by
  unfold utqueueRemove at h
  split_ifs at h with _ hm
  exact ⟨hm, (Except.ok.inj h).symm⟩

theorem runqIndex_eq {prio : ℤ} {p : Fin (uthMaxprio + 1)} (h : runqIndex prio = some p) :
    prio = (p : ℕ) := by
  unfold runqIndex at h
  split_ifs at h with hp
  rw [← Option.some.inj h]
  exact (Int.toNat_of_nonneg hp.1).symm

theorem runqIndex_cast (p : Fin (uthMaxprio + 1)) : runqIndex ((p : ℕ) : ℤ) = some p := by
  have hp : (0 : ℤ) ≤ (p : ℕ) ∧ ((p : ℕ) : ℤ) < uthMaxprio + 1 := ⟨by omega, by exact_mod_cast p.2⟩
  unfold runqIndex
  rw [dif_pos hp]
  simp

/-- What `uthread_runq_enqueue` does when it succeeds. -/
theorem runqEnqueue_ok (h : uthreadRunqEnqueue t s = .ok s') :
    ∃ p : Fin (uthMaxprio + 1), (s.uthreads t).utPrio = (p : ℕ) ∧ (s.uthreads t).utLink = none ∧
      s'.uthreads = Function.update s.uthreads t { s.uthreads t with utLink := some (.runq p) } ∧
      s'.queues = Function.update s.queues (.runq p) ((s.queues (.runq p)).enqueue t) ∧
      s'.runqSize = s.runqSize + 1 ∧ SameRest s s' := by
  unfold uthreadRunqEnqueue at h
  split at h
  · cases h
  · rename_i p hp
    cases hq : utqueueEnqueue (.runq p) t s with
    | error e => rw [hq] at h; cases h
    | ok s₁ =>
      rw [hq] at h
      obtain ⟨hl, rfl⟩ := utqueueEnqueue_ok hq
      refine ⟨p, runqIndex_eq hp, hl, ?_⟩
      simp only [bind, Except.bind, pure, Except.pure, Except.ok.injEq] at h
      subst h
      split <;> [unfold lwpRelease; skip]
      · split <;> exact ⟨rfl, rfl, rfl, by constructor <;> rfl⟩
      · exact ⟨rfl, rfl, rfl, by constructor <;> rfl⟩

/-- What `uthread_runq_requeue` does when it succeeds. -/
theorem runqRequeue_ok {oldprio : ℤ} (h : uthreadRunqRequeue t oldprio s = .ok s') :
    ∃ p p' : Fin (uthMaxprio + 1), oldprio = (p : ℕ) ∧ (s.uthreads t).utPrio = (p' : ℕ) ∧
      ∃ hm : t ∈ (s.queues (.runq p)).tqWaiters,
        s' = (((s.setQueue (.runq p) ((s.queues (.runq p)).remove t hm)).modUthread t
            fun u => { u with utLink := none }).setQueue (.runq p')
              (((s.setQueue (.runq p) ((s.queues (.runq p)).remove t hm)).queues
                (.runq p')).enqueue t)).modUthread t
                  fun u => { u with utLink := some (.runq p') } := by
  unfold uthreadRunqRequeue at h
  split at h
  · rename_i p p' hp hp'
    cases hr : utqueueRemove (.runq p) t s with
    | error e => rw [hr] at h; cases h
    | ok s₁ =>
      rw [hr] at h
      obtain ⟨hm, rfl⟩ := utqueueRemove_ok hr
      obtain ⟨-, hs⟩ := utqueueEnqueue_ok h
      exact ⟨p, p', runqIndex_eq hp, runqIndex_eq hp', hm, hs⟩
  · cases h

/-! ## The writes to a slot -/

section Slot

variable (s : State N L) (u v : Fin N) (w : CreateStep) (d : DestroyStep) (p : PmtxId N)
  (q : QueueId N)

theorem createWrite_uthreads : ((createWrite u s w).uthreads v).utState = (s.uthreads v).utState ∧
    ((createWrite u s w).uthreads v).utDetached = (s.uthreads v).utDetached ∧
    (v ≠ u → (createWrite u s w).uthreads v = s.uthreads v) := by
  by_cases h : ∃ l, OnStack s l u <;> cases w <;> simp +contextual [createWrite, h]

@[simp] theorem createWrite_utState :
    ((createWrite u s w).uthreads v).utState = (s.uthreads v).utState :=
  (createWrite_uthreads s u v w).1

@[simp] theorem createWrite_utDetached :
    ((createWrite u s w).uthreads v).utDetached = (s.uthreads v).utDetached :=
  (createWrite_uthreads s u v w).2.1

variable {u v} in
theorem createWrite_of_ne (h : v ≠ u) : (createWrite u s w).uthreads v = s.uthreads v :=
  (createWrite_uthreads s u v w).2.2 h

@[simp] theorem createWrite_utWaiterInit : ((createWrite u s w).uthreads v).utWaiterInit =
    if w = .waiter ∧ v = u then true else (s.uthreads v).utWaiterInit := by
  by_cases h : ∃ l, OnStack s l u <;> by_cases hv : v = u <;> cases w <;> simp [createWrite, h, hv]

@[simp] theorem createWrite_utExit : ((createWrite u s w).uthreads v).utExit =
    if w = .exit ∧ v = u then 0 else (s.uthreads v).utExit := by
  by_cases h : ∃ l, OnStack s l u <;> by_cases hv : v = u <;> cases w <;> simp [createWrite, h, hv]

@[simp] theorem createWrite_utPrio : ((createWrite u s w).uthreads v).utPrio =
    if w = .prio ∧ v = u then -1 else (s.uthreads v).utPrio := by
  by_cases h : ∃ l, OnStack s l u <;> by_cases hv : v = u <;> cases w <;> simp [createWrite, h, hv]

@[simp] theorem createWrite_utNoPreemptCount : ((createWrite u s w).uthreads v).utNoPreemptCount =
    if w = .count ∧ v = u then 1 else (s.uthreads v).utNoPreemptCount := by
  by_cases h : ∃ l, OnStack s l u <;> by_cases hv : v = u <;> cases w <;> simp [createWrite, h, hv]

@[simp] theorem createWrite_queues : (createWrite u s w).queues q =
    if w = .waiter ∧ q = .utWaiter u then .init else s.queues q := by
  by_cases h : ∃ l, OnStack s l u <;> cases w <;> simp [createWrite, h]

@[simp] theorem createWrite_pmtx : (createWrite u s w).pmtx p =
    if w = .pmut ∧ p = .utPmut u then ⟨.live, true, none⟩ else s.pmtx p := by
  by_cases h : ∃ l, OnStack s l u <;> cases w <;> simp [createWrite, h]

theorem createWrite_rest : SameRest s { createWrite u s w with pmtx := s.pmtx } ∧
    (createWrite u s w).runqSize = s.runqSize ∧
    (createWrite u s w).parkWaiters = s.parkWaiters ∧
    (createWrite u s w).parkSignals = s.parkSignals := by
  cases w with
  | ctx =>
    simp only [createWrite]
    split <;> exact ⟨by constructor <;> rfl, rfl, rfl, rfl⟩
  | _ => exact ⟨by constructor <;> rfl, rfl, rfl, rfl⟩

@[simp] theorem createWrite_mtx : (createWrite u s w).mtx = s.mtx := (createWrite_rest s u w).1.mtx
@[simp] theorem createWrite_lwps : (createWrite u s w).lwps = s.lwps := (createWrite_rest s u w).1.lwps
@[simp] theorem createWrite_halt : (createWrite u s w).halt = s.halt := (createWrite_rest s u w).1.halt
@[simp] theorem createWrite_runqSize : (createWrite u s w).runqSize = s.runqSize :=
  (createWrite_rest s u w).2.1

theorem destroyWrite_uthreads : ((destroyWrite u s d).uthreads v).utCtx = (s.uthreads v).utCtx ∧
    ((destroyWrite u s d).uthreads v).utLink = (s.uthreads v).utLink ∧
    ((destroyWrite u s d).uthreads v).utPrio = (s.uthreads v).utPrio ∧
    ((destroyWrite u s d).uthreads v).utWaiterInit = (s.uthreads v).utWaiterInit ∧
    ((destroyWrite u s d).uthreads v).utNoPreemptCount = (s.uthreads v).utNoPreemptCount := by
  cases d <;> simp [destroyWrite]

@[simp] theorem destroyWrite_utCtx :
    ((destroyWrite u s d).uthreads v).utCtx = (s.uthreads v).utCtx :=
  (destroyWrite_uthreads s u v d).1

@[simp] theorem destroyWrite_utLink :
    ((destroyWrite u s d).uthreads v).utLink = (s.uthreads v).utLink :=
  (destroyWrite_uthreads s u v d).2.1

@[simp] theorem destroyWrite_utPrio :
    ((destroyWrite u s d).uthreads v).utPrio = (s.uthreads v).utPrio :=
  (destroyWrite_uthreads s u v d).2.2.1

@[simp] theorem destroyWrite_utWaiterInit :
    ((destroyWrite u s d).uthreads v).utWaiterInit = (s.uthreads v).utWaiterInit :=
  (destroyWrite_uthreads s u v d).2.2.2.1

@[simp] theorem destroyWrite_utNoPreemptCount :
    ((destroyWrite u s d).uthreads v).utNoPreemptCount = (s.uthreads v).utNoPreemptCount :=
  (destroyWrite_uthreads s u v d).2.2.2.2

@[simp] theorem destroyWrite_utState : ((destroyWrite u s d).uthreads v).utState =
    if d = .state ∧ v = u then .noState else (s.uthreads v).utState := by
  cases d <;> simp only [destroyWrite] <;> by_cases h : v = u <;> simp [h]

@[simp] theorem destroyWrite_utDetached : ((destroyWrite u s d).uthreads v).utDetached =
    if d = .detached ∧ v = u then false else (s.uthreads v).utDetached := by
  cases d <;> simp only [destroyWrite] <;> by_cases h : v = u <;> simp [h]

@[simp] theorem destroyWrite_utExit : ((destroyWrite u s d).uthreads v).utExit =
    if d = .exit ∧ v = u then 0 else (s.uthreads v).utExit := by
  cases d <;> simp only [destroyWrite] <;> by_cases h : v = u <;> simp [h]

@[simp] theorem destroyWrite_queues : (destroyWrite u s d).queues q =
    if d = .waiter ∧ q = .utWaiter u then .init else s.queues q := by
  cases d <;> simp [destroyWrite]

@[simp] theorem destroyWrite_pmtx : (destroyWrite u s d).pmtx p =
    if d = .pmut ∧ p = .utPmut u then { s.pmtx p with status := .destroyed } else s.pmtx p := by
  cases d <;> simp only [destroyWrite] <;> by_cases h : p = .utPmut u <;> simp [h]

theorem destroyWrite_rest : (destroyWrite u s d).mtx = s.mtx ∧ (destroyWrite u s d).lwps = s.lwps ∧
    (destroyWrite u s d).halt = s.halt ∧ (destroyWrite u s d).runqSize = s.runqSize ∧
    (destroyWrite u s d).lwpCnt = s.lwpCnt ∧ (destroyWrite u s d).lwpParkedCnt = s.lwpParkedCnt ∧
    (destroyWrite u s d).parkWaiters = s.parkWaiters ∧
    (destroyWrite u s d).parkSignals = s.parkSignals := by
  cases d <;> exact ⟨rfl, rfl, rfl, rfl, rfl, rfl, rfl, rfl⟩

@[simp] theorem destroyWrite_mtx : (destroyWrite u s d).mtx = s.mtx := (destroyWrite_rest s u d).1
@[simp] theorem destroyWrite_lwps : (destroyWrite u s d).lwps = s.lwps := (destroyWrite_rest s u d).2.1
@[simp] theorem destroyWrite_halt : (destroyWrite u s d).halt = s.halt := (destroyWrite_rest s u d).2.2.1
@[simp] theorem destroyWrite_runqSize : (destroyWrite u s d).runqSize = s.runqSize :=
  (destroyWrite_rest s u d).2.2.2.1

end Slot

/-- `uthread_alloc` returns a slot in `UT_NO_STATE`. -/
theorem allocFor_noState {st : Fin N → UthreadState} {u : Fin N} :
    ∀ {i n : ℕ}, allocFor st i n = some u → st u = .noState
  | _, 0, h => by cases h
  | i, n + 1, h => by
    unfold allocFor at h
    split_ifs at h with hi hst
    · rw [← Option.some.inj h]; exact hst
    · exact allocFor_noState h

theorem allocWhile_noState {st : Fin N → UthreadState} {u : Fin N} {start : ℕ}
    (h : allocWhile st start = some u) : st u = .noState := by
  unfold allocWhile at h
  split at h
  · rename_i hf
    rw [← Option.some.inj h]
    exact allocFor_noState hf
  · split_ifs at h
    exact allocFor_noState h

end Uthreads
