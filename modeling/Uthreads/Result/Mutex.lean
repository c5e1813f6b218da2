import Uthreads.Lib.Events
import Uthreads.Result.Switch

/-!
# Mutexes

`MtxInv m s` relates the owner of the uthread mutex `m`, its queue of waiters, the codes of the threads
and the log. It is kept as long as `m` is unlocked by its owner only (`mtx_step`).

* `mutex_fifo`: one thread at a time is between its lock and its unlock; a free mutex has no waiters;
  the waiters get the mutex in the order in which they have queued up, once for each time.
-/

namespace Uthreads

variable {N L : ℕ} {l : Fin L} {t u v : Fin N} {s s' s₁ : State N L} {i : Instr N} {c cs new : Code N}
  {a : Act} {m : MtxId} {log : List (Event N)} {e : Event N}

open Instr Events

/-! ## The code of a thread that waits for a mutex -/

/-- What `uthread_mtx_lock` still executes when it finds the mutex taken. -/
def blockRest (m : MtxId) : Code N :=
  uthreadSwitch (some (.mWaiters m)) false (some (.mPmut m)) ++ [lockOwned m, nopreemptOff]

/-- The code belongs to a thread in the blocking branch of `uthread_mtx_lock`, or to none. -/
def BlockCode (m : MtxId) (c : Code N) : Prop :=
  lockOwned m ∈ c → ∃ cs, lockOwned m ∉ cs ∧ c <:+ blockRest m ++ cs

/-- The thread has joined `m_waiters` and not come back from the blocking branch yet. -/
def awaits (m : MtxId) : Code N → Bool
  | resume :: lockOwned m' :: _ => decide (m' = m)
  | lockOwned m' :: _ => decide (m' = m)
  | _ => false

/-- The thread is on its way to join `m_waiters`. -/
def Joins (m : MtxId) (c : Code N) : Prop := ∃ sv r, swtch (some (.mWaiters m)) sv r ∈ c

theorem awaits_mem (h : awaits m c = true) : lockOwned m ∈ c := by
  unfold awaits at h
  split at h
  · obtain rfl := of_decide_eq_true h; simp
  · obtain rfl := of_decide_eq_true h; simp
  · cases h

/-- Where the thread is in the blocking branch. -/
theorem BlockCode.cases (h : BlockCode m c) (hm : lockOwned m ∈ c) : ∃ cs, lockOwned m ∉ cs ∧
    (c = blockRest m ++ cs ∨ c = swtch (some (.mWaiters m)) false (some (.mPmut m)) :: resume ::
        lockOwned m :: nopreemptOff :: cs ∨
      c = resume :: lockOwned m :: nopreemptOff :: cs ∨ c = lockOwned m :: nopreemptOff :: cs) := by
  obtain ⟨cs, hcs, hsuf⟩ := h hm
  refine ⟨cs, hcs, ?_⟩
  simp only [blockRest, uthreadSwitch, List.cons_append, List.nil_append, List.suffix_cons_iff] at hsuf ⊢
  rcases hsuf with e | e | e | e | e | e
  · exact .inl e
  · exact .inr (.inl e)
  · exact .inr (.inr (.inl e))
  · exact .inr (.inr (.inr e))
  · rw [e] at hm
    exact absurd (by simpa using hm) hcs
  · exact absurd (e.subset hm) hcs

/-- Only a thread that finds the mutex taken gets into the branch. -/
theorem effect_owned (he : Effect l t s i s₁ new) (hm : lockOwned m ∈ new) :
    i = lockTest m ∧ new = blockRest m ∧ (s.mtx m).mOwner ≠ none := by
  obtain rfl : i = lockTest m := effect_before he _ hm
  refine ⟨rfl, ?_⟩
  cases he with
  | plain hp => cases hp
  | take _ _ _ h => rcases h with ⟨-, rfl⟩ | ⟨-, rfl⟩ <;> simp at hm
  | signal _ _ _ _ h => rcases h with ⟨h, -⟩ | ⟨h, -⟩ <;> cases h
  | block _ ho => exact ⟨rfl, ho⟩

theorem blockRest_code (h : lockOwned m ∉ cs) : BlockCode m (blockRest m ++ cs) :=
  fun _ => ⟨cs, h, List.suffix_rfl⟩

theorem blockCode_of_not_mem (h : lockOwned m ∉ c) : BlockCode m c := fun hm => absurd hm h

/-- **The code of an instruction.** -/
theorem effect_blockCode (h : BlockCode m (i :: cs)) (he : Effect l t s i s₁ new) :
    BlockCode m (new ++ cs) := by
  by_cases hnew : lockOwned m ∈ new
  · obtain ⟨rfl, rfl, -⟩ := effect_owned he hnew
    refine blockRest_code fun hcs => ?_
    obtain ⟨cs', -, e | e | e | e⟩ := h.cases (List.mem_cons_of_mem _ hcs) <;>
      simp [blockRest, uthreadSwitch] at e
  · by_cases hcs : lockOwned m ∈ cs
    · -- the instruction is one of the branch
      obtain ⟨cs', hcs', hsuf⟩ := h (List.mem_cons_of_mem _ hcs)
      have hnil : new = [] := by
        obtain ⟨cs', -, e | e | e | e⟩ := h.cases (List.mem_cons_of_mem _ hcs)
        · obtain ⟨rfl, -⟩ := List.cons.inj e
          exact (effect_lock he).1
        · obtain ⟨rfl, -⟩ := List.cons.inj e
          exact (effect_switch he).1
        · obtain ⟨rfl, -⟩ := List.cons.inj e
          exact effect_resume he
        · obtain ⟨rfl, -⟩ := List.cons.inj e
          exact (effect_lockOwned he).1
      rw [hnil, List.nil_append]
      exact fun _ => ⟨cs', hcs', (List.suffix_cons i cs).trans hsuf⟩
    · exact blockCode_of_not_mem (by simp [hnew, hcs])

/-- **Who waits after an instruction**: who waited before, and who has joined the queue now. -/
theorem effect_awaits (hwf : Wf t (i :: cs)) (h : BlockCode m (i :: cs)) (he : Effect l t s i s₁ new) :
    awaits m (new ++ cs) = true ↔
      (∃ sv r, i = swtch (some (.mWaiters m)) sv r) ∨ awaits m (i :: cs) = true ∧ i ≠ lockOwned m := by
  constructor
  · intro ha
    rcases List.mem_append.1 (awaits_mem ha) with hnew | hcs
    · obtain ⟨-, rfl, -⟩ := effect_owned he hnew
      simp [blockRest, uthreadSwitch, awaits] at ha
    · obtain ⟨cs', hcs', e | e | e | e⟩ := h.cases (List.mem_cons_of_mem _ hcs) <;>
        obtain ⟨rfl, rfl⟩ := List.cons.inj e
      · obtain rfl := (effect_lock he).1
        simp [awaits] at ha
      · exact .inl ⟨_, _, rfl⟩
      · exact .inr ⟨by simp [awaits], by simp⟩
      · simp [hcs'] at hcs
  · rintro (⟨sv, r, rfl⟩ | ⟨ha, hne⟩)
    · obtain rfl := (effect_switch he).1
      cases hwf.1 with
      | mutex => simp [awaits]
    · unfold awaits at ha
      split at ha
      · rename_i m' cs' heq
        obtain ⟨rfl, rfl⟩ := List.cons.inj heq
        obtain rfl := effect_resume he
        simpa [awaits] using ha
      · rename_i heq
        obtain ⟨rfl, -⟩ := List.cons.inj heq
        exact absurd (by rw [of_decide_eq_true ha]) hne
      · cases ha

theorem Joins.mem (hwf : Wf t c) (hj : Joins m c) : lockOwned m ∈ c := by
  obtain ⟨sv, r, hmem⟩ := hj
  obtain ⟨d, cs, rfl⟩ := List.append_of_mem hmem
  have hok : OkSwitch t (some (.mWaiters m)) sv r cs := (hwf.suffix ⟨d, rfl⟩).1
  cases hok with
  | mutex => simp

/-- Who is on the way to the queue holds `m_pmut`. -/
theorem Joins.held (hwf : Wf t c) (h : BlockCode m c) (hj : Joins m c) :
    Held (.mPmut m) c ∧ awaits m c = false := by
  obtain ⟨cs, hcs, hc⟩ := h.cases (hj.mem hwf)
  have hno : ∀ {d}, c = d ++ cs → ¬ Joins m cs := fun e hj' =>
    hcs (hj'.mem (hwf.suffix ⟨_, e.symm⟩))
  rcases hc with rfl | rfl | rfl | rfl
  · simp [blockRest, uthreadSwitch, awaits]
  · simp [awaits]
  · exfalso
    refine hno (d := [resume, lockOwned m, nopreemptOff]) rfl ?_
    obtain ⟨sv, r, hmem⟩ := hj
    exact ⟨sv, r, by simpa using hmem⟩
  · exfalso
    refine hno (d := [lockOwned m, nopreemptOff]) rfl ?_
    obtain ⟨sv, r, hmem⟩ := hj
    exact ⟨sv, r, by simpa using hmem⟩

/-! ## The log of a mutex -/

/-- The thread is between a successful lock or trylock and its unlock. -/
def InSection (m : MtxId) (log : List (Event N)) (t : Fin N) : Prop :=
  Since (fun e => e = .taken m t ∨ e = .acquired m t) (· = .released m t) log

/-- The threads that have joined `m_waiters`, in their order. -/
def queuedBy (m : MtxId) (log : List (Event N)) : List (Fin N) :=
  log.filterMap fun e => match e with
    | .queued m' t => if m' = m then some t else none
    | _ => none

/-- The threads that have come back from the blocking branch of `uthread_mtx_lock`, in their order. -/
def acquiredBy (m : MtxId) (log : List (Event N)) : List (Fin N) :=
  log.filterMap fun e => match e with
    | .acquired m' t => if m' = m then some t else none
    | _ => none

/-- The events of the mutex. -/
def Event.onMtx (m : MtxId) : Event N → Bool
  | .queued m' _ | .taken m' _ | .acquired m' _ | .released m' _ => decide (m' = m)
  | _ => false

/-- The instructions that log one. -/
def Instr.onMtx (m : MtxId) : Instr N → Bool
  | swtch (some (.mWaiters m')) _ _ | lockTest m' | trylockTest m' | lockOwned m' | unlockTest m' =>
    decide (m' = m)
  | _ => false

theorem logOf_mtx (hi : i.onMtx m = false) : ∀ e ∈ logOf s t i, e.onMtx m = false := by
  intro e he
  cases i with
  | swtch q sv r =>
    unfold logOf at he
    split at he <;> simp_all [Event.onMtx, Instr.onMtx]
  | lockTest m' | trylockTest m' =>
    simp only [logOf] at he
    split at he <;> simp_all [Event.onMtx, Instr.onMtx]
  | unlockTest m' =>
    simp only [logOf, List.mem_cons, Option.mem_toList, Option.map_eq_some_iff] at he
    rcases he with rfl | ⟨u, -, rfl⟩
    · exact hi
    · rfl
  | signalTest c | broadcastTest c =>
    simp only [logOf, Option.mem_toList, Option.map_eq_some_iff] at he
    obtain ⟨u, -, rfl⟩ := he
    rfl
  | makeReapable u =>
    simp only [logOf] at he
    split at he <;> simp_all [Event.onMtx]
  | allocScan start prio =>
    simp only [logOf, Option.mem_toList, Option.map_eq_some_iff] at he
    obtain ⟨j, -, rfl⟩ := he
    rfl
  | destroy d => cases d <;> simp_all [logOf, Event.onMtx]
  | _ => simp_all [logOf, Event.onMtx, Instr.onMtx]

/-- The mutex and the thread of the log are the same as before. -/
structure SameMtxLog (m : MtxId) (log log' : List (Event N)) : Prop where
  inside : ∀ t, InSection m log' t ↔ InSection m log t
  queued : queuedBy m log' = queuedBy m log
  acquired : acquiredBy m log' = acquiredBy m log

theorem sameMtxLog_append {es : List (Event N)} (h : ∀ e ∈ es, e.onMtx m = false) :
    SameMtxLog m log (log ++ es) := by
  refine ⟨fun t => since_append ?_ ?_, ?_, ?_⟩
  · rintro e he (rfl | rfl) <;> simpa [Event.onMtx] using h _ he
  · rintro e he rfl
    simpa [Event.onMtx] using h _ he
  · have hnil : queuedBy m es = [] := by
      refine List.filterMap_eq_nil_iff.2 fun e he => ?_
      have := h e he
      cases e <;> simp_all [Event.onMtx]
    rw [queuedBy, List.filterMap_append]
    exact (congrArg _ hnil).trans (List.append_nil _)
  · have hnil : acquiredBy m es = [] := by
      refine List.filterMap_eq_nil_iff.2 fun e he => ?_
      have := h e he
      cases e <;> simp_all [Event.onMtx]
    rw [acquiredBy, List.filterMap_append]
    exact (congrArg _ hnil).trans (List.append_nil _)

/-! ## The invariant -/

/-- The owner, the waiters, the codes and the log of a mutex that only its owner unlocks. -/
structure MtxInv (m : MtxId) (s : State N L) : Prop where
  codes : ∀ t, BlockCode m (s.uthreads t).utCtx
  own : OwnInv m s
  waiter : ∀ t ∈ (s.queues (.mWaiters m)).tqWaiters, awaits m (s.uthreads t).utCtx = true
  await : ∀ t, awaits m (s.uthreads t).utCtx = true → t ∈ (s.queues (.mWaiters m)).tqWaiters ∨
    (s.mtx m).mOwner = some t ∧ ¬ InSection m s.log t
  inside : ∀ t, InSection m s.log t → (s.mtx m).mOwner = some t
  owner : ∀ t, (s.mtx m).mOwner = some t → InSection m s.log t ∨
    awaits m (s.uthreads t).utCtx = true ∧ t ∉ (s.queues (.mWaiters m)).tqWaiters
  free : (s.mtx m).mOwner = none →
    (s.queues (.mWaiters m)).tqWaiters = [] ∧ ∀ t, ¬ Joins m (s.uthreads t).utCtx
  inOrder : (∀ t, (s.mtx m).mOwner = some t → InSection m s.log t) →
    queuedBy m s.log = acquiredBy m s.log ++ (s.queues (.mWaiters m)).tqWaiters
  handed : ∀ t, (s.mtx m).mOwner = some t → ¬ InSection m s.log t →
    queuedBy m s.log = acquiredBy m s.log ++ t :: (s.queues (.mWaiters m)).tqWaiters

/-- A step that has nothing to do with the mutex. -/
theorem MtxInv.congr (h : MtxInv m s) (hcode : ∀ t, BlockCode m (s'.uthreads t).utCtx)
    (hown : OwnInv m s') (haw : ∀ t, awaits m (s'.uthreads t).utCtx = awaits m (s.uthreads t).utCtx)
    (hjoin : (s.mtx m).mOwner = none → ∀ t, Joins m (s'.uthreads t).utCtx → Joins m (s.uthreads t).utCtx)
    (hq : s'.queues (.mWaiters m) = s.queues (.mWaiters m)) (ho : (s'.mtx m).mOwner = (s.mtx m).mOwner)
    (hlog : SameMtxLog m s.log s'.log) : MtxInv m s' := by
  refine ⟨hcode, hown, fun t ht => ?_, fun t ht => ?_, fun t ht => ?_, fun t ht => ?_, fun hn => ?_,
    fun hin => ?_, fun t ht hin => ?_⟩
  · rw [hq] at ht
    rw [haw]
    exact h.waiter t ht
  · rw [haw] at ht
    rw [hq, ho, hlog.inside]
    exact h.await t ht
  · rw [ho]
    exact h.inside t ((hlog.inside t).1 ht)
  · rw [ho] at ht
    rw [haw, hq, hlog.inside]
    exact h.owner t ht
  · rw [ho] at hn
    rw [hq]
    exact ⟨(h.free hn).1, fun t ht => (h.free hn).2 t (hjoin hn t ht)⟩
  · simp only [ho, hlog.inside] at hin
    rw [hlog.queued, hlog.acquired, hq]
    exact h.inOrder hin
  · rw [ho] at ht
    rw [hlog.inside] at hin
    rw [hlog.queued, hlog.acquired, hq]
    exact h.handed t ht hin

/-! ## One instruction -/

/-- Whom the instruction of `t` leaves waiting and on the way to the queue. -/
theorem mtx_codes (hc : Core s) (h : MtxInv m s) (hcode : (s.uthreads t).utCtx = i :: cs)
    (he : Effect l t s i s₁ new) (v : Fin N) :
    BlockCode m ((s₁.setCtx t (new ++ cs)).uthreads v).utCtx ∧
      (awaits m ((s₁.setCtx t (new ++ cs)).uthreads v).utCtx = true ↔
        v = t ∧ (∃ sv r, i = swtch (some (.mWaiters m)) sv r) ∨
          awaits m (s.uthreads v).utCtx = true ∧ (v = t → i ≠ lockOwned m)) ∧
      (Joins m ((s₁.setCtx t (new ++ cs)).uthreads v).utCtx →
        Joins m (s.uthreads v).utCtx ∨ i = lockTest m ∧ (s.mtx m).mOwner ≠ none) := by
  by_cases hv : v = t
  · subst hv
    have hwf := hc.codes.wf v
    have hb := h.codes v
    rw [hcode] at hwf hb
    rw [hcode]
    simp only [State.setCtx_uthreads, if_true, true_and, forall_const]
    refine ⟨effect_blockCode hb he, effect_awaits hwf hb he, ?_⟩
    rintro ⟨sv, r, hj⟩
    rcases List.mem_append.1 hj with hj | hj
    · exact .inr (effect_block he hj)
    · exact .inl ⟨sv, r, List.mem_cons_of_mem _ hj⟩
  · rcases other_code cs he hv with e | ⟨⟨prio, rfl⟩, hvac, e⟩
    · rw [e]
      exact ⟨h.codes v, by simp [hv], .inl⟩
    · -- the slot that is set up had no thread
      have hgone : awaits m (s.uthreads v).utCtx = false := by
        rcases (hc.free hvac.1).2.2.2 with (e | e | e) | e <;> rw [e] <;> rfl
      rw [e, hgone]
      refine ⟨blockCode_of_not_mem (by simp [threadStartCode]), ?_, ?_⟩
      · simp [hv, awaits, threadStartCode]
      · rintro ⟨sv, r, hj⟩
        simp [threadStartCode] at hj

theorem mtx_quiet (hc : Core s) (h : MtxInv m s) (hcode : (s.uthreads t).utCtx = i :: cs)
    (he : Effect l t s i s₁ new) (hh : Hist t s i s₁)
    (hsw : ∀ sv r, i ≠ swtch (some (.mWaiters m)) sv r) (hback : i ≠ lockOwned m)
    (hun : i ≠ unlockTest m) (htest : i = lockTest m ∨ i = trylockTest m → (s.mtx m).mOwner ≠ none) :
    MtxInv m (s₁.setCtx t (new ++ cs)) := by
  have hcodes := mtx_codes hc h hcode he
  have howner : (s₁.mtx m).mOwner = (s.mtx m).mOwner := by
    rcases ho : (s.mtx m).mOwner with _ | u
    · have hne : ∀ {j}, i = j → j ≠ lockTest m ∧ j ≠ trylockTest m := by
        rintro j rfl
        exact ⟨fun e => htest (.inl e) ho, fun e => htest (.inr e) ho⟩
      rw [effect_mtx he m ⟨(hne rfl).1, (hne rfl).2, hun⟩, ho]
    · exact kept_owner he ho hun
  refine h.congr (fun v => (hcodes v).1) (own_thread hc h.own hcode he) (fun v => ?_) (fun hn v hj => ?_)
    (effect_queues he (by simp) ?_) howner ?_
  · rw [Bool.eq_iff_iff, (hcodes v).2.1]
    simp [hsw, hback]
  · rcases (hcodes v).2.2 hj with hj | ⟨-, ho⟩
    · exact hj
    · exact absurd hn ho
  · cases i with
    | swtch q sv r =>
      intro hq
      obtain rfl : q = some (.mWaiters m) := by simpa using hq
      exact hsw sv r rfl
    | unlockTest m' =>
      intro hq
      obtain rfl : m = m' := by simpa using hq
      exact hun rfl
    | createInit => exact fun hq => by cases (queues_createInit hq).2
    | destroy => exact fun hq => by cases (queues_destroy hq).2
    | _ => simp
  · show SameMtxLog m s.log s₁.log
    rw [hh.log]
    refine sameMtxLog_append ?_
    by_cases hlt : i = lockTest m ∨ i = trylockTest m
    · -- the mutex is taken
      rcases hlt with rfl | rfl <;> simp [logOf, htest]
    · refine logOf_mtx ?_
      unfold Instr.onMtx
      split <;> simp only [decide_eq_false_iff_not] <;> rintro rfl
      · exact hsw _ _ rfl
      · exact hlt (.inl rfl)
      · exact hlt (.inr rfl)
      · exact hback rfl
      · exact hun rfl

theorem effect_take (he : Effect l t s i s₁ new) (hi : i = lockTest m ∨ i = trylockTest m)
    (hfree : (s.mtx m).mOwner = none) : (s₁.mtx m).mOwner = some t := by
  cases he with
  | take m' _ hs h =>
    obtain rfl : m' = m := by
      rcases h with ⟨h, -⟩ | ⟨h, -⟩ <;> rcases hi with hi | hi <;> rw [h] at hi <;> cases hi <;> rfl
    simp [hs.mtx]
  | plain hp =>
    rcases hi with rfl | rfl <;> cases hp
    exact absurd hfree ‹_›
  | signal _ _ _ _ h => rcases h with ⟨h, -⟩ | ⟨h, -⟩ <;> rcases hi with hi | hi <;> rw [h] at hi <;> cases hi
  | block _ ho =>
    rcases hi with hi | hi <;> cases hi
    exact absurd hfree ho
  | _ => rcases hi with hi | hi <;> cases hi

/-- What an unlock does to the owner and the waiters. -/
theorem effect_mtxUnlock (he : Effect l t s (unlockTest m) s₁ new) :
    (s.queues (.mWaiters m)).tqWaiters = (s₁.mtx m).mOwner.toList ++
      (s₁.queues (.mWaiters m)).tqWaiters ∧
    ((s₁.mtx m).mOwner = none → (s₁.queues (.mWaiters m)).tqWaiters = []) := by
  cases he with
  | plain hp => cases hp
  | take _ _ _ h | signal _ _ _ _ h => rcases h with ⟨h, -⟩ | ⟨h, -⟩ <;> cases h
  | release _ hq hs => simp [hs.mtx, hs.queues, hq]
  | handOver _ u hq hs =>
    obtain ⟨x, hx, rfl⟩ := utqueueDequeue_some hq
    simp [hs.mtx, hs.queues, hx]

/-- A lock or trylock of a free mutex. -/
theorem mtx_take (hc : Core s) (h : MtxInv m s) (hcode : (s.uthreads t).utCtx = i :: cs)
    (he : Effect l t s i s₁ new) (hh : Hist t s i s₁) (hi : i = lockTest m ∨ i = trylockTest m)
    (hfree : (s.mtx m).mOwner = none) : MtxInv m (s₁.setCtx t (new ++ cs)) := by
  have hcodes := mtx_codes hc h hcode he
  have ho₁ : (s₁.mtx m).mOwner = some t := effect_take he hi hfree
  have hlog : s₁.log = s.log ++ [.taken m t] := by
    rw [hh.log]
    rcases hi with rfl | rfl <;> simp [logOf, hfree]
  have hq : s₁.queues (.mWaiters m) = s.queues (.mWaiters m) :=
    effect_queues he (by simp) (by rcases hi with rfl | rfl <;> simp)
  have hnone : (s.queues (.mWaiters m)).tqWaiters = [] := (h.free hfree).1
  -- nobody waits for a free mutex
  have haw : ∀ v, ¬ awaits m (s.uthreads v).utCtx = true := by
    intro v hv
    rcases h.await v hv with hv | ⟨hv, -⟩
    · simp [hnone] at hv
    · rw [hfree] at hv
      cases hv
  have haw₁ : ∀ v, ¬ awaits m ((s₁.setCtx t (new ++ cs)).uthreads v).utCtx = true := by
    intro v hv
    rcases (hcodes v).2.1.1 hv with ⟨-, sv, r, rfl⟩ | ⟨hv, -⟩
    · rcases hi with hi | hi <;> cases hi
    · exact haw v hv
  have hin : ∀ v, InSection m s₁.log v ↔ v = t := by
    intro v
    rw [hlog, InSection, since_concat]
    constructor
    · rintro ((e | e) | ⟨hv, -⟩)
      · simpa [eq_comm] using e
      · cases e
      · have := h.inside v hv
        rw [hfree] at this
        cases this
    · rintro rfl
      exact .inl (.inl rfl)
  refine ⟨fun v => (hcodes v).1, own_thread hc h.own hcode he, fun v hv => ?_, fun v hv => absurd hv (haw₁ v),
    fun v hv => ?_, fun v hv => ?_, fun hn => ?_, fun _ => ?_, fun v hv hnot => ?_⟩
  · rw [State.setCtx_queues, hq, hnone] at hv
    cases hv
  · rw [(hin v).1 hv]
    exact ho₁
  · have hv' : s₁.mtx m = ⟨some v⟩ := by rw [← hv]; rfl
    rw [hv'] at ho₁
    exact .inl ((hin v).2 (Option.some.inj ho₁))
  · rw [State.setCtx_mtx, ho₁] at hn
    cases hn
  · have hold := h.inOrder fun v hv => by rw [hfree] at hv; cases hv
    rw [State.setCtx_log, State.setCtx_queues, hq, hlog]
    simpa [queuedBy, acquiredBy] using hold
  · rw [State.setCtx_mtx, ho₁] at hv
    exact absurd ((hin v).2 (Option.some.inj hv).symm) hnot

/-- An unlock by the owner, of whom nothing else is waiting for the mutex. -/
theorem mtx_unlock (hc : Core s) (h : MtxInv m s) (hcode : (s.uthreads t).utCtx = unlockTest m :: cs)
    (he : Effect l t s (unlockTest m) s₁ new) (hh : Hist t s (unlockTest m) s₁) :
    MtxInv m (s₁.setCtx t (new ++ cs)) := by
  have hcodes := mtx_codes hc h hcode he
  have hown : (s.mtx m).mOwner = some t := h.own t (by rw [hcode]; exact .inl (by simp))
  have hnot : awaits m (s.uthreads t).utCtx = false := by rw [hcode]; rfl
  have hsec : InSection m s.log t := by
    rcases h.owner t hown with hv | ⟨hv, -⟩
    · exact hv
    · rw [hnot] at hv
      cases hv
  obtain ⟨hq, hnone⟩ := effect_mtxUnlock he
  have hold := h.inOrder fun v hv => by
    rw [hown] at hv
    exact Option.some.inj hv ▸ hsec
  have haw : ∀ v, awaits m ((s₁.setCtx t (new ++ cs)).uthreads v).utCtx = true ↔
      awaits m (s.uthreads v).utCtx = true := by
    intro v
    rw [(hcodes v).2.1]
    simp
  have hlog : s₁.log = s.log ++ .released m t ::
      ((s.queues (.mWaiters m)).tqWaiters.head?.map (.handed m)).toList := hh.log
  -- nobody is between its lock and its unlock any more
  have hin : ∀ v, ¬ InSection m s₁.log v := by
    intro v hv
    rw [hlog, List.append_cons, InSection, since_append, since_concat] at hv
    · rcases hv with (e | e) | ⟨hv, hne⟩
      · cases e
      · cases e
      · have hvt := h.inside v hv
        rw [hown] at hvt
        rw [Option.some.inj hvt] at hne
        exact hne rfl
    all_goals
      intro e he'
      simp only [Option.mem_toList, Option.map_eq_some_iff] at he'
      obtain ⟨u, -, rfl⟩ := he'
      simp
  have hqueued : queuedBy m s₁.log = queuedBy m s.log := by
    rw [hlog, queuedBy, List.filterMap_append]
    cases (s.queues (.mWaiters m)).tqWaiters.head? <;> simp [queuedBy]
  have hacq : acquiredBy m s₁.log = acquiredBy m s.log := by
    rw [hlog, acquiredBy, List.filterMap_append]
    cases (s.queues (.mWaiters m)).tqWaiters.head? <;> simp [acquiredBy]
  refine ⟨fun v => (hcodes v).1, own_thread hc h.own hcode he, fun v hv => ?_, fun v hv => ?_,
    fun v hv => absurd hv (hin v), fun v hv => ?_, fun hn => ⟨hnone hn, fun v hj => ?_⟩, fun hall => ?_,
    fun v hv _ => ?_⟩
  · rw [haw]
    exact h.waiter v (by rw [hq]; exact List.mem_append_right _ hv)
  · rw [haw] at hv
    rcases h.await v hv with hv' | ⟨hv', -⟩
    · rw [hq, List.mem_append, Option.mem_toList] at hv'
      exact hv'.symm.imp id fun e => ⟨e, hin v⟩
    · rw [hown] at hv'
      rw [← Option.some.inj hv', hnot] at hv
      cases hv
  · right
    rw [haw]
    have hmem : v ∈ (s.queues (.mWaiters m)).tqWaiters := by
      rw [hq, show (s₁.mtx m).mOwner = some v from hv]
      simp
    refine ⟨h.waiter v hmem, ?_⟩
    have hnd := hc.links.nodup (.mWaiters m)
    rw [hq, show (s₁.mtx m).mOwner = some v from hv] at hnd
    exact (List.nodup_cons.1 hnd).1
  · -- who is on the way to the queue would hold `m_pmut`, which this thread holds
    rcases (hcodes v).2.2 hj with hj | ⟨hi, -⟩
    · obtain ⟨hp, -⟩ := hj.held (hc.codes.wf v) (h.codes v)
      have hp' : Held (.mPmut m) (s.uthreads t).utCtx := by rw [hcode]; exact .inl (by simp)
      have hvt : v = t := Sum.inl.inj (hc.locks.one (.mPmut m) (.inl v) (.inl t) hp hp')
      have hmem := hj.mem (hc.codes.wf v)
      rw [hvt] at hmem
      have hb := h.codes t
      rw [hcode] at hmem hb
      obtain ⟨cs', -, e | e | e | e⟩ := hb.cases hmem <;> simp [blockRest, uthreadSwitch] at e
    · cases hi
  · have ho : (s₁.mtx m).mOwner = none := by
      by_contra ho
      obtain ⟨u, hu⟩ := Option.ne_none_iff_exists'.1 ho
      exact hin u (hall u hu)
    rw [ho] at hq
    show queuedBy m s₁.log = acquiredBy m s₁.log ++ (s₁.queues (.mWaiters m)).tqWaiters
    rw [hqueued, hacq, hold, hq]
    rfl
  · rw [show (s₁.mtx m).mOwner = some v from hv] at hq
    show queuedBy m s₁.log = acquiredBy m s₁.log ++ v :: (s₁.queues (.mWaiters m)).tqWaiters
    rw [hqueued, hacq, hold, hq]
    rfl

/-- A thread comes back from the blocking branch. -/
theorem mtx_acquire (hc : Core s) (h : MtxInv m s) (hon : OnStack s l t)
    (hcode : (s.uthreads t).utCtx = lockOwned m :: cs) (he : Effect l t s (lockOwned m) s₁ new)
    (hh : Hist t s (lockOwned m) s₁) : MtxInv m (s₁.setCtx t (new ++ cs)) := by
  have hcodes := mtx_codes hc h hcode he
  have hown : (s.mtx m).mOwner = some t := (effect_lockOwned he).2
  have ho₁ : (s₁.mtx m).mOwner = some t := by rw [effect_mtx he m (by simp), hown]
  have hq : s₁.queues (.mWaiters m) = s.queues (.mWaiters m) := effect_queues he (by simp) (by simp)
  have hlog : s₁.log = s.log ++ [.acquired m t] := hh.log
  have haw : awaits m (s.uthreads t).utCtx = true := by rw [hcode]; simp [awaits]
  have hout : t ∉ (s.queues (.mWaiters m)).tqWaiters := hc.not_queued hon (by simp) (by simp)
  have hnot : ¬ InSection m s.log t := ((h.await t haw).resolve_left hout).2
  have hin : ∀ v, InSection m s₁.log v ↔ v = t := by
    intro v
    rw [hlog, InSection, since_concat]
    constructor
    · rintro ((e | e) | ⟨hv, -⟩)
      · cases e
      · simpa [eq_comm] using e
      · have := h.inside v hv
        rw [hown] at this
        exact (Option.some.inj this).symm
    · rintro rfl
      exact .inl (.inr rfl)
  have hold := h.handed t hown hnot
  refine ⟨fun v => (hcodes v).1, own_thread hc h.own hcode he, fun v hv => ?_, fun v hv => ?_,
    fun v hv => ?_, fun v hv => ?_, fun hn => ?_, fun _ => ?_, fun v hv hno => ?_⟩
  · rw [State.setCtx_queues, hq] at hv
    exact (hcodes v).2.1.2 (.inr ⟨h.waiter v hv, fun e => absurd (e ▸ hv) hout⟩)
  · rcases (hcodes v).2.1.1 hv with ⟨-, sv, r, e⟩ | ⟨hv, hne⟩
    · cases e
    · rw [State.setCtx_queues, hq]
      refine .inl ((h.await v hv).resolve_right fun hv' => hne ?_ rfl)
      rw [hown] at hv'
      exact (Option.some.inj hv'.1).symm
  · rw [(hin v).1 hv]
    exact ho₁
  · rw [State.setCtx_mtx, ho₁] at hv
    exact .inl ((hin v).2 (Option.some.inj hv).symm)
  · rw [State.setCtx_mtx, ho₁] at hn
    cases hn
  · rw [State.setCtx_log, State.setCtx_queues, hq, hlog]
    simpa [queuedBy, acquiredBy] using hold
  · rw [State.setCtx_mtx, ho₁] at hv
    exact absurd ((hin v).2 (Option.some.inj hv).symm) hno

/-- A thread joins the queue. -/
theorem mtx_queue {sv : Bool} {r : Option (PmtxId N)} (hc : Core s) (h : MtxInv m s)
    (hon : OnStack s l t) (hcode : (s.uthreads t).utCtx = swtch (some (.mWaiters m)) sv r :: cs)
    (he : Effect l t s (swtch (some (.mWaiters m)) sv r) s₁ new)
    (hh : Hist t s (swtch (some (.mWaiters m)) sv r) s₁) : MtxInv m (s₁.setCtx t (new ++ cs)) := by
  have hcodes := mtx_codes hc h hcode he
  have ho₁ : (s₁.mtx m).mOwner = (s.mtx m).mOwner := by rw [effect_mtx he m (by simp)]
  have hlog : s₁.log = s.log ++ [.queued m t] := hh.log
  have hq : (s₁.queues (.mWaiters m)).tqWaiters = (s.queues (.mWaiters m)).tqWaiters ++ [t] := by
    cases (effect_switch he).2 with
    | queue _ _ hs₁ hs =>
      obtain ⟨-, rfl⟩ := utqueueEnqueue_ok hs₁
      simp [hs.queues]
  have hjoin : Joins m (s.uthreads t).utCtx := by rw [hcode]; exact ⟨sv, r, by simp⟩
  have hnot : awaits m (s.uthreads t).utCtx = false := by rw [hcode]; rfl
  have hout : t ∉ (s.queues (.mWaiters m)).tqWaiters := hc.not_queued hon (by simp) (by simp)
  have haw : ∀ v, awaits m ((s₁.setCtx t (new ++ cs)).uthreads v).utCtx = true ↔
      v = t ∨ awaits m (s.uthreads v).utCtx = true := by
    intro v
    rw [(hcodes v).2.1]
    simp
  have hin : ∀ v, InSection m s₁.log v ↔ InSection m s.log v := by
    intro v
    rw [hlog, InSection, since_concat]
    simp [InSection]
  have hqueued : queuedBy m s₁.log = queuedBy m s.log ++ [t] := by simp [hlog, queuedBy]
  have hacq : acquiredBy m s₁.log = acquiredBy m s.log := by simp [hlog, acquiredBy]
  refine ⟨fun v => (hcodes v).1, own_thread hc h.own hcode he, fun v hv => ?_, fun v hv => ?_,
    fun v hv => ?_, fun v hv => ?_, fun hn => ?_, fun hall => ?_, fun v hv hno => ?_⟩
  · rw [State.setCtx_queues, hq, List.mem_append, List.mem_singleton] at hv
    rw [haw]
    exact hv.symm.imp id (h.waiter v)
  · rw [State.setCtx_queues, hq, State.setCtx_mtx, ho₁, State.setCtx_log, hin, List.mem_append,
      List.mem_singleton]
    rcases (haw v).1 hv with rfl | hv
    · exact .inl (.inr rfl)
    · exact (h.await v hv).imp .inl id
  · rw [State.setCtx_mtx, ho₁]
    exact h.inside v ((hin v).1 hv)
  · rw [State.setCtx_mtx, ho₁] at hv
    rw [State.setCtx_log, hin, haw, State.setCtx_queues, hq, List.mem_append, List.mem_singleton]
    refine (h.owner v hv).imp id fun ⟨hv, hout'⟩ => ⟨.inr hv, ?_⟩
    rintro (h' | rfl)
    · exact hout' h'
    · rw [hnot] at hv
      cases hv
  · rw [State.setCtx_mtx, ho₁] at hn
    exact absurd hjoin ((h.free hn).2 t)
  · rw [State.setCtx_log, State.setCtx_queues, hqueued, hacq, hq, h.inOrder fun v hv => ?_,
      List.append_assoc]
    exact (hin v).1 (hall v (by rw [State.setCtx_mtx, ho₁, hv]))
  · rw [State.setCtx_mtx, ho₁] at hv
    rw [State.setCtx_log, hin] at hno
    rw [State.setCtx_log, State.setCtx_queues, hqueued, hacq, hq, h.handed v hv hno, List.append_assoc,
      List.cons_append]

/-- **The mutex after an instruction.** -/
theorem mtx_thread (hc : Core s) (h : MtxInv m s) (hon : OnStack s l t)
    (hcode : (s.uthreads t).utCtx = i :: cs) (he : Effect l t s i s₁ new) (hh : Hist t s i s₁) :
    MtxInv m (s₁.setCtx t (new ++ cs)) := by
  by_cases hsw : ∃ sv r, i = swtch (some (.mWaiters m)) sv r
  · obtain ⟨sv, r, rfl⟩ := hsw
    exact mtx_queue hc h hon hcode he hh
  by_cases hback : i = lockOwned m
  · subst hback
    exact mtx_acquire hc h hon hcode he hh
  by_cases hun : i = unlockTest m
  · subst hun
    exact mtx_unlock hc h hcode he hh
  by_cases htake : (i = lockTest m ∨ i = trylockTest m) ∧ (s.mtx m).mOwner = none
  · exact mtx_take hc h hcode he hh htake.1 htake.2
  · exact mtx_quiet hc h hcode he hh (fun sv r e => hsw ⟨sv, r, e⟩) hback hun
      fun hi ho => htake ⟨hi, ho⟩

/-! ## The runs -/

/-- A call unlocks `m`, or waits with it, only while its thread owns it. -/
def unlocksOwn (m : MtxId) (s : State N L) (b : Fin L × Act) : Prop :=
  ∀ t, OnStack s b.1 t → b.2.unlocks = some m → (s.mtx m).mOwner = some t

instance (m : MtxId) (s : State N L) (b : Fin L × Act) : Decidable (unlocksOwn m s b) :=
  inferInstanceAs (Decidable (∀ _, _))

/-- Code that does not wait for the mutex. -/
theorem not_waiting (h : lockOwned m ∉ c) (hwf : Wf t c) : awaits m c = false ∧ ¬ Joins m c := by
  refine ⟨?_, fun hj => h (hj.mem hwf)⟩
  by_contra ha
  exact h (awaits_mem (by simpa using ha))

/-- A thread in the blocking branch has switched preemption off. -/
theorem BlockCode.not_mem (h : BlockCode m c) (hd : c = [nopreemptOff] ∨ depth c = 0) :
    lockOwned m ∉ c := by
  intro hm
  rcases hd with rfl | hd
  · simp at hm
  · obtain ⟨cs, -, rfl | rfl | rfl | rfl⟩ := h.cases hm <;>
      simp [blockRest, uthreadSwitch] at hd

theorem call_lockOwned (inc : Fin N → ℕ) (t : Fin N) (c : Call) : lockOwned m ∉ c.code inc t :=
  fun h => by simpa using call_called inc t c _ h

/-- **Every step keeps the mutex.** -/
theorem mtx_step (hc : Core s) (h : MtxInv m s) (hok : unlocksOwn m s (l, a)) (hmv : Move s l a s') :
    MtxInv m s' := by
  have hown : OwnInv m s' := own_step hc h.own hmv fun t c e hon howns =>
    hok t hon (by rw [e]; exact call_owns s.incarnation t c howns)
  have hc' := core_step hc hmv
  -- a thread that is given code in front of which, and in which, nobody waits
  have hfront : ∀ t, lockOwned m ∉ (s.uthreads t).utCtx → lockOwned m ∉ (s'.uthreads t).utCtx →
      (∀ v, v ≠ t → (s'.uthreads v).utCtx = (s.uthreads v).utCtx) → s'.queues = s.queues →
      s'.mtx = s.mtx → s'.log = s.log → MtxInv m s' := by
    intro t hold hnew hother hq ho hlog
    have haw := not_waiting hold (hc.codes.wf t)
    have haw' := not_waiting hnew (hc'.codes.wf t)
    refine h.congr (fun v => ?_) hown (fun v => ?_) (fun _ v => ?_) (by rw [hq]) (by rw [ho])
      (by rw [hlog]; exact ⟨fun _ => Iff.rfl, rfl, rfl⟩) <;> by_cases hv : v = t
    · subst hv
      exact blockCode_of_not_mem hnew
    · rw [hother v hv]
      exact h.codes v
    · subst hv
      rw [haw.1, haw'.1]
    · rw [hother v hv]
    · subst hv
      exact fun hj => absurd hj haw'.2
    · rw [hother v hv]
      exact id
  cases move_turn hc hmv with
  | @thread _ t i cs new s₁ hon hcode he hh => exact mtx_thread hc h hon hcode he hh
  | call t c hon hcode =>
    refine hfront t (by simp [hcode]) ?_ (fun v hv => by simp [hv]) rfl rfl rfl
    simpa using call_lockOwned s.incarnation t c
  | preempt t hon hm hst h0 =>
    have hold := (h.codes t).not_mem (preemptible hc hon h0)
    refine hfront t hold ?_ (fun v hv => by simp [hv]) rfl rfl rfl
    simpa [clockInterrupt, uthreadYield, uthreadSwitch] using hold
  | lwp hb =>
    have hcode := fun v => (hb.fields v).1
    refine h.congr (fun v => ?_) hown (fun v => by rw [hcode]) (fun _ v hj => ?_) (hb.queues _ (by simp))
      (by rw [hb.mtx]) (by rw [hb.hist.log]; exact ⟨fun _ => Iff.rfl, rfl, rfl⟩)
    · rw [hcode]
      exact h.codes v
    · rwa [hcode] at hj

theorem boot_mtx : MtxInv m (boot N L) := by
  have hcode : ∀ t, lockOwned m ∉ ((boot N L).uthreads t).utCtx := by
    intro t
    rcases boot_code (L := L) t with e | e | e <;> rw [e] <;>
      simp [threadStartCode, reaper, uthreadMtxLock]
  have hno : ∀ t, ¬ awaits m ((boot N L).uthreads t).utCtx = true := by
    intro t
    simp [(not_waiting (hcode t) (boot_core.codes.wf t)).1]
  have hq : ((boot N L).queues (.mWaiters m)).tqWaiters = [] := by rw [boot_queue]; simp
  refine ⟨fun t => blockCode_of_not_mem (hcode t), fun t ht => ?_, fun t ht => ?_,
    fun t ht => absurd ht (hno t), fun t ht => ?_, fun t ht => ?_, fun _ => ⟨hq, fun t => ?_⟩, fun _ => ?_,
    fun t ht => ?_⟩
  · rcases boot_code (L := L) t with e | e | e <;> rw [e] at ht <;>
      simp [threadStartCode, reaper, uthreadMtxLock] at ht
  · rw [hq] at ht
    cases ht
  · exact absurd ht since_nil
  · cases ht
  · exact (not_waiting (hcode t) (boot_core.codes.wf t)).2
  · rw [hq]
    rfl
  · cases ht

/-- The mutex has been handed to the thread, which is off the queue and has not come back from the
blocking branch yet. -/
def Handed (m : MtxId) (s : State N L) (t : Fin N) : Prop :=
  awaits m (s.uthreads t).utCtx = true ∧ t ∉ (s.queues (.mWaiters m)).tqWaiters

instance (m : MtxId) (s : State N L) (t : Fin N) : Decidable (Handed m s t) :=
  inferInstanceAs (Decidable (_ ∧ _))

/-- Whom the mutex has been handed to. -/
def granted (m : MtxId) (s : State N L) : Option (Fin N) :=
  (s.mtx m).mOwner.filter fun t => decide (Handed m s t)

/-- Mutual exclusion with hand-off in the order of the queue. -/
structure Exclusive (m : MtxId) (s : State N L) : Prop where
  one : ∀ t u, InSection m s.log t → InSection m s.log u → t = u
  owner : ∀ t, (s.mtx m).mOwner = some t ↔ InSection m s.log t ∨ Handed m s t
  free : (s.mtx m).mOwner = none → (s.queues (.mWaiters m)).tqWaiters = []
  fifo : queuedBy m s.log =
    acquiredBy m s.log ++ (granted m s).toList ++ (s.queues (.mWaiters m)).tqWaiters
  /-- Every time that a thread has joined `m_waiters` it has got the mutex once, or still waits. -/
  once : ∀ t, (queuedBy m s.log).count t =
    (acquiredBy m s.log).count t + if awaits m (s.uthreads t).utCtx then 1 else 0
  /-- The assertion behind the blocking branch. -/
  back : ∀ l t cs, OnStack s l t → (s.uthreads t).utCtx = lockOwned m :: cs →
    (s.mtx m).mOwner = some t

theorem MtxInv.owner_iff (h : MtxInv m s) (t : Fin N) :
    (s.mtx m).mOwner = some t ↔ InSection m s.log t ∨ Handed m s t := by
  refine ⟨fun ho => h.owner t ho, ?_⟩
  rintro (hin | ⟨haw, hout⟩)
  · exact h.inside t hin
  · exact ((h.await t haw).resolve_left hout).1

theorem MtxInv.fifo (h : MtxInv m s) : queuedBy m s.log =
    acquiredBy m s.log ++ (granted m s).toList ++ (s.queues (.mWaiters m)).tqWaiters := by
  unfold granted
  rcases ho : (s.mtx m).mOwner with _ | t
  · rw [h.inOrder fun v hv => by rw [ho] at hv; cases hv]
    simp
  · by_cases hin : InSection m s.log t
    · have hnot : ¬ Handed m s t := fun hh => ((h.await t hh.1).resolve_left hh.2).2 hin
      rw [h.inOrder fun v hv => by rw [ho] at hv; exact Option.some.inj hv ▸ hin]
      simp [hnot]
    · have hh : Handed m s t := (h.owner t ho).resolve_left hin
      rw [h.handed t ho hin]
      simp [Option.filter, hh]

/-- The waiters are those on the queue and the one that has the mutex already. -/
theorem MtxInv.once (hc : Core s) (h : MtxInv m s) (t : Fin N) :
    (granted m s).toList.count t + (s.queues (.mWaiters m)).tqWaiters.count t =
      if awaits m (s.uthreads t).utCtx then 1 else 0 := by
  rw [(hc.links.nodup _).count]
  by_cases hmem : t ∈ (s.queues (.mWaiters m)).tqWaiters
  · have hnot : t ∉ (granted m s).toList := by
      intro hg
      obtain ⟨-, hh⟩ := Option.filter_eq_some_iff.1 (Option.mem_toList.1 hg)
      exact (of_decide_eq_true hh).2 hmem
    rw [List.count_eq_zero.2 hnot, if_pos hmem, if_pos (h.waiter t hmem)]
  · rw [if_neg hmem]
    by_cases haw : awaits m (s.uthreads t).utCtx = true
    · have ho : (s.mtx m).mOwner = some t := (h.owner_iff t).2 (.inr ⟨haw, hmem⟩)
      have hg : granted m s = some t := by
        simp [granted, ho, Handed, haw, hmem]
      rw [hg, if_pos haw]
      simp
    · have hnot : t ∉ (granted m s).toList := by
        intro hg
        obtain ⟨-, hh⟩ := Option.filter_eq_some_iff.1 (Option.mem_toList.1 hg)
        exact haw (of_decide_eq_true hh).1
      rw [List.count_eq_zero.2 hnot, if_neg haw]

theorem mtx_reachable {s : State (N + 2) (L + 1)} (h : Reachable (unlocksOwn m) (boot N L) s) :
    MtxInv m s :=
  h.invariant_of (P := MtxInv m) (fun _ hr => core_reachable boot_core hr) boot_mtx
    fun _ _ _ hc hm hok hn => mtx_step hc hm hok (step_move hc.codes.wf hn)

/-- **Mutual exclusion with FIFO hand-off.** -/
theorem mutex_fifo {s : State (N + 2) (L + 1)} (m : MtxId)
    (h : Reachable (unlocksOwn m) (boot N L) s) : Exclusive m s := by
  have hc := core_reachable boot_core h
  have hm := mtx_reachable h
  refine ⟨fun t u ht hu => ?_, hm.owner_iff, fun ho => (hm.free ho).1, hm.fifo, fun t => ?_,
    fun l t cs hon hcode => ?_⟩
  · have := hm.inside t ht
    rw [hm.inside u hu] at this
    exact (Option.some.inj this).symm
  · rw [hm.fifo, List.count_append, List.count_append, Nat.add_assoc, hm.once hc]
  · refine ((hm.await t ?_).resolve_left (hc.not_queued hon (by simp) (by simp))).1
    rw [hcode]
    simp [awaits]

theorem mutex_fifo_handed : ∃ s : State 3 2, Exclusive (.user 0) s ∧ Handed (.user 0) s 2 := by
  obtain ⟨s, hs, hh⟩ : ∃ s : State 3 2, Reachable (unlocksOwn (.user 0)) (boot 1 1) s ∧
      Handed (.user 0) s 2 :=
    Runs.exists_reach (contend 0 1 ++ [(0, .call (.mtxUnlock 0))] ++ turns 0 3) (by decide +kernel)
  exact ⟨s, mutex_fifo (.user 0) hs, hh⟩

end Uthreads
