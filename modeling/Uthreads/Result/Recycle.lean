import Uthreads.Proof.Farewell
import Uthreads.Result.Prio

/-!
# Slots that are used again

`uthread_create` and `uthread_destroy` share the work of clearing a slot. `Cleared` says which of its
fields are clear when, `cleared_step` that they are in every history of calls on existing threads.

* `utErrno_history`: the `ut_errno` of a slot is the last value that an occupant has assigned.
* `recycled_iff`: the `uthread_t` that `uthread_create` puts on the run queue is the one that it would
  put there in a slot never used before, if and only if the `ut_errno` of the slot is zero.
* `recycled_errno`: the `errno` of a thread that has ended is that of the next thread in its slot.
-/

namespace Uthreads

variable {N L : ℕ} {l : Fin L} {t u v : Fin N} {s s' s₁ : State N L} {i : Instr N} {cs new : Code N}
  {a : Act}

open Instr

instance (st : UthreadState) : Decidable st.started := inferInstanceAs (Decidable (_ ∧ _))

/-! ## What is clear in a slot that has not been started -/

/-- How far the reset of a slot is when `uthread_create` or `uthread_destroy` reaches an instruction. -/
@[simp] def Reset (s : State N L) : Instr N → Prop
  | createInit .waiter u _ | createInit .pmut u _ | createInit .count u _ | startTest u _ =>
    (s.uthreads u).utExit = 0
  | destroy d u => d.early = false → (s.uthreads u).utDetached = false
  | _ => True

/-- The fields of the slots that `uthread_create` and `uthread_destroy` clear. -/
structure Cleared (s : State N L) : Prop where
  detached : ∀ v, ¬ (s.uthreads v).utState.started → (s.uthreads v).utDetached = false
  waiter : ∀ v, ¬ (s.uthreads v).utState.started → (s.queues (.utWaiter v)).tqWaiters = []
  reset : ∀ t, ∀ i ∈ (s.uthreads t).utCtx, Reset s i
  errorcheck : ∀ v, (s.pmtx (.utPmut v)).status = .live → (s.pmtx (.utPmut v)).errorcheck = true

/-- The slot that the instruction of a join or a detach marks as detached. -/
@[simp] def Instr.marks : Instr N → Option (Fin N)
  | joinClaim u _ | detachTest u _ => some u
  | _ => none

/-- The joins and detaches of the step look at threads that exist, and mark none as detached that is
being destroyed. -/
def existing (s : State N L) (b : Fin L × Act) : Prop :=
  (∀ join u, looksAt s b.1 join u → (s.uthreads u).utState.started) ∧
    ∀ t, OnStack s b.1 t → ∀ u, (s.uthreads t).utCtx.head?.bind Instr.marks = some u → freeing s u = 0

instance (s : State N L) (b : Fin L × Act) : Decidable (existing s b) :=
  inferInstanceAs (Decidable (_ ∧ _))

/-- A slot that is not started was not before, or has been destroyed. -/
theorem unstarted_back (he : Effect l t s i s₁ new) (hst : ¬ (s₁.uthreads v).utState.started) :
    ¬ (s.uthreads v).utState.started ∨ i = destroy .state v := by
  cases effect_state he v with
  | same h => rw [h] at hst; exact .inl hst
  | allocated _ _ _ h => rw [h]; exact .inl (by decide)
  | destroyed hi => exact .inr hi
  | saved _ _ _ h' | woken _ _ h' | started _ _ _ h' | blocked _ _ h' | exited _ _ h' =>
    rw [h'] at hst
    exact absurd (by decide) hst

theorem cleared_detached (hcl : Cleared s) (hcode : (s.uthreads t).utCtx = i :: cs)
    (he : Effect l t s i s₁ new)
    (hlook : ∀ join, i.looks = some (join, v) → (s.uthreads v).utState.started)
    (hst : ¬ (s₁.uthreads v).utState.started) : (s₁.uthreads v).utDetached = false := by
  rcases unstarted_back he hst with hold | rfl
  · rcases (effect_fields he v).2 with h | ⟨k, rfl | rfl⟩ | rfl
    · rw [h]; exact hcl.detached v hold
    · -- only a zombie is claimed
      cases he with
      | plain hp hs => rw [hs.uthreads]; exact hcl.detached v hold
      | take _ _ _ h | signal _ _ _ _ h => rcases h with ⟨h, -⟩ | ⟨h, -⟩ <;> cases h
      | claim _ _ hz => exact absurd (by rw [hz]; decide) hold
    · exact absurd (hlook false rfl) hold
    · rw [(effect_destroy he).1]
      simp
  · have hd : Reset s (destroy .state v) := hcl.reset t _ (hcode ▸ List.mem_cons_self)
    rw [(effect_destroy he).1]
    simpa using hd

theorem cleared_waiter (hc : Core s) (hcl : Cleared s) (hcode : (s.uthreads t).utCtx = i :: cs)
    (hst' : (s.uthreads t).utState.started) (he : Effect l t s i s₁ new)
    (hlook : ∀ join, i.looks = some (join, v) → (s.uthreads v).utState.started)
    (hst : ¬ (s₁.uthreads v).utState.started) : (s₁.queues (.utWaiter v)).tqWaiters = [] := by
  have hwf := hc.codes.wf t
  rw [hcode] at hwf
  rcases unstarted_back he hst with hold | rfl
  · by_cases hq : QueueId.utWaiter v ∈ i.queues
    · cases i with
      | createInit w u prio =>
        obtain ⟨rfl, hw⟩ := queues_createInit hq
        obtain rfl := QueueId.utWaiter.inj hw
        simp [(effect_create he).1]
      | exitTest w status =>
        obtain rfl : v = w := by simpa using hq
        obtain ⟨rfl, -⟩ := hwf.1
        exact absurd hst' hold
      | joinTest w k =>
        obtain rfl : v = w := by simpa using hq
        exact absurd (hlook true rfl) hold
      | destroy d u =>
        obtain ⟨rfl, hw⟩ := queues_destroy hq
        obtain rfl := QueueId.utWaiter.inj hw
        simp [(effect_destroy he).1]
      | swtch q sv m =>
        -- `uthread_join` has queued its caller itself
        have hsw : OkSwitch t q sv m cs := hwf.1
        cases hsw <;> simp at hq
      | _ => simp at hq
    · rw [effect_queues he (by simp) hq]
      exact hcl.waiter v hold
  · have hz := (hc.slots.destroy t .state v (hcode ▸ List.mem_cons_self)).st
    simpa [(effect_destroy he).1] using hc.slots.noWaiter v (.inr (.inl hz))

theorem Reset.congr (hexit : ∀ v, (s'.uthreads v).utExit = (s.uthreads v).utExit)
    (hd : ∀ v, (s'.uthreads v).utDetached = (s.uthreads v).utDetached) (h : Reset s i) : Reset s' i := by
  cases i with
  | createInit w u =>
    cases w with
    | waiter | pmut | count => exact (hexit u).trans h
    | _ => trivial
  | startTest u => exact (hexit u).trans h
  | destroy d u => exact fun he => (hd u).trans (h he)
  | _ => trivial

/-- An instruction that another step leaves where it is finds its slot as far as before. -/
theorem reset_kept {j : Instr N} (hc : Core s) (hon : OnStack s l t)
    (hcode : (s.uthreads t).utCtx = i :: cs) (he : Effect l t s i s₁ new)
    (hmark : ∀ u, i.marks = some u → freeing s u = 0) (hj : j ∈ (s.uthreads u).utCtx)
    (h : Reset s j) : Reset s₁ j := by
  have hexit : ∀ {v}, v ∈ starts (s.uthreads u).utCtx → (s.uthreads v).utExit = 0 →
      (s₁.uthreads v).utExit = 0 := by
    intro v hv h0
    rcases effect_utExit he v with e | ⟨status, rfl, -⟩ | ⟨prio, rfl⟩ | rfl
    · rw [e, h0]
    · have hwf := hc.codes.wf t
      rw [hcode] at hwf
      obtain ⟨rfl, -⟩ := hwf.1
      exact absurd (hc.unstarted (hc.slots.start u v hv).1).1 hon.not_off
    · simp [(effect_create he).1]
    · simp [(effect_destroy he).1]
  have hstarts : ∀ {v}, v ∈ j.starts → v ∈ starts (s.uthreads u).utCtx :=
    fun hv => List.mem_flatMap.2 ⟨j, hj, hv⟩
  cases j with
  | createInit w v prio => cases w <;> first | trivial | exact hexit (hstarts (by simp)) h
  | startTest v prio => exact hexit (hstarts (by simp)) h
  | destroy d v =>
    intro hd
    have hpos : 0 < freeing s v := total_pos hj (by simpa using hd)
    rcases (effect_fields he v).2 with e | ⟨k, rfl | rfl⟩ | rfl
    · rw [e]; exact h hd
    · exact absurd (hmark v rfl) hpos.ne'
    · exact absurd (hmark v rfl) hpos.ne'
    · simp [(effect_destroy he).1]
  | _ => trivial

/-- The instructions that an instruction puts in front find their slots as far. -/
theorem reset_new {j : Instr N} (h : Reset s i) (he : Effect l t s i s₁ new) (hj : j ∈ new) :
    Reset s₁ j := by
  have hcreate : ∀ {v}, v ∈ j.starts → ∃ w prio, i = createInit w v prio ∧
      j ∈ createRest v prio w := by
    intro v hv
    have hmem : v ∈ starts new := List.mem_flatMap.2 ⟨j, hj, hv⟩
    rcases effect_starts he with e | ⟨w, u, prio, rfl, rfl⟩
    · rw [e] at hmem; cases hmem
    · obtain rfl : v = u := by simpa using hmem
      exact ⟨w, prio, rfl, hj⟩
  cases j with
  | createInit w v prio =>
    cases w
    case waiter | pmut | count =>
      obtain ⟨w', pr, rfl, hmem⟩ := hcreate (v := v) (by simp)
      rw [(effect_create he).1]
      cases w' <;> simp [createRest, uthreadStartonrunq] at hmem h ⊢
      all_goals exact h
    all_goals trivial
  | startTest v prio =>
    obtain ⟨w', pr, rfl, hmem⟩ := hcreate (v := v) (by simp)
    rw [(effect_create he).1]
    cases w' <;> simp [createRest, uthreadStartonrunq] at hmem
    simpa using h
  | destroy d v =>
    intro hd
    rcases effect_destroys he hj with ⟨-, rfl, -⟩ | ⟨d', rfl, hmem⟩
    · cases hd
    · rw [(effect_destroy he).1]
      cases d' <;> simp [destroyRest] at hmem <;> subst hmem <;> simp at hd h ⊢
      all_goals exact h
  | _ => trivial

/-- **The slots are reset in the order of the source.** -/
theorem cleared_reset {j : Instr N} (hc : Core s) (hcl : Cleared s) (hon : OnStack s l t)
    (hcode : (s.uthreads t).utCtx = i :: cs) (he : Effect l t s i s₁ new)
    (hmark : ∀ u, i.marks = some u → freeing s u = 0)
    (hj : j ∈ ((s₁.setCtx t (new ++ cs)).uthreads u).utCtx) : Reset s₁ j := by
  by_cases hu : u = t
  · subst hu
    rw [setCtx_self, List.mem_append] at hj
    rcases hj with hj | hj
    · exact reset_new (hcl.reset u i (hcode ▸ List.mem_cons_self)) he hj
    · have hmem : j ∈ (s.uthreads u).utCtx := hcode ▸ List.mem_cons_of_mem i hj
      exact reset_kept hc hon hcode he hmark hmem (hcl.reset u j hmem)
  · rcases other_code cs he hu with e | ⟨-, -, e⟩ <;> rw [e] at hj
    · exact reset_kept hc hon hcode he hmark hj (hcl.reset u j hj)
    · have hnone : ∀ i ∈ (threadStartCode : Code N), Reset s₁ i := by simp [threadStartCode]
      exact hnone j hj

/-- Only `uthread_create` writes the type of a mutex. -/
theorem effect_errorcheck (he : Effect l t s i s₁ new) (hi : ∀ prio, i ≠ createInit .pmut v prio) :
    (s₁.pmtx (.utPmut v)).errorcheck = (s.pmtx (.utPmut v)).errorcheck := by
  by_cases hw : i.writesPmtx = false
  · rw [effect_pmtx he hw]
  · cases he with
    | lock p | unlock p =>
      by_cases hp : PmtxId.utPmut v = p
      · subst hp; simp
      · simp [hp]
    | create w u prio =>
      have hv : ¬ (w = .pmut ∧ v = u) := by
        rintro ⟨rfl, rfl⟩
        exact hi prio rfl
      simp [hv]
    | destroy d u =>
      by_cases hv : d = .pmut ∧ v = u
      · simp [hv]
      · simp [hv]
    | plain hp => cases hp <;> exact absurd rfl hw
    | take _ _ _ h | signal _ _ _ _ h => rcases h with ⟨rfl, -⟩ | ⟨rfl, -⟩ <;> exact absurd rfl hw
    | _ => exact absurd rfl hw

theorem cleared_errorcheck (hcl : Cleared s) (he : Effect l t s i s₁ new)
    (hl : (s₁.pmtx (.utPmut v)).status = .live) : (s₁.pmtx (.utPmut v)).errorcheck = true := by
  by_cases hcr : ∃ prio, i = createInit .pmut v prio
  · obtain ⟨prio, rfl⟩ := hcr
    simp [(effect_create he).1]
  · have hi : ∀ prio, i ≠ createInit .pmut v prio := fun prio e => hcr ⟨prio, e⟩
    rw [effect_errorcheck he hi]
    exact hcl.errorcheck v (effect_live he hi hl)

theorem errorcheck_move (hcl : Cleared s) (h : Move s l a s')
    (hl : (s'.pmtx (.utPmut v)).status = .live) : (s'.pmtx (.utPmut v)).errorcheck = true := by
  -- a lock or an unlock writes the owner
  have hown : ∀ (p : PmtxId N) (o : Option (Fin L)),
      s'.pmtx = Function.update s.pmtx p { s.pmtx p with owner := o } →
        (s'.pmtx (.utPmut v)).errorcheck = true := by
    intro p o hs
    rw [hs] at hl ⊢
    by_cases hp : PmtxId.utPmut v = p
    · subst hp
      rw [Function.update_self] at hl ⊢
      exact hcl.errorcheck v hl
    · rw [Function.update_of_ne hp] at hl ⊢
      exact hcl.errorcheck v hl
  cases h with
  | halted | call | preempt => exact hcl.errorcheck v hl
  | thread t i cs new hon hcode he => simpa using cleared_errorcheck hcl he (by simpa using hl)
  | acquire m _ _ _ hs => exact hown .runqMtx (some l) hs.pmtx
  | leave m _ _ hs => exact hown .runqMtx none hs.pmtx
  | unlock p => exact hown p none rfl
  | dispatch t hm hd =>
    obtain ⟨p, x, -, -, rfl⟩ := dispatchBody_some hd
    exact hcl.errorcheck v hl
  | idle m _ hs =>
    rw [hs.pmtx] at hl ⊢
    exact hcl.errorcheck v hl

/-- **Every step keeps the slots clear** that have not been started. -/
theorem cleared_step (hc : Core s) (hcl : Cleared s) (h : Move s l a s')
    (hok : existing s (l, a)) : Cleared s' := by
  have hturn := move_turn hc h
  suffices hrest : (∀ v, ¬ (s'.uthreads v).utState.started → (s'.uthreads v).utDetached = false) ∧
      (∀ v, ¬ (s'.uthreads v).utState.started → (s'.queues (.utWaiter v)).tqWaiters = []) ∧
      ∀ t, ∀ i ∈ (s'.uthreads t).utCtx, Reset s' i from
    ⟨hrest.1, hrest.2.1, hrest.2.2, fun v hl => errorcheck_move hcl h hl⟩
  cases hturn with
  | @thread _ t i cs new s₁ hon hcode he =>
    have hlook : ∀ {v} join, i.looks = some (join, v) → (s.uthreads v).utState.started :=
      fun join hl => hok.1 join _ ⟨t, hon, by rw [hcode]; exact hl⟩
    have hmark : ∀ u, i.marks = some u → freeing s u = 0 :=
      fun u hu => hok.2 t hon u (by rw [hcode]; exact hu)
    refine ⟨fun v hst => ?_, fun v hst => ?_, fun u j hj => ?_⟩
    · simpa using cleared_detached hcl hcode he hlook (by simpa using hst)
    · simpa using cleared_waiter hc hcl hcode (hon.started hc) he hlook (by simpa using hst)
    · exact (cleared_reset hc hcl hon hcode he hmark hj).congr (by simp) (by simp)
  | call t c hon hcode =>
    refine ⟨fun v hst => ?_, fun v hst => ?_, fun u j hj => ?_⟩
    · simpa using hcl.detached v (by simpa using hst)
    · exact hcl.waiter v (by simpa using hst)
    · by_cases hu : u = t
      · subst hu
        rw [setCtx_self] at hj
        have := call_called s.incarnation u c j hj
        cases j <;> trivial
      · exact (hcl.reset u j (by simpa [hu] using hj)).congr (by simp) (by simp)
  | preempt t hon hm hst' h0 =>
    refine ⟨fun v hst => ?_, fun v hst => ?_, fun u j hj => ?_⟩
    · simpa using hcl.detached v (by simpa using hst)
    · exact hcl.waiter v (by simpa using hst)
    · have hmem : j ∈ clockInterrupt ∨ j ∈ (s.uthreads u).utCtx := by
        by_cases hu : u = t
        · subst hu; simpa using hj
        · exact .inr (by simpa [hu] using hj)
      rcases hmem with hj | hj
      · have hnone : ∀ i ∈ (clockInterrupt : Code N), Reset s i := by
          simp [clockInterrupt, uthreadYield, uthreadSwitch]
        refine (hnone j hj).congr (fun v => ?_) fun v => ?_ <;> by_cases hv : v = t <;> simp [hv]
      · refine (hcl.reset u j hj).congr (fun v => ?_) fun v => ?_ <;> by_cases hv : v = t <;> simp [hv]
  | lwp hb =>
    have hback : ∀ {v}, ¬ (s'.uthreads v).utState.started → ¬ (s.uthreads v).utState.started := by
      intro v hst
      rcases hb.state v with ⟨e, -⟩ | ⟨-, e, -⟩ <;> rw [e] at hst
      · exact hst
      · exact absurd (by decide) hst
    refine ⟨fun v hst => ?_, fun v hst => ?_, fun u j hj => ?_⟩
    · rw [(hb.fields v).2.2.2.1]
      exact hcl.detached v (hback hst)
    · rw [hb.queues _ (by simp)]
      exact hcl.waiter v (hback hst)
    · rw [(hb.fields u).1] at hj
      exact (hcl.reset u j hj).congr (fun v => (hb.fields v).2.2.1) fun v => (hb.fields v).2.2.2.1

/-! ## The process -/

/-- The library, and the `ut_errno` of its threads, which only the user's code writes: there `errno`
is `ut_curthr->ut_errno`. -/
structure Process (N L : ℕ) where
  lib : State N L
  utErrno : Fin N → ℤ

/-- What happens in a step of the process. -/
inductive ProcessAct (L : ℕ)
  | lib (b : Fin L × Act)
  /-- The user's code on LWP `l` assigns to `errno`. -/
  | assignErrno (l : Fin L) (e : ℤ)
  deriving DecidableEq

/-- A step of the process; the library leaves `ut_errno` alone. -/
def processStep (x : Process N L) : ProcessAct L → Option (Process N L)
  | .lib b => (next x.lib b).map fun s => { x with lib := s }
  | .assignErrno l e =>
    match (x.lib.lwps l).mode, (x.lib.lwps l).utCurthr with
    | .running, some t =>
      if x.lib.halt = none ∧ (x.lib.uthreads t).utCtx = [] then
        some { x with utErrno := Function.update x.utErrno t e }
      else none
    | _, _ => none

/-- The process as `create_first_thr` leaves it: `uthreads` is zero-filled memory. -/
def bootProcess (N L : ℕ) : Process (N + 2) (L + 1) := ⟨boot N L, fun _ => 0⟩

/-- The steps of a history of calls on existing threads. -/
def onExisting (x : Process N L) : ProcessAct L → Prop
  | .lib b => existing x.lib b
  | .assignErrno _ _ => True

instance (x : Process N L) : (b : ProcessAct L) → Decidable (onExisting x b)
  | .lib b => inferInstanceAs (Decidable (existing x.lib b))
  | .assignErrno _ _ => .isTrue trivial

/-- The states of the process in such a history. -/
abbrev History (N L : ℕ) : Process (N + 2) (L + 1) → Prop :=
  Runs.Reach processStep onExisting (bootProcess N L)

/-- A `uthread_t` without its id, stack and context; of `ut_pmut` the status and the type. -/
structure Fields (N : ℕ) where
  utLink : Option (QueueId N)
  utState : UthreadState
  utPrio : ℤ
  utErrno : ℤ
  utExit : ℤ
  utDetached : Bool
  utWaiter : List (Fin N)
  utNoPreemptCount : ℕ
  utPmut : PmtxStatus × Bool
  deriving DecidableEq

def Process.fields (x : Process N L) (u : Fin N) : Fields N where
  utLink := (x.lib.uthreads u).utLink
  utState := (x.lib.uthreads u).utState
  utPrio := (x.lib.uthreads u).utPrio
  utErrno := x.utErrno u
  utExit := (x.lib.uthreads u).utExit
  utDetached := (x.lib.uthreads u).utDetached
  utWaiter := (x.lib.queues (.utWaiter u)).tqWaiters
  utNoPreemptCount := (x.lib.uthreads u).utNoPreemptCount
  utPmut := ((x.lib.pmtx (.utPmut u)).status, (x.lib.pmtx (.utPmut u)).errorcheck)

/-- In the step from `x` to `x'` a `uthread_create` puts its thread on the run queue. -/
structure Publishes (x x' : Process N L) (l : Fin L) (u : Fin N) (prio : ℤ) : Prop where
  creator : ∃ t cs, OnStack x.lib l t ∧ (x.lib.uthreads t).utCtx = startTest u prio :: cs
  step : ∃ ok, processStep x (.lib (l, .mallocs ok)) = some x'
  goesOn : x'.lib.halt = none

theorem Publishes.utErrno {x x' : Process N L} {prio : ℤ} (h : Publishes x x' l u prio) :
    x'.utErrno = x.utErrno := by
  obtain ⟨ok, hstep⟩ := h.step
  obtain ⟨s', -, rfl⟩ := Option.map_eq_some_iff.1 hstep
  rfl

/-- Only a slot that has had a thread has an `ut_errno`. -/
def ErrnoInv (x : Process N L) : Prop :=
  ∀ v, x.utErrno v ≠ 0 → (x.lib.uthreads v).utState.started ∨ .destroyed v ∈ x.lib.log

theorem logged_step (h : Turn s l a s')
    (hv : (s.uthreads v).utState.started ∨ .destroyed v ∈ s.log) :
    (s'.uthreads v).utState.started ∨ .destroyed v ∈ s'.log := by
  cases h with
  | @thread _ t i cs new s₁ hon hcode he hh =>
    have hlog : (s₁.setCtx t (new ++ cs)).log = s.log ++ logOf s t i := hh.log
    rw [hlog]
    rcases hv with hv | hv
    · have hst : ((s₁.setCtx t (new ++ cs)).uthreads v).utState = (s₁.uthreads v).utState := by simp
      rw [hst]
      cases effect_state he v with
      | same h => rw [h]; exact .inl hv
      | allocated _ _ _ h => rw [h] at hv; exact absurd hv (by decide)
      | destroyed hi =>
        subst hi
        exact .inr (List.mem_append_right _ (by simp [logOf]))
      | saved _ _ _ h' | woken _ _ h' | started _ _ _ h' | blocked _ _ h' | exited _ _ h' =>
        rw [h']
        exact .inl (by decide)
    · exact .inr (List.mem_append_left _ hv)
  | call t c => simpa using hv
  | preempt t => simpa using hv
  | lwp hb =>
    rw [hb.hist.log]
    refine hv.imp_left fun hv => ?_
    rcases hb.state v with ⟨e, -⟩ | ⟨-, e, -⟩ <;> rw [e]
    · exact hv
    · decide

/-! ## The `errno` of a slot -/

/-- The thread and the value, where the step is an assignment to `errno`. -/
def assigned (x : Process N L) : ProcessAct L → Process N L → List (Fin N × ℤ)
  | .assignErrno l e, _ => ((x.lib.lwps l).utCurthr.map fun t => (t, e)).toList
  | .lib _, _ => []

/-- The value that an occupant of slot `u` has assigned to its `errno` last; 0 when none has. -/
def lastErrno (u : Fin N) (as : List (Fin N × ℤ)) : ℤ :=
  as.foldl (fun e a => if a.1 = u then a.2 else e) 0

/-- **The `ut_errno` of a slot is the last value that an occupant has assigned**, be it the present one
or an earlier one. -/
theorem utErrno_history {ok : Process (N + 2) (L + 1) → ProcessAct (L + 1) → Prop}
    {x : Process (N + 2) (L + 1)} {as : List (Fin (N + 2) × ℤ)}
    (h : Runs.Trace processStep ok assigned (bootProcess N L) x as) (u : Fin (N + 2)) :
    x.utErrno u = lastErrno u as := by
  induction h with
  | start => rfl
  | @step x x' b as _ _ hstep ih =>
    cases b with
    | lib b =>
      obtain ⟨s', -, rfl⟩ := Option.map_eq_some_iff.1 hstep
      simpa [assigned] using ih
    | assignErrno l e =>
      simp only [processStep] at hstep
      split at hstep
      · rename_i t hm hcur
        split_ifs at hstep
        obtain rfl := Option.some.inj hstep
        by_cases hu : t = u
        · subst hu
          simp [assigned, hcur, lastErrno]
        · simpa [assigned, hcur, lastErrno, hu, Ne.symm hu] using ih
      · cases hstep

/-- What holds between any two steps of a history. -/
theorem history_inv {x : Process (N + 2) (L + 1)} (h : History N L x) :
    Core x.lib ∧ Cleared x.lib ∧ ErrnoInv x := by
  refine h.invariant (P := fun x => Core x.lib ∧ Cleared x.lib ∧ ErrnoInv x) ?_ ?_
  · refine ⟨boot_core, ⟨fun v hst => ?_, fun v _ => ?_, fun t v hv => ?_, fun v hl => ?_⟩,
      fun v hv => absurd rfl hv⟩
    · rcases boot_cases (L := L) v with ⟨-, h, -⟩ | ⟨h, -⟩
      · exact absurd (by rw [bootProcess, h]; decide) hst
      · rw [bootProcess, h]; rfl
    · show ((boot N L).queues (.utWaiter v)).tqWaiters = []
      simp [boot_queue]
    · revert v
      rcases boot_code (L := L) t with h | h | h <;> rw [bootProcess, h] <;>
        simp [threadStartCode, reaper, uthreadMtxLock]
    · show ((boot N L).pmtx (.utPmut v)).errorcheck = true
      simp only [bootProcess, boot] at hl ⊢
      split_ifs at hl ⊢
      rfl
  · rintro x x' (⟨l, a⟩ | ⟨l, e⟩) ⟨hc, hcl, hi⟩ hok hstep
    · obtain ⟨s', hn, rfl⟩ := Option.map_eq_some_iff.1 hstep
      have hm := step_move hc.codes.wf hn
      exact ⟨core_step hc hm, cleared_step hc hcl hm hok,
        fun v hv => logged_step (move_turn hc hm) (hi v hv)⟩
    · simp only [processStep] at hstep
      split at hstep
      · rename_i t hm hcur
        split_ifs at hstep with hcode
        obtain rfl := Option.some.inj hstep
        refine ⟨hc, hcl, fun v hv => ?_⟩
        by_cases hvt : v = t
        · subst hvt
          exact .inl (OnStack.started hc ⟨hm, hcur⟩)
        · exact hi v (by simpa [hvt] using hv)
      · cases hstep

/-- **What `uthread_create` puts on the run queue.** Only `ut_errno` is not its own doing, or that of
`uthread_destroy`. -/
theorem published_fields {x x' : Process N L} {prio : ℤ} (hc : Core x.lib) (hcl : Cleared x.lib)
    (h : Publishes x x' l u prio) : (x.lib.uthreads u).utLink = none ∧
      ∃ p : Fin (uthMaxprio + 1), prio = ((p : ℕ) : ℤ) ∧ x'.fields u =
        ⟨some (.runq p), .runnable, prio, x.utErrno u, 0, false, [], 1, (.live, true)⟩ := by
  obtain ⟨⟨t, cs, hon, hcode⟩, ⟨ok, hstep⟩, hh⟩ := h
  obtain ⟨s', hn, rfl⟩ := Option.map_eq_some_iff.1 hstep
  obtain ⟨i, cs', hcode', ⟨e, rfl⟩ | ⟨s₁, new, hex, rfl⟩⟩ := alone_step hon hn
  · cases hh
  rw [hcode] at hcode'
  obtain ⟨rfl, rfl⟩ := List.cons.inj hcode'
  have hwf := hc.codes.wf t
  rw [hcode] at hwf
  have he := exec_effect hwf.1 (fun _ _ e => by cases e) hex
  have hmem : startTest u prio ∈ (x.lib.uthreads t).utCtx := hcode ▸ List.mem_cons_self
  obtain ⟨hst, -⟩ := hc.slots.start t u (by simp [hcode])
  obtain ⟨hlive, hcount⟩ : (x.lib.pmtx (.utPmut u)).status = .live ∧
    (x.lib.uthreads u).utNoPreemptCount = 1 := hc.slots.setUp t _ hmem
  have hexit : (x.lib.uthreads u).utExit = 0 := hcl.reset t _ hmem
  have hns : ¬ (x.lib.uthreads u).utState.started := by
    rcases hst with h | h <;> rw [h] <;> decide
  have hut : u ≠ t := by
    rintro rfl
    exact hns (hon.started hc)
  cases he with
  | plain hp => cases hp
  | take _ _ _ h | signal _ _ _ _ h => rcases h with ⟨h, -⟩ | ⟨h, -⟩ <;> cases h
  | start _ _ hw hs =>
    obtain ⟨p, hp, hlink, huth, hq, -, hrest⟩ := runqEnqueue_ok hs
    simp only [State.setState, State.modUthread_uthreads, if_true] at hp hlink huth hq
    refine ⟨hlink, p, hp, ?_⟩
    have hwait : (s₁.queues (.utWaiter u)).tqWaiters = [] := by
      rw [hq, Function.update_of_ne (by simp)]
      exact hcl.waiter u hns
    have hpmtx : s₁.pmtx = x.lib.pmtx := hrest.pmtx
    simp [Process.fields, hut, huth, hwait, hpmtx, hexit, hcount, hlive, hcl.detached u hns,
      hcl.errorcheck u hlive]

/-- **A slot that is used again** is published like one never used before but for its `ut_errno`, which
neither `uthread_create` nor `uthread_destroy` clears: so exactly when that is zero. -/
theorem recycled_iff {x x' y y' : Process (N + 2) (L + 1)} {l k : Fin (L + 1)} {u v : Fin (N + 2)}
    {prio : ℤ} (hx : History N L x) (hy : History N L y) (px : Publishes x x' l u prio)
    (py : Publishes y y' k v prio) (hv : .destroyed v ∉ y.lib.log) :
    (x.lib.uthreads u).utLink = none ∧
      x'.fields u = { y'.fields v with utErrno := x.utErrno u } ∧
      (x'.fields u = y'.fields v ↔ x.utErrno u = 0) := by
  obtain ⟨hcx, hclx, -⟩ := history_inv hx
  obtain ⟨hcy, hcly, hiy⟩ := history_inv hy
  obtain ⟨hlink, p, hp, hfx⟩ := published_fields hcx hclx px
  obtain ⟨-, q, hq, hfy⟩ := published_fields hcy hcly py
  obtain rfl : p = q := Fin.ext (by exact_mod_cast hp.symm.trans hq)
  -- a slot never used before has never had an errno
  have herr : y.utErrno v = 0 := by
    by_contra hne
    obtain ⟨t, cs, hon, hcode⟩ := py.creator
    have hst := (hcy.slots.start t v (by simp [hcode])).1
    rcases hiy v hne with h | h
    · rcases hst with e | e <;> rw [e] at h <;> exact absurd h (by decide)
    · exact hv h
  rw [hfx, hfy, herr]
  refine ⟨hlink, rfl, ?_⟩
  simp

/-- LWP `l` takes `n` steps of the library. -/
def libTurns (l : Fin L) (n : ℕ) : List (ProcessAct L) := (turns l n).map .lib

/-- The first thread creates one, up to the step that puts it on the run queue. -/
def firstUse (l : Fin L) : List (ProcessAct L) :=
  libTurns l 4 ++ [.lib (l, .call (.create 7))] ++ libTurns l 19

/-- The new thread assigns to `errno` and exits, is joined and reaped, and its slot is used again. -/
def secondUse (l : Fin L) (e : ℤ) : List (ProcessAct L) :=
  firstUse l ++ libTurns l 4 ++ [.lib (l, .call (.join 2))] ++ libTurns l 32 ++
    [.assignErrno l e, .lib (l, .call (.exit 0))] ++ libTurns l 55 ++ [.lib (l, .call .yield)] ++
    libTurns l 47 ++ [.lib (l, .call (.create 7))] ++ libTurns l 19

/-- Thread `t` on LWP `l` is about to put the thread in slot `u` on the run queue, and can do so. -/
def AboutToPublish (x : Process N L) (l : Fin L) (t u : Fin N) (prio : ℤ) : Prop :=
  OnStack x.lib l t ∧ (x.lib.uthreads t).utCtx =
    [startTest u prio, unlock .runqMtx, nopreemptOff, ret (.create .ok (some u))] ∧
  ((processStep x (.lib (l, .mallocs true))).any fun x' => x'.lib.halt.isNone) = true

instance (x : Process N L) (l : Fin L) (t u : Fin N) (prio : ℤ) :
    Decidable (AboutToPublish x l t u prio) := inferInstanceAs (Decidable (_ ∧ _ ∧ _))

theorem AboutToPublish.publishes {x : Process N L} {prio : ℤ} (h : AboutToPublish x l t u prio) :
    ∃ x', Publishes x x' l u prio := by
  obtain ⟨hon, hcode, hany⟩ := h
  obtain ⟨x', hx', hh⟩ := (Option.any_eq_true _ _).1 hany
  exact ⟨x', ⟨t, _, hon, hcode⟩, ⟨true, hx'⟩, by simpa using hh⟩

theorem first_use : ∃ y y' : Process 3 1, History 1 0 y ∧ Publishes y y' 0 2 7 ∧
    .destroyed 2 ∉ y.lib.log ∧ y.utErrno 2 = 0 := by
  obtain ⟨y, hy, hp, hv⟩ : ∃ y : Process 3 1, History 1 0 y ∧ AboutToPublish y 0 0 2 7 ∧
      .destroyed 2 ∉ y.lib.log ∧ y.utErrno 2 = 0 :=
    Runs.exists_reach (firstUse 0) (by decide +kernel)
  obtain ⟨y', hp'⟩ := hp.publishes
  exact ⟨y, y', hy, hp', hv⟩

theorem second_use : ∃ x x' : Process 3 1, History 1 0 x ∧ Publishes x x' 0 2 7 ∧
    x.utErrno 2 = 5 := by
  obtain ⟨x, hx, hp, he⟩ : ∃ x : Process 3 1, History 1 0 x ∧ AboutToPublish x 0 0 2 7 ∧ x.utErrno 2 = 5 :=
    Runs.exists_reach (secondUse 0 5) (by decide +kernel)
  obtain ⟨x', hp'⟩ := hp.publishes
  exact ⟨x, x', hx, hp', he⟩

theorem recycled_iff_errno : ∃ x' y' : Process 3 1,
    x'.fields 2 = { y'.fields 2 with utErrno := 5 } ∧ x'.fields 2 ≠ y'.fields 2 := by
  obtain ⟨x, x', hx, px, he⟩ := second_use
  obtain ⟨y, y', hy, py, hv, -⟩ := first_use
  obtain ⟨-, hf, hiff⟩ := recycled_iff hx hy px py hv
  exact ⟨x', y', by rw [hf, he], fun h => absurd (he.symm.trans (hiff.1 h)) (by decide)⟩

/-- The `errno` of a thread that has ended is that of the next thread in its slot. -/
theorem recycled_errno : ¬ ∀ (N L : ℕ) (x x' y y' : Process (N + 2) (L + 1)) (l k : Fin (L + 1))
    (u v : Fin (N + 2)) (prio : ℤ), History N L x → History N L y → Publishes x x' l u prio →
      Publishes y y' k v prio → .destroyed v ∉ y.lib.log → x'.fields u = y'.fields v := by
  intro h
  obtain ⟨x, x', hx, px, he⟩ := second_use
  obtain ⟨y, y', hy, py, hv, hz⟩ := first_use
  have hsame : x'.utErrno 2 = y'.utErrno 2 :=
    congrArg Fields.utErrno (h 1 0 x x' y y' 0 0 2 2 7 hx hy px py hv)
  rw [px.utErrno, py.utErrno, he, hz] at hsame
  exact absurd hsame (by decide)

end Uthreads
