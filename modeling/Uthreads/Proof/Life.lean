import Uthreads.Lib.Count
import Uthreads.Proof.Turn

/-!
# The end of a thread

Who puts a finished thread on `reap_queue` is decided by its `uthread_exit`, by the join and by the
detach that target it. `claims s u` counts the places that answer for the dead thread `u`: the calls
that are about to queue it, its place on `reap_queue`, and the reaper up to the write of
`ut_detached` in `uthread_destroy`. `freeing s u` counts what is left of that function, `joining s u`
the joins that are still to look whether `u` has ended.

* `life_turn`: what a step does to these numbers, to `ut_detached` and to the state of `u`.
* `life_step`: where a join or a detach passes its tests only of a thread that no other join is about
  to look at and that is not being freed, a detached zombie is claimed exactly once, and nothing else
  is claimed.
-/

namespace Uthreads

variable {N L : ℕ} {l : Fin L} {t u v : Fin N} {s s' s₁ : State N L} {i : Instr N} {c cs new : Code N}
  {a : Act}

open Instr Count

theorem setCtx_utState (s : State N L) (t : Fin N) (c : Code N) (v : Fin N) :
    ((s.setCtx t c).uthreads v).utState = (s.uthreads v).utState := by
  simp

theorem setCtx_self (s : State N L) (t : Fin N) (c : Code N) :
    ((s.setCtx t c).uthreads t).utCtx = c := by
  simp

/-- The steps of `uthread_destroy` up to the write of `ut_detached`. -/
@[simp] def DestroyStep.early : DestroyStep → Bool
  | .test | .stack | .detached => true
  | .exit | .waiter | .pmut | .state => false

/-- The instruction belongs to whoever answers for the dead thread `u`. -/
@[simp] def Instr.claims (u : Fin N) : Instr N → Bool
  | makeReapable w | joinReap w _ _ | detachReap w _ => decide (w = u)
  | destroy d w => d.early && decide (w = u)
  | _ => false

/-- The instruction belongs to the destruction of `u` behind the write of `ut_detached`. -/
@[simp] def Instr.frees (u : Fin N) : Instr N → Bool
  | destroy d w => !d.early && decide (w = u)
  | _ => false

/-- The call with this instruction is about to put `u` on `reap_queue`. -/
@[simp] def Instr.handsOver (u : Fin N) : Instr N → Bool
  | makeReapable w | joinReap w _ _ | detachReap w _ => decide (w = u)
  | _ => false

/-- The reaper with this instruction has taken `u` off `reap_queue`. -/
@[simp] def Instr.destroys (u : Fin N) : Instr N → Bool
  | destroy _ w => decide (w = u)
  | _ => false

/-- The instruction is the look of a join whether `u` has ended. -/
@[simp] def Instr.joins (u : Fin N) : Instr N → Bool
  | joinClaim w _ => decide (w = u)
  | _ => false

/-- How many instructions of the codes satisfy `p`. -/
def total (p : Instr N → Bool) (s : State N L) : ℕ := ∑ t, (s.uthreads t).utCtx.countP p

/-- How many answer for `u`. -/
def claims (s : State N L) (u : Fin N) : ℕ :=
  (s.queues .reapQueue).tqWaiters.count u + total (Instr.claims u) s

/-- How many steps of `uthread_destroy` are about to go on with `u` behind the write of
`ut_detached`. -/
def freeing (s : State N L) (u : Fin N) : ℕ := total (Instr.frees u) s

theorem countP_claims (u : Fin N) (c : Code N) : c.countP (Instr.claims u) + c.countP (Instr.frees u) =
    c.countP (Instr.destroys u) + c.countP (Instr.handsOver u) := by
  induction c with
  | nil => rfl
  | cons i cs ih =>
    simp only [List.countP_cons]
    cases i with
    | destroy d w => cases d <;> simp <;> omega
    | _ => simp; omega

/-- They are on the queue, with the reaper, or in a call. -/
theorem claims_eq (s : State N L) (u : Fin N) : claims s u + freeing s u =
    (s.queues .reapQueue).tqWaiters.count u + total (Instr.destroys u) s +
      total (Instr.handsOver u) s := by
  unfold claims freeing total
  rw [Nat.add_assoc, ← Finset.sum_add_distrib, Finset.sum_congr rfl fun t _ =>
    countP_claims u (s.uthreads t).utCtx, Finset.sum_add_distrib, Nat.add_assoc]

/-- How many joins are still to look whether `u` has ended. -/
def joining (s : State N L) (u : Fin N) : ℕ := total (Instr.joins u) s

/-- The instructions by which a thread ends, after its own call of `uthread_exit`. -/
@[simp] def Instr.ends : Instr N → Bool
  | makeReapable _ | joinClaim _ _ | joinReap _ _ _ | detachReap _ _ | destroy _ _ | panicDead => true
  | _ => false

theorem call_ends (inc : Fin N → ℕ) (t : Fin N) (c : Call) :
    ∀ j ∈ c.code inc t, j.ends = false := by
  intro j hj
  have := call_called inc t c j hj
  cases j <;> first | rfl | cases this

/-- No such instruction is in a code that an instruction did not put there. -/
structure Rare (p : Instr N → Bool) : Prop where
  start : threadStartCode.countP p = 0
  interrupt : clockInterrupt.countP p = 0
  gone : ∀ v c, Gone v c → c.countP p = 0
  call : ∀ inc v, ∀ c : Call, (c.code inc v).countP p = 0

theorem rare_of_ends {p : Instr N → Bool} (hp : ∀ j, p j = true → j.ends = true)
    (hd : p panicDead = false) : Rare p := by
  have hno : ∀ c : Code N, (∀ j ∈ c, j.ends = false ∨ j = panicDead) → c.countP p = 0 := by
    intro c hc
    rw [List.countP_eq_zero]
    intro j hj hpj
    rcases hc j hj with h | rfl
    · rw [hp j hpj] at h; cases h
    · rw [hd] at hpj; cases hpj
  refine ⟨hno _ (by simp [threadStartCode]), hno _ (by simp [clockInterrupt, uthreadYield, uthreadSwitch]),
    fun v c h => hno c ?_, fun inc v c => hno _ fun j hj => .inl (call_ends inc v c j hj)⟩
  rcases h with rfl | rfl | rfl <;> simp [deadCode, uthreadSwitch]

theorem rare_claims (u : Fin N) : Rare (Instr.claims u) :=
  rare_of_ends (fun j h => by cases j <;> simp at h ⊢) rfl

theorem rare_joins (u : Fin N) : Rare (Instr.joins u) :=
  rare_of_ends (fun j h => by cases j <;> simp at h ⊢) rfl

theorem rare_frees (u : Fin N) : Rare (Instr.frees u) :=
  rare_of_ends (fun j h => by cases j <;> simp at h ⊢) rfl

/-- An instruction replaces itself by what it puts in front. -/
theorem total_thread {p : Instr N → Bool} (hp : Rare p) (hc : Core s)
    (hcode : (s.uthreads t).utCtx = i :: cs) (he : Effect l t s i s₁ new) :
    total p (s₁.setCtx t (new ++ cs)) + (p i).toNat = total p s + new.countP p := by
  have h := sum_change (f := fun v => (s.uthreads v).utCtx.countP p)
    (g := fun v => ((s₁.setCtx t (new ++ cs)).uthreads v).utCtx.countP p) t fun v hv => by
      show List.countP p _ = List.countP p _
      rcases other_code cs he hv with e | ⟨-, hvac, e⟩
      · rw [e]
      · -- a slot that is set up
        rw [e, hp.start]
        rcases (hc.free hvac.1).2.2.2 with hg | hg
        · exact (hp.gone v _ hg).symm
        · rw [hg, hp.start]
  have hnew : ((s₁.setCtx t (new ++ cs)).uthreads t).utCtx = new ++ cs := by simp
  simp only [hcode, hnew, List.countP_append, List.countP_cons] at h
  unfold total
  cases hi : p i <;> simp [hi] at h ⊢ <;> omega

theorem total_pos {p : Instr N → Bool} {i : Instr N} (hi : i ∈ (s.uthreads t).utCtx) (hp : p i = true) :
    0 < total p s := by
  have h : 0 < (s.uthreads t).utCtx.countP p := List.countP_pos_iff.2 ⟨i, hi, hp⟩
  exact lt_of_lt_of_le h (Finset.single_le_sum
    (f := fun t => (s.uthreads t).utCtx.countP p) (fun _ _ => Nat.zero_le _) (Finset.mem_univ t))

/-- The other steps bring no such instruction in. -/
theorem total_same {p : Instr N → Bool} (h : ∀ v, (s'.uthreads v).utCtx.countP p =
    (s.uthreads v).utCtx.countP p) : total p s' = total p s := Finset.sum_congr rfl fun v _ => h v

/-! ## What a step does to a life -/

/-- What is known of the end of a thread. -/
@[ext] structure Life where
  ended : Bool
  detached : Bool
  claims : ℕ
  joining : ℕ
  freeing : ℕ
  tested : ℕ

def life (s : State N L) (u : Fin N) : Life :=
  ⟨decide ((s.uthreads u).utState = .zombie), (s.uthreads u).utDetached, claims s u, joining s u,
    freeing s u, s.tested u⟩

/-- What can become of the end of a thread; `passes true` says that a join passes its tests, `passes
false` that a detach does. -/
inductive LifeStep (passes : Bool → Prop) (x y : Life) : Prop
  | same (h : y = x)
  | exit (he : x.ended = false)
    (h : y = { x with ended := true, claims := x.claims + x.detached.toNat })
  /-- `uthread_destroy` clears `ut_detached`. -/
  | clear {c : ℕ} (he : x.ended = true) (hc : x.claims = c + 1)
    (h : y = { x with detached := false, claims := c, freeing := x.freeing + 1 })
  /-- It sets `UT_NO_STATE`. -/
  | free {f : ℕ} (he : x.ended = true) (hf : x.freeing = f + 1)
    (h : y = { x with ended := false, freeing := f, tested := 0 })
  | refuse (h : y = { x with tested := x.tested + 1 })
  | join (hp : passes true) (h : y = { x with joining := x.joining + 1, tested := x.tested + 1 })
  | claim {j : ℕ} (he : x.ended = true) (hj : x.joining = j + 1)
    (h : y = { x with detached := true, claims := x.claims + 1, joining := j })
  | claimLate {j : ℕ} (he : x.ended = false) (hj : x.joining = j + 1)
    (h : y = { x with joining := j })
  | reapLate {c : ℕ} (he : x.ended = false) (hc : x.claims = c + 1) (h : y = { x with claims := c })
  | detach (hp : passes false)
    (h : y = { x with detached := true, claims := x.claims + x.ended.toNat, tested := x.tested + 1 })

/-- A dead thread that is not being freed was not before. -/
theorem LifeStep.freeing_zero {passes : Bool → Prop} {x y : Life} (h : LifeStep passes x y)
    (he : y.ended = true) (hf : y.freeing = 0) : x.freeing = 0 := by
  cases h with
  | clear _ _ h => rw [h] at hf; cases hf
  | free _ _ h => rw [h] at he; cases he
  | same h | exit _ h | refuse h | join _ h | claim _ _ h | claimLate _ _ h | reapLate _ _ h
  | detach _ h => rw [h] at hf; exact hf

/-- The slot at which the instruction of a join (`true`) or of a detach (`false`) looks. -/
@[simp] def Instr.looks : Instr N → Option (Bool × Fin N)
  | joinTest u _ => some (true, u)
  | detachTest u _ => some (false, u)
  | _ => none

/-- A join or a detach looks at the slot in the step of LWP `l`. -/
def looksAt (s : State N L) (l : Fin L) (join : Bool) (u : Fin N) : Prop :=
  ∃ t, OnStack s l t ∧ (s.uthreads t).utCtx.head?.bind Instr.looks = some (join, u)

instance (s : State N L) (l : Fin L) (join : Bool) (u : Fin N) : Decidable (looksAt s l join u) :=
  inferInstanceAs (Decidable (∃ _, _))

/-- It passes the tests: nobody waits for the thread, which is not detached. -/
def passesAt (s : State N L) (l : Fin L) (u : Fin N) (join : Bool) : Prop :=
  looksAt s l join u ∧ (s.uthreads u).utDetached = false ∧ (s.queues (.utWaiter u)).tqWaiters = []

instance (s : State N L) (l : Fin L) (u : Fin N) (join : Bool) : Decidable (passesAt s l u join) :=
  inferInstanceAs (Decidable (_ ∧ _ ∧ _))

/-- The instructions that the life of `u` depends on. -/
@[simp] def Instr.lives (u : Fin N) : Instr N → Bool
  | exitTest w _ | makeReapable w | destroy _ w | joinTest w _ | joinClaim w _ | joinReap w _ _
  | detachTest w _ | detachReap w _ => decide (w = u)
  | reaperDrain => true
  | _ => false

theorem effect_brings (he : Effect l t s i s₁ new) (hi : i.lives u = false) :
    new.countP (Instr.claims u) = 0 ∧ new.countP (Instr.joins u) = 0 := by
  have hnew : ∀ j ∈ new, j.claims u = false ∧ j.joins u = false := by
    intro j hj
    have hb := effect_before he j hj
    cases j with
    | makeReapable w =>
      refine ⟨?_, rfl⟩
      rcases hb with ⟨status, rfl⟩ | ⟨k, rv, rfl⟩ | ⟨k, rfl⟩ <;> exact hi
    | joinClaim w k => exact ⟨rfl, by rw [hb] at hi; exact hi⟩
    | joinReap | detachReap => exact ⟨by rw [hb] at hi; exact hi, rfl⟩
    | destroy d w =>
      rcases hb with ⟨-, rfl⟩ | ⟨d', rfl, -⟩
      · cases hi
      · have hw : w ≠ u := by simpa using hi
        simp [hw]
    | _ => exact ⟨rfl, rfl⟩
  exact ⟨List.countP_eq_zero.2 fun j hj => Bool.eq_false_iff.1 (hnew j hj).1,
    List.countP_eq_zero.2 fun j hj => Bool.eq_false_iff.1 (hnew j hj).2⟩

/-- The places that answer for `u`, after an instruction of `t`. -/
theorem claims_thread (hc : Core s) (hcode : (s.uthreads t).utCtx = i :: cs)
    (he : Effect l t s i s₁ new) :
    claims (s₁.setCtx t (new ++ cs)) u + (i.claims u).toNat +
        (s.queues .reapQueue).tqWaiters.count u =
      claims s u + new.countP (Instr.claims u) + (s₁.queues .reapQueue).tqWaiters.count u := by
  have h := total_thread (rare_claims u) hc hcode he
  unfold claims
  show (s₁.queues .reapQueue).tqWaiters.count u + _ + _ + _ = _
  omega

/-- Only its exit and its destruction change whether a thread has ended. -/
theorem effect_ended (hc : Core s) (hon : OnStack s l t) (hcode : (s.uthreads t).utCtx = i :: cs)
    (he : Effect l t s i s₁ new) (hx : ∀ status, i ≠ exitTest u status) (hd : i ≠ destroy .state u) :
    (s₁.uthreads u).utState = .zombie ↔ (s.uthreads u).utState = .zombie := by
  have hwf := hc.codes.wf t
  have hexp := (hc.active hon).1
  rw [hcode] at hwf hexp
  constructor
  · intro hz
    cases effect_state he u with
    | same h => rw [← h]; exact hz
    | saved _ _ _ h' | woken _ _ h' | started _ _ _ h' | blocked _ _ h' | allocated _ _ _ _ h' =>
      rw [h'] at hz; cases hz
    | exited status hi => exact absurd hi (hx status)
    | destroyed hi => exact absurd hi hd
  · exact fun hz => (effect_zombie hwf hexp he hz hd).1

/-- Only `uthread_destroy` brings in the end of a destruction. -/
theorem effect_frees (he : Effect l t s i s₁ new) (hd : ∀ d, i ≠ destroy d u) :
    new.countP (Instr.frees u) = 0 ∧ i.frees u = false := by
  constructor
  · refine List.countP_eq_zero.2 fun j hj hfree => ?_
    cases j with
    | destroy d w =>
      obtain ⟨hearly, rfl⟩ : d.early = false ∧ w = u := by simpa using hfree
      rcases effect_destroys he hj with ⟨-, rfl, -⟩ | ⟨d', e, -⟩
      · cases hearly
      · exact hd d' e
    | _ => cases hfree
  · cases i with
    | destroy d w =>
      have hw : w ≠ u := by rintro rfl; exact hd d rfl
      simp [hw]
    | _ => rfl

/-- `reap_queue` keeps a thread that is neither put on it nor taken off. -/
theorem effect_count (hok : Ok t i cs) (he : Effect l t s i s₁ new) (hm : i ≠ makeReapable u) (hd : i ≠ reaperDrain) :
    (s₁.queues .reapQueue).tqWaiters.count u = (s.queues .reapQueue).tqWaiters.count u := by
  by_cases hq : QueueId.reapQueue ∈ i.queues
  · have hi : ∃ w, i = makeReapable w := by
      cases i with
      | makeReapable w => exact ⟨w, rfl⟩
      | reaperDrain => exact absurd rfl hd
      | swtch q sv m =>
        have hsw : OkSwitch t q sv m cs := hok
        cases hsw <;> simp at hq
      | createInit => cases (queues_createInit hq).2
      | destroy => cases (queues_destroy hq).2
      | _ => simp at hq
    obtain ⟨w, rfl⟩ := hi
    have hw : w ≠ u := fun e => hm (by rw [e])
    cases he with
    | plain hp hs => rw [hs.queues]
    | take _ _ _ h | signal _ _ _ _ h => rcases h with ⟨h, -⟩ | ⟨h, -⟩ <;> cases h
    | makeReapable _ hz hs₁ hs =>
      obtain ⟨-, rfl⟩ := utqueueEnqueue_ok hs₁
      simp [hs.queues, hw]
  · rw [effect_queues he (by simp) hq]

theorem lives_of_claims (h : i.lives u = false) :
    i.claims u = false ∧ i.joins u = false ∧ ∀ d, i ≠ destroy d u := by
  cases i <;> simp at h ⊢ <;> simp [h]

/-! ## The instructions of an end -/

theorem effect_exitTest {status : ℤ} (he : Effect l t s (exitTest u status) s₁ new) :
    (s₁.uthreads u).utState = .zombie ∧ (s₁.uthreads u).utExit = status ∧
      (s₁.uthreads u).utDetached = (s.uthreads u).utDetached ∧
      new.countP (Instr.claims u) = (s.uthreads u).utDetached.toNat ∧
      new.countP (Instr.joins u) = 0 := by
  cases he with
  | plain hp => cases hp
  | take _ _ _ h | signal _ _ _ _ h => rcases h with ⟨h, -⟩ | ⟨h, -⟩ <;> cases h
  | exitDetached _ _ hd => simp [deadCode, uthreadSwitch, hd]
  | exitAlone _ _ hd => simp [deadCode, uthreadSwitch, uthreadMtxUnlock, hd]
  | exitJoined _ w _ hd hq =>
    obtain ⟨x, -, rfl⟩ := utqueueDequeue_some hq
    refine ⟨?_, ?_, ?_, by simp [deadCode, uthreadSwitch, uthreadMtxUnlock, uthreadWake, hd],
      by simp [deadCode, uthreadSwitch, uthreadMtxUnlock, uthreadWake]⟩
    all_goals by_cases hw : u = w <;> simp [hw]

theorem effect_makeReapable (he : Effect l t s (makeReapable u) s₁ new) :
    new.countP (Instr.claims u) = 0 ∧ new.countP (Instr.joins u) = 0 ∧
      ((s.uthreads u).utState ≠ .zombie ∧ s₁.queues .reapQueue = s.queues .reapQueue ∨
        (s.uthreads u).utState = .zombie ∧ (s₁.queues .reapQueue).tqWaiters =
          (s.queues .reapQueue).tqWaiters ++ [u]) := by
  cases he with
  | plain hp hs =>
    cases hp with
    | reapableNot _ hz =>
      exact ⟨by simp [uthreadMtxUnlock], by simp [uthreadMtxUnlock], .inl ⟨hz, by rw [hs.queues]⟩⟩
  | take _ _ _ h | signal _ _ _ _ h => rcases h with ⟨h, -⟩ | ⟨h, -⟩ <;> cases h
  | makeReapable _ hz hs₁ hs hnew =>
    subst hnew
    obtain ⟨-, rfl⟩ := utqueueEnqueue_ok hs₁
    refine ⟨?_, ?_, .inr ⟨hz, by rw [hs.queues]; simp⟩⟩ <;> split_ifs <;>
      simp [uthreadCondSignal, uthreadMtxUnlock, uthreadSwitch]

theorem effect_joinTest {k : ℕ} (he : Effect l t s (joinTest u k) s₁ new) :
    new.countP (Instr.claims u) = 0 ∧ (new.countP (Instr.joins u) = 0 ∨
      new.countP (Instr.joins u) = 1 ∧ (s.uthreads u).utDetached = false ∧
        (s.queues (.utWaiter u)).tqWaiters = []) := by
  cases he with
  | plain hp =>
    cases hp with
    | joinFail => exact ⟨by simp, .inl (by simp)⟩
    | joinZombie _ _ hq hd => exact ⟨by simp, .inr ⟨by simp, hd, hq⟩⟩
  | take _ _ _ h | signal _ _ _ _ h => rcases h with ⟨h, -⟩ | ⟨h, -⟩ <;> cases h
  | joinWait _ _ hq hd =>
    exact ⟨by simp [uthreadSwitch], .inr ⟨by simp [uthreadSwitch], hd, hq⟩⟩

theorem effect_joinClaim {k : ℕ} (he : Effect l t s (joinClaim u k) s₁ new) :
    new.countP (Instr.joins u) = 0 ∧
      ((s.uthreads u).utState ≠ .zombie ∧ s₁.uthreads u = s.uthreads u ∧
          new.countP (Instr.claims u) = 0 ∨
        (s.uthreads u).utState = .zombie ∧ (s₁.uthreads u).utDetached = true ∧
          new.countP (Instr.claims u) = 1) := by
  cases he with
  | plain hp hs =>
    cases hp with
    | claimFail _ _ hz => exact ⟨by simp, .inl ⟨hz, by rw [hs.uthreads], by simp⟩⟩
  | take _ _ _ h | signal _ _ _ _ h => rcases h with ⟨h, -⟩ | ⟨h, -⟩ <;> cases h
  | claim _ _ hz =>
    exact ⟨by simp [uthreadMtxLock], .inr ⟨hz, by simp, by simp [uthreadMtxLock]⟩⟩

theorem effect_reapTest (he : Effect l t s i s₁ new)
    (hi : (∃ k rv, i = joinReap u k rv) ∨ ∃ k, i = detachReap u k) :
    new.countP (Instr.joins u) = 0 ∧ ((s.uthreads u).utState ≠ .zombie ∧
      new.countP (Instr.claims u) = 0 ∨ (s.uthreads u).utState = .zombie ∧
      new.countP (Instr.claims u) = 1) := by
  rcases hi with ⟨k, rv, rfl⟩ | ⟨k, rfl⟩
  · cases he with
    | plain hp =>
      cases hp with
      | reapLate _ _ _ hz => exact ⟨by simp [uthreadMtxUnlock], .inl ⟨hz, by simp [uthreadMtxUnlock]⟩⟩
      | reap _ _ _ hz => exact ⟨by simp, .inr ⟨hz, by simp⟩⟩
    | take _ _ _ h | signal _ _ _ _ h => rcases h with ⟨h, -⟩ | ⟨h, -⟩ <;> cases h
  · cases he with
    | plain hp =>
      cases hp with
      | detachLate _ _ hz => exact ⟨by simp [uthreadMtxUnlock], .inl ⟨hz, by simp [uthreadMtxUnlock]⟩⟩
      | detachZombie _ _ hz => exact ⟨by simp, .inr ⟨hz, by simp⟩⟩
    | take _ _ _ h | signal _ _ _ _ h => rcases h with ⟨h, -⟩ | ⟨h, -⟩ <;> cases h

theorem effect_detachTest {k : ℕ} (he : Effect l t s (detachTest u k) s₁ new) :
    new.countP (Instr.joins u) = 0 ∧ (s₁.uthreads u = s.uthreads u ∧
        new.countP (Instr.claims u) = 0 ∨
      ((s.uthreads u).utDetached = false ∧ (s.queues (.utWaiter u)).tqWaiters = []) ∧
        (s₁.uthreads u).utDetached = true ∧
        new.countP (Instr.claims u) = (decide ((s.uthreads u).utState = .zombie)).toNat) := by
  cases he with
  | plain hp hs =>
    cases hp with
    | detachFail => exact ⟨by simp, .inl ⟨by rw [hs.uthreads], by simp⟩⟩
  | take _ _ _ h | signal _ _ _ _ h => rcases h with ⟨h, -⟩ | ⟨h, -⟩ <;> cases h
  | detach _ _ hq hd _ hs hnew =>
    rcases hnew with ⟨hz, rfl⟩ | ⟨hz, rfl⟩
    · exact ⟨by simp [uthreadMtxLock], .inr ⟨⟨hd, hq⟩, by rw [hs.uthreads]; simp, by simp [hz, uthreadMtxLock]⟩⟩
    · exact ⟨by simp, .inr ⟨⟨hd, hq⟩, by rw [hs.uthreads]; simp, by simp [hz]⟩⟩

theorem effect_reaperDrain (he : Effect l t s reaperDrain s₁ new) :
    new.countP (Instr.joins u) = 0 ∧
      new.countP (Instr.claims u) = new.countP (Instr.destroys u) ∧
      (s₁.queues .reapQueue).tqWaiters.count u + new.countP (Instr.claims u) =
        (s.queues .reapQueue).tqWaiters.count u := by
  cases he with
  | plain hp hs => cases hp with | reaperDrained hq => rw [hs.queues]; simp
  | take _ _ _ h | signal _ _ _ _ h => rcases h with ⟨h, -⟩ | ⟨h, -⟩ <;> cases h
  | drain w hdq =>
    obtain ⟨x, hx, rfl⟩ := utqueueDequeue_some hdq
    refine ⟨by simp, by simp [List.countP_cons], ?_⟩
    rw [hx]
    by_cases hw : w = u <;> simp [hw]

/-- What a step of a destruction does to the end of the thread. -/
theorem effect_destroyed {d : DestroyStep} (he : Effect l t s (destroy d u) s₁ new) :
    new.countP (Instr.joins u) = 0 ∧
      new.countP (Instr.claims u) = (decide (d = .test ∨ d = .stack)).toNat ∧
      new.countP (Instr.frees u) =
        (decide (d = .detached ∨ d = .exit ∨ d = .waiter ∨ d = .pmut)).toNat := by
  rw [(effect_destroy he).2.1]
  cases d <;> simp [destroyRest]

/-- The life of a thread after an instruction, part by part. -/
theorem life_eq {e d : Bool} {c j f k : ℕ} (h₁ : decide ((s₁.uthreads u).utState = .zombie) = e)
    (h₂ : (s₁.uthreads u).utDetached = d) (h₃ : claims (s₁.setCtx t (new ++ cs)) u = c)
    (h₄ : joining (s₁.setCtx t (new ++ cs)) u = j) (h₅ : freeing (s₁.setCtx t (new ++ cs)) u = f)
    (h₆ : s₁.tested u = k) : life (s₁.setCtx t (new ++ cs)) u = ⟨e, d, c, j, f, k⟩ :=
  Life.ext (by simpa [life] using h₁) (by simpa [life] using h₂) h₃ h₄ h₅ h₆

/-- A join or a detach that has taken `reap_mtx` looks whether the thread is still there. -/
theorem life_reap (hc : Core s) (hon : OnStack s l t) (hcode : (s.uthreads t).utCtx = i :: cs)
    (he : Effect l t s i s₁ new) (hh : Hist t s i s₁)
    (hi : (∃ k rv, i = joinReap u k rv) ∨ ∃ k, i = detachReap u k) :
    LifeStep (passesAt s l u) (life s u) (life (s₁.setCtx t (new ++ cs)) u) := by
  have hcl := claims_thread (u := u) hc hcode he
  have hjo : joining (s₁.setCtx t (new ++ cs)) u + (i.joins u).toNat =
    joining s u + new.countP (Instr.joins u) := total_thread (rare_joins u) hc hcode he
  have hfr : freeing (s₁.setCtx t (new ++ cs)) u + (i.frees u).toNat =
    freeing s u + new.countP (Instr.frees u) := total_thread (rare_frees u) hc hcode he
  obtain ⟨h₃, h₄⟩ := effect_frees he (u := u) (by rcases hi with ⟨k, rv, rfl⟩ | ⟨k, rfl⟩ <;> simp)
  have hwf := (hc.codes.wf t)
  rw [hcode] at hwf
  have hz := effect_ended hc hon hcode he (u := u)
    (by rcases hi with ⟨k, rv, rfl⟩ | ⟨k, rfl⟩ <;> simp)
    (by rcases hi with ⟨k, rv, rfl⟩ | ⟨k, rfl⟩ <;> simp)
  have hq := effect_count hwf.1 he (u := u) (by rcases hi with ⟨k, rv, rfl⟩ | ⟨k, rfl⟩ <;> simp)
    (by rcases hi with ⟨k, rv, rfl⟩ | ⟨k, rfl⟩ <;> simp)
  have hd : (s₁.uthreads u).utDetached = (s.uthreads u).utDetached := by
    rcases hi with ⟨k, rv, rfl⟩ | ⟨k, rfl⟩ <;> simpa using (effect_fields he u).2
  have hte : s₁.tested u = s.tested u := by
    rw [hh.tested]
    rcases hi with ⟨k, rv, rfl⟩ | ⟨k, rfl⟩ <;> rfl
  have hclaims : i.claims u = true := by rcases hi with ⟨k, rv, rfl⟩ | ⟨k, rfl⟩ <;> simp
  have hjoins : i.joins u = false := by rcases hi with ⟨k, rv, rfl⟩ | ⟨k, rfl⟩ <;> rfl
  rw [h₃, h₄] at hfr
  rw [hclaims, Bool.toNat_true] at hcl
  obtain ⟨h₂, ⟨hnz, h₁⟩ | ⟨hz', h₁⟩⟩ := effect_reapTest he hi
  all_goals
    rw [h₁, hq] at hcl
    rw [hjoins, h₂] at hjo
  · exact .reapLate (by simpa [life] using hnz) (by show claims s u = _; omega)
      (life_eq (by simp [life, hz]) hd rfl hjo hfr hte)
  · exact .same (life_eq (by simp [hz]) hd (by show _ = claims s u; omega) hjo hfr hte)

/-- What the instruction of a thread does to the end of a thread. -/
theorem life_thread (hc : Core s) (hon : OnStack s l t) (hcode : (s.uthreads t).utCtx = i :: cs)
    (he : Effect l t s i s₁ new) (hh : Hist t s i s₁) (u : Fin N) :
    LifeStep (passesAt s l u) (life s u) (life (s₁.setCtx t (new ++ cs)) u) := by
  have hwf := hc.codes.wf t
  have hexp := (hc.active hon).1
  rw [hcode] at hwf hexp
  have hcl := claims_thread (u := u) hc hcode he
  have hjo : joining (s₁.setCtx t (new ++ cs)) u + (i.joins u).toNat =
    joining s u + new.countP (Instr.joins u) := total_thread (rare_joins u) hc hcode he
  have hfr : freeing (s₁.setCtx t (new ++ cs)) u + (i.frees u).toNat =
    freeing s u + new.countP (Instr.frees u) := total_thread (rare_frees u) hc hcode he
  have hfree : (∀ d, i ≠ destroy d u) → freeing (s₁.setCtx t (new ++ cs)) u = freeing s u := by
    intro hd
    obtain ⟨h₁, h₂⟩ := effect_frees he hd
    rw [h₁, h₂] at hfr
    simpa using hfr
  have hte : s₁.tested u = testedOf s i u := hh.tested u
  by_cases hi : i.lives u = false
  · have hz := effect_ended hc hon hcode he (u := u) (by rintro status rfl; simp at hi)
      (by rintro rfl; simp at hi)
    have hq := effect_count hwf.1 he (u := u) (by rintro rfl; simp at hi) (by rintro rfl; simp at hi)
    have hd : (s₁.uthreads u).utDetached = (s.uthreads u).utDetached := by
      rcases (effect_fields he u).2 with h | ⟨k, rfl | rfl⟩ | rfl
      · exact h
      all_goals simp at hi
    have ht : testedOf s i u = s.tested u := by
      cases i with
      | destroy d w =>
        cases d <;> simp [testedOf] at hi ⊢
        exact fun e => absurd e.symm hi
      | joinTest | detachTest => simp [testedOf] at hi ⊢; exact fun e => absurd e.symm hi
      | _ => rfl
    obtain ⟨h₁, h₂, hnd⟩ := lives_of_claims hi
    obtain ⟨h₃, h₄⟩ := effect_brings he hi
    rw [h₁, h₃, hq] at hcl
    rw [h₂, h₄] at hjo
    exact .same (life_eq (by simp [hz]) hd (by simpa using hcl) (by simpa using hjo) (hfree hnd)
      (hte.trans ht))
  · cases i with
    | exitTest w status =>
      obtain rfl : w = u := by simpa using hi
      obtain ⟨rfl, -⟩ := hwf.1
      have hnz : (s.uthreads w).utState ≠ .zombie := by rw [hexp, hwf.1.2]; simp [expect, asleep]
      have hq := effect_count hwf.1 he (u := w) (by simp) (by simp)
      obtain ⟨hz, -, hd, h₁, h₂⟩ := effect_exitTest he
      rw [h₁, hq] at hcl
      rw [h₂] at hjo
      exact .exit (by simpa [life] using hnz) (life_eq (by simp [hz]) hd (Nat.add_right_cancel hcl) hjo
        (hfree (by simp)) hte)
    | makeReapable w =>
      obtain rfl : w = u := by simpa using hi
      simp only [Instr.claims, decide_true, Bool.toNat_true] at hcl
      have hz := effect_ended hc hon hcode he (u := w) (by simp) (by simp)
      have hd : (s₁.uthreads w).utDetached = (s.uthreads w).utDetached := by
        simpa using (effect_fields he w).2
      obtain ⟨h₁, h₂, ⟨hnz, hq⟩ | ⟨-, hq⟩⟩ := effect_makeReapable he
      · rw [h₁, hq] at hcl
        rw [h₂] at hjo
        exact .reapLate (by simpa [life] using hnz) (by show claims s w = _; omega)
          (life_eq (by simp [life, hz]) hd rfl hjo (hfree (by simp)) hte)
      · -- from the call to the queue
        rw [h₁, hq, List.count_append, List.count_singleton_self] at hcl
        rw [h₂] at hjo
        exact .same (life_eq (by simp [hz]) hd (by show _ = claims s w; omega) hjo (hfree (by simp))
          hte)
    | destroy d w =>
      obtain rfl : w = u := by simpa using hi
      have hz := (hc.slots.destroy t d w (by rw [hcode]; exact List.mem_cons_self)).st
      have hq := effect_count hwf.1 he (u := w) (by simp) (by simp)
      have hs := (effect_destroy he).1
      obtain ⟨h₁, h₂, h₃⟩ := effect_destroyed he
      rw [h₂, hq] at hcl
      rw [h₁] at hjo
      rw [h₃] at hfr
      have hst : decide ((s₁.uthreads w).utState = .zombie) = decide (d ≠ .state) := by
        rw [hs]
        by_cases hd : d = .state <;> simp [hd, hz]
      have hdet : (s₁.uthreads w).utDetached =
          if d = .detached then false else (s.uthreads w).utDetached := by
        rw [hs]
        simp
      cases d with
      | test | stack | exit | waiter | pmut =>
        exact .same (life_eq (by simp [hst, hz]) (by simp [hdet]) (by simpa using hcl) hjo
          (by simpa using hfr) hte)
      | detached =>
        exact .clear (by simpa [life] using hz) (show claims s w = (claims s w - 1) + 1 by
          simp at hcl; omega) (life_eq (by simp [hst, hz, life]) (by simp [hdet])
            (by simp at hcl; omega) hjo (by simpa [life] using hfr) hte)
      | state =>
        exact .free (by simpa [life] using hz) (show freeing s w = (freeing s w - 1) + 1 by
          simp at hfr; omega) (life_eq (by simp [hst]) (by simp [hdet, life])
            (by simpa [life] using hcl) hjo (by simp at hfr; omega) (hte.trans (by simp [testedOf])))
    | joinTest w k =>
      obtain rfl : w = u := by simpa using hi
      have hz := effect_ended hc hon hcode he (u := w) (by simp) (by simp)
      have hq := effect_count hwf.1 he (u := w) (by simp) (by simp)
      have hd : (s₁.uthreads w).utDetached = (s.uthreads w).utDetached := by
        simpa using (effect_fields he w).2
      have hlook : looksAt s l true w := ⟨t, hon, by rw [hcode]; rfl⟩
      obtain ⟨h₁, h₂ | ⟨h₂, hpass⟩⟩ := effect_joinTest he
      all_goals
        rw [h₁, hq] at hcl
        rw [h₂] at hjo
      · exact .refuse (life_eq (by simp [hz, life]) hd (Nat.add_right_cancel hcl) hjo
          (hfree (by simp)) (hte.trans (by simp [testedOf, life])))
      · exact .join ⟨hlook, hpass⟩ (life_eq (by simp [hz, life]) hd (Nat.add_right_cancel hcl) hjo
          (hfree (by simp)) (hte.trans (by simp [testedOf, life])))
    | joinClaim w k =>
      obtain rfl : w = u := by simpa using hi
      simp only [Instr.joins, decide_true, Bool.toNat_true] at hjo
      have hz := effect_ended hc hon hcode he (u := w) (by simp) (by simp)
      have hq := effect_count hwf.1 he (u := w) (by simp) (by simp)
      obtain ⟨h₂, ⟨hnz, hu, h₁⟩ | ⟨hz', hd, h₁⟩⟩ := effect_joinClaim he
      all_goals
        rw [h₁, hq] at hcl
        rw [h₂] at hjo
      · exact .claimLate (by simpa [life] using hnz) (by show joining s w = _; omega)
          (life_eq (by simp [hz, life]) (by rw [hu]; rfl) (Nat.add_right_cancel hcl) rfl
            (hfree (by simp)) hte)
      · exact .claim (by simpa [life] using hz') (by show joining s w = _; omega)
          (life_eq (by simp [hz, life]) hd (Nat.add_right_cancel hcl) rfl (hfree (by simp)) hte)
    | joinReap w k rv =>
      obtain rfl : w = u := by simpa using hi
      exact life_reap hc hon hcode he hh (.inl ⟨k, rv, rfl⟩)
    | detachTest w k =>
      obtain rfl : w = u := by simpa using hi
      have hz := effect_ended hc hon hcode he (u := w) (by simp) (by simp)
      have hq := effect_count hwf.1 he (u := w) (by simp) (by simp)
      have hlook : looksAt s l false w := ⟨t, hon, by rw [hcode]; rfl⟩
      obtain ⟨h₂, ⟨hu, h₁⟩ | ⟨hpass, hd, h₁⟩⟩ := effect_detachTest he
      all_goals
        rw [h₁, hq] at hcl
        rw [h₂] at hjo
      · exact .refuse (life_eq (by simp [hz, life]) (by rw [hu]; rfl) (Nat.add_right_cancel hcl) hjo
          (hfree (by simp)) (hte.trans (by simp [testedOf, life])))
      · exact .detach ⟨hlook, hpass⟩ (life_eq (by simp [hz, life]) hd (Nat.add_right_cancel hcl) hjo
          (hfree (by simp)) (hte.trans (by simp [testedOf, life])))
    | detachReap w k =>
      obtain rfl : w = u := by simpa using hi
      exact life_reap hc hon hcode he hh (.inr ⟨k, rfl⟩)
    | reaperDrain =>
      have hz := effect_ended hc hon hcode he (u := u) (by simp) (by simp)
      have hd : (s₁.uthreads u).utDetached = (s.uthreads u).utDetached := by
        simpa using (effect_fields he u).2
      obtain ⟨h₂, -, hq⟩ := effect_reaperDrain (u := u) he
      rw [h₂] at hjo
      refine .same (life_eq (by simp [hz]) hd ?_ hjo (hfree (by simp)) hte)
      simp only [Instr.claims, Bool.toNat_false] at hcl
      omega
    | _ => simp at hi

/-- **What a step does to the end of a thread.** -/
theorem life_turn (hc : Core s) (h : Turn s l a s') (u : Fin N) :
    LifeStep (passesAt s l u) (life s u) (life s' u) := by
  -- the steps that leave the codes, but for what has neither claims nor joins
  have hsame : (∀ p, Rare p → total p s' = total p s) → s'.queues .reapQueue = s.queues .reapQueue →
      ((s'.uthreads u).utState = .zombie ↔ (s.uthreads u).utState = .zombie) →
      (s'.uthreads u).utDetached = (s.uthreads u).utDetached → s'.tested = s.tested →
      LifeStep (passesAt s l u) (life s u) (life s' u) := by
    intro htot hq hz hd ht
    refine .same (Life.ext (by simp [life, hz]) hd ?_ (htot _ (rare_joins u)) (htot _ (rare_frees u))
      (by simp [life, ht]))
    show claims s' u = claims s u
    unfold claims
    rw [hq, htot _ (rare_claims u)]
  cases h with
  | thread t i cs new hon hcode he hh => exact life_thread hc hon hcode he hh u
  | call t c hon hcode =>
    refine hsame (fun p hp => total_same fun v => ?_) rfl (by simp) (by simp) rfl
    by_cases hv : v = t
    · subst hv
      simp [hcode, hp.call]
    · simp [hv]
  | preempt t hon hm hst h0 =>
    refine hsame (fun p hp => total_same fun v => ?_) rfl (by simp) (by simp) rfl
    by_cases hv : v = t
    · subst hv
      simp [List.countP_append, hp.interrupt]
    · simp [hv]
  | lwp hb =>
    refine hsame (fun p _ => total_same fun v => by rw [(hb.fields v).1]) (hb.queues _ (by simp)) ?_
      (hb.fields u).2.2.2.1 hb.hist.tested
    rcases hb.state u with ⟨e, -⟩ | ⟨e, e', -⟩
    · rw [e]
    · rw [e, e']; simp

/-! ## A life with one claim -/

/-- A detached zombie, and nobody else, is claimed, once; at most one join is still to look whether
the thread has ended, and it has not been detached or freed then. -/
structure LifeOk (x : Life) : Prop where
  claimed : x.claims = (x.ended && x.detached).toNat
  joined : x.joining = 0 ∨ x.joining = 1 ∧ x.detached = false ∧ x.freeing = 0
  freed : x.freeing = 0 ∨ x.freeing = 1 ∧ x.ended = true ∧ x.detached = false

/-- **A step keeps this** when whoever passes the tests finds no other join and no destruction. -/
theorem life_step {passes : Bool → Prop} {x y : Life} (hok : LifeOk x)
    (hone : ∀ join, passes join → x.joining = 0 ∧ x.freeing = 0 ∧ x.detached = false)
    (h : LifeStep passes x y) : LifeOk y := by
  obtain ⟨hcl, hjo, hfr⟩ := hok
  cases h with
  | same h => rw [h]; exact ⟨hcl, hjo, hfr⟩
  | exit he h =>
    subst h
    have hf : x.freeing = 0 := hfr.resolve_right fun h => by rw [he] at h; cases h.2.1
    refine ⟨?_, hjo, .inl hf⟩
    rw [he] at hcl
    show x.claims + x.detached.toNat = x.detached.toNat
    rw [hcl]
    simp
  | @clear c he hc h =>
    subst h
    -- it was claimed, so it was detached, and no join is left
    have hd : x.detached = true := by
      cases hd : x.detached with
      | true => rfl
      | false => rw [he, hd, hc] at hcl; simp at hcl
    have hf : x.freeing = 0 := hfr.resolve_right fun h => by rw [hd] at h; cases h.2.2
    have hj : x.joining = 0 := hjo.resolve_right fun h => by rw [hd] at h; cases h.2.1
    rw [he, hd] at hcl
    exact ⟨by simp at hcl ⊢; omega, .inl hj, .inr ⟨by simp [hf], he, rfl⟩⟩
  | @free f he hf h =>
    subst h
    obtain ⟨hf₁, -, hd⟩ := hfr.resolve_left (by omega)
    have hj : x.joining = 0 := hjo.resolve_right fun h => by omega
    rw [hd] at hcl
    exact ⟨by simpa using hcl, .inl hj, .inl (by simp only; omega)⟩
  | refuse h => subst h; exact ⟨hcl, hjo, hfr⟩
  | join hp h =>
    subst h
    obtain ⟨hj, hf, hd⟩ := hone true hp
    exact ⟨hcl, .inr ⟨by simp [hj], hd, hf⟩, hfr⟩
  | @claim j he hj h =>
    subst h
    rcases hjo with hj' | ⟨hj', hd, hf⟩
    · omega
    · rw [he, hd] at hcl
      exact ⟨by simp [hcl, he], .inl (by simp only; omega), .inl hf⟩
  | @claimLate j he hj h =>
    subst h
    refine ⟨hcl, .inl ?_, hfr⟩
    show j = 0
    omega
  | @reapLate c he hc h =>
    rw [he, hc] at hcl
    simp at hcl
  | detach hp h =>
    subst h
    obtain ⟨hj, hf, hd⟩ := hone false hp
    rw [hd] at hcl
    exact ⟨by simp [hcl], .inl hj, .inl hf⟩

theorem boot_life (u : Fin (N + 2)) : LifeOk (life (boot N L) u) := by
  have hno : ∀ p, (∀ i ∈ threadStartCode ++ reaper, p i = false) → total p (boot N L) = 0 := by
    intro p hp
    refine Finset.sum_eq_zero fun t _ => List.countP_eq_zero.2 fun i hi => ?_
    rcases boot_code (L := L) t with e | e | e <;> rw [e] at hi
    · simp [hp i (List.mem_append_left _ hi)]
    · simp [hp i hi]
    · cases hi
  have hz : ((boot N L).uthreads u).utState ≠ .zombie := by
    rcases boot_cases (L := L) u with ⟨-, h, -⟩ | ⟨h, -⟩ <;> rw [h] <;> simp [Uthread.zero]
  have hcl : claims (boot N L) u = 0 := by
    unfold claims
    rw [boot_queue, hno _ (by simp [threadStartCode, reaper, uthreadMtxLock])]
    simp
  have hjo : joining (boot N L) u = 0 := hno _ (by simp [threadStartCode, reaper, uthreadMtxLock])
  have hfr : freeing (boot N L) u = 0 := hno _ (by simp [threadStartCode, reaper, uthreadMtxLock])
  exact ⟨by simp [life, hcl, hz], .inl hjo, .inl hfr⟩

end Uthreads
