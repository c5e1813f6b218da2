import Uthreads.Lib.Potential
import Uthreads.Result.Guards

/-!
# No call spins

A call may have to wait, for a POSIX mutex or on a queue, but it does not use its LWP for that: its own
instructions are bounded. Each instruction has a `weight`, the number of instructions it can lead to;
the loop of `uthread_cond_broadcast` is paid for by the waiters that it finds.

* `call_budget`: a call has returned after `Call.budget` instructions of its thread, and seven more
  for every clock interrupt that came in between.
-/

namespace Uthreads

variable {N L : ℕ} {l k : Fin L} {t u : Fin N} {s s' s₁ : State N L} {i : Instr N}
  {c cs new : Code N} {a : Act} {q : CondId}
  {w w₁ : CondId → ℕ}

open Instr

/-! ## Weights -/

/-- The instructions that an instruction can lead to, itself included; `broadcastTest` without the
waiters that it wakes. -/
@[simp] def Instr.weight : Instr N → ℕ
  | lockTest _ => 6
  | trylockTest _ => 4
  | unlockTest _ => 9
  | signalTest _ => 7
  | setprioTest _ _ => 10
  | createInit .count _ _ => 7
  | createInit .pmut _ _ => 8
  | createInit .waiter _ _ => 9
  | createInit .exit _ _ => 10
  | createInit .prio _ _ => 11
  | createInit .link _ _ => 12
  | createInit .ctx _ _ => 13
  | allocStack _ _ => 15
  | allocReturn _ _ => 17
  | allocScan _ _ => 20
  | allocStart _ => 23
  | makeReapable _ => 28
  | exitTest _ _ => 33
  | joinReap _ _ _ => 31
  | joinClaim _ _ => 42
  | joinTest _ _ => 47
  | detachReap _ _ => 31
  | detachTest _ _ => 40
  | _ => 1

/-- The weight of a code. -/
def weight (c : Code N) : ℕ := Runs.total Instr.weight c

@[simp] theorem weight_nil : weight ([] : Code N) = 0 := rfl

@[simp] theorem weight_cons (i : Instr N) (c : Code N) : weight (i :: c) = i.weight + weight c :=
  Runs.total_cons _ _ _

@[simp] theorem weight_append (c c' : Code N) : weight (c ++ c') = weight c + weight c' :=
  Runs.total_append _ _ _

theorem Instr.weight_pos (i : Instr N) : 1 ≤ i.weight := by
  cases i with
  | createInit w => cases w <;> simp
  | _ => simp

theorem length_le_weight (c : Code N) : c.length ≤ weight c := by
  induction c with
  | nil => rfl
  | cons i c ih =>
    have hi := Instr.weight_pos i
    simp only [List.length_cons, weight_cons]
    omega

/-- **An instruction leads to less than its weight**, but for a waiter that a broadcast wakes. -/
theorem effect_weight (he : Effect l t s i s₁ new) (hi : i.reaps = false)
    (hb : ∀ q, i = broadcastTest q → (s.queues (.ucWaiters q)).tqWaiters = []) :
    weight new + 1 ≤ i.weight := by
  cases he with
  | plain hp => cases hp <;> simp_all [uthreadMtxUnlock]
  | setprio u prio hs hnew => rcases hnew with rfl | rfl <;> simp [uthreadYield, uthreadSwitch]
  | take m ho hs hnew => rcases hnew with ⟨rfl, rfl⟩ | ⟨rfl, rfl⟩ <;> simp
  | signal q u hq hs hnew =>
    rcases hnew with ⟨rfl, rfl⟩ | ⟨rfl, rfl⟩
    · simp [uthreadWake]
    · obtain ⟨x, hx, -⟩ := utqueueDequeue_some hq
      rw [hb q rfl] at hx
      cases hx
  | detach u k hq hd hinit hs hnew =>
    rcases hnew with ⟨-, rfl⟩ | ⟨-, rfl⟩ <;> simp [uthreadMtxLock]
  | makeReapable u hz hs₁ hs hnew =>
    subst hnew
    split_ifs <;> simp [uthreadCondSignal, uthreadMtxUnlock, uthreadSwitch]
  | drain | destroy => cases hi
  | create w => cases w <;> simp [createRest, uthreadStartonrunq]
  | _ =>
    simp [uthreadSwitch, uthreadWake, uthreadMtxUnlock, uthreadMtxLock, deadCode]

/-! ## Broadcasts -/

/-- The instruction puts nothing in front and leaves the queues of condition variables alone. -/
@[simp] def Instr.brief : Instr N → Bool
  | nopreemptOn | nopreemptOff | lock _ | unlock _ | swtch none _ _ | resume | yieldAssert
  | interruptLeave | wakeAssert _ | wakeTest _ => true
  | _ => false

/-- What `uthread_cond_broadcast` does from the test of its loop on. -/
def broadcastTail (q : CondId) : Code N := [broadcastTest q, unlock (.cPmut q), nopreemptOff]

/-- The code is in `uthread_cond_broadcast`, and nothing before its test can wait on a queue. -/
def Broadcasting (q : CondId) (c : Code N) : Prop :=
  ∃ pre : Code N, c = pre ++ broadcastTail q ∧ ∀ j ∈ pre, j.brief = true

/-- Every test of a broadcast stands in the code of one. -/
def Broadcasts (c : Code N) : Prop := ∀ q, broadcastTest q ∈ c → Broadcasting q c

theorem effect_brief (he : Effect l t s i s₁ new) (hi : i.brief = true) : new = [] := by
  cases he with
  | plain hp => cases hp <;> first | rfl | simp at hi
  | take _ _ _ hnew | signal _ _ _ _ hnew => rcases hnew with ⟨rfl, -⟩ | ⟨rfl, -⟩ <;> simp at hi
  | _ => first | rfl | simp at hi

theorem effect_tests (he : Effect l t s i s₁ new) (hq : broadcastTest q ∈ new) :
    i = broadcastTest q ∧ ∃ u, new = uthreadWake u ++ [broadcastTest q] := by
  obtain rfl : i = broadcastTest q := effect_before he _ hq
  refine ⟨rfl, ?_⟩
  cases he with
  | plain hp => cases hp; cases hq
  | take _ _ _ h => rcases h with ⟨h, -⟩ | ⟨h, -⟩ <;> cases h
  | signal c u _ _ hnew =>
    rcases hnew with ⟨h, -⟩ | ⟨h, rfl⟩ <;> cases h
    exact ⟨u, rfl⟩

theorem call_tests (inc : Fin N → ℕ) (t : Fin N) (call : Call) (hq : broadcastTest q ∈ call.code inc t) :
    ∃ k, call = .condBroadcast k ∧ q = .user k := by
  cases call with
  | condBroadcast k =>
    exact ⟨k, rfl, by simpa [Call.code, uthreadCondBroadcast] using hq⟩
  | join uid => simp only [Call.code, uthreadJoin] at hq; split at hq <;> simp at hq
  | detach uid => simp only [Call.code, uthreadDetach] at hq; split at hq <;> simp at hq
  | setprio uid prio =>
    simp only [Call.code, uthreadSetprio] at hq
    split at hq
    · simp at hq
    · split at hq <;> simp at hq
  | _ => simp [Call.code, uthreadCreate, uthreadExit, uthreadMtxLock, uthreadYield, uthreadSwitch,
      uthreadMtxTrylock, uthreadMtxUnlock, uthreadCondWait, uthreadCondSignal] at hq

/-- A code that is in a broadcast is at its test, or before it. -/
theorem Broadcasting.cons (h : Broadcasting q (i :: cs)) :
    i = broadcastTest q ∧ cs = [unlock (.cPmut q), nopreemptOff] ∨
      i.brief = true ∧ Broadcasting q cs := by
  obtain ⟨pre, he, hp⟩ := h
  cases pre with
  | nil =>
    obtain ⟨hi, hcs⟩ := List.cons.inj he
    exact .inl ⟨hi, hcs⟩
  | cons j pre =>
    obtain ⟨rfl, rfl⟩ := List.cons.inj he
    exact .inr ⟨hp i (by simp), pre, rfl, fun j hj => hp j (by simp [hj])⟩

theorem Broadcasting.front {pre : Code N} (h : Broadcasting q c) (hp : ∀ j ∈ pre, j.brief = true) :
    Broadcasting q (pre ++ c) := by
  obtain ⟨pre', rfl, hp'⟩ := h
  refine ⟨pre ++ pre', by simp, fun j hj => ?_⟩
  rcases List.mem_append.1 hj with hj | hj
  · exact hp j hj
  · exact hp' j hj

/-- **The codes of the broadcasts.** -/
theorem broadcasts_turn (hb : ∀ v, Broadcasts (s.uthreads v).utCtx) (h : Turn s l a s') (v : Fin N) :
    Broadcasts (s'.uthreads v).utCtx := by
  intro q hq
  cases code_turn h v with
  | same e => exact e ▸ hb v q (e ▸ hq)
  | thread i cs new hon hcode he e =>
    rw [e] at hq ⊢
    have hold := hb v
    rw [hcode] at hold
    rcases List.mem_append.1 hq with hq | hq
    · obtain ⟨rfl, u, rfl⟩ := effect_tests he hq
      rcases (hold q (by simp)).cons with ⟨-, rfl⟩ | ⟨hi, -⟩
      · exact ⟨uthreadWake u, by simp [broadcastTail], by simp [uthreadWake]⟩
      · cases hi
    · rcases (hold q (by simp [hq])).cons with ⟨-, rfl⟩ | ⟨hi, hcs⟩
      · simp at hq
      · rw [effect_brief he hi]
        exact hcs
  | create t prio cs hon hcode _ e => rw [e] at hq; simp [threadStartCode] at hq
  | call call ha hon hcode e =>
    rw [e] at hq ⊢
    obtain ⟨k, rfl, rfl⟩ := call_tests _ _ _ hq
    exact ⟨[nopreemptOn, lock (.cPmut (.user k))], rfl, by simp⟩
  | preempt ha hon hst hc e =>
    rw [e] at hq ⊢
    have hq' : broadcastTest q ∈ (s.uthreads v).utCtx := by
      simpa [clockInterrupt, uthreadYield, uthreadSwitch] using hq
    exact (hb v q hq').front (by simp [clockInterrupt, uthreadYield, uthreadSwitch])

/-! ## The work that is left -/

@[simp] def Instr.tests : Instr N → ℕ
  | broadcastTest _ => 1
  | _ => 0

/-- The threads that the broadcasts of a code can still wake: all of them until the lock of the
condition variable is held, and the waiters from then on. -/
def rounds (w : CondId → ℕ) : Code N → ℕ
  | [] => 0
  | lock (.cPmut _) :: c => N * Runs.total Instr.tests c
  | broadcastTest q :: c => w q + rounds w c
  | _ :: c => rounds w c

theorem rounds_cons (w : CondId → ℕ) (i : Instr N) (c : Code N) :
    (∃ q, i = lock (.cPmut q) ∧ rounds w (i :: c) = N * Runs.total Instr.tests c) ∨
    (∃ q, i = broadcastTest q ∧ rounds w (i :: c) = w q + rounds w c) ∨
    (∀ q, i ≠ lock (.cPmut q)) ∧ i.tests = 0 ∧ rounds w (i :: c) = rounds w c := by
  by_cases hl : ∃ q, i = lock (.cPmut q)
  · obtain ⟨q, rfl⟩ := hl
    exact .inl ⟨q, rfl, rfl⟩
  · by_cases ht : ∃ q, i = broadcastTest q
    · obtain ⟨q, rfl⟩ := ht
      exact .inr (.inl ⟨q, rfl, rfl⟩)
    · refine .inr (.inr ⟨fun q e => hl ⟨q, e⟩, ?_, ?_⟩)
      · cases i <;> simp_all
      · apply rounds.eq_4
        · exact fun q e => hl ⟨q, e⟩
        · exact fun q e => ht ⟨q, e⟩

theorem rounds_le (hw : ∀ q, w q ≤ N) (c : Code N) : rounds w c ≤ N * Runs.total Instr.tests c := by
  induction c with
  | nil => simp [rounds]
  | cons i c ih =>
    rw [Runs.total_cons, Nat.mul_add]
    rcases rounds_cons w i c with ⟨q, rfl, h⟩ | ⟨q, rfl, h⟩ | ⟨-, hi, h⟩ <;> rw [h]
    · omega
    · have := hw q
      simp only [tests, Nat.mul_one]
      omega
    · omega

theorem tests_eq_zero (h : ∀ q, broadcastTest q ∉ c) : Runs.total Instr.tests c = 0 := by
  induction c with
  | nil => rfl
  | cons i c ih =>
    rw [Runs.total_cons, ih fun q hq => h q (List.mem_cons_of_mem i hq), Nat.add_zero]
    cases i with
    | broadcastTest q => exact absurd List.mem_cons_self (h q)
    | _ => rfl

/-- The broadcasts of a code depend on the queue of waiters as far as its lock is held. -/
theorem rounds_congr (h : Broadcasting q c) (hq : Held (.cPmut q) c → w₁ q = w q) :
    rounds w₁ c = rounds w c := by
  obtain ⟨pre, rfl, hp⟩ := h
  induction pre with
  | nil =>
    have := hq (.inl (by simp))
    simp [broadcastTail, rounds, this]
  | cons j pre ih =>
    have hj := hp j (by simp)
    rw [List.cons_append] at hq ⊢
    rcases rounds_cons w j (pre ++ broadcastTail q) with ⟨k, rfl, h⟩ | ⟨k, rfl, -⟩ | ⟨hl, -, h⟩
    · rfl
    · cases hj
    · have hne : ∀ k, j ≠ broadcastTest k := by rintro k rfl; cases hj
      rw [h, rounds.eq_4 _ _ _ hl hne]
      refine ih (fun k hk => hp k (by simp [hk])) fun hheld => hq (.inr ⟨?_, ?_, hheld⟩)
      · cases j <;> simp at hj ⊢
        rename_i p
        rintro rfl
        exact hl q rfl
      · rintro rfl
        cases hj

def waiters (s : State N L) (q : CondId) : ℕ := (s.queues (.ucWaiters q)).tqWaiters.length

theorem waiters_le (hc : Core s) (q : CondId) : waiters s q ≤ N := by
  simpa [waiters] using (hc.links.nodup (.ucWaiters q)).length_le_card

/-- What a thread has still to do. -/
def work (s : State N L) (t : Fin N) : ℕ :=
  weight (s.uthreads t).utCtx + 7 * rounds (waiters s) (s.uthreads t).utCtx

theorem work_eq_weight (h : ∀ q, broadcastTest q ∉ (s.uthreads t).utCtx) (hc : Core s) :
    work s t = weight (s.uthreads t).utCtx := by
  have hle := rounds_le (waiters_le hc) (s.uthreads t).utCtx
  rw [tests_eq_zero h, Nat.mul_zero] at hle
  unfold work
  omega

/-- **An instruction leaves less to do.** -/
theorem work_own (hc : Core s) (hc' : Core (s₁.setCtx t (new ++ cs))) (hb : Broadcasts (s.uthreads t).utCtx)
    (hcode : (s.uthreads t).utCtx = i :: cs) (he : Effect l t s i s₁ new) (hi : i.reaps = false) :
    work (s₁.setCtx t (new ++ cs)) t + 1 ≤ work s t := by
  have hctx : ((s₁.setCtx t (new ++ cs)).uthreads t).utCtx = new ++ cs := by simp
  by_cases htest : ∃ q, broadcastTest q ∈ i :: cs
  · obtain ⟨q, hq⟩ := htest
    unfold work
    rw [hctx, hcode, weight_append, weight_cons]
    rw [hcode] at hb
    rcases (hb q hq).cons with ⟨rfl, rfl⟩ | ⟨hbrief, hcs⟩
    · cases he with
      | plain hp hs =>
        cases hp with
        | broadcastNone _ hempty => simp [rounds]
      | take _ _ _ hnew => rcases hnew with ⟨h, -⟩ | ⟨h, -⟩ <;> cases h
      | signal k u hd hs hnew =>
        rcases hnew with ⟨h, -⟩ | ⟨h, rfl⟩
        · cases h
        · -- the woken waiter is off the queue, and pays for its wake
          obtain rfl := broadcastTest.inj h
          obtain ⟨x, hx, rfl⟩ := utqueueDequeue_some hd
          simp [uthreadWake, rounds, waiters, hs.queues, hx]
          omega
    · obtain rfl := effect_brief he hbrief
      have hw := i.weight_pos
      have hr : rounds (waiters (s₁.setCtx t ([] ++ cs))) cs ≤ rounds (waiters s) (i :: cs) := by
        rcases rounds_cons (waiters s) i cs with ⟨k, rfl, h⟩ | ⟨k, rfl, -⟩ | ⟨-, -, h⟩
        · rw [h]
          exact rounds_le (waiters_le hc') cs
        · cases hbrief
        · rw [h]
          refine (rounds_congr hcs fun _ => ?_).le
          have hq : QueueId.ucWaiters q ∉ i.queues := by
            cases i with
            | swtch r => rcases r with _ | r <;> simp_all
            | _ => simp_all
          exact congrArg (fun x => x.tqWaiters.length) (effect_queues he (by simp) hq)
      simp only [List.nil_append, weight_nil] at *
      omega
  · have hnone : ∀ q, broadcastTest q ∉ i :: cs := fun q hq => htest ⟨q, hq⟩
    have hnew : ∀ q, broadcastTest q ∉ new ++ cs := by
      intro q hq
      rcases List.mem_append.1 hq with hq | hq
      · exact hnone q (by rw [(effect_tests he hq).1]; simp)
      · exact hnone q (by simp [hq])
    rw [work_eq_weight (by rw [hctx]; exact hnew) hc', work_eq_weight (by rw [hcode]; exact hnone) hc,
      hctx, hcode, weight_append, weight_cons]
    have := effect_weight he hi fun q e => absurd (by simp [e]) (hnone q)
    omega

theorem rounds_kept (hb : Broadcasts c) (hq : ∀ q, Held (.cPmut q) c → w₁ q = w q) :
    rounds w₁ c = rounds w c := by
  by_cases htest : ∃ q, broadcastTest q ∈ c
  · obtain ⟨q, h⟩ := htest
    exact rounds_congr (hb q h) (hq q)
  · clear hb hq
    induction c with
    | nil => rfl
    | cons i c ih =>
      have ih := ih fun ⟨q, h⟩ => htest ⟨q, List.mem_cons_of_mem i h⟩
      rcases rounds_cons w i c with ⟨q, rfl, h⟩ | ⟨q, rfl, -⟩ | ⟨hl, -, h⟩
      · rfl
      · exact absurd ⟨q, List.mem_cons_self⟩ htest
      · rw [h, ← ih, rounds.eq_4 _ _ _ hl fun q e => htest ⟨q, by simp [e]⟩]

/-- **The steps of the others leave the work of a thread as it is.** -/
theorem work_beside (hc : Core s) (hb : Broadcasts (s.uthreads t).utCtx) (h : Turn s l a s')
    (hoff : ¬ OnStack s l t) (hset : ∀ u prio cs, OnStack s l u →
      (s.uthreads u).utCtx ≠ createInit .ctx t prio :: cs) : work s' t = work s t := by
  have hsame : (s'.uthreads t).utCtx = (s.uthreads t).utCtx →
      (∀ q, Held (.cPmut q) (s.uthreads t).utCtx →
        s'.queues (.ucWaiters q) = s.queues (.ucWaiters q)) → work s' t = work s t := by
    intro hcode hq
    unfold work
    have hr : rounds (waiters s') (s.uthreads t).utCtx = rounds (waiters s) (s.uthreads t).utCtx :=
      rounds_kept hb fun q h => congrArg (fun x => x.tqWaiters.length) (hq q h)
    rw [hcode, hr]
  cases h with
  | @thread _ v i cs new s₁ hon hcode he =>
    have hne : t ≠ v := by rintro rfl; exact hoff hon
    rcases other_code cs he hne with e | ⟨⟨prio, rfl⟩, -⟩
    · refine hsame e fun q hheld => ?_
      by_contra hq
      -- the queue is written under its lock, and `t` holds that
      rcases queue_guarded hc hon hcode he (by simp) hq with ⟨u, hu, hheld'⟩ | hheld'
      · have := hc.locks.one _ (.inl t) (.inl u) hheld hheld'
        obtain rfl := Sum.inl.inj this
        exact hoff hu
      · cases hc.locks.one _ (.inl t) (.inr l) hheld hheld'
    · exact absurd hcode (hset v prio cs hon)
  | call v call hon =>
    have hne : t ≠ v := by rintro rfl; exact hoff hon
    exact hsame (by simp [hne]) fun _ _ => rfl
  | preempt v hon =>
    have hne : t ≠ v := by rintro rfl; exact hoff hon
    exact hsame (by simp [hne]) fun _ _ => rfl
  | lwp hb => exact hsame (hb.fields t).1 fun q _ => hb.queues _ (by simp)

/-! ## Whole calls -/

/-- What thread `t` does in a step. -/
def stepsOf (t : Fin N) (s : State N L) (b : Fin L × Act) (_ : State N L) : List Act :=
  if OnStack s b.1 t then [b.2] else []

/-- The step goes on with what `t` has begun: `t` does not call, and its slot is not set up again. -/
def GoesOn (t : Fin N) (s : State N L) (b : Fin L × Act) : Prop :=
  (∀ call, b.2 = .call call → ¬ OnStack s b.1 t) ∧
    ∀ u prio cs, OnStack s b.1 u → (s.uthreads u).utCtx ≠ createInit .ctx t prio :: cs

/-- An instruction of its own. -/
@[simp] def Act.own : Act → ℕ
  | .preempt => 0
  | _ => 1

/-- What a clock interrupt adds to the work of a thread. -/
@[simp] def Act.extra : Act → ℕ
  | .preempt => 7
  | _ => 0

/-- The work that is left, less an instruction at which the process has ended. -/
def left (t : Fin N) (s : State N L) : ℕ := work s t - s.halt.toList.length

theorem left_le (t : Fin N) (s : State N L) : left t s ≤ work s t := Nat.sub_le _ _

/-- **A step.** -/
theorem left_step {b : Fin L × Act} (hc : Core s) (hb : Broadcasts (s.uthreads t).utCtx)
    (hr : ∀ j ∈ (s.uthreads t).utCtx, j.reaps = false) (hok : GoesOn t s b) (hn : next s b = some s') :
    Runs.total Act.own (stepsOf t s b s') + left t s' ≤
      left t s + Runs.total Act.extra (stepsOf t s b s') := by
  obtain ⟨l, a⟩ := b
  have hh := next_live hn
  have hm := step_move hc.codes.wf hn
  have hc' := core_step hc hm
  have hleft : left t s = work s t := by simp [left, hh]
  rw [hleft]
  by_cases hon : OnStack s l t
  · have hown : a.own ≤ 1 := by cases a <;> simp
    simp only [stepsOf, if_pos hon, Runs.total_cons, Runs.total_nil, Nat.add_zero]
    have hrun : ∀ {m : LwpMode N}, (s.lwps l).mode = m → m = .running := fun e => e ▸ hon.1
    cases hm with
    | halted e hs =>
      -- an instruction that ends the process stays in front of the code
      have hw : a.own ≤ work s t + a.extra := by
        cases hs with
        | thread v i cs hon' hcode =>
          obtain rfl : t = v := Option.some.inj (hon.2.symm.trans hon'.2)
          have : 1 ≤ weight (s.uthreads t).utCtx := by
            rw [hcode]
            exact (by simp : 1 ≤ (i :: cs).length).trans (length_le_weight _)
          unfold work
          omega
        | interrupt => simp
        | acquire hm => rcases hm with hm | hm <;> cases hrun hm
        | release p hm => rcases hm with hm | ⟨-, hm | hm⟩ <;> cases hrun hm
        | allParked hm => cases hrun hm
      have : left t { s with halt := some e } = work s t - 1 := rfl
      omega
    | @thread _ v i cs new s₁ hon' hcode he =>
      obtain rfl : t = v := Option.some.inj (hon.2.symm.trans hon'.2)
      have hlt := work_own hc hc' hb hcode he (hr i (by rw [hcode]; simp))
      have := left_le t (s₁.setCtx t (new ++ cs))
      omega
    | call v call => exact absurd hon (hok.1 call rfl)
    | preempt v hon' =>
      obtain rfl : t = v := Option.some.inj (hon.2.symm.trans hon'.2)
      refine (Nat.add_le_add_left (left_le _ _) _).trans ?_
      have hrounds : rounds (waiters s) (clockInterrupt ++ (s.uthreads t).utCtx) =
          rounds (waiters s) (s.uthreads t).utCtx := rfl
      unfold work
      rw [State.modUthread_uthreads, if_pos rfl]
      change _ + (weight (clockInterrupt ++ (s.uthreads t).utCtx) +
        7 * rounds (waiters s) (clockInterrupt ++ (s.uthreads t).utCtx)) ≤ _
      rw [hrounds, weight_append]
      have hweight : weight (clockInterrupt : Code N) = 7 := rfl
      simp only [Act.own, Act.extra]
      omega
    | acquire m hm => rcases hm with ⟨hm, -⟩ | ⟨hm, -⟩ <;> cases hrun hm
    | unlock p hm => cases hrun hm
    | dispatch v hm => cases hrun hm
    | idle m hm => rcases hm with ⟨hm, -⟩ | ⟨hm, -⟩ <;> cases hrun hm
    | leave m hm => rcases hm with ⟨hm, -⟩ | ⟨hm, -⟩ <;> cases hrun hm
  · have := work_beside hc hb (move_turn hc hm) hon hok.2
    have := left_le t s'
    simp only [stepsOf, if_neg hon, Runs.total_nil]
    omega

/-- The instructions of a call at most, of a library with `n` threads. -/
def Call.budget (n : ℕ) : Call → ℕ
  | create _ => 23
  | exit _ => 43
  | join _ => 49
  | detach _ => 42
  | yield => 6
  | setprio _ _ => 12
  | mtxLock _ => 8
  | mtxTrylock _ => 6
  | mtxUnlock _ => 11
  | condWait _ _ => 29
  | condSignal _ => 11
  | condBroadcast _ => 5 + 7 * n
  | nopreemptOn => 1
  | nopreemptOff => 1

theorem call_work (inc : Fin N → ℕ) (t : Fin N) (call : Call) :
    weight (call.code inc t) + 7 * rounds w (call.code inc t) ≤ call.budget N := by
  cases call with
  | join uid =>
    simp only [Call.code, uthreadJoin, Call.budget]
    split <;> simp [rounds]
  | detach uid =>
    simp only [Call.code, uthreadDetach, Call.budget]
    split <;> simp [rounds]
  | setprio uid prio =>
    simp only [Call.code, uthreadSetprio, Call.budget]
    split
    · simp [rounds]
    · split <;> simp [rounds]
  | _ => simp [Call.code, Call.budget, uthreadCreate, uthreadExit, uthreadYield, uthreadSwitch,
      uthreadMtxLock, uthreadMtxTrylock, uthreadMtxUnlock, uthreadCondWait, uthreadCondSignal,
      uthreadCondBroadcast, rounds]

theorem broadcasts_reachable {s : State (N + 2) (L + 1)} (h : Reachable Runs.always (boot N L) s) :
    ∀ v, Broadcasts (s.uthreads v).utCtx := by
  refine h.invariant_of (P := fun s => ∀ v, Broadcasts (s.uthreads v).utCtx)
    (fun _ hr => core_reachable boot_core hr) (fun v q hq => ?_) ?_
  · rcases boot_code (L := L) v with e | e | e <;> rw [e] at hq <;>
      simp [threadStartCode, reaper, uthreadMtxLock] at hq
  · rintro s s' ⟨l, a⟩ hc hb - hn
    exact broadcasts_turn hb (move_turn hc (step_move hc.codes.wf hn))

theorem extra_total (as : List Act) : Runs.total Act.extra as = 7 * as.count .preempt := by
  induction as with
  | nil => rfl
  | cons a as ih =>
    rw [Runs.total_cons, ih, List.count_cons]
    cases a <;> simp
    omega

/-- **A call is a bounded number of instructions**, and with them it has returned. What it has executed
and what it has still in front of it are within `Call.budget` and seven for each clock interrupt. -/
theorem call_budget {s₀ s₁ s : State (N + 2) (L + 1)} {l : Fin (L + 1)} {t : Fin (N + 2)} {call : Call}
    {as : List Act} (h₀ : Reachable Runs.always (boot N L) s₀) (hon : OnStack s₀ l t)
    (hcall : next s₀ (l, .call call) = some s₁)
    (h : Runs.Trace next (GoesOn t) (stepsOf t) s₁ s as) :
    Runs.total Act.own as ≤ call.budget (N + 2) + 7 * as.count .preempt ∧
      (s.halt = none → Runs.total Act.own as + (s.uthreads t).utCtx.length ≤
        call.budget (N + 2) + 7 * as.count .preempt) := by
  obtain ⟨hh, hcode, rfl⟩ := call_next hon hcall
  -- the reaper is in its loop and does not call
  have hreap : t ≠ s₀.reaperThrId := by
    rintro rfl
    exact (reaper_reachable h₀).code.ne_nil hcode
  have hI : ∀ s, Runs.Reach next (GoesOn t) (s₀.setCtx t (call.code s₀.incarnation t)) s →
      Reachable Runs.always (boot N L) s ∧ t ≠ s.reaperThrId := by
    intro s hr
    refine hr.invariant (P := fun s => Reachable Runs.always (boot N L) s ∧ t ≠ s.reaperThrId)
      ⟨.step h₀ trivial hcall, hreap⟩ ?_
    rintro s s' ⟨k, a⟩ ⟨hr, ht⟩ - hn
    have hc := core_reachable boot_core hr
    rw [reaper_same (move_turn hc (step_move hc.codes.wf hn))]
    exact ⟨.step hr trivial hn, ht⟩
  have hrun := h.amortised (left t) Act.own Act.extra hI fun s s' b hs hok hn =>
    left_step (core_reachable boot_core hs.1) (broadcasts_reachable hs.1 t)
      ((reaper_reachable hs.1).others t hs.2) hok hn
  have hstart : left t (s₀.setCtx t (call.code s₀.incarnation t)) ≤ call.budget (N + 2) := by
    refine (left_le _ _).trans ?_
    unfold work
    rw [State.setCtx_uthreads, if_pos rfl]
    exact call_work s₀.incarnation t call
  rw [extra_total] at hrun
  refine ⟨by omega, fun hh => ?_⟩
  have hleft : (s.uthreads t).utCtx.length ≤ left t s := by
    simp only [left, hh, Option.toList_none, List.length_nil, Nat.sub_zero]
    exact (length_le_weight _).trans (Nat.le_add_right _ _)
  omega

theorem call_budget_broadcast : ∃ s₀ s₁ s : State 3 1, Reachable Runs.always (boot 1 0) s₀ ∧
    next s₀ (0, .call (.condBroadcast 0)) = some s₁ ∧ next s₁ (0, .exec) = some s ∧
    Runs.total Act.own [.exec] ≤ 26 := by
  obtain ⟨s₀, hr, hon, hs⟩ : ∃ s : State 3 1, Reachable Runs.always (boot 1 0) s ∧ OnStack s 0 0 ∧
      (next s (0, .call (.condBroadcast 0))).any (fun s₁ => OnStack s₁ 0 0 ∧
        (s₁.uthreads 0).utCtx.head? = some nopreemptOn ∧ (next s₁ (0, .exec)).isSome) = true :=
    Runs.exists_reach (turns 0 4) (by decide)
  obtain ⟨s₁, hcall, h₁⟩ := (Option.any_eq_true _ _).1 hs
  obtain ⟨hon₁, hhead, hsome⟩ := of_decide_eq_true h₁
  obtain ⟨s, hn⟩ := Option.isSome_iff_exists.1 hsome
  have hok : GoesOn 0 s₁ (0, .exec) := by
    refine ⟨fun _ h => (by cases h), fun u prio cs hu hcode => ?_⟩
    obtain rfl : 0 = u := Option.some.inj (hon₁.2.symm.trans hu.2)
    rw [hcode] at hhead
    cases hhead
  have hout : stepsOf 0 s₁ (0, .exec) s = [.exec] := if_pos hon₁
  have htrace : Runs.Trace next (GoesOn 0) (stepsOf 0) s₁ s ([] ++ stepsOf 0 s₁ (0, .exec) s) :=
    .step .start hok hn
  rw [hout] at htrace
  exact ⟨s₀, s₁, s, hr, hcall, hn, (call_budget hr hon hcall htrace).1⟩

end Uthreads
