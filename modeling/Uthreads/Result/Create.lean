import Uthreads.Result.Slots

/-!
# A create that fails

`uthread_create` takes a slot in `uthread_alloc` and allocates the stack after that. Without memory
for the stack it returns an error and leaves the slot in `UT_TRANSITION`.

* `failed_create_iff`: a call on its own leaves no trace when it fails, if and only if `malloc`
  succeeds or no slot was free.
* `failed_create_leaks`: a slot is lost when `malloc` fails.
-/

namespace Uthreads

variable {N L : ℕ} {l : Fin L} {t : Fin N} {s₀ s s' s₁ : State N L} {i : Instr N} {new : Code N}
  {ok : Bool} {prio : ℤ}

open Instr

/-! ## The call, instruction by instruction -/

/-- The states of the slots and the run queues are those before the call. -/
structure NoTrace (s₀ s : State N L) : Prop where
  states : ∀ v, (s.uthreads v).utState = (s₀.uthreads v).utState
  queues : ∀ q, s.queues q = s₀.queues q
  size : s.runqSize = s₀.runqSize

/-- The call has moved slot `i` from `UT_NO_STATE` to `UT_TRANSITION`. -/
structure Took (s₀ s : State N L) (i : Fin N) : Prop where
  free : (s₀.uthreads i).utState = .noState
  taken : (s.uthreads i).utState = .transition

/-- How the call can end. -/
inductive Created (s₀ s : State N L) (ok : Bool) : Errno → Option (Fin N) → Prop
  | full (hk : NoTrace s₀ s) (hf : ∀ v, (s₀.uthreads v).utState ≠ .noState) :
    Created s₀ s ok .eagain none
  | noMemory (i : Fin N) (hok : ok = false) (ht : Took s₀ s i) : Created s₀ s ok .eagain none
  | done (i : Fin N) (hok : ok = true) : Created s₀ s ok .ok (some i)

/-- Where the call is, by the code that is left of it. -/
inductive Creating (s₀ s : State N L) (t : Fin N) (ok : Bool) (prio : ℤ) : Code N → Prop
  | alloc (hk : NoTrace s₀ s) (hp : s.prevId = s₀.prevId) : Creating s₀ s t ok prio [allocStart prio]
  | scan {c : Code N} (hk : NoTrace s₀ s)
    (hc : c = [nopreemptOn, lock .uthreadsMtx, allocScan (allocFrom s₀.prevId) prio] ∨
      c = [lock .uthreadsMtx, allocScan (allocFrom s₀.prevId) prio] ∨
      c = [allocScan (allocFrom s₀.prevId) prio]) : Creating s₀ s t ok prio c
  | full {c : Code N} (hk : NoTrace s₀ s) (hf : ∀ v, (s₀.uthreads v).utState ≠ .noState)
    (hc : c = [unlock .uthreadsMtx, nopreemptOff, ret (.create .eagain none)] ∨
      c = [nopreemptOff, ret (.create .eagain none)] ∨ c = [ret (.create .eagain none)]) :
    Creating s₀ s t ok prio c
  | took (i : Fin N) {c : Code N} (ht : Took s₀ s i) (hp : s.prevId = some i)
    (hc : c = [unlock .uthreadsMtx, nopreemptOff, allocReturn i prio] ∨
      c = [nopreemptOff, allocReturn i prio] ∨ c = [allocReturn i prio] ∨
      c = [nopreemptOn, allocStack i prio] ∨ c = [allocStack i prio]) : Creating s₀ s t ok prio c
  | noMemory (i : Fin N) {c : Code N} (hok : ok = false) (ht : Took s₀ s i)
    (hc : c = [nopreemptOff, ret (.create .eagain none)] ∨ c = [ret (.create .eagain none)]) :
    Creating s₀ s t ok prio c
  | stack (i : Fin N) {c : Code N} (hok : ok = true)
    (hc : c = [nopreemptOff, createInit .ctx i prio] ∨ (∃ w, c = [createInit w i prio]) ∨
      (c <:+ uthreadStartonrunq i prio ++ [ret (.create .ok (some i))] ∧ c ≠ [])) :
    Creating s₀ s t ok prio c
  | done (e : Errno) (r : Option (Fin N)) (hlog : s.log.getLast? = some (.returned t (.create e r)))
    (hc : Created s₀ s ok e r) : Creating s₀ s t ok prio []

/-- What the call has done so far depends on the table, the queues, `PrevID` and the log. -/
theorem Creating.frame {c : Code N} (h : Creating s₀ s t ok prio c) (hk : NoTrace s s')
    (hp : s'.prevId = s.prevId) (hl : s'.log = s.log) : Creating s₀ s' t ok prio c := by
  have hkept : NoTrace s₀ s → NoTrace s₀ s' := fun h =>
    ⟨fun v => (hk.states v).trans (h.states v), fun q => (hk.queues q).trans (h.queues q),
      hk.size.trans h.size⟩
  have htook : ∀ {i}, Took s₀ s i → Took s₀ s' i := fun h => ⟨h.free, (hk.states _).trans h.taken⟩
  cases h with
  | alloc h hp' => exact .alloc (hkept h) (hp.trans hp')
  | scan h hc => exact .scan (hkept h) hc
  | full h hf hc => exact .full (hkept h) hf hc
  | took i h hp' hc => exact .took i (htook h) (hp.trans hp') hc
  | noMemory i hok h hc => exact .noMemory i hok (htook h) hc
  | stack i hok hc => exact .stack i hok hc
  | done e r hlog hc =>
    refine .done e r (hl ▸ hlog) ?_
    cases hc with
    | full h hf => exact .full (hkept h) hf
    | noMemory i hok h => exact .noMemory i hok (htook h)
    | done i hok => exact .done i hok

/-- The instructions that are about locks and preemption only. -/
@[simp] def Instr.quiet : Instr N → Bool
  | lock _ | unlock _ | nopreemptOn | nopreemptOff => true
  | _ => false

theorem exec_quiet (hi : i.quiet = true) (h : exec l t ok i s = .ok (s₁, new)) :
    new = [] ∧ NoTrace s s₁ ∧ s₁.prevId = s.prevId ∧ s₁.log = s.log ∧
      (OnStack s l t → OnStack s₁ l t) := by
  cases i with
  | lock p =>
    obtain ⟨s₂, hl, h⟩ := except_bind_ok.1 h
    obtain ⟨-, -, rfl⟩ := pthreadMutexLock_ok hl
    obtain ⟨rfl, rfl⟩ := Prod.mk.inj (except_pure_ok.1 h)
    exact ⟨rfl, ⟨fun _ => rfl, fun _ => rfl, rfl⟩, rfl, rfl, id⟩
  | unlock p =>
    obtain ⟨s₂, hl, h⟩ := except_bind_ok.1 h
    obtain ⟨-, -, rfl⟩ := pthreadMutexUnlock_ok hl
    obtain ⟨rfl, rfl⟩ := Prod.mk.inj (except_pure_ok.1 h)
    exact ⟨rfl, ⟨fun _ => rfl, fun _ => rfl, rfl⟩, rfl, rfl, id⟩
  | nopreemptOn =>
    obtain ⟨-, -, h⟩ := except_bind_ok.1 h
    obtain ⟨-, -, h⟩ := except_bind_ok.1 h
    obtain ⟨rfl, rfl⟩ := Prod.mk.inj (except_pure_ok.1 h)
    refine ⟨rfl, ⟨fun v => by simp, fun _ => rfl, rfl⟩, rfl, rfl, fun hon => ?_⟩
    exact ⟨by simpa using hon.1, by simpa using hon.2⟩
  | nopreemptOff =>
    obtain ⟨-, -, h⟩ := except_bind_ok.1 h
    obtain ⟨-, -, h⟩ := except_bind_ok.1 h
    dsimp only at h
    split at h <;> obtain ⟨rfl, rfl⟩ := Prod.mk.inj (except_pure_ok.1 h) <;>
      refine ⟨rfl, ⟨fun v => by simp, fun _ => rfl, rfl⟩, rfl, rfl, fun hon => ?_⟩
    · exact ⟨by simpa using hon.1, by simpa using hon.2⟩
    · exact hon
  | _ => cases hi

/-- An instruction about locks and preemption takes the call to the rest of its code. -/
theorem Creating.tail {cs : Code N} (h : Creating s₀ s t ok prio (i :: cs)) (hi : i.quiet = true) :
    Creating s₀ s t ok prio cs := by
  cases h with
  | alloc => cases hi
  | scan hk hc =>
    rcases hc with e | e | e <;> obtain ⟨rfl, rfl⟩ := List.cons.inj e
    · exact .scan hk (.inr (.inl rfl))
    · exact .scan hk (.inr (.inr rfl))
    · cases hi
  | full hk hf hc =>
    rcases hc with e | e | e <;> obtain ⟨rfl, rfl⟩ := List.cons.inj e
    · exact .full hk hf (.inr (.inl rfl))
    · exact .full hk hf (.inr (.inr rfl))
    · cases hi
  | took j ht hp hc =>
    rcases hc with e | e | e | e | e <;> obtain ⟨rfl, rfl⟩ := List.cons.inj e
    · exact .took j ht hp (.inr (.inl rfl))
    · exact .took j ht hp (.inr (.inr (.inl rfl)))
    · cases hi
    · exact .took j ht hp (.inr (.inr (.inr (.inr rfl))))
    · cases hi
  | noMemory j hok ht hc =>
    rcases hc with e | e <;> obtain ⟨rfl, rfl⟩ := List.cons.inj e
    · exact .noMemory j hok ht (.inr rfl)
    · cases hi
  | stack j hok hc =>
    rcases hc with e | ⟨w, e⟩ | ⟨hsuf, -⟩
    · obtain ⟨rfl, rfl⟩ := List.cons.inj e
      exact .stack j hok (.inr (.inl ⟨.ctx, rfl⟩))
    · obtain ⟨rfl, rfl⟩ := List.cons.inj e
      cases hi
    · refine .stack j hok (.inr (.inr ⟨(List.suffix_cons i cs).trans hsuf, ?_⟩))
      -- the last instruction is the return
      rintro rfl
      obtain ⟨c, hc⟩ := hsuf
      have := congrArg List.getLast? hc
      simp only [List.getLast?_append, List.getLast?_singleton, Option.some_or,
        Option.some.injEq] at this
      rw [this] at hi
      cases hi

/-- **One instruction of the call.** -/
theorem Creating.step {cs : Code N} (h : Creating s₀ s t ok prio (i :: cs)) (hon : OnStack s l t)
    (hx : exec l t ok i s = .ok (s₁, new)) :
    Creating s₀ s₁ t ok prio (new ++ cs) ∧ OnStack s₁ l t := by
  by_cases hi : i.quiet = true
  · obtain ⟨rfl, hk, hp, hl, hon'⟩ := exec_quiet hi hx
    exact ⟨(h.tail hi).frame hk hp hl, hon' hon⟩
  have hsame : NoTrace s s := ⟨fun _ => rfl, fun _ => rfl, rfl⟩
  -- the return of the call
  have hret : ∀ {e r}, i = ret (.create e r) → cs = [] → Created s₀ s ok e r →
      Creating s₀ s₁ t ok prio (new ++ cs) ∧ OnStack s₁ l t := by
    rintro e r rfl rfl hc
    obtain ⟨rfl, rfl⟩ := Prod.mk.inj (Except.ok.inj hx)
    refine ⟨.done e r (by simp) ?_, hon⟩
    cases hc with
    | full hk hf => exact .full ⟨hk.1, hk.2, hk.3⟩ hf
    | noMemory j hok ht => exact .noMemory j hok ⟨ht.1, ht.2⟩
    | done j hok => exact .done j hok
  cases h with
  | alloc hk hp =>
    obtain ⟨rfl, rfl⟩ := Prod.mk.inj (Except.ok.inj hx)
    rw [hp]
    exact ⟨.scan hk (.inl rfl), hon⟩
  | scan hk hc =>
    rcases hc with e | e | e <;> obtain ⟨rfl, rfl⟩ := List.cons.inj e <;> try exact absurd rfl hi
    have hst : (fun j => (s.uthreads j).utState) = fun j => (s₀.uthreads j).utState :=
      funext hk.states
    simp only [exec, execAllocScan, hst] at hx
    split at hx <;> obtain ⟨rfl, rfl⟩ := Prod.mk.inj (Except.ok.inj hx)
    · rename_i j hj
      exact ⟨.took j ⟨allocWhile_noState hj, by simp⟩ rfl (.inl rfl), hon⟩
    · rename_i hj
      exact ⟨.full hk ((allocWhile_none (allocFrom_le _)).1 hj) (.inl rfl), hon⟩
  | full hk hf hc =>
    rcases hc with e | e | e <;> obtain ⟨rfl, rfl⟩ := List.cons.inj e <;> try exact absurd rfl hi
    exact hret rfl rfl (.full hk hf)
  | took j ht hp hc =>
    rcases hc with e | e | e | e | e <;> obtain ⟨rfl, rfl⟩ := List.cons.inj e <;>
      try exact absurd rfl hi
    · simp only [exec, execAllocReturn, hp] at hx
      obtain ⟨rfl, rfl⟩ := Prod.mk.inj (Except.ok.inj hx)
      exact ⟨.took j ⟨ht.1, ht.2⟩ hp (.inr (.inr (.inr (.inl rfl)))), hon⟩
    · -- the outcome of `malloc`
      simp only [exec, execAllocStack] at hx
      split_ifs at hx with hok <;> obtain ⟨rfl, rfl⟩ := Prod.mk.inj (Except.ok.inj hx)
      · exact ⟨.stack j hok (.inl rfl), hon⟩
      · exact ⟨.noMemory j (by simpa using hok) ht (.inl rfl), hon⟩
  | noMemory j hok ht hc =>
    rcases hc with e | e <;> obtain ⟨rfl, rfl⟩ := List.cons.inj e
    · exact absurd rfl hi
    · exact hret rfl rfl (.noMemory j hok ht)
  | stack j hok hc =>
    rcases hc with e | ⟨w, e⟩ | ⟨hsuf, -⟩
    · obtain ⟨rfl, rfl⟩ := List.cons.inj e
      exact absurd rfl hi
    · obtain ⟨rfl, rfl⟩ := List.cons.inj e
      simp only [exec, execCreateInit] at hx
      split_ifs at hx
      obtain ⟨rfl, rfl⟩ := Prod.mk.inj (Except.ok.inj hx)
      refine ⟨.stack j hok (.inr ?_), by unfold OnStack; rw [createWrite_lwps]; exact hon⟩
      cases w with
      | count => exact .inr ⟨by simp [createRest], by simp [createRest, uthreadStartonrunq]⟩
      | _ => exact .inl ⟨_, rfl⟩
    · simp only [uthreadStartonrunq, List.cons_append, List.nil_append, List.suffix_cons_iff,
        List.suffix_nil, List.cons.injEq, reduceCtorEq, or_false] at hsuf
      rcases hsuf with ⟨rfl, rfl⟩ | ⟨rfl, rfl⟩ | ⟨rfl, rfl⟩ | ⟨rfl, rfl⟩ | ⟨rfl, rfl⟩ | ⟨rfl, rfl⟩ <;>
        try exact absurd rfl hi
      · obtain ⟨s₂, hb, hx⟩ := except_bind_ok.1 hx
        obtain ⟨rfl, rfl⟩ := Prod.mk.inj (except_pure_ok.1 hx)
        simp only [startBody] at hb
        split_ifs at hb
        have hl := (runqEnqueue_rest hb).lwps
        refine ⟨.stack j hok (.inr (.inr ⟨?_, by simp⟩)), ?_⟩
        · simp [uthreadStartonrunq, List.suffix_cons_iff]
        · unfold OnStack
          rw [hl]
          exact hon
      · exact hret rfl rfl (.done j hok)

/-! ## The whole call -/

theorem alone_creating (h : Alone l ok s s') (hon : OnStack s l t)
    (hc : Creating s₀ s t ok prio (s.uthreads t).utCtx) :
    OnStack s' l t ∧ Creating s₀ s' t ok prio (s'.uthreads t).utCtx := by
  refine h.invariant
    (P := fun s => OnStack s l t ∧ Creating s₀ s t ok prio (s.uthreads t).utCtx) ⟨hon, hc⟩ ?_
  rintro s s' b ⟨hon, hc⟩ rfl hn
  obtain ⟨i, cs, hcode, ⟨e, rfl⟩ | ⟨s₁, new, hx, rfl⟩⟩ := alone_step hon hn
  · exact ⟨hon, hc.frame ⟨fun _ => rfl, fun _ => rfl, rfl⟩ rfl rfl⟩
  · rw [hcode] at hc
    obtain ⟨hc', hon'⟩ := hc.step hon hx
    have hctx : ((s₁.setCtx t (new ++ cs)).uthreads t).utCtx = new ++ cs := by simp
    rw [hctx]
    exact ⟨hon', hc'.frame ⟨fun v => by simp, fun _ => rfl, rfl⟩ rfl rfl⟩

/-- **A create that fails leaves no trace**, if and only if the `malloc` of the stack succeeds or no
slot was free. The call runs from any table and any `PrevID`, and nobody else moves meanwhile. -/
theorem failed_create_iff (hon : OnStack s l t) (hcall : next s (l, .call (.create prio)) = some s₁)
    (hrun : Alone l ok s₁ s') (hret : (s'.uthreads t).utCtx = []) :
    ∃ e r, s'.log.getLast? = some (.returned t (.create e r)) ∧
      ((e ≠ .ok → r = none ∧ NoTrace s s') ↔
        ok = true ∨ ∀ v, (s.uthreads v).utState ≠ .noState) := by
  have hs₁ : s₁ = s.setCtx t [allocStart prio] := by
    have hcall := (next_step hcall).2
    unfold step at hcall
    simp only [hon.1, hon.2] at hcall
    split_ifs at hcall
    exact (Option.some.inj hcall).symm
  have hstart : Creating s s₁ t ok prio (s₁.uthreads t).utCtx := by
    rw [hs₁]
    have hctx : ((s.setCtx t [allocStart prio]).uthreads t).utCtx = [allocStart prio] := by simp
    rw [hctx]
    exact .alloc ⟨fun v => by simp, fun _ => rfl, rfl⟩ rfl
  obtain ⟨-, hend⟩ := alone_creating hrun (hs₁ ▸ hon) hstart
  rw [hret] at hend
  cases hend with
  | done e r hlog hc =>
    refine ⟨e, r, hlog, ?_⟩
    cases hc with
    | full hk hf => exact ⟨fun _ => .inr hf, fun _ _ => ⟨rfl, hk⟩⟩
    | noMemory i hok ht =>
      constructor
      · -- the slot is still reserved
        intro h
        have := (h (by decide)).2.states i
        rw [ht.taken, ht.free] at this
        cases this
      · rintro (h | h)
        · rw [hok] at h; cases h
        · exact absurd ht.free (h i)
    | done i hok => exact ⟨fun _ => .inl hok, fun _ h => absurd rfl h⟩
  | scan _ hc | full _ _ hc => rcases hc with e | e | e <;> cases e
  | took _ _ _ hc => rcases hc with e | e | e | e | e <;> cases e
  | noMemory _ _ _ hc => rcases hc with e | e <;> cases e
  | stack _ _ hc => rcases hc with e | ⟨_, e⟩ | ⟨-, e⟩ <;> first | cases e | exact absurd rfl e

/-- The first thread calls `uthread_create` while there is no memory: the only free slot stays in
`UT_TRANSITION`. -/
theorem create_noMemory : ∃ s s₁ s' : State 3 1, Reachable Runs.always (boot 1 0) s ∧
    OnStack s 0 0 ∧ next s (0, .call (.create 3)) = some s₁ ∧ Alone 0 false s₁ s' ∧
    (s'.uthreads 0).utCtx = [] ∧ s'.log.getLast? = some (.returned 0 (.create .eagain none)) ∧
    (s.uthreads 2).utState = .noState ∧ (s'.uthreads 2).utState = .transition := by
  obtain ⟨s, hs, hon, hfree, hrun⟩ : ∃ s : State 3 1, Reachable Runs.always (boot 1 0) s ∧
      OnStack s 0 0 ∧ (s.uthreads 2).utState = .noState ∧
      ((next s (0, .call (.create 3))).bind fun s₁ =>
        Runs.follow next (fun _ b => b = (0, .mallocs false)) s₁
          (List.replicate 11 (0, .mallocs false))).any (fun s' => decide
            ((s'.uthreads 0).utCtx = [] ∧
              s'.log.getLast? = some (.returned 0 (.create .eagain none)) ∧
              (s'.uthreads 2).utState = .transition)) = true :=
    Runs.exists_reach (turns 0 4) (by decide)
  obtain ⟨s', hs', hP⟩ := (Option.any_eq_true _ _).1 hrun
  obtain ⟨s₁, hcall, hfollow⟩ := Option.bind_eq_some_iff.1 hs'
  obtain ⟨hcode, hlog, hst⟩ := of_decide_eq_true hP
  exact ⟨s, s₁, s', hs, hon, hcall, Runs.follow_reach hfollow, hcode, hlog, hfree, hst⟩

theorem failed_create_iff_noMemory : ∃ s s' : State 3 1, Reachable Runs.always (boot 1 0) s ∧
    ¬ ∃ e r, s'.log.getLast? = some (.returned 0 (.create e r)) ∧
      (e ≠ .ok → r = none ∧ NoTrace s s') := by
  obtain ⟨s, s₁, s', hs, hon, hcall, hrun, hret, hlog, hfree, -⟩ := create_noMemory
  refine ⟨s, s', hs, ?_⟩
  obtain ⟨e, r, hlog', hiff⟩ := failed_create_iff hon hcall hrun hret
  rintro ⟨e', r', hlog'', h⟩
  rw [hlog', Option.some.injEq, Event.returned.injEq, Ret.create.injEq] at hlog''
  obtain ⟨-, rfl, rfl⟩ := hlog''
  exact absurd hfree ((hiff.1 h).resolve_left (by decide) 2)

/-- A slot is lost when there is no memory for the stack. -/
theorem failed_create_leaks : ¬ ∀ (N L : ℕ) (s s₁ s' : State (N + 2) (L + 1)) (l : Fin (L + 1))
    (t : Fin (N + 2)) (ok : Bool) (prio : ℤ), Reachable Runs.always (boot N L) s → OnStack s l t →
      next s (l, .call (.create prio)) = some s₁ → Alone l ok s₁ s' → (s'.uthreads t).utCtx = [] →
        ∀ e r, s'.log.getLast? = some (.returned t (.create e r)) → e ≠ .ok →
          r = none ∧ NoTrace s s' := by
  obtain ⟨s, s₁, s', hs, hon, hcall, hrun, hret, hlog, hfree, hst⟩ := create_noMemory
  intro h
  have := (h 1 0 s s₁ s' 0 0 false 3 hs hon hcall hrun hret _ _ hlog (by decide)).2.states 2
  rw [hst, hfree] at this
  cases this

end Uthreads
