import Uthreads.Proof.Turn

/-!
# The search for a free slot

`uthread_alloc` looks for a slot in `UT_NO_STATE` from the one after `PrevID` on, around the end of
the table. `allocWhile_some`, `allocWhile_none`: the two passes of its loop find the first free slot in
this cyclic order, or no slot when none is free. `alloc_search`: so does a call that runs alone, which
changes nothing else.
-/

namespace Uthreads

variable {N L : ℕ} {st : Fin N → UthreadState} {i : Fin N} {start n : ℕ}

/-! ## The loops -/

/-- The `for` loop finds the first free slot of its range. -/
theorem allocFor_some (h : allocFor st start n = some i) :
    start ≤ i ∧ (i : ℕ) < start + n ∧ st i = .noState ∧
      ∀ k : Fin N, start ≤ k → k < i → st k ≠ .noState := by
  induction n generalizing start with
  | zero => cases h
  | succ n ih =>
    unfold allocFor at h
    split_ifs at h with hlt hfree
    · obtain rfl := Option.some.inj h
      exact ⟨le_rfl, by simp, hfree, fun k hk hki => absurd hki (not_lt.2 hk)⟩
    · obtain ⟨hle, hn, hst, hk⟩ := ih h
      refine ⟨by omega, by omega, hst, fun k hsk hki => ?_⟩
      -- the slot at `start` itself was looked at first
      rcases Nat.eq_or_lt_of_le hsk with e | hlt'
      · rwa [show k = ⟨start, hlt⟩ from Fin.ext e.symm]
      · exact hk k hlt' hki

/-- The loop of `uthread_alloc` finds nothing in a part of the table without free slots. -/
theorem allocFor_none {st : Fin N → UthreadState} : ∀ {i n : ℕ}, allocFor st i n = none ↔
    ∀ j : Fin N, i ≤ j → (j : ℕ) < i + n → st j ≠ .noState
  | i, 0 => by
    simp only [allocFor, true_iff]
    intro j h₁ h₂
    omega
  | i, n + 1 => by
    unfold allocFor
    split_ifs with hi hst
    · simp only [false_iff]
      exact fun h => h ⟨i, hi⟩ (le_refl i) (by simp) hst
    · rw [allocFor_none]
      constructor
      · intro h j h₁ h₂
        -- the slot itself, or one behind it
        rcases Nat.eq_or_lt_of_le h₁ with e | hlt
        · have : j = ⟨i, hi⟩ := Fin.ext e.symm
          rw [this]
          exact hst
        · exact h j hlt (by omega)
      · exact fun h j h₁ h₂ => h j (by omega) (by omega)
    · simp only [true_iff]
      intro j h₁ h₂
      omega

/-- Two rounds of the `while (1)` are enough, whatever the table. -/
theorem allocRounds_eq {fuel : ℕ} (hf : 2 ≤ fuel) :
    allocRounds st fuel start N = some (allocWhile st start) := by
  obtain ⟨fuel, rfl⟩ : ∃ k, fuel = k + 2 := ⟨fuel - 2, by omega⟩
  unfold allocWhile allocRounds
  cases allocFor st start (N - start) with
  | some i => rfl
  | none =>
    by_cases hs : 0 < start
    · -- the second round starts at 0, so there is no third
      unfold allocRounds
      rw [Nat.sub_zero]
      cases allocFor st 0 start <;> simp [hs]
    · simp [hs]

/-! ## The cyclic order -/

/-- The slot at place `k` of the cyclic order that starts just after `PrevID`. -/
def cyclicSlot (prevId : Option (Fin N)) (k : ℕ) : ℕ :=
  ((match prevId with | none => 0 | some i => (i : ℕ) + 1) + k) % N

/-- The first free slot in this order. -/
def FirstFree (st : Fin N → UthreadState) (prevId : Option (Fin N)) (i : Fin N) : Prop :=
  st i = .noState ∧ ∃ k < N, cyclicSlot prevId k = i ∧
    ∀ j < k, ∀ i' : Fin N, cyclicSlot prevId j = i' → st i' ≠ .noState

theorem allocFrom_lt (prevId : Option (Fin N)) (hN : 0 < N) : allocFrom prevId < N := by
  unfold allocFrom
  split
  · exact hN
  · split_ifs <;> omega

theorem allocFrom_le (p : Option (Fin N)) : allocFrom p ≤ N := by
  unfold allocFrom
  split
  · exact Nat.zero_le N
  · split_ifs
    · exact Nat.zero_le N
    · omega

/-- `start` is place 0. -/
theorem cyclicSlot_eq (prevId : Option (Fin N)) (k : ℕ) :
    cyclicSlot prevId k = (allocFrom prevId + k) % N := by
  unfold cyclicSlot allocFrom
  cases prevId with
  | none => rfl
  | some i =>
    show ((i : ℕ) + 1 + k) % N = _
    simp only
    split_ifs with hi
    · -- the order starts again at the end of the table
      have hN : (i : ℕ) + 1 = N := by omega
      rw [hN, Nat.zero_add, Nat.add_mod_left]
    · rfl

/-- **The search is complete.** -/
theorem allocWhile_none {st : Fin N → UthreadState} {start : ℕ} (hs : start ≤ N) :
    allocWhile st start = none ↔ ∀ j, st j ≠ .noState := by
  have hsecond : allocFor st start (N - start) = none →
      (allocWhile st start = none ↔ ∀ j, st j ≠ .noState) := by
    intro hfirst
    have hrest := allocFor_none.1 hfirst
    unfold allocWhile
    simp only [hfirst]
    split_ifs with h0
    · rw [allocFor_none]
      refine ⟨fun h j => ?_, fun h j _ _ => h j⟩
      rcases Nat.lt_or_ge j start with hj | hj
      · exact h j (Nat.zero_le j) (by omega)
      · exact hrest j hj (by omega)
    · simp only [true_iff]
      exact fun j => hrest j (by omega) (by omega)
  cases hfirst : allocFor st start (N - start) with
  | none => exact hsecond hfirst
  | some i =>
    have hfree := allocFor_noState hfirst
    simp only [allocWhile, hfirst, reduceCtorEq, false_iff]
    exact fun h => h i hfree

/-- **The search is cyclic.** -/
theorem allocWhile_some {prevId : Option (Fin N)} (h : allocWhile st (allocFrom prevId) = some i) :
    FirstFree st prevId i := by
  have hN : 0 < N := Fin.pos i
  have hs := allocFrom_lt prevId hN
  simp only [FirstFree, cyclicSlot_eq]
  generalize allocFrom prevId = start at h hs
  unfold allocWhile at h
  split at h
  · -- in the first pass, from `start` to the end
    rename_i j hj
    obtain rfl := Option.some.inj h
    obtain ⟨hle, -, hst, hbefore⟩ := allocFor_some hj
    refine ⟨hst, j - start, by omega, ?_, fun k hk i' hi' => ?_⟩
    · rw [Nat.add_sub_cancel' hle, Nat.mod_eq_of_lt j.isLt]
    · rw [Nat.mod_eq_of_lt (by omega)] at hi'
      exact hbefore i' (by omega) (Fin.lt_def.2 (by omega))
  · -- in the second pass, from 0 to `start`
    rename_i hnone
    split_ifs at h with hpos
    obtain ⟨-, hlt, hst, hbefore⟩ := allocFor_some h
    refine ⟨hst, N - start + i, by omega, ?_, fun k hk i' hi' => ?_⟩
    · rw [show start + (N - start + i) = N + i by omega, Nat.add_mod_left, Nat.mod_eq_of_lt i.isLt]
    · by_cases hkN : start + k < N
      · rw [Nat.mod_eq_of_lt hkN] at hi'
        exact allocFor_none.1 hnone i' (by omega) (by omega)
      · rw [Nat.mod_eq_sub_mod (by omega), Nat.mod_eq_of_lt (by omega)] at hi'
        exact hbefore i' (Nat.zero_le _) (Fin.lt_def.2 (by omega))

/-! ## A call that runs alone -/

variable {l : Fin L} {t : Fin N} {s s₁ : State N L} {j : Instr N} {c cs new : Code N} {prio : ℤ}

open Instr

/-- Thread `t` is about to call `uthread_alloc` on LWP `l`, with `uthreads_mtx` free. -/
structure AllocReady (s : State N L) (l : Fin L) (t : Fin N) (prio : ℤ) (cs : Code N) : Prop where
  halt : s.halt = none
  on : OnStack s l t
  code : (s.uthreads t).utCtx = allocStart prio :: cs
  live : (s.pmtx .uthreadsMtx).status ≠ .destroyed
  free : (s.pmtx .uthreadsMtx).owner = none
  mask : (s.lwps l).masked = true ↔ (s.uthreads t).utNoPreemptCount ≠ 0
  /-- The counter is an `int`. -/
  fits : (s.uthreads t).utNoPreemptCount < intMax

/-- The state in the middle of the call: what it changes for a while. -/
def during (s : State N L) (l : Fin L) (t : Fin N) (c : Code N) (n : ℕ) (o : Option (Fin L)) :
    State N L :=
  ((s.modUthread t fun u => { u with utCtx := c, utNoPreemptCount := n }).setLwp l
    { s.lwps l with masked := decide (n ≠ 0) }).setPmtx .uthreadsMtx
      { s.pmtx .uthreadsMtx with owner := o }

/-- Slot `i` is in transition: what the scan writes for a call by `t`. -/
def taken (s : State N L) (t i : Fin N) : State N L :=
  { s.setState i .transition with
    prevId := some i
    incarnation := Function.update s.incarnation i (s.incarnation i + 1) }.emit (.alloc t i)

/-- A thread takes an instruction other than a lock. -/
theorem step_instr (hh : s.halt = none) (hon : OnStack s l t) (hcode : (s.uthreads t).utCtx = j :: cs)
    (hj : ∀ p, j ≠ lock p) (he : exec l t true j s = .ok (s₁, new)) :
    step s l .exec = some (s₁.setCtx t (new ++ cs)) := by
  unfold step
  simp only [hh, hon.1, hon.2, ne_eq, not_true_eq_false, if_false]
  unfold stepThread
  rw [hcode]
  cases j with
  | lock p => exact absurd rfl (hj p)
  | _ => simp [he, Except.map, settle]

/-- A thread locks a free mutex. -/
theorem step_lock {p : PmtxId N} (hh : s.halt = none) (hon : OnStack s l t)
    (hcode : (s.uthreads t).utCtx = lock p :: cs) (hlive : (s.pmtx p).status ≠ .destroyed)
    (hfree : (s.pmtx p).owner = none) :
    step s l .exec = some ((s.setPmtx p { s.pmtx p with owner := some l }).setCtx t cs) := by
  unfold step
  simp only [hh, hon.1, hon.2, ne_eq, not_true_eq_false, if_false]
  unfold stepThread
  simp [hcode, lockBlocked, pthreadMutexLock, hlive, hfree, Except.map, settle]

section During

variable {n : ℕ} {o : Option (Fin L)}

@[simp] theorem during_on : OnStack (during s l t c n o) l t ↔ OnStack s l t := by
  simp [OnStack, during]

@[simp] theorem during_halt : (during s l t c n o).halt = s.halt := rfl

@[simp] theorem during_code : ((during s l t c n o).uthreads t).utCtx = c := by simp [during]

@[simp] theorem during_count : ((during s l t c n o).uthreads t).utNoPreemptCount = n := by
  simp [during]

@[simp] theorem during_masked : ((during s l t c n o).lwps l).masked = decide (n ≠ 0) := by
  simp [during]

@[simp] theorem during_mutex : (during s l t c n o).pmtx .uthreadsMtx =
    { s.pmtx .uthreadsMtx with owner := o } := by simp [during]

@[simp] theorem during_state (u : Fin N) :
    ((during s l t c n o).uthreads u).utState = (s.uthreads u).utState := by
  by_cases hu : u = t
  · subst hu; simp [during]
  · simp [during, hu]

@[simp] theorem during_prevId : (during s l t c n o).prevId = s.prevId := rfl

theorem during_setCtx (c' : Code N) : (during s l t c n o).setCtx t c' = during s l t c' n o := by
  simp [during, State.setCtx, State.modUthread, State.setLwp, State.setPmtx]

/-- Before and after the call. -/
theorem during_eq (hn : n = (s.uthreads t).utNoPreemptCount)
    (hm : (s.lwps l).masked = true ↔ (s.uthreads t).utNoPreemptCount ≠ 0)
    (ho : (s.pmtx .uthreadsMtx).owner = o) : during s l t c n o = s.setCtx t c := by
  have hmask : decide (n ≠ 0) = (s.lwps l).masked := by
    rw [hn, Bool.eq_iff_iff, decide_eq_true_iff, hm]
  unfold during
  rw [hmask, ← ho, hn]
  simp [State.setCtx, State.setLwp, State.setPmtx, State.modUthread]

/-- The scan and the rest of the call write different fields. -/
theorem taken_during : taken (during s l t c n o) t i = during (taken s t i) l t c n o := by
  have hu : (taken (during s l t c n o) t i).uthreads = (during (taken s t i) l t c n o).uthreads := by
    funext u
    by_cases hui : u = i <;> by_cases hut : u = t
    · subst hui hut; simp [during, taken, State.setState, State.emit]
    · subst hui; simp [during, taken, State.setState, State.emit, hut]
    · subst hut; simp [during, taken, State.setState, State.emit, hui]
    · simp [during, taken, State.setState, State.emit, hui, hut]
  show { during (taken s t i) l t c n o with
    uthreads := (taken (during s l t c n o) t i).uthreads } = _
  rw [hu]

theorem exec_nopreemptOn (hfit : n < intMax) : exec l t true nopreemptOn (during s l t c n o) =
    .ok (during s l t c (n + 1) o, []) := by
  simp only [exec, execNopreemptOn, check, if_true, State.setLwp_uthreads, during_count, hfit,
    decide_true, bind, Except.bind, pure, Except.pure]
  simp [during, State.setLwp, State.modUthread, State.setPmtx]

theorem exec_nopreemptOff : exec l t true nopreemptOff (during s l t c (n + 1) o) =
    .ok (during s l t c n o, []) := by
  simp only [exec, execNopreemptOff, check, during_masked, during_count, bind, Except.bind, pure,
    Except.pure]
  by_cases hn : n = 0
  · subst hn
    simp [during, State.setLwp, State.modUthread, State.setPmtx]
  · simp [during, State.setLwp, State.modUthread, State.setPmtx, hn]

theorem exec_unlock (hlive : (s.pmtx .uthreadsMtx).status ≠ .destroyed) :
    exec l t true (unlock .uthreadsMtx) (during s l t c n (some l)) =
      .ok (during s l t c n none, []) := by
  simp only [exec, pthreadMutexUnlock, during_mutex, bind, Except.bind, pure, Except.pure]
  simp [during, State.setPmtx, hlive]

theorem exec_scan_none {start : ℕ} (h : allocWhile (fun i => (s.uthreads i).utState) start = none) :
    exec l t true (allocScan start prio) (during s l t c n o) =
      .ok (during s l t c n o, [unlock .uthreadsMtx, nopreemptOff, ret (.create .eagain none)]) := by
  simp [exec, execAllocScan, h]

theorem exec_scan_some {start : ℕ}
    (h : allocWhile (fun i => (s.uthreads i).utState) start = some i) :
    exec l t true (allocScan start prio) (during s l t c n o) =
      .ok (during (taken s t i) l t c n o,
        [unlock .uthreadsMtx, nopreemptOff, allocReturn i prio]) := by
  simp only [exec, execAllocScan, during_state, h]
  exact congrArg (fun x => Except.ok (x, _)) taken_during

end During

/-- One instruction in the middle of the call. -/
theorem during_step {s' : State N L} {n n' : ℕ} {o o' : Option (Fin L)} (hh : s.halt = none)
    (hon : OnStack s l t) (hj : ∀ p, j ≠ lock p)
    (he : exec l t true j (during s l t (j :: cs) n o) = .ok (during s' l t (j :: cs) n' o', new)) :
    step (during s l t (j :: cs) n o) l .exec = some (during s' l t (new ++ cs) n' o') := by
  rw [step_instr (s := during s l t (j :: cs) n o) hh (during_on.2 hon) during_code hj he,
    during_setCtx]

theorem run_turns (m n : ℕ) :
    run s (turns l (m + n)) = (run s (turns l m)).bind fun s' => run s' (turns l n) := by
  induction m generalizing s with
  | zero => simp [turns, run]
  | succ m ih =>
    rw [Nat.succ_add]
    show (step s l .exec).bind (fun s' => run s' (turns l (m + n))) = _
    simp only [ih]
    show _ = ((step s l .exec).bind fun s' => run s' (turns l m)).bind _
    rw [Option.bind_assoc]

theorem run_turn : run s (turns l 1) = step s l .exec := by
  simp [turns, run]

/-- The beginning of the call, up to the scan with `uthreads_mtx` held. -/
theorem alloc_begin (h : AllocReady s l t prio cs) :
    run s (turns l 3) = some (during s l t (allocScan (allocFrom s.prevId) prio :: cs)
      ((s.uthreads t).utNoPreemptCount + 1) (some l)) := by
  set n := (s.uthreads t).utNoPreemptCount
  have hs : s = during s l t (allocStart prio :: cs) n none := by
    rw [during_eq rfl h.mask h.free, ← h.code]
    simp [State.setCtx, State.modUthread]
  have h₁ : step s l .exec = some (during s l t ([nopreemptOn, lock .uthreadsMtx,
      allocScan (allocFrom s.prevId) prio] ++ cs) n none) := by
    conv_lhs => rw [hs]
    exact during_step h.halt h.on (by simp) rfl
  have h₂ : step (during s l t (nopreemptOn :: lock .uthreadsMtx ::
      allocScan (allocFrom s.prevId) prio :: cs) n none) l .exec =
        some (during s l t (lock .uthreadsMtx :: allocScan (allocFrom s.prevId) prio :: cs)
          (n + 1) none) :=
    during_step h.halt h.on (by simp) (exec_nopreemptOn h.fits)
  have h₃ : step (during s l t (lock .uthreadsMtx :: allocScan (allocFrom s.prevId) prio :: cs)
      (n + 1) none) l .exec =
        some (during s l t (allocScan (allocFrom s.prevId) prio :: cs) (n + 1) (some l)) := by
    rw [step_lock (s := during s l t _ (n + 1) none) h.halt (during_on.2 h.on) during_code
      (by simpa using h.live) (by simp)]
    simp [during, State.setCtx, State.modUthread, State.setPmtx, State.setLwp]
  rw [run_turns 1 2, run_turn, h₁, Option.bind_some, run_turns 1 1, run_turn]
  refine (congrArg (Option.bind · _) h₂).trans ?_
  rw [Option.bind_some, run_turn]
  exact h₃

/-- The end of the call, from the unlock on. -/
theorem alloc_end {n : ℕ} (hh : s.halt = none) (hon : OnStack s l t)
    (hlive : (s.pmtx .uthreadsMtx).status ≠ .destroyed) :
    run (during s l t (unlock .uthreadsMtx :: nopreemptOff :: cs) (n + 1) (some l)) (turns l 2) =
      some (during s l t cs n none) := by
  rw [run_turns 1 1, run_turn, during_step hh hon (by simp) (exec_unlock hlive), Option.bind_some,
    run_turn]
  exact during_step hh hon (by simp) exec_nopreemptOff

/-- **The search for a free slot.** Two rounds of the loop suffice; a call that runs alone returns -1
if and only if no slot is free, and then changes nothing; otherwise it returns the first free slot
after `PrevID` in the cyclic order, and has changed that slot and `PrevID`. -/
theorem alloc_search {s : State N L} (h : AllocReady s l t prio cs) : ∃ r : Option (Fin N),
    (∀ fuel, 2 ≤ fuel →
      allocRounds (fun i => (s.uthreads i).utState) fuel (allocFrom s.prevId) N = some r) ∧
    (r = none ↔ ∀ i, (s.uthreads i).utState ≠ .noState) ∧
    match r with
    | none => run s (turns l 6) = some (s.setCtx t (ret (.create .eagain none) :: cs))
    | some i => FirstFree (fun i => (s.uthreads i).utState) s.prevId i ∧
        run s (turns l 7) = some (((taken s t i).emit (.allocReturned t i (some i))).setCtx t
          (nopreemptOn :: allocStack i prio :: cs)) := by
  set start := allocFrom s.prevId with hstart
  have hscan := alloc_begin h
  refine ⟨allocWhile (fun i => (s.uthreads i).utState) start, fun fuel hf => allocRounds_eq hf, ?_, ?_⟩
  · exact allocWhile_none (allocFrom_le _)
  · split
    · rename_i hr
      rw [run_turns 3 3, hscan, Option.bind_some, run_turns 1 2, run_turn,
        during_step h.halt h.on (by simp) (exec_scan_none hr), Option.bind_some]
      refine (alloc_end h.halt h.on h.live).trans ?_
      rw [during_eq rfl h.mask h.free]
      rfl
    · rename_i i hr
      refine ⟨allocWhile_some hr, ?_⟩
      rw [run_turns 3 4, hscan, Option.bind_some, run_turns 1 3, run_turn,
        during_step h.halt h.on (by simp) (exec_scan_some hr), Option.bind_some, run_turns 2 1]
      have hon : OnStack (taken s t i) l t := h.on
      have hend : run (during (taken s t i) l t (unlock .uthreadsMtx :: nopreemptOff ::
          allocReturn i prio :: cs) ((s.uthreads t).utNoPreemptCount + 1) (some l)) (turns l 2) =
            some (during (taken s t i) l t (allocReturn i prio :: cs)
              (s.uthreads t).utNoPreemptCount none) :=
        alloc_end h.halt hon h.live
      refine (congrArg (Option.bind · _) hend).trans ?_
      rw [Option.bind_some, run_turn]
      have hcount : (s.uthreads t).utNoPreemptCount =
          ((taken s t i).uthreads t).utNoPreemptCount := by
        by_cases hti : t = i
        · subst hti; simp [taken, State.setState, State.emit]
        · simp [taken, State.setState, State.emit, hti]
      rw [during_eq hcount (hcount ▸ h.mask) h.free]
      -- `return (PrevID)`
      have he : exec l t true (allocReturn i prio) ((taken s t i).setCtx t (allocReturn i prio :: cs)) =
          .ok (((taken s t i).setCtx t (allocReturn i prio :: cs)).emit
            (.allocReturned t i (some i)), [nopreemptOn, allocStack i prio]) := rfl
      have hcode : (((taken s t i).setCtx t (allocReturn i prio :: cs)).uthreads t).utCtx =
          allocReturn i prio :: cs := by simp
      rw [step_instr (s := (taken s t i).setCtx t (allocReturn i prio :: cs)) h.halt hon hcode
        (by simp) he]
      simp [State.setCtx, State.modUthread, State.emit]

/-- The first thread calls `uthread_create` when slot 2 is the only free one. -/
theorem alloc_search_last : ∃ s : State 3 1, Reachable Runs.always (boot 1 0) s ∧
    ∃ i, FirstFree (fun i => (s.uthreads i).utState) s.prevId i ∧
      run s (turns 0 7) = some (((taken s 0 i).emit (.allocReturned 0 i (some i))).setCtx 0
        [nopreemptOn, allocStack i 3]) := by
  obtain ⟨s, hs, hh, hon, hcode, hlive, hfree, hmask, hfits, h2⟩ : ∃ s : State 3 1,
      Reachable Runs.always (boot 1 0) s ∧ s.halt = none ∧ OnStack s 0 0 ∧
      (s.uthreads 0).utCtx = [allocStart 3] ∧ (s.pmtx .uthreadsMtx).status ≠ .destroyed ∧
      (s.pmtx .uthreadsMtx).owner = none ∧
      ((s.lwps 0).masked = true ↔ (s.uthreads 0).utNoPreemptCount ≠ 0) ∧
      (s.uthreads 0).utNoPreemptCount < intMax ∧ (s.uthreads 2).utState = .noState :=
    Runs.exists_reach (turns 0 4 ++ [(0, .call (.create 3))]) (by decide +kernel)
  obtain ⟨r, -, hnone, hr⟩ := alloc_search ⟨hh, hon, hcode, hlive, hfree, hmask, hfits⟩
  cases r with
  | none => exact absurd h2 (hnone.1 rfl 2)
  | some i => exact ⟨s, hs, i, hr⟩

end Uthreads
