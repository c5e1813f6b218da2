import Uthreads.Lib.System
import Uthreads.Proof.Fault
import Uthreads.Proof.Hist

/-!
# What one step can do

`Move s l a s'` lists the steps of the whole library: an instruction of the running uthread, a
call or an interrupt, a step of `lwp_switch` or `lwp_park`, or the end of the process.
`step_move` says that the list is complete.
-/

namespace Uthreads

variable {N L : ℕ}

/-- One step as a system for `Runs.Reach`. -/
def anyStep (s : State N L) (b : Fin L × Act) : Option (State N L) := step s b.1 b.2

/-- One step of a run in which every `uthread_create` sets up a slot that is not in use. A run of
`anyStep` is followed until a call that was told the slot of another begins to write to it. -/
def next (s : State N L) (b : Fin L × Act) : Option (State N L) :=
  if intrudes s b then none else anyStep s b

/-- The states that the runs of the library reach from `s₀` by steps that `ok` admits. -/
abbrev Reachable (ok : State N L → Fin L × Act → Prop) (s₀ : State N L) : State N L → Prop :=
  Runs.Reach next ok s₀

/-- How a step can end the process. -/
inductive Stop (s : State N L) (l : Fin L) : Act → Halt → Prop
  | thread {a : Act} (t : Fin N) (i : Instr N) (cs : Code N) {h : Halt} (hon : OnStack s l t)
    (hcode : (s.uthreads t).utCtx = i :: cs) (hf : Fault l t s i h)
    (hb : ∀ p, i = .lock p → lockBlocked s l p = false) : Stop s l a h
  | interrupt (t : Fin N) (hon : OnStack s l t) (hm : (s.lwps l).masked = false)
    (h : (s.uthreads t).utState ≠ .onCpu ∨ (s.uthreads t).utNoPreemptCount ≠ 0) :
    Stop s l .preempt (.assertion .clockInterrupt)
  | acquire {a : Act} {h : Halt} (hm : (s.lwps l).mode = .start ∨ (s.lwps l).mode = .parked)
    (hb : lockBlocked s l .runqMtx = false)
    (hl : (s.pmtx .runqMtx).status = .destroyed ∧ h = .wrapper .einval ∨
      (s.pmtx .runqMtx).owner ≠ none ∧ h = .wrapper .edeadlk) : Stop s l a h
  | release {a : Act} {h : Halt} (p : PmtxId N) (hm : (s.lwps l).mode = .unlocking p ∨
      p = .runqMtx ∧ ((s.lwps l).mode = .dispatching ∨ (s.lwps l).mode = .parking))
    (hl : (s.pmtx p).status = .destroyed ∧ h = .wrapper .einval ∨
      (s.pmtx p).errorcheck = true ∧ (s.pmtx p).owner ≠ some l ∧ h = .wrapper .eperm) :
    Stop s l a h
  | allParked {a : Act} (hm : (s.lwps l).mode = .searching) (hd : dispatchBody s = none)
    (hc : s.lwpParkedCnt + 1 = s.lwpCnt) : Stop s l a (.panic .allParked)

/-- How `lwp_start`, `lwp_switch` and `lwp_park` change their counters between two modes. -/
inductive Parks (s s' : State N L) : LwpMode N → LwpMode N → Prop
  | start (h : s'.lwpCnt = s.lwpCnt + 1) (hp : s'.lwpParkedCnt = s.lwpParkedCnt)
    (hw : s'.parkWaiters = s.parkWaiters) (hs : s'.parkSignals = s.parkSignals) :
    Parks s s' .start .searching
  | signalled (h : s'.lwpCnt = s.lwpCnt) (hp : s'.lwpParkedCnt = s.lwpParkedCnt)
    (hw : s'.parkWaiters = s.parkWaiters) (hs : s'.parkSignals + 1 = s.parkSignals) :
    Parks s s' .parked .parking
  | spurious (h : s'.lwpCnt = s.lwpCnt) (hp : s'.lwpParkedCnt = s.lwpParkedCnt)
    (hw : s'.parkWaiters + 1 = s.parkWaiters) (hs : s'.parkSignals = s.parkSignals) :
    Parks s s' .parked .parking
  | park (h : s'.lwpCnt = s.lwpCnt) (hp : s'.lwpParkedCnt = s.lwpParkedCnt + 1)
    (hw : s'.parkWaiters = s.parkWaiters) (hs : s'.parkSignals = s.parkSignals)
    (hd : dispatchBody s = none) (hc : s.lwpParkedCnt + 1 ≠ s.lwpCnt) :
    Parks s s' .searching .parking
  | unpark (h : s'.lwpCnt = s.lwpCnt) (hp : s'.lwpParkedCnt = s.lwpParkedCnt - 1)
    (hw : s'.parkWaiters = s.parkWaiters) (hs : s'.parkSignals = s.parkSignals)
    (hr : s.runqSize ≠ 0) : Parks s s' .parking .searching
  | sleep (h : s'.lwpCnt = s.lwpCnt) (hp : s'.lwpParkedCnt = s.lwpParkedCnt)
    (hw : s'.parkWaiters = s.parkWaiters + 1) (hs : s'.parkSignals = s.parkSignals)
    (hr : s.runqSize = 0) : Parks s s' .parking .parked
  | resume (h : s'.lwpCnt = s.lwpCnt) (hp : s'.lwpParkedCnt = s.lwpParkedCnt)
    (hw : s'.parkWaiters = s.parkWaiters) (hs : s'.parkSignals = s.parkSignals) :
    Parks s s' .dispatching .running

/-- What a step can do. -/
inductive Move (s : State N L) (l : Fin L) : Act → State N L → Prop
  | halted {a : Act} (h : Halt) (hs : Stop s l a h) : Move s l a { s with halt := some h }
  | thread {a : Act} (t : Fin N) (i : Instr N) (cs new : Code N) {s₁ : State N L}
    (hon : OnStack s l t) (hcode : (s.uthreads t).utCtx = i :: cs) (heff : Effect l t s i s₁ new)
    (hhist : Hist t s i s₁) :
    Move s l a (s₁.setCtx t (new ++ cs))
  | call (t : Fin N) (c : Call) (hon : OnStack s l t) (hcode : (s.uthreads t).utCtx = []) :
    Move s l (.call c) (s.setCtx t (c.code s.incarnation t))
  | preempt (t : Fin N) (hon : OnStack s l t) (hm : (s.lwps l).masked = false)
    (hst : (s.uthreads t).utState = .onCpu) (hc : (s.uthreads t).utNoPreemptCount = 0) :
    Move s l .preempt ((s.setLwp l { s.lwps l with masked := true }).modUthread t fun u => { u with
      utNoPreemptCount := 1, utCtx := clockInterrupt ++ u.utCtx })
  | acquire {a : Act} (m : LwpMode N) {s' : State N L}
    (hm : (s.lwps l).mode = .start ∧ m = .searching ∨ (s.lwps l).mode = .parked ∧ m = .parking)
    (hst : (s.pmtx .runqMtx).status ≠ .destroyed) (ho : (s.pmtx .runqMtx).owner = none)
    (hs : SameTable ((s.setPmtx .runqMtx { s.pmtx .runqMtx with owner := some l }).setMode l m) s')
    (hh : SameHist s s') (hp : Parks s s' (s.lwps l).mode m) (ht : s'.halt = s.halt) : Move s l a s'
  | unlock {a : Act} (p : PmtxId N) (hm : (s.lwps l).mode = .unlocking p)
    (ho : (s.pmtx p).errorcheck = true → (s.pmtx p).owner = some l) :
    Move s l a ((s.setPmtx p { s.pmtx p with owner := none }).setLwp l ⟨.searching, none, true⟩)
  | dispatch {a : Act} (t : Fin N) {s₁ : State N L} (hm : (s.lwps l).mode = .searching)
    (hd : dispatchBody s = some (t, s₁)) : Move s l a (s₁.setLwp l ⟨.dispatching, some t, true⟩)
  | idle {a : Act} (m : LwpMode N) {s' : State N L}
    (hm : (s.lwps l).mode = .searching ∧ m = .parking ∨ (s.lwps l).mode = .parking ∧ m = .searching)
    (hs : SameTable (s.setMode l m) s') (hh : SameHist s s') (hp : Parks s s' (s.lwps l).mode m)
    (ht : s'.halt = s.halt) : Move s l a s'
  | leave {a : Act} (m : LwpMode N) {s' : State N L}
    (hm : (s.lwps l).mode = .dispatching ∧ m = .running ∨
      (s.lwps l).mode = .parking ∧ m = .parked)
    (ho : (s.pmtx .runqMtx).errorcheck = true → (s.pmtx .runqMtx).owner = some l)
    (hs : SameTable ((s.setPmtx .runqMtx { s.pmtx .runqMtx with owner := none }).setMode l m) s')
    (hh : SameHist s s') (hp : Parks s s' (s.lwps l).mode m) (ht : s'.halt = s.halt) : Move s l a s'

variable {s s' s₁ : State N L} {l : Fin L} {t : Fin N} {p : PmtxId N} {a : Act}

theorem pthreadMutexLock_ok (h : pthreadMutexLock l p s = .ok s') :
    (s.pmtx p).status ≠ .destroyed ∧ (s.pmtx p).owner = none ∧
      s' = s.setPmtx p { s.pmtx p with owner := some l } := by
  unfold pthreadMutexLock at h
  split_ifs at h with hst ho
  exact ⟨hst, ho, (Except.ok.inj h).symm⟩

theorem pthreadMutexUnlock_ok (h : pthreadMutexUnlock l p s = .ok s') :
    (s.pmtx p).status ≠ .destroyed ∧
      ((s.pmtx p).errorcheck = true → (s.pmtx p).owner = some l) ∧
      s' = s.setPmtx p { s.pmtx p with owner := none } := by
  unfold pthreadMutexUnlock at h
  split_ifs at h with hst ho
  exact ⟨hst, fun he => by_contra fun hne => ho ⟨he, hne⟩, (Except.ok.inj h).symm⟩

theorem pthreadMutexLock_error {h : Halt} (he : pthreadMutexLock l p s = .error h) :
    (s.pmtx p).status = .destroyed ∧ h = .wrapper .einval ∨
      (s.pmtx p).owner ≠ none ∧ h = .wrapper .edeadlk := by
  unfold pthreadMutexLock at he
  split_ifs at he with hst ho
  · exact .inl ⟨hst, (Except.error.inj he).symm⟩
  · exact .inr ⟨ho, (Except.error.inj he).symm⟩

theorem pthreadMutexUnlock_error {h : Halt} (he : pthreadMutexUnlock l p s = .error h) :
    (s.pmtx p).status = .destroyed ∧ h = .wrapper .einval ∨
      (s.pmtx p).errorcheck = true ∧ (s.pmtx p).owner ≠ some l ∧ h = .wrapper .eperm := by
  unfold pthreadMutexUnlock at he
  split_ifs at he with hst ho
  · exact .inl ⟨hst, (Except.error.inj he).symm⟩
  · exact .inr ⟨ho.1, ho.2, (Except.error.inj he).symm⟩

/-- A result is a state to go on with, or the end. -/
theorem settle_cases (s : State N L) (x : Except Halt (State N L)) :
    (∃ s', x = .ok s' ∧ settle s x = s') ∨ ∃ h, x = .error h ∧ settle s x = { s with halt := some h } := by
  cases x with
  | ok s' => exact .inl ⟨s', rfl, rfl⟩
  | error h => exact .inr ⟨h, rfl, rfl⟩

theorem except_map_eq_ok {ε α β : Type} {x : Except ε α} {f : α → β} {b : β} :
    x.map f = .ok b ↔ ∃ a, x = .ok a ∧ f a = b := by
  cases x <;> simp [Except.map]

theorem except_map_eq_error {ε α β : Type} {x : Except ε α} {f : α → β} {e : ε} :
    x.map f = .error e ↔ x = .error e := by
  cases x <;> simp [Except.map]

/-- What a thread's next instruction does. -/
theorem stepThread_move {ok : Bool} (hwf : Wf t (s.uthreads t).utCtx) (hon : OnStack s l t)
    (hv : ∀ u prio cs, (s.uthreads t).utCtx = .createInit .ctx u prio :: cs → Vacant s u)
    (h : stepThread s l t ok = some s') : Move s l a s' := by
  unfold stepThread at h
  split at h
  · cases h
  · rename_i p rest hcode
    split_ifs at h with hb
    rcases settle_cases s ((pthreadMutexLock l p s).map fun s' => s'.setCtx t rest) with
      ⟨s₂, hok, he⟩ | ⟨e, herr, he⟩
    · obtain ⟨s₁, hlock, rfl⟩ := except_map_eq_ok.1 hok
      obtain ⟨hst, ho, rfl⟩ := pthreadMutexLock_ok hlock
      rw [← Option.some.inj h, he]
      exact .thread t (.lock p) rest [] hon hcode (.lock p hst ho)
        (SameHist.hist (by constructor <;> rfl) rfl rfl (fun _ => rfl) fun _ => rfl)
    · rw [← Option.some.inj h, he]
      refine .halted e (.thread t (.lock p) rest hon hcode ?_ ?_)
      · rcases pthreadMutexLock_error (except_map_eq_error.1 herr) with ⟨hd, rfl⟩ | ⟨ho, rfl⟩
        · exact .lockDestroyed p hd
        · exact .lockHeld p ho
      · rintro q hq
        obtain rfl : p = q := by simpa using hq
        simpa using hb
  · rename_i i rest hne hcode
    rcases settle_cases s ((exec l t ok i s).map fun r => r.1.setCtx t (r.2 ++ rest)) with
      ⟨s₂, hok, he⟩ | ⟨e, herr, he⟩
    · obtain ⟨⟨s₁, new⟩, hexec, rfl⟩ := except_map_eq_ok.1 hok
      rw [← Option.some.inj h, he]
      rw [hcode] at hwf
      exact .thread t i rest new hon hcode
        (exec_effect hwf.1 (fun u prio e => hv u prio rest (by rw [hcode, e])) hexec)
        (exec_hist hwf.1 hexec)
    · rw [← Option.some.inj h, he]
      rw [hcode] at hwf
      refine .halted e (.thread t i rest hon hcode (exec_fault hwf.1 (except_map_eq_error.1 herr)) ?_)
      rintro p rfl
      exact (hne p rfl).elim

/-- What the LWP's own code does. -/
theorem stepLwp_move (h : stepLwp s l = some s') : Move s l a s' := by
  unfold stepLwp at h
  split at h
  · rename_i hm
    split_ifs at h with hb
    rcases settle_cases s (stepStart s l) with ⟨s₂, hok, he⟩ | ⟨e, herr, he⟩
    · obtain ⟨s₁, hlock, hpure⟩ := except_bind_ok.1 hok
      obtain ⟨hst, ho, rfl⟩ := pthreadMutexLock_ok hlock
      rw [← Option.some.inj h, he, ← except_pure_ok.1 hpure]
      exact .acquire .searching (.inl ⟨hm, rfl⟩) hst ho (by constructor <;> rfl)
        (by constructor <;> rfl) (by rw [hm]; exact .start rfl rfl rfl rfl) rfl
    · rw [← Option.some.inj h, he]
      refine .halted e (.acquire (.inl hm) (by simpa using hb) ?_)
      rcases except_bind_error.1 herr with herr | ⟨s₁, -, herr⟩
      · exact pthreadMutexLock_error herr
      · exact absurd herr except_pure_error
  · cases h
  · rename_i p hm
    rcases settle_cases s ((pthreadMutexUnlock l p s).map
      fun s' => s'.setLwp l ⟨.searching, none, true⟩) with ⟨s₂, hok, he⟩ | ⟨e, herr, he⟩
    · obtain ⟨s₁, hunlock, rfl⟩ := except_map_eq_ok.1 hok
      obtain ⟨-, ho, rfl⟩ := pthreadMutexUnlock_ok hunlock
      rw [← Option.some.inj h, he]
      exact .unlock p hm ho
    · rw [← Option.some.inj h, he]
      exact .halted e (.release p (.inl hm) (pthreadMutexUnlock_error (except_map_eq_error.1 herr)))
  · rename_i hm
    rcases settle_cases s (stepSearch s l) with ⟨s₂, hok, he⟩ | ⟨e, herr, he⟩
    · rw [← Option.some.inj h, he]
      unfold stepSearch at hok
      split at hok
      · rename_i t s₁ hd
        rw [← Except.ok.inj hok]
        exact .dispatch t hm hd
      · rename_i hd
        simp only at hok
        split_ifs at hok with hc
        rw [← Except.ok.inj hok]
        exact .idle .parking (.inl ⟨hm, rfl⟩) (by constructor <;> rfl) (by constructor <;> rfl)
          (by rw [hm]; exact .park rfl rfl rfl rfl hd hc) rfl
    · rw [← Option.some.inj h, he]
      unfold stepSearch at herr
      split at herr
      · cases herr
      · rename_i hd
        simp only at herr
        split_ifs at herr with hc
        rw [← Except.error.inj herr]
        exact .halted _ (.allParked hm hd hc)
  · rename_i hm
    rcases settle_cases s ((pthreadMutexUnlock l .runqMtx s).map
      fun s' => s'.setMode l .running) with ⟨s₂, hok, he⟩ | ⟨e, herr, he⟩
    · obtain ⟨s₁, hunlock, rfl⟩ := except_map_eq_ok.1 hok
      obtain ⟨-, ho, rfl⟩ := pthreadMutexUnlock_ok hunlock
      rw [← Option.some.inj h, he]
      exact .leave .running (.inl ⟨hm, rfl⟩) ho (by constructor <;> rfl) (by constructor <;> rfl)
        (by rw [hm]; exact .resume rfl rfl rfl rfl) rfl
    · rw [← Option.some.inj h, he]
      exact .halted e (.release .runqMtx (.inr ⟨rfl, .inl hm⟩)
        (pthreadMutexUnlock_error (except_map_eq_error.1 herr)))
  · rename_i hm
    rcases settle_cases s (stepPark s l) with ⟨s₂, hok, he⟩ | ⟨e, herr, he⟩
    · rw [← Option.some.inj h, he]
      unfold stepPark at hok
      split at hok
      · rename_i hr
        obtain ⟨s₁, hunlock, hpure⟩ := except_bind_ok.1 hok
        obtain ⟨-, ho, rfl⟩ := pthreadMutexUnlock_ok hunlock
        rw [← except_pure_ok.1 hpure]
        exact .leave .parked (.inr ⟨hm, rfl⟩) ho (by constructor <;> rfl) (by constructor <;> rfl)
          (by rw [hm]; exact .sleep rfl rfl rfl rfl hr) rfl
      · rename_i hr
        rw [← Except.ok.inj hok]
        exact .idle .searching (.inr ⟨hm, rfl⟩) (by constructor <;> rfl) (by constructor <;> rfl)
          (by rw [hm]; exact .unpark rfl rfl rfl rfl hr) rfl
    · rw [← Option.some.inj h, he]
      unfold stepPark at herr
      split at herr
      · rcases except_bind_error.1 herr with herr | ⟨s₁, -, herr⟩
        · exact .halted e (.release .runqMtx (.inr ⟨rfl, .inr hm⟩) (pthreadMutexUnlock_error herr))
        · exact absurd herr except_pure_error
      · cases herr
  · rename_i hm
    split_ifs at h with hc
    simp only [not_or] at hc
    rcases settle_cases s ((pthreadMutexLock l .runqMtx s).map fun s' =>
      { s' with parkSignals := s'.parkSignals - 1 }.setMode l .parking) with
      ⟨s₂, hok, he⟩ | ⟨e, herr, he⟩
    · obtain ⟨s₁, hlock, rfl⟩ := except_map_eq_ok.1 hok
      obtain ⟨hst, ho, rfl⟩ := pthreadMutexLock_ok hlock
      rw [← Option.some.inj h, he]
      have hs : s.parkSignals - 1 + 1 = s.parkSignals := Nat.sub_add_cancel (Nat.pos_of_ne_zero hc.2)
      exact .acquire .parking (.inr ⟨hm, rfl⟩) hst ho (by constructor <;> rfl)
        (by constructor <;> rfl) (by rw [hm]; exact .signalled rfl rfl rfl hs) rfl
    · rw [← Option.some.inj h, he]
      exact .halted e (.acquire (.inr hm) (by simpa using hc.1)
        (pthreadMutexLock_error (except_map_eq_error.1 herr)))

theorem stepSpurious_move (h : stepSpurious s l = some s') : Move s l a s' := by
  unfold stepSpurious at h
  split_ifs at h with hc
  simp only [not_or, not_not] at hc
  obtain ⟨hm, hb, hw⟩ := hc
  rcases settle_cases s ((pthreadMutexLock l .runqMtx s).map fun s' =>
    { s' with parkWaiters := s'.parkWaiters - 1 }.setMode l .parking) with
    ⟨s₂, hok, he⟩ | ⟨e, herr, he⟩
  · obtain ⟨s₁, hlock, rfl⟩ := except_map_eq_ok.1 hok
    obtain ⟨hst, ho, rfl⟩ := pthreadMutexLock_ok hlock
    rw [← Option.some.inj h, he]
    have hw' : s.parkWaiters - 1 + 1 = s.parkWaiters := Nat.sub_add_cancel (Nat.pos_of_ne_zero hw)
    exact .acquire .parking (.inr ⟨hm, rfl⟩) hst ho (by constructor <;> rfl)
      (by constructor <;> rfl) (by rw [hm]; exact .spurious rfl rfl hw' rfl) rfl
  · rw [← Option.some.inj h, he]
    exact .halted e (.acquire (.inr hm) (by simpa using hb)
      (pthreadMutexLock_error (except_map_eq_error.1 herr)))

/-- A step that is followed. -/
theorem next_step {b : Fin L × Act} (h : next s b = some s') :
    intrudes s b = false ∧ step s b.1 b.2 = some s' := by
  unfold next at h
  split_ifs at h with hb
  exact ⟨by simpa using hb, h⟩

/-- A step is followed if no `uthread_create` begins to set up a slot that is in use. -/
theorem next_of_vacant {b : Fin L × Act}
    (h : ∀ t u prio cs, OnStack s b.1 t → (s.uthreads t).utCtx = .createInit .ctx u prio :: cs →
      Vacant s u) : anyStep s b = next s b := by
  obtain ⟨l, a⟩ := b
  have hi : intrudes s (l, a) = false := by
    unfold intrudes
    split <;> try rfl
    all_goals
      rename_i t _ hmode hcur
      split
      · rename_i u prio cs hcode
        simp [h t u prio cs ⟨hmode, hcur⟩ hcode]
      · rfl
  simp [next, hi]

/-- A step that spares the slots in use is followed. -/
theorem next_of_spares {b : Fin L × Act} (h : sparesSlots s b) : anyStep s b = next s b := by
  refine next_of_vacant fun t u prio cs hon hcode => ?_
  have ht := h t hon
  rw [hcode] at ht
  simpa [Instr.spares] using ht

/-- A run that spares the slots in use is followed to its end. -/
theorem reach_spares {ok : State N L → Fin L × Act → Prop} {s₀ : State N L}
    (h : Runs.Reach anyStep (fun s b => ok s b ∧ sparesSlots s b) s₀ s) :
    Reachable (fun s b => ok s b ∧ sparesSlots s b) s₀ s :=
  h.congr_step fun _ _ hb => next_of_spares hb.2

theorem vacant_of_next (hi : intrudes s (l, a) = false) (ha : a = .exec ∨ a = .mallocFail)
    (hon : OnStack s l t) (u : Fin N) (prio : ℤ) (cs : Code N)
    (hcode : (s.uthreads t).utCtx = .createInit .ctx u prio :: cs) : Vacant s u := by
  rcases ha with rfl | rfl <;> simpa [intrudes, hon.1, hon.2, hcode] using hi

/-- **The list of moves is complete.** -/
theorem step_move (hwf : ∀ t, Wf t (s.uthreads t).utCtx) (hn : next s (l, a) = some s') :
    Move s l a s' := by
  obtain ⟨hi, h⟩ := next_step hn
  change step s l a = some s' at h
  unfold step at h
  split at h
  · cases h
  split at h
  · rename_i t hmode hcur
    exact stepThread_move (hwf t) ⟨hmode, hcur⟩ (vacant_of_next hi (.inl rfl) ⟨hmode, hcur⟩) h
  · rename_i t hmode hcur
    exact stepThread_move (hwf t) ⟨hmode, hcur⟩ (vacant_of_next hi (.inr rfl) ⟨hmode, hcur⟩) h
  · rename_i c t hmode hcur
    split_ifs at h with hcode
    rw [← Option.some.inj h]
    exact .call t c ⟨hmode, hcur⟩ hcode
  · rename_i t hmode hcur
    split_ifs at h with hm
    rcases settle_cases s (enterInterrupt l t s) with ⟨s₂, hok, he⟩ | ⟨e, herr, he⟩
    · simp only [enterInterrupt, except_bind_ok, check_ok, except_pure_ok,
        State.setLwp_uthreads] at hok
      obtain ⟨-, hst, -, hc, rfl⟩ := hok
      rw [← Option.some.inj h, he]
      exact .preempt t ⟨hmode, hcur⟩ (by simpa using hm) (of_decide_eq_true hst)
        (of_decide_eq_true hc)
    · rw [← Option.some.inj h, he]
      unfold enterInterrupt at herr
      rcases except_bind_error.1 herr with herr | ⟨-, -, herr⟩
      · obtain ⟨hst, rfl⟩ := check_error.1 herr
        exact .halted _ (.interrupt t ⟨hmode, hcur⟩ (by simpa using hm) (.inl (of_decide_eq_false hst)))
      rcases except_bind_error.1 herr with herr | ⟨-, -, herr⟩
      · obtain ⟨hst, rfl⟩ := check_error.1 herr
        exact .halted _ (.interrupt t ⟨hmode, hcur⟩ (by simpa using hm) (.inr (of_decide_eq_false hst)))
      · exact absurd herr except_pure_error
  · exact stepLwp_move h
  · exact stepSpurious_move h
  · cases h

end Uthreads
