import Uthreads.Proof.Farewell
import Uthreads.Proof.Life

/-!
# A thread is destroyed off its stack

The reaper locks and unlocks the `ut_pmut` of a dead thread before it destroys it, so that the thread has
left its stack. A joinable thread holds its `ut_pmut` that long; a detached one has called `make_reapable`
for itself, which unlocks it and then goes on to `uthread_switch`.

* `destroyed_off_stack`: if the reaper never locks a `ut_pmut` between these two, no thread is on its stack
  while `uthread_destroy` works on it.
* `destroyed_on_stack`: else it may be, and its stack is freed under it.
-/

namespace Uthreads

variable {N L : ℕ} {l k : Fin L} {t u : Fin N} {s s' s₁ : State N L} {i : Instr N} {c cs new : Code N}
  {a : Act}

open Instr

/-! ## The code of a dead thread -/

/-- The code of a dead thread on its stack: it is joinable, or it is to call `make_reapable` for itself, or
it has done so. -/
def LastCode (u : Fin N) (c : Code N) : Prop :=
  Dying u c ∨ c.head? = some (makeReapable u) ∨ swtch none false none ∈ c

theorem LastCode.step (h : LastCode u (i :: cs)) (hz : (s.uthreads u).utState = .zombie)
    (he : Effect l u s i s₁ new) (hsw : ∀ q sv m, i ≠ swtch q sv m) : LastCode u (new ++ cs) := by
  rcases h with h | h | h
  · exact .inl (h.step he hsw)
  · obtain rfl : i = makeReapable u := Option.some.inj h
    cases he with
    | plain hp => cases hp; contradiction
    | take _ _ _ h | signal _ _ _ _ h => rcases h with ⟨h, -⟩ | ⟨h, -⟩ <;> cases h
    | makeReapable _ _ _ _ hnew =>
      subst hnew
      exact .inr (.inr (by simp [uthreadSwitch]))
  · refine .inr (.inr (List.mem_append_right new ?_))
    exact (List.mem_cons.1 h).resolve_left fun e => hsw _ _ _ e.symm

theorem effect_lastCode {status : ℤ} (he : Effect l t s (exitTest u status) s₁ new) : LastCode u new := by
  cases hd : (s.uthreads u).utDetached with
  | false => exact .inl (effect_dying he hd)
  | true =>
    cases he with
    | plain hp => cases hp
    | take _ _ _ h | signal _ _ _ _ h => rcases h with ⟨h, -⟩ | ⟨h, -⟩ <;> cases h
    | exitDetached => exact .inr (.inl rfl)
    | exitAlone _ _ h | exitJoined _ _ _ h => rw [hd] at h; cases h

/-- Only behind the unlock of `make_reapable` a dead thread is on its stack without its `ut_pmut`. -/
theorem LastCode.held (h : LastCode u c) (hs : swtch none false none ∉ c) : Held (.utPmut u) c := by
  rcases h with h | h | h
  · exact h.held
  · obtain ⟨cs, rfl⟩ := List.head?_eq_some_iff.1 h
    simp
  · exact absurd h hs

/-! ## The reaper -/

/-- As `Instr.spares`, but the stack that `uthread_destroy` frees may be in use. -/
def Instr.sparesData (s : State N L) : Instr N → Bool
  | .destroy .stack _ => true
  | i => i.spares s

/-- In the step the reaper does not lock the `ut_pmut` of a thread that is between its unlock in
`make_reapable` and its `uthread_switch`, and no slot that is in use is written to. -/
def awaitsSwitch (s : State N L) (b : Fin L × Act) : Prop :=
  ∀ t, OnStack s b.1 t → (s.uthreads t).utCtx.head?.all (Instr.sparesData s) = true ∧
    ∀ u, (s.uthreads t).utCtx.head? = some (lock (.utPmut u)) →
      (s.uthreads t).utCtx.any (Instr.destroys u) = true →
      ∀ k, OnStack s k u → swtch none false none ∉ (s.uthreads u).utCtx

instance (s : State N L) (b : Fin L × Act) : Decidable (awaitsSwitch s b) :=
  inferInstanceAs (Decidable (∀ _, _))

/-- The reaper destroys a thread on its stack only while it is to lock its `ut_pmut`. -/
structure OffStack (s : State N L) : Prop where
  last : ∀ u k, OnStack s k u → (s.uthreads u).utState = .zombie → LastCode u (s.uthreads u).utCtx
  off : ∀ t d u, destroy d u ∈ (s.uthreads t).utCtx → lock (.utPmut u) ∉ (s.uthreads t).utCtx →
    ∀ k, ¬ OnStack s k u

/-- Whose `ut_pmut` can be locked has left its stack. -/
theorem OffStack.unlocked (hc : Core s) (ho : OffStack s) (hz : (s.uthreads u).utState = .zombie)
    (hfree : (s.pmtx (.utPmut u)).owner = none)
    (hsw : ∀ k, OnStack s k u → swtch none false none ∉ (s.uthreads u).utCtx) (k : Fin L) :
    ¬ OnStack s k u := by
  intro hon
  have hheld : HeldBy s (.utPmut u) (.inl u) := (ho.last u k hon hz).held (hsw k hon)
  exact (hc.locks.taken _ _ hheld).1 hfree

theorem offStack_step (hc : Core s) (ho : OffStack s) (hok : awaitsSwitch s (l, a))
    (h : Turn s l a s') : OffStack s' := by
  refine ⟨fun u => farewell_step hc (fun _ => effect_lastCode) (fun hz hl he hsw => hl.step hz he hsw)
    (ho.last u) h, fun t d u hd hlk => ?_⟩
  -- who was off its stack stays there
  have hstay : ∀ {d'}, destroy d' u ∈ (s.uthreads t).utCtx → (∀ k, ¬ OnStack s k u) →
      ∀ k, ¬ OnStack s' k u :=
    fun hd' hoff => off_turn hc h (hc.slots.destroy t _ u hd').st hoff
  cases code_turn h t with
  | same e =>
    rw [e] at hd hlk
    exact hstay hd (ho.off t d u hd hlk)
  | @thread i cs new s₁ hon hcode he e =>
    rw [e, List.mem_append, not_or] at hlk
    rw [e, List.mem_append] at hd
    have hmem : ∃ d', destroy d' u ∈ i :: cs := by
      rcases hd with hd | hd
      · rcases effect_destroys he hd with ⟨rfl, rfl, -, -⟩ | ⟨d', rfl, -⟩
        · cases he with
          | plain hp => cases hp; simp at hd
          | take _ _ _ h | signal _ _ _ _ h => rcases h with ⟨h, -⟩ | ⟨h, -⟩ <;> cases h
          | drain w =>
            obtain rfl : u = w := by simpa using hd
            simp at hlk
        · exact ⟨d', List.mem_cons_self⟩
      · exact ⟨d, List.mem_cons_of_mem i hd⟩
    obtain ⟨d', hmem⟩ := hmem
    have hd' : destroy d' u ∈ (s.uthreads t).utCtx := hcode ▸ hmem
    refine hstay hd' ?_
    by_cases hi : i = lock (.utPmut u)
    · subst hi
      have hfree : (s.pmtx (.utPmut u)).owner = none := by
        cases he with
        | plain hp => cases hp
        | take _ _ _ h | signal _ _ _ _ h => rcases h with ⟨h, -⟩ | ⟨h, -⟩ <;> cases h
        | lock _ _ hfree => exact hfree
      refine ho.unlocked hc (hc.slots.destroy t d' u hd').st hfree ?_
      exact (hok t hon).2 u (by rw [hcode]; rfl) (List.any_eq_true.2 ⟨_, hd', by simp⟩)
    · refine ho.off t d' u hd' ?_
      rw [hcode, List.mem_cons, not_or]
      exact ⟨Ne.symm hi, hlk.2⟩
  | create _ _ _ _ _ _ e => rw [e] at hd; simp [threadStartCode] at hd
  | call call ha hon hcode e =>
    rw [e] at hd
    have := call_called s.incarnation t call _ hd
    cases this
  | preempt ha hon hst h0 e =>
    rw [e] at hd hlk
    have hd : destroy d u ∈ (s.uthreads t).utCtx := by
      simpa [clockInterrupt, uthreadYield, uthreadSwitch] using hd
    exact hstay hd (ho.off t d u hd fun hm => hlk (List.mem_append_right _ hm))

/-! ## Runs -/

theorem boot_offStack : OffStack (boot N L) where
  last u k hon := absurd hon.2 (boot_off u k)
  off t d u hd := absurd hd (by
    rcases boot_code (L := L) t with e | e | e <;> rw [e] <;>
      simp [threadStartCode, reaper, uthreadMtxLock])

theorem next_of_awaits {b : Fin L × Act} (h : awaitsSwitch s b) : anyStep s b = next s b := by
  refine next_of_vacant fun t u prio cs hon hcode => ?_
  have ht := (h t hon).1
  rw [hcode] at ht
  simpa [Instr.sparesData, Instr.spares] using ht

/-- **No thread is destroyed on its stack**, whether it was joinable or detached. -/
theorem destroyed_off_stack {s : State (N + 2) (L + 1)} (h : Runs.Reach anyStep awaitsSwitch (boot N L) s) :
    ∀ t d u cs, (s.uthreads t).utCtx = destroy d u :: cs → ∀ k, ¬ OnStack s k u := by
  have hr : Reachable awaitsSwitch (boot N L) s := h.congr_step fun _ _ hb => next_of_awaits hb
  have hI : ∀ s, Reachable awaitsSwitch (boot N L) s → Core s := fun _ => core_reachable boot_core
  have hoff : OffStack s := by
    refine hr.invariant_of hI boot_offStack ?_
    rintro s s' ⟨l, a⟩ hc ho hok hn
    exact offStack_step hc ho hok (move_turn hc (step_move hc.codes.wf hn))
  intro t d u cs hcode
  have hwf := (hI s hr).codes.wf t
  rw [hcode] at hwf
  have hcs : cs = [reaperDrain] := hwf.1
  refine hoff.off t d u (by rw [hcode]; exact List.mem_cons_self) ?_
  rw [hcode, hcs]
  simp

set_option maxRecDepth 4000 in
/-- The reaper on LWP 1 calls `uthread_destroy`: for a thread that has been joined, and for the first thread,
which has ended on LWP 0 while the reaper was about to lock its `ut_pmut`. -/
theorem destroyed_off_stack_both : ∃ (s₁ : State 3 2) (s₂ : State 2 2),
    (OnStack s₁ 1 1 ∧ (s₁.uthreads 1).utCtx = [destroy .test 2, reaperDrain] ∧ ∀ k, ¬ OnStack s₁ k 2) ∧
    OnStack s₂ 1 1 ∧ (s₂.uthreads 1).utCtx = [destroy .test 0, reaperDrain] ∧ ∀ k, ¬ OnStack s₂ k 0 := by
  obtain ⟨s₁, h₁, hon₁, hc₁⟩ : ∃ s, Runs.Reach anyStep awaitsSwitch (boot 1 1) s ∧ OnStack s 1 1 ∧
      (s.uthreads 1).utCtx = [destroy .test 2, reaperDrain] :=
    Runs.exists_reach (turns 0 4 ++ [(0, .call (.create 3))] ++ turns 0 23 ++ turns 1 27 ++
      [(0, .call (.join 2))] ++ turns 0 8 ++ [(1, .call (.exit 7))] ++ turns 1 13 ++ turns 0 5 ++
      turns 1 11 ++ turns 0 30 ++ turns 1 18) (by decide +kernel)
  obtain ⟨s₂, h₂, hon₂, hc₂⟩ : ∃ s, Runs.Reach anyStep awaitsSwitch (boot 0 1) s ∧ OnStack s 1 1 ∧
      (s.uthreads 1).utCtx = [destroy .test 0, reaperDrain] :=
    Runs.exists_reach (turns 0 4 ++ turns 1 25 ++ [(0, .call (.exit 7))] ++ turns 0 26 ++ turns 1 8 ++
      turns 0 4 ++ turns 1 10) (by decide +kernel)
  exact ⟨s₁, s₂, ⟨hon₁, hc₁, destroyed_off_stack h₁ 1 .test 2 _ hc₁⟩, hon₂, hc₂,
    destroyed_off_stack h₂ 1 .test 0 _ hc₂⟩

set_option maxRecDepth 4000 in
/-- The first thread exits on LWP 0: `make_reapable` has unlocked its `ut_pmut`, and the thread is about to
lock `runq_mtx` for its switch. The reaper on LWP 1 calls `uthread_destroy` for it. -/
theorem destroyed_on_stack : ¬ ∀ (N L : ℕ) (s : State (N + 2) (L + 1)),
    Runs.Reach anyStep Runs.always (boot N L) s →
      ∀ t u cs, (s.uthreads t).utCtx = destroy .test u :: cs → ∀ k, ¬ OnStack s k u := by
  obtain ⟨s, hs, hon, hcode⟩ : ∃ s, Runs.Reach anyStep Runs.always (boot 0 1) s ∧ OnStack s 0 0 ∧
      (s.uthreads 1).utCtx = [destroy .test 0, reaperDrain] :=
    Runs.exists_reach (turns 0 4 ++ turns 1 25 ++ [(0, .call (.exit 7))] ++ turns 0 26 ++ turns 1 18)
      (by decide +kernel)
  exact fun h => h 0 1 s hs 1 0 _ hcode 0 hon

end Uthreads
