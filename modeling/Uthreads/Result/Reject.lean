import Uthreads.Proof.Turn

/-!
# Ids that name no thread

`uthread_join` and `uthread_detach` reject an id outside the table. They do not look whether the slot
of an id inside it has a thread: `rejects_iff` says that the call returns `ESRCH` and changes nothing,
for an id that names no thread, if and only if the id is outside the table.
-/

namespace Uthreads

variable {N L : ℕ} {l : Fin L} {t u : Fin N} {s s' s₁ : State N L} {i : Instr N} {cs new : Code N}
  {a : Act} {uid : ℤ}

open Instr

/-- The two calls that look a thread up. -/
def Call.lookup (uid : ℤ) (c : Call) : Prop := c = .join uid ∨ c = .detach uid

/-- The id names no thread: it is outside the table, or the slot is not in use. -/
def Nobody (s : State N L) (uid : ℤ) : Prop :=
  ∀ u, slotOf uid = some u → (s.uthreads u).utState = .noState

/-- The call, on its own, returns `ESRCH` and changes nothing. -/
def Rejects (s : State N L) (l : Fin L) (t : Fin N) (c : Call) : Prop :=
  ∃ s₁ s', next s (l, .call c) = some s₁ ∧ Alone l true s₁ s' ∧
    s' = s.emit (.returned t (.badId .esrch))

/-- The code in front does not return `ESRCH` for a bad id. -/
theorem effect_badId (he : Effect l t s i s₁ new) (e : Errno) : ret (.badId e) ∉ new :=
  fun hj => effect_before he _ hj

/-- Only the return of a call is recorded as one. -/
theorem mem_logOf_returned {r : Ret N} {v : Fin N} (h : Event.returned v r ∈ logOf s t i) :
    t = v ∧ i = ret r := by
  unfold logOf at h
  split at h <;> try split_ifs at h
  all_goals simp at h
  exact ⟨h.1.symm, by rw [h.2]⟩

/-- How often `t` has been told that an id is bad. -/
def badIds (s : State N L) (t : Fin N) : ℕ := s.log.count (.returned t (.badId .esrch))

/-- Without a new call, and without the return in its code, `t` is not told that an id is bad. -/
structure NotTold (s₀ s : State N L) (t : Fin N) : Prop where
  code : ret (.badId .esrch) ∉ (s.uthreads t).utCtx
  log : badIds s t = badIds s₀ t

theorem notTold_step {s₀ : State N L} (hi : NotTold s₀ s t) (h : Turn s l a s')
    (ha : ∀ c, a ≠ .call c) : NotTold s₀ s' t := by
  constructor
  · cases code_turn h t with
    | same e => rw [e]; exact hi.code
    | thread i cs new hon hcode he e =>
      have := hi.code
      rw [hcode] at this
      rw [e, List.mem_append, not_or]
      exact ⟨effect_badId he _, fun h => this (List.mem_cons_of_mem _ h)⟩
    | create _ _ _ _ _ _ e => rw [e]; simp [threadStartCode]
    | call c hc => exact absurd hc (ha c)
    | preempt _ _ _ _ e =>
      rw [e, List.mem_append, not_or]
      exact ⟨by simp [clockInterrupt, uthreadYield, uthreadSwitch], hi.code⟩
  · rw [← hi.log]
    unfold badIds
    cases h with
    | @thread _ u i cs new s₁ hon hcode he hh =>
      show s₁.log.count _ = _
      rw [hh.log, List.count_append, Nat.add_eq_left, List.count_eq_zero]
      intro hmem
      -- only the return itself tells
      obtain ⟨rfl, rfl⟩ := mem_logOf_returned hmem
      have := hi.code
      rw [hcode] at this
      exact this List.mem_cons_self
    | call c => exact absurd rfl (ha _)
    | preempt => rfl
    | lwp hb => rw [hb.hist.log]

/-- A call with an id inside the table does not return `ESRCH`. -/
theorem not_rejects (hc : Core s) (hon : OnStack s l t) {c : Call} (hl : c.lookup uid)
    (hu : slotOf uid = some u) : ¬ Rejects s l t c := by
  rintro ⟨s₁, s', hcall, hrun, rfl⟩
  have hs₁ : s₁ = s.setCtx t (c.code s.incarnation t) ∧ Core s₁ := by
    refine ⟨?_, core_next hc hcall⟩
    have hcall := (next_step hcall).2
    unfold step at hcall
    simp only [hon.1, hon.2] at hcall
    split_ifs at hcall
    exact (Option.some.inj hcall).symm
  obtain ⟨hs₁, hc₁⟩ := hs₁
  have h₀ : NotTold s s₁ t := by
    constructor
    · rw [hs₁]
      rcases hl with rfl | rfl
      · simp [Call.code, uthreadJoin, hu]
      · simp [Call.code, uthreadDetach, hu]
    · rw [hs₁]; rfl
  have hinv := hrun.invariant (P := fun s' => Core s' ∧ NotTold s s' t) ⟨hc₁, h₀⟩ (by
    rintro s₂ s₃ b ⟨hc₂, hi⟩ rfl hn
    exact ⟨core_next hc₂ hn, notTold_step hi (move_turn hc₂ (step_move hc₂.codes.wf hn)) (by
      intro c' h; cases h)⟩)
  have := hinv.2.log
  simp [badIds] at this

theorem setCtx_same {c c' : Code N} (h : (s.uthreads t).utCtx = c') : (s.setCtx t c).setCtx t c' = s := by
  have hu : ((s.setCtx t c).setCtx t c').uthreads = s.uthreads := by
    funext v
    by_cases hv : v = t
    · subst hv; simp [← h]
    · simp [hv]
  show { s with uthreads := ((s.setCtx t c).setCtx t c').uthreads } = s
  rw [hu]

/-- An id outside the table is rejected at once. -/
theorem rejects_out (hh : s.halt = none) (hon : OnStack s l t) (hcode : (s.uthreads t).utCtx = [])
    {c : Call} (hl : c.lookup uid) (hu : slotOf (N := N) uid = none) : Rejects s l t c := by
  have hc : c.code s.incarnation t = [ret (.badId .esrch)] := by
    rcases hl with rfl | rfl
    · simp [Call.code, uthreadJoin, hu]
    · simp [Call.code, uthreadDetach, hu]
  have h₁ : next s (l, .call c) = some (s.setCtx t [ret (.badId .esrch)]) := by
    simp [next, intrudes, anyStep, step, hh, hon.1, hon.2, hcode, hc]
  have h₂ : next (s.setCtx t [ret (.badId .esrch)]) (l, .mallocs true) =
      some (s.emit (.returned t (.badId .esrch))) := by
    have hstep : next (s.setCtx t [ret (.badId .esrch)]) (l, .mallocs true) =
        some (((s.setCtx t [ret (.badId .esrch)]).emit (.returned t (.badId .esrch))).setCtx t []) := by
      simp [next, intrudes, anyStep, step, hh, hon.1, hon.2, Act.mallocs, stepThread, exec, Except.map,
        settle]
    rw [hstep]
    exact congrArg (fun x : State N L => some (x.emit (.returned t (.badId .esrch))))
      (setCtx_same (c := [ret (.badId .esrch)]) hcode)
  exact ⟨_, _, h₁, .step .start rfl h₂, rfl⟩

/-- **Ids that name no thread are rejected**, if and only if they are outside the table. -/
theorem rejects_iff {s : State (N + 2) (L + 1)} (h : Reachable Runs.always (boot N L) s)
    (hh : s.halt = none) {l : Fin (L + 1)} {t : Fin (N + 2)} (hon : OnStack s l t)
    (hcode : (s.uthreads t).utCtx = []) :
    ∀ uid, Nobody s uid → ∀ c, Call.lookup uid c →
      (Rejects s l t c ↔ slotOf (N := N + 2) uid = none) := by
  intro uid _ c hl
  refine ⟨fun hr => ?_, rejects_out hh hon hcode hl⟩
  by_contra hne
  obtain ⟨u, hu⟩ := Option.ne_none_iff_exists'.1 hne
  exact not_rejects (core_reachable boot_core h) hon hl hu hr

/-- The first thread runs, and slot 2 was never used. -/
theorem first_running : ∃ s : State 3 1, Reachable Runs.always (boot 1 0) s ∧ s.halt = none ∧
    OnStack s 0 0 ∧ (s.uthreads 0).utCtx = [] ∧ (s.uthreads 2).utState = .noState :=
  Runs.exists_reach (turns 0 4) (by decide)

theorem rejects_iff_first : ∃ s : State 3 1, Reachable Runs.always (boot 1 0) s ∧
    Rejects s 0 0 (.join 3) ∧ ¬ Rejects s 0 0 (.join 2) := by
  obtain ⟨s, hs, hh, hon, hcode, hfree⟩ := first_running
  have hslot : slotOf (N := 3) 2 = some 2 := by decide
  refine ⟨s, hs, (rejects_iff hs hh hon hcode 3 (fun u hu => by cases hu) _ (.inl rfl)).2 rfl,
    fun hr => ?_⟩
  have hnone := (rejects_iff hs hh hon hcode 2 (fun u hu => ?_) _ (.inl rfl)).1 hr
  · cases hnone
  · rw [hslot, Option.some.injEq] at hu
    exact hu ▸ hfree

/-- A join on a slot that was never used does not return `ESRCH`. -/
theorem unused_not_rejected : ¬ ∀ (N L : ℕ) (s : State (N + 2) (L + 1)) (l : Fin (L + 1))
    (t : Fin (N + 2)) (uid : ℤ) (c : Call), Reachable Runs.always (boot N L) s → s.halt = none →
      OnStack s l t → (s.uthreads t).utCtx = [] → Nobody s uid → c.lookup uid →
        Rejects s l t c := by
  obtain ⟨s, hs, hh, hon, hcode, hfree⟩ := first_running
  have hslot : slotOf (N := 3) 2 = some 2 := by decide
  intro h
  refine not_rejects (core_reachable boot_core hs) hon (.inl rfl) hslot
    (h 1 0 s 0 0 2 (.join 2) hs hh hon hcode (fun u hu => ?_) (.inl rfl))
  rw [hslot, Option.some.injEq] at hu
  exact hu ▸ hfree

end Uthreads
