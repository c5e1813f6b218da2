import Uthreads.Result.Progress

/-!
# Who owns a POSIX mutex, whatever is called

A POSIX mutex is owned by the LWP that its holder is on, but for the `ut_pmut` that a thread has locked
in `uthread_detach`: the thread may have changed its LWP since (`Kept`). `kept_step` keeps that in
every step, and `lock_self`, `unlock_other` say what it leaves of the errors of the wrappers.
-/

namespace Uthreads

variable {N L : ℕ} {l k : Fin L} {t u : Fin N} {s s' s₁ : State N L} {i : Instr N} {c cs new : Code N}
  {p : PmtxId N} {a : Act}

open Instr

/-! ## The exception -/

/-- The code of a thread in `uthread_detach` of `u`. -/
def Detaching (u : Fin N) (c : Code N) : Prop :=
  ∃ k, detachReap u k ∈ c ∨ ∃ e, ret (.detach u k e) ∈ c

/-- `x` is a thread that has locked `p` in `uthread_detach`. -/
def Carried (s : State N L) (p : PmtxId N) : Fin N ⊕ Fin L → Prop
  | .inl t => ∃ u, p = .utPmut u ∧ Detaching u (s.uthreads t).utCtx
  | .inr _ => False

/-- A holder that is on LWP `l` has the mutex from `l`, or has carried it along. -/
def Kept (s : State N L) : Prop :=
  ∀ p x l, HeldBy s p x → Seat s l x → (s.pmtx p).owner = some l ∨ Carried s p x

/-- Until it unlocks `ut_pmut`, a thread in `uthread_detach` stays there. -/
theorem Detaching.step (h : Detaching u (i :: cs)) (hwf : Wf t (i :: cs)) (he : Effect l t s i s₁ new)
    (hp : Held (.utPmut u) (new ++ cs)) : Detaching u (new ++ cs) := by
  obtain ⟨k, h⟩ := h
  by_cases hi : i = detachReap u k
  · subst hi
    refine ⟨k, .inr ⟨.ok, ?_⟩⟩
    cases he with
    | plain hpl => cases hpl <;> simp
    | take _ _ _ hnew | signal _ _ _ _ hnew => rcases hnew with ⟨h, -⟩ | ⟨h, -⟩ <;> cases h
  by_cases hr : ∃ e, i = ret (.detach u k e)
  · -- the call has returned
    obtain ⟨e, rfl⟩ := hr
    have hcs : cs = [] := hwf.1
    subst hcs
    cases he with
    | plain hpl => cases hpl; simp at hp
    | take _ _ _ hnew | signal _ _ _ _ hnew => rcases hnew with ⟨h, -⟩ | ⟨h, -⟩ <;> cases h
  refine ⟨k, h.imp (fun h => ?_) fun ⟨e, h⟩ => ⟨e, ?_⟩⟩
  · exact List.mem_append_right _ ((List.mem_cons.1 h).resolve_left (Ne.symm hi))
  · exact List.mem_append_right _ ((List.mem_cons.1 h).resolve_left fun e' => hr ⟨e, e'.symm⟩)

/-- Nobody changes the LWP of a mutex that goes to the LWP in a switch. -/
theorem OkSwitch.not_carried {q : Option (QueueId N)} {sv : Bool} {m : Option (PmtxId N)}
    (h : OkSwitch t q sv m cs) (hp : p ∈ PmtxId.runqMtx :: m.toList) (hpu : p = .utPmut u) :
    ¬ Detaching u (swtch q sv m :: cs) := by
  subst hpu
  cases h with
  | yield | mutex | cond | reaped => simp at hp
  | join => simp [Detaching]
  | exit => simp [Detaching]

/-! ## A step -/

/-- An instruction of `t` keeps the owners. -/
theorem kept_thread (hc : Core s) (h : Kept s) (hon : OnStack s l t)
    (hcode : (s.uthreads t).utCtx = i :: cs) (he : Effect l t s i s₁ new) :
    Kept (s₁.setCtx t (new ++ cs)) := by
  have hwf := hc.codes.wf t
  have hst := (hc.active hon).1
  rw [hcode] at hwf hst
  have hself : ∀ p, HeldBy s p (.inl t) ↔ Held p (i :: cs) := fun p => by rw [← hcode]; rfl
  have hself' : ∀ p, HeldBy (s₁.setCtx t (new ++ cs)) p (.inl t) ↔ Held p (new ++ cs) :=
    fun p => by simp [HeldBy]
  -- a holder that was the holder before, with the owner of before
  have hold : ∀ p x k, HeldBy (s₁.setCtx t (new ++ cs)) p x → HeldBy s p x → Seat s k x →
      (s₁.pmtx p).owner = (s.pmtx p).owner → (s₁.pmtx p).owner = some k ∨
        Carried (s₁.setCtx t (new ++ cs)) p x := by
    intro p x k hx' hx hk ho
    rw [ho]
    refine (h p x k hx hk).imp_right fun hcar => ?_
    cases x with
    | inr k' => exact hcar.elim
    | inl u =>
      obtain ⟨w, rfl, hw⟩ := hcar
      refine ⟨w, rfl, ?_⟩
      by_cases hu : u = t
      · subst hu
        rw [hcode] at hw
        rw [State.setCtx_uthreads, if_pos rfl]
        exact hw.step hwf he ((hself' _).1 hx')
      · rcases other_code cs he hu with e | ⟨-, hv, -⟩
        · rw [e]
          exact hw
        · -- the slot that `uthread_create` sets up holds nothing
          rcases (hc.free hv.1).2.2.2 with hgone | e
          · exact absurd hx (hgone.not_held _)
          · simp [HeldBy, e, threadStartCode] at hx
  have hother : (∀ q sv m, i ≠ swtch q sv m) → ∀ p x, x ≠ .inl t →
      HeldBy (s₁.setCtx t (new ++ cs)) p x → HeldBy s p x := by
    intro hi p x hx hp
    cases x with
    | inl u => exact (other_holds hc he (fun e => hx (by rw [e])) p).1 hp
    | inr k => exact (lwp_held he hi k).1 hp
  intro p x k hx hk
  cases hm : i.moves with
  | false =>
    have hi : ∀ q sv m, i ≠ swtch q sv m := by rintro q sv m rfl; cases hm
    have hx₀ : HeldBy s p x := by
      by_cases hxt : x = .inl t
      · subst hxt
        exact (hself p).2 ((effect_held hwf hst he hm).1 ((hself' p).1 hx))
      · exact hother hi p x hxt hx
    exact hold p x k hx hx₀ ((seat_thread he hi k x).1 hk) (effect_owner he hm p)
  | true =>
    cases i with
    | lock q =>
      have hk₀ := (seat_thread he (by simp) k x).1 hk
      obtain ⟨rfl, -, ho, rfl⟩ := effect_lock he
      by_cases hq : p = q
      · -- the mutex goes to the LWP of the step
        subst hq
        by_cases hxt : x = .inl t
        · subst hxt
          rw [hc.places.cur k l t hk₀.2 hon.2]
          exact .inl (by simp)
        · exact absurd ho (hc.locks.taken p x (hother (by simp) p x hxt hx)).1
      · have hx₀ : HeldBy s p x := by
          by_cases hxt : x = .inl t
          · subst hxt
            have : Held p cs := (hself' p).1 hx
            rw [hself]
            simp [hq, this]
          · exact hother (by simp) p x hxt hx
        exact hold p x k hx hx₀ hk₀ (by simp [hq])
    | unlock q =>
      have hk₀ := (seat_thread he (by simp) k x).1 hk
      obtain ⟨rfl, -, rfl⟩ := effect_unlock he
      have hq₀ : HeldBy s q (.inl t) := (hself q).2 (.inl (by simp))
      by_cases hxt : x = .inl t
      · subst hxt
        have hp : Held p cs := (hself' p).1 hx
        have hq : p ≠ q := by
          rintro rfl
          exact hwf.1 hp
        exact hold p _ k hx ((hself p).2 (.inr ⟨by simp, by simp, hp⟩)) hk₀ (by simp [hq])
      · have hx₀ := hother (by simp) p x hxt hx
        have hq : p ≠ q := by
          rintro rfl
          exact hxt (hc.locks.one p x _ hx₀ hq₀)
        exact hold p x k hx hx₀ hk₀ (by simp [hq])
    | swtch q sv m =>
      have hsw : OkSwitch t q sv m cs := hwf.1
      have hmode := (switch_lwp he).1
      obtain ⟨rfl, hpm, hlw⟩ := switch_mode he
      cases x with
      | inl u =>
        by_cases hu : u = t
        · -- the thread has left its LWP
          subst hu
          have hkl : k = l := by
            by_contra hne
            exact hne (hc.places.cur k l u (((onStack_thread hon he).1 hne).1.1 hk).2 hon.2)
          subst hkl
          exact absurd hk.1 hmode
        · have hkl : k ≠ l := by
            rintro rfl
            exact hmode hk.1
          exact hold p _ k hx ((other_holds hc he hu p).1 hx) (((onStack_thread hon he).1 hkl).1.1 hk)
            (by rw [hpm])
      | inr k' =>
        obtain rfl : k' = k := hk
        by_cases hkl : k' = l
        · -- what the thread gives to its LWP was locked there
          subst hkl
          have hmem : p ∈ PmtxId.runqMtx :: m.toList := by
            cases m with
            | none => simpa [HeldBy, hlw] using hx
            | some r => simpa [HeldBy, hlw, or_comm] using hx
          have ht : HeldBy s p (.inl t) := (hself p).2 (.inl hmem)
          rcases h p _ k' ht hon with ho | ⟨u, hpu, hd⟩
          · exact .inl (by rw [State.setCtx_pmtx, hpm, ho])
          · rw [hcode] at hd
            exact absurd hd (hsw.not_carried hmem hpu)
        · have hx₀ : HeldBy s p (.inr k') := by simpa [HeldBy, hlw, hkl] using hx
          exact hold p _ k' hx hx₀ rfl (by rw [hpm])
    | _ => cases hm

/-- An LWP in its own code changes at most who holds `p`. -/
theorem kept_lwp (hc : Core s) (ha : Attended s) (h : Kept s)
    (hctx : ∀ u, (s'.uthreads u).utCtx = (s.uthreads u).utCtx)
    (hlw : ∀ k, k ≠ l → s'.lwps k = s.lwps k)
    (hrun : (s.lwps l).mode ≠ .running)
    (hcur : (s'.lwps l).mode = .running → (s'.lwps l).utCurthr = (s.lwps l).utCurthr) (p : PmtxId N)
    (hpm : ∀ q, q ≠ p → (s'.pmtx q).owner = (s.pmtx q).owner)
    (hh : ∀ q, q ≠ p → q ∈ (s'.lwps l).mode.holds → q ∈ (s.lwps l).mode.holds)
    (hno : ∀ x, x ≠ .inr l → ¬ HeldBy s p x)
    (hp : p ∈ (s'.lwps l).mode.holds → (s'.pmtx p).owner = some l) : Kept s' := by
  have hcar : ∀ q u, Carried s q (.inl u) → Carried s' q (.inl u) := by
    rintro q u ⟨w, rfl, hw⟩
    exact ⟨w, rfl, by rwa [hctx]⟩
  intro q x k hx hk
  cases x with
  | inl u =>
    have hx₀ : HeldBy s q (.inl u) := by simpa [HeldBy, hctx] using hx
    have hqp : q ≠ p := by
      rintro rfl
      exact hno _ (by simp) hx₀
    by_cases hkl : k = l
    · -- a thread that is dispatched brings along what it detaches
      subst hkl
      have hoff : ∀ j, ¬ OnStack s j u := by
        intro j hj
        have hjk := hc.places.cur j k u hj.2 ((hcur hk.1).symm.trans hk.2)
        exact hrun (hjk ▸ hj).1
      obtain ⟨w, n, rfl, hmem⟩ := ha.away u hoff q hx₀
      exact .inr (hcar _ u ⟨w, rfl, n, .inl hmem⟩)
    · have hk₀ : Seat s k (.inl u) := by
        show OnStack s k u
        have : OnStack s' k u := hk
        unfold OnStack at this ⊢
        rwa [hlw k hkl] at this
      rw [hpm q hqp]
      exact (h q _ k hx₀ hk₀).imp_right (hcar q u)
  | inr k' =>
    obtain rfl : k' = k := hk
    by_cases hkl : k' = l
    · subst hkl
      by_cases hqp : q = p
      · subst hqp
        exact .inl (hp hx)
      · rw [hpm q hqp]
        exact (h q (.inr k') k' (hh q hqp hx) rfl).imp_right False.elim
    · have hx₀ : HeldBy s q (.inr k') := by simpa [HeldBy, hlw k' hkl] using hx
      have hqp : q ≠ p := by
        rintro rfl
        exact hno _ (fun e => hkl (Sum.inr.inj e)) hx₀
      rw [hpm q hqp]
      exact (h q _ k' hx₀ rfl).imp_right False.elim

/-- **Every step keeps the owners**, whatever is called. -/
theorem kept_step (hc : Core s) (ha : Attended s) (h : Kept s) (hm : Move s l a s') : Kept s' := by
  -- who holds `runq_mtx` in its own code holds it alone
  have hone : ∀ p, p ∈ (s.lwps l).mode.holds → ∀ x, x ≠ .inr l → ¬ HeldBy s p x :=
    fun p hp x hx hx' => hx (hc.locks.one p x (.inr l) hx' hp)
  have hown : ∀ p, p ∈ (s.lwps l).mode.holds → (s.pmtx p).owner = some l :=
    fun p hp => (h p (.inr l) l hp rfl).resolve_right False.elim
  cases hm with
  | halted e =>
    intro p x k hx hk
    cases x with
    | inl u => exact h p (.inl u) k hx hk
    | inr k' => exact h p (.inr k') k hx hk
  | thread t i cs new hon hcode he => exact kept_thread hc h hon hcode he
  | call t c hon hcode =>
    intro p x k hx hk
    cases x with
    | inr k' => exact (h p (.inr k') k hx hk).imp_right False.elim
    | inl u =>
      have hu : u ≠ t := by
        rintro rfl
        simp [HeldBy, call_held] at hx
      refine (h p (.inl u) k (by simpa [HeldBy, hu] using hx) hk).imp_right ?_
      rintro ⟨w, rfl, hw⟩
      exact ⟨w, rfl, by simpa [hu] using hw⟩
  | preempt t hon hm hst h0 =>
    intro p x k hx hk
    cases x with
    | inr k' =>
      refine (h p (.inr k') k ?_ hk).imp_right False.elim
      by_cases hkl : k' = l
      · subst hkl; simpa [HeldBy] using hx
      · simpa [HeldBy, hkl] using hx
    | inl u =>
      have hu : u ≠ t := by
        rintro rfl
        have hpre := preemptible hc hon h0
        have hafter := interrupt_held (p := p) (hc.codes.wf u) hpre
        simp [HeldBy, hafter] at hx
      refine (h p (.inl u) k (by simpa [HeldBy, hu] using hx) ?_).imp_right ?_
      · by_cases hkl : k = l
        · subst hkl; simpa [Seat, OnStack] using hk
        · simpa [Seat, OnStack, hkl] using hk
      · rintro ⟨w, rfl, hw⟩
        exact ⟨w, rfl, by simpa [hu] using hw⟩
  | acquire m hm hst ho hs =>
    have hfree : ∀ x, ¬ HeldBy s .runqMtx x := fun x hx => (hc.locks.taken _ x hx).1 ho
    refine kept_lwp (l := l) hc ha h (fun u => by simp [hs.uthreads]) (fun k hk => by simp [hs.lwps, hk]) ?_ ?_
      .runqMtx (fun q hq => by simp [hs.pmtx, hq]) (fun q hq => ?_) (fun x _ => hfree x) ?_
    all_goals rcases hm with ⟨hm, rfl⟩ | ⟨hm, rfl⟩ <;> simp_all [hs.lwps, hs.pmtx]
  | unlock p hm ho =>
    refine kept_lwp (l := l) hc ha h (fun _ => rfl) (fun k hk => by simp [hk]) (by simp [hm]) (by simp) p
      (fun q hq => by simp [hq]) (fun q hq => by simp [hm, hq]) (hone p (by simp [hm])) fun hp => ?_
    have hne := hc.places.unlocking l p hm
    simp [hne] at hp
  | dispatch t hm hd =>
    obtain ⟨p, x, -, -, rfl⟩ := dispatchBody_some hd
    refine kept_lwp (l := l) hc ha h (fun u => by simp [State.setState]) (fun k hk => by simp [hk])
      (by simp [hm]) (by simp) .runqMtx (fun _ _ => rfl) (fun q _ => by simp [hm])
      (hone _ (by simp [hm])) fun _ => ?_
    simpa using hown .runqMtx (by simp [hm])
  | idle m hm hs =>
    have hr : PmtxId.runqMtx ∈ (s.lwps l).mode.holds := by
      rcases hm with ⟨hm, -⟩ | ⟨hm, -⟩ <;> simp [hm]
    have hr' := hown _ hr
    refine kept_lwp (l := l) hc ha h (fun u => by simp [hs.uthreads]) (fun k hk => by simp [hs.lwps, hk]) ?_ ?_
      .runqMtx (fun q _ => by simp [hs.pmtx]) (fun q _ => ?_) (hone _ hr) ?_
    all_goals rcases hm with ⟨hm, rfl⟩ | ⟨hm, rfl⟩ <;> simp_all [hs.lwps, hs.pmtx]
  | leave m hm ho hs =>
    have hr : PmtxId.runqMtx ∈ (s.lwps l).mode.holds := by
      rcases hm with ⟨hm, -⟩ | ⟨hm, -⟩ <;> simp [hm]
    refine kept_lwp (l := l) hc ha h (fun u => by simp [hs.uthreads]) (fun k hk => by simp [hs.lwps, hk]) ?_ ?_
      .runqMtx (fun q hq => by simp [hs.pmtx, hq]) (fun q hq => ?_) (hone _ hr) ?_
    all_goals rcases hm with ⟨hm, rfl⟩ | ⟨hm, rfl⟩ <;> simp_all [hs.lwps, hs.pmtx]

theorem boot_kept : Kept (boot N L) := by
  intro p x l hx hl
  cases x with
  | inl t =>
    have hx' : Held p ((boot N L).uthreads t).utCtx := hx
    rcases boot_code (L := L) t with e | e | e <;> rw [e] at hx'
    · simp [threadStartCode] at hx'
    · exact absurd hx' (held_reaper p)
    · exact absurd hx' (held_nil p)
  | inr k =>
    obtain rfl : k = l := hl
    have h := (boot_seated (N := N) (L := L)).holder p (.inr k) hx
    obtain ⟨k', hk', ho⟩ := h
    obtain rfl : k = k' := hk'
    exact .inl ho

/-! ## The errors of the wrappers -/

/-- An LWP that locks a mutex which it owns already finds the `ut_pmut` of a detaching thread. -/
theorem lock_self (ha : Attended s) (h : Kept s) (hon : OnStack s l t)
    (hcode : (s.uthreads t).utCtx = lock p :: cs) (ho : (s.pmtx p).owner = some l) :
    ∃ u v, p = .utPmut u ∧ v ≠ t ∧ Held (.utPmut u) (s.uthreads v).utCtx ∧
      Detaching u (s.uthreads v).utCtx := by
  obtain ⟨x, hx⟩ := ha.holder p (by rw [ho]; simp)
  cases x with
  | inr k =>
    rcases h p (.inr k) k hx rfl with hk | hk
    · obtain rfl : l = k := Option.some.inj (ho.symm.trans hk)
      simp [HeldBy, hon.1] at hx
    · exact hk.elim
  | inl v =>
    have hv : v ≠ t := by
      rintro rfl
      simp [HeldBy, hcode] at hx
    by_cases hseat : ∃ k, OnStack s k v
    · obtain ⟨k, hk⟩ := hseat
      rcases h p (.inl v) k hx hk with hk' | ⟨u, rfl, hd⟩
      · obtain rfl : l = k := Option.some.inj (ho.symm.trans hk')
        exact absurd (Option.some.inj (hk.2.symm.trans hon.2)) hv
      · exact ⟨u, v, rfl, hv, hx, hd⟩
    · obtain ⟨u, n, rfl, hmem⟩ := ha.away v (fun k hk => hseat ⟨k, hk⟩) p hx
      exact ⟨u, v, rfl, hv, hx, n, .inl hmem⟩

/-- A thread that unlocks a mutex of another LWP is in `uthread_detach`. -/
theorem unlock_other (h : Kept s) (hon : OnStack s l t) (hcode : (s.uthreads t).utCtx = unlock p :: cs)
    (ho : (s.pmtx p).owner ≠ some l) :
    ∃ u, p = .utPmut u ∧ Detaching u (s.uthreads t).utCtx := by
  have hheld : HeldBy s p (.inl t) := by
    show Held p (s.uthreads t).utCtx
    rw [hcode]
    exact .inl (by simp)
  exact (h p (.inl t) l hheld hon).resolve_left ho

end Uthreads
