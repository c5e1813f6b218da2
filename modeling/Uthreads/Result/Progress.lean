import Uthreads.Lib.LockOrder
import Uthreads.Result.Held
import Uthreads.Result.Park

/-!
# The library does not hang

POSIX mutexes are taken in the order of `PmtxId.rank`, so the waits for them have no cycle. A mutex that
is locked has a holder (`Attended`), and a holder that waits for nothing goes on, unless it is off its
LWP; only `uthread_detach` leaves its LWP with a POSIX mutex held.

* `posix_acyclic`: no cycle in the waits for POSIX mutexes, in every reachable state.
* `hangs_in_detach`: some LWP can always take a step, or its user's code runs, except where an LWP
  waits for a `ut_pmut` that a detaching thread has taken along.
-/

namespace Uthreads

variable {N L : ℕ} {l : Fin L} {t u : Fin N} {s s' s₁ : State N L} {i : Instr N} {c cs new : Code N}
  {p : PmtxId N} {a : Act}

open Instr LockOrder Chains

/-! ## Who waits for what -/

/-- The party, a thread on its LWP or an LWP in its own code, has to wait for the mutex `p`. -/
def Blocked (s : State N L) : Fin N ⊕ Fin L → PmtxId N → Prop
  | .inl t, p => ∃ l cs, OnStack s l t ∧ (s.uthreads t).utCtx = lock p :: cs ∧
      lockBlocked s l p = true
  | .inr l, p => p = .runqMtx ∧ ((s.lwps l).mode = .start ∨ (s.lwps l).mode = .parked) ∧
      lockBlocked s l p = true

/-- A party holds the mutex. -/
def Holds (s : State N L) (x : Fin N ⊕ Fin L) (p : PmtxId N) : Prop := HeldBy s p x

/-- **POSIX mutexes are taken in order.** -/
theorem Core.ordered (hc : Core s) : Ordered (Holds s) (Blocked s) PmtxId.rank := by
  intro x p q hw hq
  cases x with
  | inl t =>
    obtain ⟨l, cs, -, hcode, -⟩ := hw
    have hwf := hc.codes.wf t
    have hheld : Held q (s.uthreads t).utCtx := hq
    rw [hcode] at hwf hheld
    obtain ⟨-, hbelow⟩ := hwf.1
    rcases hheld with hq | ⟨hne, -, hq⟩
    · simp at hq
    · have hqp : q ≠ p := by simpa using hne
      exact (hbelow q hq).resolve_left hqp
  | inr l =>
    obtain ⟨-, hm, -⟩ := hw
    have hheld : q ∈ (s.lwps l).mode.holds := hq
    rcases hm with hm | hm <;> rw [hm] at hheld <;> simp at hheld

/-- **The waits for POSIX mutexes have no cycle**, whatever is called. -/
theorem posix_acyclic {s : State (N + 2) (L + 1)} (h : Reachable Runs.always (boot N L) s) :
    Acyclic (WaitsFor (Holds s) (Blocked s)) :=
  (core_reachable boot_core h).ordered.acyclic

theorem posix_acyclic_start :
    WaitsFor (Holds (boot 0 1)) (Blocked (boot 0 1)) (.inr 1) (.inr 0) ∧
      Acyclic (WaitsFor (Holds (boot 0 1)) (Blocked (boot 0 1))) :=
  ⟨⟨.runqMtx, ⟨rfl, .inl rfl, rfl⟩, by simp [Holds, HeldBy, boot]⟩, posix_acyclic .start⟩

/-! ## Who is there -/

/-- A locked POSIX mutex has a holder, an LWP that runs has a thread, and a thread that is off its LWP
holds at most the `ut_pmut` that it detaches. -/
structure Attended (s : State N L) : Prop where
  holder : ∀ p, (s.pmtx p).owner ≠ none → ∃ x, HeldBy s p x
  seat : ∀ l, (s.lwps l).mode = .running ∨ (s.lwps l).mode = .dispatching →
    (s.lwps l).utCurthr ≠ none
  away : ∀ t, (∀ l, ¬ OnStack s l t) → DetachOnly (s.uthreads t).utCtx

/-- Who switches leaves code behind that holds at most the `ut_pmut` that it detaches. -/
theorem OkSwitch.detachOnly {q : Option (QueueId N)} {sv : Bool} {m : Option (PmtxId N)}
    (h : OkSwitch t q sv m cs) : DetachOnly cs := by
  intro p hp
  cases h with
  | yield hh | cond hh => exact absurd (by simpa using hp) (hh p)
  | mutex hh =>
    obtain ⟨u, k, rfl, hmem⟩ := hh p (by simpa using hp)
    exact ⟨u, k, rfl, by simp [hmem]⟩
  | join => simp at hp
  | exit | reaped => simp at hp

/-- What is held after an instruction was held before, or is taken by it; nothing gets lost but what
it unlocks. -/
theorem holder_thread (hc : Core s) (h : Attended s) (hon : OnStack s l t)
    (hcode : (s.uthreads t).utCtx = i :: cs) (he : Effect l t s i s₁ new) (p : PmtxId N)
    (ho : ((s₁.setCtx t (new ++ cs)).pmtx p).owner ≠ none) :
    ∃ x, HeldBy (s₁.setCtx t (new ++ cs)) p x := by
  have hwf := hc.codes.wf t
  have hst := (hc.active hon).1
  rw [hcode] at hwf hst
  have hself : ∀ p, HeldBy s p (.inl t) ↔ Held p (i :: cs) := fun p => by rw [← hcode]; rfl
  have hself' : ∀ p, HeldBy (s₁.setCtx t (new ++ cs)) p (.inl t) ↔ Held p (new ++ cs) :=
    fun p => by simp [HeldBy]
  rw [State.setCtx_pmtx] at ho
  -- whoever else held it still does
  have hother : (∀ q sv m, i ≠ swtch q sv m) → ∀ x, x ≠ .inl t → HeldBy s p x →
      HeldBy (s₁.setCtx t (new ++ cs)) p x := by
    intro hi x hx hp
    cases x with
    | inl u => exact (other_holds hc he (fun e => hx (by rw [e])) p).2 hp
    | inr k => exact (lwp_held he hi k).2 hp
  cases hm : i.moves with
  | false =>
    have hi : ∀ q sv m, i ≠ swtch q sv m := by rintro q sv m rfl; cases hm
    rw [effect_owner he hm] at ho
    obtain ⟨x, hx⟩ := h.holder p ho
    by_cases hxt : x = .inl t
    · subst hxt
      exact ⟨.inl t, (hself' p).2 ((effect_held hwf hst he hm).2 ((hself p).1 hx))⟩
    · exact ⟨x, hother hi x hxt hx⟩
  | true =>
    cases i with
    | lock q =>
      obtain ⟨rfl, -, -, rfl⟩ := effect_lock he
      by_cases hq : p = q
      · subst hq
        exact ⟨.inl t, (hself' p).2 hwf.1.1⟩
      · obtain ⟨x, hx⟩ := h.holder p (by simpa [hq] using ho)
        by_cases hxt : x = .inl t
        · subst hxt
          refine ⟨.inl t, (hself' p).2 ?_⟩
          simpa [hq] using (hself p).1 hx
        · exact ⟨x, hother (by simp) x hxt hx⟩
    | unlock q =>
      obtain ⟨rfl, -, rfl⟩ := effect_unlock he
      have hq : p ≠ q := by rintro rfl; simp at ho
      obtain ⟨x, hx⟩ := h.holder p (by simpa [hq] using ho)
      by_cases hxt : x = .inl t
      · subst hxt
        refine ⟨.inl t, (hself' p).2 ?_⟩
        simpa [hq] using (hself p).1 hx
      · exact ⟨x, hother (by simp) x hxt hx⟩
    | swtch q sv m =>
      obtain ⟨rfl, hpm, hlw⟩ := switch_mode he
      rw [hpm] at ho
      obtain ⟨x, hx⟩ := h.holder p ho
      cases x with
      | inl u =>
        by_cases hu : u = t
        · subst hu
          rcases (hself p).1 hx with hp | ⟨-, -, hp⟩
          · -- `runq_mtx` and the mutex of the call go to the LWP
            refine ⟨.inr l, ?_⟩
            cases m with
            | none => simpa [HeldBy, hlw] using hp
            | some r => simpa [HeldBy, hlw, or_comm] using hp
          · exact ⟨.inl u, (hself' p).2 hp⟩
        · exact ⟨.inl u, (other_holds hc he hu p).2 hx⟩
      | inr k =>
        have hk : k ≠ l := by
          rintro rfl
          simp [HeldBy, hon.1] at hx
        exact ⟨.inr k, by simpa [HeldBy, hlw, hk] using hx⟩
    | _ => cases hm

/-- An LWP in its own code changes at most who holds `p`. -/
theorem attended_lwp (h : Attended s) (hctx : ∀ u, (s'.uthreads u).utCtx = (s.uthreads u).utCtx)
    (hlw : ∀ k, k ≠ l → s'.lwps k = s.lwps k)
    (hseat : (s'.lwps l).mode = .running ∨ (s'.lwps l).mode = .dispatching →
      (s'.lwps l).utCurthr ≠ none)
    (hrun : (s.lwps l).mode ≠ .running) (p : PmtxId N)
    (hpm : ∀ q, q ≠ p → (s'.pmtx q).owner = (s.pmtx q).owner)
    (hh : ∀ q, q ≠ p → q ∈ (s.lwps l).mode.holds → q ∈ (s'.lwps l).mode.holds)
    (hp : (s'.pmtx p).owner ≠ none → p ∈ (s'.lwps l).mode.holds) : Attended s' := by
  refine ⟨fun q hq => ?_, fun k hk => ?_, fun t ht => ?_⟩
  · by_cases hqp : q = p
    · subst hqp
      exact ⟨.inr l, hp hq⟩
    · rw [hpm q hqp] at hq
      obtain ⟨x, hx⟩ := h.holder q hq
      cases x with
      | inl u => exact ⟨.inl u, by simpa [HeldBy, hctx] using hx⟩
      | inr k =>
        by_cases hk : k = l
        · subst hk
          exact ⟨.inr k, hh q hqp hx⟩
        · exact ⟨.inr k, by simpa [HeldBy, hlw k hk] using hx⟩
  · by_cases hkl : k = l
    · subst hkl
      exact hseat hk
    · rw [hlw k hkl] at hk ⊢
      exact h.seat k hk
  · rw [hctx]
    apply h.away
    intro k hon
    by_cases hkl : k = l
    · subst hkl
      exact hrun hon.1
    · refine ht k ?_
      unfold OnStack
      rw [hlw k hkl]
      exact hon

/-- **Every step keeps the mutexes attended.** -/
theorem attended_step (hc : Core s) (h : Attended s) (hm : Move s l a s') : Attended s' := by
  cases hm with
  | halted e =>
    refine ⟨fun p hp => ?_, h.seat, h.away⟩
    obtain ⟨x, hx⟩ := h.holder p hp
    exact ⟨x, by cases x <;> exact hx⟩
  | @thread _ t i cs new s₁ hon hcode he =>
    refine ⟨fun p hp => holder_thread hc h hon hcode he p hp, fun k hk => ?_, fun u hu => ?_⟩
    · by_cases hkl : k = l
      · subst hkl
        by_cases hsw : ∃ q sv m, i = swtch q sv m
        · obtain ⟨q, sv, m, rfl⟩ := hsw
          obtain ⟨-, -, hlw⟩ := switch_mode he
          rw [State.setCtx_lwps, hlw] at hk
          cases m <;> simp at hk
        · obtain ⟨-, hcur, -⟩ := effect_lwps he (fun q sv m e => hsw ⟨q, sv, m, e⟩) k
          rw [State.setCtx_lwps, hcur, hon.2]
          simp
      · by_cases hsw : ∃ q sv m, i = swtch q sv m
        · obtain ⟨q, sv, m, rfl⟩ := hsw
          have hother := (switch_lwp he).2.2 k hkl
          rw [State.setCtx_lwps, hother] at hk ⊢
          exact h.seat k hk
        · obtain ⟨hmode, hcur, -⟩ := effect_lwps he (fun q sv m e => hsw ⟨q, sv, m, e⟩) k
          rw [State.setCtx_lwps, hmode] at hk
          rw [State.setCtx_lwps, hcur]
          exact h.seat k hk
    · by_cases hut : u = t
      · subst hut
        rw [State.setCtx_uthreads, if_pos rfl]
        by_cases hsw : ∃ q sv m, i = swtch q sv m
        · obtain ⟨q, sv, m, rfl⟩ := hsw
          have hwf := hc.codes.wf u
          rw [hcode] at hwf
          obtain ⟨rfl, -, -⟩ := switch_mode he
          exact hwf.1.detachOnly
        · -- it is still there
          refine absurd ((onStack_thread hon he (k := l)).2.2 ⟨rfl, ?_⟩) (hu l)
          exact fun q sv m e => hsw ⟨q, sv, m, e⟩
      · rcases other_code cs he hut with e | ⟨-, -, e⟩
        · rw [e]
          apply h.away
          intro k honu
          by_cases hkl : k = l
          · subst hkl
            exact hut (Option.some.inj (honu.2.symm.trans hon.2))
          · exact hu k (((onStack_thread hon he).1 hkl).1.2 honu)
        · rw [e]
          exact .of_free (by simp [threadStartCode])
  | call t c hon hcode =>
    refine ⟨fun p hp => ?_, h.seat, fun u hu => ?_⟩
    · obtain ⟨x, hx⟩ := h.holder p hp
      refine ⟨x, ?_⟩
      cases x with
      | inr k => exact hx
      | inl u =>
        have hut : u ≠ t := by
          rintro rfl
          simp [HeldBy, hcode] at hx
        simpa [HeldBy, hut] using hx
    · have hut : u ≠ t := by
        rintro rfl
        exact hu l hon
      simpa [hut] using h.away u hu
  | preempt t hon hm hst h0 =>
    refine ⟨fun p hp => ?_, fun k hk => ?_, fun u hu => ?_⟩
    · obtain ⟨x, hx⟩ := h.holder p hp
      refine ⟨x, ?_⟩
      cases x with
      | inr k =>
        by_cases hk : k = l
        · subst hk; simpa [HeldBy] using hx
        · simpa [HeldBy, hk] using hx
      | inl u =>
        by_cases hut : u = t
        · subst hut
          exact absurd hx (calm_held (hc.codes.wf u) (preemptible hc hon h0))
        · simpa [HeldBy, hut] using hx
    · by_cases hkl : k = l
      · subst hkl
        simp [hon.2]
      · simpa [hkl] using h.seat k (by simpa [hkl] using hk)
    · have hon' : ∀ k, ¬ OnStack s k u := by
        intro k hk
        apply hu k
        by_cases hkl : k = l
        · subst hkl; simpa [OnStack] using hk
        · simpa [OnStack, hkl] using hk
      have hut : u ≠ t := by
        rintro rfl
        exact hon' l hon
      simpa [hut] using h.away u hon'
  | acquire m hm hst ho hs =>
    refine attended_lwp (l := l) h (fun u => by simp [hs.uthreads]) (fun k hk => by simp [hs.lwps, hk])
      ?_ ?_ .runqMtx (fun q hq => by simp [hs.pmtx, hq]) (fun q hq => ?_) ?_
    all_goals rcases hm with ⟨hm, rfl⟩ | ⟨hm, rfl⟩ <;> simp_all [hs.lwps, hs.pmtx]
  | unlock p hm ho =>
    have hne := hc.places.unlocking l p hm
    refine attended_lwp (l := l) h (fun _ => rfl) (fun k hk => by simp [hk]) (by simp) (by simp [hm]) p
      (fun q hq => by simp [hq]) (fun q hq => by simp [hm, hq]) (by simp)
  | dispatch t hm hd =>
    obtain ⟨p, x, -, -, rfl⟩ := dispatchBody_some hd
    refine attended_lwp (l := l) h (fun u => by simp [State.setState]) (fun k hk => by simp [hk])
      (by simp) (by simp [hm]) .runqMtx (fun _ _ => rfl) (fun q _ => by simp [hm]) (by simp)
  | idle m hm hs =>
    refine attended_lwp (l := l) h (fun u => by simp [hs.uthreads]) (fun k hk => by simp [hs.lwps, hk])
      ?_ ?_ .runqMtx (fun q _ => by simp [hs.pmtx]) (fun q _ => ?_) ?_
    all_goals rcases hm with ⟨hm, rfl⟩ | ⟨hm, rfl⟩ <;> simp_all [hs.lwps, hs.pmtx]
  | leave m hm ho hs =>
    have hseat := h.seat l
    refine attended_lwp (l := l) h (fun u => by simp [hs.uthreads]) (fun k hk => by simp [hs.lwps, hk])
      ?_ ?_ .runqMtx (fun q hq => by simp [hs.pmtx, hq]) (fun q hq => ?_) ?_
    all_goals rcases hm with ⟨hm, rfl⟩ | ⟨hm, rfl⟩ <;> simp_all [hs.lwps, hs.pmtx]

theorem boot_attended : Attended (boot N L) := by
  refine ⟨fun p hp => ?_, fun l hl => ?_, fun t _ => ?_⟩
  · have hrunq : p = .runqMtx := by
      cases p with
      | runqMtx => rfl
      | utPmut i =>
        simp only [boot] at hp
        split_ifs at hp <;> simp at hp
      | _ => simp [boot] at hp
    subst hrunq
    exact ⟨.inr 0, by simp [HeldBy, boot]⟩
  · simp only [boot] at hl
    split_ifs at hl <;> simp at hl
  · rcases boot_code (L := L) t with e | e | e <;> rw [e]
    · exact .of_free (by simp [threadStartCode])
    · exact .of_free held_reaper
    · exact .of_free held_nil

/-! ## Who can take a step -/

/-- The LWP can take its next step, or is in its user's code. -/
def Lively (s : State N L) (l : Fin L) : Prop :=
  (∃ s', anyStep s (l, .exec) = some s') ∨ ∃ t, OnStack s l t ∧ (s.uthreads t).utCtx = []

/-- An LWP that cannot go on waits for a POSIX mutex, or in `lwp_park` for a signal. -/
theorem waits_of_not_lively (hh : s.halt = none) (ha : Attended s) (hl : ¬ Lively s l) :
    (∃ x p, Blocked s x p ∧ Seat s l x) ∨ (s.lwps l).mode = .parked ∧ s.parkSignals = 0 := by
  have hstep : step s l .exec = none := by
    by_contra hne
    obtain ⟨s', hs'⟩ := Option.ne_none_iff_exists'.1 hne
    exact hl (.inl ⟨s', hs'⟩)
  unfold step at hstep
  rw [if_neg (by simp [hh])] at hstep
  cases hm : (s.lwps l).mode with
  | running =>
    obtain ⟨t, ht⟩ := Option.ne_none_iff_exists'.1 (ha.seat l (.inl hm))
    have hon : OnStack s l t := ⟨hm, ht⟩
    simp only [hm, ht] at hstep
    unfold stepThread at hstep
    split at hstep
    · exact absurd (.inr ⟨t, hon, ‹_›⟩) hl
    · split_ifs at hstep with hb
      exact .inl ⟨.inl t, _, ⟨l, _, hon, ‹_›, hb⟩, hon⟩
    · cases hstep
  | start =>
    simp only [hm, stepLwp] at hstep
    split_ifs at hstep with hb
    exact .inl ⟨.inr l, .runqMtx, ⟨rfl, .inl hm, hb⟩, rfl⟩
  | parked =>
    simp only [hm, stepLwp] at hstep
    split_ifs at hstep with hb
    rcases hb with hb | hb
    · exact .inl ⟨.inr l, .runqMtx, ⟨rfl, .inr hm, hb⟩, rfl⟩
    · exact .inr ⟨rfl, hb⟩
  | _ => simp [hm, stepLwp] at hstep

/-- Some LWP that has started is not in `lwp_park`. -/
theorem ParkInv.awake_lwp (h : ParkInv s) :
    ∃ l, (s.lwps l).mode.started = true ∧ (s.lwps l).mode.inPark = false := by
  apply Count.exists_of_lt (p := LwpMode.inPark) (q := LwpMode.started) (f := modes s)
  rw [← h.parked, ← h.cnt]
  exact h.awake

/-- **The library hangs only in a detach.** As long as the process runs, some LWP can take its next
step or is in its user's code; if none is, a thread has been switched out in `uthread_detach` with the
`ut_pmut` of the zombie that it detaches, and an LWP is blocked in the lock of that `ut_pmut`. -/
theorem hangs_in_detach {s : State (N + 2) (L + 1)} (h : Reachable Runs.always (boot N L) s)
    (hh : s.halt = none) :
    (∃ l, Lively s l) ∨ ∃ t u k l v cs, (∀ k, ¬ OnStack s k t) ∧
      detachReap u k ∈ (s.uthreads t).utCtx ∧ Held (.utPmut u) (s.uthreads t).utCtx ∧
      OnStack s l v ∧ (s.uthreads v).utCtx = lock (.utPmut u) :: cs := by
  have hc := core_reachable boot_core h
  have ha : Attended s := h.invariant_of (fun _ hr => core_reachable boot_core hr) boot_attended
    fun _ _ _ hc ha _ hn => attended_step hc ha (step_move hc.codes.wf hn)
  have hp := park_reachable boot_core boot_park h
  by_cases hlive : ∃ l, Lively s l
  · exact .inl hlive
  right
  have hwait : ∀ l, (∃ x p, Blocked s x p ∧ Seat s l x) ∨
      (s.lwps l).mode = .parked ∧ s.parkSignals = 0 :=
    fun l => waits_of_not_lively hh ha fun hl => hlive ⟨l, hl⟩
  -- an LWP that is not in `lwp_park` waits for a mutex
  obtain ⟨l, hst, hpk⟩ := hp.awake_lwp
  obtain ⟨x, p, hx⟩ : ∃ x p, Blocked s x p := by
    rcases hwait l with ⟨x, p, hx, -⟩ | ⟨hm, -⟩
    · exact ⟨x, p, hx⟩
    · rw [hm] at hpk
      cases hpk
  have hheld : ∀ x p, Blocked s x p → ∃ y, Holds s y p := by
    intro x p hx
    have howner : ∀ l, lockBlocked s l p = true → (s.pmtx p).owner ≠ none := by
      intro l hb
      simp only [lockBlocked, Bool.and_eq_true] at hb
      exact Option.isSome_iff_ne_none.1 hb.1.2
    cases x with
    | inl t =>
      obtain ⟨l, cs, -, -, hb⟩ := hx
      exact ha.holder p (howner l hb)
    | inr k => exact ha.holder p (howner k hx.2.2)
  obtain ⟨y, q, z, hy, hz, hfree⟩ := hc.ordered.exists_free hheld hx
  cases y with
  | inr k =>
    -- an LWP that holds a mutex in its own code goes on
    exfalso
    have hk : q ∈ (s.lwps k).mode.holds := hy
    rcases hwait k with ⟨x, p, hx, hs⟩ | ⟨hm, -⟩
    · cases x with
      | inl t =>
        obtain ⟨hm, -⟩ : OnStack s k t := hs
        simp [hm] at hk
      | inr k' =>
        obtain rfl : k' = k := hs
        exact hfree p hx
    · simp [hm] at hk
  | inl t =>
    have hoff : ∀ k, ¬ OnStack s k t := by
      intro k hon
      rcases hwait k with ⟨x, p, hx, hs⟩ | ⟨hm, -⟩
      · cases x with
        | inl t' =>
          have hon' : OnStack s k t' := hs
          obtain rfl := Option.some.inj (hon.2.symm.trans hon'.2)
          exact hfree p hx
        | inr k' =>
          obtain rfl : k' = k := hs
          rcases hx.2.1 with hm | hm <;> rw [hon.1] at hm <;> cases hm
      · rw [hon.1] at hm
        cases hm
    obtain ⟨u, k, rfl, hmem⟩ := ha.away t hoff q hy
    cases z with
    | inl v =>
      obtain ⟨l, cs, hon, hcode, -⟩ := hz
      exact ⟨t, u, k, l, v, cs, hoff, hmem, hy, hon, hcode⟩
    | inr l => cases hz.1

instance (s : State N L) (l : Fin L) : Decidable (Lively s l) :=
  decidable_of_iff ((anyStep s (l, .exec)).isSome = true ∨
    ∃ t, OnStack s l t ∧ (s.uthreads t).utCtx = []) (by rw [Option.isSome_iff_exists]; rfl)

/-- Two LWPs, two zombies. The first thread and thread 4 each detach one of them and have to wait for
`reap_mtx`; then threads 5 and 6, on the other LWP each, call `uthread_join` on them. -/
def detachJoin (l k : Fin L) : List (Fin L × Act) :=
  turns l 4 ++ [(l, .call (.create 6))] ++ turns l 23 ++ [(l, .call (.create 6))] ++ turns l 23 ++
    turns k 27 ++ [(k, .call (.exit 0))] ++ turns k 20 ++ [(l, .call (.create 5))] ++ turns l 23 ++
    [(l, .call (.create 7))] ++ turns l 23 ++ [(l, .call (.create 4))] ++ turns l 23 ++
    [(l, .call (.setprio 0 0))] ++ turns l 6 ++ [(k, .call (.exit 0))] ++ turns k 6 ++
    [(l, .call (.detach 2))] ++ turns l 13 ++ turns k 20 ++ [(k, .call (.detach 3))] ++ turns k 13 ++
    [(k, .call (.join 2))] ++ turns k 1 ++ [(l, .call (.join 3))] ++ turns l 1

/-- There the library does hang: no LWP can move. -/
theorem detach_hangs : ∃ s : State 7 2, Reachable Runs.always (boot 5 1) s ∧ (∀ l, ¬ Lively s l) ∧
    ∃ t u k l v cs, (∀ k, ¬ OnStack s k t) ∧ detachReap u k ∈ (s.uthreads t).utCtx ∧
      Held (.utPmut u) (s.uthreads t).utCtx ∧ OnStack s l v ∧
      (s.uthreads v).utCtx = lock (.utPmut u) :: cs := by
  obtain ⟨s, hs, hh, hl⟩ : ∃ s : State 7 2, Reachable Runs.always (boot 5 1) s ∧ s.halt = none ∧
      ∀ l, ¬ Lively s l := Runs.exists_reach (detachJoin 0 1) (by decide +kernel)
  exact ⟨s, hs, hl, (hangs_in_detach hs hh).resolve_left fun ⟨l, h⟩ => hl l h⟩

end Uthreads
