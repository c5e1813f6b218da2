import Uthreads.Proof.Reaper

/-!
# The end of the process

The reaper ends the process when it finds every slot but its own free. It reads the slots one at a
time and without a lock; `reaper_exits` says that it misses no thread, that it sleeps only while there
is another thread, and that it is awake, or about to be woken, while there is a thread to destroy.
-/

namespace Uthreads

variable {N L : ℕ} {l : Fin L} {t u v : Fin N} {s s' s₁ : State N L} {i : Instr N} {c cs new : Code N}
  {a : Act}

open Instr

/-- The code of the reaper thread. -/
def reaperCtx (s : State N L) : Code N := (s.uthreads s.reaperThrId).utCtx

/-- The switch that puts the reaper to sleep on `reap_cond` is still ahead. -/
def ToSleep (c : Code N) : Prop := ∃ sv m, swtch (some (.ucWaiters .reapCond)) sv m ∈ c

/-- The code is in `make_reapable`, before its signal of `reap_cond`. -/
def Signals (c : Code N) : Prop :=
  ∃ pre post, pre <:+ [nopreemptOn, lock (.cPmut .reapCond)] ∧
    c = pre ++ signalTest .reapCond :: post ∧ Owns .reapMtx post ∧ (∃ u, Held (.utPmut u) post) ∧
      signalTest .reapCond ∉ post

/-- The slots that the scan has passed are free, or some slot in front of it is in use. -/
def ScanInv (s : State N L) (th : ℕ) : Prop :=
  (∀ v : Fin N, (v : ℕ) < th → v ≠ s.reaperThrId → (s.uthreads v).utState = .noState) ∨
    ∃ v : Fin N, th ≤ v ∧ v ≠ s.reaperThrId ∧ (s.uthreads v).utState ≠ .noState

/-- What holds of the reaper. -/
structure ReaperInv (s : State N L) : Prop where
  live : Alive s s.reaperThrId
  code : ReaperCode (reaperCtx s)
  others : ∀ t, t ≠ s.reaperThrId → ∀ j ∈ (s.uthreads t).utCtx, j.reaps = false
  user : (reaperCtx s).getLast? = some reaperWait →
    ∃ v, v ≠ s.reaperThrId ∧ (s.uthreads v).utState ≠ .noState
  scan : ∀ th, reaperCtx s = [reaperScan th] → ScanInv s th
  sleeper : ∀ u ∈ (s.queues (.ucWaiters .reapCond)).tqWaiters, u = s.reaperThrId ∧
    reaperCtx s = resume :: reaperTail
  signals : ∀ v, signalTest .reapCond ∈ (s.uthreads v).utCtx → Signals (s.uthreads v).utCtx
  signal : ToSleep (reaperCtx s) ∨ s.reaperThrId ∈ (s.queues (.ucWaiters .reapCond)).tqWaiters →
    (s.queues .reapQueue).tqWaiters = [] ∨ ∃ v, signalTest .reapCond ∈ (s.uthreads v).utCtx

/-! ## Consequences -/

theorem Signals.owns (h : Signals c) : Owns .reapMtx c := by
  obtain ⟨pre, post, hp, rfl, ho, -⟩ := h
  simp only [List.suffix_cons_iff, List.suffix_nil] at hp
  rcases hp with rfl | rfl | rfl <;> simp [ho]

/-- A thread in `make_reapable` is not preempted. -/
theorem Signals.depth_pos (h : Signals c) (hwf : Wf t c) : 0 < depth c := by
  obtain ⟨pre, post, hp, rfl, -, ⟨u, hu⟩, -⟩ := h
  refine hwf.depth_pos (p := .utPmut u) ?_
  simp only [List.suffix_cons_iff, List.suffix_nil] at hp
  rcases hp with rfl | rfl | rfl <;> simp [hu]

/-- A thread of the reaper's loop is the reaper. -/
theorem ReaperInv.is_reaper (h : ReaperInv s) (hcode : (s.uthreads t).utCtx = i :: cs)
    (hi : i.reaps = true) : t = s.reaperThrId := by
  by_contra hne
  have := h.others t hne i (by rw [hcode]; exact List.mem_cons_self)
  rw [hi] at this
  cases this

/-- Which step frees a slot, and which takes a free one. -/
inductive FreeTurn (s : State N L) (l : Fin L) (v : Fin N) (st : UthreadState) : Prop
  | same (h : st = .noState ↔ (s.uthreads v).utState = .noState)
  | taken (t : Fin N) (start : ℕ) (prio : ℤ) (cs : Code N) (hon : OnStack s l t)
    (hcode : (s.uthreads t).utCtx = allocScan start prio :: cs) (h : st ≠ .noState)
  | freed (t : Fin N) (cs : Code N) (hon : OnStack s l t)
    (hcode : (s.uthreads t).utCtx = destroy .state v :: cs)

theorem free_turn (hc : Core s) (h : Turn s l a s') (v : Fin N) :
    FreeTurn s l v (s'.uthreads v).utState := by
  cases h with
  | @thread _ t i cs new s₁ hon hcode he =>
    have hst : ((s₁.setCtx t (new ++ cs)).uthreads v).utState = (s₁.uthreads v).utState := by simp
    rw [hst]
    have hrun : (s.uthreads t).utState ≠ .noState := by
      rw [(hc.active hon).1]
      unfold expect
      split_ifs <;> decide
    cases effect_state he v with
    | same h => exact .same (by rw [h])
    | saved hi hv hz h' => exact .same (by subst hv; rw [h']; exact ⟨by simp, fun h => absurd h hrun⟩)
    | woken hi h h' => exact .same (by rw [h, h']; simp)
    | started prio hi h h' => exact .same (by rw [h, h']; simp)
    | blocked hi hv h' => exact .same (by subst hv; rw [h']; exact ⟨by simp, fun h => absurd h hrun⟩)
    | allocated start prio hi h h' =>
      subst hi
      exact .taken t start prio cs hon hcode (by rw [h']; decide)
    | exited st hi h' =>
      have hwf := hc.codes.wf t
      rw [hcode, hi] at hwf
      obtain rfl : v = t := hwf.1.1
      exact .same (by rw [h']; exact ⟨by simp, fun h => absurd h hrun⟩)
    | destroyed hi =>
      subst hi
      exact .freed t cs hon hcode
  | call t c hon hcode => exact .same (by simp)
  | preempt t hon hm hst h0 => exact .same (by simp)
  | lwp hb =>
    refine .same ?_
    rcases hb.state v with ⟨e, -⟩ | ⟨e, e', -⟩
    · rw [e]
    · rw [e, e']; simp

/-! ## What a step does to the reaper -/

theorem reaper_same (h : Turn s l a s') : s'.reaperThrId = s.reaperThrId := by
  cases h with
  | thread t i cs new hon hcode he hh => exact hh.reaperThrId
  | call | preempt => rfl
  | lwp hb => exact hb.hist.reaperThrId

/-- What a step does to the code of the reaper. -/
inductive ReaperTurn (s : State N L) (l : Fin L) (s' : State N L) : Prop
  | same (h : reaperCtx s' = reaperCtx s)
  | loop (i : Instr N) (cs new : Code N) {s₁ : State N L} (hon : OnStack s l s.reaperThrId)
    (hcode : reaperCtx s = i :: cs) (heff : Effect l s.reaperThrId s i s₁ new)
    (hs : s' = s₁.setCtx s.reaperThrId (new ++ cs)) (h : reaperCtx s' = new ++ cs)
  | preempt (hon : OnStack s l s.reaperThrId) (h : reaperCtx s' = clockInterrupt ++ reaperCtx s)
    (hr : ReaperCode (clockInterrupt ++ reaperCtx s)) (hq : s'.queues = s.queues)

theorem reaper_turn (hc : Core s) (hi : ReaperInv s) (h : Turn s l a s') : ReaperTurn s l s' := by
  have hid := reaper_same h
  have hctx : reaperCtx s' = (s'.uthreads s.reaperThrId).utCtx := by rw [reaperCtx, hid]
  cases h with
  | @thread _ t i cs new s₁ hon hcode he hh =>
    by_cases hr : s.reaperThrId = t
    · refine .loop i cs new (hr ▸ hon) (by rw [reaperCtx, hr, hcode]) (by rw [hr]; exact he)
        (by rw [hr]) ?_
      rw [hctx, hr]
      simp
    · refine .same ?_
      rw [hctx]
      rcases other_code cs he hr with e | ⟨-, hv, -⟩
      · exact e
      · -- the slot of the reaper is in use
        have := (hc.vacant hv).2.1
        exact (this.elim hi.live.1 hi.live.2.1).elim
  | call t c hon hcode =>
    by_cases hr : s.reaperThrId = t
    · refine absurd ?_ hi.code.ne_nil
      rw [reaperCtx, hr, hcode]
    · exact .same (by rw [hctx]; simp [hr, reaperCtx])
  | preempt t hon hm hst h0 =>
    by_cases hr : s.reaperThrId = t
    · subst hr
      refine .preempt hon ?_ (hi.code.preempt (hc.codes.wf _) (preemptible hc hon h0)) rfl
      rw [hctx]
      simp [reaperCtx]
    · exact .same (by rw [hctx]; simp [hr, reaperCtx])
  | lwp hb => exact .same (by rw [hctx]; exact (hb.fields _).1)

/-- The code of the reaper is never that of `uthread_exit`. -/
theorem live_step (hc : Core s) (hi : ReaperInv s) (h : Turn s l a s') : Alive s' s.reaperThrId := by
  refine alive_step hc h hi.live fun status cs hcode => ?_
  have hwf := hc.codes.wf s.reaperThrId
  rw [hcode] at hwf
  have hlast := hi.code.last
  rw [reaperCtx, hcode, hwf.1.2] at hlast
  rcases hlast with e | e | e | ⟨th, e⟩
  · simp at e
  · simp at e
  · have := e.mem (i := exitTest s.reaperThrId status) List.mem_cons_self
    simp at this
  · simp at e

theorem code_step (hc : Core s) (hi : ReaperInv s) (h : Turn s l a s') : ReaperCode (reaperCtx s') := by
  cases reaper_turn hc hi h with
  | same e => rw [e]; exact hi.code
  | loop i cs new hon hcode he _ e =>
    have hwf := hc.codes.wf s.reaperThrId
    rw [← reaperCtx, hcode] at hwf
    rw [e]
    exact (hcode ▸ hi.code).step hwf.1 he
  | preempt _ e hr => rw [e]; exact hr

theorem interrupt_reaps : ∀ j ∈ (clockInterrupt : Code N), j.reaps = false := by
  simp [clockInterrupt, uthreadYield, uthreadSwitch]

theorem others_step (hi : ReaperInv s) (h : Turn s l a s') (t : Fin N) (ht : t ≠ s.reaperThrId) :
    ∀ j ∈ (s'.uthreads t).utCtx, j.reaps = false := by
  have hold := hi.others t ht
  cases code_turn h t with
  | same e => rw [e]; exact hold
  | thread i cs new hon hcode he e =>
    rw [hcode] at hold
    rw [e]
    intro j hj
    rcases List.mem_append.1 hj with hj | hj
    · rcases effect_reaps he with hr | hr
      · rw [hold i List.mem_cons_self] at hr; cases hr
      · exact hr j hj
    · exact hold j (List.mem_cons_of_mem i hj)
  | create _ _ _ _ _ _ e => rw [e]; simp [threadStartCode]
  | call c _ _ _ e => rw [e]; exact call_reaps _ _ c
  | preempt _ _ _ _ e =>
    rw [e]
    intro j hj
    rcases List.mem_append.1 hj with hj | hj
    · exact interrupt_reaps j hj
    · exact hold j hj

/-! ## The threads of the user -/

/-- A slot in use stays in use, unless the reaper is about to free it. -/
theorem used_step (hc : Core s) (hi : ReaperInv s) (h : Turn s l a s')
    (hv : (s.uthreads v).utState ≠ .noState) : (s'.uthreads v).utState ≠ .noState ∨
      reaperCtx s = [destroy .state v, reaperDrain] := by
  cases free_turn hc h v with
  | same e => exact .inl fun h => hv (e.1 h)
  | taken _ _ _ _ _ _ h => exact .inl h
  | freed t cs hon hcode =>
    have hr := hi.is_reaper hcode rfl
    have hwf := hc.codes.wf t
    rw [hcode] at hwf
    have hcs : cs = [reaperDrain] := hwf.1
    right
    rw [reaperCtx, ← hr, hcode, hcs]

theorem user_step (hc : Core s) (hi : ReaperInv s) (h : Turn s l a s')
    (hl : (reaperCtx s').getLast? = some reaperWait) :
    ∃ v, v ≠ s.reaperThrId ∧ (s'.uthreads v).utState ≠ .noState := by
  have hkeep : (reaperCtx s).getLast? = some reaperWait →
      ∃ v, v ≠ s.reaperThrId ∧ (s'.uthreads v).utState ≠ .noState := by
    intro hlast
    obtain ⟨v, hv, hst⟩ := hi.user hlast
    refine ⟨v, hv, (used_step hc hi h hst).resolve_right fun e => ?_⟩
    rw [e] at hlast
    cases hlast
  rcases hi.code.last with hlast | hlast
  · exact hkeep hlast
  cases reaper_turn hc hi h with
  | same e => exact hkeep (e ▸ hl)
  | preempt _ e hr =>
    rw [e, List.getLast?_append_of_ne_nil _ hi.code.ne_nil] at hl
    exact hkeep hl
  | loop i cs new hon hcode he hs e =>
    -- the reaper comes back to the test only from the scan
    rw [hcode] at hlast
    rw [e] at hl
    rcases hlast with h | h | ⟨th, h⟩
    · obtain ⟨rfl, rfl⟩ := List.cons.inj h
      cases he with
      | plain hp => cases hp; cases hl
      | take _ _ _ h => rcases h with ⟨h, -⟩ | ⟨h, -⟩ <;> cases h
      | signal _ _ _ _ h => rcases h with ⟨h, -⟩ | ⟨h, -⟩ <;> cases h
      | drain u => cases hl
    · rcases h.step he with e' | h'
      · rw [e'] at hl; cases hl
      · rw [h'.getLast] at hl; cases hl
    · obtain ⟨rfl, rfl⟩ := List.cons.inj h
      cases he with
      | plain hp hsame =>
        cases hp with
        | scanFound th hth hr hst =>
          refine ⟨⟨th, hth⟩, hr, ?_⟩
          rw [hs]
          simpa [hsame.uthreads] using hst
        | scanNext => cases hl
      | take _ _ _ h => rcases h with ⟨h, -⟩ | ⟨h, -⟩ <;> cases h
      | signal _ _ _ _ h => rcases h with ⟨h, -⟩ | ⟨h, -⟩ <;> cases h

/-- **The scan misses nobody.** A slot that it has passed can only be taken by a thread that it has
not reached yet. -/
theorem scan_step (hc : Core s) (hi : ReaperInv s) (h : Turn s l a s') {th : ℕ}
    (hth : reaperCtx s' = [reaperScan th]) : ScanInv s' th := by
  have hid := reaper_same h
  have hkeep : reaperCtx s = [reaperScan th] → ScanInv s' th := by
    intro hcode
    have hused : ∀ v, (s.uthreads v).utState ≠ .noState → (s'.uthreads v).utState ≠ .noState :=
      fun v hv => (used_step hc hi h hv).resolve_right fun e => by rw [hcode] at e; cases e
    unfold ScanInv
    rw [hid]
    rcases hi.scan th hcode with hfree | ⟨v, hv, hr, hst⟩
    · by_cases hall : ∀ v : Fin N, (v : ℕ) < th → v ≠ s.reaperThrId →
          (s'.uthreads v).utState = .noState
      · exact .inl hall
      · -- a slot behind the scan has been taken, by a thread that is in front of it
        right
        simp only [not_forall] at hall
        obtain ⟨v, hv, hr, hst⟩ := hall
        cases free_turn hc h v with
        | same e => exact absurd (e.2 (hfree v hv hr)) hst
        | freed t cs hon hcode' =>
          have := hi.is_reaper hcode' rfl
          rw [this, ← reaperCtx, hcode] at hcode'
          cases hcode'
        | taken t start prio cs hon hcode' =>
          have ht : t ≠ s.reaperThrId := by
            rintro rfl
            rw [← reaperCtx, hcode] at hcode'
            cases hcode'
          have hrun : (s.uthreads t).utState ≠ .noState := by
            rw [(hc.active hon).1]
            unfold expect
            split_ifs <;> decide
          refine ⟨t, ?_, ht, hused t hrun⟩
          by_contra hlt
          exact hrun (hfree t (not_le.1 hlt) ht)
    · exact .inr ⟨v, hv, hr, hused v hst⟩
  cases reaper_turn hc hi h with
  | same e => exact hkeep (e ▸ hth)
  | preempt _ e hr =>
    rw [hth] at e
    exact absurd (congrArg List.length e) (by simp [clockInterrupt, uthreadYield, uthreadSwitch])
  | loop i cs new hon hcode he hs e =>
    rw [hth] at e
    have hwf := hc.codes.wf s.reaperThrId
    rw [← reaperCtx, hcode] at hwf
    have hmem : reaperScan th ∈ new ∨ reaperScan th ∈ cs := by
      rw [← List.mem_append, ← e]
      exact List.mem_singleton.2 rfl
    rcases hi.code.last with hlast | hlast | hlast | ⟨th', hlast⟩
    · -- the test of the queue does not lead to the scan
      exfalso
      rw [hcode] at hlast
      by_cases hne : cs = []
      · subst hne
        obtain rfl : i = reaperWait := by simpa using hlast
        cases he with
        | plain hp => cases hp <;> cases e
        | take _ _ _ h => rcases h with ⟨h, -⟩ | ⟨h, -⟩ <;> cases h
        | signal _ _ _ _ h => rcases h with ⟨h, -⟩ | ⟨h, -⟩ <;> cases h
      · obtain ⟨x, hx⟩ := Option.ne_none_iff_exists'.1 (mt List.getLast?_eq_none_iff.1 hne)
        have hx' : x = reaperWait := by simpa [List.getLast?_cons, hx] using hlast
        have := congrArg List.getLast? e
        rw [List.getLast?_append_of_ne_nil _ hne, hx, hx'] at this
        cases this
    · rw [hcode] at hlast
      obtain ⟨rfl, rfl⟩ := List.cons.inj hlast
      cases he with
      | plain hp =>
        cases hp
        cases e
        exact .inl fun v hv => absurd hv (Nat.not_lt_zero v)
      | take _ _ _ h => rcases h with ⟨h, -⟩ | ⟨h, -⟩ <;> cases h
      | signal _ _ _ _ h => rcases h with ⟨h, -⟩ | ⟨h, -⟩ <;> cases h
      | drain u => cases e
    · rw [hcode] at hlast
      rcases hlast.step he with e' | h'
      · rw [e'] at e; cases e
      · have := h'.getLast
        rw [← e] at this
        cases this
    · have hold := hi.scan th' hlast
      rw [hcode] at hlast
      obtain ⟨rfl, rfl⟩ := List.cons.inj hlast
      cases he with
      | plain hp hsame =>
        cases hp with
        | scanFound => cases e
        | scanNext _ hth' hst =>
          -- the slot is the reaper's own, or free
          cases e
          have hstate : ∀ v, (s'.uthreads v).utState = (s.uthreads v).utState := fun v => by
            rw [hs]; simp [hsame.uthreads]
          unfold ScanInv
          simp only [hid, hstate]
          rcases hold with hfree | ⟨v, hv, hr, hst'⟩
          · refine .inl fun v hv hr => ?_
            rcases Nat.lt_succ_iff_lt_or_eq.1 hv with hlt | heq
            · exact hfree v hlt hr
            · obtain rfl : v = ⟨th', hth'⟩ := Fin.ext heq
              exact hst hr
          · refine .inr ⟨v, Nat.lt_of_le_of_ne hv ?_, hr, hst'⟩
            rintro rfl
            exact hst' (hst hr)
      | take _ _ _ h => rcases h with ⟨h, -⟩ | ⟨h, -⟩ <;> cases h
      | signal _ _ _ _ h => rcases h with ⟨h, -⟩ | ⟨h, -⟩ <;> cases h

/-! ## Sleeping and waking -/

/-- Who is on the queue of `reap_cond` after a step: only the reaper's switch puts a thread there. -/
theorem sleeps_turn (hi : ReaperInv s) (h : Turn s l a s')
    (hu : u ∈ (s'.queues (.ucWaiters .reapCond)).tqWaiters) :
    u ∈ (s.queues (.ucWaiters .reapCond)).tqWaiters ∨
      u = s.reaperThrId ∧ ToSleep (reaperCtx s) ∧ reaperCtx s' = resume :: reaperTail := by
  have hid := reaper_same h
  cases h with
  | @thread _ t i cs new s₁ hon hcode he =>
    rw [State.setCtx_queues] at hu
    by_cases hq : QueueId.ucWaiters .reapCond ∈ i.queues
    · cases he with
      | plain hp hs => rw [hs.queues] at hu; exact .inl hu
      | @swtch q sv m _ hsw =>
        obtain rfl : q = some (.ucWaiters .reapCond) := by simpa using hq
        have hr := hi.is_reaper hcode rfl
        subst hr
        have htail : cs = resume :: reaperTail := by
          have := hi.code
          rw [reaperCtx, hcode] at this
          exact this.switch
        cases hsw with
        | queue _ p hs₁ hs =>
          obtain ⟨-, rfl⟩ := utqueueEnqueue_ok hs₁
          have hu' : u ∈ (s.queues (.ucWaiters .reapCond)).tqWaiters ∨ u = s.reaperThrId := by
            simpa [hs.queues] using hu
          refine hu'.imp_right fun e => ⟨e, ⟨false, some p, ?_⟩, ?_⟩
          · rw [reaperCtx, hcode]; exact List.mem_cons_self
          · rw [reaperCtx, hid]
            simpa using htail
      | signal c w hdq hs hnew =>
        obtain ⟨x, hx, rfl⟩ := utqueueDequeue_some hdq
        obtain rfl : c = .reapCond := by
          rcases hnew with ⟨rfl, -⟩ | ⟨rfl, -⟩ <;> simpa [eq_comm] using hq
        left
        rw [hx]
        exact List.mem_cons_of_mem w (by simpa [hs.queues] using hu)
      | create => cases (queues_createInit hq).2
      | destroy => cases (queues_destroy hq).2
      | take _ _ _ hnew => rcases hnew with ⟨rfl, -⟩ | ⟨rfl, -⟩ <;> simp at hq
      | _ => simp at hq
    · rw [effect_queues he (by simp) hq] at hu
      exact .inl hu
  | call | preempt => exact .inl hu
  | lwp hb => rw [hb.queues _ (by simp)] at hu; exact .inl hu

/-- While the reaper sleeps its code stays. -/
theorem asleep_same (hc : Core s) (hi : ReaperInv s) (h : Turn s l a s')
    (hr : s.reaperThrId ∈ (s.queues (.ucWaiters .reapCond)).tqWaiters) :
    reaperCtx s' = reaperCtx s := by
  cases reaper_turn hc hi h with
  | same e => exact e
  | loop _ _ _ hon => exact absurd hr (hc.not_queued hon (by simp) (by simp))
  | preempt hon => exact absurd hr (hc.not_queued hon (by simp) (by simp))

theorem sleeper_step (hc : Core s) (hi : ReaperInv s) (h : Turn s l a s')
    (hu : u ∈ (s'.queues (.ucWaiters .reapCond)).tqWaiters) :
    u = s.reaperThrId ∧ reaperCtx s' = resume :: reaperTail := by
  rcases sleeps_turn hi h hu with hold | ⟨rfl, -, e⟩
  · obtain ⟨rfl, hcode⟩ := hi.sleeper u hold
    exact ⟨rfl, (asleep_same hc hi h hold).trans hcode⟩
  · exact ⟨rfl, e⟩

theorem call_signals (inc : Fin N → ℕ) (t : Fin N) (call : Call) :
    signalTest .reapCond ∉ call.code inc t :=
  fun h => by simpa using call_called inc t call _ h

/-- A thread that is about to signal `reap_cond` is in `make_reapable`. -/
theorem signals_step (hc : Core s) (hi : ReaperInv s) (h : Turn s l a s')
    (hv : signalTest .reapCond ∈ (s'.uthreads v).utCtx) : Signals (s'.uthreads v).utCtx := by
  cases code_turn h v with
  | same e => rw [e] at hv ⊢; exact hi.signals v hv
  | @thread i cs new _ hon hcode he e =>
    rw [e] at hv ⊢
    rcases List.mem_append.1 hv with hnew | hcs
    · obtain ⟨w, rfl, rfl⟩ := effect_signals he hnew
      have hwf := hc.codes.wf v
      rw [hcode] at hwf
      refine ⟨[nopreemptOn, lock (.cPmut .reapCond)], _, List.suffix_refl _, rfl, ?_, ⟨w, ?_⟩, ?_⟩
      · simp [uthreadMtxUnlock]
      · simp
      · rcases hwf.1 with ⟨rfl, rfl⟩ | ⟨hne, r, rfl⟩
        · simp [uthreadMtxUnlock, uthreadSwitch, deadCode]
        · simp [uthreadMtxUnlock, hne]
    · obtain ⟨pre, post, hp, hpost, ho, hh, hn⟩ :=
        hi.signals v (by rw [hcode]; exact List.mem_cons_of_mem i hcs)
      rw [hcode] at hpost
      cases pre with
      | nil =>
        obtain ⟨rfl, rfl⟩ := List.cons.inj hpost
        exact absurd hcs hn
      | cons j pre =>
        obtain ⟨rfl, rfl⟩ := List.cons.inj hpost
        have hstr : i.straight = true := by
          have := hp.subset List.mem_cons_self
          simp only [List.mem_cons, List.not_mem_nil, or_false] at this
          rcases this with rfl | rfl <;> rfl
        rw [effect_straight he hstr]
        exact ⟨pre, post, (List.suffix_cons i pre).trans hp, rfl, ho, hh, hn⟩
  | create _ _ _ _ _ _ e => rw [e] at hv; simp [threadStartCode] at hv
  | call c _ _ _ e => rw [e] at hv; exact absurd hv (call_signals _ _ c)
  | preempt _ hon _ h0 e =>
    exfalso
    rw [e] at hv
    have hmem : signalTest .reapCond ∈ (s.uthreads v).utCtx := by
      rcases List.mem_append.1 hv with h | h
      · simp [clockInterrupt, uthreadYield, uthreadSwitch] at h
      · exact h
    have hpos := (hi.signals v hmem).depth_pos (hc.codes.wf v)
    rcases preemptible hc hon h0 with e | e
    · rw [e] at hmem; simp at hmem
    · omega

/-- The reaper decides to sleep only when it finds its queue empty. -/
theorem toSleep_turn (hc : Core s) (hi : ReaperInv s) (h : Turn s l a s')
    (hs : ToSleep (reaperCtx s')) :
    ToSleep (reaperCtx s) ∨ (s'.queues .reapQueue).tqWaiters = [] := by
  cases reaper_turn hc hi h with
  | same e => exact .inl (e ▸ hs)
  | preempt _ e =>
    obtain ⟨sv, m, hmem⟩ := hs
    rw [e] at hmem
    rcases List.mem_append.1 hmem with h | h
    · simp [clockInterrupt, uthreadYield, uthreadSwitch] at h
    · exact .inl ⟨sv, m, h⟩
  | loop i cs new hon hcode he hs' e =>
    obtain ⟨sv, m, hmem⟩ := hs
    rw [e] at hmem
    rcases List.mem_append.1 hmem with hnew | hcs
    · right
      rcases effect_reaps he with hr | hr
      · cases he with
        | plain hp hsame =>
          cases hp <;> simp at hr hnew
          rename_i hempty
          rw [hs', State.setCtx_queues, hsame.queues]
          exact hempty
        | take _ _ _ h => rcases h with ⟨h, -⟩ | ⟨h, -⟩ <;> subst h <;> simp at hr
        | signal _ _ _ _ h => rcases h with ⟨h, -⟩ | ⟨h, -⟩ <;> subst h <;> simp at hr
        | destroy d => cases d <;> simp [destroyRest] at hnew
        | _ => simp at hr hnew
      · simpa using hr _ hnew
    · exact .inl ⟨sv, m, by rw [hcode]; exact List.mem_cons_of_mem i hcs⟩

/-- What a step does to `reap_queue`. -/
theorem reapQueue_turn (hc : Core s) (hi : ReaperInv s) (h : Turn s l a s') :
    s'.queues .reapQueue = s.queues .reapQueue ∨
      (∃ v, signalTest .reapCond ∈ (s'.uthreads v).utCtx) ∨
      OnStack s l s.reaperThrId ∧ ¬ ToSleep (reaperCtx s') ∧
        s'.queues (.ucWaiters .reapCond) = s.queues (.ucWaiters .reapCond) := by
  have hid := reaper_same h
  cases h with
  | @thread _ t i cs new s₁ hon hcode he =>
    have hwf := hc.codes.wf t
    rw [hcode] at hwf
    by_cases hq : QueueId.reapQueue ∈ i.queues
    · cases he with
      | plain hp hs => exact .inl (by rw [State.setCtx_queues, hs.queues])
      | makeReapable w hz hs₁ hs hnew =>
        exact .inr (.inl ⟨t, by simp [hnew, uthreadCondSignal]⟩)
      | drain w hdq =>
        obtain ⟨x, hx, rfl⟩ := utqueueDequeue_some hdq
        have hr := hi.is_reaper hcode rfl
        subst hr
        have hcs : cs = [] := hwf.1
        refine .inr (.inr ⟨hon, ?_, by simp⟩)
        rintro ⟨sv, m, hmem⟩
        rw [reaperCtx, hid] at hmem
        simp [hcs] at hmem
      | swtch hsw => cases hwf.1 <;> simp at hq
      | create => cases (queues_createInit hq).2
      | destroy => cases (queues_destroy hq).2
      | take _ _ _ hnew => rcases hnew with ⟨rfl, -⟩ | ⟨rfl, -⟩ <;> simp at hq
      | signal _ _ _ _ hnew => rcases hnew with ⟨rfl, -⟩ | ⟨rfl, -⟩ <;> simp at hq
      | _ => simp at hq
    · exact .inl (by rw [State.setCtx_queues, effect_queues he (by simp) hq])
  | call | preempt => exact .inl rfl
  | lwp hb => exact .inl (hb.queues _ (by simp))

/-- The test of `uthread_cond_signal` by a thread in `make_reapable`: the reaper is not about to
sleep, and if it slept it does not any more. -/
theorem signalled_head (hc : Core s) (hi : ReaperInv s)
    (hcode : (s.uthreads t).utCtx = signalTest .reapCond :: cs)
    (he : Effect l t s (signalTest .reapCond) s₁ new)
    (h : Turn s l a (s₁.setCtx t (new ++ cs))) :
    ¬ ToSleep (reaperCtx (s₁.setCtx t (new ++ cs))) ∧
      (s₁.queues (.ucWaiters .reapCond)).tqWaiters = [] := by
  have hown := (hi.signals t (by rw [hcode]; exact List.mem_cons_self)).owns
  have hid := reaper_same h
  have hn : ¬ ToSleep (reaperCtx s) := by
    rintro ⟨sv, m, hmem⟩
    -- both are in the same critical section
    have hr : s.reaperThrId = t := by
      rcases hi.code.guarded hmem with ho | hh
      · exact Option.some.inj ((hc.reap _ ho).symm.trans (hc.reap _ hown))
      · have := hc.locks.one (.cPmut .reapCond) (.inl s.reaperThrId) (.inl t) hh
          (by show Held _ _; rw [hcode]; simp)
        exact Sum.inl.inj this
    have hcode' := hi.code
    rw [reaperCtx, hr, hcode] at hcode' hmem
    exact hcode'.not_signal sv m hmem
  constructor
  · by_cases hr : s.reaperThrId = t
    · rintro ⟨sv, m, hmem⟩
      rw [reaperCtx, hid, hr] at hmem
      have hmem' : swtch (some (.ucWaiters .reapCond)) sv m ∈ new ++ cs := by simpa using hmem
      rcases List.mem_append.1 hmem' with h | h
      · have := (effect_reaps he).resolve_left (by simp) _ h
        simp at this
      · exact hn ⟨sv, m, by rw [reaperCtx, hr, hcode]; exact List.mem_cons_of_mem _ h⟩
    · rw [reaperCtx, hid]
      have hother : ((s₁.setCtx t (new ++ cs)).uthreads s.reaperThrId).utCtx = reaperCtx s :=
        (other_code cs he hr).elim id fun h => by obtain ⟨⟨prio, h⟩, -⟩ := h; cases h
      rwa [hother]
  · cases he with
    | plain hp hs =>
      cases hp
      rw [hs.queues]
      assumption
    | take _ _ _ h => rcases h with ⟨h, -⟩ | ⟨h, -⟩ <;> cases h
    | signal c w hdq hs hnew =>
      obtain rfl : c = .reapCond := by
        rcases hnew with ⟨h, -⟩ | ⟨h, -⟩ <;> cases h
        rfl
      obtain ⟨x, hx, rfl⟩ := utqueueDequeue_some hdq
      have hnd := hc.links.nodup (.ucWaiters .reapCond)
      have hmem := fun u => hi.sleeper u
      rw [hx] at hnd hmem
      -- all that sleep are the reaper
      have hx' : x.tqWaiters = [] := by
        refine List.eq_nil_iff_forall_not_mem.2 fun u hu => ?_
        have h₁ := (hmem u (List.mem_cons_of_mem w hu)).1
        have h₂ := (hmem w List.mem_cons_self).1
        rw [h₁, ← h₂] at hu
        exact (List.nodup_cons.1 hnd).1 hu
      simpa [hs.queues] using hx'

/-- The thread that signals `reap_cond` either is still about to, or has just done so: then nobody
sleeps on it. -/
theorem signalled_turn (hc : Core s) (hi : ReaperInv s) (h : Turn s l a s')
    (hv : signalTest .reapCond ∈ (s.uthreads v).utCtx) :
    signalTest .reapCond ∈ (s'.uthreads v).utCtx ∨
      ¬ ToSleep (reaperCtx s') ∧ (s'.queues (.ucWaiters .reapCond)).tqWaiters = [] := by
  have hturn := h
  cases h with
  | @thread _ t i cs new s₁ hon hcode he =>
    by_cases hvt : v = t
    · subst hvt
      rw [hcode] at hv
      rcases List.mem_cons.1 hv with rfl | hcs
      · exact .inr (signalled_head hc hi hcode he hturn)
      · exact .inl (by simp [hcs])
    · left
      rcases other_code cs he hvt with e | ⟨-, hvac, -⟩
      · rwa [e]
      · -- a slot that is being set up has no such code
        obtain ⟨-, -, -, hgone⟩ := hc.free hvac.1
        rcases hgone with (e | e | e) | e <;> rw [e] at hv <;>
          simp [deadCode, uthreadSwitch, threadStartCode] at hv
  | call t c hon hcode =>
    by_cases hvt : v = t
    · subst hvt; rw [hcode] at hv; cases hv
    · exact .inl (by simpa [hvt] using hv)
  | preempt t =>
    left
    by_cases hvt : v = t
    · subst hvt; simp [hv]
    · simpa [hvt] using hv
  | lwp hb => exact .inl (by rwa [(hb.fields v).1])

theorem signal_step (hc : Core s) (hi : ReaperInv s) (h : Turn s l a s')
    (hs : ToSleep (reaperCtx s') ∨
      s.reaperThrId ∈ (s'.queues (.ucWaiters .reapCond)).tqWaiters) :
    (s'.queues .reapQueue).tqWaiters = [] ∨ ∃ v, signalTest .reapCond ∈ (s'.uthreads v).utCtx := by
  -- it slept, or was about to, before the step
  have hold : (s'.queues .reapQueue).tqWaiters = [] ∨ ToSleep (reaperCtx s) ∨
      s.reaperThrId ∈ (s.queues (.ucWaiters .reapCond)).tqWaiters := by
    rcases hs with hs | hs
    · exact (toSleep_turn hc hi h hs).elim (fun h => .inr (.inl h)) .inl
    · rcases sleeps_turn hi h hs with hs | ⟨-, hs, -⟩
      · exact .inr (.inr hs)
      · exact .inr (.inl hs)
  rcases hold with hempty | hold
  · exact .inl hempty
  rcases reapQueue_turn hc hi h with hq | hsig | ⟨hon, hn, hq⟩
  · rw [hq]
    refine (hi.signal hold).imp_right ?_
    rintro ⟨v, hv⟩
    refine ⟨v, (signalled_turn hc hi h hv).resolve_right ?_⟩
    rintro ⟨hn, hempty⟩
    rw [hempty] at hs
    exact hs.elim hn (by simp)
  · exact .inr hsig
  · -- the reaper is awake
    rw [hq] at hs
    exact absurd (hs.resolve_left hn) (hc.not_queued hon (by simp) (by simp))

/-! ## The end of the process -/

/-- **Every step keeps what holds of the reaper.** -/
theorem reaper_step (hc : Core s) (hi : ReaperInv s) (h : Turn s l a s') : ReaperInv s' := by
  have hid := reaper_same h
  constructor
  · rw [hid]; exact live_step hc hi h
  · exact code_step hc hi h
  · rw [hid]; exact others_step hi h
  · rw [hid]; exact user_step hc hi h
  · exact fun th => scan_step hc hi h
  · rw [hid]; exact fun u => sleeper_step hc hi h
  · exact fun v => signals_step hc hi h
  · rw [hid]; exact signal_step hc hi h

theorem boot_reaper : ReaperInv (boot N L) := by
  have hctx : reaperCtx (boot N L) = threadStartCode ++ reaper := by
    simp [reaperCtx, boot, Uthread.first]
  have hsignal : ∀ v, signalTest .reapCond ∉ ((boot N L).uthreads v).utCtx := by
    intro v
    rcases boot_code (L := L) v with e | e | e <;> rw [e] <;>
      simp [threadStartCode, reaper, uthreadMtxLock]
  constructor
  · simp [Alive, boot, Uthread.first]
  · rw [hctx]
    exact .busy rfl (by simp [threadStartCode, reaper, uthreadMtxLock])
  · intro t ht
    have hne : t ≠ 1 := ht
    simp only [boot, if_neg hne]
    split_ifs <;> simp [Uthread.first, Uthread.zero, threadStartCode]
  · exact fun _ => ⟨0, by simp [boot], by simp [boot, Uthread.first]⟩
  · intro th h
    rw [hctx] at h
    exact absurd (congrArg List.length h) (by simp [threadStartCode, reaper, uthreadMtxLock])
  · intro u hu
    rw [boot_queue] at hu
    simp at hu
  · exact fun v hv => absurd hv (hsignal v)
  · intro _
    rw [boot_queue]
    simp

/-- The reaper is inside `uthread_cond_wait` on `reap_cond`. -/
def ReaperWaits (s : State N L) : Prop := waitDone .reapCond ∈ reaperCtx s

/-- The reaper sleeps on `reap_cond` and has not been signalled. -/
def ReaperSleeps (s : State N L) : Prop :=
  s.reaperThrId ∈ (s.queues (.ucWaiters .reapCond)).tqWaiters

instance (s : State N L) : Decidable (ReaperWaits s) := inferInstanceAs (Decidable (_ ∈ _))

instance (s : State N L) : Decidable (ReaperSleeps s) := inferInstanceAs (Decidable (_ ∈ _))

theorem reaper_reachable {s : State (N + 2) (L + 1)} (h : Reachable Runs.always (boot N L) s) :
    ReaperInv s := by
  refine h.invariant_of (fun _ hr => core_reachable boot_core hr) boot_reaper ?_
  rintro s s' ⟨l, a⟩ hc hi - hn
  exact reaper_step hc hi (move_turn hc (step_move hc.codes.wf hn))

/-- When the reaper ends the process no other slot is in use. -/
theorem exit_free {b : Fin L × Act} (hc : Core s) (hi : ReaperInv s) (h : next s b = some s')
    (he : s'.halt = some .exit0) (v : Fin N) (hv : v ≠ s'.reaperThrId) :
    (s'.uthreads v).utState = .noState := by
  obtain ⟨l, a⟩ := b
  obtain ⟨hstop, rfl⟩ := next_stop hc.codes.wf h he
  cases hstop with
  | thread t i cs hon hcode hf =>
    cases hf with
    | exit th hth =>
      have hr := hi.is_reaper hcode rfl
      have hwf := hc.codes.wf t
      rw [hcode] at hwf
      have hcs : cs = [] := hwf.1
      rcases hi.scan th (by rw [reaperCtx, ← hr, hcode, hcs]) with hfree | ⟨w, hw, -⟩
      · exact hfree v (by omega) hv
      · omega
    | switchSave h | wake _ _ h | start _ _ _ h => cases h
    | setprio _ _ _ h => cases h
  | acquire _ _ h => rcases h with ⟨-, h⟩ | ⟨-, h⟩ <;> cases h
  | release _ _ h => rcases h with ⟨-, h⟩ | ⟨-, -, h⟩ <;> cases h

/-- **The process ends exactly when it should.** The reaper ends it only with all the other slots
free, it does not sleep while they are, and while it sleeps without having been signalled there is
nothing for it to destroy, or `reap_mtx` is owned by the thread that will signal it. -/
theorem reaper_exits {s : State (N + 2) (L + 1)} (h : Reachable Runs.always (boot N L) s) :
    (∀ b s', next s b = some s' → s'.halt = some .exit0 →
      ∀ v, v ≠ s'.reaperThrId → (s'.uthreads v).utState = .noState) ∧
    (ReaperSleeps s → ReaperWaits s) ∧
    (ReaperWaits s → ∃ v, v ≠ s.reaperThrId ∧ (s.uthreads v).utState ≠ .noState) ∧
    (ReaperSleeps s → (s.queues .reapQueue).tqWaiters = [] ∨ (s.mtx .reapMtx).mOwner ≠ none) := by
  have hc := core_reachable boot_core h
  have hi := reaper_reachable h
  refine ⟨fun b s' hn he => exit_free hc hi hn he, fun hs => ?_, fun hw => hi.user ?_, fun hs => ?_⟩
  · unfold ReaperWaits
    rw [(hi.sleeper _ hs).2]
    simp [reaperTail]
  · unfold ReaperWaits at hw
    rcases hi.code.last with e | e | e | ⟨th, e⟩
    · exact e
    · rw [e] at hw; simp at hw
    · have := e.mem hw
      simp at this
    · rw [e] at hw; simp at hw
  · refine (hi.signal (.inr hs)).imp_right ?_
    rintro ⟨v, hv⟩ hnone
    -- the signaller owns `reap_mtx`
    rw [hc.reap v (hi.signals v hv).owns] at hnone
    cases hnone

/-- The reaper sleeps while the first thread runs. The first thread ends, the reaper destroys it and
ends the process. -/
theorem reaper_exits_first :
    (∃ s, Reachable Runs.always (boot 0 1) s ∧ ReaperSleeps s ∧ (s.uthreads 0).utState ≠ .noState) ∧
      ∃ s s', Reachable Runs.always (boot 0 1) s ∧ next s (0, .exec) = some s' ∧
        s'.halt = some .exit0 ∧ (s'.uthreads 0).utState = .noState := by
  obtain ⟨s₁, hs₁, hr₁, hsleep⟩ : ∃ s, Reachable Runs.always (boot 0 1) s ∧ s.reaperThrId = 1 ∧
      ReaperSleeps s :=
    Runs.exists_reach (turns 0 4 ++ turns 1 25) (by decide)
  obtain ⟨s₂, hs₂, hend⟩ : ∃ s, Reachable Runs.always (boot 0 1) s ∧
      (next s (0, .exec)).any (fun s' => s'.halt = some .exit0 ∧ s'.reaperThrId = 1) = true :=
    Runs.exists_reach (turns 0 4 ++ turns 1 25 ++ [(0, .call (.exit 0))] ++ turns 0 56)
      (by decide)
  obtain ⟨s', hn, he⟩ := (Option.any_eq_true _ _).1 hend
  obtain ⟨he, hr₂⟩ := of_decide_eq_true he
  refine ⟨⟨s₁, hs₁, hsleep, ?_⟩, s₂, s', hs₂, hn, he, ?_⟩
  · obtain ⟨-, hwait, huser, -⟩ := reaper_exits hs₁
    obtain ⟨v, hv, hst⟩ := huser (hwait hsleep)
    rw [hr₁] at hv
    rcases Fin.exists_fin_two.1 ⟨v, rfl⟩ with rfl | rfl
    · exact hst
    · exact absurd rfl hv
  · exact (reaper_exits hs₂).1 (0, .exec) s' hn he 0 (by rw [hr₂]; decide)

end Uthreads
