import Uthreads.Proof.Watch

/-!
# The handshake of a join and an exit

The joiner of a thread and the thread meet under `ut_pmut`. `join_exit_handshake`: whichever of the two
comes first, the join returns 0 with the exit value once the thread has left its stack, the joiner is
woken at most once and does not wait any more then, and the thread is put on `reap_queue` once.
-/

namespace Uthreads

variable {N L : ℕ} {l : Fin L} {t u j v : Fin N} {s s' s₁ : State N L} {i : Instr N} {c cs new : Code N}
  {k : ℕ} {a : Act} {x : ℤ} {w : Watch N}

open Instr

/-- Where the joiner is, by the last instruction of its code: it is to look whether `u` has ended, to
hand it over, or to return. -/
inductive JoinerAt (u j : Fin N) (x : ℤ) (s : State N L) (w : Watch N) : Instr N → Prop
  | look (k : ℕ) (ha : w.alive = true) : JoinerAt u j x s w (joinClaim u k)
  | reap (k : ℕ) (ha : w.alive = true) (hl : w.left = true) : JoinerAt u j x s w (joinReap u k x)
  | ret (k : ℕ) (hl : w.left = true)
    (hr : w.reaped + (if w.alive then (s.uthreads j).utCtx.countP (Instr.handsOver u) else 0) = 1) :
    JoinerAt u j x s w (ret (.join u k .ok (some x)))

/-- Two threads have no more than all. -/
theorem total_pair (p : Instr N → Bool) (s : State N L) (h : t ≠ j) :
    (s.uthreads t).utCtx.countP p + (s.uthreads j).utCtx.countP p ≤ total p s := by
  unfold total
  rw [← Finset.add_sum_erase _ _ (Finset.mem_univ t)]
  refine Nat.add_le_add_left ?_ _
  exact Finset.single_le_sum (f := fun t => (s.uthreads t).utCtx.countP p) (fun _ _ => Nat.zero_le _)
    (Finset.mem_erase.2 ⟨h.symm, Finset.mem_univ j⟩)

/-- It is put on `reap_queue` once, at most. -/
theorem Target.count_le (h : Target u x s w) : w.reaped + total (Instr.handsOver u) s ≤ 1 := by
  have hcl : claims s u = ((life s u).ended && (life s u).detached).toNat := h.ok.claimed
  have heq := claims_eq s u
  have hle := Bool.toNat_le ((life s u).ended && (life s u).detached)
  rw [h.reaped]
  rcases h.ok.freed with hf | ⟨hf, -, hd⟩ <;> change freeing s u = _ at hf
  · omega
  · rw [hd, Bool.and_false, Bool.toNat_false] at hcl
    omega

/-- Who answers for a thread finds that it has ended. -/
theorem Target.zombie (h : Target u x s w) (hi : i ∈ (s.uthreads t).utCtx)
    (hcl : i.claims u = true) : (s.uthreads u).utState = .zombie ∧ (s.uthreads u).utDetached = true := by
  have hpos : 0 < claims s u := Nat.add_pos_right _ (total_pos hi hcl)
  have hok := h.ok.claimed
  change claims s u = _ at hok
  rw [hok] at hpos
  have hand : ((life s u).ended && (life s u).detached) = true := by
    cases hb : (life s u).ended && (life s u).detached with
    | true => rfl
    | false => rw [hb] at hpos; cases hpos
  simpa [life] using hand

/-- Nobody is to look at a thread whose slot is about to be freed, or answers for it. -/
theorem Target.no_free (h : Target u x s w) (hi : destroy .state u ∈ (s.uthreads t).utCtx) :
    (∀ v k, joinClaim u k ∉ (s.uthreads v).utCtx) ∧
      ∀ v, ∀ i ∈ (s.uthreads v).utCtx, i.claims u = false := by
  have hpos : 0 < freeing s u := total_pos hi (by simp)
  constructor
  · intro v k hm
    have hj : 0 < joining s u := total_pos hm (by simp)
    rcases h.ok.joined with hj' | ⟨-, -, hf⟩
    · change joining s u = 0 at hj'; omega
    · change freeing s u = 0 at hf; omega
  · intro v i hm
    by_contra hcl
    rcases h.ok.freed with hf | ⟨-, -, hd⟩
    · change freeing s u = 0 at hf; omega
    · change (s.uthreads u).utDetached = false at hd
      rw [(h.zombie hm (by simpa using hcl)).2] at hd
      cases hd

theorem mem_of_last {c : Code N} (h : c.getLast? = some i) : i ∈ c := List.mem_of_getLast? h

/-- What another thread does leaves the joiner where it is. -/
theorem at_other (hT : w.alive = true → Target u x s w) (hne : t ≠ j) (hcode : (s.uthreads t).utCtx = i :: cs)
    (hh : Hist t s i s₁) (hj : (s₁.uthreads j).utCtx = (s.uthreads j).utCtx) {i₀ : Instr N}
    (hlast : (s.uthreads j).utCtx.getLast? = some i₀) (hat : JoinerAt u j x s w i₀) :
    JoinerAt u j x (s₁.setCtx t c) (w.after u j s (s₁.setCtx t c)) i₀ := by
  have hnews : news s (s₁.setCtx t c) = logOf s t i := news_thread hh c
  have hhead : i ∈ (s.uthreads t).utCtx := by rw [hcode]; exact List.mem_cons_self
  have hj' : ((s₁.setCtx t c).uthreads j).utCtx = (s.uthreads j).utCtx := by simpa [hne.symm] using hj
  have hpair : ∀ p : Instr N → Bool, p i = true → 1 + (s.uthreads j).utCtx.countP p ≤ total p s := by
    intro p hp
    refine le_trans (Nat.add_le_add_right ?_ _) (total_pair p s hne)
    exact List.countP_pos_iff.2 ⟨i, hhead, hp⟩
  have halive : i ≠ destroy .state u → (w.after u j s (s₁.setCtx t c)).alive = w.alive := by
    intro hi
    simp [Watch.after, hnews, logOf_destroyed, hi]
  have hleft : w.left = true → (w.after u j s (s₁.setCtx t c)).left = true := by
    intro hl
    simp [Watch.after, hl]
  cases hat with
  | look k ha =>
    have hi : i ≠ destroy .state u := by
      rintro rfl
      exact ((hT ha).no_free hhead).1 j k (mem_of_last hlast)
    exact .look k ((halive hi).trans ha)
  | reap k ha hl =>
    have hi : i ≠ destroy .state u := by
      rintro rfl
      have := ((hT ha).no_free hhead).2 j _ (mem_of_last hlast)
      simp at this
    exact .reap k ((halive hi).trans ha) (hleft hl)
  | ret k hl hr =>
    refine .ret k (hleft hl) ?_
    rw [hj']
    cases ha : w.alive with
    | false =>
      have ha' : (w.after u j s (s₁.setCtx t c)).alive = false := by simp [Watch.after, ha]
      have hr' : (w.after u j s (s₁.setCtx t c)).reaped = w.reaped := by simp [Watch.after, ha]
      rw [ha', hr']
      simpa [ha] using hr
    | true =>
      rw [ha, if_pos rfl] at hr
      have hcount := (hT ha).count_le
      have hnot : ¬ (i = makeReapable u ∧ (s.uthreads u).utState = .zombie) := by
        rintro ⟨rfl, -⟩
        -- two would answer for it
        have h₁ := hpair (Instr.handsOver u) (by simp)
        omega
      have hr' : (w.after u j s (s₁.setCtx t c)).reaped = w.reaped := by
        simp only [Watch.after, ha, if_true, hnews, logOf_reaps, if_neg hnot, Nat.add_zero]
      rw [hr']
      by_cases hd : i = destroy .state u
      · -- its slot is freed: the joiner has handed it over
        subst hd
        have h₁ := hpair (Instr.destroys u) (by simp)
        have h₂ := (hT ha).reaped
        have ha' : (w.after u j s (s₁.setCtx t c)).alive = false := by
          simp [Watch.after, hnews, logOf_destroyed]
        rw [ha', if_neg (by simp)]
        omega
      · rw [halive hd, ha, if_pos rfl]
        exact hr

/-- So does a step that records nothing and leaves what the joiner still has to hand over. -/
theorem at_quiet (hn : news s s' = []) (hcount : (s'.uthreads j).utCtx.countP (Instr.handsOver u) =
      (s.uthreads j).utCtx.countP (Instr.handsOver u)) (hat : JoinerAt u j x s w i) :
    JoinerAt u j x s' (w.after u j s s') i := by
  have halive : (w.after u j s s').alive = w.alive := by simp [Watch.after, hn]
  have hreaped : (w.after u j s s').reaped = w.reaped := by simp [Watch.after, hn]
  have hleft : w.left = true → (w.after u j s s').left = true := by
    intro hl
    simp [Watch.after, hl]
  cases hat with
  | look k ha => exact .look k (halive.trans ha)
  | reap k ha hl => exact .reap k (halive.trans ha) (hleft hl)
  | ret k hl hr => exact .ret k (hleft hl) (by rw [hreaped, halive, hcount]; exact hr)

/-- While it calls the last instruction of its code is one of three. -/
theorem JoinerAt.last (h : JoinerAt u j x s w i) :
    (∃ k, i = joinClaim u k) ∨ (∃ k, i = joinReap u k x) ∨
      ∃ k, i = Instr.ret (.join u k .ok (some x)) := by
  cases h with
  | look k => exact .inl ⟨k, rfl⟩
  | reap k => exact .inr (.inl ⟨k, rfl⟩)
  | ret k => exact .inr (.inr ⟨k, rfl⟩)

/-- An instruction in front of its last one brings in nothing that answers for `u`. -/
theorem effect_middle {b i₀ : Instr N} (hwf : Wf j (i :: b :: cs))
    (hlast : (b :: cs).getLast? = some i₀) (hat : JoinerAt u j x s w i₀)
    (he : Effect l j s i s₁ new) : i ≠ destroy .state u ∧ new.countP (Instr.handsOver u) = 0 ∧
      ((i.handsOver u = true) ↔ i = makeReapable u) := by
  have hno : ∀ d, i ≠ destroy d u := by
    rintro d rfl
    have hcs : b :: cs = [reaperDrain] := hwf.1
    rw [hcs] at hlast
    cases hlast
    rcases hat.last with ⟨k, h⟩ | ⟨k, h⟩ | ⟨k, h⟩ <;> cases h
  have hclaims := countP_claims u new
  refine ⟨hno _, ?_, ?_⟩
  · have hfree := (effect_frees he hno).1
    by_cases hi : i.lives u = false
    · have := (effect_brings he hi).1
      omega
    · cases i with
      | makeReapable w' =>
        obtain rfl : w' = u := by simpa using hi
        have := (effect_makeReapable he).1
        omega
      | destroy d w' =>
        obtain rfl : w' = u := by simpa using hi
        exact absurd rfl (hno d)
      | exitTest w' y => cases hwf.1.2
      | joinTest | joinClaim | joinReap | detachTest | detachReap | reaperDrain => cases hwf.1
      | _ => simp at hi
  · constructor
    · intro hi
      cases i with
      | makeReapable w' => simpa using hi
      | joinReap | detachReap => cases hwf.1
      | _ => simp at hi
    · rintro rfl
      simp

/-- **What the joiner does next.** -/
theorem at_own (hc : Core s) (hT : w.alive = true → Target u x s w) (hju : j ≠ u)
    (hon : OnStack s l j) (hcode : (s.uthreads j).utCtx = i :: cs) (he : Effect l j s i s₁ new)
    (hh : Hist j s i s₁) {i₀ : Instr N} (hlast : (s.uthreads j).utCtx.getLast? = some i₀)
    (hat : JoinerAt u j x s w i₀) (hi : ∀ r, i ≠ ret r) :
    ∃ i₁, (new ++ cs).getLast? = some i₁ ∧
      JoinerAt u j x (s₁.setCtx j (new ++ cs)) (w.after u j s (s₁.setCtx j (new ++ cs))) i₁ := by
  have hnews : news s (s₁.setCtx j (new ++ cs)) = logOf s j i := news_thread hh _
  have hwf := hc.codes.wf j
  rw [hcode] at hwf hlast
  have halive : i ≠ destroy .state u → (w.after u j s (s₁.setCtx j (new ++ cs))).alive = w.alive := by
    intro hi
    simp [Watch.after, hnews, logOf_destroyed, hi]
  have hleft : w.left = true → (w.after u j s (s₁.setCtx j (new ++ cs))).left = true := by
    intro hl
    simp [Watch.after, hl]
  have hself := setCtx_self s₁ j (new ++ cs)
  cases hcs : cs with
  | nil =>
    subst hcs
    obtain rfl : i = i₀ := by simpa using hlast
    cases hat with
    | look k ha =>
      -- the target has ended, and it has left its stack since the joiner holds `ut_pmut`
      have hz : (s.uthreads u).utState = .zombie := by
        rcases (hT ha).looks j k (by rw [hcode]; exact List.mem_cons_self) with hz | hq
        · exact hz
        · exact absurd hq (joiner_off hc hon hcode)
      have hl : w.left = true := by
        refine (hT ha).left.2 ⟨hz, fun m hm => hju ?_⟩
        have h₁ := ((hT ha).dying m hm hz).held
        have h₂ : Held (.utPmut u) (s.uthreads j).utCtx := by rw [hcode]; simp
        have := hc.locks.one (.utPmut u) (.inl j) (.inl u) h₂ h₁
        exact Sum.inl.inj this
      have hf : freeing s u = 0 := by
        have hj : 0 < joining s u := total_pos (t := j) (by rw [hcode]; exact List.mem_cons_self) (by simp)
        rcases (hT ha).ok.joined with h | ⟨-, -, h⟩
        · change joining s u = 0 at h; omega
        · exact h
      have hx : (s.uthreads u).utExit = x := (hT ha).value hz hf
      cases he with
      | plain hp => cases hp with | claimFail _ _ hn => exact absurd hz hn
      | take _ _ _ h | signal _ _ _ _ h => rcases h with ⟨h, -⟩ | ⟨h, -⟩ <;> cases h
      | claim =>
        exact ⟨joinReap u k x, by simp [uthreadMtxLock, hx],
          .reap k ((halive (by simp)).trans ha) (hleft hl)⟩
    | reap k ha hl =>
      have hmem : joinReap u k x ∈ (s.uthreads j).utCtx := by rw [hcode]; exact List.mem_cons_self
      have hz := ((hT ha).zombie hmem (by simp)).1
      cases he with
      | plain hp hs =>
        cases hp with
        | reapLate _ _ _ hn => exact absurd hz hn
        | reap =>
          refine ⟨ret (.join u k .ok (some x)), by simp, .ret k (hleft hl) ?_⟩
          have hcount := (hT ha).count_le
          have hpos : 0 < total (Instr.handsOver u) s := total_pos hmem (by simp)
          have hr : w.reaped = 0 := by omega
          rw [hself, halive (by simp), ha, if_pos rfl]
          simp only [Watch.after, ha, if_true, hnews, logOf_reaps, hr]
          simp
      | take _ _ _ h | signal _ _ _ _ h => rcases h with ⟨h, -⟩ | ⟨h, -⟩ <;> cases h
    | ret k => exact absurd rfl (hi _)
  | cons b cs' =>
    subst hcs
    rw [List.getLast?_cons_cons] at hlast
    obtain ⟨hd, hnew, hho⟩ := effect_middle hwf hlast hat he
    refine ⟨i₀, by rw [List.getLast?_append_cons]; exact hlast, ?_⟩
    cases hat with
    | look k ha => exact .look k ((halive hd).trans ha)
    | reap k ha hl => exact .reap k ((halive hd).trans ha) (hleft hl)
    | ret k hl hr =>
      refine .ret k (hleft hl) ?_
      rw [hself, halive hd]
      cases ha : w.alive with
      | false => simpa [ha, Watch.after] using hr
      | true =>
        rw [ha, if_pos rfl, hcode, List.countP_cons] at hr
        rw [if_pos rfl, List.countP_append, hnew]
        simp only [Watch.after, ha, if_true, hnews, logOf_reaps]
        by_cases hm : i = makeReapable u
        · -- it is queued now
          have hz := ((hT ha).zombie (t := j) (i := i) (by rw [hcode]; exact List.mem_cons_self)
            (by rw [hm]; simp)).1
          rw [if_pos (hho.2 hm)] at hr
          rw [if_pos ⟨hm, hz⟩]
          omega
        · rw [if_neg fun h => hm (hho.1 h)] at hr
          rw [if_neg fun h => hm h.1]
          omega

/-! ## The invariant -/

/-- What holds of the joiner, also when the slot of `u` has been freed. -/
structure Joiner (u j : Fin N) (x : ℤ) (s : State N L) (w : Watch N) : Prop where
  inside : w.phase = .inside → ∃ i, (s.uthreads j).utCtx.getLast? = some i ∧ JoinerAt u j x s w i
  woken : w.woken ≤ 1
  unwoken : w.phase = .before → w.woken = 0
  waits : w.phase = .inside → ∀ k, joinClaim u k ∈ (s.uthreads j).utCtx →
    (s.uthreads j).utState = .wait → w.woken = 0
  returned : ∀ r, w.phase = .returned r →
    (∃ k, r = .join u k .ok (some x)) ∧ w.left = true ∧ w.reaped = 1
  dead : w.alive = false → w.reaped = 1

theorem phase_inside (hp : (w.after u j s s').phase = .inside) :
    w.phase = .before ∧ w.alive = true ∧ s.tested u < s'.tested u ∨
      w.phase = .inside ∧ (news s s').findSome? (Event.returnOf j) = none := by
  simp only [Watch.after, Watch.phaseAfter] at hp
  cases hw : w.phase with
  | before =>
    by_cases hlt : w.alive = true ∧ s.tested u < s'.tested u
    · exact .inl ⟨rfl, hlt⟩
    · simp [hw, hlt] at hp
  | inside =>
    cases hr : (news s s').findSome? (Event.returnOf j) with
    | none => exact .inr ⟨rfl, rfl⟩
    | some r => simp [hw, hr] at hp
  | returned r => simp [hw] at hp

theorem phase_returned {r : Ret N} (hp : (w.after u j s s').phase = .returned r) :
    w.phase = .returned r ∨
      w.phase = .inside ∧ (news s s').findSome? (Event.returnOf j) = some r := by
  simp only [Watch.after, Watch.phaseAfter] at hp
  cases hw : w.phase with
  | before =>
    rw [hw] at hp
    by_cases hlt : w.alive = true ∧ s.tested u < s'.tested u <;> simp [hlt] at hp
  | inside =>
    cases hr : (news s s').findSome? (Event.returnOf j) with
    | none => simp [hw, hr] at hp
    | some r' =>
      have hrr : r' = r := by simpa [hw, hr] using hp
      exact .inr ⟨rfl, by rw [hrr]⟩
  | returned r' =>
    have hrr : r' = r := by simpa [hw] using hp
    exact .inl (by rw [hrr])

/-- Who has looked in a step. -/
theorem looked_turn (h : Turn s l a s') (hlt : s.tested u < s'.tested u) :
    ∃ t i cs new s₁ b, OnStack s l t ∧ (s.uthreads t).utCtx = i :: cs ∧ i.looks = some (b, u) ∧
      Effect l t s i s₁ new ∧ Hist t s i s₁ ∧ s' = s₁.setCtx t (new ++ cs) := by
  cases h with
  | @thread _ t i cs new s₁ hon hcode he hh =>
    rw [State.setCtx_tested, hh.tested] at hlt
    have hi : ∃ b, i.looks = some (b, u) := by
      cases i with
      | joinTest w k | detachTest w k =>
        simp only [testedOf] at hlt
        split_ifs at hlt with hw
        · exact ⟨_, by rw [hw]; rfl⟩
        · exact absurd hlt (lt_irrefl _)
      | destroy d w =>
        cases d <;> simp only [testedOf] at hlt
        all_goals first | exact absurd hlt (lt_irrefl _) | (split_ifs at hlt <;> omega)
      | _ => exact absurd hlt (lt_irrefl _)
    obtain ⟨b, hb⟩ := hi
    exact ⟨t, i, cs, new, s₁, b, hon, hcode, hb, he, hh, rfl⟩
  | call | preempt => exact absurd hlt (lt_irrefl _)
  | lwp hb => rw [hb.hist.tested] at hlt; exact absurd hlt (lt_irrefl _)

/-- A join of a thread that nobody has joined or detached does not fail. -/
theorem effect_passes (he : Effect l t s (joinTest u k) s₁ new)
    (hq : (s.queues (.utWaiter u)).tqWaiters = []) (hd : (s.uthreads u).utDetached = false) :
    new.getLast? = some (joinClaim u k) := by
  cases he with
  | plain hp =>
    cases hp with
    | joinFail _ _ h =>
      rcases h with h | h
      · exact absurd hq h
      · rw [hd] at h; cases h
    | joinZombie => rfl
  | take _ _ _ h | signal _ _ _ _ h => rcases h with ⟨h, -⟩ | ⟨h, -⟩ <;> cases h
  | joinWait => rfl

/-- The slot of a thread with such code is in use. -/
theorem JoinerAt.live (hc : Core s) (h : JoinerAt u j x s w i)
    (hlast : (s.uthreads v).utCtx.getLast? = some i) : (s.pmtx (.utPmut v)).status = .live := by
  by_contra hl
  have hno : i ≠ panicDead ∧ i ≠ threadStart := by
    constructor <;> rintro rfl <;> rcases h.last with ⟨k, h⟩ | ⟨k, h⟩ | ⟨k, h⟩ <;> cases h
  rcases (hc.free hl).2.2.2 with (e | e | e) | e <;> rw [e] at hlast
  · cases hlast
  · exact hno.1 (by simpa using hlast.symm)
  · exact hno.1 (by simpa [deadCode, uthreadSwitch] using hlast.symm)
  · exact hno.2 (by simpa [threadStartCode] using hlast.symm)

theorem inside_step (hc : Core s) (hT : w.alive = true → Target u x s w) (hJ : Joiner u j x s w)
    (hju : j ≠ u) (hok : soleJoin u j x (s, w) (l, a)) (h : Turn s l a s')
    (hp : (w.after u j s s').phase = .inside) : ∃ i, (s'.uthreads j).utCtx.getLast? = some i ∧
      JoinerAt u j x s' (w.after u j s s') i := by
  rcases phase_inside hp with ⟨hbefore, ha, hlt⟩ | ⟨hin, hret⟩
  · -- the join looks at its target
    obtain ⟨t, i, cs, new, s₁, b, hon, hcode, hi, he, hh, rfl⟩ := looked_turn h hlt
    obtain ⟨rfl, rfl, -⟩ := (hok ha).1 t b hon (by rw [hcode]; exact hi)
    obtain ⟨-, -, -, hd, hq⟩ := (hT ha).before hbefore
    cases i with
    | joinTest v k =>
      obtain rfl : v = u := by simpa using hi
      have hwf := hc.codes.wf t
      rw [hcode] at hwf
      have hcs : cs = [] := hwf.1
      subst hcs
      refine ⟨joinClaim v k, ?_, .look k ?_⟩
      · rw [setCtx_self, List.append_nil]
        exact effect_passes he hq hd
      · simp [Watch.after, ha, news_thread hh, logOf]
    | _ => simp at hi
  · obtain ⟨i₀, hlast, hat⟩ := hJ.inside hin
    cases h with
    | @thread _ t i cs new s₁ hon hcode he hh =>
      by_cases ht : t = j
      · subst ht
        rw [setCtx_self]
        refine at_own hc hT hju hon hcode he hh hlast hat ?_
        rintro r rfl
        rw [news_thread hh, (logOf_returns (r := r)).2 ⟨rfl, rfl⟩] at hret
        cases hret
      · have hj : (s₁.uthreads j).utCtx = (s.uthreads j).utCtx := by
          rcases other_code cs he (Ne.symm ht) with e | ⟨-, hv, -⟩
          · rw [← e]; simp [Ne.symm ht]
          · exact absurd (hat.live hc hlast) hv.1
        refine ⟨i₀, ?_, at_other hT ht hcode hh hj hlast hat⟩
        simpa [Ne.symm ht, hj] using hlast
    | call t c hon hcode =>
      have ht : j ≠ t := by
        rintro rfl
        rw [hcode] at hlast
        cases hlast
      refine ⟨i₀, by simpa [ht] using hlast, at_quiet (news_quiet (by constructor <;> rfl)) ?_ hat⟩
      simp [ht]
    | preempt t hon hm hst h0 =>
      have hrare := (rare_of_ends (p := Instr.handsOver u) (fun j h => by cases j <;> simp at h ⊢)
        rfl).interrupt
      by_cases ht : j = t
      · subst ht
        refine ⟨i₀, ?_, at_quiet (news_quiet (by constructor <;> rfl)) ?_ hat⟩
        · simp only [State.modUthread_uthreads, if_true, State.setLwp_uthreads]
          rw [List.getLast?_append_of_ne_nil _ (List.ne_nil_of_mem (mem_of_last hlast))]
          exact hlast
        · simp [List.countP_append, hrare]
      · refine ⟨i₀, by simpa [ht] using hlast, at_quiet (news_quiet (by constructor <;> rfl)) ?_ hat⟩
        simp [ht]
    | lwp hb =>
      refine ⟨i₀, by rw [(hb.fields j).1]; exact hlast, at_quiet (news_quiet hb.hist) ?_ hat⟩
      rw [(hb.fields j).1]

/-- When its slot is freed the thread has been queued, once. -/
theorem dead_step (hT : w.alive = true → Target u x s w) (hJ : Joiner u j x s w)
    (h : Turn s l a s') (hd : (w.after u j s s').alive = false) :
    (w.after u j s s').reaped = 1 := by
  cases ha : w.alive with
  | false => simpa [Watch.after, ha] using hJ.dead ha
  | true =>
    have hmem : Event.destroyed u ∈ news s s' := by simpa [Watch.after, ha] using hd
    rcases news_turn h with e | ⟨t, i, cs, new, s₁, hon, hcode, he, hh, -, e⟩
    · rw [e] at hmem; cases hmem
    · rw [e] at hmem
      obtain rfl := logOf_destroyed.1 hmem
      have hpos : 0 < total (Instr.destroys u) s :=
        total_pos (t := t) (by rw [hcode]; exact List.mem_cons_self) (by simp)
      have hle := (hT ha).count_le
      have hr := (hT ha).reaped
      simp only [Watch.after, ha, if_true, e, logOf_reaps]
      rw [if_neg (by simp)]
      omega

theorem returned_step (hc : Core s) (hT : w.alive = true → Target u x s w) (hJ : Joiner u j x s w)
    (h : Turn s l a s')
    (hT' : (w.after u j s s').alive = true → Target u x s' (w.after u j s s')) {r : Ret N}
    (hp : (w.after u j s s').phase = .returned r) : (∃ k, r = .join u k .ok (some x)) ∧
      (w.after u j s s').left = true ∧ (w.after u j s s').reaped = 1 := by
  have hleft : w.left = true → (w.after u j s s').left = true := by
    intro hl
    simp [Watch.after, hl]
  rcases phase_returned hp with hret | ⟨hin, hret⟩
  · obtain ⟨hr, hl, hq⟩ := hJ.returned r hret
    refine ⟨hr, hleft hl, ?_⟩
    cases ha' : (w.after u j s s').alive with
    | false => exact dead_step hT hJ h ha'
    | true =>
      -- once more would be twice
      have hle := (hT' ha').count_le
      have hge : w.reaped ≤ (w.after u j s s').reaped := by
        simp only [Watch.after]
        split_ifs <;> omega
      omega
  · obtain ⟨i₀, hlast, hat⟩ := hJ.inside hin
    rcases news_turn h with e | ⟨t, i, cs, new, s₁, hon, hcode, he, hh, -, e⟩
    · rw [e] at hret; cases hret
    · rw [e] at hret
      obtain ⟨rfl, rfl⟩ := logOf_returns.1 hret
      have hwf := hc.codes.wf t
      rw [hcode] at hwf hlast
      have hcs : cs = [] := hwf.1
      subst hcs
      obtain rfl : Instr.ret r = i₀ := by simpa using hlast
      cases hat with
      | ret k hl hr =>
        refine ⟨⟨k, rfl⟩, hleft hl, ?_⟩
        have hr' : (w.after u t s s').reaped = w.reaped := by
          simp only [Watch.after, e, logOf_reaps]
          simp
        rw [hr']
        simpa [hcode] using hr

/-- **The joiner while the thread is watched, and after.** -/
theorem joiner_step (hc : Core s) (hjc : JoinCodes s) (hT : w.alive = true → Target u x s w)
    (hJ : Joiner u j x s w) (hju : j ≠ u) (hok : soleJoin u j x (s, w) (l, a)) (h : Turn s l a s')
    (hT' : (w.after u j s s').alive = true → Target u x s' (w.after u j s s')) :
    Joiner u j x s' (w.after u j s s') where
  inside := inside_step hc hT hJ hju hok h
  woken := by
    simp only [Watch.after]
    split_ifs with hw
    · obtain ⟨hin, hm, hst, -⟩ := hw
      obtain ⟨i, hi, hji⟩ := List.any_eq_true.1 hm
      cases i with
      | joinClaim v k =>
        obtain rfl : v = u := by simpa using hji
        rw [hJ.waits hin k hi hst]
      | _ => cases hji
    · exact hJ.woken
  unwoken hp := by
    have hbefore : w.phase = .before := by
      simp only [Watch.after, Watch.phaseAfter] at hp
      cases hw : w.phase with
      | before => rfl
      | inside => cases hr : (news s s').findSome? (Event.returnOf j) <;> simp [hw, hr] at hp
      | returned r => simp [hw] at hp
    have hno : ¬ Wakes u j w s s' := by
      rintro ⟨hin, -⟩
      rw [hbefore] at hin
      cases hin
    simp only [Watch.after, if_neg hno]
    exact hJ.unwoken hbefore
  waits hp k hm hst := by
    have hno : ¬ Wakes u j w s s' := by
      rintro ⟨-, -, -, hrun⟩
      rw [hst] at hrun
      cases hrun
    simp only [Watch.after, if_neg hno]
    rcases phase_inside hp with ⟨hbefore, -⟩ | ⟨hin, hret⟩
    · exact hJ.unwoken hbefore
    · rcases joinClaim_turn hc h hm with hm | ⟨hcode, -⟩
      · exact hJ.waits hin k hm (joiner_waits hjc h hm hst)
      · -- it does not look at its target again
        obtain ⟨i, hlast, hat⟩ := hJ.inside hin
        obtain rfl : joinTest u k = i := by simpa [hcode] using hlast
        rcases hat.last with ⟨k', h⟩ | ⟨k', h⟩ | ⟨k', h⟩ <;> cases h
  returned r hp := returned_step hc hT hJ h hT' hp
  dead := dead_step hT hJ h

theorem target_start (hc : Core s) (hf : Fresh s u) (hno : Unclaimed s u) :
    Target u x s Watch.start := by
  obtain ⟨hst, hcode, hl, hd, ht, hq⟩ := hf
  obtain ⟨hcl, hj⟩ := hno
  have hnz : (s.uthreads u).utState ≠ .zombie := by rw [hst]; decide
  have hfr : freeing s u = 0 := by
    unfold freeing total
    refine Finset.sum_eq_zero fun t _ => List.countP_eq_zero.2 fun i hi hfree => ?_
    cases i with
    | destroy d v =>
      obtain ⟨-, rfl⟩ : d.early = false ∧ v = u := by simpa using hfree
      exact hnz (hc.slots.destroy t d v hi).st
    | _ => cases hfree
  constructor
  case ok => exact ⟨by simp [life, hcl, hd], .inl hj, .inl hfr⟩
  case ended => exact fun h => absurd h (by simp [hd])
  case dying => exact fun _ _ hz => absurd hz hnz
  case value => exact fun hz => absurd hz hnz
  case exits => exact fun status hm => by rw [hcode] at hm; simp [threadStartCode] at hm
  case left => exact ⟨fun h => absurd h Bool.false_ne_true, fun hz => absurd hz.1 hnz⟩
  case reaped =>
    have heq := claims_eq s u
    show 0 = _
    omega
  case looks =>
    intro t k hm
    have hpos : 0 < joining s u := total_pos hm (by simp)
    omega
  case before => exact fun _ => ⟨ht, hj, hfr, hd, hq⟩

theorem joiner_start : Joiner u j x s Watch.start where
  inside h := by cases h
  woken := Nat.zero_le 1
  unwoken _ := rfl
  waits h := by cases h
  returned r h := by cases h
  dead h := by cases h

/-- A step of a run in which `u` has one joiner, and no slot that is in use is written to. -/
def oneJoin (u j : Fin N) (x : ℤ) (p : State N L × Watch N) (b : Fin L × Act) : Prop :=
  soleJoin u j x p b ∧ sparesSlots p.1 b

instance (p : State N L × Watch N) (b : Fin L × Act) : Decidable (oneJoin u j x p b) :=
  inferInstanceAs (Decidable (_ ∧ _))

theorem handshake_reachable {s₀ : State (N + 2) (L + 1)} {u j : Fin (N + 2)}
    (h₀ : Runs.Reach anyStep sparesSlots (boot N L) s₀) (hf : Fresh s₀ u) (hno : Unclaimed s₀ u)
    (hju : j ≠ u) {p : State (N + 2) (L + 1) × Watch (N + 2)}
    (h : Runs.Reach (watchStep u j) (oneJoin u j x) (s₀, Watch.start) p) :
    (Core p.1 ∧ JoinCodes p.1 ∧ JoinWaits p.1) ∧ (p.2.alive = true → Target u x p.1 p.2) ∧
      Joiner u j x p.1 p.2 := by
  have hr₀ : Reachable sparesSlots (boot N L) s₀ := h₀.congr_step fun _ _ hb => next_of_spares hb
  have hc₀ := core_reachable boot_core hr₀
  refine h.invariant (P := fun p => (Core p.1 ∧ JoinCodes p.1 ∧ JoinWaits p.1) ∧
    (p.2.alive = true → Target u x p.1 p.2) ∧ Joiner u j x p.1 p.2)
    ⟨⟨hc₀, joiner_reachable hr₀⟩, fun _ => target_start hc₀ hf hno, joiner_start⟩ ?_
  rintro ⟨s, w⟩ p' ⟨l, a⟩ ⟨⟨hc, hjc, hjw⟩, hT, hJ⟩ ⟨hok, hsp⟩ hstep
  obtain ⟨s', hn, rfl⟩ := Option.map_eq_some_iff.1 hstep
  rw [next_of_spares hsp] at hn
  change Core s at hc
  have ht := move_turn hc (step_move hc.codes.wf hn)
  have hT' : (w.after u j s s').alive = true → Target u x s' (w.after u j s s') := by
    intro ha'
    have ha : w.alive = true := by
      simp only [Watch.after, Bool.and_eq_true] at ha'
      exact ha'.1
    exact target_step hc (hT ha) ha hok ht ha'
  exact ⟨⟨core_next hc hn, joinCodes_step hc hjc ht, joinWaits_step hc hjc hjw ht⟩, hT',
    joiner_step hc hjc hT hJ hju hok ht hT'⟩

/-- A joiner that is still to look has a target that is alive. -/
theorem Joiner.alive_of_look (hJ : Joiner u j x s w) (hjc : JoinCodes s) (hin : w.phase = .inside)
    (hm : joinClaim u k ∈ (s.uthreads j).utCtx) : w.alive = true := by
  obtain ⟨i, hlast, hat⟩ := hJ.inside hin
  obtain ⟨pre, hpre⟩ := hjc j u k hm
  have hne := List.ne_nil_of_mem hm
  have hl : (joinRest u k).getLast? = some i := by
    rw [← hpre, List.getLast?_append_of_ne_nil _ hne]
    exact hlast
  obtain rfl : joinClaim u k = i := by simpa [joinRest, uthreadSwitch] using hl
  cases hat with
  | look _ ha => exact ha

end Uthreads
