import Uthreads.Proof.PlacesStep

/-!
# The life of the slots

`slots_step`: every step keeps `Slots`. A slot is set up once before it is started, has one joiner
at most, and is destroyed as an unlinked zombie.
-/

namespace Uthreads

variable {N L : ℕ} {l : Fin L} {t u v : Fin N} {s s' s₁ : State N L} {i : Instr N} {cs new : Code N}

open Instr

/-! ## What the queue operations leave of a thread -/

theorem enqueue_rest_thread {q : QueueId N} (h : utqueueEnqueue q t s = .ok s') (v : Fin N) :
    ∃ lk, s'.uthreads v = { s.uthreads v with utLink := lk } := by
  obtain ⟨-, rfl⟩ := utqueueEnqueue_ok h
  by_cases hv : v = t
  · subst hv; exact ⟨some q, by simp⟩
  · exact ⟨(s.uthreads v).utLink, by simp [hv]⟩

theorem dequeue_rest_thread {q : QueueId N} (h : utqueueDequeue q s = some (t, s')) (v : Fin N) :
    ∃ lk, s'.uthreads v = { s.uthreads v with utLink := lk } := by
  obtain ⟨x, -, rfl⟩ := utqueueDequeue_some h
  by_cases hv : v = t
  · subst hv; exact ⟨none, by simp⟩
  · exact ⟨(s.uthreads v).utLink, by simp [hv]⟩

theorem runqEnqueue_rest_thread (h : uthreadRunqEnqueue t s = .ok s') (v : Fin N) :
    ∃ lk, s'.uthreads v = { s.uthreads v with utLink := lk } := by
  obtain ⟨p, -, -, hu, -⟩ := runqEnqueue_ok h
  by_cases hv : v = t
  · subst hv; exact ⟨some (.runq p), by simp [hu]⟩
  · exact ⟨(s.uthreads v).utLink, by simp [hu, hv]⟩

theorem requeue_rest_thread {oldprio : ℤ} (h : uthreadRunqRequeue t oldprio s = .ok s') (v : Fin N) :
    ∃ lk, s'.uthreads v = { s.uthreads v with utLink := lk } := by
  obtain ⟨p, p', -, -, hm, rfl⟩ := runqRequeue_ok h
  by_cases hv : v = t
  · subst hv; exact ⟨some (.runq p'), by simp⟩
  · exact ⟨(s.uthreads v).utLink, by simp [hv]⟩

/-- The fields of a thread that few instructions write. -/
theorem effect_fields (he : Effect l t s i s₁ new) (v : Fin N) :
    ((s₁.uthreads v).utWaiterInit = (s.uthreads v).utWaiterInit ∨ ∃ prio, i = createInit .waiter v prio) ∧
    ((s₁.uthreads v).utDetached = (s.uthreads v).utDetached ∨
      (∃ k, i = joinClaim v k ∨ i = detachTest v k) ∨ i = destroy .detached v) := by
  have hsame : ∀ {f : Uthread N}, s₁.uthreads v = f → f.utWaiterInit = (s.uthreads v).utWaiterInit →
      f.utDetached = (s.uthreads v).utDetached →
      ((s₁.uthreads v).utWaiterInit = (s.uthreads v).utWaiterInit ∨ ∃ prio, i = createInit .waiter v prio) ∧
      ((s₁.uthreads v).utDetached = (s.uthreads v).utDetached ∨
        (∃ k, i = joinClaim v k ∨ i = detachTest v k) ∨ i = destroy .detached v) :=
    fun h h₁ h₂ => ⟨.inl (by rw [h, h₁]), .inl (by rw [h, h₂])⟩
  cases he with
  | plain hp hs => exact hsame (by rw [hs.uthreads]) rfl rfl
  | lock | unlock => exact hsame rfl rfl rfl
  | nopreemptOn | nopreemptOff | interruptLeave | block | exitDetached | exitAlone =>
    exact hsame rfl (by simp) (by simp)
  | swtch hsw =>
    cases hsw with
    | yield hz hs₁ =>
      obtain ⟨lk, h⟩ := runqEnqueue_rest_thread hs₁ v
      exact hsame h (by simp) (by simp)
    | queue q p hs₁ hs =>
      obtain ⟨lk, h⟩ := enqueue_rest_thread hs₁ v
      exact hsame ((congrFun hs.uthreads v).trans h) rfl rfl
    | leave | gone => exact hsame rfl rfl rfl
  | wake u hw hs =>
    obtain ⟨lk, h⟩ := runqEnqueue_rest_thread hs v
    exact hsame h (by simp) (by simp)
  | start u prio hw hs =>
    obtain ⟨lk, h⟩ := runqEnqueue_rest_thread hs v
    exact hsame h (by simp) (by simp)
  | setprio u prio hs hnew =>
    rcases hs with ⟨rfl, -⟩ | ⟨-, hr⟩
    · exact hsame rfl (by simp) (by simp)
    · obtain ⟨lk, h⟩ := requeue_rest_thread hr v
      exact hsame h (by simp) (by simp)
  | take _ _ hs | release _ _ hs => exact hsame (by rw [hs.uthreads]; rfl) rfl rfl
  | waitMark _ hs | alloc _ _ _ _ hs => exact hsame (by rw [hs.uthreads]) (by simp) (by simp)
  | handOver m u hq hs =>
    obtain ⟨lk, h⟩ := dequeue_rest_thread hq v
    exact hsame ((congrFun hs.uthreads v).trans h) rfl rfl
  | signal c u hq hs =>
    obtain ⟨lk, h⟩ := dequeue_rest_thread hq v
    exact hsame ((congrFun hs.uthreads v).trans h) rfl rfl
  | create w u prio =>
    refine ⟨?_, .inl (by simp)⟩
    by_cases hv : w = .waiter ∧ v = u
    · obtain ⟨rfl, rfl⟩ := hv
      exact .inr ⟨prio, rfl⟩
    · exact .inl (by simp [hv])
  | exitJoined u w status hd hq =>
    obtain ⟨lk, h⟩ := dequeue_rest_thread hq v
    exact hsame h (by simp) (by simp)
  | makeReapable u hz hs₁ hs =>
    obtain ⟨lk, h⟩ := enqueue_rest_thread hs₁ v
    exact hsame ((congrFun hs.uthreads v).trans h) rfl rfl
  | joinWait u k hq hd hz hinit hs₁ hs =>
    obtain ⟨lk, h⟩ := enqueue_rest_thread hs₁ v
    exact hsame ((congrFun hs.uthreads v).trans h) (by simp) (by simp)
  | claim u k =>
    by_cases hv : v = u
    · subst hv
      exact ⟨.inl (by simp), .inr (.inl ⟨k, .inl rfl⟩)⟩
    · exact hsame rfl (by simp [hv]) (by simp [hv])
  | detach u k hq hd hinit hs =>
    by_cases hv : v = u
    · subst hv
      exact ⟨.inl (by simp [hs.uthreads]), .inr (.inl ⟨k, .inr rfl⟩)⟩
    · exact hsame (by rw [hs.uthreads]) (by simp [hv]) (by simp [hv])
  | drain u hq =>
    obtain ⟨lk, h⟩ := dequeue_rest_thread hq v
    exact hsame h rfl rfl
  | destroy d u =>
    refine ⟨.inl (by simp), ?_⟩
    by_cases hv : d = .detached ∧ v = u
    · obtain ⟨rfl, rfl⟩ := hv
      exact .inr (.inr rfl)
    · exact .inl (by simp [hv])

/-! ## Zombies -/

/-- A zombie stays one until it is destroyed, and unlinked until it is queued for the reaper. -/
theorem effect_zombie (hwf : Wf t (i :: cs)) (hexp : (s.uthreads t).utState = expect (i :: cs))
    (he : Effect l t s i s₁ new) (hz : (s.uthreads v).utState = .zombie) (hd : i ≠ destroy .state v) :
    (s₁.uthreads v).utState = .zombie ∧
      (i ≠ makeReapable v → (s.uthreads v).utLink = none → (s₁.uthreads v).utLink = none) := by
  have hself : panicDead ∉ i :: cs → v ≠ t := by
    rintro hn rfl
    rw [hz] at hexp
    simp only [expect, hn, if_false] at hexp
    split at hexp <;> cases hexp
  have hkeep : (s₁.uthreads v).utState = (s.uthreads v).utState →
      (s₁.uthreads v).utLink = (s.uthreads v).utLink → (s₁.uthreads v).utState = .zombie ∧
      (i ≠ makeReapable v → (s.uthreads v).utLink = none → (s₁.uthreads v).utLink = none) :=
    fun h₁ h₂ => ⟨h₁.trans hz, fun _ h => h₂.trans h⟩
  cases he with
  | plain hp hs => exact hkeep (by rw [hs.uthreads]) (by rw [hs.uthreads])
  | lock | unlock => exact hkeep rfl rfl
  | nopreemptOn | nopreemptOff | interruptLeave | claim => exact hkeep (by simp) (by simp)
  | swtch hsw =>
    cases hsw with
    | yield hz' hs₁ =>
      have hvt : v ≠ t := by rintro rfl; exact hz' hz
      obtain ⟨h₁, h₂⟩ := switch_other (l := l) (.yield hz' hs₁) hvt
      exact hkeep h₁ h₂
    | queue q p hs₁ hs =>
      have hvt : v ≠ t := hself (by cases hwf.1 <;> simpa)
      obtain ⟨h₁, h₂⟩ := switch_other (l := l) (.queue q p hs₁ hs) hvt
      exact hkeep h₁ h₂
    | leave | gone => exact hkeep rfl rfl
  | wake u hw hs =>
    have hvu : v ≠ u := by rintro rfl; rw [hz] at hw; cases hw
    obtain ⟨h₁, h₂⟩ := untouched_runq (s := s) hvu (by simp [hvu]) hs
    exact hkeep h₁ h₂
  | start u prio hw hs =>
    have hvu : v ≠ u := by rintro rfl; rw [hz] at hw; cases hw
    obtain ⟨h₁, h₂⟩ := untouched_runq (s := s) hvu (by simp [hvu]) hs
    exact hkeep h₁ h₂
  | setprio u prio hs hnew =>
    rcases hs with ⟨rfl, -⟩ | ⟨hu, hr⟩
    · exact hkeep (by simp) (by simp)
    · have hvu : v ≠ u := by rintro rfl; rw [hz] at hu; cases hu
      exact hkeep (by rw [(requeue_thread hr v).2.1]; simp) (by rw [requeue_link hr hvu]; simp)
  | take m ho hs | release m hq hs => exact hkeep (by simp [hs.uthreads]) (by simp [hs.uthreads])
  | detach u k hq hd hinit hs => exact hkeep (by simp [hs.uthreads]) (by simp [hs.uthreads])
  | block m ho =>
    have hvt := hself (by simpa using hwf.1.2)
    simp [hvt, hz]
  | waitMark c hs =>
    have hp : panicDead ∉ cs := by
      obtain ⟨cs', rfl⟩ := hwf.1
      have hok := hwf.2.2.2.2.1
      cases hok with
      | cond _ hd => simpa [uthreadSwitch] using hd
    have hvt := hself (by simpa using hp)
    simp [hs.uthreads, hvt, hz]
  | handOver m u hq hs =>
    simp +contextual [hs.uthreads, dequeue_thread hq, dequeue_link hq, hz]
  | signal c u hq hs =>
    simp +contextual [hs.uthreads, dequeue_thread hq, dequeue_link hq, hz]
  | alloc start prio j hj hs =>
    have hno := allocWhile_noState hj
    have hvj : v ≠ j := by rintro rfl; rw [hz] at hno; cases hno
    simp [hs.uthreads, hvj, hz]
  | create w u prio =>
    refine ⟨by simp [hz], fun _ hlk => ?_⟩
    by_cases hvu : v = u
    · subst hvu
      cases w <;> simp only [createWrite] <;> first | split_ifs <;> simp [hlk] | simp [hlk]
    · rw [createWrite_of_ne s w hvu, hlk]
  | exitDetached u | exitAlone u =>
    by_cases hvu : v = u
    · subst hvu; simp
    · simp [hvu, hz]
  | exitJoined u w status hd hq =>
    rw [(dequeue_thread hq v).2.1, dequeue_link hq v]
    by_cases hvu : v = u
    · subst hvu; simp +contextual
    · simp +contextual [hvu, hz]
  | makeReapable u hz' hs₁ hs =>
    have h₁ := (enqueue_thread hs₁ v).2.1
    have h₂ := (enqueue_link hs₁ v).2
    refine ⟨by rw [hs.uthreads, h₁, hz], fun hi hlk => ?_⟩
    have hvu : v ≠ u := by rintro rfl; exact hi rfl
    rw [hs.uthreads, h₂, if_neg hvu, hlk]
  | joinWait u k hq hd hz' hinit hs₁ hs =>
    have hcs : cs = [] := hwf.1
    have hvt := hself (by simp [hcs])
    have h₁ := (enqueue_thread hs₁ v).2.1
    have h₂ := (enqueue_link hs₁ v).2
    simp [hs.uthreads, h₁, h₂, hvt, hz]
  | drain u hq => simp +contextual [dequeue_thread hq, dequeue_link hq, hz]
  | destroy d u =>
    have hvu : ¬ (d = .state ∧ v = u) := by rintro ⟨rfl, rfl⟩; exact hd rfl
    simp [hvu, hz]

/-- A thread in front of a destruction owns `reap_mtx`. -/
theorem Guarded.owns_reap {c : Code N} {d : DestroyStep} (h : Guarded c) (hd : destroy d u ∈ c) :
    Owns .reapMtx c := by
  obtain ⟨pre, hpre, rfl⟩ := h.destroys d u hd
  rcases mem_front.1 hpre with rfl | ⟨-, rfl | rfl⟩ | ⟨-, rfl⟩ | ⟨-, rfl⟩ <;> simp

theorem Core.owns_reap {d : DestroyStep} (hc : Core s) (hd : destroy d u ∈ (s.uthreads v).utCtx) :
    (s.mtx .reapMtx).mOwner = some v := by
  refine hc.reap v ?_
  have hwf := hc.codes.wf v
  cases hcode : (s.uthreads v).utCtx with
  | nil => rw [hcode] at hd; cases hd
  | cons i cs =>
    rw [hcode] at hwf hd
    exact hwf.2.1.owns_reap hd

/-- A destruction comes in with the reaper's loop, of a zombie that it has taken off the queue, or
with the step before it. -/
theorem effect_destroys {d : DestroyStep} (he : Effect l t s i s₁ new) (hd : destroy d u ∈ new) :
    (i = reaperDrain ∧ d = .test ∧ (s.uthreads u).utState = .zombie ∧
      utqueueDequeue .reapQueue s = some (u, s₁)) ∨
      ∃ d', i = destroy d' u ∧ destroy d u ∈ destroyRest u d' := by
  rcases effect_before he _ hd with ⟨rfl, rfl⟩ | h
  · left
    cases he with
    | plain hp => cases hp; simp at hd
    | take _ _ _ h | signal _ _ _ _ h => rcases h with ⟨h, -⟩ | ⟨h, -⟩ <;> cases h
    | drain w hq hz =>
      obtain rfl : u = w := by simpa using hd
      exact ⟨rfl, rfl, hz, hq⟩
  · exact .inr h

/-- No instruction puts another thread on an LWP. -/
theorem effect_onStack (he : Effect l t s i s₁ new) {k : Fin L} (h : OnStack s₁ k u) :
    OnStack s k u := by
  by_cases hsw : ∃ q sv m, i = swtch q sv m
  · obtain ⟨q, sv, m, rfl⟩ := hsw
    obtain ⟨-, -, hl⟩ := switch_mode he
    by_cases hk : k = l
    · subst hk
      cases m <;> simp [OnStack, hl] at h
    · simpa [OnStack, hl, hk] using h
  · obtain ⟨h₁, h₂, -⟩ := effect_lwps he (fun q sv m e => hsw ⟨q, sv, m, e⟩) k
    exact ⟨h₁.symm.trans h.1, h₂.symm.trans h.2⟩

/-- Who is about to destroy a thread after an instruction. -/
theorem destroy_thread {d : DestroyStep} (hc : Core s) (hon : OnStack s l t)
    (hcode : (s.uthreads t).utCtx = i :: cs) (he : Effect l t s i s₁ new)
    (hd : destroy d u ∈ ((s₁.setCtx t (new ++ cs)).uthreads v).utCtx) : Doomed s₁ d u := by
  have hwf := hc.codes.wf t
  have hexp := (hc.active hon).1
  rw [hcode] at hwf hexp
  -- a destruction that was to come before the instruction
  have hold : destroy d u ∈ (s.uthreads v).utCtx → (v = t → destroy d u ∈ cs) → Doomed s₁ d u := by
    intro hv hcs
    obtain ⟨hz, hlk, hoff, hl⟩ := hc.slots.destroy v d u hv
    have hne : Owns .reapMtx (i :: cs) → v = t := fun h => by
      have := hc.reap t (by rw [hcode]; exact h)
      rw [hc.owns_reap hv] at this
      exact Option.some.inj this
    have hi : (∀ d' w, i ≠ destroy d' w) ∧ i ≠ makeReapable u := by
      constructor
      · rintro d' w rfl
        have hmem := hcs (hne (.inl (by simp)))
        obtain rfl : cs = [reaperDrain] := hwf.1
        simp at hmem
      · rintro rfl
        exact hwf.2.1.no_destroy rfl (by simp) d u (hcs (hne (.inl (by simp))))
    have hcr : ∀ prio, i ≠ createInit .pmut u prio := by
      rintro prio rfl
      have := (hc.creating hcode he).2.1
      simp [Unstarted, hz] at this
    obtain ⟨h₁, h₂⟩ := effect_zombie hwf hexp he hz (hi.1 _ _)
    exact ⟨h₁, h₂ hi.2 hlk, fun hd₁ hd₂ k hk => hoff hd₁ hd₂ k (effect_onStack he hk),
      (effect_status he hcr (hi.1 _ _)).trans hl⟩
  by_cases hv : v = t
  · subst hv
    have hd' : destroy d u ∈ new ∨ destroy d u ∈ cs := by simpa using hd
    rcases hd' with hnew | hold'
    · rcases effect_destroys he hnew with ⟨rfl, rfl, hz, hq⟩ | ⟨d', rfl, hrest⟩
      · have hlk := hc.links.dequeue_link hq
        have hlive : (s.pmtx (.utPmut u)).status = .live := by
          by_contra hl
          rw [(hc.free hl).2.2.1] at hlk
          cases hlk
        exact ⟨by simpa [dequeue_thread hq] using hz, by simp [dequeue_link hq],
          fun h => absurd rfl h, by simpa [(dequeue_rest hq).pmtx] using hlive⟩
      · obtain ⟨hz, hlk, hoff, hl⟩ := hc.slots.destroy v d' u (by rw [hcode]; simp)
        obtain ⟨rfl, -, hstack, -⟩ := effect_destroy he
        cases d' <;> simp only [destroyRest, List.mem_cons, List.not_mem_nil, or_false,
          reduceCtorEq, false_or, Instr.destroy.injEq, and_true] at hrest <;> subst hrest <;>
          refine ⟨by simpa using hz, by simpa using hlk, fun h₁ h₂ => ?_, by simp_all⟩
        · exact absurd rfl h₂
        · exact hstack rfl
        all_goals exact hoff (by decide) (by decide)
    · exact hold (by rw [hcode]; exact List.mem_cons_of_mem _ hold') fun _ => hold'
  · rcases other_code cs he hv with e | ⟨-, -, e⟩
    · rw [e] at hd
      exact hold hd fun h => absurd h hv
    · rw [e] at hd
      simp [threadStartCode] at hd

/-! ## Slots that are set up -/

/-- Only `uthread_create` puts a start in front. -/
theorem effect_starts (he : Effect l t s i s₁ new) : starts new = [] ∨
    ∃ w u prio, i = createInit w u prio ∧ new = createRest u prio w := by
  by_cases hnil : starts new = []
  · exact .inl hnil
  obtain ⟨u, hu⟩ := List.exists_mem_of_ne_nil _ hnil
  obtain ⟨j, hj, hu⟩ := List.mem_flatMap.1 hu
  have hb := effect_before he j hj
  have hi : ∃ w prio, i = createInit w u prio := by
    cases j with
    | createInit w v prio =>
      rcases hb with ⟨rfl, -⟩ | ⟨w', hi, -⟩
      · cases hu
      · cases w <;> simp at hu <;> exact ⟨w', prio, by rw [hi, hu]⟩
    | startTest v prio =>
      obtain rfl : u = v := by simpa using hu
      exact ⟨.count, prio, hb⟩
    | _ => cases hu
  obtain ⟨w, prio, rfl⟩ := hi
  exact .inr ⟨w, u, prio, rfl, (effect_create he).2.1⟩

theorem starts_thread (hcode : (s.uthreads t).utCtx = i :: cs)
    (he : Effect l t s i s₁ new) (hu : u ∈ starts ((s₁.setCtx t (new ++ cs)).uthreads v).utCtx) :
    u ∈ starts (s.uthreads v).utCtx ∧ (v = t → u ∈ starts cs) ∨ v = t ∧ u ∈ starts new :=
  mem_code_thread Instr.starts rfl hcode he hu

/-- A `uthread_create` that has begun to set a slot up goes on to do so. -/
theorem Core.creator {w : CreateStep} {prio : ℤ} (hc : Core s)
    (hcode : (s.uthreads t).utCtx = createInit w u prio :: cs)
    (he : Effect l t s (createInit w u prio) s₁ new) (hv : u ∈ starts (s.uthreads v).utCtx) :
    v = t := by
  by_cases hw : w = .ctx
  · exact absurd hv ((hc.vacant ((effect_create he).2.2.1 hw)).2.2.2 v)
  · exact hc.slots.starter v t u hv (by rw [hcode]; cases w <;> simp at hw ⊢)

/-- A slot that somebody is about to start after an instruction is still unstarted. -/
theorem start_thread (hc : Core s) (hon : OnStack s l t) (hcode : (s.uthreads t).utCtx = i :: cs)
    (he : Effect l t s i s₁ new) (hu : u ∈ starts ((s₁.setCtx t (new ++ cs)).uthreads v).utCtx) :
    Unstarted s₁ u ∧ (s₁.uthreads u).utCtx = threadStartCode := by
  have hwf := hc.codes.wf t
  rw [hcode] at hwf
  rcases starts_thread hcode he hu with ⟨hv, hcs⟩ | ⟨rfl, hnew⟩
  · obtain ⟨hst, hctx⟩ := hc.slots.start v u hv
    have hi : ¬ ∃ prio, i = startTest u prio := by
      rintro ⟨prio, rfl⟩
      have hvt : v = t := hc.slots.starter v t u hv (by rw [hcode]; simp)
      obtain ⟨r, rfl⟩ := hwf.1
      simpa using hcs hvt
    refine ⟨(unstarted_thread hc hon hcode he hst).resolve_right hi, ?_⟩
    rcases (effect_code he u).1 with e | ⟨-, -, e⟩
    · exact e.trans hctx
    · exact e
  · rcases effect_starts he with e | ⟨w, x, prio, rfl, rfl⟩
    · rw [e] at hnew; cases hnew
    · obtain rfl : u = x := by simpa using hnew
      refine ⟨(unstarted_thread hc hon hcode he (hc.creating hcode he).2.1).resolve_right (by simp), ?_⟩
      by_cases hw : w = .ctx
      · subst hw
        have hno : ¬ ∃ k, OnStack s k u := fun ⟨k, hk⟩ => hk.not_off (hc.creating hcode he).1
        rw [(effect_create he).1]
        simp [createWrite, hno]
      · have hctx := (hc.slots.start v u (by rw [hcode]; cases w <;> simp at hw ⊢)).2
        rcases (effect_code he u).1 with e | ⟨-, -, e⟩
        · exact e.trans hctx
        · exact e

/-- A slot is started by one thread. -/
theorem starter_thread (hc : Core s) (hcode : (s.uthreads t).utCtx = i :: cs)
    (he : Effect l t s i s₁ new) {x y : Fin N}
    (hx : u ∈ starts ((s₁.setCtx t (new ++ cs)).uthreads x).utCtx)
    (hy : u ∈ starts ((s₁.setCtx t (new ++ cs)).uthreads y).utCtx) : x = y := by
  have hnew : u ∈ starts new → ∀ v, u ∈ starts (s.uthreads v).utCtx → v = t := by
    intro h v hv
    rcases effect_starts he with e | ⟨w, x, prio, rfl, rfl⟩
    · rw [e] at h; cases h
    · obtain rfl : u = x := by simpa using h
      exact hc.creator hcode he hv
  rcases starts_thread hcode he hx with ⟨hx', -⟩ | ⟨rfl, hx'⟩ <;>
    rcases starts_thread hcode he hy with ⟨hy', -⟩ | ⟨ey, hy'⟩
  · exact hc.slots.starter x y u hx' hy'
  · exact (hnew hy' x hx').trans ey.symm
  · exact (hnew hx' y hy').symm
  · exact ey.symm

theorem setUp_free (h : i.starts = []) : SetUp s i := by
  cases i with
  | createInit w => cases w <;> simp at h ⊢
  | startTest => simp at h
  | _ => trivial

/-- How far a slot is set up is in its mutex and its counter. -/
theorem SetUp.frame (h : SetUp s i) (hs : ∀ u ∈ i.starts,
    (s'.pmtx (.utPmut u)).status = (s.pmtx (.utPmut u)).status ∧
      (s'.uthreads u).utNoPreemptCount = (s.uthreads u).utNoPreemptCount) : SetUp s' i := by
  cases i with
  | createInit w => cases w <;> simp_all
  | startTest => simp_all
  | _ => trivial

/-- What `uthread_create` finds when it goes on. -/
theorem setUp_next {w : CreateStep} {prio : ℤ} (hc : Core s)
    (hcode : (s.uthreads t).utCtx = createInit w u prio :: cs)
    (he : Effect l t s (createInit w u prio) s₁ new) : ∀ j ∈ createRest u prio w, SetUp s₁ j := by
  have hl := (hc.creating hcode he).2.2.2
  have hset := hc.slots.setUp t (createInit w u prio) (by rw [hcode]; exact List.mem_cons_self)
  rw [(effect_create he).1]
  cases w with
  | ctx => simpa [createRest] using hl (by decide)
  | link | prio | exit | waiter => simpa [createRest] using hset
  | pmut => simp [createRest]
  | count => simpa [createRest, uthreadStartonrunq, createWrite] using hset

/-- Slots stay as far set up as `uthread_create` has come. -/
theorem setUp_thread (hc : Core s) (hon : OnStack s l t) (hcode : (s.uthreads t).utCtx = i :: cs)
    (he : Effect l t s i s₁ new) {j : Instr N}
    (hj : j ∈ ((s₁.setCtx t (new ++ cs)).uthreads v).utCtx) : SetUp s₁ j := by
  have hwf := hc.codes.wf t
  rw [hcode] at hwf
  -- an instruction that was to come before
  have hold : j ∈ (s.uthreads v).utCtx → (v = t → j ∈ cs) → SetUp s₁ j := by
    refine fun hv hcs => (hc.slots.setUp v j hv).frame fun u hu => ?_
    have hmem : u ∈ starts (s.uthreads v).utCtx := List.mem_flatMap.2 ⟨j, hv, hu⟩
    have hst := (hc.slots.start v u hmem).1
    have hne : ∀ w prio, i ≠ createInit w u prio := by
      rintro w prio rfl
      have := hcs (hc.creator hcode he hmem)
      rw [show cs = [] from hwf.1] at this
      cases this
    have hut : u ≠ t := by rintro rfl; exact hon.not_off (hc.unstarted hst).1
    constructor
    · refine effect_status he (hne _) ?_
      rintro rfl
      have hz := (hc.slots.destroy t .pmut u (by rw [hcode]; simp)).st
      simp [Unstarted, hz] at hst
    · rcases (effect_code he u).2 with e | ⟨⟨prio, e⟩, -⟩
      · rw [e, if_neg hut]
      · exact absurd e (hne _ prio)
  by_cases hv : v = t
  · subst hv
    have hj' : j ∈ new ∨ j ∈ cs := by simpa using hj
    rcases hj' with hnew | hcs
    · rcases effect_starts he with e | ⟨w, x, prio, rfl, rfl⟩
      · exact setUp_free (List.flatMap_eq_nil_iff.1 e j hnew)
      · exact setUp_next hc hcode he j hnew
    · exact hold (by rw [hcode]; exact List.mem_cons_of_mem _ hcs) fun _ => hcs
  · rcases other_code cs he hv with e | ⟨-, -, e⟩ <;> rw [e] at hj
    · exact hold hj fun h => absurd h hv
    · exact setUp_free (List.flatMap_eq_nil_iff.1 (by simp [threadStartCode]) j hj)

/-! ## The joiners -/

/-- A slot that has no joiner and can have none keeps it so. -/
theorem noWaiter_kept (hc : Core s) (hcode : (s.uthreads t).utCtx = i :: cs)
    (he : Effect l t s i s₁ new) (hq : QueueId.utWaiter u ∉ i.queues) (h : Unwaited s₁ u) :
    (s.queues (.utWaiter u)).tqWaiters = [] := by
  have hzombie : ∀ d, i = destroy d u → (s.queues (.utWaiter u)).tqWaiters = [] := by
    rintro d rfl
    exact hc.slots.noWaiter u (.inr (.inl (hc.slots.destroy t d u (by rw [hcode]; simp)).st))
  rcases h with hd | hz | hl | hinit
  · rcases (effect_fields he u).2 with e | ⟨k, rfl | rfl⟩ | hi
    · exact hc.slots.noWaiter u (.inl (e.symm.trans hd))
    · cases he with
      | plain hp hs => exact hc.slots.noWaiter u (.inl (by rwa [hs.uthreads] at hd))
      | take _ _ _ h => rcases h with ⟨h, -⟩ | ⟨h, -⟩ <;> cases h
      | signal _ _ _ _ h => rcases h with ⟨h, -⟩ | ⟨h, -⟩ <;> cases h
      | claim _ _ hz => exact hc.slots.noWaiter u (.inr (.inl hz))
    · cases he with
      | plain hp hs => exact hc.slots.noWaiter u (.inl (by rwa [hs.uthreads] at hd))
      | take _ _ _ h => rcases h with ⟨h, -⟩ | ⟨h, -⟩ <;> cases h
      | signal _ _ _ _ h => rcases h with ⟨h, -⟩ | ⟨h, -⟩ <;> cases h
      | detach _ _ hw => exact hw
    · exact hzombie _ hi
  · cases effect_state he u with
    | same h => exact hc.slots.noWaiter u (.inr (.inl (h.symm.trans hz)))
    | exited status hi => subst hi; exact absurd (by simp) hq
    | saved _ _ _ h' | woken _ _ h' | started _ _ _ h' | blocked _ _ h' | allocated _ _ _ _ h'
    | destroyed _ h' => rw [hz] at h'; cases h'
  · by_cases hcr : ∃ prio, i = createInit .pmut u prio
    · obtain ⟨prio, rfl⟩ := hcr
      rw [(effect_create he).1] at hl
      simp at hl
    · by_cases hd : i = destroy .pmut u
      · exact hzombie _ hd
      · rw [effect_status he (fun prio e => hcr ⟨prio, e⟩) hd] at hl
        exact hc.slots.noWaiter u (.inr (.inr (.inl hl)))
  · rcases (effect_fields he u).1 with e | ⟨prio, rfl⟩
    · exact hc.slots.noWaiter u (.inr (.inr (.inr (e.symm.trans hinit))))
    · exact absurd (by simp) hq

/-- The queue of the joiners, and what it says about the slot. -/
theorem waiter_thread (hc : Core s) (hon : OnStack s l t) (hcode : (s.uthreads t).utCtx = i :: cs)
    (he : Effect l t s i s₁ new) (u : Fin N) :
    (s₁.queues (.utWaiter u)).tqWaiters.length ≤ 1 ∧
      (Unwaited s₁ u → (s₁.queues (.utWaiter u)).tqWaiters = []) := by
  have hwf := hc.codes.wf t
  rw [hcode] at hwf
  by_cases hq : QueueId.utWaiter u ∈ i.queues
  · have hempty : (s₁.queues (.utWaiter u)).tqWaiters = [] →
        (s₁.queues (.utWaiter u)).tqWaiters.length ≤ 1 ∧
        (Unwaited s₁ u → (s₁.queues (.utWaiter u)).tqWaiters = []) :=
      fun h => ⟨by simp [h], fun _ => h⟩
    cases he with
    | plain hp hs =>
      unfold Unwaited
      rw [hs.queues, hs.uthreads, hs.pmtx]
      exact ⟨hc.slots.waiter u, hc.slots.noWaiter u⟩
    | take _ _ _ h => rcases h with ⟨rfl, -⟩ | ⟨rfl, -⟩ <;> simp at hq
    | signal _ _ _ _ h => rcases h with ⟨rfl, -⟩ | ⟨rfl, -⟩ <;> simp at hq
    | swtch hsw =>
      obtain ⟨hok, -⟩ := hwf
      cases hok <;> simp at hq
    | create w x =>
      cases w <;> simp at hq
      exact hempty (by simp [hq])
    | exitDetached w status hd =>
      have hw : u = w := by simpa using hq
      subst hw
      exact hempty (hc.slots.noWaiter u (.inl hd))
    | exitAlone w status hd hw =>
      have hwu : u = w := by simpa using hq
      subst hwu
      exact hempty hw
    | exitJoined w x status hd hw =>
      have hwu : u = w := by simpa using hq
      subst hwu
      obtain ⟨y, hy, rfl⟩ := utqueueDequeue_some hw
      have := hc.slots.waiter u
      have hy' : (s.queues (.utWaiter u)).tqWaiters = x :: y.tqWaiters := hy
      rw [hy'] at this
      exact hempty (by simpa using this)
    | joinWait w k hw hd hz hinit hs₁ hs =>
      have hwu : u = w := by simpa using hq
      subst hwu
      have hheld := (hc.locks.taken (.utPmut u) (.inl t) (by simp [HeldBy, hcode])).2
      obtain ⟨-, rfl⟩ := utqueueEnqueue_ok hs₁
      refine ⟨by simp [hs.queues, hw], fun h => ?_⟩
      exfalso
      unfold Unwaited at h
      rw [hs.uthreads, hs.pmtx] at h
      by_cases hut : u = t
      · subst hut
        simp [hd, hheld, hinit] at h
      · simp [hut, hd, hheld, hz, hinit] at h
    | destroy d w =>
      cases d <;> simp at hq
      exact hempty (by simp [hq])
    | _ => simp at hq
  · rw [effect_queues he (q := .utWaiter u) (by simp) hq]
    exact ⟨hc.slots.waiter u, noWaiter_kept hc hcode he hq⟩

/-- A slot whose queue of joiners is set up is not the zero-filled one, or soon will not be. -/
theorem init_thread (hc : Core s) (hcode : (s.uthreads t).utCtx = i :: cs)
    (he : Effect l t s i s₁ new) (h : (s₁.uthreads v).utWaiterInit = true) :
    (s₁.pmtx (.utPmut v)).status ≠ .zeroed ∨
      ∃ u prio, createInit .pmut v prio ∈ ((s₁.setCtx t (new ++ cs)).uthreads u).utCtx := by
  by_cases hcr : ∃ prio, i = createInit .pmut v prio
  · obtain ⟨prio, rfl⟩ := hcr
    exact .inl (by rw [(effect_create he).1]; simp)
  by_cases hd : i = destroy .pmut v
  · subst hd
    exact .inl (by rw [(effect_destroy he).1]; simp)
  rw [effect_status he (fun prio e => hcr ⟨prio, e⟩) hd]
  rcases (effect_fields he v).1 with e | ⟨prio, rfl⟩
  · refine (hc.slots.init v (e.symm.trans h)).imp_right fun ⟨u, prio, hmem⟩ => ⟨u, prio, ?_⟩
    by_cases hut : u = t
    · subst hut
      rw [hcode, List.mem_cons] at hmem
      simp [hmem.resolve_left fun e => hcr ⟨prio, e.symm⟩]
    · rcases other_code cs he hut with e | ⟨-, hv, -⟩
      · rwa [e]
      · rcases (hc.free hv.1).2.2.2 with (e | e | e) | e <;>
          simp [e, deadCode, uthreadSwitch, threadStartCode] at hmem
  · refine .inr ⟨t, prio, ?_⟩
    rw [(effect_create he).2.1]
    simp [createRest]

/-! ## The steps -/

/-- Steps that change the code of one thread to one that starts and destroys nobody. -/
theorem slots_code (h : Slots s) (hpm : ∀ v, (s'.pmtx (.utPmut v)).status = (s.pmtx (.utPmut v)).status)
    (hq : ∀ v, s'.queues (.utWaiter v) = s.queues (.utWaiter v))
    (hu : ∀ v, (s'.uthreads v).utWaiterInit = (s.uthreads v).utWaiterInit ∧
      (s'.uthreads v).utDetached = (s.uthreads v).utDetached)
    (hst : ∀ v, (s'.uthreads v).utState = (s.uthreads v).utState ∧
        (s'.uthreads v).utLink = (s.uthreads v).utLink ∨
      (s.uthreads v).utState = .runnable ∧ (s'.uthreads v).utState = .onCpu)
    (hun : ∀ v, Unstarted s v → (s'.uthreads v).utCtx = (s.uthreads v).utCtx ∧
      (s'.uthreads v).utNoPreemptCount = (s.uthreads v).utNoPreemptCount)
    (hon : ∀ k v, OnStack s' k v → OnStack s k v ∨ (s.uthreads v).utState ≠ .zombie)
    (hcode : ∀ v, ∃ c, (s'.uthreads v).utCtx = c ++ (s.uthreads v).utCtx ∧ starts c = [] ∧
      ∀ d u, destroy d u ∉ c) : Slots s' := by
  have hstarts : ∀ v, starts (s'.uthreads v).utCtx = starts (s.uthreads v).utCtx := fun v => by
    obtain ⟨c, e, hc, -⟩ := hcode v
    rw [e, starts_append, hc, List.nil_append]
  refine ⟨fun v hv => ?_, fun v u hv => ?_, fun v v' u h₁ h₂ => ?_, fun v j hj => ?_, fun v => ?_,
    fun v hv => ?_, fun v d u hv => ?_⟩
  · rw [hpm]
    refine (h.init v (by rwa [(hu v).1] at hv)).imp_right fun ⟨t, prio, ht⟩ => ⟨t, prio, ?_⟩
    obtain ⟨c, e, -⟩ := hcode t
    rw [e]
    exact List.mem_append_right c ht
  · rw [hstarts] at hv
    obtain ⟨h₁, h₂⟩ := h.start v u hv
    refine ⟨?_, (hun u h₁).1.trans h₂⟩
    rcases hst u with ⟨e, -⟩ | ⟨e, -⟩
    · rwa [Unstarted, e]
    · simp [Unstarted, e] at h₁
  · rw [hstarts] at h₁ h₂
    exact h.starter v v' u h₁ h₂
  · obtain ⟨c, e, hc, -⟩ := hcode v
    rw [e, List.mem_append] at hj
    rcases hj with hj | hj
    · exact setUp_free (List.flatMap_eq_nil_iff.1 hc j hj)
    · refine (h.setUp v j hj).frame fun u hu => ⟨hpm u, (hun u ?_).2⟩
      exact (h.start v u (List.mem_flatMap.2 ⟨j, hj, hu⟩)).1
  · rw [hq]; exact h.waiter v
  · rw [hq]
    refine h.noWaiter v ?_
    unfold Unwaited at hv
    rw [(hu v).1, (hu v).2, hpm] at hv
    rcases hv with hv | hv | hv
    · exact .inl hv
    · rcases hst v with ⟨e, -⟩ | ⟨-, e⟩
      · exact .inr (.inl (by rwa [e] at hv))
      · rw [e] at hv; cases hv
    · exact .inr (.inr hv)
  · obtain ⟨c, e, -, hc⟩ := hcode v
    rw [e, List.mem_append] at hv
    obtain ⟨h₁, h₂, h₃, h₄⟩ := h.destroy v d u (hv.resolve_left (hc d u))
    have hsame : (s'.uthreads u).utState = (s.uthreads u).utState ∧
        (s'.uthreads u).utLink = (s.uthreads u).utLink := by
      refine (hst u).resolve_right fun e => ?_
      rw [h₁] at e
      cases e.1
    exact ⟨hsame.1.trans h₁, hsame.2.trans h₂,
      fun hd hd' k hk => (hon k u hk).elim (h₃ hd hd' k) fun hz => hz h₁, (hpm u).trans h₄⟩

/-- Steps that change no code. -/
theorem slots_same (h : Slots s) (hu : s'.uthreads = s.uthreads) (hq : s'.queues = s.queues)
    (hpm : ∀ v, (s'.pmtx (.utPmut v)).status = (s.pmtx (.utPmut v)).status)
    (hon : ∀ k v, OnStack s' k v → OnStack s k v ∨ (s.uthreads v).utState ≠ .zombie) : Slots s' :=
  slots_code h hpm (fun v => by rw [hq]) (fun v => by rw [hu]; exact ⟨rfl, rfl⟩)
    (fun v => .inl (by rw [hu]; exact ⟨rfl, rfl⟩)) (fun v _ => by rw [hu]; exact ⟨rfl, rfl⟩) hon
    fun v => ⟨[], by rw [hu]; rfl, rfl, by simp⟩

/-- A thread that is being dispatched is no zombie. -/
theorem Core.dispatching (hc : Core s) (hm : (s.lwps l).mode = .dispatching)
    (hcur : (s.lwps l).utCurthr = some v) : (s.uthreads v).utState ≠ .zombie := by
  intro hz
  cases hc.places.place v with
  | free off | created off | queued off | waiting _ off | woken off | razed off =>
    exact absurd hcur (off l)
  | active k cur mode st =>
    rw [hc.places.cur k l v cur hcur, hm] at mode
    obtain ⟨-, hready⟩ := mode.resolve_left (by simp)
    rw [hz] at st
    simp [expect, hready.1, hready.2] at st
  | leaving k p q cur mode st => rw [hz] at st; cases st
  | dead off =>
    rcases off with off | ⟨k, cur, mode⟩
    · exact absurd hcur (off l)
    · rw [hc.places.cur k l v cur hcur, hm] at mode
      cases mode

/-- An LWP that is not running a thread takes a step. -/
theorem lwps_between (s s' : State N L) {x : Lwp N} (hrun : (s.lwps l).mode ≠ .running)
    (hl : s'.lwps = Function.update s.lwps l x)
    (hx : x.mode = .running → (s.lwps l).mode = .dispatching ∧ x.utCurthr = (s.lwps l).utCurthr) :
    (∀ k u, OnStack s k u → s'.lwps k = s.lwps k) ∧ ∀ k u, OnStack s' k u → OnStack s k u ∨
      (s.lwps k).mode = .dispatching ∧ (s.lwps k).utCurthr = some u := by
  constructor
  · intro k u hk
    have hkl : k ≠ l := by rintro rfl; exact hrun hk.1
    rw [hl, Function.update_of_ne hkl]
  · intro k u hk
    unfold OnStack at hk
    rw [hl] at hk
    by_cases hkl : k = l
    · subst hkl
      rw [Function.update_self] at hk
      obtain ⟨hd, hc⟩ := hx hk.1
      exact .inr ⟨hd, hc ▸ hk.2⟩
    · rw [Function.update_of_ne hkl] at hk
      exact .inl hk

/-- **An instruction.** -/
theorem slots_thread (hc : Core s) (hon : OnStack s l t) (hcode : (s.uthreads t).utCtx = i :: cs)
    (he : Effect l t s i s₁ new) : Slots (s₁.setCtx t (new ++ cs)) where
  init v hv := init_thread hc hcode he (by simpa using hv)
  start v u hv := by
    obtain ⟨h₁, h₂⟩ := start_thread hc hon hcode he hv
    have hut : u ≠ t := by
      rintro rfl
      refine hon.not_off ?_
      rcases starts_thread hcode he hv with ⟨hu, -⟩ | ⟨-, hu⟩
      · exact (hc.unstarted (hc.slots.start v u hu).1).1
      · rcases effect_starts he with e | ⟨w, x, prio, rfl, rfl⟩
        · rw [e] at hu; cases hu
        · obtain rfl : u = x := by simpa using hu
          exact (hc.creating hcode he).1
    exact ⟨by simpa [Unstarted] using h₁, by simpa [hut] using h₂⟩
  starter v v' u h₁ h₂ := starter_thread hc hcode he h₁ h₂
  setUp v j hj := (setUp_thread hc hon hcode he hj).frame fun u _ => ⟨rfl, by simp⟩
  waiter v := (waiter_thread hc hon hcode he v).1
  noWaiter v hv := (waiter_thread hc hon hcode he v).2 (by simpa [Unwaited] using hv)
  destroy v d u hv := by
    obtain ⟨h₁, h₂, h₃, h₄⟩ := destroy_thread hc hon hcode he hv
    exact ⟨by simpa using h₁, by simpa using h₂, h₃, h₄⟩

/-- **Every step keeps the life of the slots.** -/
theorem slots_step {a : Act} (hc : Core s) (h : Move s l a s') : Slots s' := by
  have hfront : ∀ t c, (∀ v, (s'.uthreads v).utCtx =
      if v = t then c ++ (s.uthreads v).utCtx else (s.uthreads v).utCtx) → starts c = [] →
      (∀ d u, destroy d u ∉ c) → ∀ v, ∃ c, (s'.uthreads v).utCtx = c ++ (s.uthreads v).utCtx ∧
        starts c = [] ∧ ∀ d u, destroy d u ∉ c := by
    intro t c hcode hs hd v
    by_cases hv : v = t
    · exact ⟨c, by rw [hcode v, if_pos hv], hs, hd⟩
    · exact ⟨[], by rw [hcode v, if_neg hv]; rfl, rfl, by simp⟩
  -- no zombie comes to run
  have hlwp : ∀ {s₁ : State N L} (x : Lwp N), (s.lwps l).mode ≠ .running →
      s₁.lwps = Function.update s.lwps l x →
      (x.mode = .running → (s.lwps l).mode = .dispatching ∧ x.utCurthr = (s.lwps l).utCurthr) →
      ∀ k v, OnStack s₁ k v → OnStack s k v ∨ (s.uthreads v).utState ≠ .zombie :=
    fun x h₁ h₂ h₃ k v hk => ((lwps_between s _ h₁ h₂ h₃).2 k v hk).imp_right
      fun ⟨hd, hcur⟩ => hc.dispatching hd hcur
  cases h with
  | halted e => exact slots_same hc.slots rfl rfl (fun _ => rfl) fun _ _ h => .inl h
  | thread t i cs new hon hcode he => exact slots_thread hc hon hcode he
  | call t c hon hcode =>
    obtain ⟨-, -, hs, hd⟩ := call_goes s.incarnation t c
    refine slots_code hc.slots (fun _ => rfl) (fun _ => rfl) (fun v => by simp) (fun v => .inl (by simp))
      (fun v hv => ?_) (fun k v h => .inl h) (hfront t _ (fun v => ?_) hs hd)
    · have hvt : v ≠ t := by rintro rfl; exact hon.not_off (hc.unstarted hv).1
      simp [hvt]
    · by_cases hv : v = t
      · subst hv; simp [hcode]
      · simp [hv]
  | preempt t hon hm hst h0 =>
    refine slots_code hc.slots (fun _ => rfl) (fun _ => rfl) (fun v => by simp) (fun v => .inl (by simp))
      (fun v hv => ?_) (fun k v h => .inl ?_) (hfront t clockInterrupt (fun v => ?_) starts_interrupt
        (by simp [clockInterrupt, uthreadYield, uthreadSwitch]))
    · have hvt : v ≠ t := by rintro rfl; exact hon.not_off (hc.unstarted hv).1
      simp [hvt]
    · by_cases hk : k = l
      · subst hk; simpa [OnStack] using h
      · simpa [OnStack, hk] using h
    · by_cases hv : v = t
      · subst hv; simp
      · simp [hv]
  | acquire m hm hst ho hs =>
    refine slots_same hc.slots hs.uthreads hs.queues (fun v => by simp [hs.pmtx]) (hlwp _ ?_ hs.lwps ?_)
    · rcases hm with ⟨h, -⟩ | ⟨h, -⟩ <;> simp [h]
    · rcases hm with ⟨-, rfl⟩ | ⟨-, rfl⟩ <;> simp
  | unlock p hm ho =>
    refine slots_same hc.slots rfl rfl (fun v => ?_) (hlwp _ (by simp [hm]) rfl (by simp))
    by_cases hp : PmtxId.utPmut v = p
    · subst hp; simp
    · simp [hp]
  | dispatch t hm hd =>
    obtain ⟨p, x, hx, -, rfl⟩ := dispatchBody_some hd
    have ht := ((hc.runq.mem t p).1 (by rw [hx]; exact List.mem_cons_self)).1
    refine slots_code hc.slots (fun _ => rfl) (fun v => by simp) (fun v => by simp) (fun v => ?_)
      (fun v _ => by simp) (hlwp _ (by simp [hm]) rfl (by simp)) fun v => ⟨[], by simp, rfl, by simp⟩
    by_cases hv : v = t
    · subst hv; exact .inr ⟨ht, by simp⟩
    · exact .inl (by simp [hv])
  | idle m hm hs =>
    refine slots_same hc.slots hs.uthreads hs.queues (fun v => by simp [hs.pmtx]) (hlwp _ ?_ hs.lwps ?_)
    · rcases hm with ⟨h, -⟩ | ⟨h, -⟩ <;> simp [h]
    · rcases hm with ⟨-, rfl⟩ | ⟨-, rfl⟩ <;> simp
  | leave m hm ho hs =>
    refine slots_same hc.slots hs.uthreads hs.queues (fun v => by simp [hs.pmtx]) (hlwp _ ?_ hs.lwps ?_)
    · rcases hm with ⟨h, -⟩ | ⟨h, -⟩ <;> simp [h]
    · rcases hm with ⟨h, rfl⟩ | ⟨-, rfl⟩
      · exact fun _ => ⟨h, rfl⟩
      · simp

end Uthreads
