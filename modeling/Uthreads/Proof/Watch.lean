import Uthreads.Proof.Farewell

/-!
# A thread and its one joiner

`Watch` is what an observer of the thread `u` and of its joiner `j` has seen: whether `u` has left its
stack for good, where the join is, how often the joiner was woken and how often `u` was put on
`reap_queue`. It watches `u` until its slot is freed.

`Target` is what holds of `u` while nobody but `j` joins it; `target_step` keeps it.
-/

namespace Uthreads

variable {N L : ℕ} {l : Fin L} {t u j v : Fin N} {s s' s₁ : State N L} {i : Instr N} {c cs new : Code N}
  {k : ℕ} {a : Act} {x : ℤ}

open Instr

/-- Where a join is. -/
inductive Phase (N : ℕ)
  | before
  | inside
  | returned (r : Ret N)
  deriving DecidableEq

/-- What an observer of a thread and of its joiner has seen. -/
structure Watch (N : ℕ) where
  /-- The slot has not been freed. -/
  alive : Bool
  /-- The thread has ended and has left its stack. -/
  left : Bool
  phase : Phase N
  /-- How often the joiner was woken in the wait of its join. -/
  woken : ℕ
  /-- How often the thread was put on `reap_queue`. -/
  reaped : ℕ

def Watch.start : Watch N := ⟨true, false, .before, 0, 0⟩

/-- What a step has added to the history. -/
def news (s s' : State N L) : List (Event N) := s'.log.drop s.log.length

@[simp] def Event.reaps (u : Fin N) : Event N → Bool
  | .reapQueued w _ => decide (w = u)
  | _ => false

@[simp] def Event.returnOf (j : Fin N) : Event N → Option (Ret N)
  | .returned t r => if t = j then some r else none
  | _ => none

/-- The join starts when it looks at `u`, and ends when a call of `j` returns. -/
def Watch.phaseAfter (u j : Fin N) (w : Watch N) (s s' : State N L) : Phase N :=
  match w.phase with
  | .before => if w.alive = true ∧ s.tested u < s'.tested u then .inside else .before
  | .inside => ((news s s').findSome? (Event.returnOf j)).elim .inside .returned
  | .returned r => .returned r

/-- The joiner is made runnable in the wait of its join. -/
def Wakes (u j : Fin N) (w : Watch N) (s s' : State N L) : Prop :=
  w.phase = .inside ∧ (s.uthreads j).utCtx.any (Instr.joins u) = true ∧
    (s.uthreads j).utState = .wait ∧ (s'.uthreads j).utState = .runnable

instance (w : Watch N) (s s' : State N L) : Decidable (Wakes u j w s s') :=
  inferInstanceAs (Decidable (_ ∧ _ ∧ _ ∧ _))

/-- What the observer has seen after a step. -/
def Watch.after (u j : Fin N) (w : Watch N) (s s' : State N L) : Watch N where
  alive := w.alive && decide (Event.destroyed u ∉ news s s')
  left := w.left ||
    (w.alive && decide ((s'.uthreads u).utState = .zombie ∧ ∀ l, ¬ OnStack s' l u))
  phase := w.phaseAfter u j s s'
  woken := if Wakes u j w s s' then w.woken + 1 else w.woken
  reaped := if w.alive then w.reaped + (news s s').countP (Event.reaps u) else w.reaped

/-- The library with the observer. -/
def watchStep (u j : Fin N) (p : State N L × Watch N) (b : Fin L × Act) :
    Option (State N L × Watch N) :=
  (anyStep p.1 b).map fun s' => (s', p.2.after u j p.1 s')

/-- The value of a call of `uthread_exit`. -/
@[simp] def Act.exits : Act → Option ℤ
  | .call (.exit status) => some status
  | _ => none

/-- While the slot of `u` is not freed only `j` looks at `u`, once and in a join, and `u` exits with
`x`. -/
def soleJoin (u j : Fin N) (x : ℤ) (p : State N L × Watch N) (b : Fin L × Act) : Prop :=
  p.2.alive = true →
    (∀ t join, OnStack p.1 b.1 t → (p.1.uthreads t).utCtx.head?.bind Instr.looks = some (join, u) →
      join = true ∧ t = j ∧ p.2.phase = .before) ∧
    (OnStack p.1 b.1 u → ∀ status ∈ b.2.exits, status = x)

instance (p : State N L × Watch N) (b : Fin L × Act) : Decidable (soleJoin u j x p b) :=
  inferInstanceAs (Decidable (_ → _ ∧ _))

/-- `u` has been created joinable and has not run, and nobody has looked at it. -/
def Fresh (s : State N L) (u : Fin N) : Prop :=
  (s.uthreads u).utState = .transition ∧ (s.uthreads u).utCtx = threadStartCode ∧
    (s.pmtx (.utPmut u)).status = .live ∧ (s.uthreads u).utDetached = false ∧ s.tested u = 0 ∧
    (s.queues (.utWaiter u)).tqWaiters = []

instance (s : State N L) (u : Fin N) : Decidable (Fresh s u) :=
  inferInstanceAs (Decidable (_ ∧ _ ∧ _ ∧ _ ∧ _ ∧ _))

/-- No call that passed its tests of an earlier thread of the slot is still at work on it. -/
def Unclaimed (s : State N L) (u : Fin N) : Prop := claims s u = 0 ∧ joining s u = 0

instance (s : State N L) (u : Fin N) : Decidable (Unclaimed s u) :=
  inferInstanceAs (Decidable (_ ∧ _))

/-! ## The history of a step -/

theorem news_quiet (h : SameHist s s') : news s s' = [] := by
  unfold news
  rw [h.log, List.drop_length]

theorem news_thread (hh : Hist t s i s₁) (c : Code N) : news s (s₁.setCtx t c) = logOf s t i := by
  unfold news
  rw [State.setCtx_log, hh.log, List.drop_left]

/-- A step records something only when a thread executes an instruction. -/
theorem news_turn (h : Turn s l a s') : news s s' = [] ∨ ∃ t i cs new s₁, OnStack s l t ∧
    (s.uthreads t).utCtx = i :: cs ∧ Effect l t s i s₁ new ∧ Hist t s i s₁ ∧
    s' = s₁.setCtx t (new ++ cs) ∧ news s s' = logOf s t i := by
  cases h with
  | thread t i cs new hon hcode he hh =>
    exact .inr ⟨t, i, cs, new, _, hon, hcode, he, hh, rfl, news_thread hh _⟩
  | call | preempt => exact .inl (news_quiet (by constructor <;> rfl))
  | lwp hb => exact .inl (news_quiet hb.hist)

theorem logOf_destroyed : Event.destroyed u ∈ logOf s t i ↔ i = destroy .state u := by
  cases i with
  | swtch q sv m =>
    cases q with
    | none => simp [logOf]
    | some q => cases q <;> simp [logOf]
  | destroy d w => cases d <;> simp [logOf, eq_comm]
  | _ => simp [logOf]

theorem logOf_reaps : (logOf s t i).countP (Event.reaps u) =
    if i = makeReapable u ∧ (s.uthreads u).utState = .zombie then 1 else 0 := by
  cases i with
  | swtch q sv m =>
    cases q with
    | none => simp [logOf]
    | some q => cases q <;> simp [logOf]
  | makeReapable w =>
    by_cases hw : w = u
    · subst hw
      simp only [logOf]
      split_ifs <;> simp_all
    · simp only [logOf]
      split_ifs <;> simp_all
  | lockTest m | trylockTest m => simp only [logOf]; split_ifs <;> simp_all
  | unlockTest m => cases h : (s.queues (.mWaiters m)).tqWaiters.head? <;> simp [logOf, h]
  | signalTest c | broadcastTest c =>
    cases h : (s.queues (.ucWaiters c)).tqWaiters.head? <;> simp [logOf, h]
  | allocScan start prio =>
    cases h : allocWhile (fun i => (s.uthreads i).utState) start <;> simp [logOf, h]
  | destroy d w => cases d <;> simp [logOf]
  | _ => simp [logOf]

theorem logOf_returns {r : Ret N} :
    (logOf s t i).findSome? (Event.returnOf j) = some r ↔ i = ret r ∧ t = j := by
  cases i with
  | swtch q sv m =>
    cases q with
    | none => simp [logOf]
    | some q => cases q <;> simp [logOf]
  | makeReapable w | lockTest m | trylockTest m => simp only [logOf]; split_ifs <;> simp
  | unlockTest m => cases h : (s.queues (.mWaiters m)).tqWaiters.head? <;> simp [logOf, h, List.findSome?_cons]
  | signalTest c | broadcastTest c =>
    cases h : (s.queues (.ucWaiters c)).tqWaiters.head? <;> simp [logOf, h]
  | allocScan start prio =>
    cases h : allocWhile (fun i => (s.uthreads i).utState) start <;> simp [logOf, h]
  | ret r' =>
    by_cases hj : t = j <;> simp [logOf, hj]
  | destroy d w => cases d <;> simp [logOf]
  | _ => simp [logOf]

/-! ## The thread -/

/-- What holds of `u` while it is watched and nobody but `j` joins it. -/
structure Target (u : Fin N) (x : ℤ) (s : State N L) (w : Watch N) : Prop where
  ok : LifeOk (life s u)
  ended : (s.uthreads u).utDetached = true → (s.uthreads u).utState = .zombie
  dying : ∀ l, OnStack s l u → (s.uthreads u).utState = .zombie → Dying u (s.uthreads u).utCtx
  /-- Until the reaper clears the slot. -/
  value : (s.uthreads u).utState = .zombie → freeing s u = 0 → (s.uthreads u).utExit = x
  exits : ExitsWith u x s
  left : w.left = true ↔ (s.uthreads u).utState = .zombie ∧ ∀ l, ¬ OnStack s l u
  reaped : w.reaped = (s.queues .reapQueue).tqWaiters.count u + total (Instr.destroys u) s
  /-- Whoever is still to look whether it has ended waits for it, or will find that it has. -/
  looks : ∀ t k, joinClaim u k ∈ (s.uthreads t).utCtx →
    (s.uthreads u).utState = .zombie ∨ t ∈ (s.queues (.utWaiter u)).tqWaiters
  before : w.phase = .before → s.tested u = 0 ∧ joining s u = 0 ∧ freeing s u = 0 ∧
    (s.uthreads u).utDetached = false ∧ (s.queues (.utWaiter u)).tqWaiters = []

/-- Its slot is not freed in the step. -/
theorem not_destroyed (hno : Event.destroyed u ∉ news s (s₁.setCtx t c)) (hh : Hist t s i s₁) :
    i ≠ destroy .state u := by
  rintro rfl
  rw [news_thread hh] at hno
  exact hno (logOf_destroyed.2 rfl)

section Watched

variable (h : Turn s l a s') (hno : Event.destroyed u ∉ news s s')
include h hno

theorem zombie_turn (hc : Core s) (hz : (s.uthreads u).utState = .zombie) :
    (s'.uthreads u).utState = .zombie := by
  cases h with
  | thread t i cs new hon hcode he hh =>
    have hwf := hc.codes.wf t
    have hexp := (hc.active hon).1
    rw [hcode] at hwf hexp
    rw [setCtx_utState]
    exact (effect_zombie hwf hexp he hz (not_destroyed hno hh)).1
  | call | preempt => simpa using hz
  | lwp hb =>
    rcases hb.state u with ⟨e, -⟩ | ⟨e, -⟩
    · rw [e]; exact hz
    · rw [e] at hz; cases hz

theorem value_turn (hc : Core s) (hx : ExitsWith u x s)
    (hv : (s.uthreads u).utState = .zombie → freeing s u = 0 → (s.uthreads u).utExit = x)
    (hz' : (s'.uthreads u).utState = .zombie) (hf' : freeing s' u = 0) :
    (s'.uthreads u).utExit = x := by
  have hf : freeing s u = 0 := (life_turn hc h u).freeing_zero (by simpa [life] using hz') hf'
  cases h with
  | @thread _ t i cs new s₁ hon hcode he hh =>
    have hset : ((s₁.setCtx t (new ++ cs)).uthreads u).utExit = (s₁.uthreads u).utExit := by simp
    rw [hset]
    by_cases hexit : ∃ status, i = exitTest u status
    · obtain ⟨status, rfl⟩ := hexit
      have hwf := hc.codes.wf t
      rw [hcode] at hwf
      obtain ⟨rfl, -⟩ := hwf.1
      rw [(effect_exitTest he).2.1]
      exact hx status (by rw [hcode]; exact List.mem_cons_self)
    · rw [setCtx_utState] at hz'
      have hz := (effect_ended hc hon hcode he (fun y e => hexit ⟨y, e⟩) (not_destroyed hno hh)).1 hz'
      rcases effect_utExit he u with e | ⟨y, e, -⟩ | ⟨prio, rfl⟩ | rfl
      · rw [e]; exact hv hz hf
      · exact absurd ⟨y, e⟩ hexit
      · have hst := (hc.creating hcode he).2.1
        simp [Unstarted, hz] at hst
      · have hpos : 0 < freeing s u :=
          total_pos (t := t) (by rw [hcode]; exact List.mem_cons_self) (by simp)
        omega
  | call t c hon hcode => simpa using hv (by simpa using hz') hf
  | preempt t hon hm hst h0 => simpa using hv (by simpa using hz') hf
  | lwp hb =>
    rw [(hb.fields u).2.2.1]
    rcases hb.state u with ⟨e, -⟩ | ⟨-, e, -⟩
    · exact hv (e ▸ hz') hf
    · rw [e] at hz'; cases hz'

omit h hno in
/-- The reaper goes on with the thread that it destroys until its slot is freed. -/
theorem effect_destroys_count (he : Effect l t s i s₁ new) (hi : i ≠ reaperDrain)
    (hd : i ≠ destroy .state u) : new.countP (Instr.destroys u) = (i.destroys u).toNat := by
  by_cases h : ∃ d, i = destroy d u
  · obtain ⟨d, rfl⟩ := h
    rw [(effect_destroy he).2.1]
    cases d <;> simp [destroyRest] at hd ⊢
  · have hno : i.destroys u = false := by
      cases i with
      | destroy d w => simpa using fun e => h ⟨d, by rw [e]⟩
      | _ => rfl
    rw [hno, Bool.toNat_false, List.countP_eq_zero]
    intro j hj hu
    cases j with
    | destroy d w =>
      obtain rfl : w = u := by simpa using hu
      rcases effect_destroys he hj with ⟨e, -⟩ | ⟨d', e, -⟩
      · exact hi e
      · exact h ⟨d', e⟩
    | _ => cases hu

/-- What is on `reap_queue` or with the reaper has been put on `reap_queue`. -/
theorem reaped_turn (hc : Core s) :
    (s'.queues .reapQueue).tqWaiters.count u + total (Instr.destroys u) s' =
      (s.queues .reapQueue).tqWaiters.count u + total (Instr.destroys u) s +
        (news s s').countP (Event.reaps u) := by
  have hrare : Rare (Instr.destroys u) := rare_of_ends (fun j h => by cases j <;> simp at h ⊢) rfl
  cases h with
  | @thread _ t i cs new s₁ hon hcode he hh =>
    have hwf := hc.codes.wf t
    rw [hcode] at hwf
    have hd := not_destroyed hno hh
    have htot := total_thread hrare hc hcode he
    rw [news_thread hh, logOf_reaps, State.setCtx_queues]
    by_cases hdr : i = reaperDrain
    · subst hdr
      obtain ⟨-, h₁, hq⟩ := effect_reaperDrain (u := u) he
      simp only [Instr.destroys, Bool.toNat_false, reduceCtorEq, false_and, if_false] at htot ⊢
      omega
    · rw [effect_destroys_count he hdr hd] at htot
      by_cases hm : i = makeReapable u
      · subst hm
        obtain ⟨-, -, ⟨hz, hq⟩ | ⟨hz, hq⟩⟩ := effect_makeReapable he
        · rw [hq, if_neg fun h => hz h.2]
          omega
        · rw [hq, if_pos ⟨rfl, hz⟩, List.count_append, List.count_singleton_self]
          omega
      · rw [if_neg fun h => hm h.1, effect_count hwf.1 he hm hdr]
        omega
  | call t c hon hcode =>
    rw [news_quiet (by constructor <;> rfl), total_same (s := s) fun v => ?_]
    · rfl
    · by_cases hv : v = t
      · subst hv
        simp [hcode, hrare.call]
      · simp [hv]
  | preempt t hon hm hst h0 =>
    rw [news_quiet (by constructor <;> rfl), total_same (s := s) fun v => ?_]
    · rfl
    · by_cases hv : v = t
      · subst hv
        simp [List.countP_append, hrare.interrupt]
      · simp [hv]
  | lwp hb =>
    rw [news_quiet hb.hist, hb.queues _ (by simp),
      total_same (s := s) fun v => by rw [(hb.fields v).1]]
    rfl

theorem looks_turn (hc : Core s) (hi : ∀ t k, joinClaim u k ∈ (s.uthreads t).utCtx →
      (s.uthreads u).utState = .zombie ∨ t ∈ (s.queues (.utWaiter u)).tqWaiters) :
    ∀ t k, joinClaim u k ∈ (s'.uthreads t).utCtx →
      (s'.uthreads u).utState = .zombie ∨ t ∈ (s'.queues (.utWaiter u)).tqWaiters := by
  intro t k hm
  rcases joinClaim_turn hc h hm with hm | ⟨-, hq | ⟨hz, -⟩⟩
  · rcases hi t k hm with hz | hq
    · exact .inl (zombie_turn h hno hc hz)
    · rcases waiter_turn hc h hq with hq' | ⟨hz, -⟩
      · exact .inr hq'
      · exact .inl hz
  · exact .inr hq
  · exact .inl hz

end Watched

/-- Nobody waits for a thread at which nobody looks. -/
theorem noWaiter_turn (hc : Core s) (h : Turn s l a s')
    (hq : (s.queues (.utWaiter u)).tqWaiters = []) (hlook : ¬ s.tested u < s'.tested u) :
    (s'.queues (.utWaiter u)).tqWaiters = [] := by
  cases h with
  | @thread _ t i cs new s₁ hon hcode he hh =>
    rw [State.setCtx_queues]
    by_cases hi : QueueId.utWaiter u ∈ i.queues
    · cases he with
      | plain hp hs => rw [hs.queues]; exact hq
      | swtch hsw =>
        have hwf := hc.codes.wf t
        rw [hcode] at hwf
        cases hwf.1 <;> simp at hi
      | take _ _ _ hnew | signal _ _ _ _ hnew =>
        rcases hnew with ⟨rfl, -⟩ | ⟨rfl, -⟩ <;> simp at hi
      | create w x =>
        obtain ⟨rfl, hx⟩ := queues_createInit hi
        cases hx
        simp
      | exitDetached | exitAlone => exact hq
      | exitJoined w y status hd hdq =>
        obtain rfl : u = w := by simpa using hi
        obtain ⟨z, hz, -⟩ := utqueueDequeue_some hdq
        have hz' : (s.queues (.utWaiter u)).tqWaiters = y :: z.tqWaiters := hz
        rw [hq] at hz'
        cases hz'
      | joinWait w k =>
        obtain rfl : u = w := by simpa using hi
        refine absurd ?_ hlook
        rw [State.setCtx_tested, hh.tested]
        simp [testedOf]
      | destroy d w =>
        obtain ⟨rfl, hx⟩ := queues_destroy hi
        cases hx
        simp
      | _ => simp at hi
    · rw [effect_queues he (by simp) hi]
      exact hq
  | call | preempt => exact hq
  | lwp hb => rw [hb.queues _ (by simp)]; exact hq

/-- **The thread while it is watched.** -/
theorem target_step {w : Watch N} (hc : Core s) (hT : Target u x s w) (ha : w.alive = true)
    (hok : soleJoin u j x (s, w) (l, a)) (h : Turn s l a s')
    (ha' : (w.after u j s s').alive = true) : Target u x s' (w.after u j s s') := by
  have hno : Event.destroyed u ∉ news s s' := by
    simp only [Watch.after, ha, Bool.true_and, decide_eq_true_eq] at ha'
    exact ha'
  obtain ⟨hlook, hexit⟩ := hok ha
  have hlife := life_turn hc h u
  constructor
  case ok =>
    refine life_step hT.ok (fun join hp => ?_) hlife
    obtain ⟨⟨t, hon, hi⟩, hd, -⟩ := hp
    obtain ⟨-, hj, hf, -⟩ := hT.before (hlook t join hon hi).2.2
    exact ⟨hj, hf, hd⟩
  case ended =>
    have hend : (life s u).detached = true → (life s u).ended = true := by
      simpa [life] using hT.ended
    have hend' : (life s' u).detached = true → (life s' u).ended = true := by
      generalize life s' u = y at hlife ⊢
      cases hlife with
      | same h | refuse h | join hp h | claimLate he hj h | reapLate he hc h => rw [h]; exact hend
      | exit he h => rw [h]; exact fun _ => rfl
      | clear he hc h => rw [h]; exact fun h => by cases h
      | @free f he hf h =>
        -- it is not detached any more
        rw [h]
        intro hd
        rcases hT.ok.freed with hf' | ⟨-, -, hd'⟩
        · rw [hf] at hf'; cases hf'
        · rw [hd'] at hd; cases hd
      | claim he hj h => rw [h]; exact fun _ => he
      | detach hp h =>
        obtain ⟨⟨t, hon, hi⟩, -⟩ := hp
        cases (hlook t false hon hi).1
    simpa [life] using hend'
  case dying => exact dying_step hc hT.ended hT.dying h
  case value => exact value_turn h hno hc hT.exits hT.value
  case exits => exact exits_turn hT.exits (fun hon status ha => hexit hon status (by simp [ha])) h
  case left =>
    simp only [Watch.after, ha, Bool.true_and, Bool.or_eq_true, decide_eq_true_eq]
    refine ⟨fun hl => hl.elim (fun hl => ?_) id, .inr⟩
    obtain ⟨hz, hoff⟩ := hT.left.1 hl
    exact ⟨zombie_turn h hno hc hz, off_turn hc h hz hoff⟩
  case reaped =>
    rw [reaped_turn h hno hc, ← hT.reaped]
    simp [Watch.after, ha]
  case looks => exact looks_turn h hno hc hT.looks
  case before =>
    intro hp
    have hphase : w.phase = .before ∧ ¬ s.tested u < s'.tested u := by
      simp only [Watch.after, Watch.phaseAfter] at hp
      cases hw : w.phase with
      | before =>
        refine ⟨rfl, fun hlt => ?_⟩
        simp [hw, ha, hlt] at hp
      | inside => rw [hw] at hp; cases hr : (news s s').findSome? (Event.returnOf j) <;> simp [hr] at hp
      | returned r => simp [hw] at hp
    obtain ⟨ht, hj, hf, hd, hq⟩ := hT.before hphase.1
    have hcl : (life s u).claims = 0 := by
      rw [hT.ok.claimed]
      simp [life, hd]
    have hres : (life s' u).tested = 0 ∧ (life s' u).joining = 0 ∧ (life s' u).freeing = 0 ∧
        (life s' u).detached = false := by
      have hx : (life s u).tested = 0 ∧ (life s u).joining = 0 ∧ (life s u).freeing = 0 ∧
        (life s u).detached = false := ⟨ht, hj, hf, hd⟩
      have hlt : ¬ (life s u).tested < (life s' u).tested := hphase.2
      generalize life s' u = y at hlife hlt ⊢
      cases hlife with
      | same h => rw [h]; exact hx
      | exit he h => rw [h]; exact hx
      | clear he hc h | reapLate he hc h => rw [hc] at hcl; cases hcl
      | free he hf' h => rw [hx.2.2.1] at hf'; cases hf'
      | refuse h | join hp h | detach hp h => rw [h] at hlt; exact absurd (Nat.lt_succ_self _) hlt
      | claim he hj' h | claimLate he hj' h => rw [hx.2.1] at hj'; cases hj'
    exact ⟨hres.1, hres.2.1, hres.2.2.1, hres.2.2.2, noWaiter_turn hc h hq hphase.2⟩

end Uthreads
