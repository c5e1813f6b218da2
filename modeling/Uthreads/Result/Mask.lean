import Uthreads.Proof.Debt

/-!
# Preemption and the clock signal

`ut_no_preempt_count` belongs to the thread, the mask of `SIGVTALRM` to the LWP. A thread has its
count for the calls of `uthread_nopreempt_on` that its user has open and for the debt of its code
(`MaskInv.books`).

* `masked_consistent`: an LWP that runs a thread has the signal masked if and only if the count of the
  thread is positive, a thread that is not running has a positive count, every call of the library
  returns with the count it was made with, and no assertion about the mask or the count fails, as long
  as no slot that is in use is written to (`restarted_masked`).
-/

namespace Uthreads

variable {N L : ℕ} {l : Fin L} {t u v : Fin N} {s s' s₁ : State N L} {i : Instr N} {c cs new : Code N}
  {a : Act}

open Instr

/-! ## The calls that are open -/

/-- How many calls of `uthread_nopreempt_on` each thread has open after a step: one that has not been
started has none. -/
def opened (s : State N L) (b : Fin L × Act) (s' : State N L) (n : Fin N → ℕ) (v : Fin N) : ℕ :=
  if (s'.uthreads v).utState = .transition then 0
  else if (s.lwps b.1).utCurthr = some v then
    match b.2 with
    | .call .nopreemptOn => n v + 1
    | .call .nopreemptOff => n v - 1
    | _ => n v
  else n v

/-- The library, and the calls of `uthread_nopreempt_on` that are open. -/
def nest (x : State N L × (Fin N → ℕ)) (b : Fin L × Act) : Option (State N L × (Fin N → ℕ)) :=
  (anyStep x.1 b).map fun s' => (s', opened x.1 b s' x.2)

/-- `uthread_nopreempt_off` is called only for an open call of `uthread_nopreempt_on`. -/
def paired (x : State N L × (Fin N → ℕ)) (b : Fin L × Act) : Prop :=
  b.2 = .call .nopreemptOff → ∀ v, (x.1.lwps b.1).utCurthr = some v → 0 < x.2 v

instance (x : State N L × (Fin N → ℕ)) (b : Fin L × Act) : Decidable (paired x b) :=
  inferInstanceAs (Decidable (_ → _))

/-- In the step no `uthread_nopreempt_on` increments a count of `INT_MAX`. -/
def countFits (s : State N L) (b : Fin L × Act) : Prop :=
  ∀ t, OnStack s b.1 t → (s.uthreads t).utCtx.head? = some nopreemptOn →
    (s.uthreads t).utNoPreemptCount < intMax

instance (s : State N L) (b : Fin L × Act) : Decidable (countFits s b) :=
  inferInstanceAs (Decidable (∀ _, _))

/-- The calls nest, no count overflows, and no slot that is in use is written to. -/
def masksCalm (x : State N L × (Fin N → ℕ)) (b : Fin L × Act) : Prop :=
  (paired x b ∧ countFits x.1 b) ∧ sparesSlots x.1 b

instance (x : State N L × (Fin N → ℕ)) (b : Fin L × Act) : Decidable (masksCalm x b) :=
  inferInstanceAs (Decidable (_ ∧ _))

/-- What holds of the counts and the masks. -/
structure MaskInv (s : State N L) (n : Fin N → ℕ) : Prop where
  fresh : ∀ v, (s.uthreads v).utState = .transition → n v = 0
  books : ∀ v, ¬ Unstarted s v →
    ((s.uthreads v).utNoPreemptCount : ℤ) = n v + debt (s.uthreads v).utCtx
  zero : ∀ v, ¬ Unstarted s v → ∀ i cs, i.zeroes = true → i :: cs <:+ (s.uthreads v).utCtx →
    (n v : ℤ) + debt cs = 0
  masked : ∀ l t, OnStack s l t → (s.lwps l).masked = true → 0 < (s.uthreads t).utNoPreemptCount
  away : ∀ t, ¬ Unstarted s t → (∀ l, ¬ OnStack s l t) → 0 < (s.uthreads t).utNoPreemptCount

/-! ## Every step keeps them -/

theorem next_call {c : Call} (h : next s (l, .call c) = some s') :
    ∃ t, OnStack s l t ∧ (s.uthreads t).utCtx = [] ∧ s' = s.setCtx t (c.code s.incarnation t) := by
  have hstep := (next_step h).2
  unfold step at hstep
  split at hstep
  · cases hstep
  · cases hm : (s.lwps l).mode <;> cases hu : (s.lwps l).utCurthr <;>
      simp only [hm, hu] at hstep <;> first | cases hstep | skip
    rename_i t
    split_ifs at hstep with hcode
    exact ⟨t, ⟨hm, hu⟩, hcode, (Option.some.inj hstep).symm⟩

/-- A step that is no call opens nothing. -/
theorem opened_same {n : Fin N → ℕ} (ha : ∀ c, a ≠ .call c)
    (hst : (s'.uthreads v).utState ≠ .transition) : opened s (l, a) s' n v = n v := by
  unfold opened
  rw [if_neg hst]
  cases a with
  | call c => exact absurd rfl (ha c)
  | _ => split_ifs <;> rfl

/-- What a step does to the count, the code and the open calls of a thread. -/
inductive CountTurn (s : State N L) (l : Fin L) (v : Fin N) (a : Act) (s' : State N L)
    (n : Fin N → ℕ) : Prop
  | same (hst : ¬ Unstarted s v) (hn : opened s (l, a) s' n v = n v)
    (hcode : (s'.uthreads v).utCtx = (s.uthreads v).utCtx)
    (hcnt : (s'.uthreads v).utNoPreemptCount = (s.uthreads v).utNoPreemptCount)
  | thread (i : Instr N) (cs new : Code N) {s₁ : State N L} (hon : OnStack s l v)
    (hn : opened s (l, a) s' n v = n v)
    (hold : (s.uthreads v).utCtx = i :: cs) (heff : Effect l v s i s₁ new)
    (hcode : (s'.uthreads v).utCtx = new ++ cs)
    (hcnt : ((s'.uthreads v).utNoPreemptCount : ℤ) + i.pays = (s.uthreads v).utNoPreemptCount)
  | started (hst : (s.uthreads v).utState = .transition) (hn : opened s (l, a) s' n v = n v)
    (hcode : (s'.uthreads v).utCtx = threadStartCode) (hcnt : (s'.uthreads v).utNoPreemptCount = 1)
  | preempt (hon : OnStack s l v) (hn : opened s (l, a) s' n v = n v)
    (hold : (s.uthreads v).utNoPreemptCount = 0)
    (hcode : (s'.uthreads v).utCtx = clockInterrupt ++ (s.uthreads v).utCtx)
    (hcnt : (s'.uthreads v).utNoPreemptCount = 1)
  | call (c : Call) (ha : a = .call c) (hon : OnStack s l v) (hold : (s.uthreads v).utCtx = [])
    (hcode : (s'.uthreads v).utCtx = c.code s.incarnation v)
    (hcnt : (s'.uthreads v).utNoPreemptCount = (s.uthreads v).utNoPreemptCount)

theorem Core.started (hc : Core s) (hon : OnStack s l t) : ¬ Unstarted s t :=
  fun hu => hon.not_off (hc.unstarted hu).1

/-- A thread that `uthread_startonrunq` has put on the run queue. -/
theorem started_turn {prio : ℤ} (hc : Core s) (hcode : (s.uthreads t).utCtx = startTest v prio :: cs)
    (he : Effect l t s (startTest v prio) s₁ new) (hv : v ≠ t) :
    (s.uthreads v).utState = .transition ∧
      ((s₁.setCtx t (new ++ cs)).uthreads v).utCtx = threadStartCode ∧
      ((s₁.setCtx t (new ++ cs)).uthreads v).utNoPreemptCount = 1 := by
  have hset := hc.slots.setUp t (startTest v prio) (by rw [hcode]; exact List.mem_cons_self)
  have hstart := hc.slots.start t v (by rw [hcode]; simp)
  refine ⟨effect_start he, ?_, ?_⟩
  · rcases other_code cs he hv with e | ⟨-, -, e⟩
    · rw [e, hstart.2]
    · exact e
  · have hcnt := other_count he hv (fun prio' => by simp)
    simpa [hv, hcnt] using hset.2

/-- A thread that has been started, seen from an instruction of another. -/
theorem other_turn (hc : Core s) (hcode : (s.uthreads t).utCtx = i :: cs) (he : Effect l t s i s₁ new)
    (hv : v ≠ t) (hst : ¬ Unstarted s v) :
    ((s₁.setCtx t (new ++ cs)).uthreads v).utCtx = (s.uthreads v).utCtx ∧
      ((s₁.setCtx t (new ++ cs)).uthreads v).utNoPreemptCount = (s.uthreads v).utNoPreemptCount := by
  have hcr : ∀ w prio, i ≠ createInit w v prio := by
    rintro w prio rfl
    exact hst (hc.creating hcode he).2.1
  refine ⟨(other_code cs he hv).resolve_right fun h => ?_, ?_⟩
  · obtain ⟨⟨prio, hi⟩, -⟩ := h
    exact hcr _ prio hi
  · simpa [hv] using other_count he hv (hcr _)

theorem count_turn {n : Fin N → ℕ} (hc : Core s) (hn : next s (l, a) = some s')
    (hst' : ¬ Unstarted s' v) : CountTurn s l v a s' n := by
  have hmode : (s'.uthreads v).utState ≠ .transition := fun h => hst' (.inr h)
  by_cases hcall : ∃ c, a = .call c
  · obtain ⟨c, rfl⟩ := hcall
    obtain ⟨t, hon, hcode, rfl⟩ := next_call hn
    by_cases hv : v = t
    · subst hv
      exact .call c rfl hon hcode (by simp) (by simp)
    · refine .same (by simpa [Unstarted] using hst') ?_ (by simp [hv]) (by simp [hv])
      have hcur : (s.lwps l).utCurthr ≠ some v := by
        rw [hon.2]
        exact fun h => hv (Option.some.inj h).symm
      unfold opened
      rw [if_neg hmode, if_neg hcur]
  have ha : ∀ c, a ≠ .call c := fun c h => hcall ⟨c, h⟩
  have hsame := opened_same (s := s) (l := l) (n := n) ha hmode
  cases move_turn hc (step_move hc.codes.wf hn) with
  | @thread _ t i cs new s₁ hon hcode he =>
    by_cases hv : v = t
    · subst hv
      exact .thread i cs new hon hsame hcode he (by simp) (by simpa using effect_pays hc hon hcode he)
    · by_cases hst : Unstarted s v
      · rcases unstarted_thread hc hon hcode he hst with h | ⟨prio, rfl⟩
        · exact absurd (by simpa [Unstarted] using h) hst'
        · obtain ⟨h, hctx, hcnt⟩ := started_turn hc hcode he hv
          exact .started h hsame hctx hcnt
      · obtain ⟨hctx, hcnt⟩ := other_turn hc hcode he hv hst
        exact .same hst hsame hctx hcnt
  | call t c => exact absurd rfl (ha c)
  | preempt t hon hm hst h0 =>
    by_cases hv : v = t
    · subst hv
      exact .preempt hon hsame h0 (by simp) (by simp)
    · exact .same (by simpa [Unstarted, hv] using hst') hsame (by simp [hv]) (by simp [hv])
  | lwp hb =>
    obtain ⟨hcode, -, -, -, hcnt⟩ := hb.fields v
    refine .same (fun hst => hst' ?_) hsame hcode hcnt
    rcases hb.state v with ⟨e, -⟩ | ⟨e, -⟩
    · rwa [Unstarted, e]
    · rw [Unstarted, e] at hst
      rcases hst with h | h <;> cases h

variable {n : Fin N → ℕ}

/-- The books after a step, and what stands behind the instructions that need the count at zero. -/
theorem books_step (hc : Core s) (hi : MaskInv s n) (hp : paired (s, n) (l, a))
    (hn : next s (l, a) = some s') (hst' : ¬ Unstarted s' v) :
    ((s'.uthreads v).utNoPreemptCount : ℤ) = opened s (l, a) s' n v + debt (s'.uthreads v).utCtx := by
  cases count_turn (n := n) hc hn hst' with
  | same hst e hcode hcnt => rw [e, hcode, hcnt, hi.books v hst]
  | thread i cs new hon e hold he hcode hcnt =>
    have hb := hi.books v (hc.started hon)
    have hwf := hc.codes.wf v
    rw [hold] at hwf hb
    have := effect_debt hwf.1 he
    rw [e, hcode]
    omega
  | started hst e hcode hcnt =>
    rw [e, hcode, hcnt, hi.fresh v hst]
    rfl
  | preempt hon e hold hcode hcnt =>
    have hb := hi.books v (hc.started hon)
    rw [e, hcode, hcnt]
    rw [hold] at hb
    simp [clockInterrupt, uthreadYield, uthreadSwitch]
    omega
  | call c ha hon hold hcode hcnt =>
    subst ha
    have hb := hi.books v (hc.started hon)
    rw [hold, debt_nil] at hb
    rw [hcode, hcnt, call_debt, hb]
    unfold opened
    rw [if_neg fun h => hst' (.inr h), if_pos hon.2]
    cases c with
    | nopreemptOff =>
      have := hp rfl v hon.2
      simp only at this ⊢
      omega
    | nopreemptOn => simp
    | _ => rfl

theorem zero_step (hc : Core s) (hi : MaskInv s n) (hn : next s (l, a) = some s')
    (hst' : ¬ Unstarted s' v) (hz : i.zeroes = true) (hsuf : i :: cs <:+ (s'.uthreads v).utCtx) :
    (opened s (l, a) s' n v : ℤ) + debt cs = 0 := by
  cases count_turn (n := n) hc hn hst' with
  | same hst e hcode => rw [e]; exact hi.zero v hst i cs hz (hcode ▸ hsuf)
  | thread j cs' new hon e hold he hcode =>
    rw [hcode] at hsuf
    have hsuf' : i :: cs <:+ cs' := suffix_kept (fun k hk => by
      by_contra hk'
      have := effect_entry he k hk
      rw [Instr.entry_of_zeroes (by simpa using hk')] at this
      cases this) hz hsuf
    rw [e]
    exact hi.zero v (hc.started hon) i cs hz (hold ▸ hsuf'.trans (List.suffix_cons j cs'))
  | started hst e hcode =>
    rw [hcode] at hsuf
    simp only [threadStartCode, List.suffix_cons_iff, List.suffix_nil] at hsuf
    rcases hsuf with h | h | h
    · obtain ⟨rfl, -⟩ := List.cons.inj h; cases hz
    · obtain ⟨-, rfl⟩ := List.cons.inj h; rw [e, hi.fresh v hst]; rfl
    · cases h
  | preempt hon e hold hcode hcnt =>
    have hst := hc.started hon
    rw [hcode] at hsuf
    rw [e]
    have hb := hi.books v hst
    rw [hold] at hb
    have hsuf' : i :: cs <:+ interruptLeave :: (s.uthreads v).utCtx :=
      suffix_kept (p := uthreadYield) (by simp [uthreadYield, uthreadSwitch]) hz
        (by simpa [clockInterrupt] using hsuf)
    rcases List.suffix_cons_iff.1 hsuf' with h | h
    · -- the handler returns to the code that was interrupted
      obtain ⟨-, rfl⟩ := List.cons.inj h
      omega
    · exact hi.zero v hst i cs hz h
  | call c ha hon hold hcode hcnt =>
    exfalso
    have hmem : i ∈ c.code s.incarnation v := hcode ▸ hsuf.subset List.mem_cons_self
    obtain ⟨status, -, rfl⟩ := call_entry _ _ c hmem (Instr.entry_of_zeroes hz)
    cases hz

/-- A thread that switches has its count positive. -/
theorem switch_count {q : Option (QueueId N)} {sv : Bool} {m : Option (PmtxId N)} (hc : Core s)
    (hon : OnStack s l t) (hcode : (s.uthreads t).utCtx = swtch q sv m :: cs) :
    0 < (s.uthreads t).utNoPreemptCount := by
  have hpos : 0 < depth (s.uthreads t).utCtx :=
    (hc.codes.wf t).depth_pos (p := .runqMtx) (by rw [hcode]; simp)
  rcases hc.depth hon with e | h
  · rw [e] at hcode; cases hcode
  · omega

theorem masked_step (hc : Core s) (hi : MaskInv s n) (h : Turn s l a s') {k : Fin L}
    (hk : OnStack s' k u) (hm : (s'.lwps k).masked = true) : 0 < (s'.uthreads u).utNoPreemptCount := by
  cases h with
  | @thread _ t i cs new s₁ hon hcode he =>
    have hk' : OnStack s₁ k u := hk
    have hm' : (s₁.lwps k).masked = true := hm
    by_cases hkl : k = l
    · subst hkl
      obtain ⟨rfl, hsw⟩ := (onStack_thread hon he (k := k)).2.1 hk'
      have := effect_masked he (hi.masked k u hon) hm' hsw
      rw [← self_count hc hon hcode he] at this
      simpa using this
    · obtain ⟨hiff, hmask⟩ := (onStack_thread hon he).1 hkl
      have hold := hiff.1 hk'
      have hut : u ≠ t := by
        rintro rfl
        exact hkl (hc.places.cur k l u hold.2 hon.2)
      have := hi.masked k u hold (hmask ▸ hm')
      rw [(other_turn hc hcode he hut (hc.started hold)).2]
      exact this
  | call t c hon hcode =>
    have := hi.masked k u hk hm
    simpa using this
  | preempt t hon hmask hst h0 =>
    by_cases hu : u = t
    · subst hu; simp
    · have hkl : k ≠ l := by
        rintro rfl
        have : OnStack s k u := by simpa [OnStack] using hk
        exact hu (Option.some.inj (this.2.symm.trans hon.2))
      have := hi.masked k u (by simpa [OnStack, hkl] using hk) (by simpa [hkl] using hm)
      simpa [hu] using this
  | lwp hb =>
    rw [(hb.fields u).2.2.2.2]
    rcases hb.resumes k u hk with hold | ⟨hmode, hcur⟩
    · exact hi.masked k u hold (hb.stays k u hold ▸ hm)
    · -- the thread has been dispatched
      refine hi.away u (fun hu => (hc.unstarted hu).1 k hcur) fun j hj => ?_
      have := hc.places.cur j k u hj.2 hcur
      rw [← this, hj.1] at hmode
      cases hmode

theorem away_step (hc : Core s) (hi : MaskInv s n) (h : Turn s l a s') (hst' : ¬ Unstarted s' u)
    (haway : ∀ k, ¬ OnStack s' k u) : 0 < (s'.uthreads u).utNoPreemptCount := by
  cases h with
  | @thread _ t i cs new s₁ hon hcode he =>
    by_cases hu : u = t
    · subst hu
      -- it has switched
      have hsw : ∃ q sv m, i = swtch q sv m := by
        by_contra hno
        exact haway l ((onStack_thread hon he (k := l)).2.2
          ⟨rfl, fun q sv m e => hno ⟨q, sv, m, e⟩⟩)
      obtain ⟨q, sv, m, rfl⟩ := hsw
      have := switch_count hc hon hcode
      have hcnt := self_count hc hon hcode he
      simp only [count] at hcnt
      simpa [hcnt] using this
    · by_cases hst : Unstarted s u
      · rcases unstarted_thread hc hon hcode he hst with h | ⟨prio, rfl⟩
        · exact absurd (by simpa [Unstarted] using h) hst'
        · rw [(started_turn hc hcode he hu).2.2]
          exact Nat.one_pos
      · rw [(other_turn hc hcode he hu hst).2]
        refine hi.away u hst fun k hk => ?_
        have hkl : k ≠ l := by
          rintro rfl
          exact hu (Option.some.inj (hk.2.symm.trans hon.2))
        exact haway k (((onStack_thread hon he).1 hkl).1.2 hk)
  | call t c hon hcode =>
    have := hi.away u (by simpa [Unstarted] using hst') haway
    simpa using this
  | preempt t hon hmask hst h0 =>
    have hu : u ≠ t := by
      rintro rfl
      exact haway l (by simpa [OnStack] using hon)
    have := hi.away u (by simpa [Unstarted, hu] using hst') fun k hk => haway k ?_
    · simpa [hu] using this
    · by_cases hkl : k = l
      · subst hkl; simpa [OnStack] using hk
      · simpa [OnStack, hkl] using hk
  | lwp hb =>
    rw [(hb.fields u).2.2.2.2]
    refine hi.away u (fun hst => hst' ?_) fun k hk => haway k ?_
    · rcases hb.state u with ⟨e, -⟩ | ⟨e, -⟩
      · rwa [Unstarted, e]
      · rw [Unstarted, e] at hst
        rcases hst with h | h <;> cases h
    · unfold OnStack
      rw [hb.stays k u hk]
      exact hk

theorem mask_step (hc : Core s) (hi : MaskInv s n) (hp : paired (s, n) (l, a))
    (hn : next s (l, a) = some s') : MaskInv s' (opened s (l, a) s' n) := by
  have hturn := move_turn hc (step_move hc.codes.wf hn)
  exact ⟨fun v hst => if_pos hst, fun _ => books_step hc hi hp hn, fun _ hst _ _ => zero_step hc hi hn hst,
    fun _ _ => masked_step hc hi hturn, fun _ => away_step hc hi hturn⟩

/-! ## The assertions -/

/-- The assertions about the signal mask and the count. -/
def Assertion.masking : Assertion → Bool
  | switchMasked | switchCount | clockInterrupt | nopreemptOn | nopreemptOff | threadStart
  | makeReapable => true
  | _ => false

/-- A thread with something to lose has its count positive. -/
theorem held_count {p : PmtxId N} (hc : Core s) (hon : OnStack s l t)
    (hp : Held p (s.uthreads t).utCtx) : 0 < (s.uthreads t).utNoPreemptCount := by
  have hpos := (hc.codes.wf t).depth_pos hp
  rcases hc.depth hon with e | h
  · rw [e] at hp; simp at hp
  · omega

theorem fault_masking {x : Assertion} (hc : Core s) (hi : MaskInv s n) (hon : OnStack s l t)
    (hcode : (s.uthreads t).utCtx = i :: cs)
    (hfit : i = nopreemptOn → (s.uthreads t).utNoPreemptCount < intMax)
    (hf : Fault l t s i (.assertion x)) : x.masking = false := by
  have hb := hi.books t (hc.started hon)
  have hu := hc.codes.unmasked l t hon
  have hm := hi.masked l t hon
  have hheld : ∀ p ∈ i.needs, 0 < (s.uthreads t).utNoPreemptCount :=
    fun p hp => held_count hc hon (p := p) (by rw [hcode]; exact .inl hp)
  have hz := hi.zero t (hc.started hon) i cs
  rw [hcode] at hb hz
  cases hf with
  | nopreemptOn h h0 =>
    have := hm h
    omega
  | nopreemptMax h => exact absurd (hfit rfl) (Nat.not_lt.2 h)
  | nopreemptOff h =>
    exfalso
    have h0 : (s.uthreads t).utNoPreemptCount = 0 := h.elim hu id
    rcases hc.depth hon with e | hd
    · -- the call of the user
      rw [hcode] at e
      obtain ⟨-, rfl⟩ := List.cons.inj e
      simp at hb
      omega
    · rw [hcode] at hd
      simp at hd
      omega
  | interruptLeave h =>
    exfalso
    have h0 := hz rfl (List.suffix_refl _)
    simp at hb
    rcases h with h | h
    · omega
    · have := hu h
      omega
  | switchMasked q sv m h =>
    have := hheld .runqMtx (by simp)
    have := hu h
    omega
  | switchCount q sv m h =>
    have := hheld .runqMtx (by simp)
    omega
  | threadStart h =>
    have h0 := hz rfl (List.suffix_refl _)
    have := hm h
    simp at hb
    omega
  | reapableMasked u h =>
    have := hheld (.utPmut u) (by simp)
    have := hu h
    omega
  | switchSave h | wake _ _ h | start _ _ _ h => cases h; rfl
  | setprio _ _ _ h => cases h; rfl
  | _ => rfl

/-- The clock interrupt finds its thread running with the count at zero. -/
theorem unmasked_running (hc : Core s) (hon : OnStack s l t) (hm : (s.lwps l).masked = false) :
    (s.uthreads t).utState = .onCpu ∧ (s.uthreads t).utNoPreemptCount = 0 := by
  have h0 := hc.codes.unmasked l t hon hm
  refine ⟨?_, h0⟩
  rw [(hc.active hon).1]
  by_cases hnil : (s.uthreads t).utCtx = []
  · rw [hnil]; rfl
  rcases preemptible hc hon h0 with e | hd
  · rw [e]; rfl
  · have hwf := hc.codes.wf t
    refine (expect_awake (hwf.awake hd) ?_).1
    rcases (hwf.guarded hnil).masked with h | h
    · omega
    · exact h.2

theorem stop_masking {x : Assertion} (hc : Core s) (hi : MaskInv s n) (hfit : countFits s (l, a))
    (h : Stop s l a (.assertion x)) : x.masking = false := by
  cases h with
  | thread t i cs hon hcode hf =>
    exact fault_masking hc hi hon hcode (fun e => hfit t hon (by rw [hcode, e]; rfl)) hf
  | interrupt t hon hm h =>
    obtain ⟨hst, h0⟩ := unmasked_running hc hon hm
    exact absurd h (by simp [hst, h0])
  | acquire _ _ h => rcases h with ⟨-, h⟩ | ⟨-, h⟩ <;> cases h
  | release _ _ h => rcases h with ⟨-, h⟩ | ⟨-, -, h⟩ <;> cases h

/-- Only the first thread and the reaper are started. -/
theorem boot_started {t : Fin (N + 2)} (h : ¬ Unstarted (boot N L) t) : t = 0 ∨ t = 1 := by
  rcases boot_cases (L := L) t with ⟨-, -, -, -, -, ht⟩ | ⟨hz, -⟩
  · exact ht
  · exact absurd (by rw [Unstarted, hz]; exact .inl rfl) h

theorem boot_mask : MaskInv (boot N L) fun _ => 0 where
  fresh _ _ := rfl
  books v hst := by
    rcases boot_started hst with rfl | rfl
    · simp [boot, Uthread.first, threadStartCode]
    · simp [boot, Uthread.first, threadStartCode, reaper, uthreadMtxLock]
  zero v _ i cs hz hsuf := by
    have hstart : ∀ c : Code (N + 2), (∀ j ∈ c, j.zeroes = false) →
        i :: cs <:+ threadStartCode ++ c → cs = c := by
      intro c hc h
      have h' : i :: cs <:+ threadStart :: c := suffix_kept (p := [nopreemptOff]) (by simp) hz h
      rcases List.suffix_cons_iff.1 h' with e | h
      · exact (List.cons.inj e).2
      · have := hc i (h.subset List.mem_cons_self)
        rw [hz] at this
        cases this
    rcases boot_code (L := L) v with e | e | e <;> rw [e] at hsuf
    · rw [hstart [] (by simp) (by simpa using hsuf)]
      simp
    · rw [hstart reaper (by simp [reaper, uthreadMtxLock]) hsuf]
      simp [reaper, uthreadMtxLock]
    · simp at hsuf
  masked l t hon := absurd hon.2 (boot_off t l)
  away t hst _ := by
    rcases boot_started hst with rfl | rfl <;> simp [boot, Uthread.first]

/-! ## Consistency -/

/-- The calls that return, but for `uthread_nopreempt_on` and `uthread_nopreempt_off`. -/
def Call.neutral : Call → Bool
  | exit _ | nopreemptOn | nopreemptOff => false
  | _ => true

def Act.isCall : Act → Bool
  | call _ => true
  | _ => false

/-- The step is a call by `t`. -/
def callsBy (s : State N L) (t : Fin N) (b : Fin L × Act) : Prop :=
  (s.lwps b.1).utCurthr = some t ∧ b.2.isCall = true

instance (s : State N L) (t : Fin N) (b : Fin L × Act) : Decidable (callsBy s t b) :=
  inferInstanceAs (Decidable (_ ∧ _))

/-- A step of the run in which `t` does not come back from its call. -/
theorem inCall_step (hc : Core s) (hn : next s (l, a) = some s') (hno : ¬ callsBy s t (l, a))
    (ha : Alive s t) (hx : ∀ j ∈ (s.uthreads t).utCtx, ∀ status, j ≠ exitTest t status) :
    Alive s' t ∧ (∀ j ∈ (s'.uthreads t).utCtx, ∀ status, j ≠ exitTest t status) ∧
      opened s (l, a) s' n t = n t := by
  have ha' : Alive s' t :=
    alive_step hc (move_turn hc (step_move hc.codes.wf hn)) ha fun status cs hcode =>
      hx _ (by rw [hcode]; exact List.mem_cons_self) status rfl
  refine ⟨ha', ?_⟩
  cases count_turn (n := n) hc hn (fun hu => hu.elim ha'.1 ha'.2.1) with
  | same _ e hcode => exact ⟨by rwa [hcode], e⟩
  | thread i cs new hon e hold he hcode =>
    refine ⟨fun j hj status hji => ?_, e⟩
    rw [hcode] at hj
    rcases List.mem_append.1 hj with h | h
    · have := effect_entry he j h
      rw [hji] at this
      cases this
    · exact hx j (by rw [hold]; exact List.mem_cons_of_mem i h) status hji
  | started hst => exact absurd hst ha.2.1
  | preempt hon e hold hcode =>
    refine ⟨fun j hj status hji => ?_, e⟩
    rw [hcode] at hj
    rcases List.mem_append.1 hj with h | h
    · subst hji
      simp [clockInterrupt, uthreadYield, uthreadSwitch] at h
    · exact hx j h status hji
  | call c ha' hon => exact absurd ⟨hon.2, by rw [ha']; rfl⟩ hno

/-- A step of the library in a calm run is followed. -/
theorem nest_calm {y y' : State N L × (Fin N → ℕ)} {b : Fin L × Act} (hok : sparesSlots y.1 b)
    (hn : nest y b = some y') : ∃ s', next y.1 b = some s' ∧ y' = (s', opened y.1 b s' y.2) := by
  obtain ⟨s', hs, rfl⟩ := Option.map_eq_some_iff.1 hn
  exact ⟨s', next_of_spares hok ▸ hs, rfl⟩

/-- A call finds its thread at the end of its code. -/
theorem nest_call {s : State N L} {n : Fin N → ℕ} {c : Call} {x : State N L × (Fin N → ℕ)}
    (hneutral : c.neutral = true) (hcall : nest (s, n) (l, .call c) = some x) :
    masksCalm (s, n) (l, .call c) := by
  obtain ⟨s₁, hn, -⟩ := Option.map_eq_some_iff.1 hcall
  obtain ⟨t, hon, hcode, -⟩ := next_call (show next s (l, .call c) = some s₁ from hn)
  have hhead : ∀ u, OnStack s l u → (s.uthreads u).utCtx.head? = none := by
    intro u hu
    rw [Option.some.inj (hu.2.symm.trans hon.2), hcode]
    rfl
  refine ⟨⟨fun hoff => ?_, fun u hu h => ?_⟩, fun u hu => ?_⟩
  · rw [Act.call.inj hoff] at hneutral
    cases hneutral
  · rw [hhead u hu] at h
    cases h
  · rw [hhead u hu]
    rfl

theorem mask_reachable {y : State (N + 2) (L + 1) × (Fin (N + 2) → ℕ)}
    (h : Runs.Reach nest masksCalm (boot N L, fun _ => 0) y) : Core y.1 ∧ MaskInv y.1 y.2 ∧
      ∀ x : Assertion, x.masking = true → y.1.halt ≠ some (.assertion x) := by
  refine h.invariant (P := fun y => Core y.1 ∧ MaskInv y.1 y.2 ∧
    ∀ x : Assertion, x.masking = true → y.1.halt ≠ some (.assertion x))
    ⟨boot_core, boot_mask, by simp [boot]⟩ ?_
  rintro ⟨s, n⟩ y ⟨l, a⟩ ⟨hc, hi, -⟩ ⟨⟨hp, hfit⟩, hspares⟩ hn
  obtain ⟨s', hn', rfl⟩ := nest_calm hspares hn
  refine ⟨core_next hc hn', mask_step hc hi hp hn', fun x hx hhalt => ?_⟩
  rw [stop_masking hc hi hfit (next_stop hc.codes.wf hn' hhalt).1] at hx
  cases hx

/-- **A call returns with the count it was made with**, whatever happens meanwhile. -/
theorem call_returns {s : State (N + 2) (L + 1)} {n : Fin (N + 2) → ℕ} {l : Fin (L + 1)}
    {t : Fin (N + 2)} {c : Call} {x y : State (N + 2) (L + 1) × (Fin (N + 2) → ℕ)}
    (h : Runs.Reach nest masksCalm (boot N L, fun _ => 0) (s, n)) (hon : OnStack s l t)
    (hneutral : c.neutral = true) (hcall : nest (s, n) (l, .call c) = some x)
    (hrun : Runs.Reach nest (fun x b => masksCalm x b ∧ ¬ callsBy x.1 t b) x y)
    (hret : (y.1.uthreads t).utCtx = []) :
    (y.1.uthreads t).utNoPreemptCount = (s.uthreads t).utNoPreemptCount := by
  obtain ⟨hc, hi, -⟩ : Core s ∧ MaskInv s n ∧ _ := mask_reachable h
  have hcalm := nest_call hneutral hcall
  have hstart : Runs.Reach nest masksCalm (boot N L, fun _ => 0) x := .step h hcalm hcall
  have hrun' : Runs.Reach nest masksCalm (boot N L, fun _ => 0) y :=
    hstart.trans (hrun.mono fun _ _ h => h.1)
  obtain ⟨s₁, hn, rfl⟩ := nest_calm hcalm.2 hcall
  obtain ⟨t', hon', hcode, rfl⟩ := next_call hn
  obtain rfl : t = t' := Option.some.inj (hon.2.symm.trans hon'.2)
  have hst : (s.uthreads t).utState = .onCpu := by
    rw [(hc.active hon).1, hcode]
    rfl
  have hopen : opened s (l, .call c) (s.setCtx t (c.code s.incarnation t)) n t = n t := by
    unfold opened
    rw [if_neg (by simp [hst])]
    cases c <;> first | exact absurd hneutral (by decide) | simp
  -- the thread lives on, and nothing is opened or closed
  have hkept : Core y.1 ∧ Alive y.1 t ∧ (∀ j ∈ (y.1.uthreads t).utCtx, ∀ st, j ≠ exitTest t st) ∧
      y.2 t = n t := by
    refine hrun.invariant (P := fun y => Core y.1 ∧ Alive y.1 t ∧
      (∀ j ∈ (y.1.uthreads t).utCtx, ∀ st, j ≠ exitTest t st) ∧ y.2 t = n t) ?_ ?_
    · refine ⟨(mask_reachable hstart).1, by simp [Alive, hst], fun j hj st hjs => ?_, hopen⟩
      have hj' : j ∈ c.code s.incarnation t := by simpa using hj
      obtain ⟨status, rfl, -⟩ := call_entry _ _ c hj' (by rw [hjs]; rfl)
      cases hneutral
    · rintro ⟨s, m⟩ y' ⟨k, a⟩ ⟨hc, ha, hx, hm⟩ ⟨hok, hno⟩ hn
      obtain ⟨s', hn', rfl⟩ := nest_calm hok.2 hn
      obtain ⟨ha', hx', hm'⟩ := inCall_step (n := m) hc hn' hno ha hx
      exact ⟨core_next hc hn', ha', hx', hm'.trans hm⟩
  have hold := hi.books t (hc.started hon)
  have hbooks := (mask_reachable hrun').2.1.books t
    fun hu => hu.elim hkept.2.1.1 hkept.2.1.2.1
  rw [hcode] at hold
  rw [hret, hkept.2.2.2] at hbooks
  omega

end Uthreads
