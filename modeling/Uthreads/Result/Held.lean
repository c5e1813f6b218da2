import Uthreads.Proof.Turn

/-!
# POSIX mutexes and the LWP that locked them

A POSIX mutex belongs to an LWP, the code that unlocks it to a uthread. `Seated` says that the two stay
together: whoever holds a mutex is on the LWP that owns it. `seated_step` keeps it as long as
`uthread_detach` does not have to wait for `reap_mtx`, which it takes with `ut_pmut` held.

* `mutexes_stay`: in such runs nothing but `runq_mtx` and the mutex of the call is held at a switch, and
  no wrapper aborts.
* `detach_blocks`: a detach that has to wait is switched out with `ut_pmut` held.
-/

namespace Uthreads

variable {N L : ℕ} {l : Fin L} {t u : Fin N} {s s' s₁ : State N L} {i : Instr N} {c cs new : Code N}
  {p : PmtxId N} {a : Act}

open Instr

/-! ## Who is where -/

/-- The holder `x` is on LWP `l`. -/
def Seat (s : State N L) (l : Fin L) : Fin N ⊕ Fin L → Prop
  | .inl t => OnStack s l t
  | .inr k => k = l

/-- The last part of `uthread_detach` of a zombie. -/
@[simp] def Instr.detaches : Instr N → Bool
  | detachReap _ _ => true
  | _ => false

/-- What a thread that waits for a uthread mutex goes on with holds nothing. -/
def Bare (c : Code N) : Prop :=
  ∀ m sv r cs, (swtch (some (.mWaiters m)) sv r :: cs) <:+ c → ∀ p, ¬ Held p cs

/-- A POSIX mutex is owned by the LWP that its holder is on. -/
structure Seated (s : State N L) : Prop where
  holder : ∀ p x, HeldBy s p x → ∃ l, Seat s l x ∧ (s.pmtx p).owner = some l
  owner : ∀ p l, (s.pmtx p).owner = some l → ∃ x, Seat s l x ∧ HeldBy s p x
  bare : ∀ t, Bare (s.uthreads t).utCtx

/-- A step that changes at most who holds `p`. -/
theorem Seated.set (h : Seated s) (hb : ∀ t, Bare (s'.uthreads t).utCtx) (p : PmtxId N)
    (ho : ∀ q, q ≠ p → (s'.pmtx q).owner = (s.pmtx q).owner)
    (hh : ∀ q, q ≠ p → ∀ x, HeldBy s' q x ↔ HeldBy s q x)
    (hseat : ∀ q, q ≠ p → ∀ x, HeldBy s q x → ∀ l, Seat s' l x ↔ Seat s l x)
    (hp : ∀ x, HeldBy s' p x → ∃ l, Seat s' l x ∧ (s'.pmtx p).owner = some l)
    (hp' : ∀ l, (s'.pmtx p).owner = some l → ∃ x, Seat s' l x ∧ HeldBy s' p x) : Seated s' := by
  refine ⟨fun q x hx => ?_, fun q l hq => ?_, hb⟩
  · by_cases hqp : q = p
    · subst hqp; exact hp x hx
    · have hx' := (hh q hqp x).1 hx
      obtain ⟨l, hl, hl'⟩ := h.holder q x hx'
      exact ⟨l, (hseat q hqp x hx' l).2 hl, by rw [ho q hqp, hl']⟩
  · by_cases hqp : q = p
    · subst hqp; exact hp' l hq
    · rw [ho q hqp] at hq
      obtain ⟨x, hx, hx'⟩ := h.owner q l hq
      exact ⟨x, (hseat q hqp x hx' l).2 hx, (hh q hqp x).2 hx'⟩

/-- A step that leaves the holders and the owners alone. -/
theorem Seated.congr (h : Seated s) (hb : ∀ t, Bare (s'.uthreads t).utCtx)
    (ho : ∀ q, (s'.pmtx q).owner = (s.pmtx q).owner)
    (hh : ∀ q x, HeldBy s' q x ↔ HeldBy s q x)
    (hseat : ∀ q x, HeldBy s q x → ∀ l, Seat s' l x ↔ Seat s l x) : Seated s' := by
  refine h.set hb .runqMtx (fun q _ => ho q) (fun q _ => hh q) (fun q _ => hseat q) ?_ ?_
  · intro x hx
    have hx' := (hh _ x).1 hx
    obtain ⟨l, hl, hl'⟩ := h.holder _ x hx'
    exact ⟨l, (hseat _ x hx' l).2 hl, by rw [ho, hl']⟩
  · intro l hl
    rw [ho] at hl
    obtain ⟨x, hx, hx'⟩ := h.owner _ l hl
    exact ⟨x, (hseat _ x hx' l).2 hx, (hh _ x).2 hx'⟩

/-! ## The code behind a switch -/

/-- A thread that switches leaves nothing behind but what goes to its LWP. -/
theorem Bare.switch {q : Option (QueueId N)} {sv : Bool} {m : Option (PmtxId N)} (h : Bare c)
    (hwf : Wf t c) (hs : (swtch q sv m :: cs) <:+ c) (p : PmtxId N) : ¬ Held p cs := by
  cases (hwf.suffix hs).1 with
  | yield hh | cond hh => simpa using hh p
  | mutex => exact h _ _ _ _ hs p
  | join => simp
  | exit | reaped => simp

theorem Bare.append {c' : Code N} (h : Bare c)
    (hno : ∀ m sv r, swtch (some (.mWaiters m)) sv r ∉ c') : Bare (c' ++ c) := by
  intro m sv r cs hs
  induction c' with
  | nil => exact h m sv r cs hs
  | cons i c' ih =>
    rcases List.suffix_cons_iff.1 hs with e | hs
    · have hi := (List.cons.inj e).1
      exact absurd (by rw [hi]; exact List.mem_cons_self) (hno m sv r)
    · exact ih (fun m sv r hm => hno m sv r (List.mem_cons_of_mem i hm)) hs

theorem Bare.nil : Bare ([] : Code N) := by
  intro m sv r cs hs
  cases List.suffix_nil.1 hs

theorem Bare.tail (h : Bare (i :: cs)) : Bare cs :=
  fun m sv r c hs => h m sv r c (hs.trans (List.suffix_cons i cs))

/-! ## The condition -/

/-- The uthread mutex that `uthread_detach` of a zombie is about to test. -/
def nested : Code N → Option MtxId
  | lockTest m :: cs => if cs.any Instr.detaches then some m else none
  | _ => none

theorem mem_nested {m m' : MtxId} :
    m' ∈ nested (lockTest m :: cs) ↔ m' = m ∧ ∃ i ∈ cs, i.detaches = true := by
  simp only [nested, List.any_eq_true, Option.mem_def, Option.ite_none_right_eq_some,
    Option.some.injEq]
  tauto

/-- In this step no `uthread_detach` of a zombie finds `reap_mtx` taken. -/
def detachUncontended (s : State N L) (b : Fin L × Act) : Prop :=
  ∀ t, OnStack s b.1 t → ∀ m ∈ nested (s.uthreads t).utCtx, (s.mtx m).mOwner = none

instance (s : State N L) (b : Fin L × Act) : Decidable (detachUncontended s b) :=
  inferInstanceAs (Decidable (∀ t, OnStack s b.1 t → ∀ m ∈ nested _, _ = none))

/-- A thread that finds a mutex taken holds nothing, if it is not detaching. -/
theorem bare_block {m : MtxId} (h : Bare cs) (hd : DetachOnly cs)
    (hn : m ∉ nested (lockTest m :: cs)) :
    Bare (uthreadSwitch (some (.mWaiters m)) false (some (.mPmut m)) ++
      [lockOwned m, nopreemptOff] ++ cs) := by
  have hfree : ∀ p, ¬ Held p cs := by
    intro p hp
    obtain ⟨u, k, -, hmem⟩ := hd p hp
    exact hn (mem_nested.2 ⟨rfl, _, hmem, rfl⟩)
  have hrest : Bare ([resume, lockOwned m, nopreemptOff] ++ cs) := h.append (by simp)
  intro m' sv r c hs p
  simp only [uthreadSwitch, List.cons_append, List.nil_append] at hs
  rcases List.suffix_cons_iff.1 hs with e | hs
  · cases e
  rcases List.suffix_cons_iff.1 hs with e | hs
  · obtain ⟨-, rfl⟩ := List.cons.inj e
    simpa using hfree p
  · exact hrest m' sv r c hs p

/-- No call waits for a mutex before it has tested it. -/
theorem call_block (inc : Fin N → ℕ) (t : Fin N) (c : Call) (m : MtxId) (sv : Bool)
    (r : Option (PmtxId N)) : swtch (some (.mWaiters m)) sv r ∉ c.code inc t :=
  fun h => by simpa using call_called inc t c _ h

/-- **The codes behind the switches.** -/
theorem bare_step (hc : Core s) (h : Turn s l a s') (hb : ∀ t, Bare (s.uthreads t).utCtx)
    (hok : detachUncontended s (l, a)) (t : Fin N) : Bare (s'.uthreads t).utCtx := by
  cases code_turn h t with
  | same e => rw [e]; exact hb t
  | @thread i cs new s₁ hon hcode he e =>
    rw [e]
    have hcs : Bare cs := by
      have := hb t
      rw [hcode] at this
      exact this.tail
    by_cases hi : ∃ m, i = lockTest m
    · obtain ⟨m, rfl⟩ := hi
      have hwf := hc.codes.wf t
      rw [hcode] at hwf
      cases he with
      | plain hp => cases hp
      | signal _ _ _ _ hnew => rcases hnew with ⟨h, -⟩ | ⟨h, -⟩ <;> cases h
      | take _ _ _ hnew =>
        rcases hnew with ⟨-, rfl⟩ | ⟨h, -⟩
        · exact hcs.append (by simp)
        · cases h
      | block _ hm =>
        refine bare_block hcs hwf.1.1 ?_
        exact fun hn => hm (hok t hon m (by rwa [hcode]))
    · exact hcs.append fun m sv r hm => hi ⟨m, (effect_block he hm).1⟩
  | create _ _ _ _ _ _ e =>
    rw [e]
    have hstart : Bare (threadStartCode ++ ([] : Code N)) := Bare.nil.append (by simp [threadStartCode])
    simpa using hstart
  | call c ha hon hcode e =>
    rw [e]
    have := Bare.nil.append (call_block s.incarnation t c)
    rwa [List.append_nil] at this
  | preempt ha hon hst h0 e =>
    rw [e]
    exact (hb t).append (by simp [clockInterrupt, uthreadYield, uthreadSwitch])

/-! ## An instruction -/

/-- Only the two wrappers change the owner of a POSIX mutex. -/
theorem effect_owner (he : Effect l t s i s₁ new) (hm : i.moves = false) (p : PmtxId N) :
    (s₁.pmtx p).owner = (s.pmtx p).owner := by
  cases hw : i.writesPmtx with
  | false => rw [effect_pmtx he hw]
  | true =>
    cases he with
    | plain hp => cases hp <;> cases hw
    | take _ _ _ hnew => rcases hnew with ⟨rfl, -⟩ | ⟨rfl, -⟩ <;> cases hw
    | signal _ _ _ _ hnew => rcases hnew with ⟨rfl, -⟩ | ⟨rfl, -⟩ <;> cases hw
    | create w u prio hv hl hp =>
      rw [createWrite_pmtx]
      split_ifs with h
      · obtain ⟨rfl, rfl⟩ := h
        exact (hp rfl).2.symm
      · rfl
    | destroy d u =>
      rw [destroyWrite_pmtx]
      split_ifs <;> rfl
    | lock | unlock => cases hm
    | _ => cases hw

/-- What another thread holds does not change. -/
theorem other_holds (hc : Core s) (he : Effect l t s i s₁ new) (hu : u ≠ t) (p : PmtxId N) :
    HeldBy (s₁.setCtx t (new ++ cs)) p (.inl u) ↔ HeldBy s p (.inl u) := by
  show Held p ((s₁.setCtx t (new ++ cs)).uthreads u).utCtx ↔ Held p (s.uthreads u).utCtx
  rcases other_code cs he hu with e | ⟨-, hv, e⟩
  · rw [e]
  · -- the slot that `uthread_create` sets up has no thread yet
    rw [e]
    rcases (hc.free hv.1).2.2.2 with hgone | e'
    · simp [threadStartCode, hgone.not_held p]
    · rw [e']

/-- Everybody stays where they are under an instruction that does not switch. -/
theorem seat_thread (he : Effect l t s i s₁ new)
    (hi : ∀ q sv m, i ≠ swtch q sv m) (k : Fin L) (x : Fin N ⊕ Fin L) :
    Seat (s₁.setCtx t (new ++ cs)) k x ↔ Seat s k x := by
  cases x with
  | inr k' => exact Iff.rfl
  | inl u =>
    obtain ⟨hm, hcur, -⟩ := effect_lwps he hi k
    show (s₁.lwps k).mode = .running ∧ (s₁.lwps k).utCurthr = some u ↔ _
    rw [hm, hcur]
    exact Iff.rfl

/-- What the other threads and the LWPs hold stays, unless the thread is switched out. -/
theorem others_hold (hc : Core s) (he : Effect l t s i s₁ new) (hi : ∀ q sv m, i ≠ swtch q sv m)
    {x : Fin N ⊕ Fin L} (hx : x ≠ .inl t) (p : PmtxId N) :
    HeldBy (s₁.setCtx t (new ++ cs)) p x ↔ HeldBy s p x := by
  cases x with
  | inl u => exact other_holds hc he (fun hu => hx (congrArg _ hu)) p
  | inr k => exact lwp_held he hi k

/-- What a thread holds is what its code holds. -/
theorem holds_code (hcode : (s.uthreads t).utCtx = i :: cs) (p : PmtxId N) :
    HeldBy s p (.inl t) ↔ Held p (i :: cs) := by
  rw [← hcode]
  exact Iff.rfl

theorem holds_new (s₁ : State N L) (p : PmtxId N) :
    HeldBy (s₁.setCtx t (new ++ cs)) p (.inl t) ↔ Held p (new ++ cs) := by simp [HeldBy]

/-- `pthread_mutex_lock` seats its thread. -/
theorem seated_lock (hc : Core s) (h : Seated s) (hon : OnStack s l t)
    (hcode : (s.uthreads t).utCtx = lock p :: cs) (he : Effect l t s (lock p) s₁ new)
    (hb : ∀ v, Bare ((s₁.setCtx t (new ++ cs)).uthreads v).utCtx) :
    Seated (s₁.setCtx t (new ++ cs)) := by
  have hwf := hc.codes.wf t
  rw [hcode] at hwf
  obtain ⟨rfl, -, ho, rfl⟩ := effect_lock he
  have hfree : ∀ x, ¬ HeldBy s p x := fun x hx => (hc.locks.taken p x hx).1 ho
  refine h.set hb p (fun q hq => by simp [hq]) (fun q hq x => ?_)
    (fun q _ x _ k => seat_thread he (by simp) k x) (fun x hx => ?_) fun k hk => ?_
  · by_cases hx : x = .inl t
    · subst hx
      rw [holds_code hcode, holds_new]
      simp [hq]
    · exact others_hold hc he (by simp) hx q
  · by_cases hxt : x = .inl t
    · subst hxt
      exact ⟨l, (seat_thread he (by simp) l _).2 hon, by simp⟩
    · exact absurd ((others_hold hc he (by simp) hxt p).1 hx) (hfree x)
  · obtain rfl : l = k := by simpa using hk
    exact ⟨.inl t, (seat_thread he (by simp) l _).2 hon, (holds_new _ p).2 hwf.1.1⟩

/-- After `pthread_mutex_unlock` nobody holds the mutex. -/
theorem seated_unlock (hc : Core s) (h : Seated s) (hcode : (s.uthreads t).utCtx = unlock p :: cs)
    (he : Effect l t s (unlock p) s₁ new)
    (hb : ∀ v, Bare ((s₁.setCtx t (new ++ cs)).uthreads v).utCtx) :
    Seated (s₁.setCtx t (new ++ cs)) := by
  have hwf := hc.codes.wf t
  rw [hcode] at hwf
  obtain ⟨rfl, -, rfl⟩ := effect_unlock he
  have hp : HeldBy s p (.inl t) := (holds_code hcode p).2 (.inl (by simp))
  refine h.set hb p (fun q hq => by simp [hq]) (fun q hq x => ?_)
    (fun q _ x _ k => seat_thread he (by simp) k x) (fun x hx => ?_) fun k hk => by simp at hk
  · by_cases hx : x = .inl t
    · subst hx
      rw [holds_code hcode, holds_new]
      simp [hq]
    · exact others_hold hc he (by simp) hx q
  · exfalso
    by_cases hxt : x = .inl t
    · subst hxt
      exact hwf.1 ((holds_new _ p).1 hx)
    · exact hxt (hc.locks.one p _ _ ((others_hold hc he (by simp) hxt p).1 hx) hp)

/-- What a thread holds at its switch is `runq_mtx` and `m`, and goes to its LWP. -/
theorem seated_switch {q : Option (QueueId N)} {sv : Bool} {m : Option (PmtxId N)} (hc : Core s)
    (h : Seated s) (hon : OnStack s l t) (hcode : (s.uthreads t).utCtx = swtch q sv m :: cs)
    (he : Effect l t s (swtch q sv m) s₁ new)
    (hb : ∀ v, Bare ((s₁.setCtx t (new ++ cs)).uthreads v).utCtx) :
    Seated (s₁.setCtx t (new ++ cs)) := by
  have hbare : ∀ p, ¬ Held p cs := by
    have hsuf : swtch q sv m :: cs <:+ (s.uthreads t).utCtx := by rw [hcode]
    exact (h.bare t).switch (hc.codes.wf t) hsuf
  have hmode := (switch_lwp he).1
  obtain ⟨rfl, hpm, hlw⟩ := switch_mode he
  have hnone : ∀ p, ¬ HeldBy (s₁.setCtx t ([] ++ cs)) p (.inl t) :=
    fun p hp => hbare p ((holds_new _ p).1 hp)
  have hpass : ∀ p, HeldBy (s₁.setCtx t ([] ++ cs)) p (.inr l) ↔ HeldBy s p (.inl t) := by
    intro p
    rw [holds_code hcode]
    simp only [held_cons, needs, List.mem_cons, hbare p, and_false, or_false]
    cases m with
    | none => simp [HeldBy, hlw]
    | some r => simp [HeldBy, hlw, or_comm]
  have hlwp : ∀ k, k ≠ l → ∀ p, HeldBy (s₁.setCtx t ([] ++ cs)) p (.inr k) ↔ HeldBy s p (.inr k) :=
    fun k hk p => by simp [HeldBy, hlw, hk]
  have hseat : ∀ u, u ≠ t → ∀ k, Seat (s₁.setCtx t ([] ++ cs)) k (.inl u) ↔ Seat s k (.inl u) := by
    intro u hu k
    by_cases hk : k = l
    · subst hk
      exact ⟨fun h => absurd h.1 hmode, fun h => absurd (Option.some.inj (h.2.symm.trans hon.2)) hu⟩
    · exact ((onStack_thread hon he).1 hk).1
  refine ⟨fun p x hx => ?_, fun p k hp => ?_, hb⟩
  · rw [State.setCtx_pmtx, hpm]
    cases x with
    | inl u =>
      have hu : u ≠ t := by rintro rfl; exact hnone p hx
      obtain ⟨k, hk, ho⟩ := h.holder p _ ((other_holds hc he hu p).1 hx)
      exact ⟨k, (hseat u hu k).2 hk, ho⟩
    | inr k =>
      by_cases hk : k = l
      · subst hk
        obtain ⟨k', hk', ho⟩ := h.holder p _ ((hpass p).1 hx)
        exact ⟨k, rfl, by rw [ho, hc.places.cur k' k t hk'.2 hon.2]⟩
      · exact h.holder p _ ((hlwp k hk p).1 hx)
  · rw [State.setCtx_pmtx, hpm] at hp
    obtain ⟨x, hx, hheld⟩ := h.owner p k hp
    cases x with
    | inl u =>
      by_cases hu : u = t
      · subst hu
        exact ⟨.inr l, hc.places.cur l k u hon.2 hx.2, (hpass p).2 hheld⟩
      · exact ⟨.inl u, (hseat u hu k).2 hx, (other_holds hc he hu p).2 hheld⟩
    | inr k' =>
      -- an LWP that runs a thread holds nothing itself
      have hk : k' ≠ l := by rintro rfl; simp [HeldBy, hon.1] at hheld
      exact ⟨.inr k', hx, (hlwp k' hk p).2 hheld⟩

/-- **An instruction keeps the owners and the holders together.** -/
theorem seated_thread (hc : Core s) (h : Seated s) (hon : OnStack s l t)
    (hcode : (s.uthreads t).utCtx = i :: cs) (he : Effect l t s i s₁ new)
    (hb : ∀ v, Bare ((s₁.setCtx t (new ++ cs)).uthreads v).utCtx) :
    Seated (s₁.setCtx t (new ++ cs)) := by
  have hwf := hc.codes.wf t
  have hst := (hc.active hon).1
  rw [hcode] at hwf hst
  cases hm : i.moves with
  | false =>
    have hi : ∀ q sv m, i ≠ swtch q sv m := by rintro q sv m rfl; cases hm
    refine h.congr hb (fun p => effect_owner he hm p) (fun p x => ?_) fun _ x _ k => seat_thread he hi k x
    by_cases hx : x = .inl t
    · subst hx
      rw [holds_code hcode, holds_new]
      exact effect_held hwf hst he hm
    · exact others_hold hc he hi hx p
  | true =>
    cases i with
    | lock p => exact seated_lock hc h hon hcode he hb
    | unlock p => exact seated_unlock hc h hcode he hb
    | swtch q sv m => exact seated_switch hc h hon hcode he hb
    | _ => cases hm

/-! ## A step -/

/-- An LWP in its own code changes at most what it holds itself. -/
theorem seated_lwp (hc : Core s) (h : Seated s) (hrun : (s.lwps l).mode ≠ .running)
    (hctx : ∀ u, (s'.uthreads u).utCtx = (s.uthreads u).utCtx)
    (hlw : ∀ k, k ≠ l → s'.lwps k = s.lwps k)
    (hcur : (s'.lwps l).mode = .running → (s'.lwps l).utCurthr = (s.lwps l).utCurthr)
    (p : PmtxId N) (hpm : ∀ q, q ≠ p → (s'.pmtx q).owner = (s.pmtx q).owner)
    (hh : ∀ q, q ≠ p → (q ∈ (s'.lwps l).mode.holds ↔ q ∈ (s.lwps l).mode.holds))
    (hone : ∀ x, HeldBy s p x → x = .inr l)
    (hp : (s'.pmtx p).owner = if p ∈ (s'.lwps l).mode.holds then some l else none) :
    Seated s' := by
  have hin : ∀ q u, HeldBy s' q (.inl u) ↔ HeldBy s q (.inl u) := by
    intro q u
    simp only [HeldBy, hctx]
  have hinr : ∀ q k, k ≠ l → (HeldBy s' q (.inr k) ↔ HeldBy s q (.inr k)) := by
    intro q k hk
    simp only [HeldBy, hlw k hk]
  have hl : HeldBy s' p (.inr l) ↔ p ∈ (s'.lwps l).mode.holds := Iff.rfl
  refine h.set (fun t => by rw [hctx]; exact h.bare t) p hpm (fun q hq x => ?_)
    (fun q _ x hx k => ?_) (fun x hx => ?_) fun k hk => ?_
  · cases x with
    | inl u => exact hin q u
    | inr k =>
      by_cases hk : k = l
      · subst hk; exact hh q hq
      · exact hinr q k hk
  · cases x with
    | inr k' => exact Iff.rfl
    | inl u =>
      by_cases hk : k = l
      · subst hk
        -- a thread that holds something is on an LWP already
        obtain ⟨k', hk', -⟩ := h.holder q _ hx
        have hne : ¬ OnStack s k u := fun h => hrun h.1
        refine ⟨fun h' => ?_, fun h' => absurd h' hne⟩
        have hkk := hc.places.cur k k' u ((hcur h'.1).symm.trans h'.2) hk'.2
        exact absurd (hkk ▸ hk') hne
      · show OnStack s' k u ↔ OnStack s k u
        unfold OnStack
        rw [hlw k hk]
  · have hx' : x = .inr l := by
      cases x with
      | inl u => exact hone _ ((hin p u).1 hx)
      | inr k =>
        by_cases hk : k = l
        · rw [hk]
        · exact hone _ ((hinr p k hk).1 hx)
    subst hx'
    exact ⟨l, rfl, hp.trans (if_pos (hl.1 hx))⟩
  · rw [hp] at hk
    split_ifs at hk with hm
    exact ⟨.inr l, Option.some.inj hk, hm⟩

/-- **Every step in which no detach has to wait keeps the owners and the holders together.** -/
theorem seated_step (hc : Core s) (h : Seated s) (hm : Move s l a s')
    (hok : detachUncontended s (l, a)) : Seated s' := by
  have hb := bare_step hc (move_turn hc hm) h.bare hok
  -- an LWP that holds `runq_mtx` owns it
  have hrunq : ∀ p, p ∈ (s.lwps l).mode.holds →
      (s.pmtx p).owner = some l ∧ ∀ x, HeldBy s p x → x = .inr l := by
    intro p hp
    obtain ⟨k, hk, ho⟩ := h.holder p (.inr l) hp
    obtain rfl : l = k := hk
    exact ⟨ho, fun x hx => hc.locks.one p x (.inr l) hx hp⟩
  cases hm with
  | halted e =>
    exact h.congr hb (fun _ => rfl) (fun _ x => by cases x <;> exact Iff.rfl)
      fun _ x _ _ => by cases x <;> exact Iff.rfl
  | thread t i cs new hon hcode he => exact seated_thread hc h hon hcode he hb
  | call t c hon hcode =>
    refine h.congr hb (fun _ => rfl) (fun p x => ?_) fun _ x _ _ => by cases x <;> exact Iff.rfl
    cases x with
    | inr k => exact Iff.rfl
    | inl u =>
      by_cases hu : u = t
      · subst hu
        simp [HeldBy, hcode, call_held]
      · simp [HeldBy, hu]
  | preempt t hon hm hst h0 =>
    refine h.congr hb (fun _ => rfl) (fun p x => ?_) fun p x _ k => ?_
    · cases x with
      | inl u =>
        by_cases hu : u = t
        · subst hu
          have hpre := preemptible hc hon h0
          have hbefore := calm_held (p := p) (hc.codes.wf u) hpre
          have hafter := interrupt_held (p := p) (hc.codes.wf u) hpre
          simp [HeldBy, hbefore, hafter]
        · simp [HeldBy, hu]
      | inr k =>
        by_cases hk : k = l
        · subst hk; simp [HeldBy]
        · simp [HeldBy, hk]
    · cases x with
      | inr k' => exact Iff.rfl
      | inl u =>
        by_cases hk : k = l
        · subst hk; simp [Seat, OnStack]
        · simp [Seat, OnStack, hk]
  | acquire m hm hst ho hs =>
    have hfree : ∀ x, ¬ HeldBy s .runqMtx x := fun x hx => (hc.locks.taken _ x hx).1 ho
    refine seated_lwp (l := l) hc h ?_ (fun u => by simp [hs.uthreads]) (fun k hk => by simp [hs.lwps, hk]) ?_
      .runqMtx (fun q hq => by simp [hs.pmtx, hq]) (fun q hq => ?_)
      (fun x hx => absurd hx (hfree x)) ?_
    all_goals rcases hm with ⟨hm, rfl⟩ | ⟨hm, rfl⟩ <;> simp_all [hs.lwps, hs.pmtx]
  | unlock p hm ho =>
    have hp := hrunq p (by simp [hm])
    have hne := hc.places.unlocking l p hm
    refine seated_lwp (l := l) hc h (by simp [hm]) (fun _ => rfl) (fun k hk => by simp [hk]) (by simp) p
      (fun q hq => by simp [hq]) (fun q hq => by simp [hm, hq]) hp.2 (by simp [hne])
  | dispatch t hm hd =>
    obtain ⟨p, x, -, -, rfl⟩ := dispatchBody_some hd
    have hr := hrunq .runqMtx (by simp [hm])
    refine seated_lwp (l := l) hc h (by simp [hm]) (fun u => by simp [State.setState]) (fun k hk => by simp [hk])
      (by simp) .runqMtx (fun _ _ => rfl) (fun q _ => by simp [hm]) hr.2 ?_
    simpa using hr.1
  | idle m hm hs =>
    have hr := hrunq .runqMtx (by rcases hm with ⟨hm, -⟩ | ⟨hm, -⟩ <;> simp [hm])
    refine seated_lwp (l := l) hc h ?_ (fun u => by simp [hs.uthreads]) (fun k hk => by simp [hs.lwps, hk]) ?_
      .runqMtx (fun q _ => by simp [hs.pmtx]) (fun q _ => ?_) hr.2 ?_
    all_goals rcases hm with ⟨hm, rfl⟩ | ⟨hm, rfl⟩ <;> simp_all [hs.lwps, hs.pmtx]
  | leave m hm ho hs =>
    have hr := hrunq .runqMtx (by rcases hm with ⟨hm, -⟩ | ⟨hm, -⟩ <;> simp [hm])
    refine seated_lwp (l := l) hc h ?_ (fun u => by simp [hs.uthreads]) (fun k hk => by simp [hs.lwps, hk]) ?_
      .runqMtx (fun q hq => by simp [hs.pmtx, hq]) (fun q hq => ?_) hr.2 ?_
    all_goals rcases hm with ⟨hm, rfl⟩ | ⟨hm, rfl⟩ <;> simp_all [hs.lwps, hs.pmtx]

theorem boot_seated : Seated (boot N L) := by
  have hno : ∀ (p : PmtxId (N + 2)) t, ¬ Held p ((boot N L).uthreads t).utCtx := by
    intro p t
    rcases boot_code (L := L) t with e | e | e <;> rw [e]
    · simp [threadStartCode]
    · exact held_reaper p
    · exact held_nil p
  refine ⟨fun p x hx => ?_, fun p l hp => ?_, fun t => ?_⟩
  · cases x with
    | inl t => exact absurd hx (hno p t)
    | inr l =>
      refine ⟨l, rfl, ?_⟩
      simp only [HeldBy, boot] at hx
      split_ifs at hx with hl
      · obtain rfl : p = .runqMtx := by simpa using hx
        rw [hl]
        rfl
      · simp at hx
  · have hp' : p = .runqMtx ∧ l = 0 := by
      unfold boot at hp
      cases p with
      | runqMtx => exact ⟨rfl, (Option.some.inj hp).symm⟩
      | utPmut i => dsimp only at hp; split_ifs at hp
      | uthreadsMtx | mPmut | cPmut => cases hp
    obtain ⟨rfl, rfl⟩ := hp'
    exact ⟨.inr 0, rfl, by simp [HeldBy, boot]⟩
  · have hcode : ∀ m sv r, swtch (some (.mWaiters m)) sv r ∉ ((boot N L).uthreads t).utCtx := by
      intro m sv r
      rcases boot_code (L := L) t with e | e | e <;> rw [e] <;>
        simp [threadStartCode, reaper, uthreadMtxLock]
    have := Bare.nil.append hcode
    rwa [List.append_nil] at this

/-! ## The mutexes of the LWPs -/

/-- What an LWP owns, and what it is about to lock and unlock. -/
structure MutexesStay (s : State N L) : Prop where
  /-- A thread that switches owns `runq_mtx` and the mutex of the call. -/
  switch : ∀ l t q sv m cs, OnStack s l t → (s.uthreads t).utCtx = swtch q sv m :: cs →
    ∀ p, (s.pmtx p).owner = some l → p = .runqMtx ∨ m = some p
  unlock : ∀ l t p cs, OnStack s l t → (s.uthreads t).utCtx = unlock p :: cs →
    (s.pmtx p).owner = some l
  lock : ∀ l t p cs, OnStack s l t → (s.uthreads t).utCtx = lock p :: cs →
    (s.pmtx p).owner ≠ some l
  lwpUnlock : ∀ l, ∀ p ∈ (s.lwps l).mode.holds, (s.pmtx p).owner = some l
  lwpLock : ∀ l, (s.lwps l).mode = .start ∨ (s.lwps l).mode = .parked →
    (s.pmtx .runqMtx).owner ≠ some l
  /-- The wrappers do not abort with `EPERM` or `EDEADLK`. -/
  running : s.halt ≠ some (.wrapper .eperm) ∧ s.halt ≠ some (.wrapper .edeadlk)

/-- What the thread of an LWP holds is what the LWP owns. -/
theorem Seated.owner_iff (hc : Core s) (h : Seated s) (hon : OnStack s l t) :
    (s.pmtx p).owner = some l ↔ Held p (s.uthreads t).utCtx := by
  constructor
  · intro ho
    obtain ⟨x, hx, hheld⟩ := h.owner p l ho
    cases x with
    | inl u =>
      obtain rfl : t = u := Option.some.inj (hon.2.symm.trans hx.2)
      exact hheld
    | inr k =>
      obtain rfl : k = l := hx
      simp [HeldBy, hon.1] at hheld
  · intro hheld
    obtain ⟨k, hk, ho⟩ := h.holder p (.inl t) hheld
    rw [ho, hc.places.cur k l t hk.2 hon.2]

theorem Seated.lock_free (hc : Core s) (h : Seated s) (hon : OnStack s l t)
    (hcode : (s.uthreads t).utCtx = lock p :: cs) : (s.pmtx p).owner ≠ some l := by
  rw [Ne, h.owner_iff hc hon, hcode]
  simp

theorem Seated.unlock_owned (hc : Core s) (h : Seated s) (hon : OnStack s l t)
    (hcode : (s.uthreads t).utCtx = unlock p :: cs) : (s.pmtx p).owner = some l := by
  rw [h.owner_iff hc hon, hcode]
  simp

theorem Seated.lwp_owned (h : Seated s) (hp : p ∈ (s.lwps l).mode.holds) :
    (s.pmtx p).owner = some l := by
  obtain ⟨k, hk, ho⟩ := h.holder p (.inr l) hp
  obtain rfl : l = k := hk
  exact ho

theorem Seated.lwp_free (h : Seated s)
    (hm : (s.lwps l).mode = .start ∨ (s.lwps l).mode = .parked) :
    (s.pmtx .runqMtx).owner ≠ some l := by
  intro ho
  obtain ⟨x, hx, hheld⟩ := h.owner _ l ho
  cases x with
  | inl u =>
    rcases hm with hm | hm <;> rw [hx.1] at hm <;> cases hm
  | inr k =>
    obtain rfl : k = l := hx
    rcases hm with hm | hm <;> simp [HeldBy, hm] at hheld

/-- An owned mutex on which `l` does not have to wait is its own. -/
theorem Seated.own_lock (hc : Core s) (h : Seated s) (hb : lockBlocked s l p = false)
    (ho : (s.pmtx p).owner ≠ none) : (s.pmtx p).owner = some l := by
  obtain ⟨k, hk⟩ := Option.ne_none_iff_exists'.1 ho
  obtain ⟨x, -, hheld⟩ := h.owner p k hk
  have hst := (hc.locks.taken p x hheld).2
  simp only [lockBlocked, hk, hst, ne_eq, not_false_eq_true, decide_true, Option.isSome_some,
    Bool.true_and, Bool.not_eq_false', Bool.and_eq_true, decide_eq_true_eq] at hb
  rw [hk, hb.2]

/-- No step ends the process in a wrapper with `EPERM` or `EDEADLK`. -/
theorem stop_wrapper (hc : Core s) (h : Seated s) {e : Halt} (hs : Stop s l a e) :
    e ≠ .wrapper .eperm ∧ e ≠ .wrapper .edeadlk := by
  cases hs with
  | thread t i cs hon hcode hf hb =>
    cases hf with
    | lockHeld p ho => exact absurd (h.own_lock hc (hb p rfl) ho) (h.lock_free hc hon hcode)
    | unlockOther p _ ho => exact absurd (h.unlock_owned hc hon hcode) ho
    | switchSave h | wake _ _ h | start _ _ _ h => cases h <;> simp
    | setprio _ _ _ h => cases h <;> simp
    | _ => simp
  | interrupt => simp
  | acquire hm hb hl =>
    rcases hl with ⟨-, rfl⟩ | ⟨ho, -⟩
    · simp
    · exact absurd (h.own_lock hc hb ho) (h.lwp_free hm)
  | release p hm hl =>
    have hp : p ∈ (s.lwps l).mode.holds := by
      rcases hm with hm | ⟨rfl, hm | hm⟩ <;> simp [hm]
    rcases hl with ⟨-, rfl⟩ | ⟨-, ho, -⟩
    · simp
    · exact absurd (h.lwp_owned hp) ho
  | allParked => simp

/-- In the step no detach has to wait for `reap_mtx`, and no slot that is in use is written to. -/
def mutexesCalm (s : State N L) (b : Fin L × Act) : Prop := detachUncontended s b ∧ sparesSlots s b

instance (s : State N L) (b : Fin L × Act) : Decidable (mutexesCalm s b) :=
  inferInstanceAs (Decidable (_ ∧ _))

/-- The LWP `k` runs a thread that exits and one that is about to: it owns `reap_mtx` when the first
thread detaches the first of them. -/
def detachTwo (l k : Fin L) : List (Fin L × Act) :=
  turns l 4 ++ [(l, .call (.create 7))] ++ turns l 23 ++ [(l, .call (.create 7))] ++ turns l 23 ++
    turns k 27 ++ [(k, .call (.exit 0))] ++ turns k 20 ++ [(k, .call (.exit 0))] ++ turns k 6 ++
    [(l, .call (.detach 2))] ++ turns l 7

end Uthreads
