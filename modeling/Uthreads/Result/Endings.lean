import Uthreads.Result.Mask
import Uthreads.Result.Mutex
import Uthreads.Result.Owners
import Uthreads.Result.Prio
import Uthreads.Result.Reaper

/-!
# How the process can end

The library ends the process in an `assert`, in a `PANIC`, in the `abort` of a wrapper, or in the
reaper's `exit(0)`, and some of its operations are undefined where they are used wrongly. `Ending`
lists the ends that a run can come to, each with its cause.

* `endings`: whatever the user's threads call, as long as they pair `uthread_nopreempt_off` with
  `uthread_nopreempt_on` and no slot that is in use is written to, the process ends in no other way.
  Thirteen of the seventeen assertions never fail, and no thread that has ended is resumed.
-/

namespace Uthreads

variable {N L : ℕ} {l k : Fin L} {t u v : Fin N} {s s' s₁ : State N L} {i : Instr N}
  {c cs new : Code N} {p : PmtxId N} {a : Act} {n : Fin N → ℕ} {e : Halt}

open Instr

/-! ## Code that asserts -/

/-- What the code behind an assertion has to be. -/
@[simp] def Instr.shape : Instr N → Code N → Prop
  | wakeAssert u, cs => u ∈ Uthreads.wakes cs
  | resume, cs => 0 < depth cs
  | yieldAssert, cs => panicDead ∉ cs ∧ 0 < depth cs
  | waitDone _, cs => panicDead ∉ cs
  | _, _ => True

/-- A thread is woken after the check of its state, and a thread that ends neither yields nor waits. -/
def Shape : Code N → Prop
  | [] => True
  | i :: cs => i.shape cs ∧ Shape cs

@[simp] theorem shape_nil : Shape ([] : Code N) := trivial

@[simp] theorem shape_cons : Shape (i :: cs) ↔ i.shape cs ∧ Shape cs := Iff.rfl

/-- Instructions that assert nothing about the code behind them. -/
@[simp] def Instr.open : Instr N → Bool
  | resume | wakeAssert _ | yieldAssert | waitDone _ => false
  | _ => true

theorem shape_open (hi : i.open = true) (cs : Code N) : i.shape cs := by
  cases i <;> trivial

theorem Shape.append (h : Shape cs) (hn : ∀ j ∈ new, j.open = true) : Shape (new ++ cs) := by
  induction new with
  | nil => exact h
  | cons i new ih =>
    exact ⟨shape_open (hn i List.mem_cons_self) _, ih fun j hj => hn j (List.mem_cons_of_mem i hj)⟩

/-- The code of `uthread_wake`. -/
theorem Shape.wake (h : Shape cs) (u : Fin N) : Shape (uthreadWake u ++ cs) := by
  simp [uthreadWake, h]

/-- An instruction puts code of the right shape in front. -/
theorem effect_shape (hwf : Wf t (i :: cs)) (h : Shape cs) (he : Effect l t s i s₁ new) :
    Shape (new ++ cs) := by
  cases he with
  | plain hp hs =>
    cases hp with
    | reaperWait =>
      have hcs : cs = [] := hwf.1
      subst hcs
      simp [uthreadCondWait, uthreadMtxUnlock, uthreadMtxLock, uthreadSwitch]
    | _ => exact h.append (by simp [uthreadMtxUnlock])
  | setprio u prio hs hnew =>
    have hcs : cs = [] := hwf.1
    subst hcs
    rcases hnew with rfl | rfl
    · simp [uthreadYield, uthreadSwitch]
    · simp
  | handOver m u hq hs =>
    have h₁ : Shape ([nopreemptOff] ++ cs) := h.append (by simp)
    have h₂ : Shape ([unlock (.mPmut m)] ++ (uthreadWake u ++ ([nopreemptOff] ++ cs))) :=
      (h₁.wake u).append (by simp)
    simpa [List.append_assoc] using h₂
  | signal c u hq hs hnew =>
    rcases hnew with ⟨rfl, rfl⟩ | ⟨rfl, rfl⟩
    · exact h.wake u
    · have h₁ : Shape ([broadcastTest c] ++ cs) := h.append (by simp)
      simpa [List.append_assoc] using h₁.wake u
  | exitJoined u w status hd hq =>
    have h₁ : Shape (uthreadMtxUnlock .reapMtx ++ deadCode u ++ cs) := by
      simpa [uthreadMtxUnlock, deadCode, uthreadSwitch] using h
    simpa [List.append_assoc] using h₁.wake w
  | take m ho hs hnew => rcases hnew with ⟨-, rfl⟩ | ⟨-, rfl⟩ <;> exact h.append (by simp)
  | detach u k hq hd hinit hs hnew =>
    rcases hnew with ⟨-, rfl⟩ | ⟨-, rfl⟩ <;> exact h.append (by simp [uthreadMtxLock])
  | makeReapable u hz hs₁ hs hnew =>
    subst hnew
    split_ifs <;> simpa [uthreadCondSignal, uthreadMtxUnlock, uthreadSwitch] using h
  | create w => cases w <;> simpa [createRest, uthreadStartonrunq] using h
  | destroy d => cases d <;> simpa [destroyRest] using h
  | _ => simpa [uthreadSwitch, uthreadMtxUnlock, uthreadMtxLock, deadCode] using h

/-- The code of a call. -/
theorem call_shape (inc : Fin N → ℕ) (t : Fin N) (c : Call) : Shape (c.code inc t) := by
  cases c with
  | join uid =>
    simp only [Call.code, uthreadJoin]
    split <;> simp
  | detach uid =>
    simp only [Call.code, uthreadDetach]
    split <;> simp
  | setprio uid prio =>
    simp only [Call.code, uthreadSetprio]
    split
    · simp
    · split <;> simp
  | _ =>
    simp [Call.code, uthreadCreate, uthreadExit, uthreadYield, uthreadSwitch, uthreadMtxLock,
      uthreadMtxTrylock, uthreadMtxUnlock, uthreadCondWait, uthreadCondSignal, uthreadCondBroadcast]

/-- **The shapes.** -/
theorem shape_step (hc : Core s) (h : Turn s l a s') (hi : ∀ t, Shape (s.uthreads t).utCtx)
    (t : Fin N) : Shape (s'.uthreads t).utCtx := by
  cases code_turn h t with
  | same e => rw [e]; exact hi t
  | @thread i cs new s₁ hon hcode he e =>
    rw [e]
    have hwf := hc.codes.wf t
    have hs := hi t
    rw [hcode] at hwf hs
    exact effect_shape hwf hs.2 he
  | create _ _ _ _ _ _ e => rw [e]; simp [threadStartCode]
  | call c ha hon hcode e => rw [e]; exact call_shape _ _ _
  | preempt ha hon hst h0 e =>
    -- a thread that ends runs with preemption off
    have hno : panicDead ∉ (s.uthreads t).utCtx := by
      by_cases hnil : (s.uthreads t).utCtx = []
      · simp [hnil]
      rcases preemptible hc hon h0 with e | hd
      · simp [e]
      · rcases ((hc.codes.wf t).guarded hnil).masked with h | h
        · omega
        · exact h.2
    rw [e]
    have hrest : Shape ([interruptLeave] ++ (s.uthreads t).utCtx) := (hi t).append (by simp)
    simpa [clockInterrupt, uthreadYield, uthreadSwitch, hno] using hrest

/-! ## The table -/

/-- The slots whose `ut_pmut` the code is going to initialise. -/
@[simp] def Instr.initsPmut : Instr N → List (Fin N)
  | createInit .pmut u _ => [u]
  | _ => []

/-- The queue of joiners is initialised before. -/
theorem effect_initsPmut (he : Effect l t s i s₁ new) (hu : u ∈ new.flatMap initsPmut) :
    ∃ prio, i = createInit .waiter u prio := by
  obtain ⟨j, hj, hu⟩ := List.mem_flatMap.1 hu
  have hb := effect_before he j hj
  cases j with
  | createInit w v prio =>
    cases w with
    | pmut =>
      obtain rfl : u = v := by simpa using hu
      rcases hb with ⟨h, -⟩ | ⟨w', rfl, hw⟩
      · cases h
      · cases w' <;> simp [createRest, uthreadStartonrunq] at hw
        exact ⟨prio, rfl⟩
    | _ => cases hu
  | _ => cases hu

theorem call_initsPmut (inc : Fin N → ℕ) (t : Fin N) (c : Call) :
    (c.code inc t).flatMap initsPmut = [] := by
  rw [List.flatMap_eq_nil_iff]
  intro j hj
  have := call_called inc t c j hj
  cases j with
  | createInit => cases this
  | _ => rfl

/-- What the table and the mutexes of its slots are like, whatever is called. -/
structure Table (s : State N L) : Prop where
  /-- A started thread is on a level of `runq_table`, or can be put on one. -/
  prio : ∀ v, (s.uthreads v).utState.started → InRange (s.uthreads v).utPrio
  setprio : ∀ v, ∀ p ∈ (s.uthreads v).utCtx.flatMap setprios, InRange p
  init : ∀ v, (s.pmtx (.utPmut v)).status = .live → (s.uthreads v).utWaiterInit = true
  inits : ∀ t, ∀ v ∈ (s.uthreads t).utCtx.flatMap initsPmut, (s.uthreads v).utWaiterInit = true
  /-- Only a `ut_pmut` is ever destroyed. -/
  life : ∀ p, (s.pmtx p).status = .destroyed → ∃ v, p = .utPmut v

theorem runqIndex_inRange {prio : ℤ} {p : Fin (uthMaxprio + 1)} (h : prio = (p : ℕ)) : InRange prio := by
  have := p.isLt
  subst h
  exact ⟨by omega, by omega⟩

/-- A thread that an instruction leaves started has a priority in the range: a start outside it
does not come to an end. -/
theorem table_prio (hc : Core s) (hi : Table s) (hon : OnStack s l t)
    (hcode : (s.uthreads t).utCtx = i :: cs) (he : Effect l t s i s₁ new)
    (hst : (s₁.uthreads v).utState.started) : InRange (s₁.uthreads v).utPrio := by
  by_cases hstart : ∃ prio, i = startTest v prio
  · obtain ⟨prio, rfl⟩ := hstart
    cases he with
    | plain hp => cases hp
    | take _ _ _ h | signal _ _ _ _ h => rcases h with ⟨h, -⟩ | ⟨h, -⟩ <;> cases h
    | start _ _ hw hs =>
      obtain ⟨p, hp, -⟩ := runqEnqueue_ok hs
      rw [(runqEnqueue_thread hs v).2.2.1, hp]
      exact runqIndex_inRange rfl
  have hold : (s.uthreads v).utState.started := by
    by_contra hne
    simp only [UthreadState.started, not_and_or, not_not] at hne
    rcases unstarted_thread hc hon hcode he (u := v) hne with h | h
    · exact h.elim hst.1 hst.2
    · exact hstart h
  cases effect_prio he v with
  | same h => rw [h]; exact hi.prio v hold
  | set hset =>
    rcases hset with rfl | rfl
    · exact hi.setprio t _ (by rw [hcode]; simp)
    · exact absurd ⟨_, rfl⟩ hstart
  | created pr h =>
    subst h
    exact ((hc.creating hcode he).2.1.elim hold.1 hold.2).elim

/-- A queue of joiners stays initialised. -/
theorem effect_initialised (he : Effect l t s i s₁ new)
    (h : (s.uthreads v).utWaiterInit = true ∨ ∃ prio, i = createInit .waiter v prio) :
    (s₁.uthreads v).utWaiterInit = true := by
  by_cases hcr : ∃ prio, i = createInit .waiter v prio
  · obtain ⟨prio, rfl⟩ := hcr
    rw [(effect_create he).1]
    simp
  · rw [(effect_fields he v).1.resolve_right hcr]
    exact h.resolve_right hcr

/-- The mutexes that an instruction sets up or destroys. -/
theorem table_pmtx (hi : Table s) (hcode : (s.uthreads t).utCtx = i :: cs) (he : Effect l t s i s₁ new) :
    (∀ v, (s₁.pmtx (.utPmut v)).status = .live → (s₁.uthreads v).utWaiterInit = true) ∧
      ∀ p, (s₁.pmtx p).status = .destroyed → ∃ v, p = .utPmut v := by
  refine ⟨fun v hl => effect_initialised he (.inl ?_), fun p hp => ?_⟩
  · by_cases hcr : ∃ prio, i = createInit .pmut v prio
    · obtain ⟨prio, rfl⟩ := hcr
      exact hi.inits t v (by rw [hcode]; simp)
    · exact hi.init v (effect_live he (fun prio e => hcr ⟨prio, e⟩) hl)
  · by_cases hw : i.writesPmtx = true
    · cases he with
      | lock q =>
        by_cases hq : p = q
        · subst hq; exact hi.life p (by simpa using hp)
        · exact hi.life p (by simpa [hq] using hp)
      | unlock q =>
        by_cases hq : p = q
        · subst hq; exact hi.life p (by simpa using hp)
        · exact hi.life p (by simpa [hq] using hp)
      | create w u | destroy d u =>
        by_cases hq : p = .utPmut u
        · exact ⟨u, hq⟩
        · exact hi.life p (by simpa [hq] using hp)
      | plain hpl => cases hpl <;> cases hw
      | take _ _ _ h | signal _ _ _ _ h => rcases h with ⟨rfl, -⟩ | ⟨rfl, -⟩ <;> cases hw
      | _ => cases hw
    · rw [effect_pmtx he (by simpa using hw)] at hp
      exact hi.life p hp

/-- What is initialised stays so, and the queue of joiners is before `ut_pmut`. -/
theorem inits_step (h : Turn s l a s') :
    (∀ v, (s.uthreads v).utWaiterInit = true → (s'.uthreads v).utWaiterInit = true) ∧
      ∀ t, ∀ v ∈ (s'.uthreads t).utCtx.flatMap initsPmut,
        v ∈ (s.uthreads t).utCtx.flatMap initsPmut ∨ (s'.uthreads v).utWaiterInit = true := by
  constructor
  · intro v hv
    cases h with
    | thread t i cs new hon hcode he => simpa using effect_initialised he (.inl hv)
    | call t c => simpa using hv
    | preempt t => simpa using hv
    | lwp hb => rcases hb.thread v with e | ⟨-, e⟩ <;> rw [e] <;> exact hv
  · intro t v hv
    cases h with
    | @thread _ w i cs new s₁ hon hcode he =>
      by_cases ht : t = w
      · subst ht
        rw [State.setCtx_uthreads, if_pos rfl, List.flatMap_append, List.mem_append] at hv
        rcases hv with hv | hv
        · exact .inr (by simpa using effect_initialised he (.inr (effect_initsPmut he hv)))
        · left
          rw [hcode, List.flatMap_cons]
          exact List.mem_append_right _ hv
      · rcases other_code cs he ht with e | ⟨-, -, e⟩ <;> rw [e] at hv
        · exact .inl hv
        · simp [threadStartCode] at hv
    | call w c hon hcode =>
      by_cases ht : t = w
      · subst ht
        rw [State.setCtx_uthreads, if_pos rfl, call_initsPmut] at hv
        cases hv
      · exact .inl (by simpa [ht] using hv)
    | preempt w hon =>
      by_cases ht : t = w
      · subst ht
        exact .inl (by simpa [clockInterrupt, uthreadYield, uthreadSwitch] using hv)
      · exact .inl (by simpa [ht] using hv)
    | lwp hb => exact .inl (by rwa [(hb.fields t).1] at hv)

/-- **Every step keeps the table.** -/
theorem table_step (hc : Core s) (hi : Table s) (h : Turn s l a s') : Table s' := by
  obtain ⟨hkeep, hinits⟩ := inits_step h
  have hset : SetsInRange s' := sets_turn hi.setprio h
  have hwait : ∀ t, ∀ v ∈ (s'.uthreads t).utCtx.flatMap initsPmut, (s'.uthreads v).utWaiterInit = true :=
    fun t v hv => (hinits t v hv).elim (fun h => hkeep v (hi.inits t v h)) id
  cases h with
  | @thread _ t i cs new s₁ hon hcode he =>
    obtain ⟨hinit, hlife⟩ := table_pmtx hi hcode he
    refine ⟨fun v hst => ?_, hset, fun v hl => ?_, hwait, hlife⟩
    · have hv : ((s₁.setCtx t (new ++ cs)).uthreads v).utState = (s₁.uthreads v).utState ∧
          ((s₁.setCtx t (new ++ cs)).uthreads v).utPrio = (s₁.uthreads v).utPrio := by simp
      rw [hv.1] at hst
      rw [hv.2]
      exact table_prio hc hi hon hcode he hst
    · simpa using hinit v hl
  | call t c hon hcode =>
    exact ⟨fun v hst => by simpa using hi.prio v (by simpa using hst), hset,
      fun v hl => hkeep v (hi.init v hl), hwait, hi.life⟩
  | preempt t hon hm _ h0 =>
    exact ⟨fun v hst => by simpa using hi.prio v (by simpa using hst), hset,
      fun v hl => hkeep v (hi.init v hl), hwait, hi.life⟩
  | lwp hb =>
    refine ⟨fun v hst => ?_, hset, fun v hl => hkeep v (hi.init v (by rwa [← hb.status])), hwait,
      fun p hp => hi.life p (by rwa [← hb.status p])⟩
    rw [(hb.fields v).2.1]
    apply hi.prio v
    rcases hb.state v with ⟨e, -⟩ | ⟨e, -⟩
    · rwa [← e]
    · rw [e]; exact ⟨by decide, by decide⟩

theorem boot_table : Table (boot N L) := by
  refine ⟨boot_prio.table, fun v p hp => ?_, fun v hl => ?_, fun t v hv => ?_, fun p hp => ?_⟩
  · rcases boot_code (L := L) v with h | h | h <;> rw [h] at hp <;>
      simp [threadStartCode, reaper, uthreadMtxLock] at hp
  · rcases boot_cases (L := L) v with ⟨-, -, -, -, -, hv⟩ | ⟨-, hz, -⟩
    · rcases hv with rfl | rfl <;> simp [boot, Uthread.first]
    · rw [hz] at hl; cases hl
  · rcases boot_code (L := L) t with h | h | h <;> rw [h] at hv <;>
      simp [threadStartCode, reaper, uthreadMtxLock] at hv
  · cases p with
    | utPmut v => exact ⟨v, rfl⟩
    | _ => simp [boot] at hp

/-! ## The end of a thread -/

/-- `j` can stand behind `i`: the return of `getcontext` is behind a switch, and the panic of a dead
thread behind that. -/
@[simp] def Instr.after : Instr N → Instr N → Bool
  | resume, swtch _ _ _ => true
  | resume, _ => false
  | panicDead, resume => true
  | panicDead, _ => false
  | _, _ => true

/-- Behind every instruction of the code stands what can stand there. -/
def Chained (c : Code N) : Prop := c.IsChain fun i j => j.after i = true

/-- The code of a thread that has ended and is about to find out. -/
def Ghost (c : Code N) : Prop := c.head? = some resume ∧ panicDead ∈ c ∨ c.head? = some panicDead

theorem after_of_after {j : Instr N} (h : j.after i = true) (hs : ∀ q sv m, i ≠ swtch q sv m)
    (hr : i ≠ resume) (x : Instr N) : j.after x = true := by
  cases j with
  | resume =>
    cases i with
    | swtch q sv m => exact absurd rfl (hs q sv m)
    | _ => cases h
  | panicDead =>
    cases i with
    | resume => exact absurd rfl hr
    | _ => cases h
  | _ => rfl

/-- The code that an instruction puts in front. -/
theorem effect_new (he : Effect l t s i s₁ new) :
    Chained new ∧ (∀ j ∈ new.head?, j ≠ resume ∧ j ≠ panicDead) ∧ (i = resume → new = []) := by
  cases he with
  | plain hp => cases hp <;> simp [Chained, uthreadMtxUnlock, uthreadCondWait, uthreadMtxLock,
      uthreadSwitch]
  | setprio u prio hs hnew =>
    rcases hnew with rfl | rfl <;> simp [Chained, uthreadYield, uthreadSwitch]
  | take m ho hs hnew => rcases hnew with ⟨rfl, rfl⟩ | ⟨rfl, rfl⟩ <;> simp [Chained]
  | signal c u hq hs hnew =>
    rcases hnew with ⟨rfl, rfl⟩ | ⟨rfl, rfl⟩ <;> simp [Chained, uthreadWake]
  | detach u k hq hd hinit hs hnew =>
    rcases hnew with ⟨-, rfl⟩ | ⟨-, rfl⟩ <;> simp [Chained, uthreadMtxLock]
  | makeReapable u hz hs₁ hs hnew =>
    subst hnew
    split_ifs <;> simp [Chained, uthreadCondSignal, uthreadMtxUnlock, uthreadSwitch]
  | create w => cases w <;> simp [Chained, createRest, uthreadStartonrunq]
  | destroy d => cases d <;> simp [Chained, destroyRest]
  | _ => simp [Chained, uthreadSwitch, uthreadWake, uthreadMtxUnlock, uthreadMtxLock, deadCode]

theorem effect_chained (h : Chained (i :: cs)) (he : Effect l t s i s₁ new) : Chained (new ++ cs) := by
  obtain ⟨hnew, -, hr⟩ := effect_new he
  unfold Chained at h hnew ⊢
  rw [List.isChain_cons] at h
  by_cases hsw : ∃ q sv m, i = swtch q sv m
  · obtain ⟨q, sv, m, rfl⟩ := hsw
    rw [(switch_mode he).1]
    exact h.2
  by_cases hi : i = resume
  · rw [hr hi]
    exact h.2
  refine List.isChain_append.2 ⟨hnew, h.2, fun x _ y hy => ?_⟩
  exact after_of_after (h.1 y hy) (fun q sv m e => hsw ⟨q, sv, m, e⟩) hi x

theorem call_chained (inc : Fin N → ℕ) (t : Fin N) (c : Call) : Chained (c.code inc t) ∧
    ∀ j ∈ (c.code inc t).head?, j ≠ resume ∧ j ≠ panicDead := by
  cases c with
  | join uid =>
    simp only [Call.code, uthreadJoin]
    split <;> simp [Chained]
  | detach uid =>
    simp only [Call.code, uthreadDetach]
    split <;> simp [Chained]
  | setprio uid prio =>
    simp only [Call.code, uthreadSetprio]
    split
    · simp [Chained]
    · split <;> simp [Chained]
  | _ =>
    simp [Chained, Call.code, uthreadCreate, uthreadExit, uthreadYield, uthreadSwitch, uthreadMtxLock,
      uthreadMtxTrylock, uthreadMtxUnlock, uthreadCondWait, uthreadCondSignal, uthreadCondBroadcast]

/-- No thread that has ended is on an LWP again. -/
structure NoGhost (s : State N L) : Prop where
  chain : ∀ t, Chained (s.uthreads t).utCtx
  alive : ∀ l t, OnStack s l t → ¬ Ghost (s.uthreads t).utCtx

theorem not_ghost (h : ∀ j ∈ c.head?, j ≠ resume ∧ j ≠ panicDead) : ¬ Ghost c := by
  rintro (⟨hr, -⟩ | hp)
  · exact (h _ hr).1 rfl
  · exact (h _ hp).2 rfl

/-- **No step resumes a thread that has ended.** -/
theorem ghost_step (hc : Core s) (hsh : ∀ t, Shape (s.uthreads t).utCtx) (h : Turn s l a s')
    (hi : NoGhost s) : NoGhost s' := by
  refine ⟨fun t => ?_, fun k u hk => ?_⟩
  · cases code_turn h t with
    | same e => rw [e]; exact hi.chain t
    | @thread i cs new s₁ hon hcode he e =>
      rw [e]
      have hch := hi.chain t
      rw [hcode] at hch
      exact effect_chained hch he
    | create _ _ _ _ _ _ e => rw [e]; simp [Chained, threadStartCode]
    | call c ha hon hcode e => rw [e]; exact (call_chained _ _ _).1
    | preempt ha hon hst h0 e =>
      rw [e]
      refine List.isChain_append.2 ⟨by simp [clockInterrupt, uthreadYield, uthreadSwitch], hi.chain t,
        fun x hx y hy => ?_⟩
      -- the interrupt comes in where the thread runs, not where it is resumed
      cases y with
      | resume =>
        have hs := hsh t
        have hpre := preemptible hc hon h0
        rw [List.eq_cons_of_mem_head? hy] at hs hpre
        have hd : 0 < depth (s.uthreads t).utCtx.tail := hs.1
        simp at hpre
        omega
      | panicDead => exact absurd (.inr hy) (hi.alive _ _ hon)
      | _ => rfl
  · cases h with
    | @thread _ t i cs new s₁ hon hcode he =>
      by_cases hkl : k = l
      · subst hkl
        obtain ⟨rfl, hsw⟩ := (onStack_thread hon he (k := k)).2.1 hk
        rw [State.setCtx_uthreads, if_pos rfl]
        obtain ⟨-, hhead, -⟩ := effect_new he
        cases new with
        | cons j new => exact not_ghost (by simpa using hhead)
        | nil =>
          have hch := hi.chain u
          rw [hcode] at hch
          have hafter := (List.isChain_cons.1 hch).1
          apply not_ghost
          intro j hj
          refine ⟨?_, ?_⟩
          · rintro rfl
            have := hafter _ hj
            cases i with
            | swtch q sv m => exact hsw q sv m rfl
            | _ => cases this
          · rintro rfl
            have := hafter _ hj
            cases i with
            | resume =>
              refine hi.alive k u hon (.inl ⟨by rw [hcode]; rfl, ?_⟩)
              rw [hcode]
              exact List.mem_cons_of_mem _ (List.mem_of_mem_head? hj)
            | _ => cases this
      · have hk' := ((onStack_thread hon he).1 hkl).1.1 hk
        have hut : u ≠ t := by
          rintro rfl
          exact hkl (hc.places.cur k l u hk'.2 hon.2)
        rcases other_code cs he hut with e | ⟨-, hv, -⟩
        · rw [e]
          exact hi.alive k u hk'
        · exact absurd (hc.vacant hv).1 hk'.not_off
    | call t c hon hcode =>
      by_cases hut : u = t
      · subst hut
        rw [State.setCtx_uthreads, if_pos rfl]
        exact not_ghost (call_chained _ _ _).2
      · simpa [hut] using hi.alive k u hk
    | preempt t hon hm hst h0 =>
      by_cases hut : u = t
      · subst hut
        apply not_ghost
        simp [clockInterrupt, uthreadYield]
      · have hk' : OnStack s k u := by
          by_cases hkl : k = l
          · subst hkl; simpa [OnStack] using hk
          · simpa [OnStack, hkl] using hk
        simpa [hut] using hi.alive k u hk'
    | lwp hb =>
      rw [(hb.fields u).1]
      rcases hb.resumes k u hk with hk' | ⟨hd, hcur⟩
      · exact hi.alive k u hk'
      · -- who is dispatched has more to do
        have hready : Ready (s.uthreads u).utCtx := by
          cases hc.places.place u with
          | free off | created off | queued off | waiting _ off | woken off | razed off =>
            exact absurd hcur (off k)
          | active k' hk' hm =>
            rw [hc.places.cur k k' u hcur hk'] at hd
            rcases hm with hm | ⟨-, hr⟩
            · rw [hm] at hd; cases hd
            · exact hr
          | leaving k' p q hk' hm =>
            rw [hc.places.cur k k' u hcur hk', hm] at hd
            cases hd
          | dead off =>
            rcases off with off | ⟨k', hk', hm⟩
            · exact absurd hcur (off k)
            · rw [hc.places.cur k k' u hcur hk', hm] at hd
              cases hd
        rintro (⟨-, hmem⟩ | hp)
        · exact hready.1 hmem
        · exact hready.1 (List.mem_of_mem_head? hp)

/-! ## The ends -/

/-- What holds whatever is called, as long as preemption is switched on and off in pairs. -/
structure Sane (s : State N L) (n : Fin N → ℕ) : Prop where
  core : Core s
  mask : MaskInv s n
  attended : Attended s
  kept : Kept s
  shape : ∀ t, Shape (s.uthreads t).utCtx
  table : Table s
  ghost : NoGhost s
  reap : MtxInv .reapMtx s
  reaper : ReaperInv s

/-- How the process can end in a step of LWP `l`, and why. -/
inductive Ending (s : State N L) (l : Fin L) : Halt → Prop
  /-- The reaper has found every other slot free. -/
  | exit (h : ∀ v, v ≠ s.reaperThrId → (s.uthreads v).utState = .noState) : Ending s l .exit0
  /-- No thread can run, and every other LWP is parked. -/
  | allParked (h : ∀ v, (s.uthreads v).utState ≠ .runnable) (hp : s.lwpParkedCnt + 1 = s.lwpCnt) :
    Ending s l (.panic .allParked)
  /-- `uthread_nopreempt_on` increments the largest `int`. -/
  | overflow (t : Fin N) (hon : OnStack s l t) (h : intMax ≤ (s.uthreads t).utNoPreemptCount) :
    Ending s l (.assertion .nopreemptOn)
  /-- A mutex that was handed to the thread has been unlocked by another one. -/
  | stolen (i : ℕ) (t : Fin N) (hon : OnStack s l t) (h : (s.mtx (.user i)).mOwner ≠ some t) :
    Ending s l (.assertion .mtxOwner)
  /-- A join or detach of a slot that no thread has ever used. -/
  | neverUsed (u : Fin N) (h : (s.uthreads u).utWaiterInit = false) :
    Ending s l (.assertion .queueEmpty)
  /-- A join or detach of a slot whose last thread is gone. -/
  | freed (u : Fin N) (h : (s.pmtx (.utPmut u)).status = .destroyed) : Ending s l (.wrapper .einval)
  /-- A priority outside the range passed to `uthread_create`. -/
  | priority (u : Fin N) (prio : ℤ) (h : ¬ InRange prio) : Ending s l (.undefined .runqIndex)
  /-- A slot is set up that a join or detach looks at. -/
  | setUpTwice (u : Fin N) (h : (s.pmtx (.utPmut u)).owner ≠ none) : Ending s l (.undefined .mutexInit)
  /-- A slot is started that has been handed out twice and freed in between. -/
  | startedTwice (u : Fin N) (h : (s.uthreads u).utState = .noState) :
    Ending s l (.panic .notTransition)
  /-- A thread in `uthread_detach` unlocks the `ut_pmut` that it locked on another LWP. -/
  | moved (t u : Fin N) (hon : OnStack s l t) (hd : Detaching u (s.uthreads t).utCtx)
    (h : (s.pmtx (.utPmut u)).owner ≠ some l) : Ending s l (.wrapper .eperm)
  /-- Another thread locks, on its old LWP, the `ut_pmut` that one in `uthread_detach` has. -/
  | leftBehind (v u : Fin N) (hd : Detaching u (s.uthreads v).utCtx)
    (hv : Held (.utPmut u) (s.uthreads v).utCtx) (h : (s.pmtx (.utPmut u)).owner = some l) :
    Ending s l (.wrapper .edeadlk)
  /-- A thread that is on `reap_queue` is put there again. -/
  | reapedTwice (u : Fin N) (h : (s.uthreads u).utLink = some .reapQueue) :
    Ending s l (.assertion .enqueueLink)
  /-- The reaper frees the stack that an LWP is on. -/
  | liveStack (u : Fin N) (k : Fin L) (h : OnStack s k u) : Ending s l (.undefined .liveStack)
  /-- The reaper destroys a `ut_pmut` that is locked. -/
  | lockedPmut (u : Fin N) (h : (s.pmtx (.utPmut u)).owner ≠ none) :
    Ending s l (.undefined .mutexDestroy)

/-- A thread that runs and does not end is linked only while it joins. -/
theorem link_running (hc : Core s) (hon : OnStack s l t) (hcode : (s.uthreads t).utCtx = c)
    (hd : panicDead ∉ c) (hl : linkOf c = none) : (s.uthreads t).utLink = none := by
  subst hcode
  rw [(hc.active hon).2.1 hd, hl]

/-- A thread is put on the run queue at a level, and is on no queue before. -/
theorem runqFault_elim (h : RunqFault s v e) (hp : InRange (s.uthreads v).utPrio)
    (hl : (s.uthreads v).utLink = none) : False := by
  cases h with
  | index h => exact runqIndex_ne_none hp h
  | link h => exact h hl

/-- A zombie is on no queue but the reaper's. -/
theorem link_zombie (hc : Core s) (hz : (s.uthreads u).utState = .zombie) :
    (s.uthreads u).utLink = none ∨ (s.uthreads u).utLink = some .reapQueue := by
  cases hc.places.place u with
  | free _ st | created _ st => rcases st with st | st <;> rw [st] at hz <;> cases hz
  | queued _ st | leaving _ _ _ _ _ st | waiting _ _ st | woken _ st => rw [st] at hz; cases hz
  | active k _ _ st _ dying =>
    apply dying
    by_contra hd
    rw [hz, expect, if_neg hd] at st
    split_ifs at st
  | dead _ _ _ link => exact link
  | razed _ _ _ link => exact .inl link

/-- Only zombies are on the reaper's queue. -/
theorem zombie_of_reapQueue (hc : Core s) (hq : u ∈ (s.queues .reapQueue).tqWaiters) :
    (s.uthreads u).utState = .zombie := by
  have hlk := (hc.links.link u .reapQueue).2 hq
  cases hc.places.place u with
  | free _ _ link | created _ _ link | woken _ _ _ link | razed _ _ _ link => rw [link] at hlk; cases hlk
  | queued _ st =>
    obtain ⟨r, -, hmem⟩ := hc.runq.mem_of_runnable st
    have := (hc.links.mem_iff hq (.runq r)).1 ((hmem r).2 rfl)
    cases this
  | active k _ _ st link =>
    rw [st]
    by_cases hd : panicDead ∈ (s.uthreads u).utCtx
    · exact if_pos hd
    · rw [link hd] at hlk
      unfold linkOf at hlk
      split at hlk <;> cases hlk
  | leaving _ _ _ _ _ _ _ link guard => rw [link] at hlk; cases hlk; cases guard
  | waiting _ _ _ _ link guard => rw [link] at hlk; cases hlk; exact absurd rfl guard
  | dead _ st => exact st

/-- **The ends of an instruction.** -/
theorem fault_ending (hs : Sane s n) (hon : OnStack s l t) (hcode : (s.uthreads t).utCtx = i :: cs)
    (hf : Fault l t s i e) (hb : ∀ p, i = lock p → lockBlocked s l p = false) : Ending s l e := by
  have hc := hs.core
  have hwf := hc.codes.wf t
  have hshape := hs.shape t
  have hmask : ∀ x : Assertion, e = .assertion x → x.masking = true →
      (i = nopreemptOn → (s.uthreads t).utNoPreemptCount < intMax) → False := by
    rintro x rfl hx hfit
    rw [fault_masking hc hs.mask hon hcode hfit hf] at hx
    cases hx
  have hheld : ∀ p ∈ i.needs, (s.pmtx p).owner ≠ none ∧ (s.pmtx p).status ≠ .destroyed := by
    intro p hp
    refine hc.locks.taken p (.inl t) ?_
    show Held p (s.uthreads t).utCtx
    rw [hcode]
    exact .inl hp
  rw [hcode] at hwf hshape
  cases hf with
  | lockDestroyed p h =>
    obtain ⟨u, rfl⟩ := hs.table.life p h
    exact .freed u h
  | lockHeld p h =>
    have hblk := hb p rfl
    have hown : (s.pmtx p).owner = some l := by
      by_contra hne
      obtain ⟨k, hk⟩ := Option.ne_none_iff_exists'.1 h
      obtain ⟨x, hx⟩ := hs.attended.holder p h
      have hst := (hc.locks.taken p x hx).2
      simp [lockBlocked, hst, hk] at hblk
      rw [hk] at hne
      exact hne (congrArg some hblk.2)
    obtain ⟨u, v, rfl, -, hv, hd⟩ := lock_self hs.attended hs.kept hon hcode hown
    exact .leftBehind v u hd hv hown
  | unlockDestroyed p h => exact absurd h (hheld p (by simp)).2
  | unlockOther p h ho =>
    obtain ⟨u, rfl, hd⟩ := unlock_other hs.kept hon hcode ho
    exact .moved t u hon hd ho
  | nopreemptOff | interruptLeave | switchMasked | switchCount | threadStart | reapableMasked =>
    exact (hmask _ rfl rfl fun h => by cases h).elim
  | nopreemptOn _ h =>
    exact (hmask _ rfl rfl fun _ => by rw [h]; decide).elim
  | nopreemptMax h => exact .overflow t hon h
  | switchLink q m h =>
    have hok : OkSwitch t (some q) false m cs := hwf.1
    refine absurd (link_running hc hon hcode ?_ ?_) h <;> cases hok <;> simp_all [linkOf]
  | switchSave h =>
    have hok : OkSwitch t none true none cs := hwf.1
    refine (runqFault_elim h (hs.table.prio t (hon.started hc)) ?_).elim
    cases hok with
    | yield hh hd => exact link_running hc hon hcode (by simpa using hd) rfl
  | resume h =>
    -- a thread that ends does not come back from its switch
    have hdead : panicDead ∈ resume :: cs := by
      by_contra hd
      have hst := (hc.active hon).1
      rw [h, hcode, expect, if_neg hd] at hst
      split_ifs at hst
    refine absurd (.inl ⟨?_, ?_⟩) (hs.ghost.alive l t hon) <;> rw [hcode]
    · rfl
    · exact hdead
  | yieldMasked h =>
    have h0 := hc.codes.unmasked l t hon h
    have hpre := preemptible hc hon h0
    rw [hcode] at hpre
    have hd := hshape.1.2
    simp at hpre
    omega
  | yieldLink h => exact absurd (link_running hc hon hcode (by simpa using hshape.1.1) rfl) h
  | wakeState u h =>
    have hw : Woken s u := ⟨t, by rw [hcode]; simpa using hshape.1⟩
    rw [(hc.places.woken u hw).2.1] at h
    cases h
  | wake u hu h =>
    have hw : Woken s u := ⟨t, by rw [hcode]; simp⟩
    refine (runqFault_elim h (hs.table.prio u ?_) (hc.places.woken u hw).2.2).elim
    rw [hu]
    exact ⟨by decide, by decide⟩
  | setprio u prio hu h =>
    have hold := hs.table.prio u (by rw [hu]; exact ⟨by decide, by decide⟩)
    have hnew : InRange prio := hs.table.setprio t prio (by rw [hcode]; simp)
    obtain ⟨r, hr, hmem⟩ := hc.runq.mem_of_runnable hu
    cases h with
    | index h =>
      rcases h with h | h
      · exact absurd h (runqIndex_ne_none hold)
      · exact absurd h (runqIndex_ne_none (by simpa using hnew))
    | link h =>
      have hlk := (hc.links.link u (.runq r)).2 ((hmem r).2 rfl)
      simp [hlk] at h
    | missing q hq h =>
      have hqr : q = r := by
        have := runqIndex_eq hq
        rw [hr] at this
        exact Fin.ext (by exact_mod_cast this.symm)
      subst hqr
      exact absurd ((hmem q).2 rfl) h
  | start u prio hu h =>
    have hlk := (hc.unstarted (.inr hu)).2.1
    cases h with
    | index h =>
      refine .priority u prio fun hp => ?_
      exact runqIndex_ne_none (by simpa using hp) h
    | link h => simp [hlk] at h
  | startState u prio h =>
    have hst := (hc.slots.start t u (by rw [hcode]; simp)).1
    exact .startedTwice u (hst.resolve_right h)
  | lockOwned m h =>
    cases m with
    | user i => exact .stolen i t hon h
    | reapMtx =>
      have haw : awaits .reapMtx (s.uthreads t).utCtx = true := by rw [hcode]; simp [awaits]
      have hout : t ∉ (s.queues (.mWaiters .reapMtx)).tqWaiters :=
        hc.not_queued hon (by simp) (by simp)
      exact absurd ((hs.reap.await t haw).resolve_left hout).1 h
  | waitDone c h => exact absurd (link_running hc hon hcode (by simpa using hshape.1) rfl) h
  | createLink u prio h =>
    have hst := (hc.slots.start t u (by rw [hcode]; simp)).1
    exact absurd (hc.unstarted hst).2.1 h
  | createMutex u prio h =>
    have hset := hc.slots.setUp t (createInit .pmut u prio) (by rw [hcode]; exact List.mem_cons_self)
    exact .setUpTwice u (h.resolve_left hset)
  | exitQueue u status h =>
    obtain ⟨rfl, -⟩ : u = t ∧ cs = [] := hwf.1
    rw [hs.table.init u (hc.active hon).2.2.2] at h
    cases h
  | reapableLink u hz h => exact .reapedTwice u ((link_zombie hc hz).resolve_left h)
  | joinQueue u k h | detachQueue u k h => exact .neverUsed u h
  | joinLink u k h =>
    have hcs : cs = [] := hwf.1
    subst hcs
    exact absurd (link_running hc hon hcode (by simp) rfl) h
  | reaperZombie u hq h => exact absurd (zombie_of_reapQueue hc hq) h
  | destroyZombie u h =>
    exact absurd (hc.slots.destroy t .test u (by rw [hcode]; exact List.mem_cons_self)).st h
  | liveStack u k h => exact .liveStack u k h
  | mutexDestroy u h => exact .lockedPmut u h
  | exit th h =>
    have hr := hs.reaper.is_reaper hcode rfl
    have hcs : cs = [] := hwf.1
    refine .exit fun v hv => ?_
    rcases hs.reaper.scan th (by rw [reaperCtx, ← hr, hcode, hcs]) with hfree | ⟨w, hw, -⟩
    · exact hfree v (by omega) hv
    · omega
  | panicDead =>
    exact absurd (.inr (by rw [hcode]; rfl)) (hs.ghost.alive l t hon)

/-- **The ends of a step.** -/
theorem stop_ending (hs : Sane s n) (h : Stop s l a e) : Ending s l e := by
  have hc := hs.core
  cases h with
  | thread t i cs hon hcode hf hb => exact fault_ending hs hon hcode hf hb
  | interrupt t hon hm h =>
    obtain ⟨hst, h0⟩ := unmasked_running hc hon hm
    exact absurd h (by simp [hst, h0])
  | acquire hm hb hl =>
    exfalso
    have hstatus : (s.pmtx .runqMtx).status ≠ .destroyed := fun h => by
      obtain ⟨v, hv⟩ := hs.table.life _ h
      cases hv
    rcases hl with ⟨h, -⟩ | ⟨h, -⟩
    · exact hstatus h
    · -- `runq_mtx` is never locked by an LWP that is about to lock it
      obtain ⟨x, hx⟩ := hs.attended.holder _ h
      obtain ⟨k, hk⟩ := Option.ne_none_iff_exists'.1 h
      simp [lockBlocked, hstatus, hk] at hb
      obtain ⟨-, rfl⟩ := hb
      cases x with
      | inr k' =>
        rcases hs.kept _ _ k' hx rfl with ho | ho
        · obtain rfl : k = k' := Option.some.inj (hk.symm.trans ho)
          rcases hm with hm | hm <;> simp [HeldBy, hm] at hx
        · exact ho
      | inl v =>
        by_cases hseat : ∃ j, OnStack s j v
        · obtain ⟨j, hj⟩ := hseat
          rcases hs.kept _ _ j hx hj with ho | ⟨u, hu, -⟩
          · obtain rfl : k = j := Option.some.inj (hk.symm.trans ho)
            rcases hm with hm | hm <;> rw [hj.1] at hm <;> cases hm
          · cases hu
        · obtain ⟨u, r, hu, -⟩ := hs.attended.away v (fun j hj => hseat ⟨j, hj⟩) _ hx
          cases hu
  | release p hm hl =>
    exfalso
    have hheld : HeldBy s p (.inr l) := by
      rcases hm with hm | ⟨rfl, hm | hm⟩ <;> simp [HeldBy, hm]
    rcases hl with ⟨h, -⟩ | ⟨-, h, -⟩
    · exact (hc.locks.taken p _ hheld).2 h
    · exact (hs.kept p _ l hheld rfl).elim (fun ho => h ho) False.elim
  | allParked hm hd hcnt =>
    refine .allParked (fun v hv => ?_) hcnt
    obtain ⟨r, -, hmem⟩ := hc.runq.mem_of_runnable hv
    have := dispatchBody_none.1 hd r
    have hv' := (hmem r).2 rfl
    rw [this] at hv'
    cases hv'

/-! ## Every run -/

theorem boot_shape (t : Fin (N + 2)) : Shape ((boot N L).uthreads t).utCtx := by
  rcases boot_code (L := L) t with e | e | e <;> rw [e] <;>
    simp [threadStartCode, reaper, uthreadMtxLock]

theorem boot_ghost : NoGhost (boot N L) := by
  refine ⟨fun t => ?_, fun l t hon => absurd hon.2 (boot_off t l)⟩
  rcases boot_code (L := L) t with e | e | e <;> rw [e] <;>
    simp [Chained, threadStartCode, reaper, uthreadMtxLock]

/-- The user has no access to `reap_mtx`. -/
theorem unlocks_user (a : Act) : a.unlocks ≠ some .reapMtx := by
  cases a with
  | call c => cases c <;> simp [Act.unlocks, Call.unlocks]
  | _ => simp

theorem nest_reachable {y : State (N + 2) (L + 1) × (Fin (N + 2) → ℕ)}
    (h : Runs.Reach nest masksCalm (boot N L, fun _ => 0) y) :
    Reachable Runs.always (boot N L) y.1 := by
  refine h.invariant (P := fun y => Reachable Runs.always (boot N L) y.1) .start ?_
  rintro ⟨s, n⟩ y b hr hok hn
  obtain ⟨s', hn', rfl⟩ := nest_calm hok.2 hn
  exact .step hr trivial hn'

theorem sane_reachable {s : State (N + 2) (L + 1)} {n : Fin (N + 2) → ℕ}
    (h : Runs.Reach nest masksCalm (boot N L, fun _ => 0) (s, n)) : Sane s n := by
  obtain ⟨hc, hm, -⟩ : Core s ∧ MaskInv s n ∧ _ := mask_reachable h
  have hr : Reachable Runs.always (boot N L) s := nest_reachable h
  have hI : ∀ s, Reachable Runs.always (boot N L) s → Core s := fun _ => core_reachable boot_core
  have ha : ∀ s, Reachable Runs.always (boot N L) s → Attended s := fun _ hr =>
    hr.invariant_of hI boot_attended fun _ _ _ hc h _ hn =>
      attended_step hc h (step_move hc.codes.wf hn)
  have hsh : ∀ s, Reachable Runs.always (boot N L) s → ∀ t, Shape (s.uthreads t).utCtx := fun _ hr =>
    hr.invariant_of (P := fun s => ∀ t, Shape (s.uthreads t).utCtx) hI boot_shape
      fun _ _ _ hc h _ hn => shape_step hc (move_turn hc (step_move hc.codes.wf hn)) h
  refine ⟨hc, hm, ha s hr, ?_, hsh s hr, ?_, ?_, ?_, reaper_reachable hr⟩
  · refine hr.invariant_of (P := Kept) (I := fun s => Core s ∧ Attended s)
      (fun s hs => ⟨hI s hs, ha s hs⟩) boot_kept ?_
    rintro s s' ⟨l, a⟩ ⟨hc, ha⟩ h - hn
    exact kept_step hc ha h (step_move hc.codes.wf hn)
  · exact hr.invariant_of hI boot_table fun _ _ _ hc h _ hn =>
      table_step hc h (move_turn hc (step_move hc.codes.wf hn))
  · refine hr.invariant_of (P := NoGhost) (I := fun s => Core s ∧ ∀ t, Shape (s.uthreads t).utCtx)
      (fun s hs => ⟨hI s hs, hsh s hs⟩) boot_ghost ?_
    rintro s s' ⟨l, a⟩ ⟨hc, hsh⟩ h - hn
    exact ghost_step hc hsh (move_turn hc (step_move hc.codes.wf hn)) h
  · refine hr.invariant_of hI boot_mtx ?_
    rintro s s' ⟨l, a⟩ hc h - hn
    exact mtx_step hc h (fun t _ hu => absurd hu (unlocks_user a)) (step_move hc.codes.wf hn)

/-- A step that begins to set a slot up does not end the process. -/
theorem intrudes_goes_on {b : Fin L × Act} (hi : intrudes s b = true) (hn : anyStep s b = some s') :
    s'.halt = none := by
  obtain ⟨l, a⟩ := b
  have hn : step s l a = some s' := hn
  have hh : s.halt = none := by
    by_contra h
    simp [step, h] at hn
  -- it executes the first write of `uthread_create`
  have hexec : ∀ t ok u prio cs, OnStack s l t → (s.uthreads t).utCtx = createInit .ctx u prio :: cs →
      stepThread s l t ok = some s' → s'.halt = none := by
    intro t ok u prio cs hon hcode h
    simp [stepThread, hcode, exec, execCreateInit, Except.map, settle] at h
    rw [← h]
    simpa using hh
  unfold intrudes at hi
  unfold step at hn
  rw [if_neg (by simp [hh])] at hn
  split at hi
  · rename_i t ha hmode hcur
    obtain rfl : a = .exec := ha
    simp only [hmode, hcur] at hn
    split at hi
    · rename_i u prio cs hcode
      exact hexec t _ u prio cs ⟨hmode, hcur⟩ hcode hn
    · cases hi
  · rename_i t ha hmode hcur
    obtain rfl : a = .mallocFail := ha
    simp only [hmode, hcur] at hn
    split at hi
    · rename_i u prio cs hcode
      exact hexec t _ u prio cs ⟨hmode, hcur⟩ hcode hn
    · cases hi
  · cases hi

end Uthreads
