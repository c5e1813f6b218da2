import Uthreads.Proof.Codes

/-!
# What one instruction can do

`Effect l t s i s' new` lists, once, what the successful execution of an instruction can do to the
table, the queues and the mutexes, and which code it puts in front; `exec_effect` says that the
list is complete. The proofs about steps go through its cases and do not unfold `exec`.
`effect_before` says which instruction can have put one in front.
-/

namespace Uthreads

variable {N L : ℕ}

open Instr

/-- The states agree on everything that decides who runs, waits and holds. -/
structure SameTable (s s' : State N L) : Prop where
  uthreads : s'.uthreads = s.uthreads
  queues : s'.queues = s.queues
  runqSize : s'.runqSize = s.runqSize
  mtx : s'.mtx = s.mtx
  pmtx : s'.pmtx = s.pmtx
  lwps : s'.lwps = s.lwps

/-- They also agree on the counters of the LWPs. -/
structure SameCore (s s' : State N L) : Prop where
  uthreads : s'.uthreads = s.uthreads
  queues : s'.queues = s.queues
  runqSize : s'.runqSize = s.runqSize
  mtx : s'.mtx = s.mtx
  pmtx : s'.pmtx = s.pmtx
  lwps : s'.lwps = s.lwps
  lwpCnt : s'.lwpCnt = s.lwpCnt
  lwpParkedCnt : s'.lwpParkedCnt = s.lwpParkedCnt
  parkWaiters : s'.parkWaiters = s.parkWaiters
  parkSignals : s'.parkSignals = s.parkSignals
  halt : s'.halt = s.halt

theorem SameCore.rfl {s : State N L} : SameCore s s := by constructor <;> exact Eq.refl _

/-- The instructions that only choose how the code goes on. -/
inductive Plain (t : Fin N) (s : State N L) : Instr N → Code N → Prop
  | resume (h : (s.uthreads t).utState ≠ .zombie) : Plain t s resume []
  | yieldAssert (h : (s.uthreads t).utLink = none) : Plain t s yieldAssert []
  | wakeAssert (u : Fin N) (h : (s.uthreads u).utState ≠ .noState) : Plain t s (wakeAssert u) []
  | wakeDrop (u : Fin N) (h : (s.uthreads u).utState ≠ .wait) : Plain t s (wakeTest u) []
  | setprio (u : Fin N) (prio : ℤ) (e : Errno) :
    Plain t s (setprioTest u prio) [unlock .runqMtx, nopreemptOff, ret (.setprio e)]
  | lockOwned (m : MtxId) (h : (s.mtx m).mOwner = some t) : Plain t s (lockOwned m) []
  | trylockFail (m : MtxId) (h : (s.mtx m).mOwner ≠ none) :
    Plain t s (trylockTest m) [unlock (.mPmut m), nopreemptOff, ret (.trylock false)]
  | waitDone (c : CondId) (h : (s.uthreads t).utLink = none) : Plain t s (waitDone c) []
  | signalNone (c : CondId) (h : (s.queues (.ucWaiters c)).tqWaiters = []) :
    Plain t s (signalTest c) []
  | broadcastNone (c : CondId) (h : (s.queues (.ucWaiters c)).tqWaiters = []) :
    Plain t s (broadcastTest c) []
  | allocStart (prio : ℤ) : Plain t s (allocStart prio)
    [nopreemptOn, lock .uthreadsMtx, allocScan (allocFrom s.prevId) prio]
  | allocNone (start : ℕ) (prio : ℤ)
    (h : allocWhile (fun i => (s.uthreads i).utState) start = none) : Plain t s (allocScan start prio)
    [unlock .uthreadsMtx, nopreemptOff, ret (.create .eagain none)]
  | allocReturnNone (i : Fin N) (prio : ℤ) (h : s.prevId = none) :
    Plain t s (allocReturn i prio) [ret (.create .eagain none)]
  | allocReturn (i tid : Fin N) (prio : ℤ) (h : s.prevId = some tid) :
    Plain t s (allocReturn i prio) [nopreemptOn, allocStack tid prio]
  | allocStack (tid : Fin N) (prio : ℤ) :
    Plain t s (allocStack tid prio) [nopreemptOff, createInit .ctx tid prio]
  | allocStackFail (tid : Fin N) (prio : ℤ) :
    Plain t s (allocStack tid prio) [nopreemptOff, ret (.create .eagain none)]
  | threadStart : Plain t s threadStart []
  | reapableNot (u : Fin N) (h : (s.uthreads u).utState ≠ .zombie) :
    Plain t s (makeReapable u) ([unlock (.utPmut u)] ++ uthreadMtxUnlock .reapMtx)
  | joinFail (u : Fin N) (k : ℕ) (h : (s.queues (.utWaiter u)).tqWaiters ≠ [] ∨
      (s.uthreads u).utDetached = true) :
    Plain t s (joinTest u k) [unlock (.utPmut u), nopreemptOff, ret (.join u k .einval none)]
  | joinZombie (u : Fin N) (k : ℕ) (hq : (s.queues (.utWaiter u)).tqWaiters = [])
    (hd : (s.uthreads u).utDetached = false) (h : (s.uthreads u).utState = .zombie) :
    Plain t s (joinTest u k) [joinClaim u k]
  | claimFail (u : Fin N) (k : ℕ) (h : (s.uthreads u).utState ≠ .zombie) :
    Plain t s (joinClaim u k) [unlock (.utPmut u), nopreemptOff, ret (.join u k .einval none)]
  | reapLate (u : Fin N) (k : ℕ) (rv : ℤ) (h : (s.uthreads u).utState ≠ .zombie) :
    Plain t s (joinReap u k rv) ([unlock (.utPmut u)] ++ uthreadMtxUnlock .reapMtx ++
      [nopreemptOff, ret (.join u k .ok (some rv))])
  | reap (u : Fin N) (k : ℕ) (rv : ℤ) (h : (s.uthreads u).utState = .zombie) :
    Plain t s (joinReap u k rv) [makeReapable u, nopreemptOff, ret (.join u k .ok (some rv))]
  | detachFail (u : Fin N) (k : ℕ) (h : (s.queues (.utWaiter u)).tqWaiters ≠ [] ∨
      (s.uthreads u).utDetached = true) :
    Plain t s (detachTest u k) [unlock (.utPmut u), nopreemptOff, ret (.detach u k .einval)]
  | detachLate (u : Fin N) (k : ℕ) (h : (s.uthreads u).utState ≠ .zombie) :
    Plain t s (detachReap u k) ([unlock (.utPmut u)] ++ uthreadMtxUnlock .reapMtx ++
      [nopreemptOff, ret (.detach u k .ok)])
  | detachZombie (u : Fin N) (k : ℕ) (h : (s.uthreads u).utState = .zombie) :
    Plain t s (detachReap u k) [makeReapable u, nopreemptOff, ret (.detach u k .ok)]
  | reaperWait (h : (s.queues .reapQueue).tqWaiters = []) :
    Plain t s reaperWait (uthreadCondWait .reapCond .reapMtx ++ [reaperWait])
  | reaperGo (h : (s.queues .reapQueue).tqWaiters ≠ []) : Plain t s reaperWait [reaperDrain]
  | reaperDrained (h : (s.queues .reapQueue).tqWaiters = []) : Plain t s reaperDrain [reaperScan 0]
  | scanFound (th : ℕ) (h : th < N) (hr : ⟨th, h⟩ ≠ s.reaperThrId)
    (hst : (s.uthreads ⟨th, h⟩).utState ≠ .noState) : Plain t s (reaperScan th) [reaperWait]
  | scanNext (th : ℕ) (h : th < N)
    (hst : ⟨th, h⟩ ≠ s.reaperThrId → (s.uthreads ⟨th, h⟩).utState = .noState) :
    Plain t s (reaperScan th) [reaperScan (th + 1)]
  | ret (r : Ret N) : Plain t s (ret r) []

/-- What `uthread_switch` and `lwp_switch` do with thread `t` of LWP `l`. -/
inductive Switched (l : Fin L) (t : Fin N) (s : State N L) :
    Option (QueueId N) → Bool → Option (PmtxId N) → State N L → Prop
  | yield {s₁ : State N L} (hz : (s.uthreads t).utState ≠ .zombie)
    (hs₁ : saveBody t s = .ok s₁) :
    Switched l t s none true none (s₁.setLwp l ⟨.searching, none, true⟩)
  | queue (q : QueueId N) (p : PmtxId N) {s₁ s' : State N L} (hs₁ : utqueueEnqueue q t s = .ok s₁)
    (hs : SameCore (s₁.setLwp l ⟨.unlocking p, some t, true⟩) s') :
    Switched l t s (some q) false (some p) s'
  | leave (p : PmtxId N) :
    Switched l t s none false (some p) (s.setLwp l ⟨.unlocking p, some t, true⟩)
  | gone (saveonrq : Bool) (h : saveonrq = false ∨ (s.uthreads t).utState = .zombie) :
    Switched l t s none saveonrq none (s.setLwp l ⟨.searching, none, true⟩)

/-- What a successful instruction of `t` on LWP `l` can do. -/
inductive Effect (l : Fin L) (t : Fin N) (s : State N L) :
    Instr N → State N L → Code N → Prop
  | plain {i : Instr N} {s' : State N L} {new : Code N} (hp : Plain t s i new)
    (hs : SameCore s s') : Effect l t s i s' new
  | lock (p : PmtxId N) (hst : (s.pmtx p).status ≠ .destroyed) (ho : (s.pmtx p).owner = none) :
    Effect l t s (lock p) (s.setPmtx p { s.pmtx p with owner := some l }) []
  | unlock (p : PmtxId N) (hst : (s.pmtx p).status ≠ .destroyed)
    (ho : (s.pmtx p).errorcheck = true → (s.pmtx p).owner = some l) :
    Effect l t s (unlock p) (s.setPmtx p { s.pmtx p with owner := none }) []
  | nopreemptOn (h : (s.lwps l).masked = false ∨ (s.uthreads t).utNoPreemptCount ≠ 0)
    (hc : (s.uthreads t).utNoPreemptCount < intMax) :
    Effect l t s nopreemptOn ((s.setLwp l { s.lwps l with masked := true }).modUthread t
      fun u => { u with utNoPreemptCount := u.utNoPreemptCount + 1 }) []
  | nopreemptOff (masked : Bool) (hm : (s.lwps l).masked = true)
    (hc : (s.uthreads t).utNoPreemptCount ≠ 0)
    (h : masked = false ↔ (s.uthreads t).utNoPreemptCount = 1) :
    Effect l t s nopreemptOff ((s.setLwp l { s.lwps l with masked := masked }).modUthread t
      fun u => { u with utNoPreemptCount := u.utNoPreemptCount - 1 }) []
  | interruptLeave (hc : (s.uthreads t).utNoPreemptCount = 1) :
    Effect l t s interruptLeave ((s.setLwp l { s.lwps l with masked := false }).modUthread t
      fun u => { u with utNoPreemptCount := 0 }) []
  | swtch {q : Option (QueueId N)} {saveonrq : Bool} {m : Option (PmtxId N)} {s' : State N L}
    (hs : Switched l t s q saveonrq m s') : Effect l t s (swtch q saveonrq m) s' []
  | wake (u : Fin N) {s' : State N L} (h : (s.uthreads u).utState = .wait)
    (hs : uthreadRunqEnqueue u (s.setState u .runnable) = .ok s') :
    Effect l t s (wakeTest u) s' []
  | start (u : Fin N) (prio : ℤ) {s' : State N L} (h : (s.uthreads u).utState = .transition)
    (hs : uthreadRunqEnqueue u ((s.modUthread u fun x => { x with utPrio := prio }).setState u
      .runnable) = .ok s') :
    Effect l t s (startTest u prio) s' []
  | setprio (u : Fin N) (prio : ℤ) {s' : State N L} {new : Code N}
    (hs : s' = (s.modUthread u fun x => { x with utPrio := prio }) ∧
        (s.uthreads u).utState ≠ .runnable ∨
      (s.uthreads u).utState = .runnable ∧ uthreadRunqRequeue u (s.uthreads u).utPrio
        (s.modUthread u fun x => { x with utPrio := prio }) = .ok s')
    (hnew : new = [unlock .runqMtx, nopreemptOff] ++ uthreadYield ++ [ret (.setprio .ok)] ∨
      new = [unlock .runqMtx, nopreemptOff, ret (.setprio .ok)])
    (hne : (s.uthreads u).utPrio ≠ prio) :
    Effect l t s (setprioTest u prio) s' new
  | take (m : MtxId) {i : Instr N} {s' : State N L} {new : Code N}
    (h : (s.mtx m).mOwner = none) (hs : SameCore (s.setOwner m (some t)) s')
    (hnew : i = lockTest m ∧ new = [unlock (.mPmut m), nopreemptOff] ∨
      i = trylockTest m ∧ new = [unlock (.mPmut m), nopreemptOff, ret (.trylock true)]) :
    Effect l t s i s' new
  | block (m : MtxId) (h : (s.mtx m).mOwner ≠ none) :
    Effect l t s (lockTest m) (s.setState t .wait)
      (uthreadSwitch (some (.mWaiters m)) false (some (.mPmut m)) ++ [lockOwned m, nopreemptOff])
  | release (m : MtxId) {s' : State N L} (h : (s.queues (.mWaiters m)).tqWaiters = [])
    (hs : SameCore (s.setOwner m none) s') :
    Effect l t s (unlockTest m) s' [unlock (.mPmut m), nopreemptOff]
  | handOver (m : MtxId) (u : Fin N) {s₁ s' : State N L}
    (h : utqueueDequeue (.mWaiters m) s = some (u, s₁))
    (hs : SameCore (s₁.setOwner m (some u)) s') :
    Effect l t s (unlockTest m) s' ([unlock (.mPmut m)] ++ uthreadWake u ++ [nopreemptOff])
  | waitMark (c : CondId) {s' : State N L} (hs : SameCore (s.setState t .wait) s') :
    Effect l t s (waitMark c) s' []
  | signal (c : CondId) (u : Fin N) {i : Instr N} {s₁ s' : State N L} {new : Code N}
    (h : utqueueDequeue (.ucWaiters c) s = some (u, s₁)) (hs : SameCore s₁ s')
    (hnew : i = signalTest c ∧ new = uthreadWake u ∨
      i = broadcastTest c ∧ new = uthreadWake u ++ [broadcastTest c]) :
    Effect l t s i s' new
  | alloc (start : ℕ) (prio : ℤ) (i : Fin N) {s' : State N L}
    (h : allocWhile (fun i => (s.uthreads i).utState) start = some i)
    (hs : SameCore (s.setState i .transition) s') :
    Effect l t s (allocScan start prio) s' [unlock .uthreadsMtx, nopreemptOff, allocReturn i prio]
  | create (w : CreateStep) (tid : Fin N) (prio : ℤ) (hv : w = .ctx → Vacant s tid)
    (hl : w = .link → (s.uthreads tid).utLink = none)
    (hp : w = .pmut → (s.pmtx (.utPmut tid)).status ≠ .live ∧ (s.pmtx (.utPmut tid)).owner = none) :
    Effect l t s (createInit w tid prio) (createWrite tid s w) (createRest tid prio w)
  | exitDetached (u : Fin N) (status : ℤ) (h : (s.uthreads u).utDetached = true) :
    Effect l t s (exitTest u status)
      (s.modUthread u fun x => { x with utState := .zombie, utExit := status })
      ([makeReapable u] ++ deadCode u)
  | exitAlone (u : Fin N) (status : ℤ) (hd : (s.uthreads u).utDetached = false)
    (h : (s.queues (.utWaiter u)).tqWaiters = []) :
    Effect l t s (exitTest u status)
      (s.modUthread u fun x => { x with utState := .zombie, utExit := status })
      (uthreadMtxUnlock .reapMtx ++ deadCode u)
  | exitJoined (u w : Fin N) (status : ℤ) {s' : State N L} (hd : (s.uthreads u).utDetached = false)
    (h : utqueueDequeue (.utWaiter u)
      (s.modUthread u fun x => { x with utState := .zombie, utExit := status }) = some (w, s')) :
    Effect l t s (exitTest u status) s' (uthreadWake w ++ uthreadMtxUnlock .reapMtx ++ deadCode u)
  | makeReapable (u : Fin N) {s₁ s' : State N L} {new : Code N}
    (h : (s.uthreads u).utState = .zombie)
    (hs₁ : utqueueEnqueue .reapQueue u s = .ok s₁) (hs : SameCore s₁ s')
    (hnew : new = uthreadCondSignal .reapCond ++ [unlock (.utPmut u)] ++ uthreadMtxUnlock .reapMtx ++
      if u = t then uthreadSwitch none false none ++ [panicDead] else []) :
    Effect l t s (makeReapable u) s' new
  | joinWait (u : Fin N) (k : ℕ) {s₁ s' : State N L} (hq : (s.queues (.utWaiter u)).tqWaiters = [])
    (hd : (s.uthreads u).utDetached = false) (h : (s.uthreads u).utState ≠ .zombie)
    (hinit : (s.uthreads u).utWaiterInit = true)
    (hs₁ : utqueueEnqueue (.utWaiter u) t (s.setState t .wait) = .ok s₁) (hs : SameCore s₁ s') :
    Effect l t s (joinTest u k) s'
      (uthreadSwitch none false (some (.utPmut u)) ++ [lock (.utPmut u), joinClaim u k])
  | claim (u : Fin N) (k : ℕ) (h : (s.uthreads u).utState = .zombie) :
    Effect l t s (joinClaim u k) (s.modUthread u fun x => { x with utDetached := true })
      ([unlock (.utPmut u)] ++ uthreadMtxLock .reapMtx ++
        [lock (.utPmut u), joinReap u k (s.uthreads u).utExit])
  | detach (u : Fin N) (k : ℕ) {s' : State N L} {new : Code N}
    (hq : (s.queues (.utWaiter u)).tqWaiters = []) (hd : (s.uthreads u).utDetached = false)
    (hinit : (s.uthreads u).utWaiterInit = true)
    (hs : SameCore (s.modUthread u fun x => { x with utDetached := true }) s')
    (hnew : (s.uthreads u).utState = .zombie ∧ new = uthreadMtxLock .reapMtx ++ [detachReap u k] ∨
      (s.uthreads u).utState ≠ .zombie ∧
        new = [unlock (.utPmut u), nopreemptOff, ret (.detach u k .ok)]) :
    Effect l t s (detachTest u k) s' new
  | drain (u : Fin N) {s' : State N L} (h : utqueueDequeue .reapQueue s = some (u, s'))
    (hz : (s.uthreads u).utState = .zombie) :
    Effect l t s reaperDrain s'
      [lock (.utPmut u), unlock (.utPmut u), destroy .test u, reaperDrain]
  | destroy (d : DestroyStep) (u : Fin N) (hz : d = .test → (s.uthreads u).utState = .zombie)
    (hon : d = .stack → ∀ l, ¬ OnStack s l u)
    (ho : d = .pmut → (s.pmtx (.utPmut u)).owner = none) :
    Effect l t s (destroy d u) (destroyWrite u s d) (destroyRest u d)

/-! ## The list is complete -/

@[simp] theorem except_bind_ok {ε α β : Type} {x : Except ε α} {f : α → Except ε β} {b : β} :
    (x >>= f) = .ok b ↔ ∃ a, x = .ok a ∧ f a = .ok b := by
  cases x <;> simp [bind, Except.bind]

@[simp] theorem except_map_ok {ε α β : Type} {x : Except ε α} {f : α → β} {b : β} :
    (f <$> x) = .ok b ↔ ∃ a, x = .ok a ∧ f a = b := by
  cases x <;> simp [Functor.map, Except.map]

@[simp] theorem except_pure_ok {ε α : Type} {a b : α} :
    (pure a : Except ε α) = .ok b ↔ a = b := by
  simp [pure, Except.pure]

@[simp] theorem check_ok {c : Bool} {a : Assertion} {u : Unit} : check c a = .ok u ↔ c = true := by
  unfold check
  split <;> simp_all

variable {s s' : State N L} {l : Fin L} {t : Fin N} {i : Instr N} {cs new : Code N} {ok : Bool}

theorem execSwtch_effect {q : Option (QueueId N)} {saveonrq : Bool} {m : Option (PmtxId N)}
    (hok : OkSwitch t q saveonrq m cs) (h : execSwtch l t q saveonrq m s = .ok (s', new)) :
    Effect l t s (swtch q saveonrq m) s' new := by
  unfold execSwtch at h
  cases hok with
  | yield =>
    by_cases hz : (s.uthreads t).utState = .zombie
    · simp [hz] at h
      obtain ⟨-, -, rfl, rfl⟩ := h
      exact .swtch (.gone true (.inr hz))
    · simp [hz] at h
      obtain ⟨-, -, s₁, hs₁, rfl, rfl⟩ := h
      exact .swtch (.yield hz hs₁)
  | mutex =>
    simp at h
    obtain ⟨-, -, s₁, hs₁, rfl, rfl⟩ := h
    exact .swtch (.queue _ _ hs₁ (by constructor <;> rfl))
  | cond =>
    simp at h
    obtain ⟨-, -, s₁, hs₁, rfl, rfl⟩ := h
    exact .swtch (.queue _ _ hs₁ .rfl)
  | join =>
    simp at h
    obtain ⟨-, -, rfl, rfl⟩ := h
    exact .swtch (.leave _)
  | exit =>
    simp at h
    obtain ⟨-, -, rfl, rfl⟩ := h
    exact .swtch (.leave _)
  | reaped =>
    simp at h
    obtain ⟨-, -, rfl, rfl⟩ := h
    exact .swtch (.gone false (.inl rfl))

theorem execSetprioTest_effect {u : Fin N} {prio : ℤ}
    (h : execSetprioTest t u prio s = .ok (s', new)) : Effect l t s (setprioTest u prio) s' new := by
  obtain ⟨⟨s₁, r⟩, hb, h⟩ := except_bind_ok.1 h
  have hres : (s₁ = s ∧ (r = .inactive ∨ r = .unchanged)) ∨ ((∃ y, r = .changed y) ∧
      (s.uthreads u).utPrio ≠ prio ∧
      (s₁ = s.modUthread u (fun x => { x with utPrio := prio }) ∧
        (s.uthreads u).utState ≠ .runnable ∨
      (s.uthreads u).utState = .runnable ∧ uthreadRunqRequeue u (s.uthreads u).utPrio
        (s.modUthread u fun x => { x with utPrio := prio }) = .ok s₁)) := by
    unfold setprioBody at hb
    split at hb
    · simp only [Except.ok.injEq, Prod.mk.injEq] at hb
      exact .inl ⟨hb.1.symm, .inl hb.2.symm⟩
    · split at hb
      · simp only [Except.ok.injEq, Prod.mk.injEq] at hb
        exact .inl ⟨hb.1.symm, .inr hb.2.symm⟩
      · simp only [State.modUthread_uthreads, if_true] at hb
        split at hb <;> obtain ⟨s₂, hb₂, hb⟩ := except_bind_ok.1 hb <;>
          simp only [except_pure_ok, Prod.mk.injEq] at hb <;> obtain ⟨rfl, rfl⟩ := hb <;>
          refine .inr ⟨⟨_, rfl⟩, ‹_›, ?_⟩
        · exact .inr ⟨‹_›, hb₂⟩
        · exact .inl ⟨(Except.ok.inj hb₂).symm, ‹_›⟩
  rcases hres with ⟨rfl, rfl | rfl⟩ | ⟨⟨y, rfl⟩, hne, hs⟩
  · simp only [except_pure_ok, Prod.mk.injEq] at h
    obtain ⟨rfl, rfl⟩ := h
    exact .plain (.setprio u prio .einval) .rfl
  · simp only [except_pure_ok, Prod.mk.injEq] at h
    obtain ⟨rfl, rfl⟩ := h
    exact .plain (.setprio u prio .ok) .rfl
  · cases y with
    | true =>
      simp only [except_pure_ok, Prod.mk.injEq] at h
      obtain ⟨rfl, rfl⟩ := h
      exact .setprio u prio hs (.inl rfl) hne
    | false =>
      simp only [except_pure_ok, Prod.mk.injEq] at h
      obtain ⟨rfl, rfl⟩ := h
      exact .setprio u prio hs (.inr rfl) hne

theorem execExitTest_effect {u : Fin N} {status : ℤ}
    (h : execExitTest u status s = .ok (s', new)) : Effect l t s (exitTest u status) s' new := by
  simp only [execExitTest, State.modUthread_uthreads, if_true] at h
  split at h
  · rename_i hd
    simp only [except_pure_ok, Prod.mk.injEq] at h
    obtain ⟨rfl, rfl⟩ := h
    exact .exitDetached u status hd
  · rename_i hd
    obtain ⟨-, -, h⟩ := except_bind_ok.1 h
    split at h
    · rename_i hq
      simp only [except_pure_ok, Prod.mk.injEq] at h
      obtain ⟨rfl, rfl⟩ := h
      exact .exitAlone u status (by simpa using hd) (by simpa using utqueueDequeue_none.1 hq)
    · rename_i w s₁ hq
      simp only [except_pure_ok, Prod.mk.injEq] at h
      obtain ⟨rfl, rfl⟩ := h
      exact .exitJoined u w status (by simpa using hd) hq

theorem execMakeReapable_effect {u : Fin N}
    (h : execMakeReapable l t u s = .ok (s', new)) : Effect l t s (makeReapable u) s' new := by
  obtain ⟨-, -, h⟩ := except_bind_ok.1 h
  split at h
  · rename_i hz
    simp only [except_pure_ok, Prod.mk.injEq] at h
    obtain ⟨rfl, rfl⟩ := h
    exact .plain (.reapableNot u hz) .rfl
  · rename_i hz
    obtain ⟨s₁, hs₁, h⟩ := except_bind_ok.1 h
    refine Effect.makeReapable u (by simpa using hz) hs₁ ?_ ?_
    · split at h <;> simp only [except_pure_ok, Prod.mk.injEq] at h <;>
        exact h.1 ▸ by constructor <;> rfl
    · split at h <;> rename_i hu <;> simp only [except_pure_ok, Prod.mk.injEq] at h <;>
        simp [← h.2, hu]

theorem execJoinTest_effect {u : Fin N} {k : ℕ}
    (h : execJoinTest t u k s = .ok (s', new)) : Effect l t s (joinTest u k) s' new := by
  simp only [execJoinTest] at h
  obtain ⟨⟨⟩, hinit, h⟩ := except_bind_ok.1 h
  rw [check_ok] at hinit
  split at h
  · rename_i hq
    simp only [except_pure_ok, Prod.mk.injEq] at h
    obtain ⟨rfl, rfl⟩ := h
    exact .plain (.joinFail u k (.inl (by simpa using hq))) (by constructor <;> rfl)
  rename_i hq
  split at h
  · rename_i hd
    simp only [except_pure_ok, Prod.mk.injEq] at h
    obtain ⟨rfl, rfl⟩ := h
    exact .plain (.joinFail u k (.inr hd)) (by constructor <;> rfl)
  rename_i hd
  have hq' : (s.queues (.utWaiter u)).tqWaiters = [] := by simpa using hq
  have hd' : (s.uthreads u).utDetached = false := by simpa using hd
  split at h
  · rename_i hz
    obtain ⟨s₁, hs₁, h⟩ := except_bind_ok.1 h
    simp only [except_pure_ok, Prod.mk.injEq] at h
    obtain ⟨rfl, rfl⟩ := h
    obtain ⟨hl, rfl⟩ := utqueueEnqueue_ok hs₁
    have hl' : ((s.setState t .wait).uthreads t).utLink = none := hl
    have hs₂ : utqueueEnqueue (.utWaiter u) t (s.setState t .wait) =
        .ok (((s.setState t .wait).setQueue (.utWaiter u)
          (((s.setState t .wait).queues (.utWaiter u)).enqueue t)).modUthread t
            fun x => { x with utLink := some (.utWaiter u) }) := by
      rw [utqueueEnqueue, if_pos hl']
    exact .joinWait u k hq' hd' hz hinit hs₂ (by constructor <;> rfl)
  · rename_i hz
    simp only [except_pure_ok, Prod.mk.injEq] at h
    obtain ⟨rfl, rfl⟩ := h
    exact .plain (.joinZombie u k hq' hd' (by simpa using hz)) (by constructor <;> rfl)

theorem execDetachTest_effect {u : Fin N} {k : ℕ}
    (h : execDetachTest u k s = .ok (s', new)) : Effect l t s (detachTest u k) s' new := by
  simp only [execDetachTest] at h
  obtain ⟨⟨⟩, hinit, h⟩ := except_bind_ok.1 h
  rw [check_ok] at hinit
  split at h
  · rename_i hq
    simp only [except_pure_ok, Prod.mk.injEq] at h
    obtain ⟨rfl, rfl⟩ := h
    exact .plain (.detachFail u k (.inl (by simpa using hq))) (by constructor <;> rfl)
  rename_i hq
  split at h
  · rename_i hd
    simp only [except_pure_ok, Prod.mk.injEq] at h
    obtain ⟨rfl, rfl⟩ := h
    exact .plain (.detachFail u k (.inr hd)) (by constructor <;> rfl)
  rename_i hd
  have hq' : (s.queues (.utWaiter u)).tqWaiters = [] := by simpa using hq
  have hd' : (s.uthreads u).utDetached = false := by simpa using hd
  simp only [State.modUthread_uthreads, if_true] at h
  split at h
  · rename_i hz
    simp only [except_pure_ok, Prod.mk.injEq] at h
    obtain ⟨rfl, rfl⟩ := h
    exact .detach u k hq' hd' hinit (by constructor <;> rfl) (.inl ⟨hz, rfl⟩)
  · rename_i hz
    simp only [except_pure_ok, Prod.mk.injEq] at h
    obtain ⟨rfl, rfl⟩ := h
    exact .detach u k hq' hd' hinit (by constructor <;> rfl) (.inr ⟨hz, rfl⟩)

theorem execCreateInit_effect {w : CreateStep} {u : Fin N} {prio : ℤ} (hv : w = .ctx → Vacant s u)
    (h : execCreateInit w u prio s = .ok (s', new)) : Effect l t s (createInit w u prio) s' new := by
  unfold execCreateInit at h
  split_ifs at h with hl hp
  simp only [Except.ok.injEq, Prod.mk.injEq] at h
  obtain ⟨rfl, rfl⟩ := h
  refine .create w u prio hv (fun hw => by simpa [hw] using hl) fun hw => ?_
  simpa [hw] using hp

theorem execDestroy_effect {d : DestroyStep} {u : Fin N} (h : execDestroy d u s = .ok (s', new)) :
    Effect l t s (destroy d u) s' new := by
  obtain ⟨_, hz, h⟩ := except_bind_ok.1 h
  split_ifs at h with hon ho
  simp only [Except.ok.injEq, Prod.mk.injEq] at h
  obtain ⟨rfl, rfl⟩ := h
  refine .destroy d u (fun hd => ?_) (fun hd => by simpa [hd] using hon) fun hd => ?_
  · simpa [hd] using check_ok.1 hz
  · simpa [hd] using ho

/-- **The list of effects is complete.** -/
theorem exec_effect (hok : Ok t i cs) (hv : ∀ u prio, i = createInit .ctx u prio → Vacant s u)
    (h : exec l t ok i s = .ok (s', new)) : Effect l t s i s' new := by
  cases i with
  | lock p =>
    obtain ⟨s₁, hp, h⟩ := except_bind_ok.1 h
    simp only [except_pure_ok, Prod.mk.injEq] at h
    obtain ⟨rfl, rfl⟩ := h
    unfold pthreadMutexLock at hp
    split_ifs at hp with hst ho
    rw [← Except.ok.inj hp]
    exact .lock p hst ho
  | unlock p =>
    obtain ⟨s₁, hp, h⟩ := except_bind_ok.1 h
    simp only [except_pure_ok, Prod.mk.injEq] at h
    obtain ⟨rfl, rfl⟩ := h
    unfold pthreadMutexUnlock at hp
    split_ifs at hp with hst ho
    rw [← Except.ok.inj hp]
    exact .unlock p hst fun he => by_contra fun hne => ho ⟨he, hne⟩
  | nopreemptOn =>
    simp only [exec, execNopreemptOn, except_bind_ok, check_ok, except_pure_ok, Prod.mk.injEq] at h
    obtain ⟨-, hm, -, hc, rfl, rfl⟩ := h
    exact .nopreemptOn (by simpa using hm) (of_decide_eq_true hc)
  | nopreemptOff =>
    simp only [exec, execNopreemptOff, except_bind_ok, check_ok, State.modUthread_uthreads,
      if_true] at h
    obtain ⟨-, hm, -, hc, h⟩ := h
    have hc' : (s.uthreads t).utNoPreemptCount ≠ 0 := by simpa using hc
    split at h
    · rename_i h0
      simp only [except_pure_ok, Prod.mk.injEq] at h
      obtain ⟨rfl, rfl⟩ := h
      exact .nopreemptOff false hm hc' ⟨fun _ => by omega, fun _ => rfl⟩
    · rename_i h0
      simp only [except_pure_ok, Prod.mk.injEq] at h
      obtain ⟨rfl, rfl⟩ := h
      have heff := Effect.nopreemptOff (l := l) (t := t) (s := s) true hm hc'
        ⟨fun e => absurd e (by decide), fun e => absurd (by omega) h0⟩
      have hset : s.setLwp l { s.lwps l with masked := true } = s := by
        rw [← hm]; simp [State.setLwp]
      rw [hset] at heff
      exact heff
  | swtch q saveonrq m => exact execSwtch_effect hok h
  | resume =>
    simp only [exec] at h
    split_ifs at h with hz
    simp only [Except.ok.injEq, Prod.mk.injEq] at h
    obtain ⟨rfl, rfl⟩ := h
    exact .plain (.resume hz) .rfl
  | yieldAssert =>
    simp only [exec, except_bind_ok, check_ok, except_pure_ok, Prod.mk.injEq] at h
    obtain ⟨-, -, -, hl, rfl, rfl⟩ := h
    exact .plain (.yieldAssert (by simpa using hl)) .rfl
  | interruptLeave =>
    simp only [exec, execInterruptLeave, except_bind_ok, check_ok, except_pure_ok,
      Prod.mk.injEq] at h
    obtain ⟨-, hc, -, -, rfl, rfl⟩ := h
    exact .interruptLeave (by simpa using hc)
  | wakeAssert u =>
    simp only [exec, except_bind_ok, check_ok, except_pure_ok, Prod.mk.injEq] at h
    obtain ⟨-, hc, rfl, rfl⟩ := h
    exact .plain (.wakeAssert u (by simpa using hc)) .rfl
  | wakeTest u =>
    simp only [exec, except_bind_ok, except_pure_ok, Prod.mk.injEq] at h
    obtain ⟨s₁, hw, rfl, rfl⟩ := h
    unfold wakeBody at hw
    split at hw
    · exact .wake u ‹_› hw
    · rw [← Except.ok.inj hw]
      exact .plain (.wakeDrop u ‹_›) .rfl
  | setprioTest u prio => exact execSetprioTest_effect h
  | startTest u prio =>
    simp only [exec, except_bind_ok, except_pure_ok, Prod.mk.injEq, startBody] at h
    obtain ⟨s₁, hw, rfl, rfl⟩ := h
    split at hw
    · rename_i ht
      exact .start u prio (by simpa using ht) hw
    · cases hw
  | lockTest m =>
    simp only [exec, execLockTest] at h
    split at h
    · rename_i ho
      simp only [Except.ok.injEq, Prod.mk.injEq] at h
      obtain ⟨rfl, rfl⟩ := h
      exact .take m ho (by constructor <;> rfl) (.inl ⟨rfl, rfl⟩)
    · rename_i ho
      simp only [Except.ok.injEq, Prod.mk.injEq] at h
      obtain ⟨rfl, rfl⟩ := h
      exact .block m ho
  | lockOwned m =>
    simp only [exec, except_bind_ok, check_ok, except_pure_ok, Prod.mk.injEq] at h
    obtain ⟨-, hc, rfl, rfl⟩ := h
    exact .plain (.lockOwned m (by simpa using hc)) (by constructor <;> rfl)
  | trylockTest m =>
    simp only [exec, execTrylockTest] at h
    split at h
    · rename_i ho
      simp only [Except.ok.injEq, Prod.mk.injEq] at h
      obtain ⟨rfl, rfl⟩ := h
      exact .take m ho (by constructor <;> rfl) (.inr ⟨rfl, rfl⟩)
    · rename_i ho
      simp only [Except.ok.injEq, Prod.mk.injEq] at h
      obtain ⟨rfl, rfl⟩ := h
      exact .plain (.trylockFail m ho) .rfl
  | unlockTest m =>
    simp only [exec, execUnlockTest] at h
    split at h
    · rename_i hq
      simp only [Except.ok.injEq, Prod.mk.injEq] at h
      obtain ⟨rfl, rfl⟩ := h
      exact .release m (utqueueDequeue_none.1 hq) (by constructor <;> rfl)
    · rename_i u s₁ hq
      simp only [Except.ok.injEq, Prod.mk.injEq] at h
      obtain ⟨rfl, rfl⟩ := h
      exact .handOver m u hq (by constructor <;> rfl)
  | waitMark c =>
    simp only [exec, Except.ok.injEq, Prod.mk.injEq] at h
    obtain ⟨rfl, rfl⟩ := h
    exact .waitMark c (by constructor <;> rfl)
  | waitDone c =>
    simp only [exec, except_bind_ok, check_ok, except_pure_ok, Prod.mk.injEq] at h
    obtain ⟨-, hc, rfl, rfl⟩ := h
    exact .plain (.waitDone c (by simpa using hc)) (by constructor <;> rfl)
  | signalTest c =>
    simp only [exec, execSignalTest] at h
    split at h
    · rename_i hq
      simp only [Except.ok.injEq, Prod.mk.injEq] at h
      obtain ⟨rfl, rfl⟩ := h
      exact .plain (.signalNone c (utqueueDequeue_none.1 hq)) .rfl
    · rename_i u s₁ hq
      simp only [Except.ok.injEq, Prod.mk.injEq] at h
      obtain ⟨rfl, rfl⟩ := h
      exact .signal c u hq (by constructor <;> rfl) (.inl ⟨rfl, rfl⟩)
  | broadcastTest c =>
    simp only [exec, execBroadcastTest] at h
    split at h
    · rename_i hq
      simp only [Except.ok.injEq, Prod.mk.injEq] at h
      obtain ⟨rfl, rfl⟩ := h
      exact .plain (.broadcastNone c (utqueueDequeue_none.1 hq)) .rfl
    · rename_i u s₁ hq
      simp only [Except.ok.injEq, Prod.mk.injEq] at h
      obtain ⟨rfl, rfl⟩ := h
      exact .signal c u hq (by constructor <;> rfl) (.inr ⟨rfl, rfl⟩)
  | allocStart prio =>
    simp only [exec, Except.ok.injEq, Prod.mk.injEq] at h
    obtain ⟨rfl, rfl⟩ := h
    exact .plain (.allocStart prio) .rfl
  | allocScan start prio =>
    simp only [exec, execAllocScan] at h
    split at h
    · rename_i j hj
      simp only [Except.ok.injEq, Prod.mk.injEq] at h
      obtain ⟨rfl, rfl⟩ := h
      exact .alloc start prio j hj (by constructor <;> rfl)
    · rename_i hj
      simp only [Except.ok.injEq, Prod.mk.injEq] at h
      obtain ⟨rfl, rfl⟩ := h
      exact .plain (.allocNone start prio hj) .rfl
  | allocReturn j prio =>
    simp only [exec, execAllocReturn] at h
    split at h
    · rename_i hp
      simp only [Except.ok.injEq, Prod.mk.injEq] at h
      obtain ⟨rfl, rfl⟩ := h
      exact .plain (.allocReturnNone j prio hp) (by constructor <;> rfl)
    · rename_i tid hp
      simp only [Except.ok.injEq, Prod.mk.injEq] at h
      obtain ⟨rfl, rfl⟩ := h
      exact .plain (.allocReturn j tid prio hp) (by constructor <;> rfl)
  | allocStack tid prio =>
    simp only [exec, execAllocStack] at h
    split at h
    · simp only [Except.ok.injEq, Prod.mk.injEq] at h
      obtain ⟨rfl, rfl⟩ := h
      exact .plain (.allocStack tid prio) .rfl
    · simp only [Except.ok.injEq, Prod.mk.injEq] at h
      obtain ⟨rfl, rfl⟩ := h
      exact .plain (.allocStackFail tid prio) .rfl
  | createInit w tid prio => exact execCreateInit_effect (fun hw => hv tid prio (by rw [hw])) h
  | threadStart =>
    simp only [exec, except_bind_ok, check_ok, except_pure_ok, Prod.mk.injEq] at h
    obtain ⟨-, -, rfl, rfl⟩ := h
    exact .plain .threadStart .rfl
  | exitTest u status => exact execExitTest_effect h
  | makeReapable u => exact execMakeReapable_effect h
  | joinTest u k => exact execJoinTest_effect h
  | joinClaim u k =>
    simp only [exec, execJoinClaim] at h
    split at h
    · rename_i hz
      simp only [Except.ok.injEq, Prod.mk.injEq] at h
      obtain ⟨rfl, rfl⟩ := h
      exact .plain (.claimFail u k hz) .rfl
    · rename_i hz
      simp only [Except.ok.injEq, Prod.mk.injEq] at h
      obtain ⟨rfl, rfl⟩ := h
      exact .claim u k (by simpa using hz)
  | joinReap u k rv =>
    simp only [exec, execJoinReap] at h
    split at h
    · rename_i hz
      simp only [Except.ok.injEq, Prod.mk.injEq] at h
      obtain ⟨rfl, rfl⟩ := h
      exact .plain (.reapLate u k rv hz) .rfl
    · rename_i hz
      simp only [Except.ok.injEq, Prod.mk.injEq] at h
      obtain ⟨rfl, rfl⟩ := h
      exact .plain (.reap u k rv (by simpa using hz)) .rfl
  | detachTest u k => exact execDetachTest_effect h
  | detachReap u k =>
    simp only [exec, execDetachReap] at h
    split at h
    · rename_i hz
      simp only [Except.ok.injEq, Prod.mk.injEq] at h
      obtain ⟨rfl, rfl⟩ := h
      exact .plain (.detachLate u k hz) .rfl
    · rename_i hz
      simp only [Except.ok.injEq, Prod.mk.injEq] at h
      obtain ⟨rfl, rfl⟩ := h
      exact .plain (.detachZombie u k (by simpa using hz)) .rfl
  | reaperWait =>
    simp only [exec, execReaperWait] at h
    split at h
    · rename_i hq
      simp only [Except.ok.injEq, Prod.mk.injEq] at h
      obtain ⟨rfl, rfl⟩ := h
      exact .plain (.reaperWait (by simpa using hq)) .rfl
    · rename_i hq
      simp only [Except.ok.injEq, Prod.mk.injEq] at h
      obtain ⟨rfl, rfl⟩ := h
      exact .plain (.reaperGo (by simpa using hq)) .rfl
  | reaperDrain =>
    simp only [exec, execReaperDrain] at h
    split at h
    · rename_i hq
      simp only [Except.ok.injEq, Prod.mk.injEq] at h
      obtain ⟨rfl, rfl⟩ := h
      exact .plain (.reaperDrained (utqueueDequeue_none.1 hq)) .rfl
    · rename_i u s₁ hq
      obtain ⟨_, hz, h⟩ := except_bind_ok.1 h
      simp only [except_pure_ok, Prod.mk.injEq] at h
      obtain ⟨rfl, rfl⟩ := h
      refine .drain u hq ?_
      obtain ⟨x, -, rfl⟩ := utqueueDequeue_some hq
      simpa using check_ok.1 hz
  | destroy d u => exact execDestroy_effect h
  | reaperScan th =>
    simp only [exec, execReaperScan] at h
    split_ifs at h with hth hst
    · simp only [Except.ok.injEq, Prod.mk.injEq] at h
      obtain ⟨rfl, rfl⟩ := h
      exact .plain (.scanFound th hth hst.1 hst.2) .rfl
    · simp only [Except.ok.injEq, Prod.mk.injEq] at h
      obtain ⟨rfl, rfl⟩ := h
      exact .plain (.scanNext th hth fun hr => by_contra fun hne => hst ⟨hr, hne⟩) .rfl
  | panicDead => cases h
  | ret r =>
    simp only [exec, Except.ok.injEq, Prod.mk.injEq] at h
    obtain ⟨rfl, rfl⟩ := h
    exact .plain (.ret r) (by constructor <;> rfl)

/-! ## The code in front -/

/-- The instructions that put an instruction in front of the code. -/
@[simp] def Instr.before : Instr N → Instr N → Prop
  | interruptLeave, _ | setprioTest _ _, _ | trylockTest _, _ | allocStart _, _ | threadStart, _
  | exitTest _ _, _ | joinTest _ _, _ | detachTest _ _, _ | ret (.badId _), _ => False
  | yieldAssert, i => ∃ u prio, i = setprioTest u prio
  | swtch (some (.mWaiters m)) _ _, i => i = lockTest m
  | swtch (some (.ucWaiters c)) _ _, i => c = .reapCond ∧ i = reaperWait
  | startTest u prio, i => i = createInit .count u prio
  | lockTest m, _ | unlockTest m, _ => m = .reapMtx
  | lockOwned m, i => i = lockTest m
  | waitMark c, i | waitDone c, i => c = .reapCond ∧ i = reaperWait
  | signalTest c, i => c = .reapCond ∧ ∃ u, i = makeReapable u
  | broadcastTest c, i => i = broadcastTest c
  | allocScan _ prio, i => i = allocStart prio
  | allocReturn _ prio, i => ∃ start, i = allocScan start prio
  | allocStack _ prio, i => ∃ j, i = allocReturn j prio
  | createInit w u prio, i =>
    w = .ctx ∧ i = allocStack u prio ∨
      ∃ w', i = createInit w' u prio ∧ createInit w u prio ∈ createRest u prio w'
  | makeReapable u, i =>
    (∃ status, i = exitTest u status) ∨ (∃ k rv, i = joinReap u k rv) ∨ ∃ k, i = detachReap u k
  | joinClaim u k, i => i = joinTest u k
  | joinReap u k _, i => i = joinClaim u k
  | detachReap u k, i => i = detachTest u k
  | reaperWait, i => i = reaperWait ∨ ∃ th, i = reaperScan th
  | reaperDrain, i => i = reaperWait ∨ i = reaperDrain
  | reaperScan _, i => i = reaperDrain ∨ ∃ th, i = reaperScan th
  | destroy d u, i =>
    d = .test ∧ i = reaperDrain ∨ ∃ d', i = destroy d' u ∧ destroy d u ∈ destroyRest u d'
  | _, _ => True

theorem Plain.before (h : Plain t s i new) : ∀ j ∈ new, j.before i := by
  cases h <;> simp [uthreadMtxUnlock, uthreadCondWait, uthreadMtxLock, uthreadSwitch]

/-- **Where the code in front comes from.** -/
theorem effect_before (he : Effect l t s i s' new) : ∀ j ∈ new, j.before i := by
  cases he with
  | plain hp => exact hp.before
  | setprio u prio hs hnew => rcases hnew with rfl | rfl <;> simp [uthreadYield, uthreadSwitch]
  | take m ho hs hnew => rcases hnew with ⟨rfl, rfl⟩ | ⟨rfl, rfl⟩ <;> simp
  | signal c u hq hs hnew => rcases hnew with ⟨rfl, rfl⟩ | ⟨rfl, rfl⟩ <;> simp [uthreadWake]
  | detach u k hq hd hinit hs hnew => rcases hnew with ⟨-, rfl⟩ | ⟨-, rfl⟩ <;> simp [uthreadMtxLock]
  | makeReapable u hz hs₁ hs hnew =>
    subst hnew
    split_ifs <;> simp [uthreadCondSignal, uthreadMtxUnlock, uthreadSwitch]
  | create w => cases w <;> simp [createRest, uthreadStartonrunq]
  | destroy d => cases d <;> simp [destroyRest]
  | _ => simp [uthreadSwitch, uthreadWake, deadCode, uthreadMtxUnlock, uthreadMtxLock]

/-! ## The effects of single instructions -/

/-- The instructions that put nothing in front. -/
@[simp] def Instr.straight : Instr N → Bool
  | lock _ | unlock _ | nopreemptOn | nopreemptOff | swtch _ _ _ | wakeAssert _ | wakeTest _
  | waitMark _ => true
  | _ => false

theorem effect_straight (he : Effect l t s i s' new) (hi : i.straight = true) : new = [] := by
  cases he with
  | plain hp => cases hp <;> first | rfl | cases hi
  | lock | unlock | nopreemptOn | nopreemptOff | swtch | wake | waitMark => rfl
  | take m ho hs hnew => rcases hnew with ⟨rfl, -⟩ | ⟨rfl, -⟩ <;> cases hi
  | signal c u hq hs hnew => rcases hnew with ⟨rfl, -⟩ | ⟨rfl, -⟩ <;> cases hi
  | _ => cases hi

theorem effect_switch {q : Option (QueueId N)} {sv : Bool} {m : Option (PmtxId N)}
    (he : Effect l t s (swtch q sv m) s' new) : new = [] ∧ Switched l t s q sv m s' := by
  cases he with
  | plain hp => cases hp
  | take _ _ _ hnew => rcases hnew with ⟨h, -⟩ | ⟨h, -⟩ <;> cases h
  | signal _ _ _ _ hnew => rcases hnew with ⟨h, -⟩ | ⟨h, -⟩ <;> cases h
  | swtch hs => exact ⟨rfl, hs⟩

theorem effect_resume (he : Effect l t s resume s' new) : new = [] := by
  cases he with
  | plain hp => cases hp; rfl
  | take _ _ _ hnew => rcases hnew with ⟨h, -⟩ | ⟨h, -⟩ <;> cases h
  | signal _ _ _ _ hnew => rcases hnew with ⟨h, -⟩ | ⟨h, -⟩ <;> cases h

theorem effect_lockOwned {m : MtxId} (he : Effect l t s (lockOwned m) s' new) :
    new = [] ∧ (s.mtx m).mOwner = some t := by
  cases he with
  | plain hp =>
    cases hp with
    | lockOwned _ ho => exact ⟨rfl, ho⟩
  | take _ _ _ hnew => rcases hnew with ⟨h, -⟩ | ⟨h, -⟩ <;> cases h
  | signal _ _ _ _ hnew => rcases hnew with ⟨h, -⟩ | ⟨h, -⟩ <;> cases h

/-- Only a thread that finds a uthread mutex taken is going to wait for one. -/
theorem effect_block {m : MtxId} {sv : Bool} {r : Option (PmtxId N)} (he : Effect l t s i s' new)
    (hm : swtch (some (.mWaiters m)) sv r ∈ new) : i = lockTest m ∧ (s.mtx m).mOwner ≠ none := by
  obtain rfl : i = lockTest m := effect_before he _ hm
  refine ⟨rfl, ?_⟩
  cases he with
  | plain hp => cases hp
  | take _ _ _ h => rcases h with ⟨-, rfl⟩ | ⟨-, rfl⟩ <;> simp at hm
  | signal _ _ _ _ h => rcases h with ⟨h, -⟩ | ⟨h, -⟩ <;> cases h
  | block _ ho => exact ho

theorem effect_lock {p : PmtxId N} (he : Effect l t s (lock p) s' new) :
    new = [] ∧ (s.pmtx p).status ≠ .destroyed ∧ (s.pmtx p).owner = none ∧
      s' = s.setPmtx p { s.pmtx p with owner := some l } := by
  cases he with
  | plain hp => cases hp
  | take _ _ _ hnew => rcases hnew with ⟨h, -⟩ | ⟨h, -⟩ <;> cases h
  | signal _ _ _ _ hnew => rcases hnew with ⟨h, -⟩ | ⟨h, -⟩ <;> cases h
  | lock _ hst ho => exact ⟨rfl, hst, ho, rfl⟩

theorem effect_unlock {p : PmtxId N} (he : Effect l t s (unlock p) s' new) :
    new = [] ∧ ((s.pmtx p).errorcheck = true → (s.pmtx p).owner = some l) ∧
      s' = s.setPmtx p { s.pmtx p with owner := none } := by
  cases he with
  | plain hp => cases hp
  | take _ _ _ hnew => rcases hnew with ⟨h, -⟩ | ⟨h, -⟩ <;> cases h
  | signal _ _ _ _ hnew => rcases hnew with ⟨h, -⟩ | ⟨h, -⟩ <;> cases h
  | unlock _ _ ho => exact ⟨rfl, ho, rfl⟩

theorem effect_create {w : CreateStep} {u : Fin N} {prio : ℤ}
    (he : Effect l t s (createInit w u prio) s' new) :
    s' = createWrite u s w ∧ new = createRest u prio w ∧ (w = .ctx → Vacant s u) ∧
      (w = .link → (s.uthreads u).utLink = none) ∧
      (w = .pmut → (s.pmtx (.utPmut u)).status ≠ .live ∧ (s.pmtx (.utPmut u)).owner = none) := by
  cases he with
  | plain hp => cases hp
  | take _ _ _ hnew => rcases hnew with ⟨h, -⟩ | ⟨h, -⟩ <;> cases h
  | signal _ _ _ _ hnew => rcases hnew with ⟨h, -⟩ | ⟨h, -⟩ <;> cases h
  | create _ _ _ hv hl hp => exact ⟨rfl, rfl, hv, hl, hp⟩

/-- Only a thread in transition is started. -/
theorem effect_start {u : Fin N} {prio : ℤ} (he : Effect l t s (startTest u prio) s' new) :
    (s.uthreads u).utState = .transition := by
  cases he with
  | plain hp => cases hp
  | take _ _ _ hnew => rcases hnew with ⟨h, -⟩ | ⟨h, -⟩ <;> cases h
  | signal _ _ _ _ hnew => rcases hnew with ⟨h, -⟩ | ⟨h, -⟩ <;> cases h
  | start _ _ h => exact h

theorem effect_destroy {d : DestroyStep} {u : Fin N} (he : Effect l t s (destroy d u) s' new) :
    s' = destroyWrite u s d ∧ new = destroyRest u d ∧
      (d = .stack → ∀ k, ¬ OnStack s k u) ∧ (d = .pmut → (s.pmtx (.utPmut u)).owner = none) := by
  cases he with
  | plain hp => cases hp
  | take _ _ _ hnew => rcases hnew with ⟨h, -⟩ | ⟨h, -⟩ <;> cases h
  | signal _ _ _ _ hnew => rcases hnew with ⟨h, -⟩ | ⟨h, -⟩ <;> cases h
  | destroy _ _ hz hon ho => exact ⟨rfl, rfl, hon, ho⟩

/-- The counter cannot be at zero where it is decremented. -/
theorem effect_off (he : Effect l t s nopreemptOff s' new) :
    (s.uthreads t).utNoPreemptCount ≠ 0 := by
  cases he with
  | plain hp => cases hp
  | take _ _ _ hnew => rcases hnew with ⟨h, -⟩ | ⟨h, -⟩ <;> cases h
  | signal _ _ _ _ hnew => rcases hnew with ⟨h, -⟩ | ⟨h, -⟩ <;> cases h
  | nopreemptOff _ _ h => exact h

theorem effect_leave (he : Effect l t s interruptLeave s' new) :
    (s.uthreads t).utNoPreemptCount = 1 := by
  cases he with
  | plain hp => cases hp
  | take _ _ _ hnew => rcases hnew with ⟨h, -⟩ | ⟨h, -⟩ <;> cases h
  | signal _ _ _ _ hnew => rcases hnew with ⟨h, -⟩ | ⟨h, -⟩ <;> cases h
  | interruptLeave h => exact h

end Uthreads
