import Uthreads.Lib.Locking
import Uthreads.Result.Held
import Uthreads.Result.Reaper

/-!
# Which lock protects what

Every queue, counter and owner field of the library has a lock, and an LWP changes it only while it
holds that lock: `runq_mtx` for the run queues and the counters of the LWPs, the POSIX mutex beside
each queue of waiters, `uthreads_mtx` for `PrevID`, and `reap_mtx`, a uthread mutex, for `reap_queue`.

* `race_free`: two LWPs do not change a datum one after the other unless the first has released
  its lock and the second has taken it in between.
* `state_guarded`: the changes of `ut_state`, with who makes them and what it holds then.
-/

namespace Uthreads

variable {N L : ℕ} {l k : Fin L} {t u v : Fin N} {s s' s₁ : State N L} {i : Instr N}
  {c cs new : Code N} {p : PmtxId N} {a : Act}

open Instr

/-! ## Who holds a lock -/

/-- The locks that protect shared data. -/
inductive Lock (N : ℕ)
  | pmtx (p : PmtxId N)
  | reapMtx

/-- LWP `l` holds the lock, in its own code or in that of the thread whose stack it is on. -/
def Mine (s : State N L) (l : Fin L) : Lock N → Prop
  | .pmtx p => (∃ t, OnStack s l t ∧ Held p (s.uthreads t).utCtx) ∨ p ∈ (s.lwps l).mode.holds
  | .reapMtx => ∃ t, OnStack s l t ∧ Owns .reapMtx (s.uthreads t).utCtx

/-- **A lock has one holder.** -/
theorem Mine.one (hc : Core s) {x : Lock N} (hl : Mine s l x) (hk : Mine s k x) : l = k := by
  cases x with
  | pmtx p =>
    rcases hl with ⟨t, hon, ht⟩ | hl <;> rcases hk with ⟨u, hon', hu⟩ | hk
    · have e := hc.locks.one p (.inl t) (.inl u) ht hu
      obtain rfl := Sum.inl.inj e
      exact hc.places.cur l k t hon.2 hon'.2
    · cases hc.locks.one p (.inl t) (.inr k) ht hk
    · cases hc.locks.one p (.inl u) (.inr l) hu hl
    · exact Sum.inr.inj (hc.locks.one p (.inr l) (.inr k) hl hk)
  | reapMtx =>
    obtain ⟨t, hon, ht⟩ := hl
    obtain ⟨u, hon', hu⟩ := hk
    have e : t = u := Option.some.inj ((hc.reap t ht).symm.trans (hc.reap u hu))
    subst e
    exact hc.places.cur l k t hon.2 hon'.2

/-- A step of `l` leaves the other LWPs and the codes of their threads alone. -/
theorem beside (hc : Core s) (hm : Move s l a s') (hk : k ≠ l) :
    (s'.lwps k).mode = (s.lwps k).mode ∧ (s'.lwps k).utCurthr = (s.lwps k).utCurthr ∧
      ∀ u, OnStack s k u → (s'.uthreads u).utCtx = (s.uthreads u).utCtx := by
  have halone : ∀ {t u : Fin N}, OnStack s l t → OnStack s k u → u ≠ t := by
    rintro t u hon hon' rfl
    exact hk (hc.places.cur k l u hon'.2 hon.2)
  cases hm with
  | halted e => exact ⟨rfl, rfl, fun _ _ => rfl⟩
  | @thread _ t i cs new s₁ hon hcode he =>
    refine ⟨?_, ?_, fun u hu => ?_⟩
    · by_cases hsw : ∃ q sv m, i = swtch q sv m
      · obtain ⟨q, sv, m, rfl⟩ := hsw
        rw [State.setCtx_lwps, (switch_lwp he).2.2 k hk]
      · exact (effect_lwps he (fun q sv m e => hsw ⟨q, sv, m, e⟩) k).1
    · by_cases hsw : ∃ q sv m, i = swtch q sv m
      · obtain ⟨q, sv, m, rfl⟩ := hsw
        rw [State.setCtx_lwps, (switch_lwp he).2.2 k hk]
      · exact (effect_lwps he (fun q sv m e => hsw ⟨q, sv, m, e⟩) k).2.1
    · rcases other_code cs he (halone hon hu) with e | ⟨-, hv, -⟩
      · exact e
      · -- a slot that is set up is not on an LWP
        exact absurd (hc.vacant hv).1 hu.not_off
  | call t c hon hcode => exact ⟨rfl, rfl, fun u hu => by simp [halone hon hu]⟩
  | preempt t hon => exact ⟨by simp [hk], by simp [hk], fun u hu => by simp [halone hon hu]⟩
  | acquire m _ _ _ hs | idle m _ hs | leave m _ _ hs =>
    exact ⟨by simp [hs.lwps, State.setMode, hk], by simp [hs.lwps, State.setMode, hk],
      fun u _ => by rw [hs.uthreads]; rfl⟩
  | unlock p => exact ⟨by simp [hk], by simp [hk], fun _ _ => rfl⟩
  | dispatch t hm hd =>
    obtain ⟨p, x, -, -, rfl⟩ := dispatchBody_some hd
    exact ⟨by simp [hk], by simp [hk], fun u _ => by simp⟩

/-- A step of `l` leaves what the other LWPs hold. -/
theorem mine_frame (hc : Core s) (hm : Move s l a s') (hk : k ≠ l) (x : Lock N) :
    Mine s' k x ↔ Mine s k x := by
  obtain ⟨hmode, hcur, hcode⟩ := beside hc hm hk
  have hon : ∀ u, OnStack s' k u ↔ OnStack s k u := by
    intro u
    unfold OnStack
    rw [hmode, hcur]
  have hthread : ∀ P : Code N → Prop, (∃ u, OnStack s' k u ∧ P (s'.uthreads u).utCtx) ↔
      ∃ u, OnStack s k u ∧ P (s.uthreads u).utCtx := by
    intro P
    constructor
    · rintro ⟨u, hu, hP⟩
      have hu' := (hon u).1 hu
      exact ⟨u, hu', by rwa [hcode u hu'] at hP⟩
    · rintro ⟨u, hu, hP⟩
      exact ⟨u, (hon u).2 hu, by rwa [hcode u hu]⟩
  cases x with
  | pmtx p =>
    simp only [Mine]
    rw [hthread (Held p), hmode]
  | reapMtx => exact hthread (Owns .reapMtx)

/-- An instruction finds its LWP with the mutexes that it needs. -/
theorem mine_needs (hon : OnStack s l t) (hcode : (s.uthreads t).utCtx = i :: cs)
    (hp : p ∈ i.needs) : Mine s l (.pmtx p) :=
  .inl ⟨t, hon, by rw [hcode]; exact .inl hp⟩

theorem mine_reap (hon : OnStack s l t) (hcode : (s.uthreads t).utCtx = i :: cs)
    (hm : .reapMtx ∈ i.owned) : Mine s l .reapMtx :=
  ⟨t, hon, by rw [hcode]; exact .inl hm⟩

/-! ## What is protected -/

/-- The shared data that one lock protects. `parkCond` is `lwp_park_cond` with its waiters. -/
inductive Datum (N : ℕ)
  | queue (q : QueueId N)
  | runqSize
  | lwpCnt
  | lwpParkedCnt
  | parkCond
  | mOwner (m : MtxId)
  | prevId

/-- The lock of a queue. -/
def QueueId.lock : QueueId N → Lock N
  | .runq _ => .pmtx .runqMtx
  | .mWaiters m => .pmtx (.mPmut m)
  | .ucWaiters c => .pmtx (.cPmut c)
  | .utWaiter u => .pmtx (.utPmut u)
  | .reapQueue => .reapMtx

/-- The lock of a datum. -/
def Datum.lock : Datum N → Lock N
  | .queue q => q.lock
  | .runqSize | .lwpCnt | .lwpParkedCnt | .parkCond => .pmtx .runqMtx
  | .mOwner m => .pmtx (.mPmut m)
  | .prevId => .pmtx .uthreadsMtx

/-- The step from `s` to `s'` changes the datum. -/
def Changes (s s' : State N L) : Datum N → Prop
  | .queue q => s'.queues q ≠ s.queues q
  | .runqSize => s'.runqSize ≠ s.runqSize
  | .lwpCnt => s'.lwpCnt ≠ s.lwpCnt
  | .lwpParkedCnt => s'.lwpParkedCnt ≠ s.lwpParkedCnt
  | .parkCond => s'.parkWaiters ≠ s.parkWaiters ∨ s'.parkSignals ≠ s.parkSignals
  | .mOwner m => s'.mtx m ≠ s.mtx m
  | .prevId => s'.prevId ≠ s.prevId

/-- A step that leaves all of them alone changes none. -/
theorem Changes.elim {d : Datum N} (hd : Changes s s' d)
    (hcnt : s'.lwpCnt = s.lwpCnt ∧ s'.lwpParkedCnt = s.lwpParkedCnt ∧
      s'.parkWaiters = s.parkWaiters ∧ s'.parkSignals = s.parkSignals)
    (hq : s'.queues = s.queues ∧ s'.runqSize = s.runqSize) (hm : s'.mtx = s.mtx)
    (hp : s'.prevId = s.prevId) : False := by
  cases d with
  | queue q => exact hd (congrFun hq.1 q)
  | runqSize => exact hd hq.2
  | lwpCnt => exact hd hcnt.1
  | lwpParkedCnt => exact hd hcnt.2.1
  | parkCond => exact Or.elim hd (fun h => h hcnt.2.2.1) fun h => h hcnt.2.2.2
  | mOwner m => exact hd (congrFun hm m)
  | prevId => exact hd hp

/-- The run queues are used under `runq_mtx`. -/
theorem effect_runq (he : Effect l t s i s' new) (hi : .runqMtx ∉ i.needs)
    (r : Fin (uthMaxprio + 1)) : s'.queues (.runq r) = s.queues (.runq r) := by
  have henq : ∀ {u : Fin N} {s₀ s₁ : State N L} {q : QueueId N}, utqueueEnqueue q u s₀ = .ok s₁ →
      q ≠ .runq r → s₁.queues (.runq r) = s₀.queues (.runq r) := by
    intro u s₀ s₁ q h hne
    obtain ⟨-, rfl⟩ := utqueueEnqueue_ok h
    simp [hne.symm]
  have hdeq : ∀ {u : Fin N} {s₀ s₁ : State N L} {q : QueueId N},
      utqueueDequeue q s₀ = some (u, s₁) → q ≠ .runq r → s₁.queues (.runq r) = s₀.queues (.runq r) := by
    intro u s₀ s₁ q h hne
    obtain ⟨x, -, rfl⟩ := utqueueDequeue_some h
    simp [hne.symm]
  cases he with
  | swtch | wake | start | setprio => simp at hi
  | plain hp hs => rw [hs.queues]
  | handOver m v hd hs => rw [hs.queues]; exact (hdeq hd (by simp) :)
  | signal c v hd hs => rw [hs.queues]; exact (hdeq hd (by simp) :)
  | exitJoined v w status _ hd => exact (hdeq hd (by simp) :)
  | makeReapable v hz hs₁ hs => rw [hs.queues]; exact (henq hs₁ (by simp) :)
  | joinWait v k _ hd hz hinit hs₁ hs => rw [hs.queues]; exact (henq hs₁ (by simp) :)
  | drain v hd hz => exact (hdeq hd (by simp) :)
  | take _ _ hs | release _ _ hs | waitMark _ hs | alloc _ _ _ _ hs => rw [hs.queues]; rfl
  | detach _ _ _ _ _ hs => rw [hs.queues]; rfl
  | create | destroy => simp
  | _ => rfl

/-- `utqueue_init` changes nothing where the queue is empty. -/
theorem effect_emptied (he : Effect l t s i s' new)
    (hi : (∃ w prio, i = createInit w v prio) ∨ ∃ d, i = destroy d v)
    (h : (s.queues (.utWaiter v)).tqWaiters = []) :
    s'.queues (.utWaiter v) = s.queues (.utWaiter v) := by
  have hinit : s.queues (.utWaiter v) = .init := Utqueue.ext h
  rcases hi with ⟨w, prio, rfl⟩ | ⟨d, rfl⟩
  · obtain ⟨rfl, -⟩ := effect_create he
    cases w <;> simp [createWrite_queues, hinit]
  · obtain ⟨rfl, -⟩ := effect_destroy he
    cases d <;> simp [destroyWrite_queues, hinit]

/-- The queues other than the run queues are used under their locks. -/
theorem queue_guarded (hc : Core s) (hon : OnStack s l t) (hcode : (s.uthreads t).utCtx = i :: cs)
    (he : Effect l t s i s₁ new) {q : QueueId N} (hr : ∀ r, q ≠ .runq r)
    (hq : s₁.queues q ≠ s.queues q) : Mine s l q.lock := by
  have hmem : q ∈ i.queues := by
    by_contra h
    exact hq (effect_queues he hr h)
  have hwf := hc.codes.wf t
  rw [hcode] at hwf
  cases i with
  | swtch r sv m =>
    have hok : OkSwitch t r sv m cs := hwf.1
    cases hok <;> simp at hmem <;> subst hmem <;> exact mine_needs hon hcode (by simp)
  | unlockTest m | signalTest c | broadcastTest c | exitTest u st | joinTest u n =>
    simp only [queues, List.mem_singleton] at hmem
    subst hmem
    exact mine_needs hon hcode (by simp)
  | makeReapable u | reaperDrain =>
    simp only [queues, List.mem_singleton] at hmem
    subst hmem
    exact mine_reap hon hcode (by simp)
  | createInit w u prio =>
    -- the queue of a slot that has no thread is empty already
    obtain ⟨rfl, rfl⟩ := queues_createInit hmem
    exact absurd (effect_emptied he (.inl ⟨_, prio, rfl⟩) (hc.create_empty hcode he)) hq
  | destroy d u =>
    obtain ⟨rfl, rfl⟩ := queues_destroy hmem
    have hz := (hc.slots.destroy t .waiter u (by rw [hcode]; exact List.mem_cons_self)).st
    exact absurd (effect_emptied he (.inr ⟨_, rfl⟩) (hc.slots.noWaiter u (.inr (.inl hz)))) hq
  | _ => simp at hmem

/-- The counters of `lwp_park` and the run queues change in the steps of the LWPs as well. -/
theorem counts_guarded (he : Effect l t s i s₁ new) (hi : .runqMtx ∉ i.needs) :
    s₁.runqSize = s.runqSize ∧ s₁.lwpCnt = s.lwpCnt ∧ s₁.lwpParkedCnt = s.lwpParkedCnt ∧
      s₁.parkWaiters = s.parkWaiters ∧ s₁.parkSignals = s.parkSignals := by
  obtain ⟨hcnt, hparked, -, hq⟩ := effect_counts he
  rcases hq with hq | ⟨-, h⟩
  · exact ⟨hq.size, hcnt, hparked, hq.waiters, hq.signals⟩
  · exact absurd h hi

/-- Who changes a datum in an instruction holds its lock. -/
theorem guarded_thread (hc : Core s) (hon : OnStack s l t) (hcode : (s.uthreads t).utCtx = i :: cs)
    (he : Effect l t s i s₁ new) (hh : Hist t s i s₁) {d : Datum N}
    (hd : Changes s (s₁.setCtx t (new ++ cs)) d) : Mine s l d.lock := by
  have hrunq : (.runqMtx ∉ i.needs → ¬ Changes s (s₁.setCtx t (new ++ cs)) d) →
      Mine s l (.pmtx .runqMtx) := by
    intro hno
    by_cases hi : .runqMtx ∈ i.needs
    · exact mine_needs hon hcode hi
    · exact absurd hd (hno hi)
  cases d with
  | queue q =>
    by_cases hr : ∃ r, q = .runq r
    · obtain ⟨r, rfl⟩ := hr
      exact hrunq fun hi h => h (effect_runq he hi r)
    · exact queue_guarded hc hon hcode he (fun r e => hr ⟨r, e⟩) hd
  | runqSize => exact hrunq fun hi h => h (counts_guarded he hi).1
  | lwpCnt => exact hrunq fun hi h => h (counts_guarded he hi).2.1
  | lwpParkedCnt => exact hrunq fun hi h => h (counts_guarded he hi).2.2.1
  | parkCond =>
    refine hrunq fun hi h => ?_
    rcases h with h | h
    · exact h (counts_guarded he hi).2.2.2.1
    · exact h (counts_guarded he hi).2.2.2.2
  | mOwner m =>
    have hi : i = lockTest m ∨ i = trylockTest m ∨ i = unlockTest m := by
      by_contra hno
      simp only [not_or] at hno
      exact hd (effect_mtx he m hno)
    rcases hi with rfl | rfl | rfl <;> exact mine_needs hon hcode (by simp)
  | prevId =>
    have hp : prevIdOf s i ≠ s.prevId := by
      rw [← hh.prevId]
      exact hd
    cases i with
    | allocScan start prio => exact mine_needs hon hcode (by simp)
    | _ => exact absurd rfl hp

/-- **Who changes a datum holds its lock**, or takes it in the same step. -/
theorem guarded_step (hc : Core s) (hm : Move s l a s') {d : Datum N} (hd : Changes s s' d) :
    Mine s l d.lock ∨ Mine s' l d.lock := by
  have hlwp : SameHist s s' → s'.mtx = s.mtx → (∀ q, (∀ r, q ≠ .runq r) → s'.queues q = s.queues q) →
      (PmtxId.runqMtx ∈ (s.lwps l).mode.holds ∨ PmtxId.runqMtx ∈ (s'.lwps l).mode.holds) →
      Mine s l d.lock ∨ Mine s' l d.lock := by
    intro hh hmtx hq hp
    have hrunq : Mine s l (.pmtx .runqMtx) ∨ Mine s' l (.pmtx .runqMtx) :=
      hp.imp .inr .inr
    cases d with
    | queue q =>
      by_cases hr : ∃ r, q = .runq r
      · obtain ⟨r, rfl⟩ := hr
        exact hrunq
      · exact absurd (hq q fun r e => hr ⟨r, e⟩) hd
    | mOwner m => exact absurd (congrFun hmtx m) hd
    | prevId => exact absurd hh.prevId hd
    | _ => exact hrunq
  cases hm with
  | halted e => exact (hd.elim ⟨rfl, rfl, rfl, rfl⟩ ⟨rfl, rfl⟩ rfl rfl).elim
  | thread t i cs new hon hcode he hh => exact .inl (guarded_thread hc hon hcode he hh hd)
  | call t c hon hcode => exact (hd.elim ⟨rfl, rfl, rfl, rfl⟩ ⟨rfl, rfl⟩ rfl rfl).elim
  | preempt t hon => exact (hd.elim ⟨rfl, rfl, rfl, rfl⟩ ⟨rfl, rfl⟩ rfl rfl).elim
  | acquire m hm _ _ hs hh =>
    refine hlwp hh (by rw [hs.mtx]; rfl) (fun q _ => by rw [hs.queues]; rfl) (.inr ?_)
    rcases hm with ⟨-, rfl⟩ | ⟨-, rfl⟩ <;> simp [hs.lwps, State.setMode]
  | unlock p hm =>
    exact hlwp (by constructor <;> rfl) rfl (fun _ _ => rfl) (.inl (by simp [hm]))
  | dispatch t hm hdisp =>
    obtain ⟨p, x, -, -, rfl⟩ := dispatchBody_some hdisp
    refine hlwp (by constructor <;> rfl) rfl (fun q hq => ?_) (.inl (by simp [hm]))
    show (s.setQueue (.runq p) x).queues q = s.queues q
    rw [State.setQueue_queues, if_neg (hq p)]
  | idle m hm hs hh | leave m hm _ hs hh =>
    refine hlwp hh (by rw [hs.mtx]; rfl) (fun q _ => by rw [hs.queues]; rfl) (.inl ?_)
    rcases hm with ⟨hm, -⟩ | ⟨hm, -⟩ <;> simp [hm]

/-! ## No races -/

/-- The LWPs, their locks and what they change, as `Locking` has them. -/
def locking (N L : ℕ) : Locking (State N L) (Fin L × Act) (Fin L) (Lock N) (Datum N) where
  next := next
  ok := Runs.always
  who b := b.1
  holds := Mine
  writes := Changes
  lock := Datum.lock

/-- **Lock discipline** of every state that `Core` describes. -/
theorem locking_discipline : (locking N L).Discipline Core where
  keep _ _ _ hc _ hn := core_next hc hn
  one _ _ _ _ hc := Mine.one hc
  frame s s' x y k hc hs hy := by
    obtain ⟨⟨l, a⟩, rfl, -, hn⟩ := hs
    exact mine_frame hc (step_move hc.codes.wf hn) hy k
  guarded s s' x d hc hs hd := by
    obtain ⟨⟨l, a⟩, rfl, -, hn⟩ := hs
    exact guarded_step hc (step_move hc.codes.wf hn) hd

/-- **Data race freedom.** In every run, after LWP `l` has changed a datum and before another LWP `k`
changes it, `l` releases the lock of the datum, and then `k` takes it. -/
theorem race_free {s s₁ s₂ s' : State (N + 2) (L + 1)} {l k : Fin (L + 1)} {d : Datum (N + 2)}
    (h : Reachable Runs.always (boot N L) s) (hlk : l ≠ k) (hl : (locking _ _).Step l s s₁)
    (hd : Changes s s₁ d) (hr : Reachable Runs.always s₁ s₂) (hk : (locking _ _).Step k s₂ s')
    (hd' : Changes s₂ s' d) : (locking _ _).Handoff l k d.lock s s' :=
  locking_discipline.handoff_writes (core_reachable boot_core h) hlk hl hd hr hk hd'

/-- LWP 0 takes the first thread off the run queue, and LWP 1 the second one. -/
theorem race_free_start : ∃ s₁ s₂ s' : State 2 2,
    Changes (boot 0 1) s₁ .runqSize ∧ Reachable Runs.always s₁ s₂ ∧ Changes s₂ s' .runqSize ∧
      (locking 2 2).Handoff 0 1 (.pmtx .runqMtx) (boot 0 1) s' := by
  let s₁ : State 2 2 := (next (boot 0 1) (0, .exec)).get rfl
  let s₂ : State 2 2 := (Runs.follow next Runs.always s₁ [(0, .exec), (1, .exec)]).get rfl
  let s' : State 2 2 := (next s₂ (1, .exec)).get rfl
  have hd : Changes (boot 0 1) s₁ .runqSize := by
    show s₁.runqSize ≠ (boot 0 1).runqSize
    decide
  have hr : Reachable Runs.always s₁ s₂ := Runs.follow_reach (Option.some_get _).symm
  have hd' : Changes s₂ s' .runqSize := by
    show s'.runqSize ≠ s₂.runqSize
    decide
  have hl : (locking 2 2).Step 0 (boot 0 1) s₁ := ⟨(0, .exec), rfl, trivial, rfl⟩
  have hk : (locking 2 2).Step 1 s₂ s' := ⟨(1, .exec), rfl, trivial, rfl⟩
  exact ⟨s₁, s₂, s', hd, hr, hd', race_free .start (by decide) hl hd hr hk hd'⟩

/-! ## The life of a thread -/

/-- How LWP `l` changes the `ut_state` of `v`, and what it holds when it does. -/
inductive StateChange (s : State N L) (l : Fin L) (v : Fin N) : UthreadState → UthreadState → Prop
  /-- `uthread_alloc`. -/
  | alloc (h : Mine s l (.pmtx .uthreadsMtx)) : StateChange s l v .noState .transition
  /-- `uthread_startonrunq`. -/
  | start (h : Mine s l (.pmtx .runqMtx)) : StateChange s l v .transition .runnable
  /-- `lwp_switch`. -/
  | dispatch (hm : (s.lwps l).mode = .searching) (h : Mine s l (.pmtx .runqMtx)) :
    StateChange s l v .runnable .onCpu
  /-- `uthread_yield`, also from the interrupt. -/
  | yield (hon : OnStack s l v) (h : Mine s l (.pmtx .runqMtx)) : StateChange s l v .onCpu .runnable
  /-- `v` waits for a mutex, a condition or the end of a thread. -/
  | block (q : QueueId N) (hq : q.guard ≠ none) (hon : OnStack s l v) (h : Mine s l q.lock) :
    StateChange s l v .onCpu .wait
  /-- `uthread_wake`. -/
  | wake (h : Mine s l (.pmtx .runqMtx)) : StateChange s l v .wait .runnable
  /-- `uthread_exit`. -/
  | exit (hon : OnStack s l v) (h : Mine s l (.pmtx (.utPmut v))) (hr : Mine s l .reapMtx) :
    StateChange s l v .onCpu .zombie
  /-- `uthread_destroy`. -/
  | destroy (hon : OnStack s l s.reaperThrId) (h : Mine s l .reapMtx) :
    StateChange s l v .zombie .noState

/-- The instruction by which a thread goes to sleep finds it `UT_ON_CPU`. -/
theorem blocks_onCpu (hc : Core s) (hon : OnStack s l t) (hcode : (s.uthreads t).utCtx = i :: cs)
    (hi : (∃ m, i = lockTest m) ∨ (∃ c, i = waitMark c) ∨ ∃ u n, i = joinTest u n) :
    (s.uthreads t).utState = .onCpu := by
  have hst := (hc.active hon).1
  have hwf := hc.codes.wf t
  rw [hcode] at hst hwf
  obtain ⟨hok, hg, hwf'⟩ := hwf
  rw [hst]
  rcases hi with ⟨m, rfl⟩ | ⟨c, rfl⟩ | ⟨u, n, rfl⟩
  · simp [expect, asleep, hok.2]
  · obtain ⟨cs', rfl⟩ := hok
    -- the switch behind the mark leaves a code that goes on
    have hsw : OkSwitch t (some (.ucWaiters c)) false (some (.cPmut c)) (resume :: cs') := hwf'.2.2.1
    cases hsw with
    | cond hh hd => simp [expect, asleep, uthreadSwitch, hd]
  · have hcs : cs = [] := hok
    subst hcs
    simp [expect, asleep]

/-- The changes of `ut_state` by an instruction. -/
theorem state_thread (hc : Core s) (hi : ReaperInv s) (hon : OnStack s l t)
    (hcode : (s.uthreads t).utCtx = i :: cs) (he : Effect l t s i s₁ new) (v : Fin N)
    (hne : (s₁.uthreads v).utState ≠ (s.uthreads v).utState) :
    StateChange s l v (s.uthreads v).utState (s₁.uthreads v).utState := by
  have hst := (hc.active hon).1
  have hwf := hc.codes.wf t
  rw [hcode] at hst hwf
  cases effect_state he v with
  | same h => exact absurd h hne
  | saved hi hv hz h' =>
    subst hi hv
    have hok : OkSwitch v none true none cs := hwf.1
    have hcpu : (s.uthreads v).utState = .onCpu := by
      cases hok with
      | yield hh hd => simp [hst, expect, asleep, hd]
    rw [hcpu, h']
    exact .yield hon (mine_needs hon hcode (by simp))
  | woken hi h h' =>
    subst hi
    rw [h, h']
    exact .wake (mine_needs hon hcode (by simp))
  | started prio hi h h' =>
    subst hi
    rw [h, h']
    exact .start (mine_needs hon hcode (by simp))
  | blocked hi hv h' =>
    subst hv
    rw [blocks_onCpu hc hon hcode hi, h']
    rcases hi with ⟨m, rfl⟩ | ⟨c, rfl⟩ | ⟨u, n, rfl⟩
    · exact .block (.mWaiters m) (by simp) hon (mine_needs hon hcode (by simp))
    · exact .block (.ucWaiters c) (by simp) hon (mine_needs hon hcode (by simp))
    · exact .block (.utWaiter u) (by simp) hon (mine_needs hon hcode (by simp))
  | allocated start prio hi h h' =>
    subst hi
    rw [h, h']
    exact .alloc (mine_needs hon hcode (by simp))
  | exited status hi h' =>
    subst hi
    obtain ⟨rfl, rfl⟩ : v = t ∧ cs = [] := hwf.1
    rw [h', hst]
    exact .exit hon (mine_needs hon hcode (by simp)) (mine_reap hon hcode (by simp))
  | destroyed hi' h' =>
    subst hi'
    have h := (hc.slots.destroy t .state v (by rw [hcode]; exact List.mem_cons_self)).st
    have ht : t = s.reaperThrId := hi.is_reaper hcode (by simp)
    rw [h, h']
    exact .destroy (ht ▸ hon) (mine_reap hon hcode (by simp))

/-- **The life of a thread.** In every run, a step changes the `ut_state` of a thread only along the
cycle from `UT_NO_STATE` through `UT_TRANSITION`, the three states of a live thread and `UT_ZOMBIE`
back, by the LWP and under the locks that `StateChange` names. -/
theorem state_guarded {s s' : State (N + 2) (L + 1)} {b : Fin (L + 1) × Act}
    (h : Reachable Runs.always (boot N L) s) (hs : next s b = some s') (v : Fin (N + 2)) :
    (s'.uthreads v).utState = (s.uthreads v).utState ∨
      StateChange s b.1 v (s.uthreads v).utState (s'.uthreads v).utState := by
  have hc := core_reachable boot_core h
  have hi := reaper_reachable h
  by_cases hne : (s'.uthreads v).utState = (s.uthreads v).utState
  · exact .inl hne
  right
  obtain ⟨l, a⟩ := b
  have hm : Move s l a s' := step_move hc.codes.wf hs
  show StateChange s l v _ _
  cases hm with
  | halted e => exact absurd rfl hne
  | thread t i cs new hon hcode he =>
    have hctx : ∀ s₁ : State (N + 2) (L + 1), ((s₁.setCtx t (new ++ cs)).uthreads v).utState =
        (s₁.uthreads v).utState := by simp
    rw [hctx] at hne ⊢
    exact state_thread hc hi hon hcode he v hne
  | call t c hon hcode => exact absurd (by simp) hne
  | preempt t hon => exact absurd (by simp) hne
  | acquire _ _ _ _ ht | idle _ _ ht | leave _ _ _ ht => exact absurd (by rw [ht.uthreads]; rfl) hne
  | unlock => exact absurd rfl hne
  | dispatch t hm hd =>
    obtain ⟨p, x, hx, -, rfl⟩ := dispatchBody_some hd
    have hst : (s.uthreads t).utState = .runnable :=
      ((hc.runq.mem t p).1 (by rw [hx]; exact List.mem_cons_self)).1
    by_cases hv : v = t
    · subst hv
      rw [hst]
      simpa using StateChange.dispatch hm (.inr (by simp [hm]))
    · exact absurd (by simp [hv]) hne

/-- LWP 0 dispatches the first thread. -/
theorem state_guarded_start : StateChange (boot 0 1) 0 0 .runnable .onCpu := by
  let s' : State 2 2 := (next (boot 0 1) (0, .exec)).get rfl
  have hne : (s'.uthreads 0).utState ≠ ((boot 0 1).uthreads 0).utState := by decide
  have hn : next (boot 0 1) (0, .exec) = some s' := rfl
  exact (state_guarded .start hn 0).resolve_left hne

end Uthreads
