import Uthreads.Model.Lemmas
import Uthreads.Model.Start

/-!
# The library starts in `boot`

* `start_boot`: on zero-filled memory `uthread_start` reaches `lwp_switch` in the state `boot`, for every
  size of the table and every number of LWPs, unless there is no memory for one of the two stacks; none of
  its assertions fails. On the way `runq_mtx` is initialised twice, and nothing else is.
-/

namespace Uthreads

variable {N L : ℕ} {l : Fin L} {t : Fin N} {s s' : State N L} {x : Starting N L}

open Instr

/-! ## The parts of the start -/

theorem tableInit_same (h : ∀ t, (x.state.uthreads t).utState = .noState) : tableInit x = x := by
  have hstep : ∀ t, x.map (fun s => s.setState t .noState) = x := by
    intro t
    have hu : ({ x.state.uthreads t with utState := .noState } : Uthread N) = x.state.uthreads t := by
      rw [← h t]
    simp [Starting.map, State.setState, State.modUthread, hu]
  unfold tableInit
  induction List.finRange N with
  | nil => rfl
  | cons t ts ih => rw [List.foldl_cons, hstep t, ih]

theorem startQueue_same {q : QueueId N} (h : x.state.queues q = .init) : startQueue q x = x := by
  simp [startQueue, Starting.map, State.setQueue, ← h]

/-- The process after `reaper_init`. -/
def readied (l : Fin L) (t : Fin N) : State N L :=
  { static L t with
    pmtx := fun p => match p with
      | .runqMtx | .uthreadsMtx => ⟨.live, true, none⟩
      | .utPmut _ => ⟨.zeroed, false, none⟩
      | .mPmut _ | .cPmut _ => ⟨.live, false, none⟩
    lwps := fun k => if k = l then ⟨.running, none, true⟩ else ⟨.running, none, false⟩ }

theorem runqInit_same (ps : List (Fin (uthMaxprio + 1))) (h : ∀ p, x.state.queues (.runq p) = .init) :
    ps.foldl (fun x i => startQueue (.runq i) x) x = x := by
  induction ps with
  | nil => rfl
  | cons p ps ih => rw [List.foldl_cons, startQueue_same (h p), ih]

/-- States are equal when their tables are, entry by entry, and the rest is. -/
theorem state_ext (hu : ∀ t, s.uthreads t = s'.uthreads t) (hq : ∀ q, s.queues q = s'.queues q)
    (hm : ∀ m, s.mtx m = s'.mtx m) (hp : ∀ p, s.pmtx p = s'.pmtx p) (hl : ∀ l, s.lwps l = s'.lwps l)
    (hrest : { s with uthreads := s'.uthreads, queues := s'.queues, mtx := s'.mtx, pmtx := s'.pmtx,
                      lwps := s'.lwps } = s') : s = s' := by
  rw [← hrest, ← funext hu, ← funext hq, ← funext hm, ← funext hp, ← funext hl]

theorem reaperInit_readied :
    reaperInit (uthreadSchedInit l (pthreadMutexInit .uthreadsMtx true (pthreadMutexInit .runqMtx true
      ⟨static L t, []⟩))) = ⟨readied l t, [.runqMtx]⟩ := by
  simp only [uthreadSchedInit]
  rw [runqInit_same _ fun p => rfl]
  refine congrArg₂ Starting.mk ?_ ?_
  · refine state_ext (fun t => rfl) (fun q => ?_) (fun m => ?_) (fun p => ?_) (fun l => ?_) rfl
    · simp [uthreadMtxInit, pthreadMutexInit, startQueue, Starting.map, static, readied]
    · simp [uthreadMtxInit, pthreadMutexInit, startQueue, Starting.map, static, readied]
    · cases p with
      | mPmut m => cases m <;> simp [uthreadMtxInit, pthreadMutexInit, startQueue, Starting.map, static, readied]
      | cPmut c => cases c <;> simp [uthreadMtxInit, pthreadMutexInit, startQueue, Starting.map, static, readied]
      | _ => simp [uthreadMtxInit, pthreadMutexInit, startQueue, Starting.map, static, readied]
    · simp [uthreadMtxInit, pthreadMutexInit, startQueue, Starting.map, static, readied]
  · simp [uthreadMtxInit, pthreadMutexInit, startQueue, Starting.map, static]

/-! ## The threads of the start -/

/-- The thread with its count one higher. -/
def countUp (t : Fin N) (s : State N L) : State N L :=
  s.modUthread t fun u => { u with utNoPreemptCount := u.utNoPreemptCount + 1 }

theorem nopreemptOn_masked (hm : (s.lwps l).masked = true)
    (hc : (s.uthreads t).utNoPreemptCount = 1) : execNopreemptOn l t s = .ok (countUp t s, []) := by
  have hfit : 1 < intMax := by decide
  unfold execNopreemptOn
  simp only [check, hc, State.setLwp_uthreads, ne_eq, one_ne_zero, not_false_eq_true, decide_true,
    Bool.or_true, if_true, hfit, bind, Except.bind, pure, Except.pure, Except.ok.injEq, Prod.mk.injEq,
    and_true]
  refine state_ext (fun u => by simp [countUp]) (fun _ => rfl) (fun _ => rfl) (fun _ => rfl)
    (fun k => ?_) rfl
  by_cases hk : k = l
  · subst hk
    simp [countUp, ← hm]
  · simp [countUp, hk]

theorem nopreemptOff_masked (hm : (s.lwps l).masked = true)
    (hc : (s.uthreads t).utNoPreemptCount = 1) : execNopreemptOff l t (countUp t s) = .ok (s, []) := by
  unfold execNopreemptOff
  simp [countUp, hm, hc, check, bind, Except.bind, pure, Except.pure]
  refine state_ext (fun u => ?_) (fun _ => rfl) (fun _ => rfl) (fun _ => rfl) (fun _ => rfl) rfl
  by_cases hu : u = t
  · subst hu; simp
  · simp [hu]

/-- `alloc_stack` counts its thread up and down again. -/
theorem startStack_same (hm : (s.lwps l).masked = true) (hc : (s.uthreads t).utNoPreemptCount = 1) :
    startStack l t s = .ok s := by
  unfold startStack
  rw [nopreemptOn_masked hm hc]
  simp only [bind, Except.bind]
  rw [nopreemptOff_masked hm hc]
  rfl

/-- The process after `create_first_thr` has set `t` up with the code `ctx`. -/
def addThr (l : Fin L) (t : Fin N) (ctx : Code N) (s : State N L) : State N L :=
  let top := QueueId.runq (Fin.last uthMaxprio)
  { (((s.setLwp l { s.lwps l with utCurthr := some t }).setQueue (.utWaiter t) .init).setPmtx
      (.utPmut t) ⟨.live, true, none⟩).setQueue top ((s.queues top).enqueue t) with
    uthreads := Function.update s.uthreads t (Uthread.first ctx)
    runqSize := s.runqSize + 1 }

theorem runqEnqueue_top (hp : (s.uthreads t).utPrio = uthMaxprio) (hl : (s.uthreads t).utLink = none)
    (hw : s.parkWaiters = 0) : uthreadRunqEnqueue t s = .ok
      { ((s.setQueue (.runq (Fin.last uthMaxprio)) ((s.queues (.runq (Fin.last uthMaxprio))).enqueue
          t)).modUthread t fun u => { u with utLink := some (.runq (Fin.last uthMaxprio)) }) with
        runqSize := s.runqSize + 1 } := by
  -- nobody waits on `lwp_park_cond`
  have hrel : ∀ x : State N L, x.parkWaiters = 0 → lwpRelease x = x := fun x hx => if_pos hx
  have hi : runqIndex (s.uthreads t).utPrio = some (Fin.last uthMaxprio) := by
    rw [hp]
    exact runqIndex_cast (Fin.last uthMaxprio)
  unfold uthreadRunqEnqueue
  rw [hi]
  simp only [utqueueEnqueue, hl, if_true, bind, Except.bind, pure, Except.pure]
  refine congrArg Except.ok ?_
  split
  · exact hrel _ hw
  · rfl

theorem pthreadMutexInit_new {p : PmtxId N} (e : Bool) (h : (x.state.pmtx p).status ≠ .live) :
    pthreadMutexInit p e x = ⟨x.state.setPmtx p ⟨.live, e, none⟩, x.reinit⟩ := by
  unfold pthreadMutexInit
  rw [if_neg h]

theorem createThr_eq {ctx : Code N} {ok reaper : Bool} {re : List (PmtxId N)}
    (hm : (s.lwps l).masked = true) (hp : (s.pmtx (.utPmut t)).status ≠ .live) (hw : s.parkWaiters = 0) :
    createThr l t ctx ok reaper ⟨s, re⟩ =
      if ok then .ok ⟨addThr l t ctx s, re⟩ else .error (.noStack reaper) := by
  unfold createThr
  simp only [startQueue, Starting.map]
  rw [pthreadMutexInit_new true (by exact hp)]
  simp only [Starting.bind]
  rw [startStack_same (by simp [hm]) (by simp)]
  simp only [bind, Except.bind]
  cases ok with
  | false => rfl
  | true =>
    rw [if_pos rfl, if_pos rfl, runqEnqueue_top (by simp) (by simp) (by exact hw)]
    refine congrArg (fun x => Except.ok (Starting.mk x re)) ?_
    refine state_ext (fun u => ?_) (fun q => ?_) (fun _ => rfl) (fun p => ?_) (fun k => ?_) rfl
    · by_cases hu : u = t
      · subst hu; simp [addThr, Uthread.first]
      · simp [addThr, hu]
    · simp [addThr]
    · simp [addThr]
    · simp [addThr]

/-- Alone, `uthread_alloc` takes the first free slot behind `PrevID`. -/
theorem startAlloc_eq {u : Fin N} (hm : (s.lwps l).masked = true)
    (hc : (s.uthreads t).utNoPreemptCount = 1) (ho : (s.pmtx .uthreadsMtx).owner = none)
    (hst : (s.pmtx .uthreadsMtx).status ≠ .destroyed)
    (hu : allocWhile (fun i => (s.uthreads i).utState) (allocFrom s.prevId) = some u) :
    startAlloc l t s = .ok ({ s.setState u .transition with prevId := some u }, some u) := by
  have hlock : pthreadMutexLock l .uthreadsMtx (countUp t s) =
      .ok ((countUp t s).setPmtx .uthreadsMtx { s.pmtx .uthreadsMtx with owner := some l }) := by
    unfold pthreadMutexLock
    rw [if_neg (by exact hst), if_pos (by exact ho)]
    rfl
  have hscan : allocWhile (fun i => (((countUp t s).setPmtx .uthreadsMtx
      { s.pmtx .uthreadsMtx with owner := some l }).uthreads i).utState) (allocFrom s.prevId) = some u := by
    rw [← hu]
    congr 1
    funext i
    simp [countUp]
  have hunlock : pthreadMutexUnlock l .uthreadsMtx { ((countUp t s).setPmtx .uthreadsMtx
      { s.pmtx .uthreadsMtx with owner := some l }).setState u .transition with prevId := some u } =
      .ok (countUp t { s.setState u .transition with prevId := some u }) := by
    unfold pthreadMutexUnlock
    rw [if_neg (by simpa [State.setState] using hst), if_neg (by simp [State.setState])]
    refine congrArg Except.ok (state_ext (fun v => ?_) (fun _ => rfl) (fun _ => rfl) (fun p => ?_)
      (fun _ => rfl) rfl)
    · by_cases ht : v = t
      · subst ht
        by_cases hv : v = u <;> simp [State.setState, countUp, hv]
      · by_cases hv : v = u
        · subst hv
          simp [State.setState, countUp, ht]
        · simp [State.setState, countUp, hv, ht]
    · by_cases hp : p = .uthreadsMtx
      · subst hp
        simp [State.setState, countUp, ← ho]
      · simp [State.setState, countUp, hp]
  unfold startAlloc
  rw [nopreemptOn_masked hm hc]
  simp only [bind, Except.bind, hlock, hscan, hunlock]
  rw [nopreemptOff_masked (by exact hm) (by simpa [State.setState] using hc)]
  rfl

theorem startLwps_lwps (ls : List (Fin L)) (s : State N L) :
    startLwps ls s = { s with lwps := fun k => if k ∈ ls then ⟨.start, none, true⟩ else s.lwps k } := by
  unfold startLwps
  induction ls generalizing s with
  | nil => simp
  | cons k ls ih =>
    rw [List.foldl_cons, ih]
    refine state_ext (fun _ => rfl) (fun _ => rfl) (fun _ => rfl) (fun _ => rfl) (fun j => ?_) rfl
    by_cases hj : j ∈ ls
    · simp [hj]
    · by_cases hk : j = k
      · simp [hk]
      · simp [hj, hk]

/-- The process after the first thread `t` has been set up. -/
def firstThr (l : Fin L) (t : Fin N) : State N L :=
  addThr l t threadStartCode ((readied l t).setState t .transition)

/-- The process after `uthread_alloc` has given the reaper the slot `u`. -/
def reaperSlot (l : Fin L) (t u : Fin N) : State N L :=
  { (firstThr l t).setState u .transition with prevId := some u, reaperThrId := u }

/-- The process after the reaper `u` has been set up. -/
def bothThr (l : Fin L) (t u : Fin N) : State N L :=
  addThr l u (threadStartCode ++ reaper) (reaperSlot l t u)

/-- The reaper gets slot 1. -/
theorem firstThr_alloc {l : Fin L} :
    allocWhile (fun i => ((firstThr l (0 : Fin (N + 2))).uthreads i).utState)
      (allocFrom (firstThr l (0 : Fin (N + 2))).prevId) = some 1 := by
  have h₀ : ((firstThr l (0 : Fin (N + 2))).uthreads 0).utState = .runnable := rfl
  have h₁ : ((firstThr l (0 : Fin (N + 2))).uthreads 1).utState = .noState := by
    simp [firstThr, addThr, readied, static, State.setState, Uthread.zero]
  have hstart : allocFrom (firstThr l (0 : Fin (N + 2))).prevId = 0 := rfl
  have hfor : allocFor (fun i => ((firstThr l (0 : Fin (N + 2))).uthreads i).utState) 0 (N + 2 - 0) =
      some 1 := by
    show allocFor _ 0 (N + 1 + 1) = _
    have e₀ : (⟨0, by omega⟩ : Fin (N + 2)) = 0 := rfl
    have e₁ : (⟨0 + 1, by omega⟩ : Fin (N + 2)) = 1 := Fin.ext (by simp)
    rw [allocFor, dif_pos (by omega), e₀, if_neg (by rw [h₀]; decide), allocFor, dif_pos (by omega), e₁,
      if_pos h₁]
  unfold allocWhile
  rw [hstart, hfor]

/-- The start from `reaper_init` on. -/
theorem createFirstThr_eq (ok₀ ok₁ : Bool) (re : List (PmtxId (N + 2))) :
    createFirstThr 0 ((List.finRange L).map Fin.succ) 0 ok₀ ok₁ ⟨readied 0 0, re⟩ =
      if ok₀ then if ok₁ then .ok ⟨boot N L, re⟩ else .error (.noStack true)
      else .error (.noStack false) := by
  have hm : ((readied (0 : Fin (L + 1)) (0 : Fin (N + 2))).lwps 0).masked = true := by simp [readied]
  have hfirst : createThr 0 0 threadStartCode ok₀ false ⟨(readied 0 0).setState 0 .transition, re⟩ =
      if ok₀ then .ok ⟨firstThr 0 0, re⟩ else .error (.noStack false) :=
    createThr_eq hm (by simp [readied, State.setState]) rfl
  have halloc : startAlloc (0 : Fin (L + 1)) (0 : Fin (N + 2)) (firstThr 0 0) =
      .ok ({ (firstThr 0 0).setState 1 .transition with prevId := some 1 }, some 1) :=
    startAlloc_eq (by simp [firstThr, addThr, readied]) (by simp [firstThr, addThr, Uthread.first]) rfl
      (by simp [firstThr, addThr, readied]) firstThr_alloc
  have hreaper : createThr (0 : Fin (L + 1)) (1 : Fin (N + 2)) (threadStartCode ++ reaper) ok₁ true
      ⟨reaperSlot 0 0 1, re⟩ =
      if ok₁ then .ok ⟨bothThr 0 0 1, re⟩ else .error (.noStack true) :=
    createThr_eq (by simp [reaperSlot, firstThr, addThr, readied])
      (by simp [reaperSlot, firstThr, addThr, readied, State.setState]) rfl
  have ho : ((bothThr (0 : Fin (L + 1)) (0 : Fin (N + 2)) 1).pmtx .runqMtx).owner = none := rfl
  have hlock : pthreadMutexLock (0 : Fin (L + 1)) .runqMtx (bothThr 0 (0 : Fin (N + 2)) 1) =
      .ok ((bothThr 0 0 1).setPmtx .runqMtx ⟨.live, true, some 0⟩) := by
    unfold pthreadMutexLock
    rw [if_neg (by simp [bothThr, reaperSlot, firstThr, addThr, readied, State.setState]), if_pos ho]
    rfl
  have hothers : ∀ k : Fin (L + 1), k ∈ (List.finRange L).map Fin.succ ↔ k ≠ 0 := by
    intro k
    rw [← Fin.exists_succ_eq]
    simp
  unfold createFirstThr
  rw [if_pos hm]
  simp only [Starting.map]
  rw [hfirst]
  cases ok₀ with
  | false => rfl
  | true =>
    simp only [if_true, bind, Except.bind, halloc]
    have hslot : (⟨{ (firstThr 0 0).setState 1 .transition with
        prevId := some 1, reaperThrId := 1 }, re⟩ : Starting (N + 2) (L + 1)) =
        ⟨reaperSlot 0 0 1, re⟩ := rfl
    rw [hslot, hreaper]
    cases ok₁ with
    | false => rfl
    | true =>
      simp only [if_true, Starting.bind]
      rw [hlock]
      simp only [startLwps_lwps, hothers]
      unfold enterSwitch
      rw [if_pos (by simp [bothThr, reaperSlot, firstThr, addThr, hm])]
      refine congrArg (fun x => Except.ok (Starting.mk x re)) ?_
      refine state_ext (fun u => ?_) (fun q => ?_) (fun m => rfl) (fun p => ?_) (fun k => ?_) rfl
      · by_cases h₁ : u = 1
        · subst h₁
          simp [boot, bothThr, addThr, State.setMode]
        · by_cases h₀ : u = 0
          · subst h₀
            simp [boot, bothThr, reaperSlot, firstThr, addThr, State.setMode, State.setState]
          · simp [boot, bothThr, reaperSlot, firstThr, addThr, readied, static, State.setMode,
              State.setState, h₀, h₁]
      · by_cases hq : q = .runq (Fin.last uthMaxprio)
        · subst hq
          simp [boot, bothThr, reaperSlot, firstThr, addThr, readied, static, State.setMode,
            State.setState]
        · simp [boot, bothThr, reaperSlot, firstThr, addThr, readied, static, State.setMode,
            State.setState, hq]
      · cases p with
        | utPmut u =>
          by_cases h₁ : u = 1
          · simp [boot, bothThr, addThr, State.setMode, h₁]
          · simp [boot, bothThr, reaperSlot, firstThr, addThr, readied, State.setMode, State.setState, h₁]
        | _ => simp [boot, bothThr, reaperSlot, firstThr, addThr, readied, State.setMode, State.setState]
      · by_cases hk : k = 0
        · subst hk
          simp [boot, bothThr, reaperSlot, firstThr, addThr, readied, State.setMode, State.setState]
        · simp [boot, bothThr, reaperSlot, firstThr, addThr, readied, State.setMode, State.setState, hk]

/-- **The library starts in `boot`.** -/
theorem start_boot (N L : ℕ) (ok₀ ok₁ : Bool) :
    uthreadStart 0 ((List.finRange L).map Fin.succ) 0 ok₀ ok₁ ⟨static (L + 1) 0, []⟩ =
      if ok₀ then if ok₁ then .ok ⟨boot N L, [.runqMtx]⟩ else .error (.noStack true)
      else .error (.noStack false) := by
  unfold uthreadStart
  rw [tableInit_same fun t => rfl]
  simp only [reaperInit_readied]
  exact createFirstThr_eq ok₀ ok₁ _

end Uthreads
