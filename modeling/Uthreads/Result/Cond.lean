import Uthreads.Proof.CondWait
import Uthreads.Result.Mutex

/-!
# Condition variables

`CondInv c s` relates the queue of the condition variable `c`, the codes of the threads and the log; every
step keeps it (`cond_step`).
-/

namespace Uthreads

variable {N L : ℕ} {l : Fin L} {t u v w : Fin N} {s s' s₁ : State N L} {i : Instr N} {cs new : Code N}
  {a : Act} {c : CondId} {log es rest : List (Event N)} {e : Event N}

open Instr Events

/-! ## The log of a condition variable -/

/-- The threads that have gone to sleep on `c`, in their order. -/
def begunBy (c : CondId) (log : List (Event N)) : List (Fin N) :=
  log.filterMap fun e => match e with
    | .waitBegun c' t => if c' = c then some t else none
    | _ => none

/-- The threads that a signal or a broadcast of `c` has taken off the queue, in their order. -/
def wokenBy (c : CondId) (log : List (Event N)) : List (Fin N) :=
  log.filterMap fun e => match e with
    | .waitWoken c' t _ => if c' = c then some t else none
    | _ => none

/-- The event belongs to a wait of `t` on `c`. -/
@[simp] def Event.inWait (c : CondId) (t : Fin N) : Event N → Bool
  | .waitBegun c' t' | .waitWoken c' t' _ | .waitReturned c' t' => decide (c' = c ∧ t' = t)
  | _ => false

/-- The events of the waits of `t` on `c`. -/
def waitsOf (c : CondId) (t : Fin N) (log : List (Event N)) : List (Event N) :=
  log.filter (Event.inWait c t)

/-- Waits that are over: each has begun, one thread has woken `t`, and `t` has returned. -/
inductive Rounds (c : CondId) (t : Fin N) : List (Event N) → Prop
  | nil : Rounds c t []
  | round {es : List (Event N)} (u : Fin N) (h : Rounds c t es) :
    Rounds c t (es ++ [.waitBegun c t, .waitWoken c t u, .waitReturned c t])

/-- The event belongs to a wait on `c`. -/
@[simp] def Event.onCond (c : CondId) : Event N → Bool
  | .waitBegun c' _ | .waitWoken c' _ _ | .waitReturned c' _ => decide (c' = c)
  | _ => false

/-- The waits on `c` in the log are the same as before. -/
structure SameWaits (c : CondId) (log log' : List (Event N)) : Prop where
  waits : ∀ t, waitsOf c t log' = waitsOf c t log
  begun : begunBy c log' = begunBy c log
  woken : wokenBy c log' = wokenBy c log

theorem sameWaits_append (h : ∀ e ∈ es, e.onCond c = false) : SameWaits c log (log ++ es) := by
  refine ⟨fun t => ?_, ?_, ?_⟩
  · have hnil : waitsOf c t es = [] := by
      refine List.filter_eq_nil_iff.2 fun e he => ?_
      have := h e he
      cases e <;> simp_all
    rw [waitsOf, List.filter_append]
    exact (congrArg _ hnil).trans (List.append_nil _)
  · have hnil : begunBy c es = [] := by
      refine List.filterMap_eq_nil_iff.2 fun e he => ?_
      have := h e he
      cases e <;> simp_all
    rw [begunBy, List.filterMap_append]
    exact (congrArg _ hnil).trans (List.append_nil _)
  · have hnil : wokenBy c es = [] := by
      refine List.filterMap_eq_nil_iff.2 fun e he => ?_
      have := h e he
      cases e <;> simp_all
    rw [wokenBy, List.filterMap_append]
    exact (congrArg _ hnil).trans (List.append_nil _)

theorem logOf_cond (hi : i.inWait c = false) (hsig : i = signalTest c ∨ i = broadcastTest c →
    (s.queues (.ucWaiters c)).tqWaiters = []) : ∀ e ∈ logOf s t i, e.onCond c = false := by
  intro e he
  cases i with
  | swtch q sv r =>
    unfold logOf at he
    split at he <;> simp_all
  | lockTest m | trylockTest m =>
    simp only [logOf] at he
    split at he <;> simp_all
  | unlockTest m =>
    simp only [logOf, List.mem_cons, Option.mem_toList, Option.map_eq_some_iff] at he
    rcases he with rfl | ⟨u, -, rfl⟩ <;> rfl
  | signalTest c' | broadcastTest c' =>
    simp only [logOf, Option.mem_toList, Option.map_eq_some_iff] at he
    obtain ⟨u, hu, rfl⟩ := he
    by_cases hc : c' = c
    · subst hc
      simp [hsig] at hu
    · simpa using hc
  | makeReapable u =>
    simp only [logOf] at he
    split at he <;> simp_all
  | allocScan start prio =>
    simp only [logOf, Option.mem_toList, Option.map_eq_some_iff] at he
    obtain ⟨j, -, rfl⟩ := he
    rfl
  | destroy d => cases d <;> simp_all [logOf]
  | _ => simp_all [logOf]

/-! ## The invariant -/

/-- What the last wait of the thread has left in the log, by the place where the thread is. -/
inductive Unfinished (c : CondId) (s : State N L) (t : Fin N) : List (Event N) → Prop
  | out (h : waitStage c (s.uthreads t).utCtx = .out) : Unfinished c s t []
  | begun (h : waitStage c (s.uthreads t).utCtx = .going ∨ t ∈ (s.queues (.ucWaiters c)).tqWaiters) :
    Unfinished c s t [.waitBegun c t]
  | woken (u : Fin N) (h : waitStage c (s.uthreads t).utCtx = .back)
    (hq : t ∉ (s.queues (.ucWaiters c)).tqWaiters) :
    Unfinished c s t [.waitBegun c t, .waitWoken c t u]

/-- The waiters of a condition variable, the codes and the log. -/
structure CondInv (c : CondId) (s : State N L) : Prop where
  codes : ∀ t, CondCode c (s.uthreads t).utCtx
  queued : ∀ t ∈ (s.queues (.ucWaiters c)).tqWaiters, waitStage c (s.uthreads t).utCtx = .back
  rounds : ∀ t, ∃ es rest, waitsOf c t s.log = es ++ rest ∧ Rounds c t es ∧ Unfinished c s t rest
  order : (∀ t, waitStage c (s.uthreads t).utCtx ≠ .going) →
    begunBy c s.log = wokenBy c s.log ++ (s.queues (.ucWaiters c)).tqWaiters
  coming : ∀ t, waitStage c (s.uthreads t).utCtx = .going →
    begunBy c s.log = wokenBy c s.log ++ (s.queues (.ucWaiters c)).tqWaiters ++ [t]

/-- The thread is where it was. -/
theorem Unfinished.congr (h : Unfinished c s t rest)
    (hst : waitStage c (s'.uthreads t).utCtx = waitStage c (s.uthreads t).utCtx)
    (hq : t ∈ (s'.queues (.ucWaiters c)).tqWaiters ↔ t ∈ (s.queues (.ucWaiters c)).tqWaiters) :
    Unfinished c s' t rest := by
  cases h with
  | out h => exact .out (hst.trans h)
  | begun h => exact .begun (by rwa [hst, hq])
  | woken u h hno => exact .woken u (hst.trans h) (by rwa [hq])

/-- A step that has nothing to do with the condition variable. -/
theorem CondInv.congr (h : CondInv c s) (hcode : ∀ t, CondCode c (s'.uthreads t).utCtx)
    (hst : ∀ t, waitStage c (s'.uthreads t).utCtx = waitStage c (s.uthreads t).utCtx)
    (hq : s'.queues (.ucWaiters c) = s.queues (.ucWaiters c)) (hlog : SameWaits c s.log s'.log) :
    CondInv c s' := by
  refine ⟨hcode, fun t ht => ?_, fun t => ?_, fun hno => ?_, fun t ht => ?_⟩
  · rw [hq] at ht
    rw [hst]
    exact h.queued t ht
  · obtain ⟨es, rest, he, hes, hrest⟩ := h.rounds t
    exact ⟨es, rest, by rw [hlog.waits, he], hes, hrest.congr (hst t) (by rw [hq])⟩
  · simp only [hst] at hno
    rw [hlog.begun, hlog.woken, hq]
    exact h.order hno
  · rw [hst] at ht
    rw [hlog.begun, hlog.woken, hq]
    exact h.coming t ht

/-- A thread that holds `pmut` keeps the others out of the way to the queue. -/
theorem CondInv.alone (hc : Core s) (h : CondInv c s) (hp : Held (.cPmut c) (s.uthreads t).utCtx)
    (hv : v ≠ t) : waitStage c (s.uthreads v).utCtx ≠ .going := by
  intro hg
  have hp' := ((h.codes v).going_held (hc.codes.wf v) hg).1
  exact hv (Sum.inl.inj (hc.locks.one (.cPmut c) (.inl v) (.inl t) hp' hp))

/-- Nobody is on the way to the queue while it is tested. -/
theorem CondInv.tested (hc : Core s) (h : CondInv c s) (hcode : (s.uthreads t).utCtx = i :: cs)
    (hi : i = signalTest c ∨ i = broadcastTest c) (v : Fin N) :
    waitStage c (s.uthreads v).utCtx ≠ .going := by
  by_cases hv : v = t
  · subst hv
    intro hg
    obtain ⟨-, j, cs', hj, hlk⟩ := (h.codes v).going_held (hc.codes.wf v) hg
    rw [hcode] at hj
    obtain ⟨rfl, -⟩ := List.cons.inj hj
    rcases hi with rfl | rfl <;> simp at hlk
  · refine h.alone hc ?_ hv
    rw [hcode]
    rcases hi with rfl | rfl <;> simp

/-! ## One instruction -/

/-- The other threads. -/
theorem cond_other (hc : Core s) (h : CondInv c s) (he : Effect l t s i s₁ new) (hv : v ≠ t) :
    CondCode c ((s₁.setCtx t (new ++ cs)).uthreads v).utCtx ∧
      waitStage c ((s₁.setCtx t (new ++ cs)).uthreads v).utCtx = waitStage c (s.uthreads v).utCtx := by
  rcases other_code cs he hv with e | ⟨-, hvac, e⟩
  · rw [e]
    exact ⟨h.codes v, rfl⟩
  · -- the slot that is set up had no thread
    have hgone : waitStage c (s.uthreads v).utCtx = .out := by
      rcases (hc.free hvac.1).2.2.2 with (e | e | e) | e <;> rw [e] <;>
        exact waitStage_of_none (by simp [deadCode, uthreadSwitch, threadStartCode])
    have hnone : ∀ j ∈ (threadStartCode : Code N), j.inWait c = false := by simp [threadStartCode]
    rw [e, hgone]
    exact ⟨condCode_of_none hnone, waitStage_of_none hnone⟩

theorem cond_codes (hc : Core s) (h : CondInv c s) (hcode : (s.uthreads t).utCtx = i :: cs)
    (he : Effect l t s i s₁ new) (v : Fin N) :
    CondCode c ((s₁.setCtx t (new ++ cs)).uthreads v).utCtx := by
  by_cases hv : v = t
  · subst hv
    have hwf := hc.codes.wf v
    have hcc := h.codes v
    rw [hcode] at hwf hcc
    simpa using effect_condCode hwf hcc he
  · exact (cond_other hc h he hv).1

theorem cond_quiet (hc : Core s) (h : CondInv c s) (hcode : (s.uthreads t).utCtx = i :: cs)
    (he : Effect l t s i s₁ new) (hh : Hist t s i s₁) (hi : i.inWait c = false)
    (hsig : i = signalTest c ∨ i = broadcastTest c → (s.queues (.ucWaiters c)).tqWaiters = []) :
    CondInv c (s₁.setCtx t (new ++ cs)) := by
  refine h.congr (cond_codes hc h hcode he) (fun v => ?_) ?_ ?_
  · by_cases hv : v = t
    · subst hv
      have hwf := hc.codes.wf v
      rw [hcode] at hwf
      rw [hcode]
      simpa using effect_stage hwf hi he
    · exact (cond_other hc h he hv).2
  · by_cases hs : i = signalTest c ∨ i = broadcastTest c
    · rw [State.setCtx_queues, (effect_unsignalled he hs (hsig hs)).1.queues]
    · refine effect_queues he (by simp) ?_
      obtain ⟨-, -, hj⟩ := inWait_false.1 hi
      cases i with
      | swtch q sv r =>
        intro hq
        obtain rfl : q = some (.ucWaiters c) := by simpa using hq
        simp at hj
      | signalTest c' | broadcastTest c' =>
        intro hq
        obtain rfl : c = c' := by simpa using hq
        exact hs (by simp)
      | createInit => exact fun hq => by cases (queues_createInit hq).2
      | destroy => exact fun hq => by cases (queues_destroy hq).2
      | _ => simp
  · show SameWaits c s.log s₁.log
    rw [hh.log]
    exact sameWaits_append (logOf_cond hi hsig)

/-- A thread marks itself. -/
theorem cond_mark (hc : Core s) (h : CondInv c s) (hon : OnStack s l t)
    (hcode : (s.uthreads t).utCtx = waitMark c :: cs) (he : Effect l t s (waitMark c) s₁ new)
    (hh : Hist t s (waitMark c) s₁) : CondInv c (s₁.setCtx t (new ++ cs)) := by
  have hwf := hc.codes.wf t
  have hcc := h.codes t
  rw [hcode] at hwf hcc
  obtain ⟨hbefore, hafter⟩ := effect_mark hwf hcc he
  have hq : s₁.queues (.ucWaiters c) = s.queues (.ucWaiters c) := effect_queues he (by simp) (by simp)
  have hout : t ∉ (s.queues (.ucWaiters c)).tqWaiters := hc.not_queued hon (by simp) (by simp)
  have hlog : s₁.log = s.log ++ [.waitBegun c t] := hh.log
  have halone : ∀ v, v ≠ t → waitStage c (s.uthreads v).utCtx ≠ .going := fun v hv =>
    h.alone hc (by rw [hcode]; simp) hv
  have hst : waitStage c ((s₁.setCtx t (new ++ cs)).uthreads t).utCtx = .going := by simpa using hafter
  have hother : ∀ v, v ≠ t → waitStage c ((s₁.setCtx t (new ++ cs)).uthreads v).utCtx =
      waitStage c (s.uthreads v).utCtx := fun v hv => (cond_other hc h he hv).2
  refine ⟨cond_codes hc h hcode he, fun v hv => ?_, fun v => ?_, fun hno => absurd hst (hno t),
    fun v hv => ?_⟩
  · rw [State.setCtx_queues, hq] at hv
    rw [hother v fun e => hout (e ▸ hv)]
    exact h.queued v hv
  · obtain ⟨es, rest, hes, hr, hrest⟩ := h.rounds v
    by_cases hv : v = t
    · subst hv
      rw [← hcode] at hbefore
      obtain rfl : rest = [] := by
        cases hrest with
        | out => rfl
        | begun h' =>
          rw [hbefore] at h'
          exact absurd (h'.resolve_left (by simp)) hout
        | woken _ h' =>
          rw [hbefore] at h'
          cases h'
      refine ⟨es, [.waitBegun c v], ?_, hr, .begun (.inl hst)⟩
      rw [State.setCtx_log, hlog, waitsOf, List.filter_append, ← waitsOf, hes]
      simp
    · refine ⟨es, rest, ?_, hr, hrest.congr (hother v hv) (by rw [State.setCtx_queues, hq])⟩
      rw [State.setCtx_log, hlog, waitsOf, List.filter_append, ← waitsOf, hes]
      simp [Ne.symm hv]
  · have hvt : v = t := by
      by_contra hne
      rw [hother v hne] at hv
      exact halone v hne hv
    have hold := h.order fun w hw => by
      by_cases hwt : w = t
      · rw [hwt, hcode, hbefore] at hw
        cases hw
      · exact halone w hwt hw
    have hbegun : begunBy c s₁.log = begunBy c s.log ++ [t] := by simp [hlog, begunBy]
    have hwoken : wokenBy c s₁.log = wokenBy c s.log := by simp [hlog, wokenBy]
    rw [hvt, State.setCtx_log, State.setCtx_queues, hq, hbegun, hwoken, hold]

/-- A thread joins the queue. -/
theorem cond_join {q : Option (QueueId N)} {sv : Bool} {r : Option (PmtxId N)} (hc : Core s)
    (h : CondInv c s) (hon : OnStack s l t) (hcode : (s.uthreads t).utCtx = swtch q sv r :: cs)
    (hi : (swtch q sv r).joinsCond c = true) (he : Effect l t s (swtch q sv r) s₁ new)
    (hh : Hist t s (swtch q sv r) s₁) : CondInv c (s₁.setCtx t (new ++ cs)) := by
  obtain rfl : q = some (.ucWaiters c) := by
    rcases q with _ | q
    · cases hi
    · cases q <;> simp_all
  have hcc := h.codes t
  rw [hcode] at hcc
  obtain ⟨hbefore, hafter⟩ := effect_join hcc hi he
  rw [← hcode] at hbefore
  have hout : t ∉ (s.queues (.ucWaiters c)).tqWaiters := hc.not_queued hon (by simp) (by simp)
  have hq : (s₁.queues (.ucWaiters c)).tqWaiters = (s.queues (.ucWaiters c)).tqWaiters ++ [t] := by
    cases (effect_switch he).2 with
    | queue _ _ hs₁ hs =>
      obtain ⟨-, rfl⟩ := utqueueEnqueue_ok hs₁
      simp [hs.queues]
  have hlog : s₁.log = s.log := by rw [hh.log]; simp [logOf]
  have hst : waitStage c ((s₁.setCtx t (new ++ cs)).uthreads t).utCtx = .back := by simpa using hafter
  have hother : ∀ v, v ≠ t → waitStage c ((s₁.setCtx t (new ++ cs)).uthreads v).utCtx =
      waitStage c (s.uthreads v).utCtx := fun v hv => (cond_other hc h he hv).2
  have hheld := ((h.codes t).going_held (hc.codes.wf t) hbefore).1
  have hmem : ∀ v, v ≠ t → (v ∈ ((s₁.setCtx t (new ++ cs)).queues (.ucWaiters c)).tqWaiters ↔
      v ∈ (s.queues (.ucWaiters c)).tqWaiters) := by
    intro v hv
    rw [State.setCtx_queues, hq]
    simp [hv]
  refine ⟨cond_codes hc h hcode he, fun v hv => ?_, fun v => ?_, fun _ => ?_, fun v hv => ?_⟩
  · by_cases hvt : v = t
    · rw [hvt, hst]
    · rw [hother v hvt]
      exact h.queued v ((hmem v hvt).1 hv)
  · obtain ⟨es, rest, hes, hr, hrest⟩ := h.rounds v
    refine ⟨es, rest, by rw [State.setCtx_log, hlog, hes], hr, ?_⟩
    by_cases hvt : v = t
    · subst hvt
      cases hrest with
      | out h' =>
        rw [hbefore] at h'
        cases h'
      | begun =>
        refine .begun (.inr ?_)
        rw [State.setCtx_queues, hq]
        simp
      | woken _ h' =>
        rw [hbefore] at h'
        cases h'
    · exact hrest.congr (hother v hvt) (hmem v hvt)
  · rw [State.setCtx_log, hlog, State.setCtx_queues, hq, h.coming t hbefore, List.append_assoc]
  · have hvt : v ≠ t := by
      rintro rfl
      rw [hst] at hv
      cases hv
    rw [hother v hvt] at hv
    exact absurd hv (h.alone hc hheld hvt)

/-- A signal, or a round of a broadcast, takes the first waiter off the queue. -/
theorem cond_wake {x : List (Fin N)} (hc : Core s) (h : CondInv c s)
    (hcode : (s.uthreads t).utCtx = i :: cs) (he : Effect l t s i s₁ new) (hh : Hist t s i s₁)
    (hi : i = signalTest c ∨ i = broadcastTest c)
    (hw : (s.queues (.ucWaiters c)).tqWaiters = w :: x)
    (hq : (s₁.queues (.ucWaiters c)).tqWaiters = x) : CondInv c (s₁.setCtx t (new ++ cs)) := by
  have hwf := hc.codes.wf t
  rw [hcode] at hwf
  have hnone : i.inWait c = false := by rcases hi with rfl | rfl <;> rfl
  have hlog : s₁.log = s.log ++ [.waitWoken c w t] := by
    rw [hh.log]
    rcases hi with rfl | rfl <;> simp [logOf, hw]
  have hst : ∀ v, waitStage c ((s₁.setCtx t (new ++ cs)).uthreads v).utCtx =
      waitStage c (s.uthreads v).utCtx := by
    intro v
    by_cases hv : v = t
    · subst hv
      rw [hcode]
      simpa using effect_stage hwf hnone he
    · exact (cond_other hc h he hv).2
  have hgoing := h.tested hc hcode hi
  have hnd : w ∉ x := by
    have := hc.links.nodup (.ucWaiters c)
    rw [hw] at this
    exact (List.nodup_cons.1 this).1
  have hmem : ∀ v, v ≠ w → (v ∈ ((s₁.setCtx t (new ++ cs)).queues (.ucWaiters c)).tqWaiters ↔
      v ∈ (s.queues (.ucWaiters c)).tqWaiters) := by
    intro v hv
    rw [State.setCtx_queues, hq, hw]
    simp [hv]
  refine ⟨cond_codes hc h hcode he, fun v hv => ?_, fun v => ?_, fun _ => ?_, fun v hv => ?_⟩
  · rw [State.setCtx_queues, hq] at hv
    rw [hst]
    exact h.queued v (by rw [hw]; exact List.mem_cons_of_mem _ hv)
  · obtain ⟨es, rest, hes, hr, hrest⟩ := h.rounds v
    by_cases hv : v = w
    · subst hv
      have hin : v ∈ (s.queues (.ucWaiters c)).tqWaiters := by rw [hw]; simp
      have hback := h.queued v hin
      obtain rfl : rest = [.waitBegun c v] := by
        cases hrest with
        | out h' =>
          rw [hback] at h'
          cases h'
        | begun => rfl
        | woken _ _ hno => exact absurd hin hno
      refine ⟨es, [.waitBegun c v, .waitWoken c v t], ?_, hr, .woken t (by rw [hst, hback]) ?_⟩
      · rw [State.setCtx_log, hlog, waitsOf, List.filter_append, ← waitsOf, hes]
        simp
      · rwa [State.setCtx_queues, hq]
    · refine ⟨es, rest, ?_, hr, hrest.congr (hst v) (hmem v hv)⟩
      rw [State.setCtx_log, hlog, waitsOf, List.filter_append, ← waitsOf, hes]
      simp [Ne.symm hv]
  · have hold := h.order hgoing
    rw [hw] at hold
    rw [State.setCtx_log, hlog, State.setCtx_queues, hq]
    simpa [begunBy, wokenBy] using hold
  · rw [hst] at hv
    exact absurd hv (hgoing v)

/-- A thread returns. -/
theorem cond_done (hc : Core s) (h : CondInv c s) (hon : OnStack s l t)
    (hcode : (s.uthreads t).utCtx = waitDone c :: cs) (he : Effect l t s (waitDone c) s₁ new)
    (hh : Hist t s (waitDone c) s₁) : CondInv c (s₁.setCtx t (new ++ cs)) := by
  have hcc := h.codes t
  rw [hcode] at hcc
  obtain ⟨hbefore, hafter⟩ := effect_waitDone hcc he
  rw [← hcode] at hbefore
  have hq : s₁.queues (.ucWaiters c) = s.queues (.ucWaiters c) := effect_queues he (by simp) (by simp)
  have hout : t ∉ (s.queues (.ucWaiters c)).tqWaiters := hc.not_queued hon (by simp) (by simp)
  have hlog : s₁.log = s.log ++ [.waitReturned c t] := hh.log
  have hst : waitStage c ((s₁.setCtx t (new ++ cs)).uthreads t).utCtx = .out := by simpa using hafter
  have hother : ∀ v, v ≠ t → waitStage c ((s₁.setCtx t (new ++ cs)).uthreads v).utCtx =
      waitStage c (s.uthreads v).utCtx := fun v hv => (cond_other hc h he hv).2
  have hgoing : ∀ v, waitStage c ((s₁.setCtx t (new ++ cs)).uthreads v).utCtx = .going ↔
      waitStage c (s.uthreads v).utCtx = .going := by
    intro v
    by_cases hv : v = t
    · rw [hv, hst, hbefore]
      simp
    · rw [hother v hv]
  refine ⟨cond_codes hc h hcode he, fun v hv => ?_, fun v => ?_, fun hno => ?_, fun v hv => ?_⟩
  · rw [State.setCtx_queues, hq] at hv
    rw [hother v fun e => hout (e ▸ hv)]
    exact h.queued v hv
  · obtain ⟨es, rest, hes, hr, hrest⟩ := h.rounds v
    by_cases hv : v = t
    · subst hv
      obtain ⟨u, rfl⟩ : ∃ u, rest = [.waitBegun c v, .waitWoken c v u] := by
        cases hrest with
        | out h' =>
          rw [hbefore] at h'
          cases h'
        | begun h' =>
          rw [hbefore] at h'
          exact absurd (h'.resolve_left (by simp)) hout
        | woken u => exact ⟨u, rfl⟩
      refine ⟨es ++ [.waitBegun c v, .waitWoken c v u, .waitReturned c v], [], ?_, .round u hr, .out hst⟩
      rw [State.setCtx_log, hlog, waitsOf, List.filter_append, ← waitsOf, hes]
      simp
    · refine ⟨es, rest, ?_, hr, hrest.congr (hother v hv) (by rw [State.setCtx_queues, hq])⟩
      rw [State.setCtx_log, hlog, waitsOf, List.filter_append, ← waitsOf, hes]
      simp [Ne.symm hv]
  · have hold := h.order fun v hv => hno v ((hgoing v).2 hv)
    rw [State.setCtx_log, State.setCtx_queues, hq, hlog]
    simpa [begunBy, wokenBy] using hold
  · have hold := h.coming v ((hgoing v).1 hv)
    rw [State.setCtx_log, State.setCtx_queues, hq, hlog]
    simpa [begunBy, wokenBy] using hold

/-- **The condition variable after an instruction.** -/
theorem cond_thread (hc : Core s) (h : CondInv c s) (hon : OnStack s l t)
    (hcode : (s.uthreads t).utCtx = i :: cs) (he : Effect l t s i s₁ new) (hh : Hist t s i s₁) :
    CondInv c (s₁.setCtx t (new ++ cs)) := by
  by_cases hmark : i = waitMark c
  · subst hmark
    exact cond_mark hc h hon hcode he hh
  by_cases hdone : i = waitDone c
  · subst hdone
    exact cond_done hc h hon hcode he hh
  by_cases hjoin : i.joinsCond c = true
  · cases i with
    | swtch => exact cond_join hc h hon hcode hjoin he hh
    | _ => cases hjoin
  by_cases hwake : (i = signalTest c ∨ i = broadcastTest c) ∧ (s.queues (.ucWaiters c)).tqWaiters ≠ []
  · obtain ⟨hi, hne⟩ := hwake
    obtain ⟨w, x, hw⟩ := List.exists_cons_of_ne_nil hne
    exact cond_wake hc h hcode he hh hi hw (effect_signalled he hi hw).1
  · refine cond_quiet hc h hcode he hh (inWait_false.2 ⟨hmark, hdone, by simpa using hjoin⟩) fun hi => ?_
    by_contra hne
    exact hwake ⟨hi, hne⟩

/-! ## The runs -/

/-- **Every step keeps the condition variable.** -/
theorem cond_step (hc : Core s) (h : CondInv c s) (ht : Turn s l a s') : CondInv c s' := by
  cases ht with
  | @thread _ t i cs new s₁ hon hcode he hh => exact cond_thread hc h hon hcode he hh
  | call t call hon hcode =>
    obtain ⟨hcall, hout⟩ := call_condCode (c := c) s.incarnation t call
    have hold : waitStage c (s.uthreads t).utCtx = .out := by rw [hcode]; rfl
    refine h.congr (fun v => ?_) (fun v => ?_) rfl ⟨fun _ => rfl, rfl, rfl⟩ <;> by_cases hv : v = t
    · subst hv
      simpa using hcall
    · simpa [hv] using h.codes v
    · subst hv
      rw [hold]
      simpa using hout
    · simp [hv]
  | preempt t hon hm hst h0 =>
    obtain ⟨hint, hstage⟩ := condCode_interrupt (h.codes t) (hc.codes.wf t) (preemptible hc hon h0)
    refine h.congr (fun v => ?_) (fun v => ?_) rfl ⟨fun _ => rfl, rfl, rfl⟩ <;> by_cases hv : v = t
    · subst hv
      simpa using hint
    · simpa [hv] using h.codes v
    · subst hv
      simpa using hstage
    · simp [hv]
  | lwp hb =>
    have hcode := fun v => (hb.fields v).1
    refine h.congr (fun v => ?_) (fun v => by rw [hcode]) (hb.queues _ (by simp)) ?_
    · rw [hcode]
      exact h.codes v
    · rw [hb.hist.log]
      exact ⟨fun _ => rfl, rfl, rfl⟩

theorem boot_cond : CondInv c (boot N L) := by
  have hnone : ∀ t, ∀ j ∈ ((boot N L).uthreads t).utCtx, j.inWait c = false := by
    intro t
    rcases boot_code (L := L) t with e | e | e <;> rw [e] <;>
      simp [threadStartCode, reaper, uthreadMtxLock]
  have hstage : ∀ t, waitStage c ((boot N L).uthreads t).utCtx = .out := fun t =>
    waitStage_of_none (hnone t)
  have hq : ((boot N L).queues (.ucWaiters c)).tqWaiters = [] := by rw [boot_queue]; simp
  refine ⟨fun t => condCode_of_none (hnone t), fun t ht => ?_,
    fun t => ⟨[], [], rfl, .nil, .out (hstage t)⟩, fun _ => ?_, fun t ht => ?_⟩
  · rw [hq] at ht
    cases ht
  · rw [hq]
    rfl
  · rw [hstage] at ht
    cases ht

theorem cond_reachable {ok : State (N + 2) (L + 1) → Fin (L + 1) × Act → Prop}
    {s : State (N + 2) (L + 1)} (h : Reachable ok (boot N L) s) : CondInv c s :=
  h.invariant_of (P := CondInv c) (fun _ hr => core_reachable boot_core hr) boot_cond
    fun _ _ _ hc hi _ hn => cond_step hc hi (move_turn hc (step_move hc.codes.wf hn))

/-! ## Who is found on the queue -/

/-- The thread has gone to sleep on `c`, and nobody has taken it off the queue since. -/
def Sleeps (c : CondId) (t : Fin N) (log : List (Event N)) : Prop :=
  Since (· = .waitBegun c t) (fun e => ∃ u, e = .waitWoken c t u) log

theorem Rounds.not_sleeps (h : Rounds c t es) : ¬ Sleeps c t es := by
  cases h with
  | nil => exact since_nil
  | round u h =>
    rw [List.append_cons, List.append_cons _ (Event.waitWoken c t u), Sleeps, since_concat,
      since_concat]
    simp

/-- Who sleeps is on its way to the queue, or on it. -/
theorem CondInv.sleeps (h : CondInv c s) (hs : Sleeps c t s.log) :
    waitStage c (s.uthreads t).utCtx = .going ∨ t ∈ (s.queues (.ucWaiters c)).tqWaiters := by
  obtain ⟨es, rest, hes, hr, hrest⟩ := h.rounds t
  have hs' : Sleeps c t (es ++ rest) := by
    rw [← hes]
    exact hs.filter (by rintro e rfl; simp)
  cases hrest with
  | out =>
    rw [List.append_nil] at hs'
    exact absurd hs' hr.not_sleeps
  | begun hq => exact hq
  | woken u =>
    rw [List.append_cons, Sleeps, since_concat] at hs'
    simp at hs'

/-- **No lost signal.** -/
theorem CondInv.finds (hc : Core s) (h : CondInv c s) (hcode : (s.uthreads u).utCtx = i :: cs)
    (hi : i = signalTest c ∨ i = broadcastTest c)
    (ht : Released c (s.uthreads t).utCtx ∨ Sleeps c t s.log) :
    t ∈ (s.queues (.ucWaiters c)).tqWaiters := by
  have hheld : Held (.cPmut c) (s.uthreads u).utCtx := by
    rw [hcode]
    rcases hi with rfl | rfl <;> simp
  have hcc := h.codes u
  rw [hcode] at hcc
  rcases ht with hr | hs
  · exfalso
    have hp := (h.codes t).released_held (hc.codes.wf t) hr
    have htu : t = u := Sum.inl.inj (hc.locks.one (.cPmut c) (.inl t) (.inl u) hp hheld)
    rw [htu, hcode] at hr
    have hcs : Released c cs := by
      rcases hr with e | ⟨-, hr⟩
      · rcases hi with rfl | rfl <;> cases e
      · exact hr
    exact hcc.1.held (by rcases hi with rfl | rfl <;> simp) hcs
  · exact (h.sleeps hs).resolve_left (h.tested hc hcode hi t)

end Uthreads
