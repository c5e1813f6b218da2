import Uthreads.Lib.Levels
import Uthreads.Lib.Potential
import Uthreads.Result.Memory

/-!
# How often a runnable thread is passed over

A thread on the run queue waits for those ahead of it: on a higher level, or before it on its own.

* `overtaken_bound`: in every run in which `u` stays on its level, no more dispatches pass `u` over than
  there were threads ahead of it, and have since then arrived on higher levels. When nobody is ahead, the
  next dispatch is that of `u`.
-/

namespace Uthreads

open Levels

variable {N L : ℕ} {l : Fin L} {t u v : Fin N} {s s' s₁ : State N L} {i : Instr N} {code : Code N}
  {cs : List (LibCall N)} {a : Act} {p r : Fin (uthMaxprio + 1)} {c : LibCall N}
  {x y : Seqs (QueueId N) (Fin N)}

/-- The levels of `runq_table`. -/
def levels (s : State N L) (r : Fin (uthMaxprio + 1)) : List (Fin N) := (s.queues (.runq r)).tqWaiters

/-- The queue functions that a step calls, with what they return. -/
def answers (s : State N L) (b : Fin L × Act) (_ : State N L) : List (LibCall N × Answer (Fin N)) :=
  (stepCalls s b.1 b.2).map fun c => (c, answer s c)

/-- A dispatch of somebody else. -/
def overtakes (u : Fin N) : LibCall N × Answer (Fin N) → ℕ
  | (.op (.dequeue (.runq _)), .thread (some v)) => if v = u then 0 else 1
  | _ => 0

/-- An arrival on a level above `p`. -/
def arrives (p : Fin (uthMaxprio + 1)) : LibCall N → ℕ
  | .op (.enqueue (.runq r) _) => if p < r then 1 else 0
  | _ => 0

/-- `u` is on level `p`, and the step does not end the process. -/
def Stays (u : Fin N) (p : Fin (uthMaxprio + 1)) (s : State N L) (b : Fin L × Act) : Prop :=
  u ∈ levels s p ∧ ∀ s' ∈ next s b, s'.halt = none

instance (u : Fin N) (p : Fin (uthMaxprio + 1)) (s : State N L) (b : Fin L × Act) :
    Decidable (Stays u p s b) :=
  inferInstanceAs (Decidable (_ ∧ _))

/-! ## Calls -/

/-- The levels in the sequences of the queues. -/
def seqLevels (x : Seqs (QueueId N) (Fin N)) (r : Fin (uthMaxprio + 1)) : List (Fin N) :=
  (x (.runq r)).getD []

@[simp] theorem seqLevels_seqs : seqLevels (seqs s) = levels s := rfl

/-- A call that neither takes a thread off the run queue nor puts `u` on level `p`. -/
def Harmless (u : Fin N) (p : Fin (uthMaxprio + 1)) (c : LibCall N) : Prop :=
  (∀ r, c ≠ .op (.dequeue (.runq r))) ∧ c ≠ .op (.enqueue (.runq p) u)

/-- What a call writes to another queue is no matter of the levels. -/
theorem seqLevels_update {q : QueueId N} {o : Option (List (Fin N))}
    (h : ∀ r, q = .runq r → o.getD [] = seqLevels x r) :
    seqLevels (Function.update x q o) = seqLevels x := by
  funext r
  unfold seqLevels
  by_cases hr : .runq r = q
  · subst hr
    rw [Function.update_self]
    exact h r rfl
  · rw [Function.update_of_ne hr]

theorem seqLevels_runq {o : Option (List (Fin N))} :
    seqLevels (Function.update x (.runq r) o) = Function.update (seqLevels x) r (o.getD []) := by
  funext j
  unfold seqLevels
  by_cases hj : j = r
  · subst hj; simp
  · simp [hj]

/-- A harmless call puts somebody ahead of `u` only if it is an arrival above. -/
theorem call_waits (hf : Fits x c) (hq : Harmless u p c) (hnd : (seqLevels x p).Nodup) :
    toServe (seqLevels (seqAfter x c)) p u ≤ toServe (seqLevels x) p u + arrives p c ∧
      (seqLevels (seqAfter x c) p).Nodup := by
  have hsame : ∀ {q : QueueId N} {o : Option (List (Fin N))},
      (∀ r, q = .runq r → o.getD [] = seqLevels x r) →
      toServe (seqLevels (Function.update x q o)) p u ≤ toServe (seqLevels x) p u ∧
        (seqLevels (Function.update x q o) p).Nodup := by
    intro q o h
    rw [seqLevels_update h]
    exact ⟨le_rfl, hnd⟩
  cases c with
  | empty q => exact ⟨Nat.le_add_right _ _, hnd⟩
  | op op =>
    cases op with
    | init q =>
      refine (hsame ?_).imp_left fun h => h.trans (Nat.le_add_right _ _)
      rintro r rfl
      rcases hf with h | h <;> simp [seqLevels, h]
    | enqueue q t =>
      by_cases hr : ∃ r, q = .runq r
      · obtain ⟨r, rfl⟩ := hr
        obtain ⟨xs, hxs⟩ := Option.isSome_iff_exists.1 hf.1
        have hlev : seqLevels x r = xs := by simp [seqLevels, hxs]
        have hafter : seqLevels (seqAfter x (.op (.enqueue (.runq r) t))) =
            Function.update (seqLevels x) r (seqLevels x r ++ [t]) := by
          simp only [seqAfter, seqStep, seqLevels_runq, hxs, hlev, Option.map_some, Option.getD_some]
        rw [hafter]
        unfold toServe
        constructor
        · by_cases hu : u ∈ seqLevels x p
          · rw [if_pos hu, ahead_append hu]
            split <;> simp [arrives]
          · rw [if_neg]
            · omega
            · by_cases hrp : r = p
              · subst hrp
                rw [Function.update_self, List.mem_append, List.mem_singleton]
                rintro (h | rfl)
                · exact hu h
                · exact hq.2 rfl
              · rwa [Function.update_of_ne (Ne.symm hrp)]
        · by_cases hrp : r = p
          · subst hrp
            rw [Function.update_self, List.nodup_append]
            refine ⟨hnd, List.nodup_singleton t, fun w hw z hz => ?_⟩
            rw [List.mem_singleton.1 hz]
            rintro rfl
            exact hf.2 _ xs hxs (hlev ▸ hw)
          · rwa [Function.update_of_ne (Ne.symm hrp)]
      · have hq' : ∀ r, q ≠ .runq r := fun r e => hr ⟨r, e⟩
        refine (hsame fun r e => absurd e (hq' r)).imp_left fun h => h.trans (Nat.le_add_right _ _)
    | dequeue q =>
      exact (hsame fun r e => absurd (by rw [e]) (hq.1 r)).imp_left fun h => h.trans (Nat.le_add_right _ _)
    | remove q t =>
      by_cases hr : ∃ r, q = .runq r
      · obtain ⟨r, rfl⟩ := hr
        obtain ⟨xs, hxs, -⟩ := hf
        have hlev : seqLevels x r = xs := by simp [seqLevels, Option.mem_def.1 hxs]
        have hafter : seqLevels (seqAfter x (.op (.remove (.runq r) t))) =
            Function.update (seqLevels x) r ((seqLevels x r).erase t) := by
          simp only [seqAfter, seqStep, seqLevels_runq, Option.mem_def.1 hxs, hlev, Option.map_some,
            Option.getD_some]
        rw [hafter]
        unfold toServe
        constructor
        · by_cases hu : u ∈ Function.update (seqLevels x) r ((seqLevels x r).erase t) p
          · have hold : u ∈ seqLevels x p ∧ (t ≠ u ∨ r ≠ p) := by
              by_cases hrp : r = p
              · subst hrp
                rw [Function.update_self] at hu
                refine ⟨List.mem_of_mem_erase hu, .inl ?_⟩
                rintro rfl
                exact hnd.not_mem_erase hu
              · rw [Function.update_of_ne (Ne.symm hrp)] at hu
                exact ⟨hu, .inr hrp⟩
            rw [if_pos hu, if_pos hold.1]
            exact (ahead_erase_le hold.2).trans (Nat.le_add_right _ _)
          · rw [if_neg hu]
            omega
        · by_cases hrp : r = p
          · subst hrp
            rw [Function.update_self]
            exact hnd.erase t
          · rwa [Function.update_of_ne (Ne.symm hrp)]
      · have hq' : ∀ r, q ≠ .runq r := fun r e => hr ⟨r, e⟩
        refine (hsame fun r e => absurd e (hq' r)).imp_left fun h => h.trans (Nat.le_add_right _ _)

theorem makes_waits {rs : List (Answer (Fin N))} (h : Makes x cs rs y) (hq : ∀ c ∈ cs, Harmless u p c)
    (hnd : (seqLevels x p).Nodup) :
    toServe (seqLevels y) p u ≤ toServe (seqLevels x) p u + Runs.total (arrives p) cs := by
  induction h with
  | nil => exact Nat.le_add_right _ _
  | @cons a b c cs rs hf _ ih =>
    obtain ⟨hle, hnd'⟩ := call_waits hf (hq c List.mem_cons_self) hnd
    have := ih (fun d hd => hq d (List.mem_cons_of_mem c hd)) hnd'
    rw [Runs.total_cons]
    omega

/-! ## Steps -/

theorem runqCalls_harmless {prio : ℤ} (hv : v ≠ u) (hcall : c ∈ runqCalls v prio) : Harmless u p c := by
  simp only [runqCalls, List.mem_map] at hcall
  obtain ⟨r, -, rfl⟩ := hcall
  exact ⟨by simp, by simp [hv]⟩

theorem drainCalls_harmless {q : QueueId N} (hq : ∀ r, q ≠ .runq r) (hcall : c ∈ drainCalls s q) :
    Harmless u p c := by
  unfold drainCalls at hcall
  split at hcall
  · obtain rfl := List.mem_singleton.1 hcall
    exact ⟨by simp, by simp⟩
  · rcases List.mem_cons.1 hcall with rfl | hcall
    · exact ⟨by simp, by simp⟩
    · obtain rfl := List.mem_singleton.1 hcall
      exact ⟨by simp [hq], by simp⟩

/-- The queue functions that a thread calls. A new priority of `u` is another level. -/
theorem queueCalls_harmless (hc : Core s) (hon : OnStack s l t) (hcode : (s.uthreads t).utCtx = i :: code)
    (hu : u ∈ levels s p) (hcall : c ∈ i.queueCalls s t) : Harmless u p c := by
  obtain ⟨hrun, hprio⟩ := (hc.runq.mem u p).1 hu
  have ht : t ≠ u := by
    rintro rfl
    have hne : expect (s.uthreads t).utCtx ≠ .runnable := by
      unfold expect
      split_ifs <;> simp
    exact hne ((hc.active hon).1 ▸ hrun)
  cases i with
  | swtch q sv m =>
    simp only [Instr.queueCalls, List.mem_append, List.mem_map] at hcall
    rcases hcall with ⟨q', -, rfl⟩ | hcall
    · exact ⟨by simp, by simp [ht]⟩
    · split at hcall
      · exact runqCalls_harmless ht hcall
      · cases hcall
  | wakeTest v =>
    simp only [Instr.queueCalls] at hcall
    split at hcall
    · rename_i hw
      refine runqCalls_harmless ?_ hcall
      rintro rfl
      rw [hrun] at hw
      cases hw
    · cases hcall
  | startTest v prio =>
    simp only [Instr.queueCalls] at hcall
    split at hcall
    · rename_i hw
      refine runqCalls_harmless ?_ hcall
      rintro rfl
      rw [hrun] at hw
      cases hw
    · cases hcall
  | setprioTest v prio =>
    simp only [Instr.queueCalls] at hcall
    split at hcall
    · rename_i hw
      unfold requeueCalls at hcall
      split at hcall
      · rename_i r₁ r₂ h₁ h₂
        simp only [List.mem_cons, List.not_mem_nil, or_false] at hcall
        rcases hcall with rfl | rfl
        · exact ⟨by simp, by simp⟩
        · refine ⟨by simp, fun e => ?_⟩
          simp only [QueueCall.op.injEq, QueueOp.enqueue.injEq, QueueId.runq.injEq] at e
          obtain ⟨rfl, rfl⟩ := e
          exact hw.2 (hprio.trans (runqIndex_eq h₂).symm)
      · cases hcall
    · cases hcall
  | unlockTest | broadcastTest | reaperDrain => exact drainCalls_harmless (by simp) hcall
  | exitTest v st =>
    simp only [Instr.queueCalls] at hcall
    split at hcall
    · cases hcall
    · obtain rfl := List.mem_singleton.1 hcall
      exact ⟨by simp, by simp⟩
  | makeReapable v =>
    simp only [Instr.queueCalls] at hcall
    split at hcall
    · obtain rfl := List.mem_singleton.1 hcall
      exact ⟨by simp, by simp⟩
    · cases hcall
  | joinTest v k =>
    simp only [Instr.queueCalls, List.mem_cons] at hcall
    rcases hcall with rfl | hcall
    · exact ⟨by simp, by simp⟩
    · split at hcall
      · obtain rfl := List.mem_singleton.1 hcall
        exact ⟨by simp, by simp⟩
      · cases hcall
  | signalTest | detachTest | reaperWait =>
    obtain rfl := List.mem_singleton.1 hcall
    exact ⟨by simp, by simp⟩
  | createInit w | destroy w =>
    cases w <;> simp [Instr.queueCalls] at hcall
    subst hcall
    exact ⟨by simp, by simp⟩
  | _ => cases hcall

/-- The calls of a running thread pass nobody over. -/
theorem thread_waits (hc : Core s) (hT : Table s) (hn : next s (l, a) = some s') (hh : s'.halt = none)
    (hq : ∀ c ∈ stepCalls s l a, Harmless u p c) :
    Runs.total (overtakes u) (answers s (l, a) s') + toServe (levels s') p u ≤
      toServe (levels s) p u + Runs.total (fun b => arrives p b.1) (answers s (l, a) s') := by
  have hcost : Runs.total (overtakes u) (answers s (l, a) s') = 0 := by
    refine Runs.total_eq_zero fun b hb => ?_
    obtain ⟨c, hc, rfl⟩ := List.mem_map.1 hb
    have hdeq := (hq c hc).1
    unfold overtakes
    split
    · rename_i r v e
      exact absurd (Prod.mk.inj e).1 (hdeq r)
    · rfl
  have hcredit : Runs.total (fun b => arrives p b.1) (answers s (l, a) s') =
      Runs.total (arrives p) (stepCalls s l a) := Runs.total_map ..
  have := makes_waits (calls_step hc hT hn hh) hq (hc.links.nodup _)
  simp only [seqLevels_seqs] at this
  omega

/-- The search of `lwp_switch` passes `u` over if it takes somebody else. -/
theorem search_overtakes {ps : List (Fin (uthMaxprio + 1))}
    (h : ps.find? (fun r => !(s.queues (.runq r)).empty) = some r)
    (hv : (s.queues (.runq r)).tqWaiters.head? = some v) :
    Runs.total (overtakes u) ((dispatchCalls s ps).map fun c => (c, answer s c)) =
      if v = u then 0 else 1 := by
  induction ps with
  | nil => cases h
  | cons q ps ih =>
    unfold dispatchCalls
    rw [List.map_cons, Runs.total_cons]
    have hzero : overtakes u ((QueueCall.empty (.runq q) : LibCall N), answer s (.empty (.runq q))) = 0 := rfl
    rw [hzero, Nat.zero_add]
    cases he : (s.queues (.runq q)).empty with
    | true =>
      rw [List.find?_cons_of_neg (by simp [he])] at h
      exact ih h
    | false =>
      rw [List.find?_cons_of_pos (by simp [he])] at h
      obtain rfl := Option.some.inj h
      simp [answer, hv, overtakes]

theorem dispatch_overtakes (hd : dispatchBody s = some (v, s₁)) :
    Runs.total (overtakes u)
      ((dispatchCalls s (List.finRange (uthMaxprio + 1)).reverse).map fun c => (c, answer s c)) =
      if v = u then 0 else 1 := by
  unfold dispatchBody at hd
  split at hd
  · cases hd
  · rename_i r hr
    split at hd
    · cases hd
    · rename_i w s₂ hdeq
      obtain ⟨rfl, -⟩ := Prod.mk.inj (Option.some.inj hd)
      obtain ⟨x, hx, -⟩ := utqueueDequeue_some hdeq
      exact search_overtakes hr (by rw [hx]; rfl)

/-- A dispatch of somebody else leaves one less ahead of `u`. -/
theorem dispatch_waits (hc : Core s) (hu : u ∈ levels s p) (hd : dispatchBody s = some (v, s₁))
    (hs : s'.queues = s₁.queues) :
    (if v = u then 0 else 1) + toServe (levels s') p u ≤ toServe (levels s) p u := by
  obtain ⟨r, x, hx, hhigh, rfl⟩ := dispatchBody_some hd
  have hlev : levels s' = Function.update (levels s) r x.tqWaiters := by
    funext j
    unfold levels
    rw [hs]
    by_cases hj : j = r
    · subst hj; simp [State.setState]
    · simp [State.setState, hj]
  have hpr : p ≤ r := by
    by_contra hlt
    have hempty : levels s p = [] := hhigh p (not_le.1 hlt)
    rw [hempty] at hu
    cases hu
  have hnd : (levels s r).Nodup := hc.links.nodup _
  have hx' : levels s r = v :: x.tqWaiters := hx
  rw [hlev]
  unfold toServe
  rw [if_pos hu]
  split_ifs with hv hmem hmem
  · -- `u` itself has left its level
    subst hv
    exfalso
    by_cases hrp : p = r
    · subst hrp
      rw [Function.update_self] at hmem
      rw [hx', List.nodup_cons] at hnd
      exact hnd.1 hmem
    · have hr := ((hc.runq.mem v r).1 (by rw [hx]; exact List.mem_cons_self)).2
      have hp := ((hc.runq.mem v p).1 hu).2
      rw [hr] at hp
      exact hrp (Fin.ext (by exact_mod_cast hp.symm))
  · omega
  · have := ahead_tail hpr hx' hv
    omega
  · -- `u` has been before the rest of its level
    exfalso
    refine hmem ?_
    by_cases hrp : p = r
    · subst hrp
      rw [hx', List.mem_cons] at hu
      rw [Function.update_self]
      exact hu.resolve_left (Ne.symm hv)
    · rwa [Function.update_of_ne hrp]

/-- What an LWP calls when it does not search the run queue. -/
theorem stepCalls_harmless (hc : Core s) (hu : u ∈ levels s p)
    (hsearch : ¬ (a = .exec ∧ (s.lwps l).mode = .searching)) (hcall : c ∈ stepCalls s l a) :
    Harmless u p c := by
  have hinstr : ∀ t, (s.lwps l).mode = .running → (s.lwps l).utCurthr = some t →
      c ∈ (s.uthreads t).utCtx.head?.toList.flatMap (Instr.queueCalls s t) → Harmless u p c := by
    intro t hm ht hcall
    obtain ⟨i, hi, hcall⟩ := List.mem_flatMap.1 hcall
    obtain ⟨code, hcode⟩ := List.head?_eq_some_iff.1 (by simpa using hi)
    exact queueCalls_harmless hc ⟨hm, ht⟩ hcode hu hcall
  unfold stepCalls at hcall
  split at hcall
  · exact hinstr _ ‹_› ‹_› hcall
  · exact hinstr _ ‹_› ‹_› hcall
  · exact absurd ⟨rfl, ‹_›⟩ hsearch
  · cases hcall

/-- **A step** passes `u` over only if it takes one from ahead of `u`. -/
theorem step_waits (hc : Core s) (hT : Table s) (hu : u ∈ levels s p) (hn : next s (l, a) = some s')
    (hh : s'.halt = none) :
    Runs.total (overtakes u) (answers s (l, a) s') + toServe (levels s') p u ≤
      toServe (levels s) p u + Runs.total (fun b => arrives p b.1) (answers s (l, a) s') := by
  by_cases hsearch : a = .exec ∧ (s.lwps l).mode = .searching
  · obtain ⟨rfl, hm⟩ := hsearch
    obtain ⟨⟨v, s₁⟩, hd⟩ : ∃ x, dispatchBody s = some x := by
      refine Option.ne_none_iff_exists'.1 fun hnone => ?_
      have hempty : levels s p = [] := dispatchBody_none.1 hnone p
      rw [hempty] at hu
      cases hu
    have hs' : s₁.setLwp l ⟨.dispatching, some v, true⟩ = s' := by
      have hstep := (next_step hn).2
      unfold step at hstep
      split at hstep
      · cases hstep
      · simpa [hm, stepLwp, stepSearch, hd, settle] using hstep
    have hcalls : answers s (l, .exec) s' =
        (dispatchCalls s (List.finRange (uthMaxprio + 1)).reverse).map fun c => (c, answer s c) := by
      simp [answers, stepCalls, hm]
    have hcost := dispatch_overtakes (u := u) hd
    have hqueues : s'.queues = s₁.queues := by rw [← hs']; rfl
    have hdone := dispatch_waits hc hu hd hqueues
    rw [← hcalls] at hcost
    omega
  · exact thread_waits hc hT hn hh fun c hcall => stepCalls_harmless hc hu hsearch hcall

/-! ## Runs -/

/-- **Bounded overtaking.** While `u` stays on level `p`, no more dispatches pass it over than there were
threads ahead of it at the start and have arrived above it since. When nobody is ahead of it, it is next. -/
theorem overtaken_bound {s₀ s : State (N + 2) (L + 1)} {u : Fin (N + 2)}
    {bs : List (LibCall (N + 2) × Answer (Fin (N + 2)))} (h₀ : Reachable Runs.always (boot N L) s₀)
    (h : Runs.Trace next (Stays u p) answers s₀ s bs) :
    Runs.total (overtakes u) bs ≤ ahead (levels s₀) p u + Runs.total (fun b => arrives p b.1) bs ∧
      (u ∈ levels s p → ahead (levels s) p u = 0 →
        ∀ v s', dispatchBody s = some (v, s') → v = u) := by
  have hI : ∀ s, Runs.Reach next (Stays u p) s₀ s → Core s ∧ Table s := fun s hr =>
    table_reachable (h₀.trans (hr.mono fun _ _ _ => trivial))
  have hrun := h.amortised (fun s => toServe (levels s) p u) (overtakes u) (fun b => arrives p b.1) hI
    fun s s' b hs hok hn => step_waits hs.1 hs.2 hok.1 hn (hok.2 s' hn)
  refine ⟨?_, fun hu hz v s' hd => ?_⟩
  · have hstart : toServe (levels s₀) p u ≤ ahead (levels s₀) p u := by
      unfold toServe
      split <;> omega
    omega
  · obtain ⟨r, x, hx, hhigh, -⟩ := dispatchBody_some hd
    obtain ⟨habove, hhead⟩ := (ahead_eq_zero hu).1 hz
    have hr : r = p := by
      rcases lt_trichotomy r p with hlt | rfl | hlt
      · have hempty : levels s p = [] := hhigh p hlt
        rw [hempty] at hu
        cases hu
      · rfl
      · have hempty : (s.queues (.runq r)).tqWaiters = [] := habove r hlt
        rw [hx] at hempty
        cases hempty
    subst hr
    have hx' : levels s r = v :: x.tqWaiters := hx
    rw [hx'] at hhead
    exact Option.some.inj hhead

/-- A thread of priority 3 waits while one of priority 7 yields to the reaper and is dispatched again: the
reaper was ahead of it, and the other one has arrived above it. -/
theorem overtaken_bound_yield : ∃ (s₀ s : State 3 1) (bs : List (LibCall 3 × Answer (Fin 3))),
    Reachable Runs.always (boot 1 0) s₀ ∧ Runs.Trace next (Stays 2 3) answers s₀ s bs ∧
      Runs.total (overtakes 2) bs = 2 ∧
      Runs.total (overtakes 2) bs ≤ ahead (levels s₀) 3 2 + Runs.total (fun b => arrives 3 b.1) bs := by
  obtain ⟨s₀, h₀, hs⟩ : ∃ s₀ : State 3 1, Reachable Runs.always (boot 1 0) s₀ ∧
      (Runs.follow (Runs.traced next answers) (fun x b => Stays 2 3 x.1 b) (s₀, [])
        ([(0, .call .yield)] ++ turns 0 27)).any
          (fun x => decide (Runs.total (overtakes 2) x.2 = 2)) = true :=
    Runs.exists_reach (turns 0 4 ++ [(0, .call (.create 3))] ++ turns 0 23) (by decide +kernel)
  obtain ⟨⟨s, bs⟩, hr, hcost⟩ : ∃ x : State 3 1 × List (LibCall 3 × Answer (Fin 3)),
      Runs.Reach (Runs.traced next answers) (fun x b => Stays 2 3 x.1 b) (s₀, []) x ∧
        Runs.total (overtakes 2) x.2 = 2 := Runs.exists_reach _ hs
  exact ⟨s₀, s, bs, h₀, hr.trace, hcost, (overtaken_bound h₀ hr.trace).1⟩

end Uthreads
