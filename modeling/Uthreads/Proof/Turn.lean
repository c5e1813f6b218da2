import Uthreads.Proof.Core
import Uthreads.Proof.Counters

/-!
# Whose turn it is

A step is an instruction of a thread, a call or an interrupt that puts code in front of one, or a
step of an LWP between two threads, which leaves everything but the dispatched thread and the POSIX
mutexes alone (`Between`). `move_turn` sorts the moves so, `code_turn` says what becomes of the code
of a thread. `alone_step` is the step of an LWP whose thread runs while nobody else moves.
-/

namespace Uthreads

variable {N L : ℕ} {l : Fin L} {t v : Fin N} {s s' s₁ : State N L} {i : Instr N} {cs new : Code N}
  {a : Act}

open Instr

/-- The threads are left alone, but for one that is dispatched. -/
structure Between (s s' : State N L) : Prop where
  thread : ∀ v, s'.uthreads v = s.uthreads v ∨ (s.uthreads v).utState = .runnable ∧
    s'.uthreads v = { s.uthreads v with utLink := none, utState := .onCpu }
  queues : ∀ q, (∀ r, q ≠ .runq r) → s'.queues q = s.queues q
  mtx : s'.mtx = s.mtx
  status : ∀ p, (s'.pmtx p).status = (s.pmtx p).status
  hist : SameHist s s'
  stays : ∀ k u, OnStack s k u → s'.lwps k = s.lwps k
  resumes : ∀ k u, OnStack s' k u → OnStack s k u ∨
    (s.lwps k).mode = .dispatching ∧ (s.lwps k).utCurthr = some u

/-- Whose step it is. -/
inductive Turn (s : State N L) (l : Fin L) : Act → State N L → Prop
  | thread {a : Act} (t : Fin N) (i : Instr N) (cs new : Code N) {s₁ : State N L}
    (hon : OnStack s l t) (hcode : (s.uthreads t).utCtx = i :: cs) (heff : Effect l t s i s₁ new)
    (hhist : Hist t s i s₁) : Turn s l a (s₁.setCtx t (new ++ cs))
  | call (t : Fin N) (c : Call) (hon : OnStack s l t) (hcode : (s.uthreads t).utCtx = []) :
    Turn s l (.call c) (s.setCtx t (c.code s.incarnation t))
  | preempt (t : Fin N) (hon : OnStack s l t) (hm : (s.lwps l).masked = false)
    (hst : (s.uthreads t).utState = .onCpu) (hc : (s.uthreads t).utNoPreemptCount = 0) :
    Turn s l .preempt ((s.setLwp l { s.lwps l with masked := true }).modUthread t fun u => { u with
      utNoPreemptCount := 1, utCtx := clockInterrupt ++ u.utCtx })
  | lwp {a : Act} {s' : State N L} (hb : Between s s') : Turn s l a s'

theorem move_turn (hc : Core s) (h : Move s l a s') : Turn s l a s' := by
  have htable : ∀ {p : PmtxId N} {x : Pmtx L} {m : LwpMode N}, x.status = (s.pmtx p).status →
      (s.lwps l).mode ≠ .running → (m = .running → (s.lwps l).mode = .dispatching) →
      SameTable ((s.setPmtx p x).setMode l m) s' → SameHist s s' → Between s s' := by
    intro p x m hx hrun hm hs hh
    obtain ⟨h₁, h₂⟩ := lwps_between s s' hrun hs.lwps fun h => ⟨hm h, rfl⟩
    refine ⟨fun v => .inl (by rw [hs.uthreads]; rfl), fun q _ => by rw [hs.queues]; rfl, hs.mtx,
      fun r => ?_, hh, h₁, h₂⟩
    rw [hs.pmtx]
    by_cases hr : r = p
    · subst hr; simpa [State.setMode] using hx
    · simp [State.setMode, hr]
  cases h with
  | halted e hs =>
    exact .lwp ⟨fun _ => .inl rfl, fun _ _ => rfl, rfl, fun _ => rfl, by constructor <;> rfl,
      fun _ _ _ => rfl, fun _ _ h => .inl h⟩
  | thread t i cs new hon hcode he hh => exact .thread t i cs new hon hcode he hh
  | call t c hon hcode => exact .call t c hon hcode
  | preempt t hon hm hst h0 => exact .preempt t hon hm hst h0
  | acquire m hm hst ho hs hh =>
    refine .lwp (htable (by rfl) ?_ (fun e => ?_) hs hh)
    · rcases hm with ⟨h, -⟩ | ⟨h, -⟩ <;> simp [h]
    · rcases hm with ⟨-, h⟩ | ⟨-, h⟩ <;> rw [e] at h <;> cases h
  | unlock p hm ho =>
    obtain ⟨h₁, h₂⟩ := lwps_between s ((s.setPmtx p { s.pmtx p with owner := none }).setLwp l
      ⟨.searching, none, true⟩) (by rw [hm]; simp) rfl (by simp)
    refine .lwp ⟨fun _ => .inl rfl, fun _ _ => rfl, rfl, fun r => ?_, by constructor <;> rfl, h₁, h₂⟩
    by_cases hr : r = p
    · subst hr; simp
    · simp [hr]
  | @dispatch _ t s₁ hm hd =>
    obtain ⟨h₁, h₂⟩ := lwps_between s (s₁.setLwp l ⟨.dispatching, some t, true⟩) (by rw [hm]; simp)
      (by obtain ⟨p, x, -, -, rfl⟩ := dispatchBody_some hd; rfl) (by simp)
    obtain ⟨p, x, hx, -, rfl⟩ := dispatchBody_some hd
    have hst : (s.uthreads t).utState = .runnable :=
      ((hc.runq.mem t p).1 (by rw [hx]; exact List.mem_cons_self)).1
    refine .lwp ⟨fun v => ?_, fun q hq => ?_, rfl, fun _ => rfl, by constructor <;> rfl, h₁, h₂⟩
    · by_cases hv : v = t
      · subst hv; exact .inr ⟨hst, by simp⟩
      · exact .inl (by simp [hv])
    · show (s.setQueue (.runq p) x).queues q = s.queues q
      rw [State.setQueue_queues, if_neg (hq p)]
  | idle m hm hs hh =>
    obtain ⟨h₁, h₂⟩ := lwps_between s s'
      (by rcases hm with ⟨h, -⟩ | ⟨h, -⟩ <;> simp [h]) hs.lwps
      (by rcases hm with ⟨-, h⟩ | ⟨-, h⟩ <;> simp [h])
    exact .lwp ⟨fun v => .inl (by rw [hs.uthreads]; rfl), fun q _ => by rw [hs.queues]; rfl, hs.mtx,
      fun r => by rw [hs.pmtx]; rfl, hh, h₁, h₂⟩
  | leave m hm ho hs hh =>
    refine .lwp (htable (by rfl) ?_ (fun e => ?_) hs hh)
    · rcases hm with ⟨h, -⟩ | ⟨h, -⟩ <;> simp [h]
    · rcases hm with ⟨h, -⟩ | ⟨-, h⟩
      · exact h
      · rw [e] at h; cases h

/-- Only `uthread_create` sets a slot up. -/
theorem effect_live (he : Effect l t s i s₁ new) (hcr : ∀ prio, i ≠ createInit .pmut v prio)
    (hst : (s₁.pmtx (.utPmut v)).status = .live) : (s.pmtx (.utPmut v)).status = .live := by
  by_cases hd : i = destroy .pmut v
  · subst hd
    rw [(effect_destroy he).1] at hst
    simp at hst
  · rwa [effect_status he hcr hd] at hst

/-- Who runs after an instruction of `t` on `l`: `t` unless it has switched, and on the other LWPs who
ran before. -/
theorem onStack_thread (hon : OnStack s l t) (he : Effect l t s i s₁ new) {k : Fin L} :
    (k ≠ l → (OnStack s₁ k u ↔ OnStack s k u) ∧ (s₁.lwps k).masked = (s.lwps k).masked) ∧
      (OnStack s₁ l u ↔ u = t ∧ ∀ q sv m, i ≠ swtch q sv m) := by
  by_cases hi : ∃ q sv m, i = swtch q sv m
  · obtain ⟨q, sv, m, rfl⟩ := hi
    obtain ⟨hmode, -, hother⟩ := switch_lwp he
    refine ⟨fun hk => ?_, ⟨fun h => absurd h.1 hmode, fun h => absurd rfl (h.2 q sv m)⟩⟩
    unfold OnStack
    rw [hother k hk]
    exact ⟨Iff.rfl, rfl⟩
  · have hi' : ∀ q sv m, i ≠ swtch q sv m := fun q sv m e => hi ⟨q, sv, m, e⟩
    constructor
    · intro hk
      obtain ⟨hm, hcur, hmask⟩ := effect_lwps he hi' k
      unfold OnStack
      rw [hm, hcur]
      exact ⟨Iff.rfl, hmask hk⟩
    · obtain ⟨hm, hcur, -⟩ := effect_lwps he hi' l
      unfold OnStack
      rw [hm, hcur, hon.1, hon.2]
      simp [hi', eq_comm]

/-- The count of another thread. -/
theorem other_count (he : Effect l t s i s₁ new) (hu : u ≠ t)
    (hcr : ∀ prio, i ≠ createInit .count u prio) :
    (s₁.uthreads u).utNoPreemptCount = (s.uthreads u).utNoPreemptCount := by
  rcases (effect_code he u).2 with h | ⟨⟨prio, e⟩, -⟩
  · rwa [if_neg hu] at h
  · exact absurd e (hcr prio)

/-- What a dispatch leaves of a thread. -/
theorem Between.fields (h : Between s s') (v : Fin N) :
    (s'.uthreads v).utCtx = (s.uthreads v).utCtx ∧ (s'.uthreads v).utPrio = (s.uthreads v).utPrio ∧
      (s'.uthreads v).utExit = (s.uthreads v).utExit ∧
      (s'.uthreads v).utDetached = (s.uthreads v).utDetached ∧
      (s'.uthreads v).utNoPreemptCount = (s.uthreads v).utNoPreemptCount := by
  rcases h.thread v with e | ⟨-, e⟩ <;> rw [e] <;> exact ⟨rfl, rfl, rfl, rfl, rfl⟩

/-- Only a runnable thread is dispatched. -/
theorem Between.state (h : Between s s') (v : Fin N) :
    (s'.uthreads v).utState = (s.uthreads v).utState ∧ (s'.uthreads v).utLink = (s.uthreads v).utLink ∨
      (s.uthreads v).utState = .runnable ∧ (s'.uthreads v).utState = .onCpu ∧
        (s'.uthreads v).utLink = none := by
  rcases h.thread v with e | ⟨hst, e⟩
  · exact .inl (by rw [e]; exact ⟨rfl, rfl⟩)
  · exact .inr ⟨hst, by rw [e]; exact ⟨rfl, rfl⟩⟩

/-- What a step does to the code of a thread. -/
inductive CodeTurn (s : State N L) (l : Fin L) (v : Fin N) (a : Act) (c : Code N) : Prop
  | same (h : c = (s.uthreads v).utCtx)
  | thread (i : Instr N) (cs new : Code N) {s₁ : State N L} (hon : OnStack s l v)
    (hcode : (s.uthreads v).utCtx = i :: cs) (heff : Effect l v s i s₁ new) (h : c = new ++ cs)
  | create (t : Fin N) (prio : ℤ) (cs : Code N) (hon : OnStack s l t)
    (hcode : (s.uthreads t).utCtx = createInit .ctx v prio :: cs) (hv : Vacant s v)
    (h : c = threadStartCode)
  | call (call : Call) (ha : a = .call call) (hon : OnStack s l v) (hcode : (s.uthreads v).utCtx = [])
    (h : c = call.code s.incarnation v)
  | preempt (ha : a = .preempt) (hon : OnStack s l v) (hst : (s.uthreads v).utState = .onCpu)
    (hc : (s.uthreads v).utNoPreemptCount = 0) (h : c = clockInterrupt ++ (s.uthreads v).utCtx)

/-- **The codes.** -/
theorem code_turn (h : Turn s l a s') (v : Fin N) : CodeTurn s l v a (s'.uthreads v).utCtx := by
  cases h with
  | @thread _ t i cs new s₁ hon hcode he =>
    by_cases hv : v = t
    · subst hv
      exact .thread i cs new hon hcode he (by simp)
    · rcases other_code cs he hv with e | ⟨⟨prio, rfl⟩, hvac, e⟩
      · exact .same e
      · exact .create t prio cs hon hcode hvac e
  | call t c hon hcode =>
    by_cases hv : v = t
    · subst hv; exact .call c rfl hon hcode (by simp)
    · exact .same (by simp [hv])
  | preempt t hon hm hst h0 =>
    by_cases hv : v = t
    · subst hv; exact .preempt rfl hon hst h0 (by simp)
    · exact .same (by simp [hv])
  | lwp hb => exact .same (hb.fields v).1

/-- What the codes mention after a step: what they mentioned before, what the new code of the
instruction adds, and what a call brings in. -/
theorem mem_code_turn {α : Type} {x : α} {f : Instr N → List α} (hf : threadStartCode.flatMap f = [])
    (hi : clockInterrupt.flatMap f = []) (h : Turn s l a s')
    (hx : x ∈ (s'.uthreads v).utCtx.flatMap f) :
    x ∈ (s.uthreads v).utCtx.flatMap f ∨
      (∃ i cs new s₁, OnStack s l v ∧ (s.uthreads v).utCtx = i :: cs ∧ Effect l v s i s₁ new ∧
        x ∈ new.flatMap f) ∨
      ∃ c, a = .call c ∧ OnStack s l v ∧ x ∈ (c.code s.incarnation v).flatMap f := by
  cases code_turn h v with
  | same e => exact .inl (e ▸ hx)
  | @thread i cs new s₁ hon hcode he e =>
    rw [e, List.flatMap_append, List.mem_append] at hx
    rcases hx with hx | hx
    · exact .inr (.inl ⟨i, cs, new, s₁, hon, hcode, he, hx⟩)
    · left
      rw [hcode, List.flatMap_cons]
      exact List.mem_append_right _ hx
  | create t prio cs hon hcode hv e => rw [e, hf] at hx; cases hx
  | call c ha hon hcode e => exact .inr (.inr ⟨c, ha, hon, e ▸ hx⟩)
  | preempt ha hon hst h0 e =>
    rw [e, List.flatMap_append, hi, List.nil_append] at hx
    exact .inl hx

/-! ## The life of a thread -/

/-- The slot has a thread that has been started and has not ended. -/
def Alive (s : State N L) (v : Fin N) : Prop :=
  (s.uthreads v).utState ≠ .noState ∧ (s.uthreads v).utState ≠ .transition ∧
    (s.uthreads v).utState ≠ .zombie

/-- A thread that does not execute the end of `uthread_exit` lives on. -/
theorem alive_step (hc : Core s) (h : Turn s l a s') (hv : Alive s v)
    (hx : ∀ status cs, (s.uthreads v).utCtx ≠ exitTest v status :: cs) : Alive s' v := by
  obtain ⟨h₁, h₂, h₃⟩ := hv
  unfold Alive
  cases h with
  | @thread _ t i cs new s₁ hon hcode he =>
    have hst : ((s₁.setCtx t (new ++ cs)).uthreads v).utState = (s₁.uthreads v).utState := by simp
    rw [hst]
    cases effect_state he v with
    | same h => rw [h]; exact ⟨h₁, h₂, h₃⟩
    | saved _ _ _ h' | woken _ _ h' | started _ _ _ h' => rw [h']; decide
    | blocked _ _ h' => rw [h']; decide
    | allocated start prio _ h => exact absurd h h₁
    | exited status hi =>
      have hwf := hc.codes.wf t
      rw [hcode, hi] at hwf
      obtain rfl : v = t := hwf.1.1
      exact absurd (hi ▸ hcode) (hx status cs)
    | destroyed hi =>
      exact absurd (hc.slots.destroy t .state v (by rw [hcode, hi]; exact List.mem_cons_self)).st h₃
  | call t c hon hcode => simpa using ⟨h₁, h₂, h₃⟩
  | preempt t hon hm hst h0 => simpa using ⟨h₁, h₂, h₃⟩
  | lwp hb =>
    rcases hb.state v with ⟨e, -⟩ | ⟨-, e, -⟩ <;> rw [e]
    · exact ⟨h₁, h₂, h₃⟩
    · decide

/-! ## A thread on its own -/

/-- The next instruction, with the outcome of a `malloc` in it. -/
def Act.mallocs (ok : Bool) : Act := if ok then .exec else .mallocFail

/-- The states that LWP `l` reaches while nobody else moves; `ok` is the outcome of `malloc`. -/
abbrev Alone (l : Fin L) (ok : Bool) : State N L → State N L → Prop :=
  Reachable fun _ b => b = (l, .mallocs ok)

theorem alone_step {ok : Bool} (hon : OnStack s l t) (h : next s (l, .mallocs ok) = some s') :
    ∃ i cs, (s.uthreads t).utCtx = i :: cs ∧ ((∃ e, s' = { s with halt := some e }) ∨
      ∃ s₁ new, exec l t ok i s = .ok (s₁, new) ∧ s' = s₁.setCtx t (new ++ cs)) := by
  have hstep : stepThread s l t ok = some s' := by
    have h' := (next_step h).2
    unfold step at h'
    split at h'
    · cases h'
    · simp only [hon.1, hon.2] at h'
      cases ok <;> exact h'
  unfold stepThread at hstep
  split at hstep
  · cases hstep
  · rename_i p cs hcode
    split_ifs at hstep with hb
    refine ⟨lock p, cs, hcode, ?_⟩
    rw [← Option.some.inj hstep]
    cases hl : pthreadMutexLock l p s with
    | error e => exact .inl ⟨e, rfl⟩
    | ok s₁ => exact .inr ⟨s₁, [], by simp [exec, hl], rfl⟩
  · rename_i i cs _ hcode
    refine ⟨i, cs, hcode, ?_⟩
    rw [← Option.some.inj hstep]
    cases hx : exec l t ok i s with
    | error e => exact .inl ⟨e, rfl⟩
    | ok r => exact .inr ⟨r.1, r.2, rfl, rfl⟩

/-- A state in which a step is possible. -/
theorem next_live {c : Fin L × Act} (hn : next s c = some s') : s.halt = none := by
  by_contra hne
  simpa [step, hne] using (next_step hn).2

/-- The user's code calls the library. -/
theorem call_next {call : Call} (hon : OnStack s l t) (h : next s (l, .call call) = some s') :
    s.halt = none ∧ (s.uthreads t).utCtx = [] ∧ s' = s.setCtx t (call.code s.incarnation t) := by
  have h' := (next_step h).2
  unfold step at h'
  simp only [hon.1, hon.2] at h'
  split_ifs at h' with hh hcode
  exact ⟨by simpa using hh, hcode, (Option.some.inj h').symm⟩

/-- The running thread is interrupted, or the process ends. -/
theorem preempt_next (hon : OnStack s l t) (h : next s (l, .preempt) = some s') :
    (∃ e, s' = { s with halt := some e }) ∨ (s.lwps l).masked = false ∧
      s' = (s.setLwp l { s.lwps l with masked := true }).modUthread t fun u => { u with
        utNoPreemptCount := 1, utCtx := clockInterrupt ++ u.utCtx } := by
  have h' := (next_step h).2
  unfold step at h'
  simp only [hon.1, hon.2] at h'
  split_ifs at h' with hh hm
  rcases settle_cases s (enterInterrupt l t s) with ⟨s₁, hok, he⟩ | ⟨e, -, he⟩
  · rw [← Option.some.inj h', he]
    obtain ⟨-, -, h₁⟩ := except_bind_ok.1 hok
    obtain ⟨-, -, h₂⟩ := except_bind_ok.1 h₁
    exact .inr ⟨by simpa using hm, (except_pure_ok.1 h₂).symm⟩
  · rw [← Option.some.inj h', he]
    exact .inl ⟨e, rfl⟩

/-- Without a thread an LWP goes on with its own code, or it is woken up without a signal. -/
theorem idle_next (hrun : ∀ t, ¬ OnStack s l t) (h : next s (l, a) = some s') :
    a = .exec ∨ a = .spurious ∧ (s.lwps l).mode = .parked := by
  have hno : ∀ t, (s.lwps l).mode = .running → (s.lwps l).utCurthr ≠ some t :=
    fun t hm ht => hrun t ⟨hm, ht⟩
  have h' := (next_step h).2
  unfold step at h'
  split at h'
  · cases h'
  · cases a with
    | exec => exact .inl rfl
    | spurious =>
      refine .inr ⟨rfl, ?_⟩
      simp only [stepSpurious] at h'
      split_ifs at h' with hs
      by_contra hne
      exact hs (.inl hne)
    | _ =>
      dsimp only at h'
      split at h'
      all_goals first
        | exact absurd ‹(s.lwps l).utCurthr = some _› (hno _ ‹_›)
        | contradiction

end Uthreads
