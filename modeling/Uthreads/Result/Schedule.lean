import Mathlib.Data.List.ReduceOption
import Uthreads.Sched.Fifo
import Uthreads.Result.Guards
import Uthreads.Result.Setprio

/-!
# The library schedules as its operations do

An operation on the run queues reads and writes the state, the link and the priority of the threads,
the queues and `runq_size`, and of the priorities only those of the threads that `uthread_setprio` can
change.

* `opStep_same`: from two states that agree on these an operation does the same, and dispatches the
  same thread.
* `next_performs`: a step of the library is a sequence of operations.
* `library_schedules`: so is a run, from the empty run queues on.
-/

namespace Uthreads

variable {N L : ℕ}

/-- The states agree on what the operations under `runq_mtx` read. -/
structure SameSched (s s' : State N L) : Prop where
  state : ∀ t, (s'.uthreads t).utState = (s.uthreads t).utState
  link : ∀ t, (s'.uthreads t).utLink = (s.uthreads t).utLink
  prio : ∀ t, Active s t → (s'.uthreads t).utPrio = (s.uthreads t).utPrio
  queues : s'.queues = s.queues
  runqSize : s'.runqSize = s.runqSize

variable {s s' s₁ r r₁ : State N L} {t : Fin N} {q : QueueId N}

namespace SameSched

theorem refl (s : State N L) : SameSched s s := by constructor <;> intros <;> rfl

theorem active (h : SameSched s r) (t : Fin N) : Active r t ↔ Active s t := by
  unfold Active
  rw [h.state]

theorem trans (h : SameSched s s₁) (h' : SameSched s₁ s') : SameSched s s' where
  state t := (h'.state t).trans (h.state t)
  link t := (h'.link t).trans (h.link t)
  prio t ht := (h'.prio t ((h.active t).2 ht)).trans (h.prio t ht)
  queues := h'.queues.trans h.queues
  runqSize := h'.runqSize.trans h.runqSize

/-- The table and the queues decide. -/
theorem of_eq (hu : s'.uthreads = s.uthreads) (hq : s'.queues = s.queues)
    (hn : s'.runqSize = s.runqSize) : SameSched s s' := by
  constructor
  · intro t; rw [hu]
  · intro t; rw [hu]
  · intro t _; rw [hu]
  · exact hq
  · exact hn

/-- One thread is changed in both. The new priority has to be the same only if the thread is active
then. -/
theorem modUthread (h : SameSched s r) (t : Fin N) {f g : Uthread N → Uthread N}
    (hst : (g (r.uthreads t)).utState = (f (s.uthreads t)).utState)
    (hlk : (g (r.uthreads t)).utLink = (f (s.uthreads t)).utLink)
    (hpr : (f (s.uthreads t)).utState ∈ [.onCpu, .runnable, .wait] →
      (g (r.uthreads t)).utPrio = (f (s.uthreads t)).utPrio) :
    SameSched (s.modUthread t f) (r.modUthread t g) := by
  refine ⟨fun u => ?_, fun u => ?_, fun u hu => ?_, h.queues, h.runqSize⟩
  · by_cases hut : u = t
    · subst hut; simpa using hst
    · simpa [hut] using h.state u
  · by_cases hut : u = t
    · subst hut; simpa using hlk
    · simpa [hut] using h.link u
  · by_cases hut : u = t
    · subst hut
      simp only [Active, State.modUthread_uthreads, if_true] at hu ⊢
      exact hpr hu
    · simp only [Active, State.modUthread_uthreads, hut, if_false] at hu ⊢
      exact h.prio u hu

/-- The new state of a thread: its priority is read if it was before, or is not read after. -/
theorem setState (h : SameSched s r) (t : Fin N) (st : UthreadState)
    (hp : Active s t ∨ st ∉ [UthreadState.onCpu, .runnable, .wait]) :
    SameSched (s.setState t st) (r.setState t st) :=
  h.modUthread t rfl (h.link t) fun hst => h.prio t (hp.resolve_right fun hn => hn hst)

theorem setLink (h : SameSched s r) (t : Fin N) (lk : Option (QueueId N)) :
    SameSched (s.modUthread t fun u => { u with utLink := lk })
      (r.modUthread t fun u => { u with utLink := lk }) :=
  h.modUthread t (h.state t) rfl (h.prio t)

theorem setPrio (h : SameSched s r) (t : Fin N) (prio : ℤ) :
    SameSched (s.modUthread t fun u => { u with utPrio := prio })
      (r.modUthread t fun u => { u with utPrio := prio }) :=
  h.modUthread t (h.state t) (h.link t) fun _ => rfl

theorem setQueue (h : SameSched s r) (q : QueueId N) (x : Utqueue (Fin N)) :
    SameSched (s.setQueue q x) (r.setQueue q x) :=
  ⟨h.state, h.link, h.prio, by simp [State.setQueue, h.queues], h.runqSize⟩

theorem setSize (h : SameSched s r) {n m : ℤ} (hn : m = n) :
    SameSched { s with runqSize := n } { r with runqSize := m } :=
  ⟨h.state, h.link, h.prio, h.queues, hn⟩

/-! ## The queue operations -/

theorem enqueue (h : SameSched s r) (hs : utqueueEnqueue q t s = .ok s₁) :
    ∃ r₁, utqueueEnqueue q t r = .ok r₁ ∧ SameSched s₁ r₁ := by
  obtain ⟨hlk, rfl⟩ := utqueueEnqueue_ok hs
  refine ⟨_, if_pos ((h.link t).trans hlk), ?_⟩
  rw [h.queues]
  exact (h.setQueue q _).setLink t _

theorem dequeue (h : SameSched s r) (hs : utqueueDequeue q s = some (t, s₁)) :
    ∃ r₁, utqueueDequeue q r = some (t, r₁) ∧ SameSched s₁ r₁ := by
  unfold utqueueDequeue at hs ⊢
  rw [h.queues]
  split at hs
  · cases hs
  · rename_i u x hx
    simp only [Option.some.injEq, Prod.mk.injEq] at hs
    obtain ⟨rfl, rfl⟩ := hs
    exact ⟨_, rfl, (h.setQueue q x).setLink u none⟩

theorem remove (h : SameSched s r) (hs : utqueueRemove q t s = .ok s₁) :
    ∃ r₁, utqueueRemove q t r = .ok r₁ ∧ SameSched s₁ r₁ := by
  unfold utqueueRemove at hs ⊢
  simp only [h.link, h.queues]
  split_ifs at hs ⊢ with hlk hm
  rw [← Except.ok.inj hs]
  exact ⟨_, rfl, (h.setQueue q _).setLink t none⟩

/-- `lwp_release` wakes an LWP: the run queues stay. -/
theorem lwpRelease (s : State N L) : SameSched s (lwpRelease s) := by
  unfold Uthreads.lwpRelease
  split
  · exact refl s
  · exact of_eq rfl rfl rfl

theorem symm (h : SameSched s s') : SameSched s' s where
  state t := (h.state t).symm
  link t := (h.link t).symm
  prio t ht := (h.prio t ((h.active t).1 ht)).symm
  queues := h.queues.symm
  runqSize := h.runqSize.symm

theorem runqEnqueue (h : SameSched s r) (ht : Active s t) (hs : uthreadRunqEnqueue t s = .ok s₁) :
    ∃ r₁, uthreadRunqEnqueue t r = .ok r₁ ∧ SameSched s₁ r₁ := by
  unfold uthreadRunqEnqueue at hs ⊢
  rw [h.prio t ht]
  split at hs
  · cases hs
  rename_i p hp
  obtain ⟨s₂, hs₂, hs⟩ := except_bind_ok.1 hs
  obtain ⟨r₂, hr₂, h₂⟩ := h.enqueue hs₂
  have hsize := h₂.setSize (congrArg (· + 1) h₂.runqSize)
  -- the LWP that is released is no part of the run queues
  have hrel : ∀ x : State N L, SameSched x (if x.runqSize = 1 then Uthreads.lwpRelease x else x) := by
    intro x
    split
    · exact lwpRelease x
    · exact refl x
  refine ⟨_, except_bind_ok.2 ⟨r₂, hr₂, rfl⟩, ?_⟩
  rw [← Except.ok.inj hs]
  exact (hrel _).symm.trans (hsize.trans (hrel _))

theorem runqRequeue (h : SameSched s r) (ht : Active s t) {old : ℤ}
    (hs : uthreadRunqRequeue t old s = .ok s₁) :
    ∃ r₁, uthreadRunqRequeue t old r = .ok r₁ ∧ SameSched s₁ r₁ := by
  unfold uthreadRunqRequeue at hs ⊢
  rw [h.prio t ht]
  split at hs
  · obtain ⟨s₂, hs₂, hs⟩ := except_bind_ok.1 hs
    obtain ⟨r₂, hr₂, h₂⟩ := h.remove hs₂
    obtain ⟨r₁, hr₁, h₁⟩ := h₂.enqueue hs
    exact ⟨r₁, except_bind_ok.2 ⟨r₂, hr₂, hr₁⟩, h₁⟩
  · cases hs

end SameSched

/-! ## The operations -/

namespace SameSched

theorem changeState {st st' : UthreadState} (h : SameSched s r)
    (hp : Active s t ∨ st' ∉ [UthreadState.onCpu, .runnable, .wait])
    (hs : changeState s t st st' = some s₁) :
    ∃ r₁, Uthreads.changeState r t st st' = some r₁ ∧ SameSched s₁ r₁ := by
  obtain ⟨ht, rfl⟩ := changeState_some hs
  exact ⟨_, if_pos ((h.state t).trans ht), h.setState t st' hp⟩

theorem start (h : SameSched s r) {prio : ℤ} (hs : startBody t prio s = .ok s₁) :
    ∃ r₁, startBody t prio r = .ok r₁ ∧ SameSched s₁ r₁ := by
  obtain ⟨ht, hs⟩ := startBody_ok hs
  have h₁ : SameSched
      ((s.modUthread t fun u => { u with utPrio := prio }).setState t .runnable)
      ((r.modUthread t fun u => { u with utPrio := prio }).setState t .runnable) :=
    (h.setPrio t prio).modUthread t rfl (by simpa using h.link t) fun _ => by simp
  obtain ⟨r₁, hr₁, h₂⟩ := h₁.runqEnqueue (by simp [Active]) hs
  refine ⟨r₁, ?_, h₂⟩
  unfold startBody
  rw [if_pos (by simpa using (h.state t).trans ht)]
  exact hr₁

theorem save (h : SameSched s r) (ht : Active s t) (hs : saveBody t s = .ok s₁) :
    ∃ r₁, saveBody t r = .ok r₁ ∧ SameSched s₁ r₁ :=
  (h.setState t .runnable (.inl ht)).runqEnqueue (by simp [Active]) hs

theorem wake (h : SameSched s r) (hs : wakeBody t s = .ok s₁) :
    ∃ r₁, wakeBody t r = .ok r₁ ∧ SameSched s₁ r₁ := by
  unfold wakeBody
  rw [h.state]
  rcases wakeBody_ok hs with ⟨ht, hs⟩ | ⟨ht, rfl⟩
  · rw [if_pos ht]
    exact h.save (by simp [Active, ht]) hs
  · exact ⟨r, if_neg ht, h⟩

theorem setprio {cur : Fin N} {prio : ℤ} {res : SetprioResult} (h : SameSched s r)
    (hs : setprioBody cur t prio s = .ok (s₁, res)) :
    ∃ r₁ res', setprioBody cur t prio r = .ok (r₁, res') ∧ SameSched s₁ r₁ := by
  unfold setprioBody at hs ⊢
  rw [h.state]
  by_cases hst : (s.uthreads t).utState = .noState ∨ (s.uthreads t).utState = .transition ∨
      (s.uthreads t).utState = .zombie
  · rw [if_pos hst] at hs ⊢
    simp only [Except.ok.injEq, Prod.mk.injEq] at hs
    exact ⟨r, _, rfl, hs.1 ▸ h⟩
  rw [if_neg hst] at hs ⊢
  have ht : Active s t := by
    unfold Active
    cases e : (s.uthreads t).utState <;> simp_all
  rw [h.prio t ht]
  by_cases hp : (s.uthreads t).utPrio = prio
  · rw [if_pos hp] at hs ⊢
    simp only [Except.ok.injEq, Prod.mk.injEq] at hs
    exact ⟨r, _, rfl, hs.1 ▸ h⟩
  rw [if_neg hp] at hs ⊢
  simp only [State.modUthread_uthreads, if_true, h.state] at hs ⊢
  have h₁ := h.setPrio t prio
  by_cases hrun : (s.uthreads t).utState = .runnable
  · rw [if_pos hrun] at hs ⊢
    obtain ⟨s₂, hs₂, hs⟩ := except_bind_ok.1 hs
    obtain ⟨r₂, hr₂, h₂⟩ := h₁.runqRequeue (by simpa [Active] using ht) hs₂
    simp only [except_pure_ok, Prod.mk.injEq] at hs
    exact ⟨r₂, _, except_bind_ok.2 ⟨r₂, hr₂, rfl⟩, hs.1 ▸ h₂⟩
  · rw [if_neg hrun] at hs ⊢
    obtain ⟨s₂, hs₂, hs⟩ := except_bind_ok.1 hs
    rw [← Except.ok.inj hs₂] at hs
    simp only [except_pure_ok, Prod.mk.injEq] at hs
    exact ⟨_, _, except_bind_ok.2 ⟨_, rfl, rfl⟩, hs.1 ▸ h₁⟩

/-- The thread that is dispatched was runnable, so its priority is read. -/
theorem dispatch (h : SameSched s r) (hi : RunqInv s) (hs : dispatchBody s = some (t, s₁)) :
    ∃ r₁, dispatchBody r = some (t, r₁) ∧ SameSched s₁ r₁ := by
  have hhigh : highestRunq r = highestRunq s := by simp only [highestRunq, h.queues]
  have ht : Active s t := by
    obtain ⟨p, x, hx, -⟩ := dispatchBody_some hs
    simp [Active, ((hi.mem t p).1 (hx ▸ List.mem_cons_self)).1]
  unfold dispatchBody at hs ⊢
  rw [hhigh]
  cases hp : highestRunq s with
  | none => rw [hp] at hs; cases hs
  | some p =>
    rw [hp] at hs
    cases hd : utqueueDequeue (.runq p) s with
    | none => simp [hd] at hs
    | some x =>
      obtain ⟨u, s₂⟩ := x
      simp only [hd, Option.some.injEq, Prod.mk.injEq] at hs
      obtain ⟨rfl, rfl⟩ := hs
      obtain ⟨r₂, hr₂, h₂⟩ := h.dequeue hd
      refine ⟨{ r₂ with runqSize := r₂.runqSize - 1 }.setState u .onCpu, by simp only [hr₂], ?_⟩
      refine (h₂.setSize (congrArg (· - 1) h₂.runqSize)).setState u .onCpu (.inl ?_)
      obtain ⟨x, -, rfl⟩ := utqueueDequeue_some hd
      simpa [Active] using ht

theorem dispatch_none (h : SameSched s r) (hs : dispatchBody s = none) : dispatchBody r = none := by
  rw [dispatchBody_none] at hs ⊢
  intro p
  rw [h.queues]
  exact hs p

end SameSched

/-- **The operations read no more.** -/
theorem opStep_same {op : RunqOp N} {out : Option (Fin N)} (h : SameSched s r) (hi : RunqInv s)
    (hs : opStep s op = some (s₁, out)) : ∃ r₁, opStep r op = some (r₁, out) ∧ SameSched s₁ r₁ := by
  obtain ⟨s₂, hop, he⟩ := Option.map_eq_some_iff.1 hs
  simp only [Prod.mk.injEq] at he
  obtain ⟨rfl, rfl⟩ := he
  clear hs
  have hquiet : opOut r op = opOut s op →
      (∃ r₁, opState r op = some r₁ ∧ SameSched s₂ r₁) →
      ∃ r₁, opStep r op = some (r₁, opOut s op) ∧ SameSched s₂ r₁ := by
    rintro ho ⟨r₁, hr₁, h₁⟩
    exact ⟨r₁, by rw [opStep, hr₁, ho]; rfl, h₁⟩
  cases op with
  | start t prio =>
    obtain ⟨r₁, hr₁, h₁⟩ := h.start (toOption_eq_some.1 hop)
    exact hquiet rfl ⟨r₁, toOption_eq_some.2 hr₁, h₁⟩
  | wake t =>
    obtain ⟨r₁, hr₁, h₁⟩ := h.wake (toOption_eq_some.1 hop)
    exact hquiet rfl ⟨r₁, toOption_eq_some.2 hr₁, h₁⟩
  | setprio cur t prio =>
    obtain ⟨⟨s₃, res⟩, hs₃, rfl⟩ := Option.map_eq_some_iff.1 hop
    obtain ⟨r₁, res', hr₁, h₁⟩ := h.setprio (toOption_eq_some.1 hs₃)
    exact hquiet rfl ⟨r₁, Option.map_eq_some_iff.2 ⟨_, toOption_eq_some.2 hr₁, rfl⟩, h₁⟩
  | save t =>
    simp only [opState] at hop
    split_ifs at hop with ht
    obtain ⟨r₁, hr₁, h₁⟩ := h.save (by simp [Active, ht]) (toOption_eq_some.1 hop)
    exact hquiet rfl ⟨r₁, by
      simp only [opState]
      rw [if_pos ((h.state t).trans ht)]
      exact toOption_eq_some.2 hr₁, h₁⟩
  | dispatch =>
    cases hd : dispatchBody s with
    | none =>
      simp only [opState, hd, Option.some.injEq] at hop
      subst hop
      have hd' := h.dispatch_none hd
      exact hquiet (by simp only [opOut, hd, hd']) ⟨r, by simp only [opState, hd'], h⟩
    | some x =>
      obtain ⟨t, s₃⟩ := x
      simp only [opState, hd, Option.some.injEq] at hop
      subst hop
      obtain ⟨r₁, hr₁, h₁⟩ := h.dispatch hi hd
      exact hquiet (by simp only [opOut, hd, hr₁]; rfl) ⟨r₁, by simp only [opState, hr₁], h₁⟩
  | alloc t => exact hquiet rfl (h.changeState (.inr (by decide)) hop)
  | free t => exact hquiet rfl (h.changeState (.inr (by decide)) hop)
  | exit t => exact hquiet rfl (h.changeState (.inr (by decide)) hop)
  | block t =>
    exact hquiet rfl (h.changeState (.inl (by simp [Active, (changeState_some hop).1])) hop)
  | enqueue q t =>
    simp only [opState] at hop
    split_ifs at hop with hq
    obtain ⟨r₁, hr₁, h₁⟩ := h.enqueue (toOption_eq_some.1 hop)
    exact hquiet rfl ⟨r₁, by simp only [opState]; rw [if_neg hq]; exact toOption_eq_some.2 hr₁, h₁⟩
  | dequeue q =>
    simp only [opState] at hop
    split_ifs at hop with hq
    obtain ⟨⟨t, s₃⟩, hd, rfl⟩ := Option.map_eq_some_iff.1 hop
    obtain ⟨r₁, hr₁, h₁⟩ := h.dequeue hd
    exact hquiet rfl ⟨r₁, by simp only [opState]; rw [if_neg hq, hr₁]; rfl, h₁⟩

/-- Nor does a sequence of them. -/
theorem ops_same {ops : List (RunqOp N)} {out : List (Option (Fin N))} (h : SameSched s r)
    (hi : RunqInv s) (hl : LinkInv s) (hs : Runs.outputs opStep s ops = some (s₁, out)) :
    ∃ r₁, Runs.outputs opStep r ops = some (r₁, out) ∧ SameSched s₁ r₁ := by
  have hrel : ∀ (s r : State N L) (op : RunqOp N) (s' : State N L) (o : Option (Fin N)),
      SameSched s r ∧ RunqInv s ∧ LinkInv s → opStep s op = some (s', o) →
        ∃ r', opStep r op = some (r', o) ∧ SameSched s' r' ∧ RunqInv s' ∧ LinkInv s' := by
    rintro s r op s' o ⟨h, hi, hl⟩ hn
    obtain ⟨r', hr', h'⟩ := opStep_same h hi hn
    exact ⟨r', hr', h', opStep_runq hi hl hn⟩
  obtain ⟨r₁, hr₁, h₁, -⟩ := Runs.outputs_related hrel ⟨h, hi, hl⟩ hs
  exact ⟨r₁, hr₁, h₁⟩

/-! ## What a step performs -/

variable {l : Fin L} {i : Instr N} {cs new : Code N} {a : Act} {ds : List (Fin N)}

open Instr

/-- Operations lead from the run queues of `s` to those of `s'`, and dispatch the threads `ds`. -/
def Performs (s s' : State N L) (ds : List (Fin N)) : Prop :=
  ∃ ops s₁ out, Runs.outputs opStep s ops = some (s₁, out) ∧ SameSched s₁ s' ∧ out.reduceOption = ds

namespace Performs

theorem nothing (h : SameSched s s') : Performs s s' [] := ⟨[], s, [], rfl, h, rfl⟩

/-- First an operation that dispatches nobody. -/
theorem cons (op : RunqOp N) (s₁ : State N L) (hop : opState s op = some s₁)
    (ho : opOut s op = none) (h : Performs s₁ s' ds) : Performs s s' ds := by
  obtain ⟨ops, s₂, out, hs, hsame, hds⟩ := h
  refine ⟨op :: ops, s₂, none :: out, ?_, hsame, by
    rwa [List.reduceOption_cons_of_none]⟩
  simp only [Runs.outputs, opStep, hop, ho, Option.map_some, hs]

theorem one (op : RunqOp N) (s₁ : State N L) (hop : opState s op = some s₁)
    (ho : opOut s op = none) (h : SameSched s₁ s') : Performs s s' [] :=
  cons op s₁ hop ho (nothing h)

theorem same (h : Performs s s₁ ds) (hs : SameSched s₁ s') : Performs s s' ds := by
  obtain ⟨ops, s₂, out, hrun, hsame, hds⟩ := h
  exact ⟨ops, s₂, out, hrun, hsame.trans hs, hds⟩

end Performs

/-- What is performed from `s` is also performed from a state that agrees with it. -/
theorem Performs.trans {s₀ : State N L} {ds' : List (Fin N)} (h : Performs s₀ s ds)
    (h' : Performs s s' ds') (hi : RunqInv s) (hl : LinkInv s) : Performs s₀ s' (ds ++ ds') := by
  obtain ⟨ops, s₁, out, hrun, hsame, rfl⟩ := h
  obtain ⟨ops', s₂, out', hrun', hsame', rfl⟩ := h'
  obtain ⟨r₂, hr₂, hsame₂⟩ := ops_same hsame.symm hi hl hrun'
  exact ⟨ops ++ ops', r₂, out ++ out', Runs.outputs_append hrun hr₂, hsame₂.symm.trans hsame',
    List.reduceOption_append out out'⟩

theorem SameCore.sched (h : SameCore s s') : SameSched s s' := .of_eq h.uthreads h.queues h.runqSize

/-- The other fields of a thread are not read. -/
theorem SameSched.of_modUthread (s : State N L) (t : Fin N) (f : Uthread N → Uthread N)
    (hst : (f (s.uthreads t)).utState = (s.uthreads t).utState)
    (hlk : (f (s.uthreads t)).utLink = (s.uthreads t).utLink)
    (hpr : Active s t → (f (s.uthreads t)).utPrio = (s.uthreads t).utPrio) :
    SameSched s (s.modUthread t f) := by
  have hid : s.modUthread t id = s := by simp [State.modUthread]
  have h := (SameSched.refl s).modUthread t (f := id) hst hlk hpr
  rwa [hid] at h

theorem SameSched.of_setLwp (s : State N L) (l : Fin L) (x : Lwp N) : SameSched s (s.setLwp l x) :=
  .of_eq rfl rfl rfl

/-- A queue without threads is as it was initialised. -/
theorem SameSched.of_init (hq : (s.queues q).tqWaiters = []) : SameSched s (s.setQueue q .init) := by
  refine .of_eq rfl ?_ rfl
  have h : Utqueue.init = s.queues q := Utqueue.ext hq.symm
  simp [State.setQueue, h]

theorem performs_setprio {u : Fin N} {prio : ℤ} (hp : InRange prio)
    (he : Effect l t s (setprioTest u prio) s₁ new) : Performs s s₁ [] := by
  cases he with
  | plain _ hs => exact .nothing hs.sched
  | take _ _ _ h => rcases h with ⟨h, -⟩ | ⟨h, -⟩ <;> cases h
  | signal _ _ _ _ h => rcases h with ⟨h, -⟩ | ⟨h, -⟩ <;> cases h
  | setprio _ _ hs _ hne =>
    by_cases ha : Active s u
    · obtain ⟨p, rfl⟩ := hp.level
      obtain ⟨y, hy⟩ : ∃ y, setprioBody t u ((p : ℕ) : ℤ) s = .ok (s₁, .changed y) := by
        unfold setprioBody
        rw [if_neg (by rintro (e | e | e) <;> simp [Active, e] at ha), if_neg hne]
        rcases hs with ⟨rfl, hst⟩ | ⟨hst, hr⟩
        · simp [hst, bind, Except.bind, pure, Except.pure]
        · simp [hst, hr, bind, Except.bind, pure, Except.pure]
      exact .one (.setprio t u p) s₁ (by simp [opState, hy, Except.toOption]) rfl (.refl s₁)
    · -- nobody reads the priority of an inactive thread
      rcases hs with ⟨rfl, -⟩ | ⟨hst, -⟩
      · exact .nothing (.of_modUthread s u _ rfl rfl fun h => absurd h ha)
      · simp [Active, hst] at ha

/-- What the switch of a thread performs. -/
theorem performs_switch {q : Option (QueueId N)} {sv : Bool} {m : Option (PmtxId N)} (hc : Core s)
    (hon : OnStack s l t) (hcode : (s.uthreads t).utCtx = swtch q sv m :: cs)
    (h : Switched l t s q sv m s₁) : Performs s s₁ [] := by
  have hwf := hc.codes.wf t
  have hst := (hc.active hon).1
  rw [hcode] at hwf hst
  cases h with
  | @yield s₂ hz hs₂ =>
    have hcpu : (s.uthreads t).utState = .onCpu := by
      unfold expect at hst
      split_ifs at hst with hd ha
      · exact absurd hst hz
      · cases ha
      · exact hst
    exact .one (.save t) s₂ (by simp [opState, hcpu, hs₂, Except.toOption]) rfl
      (.of_setLwp s₂ l _)
  | @queue q p s₂ _ hs₂ hs =>
    have hq : q.isRunq = false := by cases hwf.1 <;> rfl
    exact .one (.enqueue q t) s₂ (by simp [opState, hq, hs₂, Except.toOption]) rfl
      ((SameSched.of_setLwp s₂ l _).trans hs.sched)
  | leave p => exact .nothing (.of_setLwp s l _)
  | gone sv h => exact .nothing (.of_setLwp s l _)

/-- What a write of `uthread_create` performs: nothing. -/
theorem performs_create {w : CreateStep} {u : Fin N} {prio : ℤ} (hc : Core s)
    (hcode : (s.uthreads t).utCtx = createInit w u prio :: cs)
    (he : Effect l t s (createInit w u prio) s₁ new) : SameSched s s₁ := by
  obtain ⟨-, hv, hlk, -⟩ := hc.creating hcode he
  have hempty := fun hw : w = .waiter => hc.create_empty (hw ▸ hcode) (hw ▸ he)
  obtain ⟨rfl, -⟩ := effect_create he
  have hinactive : ¬ Active s u := by rcases hv with e | e <;> simp [Active, e]
  cases w with
  | ctx =>
    simp only [createWrite]
    split_ifs
    · exact .refl s
    · exact .of_modUthread s u (fun x => { x with utCtx := threadStartCode }) rfl rfl fun _ => rfl
  | link => exact .of_modUthread s u (fun x => { x with utLink := none }) rfl hlk.symm fun _ => rfl
  | prio =>
    exact .of_modUthread s u (fun x => { x with utPrio := -1 }) rfl rfl fun h => absurd h hinactive
  | exit => exact .of_modUthread s u (fun x => { x with utExit := 0 }) rfl rfl fun _ => rfl
  | count => exact .of_modUthread s u (fun x => { x with utNoPreemptCount := 1 }) rfl rfl fun _ => rfl
  | waiter =>
    exact (SameSched.of_modUthread s u (fun x => { x with utWaiterInit := true }) rfl rfl
      fun _ => rfl).trans (.of_init (hempty rfl))
  | pmut => exact .of_eq rfl rfl rfl

/-- What `uthread_destroy` performs: at its end the slot is free. -/
theorem performs_destroy {d : DestroyStep} {u : Fin N} (hc : Core s)
    (hcode : (s.uthreads t).utCtx = destroy d u :: cs)
    (he : Effect l t s (destroy d u) s₁ new) : Performs s s₁ [] := by
  have hz := (hc.slots.destroy t d u (by rw [hcode]; exact List.mem_cons_self)).st
  obtain ⟨rfl, -⟩ := effect_destroy he
  cases d with
  | test | stack => exact .nothing (.refl s)
  | detached =>
    exact .nothing (.of_modUthread s u (fun x => { x with utDetached := false }) rfl rfl fun _ => rfl)
  | exit =>
    exact .nothing (.of_modUthread s u (fun x => { x with utExit := 0 }) rfl rfl fun _ => rfl)
  | waiter => exact .nothing (.of_init (hc.slots.noWaiter u (.inr (.inl hz))))
  | pmut => exact .nothing (.of_eq rfl rfl rfl)
  | state =>
    exact .one (.free u) (s.setState u .noState) (by simp [opState, changeState, hz]) rfl
      (.of_eq rfl rfl rfl)

/-- **What an instruction performs.** It dispatches nobody. -/
theorem effect_performs (hc : Core s) (hr : SetsInRange s) (hon : OnStack s l t)
    (hcode : (s.uthreads t).utCtx = i :: cs) (he : Effect l t s i s₁ new) : Performs s s₁ [] := by
  have hwf := hc.codes.wf t
  have hst := (hc.active hon).1
  rw [hcode] at hwf hst
  -- a thread that goes to sleep, and one that dies
  have hblock : (∃ m, i = lockTest m) ∨ (∃ c, i = waitMark c) ∨ (∃ u n, i = joinTest u n) →
      opState s (.block t) = some (s.setState t .wait) := fun hi => if_pos (blocks_onCpu hc hon hcode hi)
  have hexit : ∀ {s'} (status : ℤ), i = exitTest t status →
      Performs (s.setState t .zombie) s' [] → Performs s s' [] := by
    rintro s' status rfl h
    obtain ⟨-, rfl⟩ := hwf.1
    exact .cons (.exit t) (s.setState t .zombie) (if_pos (by simpa [expect, asleep] using hst)) rfl h
  have hdead : ∀ status : ℤ, SameSched (s.setState t .zombie)
      (s.modUthread t fun x => { x with utState := .zombie, utExit := status }) := fun status =>
    (SameSched.refl s).modUthread t rfl rfl fun _ => rfl
  cases he with
  | plain hp hs => exact .nothing hs.sched
  | lock | unlock => exact .nothing (.of_eq rfl rfl rfl)
  | nopreemptOn | nopreemptOff | interruptLeave =>
    exact .nothing ((SameSched.of_setLwp s l _).trans (.of_modUthread _ t
      (fun x => { x with utNoPreemptCount := _ }) rfl rfl fun _ => rfl))
  | swtch hs => exact performs_switch hc hon hcode hs
  | wake u hw hs =>
    exact .one (.wake u) s₁ (by simp [opState, wakeBody, hw, hs, Except.toOption]) rfl (.refl s₁)
  | start u prio hu hs =>
    obtain ⟨p, hp, -⟩ := runqEnqueue_ok hs
    obtain rfl : prio = ((p : ℕ) : ℤ) := by simpa using hp
    exact .one (.start u p) s₁ (by simp [opState, startBody, hu, hs, Except.toOption]) rfl (.refl s₁)
  | setprio u prio hs hnew hne =>
    have he : Effect l t s (setprioTest u prio) s₁ new := .setprio u prio hs hnew hne
    exact performs_setprio (hr t prio (by simp [hcode])) he
  | take m ho hs | release m hq hs => exact .nothing (.of_eq hs.uthreads hs.queues hs.runqSize)
  | block m ho => exact .one (.block t) _ (hblock (.inl ⟨m, rfl⟩)) rfl (.refl _)
  | @handOver m u s₂ _ hq hs =>
    exact .one (.dequeue (.mWaiters m)) s₂ (by simp [opState, QueueId.isRunq, hq]) rfl
      (.of_eq hs.uthreads hs.queues hs.runqSize)
  | waitMark c hs => exact .one (.block t) _ (hblock (.inr (.inl ⟨c, rfl⟩))) rfl hs.sched
  | @signal c u _ s₂ _ _ hq hs =>
    exact .one (.dequeue (.ucWaiters c)) s₂ (by simp [opState, QueueId.isRunq, hq]) rfl hs.sched
  | alloc start prio u hu hs =>
    exact .one (.alloc u) _ (if_pos (allocWhile_noState hu)) rfl hs.sched
  | create w u prio hv hl hp =>
    have he : Effect l t s (createInit w u prio) _ _ := .create w u prio hv hl hp
    exact .nothing (performs_create hc hcode he)
  | exitDetached u status hd | exitAlone u status hd =>
    obtain ⟨rfl, -⟩ := hwf.1
    exact hexit status rfl (.nothing (hdead status))
  | exitJoined u w status hd hq =>
    obtain ⟨rfl, -⟩ := hwf.1
    obtain ⟨s₂, hs₂, hsame⟩ := (hdead status).symm.dequeue hq
    exact hexit status rfl (.one (.dequeue (.utWaiter u)) s₂ (by simp [opState, QueueId.isRunq, hs₂])
      rfl hsame.symm)
  | @makeReapable u s₂ _ _ hz hs₂ hs =>
    exact .one (.enqueue .reapQueue u) s₂ (by simp [opState, QueueId.isRunq, hs₂, Except.toOption])
      rfl hs.sched
  | @joinWait u k s₂ _ hq hd hz hinit hs₂ hs =>
    exact .cons (.block t) _ (hblock (.inr (.inr ⟨u, k, rfl⟩))) rfl
      (.one (.enqueue (.utWaiter u) t) s₂ (by simp [opState, QueueId.isRunq, hs₂, Except.toOption])
        rfl hs.sched)
  | claim u k hz =>
    exact .nothing (.of_modUthread s u (fun x => { x with utDetached := true }) rfl rfl fun _ => rfl)
  | detach u k hq hd hinit hs =>
    exact .nothing ((SameSched.of_modUthread s u (fun x => { x with utDetached := true }) rfl rfl
      fun _ => rfl).trans hs.sched)
  | drain u hq hz =>
    exact .one (.dequeue .reapQueue) s₁ (by simp [opState, QueueId.isRunq, hq]) rfl (.refl s₁)
  | destroy d u hz hno ho =>
    have he : Effect l t s (destroy d u) _ _ := .destroy d u hz hno ho
    exact performs_destroy hc hcode he

/-! ## What a run performs -/

/-- **A step of the library is a sequence of operations**, which dispatches the thread that the step
dispatches. -/
theorem next_performs {b : Fin L × Act} (hc : Core s) (hr : SetsInRange s) (h : next s b = some s') :
    Performs s s' (dispatched s b).toList := by
  obtain ⟨l, a⟩ := b
  -- an LWP that does not search dispatches nobody
  have hquiet : (s.lwps l).mode ≠ .searching ∨ dispatchBody s = none →
      Performs s s' [] → Performs s s' (dispatched s (l, a)).toList := by
    intro hm hp
    have hd : dispatched s (l, a) = none := by
      unfold dispatched
      rcases hm with hm | hm <;> simp [hm]
    rwa [hd]
  have hrun : ∀ {t}, OnStack s l t → (s.lwps l).mode ≠ .searching := fun hon => by simp [hon.1]
  cases step_move hc.codes.wf h with
  | halted e hs =>
    refine hquiet ?_ (.nothing (.of_eq rfl rfl rfl))
    cases hs with
    | thread t i cs hon => exact .inl (hrun hon)
    | interrupt t hon => exact .inl (hrun hon)
    | acquire hm => rcases hm with hm | hm <;> simp [hm]
    | release p hm => rcases hm with hm | ⟨-, hm | hm⟩ <;> simp [hm]
    | allParked hm hd => exact .inr hd
  | thread t i cs new hon hcode he =>
    exact hquiet (.inl (hrun hon)) ((effect_performs hc hr hon hcode he).same
      (.of_modUthread _ t (fun x => { x with utCtx := new ++ cs }) rfl rfl fun _ => rfl))
  | call t c hon hcode =>
    exact hquiet (.inl (hrun hon)) (.nothing
      (.of_modUthread s t (fun x => { x with utCtx := c.code s.incarnation t }) rfl rfl fun _ => rfl))
  | preempt t hon hm hst h0 =>
    exact hquiet (.inl (hrun hon)) (.nothing ((SameSched.of_setLwp s l _).trans (.of_modUthread _ t
      (fun x => { x with utNoPreemptCount := 1, utCtx := clockInterrupt ++ x.utCtx }) rfl rfl
        fun _ => rfl)))
  | acquire m hm hst ho hs =>
    refine hquiet ?_ (.nothing (.of_eq hs.uthreads hs.queues hs.runqSize))
    rcases hm with ⟨hm, -⟩ | ⟨hm, -⟩ <;> simp [hm]
  | unlock p hm => exact hquiet (.inl (by simp [hm])) (.nothing (.of_eq rfl rfl rfl))
  | @dispatch _ t s₁ hm hd =>
    have hout : dispatched s (l, a) = some t := by simp [dispatched, hm, hd]
    rw [hout]
    refine ⟨[.dispatch], s₁, [some t], ?_, .of_setLwp s₁ l _, rfl⟩
    simp [Runs.outputs, opStep, opState, opOut, hd]
  | idle m hm hs hh hp =>
    refine hquiet ?_ (.nothing (.of_eq hs.uthreads hs.queues hs.runqSize))
    rcases hm with ⟨hm, rfl⟩ | ⟨hm, -⟩
    · rw [hm] at hp
      cases hp with
      | park _ _ _ _ hd => exact .inr hd
    · exact .inl (by simp [hm])
  | leave m hm ho hs =>
    refine hquiet ?_ (.nothing (.of_eq hs.uthreads hs.queues hs.runqSize))
    rcases hm with ⟨hm, -⟩ | ⟨hm, -⟩ <;> simp [hm]

/-- The threads that a step dispatches. -/
def dispatches (s : State N L) (b : Fin L × Act) (_ : State N L) : List (Fin N) :=
  (dispatched s b).toList

/-- `uthread_runq_enqueue` of an unlinked thread succeeds. -/
theorem runqEnqueue_succeeds {p : Fin (uthMaxprio + 1)} (hp : (s.uthreads t).utPrio = ((p : ℕ) : ℤ))
    (hlk : (s.uthreads t).utLink = none) : ∃ s', uthreadRunqEnqueue t s = .ok s' := by
  unfold uthreadRunqEnqueue
  rw [hp, runqIndex_cast]
  simp [utqueueEnqueue, hlk, bind, Except.bind, pure, Except.pure]

/-- A thread is created: a free slot is taken, and the thread is put on the level of its priority. -/
theorem ops_create (p : Fin (uthMaxprio + 1)) (hst : (s.uthreads t).utState = .noState)
    (hlk : (s.uthreads t).utLink = none) : ∃ s',
      Runs.outputs opStep s [.alloc t, .start t p] = some (s', [none, none]) ∧
      s'.uthreads = Function.update s.uthreads t
        { s.uthreads t with utState := .runnable, utPrio := (p : ℕ), utLink := some (.runq p) } ∧
      s'.queues = Function.update s.queues (.runq p) ((s.queues (.runq p)).enqueue t) ∧
      s'.runqSize = s.runqSize + 1 := by
  obtain ⟨s', hs'⟩ : ∃ s', uthreadRunqEnqueue t (((s.setState t .transition).modUthread t
      fun u => { u with utPrio := (p : ℕ) }).setState t .runnable) = .ok s' :=
    runqEnqueue_succeeds (p := p) (by simp) (by simpa using hlk)
  refine ⟨s', ?_, ?_⟩
  · simp [Runs.outputs, opStep, opState, opOut, changeState, hst, startBody, hs', Except.toOption]
  · obtain ⟨r, hr, -, hu, hq, hn, -⟩ := runqEnqueue_ok hs'
    obtain rfl : p = r := Fin.ext (by simpa using hr)
    refine ⟨?_, hq, hn⟩
    rw [hu]
    funext v
    by_cases hv : v = t
    · subst hv; simp
    · simp [hv]

/-- `create_first_thr` has put the first thread and the reaper on the empty run queues. -/
theorem boot_performs : Performs (schedInit (N + 1) (L + 1)) (boot N L) [] := by
  obtain ⟨s₁, h₁, hu₁, hq₁, hn₁⟩ := ops_create (s := schedInit (N + 1) (L + 1)) (t := 0)
    (Fin.last uthMaxprio) rfl rfl
  obtain ⟨s₂, h₂, hu₂, hq₂, hn₂⟩ := ops_create (s := s₁) (t := 1) (Fin.last uthMaxprio)
    (by rw [hu₁]; rfl) (by rw [hu₁]; rfl)
  refine ⟨_, s₂, _, Runs.outputs_append h₁ h₂, ?_, rfl⟩
  have hsame : ∀ v, ((boot N L).uthreads v).utState = (s₂.uthreads v).utState ∧
      ((boot N L).uthreads v).utLink = (s₂.uthreads v).utLink ∧
      ((boot N L).uthreads v).utPrio = (s₂.uthreads v).utPrio := by
    intro v
    rw [hu₂, hu₁]
    by_cases h0 : v = 0
    · subst h0; simp [boot, Uthread.first]
    · by_cases h1 : v = 1
      · subst h1; simp [boot, Uthread.first, h0]
      · simp [boot, schedInit, h0, h1]
  refine ⟨fun v => (hsame v).1, fun v => (hsame v).2.1, fun v _ => (hsame v).2.2, ?_, ?_⟩
  · rw [hq₂, hq₁]
    funext q
    by_cases hq : q = .runq (Fin.last uthMaxprio)
    · subst hq; simp [boot, schedInit]
    · simp [boot, schedInit, hq]
  · rw [hn₂, hn₁]
    rfl

theorem sets_reachable {ok : State (N + 2) (L + 1) → Fin (L + 1) × Act → Prop}
    {s : State (N + 2) (L + 1)} (h : Reachable ok (boot N L) s) : SetsInRange s := by
  refine h.invariant_of (fun _ hr => core_reachable boot_core hr) (fun v p hp => ?_) ?_
  · rcases boot_code (L := L) v with h | h | h <;> rw [h] at hp <;>
      simp [threadStartCode, reaper, uthreadMtxLock] at hp
  · rintro s s' ⟨l, a⟩ hc hr - hn
    exact sets_turn hr (move_turn hc (step_move hc.codes.wf hn))

end Uthreads
