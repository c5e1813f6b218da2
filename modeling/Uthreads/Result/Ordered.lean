import Mathlib.Order.WithBot
import Uthreads.Lib.LockOrder
import Uthreads.Result.Mutex

/-!
# Mutexes that are locked in order

A client numbers its mutexes and lets a thread lock only mutexes above those that it has locked. Then no
thread waits for itself through the uthread mutexes, `reap_mtx` included, which the library takes on
top of all (`ordered_acyclic`).

`Sorted` is the invariant: what a thread owns ranks below what its code still has to get, and the owner
of `reap_mtx` is in code that unlocks it.
-/

namespace Uthreads

variable {N L : ℕ} {l : Fin L} {t u v : Fin N} {s s' s₁ : State N L} {i : Instr N} {c cs new : Code N}
  {a : Act} {m m' : MtxId}

open Instr Events LockOrder Chains

/-! ## What a code still has to get -/

/-- The mutex that the instruction gets, or waits for. -/
@[simp] def Instr.gets : Instr N → List MtxId
  | lockTest m | lockOwned m => [m]
  | _ => []

/-- The mutexes that a code is about to get. -/
def gets (c : Code N) : List MtxId := c.flatMap Instr.gets

@[simp] theorem gets_nil : gets ([] : Code N) = [] := rfl

@[simp] theorem gets_cons (i : Instr N) (cs : Code N) : gets (i :: cs) = i.gets ++ gets cs :=
  List.flatMap_cons

@[simp] theorem gets_append (c cs : Code N) : gets (c ++ cs) = gets c ++ gets cs :=
  List.flatMap_append

/-- The code that an instruction puts in front gets the same mutex as the instruction, or is the end of
a call and gets `reap_mtx`. -/
theorem effect_gets (hwf : Wf t (i :: cs)) (he : Effect l t s i s₁ new) :
    gets new = [] ∨ gets new = i.gets ∨ gets new = [.reapMtx] ∧ i.gets = [] ∧ cs = [] := by
  cases he with
  | plain hp =>
    cases hp with
    | reaperWait =>
      exact .inr (.inr ⟨by simp [uthreadCondWait, uthreadMtxUnlock, uthreadMtxLock, uthreadSwitch],
        rfl, hwf.1⟩)
    | _ => simp [uthreadMtxUnlock]
  | setprio _ _ _ h => rcases h with rfl | rfl <;> simp [uthreadYield, uthreadSwitch]
  | take _ _ _ h => rcases h with ⟨-, rfl⟩ | ⟨-, rfl⟩ <;> simp
  | signal _ _ _ _ h => rcases h with ⟨-, rfl⟩ | ⟨-, rfl⟩ <;> simp [uthreadWake]
  | detach _ _ _ _ _ _ h =>
    rcases h with ⟨-, rfl⟩ | ⟨-, rfl⟩
    · exact .inr (.inr ⟨by simp [uthreadMtxLock], rfl, hwf.1⟩)
    · simp
  | makeReapable _ _ _ _ h =>
    subst h
    split <;> simp [uthreadCondSignal, uthreadMtxUnlock, uthreadSwitch]
  | claim => exact .inr (.inr ⟨by simp [uthreadMtxLock], rfl, hwf.1⟩)
  | block => simp [uthreadSwitch]
  | create w => cases w <;> simp [createRest, uthreadStartonrunq]
  | destroy d => cases d <;> simp [destroyRest]
  | _ => simp [uthreadSwitch, uthreadMtxUnlock, uthreadWake, deadCode]

/-- Code in which whoever gets `reap_mtx` goes on to unlock it. -/
def Bracketed (c : Code N) : Prop :=
  ∀ i cs, (i :: cs) <:+ c → .reapMtx ∈ i.takes → Owns .reapMtx cs

theorem Bracketed.cons (h : Bracketed cs) (hi : .reapMtx ∈ i.takes → Owns .reapMtx cs) :
    Bracketed (i :: cs) := by
  intro j ds hs hj
  rcases List.suffix_cons_iff.1 hs with e | hs
  · obtain ⟨rfl, rfl⟩ := List.cons.inj e
    exact hi hj
  · exact h j ds hs hj

theorem Bracketed.tail (h : Bracketed (i :: cs)) : Bracketed cs := by
  intro j ds hs hj
  exact h j ds (hs.trans (List.suffix_cons i cs)) hj

/-- Code that does not take `reap_mtx`, in front. -/
theorem Bracketed.append (new : Code N) (h : Bracketed cs)
    (hn : ∀ j ∈ new, MtxId.reapMtx ∉ j.takes) : Bracketed (new ++ cs) := by
  induction new with
  | nil => exact h
  | cons i new ih =>
    have hnew := ih fun j hj => hn j (List.mem_cons_of_mem i hj)
    exact hnew.cons fun hi => absurd hi (hn i List.mem_cons_self)

theorem bracketed_nil : Bracketed ([] : Code N) := by
  intro i cs hs
  cases List.suffix_nil.1 hs

theorem bracketed_of_takes (hn : ∀ j ∈ c, MtxId.reapMtx ∉ j.takes) : Bracketed c := by
  have h := bracketed_nil.append c hn
  rwa [List.append_nil] at h

/-- The lock of `reap_mtx` in front of code that unlocks it. -/
theorem Bracketed.lock (h : Bracketed cs) (ho : Owns .reapMtx cs) :
    Bracketed (uthreadMtxLock .reapMtx ++ cs) :=
  ((h.cons fun _ => ho).cons (by simp)).cons (by simp)

/-- **The code after an instruction.** -/
theorem effect_bracketed (hwf : Wf t (i :: cs)) (h : Bracketed (i :: cs))
    (he : Effect l t s i s₁ new) : Bracketed (new ++ cs) := by
  by_cases hn : ∀ j ∈ new, MtxId.reapMtx ∉ j.takes
  · exact h.tail.append new hn
  · cases he with
    | plain hp =>
      cases hp with
      | reaperWait =>
        have hcs : cs = [] := hwf.1
        subst hcs
        have hend : Bracketed ([nopreemptOn, waitDone .reapCond, nopreemptOff, reaperWait] : Code N) :=
          bracketed_of_takes (by simp)
        have hall := (hend.lock (by simp)).append ([nopreemptOn, Instr.lock (.cPmut .reapCond)] ++
          uthreadMtxUnlock .reapMtx ++ [waitMark .reapCond] ++
          uthreadSwitch (some (.ucWaiters .reapCond)) false (some (.cPmut .reapCond)) ++
          [nopreemptOff]) (by simp [uthreadMtxUnlock, uthreadSwitch])
        simpa [uthreadCondWait] using hall
      | _ => simp [uthreadMtxUnlock] at hn
    | setprio _ _ _ h => rcases h with rfl | rfl <;> simp [uthreadYield, uthreadSwitch] at hn
    | take _ _ _ h => rcases h with ⟨-, rfl⟩ | ⟨-, rfl⟩ <;> simp at hn
    | signal _ _ _ _ h => rcases h with ⟨-, rfl⟩ | ⟨-, rfl⟩ <;> simp [uthreadWake] at hn
    | detach u k _ _ _ _ h' =>
      have hcs : cs = [] := hwf.1
      subst hcs
      rcases h' with ⟨-, rfl⟩ | ⟨-, rfl⟩
      · have hend : Bracketed ([detachReap u k] : Code N) := bracketed_of_takes (by simp)
        simpa using hend.lock (by simp)
      · simp at hn
    | makeReapable _ _ _ _ h =>
      subst h
      split at hn <;> simp [uthreadCondSignal, uthreadMtxUnlock, uthreadSwitch] at hn
    | claim u k =>
      have hcs : cs = [] := hwf.1
      subst hcs
      have hend : Bracketed ([Instr.lock (.utPmut u), joinReap u k (s.uthreads u).utExit] : Code N) :=
        bracketed_of_takes (by simp)
      have hall := (hend.lock (by simp)).append [Instr.unlock (.utPmut u)] (by simp)
      simpa using hall
    | block m ho =>
      obtain rfl : m = .reapMtx := by simpa [uthreadSwitch, eq_comm] using hn
      have howns : Owns .reapMtx cs := h _ _ List.suffix_rfl (by simp)
      have hend : Bracketed (lockOwned .reapMtx :: nopreemptOff :: cs) :=
        (h.tail.cons (by simp)).cons fun _ => by simpa using howns
      have hall := hend.append (uthreadSwitch (some (.mWaiters .reapMtx)) false
        (some (.mPmut .reapMtx))) (by simp [uthreadSwitch])
      simpa using hall
    | create w => cases w <;> simp [createRest, uthreadStartonrunq] at hn
    | destroy d => cases d <;> simp [destroyRest] at hn
    | _ => simp [uthreadSwitch, uthreadMtxUnlock, uthreadWake, deadCode] at hn

/-- The code goes on to unlock `reap_mtx`, or to get it. -/
def Busy (c : Code N) : Prop := Owns .reapMtx c ∨ .reapMtx ∈ gets c

theorem not_busy_of_gone (h : Gone t c ∨ c = threadStartCode) : ¬ Busy c := by
  rcases h with (rfl | rfl | rfl) | rfl <;> simp [Busy, deadCode, uthreadSwitch, threadStartCode]

/-- **The owner of `reap_mtx` stays busy** until it unlocks it. -/
theorem effect_busy (hwf : Wf t (i :: cs)) (hb : Bracketed (i :: cs)) (he : Effect l t s i s₁ new)
    (hi : i ≠ unlockTest .reapMtx) (h : Busy (i :: cs)) : Busy (new ++ cs) := by
  -- a call at its end is not busy, but for the instructions that own `reap_mtx`
  have hend : cs = [] → i.owned = [] → i.gets = [] → False := by
    rintro rfl ho hg
    rcases h with h | h
    · rw [owns_cons, ho] at h
      simp at h
    · rw [gets_cons, hg] at h
      simp at h
  unfold Busy at h ⊢
  cases he with
  | plain hp =>
    cases hp with
    | resume | yieldAssert | wakeAssert | wakeDrop | waitDone | threadStart | ret => simpa using h
    | signalNone | broadcastNone => simpa using h
    | lockOwned m' ho =>
      by_cases hm : m' = .reapMtx
      · subst hm
        exact .inl (hb _ _ List.suffix_rfl (by simp))
      · simpa [hm, Ne.symm hm] using h
    | trylockFail | allocStart | allocNone | allocReturnNone | allocReturn | allocStack
    | allocStackFail | joinFail | joinZombie | claimFail | detachFail | setprio =>
      exact (hend hwf.1 rfl rfl).elim
    | reapableNot | reapLate | reap | detachLate | detachZombie | reaperWait | reaperGo
    | reaperDrained | scanFound | scanNext =>
      simp [uthreadMtxUnlock, uthreadCondWait]
  | lock | unlock | nopreemptOn | nopreemptOff | interruptLeave | swtch | wake | start
  | waitMark => simpa using h
  | destroy d =>
    obtain rfl : cs = [reaperDrain] := hwf.1
    cases d <;> simp [destroyRest]
  | setprio => exact (hend hwf.1 rfl rfl).elim
  | take m' ho hs hnew =>
    rcases hnew with ⟨rfl, rfl⟩ | ⟨rfl, rfl⟩
    · by_cases hm : m' = .reapMtx
      · subst hm
        have howns := hb _ _ List.suffix_rfl (by simp)
        exact .inl (by simpa using howns)
      · simpa [hm, Ne.symm hm] using h
    · exact (hend hwf.1 rfl rfl).elim
  | block m' ho =>
    by_cases hm : m' = .reapMtx
    · subst hm
      simp [uthreadSwitch]
    · simpa [uthreadSwitch, hm, Ne.symm hm] using h
  | release m' hq hs | handOver m' u hq hs =>
    have hm : m' ≠ .reapMtx := by
      rintro rfl
      exact hi rfl
    simpa [uthreadWake, hm, Ne.symm hm] using h
  | signal _ _ _ _ hnew =>
    rcases hnew with ⟨rfl, rfl⟩ | ⟨rfl, rfl⟩ <;> simpa [uthreadWake] using h
  | alloc | create | joinWait | claim => exact (hend hwf.1 rfl rfl).elim
  | detach => exact (hend hwf.1 rfl rfl).elim
  | exitDetached | exitAlone | exitJoined | drain => simp [uthreadMtxUnlock, uthreadWake]
  | makeReapable _ _ _ _ hnew =>
    subst hnew
    left
    simp [uthreadCondSignal, uthreadMtxUnlock]

/-! ## Who owns what -/

/-- A thread owns a mutex after an instruction of `t` because it did so before, because it is `t` and
has taken it, or because `t` has handed it over. -/
theorem effect_gains (he : Effect l t s i s₁ new) (ho : (s₁.mtx m).mOwner = some v) :
    (s.mtx m).mOwner = some v ∧ i ≠ unlockTest m ∨
      v = t ∧ (i = lockTest m ∨ i = trylockTest m) ∧ m ∉ gets new ∨
      i = unlockTest m ∧ v ∈ (s.queues (.mWaiters m)).tqWaiters := by
  by_cases hun : i = unlockTest m
  · subst hun
    refine .inr (.inr ⟨rfl, ?_⟩)
    rw [(effect_mtxUnlock he).1, ho]
    simp
  by_cases hl : i = lockTest m ∨ i = trylockTest m
  · rcases hown : (s.mtx m).mOwner with _ | u
    · right; left
      rw [effect_take he hl hown] at ho
      obtain rfl := Option.some.inj ho
      refine ⟨rfl, hl, ?_⟩
      cases he with
      | plain hp =>
        rcases hl with rfl | rfl
        · cases hp
        · cases hp
          simp
      | take _ _ _ h => rcases h with ⟨-, rfl⟩ | ⟨-, rfl⟩ <;> simp
      | signal _ _ _ _ h =>
        rcases h with ⟨rfl, -⟩ | ⟨rfl, -⟩ <;> rcases hl with hl | hl <;> cases hl
      | block _ hne =>
        rcases hl with hl | hl <;> cases hl
        exact absurd hown hne
      | _ => rcases hl with hl | hl <;> cases hl
    · rw [kept_owner he hown hun] at ho
      exact .inl ⟨ho, hun⟩
  · rw [not_or] at hl
    rw [effect_mtx he m ⟨hl.1, hl.2, hun⟩] at ho
    exact .inl ⟨ho, hun⟩

/-- The order of the mutexes: `reap_mtx` on top of the user's. -/
def MtxId.rank : MtxId → WithTop ℕ
  | .user i => i
  | .reapMtx => ⊤

/-- What a thread owns ranks below what its code still has to get. -/
structure Sorted (s : State N L) : Prop where
  one : ∀ t, (gets (s.uthreads t).utCtx).length ≤ 1
  bracketed : ∀ t, Bracketed (s.uthreads t).utCtx
  busy : ∀ t, (s.mtx .reapMtx).mOwner = some t → Busy (s.uthreads t).utCtx
  below : ∀ t m m', m ∈ gets (s.uthreads t).utCtx → m' ≠ m → (s.mtx m').mOwner = some t →
    m'.rank < m.rank

theorem Sorted.eq (h : Sorted s) (hm : m ∈ gets (s.uthreads t).utCtx)
    (hm' : m' ∈ gets (s.uthreads t).utCtx) : m = m' := by
  have hone := h.one t
  generalize gets (s.uthreads t).utCtx = ms at hm hm' hone
  match ms, hone with
  | [], _ => cases hm
  | [x], _ =>
    rw [List.mem_singleton] at hm hm'
    rw [hm, hm']

/-- Who is on the queue of a mutex is about to get it. -/
theorem MtxInv.gets_waiter (h : MtxInv m s) (hv : v ∈ (s.queues (.mWaiters m)).tqWaiters) :
    m ∈ gets (s.uthreads v).utCtx :=
  List.mem_flatMap.2 ⟨_, awaits_mem (h.waiter v hv), by simp⟩

/-- **An instruction keeps the order.** -/
theorem sorted_thread (hc : Core s) (hm : ∀ m, MtxInv m s) (h : Sorted s) (hon : OnStack s l t)
    (hcode : (s.uthreads t).utCtx = i :: cs) (he : Effect l t s i s₁ new) :
    Sorted (s₁.setCtx t (new ++ cs)) := by
  have hwf := hc.codes.wf t
  have hone := h.one t
  have hb := h.bracketed t
  have hbusy := h.busy t
  have hbelow := h.below t
  rw [hcode] at hwf hone hb hbusy hbelow
  rw [gets_cons, List.length_append] at hone
  -- the code of another thread is as it was, or that of a thread that is set up
  have hother : ∀ v, v ≠ t → ((s₁.setCtx t (new ++ cs)).uthreads v).utCtx = (s.uthreads v).utCtx ∨
      (Gone v (s.uthreads v).utCtx ∨ (s.uthreads v).utCtx = threadStartCode) ∧
        ((s₁.setCtx t (new ++ cs)).uthreads v).utCtx = threadStartCode := by
    intro v hv
    rcases other_code cs he hv with e | ⟨-, hvac, e⟩
    · exact .inl e
    · exact .inr ⟨(hc.free hvac.1).2.2.2, e⟩
  -- a running thread is handed nothing
  have hself : ∀ m, (s₁.mtx m).mOwner = some t → (s.mtx m).mOwner = some t ∧ i ≠ unlockTest m ∨
      (i = lockTest m ∨ i = trylockTest m) ∧ m ∉ gets new := by
    intro m ho
    rcases effect_gains he ho with h | ⟨-, h⟩ | ⟨-, hq⟩
    · exact .inl h
    · exact .inr h
    · exact absurd hq (hc.not_queued hon (by simp) (by simp))
  refine ⟨fun v => ?_, fun v => ?_, fun v ho => ?_, fun v m m' hg hne ho => ?_⟩
  · by_cases hv : v = t
    · subst hv
      rw [State.setCtx_uthreads, if_pos rfl, gets_append, List.length_append]
      rcases effect_gets hwf he with e | e | ⟨e, -, rfl⟩ <;> rw [e]
      · simp only [List.length_nil]; omega
      · exact hone
      · simp
    · rcases hother v hv with e | ⟨-, e⟩ <;> rw [e]
      · exact h.one v
      · simp [threadStartCode]
  · by_cases hv : v = t
    · subst hv
      rw [State.setCtx_uthreads, if_pos rfl]
      exact effect_bracketed hwf hb he
    · rcases hother v hv with e | ⟨-, e⟩ <;> rw [e]
      · exact h.bracketed v
      · exact bracketed_of_takes (by simp [threadStartCode])
  · rw [State.setCtx_mtx] at ho
    by_cases hv : v = t
    · subst hv
      rw [State.setCtx_uthreads, if_pos rfl]
      rcases hself _ ho with ⟨ho, hi⟩ | ⟨hi | hi, -⟩
      · exact effect_busy hwf hb he hi (hbusy ho)
      · subst hi
        exact effect_busy hwf hb he (by simp) (.inr (by simp))
      · -- `reap_mtx` is never tried
        subst hi
        obtain rfl : cs = [] := hwf.1
        exact (hb _ _ List.suffix_rfl (by simp)).elim
    · have hbusy : Busy (s.uthreads v).utCtx := by
        rcases effect_gains he ho with ⟨ho, -⟩ | ⟨e, -⟩ | ⟨-, hq⟩
        · exact h.busy v ho
        · exact absurd e hv
        · exact .inr ((hm .reapMtx).gets_waiter hq)
      rcases hother v hv with e | ⟨hg, -⟩
      · rwa [e]
      · exact absurd hbusy (not_busy_of_gone hg)
  · rw [State.setCtx_mtx] at ho
    by_cases hv : v = t
    · subst hv
      rw [State.setCtx_uthreads, if_pos rfl, gets_append, List.mem_append] at hg
      have hold : m ∈ i.gets ++ gets cs → m'.rank < m.rank := by
        intro hg
        rcases hself _ ho with ⟨ho, -⟩ | ⟨hi | hi, -⟩
        · exact hbelow m m' (by rwa [gets_cons]) hne ho
        · -- what it still has to get is what it has taken now
          subst hi
          exfalso
          have hcs : gets cs = [] := List.length_eq_zero_iff.1 (by simpa using hone)
          simp [hcs, Ne.symm hne] at hg
        · subst hi
          obtain rfl : cs = [] := hwf.1
          simp at hg
      rcases hg with hg | hg
      · rcases effect_gets hwf he with e | e | ⟨e, -, -⟩
        · simp [e] at hg
        · exact hold (by rw [← e]; exact List.mem_append_left _ hg)
        · obtain rfl : m = .reapMtx := by simpa [e] using hg
          cases m' with
          | reapMtx => exact absurd rfl hne
          | user j => exact WithTop.coe_lt_top j
      · exact hold (List.mem_append_right _ hg)
    · rcases hother v hv with e | ⟨-, e⟩ <;> rw [e] at hg
      · rcases effect_gains he ho with ⟨ho, -⟩ | ⟨e, -⟩ | ⟨-, hq⟩
        · exact h.below v m m' hg hne ho
        · exact absurd e hv
        · exact absurd (h.eq ((hm m').gets_waiter hq) hg) hne
      · simp [threadStartCode] at hg

/-! ## The client's order -/

/-- The mutex that a call is going to get. -/
def Call.gets : Call → Option MtxId
  | mtxLock i | condWait _ i => some (.user i)
  | exit _ => some .reapMtx
  | _ => none

theorem call_gets (inc : Fin N → ℕ) (t : Fin N) (c : Call) :
    Uthreads.gets (c.code inc t) = c.gets.toList := by
  cases c with
  | join uid =>
    simp only [Call.code, uthreadJoin]
    split <;> simp [Call.gets]
  | detach uid =>
    simp only [Call.code, uthreadDetach]
    split <;> simp [Call.gets]
  | setprio uid prio =>
    simp only [Call.code, uthreadSetprio]
    split
    · simp [Call.gets]
    · split <;> simp [Call.gets]
  | _ =>
    simp [Call.code, Call.gets, uthreadCreate, uthreadExit, uthreadYield, uthreadSwitch, uthreadMtxLock,
      uthreadMtxTrylock, uthreadMtxUnlock, uthreadCondWait, uthreadCondSignal, uthreadCondBroadcast]

theorem call_bracketed (inc : Fin N → ℕ) (t : Fin N) (c : Call) : Bracketed (c.code inc t) := by
  cases c with
  | exit status =>
    have hend : Bracketed ([lock (.utPmut t), exitTest t status] : Code N) :=
      bracketed_of_takes (by simp)
    have hall := (hend.lock (by simp)).append [nopreemptOn] (by simp)
    simpa [Call.code, uthreadExit] using hall
  | join uid =>
    apply bracketed_of_takes
    simp only [Call.code, uthreadJoin]
    split <;> simp
  | detach uid =>
    apply bracketed_of_takes
    simp only [Call.code, uthreadDetach]
    split <;> simp
  | setprio uid prio =>
    apply bracketed_of_takes
    simp only [Call.code, uthreadSetprio]
    split
    · simp
    · split <;> simp
  | _ =>
    apply bracketed_of_takes
    simp [Call.code, uthreadCreate, uthreadYield, uthreadSwitch, uthreadMtxLock,
      uthreadMtxTrylock, uthreadMtxUnlock, uthreadCondWait, uthreadCondSignal, uthreadCondBroadcast]

/-- A thread that has locked mutex `j` may do this: lock a mutex above it, or wait with it or with one
above it. -/
def Act.allows (j : ℕ) : Act → Prop
  | .call (.mtxLock i) => j < i
  | .call (.condWait _ i) => j ≤ i
  | _ => True

instance (j : ℕ) (a : Act) : Decidable (a.allows j) := by
  unfold Act.allows
  split <;> infer_instance

/-- In this step nobody unlocks a mutex that it does not own, or gets one that is not above those that
it has locked. -/
def orderly (s : State N L) (b : Fin L × Act) : Prop :=
  ∀ t, OnStack s b.1 t → (∀ m ∈ b.2.unlocks, (s.mtx m).mOwner = some t) ∧
    ∀ j, InSection (.user j) s.log t → b.2.allows j

/-- **Every orderly step keeps the order.** -/
theorem sorted_step (hc : Core s) (hm : ∀ m, MtxInv m s) (h : Sorted s) (hok : orderly s (l, a))
    (hmv : Move s l a s') : Sorted s' := by
  cases move_turn hc hmv with
  | thread t i cs new hon hcode he => exact sorted_thread hc hm h hon hcode he
  | call t c hon hcode =>
    have hfree : (s.mtx .reapMtx).mOwner ≠ some t := by
      intro ho
      have hb := h.busy t ho
      rw [hcode] at hb
      rcases hb with hb | hb <;> simp at hb
    refine ⟨fun v => ?_, fun v => ?_, fun v ho => ?_, fun v m m' hg hne ho => ?_⟩ <;>
      by_cases hv : v = t
    · subst hv
      rw [State.setCtx_uthreads, if_pos rfl, call_gets]
      cases c.gets <;> simp
    · simpa [hv] using h.one v
    · subst hv
      rw [State.setCtx_uthreads, if_pos rfl]
      exact call_bracketed _ _ c
    · simpa [hv] using h.bracketed v
    · subst hv
      exact absurd ho hfree
    · simpa [hv] using h.busy v ho
    · subst hv
      rw [State.setCtx_uthreads, if_pos rfl, call_gets, Option.mem_toList] at hg
      cases m' with
      | reapMtx => exact absurd ho hfree
      | user j =>
        have hin : InSection (.user j) s.log v := by
          refine ((hm (.user j)).owner v ho).resolve_right fun ⟨haw, _⟩ => ?_
          rw [hcode] at haw
          cases haw
        have hj := (hok v hon).2 j hin
        cases c with
        | mtxLock i =>
          obtain rfl : m = .user i := by simpa [Call.gets, eq_comm] using hg
          exact WithTop.coe_lt_coe.2 hj
        | condWait k i =>
          obtain rfl : m = .user i := by simpa [Call.gets, eq_comm] using hg
          have hne' : j ≠ i := by
            rintro rfl
            exact hne rfl
          exact WithTop.coe_lt_coe.2 (lt_of_le_of_ne hj hne')
        | exit status =>
          obtain rfl : m = .reapMtx := by simpa [Call.gets, eq_comm] using hg
          exact WithTop.coe_lt_top j
        | _ => simp [Call.gets] at hg
    · exact h.below v m m' (by simpa [hv] using hg) hne ho
  | preempt t hon hmask hst h0 =>
    have hgets : ∀ v, Uthreads.gets (((s.setLwp l { s.lwps l with masked := true }).modUthread t
        fun u => { u with utNoPreemptCount := 1, utCtx := clockInterrupt ++ u.utCtx }).uthreads v).utCtx =
        Uthreads.gets (s.uthreads v).utCtx := by
      intro v
      by_cases hv : v = t
      · subst hv; simp [clockInterrupt, uthreadYield, uthreadSwitch]
      · simp [hv]
    refine ⟨fun v => ?_, fun v => ?_, fun v ho => ?_, fun v m m' hg hne ho => ?_⟩
    · rw [hgets]
      exact h.one v
    · by_cases hv : v = t
      · subst hv
        have hall := (h.bracketed v).append clockInterrupt
          (by simp [clockInterrupt, uthreadYield, uthreadSwitch])
        simpa using hall
      · simpa [hv] using h.bracketed v
    · have hb : Busy (s.uthreads v).utCtx := h.busy v ho
      unfold Busy at hb ⊢
      rw [hgets]
      by_cases hv : v = t
      · subst hv; simpa [clockInterrupt, uthreadYield, uthreadSwitch] using hb
      · simpa [hv] using hb
    · rw [hgets] at hg
      exact h.below v m m' hg hne ho
  | lwp hb =>
    have hcode := fun v => (hb.fields v).1
    refine ⟨fun v => ?_, fun v => ?_, fun v ho => ?_, fun v m m' hg hne ho => ?_⟩
    · rw [hcode]
      exact h.one v
    · rw [hcode]
      exact h.bracketed v
    · rw [hb.mtx] at ho
      rw [hcode]
      exact h.busy v ho
    · rw [hb.mtx] at ho
      rw [hcode] at hg
      exact h.below v m m' hg hne ho

theorem boot_sorted : Sorted (boot N L) := by
  refine ⟨fun t => ?_, fun t => ?_, fun t ho => ?_, fun t m m' _ _ ho => ?_⟩
  · rcases boot_code (L := L) t with e | e | e <;> rw [e] <;>
      simp [threadStartCode, reaper, uthreadMtxLock]
  · rcases boot_code (L := L) t with e | e | e <;> rw [e]
    · exact bracketed_of_takes (by simp [threadStartCode])
    · have hend : Bracketed ([reaperWait] : Code (N + 2)) := bracketed_of_takes (by simp)
      have hall := (hend.lock (by simp)).append (threadStartCode ++ [nopreemptOn])
        (by simp [threadStartCode])
      simpa [reaper, threadStartCode] using hall
    · exact bracketed_nil
  · cases ho
  · cases ho

/-! ## The waits for uthread mutexes -/

/-- The thread owns the mutex. -/
def Owner (s : State N L) (t : Fin N) (m : MtxId) : Prop := (s.mtx m).mOwner = some t

/-- The thread has found the mutex taken and has not been given it yet. -/
def Wants (s : State N L) (t : Fin N) (m : MtxId) : Prop :=
  lockOwned m ∈ (s.uthreads t).utCtx ∧ (s.mtx m).mOwner ≠ some t

theorem Sorted.ordered (h : Sorted s) : Ordered (Owner s) (Wants s) MtxId.rank := by
  intro t m m' hw ho
  refine h.below t m m' (List.mem_flatMap.2 ⟨_, hw.1, by simp⟩) ?_ ho
  rintro rfl
  exact hw.2 ho

/-- A mutex that a thread waits for has an owner. -/
theorem MtxInv.wanted (h : MtxInv m s) (hw : Wants s t m) : ∃ u, Owner s u m := by
  by_contra hno
  have hfree : (s.mtx m).mOwner = none := by
    by_contra hne
    obtain ⟨u, hu⟩ := Option.ne_none_iff_exists'.1 hne
    exact hno ⟨u, hu⟩
  obtain ⟨hq, hj⟩ := h.free hfree
  have haw : ¬ awaits m (s.uthreads t).utCtx = true := by
    intro haw
    rcases h.await t haw with hmem | ⟨ho, -⟩
    · rw [hq] at hmem
      cases hmem
    · exact hw.2 ho
  obtain ⟨cs, -, e | e | e | e⟩ := (h.codes t).cases hw.1
  · exact hj t ⟨false, some (.mPmut m), by rw [e]; simp [blockRest, uthreadSwitch]⟩
  · exact hj t ⟨false, some (.mPmut m), by rw [e]; simp⟩
  · exact haw (by rw [e]; simp [awaits])
  · exact haw (by rw [e]; simp [awaits])

/-- **Mutexes that are locked in order do not deadlock.** If the client unlocks only what it owns and
gets its mutexes in order, no thread waits for itself through the uthread mutexes, `reap_mtx` included;
and while threads wait, one of the owners that they wait for waits for none itself. -/
theorem ordered_acyclic {s : State (N + 2) (L + 1)} (h : Reachable orderly (boot N L) s) :
    Acyclic (WaitsFor (Owner s) (Wants s)) ∧ ∀ t m, Wants s t m →
      ∃ u m' v, Owner s u m' ∧ Wants s v m' ∧ ∀ m'', ¬ Wants s u m'' := by
  have hinv : Sorted s ∧ ∀ m, MtxInv m s := by
    refine h.invariant_of (P := fun s => Sorted s ∧ ∀ m, MtxInv m s)
      (fun _ hr => core_reachable boot_core hr) ⟨boot_sorted, fun _ => boot_mtx⟩ ?_
    rintro s s' ⟨l, a⟩ hc ⟨hs, hm⟩ hok hn
    have hmv := step_move hc.codes.wf hn
    exact ⟨sorted_step hc hm hs hok hmv, fun m => mtx_step hc (hm m)
      (fun t hon hu => (hok t hon).1 m hu) hmv⟩
  obtain ⟨hs, hm⟩ := hinv
  refine ⟨hs.ordered.acyclic, fun t m hw => ?_⟩
  exact hs.ordered.exists_free (fun t m hw => (hm m).wanted hw) hw

/-- The number of the client's mutex that the thread gets with the event. -/
def Event.got (t : Fin N) : Event N → Option ℕ
  | .taken (.user j) t' | .acquired (.user j) t' => if t' = t then some j else none
  | _ => none

/-- Only mutexes of the log can be locked. -/
theorem inSection_iff_log {log : List (Event N)} {P : ℕ → Prop} :
    (∀ j, InSection (.user j) log t → P j) ↔
      ∀ e ∈ log, ∀ j ∈ e.got t, InSection (.user j) log t → P j := by
  constructor
  · intro h e _ j _ hj
    exact h j hj
  · intro h j hj
    obtain ⟨a, e, b, rfl, hgot, -⟩ := id hj
    refine h e (by simp) j ?_ hj
    rcases hgot with rfl | rfl <;> simp [Event.got]

instance (s : State N L) (b : Fin L × Act) : Decidable (orderly s b) :=
  decidable_of_iff (∀ t, OnStack s b.1 t → (∀ m ∈ b.2.unlocks, (s.mtx m).mOwner = some t) ∧
    ∀ e ∈ s.log, ∀ j ∈ e.got t,
      Since (fun e => e = .taken (.user j) t ∨ e = .acquired (.user j) t) (· = .released (.user j) t)
        s.log → b.2.allows j)
    (forall_congr' fun _ => imp_congr_right fun _ => and_congr_right fun _ => inSection_iff_log.symm)

theorem ordered_acyclic_contend : ∃ s : State 3 2, Wants s 2 (.user 0) ∧ Owner s 0 (.user 0) ∧
    Acyclic (WaitsFor (Owner s) (Wants s)) := by
  obtain ⟨s, hs, hcode, ho⟩ : ∃ s : State 3 2, Reachable orderly (boot 1 1) s ∧
      lockOwned (.user 0) ∈ (s.uthreads 2).utCtx ∧ (s.mtx (.user 0)).mOwner = some 0 :=
    Runs.exists_reach (contend 0 1) (by decide +kernel)
  exact ⟨s, ⟨hcode, by rw [ho]; decide⟩, ho, (ordered_acyclic hs).1⟩

end Uthreads
