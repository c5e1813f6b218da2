import Uthreads.Lib.Events
import Uthreads.Proof.Turn

/-!
# Calls of `uthread_alloc` at the same time

`uthread_alloc` notes the slot that it has taken in `PrevID` and reads it from there again after it has
released `uthreads_mtx`. `AllocInv` relates the slots in `UT_TRANSITION`, the calls that have taken one
and the log; it is kept as long as no other call takes a slot between the two.

* `allocs_apart`: in such runs every call returns the slot that it has taken, and no slot is handed out
  twice or lost.
* `alloc_between`: two calls on two LWPs return the same slot, and the other one is lost.
-/

namespace Uthreads

variable {N L : ℕ} {l : Fin L} {t u v : Fin N} {s s' s₁ : State N L} {i : Instr N} {cs new : Code N}
  {a : Act} {log : List (Event N)} {e : Event N}

open Instr Events

/-! ## The slots in a code and in the log -/

/-- The slot that a call of `uthread_create` has taken and not started yet. -/
@[simp] def Instr.allocs : Instr N → List (Fin N)
  | allocReturn i _ | allocStack i _ | createInit _ i _ | startTest i _ => [i]
  | _ => []

/-- The slot that a call of `uthread_alloc` has taken and not returned yet. -/
@[simp] def Instr.returning : Instr N → List (Fin N)
  | allocReturn i _ => [i]
  | _ => []

/-- The slot has been handed out, and not been destroyed since. -/
def HandedOut (log : List (Event N)) (v : Fin N) : Prop :=
  Since (fun e => ∃ t i, e = .allocReturned t i (some v)) (· = .destroyed v) log

/-- The last slot that `t` has taken is `v`, and it has not been told so yet. -/
def HasTaken (log : List (Event N)) (t v : Fin N) : Prop :=
  Since (· = .alloc t v) (fun e => (∃ i, e = .alloc t i) ∨ ∃ i r, e = .allocReturned t i r) log

/-- A call of `uthread_alloc` returns the slot that it has taken, and nobody else has that slot. -/
def ReturnsOwn (log : List (Event N)) (e : Event N) : Prop :=
  ∀ t i r, e = .allocReturned t i r → r = some i ∧ HasTaken log t i ∧ ¬ HandedOut log i

/-- Who has which slot. -/
structure AllocInv (s : State N L) : Prop where
  claim : ∀ t, ∀ i ∈ (s.uthreads t).utCtx.flatMap allocs, (s.uthreads i).utState = .transition
  one : ∀ t u i, i ∈ (s.uthreads t).utCtx.flatMap allocs → i ∈ (s.uthreads u).utCtx.flatMap allocs →
    t = u
  prev : ∀ t, ∀ i ∈ (s.uthreads t).utCtx.flatMap returning,
    s.prevId = some i ∧ HasTaken s.log t i ∧ ¬ HandedOut s.log i
  fresh : ∀ v, (s.uthreads v).utState = .noState → ¬ HandedOut s.log v
  handed : ∀ v, (s.uthreads v).utState = .transition →
    (∃ t, v ∈ (s.uthreads t).utCtx.flatMap returning) ∨ HandedOut s.log v
  own : Each ReturnsOwn s.log

theorem mem_returning {c : Code N} (h : v ∈ c.flatMap returning) : v ∈ c.flatMap allocs := by
  obtain ⟨i, hi, hv⟩ := List.mem_flatMap.1 h
  refine List.mem_flatMap.2 ⟨i, hi, ?_⟩
  cases i with
  | allocReturn => exact hv
  | _ => cases hv

/-! ## The condition -/

/-- The next instruction of the code takes a slot of the table. -/
def takesSlot (s : State N L) : Code N → Bool
  | allocScan start _ :: _ => (allocWhile (fun i => (s.uthreads i).utState) start).isSome
  | _ => false

/-- No call of `uthread_alloc` takes a slot while another one has taken one and not read `PrevID` again. -/
def allocApart (s : State N L) (b : Fin L × Act) : Prop :=
  ∀ t, OnStack s b.1 t → takesSlot s (s.uthreads t).utCtx = true →
    ∀ u, (s.uthreads u).utCtx.flatMap returning = []

instance (s : State N L) (b : Fin L × Act) : Decidable (allocApart s b) :=
  inferInstanceAs (Decidable (∀ _, _))

/-! ## What an instruction does -/

/-- A slot in transition stays one until it is started. -/
theorem effect_transition (hc : Core s) (hon : OnStack s l t) (hcode : (s.uthreads t).utCtx = i :: cs)
    (he : Effect l t s i s₁ new) (hst : (s.uthreads v).utState = .transition)
    (hi : ∀ prio, i ≠ startTest v prio) : (s₁.uthreads v).utState = .transition := by
  have hu := (unstarted_thread hc hon hcode he (.inr hst)).resolve_right fun ⟨prio, h⟩ => hi prio h
  refine hu.resolve_left fun h => ?_
  cases effect_state he v with
  | same h' => rw [h', hst] at h; cases h
  | destroyed hd =>
    have := (hc.slots.destroy t .state v (by rw [hcode, hd]; simp)).st
    rw [hst] at this
    cases this
  | saved _ _ _ h' | woken _ _ h' | started _ _ _ h' | blocked _ _ h' | allocated _ _ _ _ h'
  | exited _ _ h' => rw [h'] at h; cases h

@[simp] theorem allocs_createRest (prio : ℤ) (w : CreateStep) :
    (createRest v prio w).flatMap allocs = [v] := by
  cases w <;> simp [createRest, uthreadStartonrunq]

@[simp] theorem returning_createRest (prio : ℤ) (w : CreateStep) :
    (createRest v prio w).flatMap returning = [] := by
  cases w <;> simp [createRest, uthreadStartonrunq]

/-- Where the slots in the new code come from. -/
theorem effect_allocs (he : Effect l t s i s₁ new) (hv : v ∈ new.flatMap allocs) :
    (∃ start prio, i = allocScan start prio ∧
      allocWhile (fun i => (s.uthreads i).utState) start = some v ∧ v ∈ new.flatMap returning) ∨
    ((v ∈ i.allocs ∧ ∀ prio, i ≠ startTest v prio) ∨
      ∃ j prio, i = allocReturn j prio ∧ s.prevId = some v) ∧ new.flatMap returning = [] := by
  cases he with
  | plain hp =>
    right
    cases hp with
    | allocReturn j tid prio h =>
      obtain rfl : v = tid := by simpa using hv
      exact ⟨.inr ⟨j, prio, rfl, h⟩, by simp⟩
    | allocStack tid prio => exact ⟨.inl ⟨by simpa using hv, by simp⟩, by simp⟩
    | _ =>
      simp [uthreadMtxUnlock, uthreadMtxLock, uthreadCondWait, uthreadSwitch] at hv
  | take _ _ _ h => rcases h with ⟨-, rfl⟩ | ⟨-, rfl⟩ <;> simp at hv
  | signal _ _ _ _ h => rcases h with ⟨-, rfl⟩ | ⟨-, rfl⟩ <;> simp [uthreadWake] at hv
  | setprio _ _ _ h => rcases h with rfl | rfl <;> simp [uthreadYield, uthreadSwitch] at hv
  | detach _ _ _ _ _ _ h => rcases h with ⟨-, rfl⟩ | ⟨-, rfl⟩ <;> simp [uthreadMtxLock] at hv
  | makeReapable _ _ _ _ h =>
    subst h
    split at hv <;> simp [uthreadCondSignal, uthreadMtxUnlock, uthreadSwitch] at hv
  | alloc start prio j hj =>
    obtain rfl : v = j := by simpa using hv
    exact .inl ⟨start, prio, rfl, hj, by simp⟩
  | create => exact .inr ⟨.inl ⟨by simpa using hv, by simp⟩, by simp⟩
  | destroy d => cases d <;> simp [destroyRest] at hv
  | _ => simp [uthreadSwitch, uthreadMtxUnlock, uthreadMtxLock, uthreadWake, deadCode] at hv

/-- The slot that the scan finds. -/
theorem effect_scan {start : ℕ} {prio : ℤ} (he : Effect l t s (allocScan start prio) s₁ new)
    (hv : allocWhile (fun i => (s.uthreads i).utState) start = some v) :
    (s₁.uthreads v).utState = .transition ∧ v ∈ new.flatMap returning := by
  cases he with
  | plain hp =>
    cases hp with
    | allocNone _ _ h =>
      rw [h] at hv
      cases hv
  | take _ _ _ h | signal _ _ _ _ h => rcases h with ⟨h, -⟩ | ⟨h, -⟩ <;> cases h
  | alloc _ _ j hj hs =>
    rw [hj] at hv
    obtain rfl : j = v := Option.some.inj hv
    simp [hs.uthreads]

theorem effect_scanned {start : ℕ} {prio : ℤ} (he : Effect l t s (allocScan start prio) s₁ new)
    (h : (s.uthreads v).utState = .noState) (h' : (s₁.uthreads v).utState = .transition) :
    allocWhile (fun i => (s.uthreads i).utState) start = some v := by
  cases he with
  | plain hp hs =>
    rw [hs.uthreads, h] at h'
    cases h'
  | take _ _ _ h | signal _ _ _ _ h => rcases h with ⟨h, -⟩ | ⟨h, -⟩ <;> cases h
  | alloc _ _ j hj hs =>
    by_cases hv : v = j
    · rwa [hv]
    · rw [hs.uthreads] at h'
      simp [hv, h] at h'

/-- The instructions of `uthread_alloc` and `uthread_destroy` that the log shows. -/
def Instr.logsSlot : Instr N → Bool
  | allocScan _ _ | allocReturn _ _ | destroy .state _ => true
  | _ => false

/-- The events about the slots. -/
def Event.isSlot : Event N → Bool
  | .alloc _ _ | .allocReturned _ _ _ | .destroyed _ => true
  | _ => false

theorem logOf_slot (hi : i.logsSlot = false) : ∀ e ∈ logOf s t i, e.isSlot = false := by
  intro e he
  cases i with
  | allocScan | allocReturn => cases hi
  | destroy d => cases d <;> simp_all [logOf, Instr.logsSlot]
  | swtch q sv m =>
    unfold logOf at he
    split at he <;> simp_all [Event.isSlot]
  | lockTest m | trylockTest m =>
    simp only [logOf] at he
    split at he <;> simp_all [Event.isSlot]
  | unlockTest m =>
    simp only [logOf, List.mem_cons, Option.mem_toList, Option.map_eq_some_iff] at he
    rcases he with rfl | ⟨u, -, rfl⟩ <;> rfl
  | signalTest c | broadcastTest c =>
    simp only [logOf, Option.mem_toList, Option.map_eq_some_iff] at he
    obtain ⟨u, -, rfl⟩ := he
    rfl
  | makeReapable u =>
    simp only [logOf] at he
    split at he <;> simp_all [Event.isSlot]
  | _ => simp_all [logOf, Event.isSlot]

/-- The code behind an instruction of `uthread_alloc` or the start of a thread has no slot. -/
theorem rest_allocs (hwf : Wf t (i :: cs)) (hi : i.logsSlot = true ∨ ∃ prio, i = startTest v prio) :
    cs.flatMap allocs = [] := by
  rcases hi with hi | ⟨prio, rfl⟩
  · cases i with
    | allocScan | allocReturn =>
      have hcs : cs = [] := hwf.1
      simp [hcs]
    | destroy d =>
      have hcs : cs = [reaperDrain] := hwf.1
      simp [hcs]
    | _ => cases hi
  · obtain ⟨r, rfl⟩ := hwf.1
    simp

/-- Who has a slot after an instruction had it before, or has just taken it. -/
theorem alloc_origin (hc : Core s) (h : AllocInv s) (hcode : (s.uthreads t).utCtx = i :: cs)
    (he : Effect l t s i s₁ new)
    (hv : v ∈ ((s₁.setCtx t (new ++ cs)).uthreads u).utCtx.flatMap allocs) :
    (v ∈ (s.uthreads u).utCtx.flatMap allocs ∧ ∀ prio, i ≠ startTest v prio) ∨
      u = t ∧ ∃ start prio, i = allocScan start prio ∧
        allocWhile (fun i => (s.uthreads i).utState) start = some v := by
  have hwf := hc.codes.wf t
  rw [hcode] at hwf
  rcases mem_code_thread allocs (by simp [threadStartCode]) hcode he hv with ⟨hold, hcs⟩ | ⟨rfl, hnew⟩
  · refine .inl ⟨hold, ?_⟩
    rintro prio rfl
    have hut := h.one u t v hold (by rw [hcode]; simp)
    have := hcs hut
    rw [rest_allocs hwf (.inr ⟨prio, rfl⟩)] at this
    cases this
  · rcases effect_allocs he hnew with ⟨start, prio, hi, hj, -⟩ | ⟨⟨hi, hne⟩ | ⟨j, prio, hi, hp⟩, -⟩
    · exact .inr ⟨rfl, start, prio, hi, hj⟩
    · exact .inl ⟨by rw [hcode, List.flatMap_cons]; exact List.mem_append_left _ hi, hne⟩
    · subst hi
      have hprev := (h.prev u j (by rw [hcode]; simp)).1
      rw [hp] at hprev
      obtain rfl : v = j := Option.some.inj hprev
      exact .inl ⟨by rw [hcode]; simp, by simp⟩

theorem returning_origin (hc : Core s) (h : AllocInv s) (hcode : (s.uthreads t).utCtx = i :: cs)
    (he : Effect l t s i s₁ new)
    (hv : v ∈ ((s₁.setCtx t (new ++ cs)).uthreads u).utCtx.flatMap returning) :
    (v ∈ (s.uthreads u).utCtx.flatMap returning ∧ (u = t → i.logsSlot = false) ∧
        ∀ prio, i ≠ allocReturn v prio) ∨
      u = t ∧ ∃ start prio, i = allocScan start prio ∧
        allocWhile (fun i => (s.uthreads i).utState) start = some v := by
  have hwf := hc.codes.wf t
  rw [hcode] at hwf
  rcases mem_code_thread returning (by simp [threadStartCode]) hcode he hv with
    ⟨hold, hcs⟩ | ⟨rfl, hnew⟩
  · have hquiet : u = t → i.logsSlot = false := by
      intro hut
      by_contra hi
      have hmem := mem_returning (hcs hut)
      rw [rest_allocs (v := v) hwf (.inl (by simpa using hi))] at hmem
      cases hmem
    refine .inl ⟨hold, hquiet, ?_⟩
    rintro prio rfl
    have hut := h.one u t v (mem_returning hold) (by rw [hcode]; simp)
    cases hquiet hut
  · rcases effect_allocs he (mem_returning hnew) with ⟨start, prio, hi, hj, -⟩ | ⟨-, hr⟩
    · exact .inr ⟨rfl, start, prio, hi, hj⟩
    · rw [hr] at hnew
      cases hnew

/-! ## What it logs -/

/-- A thread logs its own calls. -/
theorem logOf_alloc (he : e ∈ logOf s t i) : (∀ u j, e = .alloc u j → u = t) ∧
    ∀ u j r, e = .allocReturned u j r → u = t ∧ r = s.prevId ∧ ∃ prio, i = allocReturn j prio := by
  cases hi : i.logsSlot with
  | false =>
    constructor
    · rintro u j rfl
      cases logOf_slot hi _ he
    · rintro u j r rfl
      cases logOf_slot hi _ he
  | true =>
    cases i with
    | allocScan start prio =>
      simp only [logOf, Option.mem_toList, Option.map_eq_some_iff] at he
      obtain ⟨j, -, rfl⟩ := he
      simp_all
    | allocReturn j prio =>
      obtain rfl := List.mem_singleton.1 he
      simp_all
    | destroy d w =>
      cases d <;> simp [Instr.logsSlot] at hi
      obtain rfl := List.mem_singleton.1 he
      simp
    | _ => cases hi

theorem handedOut_step (hh : Hist t s i s₁) : HandedOut s₁.log v ↔
    (∃ j prio, i = allocReturn j prio ∧ s.prevId = some v) ∨ HandedOut s.log v ∧ i ≠ destroy .state v := by
  rw [hh.log]
  unfold HandedOut
  cases hi : i.logsSlot with
  | false =>
    rw [since_append]
    · constructor
      · intro h
        refine .inr ⟨h, ?_⟩
        rintro rfl
        cases hi
      · rintro (⟨j, prio, rfl, -⟩ | ⟨h, -⟩)
        · cases hi
        · exact h
    · rintro e he ⟨u, j, rfl⟩
      cases logOf_slot hi _ he
    · rintro e he rfl
      cases logOf_slot hi _ he
  | true =>
    cases i with
    | allocScan start prio =>
      rw [since_append]
      · simp
      · rintro e he ⟨u, j, rfl⟩
        simp [logOf] at he
      · rintro e he rfl
        simp [logOf] at he
    | allocReturn j prio => simp [logOf, since_concat]
    | destroy d w =>
      cases d <;> simp [Instr.logsSlot] at hi
      simp [logOf, since_concat, eq_comm]
    | _ => cases hi

theorem HasTaken.step (h : HasTaken s.log u v) (hh : Hist t s i s₁)
    (hq : u = t → i.logsSlot = false) : HasTaken s₁.log u v := by
  rw [hh.log]
  unfold HasTaken
  by_cases hu : u = t
  · rw [since_append]
    · exact h
    · rintro e he rfl
      cases logOf_slot (hq hu) _ he
    · rintro e he (⟨j, rfl⟩ | ⟨j, r, rfl⟩) <;> cases logOf_slot (hq hu) _ he
  · rw [since_append]
    · exact h
    · rintro e he rfl
      exact hu ((logOf_alloc he).1 u v rfl)
    · rintro e he (⟨j, rfl⟩ | ⟨j, r, rfl⟩)
      · exact hu ((logOf_alloc he).1 u j rfl)
      · exact hu ((logOf_alloc he).2 u j r rfl).1

/-! ## A step -/

/-- A slot that is taken now is free, and nobody is about to return. -/
theorem scan_free {start : ℕ} {prio : ℤ}
    (hok : takesSlot s (allocScan start prio :: cs) = true →
      ∀ u, (s.uthreads u).utCtx.flatMap returning = [])
    (hv : allocWhile (fun i => (s.uthreads i).utState) start = some v) :
    (s.uthreads v).utState = .noState ∧ ∀ u, (s.uthreads u).utCtx.flatMap returning = [] :=
  ⟨allocWhile_noState hv, hok (by simp [takesSlot, hv])⟩

/-- Who is about to return has taken the slot that `PrevID` names. -/
theorem return_prev {j : Fin N} {prio : ℤ} (h : AllocInv s)
    (hcode : (s.uthreads t).utCtx = allocReturn j prio :: cs) :
    s.prevId = some j ∧ HasTaken s.log t j ∧ ¬ HandedOut s.log j :=
  h.prev t j (by rw [hcode]; simp)

/-- `PrevID` names the slot of whoever is about to return. -/
theorem prev_thread (hc : Core s) (h : AllocInv s)
    (hcode : (s.uthreads t).utCtx = i :: cs) (he : Effect l t s i s₁ new) (hh : Hist t s i s₁)
    (hok : takesSlot s (i :: cs) = true → ∀ u, (s.uthreads u).utCtx.flatMap returning = [])
    (hv : v ∈ ((s₁.setCtx t (new ++ cs)).uthreads u).utCtx.flatMap returning) :
    s₁.prevId = some v ∧ HasTaken s₁.log u v ∧ ¬ HandedOut s₁.log v := by
  rw [handedOut_step hh]
  rcases returning_origin hc h hcode he hv with ⟨hold, hq, hne⟩ | ⟨rfl, start, prio, rfl, hj⟩
  · obtain ⟨hp, ht, hf⟩ := h.prev u v hold
    refine ⟨?_, ht.step hh hq, ?_⟩
    · rw [hh.prevId]
      cases i with
      | allocScan start prio =>
        cases hj : allocWhile (fun i => (s.uthreads i).utState) start with
        | none => simp [prevIdOf, hj, hp]
        | some j =>
          rw [(scan_free hok hj).2 u] at hold
          cases hold
      | _ => exact hp
    · rintro (⟨j, prio, rfl, hpv⟩ | ⟨hf', -⟩)
      · rw [(return_prev h hcode).1] at hpv
        exact hne prio (by rw [Option.some.inj hpv])
      · exact hf hf'
  · obtain ⟨hfree, -⟩ := scan_free hok hj
    refine ⟨by simp [hh.prevId, prevIdOf, hj], ?_, ?_⟩
    · rw [hh.log]
      simp [logOf, hj, HasTaken, since_concat]
    · simp [h.fresh v hfree]

/-- A free slot is nobody's. -/
theorem fresh_thread (hc : Core s) (h : AllocInv s) (hon : OnStack s l t)
    (hcode : (s.uthreads t).utCtx = i :: cs) (he : Effect l t s i s₁ new) (hh : Hist t s i s₁)
    (hst : (s₁.uthreads v).utState = .noState) : ¬ HandedOut s₁.log v := by
  rw [handedOut_step hh]
  rintro (⟨j, prio, rfl, hpv⟩ | ⟨hf, hd⟩)
  · -- the slot is in transition
    have hj := (return_prev h hcode).1
    rw [hpv] at hj
    obtain rfl : v = j := Option.some.inj hj
    have := effect_transition hc hon hcode he (h.claim t v (by rw [hcode]; simp)) (by simp)
    rw [hst] at this
    cases this
  · cases effect_state he v with
    | same h' =>
      rw [h'] at hst
      exact h.fresh v hst hf
    | destroyed hi => exact hd hi
    | saved _ _ _ h' | woken _ _ h' | started _ _ _ h' | blocked _ _ h' | allocated _ _ _ _ h'
    | exited _ _ h' => rw [h'] at hst; cases hst

/-- A slot in transition is handed out, or about to be. -/
theorem handed_thread (hc : Core s) (h : AllocInv s) (hon : OnStack s l t)
    (hcode : (s.uthreads t).utCtx = i :: cs) (he : Effect l t s i s₁ new) (hh : Hist t s i s₁)
    (hst : (s₁.uthreads v).utState = .transition) :
    (∃ u, v ∈ ((s₁.setCtx t (new ++ cs)).uthreads u).utCtx.flatMap returning) ∨ HandedOut s₁.log v := by
  have hnew : ∀ v ∈ new.flatMap returning,
      v ∈ ((s₁.setCtx t (new ++ cs)).uthreads t).utCtx.flatMap returning := by
    intro v hv
    rw [State.setCtx_uthreads, if_pos rfl, List.flatMap_append]
    exact List.mem_append_left _ hv
  rw [handedOut_step hh]
  cases effect_state he v with
  | same h' =>
    rw [h'] at hst
    rcases h.handed v hst with ⟨u, hu⟩ | hf
    · by_cases hut : u = t
      · subst hut
        rw [hcode, List.flatMap_cons, List.mem_append] at hu
        rcases hu with hu | hu
        · cases i with
          | allocReturn j prio =>
            obtain rfl : v = j := by simpa using hu
            exact .inr (.inl ⟨v, prio, rfl, (return_prev h hcode).1⟩)
          | _ => cases hu
        · refine .inl ⟨u, ?_⟩
          rw [State.setCtx_uthreads, if_pos rfl, List.flatMap_append]
          exact List.mem_append_right _ hu
      · rcases other_code cs he hut with e | ⟨-, hv, -⟩
        · exact .inl ⟨u, by rw [e]; exact hu⟩
        · -- the slot that `uthread_create` sets up runs nothing yet
          rcases (hc.free hv.1).2.2.2 with (e | e | e) | e <;> rw [e] at hu <;>
            simp [deadCode, uthreadSwitch, threadStartCode] at hu
    · refine .inr (.inr ⟨hf, ?_⟩)
      rintro rfl
      have := (hc.slots.destroy t .state v (by rw [hcode]; simp)).st
      rw [hst] at this
      cases this
  | allocated start prio hi hfree =>
    subst hi
    exact .inl ⟨t, hnew v (effect_scan he (effect_scanned he hfree hst)).2⟩
  | saved _ _ _ h' | woken _ _ h' | started _ _ _ h' | blocked _ _ h' | exited _ _ h'
  | destroyed _ h' => rw [h'] at hst; cases hst

/-- **An instruction that does not take a slot in between keeps the slots apart.** -/
theorem alloc_thread (hc : Core s) (h : AllocInv s) (hon : OnStack s l t)
    (hcode : (s.uthreads t).utCtx = i :: cs) (he : Effect l t s i s₁ new) (hh : Hist t s i s₁)
    (hok : takesSlot s (i :: cs) = true → ∀ u, (s.uthreads u).utCtx.flatMap returning = []) :
    AllocInv (s₁.setCtx t (new ++ cs)) := by
  have hstate : ∀ v, ((s₁.setCtx t (new ++ cs)).uthreads v).utState = (s₁.uthreads v).utState := by
    simp
  refine ⟨fun u v hv => ?_, fun u w v hu hw => ?_, fun u v hv => ?_, fun v hst => ?_,
    fun v hst => ?_, ?_⟩
  · rw [hstate]
    rcases alloc_origin hc h hcode he hv with ⟨hold, hne⟩ | ⟨-, start, prio, rfl, hj⟩
    · exact effect_transition hc hon hcode he (h.claim u v hold) hne
    · exact (effect_scan he hj).1
  · have hfree : ∀ {start prio x}, i = allocScan start prio →
        allocWhile (fun i => (s.uthreads i).utState) start = some v →
        v ∉ (s.uthreads x).utCtx.flatMap allocs := by
      intro start prio x hi hj hx
      have := h.claim x v hx
      subst hi
      rw [(scan_free hok hj).1] at this
      cases this
    rcases alloc_origin hc h hcode he hu with ⟨hu, -⟩ | ⟨rfl, start, prio, hi, hj⟩
    · rcases alloc_origin hc h hcode he hw with ⟨hw, -⟩ | ⟨-, start, prio, hi, hj⟩
      · exact h.one u w v hu hw
      · exact absurd hu (hfree hi hj)
    · rcases alloc_origin hc h hcode he hw with ⟨hw, -⟩ | ⟨hw, -⟩
      · exact absurd hw (hfree hi hj)
      · exact hw.symm
  · show s₁.prevId = some v ∧ HasTaken s₁.log u v ∧ ¬ HandedOut s₁.log v
    exact prev_thread hc h hcode he hh hok hv
  · rw [hstate] at hst
    show ¬ HandedOut s₁.log v
    exact fresh_thread hc h hon hcode he hh hst
  · rw [hstate] at hst
    exact handed_thread hc h hon hcode he hh hst
  · show Each ReturnsOwn s₁.log
    rw [hh.log]
    by_cases hi : ∃ j prio, i = allocReturn j prio
    · obtain ⟨j, prio, rfl⟩ := hi
      obtain ⟨hp, ht, hf⟩ := return_prev h hcode
      simp only [logOf, each_concat]
      refine ⟨h.own, ?_⟩
      rintro u k r hr
      cases hr
      exact ⟨hp, ht, hf⟩
    · refine h.own.append fun a e he' u j r hr => ?_
      obtain ⟨-, -, prio, rfl⟩ := (logOf_alloc he').2 u j r hr
      exact absurd ⟨j, prio, rfl⟩ hi

/-- A step that leaves the slots of the codes and the log alone. -/
theorem AllocInv.congr (h : AllocInv s)
    (hcode : ∀ t, (s'.uthreads t).utCtx.flatMap allocs = (s.uthreads t).utCtx.flatMap allocs ∧
      (s'.uthreads t).utCtx.flatMap returning = (s.uthreads t).utCtx.flatMap returning)
    (hst : ∀ v, ((s'.uthreads v).utState = .transition ↔ (s.uthreads v).utState = .transition) ∧
      ((s'.uthreads v).utState = .noState ↔ (s.uthreads v).utState = .noState))
    (hprev : s'.prevId = s.prevId) (hlog : s'.log = s.log) : AllocInv s' := by
  refine ⟨fun t i hi => ?_, fun t u i ht hu => ?_, fun t i hi => ?_, fun v hv => ?_, fun v hv => ?_, ?_⟩
  · rw [(hcode t).1] at hi
    exact (hst i).1.2 (h.claim t i hi)
  · rw [(hcode t).1] at ht
    rw [(hcode u).1] at hu
    exact h.one t u i ht hu
  · rw [(hcode t).2] at hi
    rw [hprev, hlog]
    exact h.prev t i hi
  · rw [hlog]
    exact h.fresh v ((hst v).2.1 hv)
  · rw [hlog]
    simp only [fun t => (hcode t).2]
    exact h.handed v ((hst v).1.1 hv)
  · rw [hlog]
    exact h.own

theorem call_allocs (inc : Fin N → ℕ) (t : Fin N) (c : Call) :
    (c.code inc t).flatMap allocs = [] ∧ (c.code inc t).flatMap returning = [] := by
  constructor <;> refine List.flatMap_eq_nil_iff.2 fun j hj => ?_ <;>
    have := call_called inc t c j hj <;> cases j <;> first | rfl | cases this

/-- **Every step that does not take a slot in between keeps the slots apart.** -/
theorem alloc_step (hc : Core s) (h : AllocInv s) (ht : Turn s l a s') (hok : allocApart s (l, a)) :
    AllocInv s' := by
  cases ht with
  | @thread _ t i cs new s₁ hon hcode he hh =>
    exact alloc_thread hc h hon hcode he hh fun htake => hok t hon (by rwa [hcode])
  | call t c hon hcode =>
    refine h.congr (fun u => ?_) (fun v => by simp) rfl rfl
    by_cases hu : u = t
    · subst hu
      simp only [State.setCtx_uthreads, if_true, hcode]
      exact call_allocs s.incarnation u c
    · simp [hu]
  | preempt t hon hm hst h0 =>
    refine h.congr (fun u => ?_) (fun v => by simp) rfl rfl
    by_cases hu : u = t
    · subst hu
      simp [clockInterrupt, uthreadYield, uthreadSwitch]
    · simp [hu]
  | lwp hb =>
    refine h.congr (fun u => by rw [(hb.fields u).1]; exact ⟨rfl, rfl⟩) (fun v => ?_) hb.hist.prevId
      hb.hist.log
    rcases hb.state v with ⟨e, -⟩ | ⟨e, e', -⟩
    · rw [e]
      exact ⟨Iff.rfl, Iff.rfl⟩
    · rw [e, e']
      decide

theorem boot_alloc : AllocInv (boot N L) := by
  have hno : ∀ t, ((boot N L).uthreads t).utCtx.flatMap allocs = [] := by
    intro t
    rcases boot_code (L := L) t with e | e | e <;> rw [e] <;>
      simp [threadStartCode, reaper, uthreadMtxLock]
  have hret : ∀ t v, v ∉ ((boot N L).uthreads t).utCtx.flatMap returning := by
    intro t v hv
    have := mem_returning hv
    rw [hno] at this
    cases this
  refine ⟨fun t i hi => ?_, fun t u i hi => ?_, fun t i hi => absurd hi (hret t i), fun v _ => since_nil,
    fun v hv => ?_, each_nil⟩
  · rw [hno] at hi
    cases hi
  · rw [hno] at hi
    cases hi
  · rcases boot_cases (L := L) v with ⟨-, hst, -⟩ | ⟨hz, -⟩
    · rw [hst] at hv
      cases hv
    · rw [hz] at hv
      cases hv

/-! ## Unique ids -/

/-- The calls of `uthread_alloc` so far. -/
structure AllocsApart (s : State N L) : Prop where
  /-- A call returns the slot that this call has moved to `UT_TRANSITION`. -/
  own : ∀ a b t i r, s.log = a ++ .allocReturned t i r :: b → r = some i ∧
    ∃ c d, a = c ++ .alloc t i :: d ∧ (∀ j, .alloc t j ∉ d) ∧ ∀ j r, .allocReturned t j r ∉ d
  /-- Two calls return the same slot only if it has been destroyed in between. -/
  distinct : ∀ a b c t u i j v,
    s.log = a ++ .allocReturned t i (some v) :: b ++ .allocReturned u j (some v) :: c →
      .destroyed v ∈ b
  /-- A slot in `UT_TRANSITION` belongs to a call that is about to return it or has done so. -/
  told : ∀ v, (s.uthreads v).utState = .transition →
    (∃ t prio, allocReturn v prio ∈ (s.uthreads t).utCtx) ∨
      ∃ a b t i, s.log = a ++ .allocReturned t i (some v) :: b ∧ .destroyed v ∉ b

/-- **Thread ids are handed out uniquely**, in every run in which no call of `uthread_alloc` takes a slot
while another one has taken one and not read `PrevID` again. -/
theorem allocs_apart {s : State (N + 2) (L + 1)} (h : Reachable allocApart (boot N L) s) :
    AllocsApart s := by
  have hinv : AllocInv s := by
    refine h.invariant_of (P := AllocInv) (fun _ hr => core_reachable boot_core hr) boot_alloc ?_
    rintro s s' ⟨l, a⟩ hc hi hok hn
    exact alloc_step hc hi (move_turn hc (step_move hc.codes.wf hn)) hok
  refine ⟨fun a b t i r hlog => ?_, fun a b c t u i j v hlog => ?_, fun v hst => ?_⟩
  · obtain ⟨hr, ⟨c, x, d, rfl, rfl, hd⟩, -⟩ := hinv.own a _ b hlog t i r rfl
    exact ⟨hr, c, d, rfl, fun j hj => hd _ hj (.inl ⟨j, rfl⟩), fun j r hj => hd _ hj (.inr ⟨j, r, rfl⟩)⟩
  · obtain ⟨hr, -, hfree⟩ := hinv.own _ _ c hlog u j (some v) rfl
    obtain rfl : v = j := Option.some.inj hr
    by_contra hb
    refine hfree ⟨a, _, b, rfl, ⟨t, i, rfl⟩, ?_⟩
    rintro y hy rfl
    exact hb hy
  · rcases hinv.handed v hst with ⟨t, hv⟩ | ⟨a, x, b, hlog, ⟨t, i, rfl⟩, hb⟩
    · obtain ⟨j, hj, hv⟩ := List.mem_flatMap.1 hv
      cases j with
      | allocReturn k prio =>
        obtain rfl : v = k := by simpa using hv
        exact .inl ⟨t, prio, hj⟩
      | _ => cases hv
    · exact .inr ⟨a, b, t, i, hlog, fun hd => hb _ hd rfl⟩

/-- Two calls overlap on two LWPs: the second one waits for `uthreads_mtx` while the first scans. -/
theorem allocs_apart_two : ∃ s : State 5 2, AllocsApart s ∧
    .allocReturned 0 3 (some 3) ∈ s.log ∧ .allocReturned 2 4 (some 4) ∈ s.log := by
  obtain ⟨s, hs, hP⟩ : ∃ s : State 5 2, Reachable allocApart (boot 3 1) s ∧
      .allocReturned 0 3 (some 3) ∈ s.log ∧ .allocReturned 2 4 (some 4) ∈ s.log :=
    Runs.exists_reach (turns 0 4 ++ [(0, .call (.create 7))] ++ turns 0 23 ++ turns 1 27 ++
      [(0, .call (.create 7))] ++ turns 0 3 ++ [(1, .call (.create 7))] ++ turns 1 2 ++ turns 0 5 ++
      turns 1 6) (by decide +kernel)
  exact ⟨s, allocs_apart hs, hP⟩

/-- The first thread creates one on the other LWP. Each of them has taken a slot and released
`uthreads_mtx` when they read `PrevID` again. -/
def allocBetween : List (Fin 2 × Act) :=
  turns 0 4 ++ [(0, .call (.create 7))] ++ turns 0 23 ++ turns 1 27 ++
    [(0, .call (.create 7))] ++ turns 0 6 ++ [(1, .call (.create 7))] ++ turns 1 6 ++ turns 0 1 ++
    turns 1 1

/-- **Two calls on two LWPs return the same slot**, and the other one is lost. -/
theorem alloc_between : ¬ ∀ (N L : ℕ) (s : State (N + 2) (L + 1)),
    Reachable Runs.always (boot N L) s → AllocsApart s := by
  obtain ⟨s, hs, hlog⟩ : ∃ s : State 5 2, Reachable Runs.always (boot 3 1) s ∧
      .allocReturned 0 3 (some 4) ∈ s.log :=
    Runs.exists_reach allocBetween (by decide +kernel)
  intro h
  obtain ⟨a, b, hab⟩ := List.append_of_mem hlog
  have := ((h 3 1 s hs).own a b 0 3 (some 4) hab).1
  revert this
  decide

end Uthreads
