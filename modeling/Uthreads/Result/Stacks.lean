import Uthreads.Lib.Blocks
import Uthreads.Model.Stacks
import Uthreads.Result.Alloc
import Uthreads.Result.Reaper

/-!
# Every thread runs on its own stack

The heap as `alloc_stack` and `free_stack` use it, beside runs in which `uthread_alloc` hands no slot out
twice (`allocApart`).

* `apart_follows`: in such runs no `uthread_create` writes to a slot that is in use.
* `stacks_safe`: the allocated blocks are the stacks of the slots that are set up or about to be, one for
  each; a thread runs on its own, and no step frees a block twice or uses one that is not allocated. When
  the reaper calls `exit(0)` its own stack is the only one left.

To free the stack of a thread that is still on its LWP is an end of the process (`Undefined.liveStack`),
and not excluded here.
-/

namespace Uthreads

open Blocks

variable {N L : ℕ} {l : Fin L} {t u v : Fin N} {s s' s₁ : State N L} {i : Instr N}
  {c cs new : Code N} {a : Act} {h h' : Stacks N}

open Instr

/-! ## Slots that are not set up -/

/-- The slot that `uthread_create` has got and not begun to set up. -/
@[simp] def Instr.unset : Instr N → List (Fin N)
  | allocReturn i _ | allocStack i _ | createInit .ctx i _ => [i]
  | _ => []

/-- The slot that `uthread_create` has a stack for and is setting up. -/
@[simp] def Instr.inits : Instr N → List (Fin N)
  | createInit _ i _ => [i]
  | _ => []

/-- The slot whose stack `uthread_destroy` has freed. -/
@[simp] def Instr.razes : Instr N → List (Fin N)
  | destroy .test _ | destroy .stack _ => []
  | destroy _ u => [u]
  | _ => []

/-- Slots are set up by `uthread_create` alone. -/
structure Unset (s : State N L) : Prop where
  code : ∀ t, ∀ v ∈ (s.uthreads t).utCtx.flatMap unset, (s.pmtx (.utPmut v)).status ≠ .live
  free : ∀ v, (s.uthreads v).utState = .noState → (s.pmtx (.utPmut v)).status ≠ .live

theorem mem_unset (hv : v ∈ c.flatMap unset) : v ∈ c.flatMap allocs := by
  obtain ⟨i, hi, hv⟩ := List.mem_flatMap.1 hv
  refine List.mem_flatMap.2 ⟨i, hi, ?_⟩
  cases i with
  | allocReturn | allocStack => exact hv
  | createInit w =>
    cases w with
    | ctx => exact hv
    | _ => cases hv
  | _ => cases hv

theorem mem_inits (hv : v ∈ c.flatMap inits) : v ∈ c.flatMap allocs := by
  obtain ⟨i, hi, hv⟩ := List.mem_flatMap.1 hv
  refine List.mem_flatMap.2 ⟨i, hi, ?_⟩
  cases i with
  | createInit => exact hv
  | _ => cases hv

theorem starts_allocs (hv : v ∈ starts c) : v ∈ c.flatMap allocs := by
  obtain ⟨i, hi, hv⟩ := List.mem_flatMap.1 hv
  refine List.mem_flatMap.2 ⟨i, hi, ?_⟩
  cases i with
  | createInit w =>
    cases w with
    | ctx => cases hv
    | _ => exact hv
  | startTest => exact hv
  | _ => cases hv

/-- Where the slots in the new code come from. -/
theorem effect_unset (he : Effect l t s i s₁ new) (hv : v ∈ new.flatMap unset) :
    (∃ start prio, i = allocScan start prio ∧
      allocWhile (fun i => (s.uthreads i).utState) start = some v) ∨
    (v ∈ i.unset ∧ ∀ prio, i ≠ createInit .pmut v prio) ∨
      ∃ j prio, i = allocReturn j prio ∧ s.prevId = some v := by
  rcases effect_allocs he (mem_unset hv) with ⟨start, prio, hi, hj, -⟩ | ⟨⟨hi, hne⟩ | ⟨j, prio, hi, hp⟩, -⟩
  · exact .inl ⟨start, prio, hi, hj⟩
  · right; left
    cases i with
    | startTest w prio =>
      obtain rfl : v = w := by simpa using hi
      exact absurd rfl (hne prio)
    | allocReturn | allocStack => exact ⟨hi, by simp⟩
    | createInit w =>
      rw [(effect_create he).2.1] at hv
      cases w <;> simp [createRest, uthreadStartonrunq] at hv
    | _ => cases hi
  · exact .inr (.inr ⟨j, prio, hi, hp⟩)

/-- Who sets a slot up is the only one to have it, and has nothing else left. -/
theorem createInit_alone {w : CreateStep} {prio : ℤ} (hc : Core s) (ha : AllocInv s)
    (hcode : (s.uthreads t).utCtx = createInit w v prio :: cs)
    (hv : v ∈ (s.uthreads u).utCtx.flatMap allocs) : u = t ∧ cs = [] := by
  have hwf := hc.codes.wf t
  rw [hcode] at hwf
  exact ⟨ha.one u t v hv (by rw [hcode]; simp), hwf.1⟩

/-- **A slot is free when it is set up**, if no slot is handed out twice. -/
theorem createInit_vacant {prio : ℤ} (hc : Core s) (ha : AllocInv s) (hu : Unset s)
    (hcode : (s.uthreads t).utCtx = createInit .ctx v prio :: cs) : Vacant s v := by
  have hst := ha.claim t v (by rw [hcode]; simp)
  refine ⟨hu.code t v (by rw [hcode]; simp), by rw [hst]; decide, fun u => ?_⟩
  by_contra hno
  have hs : v ∈ starts (s.uthreads u).utCtx := mem_starts.2 (by simpa using hno)
  obtain ⟨rfl, rfl⟩ := createInit_alone hc ha hcode (starts_allocs hs)
  simp [hcode] at hs

/-- An instruction of `t` keeps it. -/
theorem unset_thread (hc : Core s) (ha : AllocInv s) (h : Unset s)
    (hcode : (s.uthreads t).utCtx = i :: cs) (he : Effect l t s i s₁ new) :
    Unset (s₁.setCtx t (new ++ cs)) := by
  -- a slot that was free before has not been set up by `i`
  have hnew : ∀ w, (s.uthreads w).utState = .noState → (s₁.pmtx (.utPmut w)).status ≠ .live := by
    intro w hw hl
    refine h.free w hw (effect_live he ?_ hl)
    rintro prio rfl
    have := ha.claim t w (by rw [hcode]; simp)
    rw [hw] at this
    cases this
  refine ⟨fun u v hv hl => ?_, fun v hv hl => ?_⟩
  · have hl₁ : (s₁.pmtx (.utPmut v)).status = .live := hl
    rcases mem_code_thread unset (by simp [threadStartCode]) hcode he hv with ⟨hold, hcs⟩ | ⟨rfl, hn⟩
    · refine h.code u v hold (effect_live he ?_ hl₁)
      rintro prio rfl
      obtain ⟨rfl, rfl⟩ := createInit_alone hc ha hcode (mem_unset hold)
      cases hcs rfl
    · rcases effect_unset he hn with ⟨start, prio, rfl, hj⟩ | ⟨hi, hne⟩ | ⟨j, prio, rfl, hp⟩
      · exact hnew v (allocWhile_noState hj) hl₁
      · refine h.code u v ?_ (effect_live he hne hl₁)
        rw [hcode, List.flatMap_cons]
        exact List.mem_append_left _ hi
      · have hj := (ha.prev u j (by rw [hcode]; simp)).1
        rw [hp] at hj
        obtain rfl : v = j := Option.some.inj hj
        exact h.code u v (by rw [hcode]; simp) (effect_live he (by simp) hl₁)
  · have hst : (s₁.uthreads v).utState = .noState := by simpa [State.setCtx] using hv
    cases effect_state he v with
    | same e => exact hnew v (e ▸ hst) hl
    | destroyed hi =>
      subst hi
      have hd := (hc.slots.destroy t .state v (hcode ▸ List.mem_cons_self)).hl
      have hl₁ : (s₁.pmtx (.utPmut v)).status = .live := hl
      simp [(effect_destroy he).1, hd] at hl₁
    | saved _ _ _ e | woken _ _ e | started _ _ _ e | blocked _ _ e | allocated _ _ _ _ e
    | exited _ _ e => rw [e] at hst; cases hst

theorem Unset.congr (h : Unset s)
    (hcode : ∀ t, (s'.uthreads t).utCtx.flatMap unset = (s.uthreads t).utCtx.flatMap unset)
    (hst : ∀ v, (s'.uthreads v).utState = .noState → (s.uthreads v).utState = .noState)
    (hp : ∀ v, (s'.pmtx (.utPmut v)).status = (s.pmtx (.utPmut v)).status) : Unset s' := by
  refine ⟨fun t v hv => ?_, fun v hv => ?_⟩
  · rw [hcode] at hv
    rw [hp]
    exact h.code t v hv
  · rw [hp]
    exact h.free v (hst v hv)

/-- The user's calls and the interrupt put no set-up in front of a thread. -/
theorem call_unset (inc : Fin N → ℕ) (t : Fin N) (c : Call) : (c.code inc t).flatMap unset = [] := by
  refine List.eq_nil_iff_forall_not_mem.2 fun v hv => ?_
  have := mem_unset hv
  rw [(call_allocs inc t c).1] at this
  cases this

theorem unset_step (hc : Core s) (ha : AllocInv s) (h : Unset s) (ht : Turn s l a s') : Unset s' := by
  cases ht with
  | @thread _ t i cs new s₁ hon hcode he => exact unset_thread hc ha h hcode he
  | call t c hon hcode =>
    refine h.congr (fun u => ?_) (fun v hv => by simpa using hv) fun _ => rfl
    by_cases hu : u = t
    · subst hu
      simp [hcode, call_unset]
    · simp [hu]
  | preempt t hon hm hst h0 =>
    refine h.congr (fun u => ?_) (fun v hv => ?_) fun _ => rfl
    · by_cases hu : u = t
      · subst hu
        simp [clockInterrupt, uthreadYield, uthreadSwitch]
      · simp [hu]
    · by_cases hu : v = t
      · subst hu; simpa using hv
      · simpa [hu] using hv
  | lwp hb =>
    refine h.congr (fun u => by rw [(hb.fields u).1]) (fun v hv => ?_) fun v => hb.status _
    rcases hb.state v with ⟨e, -⟩ | ⟨e, e', -⟩
    · rwa [e] at hv
    · rw [e'] at hv; cases hv

theorem boot_unset : Unset (boot N L) := by
  refine ⟨fun t v hv => ?_, fun v hv => ?_⟩
  · rcases boot_code (L := L) t with e | e | e <;> rw [e] at hv <;>
      simp [threadStartCode, reaper, uthreadMtxLock] at hv
  · rcases boot_cases (L := L) v with ⟨-, hst, -⟩ | ⟨-, hz, -⟩
    · rw [hst] at hv; cases hv
    · rw [hz]; simp

/-! ## Who has a stack -/

/-- The slot is set up and its stack not freed, or its `uthread_create` has the stack for it. -/
def HasStack (s : State N L) (v : Fin N) : Prop :=
  (s.pmtx (.utPmut v)).status = .live ∧ (∀ t, v ∉ (s.uthreads t).utCtx.flatMap razes) ∨
    ∃ t, v ∈ (s.uthreads t).utCtx.flatMap inits

/-- The context of the slot is that of its thread. -/
def Made (s : State N L) (v : Fin N) : Prop :=
  (s.pmtx (.utPmut v)).status = .live ∨ ∃ t, v ∈ starts (s.uthreads t).utCtx

theorem effect_inits (he : Effect l t s i s₁ new) (hv : v ∈ new.flatMap inits) :
    (∃ prio, i = allocStack v prio) ∨ ∃ w prio, i = createInit w v prio := by
  obtain ⟨j, hj, hv⟩ := List.mem_flatMap.1 hv
  have hb := effect_before he j hj
  cases j with
  | createInit w u prio =>
    obtain rfl : v = u := by simpa using hv
    rcases hb with ⟨-, hi⟩ | ⟨w', hi, -⟩
    · exact .inl ⟨prio, hi⟩
    · exact .inr ⟨w', prio, hi⟩
  | _ => cases hv

theorem mem_razes : v ∈ c.flatMap razes ↔ ∃ d, destroy d v ∈ c ∧ d ≠ .test ∧ d ≠ .stack := by
  rw [List.mem_flatMap]
  constructor
  · rintro ⟨i, hi, hv⟩
    cases i with
    | destroy d u =>
      cases d <;> simp at hv <;> subst hv <;> exact ⟨_, hi, by decide, by decide⟩
    | _ => cases hv
  · rintro ⟨d, hi, h₁, h₂⟩
    refine ⟨_, hi, ?_⟩
    cases d <;> simp at h₁ h₂ ⊢

/-- An instruction of `t` is in the code of no other thread, nor later in its own, if it destroys. -/
theorem destroy_alone {d d' : DestroyStep} (hc : Core s)
    (hcode : (s.uthreads t).utCtx = destroy d v :: cs) (hd : destroy d' v ∈ (s.uthreads u).utCtx) :
    d' = d := by
  have ho := hc.owns_reap hd
  rw [hc.owns_reap (hcode ▸ List.mem_cons_self : destroy d v ∈ (s.uthreads t).utCtx)] at ho
  obtain rfl := Option.some.inj ho
  have hwf := hc.codes.wf t
  rw [hcode] at hwf hd
  obtain rfl : cs = [reaperDrain] := hwf.1
  simpa using hd

/-- An instruction does not bring a stack back, and frees none but with its own step. -/
theorem razes_thread (hcode : (s.uthreads t).utCtx = i :: cs)
    (he : Effect l t s i s₁ new) (hd : i ≠ destroy .stack v)
    (hu : v ∈ ((s₁.setCtx t (new ++ cs)).uthreads u).utCtx.flatMap razes) :
    ∃ w, v ∈ (s.uthreads w).utCtx.flatMap razes := by
  rcases mem_code_thread razes (by simp [threadStartCode]) hcode he hu with ⟨hold, -⟩ | ⟨-, hnew⟩
  · exact ⟨u, hold⟩
  · obtain ⟨d, hmem, h₁, h₂⟩ := mem_razes.1 hnew
    rcases effect_destroys he hmem with ⟨-, rfl, -⟩ | ⟨d', rfl, hrest⟩
    · exact absurd rfl h₁
    · refine ⟨t, mem_razes.2 ⟨d', hcode ▸ List.mem_cons_self, ?_, ?_⟩⟩
      · rintro rfl
        exact h₂ (by simpa [destroyRest] using hrest)
      · rintro rfl
        exact hd rfl

/-- A slot that is about to be destroyed further stays so. -/
theorem razes_kept (hc : Core s) (hcode : (s.uthreads t).utCtx = i :: cs)
    (he : Effect l t s i s₁ new) (hl : (s₁.pmtx (.utPmut v)).status = .live)
    (hu : v ∈ (s.uthreads u).utCtx.flatMap razes) :
    ∃ w, v ∈ ((s₁.setCtx t (new ++ cs)).uthreads w).utCtx.flatMap razes := by
  obtain ⟨d, hmem, h₁, h₂⟩ := mem_razes.1 hu
  by_cases hut : u = t
  · subst hut
    rw [hcode] at hmem
    rcases List.mem_cons.1 hmem with rfl | hcs
    · -- the step of `uthread_destroy` is followed by the next one
      refine ⟨u, ?_⟩
      obtain ⟨rfl, rfl, -⟩ := effect_destroy he
      have hd := (hc.slots.destroy u d v (hcode ▸ List.mem_cons_self)).hl
      rw [State.setCtx_uthreads, if_pos rfl]
      cases d with
      | test | stack => contradiction
      | pmut => simp at hl
      | state => simp [hd] at hl
      | _ => simp [destroyRest]
    · refine ⟨u, mem_razes.2 ⟨d, ?_, h₁, h₂⟩⟩
      rw [State.setCtx_uthreads, if_pos rfl]
      exact List.mem_append_right _ hcs
  · refine ⟨u, ?_⟩
    rcases other_code cs he hut with e | ⟨-, hv, -⟩
    · rw [e]; exact hu
    · rcases (hc.free hv.1).2.2.2 with (e | e | e) | e <;> rw [e] at hmem <;>
        simp [deadCode, uthreadSwitch, threadStartCode] at hmem

/-- An instruction that neither allocates nor frees the stack of `v`. -/
theorem hasStack_thread (hc : Core s) (hcode : (s.uthreads t).utCtx = i :: cs)
    (he : Effect l t s i s₁ new) (ha : ∀ prio, i ≠ allocStack v prio) (hd : i ≠ destroy .stack v) :
    HasStack (s₁.setCtx t (new ++ cs)) v ↔ HasStack s v := by
  have hinit : ∀ {w prio}, i = createInit w v prio → HasStack s v := by
    rintro w prio rfl
    exact .inr ⟨t, by rw [hcode]; simp⟩
  constructor
  · rintro (⟨hl, hr⟩ | ⟨u, hu⟩)
    · by_cases hi : ∃ prio, i = createInit .pmut v prio
      · obtain ⟨prio, e⟩ := hi
        exact hinit e
      · refine .inl ⟨effect_live he (fun prio e => hi ⟨prio, e⟩) hl, fun u hu => ?_⟩
        obtain ⟨w, hw⟩ := razes_kept hc hcode he hl hu
        exact hr w hw
    · rcases mem_code_thread inits (by simp [threadStartCode]) hcode he hu with ⟨hold, -⟩ | ⟨-, hnew⟩
      · exact .inr ⟨u, hold⟩
      · rcases effect_inits he hnew with ⟨prio, e⟩ | ⟨w, prio, e⟩
        · exact absurd e (ha prio)
        · exact hinit e
  · by_cases hi : ∃ w prio, i = createInit w v prio
    · obtain ⟨w, prio, rfl⟩ := hi
      intro _
      obtain ⟨rfl, rfl, -⟩ := effect_create he
      by_cases hw : w = .count
      · -- the last write is followed by the start of the thread
        subst hw
        have hl : SetUp s (createInit .count v prio) := hc.slots.setUp t _ (hcode ▸ List.mem_cons_self)
        refine .inl ⟨by simpa using hl, fun u hu => ?_⟩
        obtain ⟨x, hx⟩ := razes_thread hcode he hd hu
        obtain ⟨d, hmem, -⟩ := mem_razes.1 hx
        have hz := (hc.slots.destroy x d v hmem).st
        rcases (hc.creating hcode he).2.1 with e | e <;> rw [e] at hz <;> cases hz
      · refine .inr ⟨t, ?_⟩
        rw [State.setCtx_uthreads, if_pos rfl]
        cases w with
        | count => exact absurd rfl hw
        | _ => simp [createRest]
    · have hcr : ∀ w prio, i ≠ createInit w v prio := fun w prio e => hi ⟨w, prio, e⟩
      rintro (⟨hl, hr⟩ | ⟨u, hu⟩)
      · refine .inl ⟨(effect_status he (hcr _) ?_).trans hl, fun u hu => ?_⟩
        · rintro rfl
          exact hr t (mem_razes.2 ⟨.pmut, hcode ▸ List.mem_cons_self, by decide, by decide⟩)
        · obtain ⟨w, hw⟩ := razes_thread hcode he hd hu
          exact hr w hw
      · refine .inr ⟨u, ?_⟩
        by_cases hut : u = t
        · subst hut
          rw [hcode, List.flatMap_cons, List.mem_append] at hu
          rw [State.setCtx_uthreads, if_pos rfl, List.flatMap_append]
          refine List.mem_append_right _ (hu.resolve_left fun hi' => ?_)
          cases i with
          | createInit w u prio =>
            obtain rfl : v = u := by simpa using hi'
            exact hcr w prio rfl
          | _ => cases hi'
        · rcases other_code cs he hut with e | ⟨-, hv, -⟩
          · rwa [e]
          · -- a slot that is set up runs nothing yet
            rcases (hc.free hv.1).2.2.2 with (e | e | e) | e <;> rw [e] at hu <;>
              simp [deadCode, uthreadSwitch, threadStartCode] at hu

/-- Only `uthread_makecontext` makes a context. -/
theorem made_thread (hcode : (s.uthreads t).utCtx = i :: cs) (he : Effect l t s i s₁ new)
    (hi : ∀ prio, i ≠ createInit .ctx v prio) (h : Made (s₁.setCtx t (new ++ cs)) v) : Made s v := by
  have hstarts : ∀ {w prio}, i = createInit w v prio → Made s v := by
    rintro w prio rfl
    refine .inr ⟨t, ?_⟩
    cases w with
    | ctx => exact absurd rfl (hi prio)
    | _ => simp [hcode]
  rcases h with hl | ⟨u, hu⟩
  · by_cases hp : ∃ prio, i = createInit .pmut v prio
    · obtain ⟨prio, e⟩ := hp
      exact hstarts e
    · exact .inl (effect_live he (fun prio e => hp ⟨prio, e⟩) hl)
  · rcases starts_thread hcode he hu with ⟨hold, -⟩ | ⟨-, hnew⟩
    · exact .inr ⟨u, hold⟩
    · rcases effect_starts he with e | ⟨w, u, prio, e, hrest⟩
      · rw [e] at hnew; cases hnew
      · obtain rfl : v = u := by simpa [hrest] using hnew
        exact hstarts e

/-! ## What a step does to the stacks -/

/-- The stacks of the slots that have one. -/
structure StackInv (s : State N L) (h : Stacks N) : Prop where
  owned : Owned (HasStack s) h.utStack h.allocated
  ctx : ∀ v, Made s v → h.ctxStack v = h.utStack v

/-- Nobody frees the stack of a thread that is on its LWP. -/
theorem Core.hasStack (hc : Core s) (hon : OnStack s l v) : HasStack s v := by
  refine .inl ⟨(hc.active hon).2.2.2, fun u hu => ?_⟩
  obtain ⟨d, hmem, h₁, h₂⟩ := mem_razes.1 hu
  exact (hc.slots.destroy u d v hmem).off h₁ h₂ l hon

theorem StackInv.allocated (hc : Core s) (hi : StackInv s h) (hon : OnStack s l v) :
    (h.ctxStack v).any h.allocated = true := by
  obtain ⟨b, hb, ha⟩ := hi.owned.own v (hc.hasStack hon)
  rw [hi.ctx v (.inl (hc.active hon).2.2.2), hb]
  exact ha

/-- A step that leaves the stacks alone. -/
theorem StackInv.congr (hi : StackInv s h) (hh : ∀ v, HasStack s' v ↔ HasStack s v)
    (hm : ∀ v, Made s' v → Made s v) : StackInv s' h :=
  ⟨hi.owned.congr hh fun _ _ => rfl, fun v hv => hi.ctx v (hm v hv)⟩

/-- A slot that is about to get a stack has none. -/
theorem not_hasStack {prio : ℤ} (hc : Core s) (ha : AllocInv s) (hu : Unset s)
    (hcode : (s.uthreads t).utCtx = allocStack v prio :: cs) : ¬ HasStack s v ∧ ¬ Made s v := by
  have hwf := hc.codes.wf t
  rw [hcode] at hwf
  have hcs : cs = [] := hwf.1
  have hl : (s.pmtx (.utPmut v)).status ≠ .live := hu.code t v (by rw [hcode]; simp)
  -- nobody else has the slot
  have hone : ∀ {u}, v ∈ (s.uthreads u).utCtx.flatMap allocs → (s.uthreads u).utCtx = [allocStack v prio] := by
    intro u hv
    rw [ha.one u t v hv (by rw [hcode]; simp), hcode, hcs]
  constructor
  · rintro (⟨hl', -⟩ | ⟨u, hv⟩)
    · exact hl hl'
    · rw [hone (mem_inits hv)] at hv
      simp at hv
  · rintro (hl' | ⟨u, hv⟩)
    · exact hl hl'
    · rw [hone (starts_allocs hv)] at hv
      simp at hv

/-- `alloc_stack`. -/
theorem stackInv_alloc {ok : Bool} {prio : ℤ} {b : ℕ} (hc : Core s) (ha : AllocInv s) (hu : Unset s)
    (hi : StackInv s h) (hcode : (s.uthreads t).utCtx = allocStack v prio :: cs)
    (hexec : exec l t ok (allocStack v prio) s = .ok (s₁, new)) (hb : h.allocated b = false) :
    StackInv (s₁.setCtx t (new ++ cs)) (h.allocStack v ok b) := by
  have hwf := hc.codes.wf t
  rw [hcode] at hwf
  have he := exec_effect hwf.1 (by simp) hexec
  obtain ⟨hno, hmade⟩ := not_hasStack hc ha hu hcode
  have hother : ∀ w, w ≠ v → (HasStack (s₁.setCtx t (new ++ cs)) w ↔ HasStack s w) := fun w hw =>
    hasStack_thread hc hcode he (by rintro prio' e; cases e; exact hw rfl) (by simp)
  have hctx : ∀ w, Made (s₁.setCtx t (new ++ cs)) w → h.ctxStack w = h.utStack w ∧ w ≠ v := by
    intro w hw
    have hold := made_thread hcode he (by simp) hw
    refine ⟨hi.ctx w hold, ?_⟩
    rintro rfl
    exact hmade hold
  cases ok with
  | true =>
    have hnew : new = [nopreemptOff, createInit .ctx v prio] :=
      (Prod.mk.inj (Except.ok.inj hexec)).2.symm
    refine ⟨?_, fun w hw => ?_⟩
    · refine hi.owned.malloc hno hb fun w => ?_
      by_cases hw : w = v
      · subst hw
        refine iff_of_true (.inr ⟨t, ?_⟩) (.inr rfl)
        simp [hnew]
      · rw [hother w hw]
        simp [hw]
    · obtain ⟨e, hne⟩ := hctx w hw
      simp [Stacks.allocStack, hne, e]
  | false =>
    have hnew : new = [nopreemptOff, ret (.create .eagain none)] :=
      (Prod.mk.inj (Except.ok.inj hexec)).2.symm
    have hno' : ¬ HasStack (s₁.setCtx t (new ++ cs)) v := by
      rintro (⟨hl, -⟩ | ⟨u, hu'⟩)
      · exact hu.code t v (by rw [hcode]; simp) (effect_live he (by simp) hl)
      · rcases mem_code_thread inits (by simp [threadStartCode]) hcode he hu' with ⟨hold, -⟩ | ⟨-, hn⟩
        · exact hno (.inr ⟨u, hold⟩)
        · rw [hnew] at hn
          simp at hn
    have hall : ∀ w, HasStack (s₁.setCtx t (new ++ cs)) w ↔ HasStack s w := by
      intro w
      by_cases hw : w = v
      · subst hw; exact iff_of_false hno' hno
      · exact hother w hw
    refine ⟨hi.owned.congr hall fun w hw => ?_, fun w hw => ?_⟩
    · have hne : w ≠ v := by rintro rfl; exact hno hw
      simp [Stacks.allocStack, hne]
    · obtain ⟨e, hne⟩ := hctx w hw
      simp [Stacks.allocStack, hne, e]

/-- `uthread_makecontext`. -/
theorem stackInv_create {prio : ℤ} (hc : Core s) (hi : StackInv s h)
    (hcode : (s.uthreads t).utCtx = createInit .ctx v prio :: cs)
    (he : Effect l t s (createInit .ctx v prio) s₁ new) :
    ∃ h', h.makecontext v = .ok h' ∧ StackInv (s₁.setCtx t (new ++ cs)) h' := by
  have hhas : HasStack s v := .inr ⟨t, by rw [hcode]; simp⟩
  obtain ⟨b, hb, hall⟩ := hi.owned.own v hhas
  refine ⟨_, if_pos (by rw [hb]; exact hall), ?_, fun w hw => ?_⟩
  · exact hi.owned.congr (fun w => hasStack_thread hc hcode he (by simp) (by simp)) fun _ _ => rfl
  · by_cases hwv : w = v
    · subst hwv
      exact Function.update_self ..
    · have hold := made_thread hcode he (by rintro prio' e; cases e; exact hwv rfl) hw
      simp [hwv, hi.ctx w hold]

/-- `free_stack`. -/
theorem stackInv_free (hc : Core s) (ha : AllocInv s) (hi : StackInv s h)
    (hcode : (s.uthreads t).utCtx = destroy .stack v :: cs)
    (he : Effect l t s (destroy .stack v) s₁ new) :
    ∃ h', h.freeStack v = .ok h' ∧ StackInv (s₁.setCtx t (new ++ cs)) h' := by
  have hd := hc.slots.destroy t .stack v (hcode ▸ List.mem_cons_self)
  have hhas : HasStack s v := by
    refine .inl ⟨by simpa using hd.hl, fun u hu => ?_⟩
    obtain ⟨d, hmem, -, h₂⟩ := mem_razes.1 hu
    exact h₂ (destroy_alone hc hcode hmem)
  obtain ⟨b, hb, hall⟩ := hi.owned.own v hhas
  have hgone : ¬ HasStack (s₁.setCtx t (new ++ cs)) v := by
    rintro (⟨-, hr⟩ | ⟨u, hu⟩)
    · refine hr t ?_
      rw [(effect_destroy he).2.1, State.setCtx_uthreads, if_pos rfl]
      simp [destroyRest]
    · rcases mem_code_thread inits (by simp [threadStartCode]) hcode he hu with ⟨hold, -⟩ | ⟨-, hn⟩
      · have := ha.claim u v (mem_inits hold)
        rw [hd.st] at this
        cases this
      · rcases effect_inits he hn with ⟨prio, e⟩ | ⟨w, prio, e⟩ <;> cases e
  refine ⟨{ h with allocated := Function.update h.allocated b false }, ?_, ?_, fun w hw => ?_⟩
  · simp [Stacks.freeStack, hb, hall]
  · refine hi.owned.free hhas hb fun w => ?_
    by_cases hw : w = v
    · subst hw; exact iff_of_false hgone fun h => h.2 rfl
    · rw [hasStack_thread hc hcode he (by simp) (by rintro e; cases e; exact hw rfl)]
      simp [hw]
  · exact hi.ctx w (made_thread hcode he (by simp) hw)

/-- **An instruction** on the stacks. -/
theorem stackInv_exec {ok : Bool} {b : ℕ} (hc : Core s) (ha : AllocInv s) (hu : Unset s)
    (hi : StackInv s h) (hcode : (s.uthreads t).utCtx = i :: cs)
    (hexec : exec l t ok i s = .ok (s₁, new)) (hb : h.allocated b = false) :
    ∃ h', h.exec ok b i = .ok h' ∧ StackInv (s₁.setCtx t (new ++ cs)) h' := by
  have hwf := hc.codes.wf t
  rw [hcode] at hwf
  have hvac : ∀ v prio, i = createInit .ctx v prio → Vacant s v := by
    rintro v prio rfl
    exact createInit_vacant hc ha hu hcode
  have he := exec_effect hwf.1 hvac hexec
  have hother : (∀ v prio, i ≠ allocStack v prio) → (∀ v, i ≠ destroy .stack v) →
      (∀ v prio, i ≠ createInit .ctx v prio) → StackInv (s₁.setCtx t (new ++ cs)) h := fun h₁ h₂ h₃ =>
    hi.congr (fun v => hasStack_thread hc hcode he (h₁ v) (h₂ v)) fun v => made_thread hcode he (h₃ v)
  cases i with
  | allocStack v prio => exact ⟨_, rfl, stackInv_alloc hc ha hu hi hcode hexec hb⟩
  | createInit w v prio =>
    cases w with
    | ctx => exact stackInv_create hc hi hcode he
    | _ => exact ⟨h, rfl, hother (by simp) (by simp) (by simp)⟩
  | destroy d v =>
    cases d with
    | stack => exact stackInv_free hc ha hi hcode he
    | _ => exact ⟨h, rfl, hother (by simp) (by simp) (by simp)⟩
  | _ => exact ⟨h, rfl, hother (by simp) (by simp) (by simp)⟩

/-- The instruction neither sets a slot up nor destroys one. -/
def Instr.aloof (i : Instr N) : Prop := i.inits = [] ∧ i.razes = [] ∧ i.starts = []

/-- A step of the library that is no instruction. -/
theorem stackInv_between (hi : StackInv s h)
    (hcode : ∀ t, ∃ pre, (s'.uthreads t).utCtx = pre ++ (s.uthreads t).utCtx ∧ ∀ j ∈ pre, aloof j)
    (hp : ∀ v, (s'.pmtx (.utPmut v)).status = (s.pmtx (.utPmut v)).status) : StackInv s' h := by
  have hsame : ∀ f : Instr N → List (Fin N), (∀ j, aloof j → f j = []) →
      ∀ t, (s'.uthreads t).utCtx.flatMap f = (s.uthreads t).utCtx.flatMap f := by
    intro f hf t
    obtain ⟨pre, hpre, hj⟩ := hcode t
    rw [hpre, List.flatMap_append, List.flatMap_eq_nil_iff.2 fun j h => hf j (hj j h), List.nil_append]
  have hinits := hsame inits fun j h => h.1
  have hrazes := hsame razes fun j h => h.2.1
  have hstarts := hsame Instr.starts fun j h => h.2.2
  refine hi.congr (fun v => ?_) fun v hv => ?_
  · simp only [HasStack, hinits, hrazes, hp]
  · simp only [Made, starts, hstarts, hp] at hv
    exact hv

/-- **A step** uses allocated stacks only. -/
theorem stackInv_step {b : ℕ} (hc : Core s) (ha : AllocInv s) (hu : Unset s) (hi : StackInv s h)
    (hn : next s (l, a) = some s') (hh : s'.halt = none) (hb : h.allocated b = false) :
    ∃ h', h.step s l a b = .ok h' ∧ StackInv s' h' := by
  have hturn := move_turn hc (step_move hc.codes.wf hn)
  by_cases hrun : ∃ t, OnStack s l t
  · obtain ⟨t, hon⟩ := hrun
    have hown := hi.allocated hc hon
    have hinstr : ∀ ok, a = .mallocs ok → ∃ h', h.step s l a b = .ok h' ∧ StackInv s' h' := by
      rintro ok rfl
      obtain ⟨i, cs, hcode, ⟨e, rfl⟩ | ⟨s₁, new, hexec, rfl⟩⟩ := alone_step hon hn
      · cases hh
      · obtain ⟨h', hex, hi'⟩ := stackInv_exec hc ha hu hi hcode hexec hb
        refine ⟨h', ?_, hi'⟩
        cases ok <;> simpa [Stacks.step, Act.mallocs, hon.1, hon.2, hown, hcode] using hex
    cases a with
    | exec => exact hinstr true rfl
    | mallocFail => exact hinstr false rfl
    | call c =>
      obtain ⟨-, hcode, rfl⟩ := call_next hon hn
      refine ⟨h, by simp [Stacks.step, hon.1, hon.2, hown], stackInv_between hi (fun u => ?_) fun _ => rfl⟩
      by_cases hut : u = t
      · subst hut
        refine ⟨c.code s.incarnation u, by simp [hcode], fun j hj => ?_⟩
        have := call_called s.incarnation u c j hj
        cases j <;> first | exact ⟨rfl, rfl, rfl⟩ | cases this
      · exact ⟨[], by simp [hut], by simp⟩
    | preempt =>
      rcases preempt_next hon hn with ⟨e, rfl⟩ | ⟨-, rfl⟩
      · cases hh
      · refine ⟨h, by simp [Stacks.step, hon.1, hon.2, hown],
          stackInv_between hi (fun u => ?_) fun _ => rfl⟩
        by_cases hut : u = t
        · subst hut
          exact ⟨clockInterrupt, by simp,
            by simp [clockInterrupt, uthreadYield, uthreadSwitch, aloof]⟩
        · exact ⟨[], by simp [hut], by simp⟩
    | spurious =>
      have hs := (next_step hn).2
      unfold step at hs
      simp [hon.1, stepSpurious] at hs
  · have hidle : h.step s l a b = .ok h := by
      unfold Stacks.step
      split
      · exact absurd ⟨_, ‹_›, ‹_›⟩ hrun
      · rfl
    refine ⟨h, hidle, ?_⟩
    cases hturn with
    | thread t _ _ _ hon | call t _ hon | preempt t hon => exact absurd ⟨t, hon⟩ hrun
    | lwp hb =>
      exact stackInv_between hi (fun u => ⟨[], (hb.fields u).1, by simp⟩) fun v => hb.status _

/-! ## Runs -/

/-- `uthread_alloc` hands no slot out twice, and `malloc` returns no block that is allocated. -/
def stackOk (x : State N L × Stacks N) (c : (Fin L × Act) × ℕ) : Prop :=
  allocApart x.1 c.1 ∧ x.2.allocated c.2 = false

instance (x : State N L × Stacks N) (c : (Fin L × Act) × ℕ) : Decidable (stackOk x c) :=
  inferInstanceAs (Decidable (_ ∧ _))

/-- No `uthread_create` begins to write to a slot that is in use. -/
theorem next_apart {b : Fin L × Act} (hc : Core s) (ha : AllocInv s) (hu : Unset s)
    (hn : anyStep s b = some s') : next s b = some s' := by
  have hspares : intrudes s b = false := by
    unfold intrudes
    split <;> try rfl
    all_goals
      split <;> try rfl
      simp [createInit_vacant hc ha hu ‹_›]
  rwa [next, hspares, if_neg (by simp)]

theorem stackNext_some {c : (Fin L × Act) × ℕ} (hn : stackNext (s, h) c = some (s', h')) :
    anyStep s c.1 = some s' ∧ h.step s c.1.1 c.1.2 c.2 = .ok h' := by
  unfold stackNext at hn
  split at hn
  · rename_i s₁ h₁ hs hh
    obtain ⟨rfl, rfl⟩ := Prod.mk.inj (Option.some.inj hn)
    exact ⟨hs, hh⟩
  · cases hn

theorem unset_reachable {s : State (N + 2) (L + 1)} (hr : Reachable allocApart (boot N L) s) :
    Core s ∧ AllocInv s ∧ Unset s := by
  have hI : ∀ s, Reachable allocApart (boot N L) s → Core s := fun _ => core_reachable boot_core
  have hA : ∀ s, Reachable allocApart (boot N L) s → Core s ∧ AllocInv s := by
    intro s hr
    refine ⟨hI s hr, hr.invariant_of hI boot_alloc ?_⟩
    rintro s s' ⟨l, a⟩ hc ha hok hn
    exact alloc_step hc ha (move_turn hc (step_move hc.codes.wf hn)) hok
  refine ⟨hI s hr, (hA s hr).2, hr.invariant_of hA boot_unset ?_⟩
  rintro s s' ⟨l, a⟩ ⟨hc, ha⟩ hu - hn
  exact unset_step hc ha hu (move_turn hc (step_move hc.codes.wf hn))

/-- Where no slot is handed out twice, none is set up while it is in use. -/
theorem apart_follows {s : State (N + 2) (L + 1)} (h : Runs.Reach anyStep allocApart (boot N L) s) :
    Reachable allocApart (boot N L) s := by
  induction h with
  | start => exact .start
  | step _ hok hn ih =>
    obtain ⟨hc, ha, hu⟩ := unset_reachable ih
    exact ih.step hok (next_apart hc ha hu hn)

theorem boot_stacks {b₀ b₁ : ℕ} (hb : b₀ ≠ b₁) : StackInv (boot N L) (Stacks.start 0 1 b₀ b₁) := by
  have hhas : ∀ v, HasStack (boot N L) v ↔ v = 0 ∨ v = 1 := by
    intro v
    have hno : ¬ ∃ t, v ∈ ((boot N L).uthreads t).utCtx.flatMap inits := by
      rintro ⟨t, hv⟩
      rcases boot_code (L := L) t with e | e | e <;> rw [e] at hv <;>
        simp [threadStartCode, reaper, uthreadMtxLock] at hv
    rcases boot_cases (L := L) v with ⟨-, -, -, -, hl, hv⟩ | ⟨-, hz, h₀, h₁⟩
    · refine iff_of_true (.inl ⟨hl, fun t hv => ?_⟩) hv
      rcases boot_code (L := L) t with e | e | e <;> rw [e] at hv <;>
        simp [threadStartCode, reaper, uthreadMtxLock] at hv
    · refine iff_of_false (fun hl => hl.elim (fun hl => ?_) hno) (fun hv => hv.elim h₀ h₁)
      rw [hz] at hl
      cases hl.1
  have hne : (1 : Fin (N + 2)) ≠ 0 := by simp
  refine ⟨⟨fun v hv => ?_, fun u v hu hv he => ?_, fun b hall => ?_⟩, fun v _ => rfl⟩
  · rcases (hhas v).1 hv with rfl | rfl
    · exact ⟨b₀, by simp [Stacks.start], by simp [Stacks.start]⟩
    · exact ⟨b₁, by simp [Stacks.start], by simp [Stacks.start]⟩
  · rcases (hhas u).1 hu with rfl | rfl <;> rcases (hhas v).1 hv with rfl | rfl
    · rfl
    · simp [Stacks.start, hb] at he
    · simp [Stacks.start, hb.symm] at he
    · rfl
  · have : b = b₀ ∨ b = b₁ := by simpa [Stacks.start] using hall
    rcases this with rfl | rfl
    · exact ⟨0, (hhas 0).2 (.inl rfl), by simp [Stacks.start]⟩
    · exact ⟨1, (hhas 1).2 (.inr rfl), by simp [Stacks.start]⟩

/-- What holds of the stacks in every state. -/
structure StacksSafe (s : State N L) (h : Stacks N) : Prop where
  /-- A slot that is set up, or about to be, has an allocated stack. -/
  own : ∀ v, HasStack s v → ∃ b, h.utStack v = some b ∧ h.allocated b = true
  /-- An allocated block is the stack of one slot, which is set up or about to be. -/
  leak : ∀ b, h.allocated b = true → ∃! v, HasStack s v ∧ h.utStack v = some b
  /-- A thread runs on its own stack, and nobody else runs there. -/
  runs : ∀ l t, OnStack s l t → ∃ b, h.ctxStack t = some b ∧ h.utStack t = some b ∧
    h.allocated b = true ∧ ∀ k u, OnStack s k u → h.ctxStack u = some b → k = l

theorem StackInv.safe (hc : Core s) (hi : StackInv s h) : StacksSafe s h := by
  refine ⟨hi.owned.own, fun b hb => ?_, fun l t hon => ?_⟩
  · obtain ⟨v, hv, hp⟩ := hi.owned.used b hb
    exact ⟨v, ⟨hv, hp⟩, fun u hu => hi.owned.unique hu.1 hv hu.2 hp⟩
  · obtain ⟨b, hb, hall⟩ := hi.owned.own t (hc.hasStack hon)
    refine ⟨b, (hi.ctx t (.inl (hc.active hon).2.2.2)).trans hb, hb, hall, fun k u hk he => ?_⟩
    rw [hi.ctx u (.inl (hc.active hk).2.2.2)] at he
    obtain rfl := hi.owned.unique (hc.hasStack hk) (hc.hasStack hon) he hb
    exact hc.places.cur k l u hk.2 hon.2

/-- What is known of a state that goes on. -/
theorem stacks_reachable {s : State (N + 2) (L + 1)} {h : Stacks (N + 2)} {b₀ b₁ : ℕ} (hb : b₀ ≠ b₁)
    (hr : Runs.Reach stackNext stackOk (boot N L, Stacks.start 0 1 b₀ b₁) (s, h)) :
    Reachable allocApart (boot N L) s ∧ (s.halt = none → StackInv s h) := by
  refine hr.invariant (P := fun x => Reachable allocApart (boot N L) x.1 ∧
    (x.1.halt = none → StackInv x.1 x.2)) ⟨.start, fun _ => boot_stacks hb⟩ ?_
  rintro ⟨s, h⟩ ⟨s', h'⟩ ⟨⟨l, a⟩, b⟩ ⟨hr, hi⟩ ⟨hok, hb⟩ hnext
  obtain ⟨hc, ha, hu⟩ := unset_reachable hr
  obtain ⟨hn, hstep⟩ := stackNext_some hnext
  have hn := next_apart hc ha hu hn
  refine ⟨hr.step hok hn, fun hh => ?_⟩
  obtain ⟨h₁, hstep₁, hi₁⟩ := stackInv_step hc ha hu (hi (next_live hn)) hn hh hb
  rw [hstep] at hstep₁
  rwa [Except.ok.inj hstep₁]

/-- **Every thread runs on its own stack**, whatever `malloc` returns. No step that goes on uses a block
that is not allocated or frees one twice, and the end of the process leaks the reaper's stack alone. -/
theorem stacks_safe {s : State (N + 2) (L + 1)} {h : Stacks (N + 2)} {b₀ b₁ : ℕ} (hb : b₀ ≠ b₁)
    (hr : Runs.Reach stackNext stackOk (boot N L, Stacks.start 0 1 b₀ b₁) (s, h)) (hs : s.halt = none) :
    StacksSafe s h ∧
      (∀ c s', stackOk (s, h) c → anyStep s c.1 = some s' → s'.halt = none →
        ∃ h', stackNext (s, h) c = some (s', h')) ∧
      ∀ c s', anyStep s c = some s' → s'.halt = some .exit0 →
        ∀ b, h.allocated b = true ↔ h.utStack s.reaperThrId = some b := by
  obtain ⟨hreach, hi⟩ := stacks_reachable hb hr
  obtain ⟨hc, ha, hu⟩ := unset_reachable hreach
  have hi := hi hs
  refine ⟨hi.safe hc, ?_, ?_⟩
  · rintro ⟨⟨l, a⟩, b⟩ s' ⟨-, hb⟩ hn hh
    obtain ⟨h', hstep, -⟩ := stackInv_step hc ha hu hi (next_apart hc ha hu hn) hh hb
    refine ⟨h', ?_⟩
    have hs' : step s l a = some s' := hn
    simp [stackNext, hs', hstep]
  · rintro ⟨l, a⟩ s' hn he b
    have hn := next_apart hc ha hu hn
    have hre := reaper_reachable (hreach.mono fun _ _ _ => trivial)
    have hfree := exit_free hc hre hn he
    obtain ⟨-, rfl⟩ := next_stop hc.codes.wf hn he
    -- only the reaper has a stack
    have honly : ∀ v, HasStack s v → v = s.reaperThrId := by
      intro v hv
      by_contra hne
      have hst : (s.uthreads v).utState = .noState := hfree v hne
      rcases hv with ⟨hl, -⟩ | ⟨t, hv⟩
      · exact hu.free v hst hl
      · have := ha.claim t v (mem_inits hv)
        rw [hst] at this
        cases this
    constructor
    · intro hall
      obtain ⟨v, hv, hp⟩ := hi.owned.used b hall
      rw [← honly v hv]
      exact hp
    · intro hp
      have hhas : HasStack s s.reaperThrId := by
        refine .inl ⟨by_contra fun hl => ?_, fun t ht => ?_⟩
        · rcases (hc.free hl).2.1 with (hst | hst) | hst
          · exact hre.live.1 hst
          · exact hre.live.2.1 hst
          · exact hre.live.2.2 hst
        · obtain ⟨d, hmem, -⟩ := mem_razes.1 ht
          exact hre.live.2.2 (hc.slots.destroy t d _ hmem).st
      exact hi.owned.free_ok hhas hp

/-- The first thread creates another one, which gets a third block. -/
theorem stacks_safe_third : ∃ (s : State 3 1) (h : Stacks 3), StacksSafe s h ∧
    h.allocated 7 = true ∧ h.utStack 2 = some 7 := by
  obtain ⟨⟨s, h⟩, hr, hs, hall, hp⟩ : ∃ x : State 3 1 × Stacks 3,
      Runs.Reach stackNext stackOk (boot 1 0, Stacks.start 0 1 3 5) x ∧ x.1.halt = none ∧
        x.2.allocated 7 = true ∧ x.2.utStack 2 = some 7 :=
    Runs.exists_reach ((turns 0 4 ++ [(0, Act.call (.create 7))] ++ turns 0 9).map (fun c => (c, 7)) ++
      (turns 0 8).map fun c => (c, 9)) (by decide +kernel)
  exact ⟨s, h, (stacks_safe (by decide) hr hs).1, hall, hp⟩

end Uthreads
