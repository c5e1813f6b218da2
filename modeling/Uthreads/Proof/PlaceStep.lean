import Uthreads.Proof.GoesOn

/-!
# Every thread stays in one place

`place_step`: every step takes each thread from a place of `Place` to a place of `Place`. An
instruction touches its own thread and at most one other, which it finds where `Core.waiting` and
`Places.woken` say; all others are framed by `Place.frame`.
-/

namespace Uthreads

variable {N L : ℕ} {l : Fin L} {t u v : Fin N} {s s' s₁ : State N L} {i : Instr N} {cs new : Code N}

open Instr

/-- The place of a thread depends on nothing but its state, link, code, mutex and LWP. -/
theorem Place.frame (h : Place s v) (hst : (s'.uthreads v).utState = (s.uthreads v).utState)
    (hlk : (s'.uthreads v).utLink = (s.uthreads v).utLink)
    (hcode : (s'.uthreads v).utCtx = (s.uthreads v).utCtx)
    (hl : (s'.pmtx (.utPmut v)).status = (s.pmtx (.utPmut v)).status)
    (hon : ∀ k, (s'.lwps k).utCurthr = some v ↔ (s.lwps k).utCurthr = some v)
    (hmode : ∀ k, (s.lwps k).utCurthr = some v → (s'.lwps k).mode = (s.lwps k).mode)
    (hw : Woken s v → Woken s' v) : Place s' v := by
  have hoff : Off s v → Off s' v := fun h k hk => h k ((hon k).1 hk)
  cases h with
  | free off st link code h =>
    exact .free (hoff off) (by unfold Unstarted; rw [hst]; exact st) (hlk.trans link) (by rw [hcode]; exact code)
      (by rw [hl]; exact h)
  | created off st link code h =>
    exact .created (hoff off) (by unfold Unstarted; rw [hst]; exact st) (hlk.trans link)
      (hcode.trans code) (hl.trans h)
  | queued off st code h =>
    exact .queued (hoff off) (hst.trans st) (by rw [hcode]; exact code) (hl.trans h)
  | active k cur mode st link dying h =>
    refine .active k ((hon k).2 cur) ?_ ?_ ?_ ?_ (hl.trans h)
    · rw [hmode k cur, hcode]; exact mode
    · rw [hst, hcode]; exact st
    · rw [hlk, hcode]; exact link
    · rw [hlk, hcode]; exact dying
  | leaving k p q cur mode st code link guard h =>
    exact .leaving k p q ((hon k).2 cur) ((hmode k cur).trans mode) (hst.trans st)
      (by rw [hcode]; exact code) (hlk.trans link) guard (hl.trans h)
  | waiting q off st code link guard h =>
    exact .waiting q (hoff off) (hst.trans st) (by rw [hcode]; exact code) (hlk.trans link) guard
      (hl.trans h)
  | woken off st code link w h =>
    exact .woken (hoff off) (hst.trans st) (by rw [hcode]; exact code) (hlk.trans link) (hw w)
      (hl.trans h)
  | dead off st code link h =>
    refine .dead ?_ (hst.trans st) (by rw [hcode]; exact code) (by rw [hlk]; exact link)
      (hl.trans h)
    rcases off with off | ⟨k, cur, mode⟩
    · exact .inl (hoff off)
    · exact .inr ⟨k, (hon k).2 cur, (hmode k cur).trans mode⟩
  | razed off st code link h =>
    exact .razed (hoff off) (hst.trans st) (by rw [hcode]; exact code) (hlk.trans link) (hl.trans h)

/-- The life of a `ut_pmut` changes only where its slot is set up or destroyed. -/
theorem effect_status (he : Effect l t s i s₁ new) (hc : ∀ prio, i ≠ createInit .pmut v prio)
    (hd : i ≠ destroy .pmut v) :
    (s₁.pmtx (.utPmut v)).status = (s.pmtx (.utPmut v)).status := by
  cases hw : i.writesPmtx with
  | false => rw [effect_pmtx he hw]
  | true =>
    cases he with
    | lock p | unlock p => by_cases hp : PmtxId.utPmut v = p <;> simp [hp]
    | create w tid prio =>
      have hne : ¬ (w = .pmut ∧ v = tid) := by rintro ⟨rfl, rfl⟩; exact hc prio rfl
      simp [hne]
    | destroy d w =>
      have hne : ¬ (d = .pmut ∧ v = w) := by rintro ⟨rfl, rfl⟩; exact hd rfl
      simp [hne]
    | plain hp => cases hp <;> cases hw
    | take _ _ _ hnew => rcases hnew with ⟨rfl, -⟩ | ⟨rfl, -⟩ <;> cases hw
    | signal _ _ _ _ hnew => rcases hnew with ⟨rfl, -⟩ | ⟨rfl, -⟩ <;> cases hw
    | _ => cases hw

/-- A waker of another thread stays one. -/
theorem woken_frame (hc : Core s) (hcode : (s.uthreads t).utCtx = i :: cs)
    (he : Effect l t s i s₁ new) (hi : i ≠ wakeTest v) (h : Woken s v) :
    Woken (s₁.setCtx t (new ++ cs)) v := by
  obtain ⟨u, hu⟩ := h
  refine ⟨u, ?_⟩
  by_cases hut : u = t
  · subst hut
    rw [hcode, wakes_cons, List.mem_append] at hu
    rcases hu with hu | hu
    · refine absurd ?_ hi
      cases i <;> simp at hu
      rw [hu]
    · simp [hu]
  · rcases other_code cs he hut with e | ⟨-, hv, -⟩
    · rw [e]; exact hu
    · rcases (hc.free hv.1).2.2.2 with hg | hg
      · rw [hg.wakes_eq] at hu
        cases hu
      · simp [hg, threadStartCode] at hu

/-- A thread that an instruction of another thread does not touch. -/
theorem place_frame (hc : Core s) (hcode : (s.uthreads t).utCtx = i :: cs)
    (he : Effect l t s i s₁ new) (hsw : ∀ q sv m, i ≠ swtch q sv m) (hv : v ≠ t)
    (hst : (s₁.uthreads v).utState = (s.uthreads v).utState)
    (hlk : (s₁.uthreads v).utLink = (s.uthreads v).utLink)
    (hcr : ∀ prio, i ≠ createInit .ctx v prio ∧ i ≠ createInit .pmut v prio)
    (hd : i ≠ destroy .pmut v) (hw : i ≠ wakeTest v) : Place (s₁.setCtx t (new ++ cs)) v := by
  have hs := effect_status he (fun prio => (hcr prio).2) hd
  refine (hc.places.place v).frame (by simpa [hv] using hst) (by simpa [hv] using hlk) ?_
    hs (fun k => ?_) (fun k _ => ?_) (woken_frame hc hcode he hw)
  · rcases other_code cs he hv with e | ⟨⟨prio, e⟩, -⟩
    · exact e
    · exact absurd e (hcr prio).1
  · rw [State.setCtx_lwps, (effect_lwps he hsw k).2.1]
  · exact (effect_lwps he hsw k).1

/-- Where the thread of an instruction is after it, unless it switches. -/
theorem place_self (hc : Core s) (hon : OnStack s l t) (hcode : (s.uthreads t).utCtx = i :: cs)
    (he : Effect l t s i s₁ new) (hsw : ∀ q sv m, i ≠ swtch q sv m)
    (hst : (s₁.uthreads t).utState = expect (new ++ cs))
    (hlk : panicDead ∉ new ++ cs → (s₁.uthreads t).utLink = linkOf (new ++ cs))
    (hdy : panicDead ∈ new ++ cs →
      (s₁.uthreads t).utLink = none ∨ (s₁.uthreads t).utLink = some .reapQueue) :
    Place (s₁.setCtx t (new ++ cs)) t := by
  obtain ⟨hmode, hcur, -⟩ := effect_lwps he hsw l
  refine .active l (by simpa [hcur] using hon.2) (.inl (by simpa [hmode] using hon.1))
    (by simpa using hst) (by simpa using hlk) (by simpa using hdy) ?_
  have hlive := (hc.active hon).2.2.2
  have hcr : ∀ prio, i ≠ createInit .pmut t prio := by
    rintro prio rfl; exact hon.not_off (hc.creating hcode he).1
  have hd : i ≠ destroy .pmut t := by
    rintro rfl
    exact (hc.slots.destroy t .pmut t (by rw [hcode]; simp)).off (by decide) (by decide) l hon
  exact (effect_status he hcr hd).trans hlive

/-- The thread of an instruction that leaves its state and its link alone. -/
theorem place_same (hc : Core s) (hon : OnStack s l t) (hcode : (s.uthreads t).utCtx = i :: cs)
    (he : Effect l t s i s₁ new) (hsw : ∀ q sv m, i ≠ swtch q sv m)
    (hst : (s₁.uthreads t).utState = (s.uthreads t).utState)
    (hlk : (s₁.uthreads t).utLink = (s.uthreads t).utLink) :
    Place (s₁.setCtx t (new ++ cs)) t := by
  have hwf := hc.codes.wf t
  obtain ⟨hexp, hlink, hdy, -⟩ := hc.active hon
  rw [hcode] at hwf hexp hlink hdy
  have hg := effect_goes hwf hexp he hst hsw
  refine place_self hc hon hcode he hsw ?_ ?_ ?_
  · rw [hst, hexp, hg.expect]
  · intro h
    rw [hg.dying] at h
    rw [hlk, hlink h, hg.link h]
  · intro h
    rw [hg.dying] at h
    rw [hlk]
    exact hdy h

/-- The instruction leaves thread `v` alone. -/
structure Untouched (s s₁ : State N L) (i : Instr N) (v : Fin N) : Prop where
  st : (s₁.uthreads v).utState = (s.uthreads v).utState
  link : (s₁.uthreads v).utLink = (s.uthreads v).utLink
  create : ∀ prio, i ≠ createInit .ctx v prio ∧ i ≠ createInit .pmut v prio
  destroy : i ≠ destroy .pmut v
  wake : i ≠ wakeTest v

/-- The places after an instruction: that of its own thread, and of those that it touches. -/
theorem place_cases (hc : Core s) (hcode : (s.uthreads t).utCtx = i :: cs)
    (he : Effect l t s i s₁ new) (hsw : ∀ q sv m, i ≠ swtch q sv m)
    (hself : Place (s₁.setCtx t (new ++ cs)) t)
    (hother : ∀ v, v ≠ t → Place (s₁.setCtx t (new ++ cs)) v ∨ Untouched s s₁ i v) (v : Fin N) :
    Place (s₁.setCtx t (new ++ cs)) v := by
  by_cases hv : v = t
  · rw [hv]; exact hself
  · rcases hother v hv with h | ⟨hst, hlk, hcr, hd, hw⟩
    · exact h
    · exact place_frame hc hcode he hsw hv hst hlk hcr hd hw

theorem off_frame (he : Effect l t s i s₁ new) (hsw : ∀ q sv m, i ≠ swtch q sv m) (h : Off s u) :
    Off (s₁.setCtx t (new ++ cs)) u := by
  intro k
  rw [State.setCtx_lwps, (effect_lwps he hsw k).2.1]
  exact h k

/-- The links after a write of `uthread_create`. -/
theorem Core.create_link {w : CreateStep} {prio : ℤ} (hc : Core s)
    (hcode : (s.uthreads t).utCtx = createInit w u prio :: cs)
    (he : Effect l t s (createInit w u prio) s₁ new) (v : Fin N) :
    (s₁.uthreads v).utLink = (s.uthreads v).utLink := by
  have hlk := (hc.creating hcode he).2.2.1
  obtain ⟨rfl, -⟩ := effect_create he
  by_cases hvu : v = u
  · subst hvu
    cases w <;> simp only [createWrite] <;> first | split_ifs <;> simp | simp [hlk]
  · rw [createWrite_of_ne s w hvu]

/-- The head of a code that wakes. -/
theorem Core.wake_head (hc : Core s) (hcode : (s.uthreads t).utCtx = wakeTest u :: cs) :
    Off s u ∧ (s.uthreads u).utState = .wait ∧ (s.uthreads u).utLink = none :=
  hc.places.woken u ⟨t, by rw [hcode]; simp⟩

/-- The links after an operation on the queue of another thread. -/
theorem enqueue_link {q : QueueId N} (h : utqueueEnqueue q u s = .ok s') (v : Fin N) :
    (s.uthreads u).utLink = none ∧
      (s'.uthreads v).utLink = if v = u then some q else (s.uthreads v).utLink := by
  obtain ⟨hl, rfl⟩ := utqueueEnqueue_ok h
  by_cases hv : v = u
  · subst hv; simp [hl]
  · simp [hv, hl]

theorem dequeue_link {q : QueueId N} (h : utqueueDequeue q s = some (u, s')) (v : Fin N) :
    (s'.uthreads v).utLink = if v = u then none else (s.uthreads v).utLink := by
  obtain ⟨x, -, rfl⟩ := utqueueDequeue_some h
  by_cases hv : v = u
  · subst hv; simp
  · simp [hv]

theorem runqEnqueue_link (h : uthreadRunqEnqueue u s = .ok s') (hv : v ≠ u) :
    (s'.uthreads v).utLink = (s.uthreads v).utLink := by
  obtain ⟨p, -, -, hu, -⟩ := runqEnqueue_ok h
  simp [hu, hv]

theorem requeue_link {oldprio : ℤ} (h : uthreadRunqRequeue u oldprio s = .ok s') (hv : v ≠ u) :
    (s'.uthreads v).utLink = (s.uthreads v).utLink := by
  obtain ⟨p, p', -, -, hm, rfl⟩ := runqRequeue_ok h
  simp [hv]

/-- A thread that is about to be woken goes on when it is dispatched. -/
theorem Core.woken_ready (hc : Core s) (h : Woken s u) :
    Ready (s.uthreads u).utCtx ∧ (s.pmtx (.utPmut u)).status = .live := by
  obtain ⟨hoff, hst, hlk⟩ := hc.places.woken u h
  cases hc.places.place u with
  | free _ st | created _ st => simp [Unstarted, hst] at st
  | queued _ st | dead _ st | razed _ st => rw [hst] at st; cases st
  | active k cur | leaving k _ _ cur => exact absurd cur (hoff k)
  | waiting q _ _ _ link => rw [hlk] at link; cases link
  | woken _ _ code _ _ hl => exact ⟨code, hl⟩

/-- A thread that is about to be started has been set up. -/
theorem Core.start_ready {prio : ℤ} (hc : Core s)
    (hcode : (s.uthreads t).utCtx = startTest u prio :: cs) :
    Off s u ∧ (s.uthreads u).utCtx = threadStartCode ∧ (s.pmtx (.utPmut u)).status = .live := by
  obtain ⟨hst, hctx⟩ := hc.slots.start t u (by rw [hcode]; simp)
  have hset := hc.slots.setUp t (startTest u prio) (by rw [hcode]; exact List.mem_cons_self)
  exact ⟨(hc.unstarted hst).1, hctx, hset.1⟩

theorem ready_threadStart : Ready (threadStartCode : Code N) := by
  simp [Ready, threadStartCode, asleep]

/-- A thread off its LWP becomes runnable. -/
theorem place_runnable {s₀ : State N L} (hut : u ≠ t) (he : Effect l t s i s₁ new)
    (hsw : ∀ q sv m, i ≠ swtch q sv m) (hcr : ∀ prio, i ≠ createInit .pmut u prio)
    (hd : i ≠ destroy .pmut u) (hoff : Off s u) (hst : (s₀.uthreads u).utState = .runnable)
    (hctx : (s₀.uthreads u).utCtx = (s.uthreads u).utCtx) (hready : Ready (s.uthreads u).utCtx)
    (hl : (s.pmtx (.utPmut u)).status = .live) (hs : uthreadRunqEnqueue u s₀ = .ok s₁) :
    Place (s₁.setCtx t (new ++ cs)) u := by
  obtain ⟨hctx', hst', -⟩ := runqEnqueue_thread hs u
  refine .queued (off_frame he hsw hoff) (by simp [hut, hst', hst])
    (by simpa [hut, hctx', hctx] using hready) ((effect_status he hcr hd).trans hl)

/-- The other threads of an operation on the run queue. -/
theorem untouched_runq {s₀ : State N L} (hvu : v ≠ u) (h₀ : s₀.uthreads v = s.uthreads v)
    (hs : uthreadRunqEnqueue u s₀ = .ok s₁) :
    (s₁.uthreads v).utState = (s.uthreads v).utState ∧
      (s₁.uthreads v).utLink = (s.uthreads v).utLink := by
  rw [(runqEnqueue_thread hs v).2.1, runqEnqueue_link hs hvu, h₀]
  exact ⟨rfl, rfl⟩

/-- A waiter that has been taken off its queue. -/
theorem place_dequeued {q : QueueId N} {p : PmtxId N} (hc : Core s) (hon : OnStack s l t)
    (hcode : (s.uthreads t).utCtx = i :: cs) (he : Effect l t s i s₁ new)
    (hsw : ∀ q sv m, i ≠ swtch q sv m)
    (hcr : ∀ prio, i ≠ createInit .ctx u prio ∧ i ≠ createInit .pmut u prio)
    (hd : i ≠ destroy .pmut u) (hq : q.guard = some p) (hlk : (s.uthreads u).utLink = some q) (hp : p ∈ i.needs)
    (hi : linkOf (i :: cs) = none) (hst : (s₁.uthreads u).utState = (s.uthreads u).utState)
    (hlk' : (s₁.uthreads u).utLink = none) (hw : u ∈ wakes new) :
    u ≠ t ∧ Place (s₁.setCtx t (new ++ cs)) u := by
  obtain ⟨hoff, hwait, hready, hl⟩ := hc.waiting (t := t) hq hlk (by rw [hcode]; exact .inl hp)
    (by rw [hcode]; exact hi)
  have hut : u ≠ t := by rintro rfl; exact hon.not_off hoff
  refine ⟨hut, .woken (off_frame he hsw hoff) (by simpa [hut, hst] using hwait) ?_
    (by simpa [hut] using hlk') ⟨t, by simp [hw]⟩ ((effect_status he (fun prio => (hcr prio).2) hd).trans hl)⟩
  have hctx : (s₁.uthreads u).utCtx = (s.uthreads u).utCtx := by
    rcases (effect_code he u).1 with h | ⟨⟨prio, h⟩, -⟩
    · exact h
    · exact absurd h (hcr prio).1
  simpa [hut, hctx] using hready

/-- The link of a thread that has ended, or is about to. -/
theorem place_zombie (hc : Core s) (hut : u ≠ t) (he : Effect l t s i s₁ new)
    (hsw : ∀ q sv m, i ≠ swtch q sv m)
    (hcr : ∀ prio, i ≠ createInit .ctx u prio ∧ i ≠ createInit .pmut u prio)
    (hd : i ≠ destroy .pmut u) (hl₀ : (s.pmtx (.utPmut u)).status ≠ .destroyed)
    (hz : (s.uthreads u).utState = .zombie)
    (hst : (s₁.uthreads u).utState = (s.uthreads u).utState)
    (hlk : (s₁.uthreads u).utLink = none ∨ (s₁.uthreads u).utLink = some .reapQueue) :
    Place (s₁.setCtx t (new ++ cs)) u := by
  have hl' := effect_status he (fun prio => (hcr prio).2) hd
  have hctx : (s₁.uthreads u).utCtx = (s.uthreads u).utCtx := by
    rcases (effect_code he u).1 with h | ⟨⟨prio, h⟩, -⟩
    · exact h
    · exact absurd h (hcr prio).1
  cases hc.places.place u with
  | free _ st | created _ st => simp [Unstarted, hz] at st
  | queued _ st | leaving _ _ _ _ _ st | waiting _ _ st | woken _ st => rw [hz] at st; cases st
  | razed _ _ _ _ hl => exact absurd hl hl₀
  | active k cur mode st link dying hl =>
    obtain ⟨hmode, hcur, -⟩ := effect_lwps he hsw k
    have hdead : panicDead ∈ (s.uthreads u).utCtx := by
      by_contra hn
      rw [hz] at st
      simp only [expect, hn, if_false] at st
      split at st <;> cases st
    refine .active k (by simpa [hcur] using cur) ?_ ?_ ?_ ?_ (hl'.trans hl)
    · simpa [hut, hctx, hmode] using mode
    · simpa [hut, hctx, hst] using st
    · intro hn
      exact absurd (by simpa [hut, hctx] using hdead) hn
    · intro _
      simpa [hut] using hlk
  | dead off st code link hl =>
    refine .dead ?_ (by simpa [hut, hst] using st) (by simpa [hut, hctx] using code)
      (by simpa [hut] using hlk) (hl'.trans hl)
    rcases off with off | ⟨k, cur, mode⟩
    · exact .inl (off_frame he hsw off)
    · obtain ⟨hmode, hcur, -⟩ := effect_lwps he hsw k
      exact .inr ⟨k, by simpa [hcur] using cur, by simpa [hmode] using mode⟩

/-- An instruction that leaves all threads alone. -/
theorem place_keep (hc : Core s) (hon : OnStack s l t) (hcode : (s.uthreads t).utCtx = i :: cs)
    (he : Effect l t s i s₁ new) (hsw : ∀ q sv m, i ≠ swtch q sv m)
    (hu : ∀ v, Untouched s s₁ i v) (v : Fin N) : Place (s₁.setCtx t (new ++ cs)) v :=
  place_cases hc hcode he hsw (place_same hc hon hcode he hsw (hu t).st (hu t).link)
    (fun v _ => .inr (hu v)) v

/-- An instruction that changes its own thread only. -/
theorem place_own (hc : Core s) (hon : OnStack s l t) (hcode : (s.uthreads t).utCtx = i :: cs)
    (he : Effect l t s i s₁ new) (hsw : ∀ q sv m, i ≠ swtch q sv m)
    (hothers : ∀ v, v ≠ t → Untouched s s₁ i v) (hst : (s₁.uthreads t).utState = expect (new ++ cs))
    (hlk : panicDead ∉ new ++ cs → (s₁.uthreads t).utLink = linkOf (new ++ cs))
    (hdy : panicDead ∈ new ++ cs →
      (s₁.uthreads t).utLink = none ∨ (s₁.uthreads t).utLink = some .reapQueue) (v : Fin N) :
    Place (s₁.setCtx t (new ++ cs)) v :=
  place_cases hc hcode he hsw (place_self hc hon hcode he hsw hst hlk hdy)
    (fun v hv => .inr (hothers v hv)) v

/-- An instruction that changes one other thread. -/
theorem place_other (hc : Core s) (hon : OnStack s l t) (hcode : (s.uthreads t).utCtx = i :: cs)
    (he : Effect l t s i s₁ new) (hsw : ∀ q sv m, i ≠ swtch q sv m) (hut : u ≠ t)
    (hothers : ∀ v, v ≠ u → Untouched s s₁ i v)
    (hu : Place (s₁.setCtx t (new ++ cs)) u ∨ Untouched s s₁ i u) (v : Fin N) :
    Place (s₁.setCtx t (new ++ cs)) v := by
  have ht := hothers t hut.symm
  refine place_cases hc hcode he hsw (place_same hc hon hcode he hsw ht.st ht.link) (fun v _ => ?_) v
  by_cases hvu : v = u
  · rw [hvu]; exact hu
  · exact .inr (hothers v hvu)

/-! ## The instructions that move a thread -/

/-- `uthread_setprio` moves a runnable thread to another level. -/
theorem place_setprio {prio : ℤ} (hc : Core s) (hon : OnStack s l t)
    (hcode : (s.uthreads t).utCtx = setprioTest u prio :: cs)
    (he : Effect l t s (setprioTest u prio) s₁ new)
    (hs : s₁ = (s.modUthread u fun x => { x with utPrio := prio }) ∧
        (s.uthreads u).utState ≠ .runnable ∨
      (s.uthreads u).utState = .runnable ∧ uthreadRunqRequeue u (s.uthreads u).utPrio
        (s.modUthread u fun x => { x with utPrio := prio }) = .ok s₁) (v : Fin N) :
    Place (s₁.setCtx t (new ++ cs)) v := by
  have hsw : ∀ q sv m, setprioTest u prio ≠ swtch q sv m := by simp
  have hst : ∀ v, (s₁.uthreads v).utState = (s.uthreads v).utState := by
    intro v
    rcases hs with ⟨rfl, -⟩ | ⟨-, hr⟩
    · simp
    · simpa using (requeue_thread hr v).2.1
  have hunt : ∀ v, v ≠ u ∨ (s.uthreads u).utState ≠ .runnable →
      Untouched s s₁ (setprioTest u prio) v := by
    intro v hv
    refine ⟨hst v, ?_, by simp, by simp, by simp⟩
    rcases hs with ⟨rfl, -⟩ | ⟨hu, hr⟩
    · simp
    · have hvu : v ≠ u := hv.resolve_right fun h => h hu
      simpa [hvu] using requeue_link hr hvu
  by_cases hrun : (s.uthreads u).utState = .runnable
  · have hut : u ≠ t := by
      rintro rfl
      exact expect_ne_runnable _ ((hc.active hon).1.symm.trans hrun)
    have hctx : (s₁.uthreads u).utCtx = (s.uthreads u).utCtx := by
      rcases (effect_code he u).1 with h | ⟨⟨_, h⟩, -⟩
      · exact h
      · cases h
    refine place_other hc hon hcode he hsw hut (fun v hv => hunt v (.inl hv)) (.inl ?_) v
    cases hc.places.place u with
    | queued off _ code hl =>
      exact .queued (off_frame he hsw off) (by simpa [hut] using (hst u).trans hrun)
        (by simpa [hut, hctx] using code) ((effect_status he (by simp) (by simp)).trans hl)
    | free _ st | created _ st => simp [Unstarted, hrun] at st
    | leaving _ _ _ _ _ st | waiting _ _ st | woken _ st | dead _ st | razed _ st =>
      rw [hrun] at st; cases st
    | active _ _ _ st => exact absurd (st.symm.trans hrun) (expect_ne_runnable _)
  · exact place_keep hc hon hcode he hsw (fun v => hunt v (.inr hrun)) v

/-- `uthread_alloc` takes a free slot. -/
theorem place_alloc {start : ℕ} {prio : ℤ} (hc : Core s) (hon : OnStack s l t)
    (hcode : (s.uthreads t).utCtx = allocScan start prio :: cs)
    (he : Effect l t s (allocScan start prio) s₁ new)
    (hj : allocWhile (fun i => (s.uthreads i).utState) start = some u)
    (hs : SameCore (s.setState u .transition) s₁) (v : Fin N) :
    Place (s₁.setCtx t (new ++ cs)) v := by
  have hsw : ∀ q sv m, (allocScan start prio : Instr N) ≠ swtch q sv m := by simp
  have hno := allocWhile_noState hj
  have hut : u ≠ t := by
    rintro rfl
    have hwf := hc.codes.wf u
    have hexp := (hc.active hon).1
    rw [hcode] at hwf hexp
    have hcs : cs = [] := hwf.1
    subst hcs
    rw [hno] at hexp
    simp [expect, asleep] at hexp
  refine place_other hc hon hcode he hsw hut (fun v hv =>
    ⟨by simp [hs.uthreads, hv], by simp [hs.uthreads], by simp, by simp, by simp⟩) (.inl ?_) v
  have hl' := effect_status he (v := u) (by simp) (by simp)
  cases hc.places.place u with
  | free off st link code hl =>
    exact .free (off_frame he hsw off) (by simp [Unstarted, hut, hs.uthreads])
      (by simpa [hut, hs.uthreads] using link) (by simpa [hut, hs.uthreads] using code)
      (by rw [State.setCtx_pmtx, hl']; exact hl)
  | created off st link code hl =>
    exact .created (off_frame he hsw off) (by simp [Unstarted, hut, hs.uthreads])
      (by simpa [hut, hs.uthreads] using link) (by simpa [hut, hs.uthreads] using code)
      (hl'.trans hl)
  | queued _ st | leaving _ _ _ _ _ st | waiting _ _ st | woken _ st | dead _ st | razed _ st =>
    rw [hno] at st; cases st
  | active _ _ _ st =>
    -- a thread on an LWP is `UT_ON_CPU`, `UT_WAIT` or `UT_ZOMBIE`
    rw [hno] at st
    unfold expect at st
    split at st
    · cases st
    · split at st <;> cases st

/-- `uthread_create` sets its slot up: only the writes of the context and of `ut_pmut` move it. -/
theorem place_create {w : CreateStep} {prio : ℤ} (hc : Core s) (hon : OnStack s l t)
    (hcode : (s.uthreads t).utCtx = createInit w u prio :: cs)
    (he : Effect l t s (createInit w u prio) s₁ new) (v : Fin N) :
    Place (s₁.setCtx t (new ++ cs)) v := by
  have hsw : ∀ q sv m, createInit w u prio ≠ swtch q sv m := by simp
  obtain ⟨hoff, hst, hlk, hl⟩ := hc.creating hcode he
  have hlink := hc.create_link hcode he
  have hut : u ≠ t := by rintro rfl; exact hon.not_off hoff
  obtain ⟨rfl, -⟩ := effect_create he
  refine place_other hc hon hcode he hsw hut (fun v hv =>
    ⟨by simp, hlink v, by simp [Ne.symm hv], by simp, by simp⟩) ?_ v
  by_cases hw : w = .ctx ∨ w = .pmut
  · left
    rcases hw with rfl | rfl
    · have hno : ¬ ∃ k, OnStack s k u := by
        rintro ⟨k, hk⟩
        exact hk.not_off hoff
      exact .free (off_frame he hsw hoff) (by simpa [Unstarted] using hst)
        (by simpa [hut, hlink u] using hlk) (.inr (by simp [createWrite, hut, if_neg hno]))
        (by simpa using hl (by decide))
    · have hctx := (hc.slots.start t u (by rw [hcode]; simp)).2
      exact .created (off_frame he hsw hoff) (by simpa [Unstarted] using hst)
        (by simpa [hut, hlink u] using hlk) (by simpa [createWrite, hut] using hctx) (by simp)
  · rw [not_or] at hw
    exact .inr ⟨by simp, hlink u, by simp [hw.1, hw.2], by simp, by simp⟩

/-- The end of a thread that is joined wakes its joiner. -/
theorem place_joined {w : Fin N} {status : ℤ} (hc : Core s) (hon : OnStack s l u)
    (hcode : (s.uthreads u).utCtx = [exitTest u status])
    (he : Effect l u s (exitTest u status) s₁ (uthreadWake w ++ uthreadMtxUnlock .reapMtx ++ deadCode u))
    (hq : utqueueDequeue (.utWaiter u)
      (s.modUthread u fun x => { x with utState := .zombie, utExit := status }) = some (w, s₁))
    (v : Fin N) :
    Place (s₁.setCtx u (uthreadWake w ++ uthreadMtxUnlock .reapMtx ++ deadCode u ++ [])) v := by
  have hsw : ∀ q sv m, exitTest u status ≠ swtch q sv m := by simp
  have hlk := (hc.active hon).2.1 (by rw [hcode]; simp)
  rw [hcode] at hlk
  have hst : ∀ v, (s₁.uthreads v).utState =
      if v = u then .zombie else (s.uthreads v).utState := fun v => by
    rw [(dequeue_thread hq v).2.1]; simp
  have hlk' : ∀ v, (s₁.uthreads v).utLink = if v = w then none else (s.uthreads v).utLink :=
    fun v => by rw [dequeue_link hq v]; simp
  have hw : (s.uthreads w).utLink = some (.utWaiter u) := by
    obtain ⟨x, hx, -⟩ := utqueueDequeue_some hq
    rw [hc.links.link]
    simp only [State.modUthread_queues] at hx
    rw [hx]; exact List.mem_cons_self
  have hwu : w ≠ u := by rintro rfl; rw [hlk] at hw; simp [linkOf] at hw
  obtain ⟨-, hwp⟩ := place_dequeued hc hon hcode he hsw (u := w) (by simp) (by simp)
    (q := .utWaiter u) rfl hw (by simp) rfl (by simp [hst, hwu]) (by simp [hlk'])
    (by simp [uthreadWake])
  refine place_cases hc hcode he hsw (place_self hc hon hcode he hsw ?_ ?_ ?_) (fun v hv => ?_) v
  · simp [hst, expect, deadCode]
  · simp [deadCode]
  · intro _
    exact .inl (by simpa [hlk', hwu.symm, linkOf] using hlk)
  · by_cases hvw : v = w
    · rw [hvw]; exact .inl hwp
    · exact .inr ⟨by simp [hst, hv], by simp [hlk', hvw], by simp, by simp, by simp⟩

/-- `make_reapable` links a zombie, which may be the thread itself. -/
theorem place_reapable {s₂ : State N L} (hc : Core s) (hon : OnStack s l t)
    (hcode : (s.uthreads t).utCtx = makeReapable u :: cs) (he : Effect l t s (makeReapable u) s₁ new)
    (hz : (s.uthreads u).utState = .zombie) (hs₂ : utqueueEnqueue .reapQueue u s = .ok s₂)
    (hs : SameCore s₂ s₁) (v : Fin N) : Place (s₁.setCtx t (new ++ cs)) v := by
  have hsw : ∀ q sv m, makeReapable u ≠ swtch q sv m := by simp
  have hst : ∀ v, (s₁.uthreads v).utState = (s.uthreads v).utState := fun v => by
    rw [hs.uthreads, (enqueue_thread hs₂ v).2.1]
  have hlk : ∀ v, (s₁.uthreads v).utLink =
      if v = u then some .reapQueue else (s.uthreads v).utLink := fun v => by
    rw [hs.uthreads, (enqueue_link hs₂ v).2]
  have hunt : ∀ v, v ≠ u → Untouched s s₁ (makeReapable u) v := fun v hv =>
    ⟨hst v, by simp [hlk, hv], by simp, by simp, by simp⟩
  by_cases hut : u = t
  · subst hut
    have hwf := hc.codes.wf u
    have hexp := (hc.active hon).1
    rw [hcode] at hwf hexp
    have hg := effect_goes hwf hexp he (hst u) hsw
    refine place_own hc hon hcode he hsw hunt ?_ ?_ (fun _ => .inr (by simp [hlk])) v
    · rw [hst, hexp, hg.expect]
    · -- a zombie has the code of a dead thread
      intro h
      rw [hg.dying] at h
      rw [hexp] at hz
      simp only [expect, h, if_false] at hz
      split at hz <;> cases hz
  · have hlive := (hc.locks.taken (.utPmut u) (.inl t) (by simp [HeldBy, hcode])).2
    exact place_other hc hon hcode he hsw hut hunt (.inl (place_zombie hc hut he hsw (by simp) (by simp)
      hlive hz (hst u) (.inr (by simp [hlk])))) v

/-- `uthread_destroy` razes a dead thread, and at its end the slot is free. -/
theorem place_destroy {d : DestroyStep} (hc : Core s) (hon : OnStack s l t)
    (hcode : (s.uthreads t).utCtx = destroy d u :: cs) (he : Effect l t s (destroy d u) s₁ new)
    (v : Fin N) : Place (s₁.setCtx t (new ++ cs)) v := by
  have hsw : ∀ q sv m, destroy d u ≠ swtch q sv m := by simp
  obtain ⟨hz, hlk, hoff, hl⟩ := hc.slots.destroy t d u (by rw [hcode]; simp)
  have hut : u ≠ t := by
    rintro rfl
    have hwf := hc.codes.wf u
    have hexp := (hc.active hon).1
    rw [hcode] at hwf hexp
    have hcs : cs = [reaperDrain] := hwf.1
    rw [hexp, hcs] at hz
    simp [expect, asleep] at hz
  obtain ⟨rfl, -, -, ho⟩ := effect_destroy he
  refine place_other hc hon hcode he hsw hut (fun v hv =>
    ⟨by simp [hv], by simp, by simp, by simp [Ne.symm hv], by simp⟩) ?_ v
  by_cases hd : d = .pmut ∨ d = .state
  · left
    rcases hd with rfl | rfl
    · cases hc.places.place u with
      | free _ st | created _ st => simp [Unstarted, hz] at st
      | queued _ st | leaving _ _ _ _ _ st | waiting _ _ st | woken _ st => rw [hz] at st; cases st
      | razed _ _ _ _ h => rw [h] at hl; cases hl
      | active k cur mode st =>
        rcases mode with mode | ⟨-, hready⟩
        · exact absurd ⟨mode, cur⟩ (hoff (by decide) (by decide) k)
        · rw [hz] at st
          simp [expect, hready.1, hready.2] at st
      | dead off st code =>
        -- an LWP that is still to unlock `ut_pmut` holds it
        rcases off with off | ⟨k, -, mode⟩
        · exact .razed (off_frame he hsw off) (by simpa [hut] using hz)
            (by simpa [hut] using code) (by simpa [hut] using hlk) (by simp)
        · exact absurd (ho rfl) (hc.locks.taken _ (.inr k) (by simp [HeldBy, mode])).1
    · obtain ⟨off, -, -, code⟩ := hc.free (t := u) (by rw [hl]; decide)
      exact .free (off_frame he hsw off) (.inl (by simp [hut]))
        (by simpa [hut] using hlk) (by simpa [hut] using code) (by simp [hl])
  · rw [not_or] at hd
    exact .inr ⟨by simp [hd.2], by simp, by simp, by simp [hd.1], by simp⟩

/-- **An instruction other than a switch.** -/
theorem place_thread (hc : Core s) (hon : OnStack s l t) (hcode : (s.uthreads t).utCtx = i :: cs)
    (he : Effect l t s i s₁ new) (hsw : ∀ q sv m, i ≠ swtch q sv m) :
    ∀ v, Place (s₁.setCtx t (new ++ cs)) v := by
  have hwf := hc.codes.wf t
  obtain ⟨hexp, hlink, -⟩ := hc.active hon
  rw [hcode] at hwf hexp hlink
  have he' := he
  cases he with
  | plain hp hs =>
    refine place_keep hc hon hcode he' hsw fun v => ⟨by rw [hs.uthreads], by rw [hs.uthreads], ?_, ?_, ?_⟩
    · intro prio
      constructor <;> rintro rfl <;> cases hp
    · rintro rfl; cases hp
    · rintro rfl
      cases hp with
      | wakeDrop _ h => exact h (hc.wake_head hcode).2.1
  | swtch => exact absurd rfl (hsw _ _ _)
  | lock | unlock | nopreemptOn | nopreemptOff | interruptLeave | claim =>
    exact place_keep hc hon hcode he' hsw fun v => ⟨by simp, by simp, by simp, by simp, by simp⟩
  | take m ho hs hnew =>
    refine place_keep hc hon hcode he' hsw fun v =>
      ⟨by simp [hs.uthreads], by simp [hs.uthreads], ?_, ?_, ?_⟩ <;>
      rcases hnew with ⟨rfl, -⟩ | ⟨rfl, -⟩ <;> simp
  | release m hq hs | detach _ _ _ _ _ hs =>
    exact place_keep hc hon hcode he' hsw fun v =>
      ⟨by simp [hs.uthreads], by simp [hs.uthreads], by simp, by simp, by simp⟩
  -- a thread is put on the run queue
  | wake u hw hs =>
    obtain ⟨hoff, -, -⟩ := hc.wake_head hcode
    obtain ⟨hready, hl⟩ := hc.woken_ready (u := u) ⟨t, by rw [hcode]; simp⟩
    have hut : u ≠ t := by rintro rfl; exact hon.not_off hoff
    refine place_other hc hon hcode he' hsw hut (fun v hvu => ?_) (.inl (place_runnable hut he' hsw
      (by simp) (by simp) hoff (by simp) (by simp) hready hl hs))
    obtain ⟨hst, hlk⟩ := untouched_runq (s := s) hvu (by simp [hvu]) hs
    exact ⟨hst, hlk, by simp, by simp, by simpa using Ne.symm hvu⟩
  | start u prio hw hs =>
    obtain ⟨hoff, hstart, hl⟩ := hc.start_ready hcode
    have hut : u ≠ t := by rintro rfl; exact hon.not_off hoff
    refine place_other hc hon hcode he' hsw hut (fun v hvu => ?_) (.inl (place_runnable hut he' hsw
      (by simp) (by simp) hoff (by simp) (by simp) (by rw [hstart]; exact ready_threadStart) hl hs))
    obtain ⟨hst, hlk⟩ := untouched_runq (s := s) hvu (by simp [hvu]) hs
    exact ⟨hst, hlk, by simp, by simp, by simp⟩
  | setprio u prio hs => exact place_setprio hc hon hcode he' hs
  -- the thread is about to go to sleep
  | block m ho =>
    have hlk := hlink (by simp [hwf.1.2])
    refine place_own hc hon hcode he' hsw (fun v hv =>
      ⟨by simp [hv], by simp, by simp, by simp, by simp⟩) ?_ (fun _ => ?_) ?_
    · simp [uthreadSwitch, expect, asleep, hwf.1.2]
    · simpa [uthreadSwitch, linkOf] using hlk
    · simp [uthreadSwitch, hwf.1.2]
  | waitMark c hs =>
    obtain ⟨cs', rfl⟩ := hwf.1
    have hp : panicDead ∉ cs' := by
      have hok := hwf.2.2.2.2.1
      cases hok with
      | cond _ hd => simpa using hd
    have hlk := hlink (by simp [uthreadSwitch, hp])
    refine place_own hc hon hcode he' hsw (fun v hv =>
      ⟨by simp [hs.uthreads, hv], by simp [hs.uthreads], by simp, by simp, by simp⟩) ?_ (fun _ => ?_) ?_
    · simp [hs.uthreads, uthreadSwitch, expect, asleep, hp]
    · simpa [hs.uthreads, uthreadSwitch, linkOf] using hlk
    · simp [uthreadSwitch, hp]
  | joinWait u k hq hd hz hinit hs₁ hs =>
    have hcs : cs = [] := hwf.1
    subst hcs
    refine place_own hc hon hcode he' hsw (fun v hv => ⟨?_, ?_, by simp, by simp, by simp⟩) ?_
      (fun _ => ?_) ?_
    · rw [hs.uthreads, (enqueue_thread hs₁ v).2.1]
      simp [hv]
    · rw [hs.uthreads, (enqueue_link hs₁ v).2]
      simp [hv]
    · rw [hs.uthreads, (enqueue_thread hs₁ t).2.1]
      simp [uthreadSwitch, expect, asleep]
    · rw [hs.uthreads, (enqueue_link hs₁ t).2]
      simp [uthreadSwitch, linkOf]
    · simp [uthreadSwitch]
  -- a waiter is taken off its queue
  | handOver m u hq hs =>
    obtain ⟨hut, hu⟩ := place_dequeued hc hon hcode he' hsw (by simp) (by simp) (q := .mWaiters m) rfl
      (hc.links.dequeue_link hq) (by simp) rfl (by simp [hs.uthreads, dequeue_thread hq])
      (by simp [hs.uthreads, dequeue_link hq]) (by simp [uthreadWake])
    exact place_other hc hon hcode he' hsw hut (fun v hv => ⟨by simp [hs.uthreads, dequeue_thread hq],
      by simp [hs.uthreads, dequeue_link hq, hv], by simp, by simp, by simp⟩) (.inl hu)
  | signal c u hq hs hnew =>
    have hi : i = signalTest c ∨ i = broadcastTest c := hnew.imp And.left And.left
    obtain ⟨hut, hu⟩ := place_dequeued hc hon hcode he' hsw (u := u) (p := .cPmut c)
      (by rcases hi with rfl | rfl <;> simp) (by rcases hi with rfl | rfl <;> simp)
      (q := .ucWaiters c) rfl (hc.links.dequeue_link hq) (by rcases hi with rfl | rfl <;> simp)
      (by rcases hi with rfl | rfl <;> rfl) (by simp [hs.uthreads, dequeue_thread hq])
      (by simp [hs.uthreads, dequeue_link hq])
      (by rcases hnew with ⟨-, rfl⟩ | ⟨-, rfl⟩ <;> simp [uthreadWake])
    exact place_other hc hon hcode he' hsw hut (fun v hv =>
      ⟨by simp [hs.uthreads, dequeue_thread hq], by simp [hs.uthreads, dequeue_link hq, hv],
        by rcases hi with rfl | rfl <;> simp, by rcases hi with rfl | rfl <;> simp,
        by rcases hi with rfl | rfl <;> simp⟩) (.inl hu)
  | alloc start prio j hj hs => exact place_alloc hc hon hcode he' hj hs
  | create => exact place_create hc hon hcode he'
  -- the thread ends
  | exitDetached | exitAlone =>
    obtain ⟨rfl, rfl⟩ := hwf.1
    have hlk := hlink (by simp)
    refine place_own hc hon hcode he' hsw (fun v hv =>
      ⟨by simp [hv], by simp, by simp, by simp, by simp⟩) ?_ ?_ fun _ => .inl ?_
    · simp [expect, deadCode]
    · simp [deadCode]
    · simpa [linkOf] using hlk
  | exitJoined u w status hd hq =>
    obtain ⟨rfl, rfl⟩ := hwf.1
    exact place_joined hc hon hcode he' hq
  | makeReapable u hz hs₁ hs => exact place_reapable hc hon hcode he' hz hs₁ hs
  | drain u hq hz =>
    have hcs : cs = [] := hwf.1
    subst hcs
    have hut : u ≠ t := by rintro rfl; rw [hexp] at hz; simp [expect, asleep] at hz
    refine place_other hc hon hcode he' hsw hut (fun v hv =>
      ⟨by simp [dequeue_thread hq], by simp [dequeue_link hq, hv], by simp, by simp, by simp⟩)
      (.inl (place_zombie hc hut he' hsw (by simp) (by simp) (fun hl => ?_) hz
        (by simp [dequeue_thread hq]) (.inl (by simp [dequeue_link hq]))))
    -- a thread whose `ut_pmut` is destroyed is on no queue
    have hlk := (hc.free (t := u) (by rw [hl]; decide)).2.2.1
    rw [hc.links.dequeue_link hq] at hlk
    cases hlk
  | destroy => exact place_destroy hc hon hcode he'

end Uthreads
