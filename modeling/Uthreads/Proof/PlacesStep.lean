import Uthreads.Proof.PlaceStep

/-!
# Places and wakers

`places_step`: every step keeps `Places`. The switch and the steps of `lwp_switch` move a thread
between its LWP and the queues; a thread gets a waker when it is taken off a queue of waiters, and
loses it when it is woken.
-/

namespace Uthreads

variable {N L : ℕ} {l : Fin L} {t u v : Fin N} {s s' s₁ : State N L} {i : Instr N} {cs new : Code N}

open Instr

/-! ## Wakers -/

/-- A new waker has just taken the thread off a queue of waiters. -/
theorem effect_wakes (hc : Core s) (hwf : Wf t (i :: cs)) (hexp : (s.uthreads t).utState = expect (i :: cs))
    (he : Effect l t s i s₁ new) : wakes new = [] ∨
      ∃ w q p, wakes new = [w] ∧ (s.uthreads w).utLink = some q ∧ q.guard = some p ∧ p ∈ i.needs ∧
        linkOf (i :: cs) = none ∧ (w ≠ t → (s₁.uthreads w).utState = (s.uthreads w).utState) ∧
        (s₁.uthreads w).utLink = none := by
  cases he with
  | plain hp =>
    left
    cases hp <;> simp [uthreadMtxUnlock, uthreadCondWait, uthreadMtxLock, uthreadSwitch]
  | handOver m u hq hs =>
    exact .inr ⟨u, .mWaiters m, .mPmut m, by simp [uthreadWake], hc.links.dequeue_link hq, rfl,
      by simp, rfl, by simp [hs.uthreads, dequeue_thread hq], by simp [hs.uthreads, dequeue_link hq]⟩
  | signal c u hq hs hnew =>
    right
    rcases hnew with ⟨rfl, rfl⟩ | ⟨rfl, rfl⟩ <;>
      exact ⟨u, .ucWaiters c, .cPmut c, by simp [uthreadWake], hc.links.dequeue_link hq, rfl,
        by simp, rfl, by simp [hs.uthreads, dequeue_thread hq], by simp [hs.uthreads, dequeue_link hq]⟩
  | exitJoined u w status hd hq =>
    obtain ⟨rfl, rfl⟩ := hwf.1
    have hw : (s.uthreads w).utLink = some (.utWaiter u) := by
      obtain ⟨x, hx, -⟩ := utqueueDequeue_some hq
      rw [hc.links.link]
      simp only [State.modUthread_queues] at hx
      rw [hx]; exact List.mem_cons_self
    refine .inr ⟨w, .utWaiter u, .utPmut u, ?_, hw, rfl, by simp, rfl, fun hwu => ?_, ?_⟩
    · simp [uthreadWake, uthreadMtxUnlock, deadCode, uthreadSwitch]
    · rw [(dequeue_thread hq w).2.1]; simp [hwu]
    · rw [dequeue_link hq w]; simp
  | setprio _ _ _ hnew =>
    left
    rcases hnew with rfl | rfl <;> simp [uthreadYield, uthreadSwitch]
  | take _ _ _ hnew => left; rcases hnew with ⟨-, rfl⟩ | ⟨-, rfl⟩ <;> simp
  | detach _ _ _ _ _ _ hnew =>
    left; rcases hnew with ⟨-, rfl⟩ | ⟨-, rfl⟩ <;> simp [uthreadMtxLock]
  | makeReapable u hz hs₁ hs hnew =>
    left
    subst hnew
    split <;> simp [uthreadCondSignal, uthreadMtxUnlock, uthreadSwitch]
  | _ => left; simp [uthreadSwitch, deadCode, uthreadMtxUnlock, uthreadMtxLock]

/-- A switch touches no other thread. -/
theorem switch_other {q : Option (QueueId N)} {sv : Bool} {m : Option (PmtxId N)}
    (hsw : Switched l t s q sv m s₁) (hv : v ≠ t) :
    (s₁.uthreads v).utState = (s.uthreads v).utState ∧
      (s₁.uthreads v).utLink = (s.uthreads v).utLink := by
  cases hsw with
  | yield hz hs₁ =>
    have h₀ : (s.setState t .runnable).uthreads v = s.uthreads v := by simp [hv]
    have h := untouched_runq hv h₀ hs₁
    exact h
  | queue q p hs₁ hs => simp [hs.uthreads, enqueue_thread hs₁, enqueue_link hs₁, hv]
  | leave | gone => simp

/-- A thread that is about to be woken is not touched, but by its waker. -/
theorem effect_woken (hc : Core s) (hon : OnStack s l t) (hcode : (s.uthreads t).utCtx = i :: cs)
    (he : Effect l t s i s₁ new) (hi : i ≠ wakeTest v) (hoff : Off s v)
    (hst : (s.uthreads v).utState = .wait) (hlk : (s.uthreads v).utLink = none) :
    (s₁.uthreads v).utState = .wait ∧ (s₁.uthreads v).utLink = none := by
  have hvt : v ≠ t := by rintro rfl; exact hon.not_off hoff
  have hwf := hc.codes.wf t
  rw [hcode] at hwf
  have he' := he
  cases he with
  | plain hp hs => rw [hs.uthreads]; exact ⟨hst, hlk⟩
  | lock | unlock | nopreemptOn | nopreemptOff | interruptLeave
  | block => simp [hvt, hst, hlk]
  | claim => simpa using ⟨hst, hlk⟩
  | swtch hsw =>
    obtain ⟨h₁, h₂⟩ := switch_other hsw hvt
    exact ⟨h₁.trans hst, h₂.trans hlk⟩
  | wake u hw hs =>
    have hvu : v ≠ u := by rintro rfl; exact hi rfl
    obtain ⟨h₁, h₂⟩ := untouched_runq (s := s) hvu (by simp [hvu]) hs
    exact ⟨h₁.trans hst, h₂.trans hlk⟩
  | start u prio hw hs =>
    have hvu : v ≠ u := by rintro rfl; rw [hst] at hw; cases hw
    obtain ⟨h₁, h₂⟩ := untouched_runq (s := s) hvu (by simp [hvu]) hs
    exact ⟨h₁.trans hst, h₂.trans hlk⟩
  | setprio u prio hs hnew =>
    rcases hs with ⟨rfl, -⟩ | ⟨hu, hr⟩
    · simpa using ⟨hst, hlk⟩
    · have hvu : v ≠ u := by rintro rfl; rw [hst] at hu; cases hu
      rw [(requeue_thread hr v).2.1, requeue_link hr hvu]
      simpa using ⟨hst, hlk⟩
  | take m ho hs | release m hq hs | waitMark _ hs => simp [hs.uthreads, hvt, hst, hlk]
  | detach u k hq hd hinit hs => simpa [hs.uthreads] using ⟨hst, hlk⟩
  | handOver m u hq hs => simp [hs.uthreads, dequeue_thread hq, dequeue_link hq, hst, hlk]
  | signal c u hq hs => simp [hs.uthreads, dequeue_thread hq, dequeue_link hq, hst, hlk]
  | alloc start prio j hj hs =>
    have hno := allocWhile_noState hj
    have hvj : v ≠ j := by rintro rfl; rw [hst] at hno; cases hno
    simp [hs.uthreads, hvj, hst, hlk]
  | create w u prio => exact ⟨by simpa using hst, (hc.create_link hcode he' v).trans hlk⟩
  | exitDetached u | exitAlone u =>
    obtain ⟨rfl, -⟩ := hwf.1
    simp [hvt, hst, hlk]
  | exitJoined u w status hd hq =>
    obtain ⟨rfl, -⟩ := hwf.1
    simp [dequeue_thread hq, dequeue_link hq, hvt, hst, hlk]
  | makeReapable u hz hs₁ hs =>
    have hvu : v ≠ u := by rintro rfl; rw [hst] at hz; cases hz
    simp [hs.uthreads, enqueue_thread hs₁, enqueue_link hs₁, hvu, hst, hlk]
  | joinWait u k hq hd hz hinit hs₁ hs =>
    have h₁ := (enqueue_thread hs₁ v).2.1
    have h₂ := (enqueue_link hs₁ v).2
    simp [hs.uthreads, h₁, h₂, hvt, hst, hlk]
  | drain u hq => simp [dequeue_thread hq, dequeue_link hq, hst, hlk]
  | destroy d u =>
    have hz := (hc.slots.destroy t d u (by rw [hcode]; simp)).st
    have hvu : v ≠ u := by rintro rfl; rw [hst] at hz; cases hz
    simp [hvu, hst, hlk]

/-- What the codes are about to do with `x` after an instruction: what they were about to do before,
but for the instruction itself, and what the new code adds. -/
theorem mem_code_thread {α : Type} {x : α} (f : Instr N → List α) (hf : threadStartCode.flatMap f = [])
    (hcode : (s.uthreads t).utCtx = i :: cs) (he : Effect l t s i s₁ new)
    (hu : x ∈ ((s₁.setCtx t (new ++ cs)).uthreads v).utCtx.flatMap f) :
    x ∈ (s.uthreads v).utCtx.flatMap f ∧ (v = t → x ∈ cs.flatMap f) ∨ v = t ∧ x ∈ new.flatMap f := by
  by_cases hv : v = t
  · subst hv
    have hu' : x ∈ new.flatMap f ∨ x ∈ cs.flatMap f := by simpa using hu
    rcases hu' with h | h
    · exact .inr ⟨rfl, h⟩
    · exact .inl ⟨by rw [hcode, List.flatMap_cons]; exact List.mem_append_right _ h, fun _ => h⟩
  · rcases other_code cs he hv with e | ⟨-, -, e⟩ <;> rw [e] at hu
    · exact .inl ⟨hu, fun h => absurd h hv⟩
    · rw [hf] at hu; cases hu

theorem wakes_thread (hcode : (s.uthreads t).utCtx = i :: cs)
    (he : Effect l t s i s₁ new) (hu : u ∈ wakes ((s₁.setCtx t (new ++ cs)).uthreads v).utCtx) :
    u ∈ wakes (s.uthreads v).utCtx ∧ (v = t → u ∈ wakes cs) ∨ v = t ∧ u ∈ wakes new :=
  mem_code_thread _ (by simp [threadStartCode]) hcode he hu

/-- The waker of a thread that stays woken is not the instruction. -/
theorem stays_woken (hc : Core s) (hcode : (s.uthreads t).utCtx = i :: cs)
    (hu : u ∈ wakes (s.uthreads v).utCtx) (hv : v = t → u ∈ wakes cs) : i ≠ wakeTest u := by
  rintro rfl
  have ht : u ∈ wakes (s.uthreads t).utCtx := by rw [hcode]; simp
  have hvt := hc.places.waker v t u hu ht
  have hnd := hc.places.once t
  rw [hcode, wakes_cons] at hnd
  exact List.disjoint_of_nodup_append hnd (by simp) (hv hvt)

/-- The thread that an instruction takes off a queue. -/
theorem new_woken (hc : Core s) (hon : OnStack s l t) (hcode : (s.uthreads t).utCtx = i :: cs)
    (he : Effect l t s i s₁ new) (hu : u ∈ wakes new) :
    Off s u ∧ ¬ Woken s u ∧ wakes new = [u] ∧ (s₁.uthreads u).utState = .wait ∧
      (s₁.uthreads u).utLink = none := by
  have hwf := hc.codes.wf t
  have hexp := (hc.active hon).1
  rw [hcode] at hwf hexp
  rcases effect_wakes hc hwf hexp he with h | ⟨w, q, p, hw, hq, hg, hp, hlo, hst, hlk⟩
  · rw [h] at hu; cases hu
  · rw [hw, List.mem_singleton] at hu
    subst hu
    obtain ⟨hoff, hwait, -⟩ := hc.waiting (t := t) hg hq (by rw [hcode]; exact .inl hp)
      (by rw [hcode]; exact hlo)
    have hut : u ≠ t := by rintro rfl; exact hon.not_off hoff
    refine ⟨hoff, fun h => ?_, hw, (hst hut).trans hwait, hlk⟩
    rw [(hc.places.woken u h).2.2] at hq
    cases hq

/-- The wakers after an instruction. -/
theorem waker_thread (hc : Core s) (hon : OnStack s l t) (hcode : (s.uthreads t).utCtx = i :: cs)
    (he : Effect l t s i s₁ new) {x y : Fin N}
    (hx : u ∈ wakes ((s₁.setCtx t (new ++ cs)).uthreads x).utCtx)
    (hy : u ∈ wakes ((s₁.setCtx t (new ++ cs)).uthreads y).utCtx) : x = y := by
  rcases wakes_thread hcode he hx with ⟨hx', -⟩ | ⟨hxt, hx'⟩ <;>
    rcases wakes_thread hcode he hy with ⟨hy', -⟩ | ⟨hyt, hy'⟩
  · exact hc.places.waker x y u hx' hy'
  · exact absurd ⟨x, hx'⟩ (new_woken hc hon hcode he hy').2.1
  · exact absurd ⟨y, hy'⟩ (new_woken hc hon hcode he hx').2.1
  · rw [hxt, hyt]

theorem once_thread (hc : Core s) (hon : OnStack s l t) (hcode : (s.uthreads t).utCtx = i :: cs)
    (he : Effect l t s i s₁ new) (v : Fin N) :
    (wakes ((s₁.setCtx t (new ++ cs)).uthreads v).utCtx).Nodup := by
  by_cases hv : v = t
  · subst hv
    have hnd := hc.places.once v
    rw [hcode, wakes_cons] at hnd
    have hcs := (List.nodup_append.1 hnd).2.1
    have hgoal : (wakes new ++ wakes cs).Nodup := by
      cases hw : wakes new with
      | nil => simpa using hcs
      | cons w ws =>
        obtain ⟨-, hnot, hone, -⟩ := new_woken hc hon hcode he (u := w) (by simp [hw])
        rw [hw] at hone
        rw [hone]
        refine List.nodup_cons.2 ⟨fun h => hnot ⟨v, ?_⟩, hcs⟩
        rw [hcode, wakes_cons]
        exact List.mem_append_right _ h
    simpa using hgoal
  · rcases other_code cs he hv with e | ⟨-, -, e⟩ <;> rw [e]
    · exact hc.places.once v
    · simp [threadStartCode]

/-- Where the woken threads are after an instruction. -/
theorem woken_thread (hc : Core s) (hon : OnStack s l t) (hcode : (s.uthreads t).utCtx = i :: cs)
    (he : Effect l t s i s₁ new) (h : Woken (s₁.setCtx t (new ++ cs)) u) :
    Off s u ∧ (s₁.uthreads u).utState = .wait ∧ (s₁.uthreads u).utLink = none := by
  obtain ⟨v, hv⟩ := h
  rcases wakes_thread hcode he hv with ⟨hu, hcs⟩ | ⟨rfl, hu⟩
  · obtain ⟨hoff, hst, hlk⟩ := hc.places.woken u ⟨v, hu⟩
    obtain ⟨hst', hlk'⟩ := effect_woken hc hon hcode he (stays_woken hc hcode hu hcs) hoff hst hlk
    exact ⟨hoff, hst', hlk'⟩
  · obtain ⟨hoff, -, -, hst, hlk⟩ := new_woken hc hon hcode he hu
    exact ⟨hoff, hst, hlk⟩

/-! ## The switch -/

/-- The LWPs after a switch: the thread has left `l`, or is about to. -/
theorem switch_cur {q : Option (QueueId N)} {sv : Bool} {m : Option (PmtxId N)}
    (he : Effect l t s (swtch q sv m) s₁ new) (k : Fin L) :
    (s₁.lwps k).utCurthr = if k = l then m.map fun _ => t else (s.lwps k).utCurthr := by
  obtain ⟨-, -, hl⟩ := switch_mode he
  rw [hl]
  by_cases hk : k = l
  · subst hk; cases m <;> simp
  · simp [hk]

theorem place_switch_other {q : Option (QueueId N)} {sv : Bool} {m : Option (PmtxId N)}
    (hc : Core s) (hon : OnStack s l t) (hcode : (s.uthreads t).utCtx = swtch q sv m :: cs)
    (he : Effect l t s (swtch q sv m) s₁ new) (hv : v ≠ t) :
    Place (s₁.setCtx t (new ++ cs)) v := by
  obtain ⟨-, hpm, hl⟩ := switch_mode he
  have hother := switch_other (effect_switch he).2 hv
  have hcur : ∀ k, (s₁.lwps k).utCurthr = some v ↔ (s.lwps k).utCurthr = some v := by
    intro k
    rw [switch_cur he]
    by_cases hk : k = l
    · subst hk
      have hne : ¬ t = v := fun h => hv h.symm
      cases m <;> simp [hon.2, hne]
    · simp [hk]
  refine (hc.places.place v).frame (by simpa [hv] using hother.1) (by simpa [hv] using hother.2) ?_
    (by simp [hpm]) hcur (fun k hk => ?_) (woken_frame hc hcode he (by simp))
  · rcases other_code cs he hv with e | ⟨⟨prio, e⟩, -⟩
    · exact e
    · cases e
  · have hkl : k ≠ l := by
      rintro rfl
      exact hv (Option.some.inj (hk.symm.trans hon.2))
    simp [hl, hkl]

/-- Where a thread is after its switch. -/
theorem place_switch_self {q : Option (QueueId N)} {sv : Bool} {m : Option (PmtxId N)}
    (hc : Core s) (hon : OnStack s l t) (hcode : (s.uthreads t).utCtx = swtch q sv m :: cs)
    (he : Effect l t s (swtch q sv m) s₁ new) : Place (s₁.setCtx t (new ++ cs)) t := by
  have hwf := hc.codes.wf t
  obtain ⟨hexp, hlink, hdy, hlive⟩ := hc.active hon
  rw [hcode] at hwf hexp hlink hdy
  obtain ⟨rfl, hpm, hl⟩ := switch_mode he
  have hcur := switch_cur he
  have hst : ((s₁.setCtx t ([] ++ cs)).pmtx (.utPmut t)).status = .live := by simpa [hpm] using hlive
  have hoff : m = none → Off (s₁.setCtx t ([] ++ cs)) t := by
    rintro rfl k hk
    rw [State.setCtx_lwps, hcur] at hk
    split at hk
    · cases hk
    · exact absurd (hc.places.cur k l t hk hon.2) (by assumption)
  have hmode : ∀ p, m = some p → ((s₁.setCtx t ([] ++ cs)).lwps l).utCurthr = some t ∧
      ((s₁.setCtx t ([] ++ cs)).lwps l).mode = .unlocking p := by
    rintro p rfl
    simp [hl]
  have hok : OkSwitch t q sv m cs := hwf.1
  have hsw := (effect_switch he).2
  cases hok with
  | @yield cs _ hd =>
    have hcpu : (s.uthreads t).utState = .onCpu := by simp [hexp, expect, asleep, hd]
    cases hsw with
    | yield hz hs₁ =>
      have h := (runqEnqueue_thread hs₁ t).2.1
      exact .queued (hoff rfl) (by simpa using h) (by simp [Ready, hd, asleep]) hst
    | gone _ h => simp [hcpu] at h
  | @mutex mtx cs _ hd =>
    obtain ⟨hc', hm'⟩ := hmode _ rfl
    cases hsw with
    | queue _ _ hs₁ hs =>
      refine .leaving l _ (.mWaiters mtx) hc' hm' ?_ (by simp [Ready, hd, asleep]) ?_ rfl hst
      · simp [hs.uthreads, enqueue_thread hs₁, hexp, expect, asleep, hd]
      · simp [hs.uthreads, enqueue_link hs₁]
  | @cond c cs _ hd =>
    obtain ⟨hc', hm'⟩ := hmode _ rfl
    cases hsw with
    | queue _ _ hs₁ hs =>
      refine .leaving l _ (.ucWaiters c) hc' hm' ?_ (by simp [Ready, hd, asleep]) ?_ rfl hst
      · simp [hs.uthreads, enqueue_thread hs₁, hexp, expect, asleep, hd]
      · simp [hs.uthreads, enqueue_link hs₁]
  | @join u k =>
    obtain ⟨hc', hm'⟩ := hmode _ rfl
    have hlk := hlink (by simp)
    cases hsw with
    | leave =>
      refine .leaving l _ (.utWaiter u) hc' hm' ?_ (by simp [Ready, asleep]) ?_ rfl hst
      · simp [hexp, expect, asleep]
      · simp [hlk, linkOf]
  | exit =>
    obtain ⟨hc', hm'⟩ := hmode _ rfl
    cases hsw with
    | leave =>
      refine .dead (.inr ⟨l, hc', hm'⟩) ?_ (by simp [Gone]) ?_ hst
      · simp [hexp, expect]
      · simpa using hdy (by simp)
  | reaped =>
    cases hsw with
    | gone _ h =>
      refine .dead (.inl (hoff rfl)) ?_ (by simp [Gone]) ?_ hst
      · simp [hexp, expect]
      · simpa using hdy (by simp)

/-! ## Every step -/

theorem places_thread (hc : Core s) (hon : OnStack s l t) (hcode : (s.uthreads t).utCtx = i :: cs)
    (he : Effect l t s i s₁ new) : Places (s₁.setCtx t (new ++ cs)) := by
  by_cases hi : ∃ q sv m, i = swtch q sv m
  · obtain ⟨q, sv, m, rfl⟩ := hi
    have hcur := switch_cur he
    obtain ⟨-, -, hl⟩ := switch_mode he
    have hwf := hc.codes.wf t
    rw [hcode] at hwf
    constructor
    · intro v
      by_cases hv : v = t
      · subst hv; exact place_switch_self hc hon hcode he
      · exact place_switch_other hc hon hcode he hv
    · intro k k' v hk hk'
      have hold : ∀ k, (s₁.lwps k).utCurthr = some v → (s.lwps k).utCurthr = some v := by
        intro k h
        rw [hcur] at h
        split at h
        · subst_vars
          cases m <;> simp at h
          rw [← h]; exact hon.2
        · exact h
      exact hc.places.cur k k' v (hold k hk) (hold k' hk')
    · intro k hk
      by_cases hkl : k = l
      · subst hkl
        cases m with
        | none => simp [hl] at hk
        | some p => exact .inr (.inr ⟨p, by simp [hl]⟩)
      · have := hc.places.busy k (by simpa [hl, hkl] using hk)
        simpa [hl, hkl] using this
    · intro k p hk
      by_cases hkl : k = l
      · subst hkl
        have hok : OkSwitch t q sv m cs := hwf.1
        cases hok <;> simp [hl] at hk <;> subst hk <;> simp
      · exact hc.places.unlocking k p (by simpa [hl, hkl] using hk)
    · intro u hu
      obtain ⟨hoff, hst, hlk⟩ := woken_thread hc hon hcode he hu
      have hut : u ≠ t := by rintro rfl; exact hon.not_off hoff
      refine ⟨fun k hk => ?_, by simpa [hut] using hst, by simpa [hut] using hlk⟩
      rw [State.setCtx_lwps, hcur] at hk
      split at hk
      · cases m <;> simp at hk
        exact hut hk.symm
      · exact hoff k hk
    · exact fun x y u hx hy => waker_thread hc hon hcode he hx hy
    · exact once_thread hc hon hcode he
  · have hsw : ∀ q sv m, i ≠ swtch q sv m := fun q sv m e => hi ⟨q, sv, m, e⟩
    have hl := effect_lwps he hsw
    constructor
    · exact place_thread hc hon hcode he hsw
    · intro k k' v hk hk'
      rw [State.setCtx_lwps, (hl _).2.1] at hk hk'
      exact hc.places.cur k k' v hk hk'
    · intro k hk
      rw [State.setCtx_lwps, (hl _).2.1] at hk
      rw [State.setCtx_lwps, (hl _).1]
      exact hc.places.busy k hk
    · intro k p hk
      rw [State.setCtx_lwps, (hl _).1] at hk
      exact hc.places.unlocking k p hk
    · intro u hu
      obtain ⟨hoff, hst, hlk⟩ := woken_thread hc hon hcode he hu
      have hut : u ≠ t := by rintro rfl; exact hon.not_off hoff
      exact ⟨off_frame he hsw hoff, by simpa [hut] using hst, by simpa [hut] using hlk⟩
    · exact fun x y u hx hy => waker_thread hc hon hcode he hx hy
    · exact once_thread hc hon hcode he

/-- The wakers read only the codes, the states, the links and the LWPs. -/
theorem Places.lwp (h : Places s) (hplace : ∀ v, Place s' v)
    (hcode : ∀ v, wakes (s'.uthreads v).utCtx = wakes (s.uthreads v).utCtx)
    (hst : ∀ v, Woken s v → (s'.uthreads v).utState = (s.uthreads v).utState ∧
      (s'.uthreads v).utLink = (s.uthreads v).utLink ∧ (Off s v → Off s' v))
    (hcur : ∀ k k' v, (s'.lwps k).utCurthr = some v → (s'.lwps k').utCurthr = some v → k = k')
    (hbusy : ∀ k, (s'.lwps k).utCurthr ≠ none → (s'.lwps k).mode = .running ∨
      (s'.lwps k).mode = .dispatching ∨ ∃ p, (s'.lwps k).mode = .unlocking p)
    (hunl : ∀ k p, (s'.lwps k).mode = .unlocking p → p ≠ .runqMtx) : Places s' := by
  refine ⟨hplace, hcur, hbusy, hunl, fun u hu => ?_, fun x y u hx hy => ?_, fun v => ?_⟩
  · have hw : Woken s u := by
      obtain ⟨v, hv⟩ := hu
      exact ⟨v, by rwa [hcode] at hv⟩
    obtain ⟨h₁, h₂, h₃⟩ := hst u hw
    obtain ⟨hoff, hwait, hlk⟩ := h.woken u hw
    exact ⟨h₃ hoff, h₁.trans hwait, h₂.trans hlk⟩
  · rw [hcode] at hx hy
    exact h.waker x y u hx hy
  · rw [hcode]
    exact h.once v

/-- An LWP without a thread changes its mode. -/
theorem Places.idle {m : LwpMode N} (hp : Places s) (hn : (s.lwps l).utCurthr = none)
    (hm : ∀ p, m ≠ .unlocking p) (hu : s'.uthreads = s.uthreads)
    (hpm : ∀ v, (s'.pmtx (.utPmut v)).status = (s.pmtx (.utPmut v)).status)
    (hl : s'.lwps = Function.update s.lwps l { s.lwps l with mode := m }) : Places s' := by
  have hcur : ∀ k, (s'.lwps k).utCurthr = (s.lwps k).utCurthr := by
    intro k
    by_cases hk : k = l
    · subst hk; simp [hl]
    · simp [hl, hk]
  have hmode : ∀ k, k ≠ l → (s'.lwps k).mode = (s.lwps k).mode := fun k hk => by simp [hl, hk]
  refine hp.lwp (fun v => ?_) (fun v => by rw [hu]) (fun v _ => ⟨by rw [hu], by rw [hu], ?_⟩) ?_ ?_ ?_
  · refine (hp.place v).frame (by rw [hu]) (by rw [hu]) (by rw [hu]) (hpm v) (fun k => by rw [hcur])
      (fun k hk => hmode k ?_) fun ⟨x, hx⟩ => ⟨x, by rw [hu]; exact hx⟩
    rintro rfl
    rw [hn] at hk
    cases hk
  · exact fun h k hk => h k (by rwa [hcur] at hk)
  · intro k k' v hk hk'
    rw [hcur] at hk hk'
    exact hp.cur k k' v hk hk'
  · intro k hk
    rw [hcur] at hk
    have hkl : k ≠ l := by rintro rfl; exact hk hn
    rw [hmode k hkl]
    exact hp.busy k hk
  · intro k p hk
    by_cases hkl : k = l
    · subst hkl
      simp only [hl, Function.update_self] at hk
      exact absurd hk (hm p)
    · rw [hmode k hkl] at hk
      exact hp.unlocking k p hk

/-- An LWP that starts, searches or parks has no thread. -/
theorem Core.idle (hc : Core s) (h₁ : (s.lwps l).mode ≠ .running)
    (h₂ : (s.lwps l).mode ≠ .dispatching) (h₃ : ∀ p, (s.lwps l).mode ≠ .unlocking p) :
    (s.lwps l).utCurthr = none := by
  by_contra hn
  rcases hc.places.busy l hn with h | h | ⟨p, h⟩
  · exact h₁ h
  · exact h₂ h
  · exact h₃ p h

/-- `lwp_switch` has unlocked the mutex of the queue: the thread is off its LWP. -/
theorem places_unlock {p : PmtxId N} (hc : Core s) (hm : (s.lwps l).mode = .unlocking p) :
    Places ((s.setPmtx p { s.pmtx p with owner := none }).setLwp l ⟨.searching, none, true⟩) := by
  have hcur : ∀ k v, ((s.setLwp l ⟨.searching, none, true⟩).lwps k).utCurthr = some v →
      k ≠ l ∧ (s.lwps k).utCurthr = some v := by
    intro k v hk
    by_cases hkl : k = l
    · subst hkl; simp at hk
    · exact ⟨hkl, by simpa [hkl] using hk⟩
  have hstat : ∀ v, ((s.setPmtx p { s.pmtx p with owner := none }).pmtx (.utPmut v)).status =
      (s.pmtx (.utPmut v)).status := fun v => by
    by_cases h : PmtxId.utPmut v = p <;> simp [h]
  refine hc.places.lwp (fun v => ?_) (fun _ => rfl)
    (fun v _ => ⟨rfl, rfl, fun h k hk => h k (hcur k v hk).2⟩)
    (fun k k' v hk hk' => hc.places.cur k k' v (hcur k v hk).2 (hcur k' v hk').2)
    (fun k hk => ?_) (fun k q hk => ?_)
  · by_cases hv : (s.lwps l).utCurthr = some v
    · have hoff : Off (s.setLwp l ⟨.searching, none, true⟩) v := fun k hk =>
        (hcur k v hk).1 (hc.places.cur k l v (hcur k v hk).2 hv)
      cases hc.places.place v with
      | free off | created off | queued off | waiting _ off | woken off | razed off =>
        exact absurd hv (off l)
      | active k cur mode =>
        rw [hc.places.cur k l v cur hv, hm] at mode
        simp at mode
      | leaving k p' q cur mode st code link guard hl =>
        exact .waiting q hoff st code link (by rw [guard]; simp) ((hstat v).trans hl)
      | dead off st code link hl => exact .dead (.inl hoff) st code link ((hstat v).trans hl)
    · refine (hc.places.place v).frame rfl rfl rfl (hstat v) (fun k => ⟨fun h => (hcur k v h).2, ?_⟩)
        (fun k hk => ?_) id
      · intro hk
        have hkl : k ≠ l := by rintro rfl; exact hv hk
        simpa [hkl] using hk
      · have hkl : k ≠ l := by rintro rfl; exact hv hk
        simp [hkl]
  · by_cases hkl : k = l
    · subst hkl; simp at hk
    · simpa [hkl] using hc.places.busy k (by simpa [hkl] using hk)
  · by_cases hkl : k = l
    · subst hkl; simp at hk
    · exact hc.places.unlocking k q (by simpa [hkl] using hk)

/-- The dispatched thread was on the run queue. -/
theorem places_dispatch {s₁ : State N L} (hc : Core s) (hm : (s.lwps l).mode = .searching)
    (hd : dispatchBody s = some (t, s₁)) : Places (s₁.setLwp l ⟨.dispatching, some t, true⟩) := by
  have hidle : (s.lwps l).utCurthr = none := hc.idle (by simp [hm]) (by simp [hm]) (by simp [hm])
  obtain ⟨p, x, hx, -, rfl⟩ := dispatchBody_some hd
  have hmem : t ∈ (s.queues (.runq p)).tqWaiters := by rw [hx]; exact List.mem_cons_self
  have hrun := ((hc.runq.mem t p).1 hmem).1
  have hq : Off s t ∧ Ready (s.uthreads t).utCtx ∧ (s.pmtx (.utPmut t)).status = .live := by
    cases hc.places.place t with
    | queued off _ code hl => exact ⟨off, code, hl⟩
    | free _ st | created _ st => simp [Unstarted, hrun] at st
    | leaving _ _ _ _ _ st | waiting _ _ st | woken _ st | dead _ st | razed _ st =>
      rw [hrun] at st; cases st
    | active _ _ _ st => exact absurd (st.symm.trans hrun) (expect_ne_runnable _)
  obtain ⟨hoff, hready, hl⟩ := hq
  set s₂ := (({ (s.setQueue (.runq p) x).modUthread t fun u => { u with utLink := none } with
      runqSize := s.runqSize - 1 }.setState t .onCpu).setLwp l ⟨.dispatching, some t, true⟩) with hs₂
  have hcur : ∀ k, (s₂.lwps k).utCurthr = if k = l then some t else (s.lwps k).utCurthr := by
    intro k
    by_cases hk : k = l
    · subst hk; simp [hs₂]
    · simp [hs₂, hk]
  have hcode : ∀ v, (s₂.uthreads v).utCtx = (s.uthreads v).utCtx := fun v => by simp [hs₂, State.setState]
  have hother : ∀ v, v ≠ t → (s₂.uthreads v).utState = (s.uthreads v).utState ∧
      (s₂.uthreads v).utLink = (s.uthreads v).utLink := fun v hv => by simp [hs₂, State.setState, hv]
  refine hc.places.lwp (fun v => ?_) (fun v => by rw [hcode]) (fun v hv => ?_) (fun k k' v hk hk' => ?_)
    (fun k hk => ?_) (fun k q hk => ?_)
  · by_cases hv : v = t
    · subst hv
      refine .active l (by simp [hcur]) (.inr ⟨by simp [hs₂], by rw [hcode]; exact hready⟩) ?_ ?_ ?_ hl
      · rw [hcode]
        simp [hs₂, State.setState, expect, hready.1, hready.2]
      · intro _
        rw [hcode, linkOf_of_awake hready.2]
        simp [hs₂, State.setState]
      · intro h
        rw [hcode] at h
        exact absurd h hready.1
    · refine (hc.places.place v).frame (hother v hv).1 (hother v hv).2 (hcode v) rfl (fun k => ?_)
        (fun k hk => ?_) fun hx => hx.imp fun y hy => by rw [hcode]; exact hy
      · rw [hcur]
        by_cases hk : k = l
        · subst hk; simp [hidle, Ne.symm hv]
        · simp [hk]
      · have hkl : k ≠ l := by rintro rfl; rw [hidle] at hk; cases hk
        simp [hs₂, hkl]
  · have hvt : v ≠ t := by
      rintro rfl
      have := (hc.places.woken v hv).2.1
      rw [hrun] at this
      cases this
    refine ⟨(hother v hvt).1, (hother v hvt).2, fun h k hk => ?_⟩
    rw [hcur] at hk
    split at hk
    · exact hvt (Option.some.inj hk).symm
    · exact h k hk
  · rw [hcur] at hk hk'
    split at hk <;> split at hk'
    · subst_vars; rfl
    · cases hk; exact absurd hk' (hoff k')
    · cases hk'; exact absurd hk (hoff k)
    · exact hc.places.cur k k' v hk hk'
  · by_cases hkl : k = l
    · subst hkl; simp [hs₂]
    · simpa [hs₂, hkl] using hc.places.busy k (by simpa [hcur, hkl] using hk)
  · by_cases hkl : k = l
    · subst hkl; simp [hs₂] at hk
    · exact hc.places.unlocking k q (by simpa [hs₂, hkl] using hk)

/-- The dispatched thread is on its stack again. -/
theorem places_resume {s' : State N L} (hc : Core s) (hm : (s.lwps l).mode = .dispatching)
    (hs : SameTable ((s.setPmtx .runqMtx { s.pmtx .runqMtx with owner := none }).setMode l .running) s') :
    Places s' := by
  have hcur : ∀ k, (s'.lwps k).utCurthr = (s.lwps k).utCurthr := by
    intro k
    by_cases hk : k = l
    · subst hk; simp [hs.lwps]
    · simp [hs.lwps, hk]
  have hmode : ∀ k, (s'.lwps k).mode = if k = l then .running else (s.lwps k).mode := by
    intro k
    by_cases hk : k = l
    · subst hk; simp [hs.lwps]
    · simp [hs.lwps, hk]
  have hstat : ∀ v, (s'.pmtx (.utPmut v)).status = (s.pmtx (.utPmut v)).status := fun v => by
    simp [hs.pmtx]
  have hu : s'.uthreads = s.uthreads := hs.uthreads
  refine hc.places.lwp (fun v => ?_) (fun v => by rw [hu])
    (fun v _ => ⟨by rw [hu], by rw [hu], fun h k hk => h k (by rwa [hcur] at hk)⟩)
    (fun k k' v hk hk' => hc.places.cur k k' v (by rwa [hcur] at hk) (by rwa [hcur] at hk'))
    (fun k hk => ?_) (fun k q hk => ?_)
  · by_cases hv : (s.lwps l).utCurthr = some v
    · cases hc.places.place v with
      | free off | created off | queued off | waiting _ off | woken off | razed off =>
        exact absurd hv (off l)
      | active k cur mode st link dying hl =>
        have hkl := hc.places.cur k l v cur hv
        refine .active k (by rw [hcur]; exact cur) (.inl (by rw [hmode, if_pos hkl])) ?_ ?_ ?_
          ((hstat v).trans hl) <;> rw [hu] <;> assumption
      | leaving k p' q cur mode =>
        rw [hc.places.cur k l v cur hv, hm] at mode
        cases mode
      | dead off =>
        rcases off with off | ⟨k, cur, mode⟩
        · exact absurd hv (off l)
        · rw [hc.places.cur k l v cur hv, hm] at mode
          cases mode
    · refine (hc.places.place v).frame (by rw [hu]) (by rw [hu]) (by rw [hu]) (hstat v)
        (fun k => by rw [hcur]) (fun k hk => ?_) fun ⟨y, hy⟩ => ⟨y, by rw [hu]; exact hy⟩
      have hkl : k ≠ l := by rintro rfl; exact hv hk
      rw [hmode, if_neg hkl]
  · rw [hmode]
    split
    · exact .inl rfl
    · exact hc.places.busy k (by rwa [hcur] at hk)
  · rw [hmode] at hk
    split at hk
    · cases hk
    · exact hc.places.unlocking k q hk

/-- A call or an interrupt puts code in front of that of a running thread. -/
theorem places_code {c : Code N} (hc : Core s) (hon : OnStack s l t)
    (hg : Goes (s.uthreads t).utCtx c) (hw : wakes c = wakes (s.uthreads t).utCtx)
    (hu : ∀ v, (s'.uthreads v).utState = (s.uthreads v).utState ∧
      (s'.uthreads v).utLink = (s.uthreads v).utLink ∧
      (s'.uthreads v).utCtx = if v = t then c else (s.uthreads v).utCtx)
    (hl : ∀ k, (s'.lwps k).mode = (s.lwps k).mode ∧ (s'.lwps k).utCurthr = (s.lwps k).utCurthr)
    (hpm : s'.pmtx = s.pmtx) : Places s' := by
  obtain ⟨hexp, hlink, hdy, hlive⟩ := hc.active hon
  have hwakes : ∀ v, wakes (s'.uthreads v).utCtx = wakes (s.uthreads v).utCtx := by
    intro v
    rw [(hu v).2.2]
    split
    · subst_vars; exact hw
    · rfl
  refine hc.places.lwp (fun v => ?_) hwakes
    (fun v _ => ⟨(hu v).1, (hu v).2.1, fun h k hk => h k (by rwa [(hl k).2] at hk)⟩)
    (fun k k' v hk hk' => hc.places.cur k k' v (by rwa [(hl k).2] at hk) (by rwa [(hl k').2] at hk'))
    (fun k hk => ?_) (fun k p hk => ?_)
  · by_cases hv : v = t
    · subst hv
      have hcode : (s'.uthreads v).utCtx = c := by rw [(hu v).2.2, if_pos rfl]
      refine .active l (by rw [(hl l).2]; exact hon.2) (.inl (by rw [(hl l).1]; exact hon.1)) ?_ ?_ ?_
        (by rw [hpm]; exact hlive)
      · rw [(hu v).1, hcode, hexp, hg.expect]
      · intro h
        rw [hcode] at h ⊢
        rw [hg.dying] at h
        rw [(hu v).2.1, hlink h, hg.link h]
      · intro h
        rw [hcode, hg.dying] at h
        rw [(hu v).2.1]
        exact hdy h
    · refine (hc.places.place v).frame (hu v).1 (hu v).2.1 (by rw [(hu v).2.2, if_neg hv])
        (by rw [hpm]) (fun k => by rw [(hl k).2]) (fun k _ => (hl k).1) fun ⟨y, hy⟩ => ⟨y, ?_⟩
      rw [hwakes]
      exact hy
  · rw [(hl k).1]
    exact hc.places.busy k (by rwa [(hl k).2] at hk)
  · exact hc.places.unlocking k p (by rwa [(hl k).1] at hk)

/-- A call starts awake, and wakes or starts nobody before its first test. -/
theorem call_goes (inc : Fin N → ℕ) (t : Fin N) (c : Call) :
    Goes [] (c.code inc t) ∧ wakes (c.code inc t) = [] ∧ starts (c.code inc t) = [] ∧
      ∀ d u, destroy d u ∉ c.code inc t := by
  have hmain : panicDead ∉ c.code inc t ∧ Awake (c.code inc t) ∧ wakes (c.code inc t) = [] ∧
      starts (c.code inc t) = [] ∧ ∀ d u, destroy d u ∉ c.code inc t := by
    cases c with
    | create | exit | yield | mtxLock | mtxTrylock | mtxUnlock | condWait | condSignal
    | condBroadcast | nopreemptOn | nopreemptOff =>
      simp [Call.code, uthreadCreate, uthreadExit, uthreadYield, uthreadSwitch, uthreadMtxLock,
        uthreadMtxTrylock, uthreadMtxUnlock, uthreadCondWait, uthreadCondSignal,
        uthreadCondBroadcast]
    | join uid =>
      simp only [Call.code, uthreadJoin]
      split <;> simp
    | detach uid =>
      simp only [Call.code, uthreadDetach]
      split <;> simp
    | setprio uid prio =>
      simp only [Call.code, uthreadSetprio]
      split
      · simp
      · split <;> simp
  obtain ⟨hp, ha, hrest⟩ := hmain
  exact ⟨goes_of_awake (by simp [hp]) awake_nil ha, hrest⟩

/-- A thread that is preempted goes on after its yield. -/
theorem interrupt_goes {c : Code N} (h : expect c = .onCpu) : Goes c (clockInterrupt ++ c) := by
  have hp : panicDead ∉ c ∧ Awake c := by
    unfold expect at h
    split at h
    · cases h
    · split at h
      · cases h
      · exact ⟨by assumption, fun ha => absurd ha (by assumption)⟩
  refine goes_of_awake ?_ hp.2 (by simp [clockInterrupt, uthreadYield])
  simp [clockInterrupt, uthreadYield, uthreadSwitch]

@[simp] theorem wakes_interrupt : wakes (clockInterrupt : Code N) = [] := by
  simp [clockInterrupt, uthreadYield, uthreadSwitch]

@[simp] theorem starts_interrupt : starts (clockInterrupt : Code N) = [] := by
  simp [clockInterrupt, uthreadYield, uthreadSwitch]

/-- **Every step keeps the places and the wakers.** -/
theorem places_step {a : Act} (hc : Core s) (h : Move s l a s') : Places s' := by
  cases h with
  | halted e =>
    exact hc.places.lwp (fun v => (hc.places.place v).frame rfl rfl rfl rfl (fun _ => Iff.rfl)
      (fun _ _ => rfl) id) (fun _ => rfl) (fun _ _ => ⟨rfl, rfl, id⟩) hc.places.cur hc.places.busy
      hc.places.unlocking
  | thread t i cs new hon hcode he => exact places_thread hc hon hcode he
  | call t c hon hcode =>
    obtain ⟨hg, hw, -⟩ := call_goes s.incarnation t c
    refine places_code (c := c.code s.incarnation t) hc hon (by rw [hcode]; exact hg)
      (by rw [hcode, hw]; rfl) (fun v => ?_) (fun k => ⟨rfl, rfl⟩) rfl
    by_cases hv : v = t
    · subst hv; simp
    · simp [hv]
  | preempt t hon hm hst h0 =>
    have hg := interrupt_goes ((hc.active hon).1.symm.trans hst)
    refine places_code hc hon hg (by simp) (fun v => ?_) (fun k => ?_) rfl
    · by_cases hv : v = t
      · subst hv; simp
      · simp [hv]
    · by_cases hk : k = l
      · subst hk; simp
      · simp [hk]
  | acquire m hm hst ho hs =>
    have hidle : (s.lwps l).utCurthr = none := by
      rcases hm with ⟨h, -⟩ | ⟨h, -⟩ <;> exact hc.idle (by simp [h]) (by simp [h]) (by simp [h])
    refine hc.places.idle (m := m) hidle (by rcases hm with ⟨-, rfl⟩ | ⟨-, rfl⟩ <;> simp) hs.uthreads
      (fun v => by simp [hs.pmtx]) hs.lwps
  | unlock p hm ho => exact places_unlock hc hm
  | dispatch t hm hd => exact places_dispatch hc hm hd
  | idle m hm hs =>
    have hidle : (s.lwps l).utCurthr = none := by
      rcases hm with ⟨h, -⟩ | ⟨h, -⟩ <;> exact hc.idle (by simp [h]) (by simp [h]) (by simp [h])
    exact hc.places.idle (m := m) hidle (by rcases hm with ⟨-, rfl⟩ | ⟨-, rfl⟩ <;> simp) hs.uthreads
      (fun v => by simp [hs.pmtx]) hs.lwps
  | leave m hm ho hs =>
    rcases hm with ⟨hm, rfl⟩ | ⟨hm, rfl⟩
    · exact places_resume hc hm hs
    · have hidle : (s.lwps l).utCurthr = none := hc.idle (by simp [hm]) (by simp [hm]) (by simp [hm])
      exact hc.places.idle (m := .parked) hidle (by simp) hs.uthreads (fun v => by simp [hs.pmtx])
        hs.lwps

end Uthreads
