import Uthreads.Lib.Count
import Uthreads.Proof.Counters
import Uthreads.Proof.Core

/-!
# Parking

The LWPs that find no work wait in `lwp_park`. `ParkInv` ties the counters `lwp_cnt` and
`lwp_parked_cnt` to the places of the LWPs.

* `all_parked_exact`: the panic in `lwp_park` fires exactly when nobody could ever wake an LWP.
* `unsignalled_bound`: a waiting LWP that nobody has signalled leaves no more threads on the run
  queue than signalled LWPs will look for, and than were put there while it was not empty; every LWP
  that comes to look by itself takes one of these away.
-/

namespace Uthreads

variable {N L : ℕ} {l : Fin L} {t : Fin N} {s s' s₁ : State N L} {i : Instr N} {new : Code N}

open Instr Count

/-! ## What a step does to the counters -/

/-- The LWP has called `lwp_switch`. -/
@[simp] def LwpMode.started : LwpMode N → Bool
  | .start => false
  | _ => true

/-- The LWP is inside `lwp_park`. -/
@[simp] def LwpMode.inPark : LwpMode N → Bool
  | .parking | .parked => true
  | _ => false

/-- The LWP waits on `lwp_park_cond`, or for `runq_mtx` behind it. -/
@[simp] def LwpMode.waits : LwpMode N → Bool
  | .parked => true
  | _ => false

/-- The LWP is about to look at the run queue. -/
@[simp] def LwpMode.looks : LwpMode N → Bool
  | .parking | .searching => true
  | _ => false

/-- The modes of the LWPs. -/
def modes (s : State N L) : Fin L → LwpMode N := fun k => (s.lwps k).mode

/-- What a step of LWP `l` does to the modes and the counters. -/
inductive Travel (s s' : State N L) (l : Fin L) : Prop
  | parks (m : LwpMode N) (hm : modes s' = Function.update (modes s) l m)
    (hp : Parks s s' (s.lwps l).mode m) (hr : s'.runqSize = s.runqSize)
  | works (m : LwpMode N) (hm : modes s' = Function.update (modes s) l m)
    (hc : s'.lwpCnt = s.lwpCnt) (hp : s'.lwpParkedCnt = s.lwpParkedCnt)
    (hk : m = (s.lwps l).mode ∨
      ((s.lwps l).mode.started = true ∧ (s.lwps l).mode.inPark = false) ∧
        m.started = true ∧ m.inPark = false)
    (hr : Quiet s s' ∨ (Arrives s s' ∧ ∃ t, HeldBy s .runqMtx (.inl t)) ∨
      Departs s s' ∧ HeldBy s .runqMtx (.inr l))
    (hl : (s.lwps l).mode.looks = true → m.looks = true ∨ Departs s s')

theorem modes_update {m : LwpMode N} (hl : (s'.lwps l).mode = m)
    (hk : ∀ k, k ≠ l → (s'.lwps k).mode = (s.lwps k).mode) :
    modes s' = Function.update (modes s) l m := by
  funext k
  unfold modes
  by_cases hkl : k = l
  · subst hkl; rw [Function.update_self, hl]
  · rw [Function.update_of_ne hkl, hk k hkl]

theorem modes_same (hk : ∀ k, (s'.lwps k).mode = (s.lwps k).mode) :
    modes s' = Function.update (modes s) l (s.lwps l).mode :=
  modes_update (hk l) fun k _ => hk k

/-- Every step is one of lwp_park's, or leaves the parked LWPs alone. -/
theorem move_travel {a : Act} (h : Move s l a s') : Travel s s' l := by
  cases h with
  | halted e => exact .works _ (modes_same fun _ => rfl) rfl rfl (.inl rfl) (.inl ⟨rfl, rfl, rfl⟩) .inl
  | @thread _ t i cs new s₁ hon hcode he =>
    obtain ⟨hc, hp, -, hr⟩ := effect_counts he
    have hr' : Quiet s (s₁.setCtx t (new ++ cs)) ∨
        (Arrives s (s₁.setCtx t (new ++ cs)) ∧ ∃ t, HeldBy s .runqMtx (.inl t)) ∨
        Departs s (s₁.setCtx t (new ++ cs)) ∧ HeldBy s .runqMtx (.inr l) := by
      rcases hr with h | ⟨h, hi⟩
      · exact .inl ⟨h.size, h.waiters, h.signals⟩
      · refine .inr (.inl ⟨⟨h.size, h.quiet, h.signal⟩, t, ?_⟩)
        show Held .runqMtx (s.uthreads t).utCtx
        rw [hcode]
        exact .inl hi
    by_cases hsw : ∃ q sv m, i = swtch q sv m
    · -- the LWP leaves the stack of the thread
      obtain ⟨q, sv, m, rfl⟩ := hsw
      obtain ⟨-, -, hl⟩ := switch_mode he
      have hold : (s.lwps l).mode.started = true ∧ (s.lwps l).mode.inPark = false := by
        rw [hon.1]; exact ⟨rfl, rfl⟩
      cases m with
      | none =>
        refine .works .searching (modes_update (by simp [hl]) fun k hk => by simp [hl, hk]) hc hp
          (.inr ⟨hold, rfl, rfl⟩) hr' fun hlook => .inl rfl
      | some p =>
        refine .works (.unlocking p) (modes_update (by simp [hl]) fun k hk => by simp [hl, hk]) hc hp
          (.inr ⟨hold, rfl, rfl⟩) hr' fun hlook => ?_
        rw [hon.1] at hlook
        cases hlook
    · have hmode : ∀ k, (s₁.lwps k).mode = (s.lwps k).mode := fun k =>
        (effect_lwps he (fun q sv m e => hsw ⟨q, sv, m, e⟩) k).1
      exact .works _ (modes_same hmode) hc hp (.inl rfl) hr' .inl
  | call t c hon hcode =>
    exact .works _ (modes_same fun _ => rfl) rfl rfl (.inl rfl) (.inl ⟨rfl, rfl, rfl⟩) .inl
  | preempt t hon hm hst h0 =>
    refine .works _ (modes_same fun k => ?_) rfl rfl (.inl rfl) (.inl ⟨rfl, rfl, rfl⟩) .inl
    by_cases hk : k = l
    · subst hk; simp
    · simp [hk]
  | acquire m hm hst ho hs hh hp =>
    exact .parks m (modes_update (by simp [hs.lwps]) fun k hk => by simp [hs.lwps, hk]) hp hs.runqSize
  | unlock p hm ho =>
    refine .works .searching (modes_update (by simp) fun k hk => by simp [hk]) rfl rfl
      (.inr ⟨by rw [hm]; exact ⟨rfl, rfl⟩, rfl, rfl⟩) (.inl ⟨rfl, rfl, rfl⟩) fun _ => .inl rfl
  | dispatch t hm hd =>
    obtain ⟨p, x, hx, -, rfl⟩ := dispatchBody_some hd
    have hdep : ∀ y : Lwp N, Departs s (({ (s.setQueue (.runq p) x).modUthread t fun u =>
        { u with utLink := none } with runqSize := s.runqSize - 1 }.setState t .onCpu).setLwp l y) :=
      fun y => ⟨Int.sub_add_cancel _ _, rfl, rfl⟩
    exact .works .dispatching (modes_update (by simp) fun k hk => by simp [hk]) rfl rfl
      (.inr ⟨by rw [hm]; exact ⟨rfl, rfl⟩, rfl, rfl⟩) (.inr (.inr ⟨hdep _, by simp [HeldBy, hm]⟩)) fun _ => .inr (hdep _)
  | idle m hm hs hh hp =>
    exact .parks m (modes_update (by simp [hs.lwps]) fun k hk => by simp [hs.lwps, hk]) hp hs.runqSize
  | leave m hm ho hs hh hp =>
    exact .parks m (modes_update (by simp [hs.lwps]) fun k hk => by simp [hs.lwps, hk]) hp hs.runqSize

/-! ## The counters count -/

/-- The counters of `lwp_switch` and `lwp_park` are the numbers of LWPs in these places. -/
structure ParkInv (s : State N L) : Prop where
  cnt : s.lwpCnt = count LwpMode.started (modes s)
  parked : s.lwpParkedCnt = count LwpMode.inPark (modes s)
  waiting : s.parkWaiters + s.parkSignals = count LwpMode.waits (modes s)
  awake : s.lwpParkedCnt < s.lwpCnt

/-- **Every step keeps the counters.** -/
theorem park_step {a : Act} (hi : ParkInv s) (h : Move s l a s') : ParkInv s' := by
  obtain ⟨hcnt, hparked, hwaiting, hawake⟩ := hi
  cases move_travel h with
  | parks m hm hp hr =>
    have h₁ := count_update LwpMode.started (modes s) l m
    have h₂ := count_update LwpMode.inPark (modes s) l m
    have h₃ := count_update LwpMode.waits (modes s) l m
    rw [← hm, show modes s l = (s.lwps l).mode from rfl] at h₁ h₂ h₃
    have hpos : (s.lwps l).mode.inPark = true → 0 < s.lwpParkedCnt := fun hin => by
      rw [hparked]; exact count_pos (f := modes s) hin
    revert hpos h₁ h₂ h₃
    generalize (s.lwps l).mode = old at hp
    intro hpos h₁ h₂ h₃
    cases hp <;> simp at h₁ h₂ h₃ hpos <;> constructor <;> omega
  | works m hm hc hp hk hr hl =>
    have hw : s'.parkWaiters + s'.parkSignals = s.parkWaiters + s.parkSignals := by
      rcases hr with hr | ⟨hr, -⟩ | ⟨hr, -⟩
      · rw [hr.waiters, hr.signals]
      · by_cases h0 : s.runqSize ≠ 0 ∨ s.parkWaiters = 0
        · rw [(hr.quiet h0).1, (hr.quiet h0).2]
        · have := hr.signal (by tauto) (by tauto)
          omega
      · rw [hr.waiters, hr.signals]
    have hsame : ∀ p : LwpMode N → Bool, p m = p (s.lwps l).mode →
        count p (modes s') = count p (modes s) := by
      intro p hpm
      have := count_update p (modes s) l m
      rw [← hm, show modes s l = (s.lwps l).mode from rfl, hpm] at this
      omega
    have hall : m.started = (s.lwps l).mode.started ∧ m.inPark = (s.lwps l).mode.inPark ∧
        m.waits = (s.lwps l).mode.waits := by
      rcases hk with rfl | ⟨⟨h₁, h₂⟩, h₃, h₄⟩
      · exact ⟨rfl, rfl, rfl⟩
      · refine ⟨h₃.trans h₁.symm, h₄.trans h₂.symm, ?_⟩
        generalize (s.lwps l).mode = old at h₂
        cases old <;> cases m <;> simp_all
    constructor
    · rw [hc, hcnt, hsame _ hall.1]
    · rw [hp, hparked, hsame _ hall.2.1]
    · rw [hw, hwaiting, hsame _ hall.2.2]
    · rw [hc, hp]; exact hawake

theorem boot_park : ParkInv (boot N L) := by
  have h₀ : ∀ p : LwpMode (N + 2) → Bool, p .start = false →
      count p (modes (boot N L)) = (p .searching).toNat := by
    intro p hp
    have hm : modes (boot N L) = Function.update (fun _ => .start) 0 .searching := by
      funext l
      simp only [modes, boot, Function.update_apply]
      split_ifs <;> rfl
    have := count_update p (fun _ : Fin (L + 1) => LwpMode.start) 0 .searching
    rw [← hm, hp] at this
    have hz : count p (fun _ : Fin (L + 1) => LwpMode.start) = 0 := by simp [Count.count, hp]
    rw [hz] at this
    simpa using this
  constructor
  · rw [h₀ _ rfl]; rfl
  · rw [h₀ _ rfl]; rfl
  · rw [h₀ _ rfl]; rfl
  · exact Nat.one_pos

theorem park_reachable {ok : State N L → Fin L × Act → Prop} {s₀ : State N L} (hc₀ : Core s₀)
    (h₀ : ParkInv s₀) (h : Reachable ok s₀ s) : ParkInv s :=
  h.invariant_of (fun _ hr => core_reachable hc₀ hr) h₀ fun _ _ _ hc hp _ hn =>
    park_step hp (step_move hc.codes.wf hn)

/-! ## The panic -/

/-- With no thread to dispatch none is runnable. -/
theorem Core.none_runnable (hc : Core s) (hd : dispatchBody s = none) (t : Fin N) :
    (s.uthreads t).utState ≠ .runnable := by
  intro ht
  obtain ⟨p, -, hp⟩ := hc.runq.mem_of_runnable ht
  have := dispatchBody_none.1 hd p
  have hmem := (hp p).2 rfl
  rw [this] at hmem
  cases hmem

/-- **The panic means that everything is stuck.** -/
theorem allParked_stuck (hc : Core s) (hp : ParkInv s) (hm : (s.lwps l).mode = .searching)
    (hd : dispatchBody s = none) (hcnt : s.lwpParkedCnt + 1 = s.lwpCnt) :
    (∀ t, (s.uthreads t).utState ≠ .runnable) ∧ ∀ k t, (s.lwps k).utCurthr ≠ some t := by
  refine ⟨hc.none_runnable hd, fun k t hk => ?_⟩
  -- the panicking LWP counted in, all that have started are in `lwp_park`
  have hall : ∀ j, (Function.update (modes s) l .parking j).inPark =
      (Function.update (modes s) l .parking j).started := by
    apply eq_of_count_eq
    · intro j hj
      generalize Function.update (modes s) l .parking j = m at hj
      cases m <;> simp at hj ⊢
    · have h₁ := count_update LwpMode.inPark (modes s) l .parking
      have h₂ := count_update LwpMode.started (modes s) l .parking
      rw [show modes s l = .searching from hm] at h₁ h₂
      simp only [LwpMode.inPark, LwpMode.started, Bool.toNat_true, Bool.toNat_false] at h₁ h₂
      have := hp.parked
      have := hp.cnt
      omega
  have hkl : k ≠ l := by
    rintro rfl
    rw [hc.idle (by simp [hm]) (by simp [hm]) (by simp [hm])] at hk
    cases hk
  have hk' := hall k
  rw [Function.update_of_ne hkl, show modes s k = (s.lwps k).mode from rfl] at hk'
  rcases hc.places.busy k (by simp [hk]) with e | e | ⟨p, e⟩ <;> rw [e] at hk' <;> cases hk'

/-- Nobody changes the run queue while another LWP is looking at it. -/
theorem runqSize_kept {k : Fin L} {a : Act} (hc : Core s) (h : Move s k a s') (hk : k ≠ l)
    (hl : HeldBy s .runqMtx (.inr l)) :
    s'.runqSize = s.runqSize ∧ (s'.lwps l).mode = (s.lwps l).mode := by
  have hmode : ∀ m, modes s' = Function.update (modes s) k m →
      (s'.lwps l).mode = (s.lwps l).mode := by
    intro m hm
    have := congrFun hm l
    rwa [Function.update_of_ne (Ne.symm hk)] at this
  cases move_travel h with
  | parks m hm hp hr => exact ⟨hr, hmode m hm⟩
  | works m hm hc' hp hk' hr =>
    refine ⟨?_, hmode m hm⟩
    rcases hr with hr | ⟨-, t, ht⟩ | ⟨-, ht⟩
    · exact hr.size
    · cases hc.locks.one _ _ _ ht hl
    · cases hc.locks.one _ _ _ ht hl
      exact absurd rfl hk

/-- A thread is on the run queue, so the search finds one. -/
theorem Core.dispatch_some (hc : Core s) (hr : s.runqSize ≠ 0) : dispatchBody s ≠ none := by
  intro hd
  refine hr ?_
  rw [hc.runq.size]
  refine Finset.sum_eq_zero fun p _ => ?_
  rw [(s.queues (.runq p)).size_eq, dispatchBody_none.1 hd p]
  rfl

/-- **An LWP that leaves `lwp_park` finds a thread**, whatever the others do before it looks. -/
theorem unparked_dispatches {s₁ s₂ s₃ : State N L} {a : Act} (hc : Core s)
    (hm : (s.lwps l).mode = .parking) (h₁ : next s (l, .exec) = some s₁)
    (hm₁ : (s₁.lwps l).mode = .searching) (h₂ : Reachable (fun _ b => b.1 ≠ l) s₁ s₂)
    (h₃ : next s₂ (l, a) = some s₃) : ∃ t, s₃.lwps l = ⟨.dispatching, some t, true⟩ := by
  have hc₁ := core_next hc h₁
  have hr₁ : s₁.runqSize ≠ 0 := by
    have hmove := step_move hc.codes.wf h₁
    cases move_travel hmove with
    | parks m hm' hp hr =>
      have hml : (s₁.lwps l).mode = m := by
        have := congrFun hm' l
        rwa [Function.update_self] at this
      rw [hm, ← hml, hm₁] at hp
      cases hp with
      | unpark _ _ _ _ hne => rwa [hr]
    | works m hm' _ _ hk =>
      have hml : (s₁.lwps l).mode = m := by
        have := congrFun hm' l
        rwa [Function.update_self] at this
      rw [hm, ← hml, hm₁] at hk
      rcases hk with hk | ⟨⟨-, hk⟩, -⟩ <;> cases hk
  have hinv : Core s₂ ∧ (s₂.lwps l).mode = .searching ∧ s₂.runqSize ≠ 0 := by
    refine h₂.invariant (P := fun s => Core s ∧ (s.lwps l).mode = .searching ∧ s.runqSize ≠ 0)
      ⟨hc₁, hm₁, hr₁⟩ ?_
    rintro s s' ⟨k, b⟩ ⟨hc, hm, hr⟩ hk hn
    obtain ⟨hsz, hmode⟩ := runqSize_kept hc (step_move hc.codes.wf hn) hk (by simp [HeldBy, hm])
    exact ⟨core_next hc hn, hmode.trans hm, by rwa [hsz]⟩
  obtain ⟨hc₂, hm₂, hr₂⟩ := hinv
  have hd := hc₂.dispatch_some hr₂
  have hrun : ∀ t, ¬ OnStack s₂ l t := fun t hon => by rw [hon.1] at hm₂; cases hm₂
  cases step_move hc₂.codes.wf h₃ with
  | halted e hs =>
    cases hs with
    | thread t _ _ hon | interrupt t hon => exact absurd hon (hrun t)
    | acquire h => rw [hm₂] at h; rcases h with h | h <;> cases h
    | release p h => rw [hm₂] at h; rcases h with h | ⟨-, h | h⟩ <;> cases h
    | allParked _ h => exact absurd h hd
  | thread t _ _ _ hon | call t _ hon | preempt t hon => exact absurd hon (hrun t)
  | acquire m h => rw [hm₂] at h; rcases h with ⟨h, -⟩ | ⟨h, -⟩ <;> cases h
  | unlock p h => rw [hm₂] at h; cases h
  | dispatch t _ _ => exact ⟨t, by simp⟩
  | idle m h _ _ hp =>
    rcases h with ⟨-, rfl⟩ | ⟨h, -⟩
    · rw [hm₂] at hp
      cases hp with
      | park _ _ _ _ h => exact absurd h hd
    · rw [hm₂] at h; cases h
  | leave m h => rw [hm₂] at h; rcases h with ⟨h, -⟩ | ⟨h, -⟩ <;> cases h

/-- **The panic in `lwp_park` is exact.** In every state that the library reaches, `lwp_parked_cnt`
is the number of LWPs in `lwp_park`; the panic fires only when no thread is runnable and none is
current; some LWP that has started is never in `lwp_park`; and an LWP that leaves it finds a thread
to dispatch, whatever the others do before it looks. -/
theorem all_parked_exact {s : State (N + 2) (L + 1)} (h : Reachable Runs.always (boot N L) s) :
    s.lwpParkedCnt = (Finset.univ.filter fun l =>
      (s.lwps l).mode = .parking ∨ (s.lwps l).mode = .parked).card ∧
    (∀ l a s', next s (l, a) = some s' → s'.halt = some (.panic .allParked) →
      (∀ t, (s.uthreads t).utState ≠ .runnable) ∧ ∀ k t, (s.lwps k).utCurthr ≠ some t) ∧
    (∃ l, (s.lwps l).mode ≠ .start ∧ (s.lwps l).mode ≠ .parking ∧ (s.lwps l).mode ≠ .parked) ∧
    ∀ l s₁, (s.lwps l).mode = .parking → next s (l, .exec) = some s₁ →
      (s₁.lwps l).mode = .searching → ∀ s₂, Reachable (fun _ b => b.1 ≠ l) s₁ s₂ →
        ∀ a s₃, next s₂ (l, a) = some s₃ → ∃ t, s₃.lwps l = ⟨.dispatching, some t, true⟩ := by
  have hc := core_reachable boot_core h
  have hp := park_reachable boot_core boot_park h
  refine ⟨?_, fun l a s' hn hh => ?_, ?_, fun l s₁ hm h₁ hm₁ s₂ h₂ a s₃ h₃ =>
    unparked_dispatches hc hm h₁ hm₁ h₂ h₃⟩
  · rw [hp.parked, Finset.card_filter]
    refine Finset.sum_congr rfl fun l _ => ?_
    show ((s.lwps l).mode.inPark).toNat = _
    cases (s.lwps l).mode <;> simp
  · obtain ⟨hstop, -⟩ := next_stop hc.codes.wf hn hh
    cases hstop with
    | thread _ _ _ _ _ hf =>
      cases hf with
      | switchSave h | wake _ _ h | start _ _ _ h | setprio _ _ _ h => cases h
    | acquire _ _ h => rcases h with ⟨-, h⟩ | ⟨-, h⟩ <;> cases h
    | release _ _ h => rcases h with ⟨-, h⟩ | ⟨-, -, h⟩ <;> cases h
    | allParked hm hd hcnt => exact allParked_stuck hc hp hm hd hcnt
  · obtain ⟨l, hl, hl'⟩ := exists_of_lt (p := LwpMode.inPark) (q := LwpMode.started) (f := modes s)
      (by rw [← hp.parked, ← hp.cnt]; exact hp.awake)
    refine ⟨l, ?_⟩
    have hm : modes s l = (s.lwps l).mode := rfl
    rw [hm] at hl hl'
    cases h' : (s.lwps l).mode <;> rw [h'] at hl hl' <;> simp_all

/-- A signalled LWP leaves `lwp_park` while another stays there, and finds the thread. -/
theorem all_parked_exact_third : ∃ s s₁ s₂ s₃ : State 3 3, Reachable Runs.always (boot 1 2) s ∧
    (Finset.univ.filter fun l => (s.lwps l).mode = .parking ∨ (s.lwps l).mode = .parked).card = 2 ∧
    (s.lwps 1).mode = .parking ∧ next s (1, .exec) = some s₁ ∧ (s₁.lwps 1).mode = .searching ∧
    next s₁ (0, .call .nopreemptOn) = some s₂ ∧ next s₂ (1, .exec) = some s₃ ∧
    ∃ t, s₃.lwps 1 = ⟨.dispatching, some t, true⟩ := by
  obtain ⟨s, hs, hcnt, hm, hrun⟩ : ∃ s : State 3 3, Reachable Runs.always (boot 1 2) s ∧
      s.lwpParkedCnt = 2 ∧ (s.lwps 1).mode = .parking ∧
      (next s (1, .exec)).any (fun s₁ => decide ((s₁.lwps 1).mode = .searching) &&
        (next s₁ (0, .call .nopreemptOn)).any fun s₂ => (next s₂ (1, .exec)).isSome) = true :=
    Runs.exists_reach (turns 0 4 ++ turns 1 25 ++ turns 2 3 ++ [(0, .call (.create 3))] ++ turns 0 23 ++
      turns 1 1) (by decide +kernel)
  obtain ⟨s₁, h₁, hP⟩ := (Option.any_eq_true _ _).1 hrun
  obtain ⟨hm₁, hQ⟩ := Bool.and_eq_true_iff.1 hP
  obtain ⟨s₂, h₂, hR⟩ := (Option.any_eq_true _ _).1 hQ
  obtain ⟨s₃, h₃⟩ := Option.isSome_iff_exists.1 hR
  have hm₁ := of_decide_eq_true hm₁
  obtain ⟨hcard, -, -, hleave⟩ := all_parked_exact hs
  refine ⟨s, s₁, s₂, s₃, hs, hcard.symm.trans hcnt, hm, h₁, hm₁, h₂, h₃, ?_⟩
  exact hleave 1 s₁ hm h₁ hm₁ s₂ (.step .start (by decide) h₂) _ s₃ h₃

/-! ## Threads that arrive on a run queue that is not empty -/

/-- LWP `l` begins to look for work, and not because it was signalled. -/
def looksUnbidden (s s' : State N L) (l : Fin L) : Bool :=
  !(s.lwps l).mode.looks && (s'.lwps l).mode.looks && decide (s.parkSignals ≤ s'.parkSignals)

/-- The threads that have arrived while the run queue was not empty, less the LWPs that have begun to
look for work without a signal, both since the run queue was last empty; `n` is the number before the
step of LWP `l` from `s` to `s'`. -/
def late (s s' : State N L) (l : Fin L) (n : ℤ) : ℤ :=
  if s'.runqSize = 0 then 0
  else n + (if s.runqSize ≠ 0 ∧ s'.runqSize = s.runqSize + 1 then 1 else 0) -
    (looksUnbidden s s' l).toNat

/-- The library with the late arrivals counted. -/
def watch (x : State N L × ℤ) (b : Fin L × Act) : Option (State N L × ℤ) :=
  (next x.1 b).map fun s' => (s', late x.1 s' b.1 x.2)

/-- A thread on the run queue has been signalled for, is being looked for, or came late. -/
def Covered (s : State N L) (n : ℤ) : Prop :=
  s.parkWaiters = 0 ∨ s.runqSize ≤ s.parkSignals + n + count LwpMode.looks (modes s)

/-- Who begins to look outside `lwp_park` has not been signalled. -/
theorem looks_unbidden {m : LwpMode N} (hm : modes s' = Function.update (modes s) l m)
    (hs : s.parkSignals ≤ s'.parkSignals)
    (hl : (s.lwps l).mode.looks = true → m.looks = true) :
    ((s.lwps l).mode.looks.toNat : ℤ) + (looksUnbidden s s' l).toNat = m.looks.toNat := by
  have hm' : (s'.lwps l).mode = m := by
    have := congrFun hm l
    rwa [Function.update_self] at this
  unfold looksUnbidden
  rw [hm', decide_eq_true hs]
  revert hl
  cases (s.lwps l).mode.looks <;> cases m.looks <;> simp

theorem covered_step {n : ℤ} {a : Act} (hi : Covered s n) (h : Move s l a s') :
    Covered s' (late s s' l n) := by
  unfold Covered at hi ⊢
  by_cases h0 : s'.runqSize = 0
  · -- nobody is on the run queue
    right
    rw [late, if_pos h0, h0]
    omega
  have hlate : late s s' l n = n + (if s.runqSize ≠ 0 ∧ s'.runqSize = s.runqSize + 1 then 1 else 0) -
      (looksUnbidden s s' l).toNat := if_neg h0
  have hcount : ∀ m, modes s' = Function.update (modes s) l m →
      count LwpMode.looks (modes s') + (s.lwps l).mode.looks.toNat =
        count LwpMode.looks (modes s) + m.looks.toNat := by
    intro m hm
    rw [hm]
    exact count_update LwpMode.looks (modes s) l m
  cases move_travel h with
  | parks m hm hp hr =>
    have hm' := hcount m hm
    have hmode : (s'.lwps l).mode = m := by
      have := congrFun hm l
      rwa [Function.update_self] at this
    rw [hr] at h0
    rw [hlate, hr, if_neg (by omega), looksUnbidden, hmode]
    revert hm'
    generalize (s.lwps l).mode = old at hp
    intro hm'
    cases hp with
    | signalled _ _ hw hs =>
      have hno : ¬ s.parkSignals ≤ s'.parkSignals := by omega
      simp [hno] at hm' ⊢
      omega
    | sleep _ _ _ _ hz => exact absurd hz h0
    | start _ _ hw hs | spurious _ _ hw hs | park _ _ hw hs | unpark _ _ hw hs | resume _ _ hw hs =>
      simp [hs] at hm' ⊢
      omega
  | works m hm hc hp hk hr hl =>
    have hm' := hcount m hm
    rcases hr with hr | ⟨hr, -⟩ | ⟨hr, -⟩
    · -- the run queue is left alone: the LWP still looks if it did
      have hb := looks_unbidden hm hr.signals.ge fun hlk => (hl hlk).resolve_right fun h => by
        have := h.size; have := hr.size; omega
      rw [hr.size] at h0
      rw [hlate, hr.size, hr.waiters, hr.signals, if_neg (by omega)]
      omega
    · have hsig : s.parkSignals ≤ s'.parkSignals := by
        by_cases hz : s.runqSize = 0 ∧ s.parkWaiters ≠ 0
        · have := (hr.signal hz.1 hz.2).2
          omega
        · exact (hr.quiet (by tauto)).2.ge
      have hb := looks_unbidden hm hsig fun hlk => (hl hlk).resolve_right fun h => by
        have := h.size; have := hr.size; omega
      rw [hlate, hr.size]
      by_cases hz : s.runqSize = 0
      · -- the first arrival: a waiting LWP is signalled
        rw [if_neg fun h => h.1 hz]
        by_cases hw : s.parkWaiters = 0
        · left; rw [(hr.quiet (.inr hw)).1, hw]
        · have := (hr.signal hz hw).2
          omega
      · -- a late arrival
        rw [(hr.quiet (.inl hz)).1, (hr.quiet (.inl hz)).2, if_pos ⟨hz, rfl⟩]
        omega
    · -- a dispatch: the thread has been looked for
      have hsz := hr.size
      rw [hlate, hr.waiters, hr.signals, if_neg (by omega)]
      have hle : (looksUnbidden s s' l).toNat + (s.lwps l).mode.looks.toNat ≤ 1 := by
        unfold looksUnbidden
        cases (s.lwps l).mode.looks with
        | false => simpa using Bool.toNat_le _
        | true => simp
      omega

/-- **Idle LWPs and waiting threads.** When `runq_mtx` is free and some LWP waits in `lwp_park`
without having been signalled, the threads on the run queue are at most the LWPs that have been
signalled and the threads that arrived while the run queue was not empty, less the LWPs that began to
look for work without a signal. -/
theorem unsignalled_bound {s : State (N + 2) (L + 1)} {n : ℤ}
    (h : Runs.Reach watch Runs.always (boot N L, 0) (s, n)) (hfree : (s.pmtx .runqMtx).owner = none)
    (hw : s.parkWaiters ≠ 0) : s.runqSize ≤ s.parkSignals + n := by
  have hinv : Core s ∧ Covered s n := by
    refine h.invariant (P := fun x => Core x.1 ∧ Covered x.1 x.2) ⟨boot_core, .inl rfl⟩ ?_
    rintro ⟨s, n⟩ ⟨s', n'⟩ ⟨l, a⟩ ⟨hc, hi⟩ - hn
    obtain ⟨s₁, hn', he⟩ := Option.map_eq_some_iff.1 hn
    obtain ⟨rfl, rfl⟩ := Prod.mk.inj he
    exact ⟨core_next hc hn', covered_step hi (step_move hc.codes.wf hn')⟩
  obtain ⟨hc, hi⟩ := hinv
  -- an LWP that looks at the run queue holds `runq_mtx`
  have hnone : count LwpMode.looks (modes s) = 0 := by
    refine Finset.sum_eq_zero fun l _ => ?_
    rw [Bool.toNat_eq_zero, Bool.eq_false_iff]
    intro hl
    refine (hc.locks.taken .runqMtx (.inr l) ?_).1 hfree
    revert hl
    show (s.lwps l).mode.looks = true → PmtxId.runqMtx ∈ (s.lwps l).mode.holds
    cases (s.lwps l).mode <;> simp
  rcases hi with hi | hi
  · exact absurd hi hw
  · omega

/-- The reaper sleeps, two of the three LWPs wait in `lwp_park`, and the first thread creates two
threads. -/
def backlog : List (Fin 3 × Act) :=
  turns 0 4 ++ turns 1 25 ++ turns 2 3 ++ [(0, .call (.create 3))] ++ turns 0 23 ++
    [(0, .call (.create 3))] ++ turns 0 23

/-- Then it yields, which changes nothing in the count. -/
theorem unsignalled_bound_backlog : ∃ s n, Runs.Reach watch Runs.always (boot 2 2, 0) (s, n) ∧
    s.runqSize ≤ s.parkSignals + n ∧ s.runqSize = 2 ∧ s.parkSignals = 1 ∧ n = 1 := by
  obtain ⟨⟨s, n⟩, hs, hfree, hw, hr⟩ : ∃ x : State 4 3 × ℤ,
      Runs.Reach watch Runs.always (boot 2 2, 0) x ∧ (x.1.pmtx .runqMtx).owner = none ∧
        x.1.parkWaiters ≠ 0 ∧ x.1.runqSize = 2 ∧ x.1.parkSignals = 1 ∧ x.2 = 1 :=
    Runs.exists_reach (backlog ++ [(0, .call .yield)] ++ turns 0 8) (by decide +kernel)
  exact ⟨s, n, hs, unsignalled_bound hs hfree hw, hr⟩

/-- An LWP waits unsignalled while more threads are runnable than LWPs are signalled: the second
arrival signals nobody. -/
theorem unsignalled_backlog : ¬ ∀ (N L : ℕ) (s : State (N + 2) (L + 1)),
    Reachable Runs.always (boot N L) s → (s.pmtx .runqMtx).owner = none → s.parkWaiters ≠ 0 →
      s.runqSize ≤ s.parkSignals := by
  obtain ⟨s, hs, hfree, hw, hr⟩ : ∃ s, Reachable Runs.always (boot 2 2) s ∧
      (s.pmtx .runqMtx).owner = none ∧ s.parkWaiters ≠ 0 ∧ ¬ s.runqSize ≤ s.parkSignals :=
    Runs.exists_reach backlog (by decide +kernel)
  exact fun h => hr (h 2 2 s hs hfree hw)

end Uthreads
