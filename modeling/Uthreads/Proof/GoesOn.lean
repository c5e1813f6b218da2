import Uthreads.Proof.QueueStep

/-!
# How a running thread goes on

`Goes c c'` says that the code `c'` leaves its thread where `c` had it: in the same state, on the
same queue, ending or not. `effect_goes`: an instruction that does not put its thread to sleep, end
it or switch goes on in that sense.
-/

namespace Uthreads

variable {N L : ℕ} {l : Fin L} {t u : Fin N} {s s' s₁ : State N L} {i : Instr N}
  {c c' cs new : Code N}

open Instr

/-- `c'` leaves its thread where `c` had it. -/
structure Goes (c c' : Code N) : Prop where
  dying : panicDead ∈ c' ↔ panicDead ∈ c
  expect : expect c' = expect c
  link : panicDead ∉ c → linkOf c' = linkOf c

theorem linkOf_of_awake (h : asleep c = false) : linkOf c = none := by
  unfold linkOf
  split
  · simp [asleep] at h
  · simp [asleep] at h
  · rfl

theorem expect_awake (h : Awake c) (hd : panicDead ∉ c) :
    expect c = .onCpu ∧ asleep c = false ∧ linkOf c = none := by
  have ha : asleep c = false := by
    cases he : asleep c with
    | false => rfl
    | true => exact absurd (h he) hd
  exact ⟨by simp [expect, hd, ha], ha, linkOf_of_awake ha⟩

/-- Two codes that do not go to sleep. -/
theorem goes_of_awake (hd : panicDead ∈ c' ↔ panicDead ∈ c) (ha : Awake c) (ha' : Awake c') :
    Goes c c' := by
  refine ⟨hd, ?_, fun h => ?_⟩
  · by_cases h : panicDead ∈ c
    · simp [expect, h, hd]
    · rw [(expect_awake ha h).1, (expect_awake ha' (by rwa [hd])).1]
  · rw [(expect_awake ha h).2.2, (expect_awake ha' (by rwa [hd])).2.2]

/-- The lock of `runq_mtx` in front of a switch, or of something else. -/
theorem goes_lock (h : Held .runqMtx cs) : Goes (lock .runqMtx :: cs) cs := by
  cases cs with
  | nil => exact absurd h id
  | cons j cs =>
    by_cases hj : ∃ q sv m, j = swtch q sv m
    · obtain ⟨q, sv, m, rfl⟩ := hj
      refine ⟨by simp, by simp [expect, asleep], fun _ => ?_⟩
      cases q <;> cases sv <;> try rfl
      rcases m with _ | p
      · rfl
      · cases p <;> rfl
    · have hj' : ∀ q sv m, j ≠ swtch q sv m := fun q sv m e => hj ⟨q, sv, m, e⟩
      have hl : j ≠ lock .runqMtx := by rintro rfl; simp at h
      exact goes_of_awake (by simp) (awake_lock hj') (awake_cons hl hj')

/-- An instruction that only goes on to the rest of the code. -/
theorem goes_tail (h : Guarded (i :: cs)) (hl : i ≠ lock .runqMtx) (hs : ∀ q sv m, i ≠ swtch q sv m)
    (hw : ∀ k, i ≠ waitMark k) (hp : i ≠ panicDead) : Goes (i :: cs) cs :=
  goes_of_awake (by simp [hp.symm]) (awake_cons hl hs) (h.awake hl hw)

theorem plain_goes (h : Wf t (i :: cs)) (hst : (s.uthreads t).utState = expect (i :: cs))
    (he : Plain t s i new) : Goes (i :: cs) (new ++ cs) := by
  obtain ⟨hok, hg, -⟩ := h
  cases he with
  | resume | yieldAssert | wakeAssert | wakeDrop | lockOwned | waitDone | signalNone
  | broadcastNone | threadStart | ret =>
    exact goes_tail hg (by simp) (by simp) (by simp) (by simp)
  | setprio | trylockFail | allocNone | allocReturnNone | allocReturn
  | allocStack | allocStackFail | joinFail | joinZombie | claimFail | detachFail | reaperGo
  | reaperDrained | scanFound | scanNext | allocStart =>
    simp only [Ok] at hok
    subst hok
    exact goes_of_awake (by simp) (by simp) (by simp)
  | reapableNot u hz =>
    rcases hok with ⟨rfl, rfl⟩ | ⟨hne, r, rfl⟩
    · refine absurd ?_ hz
      rw [hst]; simp [expect, deadCode]
    · exact goes_of_awake (by simp [uthreadMtxUnlock]) (by simp) (by simp)
  | reapLate u k rv hz | detachLate u k hz =>
    simp only [Ok] at hok
    subst hok
    exact goes_of_awake (by simp [uthreadMtxUnlock]) (by simp) (by simp)
  | reap u k rv hz | detachZombie u k hz =>
    simp only [Ok] at hok
    subst hok
    exact goes_of_awake (by simp) (by simp) (by simp)
  | reaperWait hq =>
    simp only [Ok] at hok
    subst hok
    exact goes_of_awake (by simp [uthreadCondWait, uthreadMtxLock, uthreadMtxUnlock, uthreadSwitch])
      (by simp) (by simp [uthreadCondWait])

/-- **The thread goes on.** -/
theorem effect_goes (h : Wf t (i :: cs)) (hst : (s.uthreads t).utState = expect (i :: cs))
    (he : Effect l t s i s' new) (hs : (s'.uthreads t).utState = (s.uthreads t).utState)
    (hsw : ∀ q sv m, i ≠ swtch q sv m) : Goes (i :: cs) (new ++ cs) := by
  have hcpu : ∀ j : Instr N, i = j → (∃ x, j = lockTest x) ∨ (∃ x k, j = joinTest x k) →
      panicDead ∉ cs → (s.uthreads t).utState = .onCpu := by
    rintro j rfl hj hp
    rw [hst]
    rcases hj with ⟨x, rfl⟩ | ⟨x, k, rfl⟩ <;> simp [expect, asleep, hp]
  cases he with
  | plain hp => exact plain_goes h hst hp
  | swtch => exact absurd rfl (hsw _ _ _)
  | lock p =>
    by_cases hp : p = .runqMtx
    · subst hp; exact goes_lock h.1.1
    · exact goes_tail h.2.1 (by simp [hp]) (by simp) (by simp) (by simp)
  | unlock | nopreemptOn | nopreemptOff | interruptLeave | wake | start =>
    exact goes_tail h.2.1 (by simp) (by simp) (by simp) (by simp)
  | setprio u prio hs' hnew =>
    have hcs : cs = [] := h.1
    subst hcs
    rcases hnew with rfl | rfl
    · exact goes_of_awake (by simp [uthreadYield, uthreadSwitch]) (by simp) (by simp)
    · exact goes_of_awake (by simp) (by simp) (by simp)
  | take m ho hs' hnew =>
    rcases hnew with ⟨rfl, rfl⟩ | ⟨rfl, rfl⟩ <;>
      exact goes_of_awake (by simp) (by simp) (by simp)
  | block m ho =>
    rw [hcpu _ rfl (.inl ⟨m, rfl⟩) h.1.2] at hs
    simp at hs
  | release m hq hs' => exact goes_of_awake (by simp) (by simp) (by simp)
  | handOver m u hq hs' =>
    exact goes_of_awake (by simp [uthreadWake]) (by simp) (by simp)
  | waitMark k hs' =>
    obtain ⟨cs', rfl⟩ := h.1
    have hp : panicDead ∉ cs' := by
      have hok := h.2.2.2.2.1
      cases hok with
      | cond _ hd => simpa using hd
    rw [hs'.uthreads, hst] at hs
    simp [expect, asleep, uthreadSwitch, hp] at hs
  | signal k u hq hs' hnew =>
    rcases hnew with ⟨rfl, rfl⟩ | ⟨rfl, rfl⟩ <;>
      exact goes_of_awake (by simp [uthreadWake]) (by simp) (by simp [uthreadWake])
  | alloc start prio j hj hs' => exact goes_of_awake (by simp) (by simp) (by simp)
  | create w tid prio =>
    cases w <;> exact goes_of_awake (by simp [createRest, uthreadStartonrunq]) (by simp)
      (by simp [createRest, uthreadStartonrunq])
  | destroy d u =>
    have hcs : cs = [reaperDrain] := h.1
    subst hcs
    cases d <;> exact goes_of_awake (by simp [destroyRest]) (by simp) (by simp [destroyRest])
  | exitDetached u status hd | exitAlone u status hd =>
    obtain ⟨rfl, rfl⟩ := h.1
    rw [hst] at hs
    simp [expect, asleep] at hs
  | exitJoined u w status hd hq =>
    obtain ⟨rfl, rfl⟩ := h.1
    obtain ⟨-, he, -⟩ := dequeue_thread hq u
    rw [he, hst] at hs
    simp [expect, asleep] at hs
  | makeReapable u hz hs₁ hs' hnew =>
    subst hnew
    rcases h.1 with ⟨rfl, rfl⟩ | ⟨hne, r, rfl⟩
    · exact goes_of_awake
        (by simp [uthreadCondSignal, uthreadMtxUnlock, uthreadSwitch, deadCode]) (by simp)
        (by simp [uthreadCondSignal])
    · exact goes_of_awake (by simp [uthreadCondSignal, uthreadMtxUnlock, hne]) (by simp)
        (by simp [uthreadCondSignal])
  | joinWait u k hq hd hz hinit hs₁ hs' =>
    have hcs : cs = [] := h.1
    subst hcs
    obtain ⟨-, he, -⟩ := enqueue_thread hs₁ t
    rw [hcpu _ rfl (.inr ⟨u, k, rfl⟩) (by simp), hs'.uthreads, he] at hs
    simp at hs
  | claim u k hz =>
    exact goes_of_awake (by simp [uthreadMtxLock]) (by simp) (by simp)
  | detach u k hq hd hinit hs' hnew =>
    rcases hnew with ⟨-, rfl⟩ | ⟨-, rfl⟩ <;>
      exact goes_of_awake (by simp [uthreadMtxLock]) (by simp) (by simp [uthreadMtxLock])
  | drain u hq hz => exact goes_of_awake (by simp) (by simp) (by simp)

end Uthreads
