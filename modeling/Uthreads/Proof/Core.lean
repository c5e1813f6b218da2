import Uthreads.Proof.SlotStep

/-!
# The invariant holds in every reachable state

* `core_step`: every step keeps `Core`.
* `boot_core`: the state in which `create_first_thr` starts the LWPs has it.
* `core_reachable`: so it holds between any two steps of any run.
-/

namespace Uthreads

variable {N L : ℕ} {l : Fin L} {s s' : State N L} {a : Act}

open Instr

/-- **Every step keeps the invariant.** -/
theorem core_step (hc : Core s) (h : Move s l a s') : Core s' where
  codes := codes_step hc h
  locks := locks_step hc h
  links := (queues_step hc h).1
  runq := (queues_step hc h).2
  places := places_step hc h
  slots := slots_step hc h
  reap := reap_step hc h

theorem core_next {b : Fin L × Act} (hc : Core s) (h : next s b = some s') : Core s' :=
  core_step hc (step_move hc.codes.wf h)

/-- The reaper thread before its first step. -/
theorem wf_reaper (t : Fin N) : Wf t (threadStartCode ++ reaper) := by
  have h₁ : Wf t ([reaperWait] : Code N) := by simp [wf_cons, Ok, guarded_iff]
  have h₂ := wf_mtxLock .reapMtx h₁ (.of_free (by simp)) (by simp) (.inl (by simp)) (by simp)
    (by simp)
  simpa [threadStartCode, reaper, uthreadMtxLock, wf_cons, Ok, guarded_iff, DetachOnly] using h₂

theorem held_reaper (p : PmtxId N) : ¬ Held p (threadStartCode ++ reaper) := by
  simp [threadStartCode, reaper, uthreadMtxLock]

/-- The code of a thread in `boot`. -/
theorem boot_code (t : Fin (N + 2)) :
    ((boot N L).uthreads t).utCtx = threadStartCode ∨
      ((boot N L).uthreads t).utCtx = threadStartCode ++ reaper ∨ ((boot N L).uthreads t).utCtx = [] := by
  simp only [boot]
  split_ifs <;> simp [Uthread.first, Uthread.zero]

/-- A slot of `boot` is on the highest level of the run queue, or was never used. -/
theorem boot_cases (t : Fin (N + 2)) :
    (((boot N L).uthreads t).utLink = some (.runq (Fin.last uthMaxprio)) ∧
      ((boot N L).uthreads t).utState = .runnable ∧ ((boot N L).uthreads t).utPrio = uthMaxprio ∧
      Ready ((boot N L).uthreads t).utCtx ∧ ((boot N L).pmtx (.utPmut t)).status = .live ∧
      (t = 0 ∨ t = 1)) ∨
    (((boot N L).uthreads t) = Uthread.zero ∧ ((boot N L).pmtx (.utPmut t)).status = .zeroed ∧
      t ≠ 0 ∧ t ≠ 1) := by
  by_cases h₀ : t = 0
  · subst h₀
    left
    simp [boot, Uthread.first, Ready, threadStartCode, asleep]
  · by_cases h₁ : t = 1
    · subst h₁
      left
      simp [boot, Uthread.first, Ready, threadStartCode, asleep, reaper, uthreadMtxLock]
    · right
      simp [boot, h₀, h₁]

theorem boot_queue (q : QueueId (N + 2)) : ((boot N L).queues q).tqWaiters =
    if q = .runq (Fin.last uthMaxprio) then [0, 1] else [] := by
  simp only [boot]
  split_ifs <;> simp

theorem boot_off (t : Fin (N + 2)) : Off (boot N L) t := by
  intro l
  simp only [boot]
  split_ifs <;> simp

theorem boot_codes : Codes (boot N L) := by
  refine ⟨fun t => ?_, fun t => ?_, fun l t hon => ?_, fun l _ => ?_⟩
  · rcases boot_code (L := L) t with h | h | h <;> rw [h]
    · exact wf_threadStart t
    · exact wf_reaper t
    · exact wf_nil t
  · right
    by_cases h₀ : t = 0
    · subst h₀; simp [boot, Uthread.first, threadStartCode]
    · by_cases h₁ : t = 1
      · subst h₁; simp [boot, Uthread.first, threadStartCode, reaper, uthreadMtxLock]
      · simp [boot, h₀, h₁, Uthread.zero]
  · exact absurd hon.2 (boot_off t l)
  · simp only [boot]
    split_ifs <;> rfl

theorem boot_locks : Locks (boot N L) := by
  have hheld : ∀ p x, HeldBy (boot N L) p x → x = .inr 0 ∧ p = .runqMtx := by
    rintro p (t | l) h
    · have h' : Held p ((boot N L).uthreads t).utCtx := h
      rcases boot_code (L := L) t with e | e | e <;> rw [e] at h'
      · simp [threadStartCode] at h'
      · exact absurd h' (held_reaper p)
      · cases h'
    · simp only [HeldBy, boot] at h
      split_ifs at h with hl
      · subst hl; simpa using h
      · simp at h
  refine ⟨fun p x y hx hy => (hheld p x hx).1.trans (hheld p y hy).1.symm, fun p x hx => ?_⟩
  obtain ⟨-, rfl⟩ := hheld p x hx
  simp [boot]

theorem boot_links : LinkInv (boot N L) := by
  refine ⟨fun t q => ?_, fun q => ?_⟩
  · rw [boot_queue]
    rcases boot_cases (L := L) t with ⟨hlk, -, -, -, -, ht⟩ | ⟨hz, -, h₀, h₁⟩
    · rw [hlk, Option.some.injEq]
      split_ifs with hq
      · subst hq; simpa using ht
      · simpa using Ne.symm hq
    · rw [hz]
      split_ifs <;> simp [Uthread.zero, h₀, h₁]
  · rw [boot_queue]
    split_ifs <;> simp

theorem boot_runq : RunqInv (boot N L) := by
  refine ⟨fun t p => ?_, fun t ht => ?_, ?_⟩
  · rw [boot_queue]
    rcases boot_cases (L := L) t with ⟨-, hst, hp, -, -, ht⟩ | ⟨hz, -, h₀, h₁⟩
    · rw [hst, hp]
      split_ifs with hq
      · simp only [QueueId.runq.injEq] at hq
        subst hq
        simpa using ht
      · simp only [QueueId.runq.injEq] at hq
        simp only [List.not_mem_nil, true_and, false_iff]
        exact fun e => hq (Fin.ext (by exact_mod_cast e.symm))
    · rw [hz]
      split_ifs <;> simp [Uthread.zero, h₀, h₁]
  · rcases boot_cases (L := L) t with ⟨-, -, hp, -⟩ | ⟨hz, -⟩
    · exact ⟨Fin.last uthMaxprio, by rw [hp]; simp⟩
    · rw [hz] at ht; cases ht
  · rw [Finset.sum_eq_single (Fin.last uthMaxprio)]
    · simp [boot, Utqueue.init]
    · intro p _ hp
      simp [boot, hp, Utqueue.init]
    · simp

theorem boot_places : Places (boot N L) := by
  have hwakes : ∀ t, wakes ((boot N L).uthreads t).utCtx = [] := by
    intro t
    rcases boot_code (L := L) t with e | e | e <;> rw [e] <;>
      simp [threadStartCode, reaper, uthreadMtxLock]
  refine ⟨fun t => ?_, fun l k t hl => ?_, fun l hl => ?_, fun l p hl => ?_, fun u hu => ?_,
    fun t t' u hu => ?_, fun t => ?_⟩
  · rcases boot_cases (L := L) t with ⟨-, hst, -, hr, hl, -⟩ | ⟨hz, hl, -⟩
    · exact .queued (boot_off t) hst hr hl
    · exact .free (boot_off t) (by rw [Unstarted, hz]; exact .inl rfl) (by rw [hz]; rfl)
        (by rw [hz]; exact .inl (.inl rfl)) (by rw [hl]; decide)
  · exact absurd hl (boot_off t l)
  · exfalso
    obtain ⟨t, ht⟩ := Option.ne_none_iff_exists'.1 hl
    exact boot_off t l ht
  · simp only [boot] at hl
    split_ifs at hl
  · obtain ⟨t, ht⟩ := hu
    rw [hwakes] at ht
    cases ht
  · rw [hwakes] at hu
    cases hu
  · rw [hwakes]
    exact List.nodup_nil

theorem boot_slots : Slots (boot N L) := by
  have hstarts : ∀ t, starts ((boot N L).uthreads t).utCtx = [] ∧
      ∀ d u, destroy d u ∉ ((boot N L).uthreads t).utCtx := by
    intro t
    rcases boot_code (L := L) t with e | e | e <;> rw [e] <;>
      simp [threadStartCode, reaper, uthreadMtxLock]
  have hq : ∀ u, ((boot N L).queues (.utWaiter u)).tqWaiters = [] := by
    intro u
    rw [boot_queue]
    simp
  refine ⟨fun t ht => .inl ?_, fun t u hu => ?_, fun t t' u hu => ?_, fun t i hi => setUp_free ?_,
    fun u => by simp [hq], fun u _ => hq u, fun t d u hu => absurd hu ((hstarts t).2 d u)⟩
  · rcases boot_cases (L := L) t with ⟨-, -, -, -, hl, -⟩ | ⟨hz, -⟩
    · rw [hl]; decide
    · rw [hz] at ht; cases ht
  · rw [(hstarts t).1] at hu; cases hu
  · rw [(hstarts t).1] at hu; cases hu
  · exact List.flatMap_eq_nil_iff.1 (hstarts t).1 i hi

/-- **The invariant holds at the start.** -/
theorem boot_core : Core (boot N L) where
  codes := boot_codes
  locks := boot_locks
  links := boot_links
  runq := boot_runq
  places := boot_places
  slots := boot_slots
  reap t ht := by
    rcases boot_code (L := L) t with e | e | e <;> rw [e] at ht <;>
      simp [threadStartCode, reaper, uthreadMtxLock] at ht

/-- **The invariant holds between any two steps of any run.** -/
theorem core_reachable {ok : State N L → Fin L × Act → Prop} {s₀ : State N L} (h₀ : Core s₀)
    (h : Reachable ok s₀ s) : Core s :=
  h.invariant h₀ fun _ _ _ hc _ hn => core_next hc hn

/-- LWP `l` takes `n` steps. -/
def turns (l : Fin L) (n : ℕ) : List (Fin L × Act) := List.replicate n (l, .exec)

end Uthreads
