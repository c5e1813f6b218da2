import Uthreads.Sched.Runq
import Uthreads.Proof.Frame

/-!
# The counters of the LWPs, and the end of the process

`effect_counts`: an instruction of a uthread changes the counters of `lwp_park` only where a thread
arrives on the run queue. `next_stop`: a step that ends the process does it for a reason of `Stop`.
-/

namespace Uthreads

variable {N L : ℕ} {l : Fin L} {t : Fin N} {s s' s₁ : State N L} {i : Instr N} {new : Code N}

open Instr

/-- What `lwp_release` does to the waiting LWPs when a thread arrives on the run queue. -/
structure Arrives (s s' : State N L) : Prop where
  size : s'.runqSize = s.runqSize + 1
  quiet : s.runqSize ≠ 0 ∨ s.parkWaiters = 0 →
    s'.parkWaiters = s.parkWaiters ∧ s'.parkSignals = s.parkSignals
  signal : s.runqSize = 0 → s.parkWaiters ≠ 0 →
    s'.parkWaiters + 1 = s.parkWaiters ∧ s'.parkSignals = s.parkSignals + 1

/-- The waiting LWPs and the run queue are left alone. -/
structure Quiet (s s' : State N L) : Prop where
  size : s'.runqSize = s.runqSize
  waiters : s'.parkWaiters = s.parkWaiters
  signals : s'.parkSignals = s.parkSignals

/-- A thread is dispatched from the run queue. -/
structure Departs (s s' : State N L) : Prop where
  size : s'.runqSize + 1 = s.runqSize
  waiters : s'.parkWaiters = s.parkWaiters
  signals : s'.parkSignals = s.parkSignals

theorem lwpRelease_counts (s : State N L) : (lwpRelease s).runqSize = s.runqSize ∧
    (s.parkWaiters = 0 → lwpRelease s = s) ∧ (s.parkWaiters ≠ 0 →
      (lwpRelease s).parkWaiters + 1 = s.parkWaiters ∧
      (lwpRelease s).parkSignals = s.parkSignals + 1) := by
  unfold lwpRelease
  split_ifs with h
  · exact ⟨rfl, fun _ => rfl, fun hn => absurd h hn⟩
  · exact ⟨rfl, fun h' => absurd h' h, fun _ => ⟨Nat.sub_add_cancel (Nat.pos_of_ne_zero h), rfl⟩⟩

/-- An arrival signals a waiting LWP if, and only if, the run queue was empty. -/
theorem runqEnqueue_arrives (h : uthreadRunqEnqueue t s = .ok s') : Arrives s s' := by
  have hrelease : ∀ s₂ : State N L, s₂.runqSize = s.runqSize + 1 → s₂.parkWaiters = s.parkWaiters →
      s₂.parkSignals = s.parkSignals → s₂.runqSize = 1 → Arrives s (lwpRelease s₂) := by
    intro s₂ hsz hw hs h1
    have h0 : s.runqSize = 0 := by omega
    obtain ⟨hsz', hnone, hsome⟩ := lwpRelease_counts s₂
    rw [hw, hs] at hsome
    refine ⟨hsz'.trans hsz, fun h => ?_, fun _ => hsome⟩
    rw [hnone (hw.trans (h.resolve_left fun hn => hn h0))]
    exact ⟨hw, hs⟩
  have hstill : ∀ s₂ : State N L, s₂.runqSize = s.runqSize + 1 → s₂.parkWaiters = s.parkWaiters →
      s₂.parkSignals = s.parkSignals → s₂.runqSize ≠ 1 → Arrives s s₂ := by
    intro s₂ hsz hw hs h1
    exact ⟨hsz, fun _ => ⟨hw, hs⟩, fun h0 => absurd (by omega) h1⟩
  unfold uthreadRunqEnqueue at h
  split at h
  · cases h
  · obtain ⟨s₁, hs₁, h⟩ := except_bind_ok.1 h
    obtain ⟨-, rfl⟩ := utqueueEnqueue_ok hs₁
    simp only [except_pure_ok] at h
    split_ifs at h with h1
    · exact h ▸ hrelease _ rfl rfl rfl h1
    · exact h ▸ hstill _ rfl rfl rfl h1

/-- The counters after an instruction of a uthread. -/
theorem effect_counts (he : Effect l t s i s₁ new) :
    s₁.lwpCnt = s.lwpCnt ∧ s₁.lwpParkedCnt = s.lwpParkedCnt ∧ s₁.halt = s.halt ∧
      (Quiet s s₁ ∨ Arrives s s₁ ∧ PmtxId.runqMtx ∈ i.needs) := by
  have hcore : ∀ {s₂ : State N L}, s₂.lwpCnt = s.lwpCnt → s₂.lwpParkedCnt = s.lwpParkedCnt →
      s₂.halt = s.halt → Quiet s s₂ → SameCore s₂ s₁ → s₁.lwpCnt = s.lwpCnt ∧
      s₁.lwpParkedCnt = s.lwpParkedCnt ∧ s₁.halt = s.halt ∧
      (Quiet s s₁ ∨ Arrives s s₁ ∧ PmtxId.runqMtx ∈ i.needs) :=
    fun h₁ h₂ h₃ hq hs => ⟨hs.lwpCnt.trans h₁, hs.lwpParkedCnt.trans h₂, hs.halt.trans h₃,
      .inl ⟨hs.runqSize.trans hq.size, hs.parkWaiters.trans hq.waiters,
        hs.parkSignals.trans hq.signals⟩⟩
  have hdeq : ∀ {q : QueueId N} {u : Fin N} {s₀ s₂ : State N L},
      utqueueDequeue q s₀ = some (u, s₂) → s₂.lwpCnt = s₀.lwpCnt ∧
      s₂.lwpParkedCnt = s₀.lwpParkedCnt ∧ s₂.halt = s₀.halt ∧ Quiet s₀ s₂ := by
    intro q u s₀ s₂ h
    obtain ⟨x, -, rfl⟩ := utqueueDequeue_some h
    exact ⟨rfl, rfl, rfl, ⟨rfl, rfl, rfl⟩⟩
  have henq : ∀ {q : QueueId N} {u : Fin N} {s₀ s₂ : State N L},
      utqueueEnqueue q u s₀ = .ok s₂ → s₂.lwpCnt = s₀.lwpCnt ∧
      s₂.lwpParkedCnt = s₀.lwpParkedCnt ∧ s₂.halt = s₀.halt ∧ Quiet s₀ s₂ := by
    intro q u s₀ s₂ h
    obtain ⟨-, rfl⟩ := utqueueEnqueue_ok h
    exact ⟨rfl, rfl, rfl, ⟨rfl, rfl, rfl⟩⟩
  have hquiet : Quiet s s := ⟨rfl, rfl, rfl⟩
  cases he with
  | plain hp hs => exact hcore rfl rfl rfl hquiet hs
  | swtch hsw =>
    cases hsw with
    | yield hz hs₁ =>
      obtain ⟨h₁, h₂, h₃⟩ := runqEnqueue_arrives hs₁
      have hr := runqEnqueue_rest hs₁
      exact ⟨hr.lwpCnt, hr.lwpParkedCnt, hr.halt, .inr ⟨⟨h₁, h₂, h₃⟩, by simp⟩⟩
    | queue q p hs₁ hs =>
      obtain ⟨h₁, h₂, h₃, hq⟩ := henq hs₁
      exact ⟨hs.lwpCnt.trans h₁, hs.lwpParkedCnt.trans h₂, hs.halt.trans h₃,
        .inl ⟨hs.runqSize.trans hq.size, hs.parkWaiters.trans hq.waiters,
          hs.parkSignals.trans hq.signals⟩⟩
    | leave | gone => exact ⟨rfl, rfl, rfl, .inl ⟨rfl, rfl, rfl⟩⟩
  | wake u hw hs =>
    obtain ⟨h₁, h₂, h₃⟩ := runqEnqueue_arrives hs
    have hr := runqEnqueue_rest hs
    exact ⟨hr.lwpCnt, hr.lwpParkedCnt, hr.halt, .inr ⟨⟨h₁, h₂, h₃⟩, by simp⟩⟩
  | start u prio hw hs =>
    obtain ⟨h₁, h₂, h₃⟩ := runqEnqueue_arrives hs
    have hr := runqEnqueue_rest hs
    exact ⟨hr.lwpCnt, hr.lwpParkedCnt, hr.halt, .inr ⟨⟨h₁, h₂, h₃⟩, by simp⟩⟩
  | setprio u prio hs hnew =>
    rcases hs with ⟨rfl, -⟩ | ⟨-, hr⟩
    · exact ⟨rfl, rfl, rfl, .inl ⟨rfl, rfl, rfl⟩⟩
    · obtain ⟨p, p', -, -, hm, rfl⟩ := runqRequeue_ok hr
      exact ⟨rfl, rfl, rfl, .inl ⟨rfl, rfl, rfl⟩⟩
  | handOver m u hq hs | signal c u hq hs =>
    obtain ⟨h₁, h₂, h₃, hq⟩ := hdeq hq
    exact ⟨hs.lwpCnt.trans h₁, hs.lwpParkedCnt.trans h₂, hs.halt.trans h₃,
      .inl ⟨hs.runqSize.trans hq.size, hs.parkWaiters.trans hq.waiters,
        hs.parkSignals.trans hq.signals⟩⟩
  | exitJoined u w status hd hq =>
    obtain ⟨h₁, h₂, h₃, ⟨hq₁, hq₂, hq₃⟩⟩ := hdeq hq
    exact ⟨h₁, h₂, h₃, .inl ⟨hq₁, hq₂, hq₃⟩⟩
  | drain u hq =>
    obtain ⟨h₁, h₂, h₃, hq⟩ := hdeq hq
    exact ⟨h₁, h₂, h₃, .inl hq⟩
  | makeReapable u hz hs₁ hs =>
    obtain ⟨h₁, h₂, h₃, hq⟩ := henq hs₁
    exact hcore h₁ h₂ h₃ hq hs
  | joinWait u k hq hd hz hinit hs₁ hs =>
    obtain ⟨h₁, h₂, h₃, ⟨hq₁, hq₂, hq₃⟩⟩ := henq hs₁
    exact hcore h₁ h₂ h₃ ⟨hq₁, hq₂, hq₃⟩ hs
  | take m ho hs | release m hq hs | waitMark c hs | alloc start prio j hj hs
  | detach u k hq hd hinit hs =>
    exact ⟨hs.lwpCnt, hs.lwpParkedCnt, hs.halt, .inl ⟨hs.runqSize, hs.parkWaiters, hs.parkSignals⟩⟩
  | create w u =>
    obtain ⟨hr, hsize, hw, hsig⟩ := createWrite_rest s u w
    exact ⟨hr.lwpCnt, hr.lwpParkedCnt, hr.halt, .inl ⟨hsize, hw, hsig⟩⟩
  | destroy d u =>
    obtain ⟨-, -, hh, hsize, hcnt, hp, hw, hsig⟩ := destroyWrite_rest s u d
    exact ⟨hcnt, hp, hh, .inl ⟨hsize, hw, hsig⟩⟩
  | _ => exact ⟨rfl, rfl, rfl, .inl ⟨rfl, rfl, rfl⟩⟩

/-- **How a step ends the process.** -/
theorem next_stop {a : Act} {e : Halt} (hwf : ∀ t, Wf t (s.uthreads t).utCtx)
    (h : next s (l, a) = some s') (he : s'.halt = some e) :
    Stop s l a e ∧ s' = { s with halt := some e } := by
  have hs : s.halt = none := by
    have h' := (next_step h).2
    unfold step at h'
    split at h'
    · cases h'
    · rename_i hne; simpa using hne
  have hnot : s'.halt ≠ s.halt := by rw [he, hs]; exact Option.some_ne_none e
  cases step_move hwf h with
  | halted e' hstop =>
    obtain rfl : e' = e := Option.some.inj he
    exact ⟨hstop, rfl⟩
  | thread t i cs new hon hcode heff => exact absurd (effect_counts heff).2.2.1 hnot
  | dispatch t hm hd =>
    obtain ⟨p, x, -, -, rfl⟩ := dispatchBody_some hd
    exact absurd rfl hnot
  | acquire _ _ _ _ _ _ _ ht | idle _ _ _ _ _ ht | leave _ _ _ _ _ _ ht => exact absurd ht hnot
  | call | preempt | unlock => exact absurd rfl hnot

end Uthreads
