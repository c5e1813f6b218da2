import Uthreads.Proof.Turn

/-!
# The code of `uthread_cond_wait`

`CondCode c code` says how the instructions of a wait on `c` follow each other in `code`: the thread
releases the mutex, marks itself, joins `uc_waiters`, comes back. `waitStage` is how far it is.
`effect_condCode` and `effect_stage` say what an instruction does to the two.
-/

namespace Uthreads

variable {N L : ℕ} {l : Fin L} {t u v : Fin N} {s s₁ : State N L} {i j : Instr N}
  {c : CondId} {d cs new : Code N}

open Instr

/-- The instruction joins `uc_waiters`. -/
@[simp] def Instr.joinsCond (c : CondId) : Instr N → Bool
  | swtch (some (.ucWaiters c')) _ _ => decide (c' = c)
  | _ => false

/-- The instructions of a wait that its stages are told from. -/
@[simp] def Instr.inWait (c : CondId) : Instr N → Bool
  | waitMark c' | waitDone c' => decide (c' = c)
  | swtch (some (.ucWaiters c')) _ _ => decide (c' = c)
  | _ => false

/-- The instructions that are not executed between the release of the mutex and the mark. -/
@[simp] def Instr.bars (c : CondId) : Instr N → Bool
  | lock (.cPmut c') | signalTest c' | broadcastTest c' => decide (c' = c)
  | panicDead => true
  | _ => false

/-- The thread has released the mutex of its wait on `c` and not marked itself yet. -/
def Released (c : CondId) : Code N → Prop
  | [] => False
  | i :: cs => i = waitMark c ∨ (∀ m, i ≠ unlockTest m) ∧ Released c cs

/-- How the rest of the code follows the instruction. -/
structure Follows (c : CondId) (i : Instr N) (cs : Code N) : Prop where
  mark : i = waitMark c → waitMark c ∉ cs
  joins : i.joinsCond c = true →
    waitDone c ∈ cs ∧ waitMark c ∉ cs ∧ cs.any (joinsCond c) = false
  done : i = waitDone c → ∀ j ∈ cs, j.inWait c = false
  /-- Nothing happens between the mark and the switch. -/
  ahead : cs.any (joinsCond c) = true → waitMark c ∈ i :: cs ∨
    i = lock .runqMtx ∧ ∃ j cs', cs = j :: cs' ∧ j.joinsCond c = true
  /-- `pmut` is locked before the mutex is released. -/
  held : i.bars c = true → ¬ Released c cs

/-- The instructions of a wait on `c` follow each other as in `uthread_cond_wait`. -/
def CondCode (c : CondId) : Code N → Prop
  | [] => True
  | i :: cs => Follows c i cs ∧ CondCode c cs

/-- How far a wait is: it has not begun, or is over; the thread is on its way to the queue; it has
joined the queue and not returned. -/
inductive WaitStage
  | out | going | back
  deriving DecidableEq

def waitStage (c : CondId) (d : Code N) : WaitStage :=
  if d.contains (waitDone c) && !d.contains (waitMark c) then
    if d.any (joinsCond c) then .going else .back
  else .out

/-! ## Codes -/

theorem inWait_false : i.inWait c = false ↔ i ≠ waitMark c ∧ i ≠ waitDone c ∧ i.joinsCond c = false := by
  cases i with
  | swtch q =>
    rcases q with _ | q
    · simp
    · cases q <;> simp
  | _ => simp

theorem follows_iff : Follows c i cs ↔ (i = waitMark c → waitMark c ∉ cs) ∧
    (i.joinsCond c = true → waitDone c ∈ cs ∧ waitMark c ∉ cs ∧ cs.any (joinsCond c) = false) ∧
    (i = waitDone c → ∀ j ∈ cs, j.inWait c = false) ∧
    (cs.any (joinsCond c) = true → waitMark c ∈ i :: cs ∨
      i = lock .runqMtx ∧ ∃ j cs', cs = j :: cs' ∧ j.joinsCond c = true) ∧
    (i.bars c = true → ¬ Released c cs) :=
  ⟨fun h => ⟨h.mark, h.joins, h.done, h.ahead, h.held⟩, fun ⟨h₁, h₂, h₃, h₄, h₅⟩ => ⟨h₁, h₂, h₃, h₄, h₅⟩⟩

theorem Released.mem (h : Released c d) : waitMark c ∈ d := by
  induction d with
  | nil => exact absurd h id
  | cons i d ih =>
    rcases h with rfl | ⟨-, h⟩
    · simp
    · exact List.mem_cons_of_mem _ (ih h)

theorem Released.of_append (h : Released c (new ++ cs)) (hnew : waitMark c ∉ new) : Released c cs := by
  induction new with
  | nil => exact h
  | cons i new ih =>
    rcases h with rfl | ⟨-, h⟩
    · simp at hnew
    · exact ih h fun hj => hnew (List.mem_cons_of_mem _ hj)

/-- Code that has nothing to do with `c`. -/
theorem condCode_of_none (h : ∀ j ∈ d, j.inWait c = false) : CondCode c d := by
  induction d with
  | nil => trivial
  | cons i d ih =>
    have hd : ∀ j ∈ d, j.inWait c = false := fun j hj => h j (List.mem_cons_of_mem _ hj)
    obtain ⟨hm, hdone, hjoin⟩ := inWait_false.1 (h i (by simp))
    refine ⟨⟨fun e => absurd e hm, fun e => ?_, fun e => absurd e hdone, fun hany => ?_, fun _ hr => ?_⟩,
      ih hd⟩
    · rw [hjoin] at e
      cases e
    · obtain ⟨j, hj, hjj⟩ := List.any_eq_true.1 hany
      rw [(inWait_false.1 (hd j hj)).2.2] at hjj
      cases hjj
    · exact (inWait_false.1 (hd _ hr.mem)).1 rfl

/-- An instruction in front changes nothing. -/
theorem any_joins_append (h : ∀ j ∈ new, j.inWait c = false) :
    (new ++ cs).any (joinsCond c) = cs.any (joinsCond c) := by
  rw [List.any_append]
  have : new.any (joinsCond c) = false := List.any_eq_false.2 fun j hj => by
    rw [(inWait_false.1 (h j hj)).2.2]
    simp
  rw [this, Bool.false_or]

theorem going_iff : waitStage c d = .going ↔
    (waitDone c ∈ d ∧ waitMark c ∉ d) ∧ d.any (joinsCond c) = true := by
  unfold waitStage
  split_ifs with h₁ h₂ <;> simp_all

theorem waitStage_append (h : ∀ j ∈ new, j.inWait c = false) :
    waitStage c (new ++ cs) = waitStage c cs := by
  have hm : waitMark c ∉ new := fun hj => (inWait_false.1 (h _ hj)).1 rfl
  have hd : waitDone c ∉ new := fun hj => (inWait_false.1 (h _ hj)).2.1 rfl
  unfold waitStage
  rw [any_joins_append h]
  simp [hm, hd]

theorem waitStage_of_none (h : ∀ j ∈ d, j.inWait c = false) : waitStage c d = .out := by
  have hnil : waitStage c (d ++ []) = waitStage c [] := waitStage_append h
  rw [List.append_nil] at hnil
  rw [hnil]
  simp [waitStage]

/-- Instructions of other functions in front of a code. -/
theorem condCode_append (hcs : CondCode c cs) (h : ∀ j ∈ new, j.inWait c = false)
    (hbars : ∀ j ∈ new, j.bars c = true → ¬ Released c cs)
    (hfront : new ≠ [] → cs.any (joinsCond c) = true → waitMark c ∈ cs) : CondCode c (new ++ cs) := by
  induction new with
  | nil => exact hcs
  | cons i new ih =>
    have hnew : ∀ j ∈ new, j.inWait c = false := fun j hj => h j (List.mem_cons_of_mem _ hj)
    obtain ⟨hm, hdone, hjoin⟩ := inWait_false.1 (h i (by simp))
    refine ⟨⟨fun e => absurd e hm, fun e => ?_, fun e => absurd e hdone, fun hany => ?_, fun e => ?_⟩,
      ih hnew (fun j hj => hbars j (List.mem_cons_of_mem _ hj)) fun _ => hfront (by simp)⟩
    · rw [hjoin] at e
      cases e
    · have hany' : cs.any (joinsCond c) = true := any_joins_append hnew ▸ hany
      exact .inl (List.mem_cons_of_mem _ (List.mem_append_right _ (hfront (by simp) hany')))
    · exact fun hr => hbars i (by simp) e (hr.of_append fun hj => (inWait_false.1 (hnew _ hj)).1 rfl)

/-- A call of `uthread_cond_wait`. -/
theorem condCode_condWait (c' : CondId) (m : MtxId) (h : ∀ j ∈ d, j.inWait c = false) :
    CondCode c (uthreadCondWait c' m ++ d) ∧ waitStage c (uthreadCondWait c' m ++ d) = .out := by
  by_cases hc : c' = c
  · subst hc
    have hm : waitMark c' ∉ d := fun hj => (inWait_false.1 (h _ hj)).1 rfl
    have hd : waitDone c' ∉ d := fun hj => (inWait_false.1 (h _ hj)).2.1 rfl
    have hall : ∀ j ∈ d, j.joinsCond c' = false := fun j hj => (inWait_false.1 (h j hj)).2.2
    have hcd := condCode_of_none h
    refine ⟨?_, by simp [waitStage, uthreadCondWait]⟩
    simp [uthreadCondWait, uthreadMtxUnlock, uthreadMtxLock, uthreadSwitch, CondCode, follows_iff, Released,
      hm, hd, hcd]
    exact ⟨hall, h, hall⟩
  · have hnone : ∀ j ∈ uthreadCondWait c' m ++ d, j.inWait c = false := by
      intro j hj
      rcases List.mem_append.1 hj with hj | hj
      · simp only [uthreadCondWait, uthreadMtxUnlock, uthreadMtxLock, uthreadSwitch, List.mem_append,
          List.mem_cons, List.not_mem_nil, or_false] at hj
        rcases hj with (((((((rfl | rfl) | rfl | rfl | rfl) | rfl) | rfl | rfl | rfl) | rfl) |
          rfl | rfl | rfl) | rfl | rfl | rfl) <;> simp [hc]
      · exact h j hj
    exact ⟨condCode_of_none hnone, waitStage_of_none hnone⟩

/-! ## Instructions -/

/-- Only the reaper waits inside a function of the library. -/
theorem effect_inWait (he : Effect l t s i s₁ new) : (∀ j ∈ new, j.inWait c = false) ∨
    i = reaperWait ∧ new = uthreadCondWait .reapCond .reapMtx ++ [reaperWait] := by
  by_contra! h
  obtain ⟨⟨j, hj, hw⟩, h⟩ := h
  obtain rfl : i = reaperWait := by
    have hb := effect_before he j hj
    cases j with
    | swtch q =>
      rcases q with _ | q
      · exact absurd rfl hw
      · cases q with
        | ucWaiters => exact hb.2
        | _ => exact absurd rfl hw
    | waitMark | waitDone => exact hb.2
    | _ => exact absurd rfl hw
  cases he with
  | plain hp =>
    cases hp with
    | reaperWait => exact h rfl rfl
    | reaperGo => simp at hj; subst hj; exact hw rfl
  | take _ _ _ h | signal _ _ _ _ h => rcases h with ⟨h, -⟩ | ⟨h, -⟩ <;> cases h

/-- Where a `pmut` is locked or a thread ends, no wait is going on. -/
theorem effect_bars (hok : Ok t i cs) (he : Effect l t s i s₁ new) (hj : j ∈ new)
    (hb : j.bars c = true) : i = reaperWait ∨ i = broadcastTest c ∨ ∀ j ∈ cs, j.inWait c = false := by
  have hnone : (∀ j ∈ new, j.bars c = false) → i = reaperWait ∨ i = broadcastTest c ∨
      ∀ j ∈ cs, j.inWait c = false := fun h => by
    rw [h j hj] at hb
    cases hb
  cases he with
  | plain hp =>
    cases hp with
    | reaperWait => exact .inl rfl
    | _ => exact hnone (by simp [uthreadMtxUnlock])
  | setprio u prio hs h =>
    refine hnone ?_
    rcases h with rfl | rfl <;> simp [uthreadYield, uthreadSwitch]
  | take m ho hs h =>
    refine hnone ?_
    rcases h with ⟨-, rfl⟩ | ⟨-, rfl⟩ <;> simp
  | signal c' u hq hs h =>
    rcases h with ⟨-, rfl⟩ | ⟨rfl, rfl⟩
    · exact hnone (by simp [uthreadWake])
    · by_cases hc : c' = c
      · exact .inr (.inl (by rw [hc]))
      · exact hnone (by simp [uthreadWake, hc])
  | detach u k hq hd hinit hs h =>
    refine hnone ?_
    rcases h with ⟨-, rfl⟩ | ⟨-, rfl⟩ <;> simp [uthreadMtxLock]
  | makeReapable u =>
    right
    right
    rcases hok with ⟨-, rfl⟩ | ⟨-, r, rfl⟩ <;> simp [deadCode, uthreadSwitch]
  | exitDetached | exitAlone | exitJoined =>
    right
    right
    rw [hok.2]
    simp
  | create w => exact hnone (by cases w <;> simp [createRest, uthreadStartonrunq])
  | destroy d => exact hnone (by cases d <;> simp [destroyRest])
  | _ => exact hnone (by simp [uthreadSwitch, uthreadWake, uthreadMtxLock])

/-- **The code of an instruction.** -/
theorem effect_condCode (hwf : Wf t (i :: cs)) (h : CondCode c (i :: cs))
    (he : Effect l t s i s₁ new) : CondCode c (new ++ cs) := by
  rcases effect_inWait (c := c) he with hnew | ⟨rfl, rfl⟩
  · by_cases hcs : ∀ j ∈ cs, j.inWait c = false
    · refine condCode_of_none fun j hj => ?_
      rcases List.mem_append.1 hj with hj | hj
      · exact hnew j hj
      · exact hcs j hj
    · refine condCode_append h.2 hnew (fun j hj hb hr => ?_) fun hne hany => ?_
      · rcases effect_bars hwf.1 he hj hb with rfl | rfl | hnone
        · have hnil : cs = [] := hwf.1
          exact hcs (by simp [hnil])
        · exact h.1.held (by simp) hr
        · exact hcs hnone
      rcases h.1.ahead hany with hm | ⟨rfl, -⟩
      · rcases List.mem_cons.1 hm with rfl | hm
        · exact absurd (effect_straight he rfl) hne
        · exact hm
      · exact absurd (effect_lock he).1 hne
  · have hnil : cs = [] := hwf.1
    rw [hnil, List.append_nil]
    exact (condCode_condWait _ _ (by simp)).1

/-- **How far the wait is after an instruction** of another function. -/
theorem effect_stage (hwf : Wf t (i :: cs)) (hi : i.inWait c = false) (he : Effect l t s i s₁ new) :
    waitStage c (new ++ cs) = waitStage c (i :: cs) := by
  have hfront : waitStage c ([i] ++ cs) = waitStage c cs := waitStage_append (by simpa using hi)
  rw [List.singleton_append] at hfront
  rcases effect_inWait (c := c) he with hnew | ⟨rfl, rfl⟩
  · rw [waitStage_append hnew, hfront]
  · have hnil : cs = [] := hwf.1
    rw [hfront, hnil, List.append_nil, (condCode_condWait _ _ (by simp)).2]
    rfl

/-- The thread marks itself. -/
theorem effect_mark (hwf : Wf t (waitMark c :: cs)) (h : CondCode c (waitMark c :: cs))
    (he : Effect l t s (waitMark c) s₁ new) : waitStage c (waitMark c :: cs) = .out ∧
      waitStage c (new ++ cs) = .going := by
  obtain rfl : new = [] := effect_straight he rfl
  obtain ⟨cs', rfl⟩ := hwf.1
  have hm := h.1.mark rfl
  have hd : waitDone c ∈ cs' := by simpa using (h.2.2.1.joins (by simp)).1
  simp only [uthreadSwitch, List.cons_append, List.nil_append] at hm ⊢
  exact ⟨by simp [waitStage], by simp [waitStage, hm, hd]⟩

/-- The thread joins the queue. -/
theorem effect_join {q : Option (QueueId N)} {sv : Bool} {r : Option (PmtxId N)}
    (h : CondCode c (swtch q sv r :: cs)) (hi : (swtch q sv r).joinsCond c = true)
    (he : Effect l t s (swtch q sv r) s₁ new) :
    waitStage c (swtch q sv r :: cs) = .going ∧ waitStage c (new ++ cs) = .back := by
  obtain rfl : new = [] := effect_straight he rfl
  obtain ⟨hd, hm, hj⟩ := h.1.joins hi
  have hany : (swtch q sv r :: cs).any (joinsCond c) = true :=
    List.any_eq_true.2 ⟨_, List.mem_cons_self, hi⟩
  constructor
  · exact going_iff.2 ⟨⟨by simp [hd], by simp [hm]⟩, hany⟩
  · simp [waitStage, hd, hm, hj]

/-- The thread returns. -/
theorem effect_waitDone (h : CondCode c (waitDone c :: cs)) (he : Effect l t s (waitDone c) s₁ new) :
    waitStage c (waitDone c :: cs) = .back ∧ waitStage c (new ++ cs) = .out := by
  have hnone := h.1.done rfl
  have hm : waitMark c ∉ cs := fun hj => (inWait_false.1 (hnone _ hj)).1 rfl
  have hj : cs.any (joinsCond c) = false := List.any_eq_false.2 fun j hj => by
    rw [(inWait_false.1 (hnone j hj)).2.2]
    simp
  have hnew : new = [] := by
    cases he with
    | plain hp => cases hp; rfl
    | take _ _ _ hnew | signal _ _ _ _ hnew => rcases hnew with ⟨h, -⟩ | ⟨h, -⟩ <;> cases h
  refine ⟨?_, ?_⟩
  · simp [waitStage, hm, List.any_cons, hj]
  · rw [hnew, List.nil_append]
    exact waitStage_of_none hnone

/-! ## The POSIX mutex of the condition variable -/

/-- Who is on the way to the queue holds `pmut`. -/
theorem CondCode.going_held (h : CondCode c d) (hwf : Wf t d) (hg : waitStage c d = .going) :
    Held (.cPmut c) d ∧ ∃ i cs, d = i :: cs ∧ (i = lock .runqMtx ∨ i.joinsCond c = true) := by
  have hneeds : ∀ {j : Instr N} {cs : Code N}, Wf t (j :: cs) → j.joinsCond c = true →
      PmtxId.cPmut c ∈ j.needs := by
    intro j cs hwf' hj
    cases j with
    | swtch q sv r =>
      obtain ⟨rfl⟩ : q = some (.ucWaiters c) := by
        rcases q with _ | q
        · cases hj
        · cases q <;> simp_all
      cases hwf'.1 with
      | cond => simp
    | _ => cases hj
  obtain ⟨⟨-, hm⟩, hany⟩ := going_iff.1 hg
  cases d with
  | nil => cases hany
  | cons i cs =>
    by_cases hi : i.joinsCond c = true
    · exact ⟨.inl (hneeds hwf hi), i, cs, rfl, .inr hi⟩
    · have hcs : cs.any (joinsCond c) = true := by
        obtain ⟨j, hj, hjj⟩ := List.any_eq_true.1 hany
        rcases List.mem_cons.1 hj with rfl | hj
        · exact absurd hjj hi
        · exact List.any_eq_true.2 ⟨j, hj, hjj⟩
      rcases h.1.ahead hcs with hmem | ⟨rfl, j, cs', rfl, hj⟩
      · exact absurd hmem hm
      · exact ⟨.inr ⟨by simp, by simp, .inl (hneeds hwf.2.2 hj)⟩, _, _, rfl, .inl rfl⟩

/-- Who has released the mutex of its wait holds `pmut`. -/
theorem CondCode.released_held (h : CondCode c d) (hwf : Wf t d) (hr : Released c d) :
    Held (.cPmut c) d := by
  induction d with
  | nil => exact absurd hr id
  | cons i d ih =>
    rcases hr with rfl | ⟨-, hr'⟩
    · obtain ⟨cs', rfl⟩ := hwf.1
      simp [uthreadSwitch]
    · refine .inr ⟨fun hl => ?_, fun e => h.1.held (by simp [e]) hr', ih h.2 hwf.2.2 hr'⟩
      cases i with
      | lock p =>
        obtain rfl : PmtxId.cPmut c = p := by simpa using hl
        exact h.1.held (by simp) hr'
      | _ => cases hl

theorem CondCode.waitDone_mem (h : CondCode c d) (hany : d.any (joinsCond c) = true) :
    waitDone c ∈ d := by
  induction d with
  | nil => cases hany
  | cons i d ih =>
    by_cases hi : i.joinsCond c = true
    · exact List.mem_cons_of_mem _ (h.1.joins hi).1
    · refine List.mem_cons_of_mem _ (ih h.2 ?_)
      obtain ⟨j, hj, hjj⟩ := List.any_eq_true.1 hany
      rcases List.mem_cons.1 hj with rfl | hj
      · exact absurd hjj hi
      · exact List.any_eq_true.2 ⟨j, hj, hjj⟩

/-- The code of an interrupt in front of a code that can be interrupted. -/
theorem condCode_interrupt (h : CondCode c d) (hwf : Wf t d) (hd : d = [nopreemptOff] ∨ depth d = 0) :
    CondCode c (clockInterrupt ++ d) ∧ waitStage c (clockInterrupt ++ d) = waitStage c d := by
  have hnone : ∀ j ∈ (clockInterrupt : Code N), j.inWait c = false := by
    simp [clockInterrupt, uthreadYield, uthreadSwitch]
  refine ⟨condCode_append h hnone ?_ fun _ hany => ?_, waitStage_append hnone⟩
  · simp [clockInterrupt, uthreadYield, uthreadSwitch]
  · -- it holds no `pmut`
    by_contra hm
    have hg : waitStage c d = .going := going_iff.2 ⟨⟨h.waitDone_mem hany, hm⟩, hany⟩
    exact calm_held hwf hd (h.going_held hwf hg).1

theorem call_condCode (inc : Fin N → ℕ) (t : Fin N) (call : Call) :
    CondCode c (call.code inc t) ∧ waitStage c (call.code inc t) = .out := by
  have hnone : (∀ j ∈ call.code inc t, j.inWait c = false) →
      CondCode c (call.code inc t) ∧ waitStage c (call.code inc t) = .out := fun h =>
    ⟨condCode_of_none h, waitStage_of_none h⟩
  cases call with
  | condWait k i =>
    have := condCode_condWait (c := c) (d := ([] : Code N)) (.user k) (.user i) (by simp)
    rwa [List.append_nil] at this
  | join uid =>
    refine hnone ?_
    simp only [Call.code, uthreadJoin]
    split <;> simp
  | detach uid =>
    refine hnone ?_
    simp only [Call.code, uthreadDetach]
    split <;> simp
  | setprio uid prio =>
    refine hnone ?_
    simp only [Call.code, uthreadSetprio]
    split
    · simp
    · split <;> simp
  | _ =>
    refine hnone ?_
    simp [Call.code, uthreadCreate, uthreadExit, uthreadYield, uthreadSwitch, uthreadMtxLock,
      uthreadMtxTrylock, uthreadMtxUnlock, uthreadCondSignal, uthreadCondBroadcast]

/-! ## Signals and broadcasts -/

/-- What a signal, or a round of a broadcast, does when somebody waits. -/
theorem effect_signalled {x : List (Fin N)} (he : Effect l t s i s₁ new)
    (hi : i = signalTest c ∨ i = broadcastTest c) (hw : (s.queues (.ucWaiters c)).tqWaiters = v :: x) :
    (s₁.queues (.ucWaiters c)).tqWaiters = x ∧ (i = signalTest c ∧ new = uthreadWake v ∨
      i = broadcastTest c ∧ new = uthreadWake v ++ [broadcastTest c]) := by
  cases he with
  | plain hp =>
    rcases hi with rfl | rfl <;> cases hp <;> rename_i h <;> rw [hw] at h <;> cases h
  | signal c' u hd hs hnew =>
    obtain rfl : c' = c := by
      rcases hnew with ⟨rfl, -⟩ | ⟨rfl, -⟩ <;> simpa using hi
    obtain ⟨y, hy, rfl⟩ := utqueueDequeue_some hd
    rw [hw] at hy
    obtain ⟨rfl, rfl⟩ := List.cons.inj hy
    exact ⟨by simp [hs.queues], hnew⟩
  | take _ _ _ hnew =>
    rcases hnew with ⟨rfl, -⟩ | ⟨rfl, -⟩ <;> rcases hi with hi | hi <;> cases hi
  | _ => rcases hi with hi | hi <;> cases hi

/-- What it does when nobody waits. -/
theorem effect_unsignalled (he : Effect l t s i s₁ new) (hi : i = signalTest c ∨ i = broadcastTest c)
    (hw : (s.queues (.ucWaiters c)).tqWaiters = []) : SameCore s s₁ ∧ new = [] := by
  cases he with
  | plain hp hs =>
    rcases hi with rfl | rfl <;> cases hp <;> exact ⟨hs, rfl⟩
  | signal c' u hd hs hnew =>
    obtain rfl : c' = c := by
      rcases hnew with ⟨rfl, -⟩ | ⟨rfl, -⟩ <;> simpa using hi
    obtain ⟨y, hy, -⟩ := utqueueDequeue_some hd
    rw [hw] at hy
    cases hy
  | take _ _ _ hnew =>
    rcases hnew with ⟨rfl, -⟩ | ⟨rfl, -⟩ <;> rcases hi with hi | hi <;> cases hi
  | _ => rcases hi with hi | hi <;> cases hi

end Uthreads
