import Uthreads.Model.Memory
import Uthreads.Result.Endings
import Uthreads.Result.Queues
import Uthreads.Result.Start

/-!
# The library runs on its pointers

`Result.Queues` says what one queue function does to the pointers of `list.h`. Here the whole library is
put on top of them.

* `memory_refines`: from zero-filled memory, every run of the library is a run on the pointers. The queue
  functions that its steps call follow no NULL pointer and fail no assertion, they return what the steps
  go on with, and after every step the rings and counters represent the queues.
-/

namespace Uthreads

open Rings

section Calls

variable {Q T : Type} [DecidableEq Q] [DecidableEq T] {m m' : QueueMem Q T} {a b : Seqs Q T}
  {c : QueueCall Q T} {cs : List (QueueCall Q T)} {rs : List (Answer T)}

/-- The call keeps to the preconditions of its function. -/
def Fits (a : Seqs Q T) : QueueCall Q T → Prop
  | .empty q => (a q).isSome
  | .op (.init q) => a q = none ∨ a q = some []
  | .op (.enqueue q t) => (a q).isSome ∧ ∀ r xs, a r = some xs → t ∉ xs
  | .op (.dequeue q) => (a q).isSome
  | .op (.remove q t) => ∃ xs ∈ a q, t ∈ xs

/-- What a call returns on the sequences. -/
def seqAnswer (a : Seqs Q T) : QueueCall Q T → Answer T
  | .empty q => .bool ((a q).getD []).isEmpty
  | .op op => .thread (seqStep a op).2

/-- What a call leaves of the sequences. -/
def seqAfter (a : Seqs Q T) : QueueCall Q T → Seqs Q T
  | .empty _ => a
  | .op op => (seqStep a op).1

/-- **A call on the memory is the one on the sequences.** -/
theorem memCall_represents (h : Represents m a) (hc : Fits a c) :
    ∃ m', memCall m c = .ok (m', seqAnswer a c) ∧ Represents m' (seqAfter a c) := by
  cases c with
  | empty q =>
    obtain ⟨xs, hq⟩ := Option.isSome_iff_exists.1 hc
    refine ⟨m, ?_, h⟩
    simp [memCall, seqAnswer, empty_represents h hq, hq, Except.map]
  | op op =>
    have hadm : admitted (m, a) op := by
      cases op with
      | enqueue q t => exact ⟨hc.1, (h.null t).2 hc.2⟩
      | _ => exact hc
    obtain ⟨m', hm, hrep, -⟩ := call_represents h hadm
    refine ⟨m', ?_, hrep⟩
    simp [memCall, seqAnswer, hm, Except.map]

/-- The calls keep to their preconditions one after the other, return `rs` and leave `b`. -/
inductive Makes : Seqs Q T → List (QueueCall Q T) → List (Answer T) → Seqs Q T → Prop
  | nil (a : Seqs Q T) : Makes a [] [] a
  | cons {a b : Seqs Q T} {c : QueueCall Q T} {cs : List (QueueCall Q T)} {rs : List (Answer T)}
    (hc : Fits a c) (h : Makes (seqAfter a c) cs rs b) : Makes a (c :: cs) (seqAnswer a c :: rs) b

theorem Makes.append {ds : List (QueueCall Q T)} {rs' : List (Answer T)} {b' : Seqs Q T}
    (h : Makes a cs rs b) (h' : Makes b ds rs' b') : Makes a (cs ++ ds) (rs ++ rs') b' := by
  induction h with
  | nil => exact h'
  | cons hc _ ih => exact .cons hc (ih h')

/-- `utqueue_init` of one queue after the other. -/
theorem makes_inits (a : Seqs Q T) (qs : List Q) (h : ∀ q ∈ qs, a q = none ∨ a q = some []) :
    ∃ rs, Makes a (qs.map fun q => .op (.init q)) rs fun q => if q ∈ qs then some [] else a q := by
  induction qs generalizing a with
  | nil => exact ⟨[], by simpa using Makes.nil a⟩
  | cons q qs ih =>
    have hafter : ∀ r ∈ qs, seqAfter (T := T) a (.op (.init q)) r = none ∨
        seqAfter (T := T) a (.op (.init q)) r = some [] := by
      intro r hr
      by_cases hrq : r = q
      · subst hrq
        exact .inr (by simp [seqAfter, seqStep])
      · simpa [seqAfter, seqStep, hrq] using h r (List.mem_cons_of_mem q hr)
    obtain ⟨rs, hrs⟩ := ih _ hafter
    refine ⟨_ :: rs, .cons (h q (by simp)) ?_⟩
    convert hrs using 2 with r
    by_cases hr : r ∈ qs
    · simp [hr]
    · by_cases hrq : r = q <;> simp [seqAfter, seqStep, hr, hrq]

/-- **Calls on the memory.** -/
theorem Makes.memCalls (h : Makes a cs rs b) : ∀ {m : QueueMem Q T}, Represents m a →
    ∃ m', memCalls m cs = .ok (m', rs) ∧ Represents m' b := by
  induction h with
  | nil a => exact fun hm => ⟨_, rfl, hm⟩
  | cons hc _ ih =>
    intro m hm
    obtain ⟨m₁, hcall, h₁⟩ := memCall_represents hm hc
    obtain ⟨m', hcalls, h'⟩ := ih h₁
    refine ⟨m', ?_, h'⟩
    simp [Uthreads.memCalls, hcall, hcalls, Except.map]

end Calls

/-! ## The queues of the library -/

variable {N L : ℕ} {l : Fin L} {t u : Fin N} {s s' s₁ : State N L} {i : Instr N} {cs new : Code N}
  {a : Act} {q : QueueId N} {p : Fin (uthMaxprio + 1)} {xs : List (Fin N)}

open Instr

/-- `utqueue_init` has seen the queue. -/
def Seen (s : State N L) (q : QueueId N) : Prop :=
  ∀ u, q = .utWaiter u → (s.uthreads u).utWaiterInit = true

/-- The sequences of the queues; the `ut_waiter` of a slot that was never used is not initialised. -/
def seqs (s : State N L) : Seqs (QueueId N) (Fin N)
  | .utWaiter u => if (s.uthreads u).utWaiterInit then some (s.queues (.utWaiter u)).tqWaiters else none
  | q => some (s.queues q).tqWaiters

theorem seqs_seen (h : Seen s q) : seqs s q = some (s.queues q).tqWaiters := by
  cases q with
  | utWaiter u => exact if_pos (h u rfl)
  | _ => rfl

theorem mem_of_seqs (h : seqs s q = some xs) : xs = (s.queues q).tqWaiters := by
  cases q with
  | utWaiter u =>
    simp only [seqs, Option.ite_none_right_eq_some, Option.some.injEq] at h
    exact h.2.symm
  | _ => exact (Option.some.inj h).symm

/-- A step writes to one queue. -/
theorem seqs_set (hs : Seen s q)
    (hinit : ∀ v, (s'.uthreads v).utWaiterInit = (s.uthreads v).utWaiterInit)
    (ho : ∀ r, r ≠ q → (s'.queues r).tqWaiters = (s.queues r).tqWaiters) :
    seqs s' = Function.update (seqs s) q (some (s'.queues q).tqWaiters) := by
  have hs' : Seen s' q := fun u hu => (hinit u).trans (hs u hu)
  funext r
  by_cases hr : r = q
  · subst hr
    rw [Function.update_self, seqs_seen hs']
  · rw [Function.update_of_ne hr]
    cases r with
    | utWaiter u => simp [seqs, hinit, ho _ hr]
    | _ => simp [seqs, ho _ hr]

theorem seqs_same (hinit : ∀ v, (s'.uthreads v).utWaiterInit = (s.uthreads v).utWaiterInit)
    (hq : ∀ r, (s'.queues r).tqWaiters = (s.queues r).tqWaiters) : seqs s' = seqs s := by
  funext r
  cases r with
  | utWaiter u => simp [seqs, hinit, hq]
  | _ => simp [seqs, hq]

/-! ## Single calls -/

/-- The calls that a step makes on the queues of `s`, and what it leaves. -/
def Calls (s : State N L) (cs : List (LibCall N)) (s' : State N L) : Prop :=
  Makes (seqs s) cs (cs.map (answer s)) (seqs s')

theorem calls_nil (hinit : ∀ v, (s'.uthreads v).utWaiterInit = (s.uthreads v).utWaiterInit)
    (hq : ∀ r, (s'.queues r).tqWaiters = (s.queues r).tqWaiters) : Calls s [] s' := by
  unfold Calls
  rw [seqs_same hinit hq]
  exact .nil _

theorem calls_empty {cs : List (LibCall N)} (hs : Seen s q) (h : Calls s cs s') :
    Calls s (.empty q :: cs) s' := by
  have hseq := seqs_seen hs
  have hans : seqAnswer (seqs s) (.empty q) = answer s (.empty q) := by
    simp only [seqAnswer, hseq, Option.getD_some, answer, Answer.bool.injEq]
    cases he : (s.queues q).empty with
    | true => simpa using he
    | false => simpa using he
  unfold Calls
  rw [List.map_cons, ← hans]
  exact .cons (by simp [Fits, hseq]) h

theorem calls_enqueue (hl : LinkInv s) (hs : Seen s q) (ht : (s.uthreads t).utLink = none)
    (hinit : ∀ v, (s'.uthreads v).utWaiterInit = (s.uthreads v).utWaiterInit)
    (hq : (s'.queues q).tqWaiters = (s.queues q).tqWaiters ++ [t])
    (ho : ∀ r, r ≠ q → (s'.queues r).tqWaiters = (s.queues r).tqWaiters) :
    Calls s [.op (.enqueue q t)] s' := by
  have hseq := seqs_seen hs
  refine .cons ⟨by simp [hseq], fun r xs hr => ?_⟩ ?_
  · rw [mem_of_seqs hr]
    exact hl.not_mem ht r
  · have hafter : seqAfter (seqs s) (.op (.enqueue q t)) = seqs s' := by
      rw [seqs_set hs hinit ho, hq]
      simp [seqAfter, seqStep, hseq]
    rw [hafter]
    exact .nil _

/-- `utqueue_dequeue`, also of an empty queue. -/
theorem calls_dequeue (hs : Seen s q)
    (hinit : ∀ v, (s'.uthreads v).utWaiterInit = (s.uthreads v).utWaiterInit)
    (hq : (s'.queues q).tqWaiters = (s.queues q).tqWaiters.tail)
    (ho : ∀ r, r ≠ q → (s'.queues r).tqWaiters = (s.queues r).tqWaiters) :
    Calls s [.op (.dequeue q)] s' := by
  have hseq := seqs_seen hs
  have hans : seqAnswer (seqs s) (.op (.dequeue q)) = answer s (.op (.dequeue q)) := by
    simp [seqAnswer, seqStep, hseq, answer]
  unfold Calls
  rw [List.map_singleton, ← hans]
  refine .cons (by simp [Fits, hseq]) ?_
  have hafter : seqAfter (seqs s) (.op (.dequeue q)) = seqs s' := by
    rw [seqs_set hs hinit ho, hq]
    simp [seqAfter, seqStep, hseq]
  rw [hafter]
  exact .nil _

theorem calls_drain (hs : Seen s q)
    (hinit : ∀ v, (s'.uthreads v).utWaiterInit = (s.uthreads v).utWaiterInit)
    (hq : (s'.queues q).tqWaiters = (s.queues q).tqWaiters.tail)
    (ho : ∀ r, r ≠ q → (s'.queues r).tqWaiters = (s.queues r).tqWaiters) :
    Calls s (drainCalls s q) s' := by
  unfold drainCalls
  refine calls_empty hs ?_
  split
  · rename_i he
    have hnil : (s.queues q).tqWaiters = [] := by simpa using he
    refine calls_nil hinit fun r => ?_
    by_cases hr : r = q
    · subst hr
      rw [hq, hnil, List.tail_nil]
    · exact ho r hr
  · exact calls_dequeue hs hinit hq ho

/-- `utqueue_init` of the `ut_waiter` of a slot. -/
theorem calls_init (hempty : (s.queues (.utWaiter u)).tqWaiters = [])
    (hu : (s'.uthreads u).utWaiterInit = true) (hq : (s'.queues (.utWaiter u)).tqWaiters = [])
    (hinit : ∀ v, v ≠ u → (s'.uthreads v).utWaiterInit = (s.uthreads v).utWaiterInit)
    (ho : ∀ r, r ≠ .utWaiter u → (s'.queues r).tqWaiters = (s.queues r).tqWaiters) :
    Calls s [.op (.init (.utWaiter u))] s' := by
  refine .cons ?_ ?_
  · by_cases h : (s.uthreads u).utWaiterInit = true
    · exact .inr (by simp [seqs, h, hempty])
    · exact .inl (by simp [seqs, h])
  · have hafter : seqAfter (seqs s) (.op (.init (.utWaiter u))) = seqs s' := by
      funext r
      by_cases hr : r = .utWaiter u
      · subst hr
        simp [seqAfter, seqStep, seqs, hu, hq]
      · simp only [seqAfter, seqStep, Function.update_of_ne hr]
        cases r with
        | utWaiter v =>
          have hv : v ≠ u := fun e => hr (e ▸ rfl)
          simp [seqs, hinit v hv, ho _ hr]
        | _ => simp [seqs, ho _ hr]
    rw [hafter]
    exact .nil _

/-! ## Instructions -/

/-- `uthread_runq_enqueue` after a write to the fields of the thread. -/
theorem calls_runq {s₀ : State N L} {prio : ℤ} (h : uthreadRunqEnqueue t s₀ = .ok s₁)
    (hl : LinkInv s) (hq₀ : s₀.queues = s.queues)
    (hlk₀ : (s₀.uthreads t).utLink = (s.uthreads t).utLink) (hprio : (s₀.uthreads t).utPrio = prio)
    (hs : s'.queues = s₁.queues)
    (hinit : ∀ v, (s'.uthreads v).utWaiterInit = (s.uthreads v).utWaiterInit) :
    Calls s (runqCalls t prio) s' := by
  obtain ⟨p, hp, hlk, -, hqs, -⟩ := runqEnqueue_ok h
  unfold runqCalls
  rw [← hprio, hp, runqIndex_cast]
  refine calls_enqueue hl (fun u hu => by cases hu) (hlk₀ ▸ hlk) hinit ?_ fun r hr => ?_
  · simp [hs, hqs, hq₀]
  · simp [hs, hqs, hq₀, hr]

/-- `uthread_setprio`: the thread is taken off its level and goes to the end of the new one. -/
theorem calls_setprio {prio : ℤ} (hl : LinkInv s)
    (h : execSetprioTest t u prio s = .ok (s₁, new))
    (hinit : ∀ v, (s₁.uthreads v).utWaiterInit = (s.uthreads v).utWaiterInit) :
    Calls s (Instr.queueCalls s t (setprioTest u prio)) s₁ := by
  obtain ⟨⟨s₂, r⟩, hb, hr⟩ := except_bind_ok.1 h
  have hs : s₂ = s₁ := by
    cases r with
    | changed y =>
      cases y <;> simp only [except_pure_ok, Prod.mk.injEq] at hr <;> exact hr.1
    | _ =>
      simp only [except_pure_ok, Prod.mk.injEq] at hr
      exact hr.1
  subst hs
  simp only [Instr.queueCalls]
  rcases setprioBody_ok hb with ⟨rfl, hst⟩ | ⟨-, hst, rfl⟩ | ⟨hne, hst, hreq⟩
  · rw [if_neg]
    · exact calls_nil hinit fun _ => rfl
    · rintro ⟨h₁, h₂⟩
      rcases hst with hst | hst
      · rw [h₁] at hst; simp at hst
      · exact h₂ hst
  · rw [if_neg]
    · exact calls_nil hinit fun _ => rfl
    · rintro ⟨h₁, -⟩
      rw [h₁] at hst
      simp at hst
  · rw [if_pos ⟨hst, hne⟩]
    obtain ⟨p, p', hp, hp', hm, hs₁⟩ := runqRequeue_ok hreq
    have hp' : prio = (p' : ℕ) := by simpa using hp'
    unfold requeueCalls
    rw [hp, hp', runqIndex_cast, runqIndex_cast]
    -- the sequences between the two calls
    have hafter : seqAfter (seqs s) (.op (.remove (.runq p) u)) =
        Function.update (seqs s) (.runq p) (some ((s.queues (.runq p)).tqWaiters.erase u)) := rfl
    have hset : seqAfter (Function.update (seqs s) (.runq p)
        (some ((s.queues (.runq p)).tqWaiters.erase u))) (.op (.enqueue (.runq p') u)) = seqs s₂ := by
      funext r
      cases r with
      | utWaiter v =>
        rw [hs₁]
        simp [seqAfter, seqStep, seqs]
      | runq r =>
        by_cases hr : r = p' <;> by_cases hr' : r = p <;>
          simp_all [seqAfter, seqStep, seqs]
      | _ => rw [hs₁]; simp [seqAfter, seqStep, seqs]
    refine .cons ⟨_, rfl, hm⟩ ?_
    rw [hafter]
    refine .cons ⟨?_, fun r xs hr => ?_⟩ ?_
    · by_cases h : p' = p <;> simp [h, seqs]
    · by_cases h : r = .runq p
      · subst h
        rw [Function.update_self, Option.some.injEq] at hr
        rw [← hr]
        exact (hl.nodup _).not_mem_erase
      · rw [Function.update_of_ne h] at hr
        rw [mem_of_seqs hr, hl.mem_iff (q := .runq p) hm]
        exact h
    · rw [hset]
      exact .nil _

theorem dequeue_tail (h : utqueueDequeue q s = some (t, s')) :
    (s'.queues q).tqWaiters = (s.queues q).tqWaiters.tail ∧
      ∀ r, r ≠ q → (s'.queues r).tqWaiters = (s.queues r).tqWaiters := by
  obtain ⟨x, hx, rfl⟩ := utqueueDequeue_some h
  exact ⟨by simp [hx], fun r hr => by simp [hr]⟩

/-- The tests of `uthread_join` and `uthread_detach` find `ut_waiter` initialised. -/
theorem seen_of_exec {ok : Bool} {k : ℕ} (hi : i = joinTest u k ∨ i = detachTest u k)
    (h : exec l t ok i s = .ok (s₁, new)) : Seen s (.utWaiter u) := by
  rintro v hv
  obtain rfl : u = v := QueueId.utWaiter.inj hv
  rcases hi with rfl | rfl
  · obtain ⟨_, hb, -⟩ := except_bind_ok.1 (h : execJoinTest t u k s = .ok (s₁, new))
    simpa using hb
  · obtain ⟨_, hb, -⟩ := except_bind_ok.1 (h : execDetachTest u k s = .ok (s₁, new))
    simpa using hb

/-- **An instruction** calls its queue functions with success. -/
theorem calls_exec {ok : Bool} (hc : Core s) (hT : Table s) (hon : OnStack s l t)
    (hcode : (s.uthreads t).utCtx = i :: cs)
    (hv : ∀ u prio, i = createInit .ctx u prio → Vacant s u) (h : exec l t ok i s = .ok (s₁, new)) :
    Calls s (i.queueCalls s t) s₁ := by
  have hwf := hc.codes.wf t
  rw [hcode] at hwf
  have he := exec_effect hwf.1 hv h
  by_cases hcr : ∃ v prio, i = createInit .waiter v prio
  · obtain ⟨v, prio, rfl⟩ := hcr
    have hempty := hc.create_empty hcode he
    obtain ⟨rfl, -⟩ := effect_create he
    exact calls_init hempty (by simp) (by simp) (fun w hw => by simp [hw]) fun r hr => by simp [hr]
  have hinit : ∀ v, (s₁.uthreads v).utWaiterInit = (s.uthreads v).utWaiterInit := fun v =>
    (effect_fields he v).1.resolve_right fun ⟨prio, e⟩ => hcr ⟨v, prio, e⟩
  by_cases hset : ∃ v prio, i = setprioTest v prio
  · obtain ⟨v, prio, rfl⟩ := hset
    exact calls_setprio hc.links h hinit
  have hnil : s₁.queues = s.queues → Calls s [] s₁ := fun e => calls_nil hinit fun r => by rw [e]
  -- the `ut_waiter` of the thread that exits
  have hexit : ∀ v st, i = exitTest v st → Seen s (.utWaiter v) := by
    rintro v st rfl w hw
    obtain rfl : v = w := QueueId.utWaiter.inj hw
    obtain rfl : v = t := hwf.1.1
    exact hT.init v (hc.active hon).2.2.2
  cases he with
  | plain hp hs =>
    have hq : ∀ r, (s₁.queues r).tqWaiters = (s.queues r).tqWaiters := fun r => by rw [hs.queues]
    -- a queue that is empty is left alone
    have htail : ∀ r, (s.queues r).tqWaiters = [] →
        (s₁.queues r).tqWaiters = (s.queues r).tqWaiters.tail := fun r hr => by rw [hq, hr, List.tail_nil]
    cases hp with
    | setprio v prio => exact absurd ⟨v, prio, rfl⟩ hset
    | wakeDrop v hw =>
      simp only [Instr.queueCalls, if_neg hw]
      exact calls_nil hinit hq
    | signalNone k hk => exact calls_dequeue (fun v hv => by cases hv) hinit (htail _ hk) fun r _ => hq r
    | broadcastNone k hk => exact calls_drain (fun v hv => by cases hv) hinit (htail _ hk) fun r _ => hq r
    | reapableNot v hz =>
      simp only [Instr.queueCalls, if_neg hz]
      exact calls_nil hinit hq
    | joinFail v k hf =>
      refine calls_empty (seen_of_exec (.inl rfl) h) ?_
      rw [if_neg]
      · exact calls_nil hinit hq
      · rintro ⟨h₁, h₂, -⟩
        rcases hf with hf | hf
        · exact hf (by simpa using h₁)
        · rw [hf] at h₂; cases h₂
    | joinZombie v k _ _ hz =>
      refine calls_empty (seen_of_exec (.inl rfl) h) ?_
      rw [if_neg fun hn => hn.2.2 hz]
      exact calls_nil hinit hq
    | detachFail v k hf => exact calls_empty (seen_of_exec (.inr rfl) h) (calls_nil hinit hq)
    | reaperWait hk => exact calls_empty (fun v hv => by cases hv) (calls_nil hinit hq)
    | reaperGo hk => exact calls_empty (fun v hv => by cases hv) (calls_nil hinit hq)
    | reaperDrained hk => exact calls_drain (fun v hv => by cases hv) hinit (htail _ hk) fun r _ => hq r
    | _ => exact calls_nil hinit hq
  | swtch hsw =>
    have hok : OkSwitch t _ _ _ cs := hwf.1
    cases hsw with
    | yield hz hs₁ =>
      simp only [Instr.queueCalls, Option.toList_none, List.map_nil, List.nil_append]
      rw [if_pos ⟨trivial, hz⟩]
      exact calls_runq hs₁ hc.links rfl (by simp [State.setState]) (by simp [State.setState]) rfl hinit
    | queue r p hs₁ hs =>
      obtain ⟨hlk, rfl⟩ := utqueueEnqueue_ok hs₁
      refine calls_enqueue hc.links (fun v hv => ?_) hlk hinit ?_ fun r' hr => ?_
      · subst hv; cases hok
      · simp [hs.queues]
      · simp [hs.queues, hr]
    | leave => exact hnil rfl
    | gone sv hsv =>
      simp only [Instr.queueCalls, Option.toList_none, List.map_nil, List.nil_append]
      rw [if_neg]
      · exact hnil rfl
      · rintro ⟨h₁, h₂⟩
        rcases hsv with hsv | hsv
        · rw [hsv] at h₁; cases h₁
        · exact h₂ hsv
  | wake v hw hs =>
    simp only [Instr.queueCalls, if_pos hw]
    exact calls_runq hs hc.links rfl (by simp [State.setState]) (by simp [State.setState]) rfl hinit
  | start v prio hw hs =>
    simp only [Instr.queueCalls, if_pos hw]
    exact calls_runq hs hc.links rfl (by simp [State.setState]) (by simp [State.setState]) rfl hinit
  | setprio v prio => exact absurd ⟨v, prio, rfl⟩ hset
  | take m ho hs hnew =>
    rcases hnew with ⟨rfl, -⟩ | ⟨rfl, -⟩ <;> exact hnil hs.queues
  | release m hk hs =>
    refine calls_drain (fun v hv => by cases hv) hinit ?_ fun r _ => by rw [hs.queues]; rfl
    rw [hs.queues]
    exact (by rw [hk, List.tail_nil] :
      (s.queues (.mWaiters m)).tqWaiters = (s.queues (.mWaiters m)).tqWaiters.tail)
  | handOver m v hk hs =>
    obtain ⟨hq, ho⟩ := dequeue_tail hk
    exact calls_drain (fun v hv => by cases hv) hinit (by rw [hs.queues]; exact hq)
      fun r hr => by rw [hs.queues]; exact ho r hr
  | signal k v hk hs hnew =>
    obtain ⟨hq, ho⟩ := dequeue_tail hk
    rcases hnew with ⟨rfl, -⟩ | ⟨rfl, -⟩
    · exact calls_dequeue (fun v hv => by cases hv) hinit (by rw [hs.queues]; exact hq)
        fun r hr => by rw [hs.queues]; exact ho r hr
    · exact calls_drain (fun v hv => by cases hv) hinit (by rw [hs.queues]; exact hq)
        fun r hr => by rw [hs.queues]; exact ho r hr
  | create w v prio =>
    cases w with
    | waiter => exact absurd ⟨v, prio, rfl⟩ hcr
    | _ => exact hnil (by funext r; simp)
  | exitDetached v st hd =>
    simp only [Instr.queueCalls, if_pos hd]
    exact hnil rfl
  | exitAlone v st hd hk =>
    simp only [Instr.queueCalls, hd]
    exact calls_dequeue (hexit v st rfl) hinit (by rw [hk]; exact hk) fun r _ => rfl
  | exitJoined v w st hd hk =>
    obtain ⟨hq, ho⟩ := dequeue_tail hk
    simp only [Instr.queueCalls, hd]
    exact calls_dequeue (hexit v st rfl) hinit hq ho
  | makeReapable v hz hs₁ hs =>
    obtain ⟨hlk, rfl⟩ := utqueueEnqueue_ok hs₁
    simp only [Instr.queueCalls, if_pos hz]
    exact calls_enqueue hc.links (fun w hw => by cases hw) hlk hinit (by simp [hs.queues])
      fun r hr => by simp [hs.queues, hr]
  | joinWait v k hk hd hz hi hs₁ hs =>
    obtain ⟨hlk, rfl⟩ := utqueueEnqueue_ok hs₁
    refine calls_empty (seen_of_exec (.inl rfl) h) ?_
    rw [if_pos ⟨by simpa using hk, hd, hz⟩]
    exact calls_enqueue hc.links (seen_of_exec (.inl rfl) h) (by simpa [State.setState] using hlk) hinit
      (by simp [hs.queues, State.setState]) fun r hr => by simp [hs.queues, State.setState, hr]
  | detach v k hk hd hi hs =>
    exact calls_empty (seen_of_exec (.inr rfl) h) (calls_nil hinit fun r => by rw [hs.queues]; rfl)
  | drain v hk hz =>
    obtain ⟨hq, ho⟩ := dequeue_tail hk
    exact calls_drain (fun w hw => by cases hw) hinit hq ho
  | destroy d v =>
    cases d with
    | waiter =>
      have hdoom := hc.slots.destroy t .waiter v (by rw [hcode]; exact List.mem_cons_self)
      exact calls_init (hc.slots.noWaiter v (.inr (.inl hdoom.st)))
        (by rw [hinit]; exact hT.init v hdoom.hl) (by simp) (fun w _ => hinit w) fun r hr => by simp [hr]
    | _ => exact hnil (by funext r; simp)
  | alloc st prio v hk hs => exact hnil hs.queues
  | waitMark k hs => exact hnil hs.queues
  | _ => exact hnil rfl

/-! ## Steps -/

/-- The search of `lwp_switch` finds nothing. -/
theorem calls_search_none {ps : List (Fin (uthMaxprio + 1))}
    (h : ∀ p ∈ ps, (s.queues (.runq p)).tqWaiters = []) (hs : seqs s' = seqs s) :
    Calls s (dispatchCalls s ps) s' := by
  induction ps with
  | nil =>
    unfold Calls
    rw [hs]
    exact .nil _
  | cons p ps ih =>
    unfold dispatchCalls
    rw [if_pos (by simpa using h p (by simp))]
    exact calls_empty (fun v hv => by cases hv) (ih fun r hr => h r (List.mem_cons_of_mem p hr))

/-- The search of `lwp_switch` takes a thread from the first level that is not empty. -/
theorem calls_search {ps : List (Fin (uthMaxprio + 1))}
    (h : ps.find? (fun p => !(s.queues (.runq p)).empty) = some p)
    (hs : Calls s [.op (.dequeue (.runq p))] s') : Calls s (dispatchCalls s ps) s' := by
  induction ps with
  | nil => cases h
  | cons r ps ih =>
    unfold dispatchCalls
    refine calls_empty (fun v hv => by cases hv) ?_
    cases he : (s.queues (.runq r)).empty with
    | true =>
      rw [List.find?_cons_of_neg (by simp [he])] at h
      exact ih h
    | false =>
      rw [List.find?_cons_of_pos (by simp [he])] at h
      rw [← Option.some.inj h] at hs
      exact hs

theorem calls_dispatch (hd : dispatchBody s = some (t, s₁)) (hs : s'.queues = s₁.queues)
    (hinit : ∀ v, (s'.uthreads v).utWaiterInit = (s.uthreads v).utWaiterInit) :
    Calls s (dispatchCalls s (List.finRange (uthMaxprio + 1)).reverse) s' := by
  unfold dispatchBody at hd
  split at hd
  · cases hd
  · rename_i p hp
    split at hd
    · cases hd
    · rename_i thr s₂ hdeq
      obtain ⟨hq, ho⟩ := dequeue_tail hdeq
      obtain ⟨-, rfl⟩ := Prod.mk.inj (Option.some.inj hd)
      exact calls_search hp (calls_dequeue (fun v hv => by cases hv) hinit (by rw [hs]; exact hq)
        fun r hr => by rw [hs]; exact ho r hr)

/-- The code of a thread is not a queue. -/
theorem seqs_setCtx {c : Code N} : seqs (s.setCtx t c) = seqs s :=
  seqs_same (fun v => by by_cases hv : v = t <;> simp [State.setCtx, hv]) fun _ => rfl

/-- The running thread takes an instruction. -/
theorem calls_thread (ok : Bool) (hc : Core s) (hT : Table s) (hon : OnStack s l t)
    (hn : next s (l, .mallocs ok) = some s') (hh : s'.halt = none) :
    Calls s (stepCalls s l (.mallocs ok)) s' := by
  obtain ⟨i, cs, hcode, ⟨e, rfl⟩ | ⟨s₁, new, hexec, rfl⟩⟩ := alone_step hon hn
  · cases hh
  · have hv : ∀ u prio, i = createInit .ctx u prio → Vacant s u := by
      rintro u prio rfl
      exact vacant_of_next (next_step hn).1 (by cases ok <;> simp [Act.mallocs]) hon u prio cs hcode
    have hcalls := calls_exec hc hT hon hcode hv hexec
    have heq : stepCalls s l (.mallocs ok) = i.queueCalls s t := by
      cases ok <;> simp [stepCalls, Act.mallocs, hon.1, hon.2, hcode]
    rw [heq]
    unfold Calls at hcalls ⊢
    rwa [seqs_setCtx]

/-- An LWP takes a step of its own code. -/
theorem calls_lwp (hm : Move s l a s') (hrun : ∀ t, ¬ OnStack s l t) (hh : s'.halt = none) :
    Calls s (stepCalls s l .exec) s' := by
  have hrest : (s.lwps l).mode ≠ .searching → stepCalls s l .exec = [] := by
    intro hsearch
    cases hmode : (s.lwps l).mode with
    | running =>
      cases hcur : (s.lwps l).utCurthr with
      | some t => exact absurd ⟨hmode, hcur⟩ (hrun t)
      | none => simp [stepCalls, hmode, hcur]
    | searching => exact absurd hmode hsearch
    | _ => simp [stepCalls, hmode]
  have hsame : ∀ {s₁ : State N L}, SameTable s₁ s' → s₁.uthreads = s.uthreads → s₁.queues = s.queues →
      (s.lwps l).mode ≠ .searching → Calls s (stepCalls s l .exec) s' := by
    intro s₁ hs hu hq hsearch
    rw [hrest hsearch]
    exact calls_nil (fun v => by rw [hs.uthreads, hu]) fun r => by rw [hs.queues, hq]
  have hloop : (s.lwps l).mode = .searching →
      stepCalls s l .exec = dispatchCalls s (List.finRange (uthMaxprio + 1)).reverse := by
    intro hsearch
    simp only [stepCalls, hsearch]
  cases hm with
  | halted h hs => cases hh
  | thread t i cs new hon => exact absurd hon (hrun t)
  | call t c hon => exact absurd hon (hrun t)
  | preempt t hon => exact absurd hon (hrun t)
  | acquire m hm hst ho hs =>
    refine hsame hs rfl rfl fun hsearch => ?_
    rcases hm with ⟨hm, -⟩ | ⟨hm, -⟩ <;> rw [hsearch] at hm <;> cases hm
  | unlock p hm =>
    rw [hrest (by rw [hm]; simp)]
    exact calls_nil (fun _ => rfl) fun _ => rfl
  | @dispatch _ t s₁ hm hd =>
    rw [hloop hm]
    refine calls_dispatch hd rfl fun v => ?_
    obtain ⟨p, x, -, -, rfl⟩ := dispatchBody_some hd
    by_cases hv : v = t <;> simp [hv]
  | idle m hm hs hh hp =>
    rcases hm with ⟨hm, rfl⟩ | ⟨hm, rfl⟩
    · rw [hm] at hp
      cases hp with
      | park _ _ _ _ hd =>
        rw [hloop hm]
        refine calls_search_none (fun p _ => dispatchBody_none.1 hd p) (seqs_same (fun v => ?_) fun r => ?_)
        · rw [hs.uthreads]; rfl
        · rw [hs.queues]; rfl
    · exact hsame hs rfl rfl (by rw [hm]; simp)
  | leave m hm ho hs =>
    refine hsame hs rfl rfl fun hsearch => ?_
    rcases hm with ⟨hm, -⟩ | ⟨hm, -⟩ <;> rw [hsearch] at hm <;> cases hm

/-- **A step** that does not end the process calls its queue functions with success. -/
theorem calls_step (hc : Core s) (hT : Table s) (hn : next s (l, a) = some s') (hh : s'.halt = none) :
    Calls s (stepCalls s l a) s' := by
  have hm := step_move hc.codes.wf hn
  by_cases hrun : ∃ t, OnStack s l t
  · obtain ⟨t, hon⟩ := hrun
    cases a with
    | exec => exact calls_thread true hc hT hon hn hh
    | mallocFail => exact calls_thread false hc hT hon hn hh
    | call c =>
      obtain ⟨-, -, rfl⟩ := call_next hon hn
      unfold Calls
      rw [seqs_setCtx]
      exact .nil _
    | preempt =>
      rcases preempt_next hon hn with ⟨e, rfl⟩ | ⟨-, rfl⟩
      · cases hh
      · refine calls_nil (fun v => ?_) fun _ => rfl
        by_cases hv : v = t <;> simp [hv]
    | spurious =>
      have hstep := (next_step hn).2
      unfold step at hstep
      simp [hon.1, stepSpurious] at hstep
  · have hrun' : ∀ t, ¬ OnStack s l t := fun t hon => hrun ⟨t, hon⟩
    rcases idle_next hrun' hn with rfl | ⟨rfl, hpark⟩
    · exact calls_lwp hm hrun' hh
    · have heq : stepCalls s l .spurious = stepCalls s l .exec := by simp [stepCalls, hpark]
      rw [heq]
      exact calls_lwp hm hrun' hh

/-! ## Runs -/

/-- The sequences before `uthread_start`. -/
def seqsStatic (N : ℕ) : Seqs (QueueId N) (Fin N) := fun q => if q.user then some [] else none

theorem memStatic_represents : Represents (memStatic N) (seqsStatic N) := by
  have hq : ∀ q xs, seqsStatic N q = some xs → q.user = true ∧ xs = [] := by
    intro q xs h
    simp only [seqsStatic, Option.ite_none_right_eq_some, Option.some.injEq] at h
    exact ⟨h.1, h.2.symm⟩
  refine ⟨fun q xs h => ?_, fun q xs h => ?_, fun q r xs ys t h _ ht => ?_, fun t => ?_⟩
  · obtain ⟨hu, rfl⟩ := hq q xs h
    exact .nil (by simp [memStatic, hu]) (by simp [memStatic, hu])
  · rw [(hq q xs h).2]; rfl
  · rw [(hq q xs h).2] at ht; cases ht
  · refine ⟨fun _ q xs h => ?_, fun _ => ⟨rfl, rfl⟩⟩
    rw [(hq q xs h).2]
    exact List.not_mem_nil

/-- The queues that `uthread_start` initialises before it puts a thread on one. -/
def startQueues (t : Fin N) : List (QueueId N) :=
  (List.finRange (uthMaxprio + 1)).map .runq ++
    [.reapQueue, .mWaiters .reapMtx, .ucWaiters .reapCond, .utWaiter t]

/-- The sequences after that. -/
def seqsInit (t : Fin N) : Seqs (QueueId N) (Fin N)
  | .utWaiter u => if u = t then some [] else none
  | _ => some []

theorem startQueues_seqs (t : Fin N) :
    (fun q => if q ∈ startQueues t then some [] else seqsStatic N q) = seqsInit t := by
  funext q
  cases q with
  | mWaiters m => cases m <;> simp [startQueues, seqsStatic, seqsInit, QueueId.user]
  | ucWaiters k => cases k <;> simp [startQueues, seqsStatic, seqsInit, QueueId.user]
  | _ => simp [startQueues, seqsStatic, seqsInit, QueueId.user]

/-- What the queue functions of `uthread_start` leave. -/
theorem start_makes : ∃ rs, Makes (seqsStatic (N + 2)) (startCalls 0 1) rs (seqs (boot N L)) := by
  have hcalls : (startCalls 0 1 : List (LibCall (N + 2))) =
      (startQueues 0).map (fun q => .op (.init q)) ++
        [.op (.enqueue (.runq (Fin.last uthMaxprio)) 0), .op (.init (.utWaiter 1)),
          .op (.enqueue (.runq (Fin.last uthMaxprio)) 1)] := by
    simp [startCalls, startQueues]
  obtain ⟨rs, hrs⟩ := makes_inits (seqsStatic (N + 2)) (startQueues 0) fun q hq => by
    simp only [seqsStatic]
    split_ifs <;> simp
  rw [startQueues_seqs] at hrs
  -- every sequence is empty, but for that of the highest level
  have hnil : ∀ q xs, seqsInit (0 : Fin (N + 2)) q = some xs → xs = [] := by
    intro q xs h
    cases q with
    | utWaiter u =>
      simp only [seqsInit, Option.ite_none_right_eq_some, Option.some.injEq] at h
      exact h.2.symm
    | _ => exact (Option.some.inj h).symm
  -- the first thread is enqueued, and then the `ut_waiter` of the reaper initialised
  let a₁ := Function.update (seqsInit (0 : Fin (N + 2))) (.runq (Fin.last uthMaxprio)) (some [0])
  let a₂ := Function.update a₁ (.utWaiter 1) (some [])
  have h₁ : seqAfter (seqsInit 0) (.op (.enqueue (.runq (Fin.last uthMaxprio)) 0)) = a₁ := rfl
  have h₂ : seqAfter a₁ (.op (.init (.utWaiter 1))) = a₂ := rfl
  have h₃ : seqAfter a₂ (.op (.enqueue (.runq (Fin.last uthMaxprio)) 1)) = seqs (boot N L) := by
    funext q
    cases q with
    | runq p =>
      by_cases hp : p = Fin.last uthMaxprio <;>
        simp [seqAfter, seqStep, a₁, a₂, seqs, boot, seqsInit, hp]
    | utWaiter u =>
      by_cases hu : u = 1
      · subst hu
        simp [seqAfter, seqStep, a₁, a₂, seqs, boot, Uthread.first]
      · by_cases hu' : u = 0 <;> simp [seqAfter, seqStep, a₁, a₂, seqs, boot, seqsInit, Uthread.first,
          Uthread.zero, hu, hu']
    | _ => simp [seqAfter, seqStep, a₁, a₂, seqs, boot, seqsInit]
  have hone : ∀ q xs, a₂ q = some xs → 1 ∉ xs := by
    intro q xs h
    by_cases hp : q = .runq (Fin.last uthMaxprio)
    · subst hp
      obtain rfl : [0] = xs := by simpa [a₂, a₁] using h
      simp
    · by_cases hu : q = .utWaiter 1
      · subst hu
        obtain rfl : [] = xs := by simpa [a₂] using h
        simp
      · have hq : seqsInit 0 q = some xs := by simpa [a₂, a₁, hp, hu] using h
        rw [hnil q xs hq]
        exact List.not_mem_nil
  rw [hcalls, ← h₃]
  refine ⟨_, hrs.append (.cons ⟨rfl, fun q xs h => ?_⟩ (.cons (.inl rfl) (.cons ⟨rfl, hone⟩ (.nil _))))⟩
  rw [hnil q xs h]
  exact List.not_mem_nil

/-- No `uthread_create` begins to write to a slot that is in use. -/
def memFollows (x : State N L × LibMem N) (b : Fin L × Act) : Prop := intrudes x.1 b = false

instance (x : State N L × LibMem N) (b : Fin L × Act) : Decidable (memFollows x b) :=
  inferInstanceAs (Decidable (_ = _))

/-- A step on the memory is one of the library. -/
theorem memNext_some {m m' : LibMem N} {b : Fin L × Act} (hok : memFollows (s, m) b)
    (h : memNext (s, m) b = some (s', m')) : next s b = some s' := by
  unfold memNext at h
  split at h
  · rename_i s₁ m₁ rs hs hcalls
    split_ifs at h
    rw [next, if_neg (by simpa [memFollows] using hok), ← (Prod.mk.inj (Option.some.inj h)).1]
    exact hs
  · cases h

/-- **A step of the library is one on the memory.** -/
theorem mem_step {m : LibMem N} (hc : Core s) (hT : Table s) (hm : Represents m (seqs s))
    (hn : next s (l, a) = some s') (hh : s'.halt = none) :
    ∃ m', memNext (s, m) (l, a) = some (s', m') ∧ Represents m' (seqs s') := by
  obtain ⟨m', hcalls, hm'⟩ := (calls_step hc hT hn hh).memCalls hm
  refine ⟨m', ?_, hm'⟩
  simp [memNext, (next_step hn).2, hcalls]

theorem table_reachable {s : State (N + 2) (L + 1)} (h : Reachable Runs.always (boot N L) s) :
    Core s ∧ Table s := by
  have hI : ∀ s, Reachable Runs.always (boot N L) s → Core s := fun _ => core_reachable boot_core
  exact ⟨hI s h, h.invariant_of hI boot_table fun _ _ _ hc hT _ hn =>
    table_step hc hT (move_turn hc (step_move hc.codes.wf hn))⟩

/-- **The library runs on its pointers.** `uthread_start` sets the memory up. After every run in which
`uthread_create` sets up slots out of use, memory represents the queues, and every step that does not end
the process makes its calls with success: none follows a NULL pointer or fails an assertion, and each
returns what the step goes on with. -/
theorem memory_refines (N L : ℕ) :
    ∃ m₁ rs, memCalls (memStatic (N + 2)) (startCalls 0 1) = .ok (m₁, rs) ∧
      ∀ s m, Runs.Reach memNext memFollows (boot N L, m₁) (s, m) →
        Reachable Runs.always (boot N L) s ∧ (s.halt = none → Represents m (seqs s) ∧
          ∀ b s', next s b = some s' → s'.halt = none → ∃ m', memNext (s, m) b = some (s', m')) := by
  obtain ⟨rs, hrs⟩ := start_makes (N := N) (L := L)
  obtain ⟨m₁, hstart, h₁⟩ := hrs.memCalls memStatic_represents
  refine ⟨m₁, rs, hstart, fun s m h => ?_⟩
  have hall : Reachable Runs.always (boot N L) s ∧ (s.halt = none → Represents m (seqs s)) := by
    refine h.invariant (P := fun x => Reachable Runs.always (boot N L) x.1 ∧
      (x.1.halt = none → Represents x.2 (seqs x.1))) ⟨.start, fun _ => h₁⟩ ?_
    rintro ⟨s, m⟩ ⟨s', m'⟩ ⟨l, a⟩ ⟨hr, hm⟩ hok hnext
    have hn := memNext_some hok hnext
    refine ⟨hr.step trivial hn, fun hh => ?_⟩
    obtain ⟨m'', hnext', hm''⟩ := mem_step (table_reachable hr).1 (table_reachable hr).2 (hm (next_live hn)) hn hh
    rw [hnext, Option.some.injEq, Prod.mk.injEq] at hnext'
    rw [show m' = m'' from hnext'.2]
    exact hm''
  refine ⟨hall.1, fun hh => ⟨hall.2 hh, fun b s' hn hh' => ?_⟩⟩
  obtain ⟨m', hnext, -⟩ := mem_step (table_reachable hall.1).1 (table_reachable hall.1).2 (hall.2 hh) hn hh'
  exact ⟨m', hnext⟩

end Uthreads
