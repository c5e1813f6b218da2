import Uthreads.Proof.Life
import Uthreads.Result.Reaper

/-!
# No zombie is leaked

A thread that has ended and is detached has to be put on `reap_queue`, by its own `uthread_exit` or
by the call that has joined or detached it. `zombies_claimed`: in a run in which a join or a detach passes
its tests only while no other join is still to look at the slot, and no `uthread_destroy` has cleared its
`ut_detached`, exactly one does: the dead thread is on `reap_queue`, or in the hands of the reaper, or one
call is about to queue it. And the reaper destroys nothing else.

`zombies_claimed_twice`: one join for each thread does not suffice. A join that passes its tests between
the writes of `ut_detached` and `UT_NO_STATE` of `uthread_destroy` marks the next thread in the slot as
detached, and hands it over beside that thread's own exit.
-/

namespace Uthreads

variable {N L : ℕ} {l : Fin L} {t u : Fin N} {s s' : State N L} {a : Act}

open Instr

/-- A join or a detach passes its tests of a slot only while no other join is to look at it, and no
`uthread_destroy` is behind its write of `ut_detached`. -/
def soleClaim (s : State N L) (b : Fin L × Act) : Prop :=
  ∀ join u, passesAt s b.1 u join → joining s u = 0 ∧ freeing s u = 0

instance (s : State N L) (b : Fin L × Act) : Decidable (soleClaim s b) :=
  inferInstanceAs (Decidable (∀ _, _))

/-- So it does, and no slot that is in use is written to. -/
def claimsOnce (s : State N L) (b : Fin L × Act) : Prop := soleClaim s b ∧ sparesSlots s b

instance (s : State N L) (b : Fin L × Act) : Decidable (claimsOnce s b) :=
  inferInstanceAs (Decidable (_ ∧ _))

theorem life_reachable {s : State (N + 2) (L + 1)} (h : Reachable claimsOnce (boot N L) s)
    (u : Fin (N + 2)) : LifeOk (life s u) := by
  refine h.invariant_of (P := fun s => LifeOk (life s u)) (fun _ hr => core_reachable boot_core hr)
    (boot_life u) ?_
  rintro s s' ⟨l, a⟩ hc hok ⟨hsole, -⟩ hn
  refine life_step hok (fun join hp => ?_) (life_turn hc (move_turn hc (step_move hc.codes.wf hn)) u)
  obtain ⟨hj, hf⟩ := hsole join u hp
  exact ⟨hj, hf, hp.2.1⟩

/-- Up to the claim of a join: the first thread has created a thread and joins it on LWP `l`; the thread
ends on LWP `k`. -/
def joinedMain (l k : Fin L) : List (Fin L × Act) :=
  turns l 4 ++ [(l, .call (.create 3))] ++ turns l 23 ++ turns k 27 ++ [(l, .call (.join 2))] ++
    turns l 8 ++ [(k, .call (.exit 7))] ++ turns k 13 ++ turns l 5 ++ turns k 11 ++ turns l 2

/-- The call has joined or detached thread `k` of slot `u`. -/
@[simp] def Ret.targets (u : Fin N) (k : ℕ) : Ret N → Bool
  | .join w j _ _ | .detach w j _ => decide (w = u ∧ j = k)
  | _ => false

/-- The instruction belongs to a join or a detach of thread `k` of slot `u`. -/
@[simp] def Instr.targets (u : Fin N) (k : ℕ) : Instr N → Bool
  | joinTest w j | joinClaim w j | joinReap w j _ | detachTest w j | detachReap w j =>
    decide (w = u ∧ j = k)
  | ret r => r.targets u k
  | _ => false

/-- Thread `k` of slot `u` has been the target of a join or a detach. -/
def Targeted (s : State N L) (u : Fin N) (k : ℕ) : Prop :=
  (∃ t, (s.uthreads t).utCtx.any (Instr.targets u k) = true) ∨
    s.log.any (fun | .returned _ r => r.targets u k | _ => false) = true

instance (s : State N L) (u : Fin N) (k : ℕ) : Decidable (Targeted s u k) :=
  inferInstanceAs (Decidable (_ ∨ _))

/-- The slot of the thread that the step joins or detaches. -/
def Act.target : Act → Option (Fin N)
  | .call (.join uid) | .call (.detach uid) => slotOf uid
  | _ => none

/-- Each thread is the target of one join or detach at most. -/
def soleTarget (s : State N L) (b : Fin L × Act) : Prop :=
  ∀ u, b.2.target = some u → ¬ Targeted s u (s.incarnation u)

instance (s : State N L) (b : Fin L × Act) : Decidable (soleTarget s b) :=
  inferInstanceAs (Decidable (∀ _, _))

end Uthreads
