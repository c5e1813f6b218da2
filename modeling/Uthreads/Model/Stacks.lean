import Uthreads.Model.Step

/-!
# The stacks of the threads

`alloc_stack`, `free_stack` and `uthread_makecontext` on the heap. A thread that runs does so on the stack
of its `ut_ctx`. `malloc` returns any block that is not allocated; `stackNext` takes a step of the library
and what it does to the heap.
-/

namespace Uthreads

variable {N L : ℕ}

/-- The heap as far as it belongs to stacks. -/
structure Stacks (N : ℕ) where
  /-- `ut_stack`; `none` is NULL. -/
  utStack : Fin N → Option ℕ
  /-- The stack that `ut_ctx` runs on. -/
  ctxStack : Fin N → Option ℕ
  allocated : ℕ → Bool

/-- How a stack is misused. -/
inductive StackFault
  /-- A thread runs on a stack, or `uthread_makecontext` writes to one, that is not allocated. -/
  | notAllocated
  /-- `free` of a block that is not allocated. -/
  | doubleFree
  deriving DecidableEq

namespace Stacks

/-- `malloc` in `alloc_stack` for slot `tid`: it returns `b`, or NULL. -/
def allocStack (h : Stacks N) (tid : Fin N) (ok : Bool) (b : ℕ) : Stacks N :=
  if ok then
    { h with
      utStack := Function.update h.utStack tid (some b)
      allocated := Function.update h.allocated b true }
  else { h with utStack := Function.update h.utStack tid none }

/-- `uthread_makecontext` on the stack of slot `tid`. -/
def makecontext (h : Stacks N) (tid : Fin N) : Except StackFault (Stacks N) :=
  if (h.utStack tid).any h.allocated then
    .ok { h with ctxStack := Function.update h.ctxStack tid (h.utStack tid) }
  else .error .notAllocated

/-- `free_stack` of the stack of `uth`; `free(NULL)` does nothing. -/
def freeStack (h : Stacks N) (uth : Fin N) : Except StackFault (Stacks N) :=
  match h.utStack uth with
  | none => .ok h
  | some b =>
    if h.allocated b then .ok { h with allocated := Function.update h.allocated b false }
    else .error .doubleFree

/-- The instructions that touch the stacks. `ok` is the outcome of `malloc`, and `b` the block. -/
def exec (h : Stacks N) (ok : Bool) (b : ℕ) : Instr N → Except StackFault (Stacks N)
  | .allocStack tid _ => .ok (h.allocStack tid ok b)
  | .createInit .ctx tid _ => h.makecontext tid
  | .destroy .stack uth => h.freeStack uth
  | _ => .ok h

/-- LWP `l` takes a step: on the stack of its thread, if it has one. -/
def step (h : Stacks N) (s : State N L) (l : Fin L) (a : Act) (b : ℕ) : Except StackFault (Stacks N) :=
  match (s.lwps l).mode, (s.lwps l).utCurthr with
  | .running, some t =>
    if (h.ctxStack t).any h.allocated then
      match a, (s.uthreads t).utCtx with
      | .exec, i :: _ => h.exec true b i
      | .mallocFail, i :: _ => h.exec false b i
      | _, _ => .ok h
    else .error .notAllocated
  | _, _ => .ok h

/-- After `create_first_thr`: the first thread `t₀` has `b₀`, and the reaper `t₁` has `b₁`. -/
def start (t₀ t₁ : Fin N) (b₀ b₁ : ℕ) : Stacks N where
  utStack t := if t = t₀ then some b₀ else if t = t₁ then some b₁ else none
  ctxStack t := if t = t₀ then some b₀ else if t = t₁ then some b₁ else none
  allocated b := b = b₀ ∨ b = b₁

end Stacks

/-- A step of the library, and what it does to the stacks; `c.2` is what `malloc` returns in it. -/
def stackNext (x : State N L × Stacks N) (c : (Fin L × Act) × ℕ) : Option (State N L × Stacks N) :=
  match step x.1 c.1.1 c.1.2, x.2.step x.1 c.1.1 c.1.2 c.2 with
  | some s, .ok h => some (s, h)
  | _, _ => none

end Uthreads
