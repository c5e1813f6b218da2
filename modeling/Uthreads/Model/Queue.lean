import Mathlib.Data.List.Basic

/-!
# Thread queues

A `utqueue_t` (`uthread_queue.c`) as the sequence of the threads linked on its ring, oldest
first: `utqueue_enqueue` links at the head of the ring (`l_next`) and `utqueue_dequeue` takes from
its tail (`l_prev`), so the tail is the oldest. The counter `tq_size` is its own field, and the
structure carries the fact that `utqueue_empty` asserts.
-/

namespace Uthreads

/-- A `utqueue_t`: the linked threads, oldest first, and the counter `tq_size`. -/
structure Utqueue (α : Type) where
  tqWaiters : List α
  tqSize : ℕ
  size_eq : tqSize = tqWaiters.length

namespace Utqueue

variable {α : Type}

@[ext] theorem ext {q q' : Utqueue α} (h : q.tqWaiters = q'.tqWaiters) : q = q' := by
  obtain ⟨w, n, hn⟩ := q
  obtain ⟨w', n', hn'⟩ := q'
  simp only at h
  subst h hn hn'
  rfl

/-- `utqueue_init`. -/
def init : Utqueue α := ⟨[], 0, rfl⟩

/-- `utqueue_empty`: it answers from the counter. -/
def empty (q : Utqueue α) : Bool := q.tqSize == 0

/-- `utqueue_enqueue`: `list_insert_head`, then `tq_size++`. -/
def enqueue (q : Utqueue α) (thr : α) : Utqueue α :=
  ⟨q.tqWaiters ++ [thr], q.tqSize + 1, by simp [q.size_eq]⟩

/-- `utqueue_dequeue`: `none` on an empty queue, else the oldest thread, `tq_size--`. -/
def dequeue (q : Utqueue α) : Option (α × Utqueue α) :=
  match q with
  | ⟨[], _, _⟩ => none
  | ⟨thr :: rest, n, h⟩ => some (thr, ⟨rest, n - 1, by simp [h]⟩)

/-- `utqueue_remove` of a thread of the queue: `list_remove`, `tq_size--`. -/
def remove [DecidableEq α] (q : Utqueue α) (thr : α) (h : thr ∈ q.tqWaiters) : Utqueue α :=
  ⟨q.tqWaiters.erase thr, q.tqSize - 1, by rw [List.length_erase_of_mem h, q.size_eq]⟩

@[simp] theorem init_waiters : (init : Utqueue α).tqWaiters = [] := rfl

@[simp] theorem enqueue_waiters (q : Utqueue α) (thr : α) :
    (q.enqueue thr).tqWaiters = q.tqWaiters ++ [thr] := rfl

@[simp] theorem enqueue_size (q : Utqueue α) (thr : α) : (q.enqueue thr).tqSize = q.tqSize + 1 := rfl

@[simp] theorem remove_waiters [DecidableEq α] (q : Utqueue α) (thr : α) (h : thr ∈ q.tqWaiters) :
    (q.remove thr h).tqWaiters = q.tqWaiters.erase thr := rfl

/-- The answer of `utqueue_empty` is right: the assertion in it never fails. -/
@[simp] theorem empty_iff (q : Utqueue α) : q.empty = true ↔ q.tqWaiters = [] := by
  simp [empty, q.size_eq]

@[simp] theorem empty_eq_false_iff (q : Utqueue α) : q.empty = false ↔ q.tqWaiters ≠ [] := by
  rw [← Bool.not_eq_true, empty_iff]

@[simp] theorem dequeue_none_iff (q : Utqueue α) : q.dequeue = none ↔ q.tqWaiters = [] := by
  obtain ⟨w, n, h⟩ := q
  cases w <;> simp [dequeue]

/-- What `utqueue_dequeue` returns and leaves. -/
theorem dequeue_some_iff {q q' : Utqueue α} {thr : α} :
    q.dequeue = some (thr, q') ↔ q.tqWaiters = thr :: q'.tqWaiters := by
  obtain ⟨w, n, h⟩ := q
  cases w with
  | nil => simp [dequeue]
  | cons x w =>
    simp only [dequeue, Option.some.injEq, Prod.mk.injEq, List.cons.injEq]
    refine and_congr_right fun _ => ⟨fun hq => ?_, fun hq => Utqueue.ext hq⟩
    rw [← hq]

end Utqueue

end Uthreads
