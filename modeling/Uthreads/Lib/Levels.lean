import Mathlib.Algebra.BigOperators.Group.Finset.Basic
import Mathlib.Algebra.BigOperators.Group.Finset.Piecewise
import Mathlib.Algebra.Order.BigOperators.Group.Finset
import Mathlib.Order.Interval.Finset.Defs

/-!
# Who is ahead in queues of several levels

One queue for each level, the greatest level first and each queue from its head. `ahead q p u` counts
who is served before `u` on level `p`: everybody on a greater level, and on `p` those before `u`.

* `ahead_append`: an arrival counts on a greater level only.
* `ahead_erase_le`: who leaves does not put anybody ahead.
* `ahead_tail`: with the head of a level that is not below `p` one is gone, if that is not `u`.
-/

namespace Levels

open Finset

variable {ι α : Type*} [LinearOrder ι] [LocallyFiniteOrderTop ι] {q q' : ι → List α}
  {p r : ι} {u v : α} {xs : List α}

section Sums

variable (q) (p) (xs)

/-- One level changes. -/
theorem sum_update (hr : p < r) :
    ∑ i ∈ Ioi p, (Function.update q r xs i).length + (q r).length =
      ∑ i ∈ Ioi p, (q i).length + xs.length := by
  have hmem : r ∈ Ioi p := mem_Ioi.2 hr
  rw [← add_sum_erase _ _ hmem, ← add_sum_erase (Ioi p) (fun i => (q i).length) hmem,
    Function.update_self]
  have hrest : ∑ i ∈ (Ioi p).erase r, (Function.update q r xs i).length =
      ∑ i ∈ (Ioi p).erase r, (q i).length :=
    sum_congr rfl fun i hi => by rw [Function.update_of_ne (ne_of_mem_erase hi)]
  rw [hrest]
  omega

/-- A level that is not greater does not count in the sum. -/
theorem sum_update_of_le (hr : r ≤ p) :
    ∑ i ∈ Ioi p, (Function.update q r xs i).length = ∑ i ∈ Ioi p, (q i).length :=
  sum_congr rfl fun i hi => by
    rw [Function.update_of_ne (ne_of_gt (hr.trans_lt (mem_Ioi.1 hi)))]

end Sums

variable [DecidableEq α]

/-- How many are served before `u` on level `p`. -/
def ahead (q : ι → List α) (p : ι) (u : α) : ℕ := (∑ r ∈ Ioi p, (q r).length) + (q p).idxOf u

/-- How many are served before `u`, as long as it is on level `p`. -/
def toServe (q : ι → List α) (p : ι) (u : α) : ℕ := if u ∈ q p then ahead q p u else 0

/-- `v` arrives on level `r`. -/
theorem ahead_append (hu : u ∈ q p) :
    ahead (Function.update q r (q r ++ [v])) p u = ahead q p u + if p < r then 1 else 0 := by
  unfold ahead
  by_cases hr : p < r
  · have hsum := sum_update q p (q r ++ [v]) hr
    rw [List.length_append, List.length_singleton] at hsum
    rw [Function.update_of_ne hr.ne, if_pos hr]
    omega
  · rw [sum_update_of_le q p _ (not_lt.1 hr), if_neg hr]
    by_cases hrp : r = p
    · subst hrp
      rw [Function.update_self, List.idxOf_append_of_mem hu]
      rfl
    · rw [Function.update_of_ne (Ne.symm hrp)]
      rfl

theorem idxOf_erase_le (xs : List α) (hv : v ≠ u) : (xs.erase v).idxOf u ≤ xs.idxOf u := by
  induction xs with
  | nil => simp
  | cons x xs ih =>
    by_cases hx : x = v
    · subst hx
      rw [List.erase_cons_head, List.idxOf_cons_ne xs hv]
      omega
    · rw [List.erase_cons_tail (by simpa using hx)]
      by_cases hxu : x = u
      · subst hxu; simp
      · rw [List.idxOf_cons_ne _ hxu, List.idxOf_cons_ne _ hxu]
        omega

/-- `v` leaves level `r`. -/
theorem ahead_erase_le (hv : v ≠ u ∨ r ≠ p) :
    ahead (Function.update q r ((q r).erase v)) p u ≤ ahead q p u := by
  unfold ahead
  have hlen : ((q r).erase v).length ≤ (q r).length := List.erase_sublist.length_le
  by_cases hr : p < r
  · have hsum := sum_update q p ((q r).erase v) hr
    rw [Function.update_of_ne hr.ne]
    omega
  · rw [sum_update_of_le q p _ (not_lt.1 hr)]
    by_cases hrp : r = p
    · subst hrp
      rw [Function.update_self]
      have := idxOf_erase_le (q r) (hv.resolve_right fun h => h rfl)
      omega
    · rw [Function.update_of_ne (Ne.symm hrp)]

/-- The head `v` of a level that is not below `p` is served. -/
theorem ahead_tail (hr : p ≤ r) (hq : q r = v :: xs) (hv : v ≠ u) :
    ahead (Function.update q r xs) p u + 1 = ahead q p u := by
  unfold ahead
  rcases hr.eq_or_lt with rfl | hr
  · rw [sum_update_of_le q _ _ le_rfl, Function.update_self, hq, List.idxOf_cons_ne _ hv]
    omega
  · have hsum := sum_update q p xs hr
    rw [hq, List.length_cons] at hsum
    rw [Function.update_of_ne hr.ne]
    omega

/-- Whose turn it is. -/
theorem ahead_eq_zero (hu : u ∈ q p) :
    ahead q p u = 0 ↔ (∀ r, p < r → q r = []) ∧ (q p).head? = some u := by
  unfold ahead
  rw [Nat.add_eq_zero_iff, sum_eq_zero_iff]
  refine and_congr ?_ ?_
  · simp only [mem_Ioi, List.length_eq_zero_iff]
  · cases hq : q p with
    | nil => rw [hq] at hu; cases hu
    | cons x xs =>
      by_cases hx : x = u
      · subst hx; simp
      · simp [List.idxOf_cons_ne xs hx, hx]

end Levels
