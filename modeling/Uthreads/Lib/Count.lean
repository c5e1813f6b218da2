import Mathlib.Algebra.Order.BigOperators.Group.Finset
import Mathlib.Data.Fintype.Card
import Mathlib.Data.Fintype.BigOperators

/-!
# Counting the members of a family that are in a given place

`count p f` is the number of the indices `i` for which `p (f i)` holds. One step of a system
changes `f` at one index; `count_update` says what that does to the number.
-/

namespace Count

variable {ι α : Type*} [Fintype ι] (p : α → Bool) (f : ι → α)

/-- How many members of the family satisfy `p`. -/
def count : ℕ := ∑ i, (p (f i)).toNat

/-- A sum one summand of which changes. -/
theorem sum_change [DecidableEq ι] {f g : ι → ℕ} (i : ι) (h : ∀ j, j ≠ i → g j = f j) :
    ∑ j, g j + f i = ∑ j, f j + g i := by
  rw [← Finset.add_sum_erase _ g (Finset.mem_univ i), ← Finset.add_sum_erase _ f (Finset.mem_univ i)]
  have hrest : ∑ j ∈ Finset.univ.erase i, g j = ∑ j ∈ Finset.univ.erase i, f j := by
    apply Finset.sum_congr rfl
    intro j hj
    exact h j (Finset.ne_of_mem_erase hj)
  rw [hrest]
  omega

/-- **One member changes.** -/
theorem count_update [DecidableEq ι] (i : ι) (x : α) :
    count p (Function.update f i x) + (p (f i)).toNat = count p f + (p x).toNat := by
  have h := sum_change (f := fun j => (p (f j)).toNat)
    (g := fun j => (p (Function.update f i x j)).toNat) i
    fun j hj => by rw [Function.update_of_ne hj]
  rw [Function.update_self] at h
  exact h

variable {p f}

theorem count_pos {i : ι} (h : p (f i) = true) : 0 < count p f := by
  unfold count
  refine lt_of_lt_of_le ?_ (Finset.single_le_sum (fun j _ => Nat.zero_le _) (Finset.mem_univ i))
  rw [h]
  exact Nat.one_pos

/-- Fewer members satisfy `p` than `q`, so one satisfies `q` only. -/
theorem exists_of_lt {q : α → Bool} (h : count p f < count q f) :
    ∃ i, q (f i) = true ∧ p (f i) = false := by
  by_contra hne
  refine absurd h (not_lt.2 (Finset.sum_le_sum fun i _ => ?_))
  cases hq : q (f i) with
  | false => exact Nat.zero_le _
  | true =>
    cases hp : p (f i) with
    | false => exact absurd ⟨i, hq, hp⟩ hne
    | true => exact le_refl _

/-- As many members satisfy `p` as `q`, and `p` implies `q`: so the two agree. -/
theorem eq_of_count_eq {q : α → Bool} (himp : ∀ i, p (f i) = true → q (f i) = true)
    (h : count p f = count q f) (i : ι) : p (f i) = q (f i) := by
  have hle : ∀ j ∈ Finset.univ, (p (f j)).toNat ≤ (q (f j)).toNat := by
    intro j _
    cases hp : p (f j) with
    | false => exact Nat.zero_le _
    | true => rw [himp j hp]
  have := (Finset.sum_eq_sum_iff_of_le hle).1 h i (Finset.mem_univ i)
  cases hp : p (f i) <;> cases hq : q (f i) <;> simp_all

end Count
