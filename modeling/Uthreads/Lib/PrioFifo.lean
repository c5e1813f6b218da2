import Mathlib.Order.Basic
import Mathlib.Data.List.Nodup
import Mathlib.Data.List.Sort

/-!
# Strict priority, first come first served

The reference: the waiting elements with the level they arrived at and the time of arrival, of
which the next is the one on the highest level that came first. An implementation keeps one list
for each level. `Refines` relates the two.

* `Refines.arrive`, `Refines.leave`: appending to a level is arriving now, erasing is leaving.
* `Refines.isNext_head`: the head of the highest level that is not empty is the next.
* `Arrivals.isNext_unique`: there is one next element at most.
-/

namespace PrioFifo

variable {ι π : Type*}

/-- The elements that wait, each with its level and time of arrival. Times are in the past and
no two elements arrive at the same time. -/
structure Arrivals (ι π : Type*) where
  arrival : ι → Option (π × ℕ)
  clock : ℕ
  past : ∀ i p a, arrival i = some (p, a) → a < clock
  distinct : ∀ i j p q a, arrival i = some (p, a) → arrival j = some (q, a) → i = j

namespace Arrivals

/-- Nothing waits. -/
def empty : Arrivals ι π := ⟨fun _ => none, 0, by simp, by simp⟩

variable [DecidableEq ι]

/-- `i` arrives at level `p` now. -/
def arrive (A : Arrivals ι π) (i : ι) (p : π) : Arrivals ι π where
  arrival := Function.update A.arrival i (some (p, A.clock))
  clock := A.clock + 1
  past := by
    intro j q a h
    rw [Function.update_apply] at h
    split at h
    · simp only [Option.some.injEq, Prod.mk.injEq] at h; omega
    · exact Nat.lt_succ_of_lt (A.past j q a h)
  distinct := by
    intro j k q r a hj hk
    rw [Function.update_apply] at hj hk
    split at hj <;> split at hk
    · subst_vars; rfl
    · simp only [Option.some.injEq, Prod.mk.injEq] at hj
      exact absurd (A.past k r a hk) (by omega)
    · simp only [Option.some.injEq, Prod.mk.injEq] at hk
      exact absurd (A.past j q a hj) (by omega)
    · exact A.distinct j k q r a hj hk

/-- `i` leaves. -/
def leave (A : Arrivals ι π) (i : ι) : Arrivals ι π where
  arrival := Function.update A.arrival i none
  clock := A.clock
  past := by
    intro j q a h
    rw [Function.update_apply] at h
    split at h
    · cases h
    · exact A.past j q a h
  distinct := by
    intro j k q r a hj hk
    rw [Function.update_apply] at hj hk
    split at hj <;> split at hk
    · cases hj
    · cases hj
    · cases hk
    · exact A.distinct j k q r a hj hk

@[simp] theorem arrive_arrival (A : Arrivals ι π) (i : ι) (p : π) (j : ι) :
    (A.arrive i p).arrival j = if j = i then some (p, A.clock) else A.arrival j := by
  simp [arrive, Function.update_apply]

@[simp] theorem leave_arrival (A : Arrivals ι π) (i j : ι) :
    (A.leave i).arrival j = if j = i then none else A.arrival j := by
  simp [leave, Function.update_apply]

@[simp] theorem arrive_clock (A : Arrivals ι π) (i : ι) (p : π) :
    (A.arrive i p).clock = A.clock + 1 := rfl

@[simp] theorem leave_clock (A : Arrivals ι π) (i : ι) : (A.leave i).clock = A.clock := rfl

omit [DecidableEq ι]

variable [LinearOrder π]

/-- `i` is the next: nothing waits on a higher level, nor on its level since before it. -/
def IsNext (A : Arrivals ι π) (i : ι) : Prop :=
  ∃ p a, A.arrival i = some (p, a) ∧
    ∀ j q b, A.arrival j = some (q, b) → q < p ∨ (q = p ∧ a ≤ b)

theorem isNext_unique {A : Arrivals ι π} {i j : ι} (hi : A.IsNext i) (hj : A.IsNext j) : i = j := by
  obtain ⟨p, a, hia, hi⟩ := hi
  obtain ⟨q, b, hjb, hj⟩ := hj
  rcases hi j q b hjb with h | ⟨rfl, hab⟩
  · rcases hj i p a hia with h' | ⟨rfl, -⟩
    · exact absurd h (lt_asymm h')
    · exact absurd h (lt_irrefl _)
  · rcases hj i q a hia with h' | ⟨-, hba⟩
    · exact absurd h' (lt_irrefl _)
    · have : a = b := le_antisymm hab hba
      exact A.distinct i j q q a hia (this ▸ hjb)

open Classical in
/-- The next element, if anything waits. -/
noncomputable def next (A : Arrivals ι π) : Option ι :=
  if h : ∃ i, A.IsNext i then some h.choose else none

theorem next_eq_some {A : Arrivals ι π} {i : ι} (h : A.IsNext i) : A.next = some i := by
  have hex : ∃ j, A.IsNext j := ⟨i, h⟩
  rw [next, dif_pos hex, isNext_unique hex.choose_spec h]

theorem next_eq_none {A : Arrivals ι π} (h : ∀ i, A.arrival i = none) : A.next = none := by
  rw [next, dif_neg]
  rintro ⟨i, p, a, hi, -⟩
  rw [h i] at hi
  cases hi

end Arrivals

/-- The lists of the levels hold what waits, each in the order of arrival. -/
structure Refines (lv : π → List ι) (A : Arrivals ι π) : Prop where
  mem : ∀ i p, i ∈ lv p ↔ ∃ a, A.arrival i = some (p, a)
  sorted : ∀ p, (lv p).Pairwise fun i j =>
    ∀ a b, A.arrival i = some (p, a) → A.arrival j = some (p, b) → a < b

namespace Refines

variable [DecidableEq ι] {lv lv' : π → List ι} {A : Arrivals ι π} {i : ι} {p : π}

omit [DecidableEq ι] in
theorem empty (h : ∀ p, lv p = []) : Refines lv (Arrivals.empty : Arrivals ι π) := by
  constructor
  · intro i p; simp [h, Arrivals.empty]
  · intro p; simp [h]

/-- Leaving is erasing from every level. -/
theorem leave (h : Refines lv A) (hnd : ∀ p, (lv p).Nodup) (hlv : ∀ p, lv' p = (lv p).erase i) :
    Refines lv' (A.leave i) := by
  constructor
  · intro j p
    rw [hlv, (hnd p).mem_erase_iff, h.mem, Arrivals.leave_arrival]
    by_cases hj : j = i <;> simp [hj]
  · intro p
    rw [hlv]
    refine List.Pairwise.imp ?_ ((h.sorted p).sublist List.erase_sublist)
    intro j k hjk a b hj hk
    rw [Arrivals.leave_arrival] at hj hk
    split at hj
    · cases hj
    split at hk
    · cases hk
    exact hjk a b hj hk

/-- Arriving is appending to the level, after the element has left the one it was on. -/
theorem arrive (h : Refines lv A) (hnd : ∀ p, (lv p).Nodup) [DecidableEq π]
    (hlv : ∀ q, lv' q = (lv q).erase i ++ if q = p then [i] else []) :
    Refines lv' (A.arrive i p) := by
  constructor
  · intro j q
    rw [hlv, List.mem_append, (hnd q).mem_erase_iff, h.mem, Arrivals.arrive_arrival]
    by_cases hj : j = i
    · subst hj
      by_cases hq : q = p <;> simp [hq, eq_comm]
      exact fun hp => hq hp.symm
    · by_cases hq : q = p <;> simp [hq, hj]
  · intro q
    rw [hlv]
    refine List.pairwise_append.2 ⟨?_, ?_, ?_⟩
    · refine List.Pairwise.imp_of_mem ?_ ((h.sorted q).sublist List.erase_sublist)
      intro j k hj hk hjk a b ha hb
      have hji := ((hnd q).mem_erase_iff.1 hj).1
      have hki := ((hnd q).mem_erase_iff.1 hk).1
      rw [Arrivals.arrive_arrival, if_neg hji] at ha
      rw [Arrivals.arrive_arrival, if_neg hki] at hb
      exact hjk a b ha hb
    · split <;> simp
    · intro j hj k hk a b ha hb
      split at hk
      · rw [List.mem_singleton] at hk
        subst hk
        have hjk := ((hnd q).mem_erase_iff.1 hj).1
        rw [Arrivals.arrive_arrival, if_neg hjk] at ha
        rw [Arrivals.arrive_arrival, if_pos rfl] at hb
        simp only [Option.some.injEq, Prod.mk.injEq] at hb
        exact hb.2 ▸ A.past j q a ha
      · cases hk

variable [LinearOrder π]

omit [DecidableEq ι] in
/-- **The head of the highest level that is not empty is the next.** -/
theorem isNext_head (h : Refines lv A) {rest : List ι} (hp : lv p = i :: rest)
    (hhigh : ∀ q, p < q → lv q = []) : A.IsNext i := by
  obtain ⟨a, ha⟩ := (h.mem i p).1 (by rw [hp]; exact List.mem_cons_self)
  refine ⟨p, a, ha, fun j q b hj => ?_⟩
  have hmem : j ∈ lv q := (h.mem j q).2 ⟨b, hj⟩
  rcases lt_trichotomy q p with hq | rfl | hq
  · exact .inl hq
  · refine .inr ⟨rfl, ?_⟩
    rw [hp] at hmem
    rcases List.mem_cons.1 hmem with rfl | hmem
    · rw [ha] at hj; simp only [Option.some.injEq, Prod.mk.injEq] at hj; exact le_of_eq hj.2
    · have hs := h.sorted q
      rw [hp] at hs
      exact le_of_lt ((List.pairwise_cons.1 hs).1 j hmem a b ha hj)
  · rw [hhigh q hq] at hmem; cases hmem

omit [DecidableEq ι] [LinearOrder π] in
theorem arrival_none (h : Refines lv A) (hlv : ∀ p, lv p = []) (i : ι) : A.arrival i = none := by
  cases hi : A.arrival i with
  | none => rfl
  | some pa =>
    have := (h.mem i pa.1).2 ⟨pa.2, hi⟩
    rw [hlv] at this
    cases this

end Refines

end PrioFifo
