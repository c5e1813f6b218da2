import Mathlib.Logic.Function.Basic

/-!
# Who owns which block

Owners hold pointers to allocated blocks. `Owned has ptr allocated` says that every owner has a block of
its own, and that there are no other allocated blocks: none is shared, and none is lost.

* `Owned.malloc`, `Owned.free`: a new owner gets a block that was not allocated, an owner gives its block
  back.
* `Owned.free_ok`: what an owner gives back is allocated.
-/

namespace Blocks

variable {V B : Type*} {has has' : V → Prop} {ptr ptr' : V → Option B} {allocated : B → Bool} {b : B}
  {u v : V}

/-- The allocated blocks are those of the owners, one for each. -/
structure Owned (has : V → Prop) (ptr : V → Option B) (allocated : B → Bool) : Prop where
  own : ∀ v, has v → ∃ b, ptr v = some b ∧ allocated b = true
  apart : ∀ u v, has u → has v → ptr u = ptr v → u = v
  used : ∀ b, allocated b = true → ∃ v, has v ∧ ptr v = some b

/-- Pointers of others do not matter. -/
theorem Owned.congr (h : Owned has ptr allocated) (hh : ∀ v, has' v ↔ has v)
    (hp : ∀ v, has v → ptr' v = ptr v) : Owned has' ptr' allocated := by
  refine ⟨fun v hv => ?_, fun u v hu hv he => ?_, fun b hb => ?_⟩
  · have hv := (hh v).1 hv
    rw [hp v hv]
    exact h.own v hv
  · have hu := (hh u).1 hu
    have hv := (hh v).1 hv
    rw [hp u hu, hp v hv] at he
    exact h.apart u v hu hv he
  · obtain ⟨v, hv, hb⟩ := h.used b hb
    exact ⟨v, (hh v).2 hv, by rw [hp v hv, hb]⟩

/-- Owner and block determine each other. -/
theorem Owned.unique (h : Owned has ptr allocated) (hu : has u) (hv : has v) (hbu : ptr u = some b)
    (hbv : ptr v = some b) : u = v :=
  h.apart u v hu hv (hbu.trans hbv.symm)

/-- What an owner gives back is allocated. -/
theorem Owned.free_ok (h : Owned has ptr allocated) (hv : has v) (hb : ptr v = some b) :
    allocated b = true := by
  obtain ⟨b', hb', ha⟩ := h.own v hv
  rw [hb] at hb'
  rwa [Option.some.inj hb']

variable [DecidableEq B]

/-- `v` gets a block. -/
theorem Owned.malloc [DecidableEq V] (h : Owned has ptr allocated) (hv : ¬ has v) (hb : allocated b = false)
    (hh : ∀ u, has' u ↔ has u ∨ u = v) :
    Owned has' (Function.update ptr v (some b)) (Function.update allocated b true) := by
  have hold : ∀ u, has u → Function.update ptr v (some b) u = ptr u ∧ ptr u ≠ some b := by
    intro u hu
    have hne : u ≠ v := fun e => hv (e ▸ hu)
    refine ⟨Function.update_of_ne hne .., fun e => ?_⟩
    rw [h.free_ok hu e] at hb
    cases hb
  refine ⟨fun u hu => ?_, fun u w hu hw he => ?_, fun b' hb' => ?_⟩
  · rcases (hh u).1 hu with hu | rfl
    · obtain ⟨b', hb', ha⟩ := h.own u hu
      have hne : b' ≠ b := fun e => (hold u hu).2 (e ▸ hb')
      exact ⟨b', by rw [(hold u hu).1, hb'], by rw [Function.update_of_ne hne, ha]⟩
    · exact ⟨b, Function.update_self .., Function.update_self ..⟩
  · rcases (hh u).1 hu with hu | rfl <;> rcases (hh w).1 hw with hw | rfl
    · rw [(hold u hu).1, (hold w hw).1] at he
      exact h.apart u w hu hw he
    · rw [(hold u hu).1, Function.update_self] at he
      exact absurd he (hold u hu).2
    · rw [(hold w hw).1, Function.update_self] at he
      exact absurd he.symm (hold w hw).2
    · rfl
  · by_cases hbb : b' = b
    · subst hbb
      exact ⟨v, (hh v).2 (.inr rfl), Function.update_self ..⟩
    · rw [Function.update_of_ne hbb] at hb'
      obtain ⟨u, hu, hp⟩ := h.used b' hb'
      exact ⟨u, (hh u).2 (.inl hu), by rw [(hold u hu).1, hp]⟩

/-- `v` gives its block back. -/
theorem Owned.free (h : Owned has ptr allocated) (hv : has v) (hb : ptr v = some b)
    (hh : ∀ u, has' u ↔ has u ∧ u ≠ v) : Owned has' ptr (Function.update allocated b false) := by
  refine ⟨fun u hu => ?_, fun u w hu hw he => ?_, fun b' hb' => ?_⟩
  · obtain ⟨hu, hne⟩ := (hh u).1 hu
    obtain ⟨b', hb', ha⟩ := h.own u hu
    have hbb : b' ≠ b := fun e => hne (h.unique hu hv (e ▸ hb') hb)
    exact ⟨b', hb', by rw [Function.update_of_ne hbb, ha]⟩
  · exact h.apart u w ((hh u).1 hu).1 ((hh w).1 hw).1 he
  · by_cases hbb : b' = b
    · subst hbb
      rw [Function.update_self] at hb'
      cases hb'
    · rw [Function.update_of_ne hbb] at hb'
      obtain ⟨u, hu, hp⟩ := h.used b' hb'
      refine ⟨u, (hh u).2 ⟨hu, ?_⟩, hp⟩
      rintro rfl
      rw [hb] at hp
      exact hbb (Option.some.inj hp).symm

end Blocks
