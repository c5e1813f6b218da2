import Mathlib.Data.Fintype.Card
import Mathlib.Logic.Relation

/-!
# Relations without cycles

`Acyclic R` says that no chain of `R` leads from a point back to itself. `acyclic_insert`: one more
edge `a → b` makes no cycle if no chain leads from `b` to `a`.
-/

namespace Chains

open Relation

variable {α : Type*} {R R' : α → α → Prop} {a b : α}

/-- No chain leads back to where it starts. -/
def Acyclic (R : α → α → Prop) : Prop := ∀ x, ¬ TransGen R x x

/-- A chain in the larger relation goes through the new edge, or is one of the smaller. -/
theorem chain_insert (hadd : ∀ x y, R' x y → R x y ∨ x = a ∧ y = b) {x y : α}
    (h : TransGen R' x y) : TransGen R x y ∨ ReflTransGen R x a ∧ ReflTransGen R b y := by
  induction h with
  | single h =>
    rcases hadd _ _ h with h | ⟨rfl, rfl⟩
    · exact .inl (.single h)
    · exact .inr ⟨.refl, .refl⟩
  | tail _ h ih =>
    rcases hadd _ _ h with h | ⟨rfl, rfl⟩
    · -- an old edge behind the chain
      rcases ih with ih | ⟨hx, hy⟩
      · exact .inl (ih.tail h)
      · exact .inr ⟨hx, hy.tail h⟩
    · rcases ih with ih | ⟨hx, -⟩
      · exact .inr ⟨ih.to_reflTransGen, .refl⟩
      · exact .inr ⟨hx, .refl⟩

/-- **A new edge.** -/
theorem acyclic_insert (h : Acyclic R) (hadd : ∀ x y, R' x y → R x y ∨ x = a ∧ y = b)
    (hne : ¬ ReflTransGen R b a) : Acyclic R' := by
  intro x hx
  rcases chain_insert hadd hx with hx | ⟨hxa, hbx⟩
  · exact h x hx
  · exact hne (hbx.trans hxa)

/-- Fewer edges. -/
theorem Acyclic.mono (h : Acyclic R) (hsub : ∀ x y, R' x y → R x y) : Acyclic R' :=
  fun x hx => h x (TransGen.mono hsub _ _ hx)

/-- Between finitely many points every chain ends. -/
theorem Acyclic.wellFounded [Finite α] (h : Acyclic R) : WellFounded (Function.swap R) := by
  have hirr : Std.Irrefl (Function.swap (TransGen R)) := ⟨h⟩
  have htrans : IsTrans α (Function.swap (TransGen R)) := ⟨fun _ _ _ hxy hyz => TransGen.trans hyz hxy⟩
  have hwf := Finite.wellFounded_of_trans_of_irrefl (Function.swap (TransGen R))
  have hsub : Subrelation (Function.swap R) (Function.swap (TransGen R)) := by
    intro x y hxy
    exact TransGen.single hxy
  exact hsub.wf hwf

end Chains
