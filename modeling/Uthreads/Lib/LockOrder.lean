import Uthreads.Lib.Acyclic

/-!
# Locks that are taken in order

Parties hold locks and wait for locks. When each of them waits only for a lock that ranks above all
it holds (`Ordered`), nobody waits for itself through others (`Ordered.acyclic`), and behind every
wait there is a party that holds a lock and waits for none (`Ordered.exists_free`).
-/

namespace LockOrder

open Relation Chains

variable {α κ π : Type*} [Preorder π] {holds waits : α → κ → Prop} {rank : κ → π}

/-- `x` waits for a lock that `y` holds. -/
def WaitsFor (holds waits : α → κ → Prop) (x y : α) : Prop := ∃ k, waits x k ∧ holds y k

/-- A party waits only for a lock that ranks above those it holds. -/
def Ordered (holds waits : α → κ → Prop) (rank : κ → π) : Prop :=
  ∀ x k k', waits x k → holds x k' → rank k' < rank k

/-- Along a chain of waits the ranks rise. -/
theorem Ordered.chain_rank (h : Ordered holds waits rank) {x y : α}
    (hxy : TransGen (WaitsFor holds waits) x y) :
    ∃ k k', waits x k ∧ holds y k' ∧ rank k ≤ rank k' := by
  induction hxy with
  | single hxy =>
    obtain ⟨k, hx, hy⟩ := hxy
    exact ⟨k, k, hx, hy, le_refl _⟩
  | tail _ hyz ih =>
    obtain ⟨k, k', hx, hy, hle⟩ := ih
    obtain ⟨k'', hy', hz⟩ := hyz
    exact ⟨k, k'', hx, hz, hle.trans (h _ k'' k' hy' hy).le⟩

/-- **No party waits for itself**, directly or through others. -/
theorem Ordered.acyclic (h : Ordered holds waits rank) : Acyclic (WaitsFor holds waits) := by
  intro x hx
  obtain ⟨k, k', hk, hk', hle⟩ := h.chain_rank hx
  exact not_lt_of_ge hle (h x k k' hk hk')

/-- **The end of a chain of waits.** If every lock that is waited for is held, some party that waits
for nothing holds a lock that another waits for. -/
theorem Ordered.exists_free [Finite α] (h : Ordered holds waits rank)
    (hheld : ∀ x k, waits x k → ∃ y, holds y k) {x : α} {k : κ} (hk : waits x k) :
    ∃ y k' z, holds y k' ∧ waits z k' ∧ ∀ k'', ¬ waits y k'' := by
  -- by induction along the chain, which ends because it has no cycle
  induction x using h.acyclic.wellFounded.induction generalizing k with
  | _ x ih =>
    obtain ⟨y, hy⟩ := hheld x k hk
    by_cases hw : ∃ k'', waits y k''
    · obtain ⟨k'', hw⟩ := hw
      exact ih y ⟨k, hk, hy⟩ hw
    · exact ⟨y, k, x, hy, hk, fun k'' hk'' => hw ⟨k'', hk''⟩⟩

end LockOrder
