import Uthreads.Lib.System

/-!
# The cost of a run

What the steps of a run produce can cost something and can earn something. `Trace.amortised`: when no
step costs more than it takes from a potential and earns, the run costs no more than the potential
at its start and what it has earned.
-/

namespace Runs

variable {σ α β : Type*} {next : σ → α → Option σ} {ok : σ → α → Prop} {out : σ → α → σ → List β}
  {s₀ s : σ} {bs : List β}

/-- The sum over what a run has produced. -/
def total (f : β → ℕ) : List β → ℕ
  | [] => 0
  | b :: bs => f b + total f bs

@[simp] theorem total_nil (f : β → ℕ) : total f [] = 0 := rfl

@[simp] theorem total_cons (f : β → ℕ) (b : β) (bs : List β) :
    total f (b :: bs) = f b + total f bs := rfl

@[simp] theorem total_append (f : β → ℕ) (bs bs' : List β) :
    total f (bs ++ bs') = total f bs + total f bs' := by
  induction bs with
  | nil => simp
  | cons b bs ih =>
    simp only [List.cons_append, total_cons, ih]
    omega

theorem total_eq_zero {f : β → ℕ} (h : ∀ b ∈ bs, f b = 0) : total f bs = 0 := by
  induction bs with
  | nil => rfl
  | cons b bs ih =>
    rw [total_cons, h b List.mem_cons_self, ih fun c hc => h c (List.mem_cons_of_mem b hc)]

theorem total_map {γ : Type*} (f : β → ℕ) (g : γ → β) (cs : List γ) :
    total f (cs.map g) = total (fun c => f (g c)) cs := by
  induction cs with
  | nil => rfl
  | cons c cs ih => rw [List.map_cons, total_cons, total_cons, ih]

/-- **Amortised cost.** -/
theorem Trace.amortised {I : σ → Prop} (h : Trace next ok out s₀ s bs) (pot : σ → ℕ)
    (cost credit : β → ℕ) (hI : ∀ s, Reach next ok s₀ s → I s)
    (hstep : ∀ s s' a, I s → ok s a → next s a = some s' →
      total cost (out s a s') + pot s' ≤ pot s + total credit (out s a s')) :
    total cost bs + pot s ≤ pot s₀ + total credit bs := by
  refine h.invariant_of (P := fun s bs => total cost bs + pot s ≤ pot s₀ + total credit bs) hI (by simp) ?_
  intro s s' a bs hs ih ha hn
  have := hstep s s' a hs ha hn
  simp only [total_append]
  omega

end Runs
