import Uthreads.Lib.System

/-!
# Data that locks protect

The parties of a system take its steps and hold locks, and each datum has one lock that a party
holds when it writes the datum. Then two parties do not write a datum one after the other unless
the first has released the lock and the second has taken it in between (`Locking.Discipline.handoff_writes`).
-/

open Runs

variable {σ α ι κ δ : Type*}

/-- Who takes a step, who holds which lock, which step writes which datum, and the datum's lock. -/
structure Locking (σ α ι κ δ : Type*) where
  next : σ → α → Option σ
  ok : σ → α → Prop
  who : α → ι
  holds : σ → ι → κ → Prop
  writes : σ → σ → δ → Prop
  lock : δ → κ

namespace Locking

variable (K : Locking σ α ι κ δ)

/-- A step of `x` goes from `s` to `s'`. -/
def Step (x : ι) (s s' : σ) : Prop := ∃ a, K.who a = x ∧ K.ok s a ∧ K.next s a = some s'

/-- A run goes from `s` to `s'`. -/
abbrev Run (s s' : σ) : Prop := Reach K.next K.ok s s'

/-- Between `s` and `s'` the party `x` releases the lock, and after that `y` takes it. -/
def Handoff (x y : ι) (k : κ) (s s' : σ) : Prop :=
  ∃ s₁ s₂ s₃ s₄, K.Run s s₁ ∧ K.Step x s₁ s₂ ∧ K.holds s₁ x k ∧ ¬ K.holds s₂ x k ∧ K.Run s₂ s₃ ∧
    K.Step y s₃ s₄ ∧ ¬ K.holds s₃ y k ∧ K.holds s₄ y k ∧ K.Run s₄ s'

/-- The rules that the states of `I` and the steps from them obey. -/
structure Discipline (I : σ → Prop) : Prop where
  /-- `I` is an invariant. -/
  keep : ∀ s s' a, I s → K.ok s a → K.next s a = some s' → I s'
  /-- A lock has one holder. -/
  one : ∀ s x y k, I s → K.holds s x k → K.holds s y k → x = y
  /-- A step is no release and no acquisition by the other parties. -/
  frame : ∀ s s' x y k, I s → K.Step x s s' → y ≠ x → (K.holds s' y k ↔ K.holds s y k)
  /-- Who writes a datum holds its lock, or takes it in the same step. -/
  guarded : ∀ s s' x d, I s → K.Step x s s' → K.writes s s' d →
    K.holds s x (K.lock d) ∨ K.holds s' x (K.lock d)

variable {K} {I : σ → Prop} {s s' s₁ s₂ : σ} {x y : ι} {k : κ} {d : δ}

theorem Step.run (h : K.Step x s s') : K.Run s s' := by
  obtain ⟨a, -, ha, hn⟩ := h
  exact .step .start ha hn

theorem Discipline.keep_run (hD : K.Discipline I) (hI : I s) (h : K.Run s s') : I s' :=
  h.invariant hI fun _ _ _ => hD.keep _ _ _

/-- **A lock changes hands in two steps.** -/
theorem Discipline.handoff (hD : K.Discipline I) (hI : I s) (hxy : x ≠ y) (hx : K.holds s x k)
    (hr : K.Run s s') (hy : K.holds s' y k) : K.Handoff x y k s s' := by
  have hI' : I s' := hD.keep_run hI hr
  have hnx : ¬ K.holds s' x k := fun h => hxy (hD.one s' x y k hI' h hy)
  obtain ⟨s₁, a, s₂, hr₁, ha, hn, hr₂, hx₁, hx₂⟩ :=
    hr.exists_change (P := fun s => K.holds s x k) hx hnx
  have hI₁ : I s₁ := hD.keep_run hI hr₁
  have hI₂ : I s₂ := hD.keep _ _ _ hI₁ ha hn
  -- only `x` itself can have released the lock
  have hstep : K.Step x s₁ s₂ := by
    refine ⟨a, ?_, ha, hn⟩
    by_contra hne
    exact hx₂ ((hD.frame s₁ s₂ (K.who a) x k hI₁ ⟨a, rfl, ha, hn⟩ (Ne.symm hne)).2 hx₁)
  have hy₁ : ¬ K.holds s₁ y k := fun h => hxy (hD.one s₁ x y k hI₁ hx₁ h)
  have hy₂ : ¬ K.holds s₂ y k := fun h =>
    hy₁ ((hD.frame s₁ s₂ x y k hI₁ hstep (Ne.symm hxy)).1 h)
  obtain ⟨s₃, b, s₄, hr₃, hb, hn', hr₄, hy₃, hy₄⟩ :=
    hr₂.exists_change (P := fun s => ¬ K.holds s y k) hy₂ (not_not.2 hy)
  have hI₃ : I s₃ := hD.keep_run hI₂ hr₃
  have hstep' : K.Step y s₃ s₄ := by
    refine ⟨b, ?_, hb, hn'⟩
    by_contra hne
    exact hy₄ fun h => hy₃ ((hD.frame s₃ s₄ (K.who b) y k hI₃ ⟨b, rfl, hb, hn'⟩ (Ne.symm hne)).1 h)
  exact ⟨s₁, s₂, s₃, s₄, hr₁, hstep, hx₁, hx₂, hr₃, hstep', hy₃, not_not.1 hy₄, hr₄⟩

/-- **Writes to a datum are ordered by its lock.** -/
theorem Discipline.handoff_writes (hD : K.Discipline I) (hI : I s) (hxy : x ≠ y)
    (hx : K.Step x s s₁) (hw : K.writes s s₁ d) (hr : K.Run s₁ s₂) (hy : K.Step y s₂ s')
    (hw' : K.writes s₂ s' d) : K.Handoff x y (K.lock d) s s' := by
  have hI₁ : I s₁ := hD.keep_run hI hx.run
  have hI₂ : I s₂ := hD.keep_run hI₁ hr
  -- a state of the first step in which `x` holds the lock, and one of the second in which `y` does
  obtain ⟨r, hr₀, hr₁, hhx⟩ : ∃ r, K.Run s r ∧ K.Run r s₁ ∧ K.holds r x (K.lock d) := by
    rcases hD.guarded s s₁ x d hI hx hw with h | h
    · exact ⟨s, .start, hx.run, h⟩
    · exact ⟨s₁, hx.run, .start, h⟩
  obtain ⟨r', hr₂, hr₃, hhy⟩ : ∃ r', K.Run s₂ r' ∧ K.Run r' s' ∧ K.holds r' y (K.lock d) := by
    rcases hD.guarded s₂ s' y d hI₂ hy hw' with h | h
    · exact ⟨s₂, .start, hy.run, h⟩
    · exact ⟨s', hy.run, .start, h⟩
  obtain ⟨t₁, t₂, t₃, t₄, h₁, hs₁, ha, hb, h₂, hs₂, hc, he, h₃⟩ :=
    hD.handoff (hD.keep_run hI hr₀) hxy hhx (hr₁.trans (hr.trans hr₂)) hhy
  exact ⟨t₁, t₂, t₃, t₄, hr₀.trans h₁, hs₁, ha, hb, h₂, hs₂, hc, he, h₃.trans hr₃⟩

end Locking
