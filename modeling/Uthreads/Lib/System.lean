import Mathlib.Data.List.Basic
import Mathlib.Tactic.SplitIfs

/-!
# Runs of a transition system

A system is a partial step function `next : σ → α → Option σ`. `Reach next ok s₀` are the states
that its runs reach from `s₀` when every step is one that `ok` admits.

* `Reach.invariant`: what holds at the start and is kept by every admitted step holds in every
  reached state; `Reach.invariant_of` for a step lemma that needs another invariant.
* `follow`, `exists_reach`: a computed run shows that a state is reachable.
* `Trace`: a run with what its steps produce; `Trace.invariant_of` is its invariant rule.
* `outputs`, `Simulation.outputs_eq`: two systems with outputs that are in step produce the same
  outputs; `outputs_related` for two runs of one system.
-/

namespace Runs

variable {σ α : Type*}

/-- The states that the runs from `s₀` reach by steps that `ok` admits. -/
inductive Reach (next : σ → α → Option σ) (ok : σ → α → Prop) (s₀ : σ) : σ → Prop
  | start : Reach next ok s₀ s₀
  | step {s s' : σ} {a : α} : Reach next ok s₀ s → ok s a → next s a = some s' →
      Reach next ok s₀ s'

/-- Every step is admitted. -/
def always (_ : σ) (_ : α) : Prop := True

section Reach

variable {next : σ → α → Option σ} {ok ok' : σ → α → Prop} {s₀ s s' : σ}

/-- The invariant rule. -/
theorem Reach.invariant {P : σ → Prop} (h : Reach next ok s₀ s) (h₀ : P s₀)
    (hstep : ∀ s s' a, P s → ok s a → next s a = some s' → P s') : P s := by
  induction h with
  | start => exact h₀
  | step _ ha hn ih => exact hstep _ _ _ ih ha hn

/-- The invariant rule with an invariant `I` that is known to hold. -/
theorem Reach.invariant_of {I P : σ → Prop} (h : Reach next ok s₀ s)
    (hI : ∀ s, Reach next ok s₀ s → I s) (h₀ : P s₀)
    (hstep : ∀ s s' a, I s → P s → ok s a → next s a = some s' → P s') : P s := by
  induction h with
  | start => exact h₀
  | step hr ha hn ih => exact hstep _ _ _ (hI _ hr) ih ha hn

/-- Admitting more steps reaches more states. -/
theorem Reach.mono (h : Reach next ok s₀ s) (hok : ∀ s a, ok s a → ok' s a) :
    Reach next ok' s₀ s := by
  induction h with
  | start => exact .start
  | step _ ha hn ih => exact .step ih (hok _ _ ha) hn

/-- Two systems with the same admitted steps reach the same states. -/
theorem Reach.congr_step {next' : σ → α → Option σ} (h : Reach next ok s₀ s)
    (hn : ∀ s a, ok s a → next s a = next' s a) : Reach next' ok s₀ s := by
  induction h with
  | start => exact .start
  | step _ ha h ih => exact .step ih ha (hn _ _ ha ▸ h)

theorem Reach.trans (h : Reach next ok s₀ s) (h' : Reach next ok s s') : Reach next ok s₀ s' := by
  induction h' with
  | start => exact h
  | step _ ha hn ih => exact .step ih ha hn

/-- A run that goes from `P` to its negation does so in one of its steps. -/
theorem Reach.exists_change {P : σ → Prop} (h : Reach next ok s₀ s) (h₀ : P s₀) (hs : ¬ P s) :
    ∃ s₁ a s₂, Reach next ok s₀ s₁ ∧ ok s₁ a ∧ next s₁ a = some s₂ ∧ Reach next ok s₂ s ∧
      P s₁ ∧ ¬ P s₂ := by
  induction h with
  | start => exact absurd h₀ hs
  | @step s₁ s₂ a hr ha hn ih =>
    by_cases h₁ : P s₁
    · exact ⟨s₁, a, s₂, hr, ha, hn, .start, h₁, hs⟩
    · obtain ⟨r₁, b, r₂, hr₁, hb, hnb, hr₂, hP, hnP⟩ := ih h₁
      exact ⟨r₁, b, r₂, hr₁, hb, hnb, .step hr₂ ha hn, hP, hnP⟩

/-- The state after the steps `as`, if they are possible and admitted. -/
def follow (next : σ → α → Option σ) (ok : σ → α → Prop) [∀ s a, Decidable (ok s a)] (s : σ) :
    List α → Option σ
  | [] => some s
  | a :: as => if ok s a then (next s a).bind fun s' => follow next ok s' as else none

theorem follow_reach [∀ s a, Decidable (ok s a)] {as : List α} (h : follow next ok s₀ as = some s) :
    Reach next ok s₀ s := by
  induction as generalizing s₀ with
  | nil => rw [← Option.some.inj h]; exact .start
  | cons a as ih =>
    unfold follow at h
    split_ifs at h with ha
    obtain ⟨s₁, hn, h⟩ := Option.bind_eq_some_iff.1 h
    exact Reach.trans (.step .start ha hn) (ih h)

/-- What a computation shows about a reachable state. -/
theorem exists_reach [∀ s a, Decidable (ok s a)] {P : σ → Prop} [DecidablePred P] (as : List α)
    (h : (follow next ok s₀ as).any (fun s => decide (P s)) = true) :
    ∃ s, Reach next ok s₀ s ∧ P s := by
  obtain ⟨s, hs, hP⟩ := (Option.any_eq_true _ _).1 h
  exact ⟨s, follow_reach hs, of_decide_eq_true hP⟩

end Reach

instance (s : σ) (a : α) : Decidable (always s a) := .isTrue trivial

/-! ## What the steps of a run produce -/

section Trace

variable {β : Type*} {next : σ → α → Option σ} {ok : σ → α → Prop} {out : σ → α → σ → List β}
  {s₀ s : σ} {bs : List β}

/-- The runs from `s₀` by admitted steps, with what `out` reads off their steps. -/
inductive Trace (next : σ → α → Option σ) (ok : σ → α → Prop) (out : σ → α → σ → List β) (s₀ : σ) :
    σ → List β → Prop
  | start : Trace next ok out s₀ s₀ []
  | step {s s' : σ} {a : α} {bs : List β} : Trace next ok out s₀ s bs → ok s a → next s a = some s' →
      Trace next ok out s₀ s' (bs ++ out s a s')

/-- A system beside what its steps produce. -/
def traced (next : σ → α → Option σ) (out : σ → α → σ → List β) (x : σ × List β) (a : α) :
    Option (σ × List β) :=
  (next x.1 a).map fun s => (s, x.2 ++ out x.1 a s)

/-- A run of it is a trace. -/
theorem Reach.trace {x : σ × List β} (h : Reach (traced next out) (fun x a => ok x.1 a) (s₀, []) x) :
    Trace next ok out s₀ x.1 x.2 := by
  induction h with
  | start => exact .start
  | step _ ha hn ih =>
    obtain ⟨s', hs, rfl⟩ := Option.map_eq_some_iff.1 hn
    exact ih.step ha hs

/-- The invariant rule for a run and what it has produced, with an invariant `I` of the states. -/
theorem Trace.invariant_of {I : σ → Prop} {P : σ → List β → Prop} (h : Trace next ok out s₀ s bs)
    (hI : ∀ s, Reach next ok s₀ s → I s) (h₀ : P s₀ [])
    (hstep : ∀ s s' a bs, I s → P s bs → ok s a → next s a = some s' → P s' (bs ++ out s a s')) :
    P s bs := by
  have hboth : Reach next ok s₀ s ∧ P s bs := by
    induction h with
    | start => exact ⟨.start, h₀⟩
    | step _ ha hn ih => exact ⟨.step ih.1 ha hn, hstep _ _ _ _ (hI _ ih.1) ih.2 ha hn⟩
  exact hboth.2

end Trace

/-! ## Outputs -/

variable {β τ : Type*}

/-- Run a system with outputs and collect them; `none` when a step is not possible. -/
def outputs (next : σ → α → Option (σ × β)) (s : σ) : List α → Option (σ × List β)
  | [] => some (s, [])
  | a :: as =>
    match next s a with
    | none => none
    | some (s', b) => (outputs next s' as).map fun r => (r.1, b :: r.2)

/-- Every step of `next` from related states is one of `next'` with the same output, to related
states. -/
def Simulation (R : σ → τ → Prop) (next : σ → α → Option (σ × β)) (next' : τ → α → τ × β) : Prop :=
  ∀ s t a s' b, R s t → next s a = some (s', b) → (next' t a).2 = b ∧ R s' (next' t a).1

/-- Run a total system with outputs and collect them. -/
def totalOutputs (next' : τ → α → τ × β) (t : τ) : List α → τ × List β
  | [] => (t, [])
  | a :: as =>
    ((totalOutputs next' (next' t a).1 as).1, (next' t a).2 :: (totalOutputs next' (next' t a).1 as).2)

/-- **Simulation rule.** Along a run of `next` the other system produces the same outputs, and
the states stay related. -/
theorem Simulation.outputs_eq {R : σ → τ → Prop} {next : σ → α → Option (σ × β)}
    {next' : τ → α → τ × β} (hsim : Simulation R next next') {as : List α} :
    ∀ {s s' : σ} {t : τ} {bs : List β}, R s t → outputs next s as = some (s', bs) →
      (totalOutputs next' t as).2 = bs ∧ R s' (totalOutputs next' t as).1 := by
  induction as with
  | nil =>
    intro s s' t bs hR h
    simp only [outputs, Option.some.injEq, Prod.mk.injEq] at h
    obtain ⟨rfl, rfl⟩ := h
    exact ⟨rfl, hR⟩
  | cons a as ih =>
    intro s s' t bs hR h
    simp only [outputs] at h
    split at h
    · cases h
    · rename_i s₁ b hn
      obtain ⟨⟨s₂, bs'⟩, hrun, he⟩ := Option.map_eq_some_iff.1 h
      simp only [Prod.mk.injEq] at he
      obtain ⟨rfl, rfl⟩ := he
      obtain ⟨hb, hR'⟩ := hsim s t a s₁ b hR hn
      obtain ⟨hbs, hR''⟩ := ih hR' hrun
      exact ⟨by simp only [totalOutputs, hb, hbs], hR''⟩

/-- The rule for an invariant of the runs with outputs. -/
theorem outputs_invariant {P : σ → Prop} {next : σ → α → Option (σ × β)}
    (hstep : ∀ s s' a b, P s → next s a = some (s', b) → P s') {as : List α} :
    ∀ {s s' : σ} {bs : List β}, P s → outputs next s as = some (s', bs) → P s' := by
  induction as with
  | nil =>
    intro s s' bs hP h
    simp only [outputs, Option.some.injEq, Prod.mk.injEq] at h
    exact h.1 ▸ hP
  | cons a as ih =>
    intro s s' bs hP h
    simp only [outputs] at h
    split at h
    · cases h
    · rename_i s₁ b hn
      obtain ⟨⟨s₂, bs'⟩, hrun, he⟩ := Option.map_eq_some_iff.1 h
      simp only [Prod.mk.injEq] at he
      exact he.1 ▸ ih (hstep s s₁ a b hP hn) hrun

/-- The rule for two runs of one system: related states take the same steps with the same outputs. -/
theorem outputs_related {R : σ → σ → Prop} {next : σ → α → Option (σ × β)}
    (hstep : ∀ s r a s' b, R s r → next s a = some (s', b) → ∃ r', next r a = some (r', b) ∧ R s' r')
    {as : List α} : ∀ {s r s' : σ} {bs : List β}, R s r → outputs next s as = some (s', bs) →
      ∃ r', outputs next r as = some (r', bs) ∧ R s' r' := by
  induction as with
  | nil =>
    intro s r s' bs hR h
    simp only [outputs, Option.some.injEq, Prod.mk.injEq] at h
    obtain ⟨rfl, rfl⟩ := h
    exact ⟨r, rfl, hR⟩
  | cons a as ih =>
    intro s r s' bs hR h
    simp only [outputs] at h
    split at h
    · cases h
    · rename_i s₁ b hn
      obtain ⟨⟨s₂, bs'⟩, hrun, he⟩ := Option.map_eq_some_iff.1 h
      simp only [Prod.mk.injEq] at he
      obtain ⟨rfl, rfl⟩ := he
      obtain ⟨r₁, hr₁, hR₁⟩ := hstep s r a s₁ b hR hn
      obtain ⟨r₂, hr₂, hR₂⟩ := ih hR₁ hrun
      exact ⟨r₂, by simp only [outputs, hr₁, hr₂, Option.map_some], hR₂⟩

/-- One run after another. -/
theorem outputs_append {next : σ → α → Option (σ × β)} {as as' : List α} :
    ∀ {s s' s'' : σ} {bs bs' : List β}, outputs next s as = some (s', bs) →
      outputs next s' as' = some (s'', bs') → outputs next s (as ++ as') = some (s'', bs ++ bs') := by
  induction as with
  | nil =>
    intro s s' s'' bs bs' h h'
    simp only [outputs, Option.some.injEq, Prod.mk.injEq] at h
    obtain ⟨rfl, rfl⟩ := h
    exact h'
  | cons a as ih =>
    intro s s' s'' bs bs' h h'
    simp only [outputs] at h
    split at h
    · cases h
    · rename_i s₁ b hn
      obtain ⟨⟨s₂, bs₁⟩, hrun, he⟩ := Option.map_eq_some_iff.1 h
      simp only [Prod.mk.injEq] at he
      obtain ⟨rfl, rfl⟩ := he
      simp only [List.cons_append, outputs, hn, ih hrun h', Option.map_some]

end Runs
