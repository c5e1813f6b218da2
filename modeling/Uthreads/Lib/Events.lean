import Mathlib.Data.List.Basic
import Mathlib.Data.List.Induction

/-!
# What a log says about its past

A log grows at its end. `Since p q l`: an event with `p` is in `l`, and none with `q` after it.
`Each P l`: every event of `l` stands in the relation `P` to the log before it. `since_concat` and
`each_concat` say what one more event does to them.
-/

namespace Events

variable {α : Type*} {p q : α → Prop} {P : List α → α → Prop} {l l' : List α} {x : α}

/-- An event with `p` has happened, and no event with `q` since. -/
def Since (p q : α → Prop) (l : List α) : Prop :=
  ∃ a x b, l = a ++ x :: b ∧ p x ∧ ∀ y ∈ b, ¬ q y

/-- Every event finds the log before it in `P`. -/
def Each (P : List α → α → Prop) (l : List α) : Prop :=
  ∀ a x b, l = a ++ x :: b → P a x

@[simp] theorem since_nil : ¬ Since p q [] := by
  rintro ⟨a, x, b, h, -⟩
  simp at h

/-- **One more event.** -/
theorem since_concat : Since p q (l ++ [x]) ↔ p x ∨ Since p q l ∧ ¬ q x := by
  constructor
  · rintro ⟨a, y, b, h, hy, hb⟩
    rcases List.eq_nil_or_concat' b with rfl | ⟨b, z, rfl⟩
    · obtain ⟨-, hxy⟩ := List.append_inj' h rfl
      obtain rfl : x = y := List.singleton_inj.1 hxy
      exact .inl hy
    · rw [← List.cons_append, ← List.append_assoc] at h
      obtain ⟨rfl, hxz⟩ := List.append_inj' h rfl
      obtain rfl : x = z := List.singleton_inj.1 hxz
      exact .inr ⟨⟨a, y, b, rfl, hy, fun w hw => hb w (List.mem_append_left _ hw)⟩,
        hb x (by simp)⟩
  · rintro (hx | ⟨⟨a, y, b, rfl, hy, hb⟩, hx⟩)
    · exact ⟨l, x, [], rfl, hx, by simp⟩
    · refine ⟨a, y, b ++ [x], by simp, hy, fun w hw => ?_⟩
      rcases List.mem_append.1 hw with hw | hw
      · exact hb w hw
      · rwa [List.mem_singleton.1 hw]

/-- Events that have nothing to do with it. -/
theorem since_append (hp : ∀ x ∈ l', ¬ p x) (hq : ∀ x ∈ l', ¬ q x) :
    Since p q (l ++ l') ↔ Since p q l := by
  induction l' using List.reverseRecOn with
  | nil => rw [List.append_nil]
  | append_singleton l' x ih =>
    have hx : x ∈ l' ++ [x] := by simp
    rw [← List.append_assoc, since_concat, ih (fun y hy => hp y (by simp [hy]))
      fun y hy => hq y (by simp [hy])]
    simp [hp x hx, hq x hx]

/-- Events that do not end it. -/
theorem Since.append (h : Since p q l) (hq : ∀ x ∈ l', ¬ q x) : Since p q (l ++ l') := by
  obtain ⟨a, x, b, rfl, hx, hb⟩ := h
  refine ⟨a, x, b ++ l', by simp, hx, fun y hy => ?_⟩
  rcases List.mem_append.1 hy with hy | hy
  · exact hb y hy
  · exact hq y hy

/-- It can be told from a part of the events. -/
theorem Since.filter {f : α → Bool} (h : Since p q l) (hf : ∀ x, p x → f x = true) :
    Since p q (l.filter f) := by
  obtain ⟨a, x, b, rfl, hx, hb⟩ := h
  refine ⟨a.filter f, x, b.filter f, ?_, hx, fun y hy => hb y (List.mem_of_mem_filter hy)⟩
  rw [List.filter_append, List.filter_cons_of_pos (hf x hx)]

/-- It can be told by going through the log once. -/
theorem since_iff_foldl [DecidablePred p] [DecidablePred q] :
    Since p q l ↔ l.foldl (fun b x => decide (p x) || (b && !decide (q x))) false = true := by
  induction l using List.reverseRecOn with
  | nil => simp
  | append_singleton l x ih => rw [since_concat, ih, List.foldl_append]; simp

instance [DecidablePred p] [DecidablePred q] : Decidable (Since p q l) :=
  decidable_of_iff _ since_iff_foldl.symm

@[simp] theorem each_nil : Each P [] := by
  intro a x b h
  simp at h

/-- **One more event.** -/
theorem each_concat : Each P (l ++ [x]) ↔ Each P l ∧ P l x := by
  constructor
  · intro h
    refine ⟨?_, h l x [] rfl⟩
    rintro a y b rfl
    exact h a y (b ++ [x]) (by simp)
  · rintro ⟨h, hx⟩ a y b hl
    rcases List.eq_nil_or_concat' b with rfl | ⟨b, z, rfl⟩
    · obtain ⟨rfl, hxy⟩ := List.append_inj' hl rfl
      obtain rfl : x = y := List.singleton_inj.1 hxy
      exact hx
    · rw [← List.cons_append, ← List.append_assoc] at hl
      exact h a y b (List.append_inj' hl rfl).1

/-- Events that `P` says nothing about. -/
theorem Each.append (h : Each P l) (hx : ∀ a, ∀ x ∈ l', P a x) : Each P (l ++ l') := by
  induction l' using List.reverseRecOn with
  | nil => rwa [List.append_nil]
  | append_singleton l' x ih =>
    rw [← List.append_assoc, each_concat]
    exact ⟨ih fun a y hy => hx a y (by simp [hy]), hx _ x (by simp)⟩

end Events
