import Mathlib.Data.List.Chain
import Mathlib.Data.List.Nodup
import Mathlib.Logic.Function.Basic

/-!
# Rings of pointers

A circular doubly linked list in a heap: `next` and `prev` give the two pointers of a node, `none` is
NULL. `Linked next prev h xs` says that the pointers run from `h` through `xs` back to `h`.

* `Linked.insert`: four writes put a node behind `h`.
* `Linked.remove`: four writes take a node out, wherever it stands.
* `Linked.congr`: a ring reads the pointers of its own nodes only.
* `Linked.inverse`: on a ring the two pointers are inverse to each other.
-/

namespace Rings

variable {α : Type*} {next prev next' prev' : α → Option α} {h a b x y : α} {xs : List α}

/-- `a` points forward to `b`, and `b` back to `a`. -/
def Joined (next prev : α → Option α) (a b : α) : Prop := next a = some b ∧ prev b = some a

/-- The ring through `h` and then `xs`. -/
structure Linked (next prev : α → Option α) (h : α) (xs : List α) : Prop where
  chain : (h :: xs ++ [h]).IsChain (Joined next prev)
  nodup : (h :: xs).Nodup

/-- The empty ring. -/
theorem Linked.nil (hn : next h = some h) (hp : prev h = some h) : Linked next prev h [] :=
  ⟨by simpa [List.isChain_pair] using ⟨hn, hp⟩, by simp⟩

/-- A ring reads only the pointers of its nodes. -/
theorem Linked.congr (hl : Linked next prev h xs) (hn : ∀ a ∈ h :: xs, next' a = next a)
    (hp : ∀ a ∈ h :: xs, prev' a = prev a) : Linked next' prev' h xs := by
  refine ⟨hl.chain.imp_of_mem_imp fun a b ha hb hab => ?_, hl.nodup⟩
  have hmem : ∀ a ∈ h :: xs ++ [h], a ∈ h :: xs := by
    intro a ha
    rcases List.mem_append.1 ha with ha | ha
    · exact ha
    · rw [List.mem_singleton.1 ha]; exact List.mem_cons_self
  exact ⟨(hn a (hmem a ha)).trans hab.1, (hp b (hmem b hb)).trans hab.2⟩

/-- A node of a ring has a successor on it. -/
theorem Linked.next_mem (hl : Linked next prev h xs) (ha : a ∈ h :: xs) :
    ∃ b ∈ h :: xs, Joined next prev a b := by
  obtain ⟨l, r, hlr⟩ := List.append_of_mem ha
  cases r with
  | nil =>
    have hc := hl.chain
    rw [hlr, List.append_assoc] at hc
    exact ⟨h, List.mem_cons_self, (List.isChain_append_cons_cons.1 hc).2.1⟩
  | cons b r =>
    have hc := hl.chain
    rw [hlr, List.append_assoc] at hc
    exact ⟨b, by rw [hlr]; simp, (List.isChain_append_cons_cons.1 hc).2.1⟩

/-- The same ring, run through backwards. -/
theorem Linked.reverse (hl : Linked next prev h xs) : Linked prev next h xs.reverse := by
  refine ⟨?_, ?_⟩
  · have hrev : h :: xs.reverse ++ [h] = (h :: xs ++ [h]).reverse := by simp
    rw [hrev, List.isChain_reverse]
    exact hl.chain.imp fun a b hab => ⟨hab.2, hab.1⟩
  · have hnd := hl.nodup
    rw [List.nodup_cons] at hnd ⊢
    exact ⟨by simpa using hnd.1, List.nodup_reverse.2 hnd.2⟩

/-- A node of a ring has a predecessor on it. -/
theorem Linked.prev_mem (hl : Linked next prev h xs) (hb : b ∈ h :: xs) :
    ∃ a ∈ h :: xs, Joined next prev a b := by
  obtain ⟨a, ha, hab⟩ := hl.reverse.next_mem (a := b) (by simpa using hb)
  exact ⟨a, by simpa using ha, hab.2, hab.1⟩

/-- **The two pointers of a ring are inverse to each other.** -/
theorem Linked.inverse (hl : Linked next prev h xs) (ha : a ∈ h :: xs) :
    next a = some b ↔ b ∈ h :: xs ∧ prev b = some a := by
  constructor
  · intro hab
    obtain ⟨c, hc, hac⟩ := hl.next_mem ha
    obtain rfl : c = b := Option.some.inj (hac.1.symm.trans hab)
    exact ⟨hc, hac.2⟩
  · rintro ⟨hb, hab⟩
    obtain ⟨c, -, hcb⟩ := hl.prev_mem hb
    obtain rfl : c = a := Option.some.inj (hcb.2.symm.trans hab)
    exact hcb.1

/-- The first node behind the head. -/
theorem Linked.next_head (hl : Linked next prev h xs) : next h = some (xs.head?.getD h) := by
  have hc := hl.chain
  cases xs with
  | nil => exact (List.isChain_pair.1 hc).1
  | cons x xs => exact (List.isChain_cons_cons.1 hc).1.1

/-- The last node before the head. -/
theorem Linked.prev_head (hl : Linked next prev h xs) : prev h = some (xs.getLast?.getD h) := by
  rw [hl.reverse.next_head, List.head?_reverse]

/-- **A node behind the head.** `o` is the node that was there. -/
theorem Linked.insert [DecidableEq α] {o : α} (hl : Linked next prev h xs) (ho : next h = some o)
    (hx : x ∉ h :: xs) :
    Linked (Function.update (Function.update next x (some o)) h (some x))
      (Function.update (Function.update prev x (some h)) o (some x)) h (x :: xs) := by
  obtain ⟨hxh, hxs⟩ : x ≠ h ∧ x ∉ xs := by simpa using hx
  have hmem : ∀ a ∈ xs ++ [h], a ≠ x := by
    rintro a ha rfl
    rcases List.mem_append.1 ha with ha | ha
    · exact hxs ha
    · exact hxh (List.mem_singleton.1 ha)
  -- `o` is the first of the rest, and occurs there once
  obtain ⟨rest, hrest⟩ : ∃ rest, xs ++ [h] = o :: rest := by
    have hn := hl.next_head
    cases xs with
    | nil => exact ⟨[], by rw [ho] at hn; simpa using (Option.some.inj hn).symm⟩
    | cons y ys => exact ⟨ys ++ [h], by rw [ho] at hn; simpa using (Option.some.inj hn).symm⟩
  have hox : o ≠ x := hmem o (by rw [hrest]; exact List.mem_cons_self)
  have hnot : o ∉ rest := by
    have hnd : (xs ++ [h]).Nodup := List.nodup_append_comm.1 hl.nodup
    rw [hrest] at hnd
    exact (List.nodup_cons.1 hnd).1
  refine ⟨?_, (List.Perm.swap x h xs).nodup_iff.2 (List.nodup_cons.2 ⟨hx, hl.nodup⟩)⟩
  have hc := hl.chain
  rw [List.cons_append, hrest, List.isChain_cons_cons] at hc
  rw [List.cons_append, List.cons_append, hrest, List.isChain_cons_cons, List.isChain_cons_cons]
  refine ⟨⟨by simp, by simp [Ne.symm hox]⟩, ⟨by simp [hxh], by simp⟩, ?_⟩
  refine hc.2.imp_of_mem_tail_imp fun a b ha hb hab => ?_
  have hax : a ≠ x := hmem a (by rw [hrest]; exact ha)
  have hbx : b ≠ x := hmem b (by rw [hrest]; exact List.mem_cons_of_mem o hb)
  have hbo : b ≠ o := fun e => hnot (e ▸ hb)
  -- only `h` points to `o`
  have hah : a ≠ h := by
    rintro rfl
    exact hbo (Option.some.inj (hab.1.symm.trans ho))
  exact ⟨by simp [hax, hah, hab.1], by simp [hbx, hbo, hab.2]⟩

/-- **A node taken out**, from wherever it stands between `a` and `b`. -/
theorem Linked.remove [DecidableEq α] (hl : Linked next prev h xs) (hx : x ∈ xs)
    (ha : prev x = some a) (hb : next x = some b) :
    Linked (Function.update (Function.update next a (some b)) x none)
      (Function.update (Function.update prev b (some a)) x none) h (xs.erase x) := by
  obtain ⟨l, r, rfl⟩ := List.append_of_mem hx
  have hnd : (x :: (h :: l ++ r)).Nodup := List.nodup_middle.1 (by simpa using hl.nodup)
  obtain ⟨hxlr, hlr⟩ := List.nodup_cons.1 hnd
  have hxl : x ∉ h :: l := fun hm => hxlr (List.mem_append_left _ hm)
  have hxr : x ∉ r ++ [h] := by
    intro hm
    rcases List.mem_append.1 hm with hm | hm
    · exact hxlr (List.mem_append_right _ hm)
    · rw [List.mem_singleton.1 hm] at hxl; exact hxl List.mem_cons_self
  rw [List.erase_append_right _ (fun hm => hxl (List.mem_cons_of_mem h hm)), List.erase_cons_head]
  refine ⟨?_, hlr⟩
  have hc : ((h :: l) ++ x :: (r ++ [h])).IsChain (Joined next prev) := by
    simpa using hl.chain
  obtain ⟨hleft, hright, hax⟩ := List.isChain_append.1 hc
  obtain ⟨hxb, hright⟩ := List.isChain_cons.1 hright
  have hja : Joined next prev a x := by
    obtain ⟨c, -, hc⟩ := hl.prev_mem (b := x) (by simp)
    rwa [Option.some.inj (ha.symm.trans hc.2)]
  have hjb : Joined next prev x b := by
    obtain ⟨c, -, hc⟩ := hl.next_mem (a := x) (by simp)
    rwa [Option.some.inj (hb.symm.trans hc.1)]
  -- without `x` the pairs are joined as before: only `a` pointed to `x`, and `x` only to `b`
  have hkeep : ∀ ys : List α, x ∉ ys → ys.IsChain (Joined next prev) →
      ys.IsChain (Joined (Function.update (Function.update next a (some b)) x none)
        (Function.update (Function.update prev b (some a)) x none)) := by
    intro ys hxy hys
    refine hys.imp_of_mem_imp fun y z hy hz hyz => ?_
    have hyx : y ≠ x := fun e => hxy (e ▸ hy)
    have hzx : z ≠ x := fun e => hxy (e ▸ hz)
    have hya : y ≠ a := fun e => hzx (Option.some.inj (hyz.1.symm.trans (e ▸ hja.1)))
    have hzb : z ≠ b := fun e => hyx (Option.some.inj (hyz.2.symm.trans (e ▸ hjb.2)))
    exact ⟨by simp [hyx, hya, hyz.1], by simp [hzx, hzb, hyz.2]⟩
  rw [← List.cons_append, List.append_assoc]
  refine (hkeep _ hxl hleft).append (hkeep _ hxr hright) fun y hy z hz => ?_
  obtain rfl : y = a := Option.some.inj ((hax y hy x (by simp)).2.symm.trans ha)
  obtain rfl : z = b := Option.some.inj ((hxb z hz).1.symm.trans hb)
  have hyx : y ≠ x := fun e => hxl (e ▸ List.mem_of_getLast? hy)
  have hzx : z ≠ x := fun e => hxr (e ▸ List.mem_of_head? hz)
  exact ⟨by simp [hyx], by simp [hzx]⟩

end Rings
