import Uthreads.Lib.Ring
import Uthreads.Lib.System
import Uthreads.Model.Pointers
import Uthreads.Sched.Links

/-!
# The thread queues are sequences

`queues_refine`: along every sequence of calls that keep to the preconditions, the pointers of
`uthread_queue.c` represent one sequence of threads for each queue, oldest first. No assertion fails
and no NULL pointer is followed, a call returns what it returns on the sequences, and it writes to no
other queue.
-/

namespace Uthreads

open Rings

variable {Q T : Type} {m m' : QueueMem Q T} {q r : Q} {t u : T} {xs ys zs : List T}

/-! ## What the pointers represent -/

/-- The sequences of the queues, oldest thread first; `none` for a queue that `utqueue_init` has not
seen. -/
abbrev Seqs (Q T : Type) := Q → Option (List T)

variable {a : Seqs Q T}

/-- The ring of a queue behind its head: `utqueue_enqueue` links at `l_next`, so the youngest is the
first. -/
def ringOf (xs : List T) : List (ListLink Q T) := xs.reverse.map .utLink

/-- The head of a queue and the links on its ring. -/
def nodesOf (q : Q) (xs : List T) : List (ListLink Q T) := .tqWaiters q :: ringOf xs

/-- The link of `t` is NULL. -/
def NullLink (m : QueueMem Q T) (t : T) : Prop :=
  m.lNext (.utLink t) = none ∧ m.lPrev (.utLink t) = none

/-- The pointers and counters in memory represent the sequences. -/
structure Represents (m : QueueMem Q T) (a : Seqs Q T) : Prop where
  ring : ∀ q xs, a q = some xs → Linked m.lNext m.lPrev (.tqWaiters q) (ringOf xs)
  size : ∀ q xs, a q = some xs → m.tqSize q = xs.length
  apart : ∀ q r xs ys t, a q = some xs → a r = some ys → t ∈ xs → t ∈ ys → q = r
  null : ∀ t, NullLink m t ↔ ∀ q xs, a q = some xs → t ∉ xs

/-- Nothing on the ring of a queue has been written, nor its counter. -/
def SameQueue (m m' : QueueMem Q T) (q : Q) (xs : List T) : Prop :=
  (∀ x ∈ nodesOf q xs, m'.lNext x = m.lNext x ∧ m'.lPrev x = m.lPrev x) ∧ m'.tqSize q = m.tqSize q

@[simp] theorem mem_ringOf {x : ListLink Q T} : x ∈ ringOf xs ↔ ∃ t ∈ xs, x = .utLink t := by
  simp only [ringOf, List.mem_map, List.mem_reverse]
  exact ⟨fun ⟨t, ht, e⟩ => ⟨t, ht, e.symm⟩, fun ⟨t, ht, e⟩ => ⟨t, ht, e.symm⟩⟩

@[simp] theorem mem_nodesOf {x : ListLink Q T} :
    x ∈ nodesOf q xs ↔ x = .tqWaiters q ∨ ∃ t ∈ xs, x = .utLink t := by
  simp [nodesOf]

theorem Represents.nodup (h : Represents m a) (hq : a q = some xs) : xs.Nodup := by
  have hr := (List.nodup_cons.1 (h.ring q xs hq).nodup).2
  exact List.nodup_reverse.1 (List.Nodup.of_map _ hr)

/-- **No two rings share a node.** -/
theorem Represents.disjoint (h : Represents m a) (hq : a q = some xs) (hr : a r = some ys)
    (hne : r ≠ q) {x y : ListLink Q T} (hx : x ∈ nodesOf q xs) (hy : y ∈ nodesOf r ys) : y ≠ x := by
  rw [mem_nodesOf] at hx hy
  rintro rfl
  rcases hx with rfl | ⟨t, ht, rfl⟩
  · rcases hy with e | ⟨u, -, e⟩
    · exact hne (ListLink.tqWaiters.inj e).symm
    · cases e
  · rcases hy with e | ⟨u, hu, e⟩
    · cases e
    · obtain rfl := ListLink.utLink.inj e
      exact hne (h.apart q r xs ys t hq hr ht hu).symm

/-- One queue gets a new ring, and the others are left alone. -/
theorem Represents.update [DecidableEq Q] (h : Represents m a)
    (hring : Linked m'.lNext m'.lPrev (.tqWaiters q) (ringOf zs)) (hsize : m'.tqSize q = zs.length)
    (hother : ∀ r ys, r ≠ q → a r = some ys → SameQueue m m' r ys)
    (hapart : ∀ t ∈ zs, ∀ r ys, r ≠ q → a r = some ys → t ∉ ys)
    (hnull : ∀ t, t ∉ zs → (NullLink m' t ↔ ∀ r ys, r ≠ q → a r = some ys → t ∉ ys)) :
    Represents m' (Function.update a q (some zs)) := by
  have hget : ∀ {r ys}, Function.update a q (some zs) r = some ys →
      (r = q ∧ ys = zs) ∨ (r ≠ q ∧ a r = some ys) := by
    intro r ys hr
    by_cases hrq : r = q
    · subst hrq; rw [Function.update_self] at hr; exact .inl ⟨rfl, (Option.some.inj hr).symm⟩
    · rw [Function.update_of_ne hrq] at hr; exact .inr ⟨hrq, hr⟩
  refine ⟨fun r ys hr => ?_, fun r ys hr => ?_, fun r r' ys ys' t hr hr' ht ht' => ?_, fun t => ?_⟩
  · rcases hget hr with ⟨rfl, rfl⟩ | ⟨hne, hr⟩
    · exact hring
    · have hs := (hother r ys hne hr).1
      exact (h.ring r ys hr).congr (fun x hx => (hs x hx).1) fun x hx => (hs x hx).2
  · rcases hget hr with ⟨rfl, rfl⟩ | ⟨hne, hr⟩
    · exact hsize
    · rw [(hother r ys hne hr).2]; exact h.size r ys hr
  · rcases hget hr with ⟨e, rfl⟩ | ⟨hne, hy⟩ <;> rcases hget hr' with ⟨e', rfl⟩ | ⟨hne', hy'⟩
    · rw [e, e']
    · exact absurd ht' (hapart t ht r' ys' hne' hy')
    · exact absurd ht (hapart t ht' r ys hne hy)
    · exact h.apart r r' ys ys' t hy hy' ht ht'
  · constructor
    · intro hn r ys hr
      by_cases ht : t ∈ zs
      · -- a thread on the ring has a successor
        obtain ⟨x, -, hx, -⟩ := hring.next_mem (a := .utLink t) (by simpa using ht)
        rw [hn.1] at hx
        cases hx
      · rcases hget hr with ⟨rfl, rfl⟩ | ⟨hne, hr⟩
        · exact ht
        · exact (hnull t ht).1 hn r ys hne hr
    · intro ho
      refine (hnull t (ho q zs (by simp))).2 fun r ys hne hr => ho r ys ?_
      rw [Function.update_of_ne hne, hr]

/-- A thread that is not on the queue is on no queue when it is on no other. -/
theorem not_mem_other (hq : a q = some xs) (hu : u ∉ xs) :
    (∀ r ys, a r = some ys → u ∉ ys) ↔ ∀ r ys, r ≠ q → a r = some ys → u ∉ ys := by
  constructor
  · exact fun ho r ys _ hr => ho r ys hr
  · intro ho r ys hr
    by_cases hrq : r = q
    · subst hrq
      rw [← Option.some.inj (hq.symm.trans hr)]
      exact hu
    · exact ho r ys hrq hr

/-! ## Calls -/

section Calls

variable [DecidableEq Q] [DecidableEq T]

/-- `utqueue_init` of a queue that is empty or was not initialised. -/
theorem init_represents (h : Represents m a) (hq : a q = none ∨ a q = some []) :
    Represents (m.utqueueInit q) (Function.update a q (some [])) ∧
      ∀ r ys, r ≠ q → a r = some ys → SameQueue m (m.utqueueInit q) r ys := by
  have hsame : ∀ r ys, r ≠ q → a r = some ys → SameQueue m (m.utqueueInit q) r ys := by
    intro r ys hne _
    refine ⟨fun x hx => ?_, ?_⟩
    · have hxq : x ≠ .tqWaiters q := by
        rintro rfl
        rcases mem_nodesOf.1 hx with e | ⟨t, -, e⟩
        · exact hne (ListLink.tqWaiters.inj e).symm
        · cases e
      simp [QueueMem.utqueueInit, QueueMem.listInit, hxq]
    · simp [QueueMem.utqueueInit, QueueMem.listInit, hne]
  refine ⟨h.update ?_ ?_ hsame (by simp) fun t _ => ?_, hsame⟩
  · refine Linked.nil ?_ ?_ <;> simp [QueueMem.utqueueInit, QueueMem.listInit]
  · simp [QueueMem.utqueueInit]
  · have hnull : NullLink (m.utqueueInit q) t ↔ NullLink m t := by
      simp [NullLink, QueueMem.utqueueInit, QueueMem.listInit]
    rw [hnull, h.null]
    constructor
    · exact fun ho r ys _ hr => ho r ys hr
    · intro ho r ys hr
      by_cases hrq : r = q
      · -- the queue itself had no thread on it
        subst hrq
        rcases hq with hq | hq <;> rw [hq] at hr
        · cases hr
        · rw [← Option.some.inj hr]; simp
      · exact ho r ys hrq hr

/-- **The assertion of `utqueue_empty` holds**, and the answer is right. -/
theorem empty_represents (h : Represents m a) (hq : a q = some xs) :
    m.utqueueEmpty q = .ok xs.isEmpty := by
  have hn := (h.ring q xs hq).next_head
  have hs := h.size q xs hq
  have hlist : m.listEmpty (.tqWaiters q) = xs.isEmpty := by
    unfold QueueMem.listEmpty
    rw [hn]
    cases xs using List.reverseRecOn with
    | nil => simp [ringOf]
    | append_singleton xs t => simp [ringOf]
  have hsize : decide (m.tqSize q = 0) = xs.isEmpty := by
    rw [hs]
    cases xs <;> simp
    omega
  unfold QueueMem.utqueueEmpty
  rw [hlist, hsize]
  simp [queueAssert, bind, Except.bind, pure, Except.pure]

/-- What `list_insert_head` of an unlinked thread writes. -/
theorem insertHead_ok (h : Represents m a) (hq : a q = some xs) (ht : NullLink m t) :
    ∃ o, m.lNext (.tqWaiters q) = some o ∧ o ∈ nodesOf q xs ∧
      m.listInsertHead (.tqWaiters q) (.utLink t) = .ok { m with
        lNext := Function.update (Function.update m.lNext (.utLink t) (some o)) (.tqWaiters q)
          (some (.utLink t))
        lPrev := Function.update (Function.update m.lPrev (.utLink t) (some (.tqWaiters q))) o
          (some (.utLink t)) } := by
  obtain ⟨o, ho, hn, hp⟩ := (h.ring q xs hq).next_mem List.mem_cons_self
  have hot : o ≠ .utLink t := by
    rintro rfl
    obtain ⟨u, hu, e⟩ := (mem_nodesOf.1 ho).resolve_left (by simp)
    obtain rfl := ListLink.utLink.inj e
    exact (h.null t).1 ht q xs hq hu
  refine ⟨o, hn, ho, ?_⟩
  unfold QueueMem.listInsertHead QueueMem.listInsertBefore
  rw [hn]
  simp [deref, bind, Except.bind, pure, Except.pure, hp, hot, QueueMem.setNext, QueueMem.setPrev]

/-- **`utqueue_enqueue`** of an unlinked thread appends it to the sequence of the queue. -/
theorem enqueue_represents (h : Represents m a) (hq : a q = some xs) (ht : NullLink m t) :
    ∃ m', m.utqueueEnqueue q t = .ok m' ∧
      Represents m' (Function.update a q (some (xs ++ [t]))) ∧
      ∀ r ys, r ≠ q → a r = some ys → SameQueue m m' r ys := by
  obtain ⟨o, hn, ho, hins⟩ := insertHead_ok h hq ht
  have hfree := (h.null t).1 ht
  set m₁ := { m with
    lNext := Function.update (Function.update m.lNext (.utLink t) (some o)) (.tqWaiters q)
      (some (.utLink t))
    lPrev := Function.update (Function.update m.lPrev (.utLink t) (some (.tqWaiters q))) o
      (some (.utLink t)) } with hm₁
  have hsame : ∀ r ys, r ≠ q → a r = some ys → SameQueue m (m₁.setSize q (m₁.tqSize q + 1)) r ys := by
    intro r ys hne hr
    refine ⟨fun x hx => ?_, by simp [hm₁, hne]⟩
    have hxq : x ≠ .tqWaiters q := h.disjoint hq hr hne (by simp) hx
    have hxo : x ≠ o := h.disjoint hq hr hne ho hx
    have hxt : x ≠ .utLink t := by
      rintro rfl
      obtain ⟨u, hu, e⟩ := (mem_nodesOf.1 hx).resolve_left (by simp)
      obtain rfl := ListLink.utLink.inj e
      exact hfree r ys hr hu
    simp [hm₁, hxq, hxo, hxt]
  refine ⟨m₁.setSize q (m₁.tqSize q + 1), ?_, h.update ?_ ?_ hsame ?_ fun u hu => ?_, hsame⟩
  · unfold QueueMem.utqueueEnqueue
    rw [hins]
    simp [queueAssert, ht.1, ht.2, bind, Except.bind, pure, Except.pure]
  · have hx : .utLink t ∉ ListLink.tqWaiters q :: ringOf xs := by
      have := hfree q xs hq
      simpa using this
    have hring : ringOf (Q := Q) (xs ++ [t]) = .utLink t :: ringOf xs := by simp [ringOf]
    rw [hring]
    exact (h.ring q xs hq).insert hn hx
  · simp [hm₁, h.size q xs hq]
  · intro u hu r ys hne hr
    rcases List.mem_append.1 hu with hu | hu
    · exact fun hy => hne (h.apart r q ys xs u hr hq hy hu)
    · rw [List.mem_singleton.1 hu]; exact hfree r ys hr
  · obtain ⟨hux, hut⟩ : u ∉ xs ∧ u ≠ t := by simpa using hu
    have huo : ListLink.utLink u ≠ o := by
      rintro rfl
      obtain ⟨v, hv, e⟩ := (mem_nodesOf.1 ho).resolve_left (by simp)
      obtain rfl := ListLink.utLink.inj e
      exact hux hv
    have hnull : NullLink (m₁.setSize q (m₁.tqSize q + 1)) u ↔ NullLink m u := by
      simp [NullLink, hm₁, hut, huo]
    rw [hnull, h.null]
    exact not_mem_other hq hux

/-- What `list_remove` of a thread on the queue writes. -/
theorem listRemove_ok (h : Represents m a) (hq : a q = some xs) (ht : t ∈ xs) :
    ∃ b c, m.lPrev (.utLink t) = some b ∧ m.lNext (.utLink t) = some c ∧
      b ∈ nodesOf q xs ∧ c ∈ nodesOf q xs ∧
      m.listRemove (.utLink t) = .ok { m with
        lNext := Function.update (Function.update m.lNext b (some c)) (.utLink t) none
        lPrev := Function.update (Function.update m.lPrev c (some b)) (.utLink t) none } := by
  have hmem : .utLink t ∈ nodesOf q xs := by simpa using ht
  obtain ⟨c, hc, hn, -⟩ := (h.ring q xs hq).next_mem hmem
  obtain ⟨b, hb, -, hp⟩ := (h.ring q xs hq).prev_mem hmem
  refine ⟨b, c, hp, hn, hb, hc, ?_⟩
  unfold QueueMem.listRemove
  simp [deref, bind, Except.bind, pure, Except.pure, hp, hn, QueueMem.setNext, QueueMem.setPrev]

theorem ringOf_erase (h : xs.Nodup) : ringOf (Q := Q) (xs.erase t) = (ringOf xs).erase (.utLink t) := by
  unfold ringOf
  rw [← List.map_erase fun _ _ => ListLink.utLink.inj, h.erase_eq_filter,
    (List.nodup_reverse.2 h).erase_eq_filter, List.filter_reverse]

/-- **A thread taken off** the queue it is on: the others keep their order. -/
theorem listRemove_represents (h : Represents m a) (hq : a q = some xs) (ht : t ∈ xs) :
    ∃ m₁, m.listRemove (.utLink t) = .ok m₁ ∧
      Represents (m₁.setSize q (m₁.tqSize q - 1)) (Function.update a q (some (xs.erase t))) ∧
      ∀ r ys, r ≠ q → a r = some ys → SameQueue m (m₁.setSize q (m₁.tqSize q - 1)) r ys := by
  obtain ⟨b, c, hb, hc, hbm, hcm, hrem⟩ := listRemove_ok h hq ht
  set m₁ := { m with
    lNext := Function.update (Function.update m.lNext b (some c)) (.utLink t) none
    lPrev := Function.update (Function.update m.lPrev c (some b)) (.utLink t) none } with hm₁
  have hmem : .utLink t ∈ nodesOf q xs := by simpa using ht
  have hsame : ∀ r ys, r ≠ q → a r = some ys → SameQueue m (m₁.setSize q (m₁.tqSize q - 1)) r ys := by
    intro r ys hne hr
    refine ⟨fun x hx => ?_, by simp [hm₁, hne]⟩
    have hxb : x ≠ b := h.disjoint hq hr hne hbm hx
    have hxc : x ≠ c := h.disjoint hq hr hne hcm hx
    have hxt : x ≠ .utLink t := h.disjoint hq hr hne hmem hx
    simp [hm₁, hxb, hxc, hxt]
  have hnd := h.nodup hq
  refine ⟨m₁, hrem, h.update ?_ ?_ hsame ?_ fun u hu => ?_, hsame⟩
  · rw [ringOf_erase hnd]
    exact (h.ring q xs hq).remove (by simpa using ht) hb hc
  · have hpos := List.length_pos_of_mem ht
    simp only [QueueMem.setSize_tqSize, Function.update_self, List.length_erase_of_mem ht, hm₁,
      h.size q xs hq]
    omega
  · intro u hu r ys hne hr hy
    exact hne (h.apart r q ys xs u hr hq hy (List.mem_of_mem_erase hu))
  · by_cases hut : u = t
    · subst hut
      have hout : ∀ r ys, r ≠ q → a r = some ys → u ∉ ys :=
        fun r ys hne hr hy => hne (h.apart r q ys xs u hr hq hy ht)
      simpa [NullLink, hm₁] using hout
    · have hux : u ∉ xs := by simpa [hnd.mem_erase_iff, hut] using hu
      have hout : ∀ x ∈ nodesOf q xs, ListLink.utLink u ≠ x := by
        rintro x hx rfl
        obtain ⟨v, hv, e⟩ := (mem_nodesOf.1 hx).resolve_left (by simp)
        obtain rfl := ListLink.utLink.inj e
        exact hux hv
      have hnull : NullLink (m₁.setSize q (m₁.tqSize q - 1)) u ↔ NullLink m u := by
        simp [NullLink, hm₁, hut, hout b hbm, hout c hcm]
      rw [hnull, h.null]
      exact not_mem_other hq hux

/-- **`utqueue_remove`** of a thread of the queue. -/
theorem remove_represents (h : Represents m a) (hq : a q = some xs) (ht : t ∈ xs) :
    ∃ m', m.utqueueRemove q t = .ok m' ∧
      Represents m' (Function.update a q (some (xs.erase t))) ∧
      ∀ r ys, r ≠ q → a r = some ys → SameQueue m m' r ys := by
  obtain ⟨m₁, hrem, hrep, hsame⟩ := listRemove_represents h hq ht
  have hlink : m.lNext (.utLink t) ≠ none ∧ m.lPrev (.utLink t) ≠ none := by
    obtain ⟨b, c, hb, hc, -⟩ := listRemove_ok h hq ht
    simp [hb, hc]
  refine ⟨m₁.setSize q (m₁.tqSize q - 1), ?_, hrep, hsame⟩
  simp [QueueMem.utqueueRemove, queueAssert, hlink, hrem, bind, Except.bind, pure, Except.pure]

/-- **`utqueue_dequeue`** returns the oldest thread, and NULL from an empty queue only. -/
theorem dequeue_represents (h : Represents m a) (hq : a q = some xs) :
    ∃ m', m.utqueueDequeue q = .ok (m', xs.head?) ∧
      Represents m' (Function.update a q (some xs.tail)) ∧
      ∀ r ys, r ≠ q → a r = some ys → SameQueue m m' r ys := by
  have hempty := empty_represents h hq
  cases xs with
  | nil =>
    refine ⟨m, ?_, ?_, fun r ys _ _ => ⟨fun x _ => ⟨rfl, rfl⟩, rfl⟩⟩
    · simp [QueueMem.utqueueDequeue, hempty, bind, Except.bind, pure, Except.pure]
    · rw [List.tail_nil, ← hq, Function.update_eq_self]
      exact h
  | cons t xs =>
    -- the last node of the ring is the link of the oldest thread
    have hlast : m.lPrev (.tqWaiters q) = some (.utLink t) := by
      rw [(h.ring q _ hq).prev_head]
      simp [ringOf]
    obtain ⟨m₁, hrem, hrep, hsame⟩ := listRemove_represents h hq List.mem_cons_self
    refine ⟨m₁.setSize q (m₁.tqSize q - 1), ?_, by simpa using hrep, hsame⟩
    simp [QueueMem.utqueueDequeue, hempty, hlast, hrem, deref, listItem, bind, Except.bind, pure,
      Except.pure]

/-- The call on the sequences: what it leaves and what it returns. -/
def seqStep (a : Seqs Q T) : QueueOp Q T → Seqs Q T × Option T
  | .init q => (Function.update a q (some []), none)
  | .enqueue q thr => (Function.update a q ((a q).map (· ++ [thr])), none)
  | .dequeue q => (Function.update a q ((a q).map List.tail), (a q).bind List.head?)
  | .remove q thr => (Function.update a q ((a q).map (List.erase · thr)), none)

/-- The calls that the library makes: `utqueue_init` of a queue with no thread on it,
`utqueue_enqueue` of a thread with a NULL link, `utqueue_remove` of a thread on that queue. -/
def admitted (s : QueueMem Q T × Seqs Q T) : QueueOp Q T → Prop
  | .init q => s.2 q = none ∨ s.2 q = some []
  | .enqueue q thr => (s.2 q).isSome ∧ NullLink s.1 thr
  | .dequeue q => (s.2 q).isSome
  | .remove q thr => ∃ xs ∈ s.2 q, thr ∈ xs

/-- **Every call is the one on the sequences.** -/
theorem call_represents (h : Represents m a) {op : QueueOp Q T} (hop : admitted (m, a) op) :
    ∃ m', queueStep m op = .ok (m', (seqStep a op).2) ∧ Represents m' (seqStep a op).1 ∧
      ∀ r ys, r ≠ op.queue → a r = some ys → SameQueue m m' r ys := by
  cases op with
  | init q =>
    obtain ⟨hrep, hsame⟩ := init_represents h hop
    exact ⟨m.utqueueInit q, rfl, hrep, hsame⟩
  | enqueue q t =>
    obtain ⟨xs, hq⟩ : ∃ xs, a q = some xs := Option.isSome_iff_exists.1 hop.1
    obtain ⟨m', he, hrep, hsame⟩ := enqueue_represents h hq hop.2
    refine ⟨m', ?_, ?_, hsame⟩
    · simp [queueStep, he, bind, Except.bind, pure, Except.pure, seqStep]
    · simpa [seqStep, hq] using hrep
  | dequeue q =>
    obtain ⟨xs, hq⟩ : ∃ xs, a q = some xs := Option.isSome_iff_exists.1 hop
    obtain ⟨m', hd, hrep, hsame⟩ := dequeue_represents h hq
    refine ⟨m', ?_, ?_, hsame⟩
    · simp [queueStep, hd, seqStep, hq]
    · simpa [seqStep, hq] using hrep
  | remove q t =>
    obtain ⟨xs, (hq : a q = some xs), ht⟩ := hop
    obtain ⟨m', hrem, hrep, hsame⟩ := remove_represents h hq ht
    refine ⟨m', ?_, ?_, hsame⟩
    · simp [queueStep, hrem, bind, Except.bind, pure, Except.pure, seqStep]
    · simpa [seqStep, hq] using hrep

/-! ## Sequences of calls -/

/-- A call on the memory and, beside it, on the sequences. -/
def callStep (s : QueueMem Q T × Seqs Q T) (op : QueueOp Q T) : Option (QueueMem Q T × Seqs Q T) :=
  (queueStep s.1 op).toOption.map fun r => (r.1, (seqStep s.2 op).1)

/-- **The thread queues refine sequences.** From memory in which no link is set, after every
sequence of admitted calls: memory represents the sequences; the two pointers are inverse to each
other on each ring, no two rings share a node and the assertion of `utqueue_empty` holds; and the
next admitted call succeeds, returns what it returns on the sequences, and writes to no other
queue. -/
theorem queues_refine {m₀ : QueueMem Q T} (h₀ : ∀ t, NullLink m₀ t)
    (h : Runs.Reach callStep admitted (m₀, fun _ => none) (m, a)) :
    Represents m a ∧
      (∀ q xs, a q = some xs →
        (∀ x ∈ nodesOf q xs, ∀ y, m.lNext x = some y ↔ y ∈ nodesOf q xs ∧ m.lPrev y = some x) ∧
        (∀ r ys, r ≠ q → a r = some ys → ∀ x ∈ nodesOf q xs, x ∉ nodesOf r ys) ∧
        m.utqueueEmpty q = .ok xs.isEmpty) ∧
      ∀ op, admitted (m, a) op → ∃ m', queueStep m op = .ok (m', (seqStep a op).2) ∧
        Represents m' (seqStep a op).1 ∧
        ∀ r ys, r ≠ op.queue → a r = some ys → SameQueue m m' r ys := by
  have hrep : Represents m a := by
    refine h.invariant (P := fun s => Represents s.1 s.2) ?_ ?_
    · exact ⟨by simp, by simp, by simp, by simpa using h₀⟩
    · rintro ⟨m, a⟩ ⟨m', a'⟩ op hrep hop hn
      obtain ⟨m₁, hs, hrep', -⟩ := call_represents hrep hop
      simp only [callStep, hs, Except.toOption, Option.map_some, Option.some.injEq,
        Prod.mk.injEq] at hn
      rw [← hn.1, ← hn.2]
      exact hrep'
  refine ⟨hrep, fun q xs hq => ⟨fun x hx y => (hrep.ring q xs hq).inverse hx, ?_,
    empty_represents hrep hq⟩, fun op hop => call_represents hrep hop⟩
  intro r ys hne hr x hx hy
  exact hrep.disjoint hq hr hne hx hy rfl

instance (m : QueueMem Q T) (t : T) : Decidable (NullLink m t) := inferInstanceAs (Decidable (_ ∧ _))

instance (s : QueueMem Q T × Seqs Q T) : (op : QueueOp Q T) → Decidable (admitted s op)
  | .init _ => inferInstanceAs (Decidable (_ ∨ _))
  | .enqueue _ _ => inferInstanceAs (Decidable (_ ∧ _))
  | .dequeue _ => inferInstanceAs (Decidable (_ = true))
  | .remove q thr => inferInstanceAs (Decidable (∃ xs ∈ s.2 q, thr ∈ xs))

/-- Memory full of zeros. -/
def QueueMem.zeroed : QueueMem Q T := ⟨fun _ => none, fun _ => none, fun _ => 0⟩

/-- The second of three threads is removed, and the first dequeued, while another queue holds a
thread. -/
theorem queues_refine_middle : ∃ (m : QueueMem Bool (Fin 4)) (a : Seqs Bool (Fin 4)),
    Runs.Reach callStep admitted (QueueMem.zeroed, fun _ => none) (m, a) ∧
    a true = some [2] ∧ a false = some [3] ∧ Represents m a ∧ m.utqueueEmpty true = .ok false := by
  obtain ⟨⟨m, a⟩, h, ha⟩ : ∃ s, Runs.Reach callStep admitted
      ((QueueMem.zeroed : QueueMem Bool (Fin 4)), fun _ => none) s ∧
        s.2 true = some [2] ∧ s.2 false = some [3] :=
    Runs.exists_reach [.init true, .init false, .enqueue true 0, .enqueue true 1, .enqueue false 3,
      .enqueue true 2, .remove true 1, .dequeue true] (by decide)
  have hr := queues_refine (fun t => ⟨rfl, rfl⟩) h
  exact ⟨m, a, h, ha.1, ha.2, hr.1, (hr.2.1 true [2] ha.1).2.2⟩

end Calls

/-! ## The queues of the library -/

section Library

variable {N L : ℕ} {s s' : State N L} {t : Fin N} {q : QueueId N}
  {m : QueueMem (QueueId N) (Fin N)}

/-- The pointers in memory represent the queues of the library. -/
def InMemory (m : QueueMem (QueueId N) (Fin N)) (s : State N L) : Prop :=
  Represents m fun q => some (s.queues q).tqWaiters

/-- The link of a thread is NULL in memory when its `ut_link` is. -/
theorem InMemory.null_iff (h : InMemory m s) (hl : LinkInv s) :
    NullLink m t ↔ (s.uthreads t).utLink = none := by
  rw [Represents.null h]
  constructor
  · intro ho
    rw [Option.eq_none_iff_forall_not_mem]
    intro q hq
    exact ho q _ rfl ((hl.link t q).1 hq)
  · rintro hn q xs ⟨⟩
    exact hl.not_mem hn q

theorem inMemory_update {xs : List (Fin N)}
    (h : Represents m (Function.update (fun r => some (s.queues r).tqWaiters) q (some xs)))
    (hq : (s'.queues q).tqWaiters = xs)
    (ho : ∀ r, r ≠ q → (s'.queues r).tqWaiters = (s.queues r).tqWaiters) : InMemory m s' := by
  have hsame : (fun r => some (s'.queues r).tqWaiters) =
      Function.update (fun r => some (s.queues r).tqWaiters) q (some xs) := by
    funext r
    by_cases hr : r = q
    · subst hr; rw [Function.update_self, hq]
    · rw [Function.update_of_ne hr, ho r hr]
  unfold InMemory
  rw [hsame]
  exact h

/-- **`utqueue_enqueue`** of the library is that on the pointers, its failing assertion included. -/
theorem enqueue_inMemory (h : InMemory m s) (hl : LinkInv s) :
    match utqueueEnqueue q t s with
    | .ok s' => ∃ m', m.utqueueEnqueue q t = .ok m' ∧ InMemory m' s'
    | .error _ => m.utqueueEnqueue q t = .error (.assertion .enqueueLink) := by
  cases he : utqueueEnqueue q t s with
  | ok s' =>
    obtain ⟨hn, rfl⟩ := utqueueEnqueue_ok he
    obtain ⟨m', hm, hrep, -⟩ := enqueue_represents h rfl ((h.null_iff hl).2 hn)
    exact ⟨m', hm, inMemory_update hrep (by simp) fun r hr => by simp [hr]⟩
  | error e =>
    have hn : ¬ NullLink m t := by
      rw [h.null_iff hl]
      intro hn
      simp [utqueueEnqueue, hn] at he
    unfold QueueMem.utqueueEnqueue queueAssert
    rw [if_neg (by simpa [NullLink] using hn)]
    rfl

/-- **`utqueue_dequeue`** of the library is that on the pointers. -/
theorem dequeue_inMemory (h : InMemory m s) :
    match utqueueDequeue q s with
    | some (t, s') => ∃ m', m.utqueueDequeue q = .ok (m', some t) ∧ InMemory m' s'
    | none => m.utqueueDequeue q = .ok (m, none) := by
  cases hd : utqueueDequeue q s with
  | some r =>
    obtain ⟨t, s'⟩ := r
    obtain ⟨x, hx, rfl⟩ := utqueueDequeue_some hd
    obtain ⟨m', hm, hrep, -⟩ := dequeue_represents h (q := q) rfl
    rw [hx] at hm hrep
    exact ⟨m', hm, inMemory_update hrep (by simp) fun r hr => by simp [hr]⟩
  | none =>
    have hnil := utqueueDequeue_none.1 hd
    have hempty := empty_represents h (q := q) rfl
    simp [QueueMem.utqueueDequeue, hempty, hnil, bind, Except.bind, pure, Except.pure]

/-- **`utqueue_remove`** of the library is that on the pointers. -/
theorem remove_inMemory (h : InMemory m s) (hs : utqueueRemove q t s = .ok s') :
    ∃ m', m.utqueueRemove q t = .ok m' ∧ InMemory m' s' := by
  obtain ⟨ht, rfl⟩ := utqueueRemove_ok hs
  obtain ⟨m', hm, hrep, -⟩ := remove_represents h rfl ht
  exact ⟨m', hm, inMemory_update hrep (by simp) fun r hr => by simp [hr]⟩

/-- **`uthread_runq_requeue`** of the library is that on the pointers. -/
theorem requeue_inMemory {oldprio : ℤ} (h : InMemory m s) (hl : LinkInv s)
    (hs : uthreadRunqRequeue t oldprio s = .ok s') : ∃ old lvl : Fin (uthMaxprio + 1),
      oldprio = ((old : ℕ) : ℤ) ∧ (s.uthreads t).utPrio = ((lvl : ℕ) : ℤ) ∧
      ∃ m', m.uthreadRunqRequeue (.runq old) (.runq lvl) t = .ok m' ∧ InMemory m' s' := by
  unfold uthreadRunqRequeue at hs
  split at hs
  · rename_i old lvl hold hlvl
    refine ⟨old, lvl, runqIndex_eq hold, runqIndex_eq hlvl, ?_⟩
    cases hrem : utqueueRemove (.runq old) t s with
    | error e => rw [hrem] at hs; cases hs
    | ok s₁ =>
      rw [hrem] at hs
      replace hs : utqueueEnqueue (.runq lvl) t s₁ = .ok s' := hs
      obtain ⟨m₁, hm₁, h₁⟩ := remove_inMemory h hrem
      have henq := enqueue_inMemory (q := .runq lvl) (t := t) h₁ (hl.remove hrem)
      rw [hs] at henq
      obtain ⟨m', hm', h'⟩ := henq
      refine ⟨m', ?_, h'⟩
      unfold QueueMem.uthreadRunqRequeue
      rw [hm₁]
      exact hm'
  · cases hs

end Library

end Uthreads
