import Mathlib.Data.List.Basic
import Mathlib.Order.Lattice

/-!
# Leftmost greedy choice of spans

An item may be read at some positions, and where it is read it takes the positions up to its end.
`IsLeftmost itemAt lo spans` says that `spans` is what reading from the left takes, from `lo` on:
items that are read where they start, one after the other, and no item that starts outside of them
is left. There is one such list at most (`IsLeftmost.unique`), and it is built from the right
(`nil`, `skip`, `cons`).
-/

set_option autoImplicit false

namespace AgentCluster.Library

universe u v

/-- An item with the position where it starts and the one behind its end. -/
structure Span (ι : Type u) (β : Type v) where
  start : ι
  item : β
  stop : ι

section Leftmost

variable {ι : Type u} {β : Type v} [LinearOrder ι]

/-- No item is empty. -/
def Advances (itemAt : ι → Option (β × ι)) : Prop :=
  ∀ i b stop, itemAt i = some (b, stop) → i < stop

/-- What reading from the left takes, from `lo` on. -/
structure IsLeftmost (itemAt : ι → Option (β × ι)) (lo : ι) (spans : List (Span ι β)) : Prop where
  items : ∀ span ∈ spans, itemAt span.start = some (span.item, span.stop)
  after : ∀ span ∈ spans, lo ≤ span.start
  apart : spans.Pairwise fun a b => a.start < b.start ∧ a.stop ≤ b.start
  covers : ∀ i b stop, lo ≤ i → itemAt i = some (b, stop) →
    ∃ span ∈ spans, span.start ≤ i ∧ i < span.stop

namespace IsLeftmost

variable {itemAt : ι → Option (β × ι)} {lo : ι} {a : Span ι β} {spans spans' : List (Span ι β)}

theorem nil (h : ∀ i, lo ≤ i → itemAt i = none) : IsLeftmost itemAt lo [] where
  items span hspan := absurd hspan List.not_mem_nil
  after span hspan := absurd hspan List.not_mem_nil
  apart := List.Pairwise.nil
  covers i b stop hi hitem := by
    rw [h i hi] at hitem
    cases hitem

/-- Positions where nothing is read are passed over. -/
theorem skip {mid : ι} (hle : lo ≤ mid) (h : ∀ i, lo ≤ i → i < mid → itemAt i = none)
    (hrest : IsLeftmost itemAt mid spans) : IsLeftmost itemAt lo spans where
  items := hrest.items
  after span hspan := le_trans hle (hrest.after span hspan)
  apart := hrest.apart
  covers i b stop hi hitem := by
    rcases lt_or_ge i mid with hlt | hge
    · rw [h i hi hlt] at hitem
      cases hitem
    · exact hrest.covers i b stop hge hitem

/-- An item that is read is taken, and reading goes on behind it. -/
theorem cons (hadvances : Advances itemAt) {i stop : ι} {b : β} (hitem : itemAt i = some (b, stop))
    (hrest : IsLeftmost itemAt stop spans) : IsLeftmost itemAt i (⟨i, b, stop⟩ :: spans) where
  items := List.forall_mem_cons.2 ⟨hitem, hrest.items⟩
  after := List.forall_mem_cons.2
    ⟨le_refl i, fun span hspan => le_trans (hadvances i b stop hitem).le (hrest.after span hspan)⟩
  apart := by
    refine List.pairwise_cons.2 ⟨fun span hspan => ?_, hrest.apart⟩
    have hafter := hrest.after span hspan
    exact ⟨lt_of_lt_of_le (hadvances i b stop hitem) hafter, hafter⟩
  covers j c stop' hj hjtem := by
    rcases lt_or_ge j stop with hlt | hge
    · exact ⟨_, List.mem_cons_self, hj, hlt⟩
    · obtain ⟨span, hspan, hinside⟩ := hrest.covers j c stop' hge hjtem
      exact ⟨span, List.mem_cons_of_mem _ hspan, hinside⟩

/-- Behind its first item the list is what is taken from there. -/
theorem tail (hadvances : Advances itemAt) (h : IsLeftmost itemAt lo (a :: spans)) :
    IsLeftmost itemAt a.stop spans where
  items := (List.forall_mem_cons.1 h.items).2
  after span hspan := (List.rel_of_pairwise_cons h.apart hspan).2
  apart := h.apart.of_cons
  covers i b stop hi hitem := by
    have hstop : a.start < a.stop := hadvances _ _ _ (h.items a List.mem_cons_self)
    have hlo : lo ≤ i := le_trans (h.after a List.mem_cons_self) (le_trans hstop.le hi)
    obtain ⟨span, hspan, hinside⟩ := h.covers i b stop hlo hitem
    rcases List.mem_cons.1 hspan with rfl | hspan
    · exact absurd hinside.2 (not_lt.2 hi)
    · exact ⟨span, hspan, hinside⟩

/-- Nothing is read in front of the first item. -/
theorem head_le (h : IsLeftmost itemAt lo (a :: spans)) {i stop : ι} {b : β} (hi : lo ≤ i)
    (hitem : itemAt i = some (b, stop)) : a.start ≤ i := by
  obtain ⟨span, hspan, hle, -⟩ := h.covers i b stop hi hitem
  rcases List.mem_cons.1 hspan with rfl | hspan
  · exact hle
  · exact le_trans (List.rel_of_pairwise_cons h.apart hspan).1.le hle

/-- Only one list is leftmost greedy. -/
theorem unique (hadvances : Advances itemAt) (h : IsLeftmost itemAt lo spans)
    (h' : IsLeftmost itemAt lo spans') : spans = spans' := by
  induction spans generalizing lo spans' with
  | nil =>
    cases spans' with
    | nil => rfl
    | cons a' spans' =>
      obtain ⟨span, hspan, -⟩ := h.covers _ _ _ (h'.after a' List.mem_cons_self)
        (h'.items a' List.mem_cons_self)
      cases hspan
  | cons a spans ih =>
    cases spans' with
    | nil =>
      obtain ⟨span, hspan, -⟩ := h'.covers _ _ _ (h.after a List.mem_cons_self)
        (h.items a List.mem_cons_self)
      cases hspan
    | cons a' spans' =>
      have hitem := h.items a List.mem_cons_self
      have hitem' := h'.items a' List.mem_cons_self
      have hstart : a.start = a'.start :=
        le_antisymm (h.head_le (h'.after a' List.mem_cons_self) hitem')
          (h'.head_le (h.after a List.mem_cons_self) hitem)
      obtain ⟨start, item, stop⟩ := a
      obtain ⟨start', item', stop'⟩ := a'
      -- the starts agree, and a position has one item
      obtain rfl : start = start' := hstart
      rw [hitem] at hitem'
      cases hitem'
      exact congrArg _ (ih (h.tail hadvances) (h'.tail hadvances))

end IsLeftmost

end Leftmost

end AgentCluster.Library
