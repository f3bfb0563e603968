import Mathlib.Data.List.Nodup
import Mathlib.Data.List.Range

/-!
# Spans

A span is a half-open run of positions. Spans that follow one another without a gap hand out every
position between the first start and the last stop once.
-/

namespace CallDispatch

/-- The positions from `start` up to but not including `stop`. -/
structure Span where
  start : Nat
  stop : Nat
  deriving DecidableEq, Repr

/-- The positions of a span. -/
def Span.calls (s : Span) : List Nat := List.range' s.start (s.stop - s.start)

theorem Span.mem_calls {s : Span} {i : Nat} : i ∈ s.calls ↔ s.start ≤ i ∧ i < s.stop := by
  simp only [Span.calls, List.mem_range'_1]
  omega

/-- Nonempty spans, each of which starts where the one before it stops. -/
inductive Contiguous : Nat → List Span → Nat → Prop where
  | nil (n : Nat) : Contiguous n [] n
  | cons {start stop last : Nat} {rest : List Span} :
      start < stop → Contiguous stop rest last → Contiguous start (⟨start, stop⟩ :: rest) last

namespace Contiguous

variable {first middle last : Nat} {spans more : List Span}

theorem append (front : Contiguous first spans middle) (back : Contiguous middle more last) :
    Contiguous first (spans ++ more) last := by
  induction front with
  | nil => exact back
  | cons lt _ ih => exact .cons lt (ih back)

theorem le (h : Contiguous first spans last) : first ≤ last := by
  induction h with
  | nil => exact Nat.le_refl _
  | cons lt _ ih => omega

theorem bounds (h : Contiguous first spans last) {s : Span} (member : s ∈ spans) :
    first ≤ s.start ∧ s.start < s.stop ∧ s.stop ≤ last := by
  induction h with
  | nil => cases member
  | cons lt tail ih =>
    rcases List.mem_cons.mp member with rfl | later
    · exact ⟨Nat.le_refl _, lt, tail.le⟩
    · have := ih later
      omega

/-- Contiguous spans hand out every position between their ends, in order. -/
theorem flatMap_calls (h : Contiguous first spans last) :
    spans.flatMap Span.calls = List.range' first (last - first) := by
  induction h with
  | nil => simp
  | @cons start stop last rest lt tail ih =>
    have le := tail.le
    have split : last - start = (stop - start) + (last - stop) := by omega
    have next : stop = start + (stop - start) := by omega
    rw [List.flatMap_cons, ih, split, ← List.range'_append_1, ← next, Span.calls]

end Contiguous

/-- Two spans that have no position in common. -/
def Span.Apart (s t : Span) : Prop := s.stop ≤ t.start ∨ t.stop ≤ s.start

/-- Spans, in any order, that are not empty, have no position in common, and together hold exactly
the positions below a bound. -/
structure Covers (spans : List Span) (bound : Nat) : Prop where
  nonempty : ∀ s ∈ spans, s.start < s.stop
  apart : spans.Pairwise Span.Apart
  held_iff : ∀ i, (∃ s ∈ spans, s.start ≤ i ∧ i < s.stop) ↔ i < bound

theorem Contiguous.apart {first last : Nat} {spans : List Span}
    (h : Contiguous first spans last) : spans.Pairwise Span.Apart := by
  induction h with
  | nil => exact .nil
  | cons lt tail ih =>
    refine List.pairwise_cons.mpr ⟨fun s member => Or.inl ?_, ih⟩
    exact (tail.bounds member).1

theorem Contiguous.held_iff {first last : Nat} {spans : List Span}
    (h : Contiguous first spans last) (i : Nat) :
    (∃ s ∈ spans, s.start ≤ i ∧ i < s.stop) ↔ first ≤ i ∧ i < last := by
  have le := h.le
  have calls : i ∈ spans.flatMap Span.calls ↔ first ≤ i ∧ i < last := by
    rw [h.flatMap_calls, List.mem_range'_1]
    omega
  rw [← calls, List.mem_flatMap]
  simp only [Span.mem_calls]

theorem Contiguous.covers {order spans : List Span} {last : Nat} (h : Contiguous 0 order last)
    (perm : order.Perm spans) : Covers spans last where
  nonempty s member := (h.bounds (perm.mem_iff.mpr member)).2.1
  apart := (perm.pairwise_iff fun {_ _} => Or.symm).mp h.apart
  held_iff i := by
    have held := h.held_iff i
    simp only [perm.mem_iff] at held
    rw [held]
    omega

/-- Covering spans hand out every position below the bound once. -/
theorem Covers.calls_perm {spans : List Span} {bound : Nat} (h : Covers spans bound) :
    (spans.flatMap Span.calls).Perm (List.range bound) := by
  have nodup : (spans.flatMap Span.calls).Nodup := by
    rw [List.nodup_flatMap]
    refine ⟨fun s _ => List.nodup_range', h.apart.imp fun {s t} apart => ?_⟩
    intro i inS inT
    rw [Span.mem_calls] at inS inT
    rcases apart with before | after <;> omega
  refine (List.perm_ext_iff_of_nodup nodup List.nodup_range).mpr fun i => ?_
  rw [List.mem_flatMap, List.mem_range, ← h.held_iff i]
  simp only [Span.mem_calls]

end CallDispatch
