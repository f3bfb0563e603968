import CallDispatch.Job.Payload

/-!
# Windows of a payload

A payload has a window for every span of positions it has identifiers for, provided that the
identifiers lead to byte ranges if it has any.
-/

namespace CallDispatch

namespace Payload

/-- The identifiers of the calls from `start` up to but not including `stop`. -/
def callIdsIn (p : Payload) (start stop : Nat) : List String :=
  (p.callIds.drop start).take (stop - start)

theorem window_of_le {p : Payload} {start stop : Nat} (ordered : start ≤ stop)
    (listed : stop ≤ p.callIds.length) :
    p.window start stop =
      (if p.byteRanges.isEmpty then .ok [] else p.byteRangesOf (p.callIdsIn start stop)).map
        fun byteRanges => { p with callIds := p.callIdsIn start stop, byteRanges } := by
  rw [window, if_pos ⟨ordered, listed⟩]
  cases p.byteRanges.isEmpty <;> rfl

theorem window_of_not_le {p : Payload} {start stop : Nat}
    (outside : ¬ (start ≤ stop ∧ stop ≤ p.callIds.length)) :
    p.window start stop = .error (.payload (.windowOutOfBounds start stop p.callIds.length)) :=
  if_neg outside

theorem byteRangeOf_of_lt {p : Payload} {callId : String} {index : Nat}
    (numeric : Text.Decimal.readWord callId.toList = some index)
    (below : index < p.byteRanges.length) : ∃ range, p.byteRangeOf callId = .ok range := by
  refine ⟨p.byteRanges[index], ?_⟩
  simp [byteRangeOf, numeric, below]

theorem byteRangesOf_of_lt {p : Payload} {callIds : List String}
    (numeric : ∀ callId ∈ callIds, ∃ index,
      Text.Decimal.readWord callId.toList = some index ∧ index < p.byteRanges.length) :
    ∃ ranges, p.byteRangesOf callIds = .ok ranges := by
  induction callIds with
  | nil => exact ⟨[], rfl⟩
  | cons callId rest ih =>
    obtain ⟨index, read, below⟩ := numeric callId List.mem_cons_self
    obtain ⟨range, first⟩ := byteRangeOf_of_lt read below
    obtain ⟨ranges, later⟩ := ih fun other member => numeric other (List.mem_cons_of_mem _ member)
    refine ⟨range :: ranges, ?_⟩
    simp only [byteRangesOf, first, later]
    rfl

theorem byteRangesOf_error {p : Payload} {callIds : List String} {e : DispatchError}
    (fails : p.byteRangesOf callIds = .error e) : ∃ fault, e = .payload fault := by
  induction callIds with
  | nil => cases fails
  | cons callId rest ih =>
    simp only [byteRangesOf, byteRangeOf] at fails
    split at fails
    · cases fails
      exact ⟨_, rfl⟩
    · split at fails
      · cases later : p.byteRangesOf rest with
        | error e' =>
          rw [later] at fails
          cases fails
          exact ih later
        | ok ranges =>
          rw [later] at fails
          cases fails
      · cases fails
        exact ⟨_, rfl⟩

/-- A payload that has no window for a span is at fault. -/
theorem window_error {p : Payload} {start stop : Nat} {e : DispatchError}
    (fails : p.window start stop = .error e) : ∃ fault, e = .payload fault := by
  by_cases inside : start ≤ stop ∧ stop ≤ p.callIds.length
  · rw [window_of_le inside.1 inside.2] at fails
    split at fails
    · cases fails
    · cases ranges : p.byteRangesOf (p.callIdsIn start stop) with
      | error e' =>
        rw [ranges] at fails
        cases fails
        exact byteRangesOf_error ranges
      | ok byteRanges =>
        rw [ranges] at fails
        cases fails
  · rw [window_of_not_le inside] at fails
    cases fails
    exact ⟨_, rfl⟩

/-- A window is cut only between bounds that are in order and within the calls of the payload. -/
theorem le_of_window {p cut : Payload} {start stop : Nat} (h : p.window start stop = .ok cut) :
    start ≤ stop ∧ stop ≤ p.callIds.length := by
  by_cases inside : start ≤ stop ∧ stop ≤ p.callIds.length
  · exact inside
  · rw [window_of_not_le inside] at h
    cases h

/-- What a payload must have so that its first `total` calls can be handed out in windows. -/
structure HasCalls (p : Payload) (total : Nat) : Prop where
  callIds : total ≤ p.callIds.length
  byteRanges : p.byteRanges = [] ∨ ∀ callId ∈ p.callIds.take total, ∃ index,
    Text.Decimal.readWord callId.toList = some index ∧ index < p.byteRanges.length

theorem HasCalls.window {p : Payload} {total start stop : Nat} (has : p.HasCalls total)
    (ordered : start ≤ stop) (below : stop ≤ total) :
    ∃ window, p.window start stop = .ok window := by
  rw [window_of_le ordered (Nat.le_trans below has.callIds)]
  rcases has.byteRanges with none | numeric
  · exact ⟨_, by rw [none]; rfl⟩
  · have first : p.callIdsIn start stop ⊆ p.callIds.take total := by
      rw [callIdsIn, ← List.drop_take]
      exact fun _ member => List.take_subset_take_left _ below (List.mem_of_mem_drop member)
    obtain ⟨ranges, found⟩ := byteRangesOf_of_lt fun callId member =>
      numeric callId (first member)
    cases p.byteRanges.isEmpty
    · exact ⟨_, congrArg _ found⟩
    · exact ⟨_, rfl⟩

theorem callIds_of_window {p window : Payload} {start stop : Nat}
    (h : p.window start stop = .ok window) : window.callIds = p.callIdsIn start stop := by
  by_cases inside : start ≤ stop ∧ stop ≤ p.callIds.length
  · rw [window_of_le inside.1 inside.2] at h
    generalize (if p.byteRanges.isEmpty then Except.ok []
      else p.byteRangesOf (p.callIdsIn start stop)) = ranges at h
    cases ranges with
    | error e => cases h
    | ok byteRanges =>
      cases h
      rfl
  · rw [window_of_not_le inside] at h
    cases h

end Payload

end CallDispatch
