import CallDispatch.Proofs.Fanout.Shares
import CallDispatch.Proofs.Job.Windows
import CallDispatch.Proofs.Lists
import CallDispatch.Proofs.Text.Encodings

/-!
# Windows and single calls agree

A window looks its byte ranges up by what the call identifiers say, a single call by position. Where
the calls are numbered both find the same, also past the digits that identifiers are padded to. So a
call is given the same input whether it is cut out of a window or out of the whole payload.
-/

namespace CallDispatch

namespace Payload

open Text.Decimal (wordBound)

variable {p : Payload}

/-- A payload whose calls are numbered by machine words. -/
structure IsNumbered (p : Payload) : Prop where
  callIds : p.callIds = (List.range p.callIds.length).map callIdAt
  words : p.callIds.length ≤ wordBound

theorem isNumbered_numbered (executorId jobId : String) {calls : Nat} (words : calls ≤ wordBound)
    (byteRanges : List ByteSpan) :
    ({ numbered executorId jobId calls with byteRanges } : Payload).IsNumbered := by
  have length : (numbered executorId jobId calls).callIds.length = calls := by simp [numbered]
  refine ⟨?_, length.trans_le words⟩
  rw [length]
  rfl

/-! ## Byte ranges by identifier -/

/-- The identifier of a numbered call leads to the byte range at its position. -/
theorem byteRangeOf_callIdAt (p : Payload) {index : Nat} (word : index < wordBound)
    (range : ByteSpan) :
    p.byteRangeOf (callIdAt index) = .ok range ↔ p.byteRanges[index]? = some range := by
  unfold byteRangeOf callIdAt
  rw [String.toList_ofList, Text.Decimal.readWord_padded 5 word]
  dsimp only
  cases p.byteRanges[index]? <;> simp

/-- The identifiers of consecutive calls lead to consecutive byte ranges, if there are as many. -/
theorem byteRangesOf_callIdsAt (p : Payload) {start count : Nat}
    (words : start + count ≤ wordBound) (ranges : List ByteSpan) :
    p.byteRangesOf ((List.range' start count).map callIdAt) = .ok ranges ↔
      (count = 0 ∨ start + count ≤ p.byteRanges.length) ∧
        ranges = (p.byteRanges.drop start).take count := by
  induction count generalizing start ranges with
  | zero => simp [byteRangesOf, eq_comm]
  | succ count ih =>
    rw [List.range'_succ, List.map_cons, byteRangesOf]
    have first := p.byteRangeOf_callIdAt (show start < wordBound by omega)
    constructor
    · intro found
      obtain ⟨range, own, found⟩ := of_bind_eq_ok found
      obtain ⟨later, rest, found⟩ := of_bind_eq_ok found
      cases found
      obtain ⟨below, at_⟩ := List.getElem?_eq_some_iff.mp ((first range).mp own)
      obtain ⟨enough, rfl⟩ := (ih (by omega) later).mp rest
      refine ⟨Or.inr (by omega), ?_⟩
      rw [List.drop_eq_getElem_cons below, List.take_succ_cons, at_]
    · rintro ⟨enough, rfl⟩
      have below : start < p.byteRanges.length := by omega
      have own := (first _).mpr (List.getElem?_eq_getElem below)
      have within : start + 1 + count ≤ wordBound := by omega
      have rest := (ih within _).mpr ⟨by omega, rfl⟩
      rw [own, List.drop_eq_getElem_cons below, List.take_succ_cons]
      simp only [bind, Except.bind, rest]
      rfl

/-! ## Both cuts as slices -/

/-- A payload with the identifiers and byte ranges of some consecutive calls. -/
def slice (p : Payload) (start count : Nat) : Payload :=
  { p with
    callIds := (p.callIds.drop start).take count
    byteRanges := (p.byteRanges.drop start).take count }

theorem IsNumbered.callIdsIn_eq (numbered : p.IsNumbered) {start stop : Nat}
    (listed : stop ≤ p.callIds.length) :
    p.callIdsIn start stop = (List.range' start (stop - start)).map callIdAt := by
  have positions : ((List.range p.callIds.length).drop start).take (stop - start) =
      List.range' start (stop - start) :=
    List.ext_getElem (by simp; omega) (by simp)
  rw [callIdsIn, numbered.callIds, ← List.map_drop, ← List.map_take, positions]

/-- A window of numbered calls is a slice, and exists if none of its calls lacks a byte range. -/
theorem IsNumbered.window_iff (numbered : p.IsNumbered) {start stop : Nat}
    (ordered : start ≤ stop) (listed : stop ≤ p.callIds.length) (window : Payload) :
    p.window start stop = .ok window ↔
      (p.byteRanges = [] ∨ start = stop ∨ stop ≤ p.byteRanges.length) ∧
        window = p.slice start (stop - start) := by
  have words : start + (stop - start) ≤ wordBound := by
    have words := numbered.words
    omega
  rw [window_of_le ordered listed]
  by_cases none : p.byteRanges = []
  · simp [none, slice, callIdsIn, Except.map, eq_comm]
  · have found := p.byteRangesOf_callIdsAt words
    rw [← numbered.callIdsIn_eq listed] at found
    rw [if_neg (by simpa using none)]
    constructor
    · intro cut
      cases ranges : p.byteRangesOf (p.callIdsIn start stop) with
      | error e =>
        rw [ranges] at cut
        cases cut
      | ok byteRanges =>
        rw [ranges] at cut
        cases cut
        obtain ⟨enough, rfl⟩ := (found byteRanges).mp ranges
        exact ⟨Or.inr (by omega), rfl⟩
    · rintro ⟨enough, rfl⟩
      rw [(found _).mpr ⟨by simp only [none, false_or] at enough; omega, rfl⟩]
      rfl

/-- A payload has a call to cut out wherever it has an identifier and, if any, a byte range. -/
theorem single_iff (p : Payload) (index : Nat) (call : Payload) :
    p.single index = .ok call ↔
      index < p.callIds.length ∧ (p.byteRanges = [] ∨ index < p.byteRanges.length) ∧
        call = p.only index := by
  constructor
  · intro cut
    obtain ⟨same, listed⟩ := eq_only_of_single cut
    refine ⟨listed, ?_, same⟩
    by_contra! lacking
    have missing : p.byteRanges[index]? = none := List.getElem?_eq_none lacking.2
    simp [single, List.getElem?_eq_getElem listed, lacking.1, missing] at cut
  · rintro ⟨listed, ranges, rfl⟩
    have callId : p.callIds[index]? = some p.callIds[index] := List.getElem?_eq_getElem listed
    rcases ranges with none | below
    · simp [single, only, callId, none]
    · have some : p.byteRanges ≠ [] := List.ne_nil_of_length_pos (by omega)
      simp [single, only, callId, some, List.getElem?_eq_getElem below]

theorem only_slice (p : Payload) (start : Nat) {count index : Nat} (inside : index < count) :
    (p.slice start count).only index = p.only (start + index) := by
  simp [slice, only, inside]

/-- A slice is made of its calls, one after the other. -/
theorem slice_eq_flatMap (p : Payload) (start count : Nat) :
    p.slice start count =
      { p with
        callIds := ((List.range' start count).map p.only).flatMap (·.callIds)
        byteRanges := ((List.range' start count).map p.only).flatMap (·.byteRanges) } := by
  simp only [slice, drop_take_eq_filterMap, List.flatMap_map, only,
    List.filterMap_eq_flatMap_toList]

/-- A slice that has a byte range for each call, if any, gives a call what the whole payload gives
it. -/
theorem single_slice {start count : Nat} (listed : start + count ≤ p.callIds.length)
    (ranges : p.byteRanges = [] ∨ start + count ≤ p.byteRanges.length) {index : Nat}
    (inside : index < count) : (p.slice start count).single index = p.single (start + index) := by
  have whole : p.single (start + index) = .ok (p.only (start + index)) :=
    (p.single_iff _ _).mpr ⟨by omega, ranges.imp_right (by omega), rfl⟩
  rw [whole, ← p.only_slice start inside]
  refine (single_iff _ _ _).mpr ⟨?_, ?_, rfl⟩
  · simp only [slice, List.length_take, List.length_drop]
    omega
  · rcases ranges with none | enough
    · exact Or.inl (by simp [slice, none])
    · refine Or.inr ?_
      simp only [slice, List.length_take, List.length_drop]
      omega

/-- A window of numbered calls can be cut out exactly if each of its calls can be by itself. Its
identifiers and byte ranges are then those of these calls one after the other, all else is as in the
whole payload, and a call cut out of it is the one cut out of the whole. -/
theorem windows_agree_with_singles (executorId jobId : String) {calls start stop : Nat}
    (words : calls ≤ wordBound) (ordered : start ≤ stop) (listed : stop ≤ calls)
    (byteRanges : List ByteSpan) :
    let p : Payload := { numbered executorId jobId calls with byteRanges }
    ((∃ window, p.window start stop = .ok window) ↔
      ∀ index, start ≤ index → index < stop → ∃ call, p.single index = .ok call) ∧
    ∀ window, p.window start stop = .ok window →
      (∃ singles : List Payload,
        List.Forall₂ (fun index call => p.single index = .ok call)
          (List.range' start (stop - start)) singles ∧
        window = { p with
          callIds := singles.flatMap (·.callIds), byteRanges := singles.flatMap (·.byteRanges) }) ∧
      ∀ index < stop - start, window.single index = p.single (start + index) := by
  intro p
  have numbered : p.IsNumbered := isNumbered_numbered executorId jobId words byteRanges
  have length : p.callIds.length = calls := by simp [p, Payload.numbered]
  have cut := numbered.window_iff ordered (listed.trans_eq length.symm)
  refine ⟨⟨?_, ?_⟩, ?_⟩
  · rintro ⟨window, found⟩ index above below
    obtain ⟨ranges, -⟩ := (cut window).mp found
    refine ⟨_, (p.single_iff index _).mpr ⟨by omega, ?_, rfl⟩⟩
    exact ranges.imp_right (by omega)
  · intro each
    refine ⟨_, (cut _).mpr ⟨?_, rfl⟩⟩
    -- If the last call of the window has a byte range, so have all before it.
    by_cases empty : start = stop
    · exact Or.inr (Or.inl empty)
    · obtain ⟨call, last⟩ := each (stop - 1) (by omega) (by omega)
      obtain ⟨-, ranges, -⟩ := (p.single_iff _ call).mp last
      exact ranges.imp_right fun below => Or.inr (by omega)
  · intro window found
    obtain ⟨ranges, rfl⟩ := (cut window).mp found
    refine ⟨⟨_, ?_, p.slice_eq_flatMap _ _⟩, fun index inside => ?_⟩
    · rw [List.forall₂_map_right_iff, List.forall₂_same]
      intro index inside
      obtain ⟨above, below⟩ := List.mem_range'_1.mp inside
      refine (p.single_iff index _).mpr ⟨by omega, ranges.imp_right (by omega), rfl⟩
    · exact single_slice (by omega) (ranges.imp_right (by omega)) inside

/-! ### A payload that lacks a byte range -/

/-- Four calls with byte ranges for three of them. -/
def threeRanges : Payload :=
  { numbered "e" "j" 4 with byteRanges := [⟨0, 9⟩, ⟨10, 19⟩, ⟨20, 29⟩] }

/-- The two calls in the middle have a window that agrees with them, and the last two have none. -/
theorem windows_agree_with_singles_in_the_middle :
    (∃ window, threeRanges.window 1 3 = .ok window ∧
      ∀ index < 2, window.single index = threeRanges.single (1 + index)) ∧
    ¬ ∃ window, threeRanges.window 2 4 = .ok window := by
  have words : 4 ≤ wordBound := by decide
  have middle := windows_agree_with_singles "e" "j" words (show 1 ≤ 3 by decide)
    (show 3 ≤ 4 by decide) threeRanges.byteRanges
  have last := windows_agree_with_singles "e" "j" words (show 2 ≤ 4 by decide)
    (show 4 ≤ 4 by decide) threeRanges.byteRanges
  constructor
  · have found : threeRanges.window 1 3 = .ok (threeRanges.slice 1 2) := by cbv
    exact ⟨_, found, (middle.2 _ found).2⟩
  · intro cut
    obtain ⟨call, single⟩ := last.1.mp cut 3 (by decide) (by decide)
    cases single

end Payload

end CallDispatch
