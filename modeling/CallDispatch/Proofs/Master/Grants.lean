import CallDispatch.Proofs.Spans
import CallDispatch.Pull.Source
import Mathlib.Data.List.Basic

/-!
# Grants

What a run of requests gets from an allocator, over any mix of job keys, totals and chunk sizes.
The spans granted to a key follow one another without a gap, whatever the other keys ask for, and
the answers to one key are those of the run in which nobody else asks.
-/

namespace CallDispatch

namespace Allocator

/-! ## One request -/

/-- The position of the next call of a job; a job nobody asked for begins at the first. -/
def cursorOf (a : Allocator) (key : String) : Nat := (a.cursor? key).getD 0

/-- What a cursor answers to a request. -/
def answerAt (cursor total chunk : Nat) : Outcome RangeAnswer :=
  if chunk = 0 then .error (.invalidArgument .zeroChunkSize)
  else if cursor < total then .ok (.span cursor (min (cursor + chunk) total))
  else .ok .exhausted

/-- Where a request leaves a cursor. -/
def advance (cursor total chunk : Nat) : Nat := max cursor (min (cursor + chunk) total)

theorem request_eq (a : Allocator) (key : String) (total chunk : Nat) :
    a.request key total chunk =
      (answerAt (a.cursorOf key) total chunk,
        if chunk = 0 then a
        else { cursors := Keyed.put key (advance (a.cursorOf key) total chunk) a.cursors }) := by
  unfold request answerAt advance cursorOf
  by_cases zero : chunk = 0
  · simp [zero]
  · simp only [if_neg zero]
    split
    · next lt =>
      have moved : max ((a.cursor? key).getD 0) (min ((a.cursor? key).getD 0 + chunk) total) =
          min ((a.cursor? key).getD 0 + chunk) total := by omega
      rw [moved]
    · next ge =>
      have kept : max ((a.cursor? key).getD 0) (min ((a.cursor? key).getD 0 + chunk) total) =
          (a.cursor? key).getD 0 := by omega
      rw [kept]

theorem cursor?_request_self (a : Allocator) (key : String) (total : Nat) {chunk : Nat}
    (positive : chunk ≠ 0) :
    (a.request key total chunk).2.cursor? key =
      some (advance (a.cursorOf key) total chunk) := by
  rw [request_eq, if_neg positive]
  exact Keyed.find?_put_self key _ a.cursors

theorem cursor?_request_of_ne (a : Allocator) {key other : String} (ne : other ≠ key)
    (total chunk : Nat) : (a.request key total chunk).2.cursor? other = a.cursor? other := by
  rw [request_eq]
  by_cases zero : chunk = 0
  · rw [if_pos zero]
  · rw [if_neg zero]
    exact Keyed.find?_put_of_ne ne _ a.cursors

theorem cursorOf_request_self (a : Allocator) (key : String) (total : Nat) {chunk : Nat}
    (positive : chunk ≠ 0) :
    (a.request key total chunk).2.cursorOf key = advance (a.cursorOf key) total chunk := by
  rw [cursorOf, cursor?_request_self a key total positive, Option.getD_some]

theorem cursorOf_request_of_ne (a : Allocator) {key other : String} (ne : other ≠ key)
    (total chunk : Nat) : (a.request key total chunk).2.cursorOf other = a.cursorOf other := by
  rw [cursorOf, cursor?_request_of_ne a ne, cursorOf]

theorem request_zero (a : Allocator) (key : String) (total : Nat) :
    a.request key total 0 = (.error (.invalidArgument .zeroChunkSize), a) := rfl

/-- A cursor below the total hands out the positions it moves over. -/
theorem answerAt_of_lt {cursor total chunk : Nat} (positive : chunk ≠ 0) (lt : cursor < total) :
    answerAt cursor total chunk = .ok (.span cursor (advance cursor total chunk)) := by
  have moved : advance cursor total chunk = min (cursor + chunk) total := by
    unfold advance
    omega
  rw [answerAt, if_neg positive, if_pos lt, moved]

theorem lt_advance {cursor total chunk : Nat} (positive : chunk ≠ 0) (lt : cursor < total) :
    cursor < advance cursor total chunk := by
  unfold advance
  omega

theorem answerAt_eq_span {cursor total chunk start stop : Nat}
    (h : answerAt cursor total chunk = .ok (.span start stop)) :
    start < stop ∧ stop - start ≤ chunk ∧ stop ≤ total := by
  unfold answerAt at h
  split at h
  · cases h
  · split at h
    · cases h
      omega
    · cases h

theorem answerAt_eq_exhausted_iff {cursor total chunk : Nat} (positive : chunk ≠ 0) :
    answerAt cursor total chunk = .ok .exhausted ↔ total ≤ cursor := by
  unfold answerAt
  rw [if_neg positive]
  split
  · simp only [Except.ok.injEq, reduceCtorEq, false_iff]
    omega
  · simp only [true_iff]
    omega

theorem advance_of_le {cursor total : Nat} (le : total ≤ cursor) (chunk : Nat) :
    advance cursor total chunk = cursor := by
  unfold advance
  omega

theorem le_advance (cursor total chunk : Nat) : cursor ≤ advance cursor total chunk :=
  Nat.le_max_left _ _

/-- Sums that stick at the largest word make no difference to a job whose size is a word. -/
theorem request_clipped (a : Allocator) (key : String) {total top : Nat} (word : total ≤ top)
    {chunk : Nat} (positive : chunk ≠ 0) :
    (a.request key total chunk).1 =
      if a.cursorOf key < total then
        .ok (.span (a.cursorOf key) (min (min (a.cursorOf key + chunk) top) total))
      else .ok .exhausted := by
  have clipped : min (min (a.cursorOf key + chunk) top) total =
      min (a.cursorOf key + chunk) total := by omega
  rw [request_eq, clipped, answerAt, if_neg positive]

/-! ## Runs of requests -/

/-- The allocator after some requests. -/
def after (a : Allocator) : List RangeRequest → Allocator
  | [] => a
  | r :: rest => after (a.request r.jobKey r.total r.chunk).2 rest

/-- The answer an allocator gives to a request. -/
def reply (a : Allocator) (r : RangeRequest) : Outcome RangeAnswer :=
  (a.request r.jobKey r.total r.chunk).1

/-- A request with its answer. -/
structure Answered where
  request : RangeRequest
  answer : Outcome RangeAnswer
  deriving Repr

/-- Requests with the answers they get one after the other. -/
def history (a : Allocator) : List RangeRequest → List Answered
  | [] => []
  | r :: rest => ⟨r, a.reply r⟩ :: history (a.request r.jobKey r.total r.chunk).2 rest

/-- A request that was granted a span. -/
structure Grant where
  request : RangeRequest
  span : Span
  deriving DecidableEq, Repr

/-- The grant to a key that an answer makes. -/
def Answered.grant? (key : String) (e : Answered) : Option Grant :=
  if e.request.jobKey = key then
    match e.answer with
    | .ok (.span start stop) => some ⟨e.request, ⟨start, stop⟩⟩
    | _ => none
  else none

/-- The grants to a key, in order. -/
def grants (key : String) (entries : List Answered) : List Grant :=
  entries.filterMap (·.grant? key)

/-- The requests for a key with their answers, in order. -/
def entriesOf (key : String) (entries : List Answered) : List Answered :=
  entries.filter (·.request.jobKey = key)

theorem grant?_eq_some {key : String} {e : Answered} {g : Grant} (h : e.grant? key = some g) :
    e.request.jobKey = key ∧ ∃ start stop, e.answer = .ok (.span start stop) ∧
      g = ⟨e.request, ⟨start, stop⟩⟩ := by
  unfold Answered.grant? at h
  split at h
  · next same =>
    split at h
    · next start stop answer => exact ⟨same, start, stop, answer, (Option.some.inj h).symm⟩
    · cases h
  · cases h

theorem grants_cons_none {key : String} {e : Answered} (none : e.grant? key = none)
    (rest : List Answered) : grants key (e :: rest) = grants key rest :=
  List.filterMap_cons_none none

theorem grants_cons_some {key : String} {e : Answered} {g : Grant}
    (some : e.grant? key = some g) (rest : List Answered) :
    grants key (e :: rest) = g :: grants key rest :=
  List.filterMap_cons_some some

theorem reply_eq (a : Allocator) (r : RangeRequest) :
    a.reply r = answerAt (a.cursorOf r.jobKey) r.total r.chunk := by
  rw [reply, request_eq]

theorem spent_of_reply {a : Allocator} {r : RangeRequest} (spent : a.reply r = .ok .exhausted) :
    r.chunk ≠ 0 ∧ r.total ≤ a.cursorOf r.jobKey := by
  rw [reply_eq] at spent
  by_cases zero : r.chunk = 0
  · rw [answerAt, if_pos zero] at spent
    cases spent
  · exact ⟨zero, (answerAt_eq_exhausted_iff zero).mp spent⟩

theorem after_append (a : Allocator) (front back : List RangeRequest) :
    a.after (front ++ back) = (a.after front).after back := by
  induction front generalizing a with
  | nil => rfl
  | cons r rest ih => exact ih _

theorem history_append (a : Allocator) (front back : List RangeRequest) :
    a.history (front ++ back) = a.history front ++ (a.after front).history back := by
  induction front generalizing a with
  | nil => rfl
  | cons r rest ih => exact congrArg (_ :: ·) (ih _)

/-- The spans granted to a key follow one another from its cursor before to its cursor after. -/
theorem grants_contiguous (a : Allocator) (requests : List RangeRequest) (key : String) :
    Contiguous (a.cursorOf key) ((grants key (a.history requests)).map Grant.span)
      ((a.after requests).cursorOf key) := by
  induction requests generalizing a with
  | nil => exact .nil _
  | cons r rest ih =>
    have tail := ih (a.request r.jobKey r.total r.chunk).2
    by_cases same : r.jobKey = key
    · subst same
      by_cases zero : r.chunk = 0
      · rw [zero, request_zero] at tail
        rw [history, after, zero, request_zero, grants_cons_none]
        · exact tail
        · simp [Answered.grant?, reply, zero, request_zero]
      · rw [cursorOf_request_self a _ _ zero] at tail
        by_cases spent : r.total ≤ a.cursorOf r.jobKey
        · have answer := (answerAt_eq_exhausted_iff zero).mpr spent
          rw [advance_of_le spent] at tail
          rw [history, after, grants_cons_none]
          · exact tail
          · simp [Answered.grant?, reply_eq, answer]
        · have answer := answerAt_of_lt zero (Nat.not_le.mp spent)
          rw [history, after, grants_cons_some (g := ⟨r, _, _⟩)]
          · exact .cons (lt_advance zero (Nat.not_le.mp spent)) tail
          · simp [Answered.grant?, reply_eq, answer]
    · rw [cursorOf_request_of_ne a (Ne.symm same)] at tail
      rw [history, after, grants_cons_none]
      · exact tail
      · simp [Answered.grant?, same]

theorem grants_within (a : Allocator) (requests : List RangeRequest) (key : String) :
    ∀ g ∈ grants key (a.history requests),
      g.request.jobKey = key ∧ g.span.start < g.span.stop ∧
        g.span.stop - g.span.start ≤ g.request.chunk ∧ g.span.stop ≤ g.request.total := by
  induction requests generalizing a with
  | nil => exact fun g member => by cases member
  | cons r rest ih =>
    intro g member
    cases granted : (⟨r, a.reply r⟩ : Answered).grant? key with
    | none =>
      rw [history, grants_cons_none granted] at member
      exact ih _ g member
    | some first =>
      rw [history, grants_cons_some granted] at member
      rcases List.mem_cons.mp member with rfl | later
      · obtain ⟨same, start, stop, answer, rfl⟩ := grant?_eq_some granted
        rw [reply_eq] at answer
        exact ⟨same, answerAt_eq_span answer⟩
      · exact ih _ g later

/-- A cursor never goes back. -/
theorem cursorOf_le_after (a : Allocator) (requests : List RangeRequest) (key : String) :
    a.cursorOf key ≤ (a.after requests).cursorOf key :=
  (grants_contiguous a requests key).le

/-- What a key sees of a run depends on its own cursor and its own requests alone. -/
theorem entriesOf_eq (a b : Allocator) (requests : List RangeRequest) (key : String)
    (same : a.cursor? key = b.cursor? key) :
    entriesOf key (a.history requests) = b.history (requests.filter (·.jobKey = key)) ∧
      (a.after requests).cursor? key =
        (b.after (requests.filter (·.jobKey = key))).cursor? key := by
  induction requests generalizing a b with
  | nil => exact ⟨rfl, same⟩
  | cons r rest ih =>
    by_cases own : r.jobKey = key
    · subst own
      have cursors : a.cursorOf r.jobKey = b.cursorOf r.jobKey := by rw [cursorOf, same, cursorOf]
      have next : (a.request r.jobKey r.total r.chunk).2.cursor? r.jobKey =
          (b.request r.jobKey r.total r.chunk).2.cursor? r.jobKey := by
        by_cases zero : r.chunk = 0
        · rw [zero, request_zero, request_zero, same]
        · rw [cursor?_request_self a _ _ zero, cursor?_request_self b _ _ zero, cursors]
      obtain ⟨entries, cursor⟩ := ih _ _ next
      have answer : a.reply r = b.reply r := by rw [reply_eq, reply_eq, cursors]
      rw [List.filter_cons_of_pos (by simp)]
      refine ⟨?_, cursor⟩
      rw [history, history, entriesOf, List.filter_cons_of_pos (by simp), answer]
      exact congrArg (_ :: ·) entries
    · have kept : (a.request r.jobKey r.total r.chunk).2.cursor? key = b.cursor? key := by
        rw [cursor?_request_of_ne a (Ne.symm own), same]
      rw [List.filter_cons_of_neg (by simpa using own), history, entriesOf,
        List.filter_cons_of_neg (by simpa using own)]
      exact ih _ _ kept

/-- The keys an allocator knows after a run are those it knew and those of accepted requests. -/
theorem cursor?_isSome_after (a : Allocator) (requests : List RangeRequest) (key : String) :
    ((a.after requests).cursor? key).isSome ↔
      (a.cursor? key).isSome ∨ ∃ r ∈ requests, r.jobKey = key ∧ r.chunk ≠ 0 := by
  induction requests generalizing a with
  | nil => simp [after]
  | cons r rest ih =>
    rw [after, ih]
    have next : ((a.request r.jobKey r.total r.chunk).2.cursor? key).isSome ↔
        (a.cursor? key).isSome ∨ (r.jobKey = key ∧ r.chunk ≠ 0) := by
      by_cases same : r.jobKey = key
      · subst same
        by_cases zero : r.chunk = 0
        · simp [zero, request_zero]
        · simp [cursor?_request_self a _ _ zero, zero]
      · simp [cursor?_request_of_ne a (Ne.symm same), same]
    rw [next, List.exists_mem_cons_iff, or_assoc]

theorem ascending_after {a : Allocator} (ascending : Keyed.Ascending a.cursors)
    (requests : List RangeRequest) : Keyed.Ascending (a.after requests).cursors := by
  induction requests generalizing a with
  | nil => exact ascending
  | cons r rest ih =>
    refine ih ?_
    rw [request_eq]
    split
    · exact ascending
    · exact Keyed.ascending_put ascending _ _

/-! ## One total and one chunk size -/

/-- How many spans of a chunk it takes to hand out all positions below a total. -/
def spanCount (total chunk : Nat) : Nat := (total + chunk - 1) / chunk

theorem lt_spanCount_iff {total chunk : Nat} (positive : chunk ≠ 0) (i : Nat) :
    i < spanCount total chunk ↔ i * chunk < total := by
  rw [spanCount, ← Nat.succ_le_iff, Nat.le_div_iff_mul_le (Nat.pos_of_ne_zero positive),
    Nat.succ_mul]
  omega

theorem answerAt_mul {total chunk : Nat} (positive : chunk ≠ 0) (i : Nat) :
    answerAt (i * chunk) total chunk =
      if i < spanCount total chunk then .ok (.span (i * chunk) (min ((i + 1) * chunk) total))
      else .ok .exhausted := by
  rw [answerAt, if_neg positive, Nat.succ_mul]
  exact if_congr (lt_spanCount_iff positive i).symm rfl rfl

/-- A cursor that moved over some chunks answers like the next multiple of the chunk. -/
theorem answerAt_min_mul (rounds total chunk : Nat) :
    answerAt (min (rounds * chunk) total) total chunk = answerAt (rounds * chunk) total chunk := by
  by_cases below : rounds * chunk ≤ total
  · rw [Nat.min_eq_left below]
  · have spent : ¬ rounds * chunk < total := by omega
    rw [Nat.min_eq_right (by omega), answerAt, answerAt, if_neg (Nat.lt_irrefl total),
      if_neg spent]

theorem advance_min_mul (rounds total chunk : Nat) :
    advance (min (rounds * chunk) total) total chunk = min ((rounds + 1) * chunk) total := by
  rw [advance, Nat.succ_mul]
  omega

theorem history_replicate (a : Allocator) {r : RangeRequest} (positive : r.chunk ≠ 0)
    {rounds : Nat} (start : a.cursorOf r.jobKey = min (rounds * r.chunk) r.total) (n : Nat) :
    a.history (List.replicate n r) =
      (List.range' rounds n).map fun i => ⟨r, answerAt (i * r.chunk) r.total r.chunk⟩ := by
  induction n generalizing a rounds with
  | zero => rfl
  | succ n ih =>
    have moved : (a.request r.jobKey r.total r.chunk).2.cursorOf r.jobKey =
        min ((rounds + 1) * r.chunk) r.total := by
      rw [cursorOf_request_self a _ _ positive, start, advance_min_mul]
    rw [List.replicate_succ, history, List.range'_succ, List.map_cons, ih _ moved, reply_eq,
      start, answerAt_min_mul]

/-- Requests with one total and one chunk size get the multiples of the chunk in order, as many as
there are, and no more after that. -/
theorem answers_of_constant {requests : List RangeRequest} {key : String} {total chunk : Nat}
    (positive : chunk ≠ 0)
    (constant : ∀ r ∈ requests, r.jobKey = key → r.total = total ∧ r.chunk = chunk) :
    (entriesOf key (history {} requests)).map Answered.answer =
      (List.range (requests.countP (·.jobKey = key))).map fun i =>
        if i < spanCount total chunk then .ok (.span (i * chunk) (min ((i + 1) * chunk) total))
        else .ok .exhausted := by
  have own : requests.filter (·.jobKey = key) =
      List.replicate (requests.countP (·.jobKey = key)) ⟨key, total, chunk⟩ := by
    rw [List.countP_eq_length_filter]
    refine List.eq_replicate_iff.mpr ⟨rfl, fun r member => ?_⟩
    obtain ⟨listed, same⟩ := List.mem_filter.mp member
    have same : r.jobKey = key := by simpa using same
    obtain ⟨rfl, rfl⟩ := constant r listed same
    rw [← same]
  have fresh : cursorOf {} key = min (0 * chunk) total := by simp [cursorOf, cursor?, Keyed.find?]
  rw [(entriesOf_eq {} {} requests key rfl).1, own, history_replicate {} positive fresh,
    List.range_eq_range', List.map_map]
  exact List.map_congr_left fun i _ => answerAt_mul positive i

/-! ## What a run amounts to -/

/-- What a fresh allocator has done, and does next, after some requests. -/
structure Accounts (requests : List RangeRequest) : Prop where
  /-- The spans granted to a key begin at the first position, follow one another without a gap, and
  end at the cursor of the key. -/
  contiguous : ∀ key, Contiguous 0 ((grants key (history {} requests)).map Grant.span)
    ((after {} requests).cursorOf key)
  /-- A span is not empty, is no longer than was asked for, and stays below the total. -/
  within : ∀ key, ∀ g ∈ grants key (history {} requests), g.request.jobKey = key ∧
    g.span.start < g.span.stop ∧ g.span.stop - g.span.start ≤ g.request.chunk ∧
    g.span.stop ≤ g.request.total
  /-- The next request is answered by the allocator as it is then. -/
  next : ∀ r, history {} (requests ++ [r]) =
    history {} requests ++ [⟨r, (after {} requests).reply r⟩]
  /-- A request for nothing fails and leaves the allocator as it is. -/
  zero : ∀ r, r.chunk = 0 →
    (after {} requests).reply r = .error (.invalidArgument .zeroChunkSize) ∧
      after {} (requests ++ [r]) = after {} requests
  /-- There is no more work exactly when the cursor has reached the total. -/
  exhausted_iff : ∀ r, r.chunk ≠ 0 →
    ((after {} requests).reply r = .ok .exhausted ↔
      r.total ≤ (after {} requests).cursorOf r.jobKey)
  /-- The answer that there is no more work moves no cursor. -/
  exhausted_keeps : ∀ r, (after {} requests).reply r = .ok .exhausted →
    ∀ key, (after {} (requests ++ [r])).cursorOf key = (after {} requests).cursorOf key
  /-- Once there was no more work for a total, there is none for any smaller one. -/
  exhausted_stays : ∀ r later s, (after {} requests).reply r = .ok .exhausted →
    s.jobKey = r.jobKey → s.total ≤ r.total → s.chunk ≠ 0 →
    (after {} (requests ++ r :: later)).reply s = .ok .exhausted
  /-- A key is served as if there were no other. -/
  restricted : ∀ key,
    entriesOf key (history {} requests) = history {} (requests.filter (·.jobKey = key)) ∧
      (after {} requests).cursor? key = (after {} (requests.filter (·.jobKey = key))).cursor? key
  /-- The keys listed are in ascending order. -/
  ascending : Keyed.Ascending (after {} requests).cursors
  /-- The listing holds the keys of accepted requests with their cursors. -/
  listed_iff : ∀ key cursor, (key, cursor) ∈ (after {} requests).cursors ↔
    (∃ r ∈ requests, r.jobKey = key ∧ r.chunk ≠ 0) ∧
      cursor = (after {} requests).cursorOf key
  /-- With one total and one chunk size there are as many spans as chunks fit, and then no more. -/
  constant : ∀ key total chunk, chunk ≠ 0 →
    (∀ r ∈ requests, r.jobKey = key → r.total = total ∧ r.chunk = chunk) →
    (entriesOf key (history {} requests)).map Answered.answer =
      (List.range (requests.countP (·.jobKey = key))).map fun i =>
        if i < spanCount total chunk then .ok (.span (i * chunk) (min ((i + 1) * chunk) total))
        else .ok .exhausted

theorem accounts_of_requests (requests : List RangeRequest) : Accounts requests where
  contiguous key := by
    simpa [cursorOf, cursor?, Keyed.find?] using grants_contiguous {} requests key
  within := grants_within {} requests
  next r := history_append {} requests [r]
  zero r nothing := by
    rw [after_append, reply, after, after, nothing, request_zero]
    exact ⟨rfl, rfl⟩
  exhausted_iff r positive := by
    rw [reply_eq, answerAt_eq_exhausted_iff positive]
  exhausted_keeps r spent key := by
    rw [after_append, after, after]
    by_cases same : key = r.jobKey
    · subst same
      obtain ⟨positive, le⟩ := spent_of_reply spent
      rw [cursorOf_request_self _ _ _ positive, advance_of_le le]
    · exact cursorOf_request_of_ne _ same _ _
  exhausted_stays r later s spent same smaller positive := by
    obtain ⟨-, le⟩ := spent_of_reply spent
    rw [reply_eq, answerAt_eq_exhausted_iff positive, after_append, same]
    have grown := cursorOf_le_after (after {} requests) (r :: later) r.jobKey
    omega
  restricted key := entriesOf_eq {} {} requests key rfl
  ascending := ascending_after .nil requests
  listed_iff key cursor := by
    have known := cursor?_isSome_after {} requests key
    have member : (key, cursor) ∈ (after {} requests).cursors ↔
        (after {} requests).cursor? key = some cursor :=
      Keyed.mem_iff_find? (ascending_after .nil requests)
    have fresh : (cursor? {} key).isSome ↔ False := by simp [cursor?, Keyed.find?]
    rw [fresh, false_or] at known
    rw [member, ← known, cursorOf]
    cases (after {} requests).cursor? key <;> simp [eq_comm]
  constant _ _ _ positive same := answers_of_constant positive same

end Allocator

end CallDispatch
