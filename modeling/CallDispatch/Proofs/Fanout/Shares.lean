import CallDispatch.Proofs.Cluster.Words
import CallDispatch.Proofs.Fanout.Fleet
import CallDispatch.Proofs.Job.RoundTrip

/-!
# The share of a pod in a message

The handling of a message is the job it was read as, less the calls launched so far. It ends when
no call is left, when the payload lacks the next one, or when the pod is told to stop.
-/

namespace CallDispatch

open Text.Decimal (wordBound)

namespace Payload

/-- A payload cut down to one call, with its byte range if there are any. -/
def only (p : Payload) (index : Nat) : Payload :=
  { p with callIds := p.callIds[index]?.toList, byteRanges := p.byteRanges[index]?.toList }

/-- What a payload must have so that its first `total` calls can be handed out one by one. -/
structure HasSingles (p : Payload) (total : Nat) : Prop where
  callIds : total ≤ p.callIds.length
  byteRanges : p.byteRanges = [] ∨ total ≤ p.byteRanges.length

theorem eq_only_of_single {p call : Payload} {index : Nat} (single : p.single index = .ok call) :
    call = p.only index ∧ index < p.callIds.length := by
  rw [Payload.single] at single
  split at single
  · cases single
  · next callId found =>
    obtain ⟨below, -⟩ := List.getElem?_eq_some_iff.mp found
    refine ⟨?_, below⟩
    split at single
    · next none =>
      cases single
      simp [only, found, List.isEmpty_iff.mp none]
    · split at single
      · next range at_ =>
        cases single
        simp [only, found, at_]
      · cases single

theorem HasSingles.single {p : Payload} {total index : Nat} (has : p.HasSingles total)
    (below : index < total) : p.single index = .ok (p.only index) := by
  obtain ⟨callId, listed⟩ : ∃ callId, p.callIds[index]? = some callId :=
    ⟨_, List.getElem?_eq_getElem (Nat.lt_of_lt_of_le below has.callIds)⟩
  rcases has.byteRanges with none | enough
  · simp [Payload.single, only, listed, none]
  · have inside := Nat.lt_of_lt_of_le below enough
    obtain ⟨range, found⟩ : ∃ range, p.byteRanges[index]? = some range :=
      ⟨_, List.getElem?_eq_getElem inside⟩
    have some : p.byteRanges ≠ [] := List.ne_nil_of_length_pos (by omega)
    simp [Payload.single, only, listed, some, found]

end Payload

namespace Dispatch

/-- The calls that the handling of a message has still to launch. -/
def pending : Outcome (Option Dispatch) → List Nat
  | .ok (some d) => d.remaining
  | _ => []

/-- A job after its next `count` launches. -/
def after (d : Dispatch) (count : Nat) : Dispatch :=
  { d with remaining := d.remaining.drop count, launched := d.launched + count }

/-- The handling of a message after `count` launches. -/
def advanced (job : Outcome (Option Dispatch)) (count : Nat) : Outcome (Option Dispatch) :=
  job.map (Option.map (·.after count))

theorem advanced_zero (job : Outcome (Option Dispatch)) : advanced job 0 = job := by
  rcases job with e | _ | d <;> rfl

theorem advanced_eq_some {job : Outcome (Option Dispatch)} {count : Nat} {d : Dispatch}
    (at_ : advanced job count = .ok (some d)) : ∃ whole, job = .ok (some whole) ∧
      d = whole.after count := by
  rcases job with e | _ | whole
  · cases at_
  · cases at_
  · cases at_
    exact ⟨whole, rfl, rfl⟩

theorem pending_advanced (job : Outcome (Option Dispatch)) (count : Nat) :
    pending (advanced job count) = (pending job).drop count := by
  rcases job with e | _ | d
  · exact List.drop_nil.symm
  · exact List.drop_nil.symm
  · rfl

/-- One launch more. -/
theorem advanced_succ {job : Outcome (Option Dispatch)} {count index : Nat} {d : Dispatch}
    {rest : List Nat} (at_ : advanced job count = .ok (some d))
    (first : d.remaining = index :: rest) :
    advanced job (count + 1) =
        .ok (some { d with remaining := rest, launched := d.launched + 1 }) ∧
      (pending job).take (count + 1) = (pending job).take count ++ [index] := by
  obtain ⟨whole, rfl, rfl⟩ := advanced_eq_some at_
  change whole.remaining.drop count = index :: rest at first
  refine ⟨?_, ?_⟩
  · have later : whole.remaining.drop (count + 1) = rest := by
      rw [← List.drop_drop, first, List.drop_one, List.tail_cons]
    rw [after, ← later]
    rfl
  · rw [List.take_add, pending, first]
    rfl

/-- A handling that has no end yet waits for a slot or can launch the next call. -/
theorem launchable_of_endless {job : Outcome (Option Dispatch)} {told free : Bool}
    (endless : ending? told free job = none) : ∃ d index rest call, job = .ok (some d) ∧
      d.remaining = index :: rest ∧ d.payload.single index = .ok call ∧ told = false := by
  rcases job with e | _ | d
  · cases endless
  · cases endless
  · cases remaining : d.remaining with
    | nil => simp [ending?, step, remaining] at endless
    | cons index rest =>
      cases single : d.payload.single index with
      | error e => simp [ending?, step, remaining, single] at endless
      | ok call =>
        refine ⟨d, index, rest, call, rfl, remaining, single, ?_⟩
        cases told with
        | false => rfl
        | true => simp [ending?, step, remaining, single] at endless

/-- A handling that ends although the payload has all the calls, and that is not cut short, has
launched them all. -/
theorem pending_of_ending {job : Outcome (Option Dispatch)} {told free : Bool}
    {result : Outcome Dispatched} (ending : ending? told free job = some result)
    (uncut : result ≠ .error .shutdown) (has : ∀ d, job = .ok (some d) →
      ∀ index ∈ d.remaining, ∃ call, d.payload.single index = .ok call) :
    pending job = [] := by
  rcases job with e | _ | d
  · rfl
  · rfl
  · cases remaining : d.remaining with
    | nil => exact remaining
    | cons index rest =>
      obtain ⟨call, single⟩ := has d rfl index (by simp [remaining])
      cases told with
      | true =>
        simp only [ending?, step, remaining, single, if_true, Option.some.injEq] at ending
        exact absurd ending.symm uncut
      | false => cases free <;> simp [ending?, step, remaining, single] at ending

end Dispatch

/-- The calls of a job that fall on the processors of a run. -/
def ProcessorRun.share (r : ProcessorRun) (cluster total : Nat) : List Nat :=
  (List.range total).filter fun i => r.contains (i % cluster)

namespace Dispatch

variable {cluster : Nat} {r : ProcessorRun} {body : List UInt8} {p : Payload}

/-- What a pod launches of a message that can be read is laid down by its share. -/
theorem ofBody_eq {cluster : Nat} {range : ProcessorRun} {body : List UInt8} {p : Payload}
    {share : Share} {schedule : List Nat} (read : Payload.ofBytes body = .ok p)
    (planned : podShare cluster range.size range p.totalCalls = .ok share)
    (laid : launches cluster range p.totalCalls = .ok schedule) :
    ofBody cluster range body = .ok (if p.totalCalls ≤ range.first then none else
      some { payload := p, planned := share.calls, remaining := schedule }) := by
  have job : ofBody cluster range body = ofPayload cluster range p := by
    rw [ofBody, read]
    rfl
  rw [job, ofPayload, planned, laid, reachedProcessors]
  by_cases past : p.totalCalls ≤ range.first
  · rw [if_pos past, if_pos past]
  · rw [if_neg past, if_neg past]
    split
    · next none => split at none <;> cases none
    · rfl

/-- What is to be launched of a message that can be read is laid down by its schedule. -/
theorem pending_of_launches (positive : 0 < cluster) {calls : List Nat}
    (read : Payload.ofBytes body = .ok p) (laid : launches cluster r p.totalCalls = .ok calls) :
    pending (ofBody cluster r body) = calls := by
  obtain ⟨share, calls', planned, laid', -, -, none⟩ := exists_launches positive r p.totalCalls
  cases laid.symm.trans laid'
  rw [ofBody_eq read planned laid]
  split
  · next past => exact (none past).symm
  · rfl

/-- A message that can be read leaves a pod its share of the job to launch. -/
theorem pending_ofBody (fits : FitsWords cluster p.totalCalls) (inside : r.last < cluster)
    (ordered : r.first ≤ r.last) (read : Payload.ofBytes body = .ok p) :
    pending (ofBody cluster r body) = r.share cluster p.totalCalls :=
  pending_of_launches (by omega) read (launches_eq_filter faithful_wrapped fits inside ordered)

/-- Of every message a pod is left the first calls of its share to launch: just one of them, if the
job is the largest there is and the pod has the only processor, and else all. -/
theorem pending_prefix (word : cluster < wordBound) (inside : r.last < cluster)
    (ordered : r.first ≤ r.last) (read : Payload.ofBytes body = .ok p) :
    pending (ofBody cluster r body) <+: r.share cluster p.totalCalls := by
  have total : p.totalCalls < wordBound := (Payload.read_of_ofBytes read).proper.totalCalls
  by_cases largest : cluster = 1 ∧ p.totalCalls = wordBound - 1
  · obtain ⟨rfl, whole⟩ := largest
    obtain ⟨first, last⟩ := r
    obtain rfl : last = 0 := Nat.lt_one_iff.mp inside
    obtain rfl : first = 0 := Nat.le_zero.mp ordered
    have laid := launches_largest
    rw [← whole] at laid
    rw [pending_of_launches Nat.one_pos read laid, ProcessorRun.share]
    have everywhere : ∀ i ∈ List.range p.totalCalls,
        (⟨0, 0⟩ : ProcessorRun).contains (i % 1) = true := by
      intro i _
      rw [Nat.mod_one]
      rfl
    have more : p.totalCalls = 1 + (wordBound - 2) := whole
    rw [List.filter_eq_self.mpr everywhere, more, List.range_add]
    exact List.prefix_append [0] _
  · have fits : FitsWords cluster p.totalCalls := ⟨word, total, fun one => by
      have : p.totalCalls ≠ wordBound - 1 := fun same => largest ⟨one, same⟩
      omega⟩
    exact (pending_ofBody fits inside ordered read).symm ▸ List.prefix_rfl

/-- A job that a pod launches was read from the message. -/
theorem payload_of_ofBody {d : Dispatch} (job : ofBody cluster r body = .ok (some d)) :
    Payload.ofBytes body = .ok d.payload := by
  obtain ⟨p, read, job⟩ := of_bind_eq_ok job
  have known : Payload.ofBytes body = .ok p := by
    cases parsed : Payload.ofBytes body with
    | error flaw =>
      rw [parsed] at read
      cases read
    | ok other =>
      rw [parsed] at read
      cases read
      rfl
  rw [ofPayload] at job
  split at job
  · cases job
  · obtain ⟨share, -, job⟩ := of_bind_eq_ok job
    obtain ⟨remaining, -, job⟩ := of_bind_eq_ok job
    cases job
    exact known

end Dispatch

end CallDispatch
