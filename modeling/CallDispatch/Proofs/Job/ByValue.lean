import CallDispatch.CommandLine.Outcome
import CallDispatch.Proofs.Job.RoundTrip
import CallDispatch.Proofs.Json.Accepted
import CallDispatch.Proofs.Json.Members

/-!
# Payloads by way of a value

A command line reads a payload's text as a value of any shape first, and then looks for the payload
in that value. On the way members are put in the order of their names, and of several with one name
only the last is left. The payload is the same as for one who reads along with the text: a known
field comes once only, the order of the members matters to none of the fields, and of several other
members with one name the last counts either way.
-/

namespace CallDispatch

open Json (Document Decoded Row Slot Slotted foldMembers fill_bind_eq_ok_iff memberDocuments
  valueMembers)

theorem ByteSpan.whole {depth : Nat} {d : Document} {r : ByteSpan}
    (read : ByteSpan.decode d = .ok r) : d.Whole (depth + 1) :=
  ⟨r.json, ByteSpan.eq_document read, by rw [ByteSpan.eq_document read]; rfl⟩

namespace Payload

/-- The slots of a payload's draft. -/
def slots : List (Slot Draft) :=
  [⟨["executor_id"], (·.string), Draft.executorId⟩, ⟨["job_id"], (·.string), Draft.jobId⟩,
    ⟨["job_key"], (·.string), Draft.jobKeyField⟩,
    ⟨["total_calls"], (·.word "usize"), Draft.totalCalls⟩,
    ⟨["call_ids"], (·.list (·.string)), Draft.callIds⟩,
    ⟨["data_byte_ranges"], (·.list ByteSpan.decode), Draft.byteRanges⟩,
    ⟨["chunksize"], (·.word "usize"), Draft.chunkSize⟩,
    ⟨["worker_processes"], (·.word "usize"), Draft.workerProcesses⟩,
    ⟨["activation_id"], (·.optional (·.string)), Draft.activationId⟩,
    ⟨["log_level"], (·.optional (·.string)), Draft.logLevel⟩]

/-- A member without a slot is put among the uninterpreted ones. -/
def putExtra (extra : List (String × Json)) (key : String) (value : Document) :
    Decoded (List (String × Json)) := do
  let v ← value.value extraDepth
  pure (Keyed.put key v extra)

theorem slotted : Slotted Draft.put slots Draft.extra putExtra where
  ext {d e} same extra := by
    cases d; cases e
    simp_all [slots]
  fills {d e key value} put := by
    unfold Draft.put at put
    split at put
    case h_11 =>
      obtain ⟨v, read, put⟩ := of_bind_eq_ok put
      cases put
      refine ⟨by simp_all [slots], ?_⟩
      rw [if_pos (by simp_all [slots]), putExtra, show value.value extraDepth = .ok v from read]
      rfl
    all_goals
      obtain ⟨empty, a, decoded, rfl⟩ := fill_bind_eq_ok_iff.mp put
      simp [slots, empty, decoded]
  goes {d key value} known unknown := by
    unfold Draft.put
    split
    case h_11 =>
      obtain ⟨extra, put⟩ := unknown (by simp_all [slots])
      obtain ⟨v, read, -⟩ := of_bind_eq_ok put
      exact ⟨_, by rw [show value.value (Json.maxDepth - 1) = .ok v from read]; rfl⟩
    all_goals
      obtain ⟨empty, a, decoded⟩ := by simpa [slots] using known
      exact ⟨_, fill_bind_eq_ok_iff.mpr ⟨empty, a, decoded, rfl⟩⟩

theorem fieldNames_eq : fieldNames = slots.flatMap (·.names) := rfl

/-- What a slot is filled with is the document of a value. -/
theorem whole_of_slot {s : Slot Draft} (listed : s ∈ slots) {value : Document} {a : s.α}
    (read : s.decode value = .ok a) : value.Whole extraDepth := by
  simp only [slots, List.mem_cons, List.not_mem_nil, or_false] at listed
  rcases listed with rfl | rfl | rfl | rfl | rfl | rfl | rfl | rfl | rfl | rfl
  · exact Json.whole_of_string read
  · exact Json.whole_of_string read
  · exact Json.whole_of_string read
  · exact Json.whole_of_word read
  · exact Json.whole_of_list (fun _ _ => Json.whole_of_string) read
  · exact Json.whole_of_list (fun _ _ => ByteSpan.whole) read
  · exact Json.whole_of_word read
  · exact Json.whole_of_word read
  · exact Json.whole_of_optional (fun _ => Json.whole_of_string) read
  · exact Json.whole_of_optional (fun _ => Json.whole_of_string) read

/-- A member that can be put into a draft has a value, and the document of that value can be put in
its place. -/
theorem put_document {d e : Draft} {key : String} {value : Document} (ranged : value.Ranged)
    (put : d.put key value = .ok e) :
    ∃ v, value.value extraDepth = .ok v ∧ d.put key v.document = .ok e := by
  by_cases known : key ∈ fieldNames
  · obtain ⟨s, listed, mine⟩ := List.mem_flatMap.mp (fieldNames_eq ▸ known)
    have filled := (slotted.fills put).1 s listed
    rw [if_pos mine] at filled
    obtain ⟨-, a, read, -⟩ := filled
    obtain ⟨v, same, whole⟩ := whole_of_slot listed read
    exact ⟨v, whole, same ▸ put⟩
  · rw [Draft.put_of_not_mem known] at put
    obtain ⟨v, read, put⟩ := of_bind_eq_ok put
    obtain ⟨proper, shallow⟩ := Json.value_sound read ranged
    refine ⟨v, read, ?_⟩
    rw [Draft.put_of_not_mem known, Json.value_document v proper shallow]
    exact put

theorem foldMembers_values {members : List (Option String × Document)} {d e : Draft}
    (ranged : ∀ member ∈ members, member.2.Ranged)
    (folded : foldMembers Draft.put d members = .ok e) :
    ∃ values, valueMembers extraDepth members = .ok values ∧
      foldMembers Draft.put d (memberDocuments values) = .ok e := by
  induction members generalizing d with
  | nil => exact ⟨[], rfl, folded⟩
  | cons member rest ih =>
    obtain ⟨key | key, value⟩ := member
    · cases folded
    · obtain ⟨here, there⟩ := List.forall_mem_cons.mp ranged
      obtain ⟨middle, first, folded⟩ := of_bind_eq_ok folded
      obtain ⟨v, read, put⟩ := put_document here first
      obtain ⟨values, reads, puts⟩ := ih there folded
      refine ⟨(key, v) :: values, ?_, ?_⟩
      · rw [valueMembers, read, reads]
        rfl
      · rw [memberDocuments, foldMembers, put]
        exact puts

/-- Members that are picked by their names can be picked before or after their documents are
made. -/
theorem filter_memberDocuments (picks : String → Bool)
    {picked : Option String × Document → Bool}
    (by_ : ∀ key value, picked (some key, value) = picks key) (members : List (String × Json)) :
    (memberDocuments members).filter picked = memberDocuments (members.filter (picks ·.1)) := by
  induction members with
  | nil => rfl
  | cons member rest ih =>
    obtain ⟨key, value⟩ := member
    rw [memberDocuments, List.filter_cons, List.filter_cons, by_, ih]
    split <;> rfl

theorem isSome_of_memberDocuments {members : List (String × Json)}
    {member : Option String × Document} (listed : member ∈ memberDocuments members) :
    member.1.isSome := by
  induction members with
  | nil => cases listed
  | cons first rest ih =>
    obtain ⟨key, value⟩ := first
    rcases List.mem_cons.mp listed with rfl | later
    · rfl
    · exact ih later

theorem foldMembers_putExtra {members : List (String × Json)}
    (read : ∀ member ∈ members, member.2.document.value extraDepth = .ok member.2)
    (extra : List (String × Json)) :
    foldMembers putExtra extra (memberDocuments members) =
      .ok (members.foldl (fun sorted (key, value) => Keyed.put key value sorted) extra) := by
  induction members generalizing extra with
  | nil => rfl
  | cons member rest ih =>
    obtain ⟨key, value⟩ := member
    obtain ⟨here, there⟩ := List.forall_mem_cons.mp read
    dsimp only at here
    rw [memberDocuments, foldMembers, putExtra, here]
    exact ih there _

/-- A slot takes from sorted members what it takes from those in their own order: two of one name
would have been one too many. -/
theorem takes_ofPairs {σ : Type} {s : Slot σ} {members : List (String × Json)}
    {before after : Option s.α} (takes : s.Takes (memberDocuments members) before after) :
    s.Takes (memberDocuments (Keyed.ofPairs members)) before after := by
  have picked (l : List (String × Json)) : (memberDocuments l).filter s.picks =
      memberDocuments (l.filter fun member => member.1 ∈ s.names) :=
    filter_memberDocuments (fun key => key ∈ s.names) (fun _ _ => rfl) l
  unfold Slot.Takes at takes ⊢
  rw [picked] at takes ⊢
  rw [Keyed.filter_ofPairs fun key => key ∈ s.names]
  match mine : members.filter fun member => member.1 ∈ s.names with
  | [] | [_] =>
    rw [mine] at takes ⊢
    exact takes
  | _ :: _ :: _ =>
    rw [mine] at takes
    rcases takes with ⟨none, -⟩ | ⟨_, _, one, -⟩
    · cases none
    · cases one

/-- A draft takes from sorted members what it takes from those in their own order: of several
uninterpreted ones with one name only the last has been left, and only the last counts. -/
theorem foldMembers_ofPairs {members : List (String × Json)} {d : Draft}
    (read : ∀ member ∈ members, member.2.document.value extraDepth = .ok member.2)
    (folded : foldMembers Draft.put {} (memberDocuments members) = .ok d) :
    foldMembers Draft.put {} (memberDocuments (Keyed.ofPairs members)) = .ok d := by
  obtain ⟨-, takes, spare⟩ := slotted.foldMembers_iff.mp folded
  refine slotted.foldMembers_iff.mpr ⟨?_, fun s listed => takes_ofPairs (takes s listed), ?_⟩
  · intro member listed
    exact isSome_of_memberDocuments listed
  · have among := (Keyed.ofPairs_spec members).2
    have kept (l : List (String × Json)) : (memberDocuments l).filter (Json.isSpare slots) =
        memberDocuments (l.filter fun member => !slots.any fun s => member.1 ∈ s.names) :=
      filter_memberDocuments (fun key => !slots.any fun s => key ∈ s.names) (fun _ _ => rfl) l
    rw [kept, foldMembers_putExtra fun member listed => read member (List.mem_filter.mp listed).1]
      at spare
    rw [kept, foldMembers_putExtra fun member listed =>
      read member (among member (List.mem_filter.mp listed).1), ← spare,
      Keyed.filter_ofPairs fun key => !slots.any fun s => key ∈ s.names]
    exact congrArg Except.ok (Keyed.ofPairs_of_ascending (Keyed.ofPairs_spec _).1)

/-- A document that is read as a payload has a value, and the same payload is found in that. -/
theorem decode_by_value {d : Document} {p : Payload} (ranged : d.Ranged) (read : decode d = .ok p) :
    ∃ j, d.value Json.maxDepth = .ok j ∧ decode j.document = .ok p := by
  unfold decode at read
  split at read
  · next members stop =>
    obtain ⟨draft, folded, read⟩ := of_bind_eq_ok read
    obtain ⟨_, checked, closes⟩ := of_bind_eq_ok read
    have inside : ∀ member ∈ members, member.2.Ranged :=
      fun member listed n has => ranged n (.member listed has)
    obtain ⟨values, reads, folds⟩ := foldMembers_values inside folded
    have sound := Json.valueMembers_sound reads fun key value listed => inside (key, value) listed
    refine ⟨.object (Keyed.ofPairs values), ?_, ?_⟩
    · rw [Json.maxDepth, Document.value]
      rw [show valueMembers 126 members = .ok values from reads, checked]
      rfl
    · rw [Json.document, decode, foldMembers_ofPairs (fun member listed =>
        Json.value_document member.2 (sound member listed).1 (sound member listed).2) folds]
      exact closes
  · cases read
  · cases read

end Payload

/-- What is unwrapped has been read from the document of a text. -/
theorem decodeWrapped_eq_ok_iff {α : Type} {decoder : Document → Decoded α} {encoded : String}
    {a : α} : decodeWrapped decoder encoded = .ok a ↔
      ∃ bytes, Text.Base64.decode (Text.trim encoded.toList) = some bytes ∧
        Json.decodeBytes decoder bytes = .ok a := by
  unfold decodeWrapped
  cases Text.Base64.decode (Text.trim encoded.toList) with
  | none =>
    constructor
    · intro unwrapped
      cases unwrapped
    · rintro ⟨_, none, -⟩
      cases none
  | some bytes =>
    dsimp only
    cases decoded : Json.decodeBytes decoder bytes with
    | error flaw =>
      constructor
      · intro unwrapped
        cases unwrapped
      · rintro ⟨_, ⟨⟩, read⟩
        cases decoded.symm.trans read
    | ok b =>
      constructor
      · intro unwrapped
        cases unwrapped
        exact ⟨bytes, rfl, decoded⟩
      · rintro ⟨_, ⟨⟩, read⟩
        cases decoded.symm.trans read
        rfl

/-- Whatever argument is unwrapped as a payload along with the text, a command line unwraps it as a
value of any shape, and finds the same payload in that. -/
theorem command_line_reads_same_payload (encoded : String) (p : Payload)
    (unwrapped : Payload.unwrap encoded = .ok p) :
    ∃ value, CommandLine.unwrapValue encoded = .ok value ∧ Payload.ofValue value = .ok p ∧
      CommandLine.unwrapAs Payload.decode encoded = .ok p := by
  obtain ⟨bytes, decoded, read⟩ := decodeWrapped_eq_ok_iff.mp unwrapped
  obtain ⟨reads, ends⟩ := Json.decode_eq_ok_iff.mp read
  obtain ⟨j, whole, found⟩ := Payload.decode_by_value (Json.read_ranged _) reads
  have value : CommandLine.unwrapValue encoded = .ok j := by
    rw [CommandLine.unwrapValue,
      decodeWrapped_eq_ok_iff.mpr ⟨bytes, decoded, Json.decode_eq_ok_iff.mpr ⟨whole, ends⟩⟩]
    rfl
  refine ⟨j, value, found, ?_⟩
  rw [CommandLine.unwrapAs, value]
  exact congrArg (·.mapError CommandLine.Failure.wrongShape) found

namespace Payload

/-- Members of a payload out of order, with the defaulted ones left out, and one that comes twice:
the second time it is an object whose members are out of order as well. -/
def shuffled : Json :=
  .object [("trace", .number (.nat 1)), ("call_ids", .array [.text "0"]), ("job_id", .text "j"),
    ("trace", .object [("b", .array [.null]), ("a", .number (.neg 2))]),
    ("executor_id", .text "e"), ("total_calls", .number (.nat 1))]

/-- The payload made of them. -/
def ordered : Payload where
  executorId := "e"
  jobId := "j"
  totalCalls := 1
  callIds := ["0"]
  extra := [("trace", .object [("a", .number (.neg 2)), ("b", .array [.null])])]

theorem command_line_reads_same_payload_shuffled :
    unwrap (encodeWrapped shuffled) = .ok ordered ∧
      CommandLine.unwrapAs decode (encodeWrapped shuffled) = .ok ordered := by
  have plain : shuffled.Plain := by
    refine .object ?_
    simp only [List.forall_mem_cons]
    refine ⟨.nat (by decide), .array (List.forall_mem_singleton.mpr (.text _)), .text _, ?_,
      .text _, .nat (by decide), nofun⟩
    have null : Json.null.Plain := Json.Proper.null.plain fun _ inside => by cases inside
    have negative : (Json.number (.neg 2)).Plain :=
      (Json.Proper.number (n := .neg 2) ⟨by decide, by decide⟩).plain
        fun _ inside => by cases inside
    exact .object (List.forall_mem_cons.mpr ⟨.array (List.forall_mem_singleton.mpr null),
      List.forall_mem_singleton.mpr negative⟩)
  have unwrapped : unwrap (encodeWrapped shuffled) = .ok ordered :=
    decodeWrapped_encodeWrapped plain (by cbv)
  obtain ⟨_, -, -, found⟩ := command_line_reads_same_payload _ _ unwrapped
  exact ⟨unwrapped, found⟩

end Payload

end CallDispatch
