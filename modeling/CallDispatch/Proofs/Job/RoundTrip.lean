import CallDispatch.Job.Wire
import CallDispatch.Proofs.Json.Accepted

/-!
# Payloads that survive their text

A payload written as text and read back is the same payload, as long as none of its uninterpreted
members has the name of a known field. Whatever payload is read from a text is of this kind, because
a member with the name of a known field is read as that field.
-/

namespace CallDispatch

open Text.Decimal (wordBound)
open Json (Document Decoded Row documents memberDocuments foldMembers fill fill_bind_eq_ok_iff
  optionalMember word_lt)

/-- A byte range whose ends are machine words. -/
def ByteSpan.IsWords (r : ByteSpan) : Prop := r.first < wordBound ∧ r.last < wordBound

theorem ByteSpan.IsWords.plain {r : ByteSpan} (words : r.IsWords) : r.json.Plain := by
  refine .array ?_
  simp only [List.forall_mem_cons]
  exact ⟨.nat words.1, .nat words.2, nofun⟩

/-- What is read as a byte range is the document of that range. -/
theorem ByteSpan.eq_document {d : Document} {r : ByteSpan} (read : ByteSpan.decode d = .ok r) :
    d = r.json.document := by
  unfold ByteSpan.decode at read
  split at read
  · next items stop =>
    obtain ⟨⟨range, rest⟩, row, read⟩ := of_bind_eq_ok read
    obtain ⟨_, finished, read⟩ := of_bind_eq_ok read
    cases read
    unfold ByteSpan.row at row
    obtain ⟨⟨first, after⟩, one, row⟩ := of_bind_eq_ok row
    obtain ⟨⟨last, after'⟩, two, row⟩ := of_bind_eq_ok row
    cases row
    obtain ⟨a, shape, stops, firstWord⟩ := Row.next_eq_ok one
    obtain ⟨b, shape', stops', lastWord⟩ := Row.next_eq_ok two
    obtain ⟨ended, closed⟩ := Row.finish_eq_ok finished
    obtain rfl := Json.eq_number_of_word firstWord
    obtain rfl := Json.eq_number_of_word lastWord
    dsimp only at shape stops
    rw [shape, shape', ended, ← stops, ← stops', closed]
    rfl
  · cases read

namespace Payload

/-- A payload as the types of its fields have it: numbers are machine words, and the uninterpreted
members are values in ascending order of their keys. -/
structure Proper (p : Payload) : Prop where
  totalCalls : p.totalCalls < wordBound
  byteRanges : ∀ r ∈ p.byteRanges, r.IsWords
  chunkSize : p.chunkSize < wordBound
  workerProcesses : p.workerProcesses < wordBound
  ascending : Keyed.Ascending p.extra
  values : ∀ member ∈ p.extra, member.2.Proper

/-- No uninterpreted member has the name of a known field. -/
def KeepsApart (p : Payload) : Prop := ∀ member ∈ p.extra, member.1 ∉ fieldNames

/-- How deep containers may nest in an uninterpreted member: the payload is a container itself. -/
def extraDepth : Nat := Json.maxDepth - 1

variable {p : Payload}

/-! ## Writing and reading -/

/-- The numbers in the text of a payload are integers in range if those of its uninterpreted members
are. -/
theorem Proper.plain (proper : p.Proper) (floatFree : ∀ member ∈ p.extra, member.2.FloatFree) :
    p.json.Plain := by
  have callIds : (Json.array (p.callIds.map .text)).Plain := by
    refine .array fun item listed => ?_
    obtain ⟨s, -, rfl⟩ := List.mem_map.mp listed
    exact .text s
  have byteRanges : (Json.array (p.byteRanges.map ByteSpan.json)).Plain := by
    refine .array fun item listed => ?_
    obtain ⟨r, range, rfl⟩ := List.mem_map.mp listed
    exact (proper.byteRanges r range).plain
  refine .object (List.forall_mem_append.mpr ⟨List.forall_mem_append.mpr ⟨List.forall_mem_append.mpr
    ⟨?_, Json.plain_optionalMember _ _⟩, Json.plain_optionalMember _ _⟩, ?_⟩)
  · simp only [List.forall_mem_cons]
    exact ⟨.text _, .text _, .text _, .nat proper.totalCalls, callIds, byteRanges,
      .nat proper.chunkSize, .nat proper.workerProcesses, nofun⟩
  · exact fun member listed => (proper.values member listed).plain (floatFree member listed)

theorem decodeItems_texts (texts : List String) :
    Json.decodeItems (·.string) (documents (texts.map .text)) = .ok texts := by
  induction texts with
  | nil => rfl
  | cons text rest ih =>
    rw [List.map_cons, Json.documents, Json.decodeItems, ih]
    rfl

theorem decodeItems_byteRanges (ranges : List ByteSpan) :
    Json.decodeItems ByteSpan.decode (documents (ranges.map ByteSpan.json)) = .ok ranges := by
  induction ranges with
  | nil => rfl
  | cons range rest ih =>
    rw [List.map_cons, Json.documents, Json.decodeItems, ih]
    rfl

/-- The draft of a payload once the known fields have been read. -/
def known (p : Payload) : Draft where
  executorId := p.executorId
  jobId := p.jobId
  jobKeyField := p.jobKeyField
  totalCalls := p.totalCalls
  callIds := p.callIds
  byteRanges := p.byteRanges
  chunkSize := p.chunkSize
  workerProcesses := p.workerProcesses
  activationId := p.activationId.map some
  logLevel := p.logLevel.map some

theorem foldMembers_knownMembers (p : Payload) :
    foldMembers Draft.put {} (memberDocuments p.knownMembers) = .ok p.known := by
  have callIds : (Document.array (documents (p.callIds.map .text)) .closed).list (·.string) =
      .ok p.callIds := by
    rw [Document.list, decodeItems_texts]
    rfl
  have byteRanges : (Document.array (documents (p.byteRanges.map ByteSpan.json)) .closed).list
      ByteSpan.decode = .ok p.byteRanges := by
    rw [Document.list, decodeItems_byteRanges]
    rfl
  unfold knownMembers known
  cases p.activationId <;> cases p.logLevel <;>
    simp [memberDocuments, foldMembers, Draft.put, fill, callIds, byteRanges, optionalMember,
      Json.document] <;>
    rfl

/-- A member with another name is put among the uninterpreted ones. -/
theorem Draft.put_of_not_mem {key : String} (other : key ∉ fieldNames) (d : Draft)
    (value : Document) : d.put key value = (do
      let v ← value.value extraDepth
      pure { d with extra := Keyed.put key v d.extra }) := by
  unfold Draft.put
  split <;> first | rfl | exact absurd (by decide) other

theorem foldMembers_extra {members : List (String × Json)}
    (other : ∀ member ∈ members, member.1 ∉ fieldNames)
    (read : ∀ member ∈ members, member.2.document.value extraDepth = .ok member.2) (d : Draft) :
    foldMembers Draft.put d (memberDocuments members) = .ok { d with
      extra := members.foldl (fun sorted (key, value) => Keyed.put key value sorted) d.extra } := by
  induction members generalizing d with
  | nil => rfl
  | cons member rest ih =>
    obtain ⟨key, value⟩ := member
    have first := read (key, value) List.mem_cons_self
    have put := Draft.put_of_not_mem (other (key, value) List.mem_cons_self) d value.document
    dsimp only at first
    rw [first] at put
    rw [memberDocuments, foldMembers, put]
    exact ih (fun member listed => other member (.tail _ listed))
      (fun member listed => read member (.tail _ listed)) _

theorem memberDocuments_append (members more : List (String × Json)) :
    memberDocuments (members ++ more) = memberDocuments members ++ memberDocuments more := by
  induction members with
  | nil => rfl
  | cons member rest ih =>
    obtain ⟨key, value⟩ := member
    rw [List.cons_append, memberDocuments, memberDocuments, ih]
    rfl

/-- The document of a payload is read as that payload. -/
theorem decode_document (ascending : Keyed.Ascending p.extra) (apart : p.KeepsApart)
    (read : ∀ member ∈ p.extra, member.2.document.value extraDepth = .ok member.2) :
    decode p.json.document = .ok p := by
  have extra : foldMembers Draft.put p.known (memberDocuments p.extra) =
      .ok { p.known with extra := p.extra } := by
    rw [foldMembers_extra apart read]
    exact congrArg (fun extra => Except.ok { p.known with extra })
      (Keyed.ofPairs_of_ascending ascending)
  have members : foldMembers Draft.put {} (memberDocuments (p.knownMembers ++ p.extra)) =
      .ok { p.known with extra := p.extra } := by
    rw [memberDocuments_append]
    exact Json.foldMembers_append_iff.mpr ⟨_, p.foldMembers_knownMembers, extra⟩
  have closed : ({ p.known with extra := p.extra } : Draft).close = .ok p := by
    obtain ⟨_, _, _, _, _, _, _, _, activationId, logLevel, _⟩ := p
    cases activationId <;> cases logLevel <;> rfl
  rw [json, Json.document, decode, members]
  exact closed

/-- The wrapped text of a value is unwrapped to what its document is decoded to. -/
theorem decodeWrapped_encodeWrapped {α : Type} {decoder : Document → Decoded α} {j : Json}
    (plain : j.Plain) {a : α} (decoded : decoder j.document = .ok a) :
    decodeWrapped decoder (encodeWrapped j) = .ok a := by
  have trimmed : Text.trim (Text.Base64.encode (Text.Utf8.encode j.render)) =
      Text.Base64.encode (Text.Utf8.encode j.render) :=
    Text.trim_of_none fun c listed => Text.Base64.isBlank_of_mem_encode listed
  have whole : Json.decodeBytes decoder (Text.Utf8.encode j.render) = .ok a := by
    rw [Json.decodeBytes, Text.Utf8.decode_encode, Json.decode, Json.read_render plain]
    dsimp only
    rw [decoded]
    rfl
  rw [decodeWrapped, encodeWrapped, String.toList_ofList, trimmed, Text.Base64.decode_encode]
  dsimp only
  rw [whole]
  rfl

/-! ## What is read -/

/-- A draft whose fields are as the types of a payload's fields have them, with the uninterpreted
members apart and nesting no deeper than a text can. -/
structure Draft.Proper (d : Draft) : Prop where
  totalCalls : ∀ n, d.totalCalls = some n → n < wordBound
  byteRanges : ∀ rs, d.byteRanges = some rs → ∀ r ∈ rs, r.IsWords
  chunkSize : ∀ n, d.chunkSize = some n → n < wordBound
  workerProcesses : ∀ n, d.workerProcesses = some n → n < wordBound
  ascending : Keyed.Ascending d.extra
  extra : ∀ member ∈ d.extra,
    member.1 ∉ fieldNames ∧ member.2.Proper ∧ member.2.nesting ≤ extraDepth

theorem Draft.proper_new : ({} : Draft).Proper :=
  ⟨nofun, nofun, nofun, nofun, List.Pairwise.nil, nofun⟩

theorem byteRange_isWords {d : Document} (ranged : d.Ranged) {r : ByteSpan}
    (read : ByteSpan.decode d = .ok r) : r.IsWords := by
  obtain rfl := ByteSpan.eq_document read
  exact ⟨ranged (.nat r.first) (.item List.mem_cons_self (.self _)),
    ranged (.nat r.last) (.item (.tail _ List.mem_cons_self) (.self _))⟩

theorem decodeItems_eq_ok {α : Type} {decode : Document → Decoded α} {items : List Document}
    {as : List α} (read : Json.decodeItems decode items = .ok as) :
    ∀ a ∈ as, ∃ item ∈ items, decode item = .ok a := by
  induction items generalizing as with
  | nil =>
    cases read
    nofun
  | cons item rest ih =>
    obtain ⟨first, here, read⟩ := of_bind_eq_ok read
    obtain ⟨later, there, read⟩ := of_bind_eq_ok read
    cases read
    intro a listed
    rcases List.mem_cons.mp listed with rfl | listed
    · exact ⟨item, List.mem_cons_self, here⟩
    · obtain ⟨other, inside, decoded⟩ := ih there a listed
      exact ⟨other, List.mem_cons_of_mem _ inside, decoded⟩

theorem byteRanges_areWords {d : Document} (ranged : d.Ranged) {rs : List ByteSpan}
    (read : d.list ByteSpan.decode = .ok rs) : ∀ r ∈ rs, r.IsWords := by
  unfold Document.list at read
  split at read
  · next items stop =>
    obtain ⟨ranges, inside, read⟩ := of_bind_eq_ok read
    obtain ⟨_, -, read⟩ := of_bind_eq_ok read
    cases read
    intro r listed
    obtain ⟨item, among, decoded⟩ := decodeItems_eq_ok inside r listed
    exact byteRange_isWords (fun n holds => ranged n (.item among holds)) decoded
  · cases read

/-- Whatever member is put into it, a draft stays proper. -/
theorem Draft.Proper.put {d d' : Draft} (proper : d.Proper) {key : String} {value : Document}
    (ranged : value.Ranged) (put : d.put key value = .ok d') : d'.Proper := by
  by_cases other : key ∈ fieldNames
  · have cases : key = "executor_id" ∨ key = "job_id" ∨ key = "job_key" ∨ key = "total_calls" ∨
        key = "call_ids" ∨ key = "data_byte_ranges" ∨ key = "chunksize" ∨
        key = "worker_processes" ∨ key = "activation_id" ∨ key = "log_level" := by
      simpa [fieldNames] using other
    rcases cases with rfl | rfl | rfl | rfl | rfl | rfl | rfl | rfl | rfl | rfl
    · obtain ⟨-, _, -, rfl⟩ := fill_bind_eq_ok_iff.mp put
      exact { proper with }
    · obtain ⟨-, _, -, rfl⟩ := fill_bind_eq_ok_iff.mp put
      exact { proper with }
    · obtain ⟨-, _, -, rfl⟩ := fill_bind_eq_ok_iff.mp put
      exact { proper with }
    · obtain ⟨-, n, read, rfl⟩ := fill_bind_eq_ok_iff.mp put
      exact { proper with totalCalls := by rintro _ ⟨⟩; exact word_lt ranged read }
    · obtain ⟨-, _, -, rfl⟩ := fill_bind_eq_ok_iff.mp put
      exact { proper with }
    · obtain ⟨-, rs, read, rfl⟩ := fill_bind_eq_ok_iff.mp put
      exact { proper with byteRanges := by rintro _ ⟨⟩; exact byteRanges_areWords ranged read }
    · obtain ⟨-, n, read, rfl⟩ := fill_bind_eq_ok_iff.mp put
      exact { proper with chunkSize := by rintro _ ⟨⟩; exact word_lt ranged read }
    · obtain ⟨-, n, read, rfl⟩ := fill_bind_eq_ok_iff.mp put
      exact { proper with workerProcesses := by rintro _ ⟨⟩; exact word_lt ranged read }
    · obtain ⟨-, _, -, rfl⟩ := fill_bind_eq_ok_iff.mp put
      exact { proper with }
    · obtain ⟨-, _, -, rfl⟩ := fill_bind_eq_ok_iff.mp put
      exact { proper with }
  · rw [Draft.put_of_not_mem other] at put
    obtain ⟨v, read, put⟩ := of_bind_eq_ok put
    cases put
    obtain ⟨ofType, shallow⟩ := Json.value_sound read ranged
    refine { proper with ascending := Keyed.ascending_put proper.ascending key v, extra := ?_ }
    intro member listed
    rcases Keyed.mem_put listed with rfl | old
    · exact ⟨other, ofType, shallow⟩
    · exact proper.extra member old

theorem Draft.Proper.foldMembers {d d' : Draft} (proper : d.Proper)
    {members : List (Option String × Document)} (ranged : ∀ member ∈ members, member.2.Ranged)
    (put : Json.foldMembers Draft.put d members = .ok d') : d'.Proper := by
  induction members generalizing d with
  | nil =>
    cases put
    exact proper
  | cons member rest ih =>
    obtain ⟨key | key, value⟩ := member
    · cases put
    · obtain ⟨next, first, put⟩ := of_bind_eq_ok put
      exact ih (proper.put (ranged _ List.mem_cons_self) first)
        (fun member listed => ranged member (.tail _ listed)) put

/-- A payload as it can be read from a text. -/
structure Read (p : Payload) : Prop where
  proper : p.Proper
  apart : p.KeepsApart
  shallow : ∀ member ∈ p.extra, member.2.nesting ≤ extraDepth

theorem Draft.Proper.close {d : Draft} (proper : d.Proper) (closed : d.close = .ok p) : p.Read := by
  unfold Draft.close at closed
  obtain ⟨executorId, -, closed⟩ := of_bind_eq_ok closed
  obtain ⟨jobId, -, closed⟩ := of_bind_eq_ok closed
  obtain ⟨totalCalls, total, closed⟩ := of_bind_eq_ok closed
  obtain ⟨callIds, -, closed⟩ := of_bind_eq_ok closed
  cases closed
  have one : 1 < wordBound := by decide
  have filled {α : Type} {Holds : α → Prop} (slot : Option α) {default : α}
      (given : ∀ a, slot = some a → Holds a) (fallback : Holds default) :
      Holds (slot.getD default) := by
    cases slot with
    | none => exact fallback
    | some a => exact given a rfl
  have given := Json.require_eq_ok total
  exact {
    proper := {
      totalCalls := proper.totalCalls _ given
      byteRanges := filled _ proper.byteRanges (List.forall_mem_nil _)
      chunkSize := filled _ proper.chunkSize one
      workerProcesses := filled _ proper.workerProcesses one
      ascending := proper.ascending
      values := fun member listed => (proper.extra member listed).2.1 }
    apart := fun member listed => (proper.extra member listed).1
    shallow := fun member listed => (proper.extra member listed).2.2 }

theorem read_of_decode {d : Document} (ranged : d.Ranged) (read : decode d = .ok p) : p.Read := by
  unfold decode at read
  split at read
  · next members stop =>
    obtain ⟨draft, put, read⟩ := of_bind_eq_ok read
    obtain ⟨_, -, read⟩ := of_bind_eq_ok read
    exact (Draft.proper_new.foldMembers
      (fun member listed n inside => ranged n (.member listed inside)) put).close read
  · cases read
  · cases read

theorem read_of_ofBytes {bytes : List UInt8} (decoded : ofBytes bytes = .ok p) : p.Read := by
  obtain ⟨q, read, ended⟩ := of_bind_eq_ok (show Json.decodeBytes decode bytes = .ok p from decoded)
  split at ended
  · split at ended
    · cases ended
      exact read_of_decode (Json.read_ranged _) read
    · cases ended
  · cases ended

theorem read_of_unwrap {text : String} (unwrapped : unwrap text = .ok p) : p.Read := by
  unfold unwrap decodeWrapped at unwrapped
  split at unwrapped
  · cases unwrapped
  · next bytes _ =>
    refine @read_of_ofBytes p bytes ?_
    rw [ofBytes]
    cases decoded : Json.decodeBytes decode bytes with
    | error e =>
      rw [decoded] at unwrapped
      cases unwrapped
    | ok q =>
      rw [decoded] at unwrapped
      cases unwrapped
      rfl

/-! ## There and back -/

theorem Read.unwrap_wrap (read : p.Read) (floatFree : ∀ member ∈ p.extra, member.2.FloatFree) :
    unwrap p.wrap = .ok p :=
  decodeWrapped_encodeWrapped (read.proper.plain floatFree)
    (decode_document read.proper.ascending read.apart fun member listed =>
      Json.value_document member.2 (read.proper.values member listed) (read.shallow member listed))

/-- A payload whose uninterpreted members hold no floating-point numbers and nest at most 126
containers deep is read back from its own text exactly if none of them has the name of a known
field. No payload read from any text has such a member, or one that nests deeper, so a payload that
was read survives being written again unless it holds floating-point numbers. -/
theorem unwrap_wrap_iff :
    (∀ p : Payload, p.Proper →
      (∀ member ∈ p.extra, member.2.FloatFree ∧ member.2.nesting ≤ 126) →
      (unwrap p.wrap = .ok p ↔ ∀ member ∈ p.extra, member.1 ∉ fieldNames)) ∧
    ∀ (text : String) (p : Payload), unwrap text = .ok p →
      (∀ member ∈ p.extra, member.1 ∉ fieldNames) ∧ p.Proper ∧
      (∀ member ∈ p.extra, member.2.nesting ≤ 126) ∧
      ((∀ member ∈ p.extra, member.2.FloatFree) → unwrap p.wrap = .ok p) := by
  constructor
  · intro p proper plain
    constructor
    · exact fun same => (read_of_unwrap same).apart
    · intro apart
      have read : p.Read := ⟨proper, apart, fun member listed => (plain member listed).2⟩
      exact read.unwrap_wrap fun member listed => (plain member listed).1
  · intro text p unwrapped
    have read := read_of_unwrap unwrapped
    exact ⟨read.apart, read.proper, read.shallow, read.unwrap_wrap⟩

/-! ### Members with a name of their own and one without -/

/-- A payload with an array and a negative number among its members. -/
def traced : Payload :=
  { numbered "e" "j" 2 with
    extra := [("depth", .number (.neg 5)), ("trace", .array [.text "a\"b\n", .null])] }

/-- The same with a member named as an optional field that it lacks. -/
def disguised : Payload := { numbered "e" "j" 2 with extra := [("log_level", .text "debug")] }

/-- The first is read back, also once it has been read, and the second is not. -/
theorem unwrap_wrap_iff_traced :
    unwrap traced.wrap = .ok traced ∧ unwrap disguised.wrap ≠ .ok disguised := by
  have trace : ∀ item ∈ [Json.text "a\"b\n", .null], item.Proper ∧ item.FloatFree :=
    List.forall_mem_cons.mpr ⟨⟨.text _, .text _⟩,
      List.forall_mem_singleton.mpr ⟨.null, fun _ inside => by cases inside⟩⟩
  have values : ∀ member ∈ traced.extra, member.2.Proper ∧ member.2.FloatFree :=
    List.forall_mem_cons.mpr
      ⟨⟨.number ⟨by decide, by decide⟩, fun _ inside => by cases inside⟩,
        List.forall_mem_singleton.mpr ⟨.array fun item listed => (trace item listed).1,
          .array fun item listed => (trace item listed).2⟩⟩
  have tracedProper : traced.Proper := {
    totalCalls := by decide
    byteRanges := List.forall_mem_nil _
    chunkSize := by decide
    workerProcesses := by decide
    ascending := show List.Pairwise _ _ from by decide
    values := fun member listed => (values member listed).1 }
  have disguisedProper : disguised.Proper := {
    totalCalls := by decide
    byteRanges := List.forall_mem_nil _
    chunkSize := by decide
    workerProcesses := by decide
    ascending := List.pairwise_singleton _ _
    values := List.forall_mem_singleton.mpr (.text _) }
  have kept : unwrap traced.wrap = .ok traced :=
    (unwrap_wrap_iff.1 traced tracedProper fun member listed =>
      ⟨(values member listed).2, by revert member; decide⟩).mpr (by decide)
  refine ⟨(unwrap_wrap_iff.2 _ traced kept).2.2.2 fun member listed => (values member listed).2, ?_⟩
  intro same
  have apart := (unwrap_wrap_iff.1 disguised disguisedProper
    (List.forall_mem_singleton.mpr ⟨.text _, by decide⟩)).mp same
  exact absurd apart (by decide)

end Payload

end CallDispatch
