import CallDispatch.Job.Invocation
import CallDispatch.Proofs.Job.RoundTrip
import CallDispatch.Proofs.Json.Codecs
import CallDispatch.Settings
import CallDispatch.Tracking.CallRecord

/-!
# Records that survive their text

Masters, workers, pods and clients hand records to each other as text: ranges of calls, runs of
processors, a pod's settings, the names of calls with what they leave behind, byte ranges and ends
of invocations. Each of them is read back from its own text, whatever the order of its members, and
whatever record is read from a text survives being written again.

The data of an output may come before its kind. It is set aside then until the kind is known, and
for that it has to be a value itself. Data that comes after its kind is read as what the kind says,
and a member of a call's name that nobody asks for is skipped even if it is no value. So it is only
data that is a value that can be moved.
-/

namespace CallDispatch

open Text.Decimal (wordBound)
open Json (Codec Decoded Document Origin Record Row Slot Slotted documents fill_bind_eq_ok_iff
  foldMembers memberDocuments skipping word_lt)

/-! ## Two numbers -/

namespace BoundsDraft

/-- The slots of two numbers. -/
def slots (type : String) : List (Slot BoundsDraft) :=
  [⟨["start"], (·.word type), BoundsDraft.start⟩, ⟨["end"], (·.word type), BoundsDraft.stop⟩]

theorem slotted (type : String) :
    Slotted (BoundsDraft.put type) (slots type) (fun _ => ()) skipping where
  ext {d e} same _ := by
    cases d; cases e
    simpa [slots] using same
  fills {d e key value} put := by
    unfold BoundsDraft.put at put
    split at put
    case h_3 =>
      obtain ⟨_, skipped, put⟩ := of_bind_eq_ok put
      cases put
      simp_all [slots, skipping]
    all_goals
      obtain ⟨empty, a, decoded, rfl⟩ := fill_bind_eq_ok_iff.mp put
      simp [slots, empty, decoded]
  goes {d key value} known unknown := by
    unfold BoundsDraft.put
    split
    case h_3 =>
      obtain ⟨_, skipped⟩ := unknown (by simp_all [slots])
      exact ⟨d, by rw [show value.skip = .ok () from skipped]; rfl⟩
    all_goals
      obtain ⟨empty, a, decoded⟩ := by simpa [slots] using known
      exact ⟨_, fill_bind_eq_ok_iff.mpr ⟨empty, a, decoded, rfl⟩⟩

end BoundsDraft

/-- Two numbers that are read are machine words. -/
theorem bounds_areWords {α : Type} {origin : Origin} {name type : String} {make : Nat → Nat → α}
    {d : Document} (ranged : d.Ranged) {a : α}
    (read : d.record origin (boundsRecord name type make) = .ok a) :
    ∃ first last, a = make first last ∧ first < wordBound ∧ last < wordBound := by
  rcases Json.record_cases read with ⟨members, draft, rfl, folded, closes⟩ |
    ⟨items, stop, after, rfl, taken⟩
  · obtain ⟨first, start, closes⟩ := of_bind_eq_ok closes
    obtain ⟨last, stop, closes⟩ := of_bind_eq_ok closes
    cases closes
    have ranged : ∀ member ∈ members, member.2.Ranged :=
      fun member listed n has => ranged n (.member listed has)
    have slotted := BoundsDraft.slotted type
    obtain ⟨value, inside, word⟩ :=
      slotted.read_of_held ranged folded List.mem_cons_self rfl (Json.require_eq_ok start)
    obtain ⟨value', inside', word'⟩ :=
      slotted.read_of_held ranged folded (.tail _ List.mem_cons_self) rfl (Json.require_eq_ok stop)
    exact ⟨first, last, rfl, word_lt inside word, word_lt inside' word'⟩
  · have items : Row.Ranged { items, stop } := fun item listed n has => ranged n (.item listed has)
    obtain ⟨⟨first, rest⟩, one, taken⟩ := of_bind_eq_ok taken
    obtain ⟨⟨last, rest'⟩, two, taken⟩ := of_bind_eq_ok taken
    cases taken
    obtain ⟨left, item, inside, word⟩ := items.next one
    obtain ⟨-, item', inside', word'⟩ := left.next two
    exact ⟨first, last, rfl, word_lt inside word, word_lt inside' word'⟩

theorem plain_bounds {first last : Nat} (words : first < wordBound ∧ last < wordBound) :
    (Json.object [("start", .number (.nat first)), ("end", .number (.nat last))]).Plain := by
  refine .object ?_
  simp only [List.forall_mem_cons]
  exact ⟨.nat words.1, .nat words.2, nofun⟩

namespace ProcessorRun

/-- A run whose ends are machine words. -/
def IsWords (r : ProcessorRun) : Prop := r.first < wordBound ∧ r.last < wordBound

/-- How runs are written and read. -/
def codec : Codec ProcessorRun where
  json := json
  decode := decode

theorem lawful : codec.Lawful IsWords fun _ => True where
  plain words := plain_bounds words
  back _ := rfl
  perm perm _ read := Json.record_members_imp
    ((BoundsDraft.slotted "usize").foldMembers_perm perm)
    (show Document.record .direct _ _ = .ok _ from read)
  movable _ _ _ _ := trivial
  fits ranged read _ := by
    obtain ⟨first, last, rfl, words⟩ := bounds_areWords ranged read
    exact words

end ProcessorRun

namespace RangeAnswer

/-- An answer whose bounds are machine words. -/
def IsWords : RangeAnswer → Prop
  | .span start stop => start < wordBound ∧ stop < wordBound
  | .exhausted => True

/-- How answers are written and read: the bounds of a span are the members of an object inside. -/
def codec : Codec RangeAnswer where
  json := json
  decode := decode
  frame members := .object [(some "Span", .object members .closed)] .closed

/-- The record of the bounds of a span. -/
def bounds : Record BoundsDraft RangeAnswer :=
  boundsRecord "struct variant RangeSpec::Span" "u64" .span

/-- The object of a span's name and bounds is read as the bounds are. -/
theorem decode_span (contents : Document) :
    decode (.object [(some "Span", contents)] .closed) = contents.record .direct bounds := by
  rw [decode, Document.variant, if_neg (by simp)]
  exact bind_pure (contents.record .direct bounds)

theorem decode_cases {d : Document} {r : RangeAnswer} (read : decode d = .ok r) :
    r = .exhausted ∨ ∃ contents, d = .object [(some "Span", contents)] .closed ∧
      contents.record .direct bounds = .ok r := by
  unfold decode at read
  rcases Json.variant_cases read with ⟨name, rfl, named⟩ | ⟨name, contents, rfl, named⟩
  · split at named
    · cases named
    · cases named
      exact .inl rfl
    · cases named
  · split at named
    · exact .inr ⟨contents, rfl, named⟩
    · obtain ⟨_, -, named⟩ := of_bind_eq_ok named
      cases named
      exact .inl rfl
    · cases named

theorem lawful : codec.Lawful IsWords fun _ => True where
  plain {r} words := by
    cases r with
    | span start stop => exact .object (List.forall_mem_singleton.mpr (plain_bounds words))
    | exhausted => exact .text _
  back {r} _ := by
    cases r <;> rfl
  perm {r members more} perm _ read := by
    have inside := (decode_span _).symm.trans read
    exact (decode_span _).trans
      (Json.record_members_imp ((BoundsDraft.slotted "u64").foldMembers_perm perm) inside)
  movable _ _ _ _ := trivial
  fits {d r} ranged read _ := by
    rcases decode_cases read with rfl | ⟨contents, rfl, inside⟩
    · trivial
    · obtain ⟨first, last, rfl, words⟩ :=
        bounds_areWords (fun n has => ranged n (.member List.mem_cons_self has)) inside
      exact words

end RangeAnswer

/-! ## Settings -/

namespace ListenerSettings

/-- The slots of a draft of settings. -/
def slots : List (Slot Draft) :=
  [⟨["broker_url", "amqp_url"], (·.string), Draft.brokerUrl⟩,
    ⟨["exchange"], (·.string), Draft.exchange⟩, ⟨["queue_name"], (·.string), Draft.queueName⟩,
    ⟨["range_start"], (·.word "usize"), Draft.firstProcessor⟩,
    ⟨["range_end"], (·.word "usize"), Draft.lastProcessor⟩,
    ⟨["num_cpus_cluster"], (·.word "usize"), Draft.clusterSize⟩]

theorem slotted : Slotted Draft.put slots (fun _ => ()) skipping where
  ext {d e} same _ := by
    cases d; cases e
    simpa [slots] using same
  fills {d e key value} put := by
    unfold Draft.put at put
    split at put
    case h_8 =>
      obtain ⟨_, skipped, put⟩ := of_bind_eq_ok put
      cases put
      simp_all [slots, skipping]
    all_goals
      obtain ⟨empty, a, decoded, rfl⟩ := fill_bind_eq_ok_iff.mp put
      simp [slots, empty, decoded]
  goes {d key value} known unknown := by
    unfold Draft.put
    split
    case h_8 =>
      obtain ⟨_, skipped⟩ := unknown (by simp_all [slots])
      exact ⟨d, by rw [show value.skip = .ok () from skipped]; rfl⟩
    all_goals
      obtain ⟨empty, a, decoded⟩ := by simpa [slots] using known
      exact ⟨_, fill_bind_eq_ok_iff.mpr ⟨empty, a, decoded, rfl⟩⟩

/-- Settings whose numbers are machine words. -/
structure IsWords (c : ListenerSettings) : Prop where
  firstProcessor : c.firstProcessor < wordBound
  lastProcessor : c.lastProcessor < wordBound
  clusterSize : c.clusterSize < wordBound

theorem areWords {d : Document} (ranged : d.Ranged) {c : ListenerSettings}
    (read : d.record .direct record = .ok c) : c.IsWords := by
  rcases Json.record_cases read with ⟨members, draft, rfl, folded, closes⟩ |
    ⟨items, stop, after, rfl, taken⟩
  · obtain ⟨brokerUrl, -, closes⟩ := of_bind_eq_ok closes
    obtain ⟨queueName, -, closes⟩ := of_bind_eq_ok closes
    obtain ⟨firstProcessor, first, closes⟩ := of_bind_eq_ok closes
    obtain ⟨lastProcessor, last, closes⟩ := of_bind_eq_ok closes
    obtain ⟨clusterSize, size, closes⟩ := of_bind_eq_ok closes
    cases closes
    have ranged : ∀ member ∈ members, member.2.Ranged :=
      fun member listed n has => ranged n (.member listed has)
    have listed : ∀ s ∈ slots.drop 3, s ∈ slots := fun s => List.mem_of_mem_drop
    obtain ⟨_, inside, first⟩ := slotted.read_of_held ranged folded
      (listed _ List.mem_cons_self) rfl (Json.require_eq_ok first)
    obtain ⟨_, inside', last⟩ := slotted.read_of_held ranged folded
      (listed _ (.tail _ List.mem_cons_self)) rfl (Json.require_eq_ok last)
    obtain ⟨_, inside'', size⟩ := slotted.read_of_held ranged folded
      (listed _ (.tail _ (.tail _ List.mem_cons_self))) rfl (Json.require_eq_ok size)
    exact ⟨word_lt inside first, word_lt inside' last, word_lt inside'' size⟩
  · have items : Row.Ranged { items, stop } := fun item listed n has => ranged n (.item listed has)
    obtain ⟨⟨brokerUrl, rest⟩, next, taken⟩ := of_bind_eq_ok taken
    obtain ⟨items, -⟩ := items.next next
    obtain ⟨⟨exchange, rest⟩, next, taken⟩ := of_bind_eq_ok taken
    replace items := items.nextOr next
    obtain ⟨⟨queueName, rest⟩, next, taken⟩ := of_bind_eq_ok taken
    obtain ⟨items, -⟩ := items.next next
    obtain ⟨⟨firstProcessor, rest⟩, next, taken⟩ := of_bind_eq_ok taken
    obtain ⟨items, _, inside, first⟩ := items.next next
    obtain ⟨⟨lastProcessor, rest⟩, next, taken⟩ := of_bind_eq_ok taken
    obtain ⟨items, _, inside', last⟩ := items.next next
    obtain ⟨⟨clusterSize, rest⟩, next, taken⟩ := of_bind_eq_ok taken
    obtain ⟨-, _, inside'', size⟩ := items.next next
    cases taken
    exact ⟨word_lt inside first, word_lt inside' last, word_lt inside'' size⟩

/-- How settings are written and read. -/
def codec : Codec ListenerSettings where
  json := json
  decode := decode

theorem lawful : codec.Lawful IsWords fun _ => True where
  plain words := by
    refine .object ?_
    simp only [List.forall_mem_cons]
    exact ⟨.text _, .text _, .text _, .nat words.firstProcessor, .nat words.lastProcessor,
      .nat words.clusterSize, nofun⟩
  back _ := rfl
  perm perm _ read := Json.record_members_imp (slotted.foldMembers_perm perm)
    (show Document.record .direct record _ = .ok _ from read)
  movable _ _ _ _ := trivial
  fits ranged read _ := areWords ranged read

end ListenerSettings

/-! ## Names and statuses of calls -/

theorem plain_bool (b : Bool) : (Json.bool b).Plain :=
  (Json.Proper.bool b).plain fun _ inside => by cases inside

namespace CallName

/-- The slots of a draft of a name. -/
def slots : List (Slot Draft) :=
  [⟨["executor_id"], (·.string), Draft.executorId⟩, ⟨["job_id"], (·.string), Draft.jobId⟩,
    ⟨["call_id"], (·.string), Draft.callId⟩]

theorem slotted : Slotted Draft.put slots (fun _ => ()) skipping where
  ext {d e} same _ := by
    cases d; cases e
    simpa [slots] using same
  fills {d e key value} put := by
    unfold Draft.put at put
    split at put
    case h_4 =>
      obtain ⟨_, skipped, put⟩ := of_bind_eq_ok put
      cases put
      simp_all [slots, skipping]
    all_goals
      obtain ⟨empty, a, decoded, rfl⟩ := fill_bind_eq_ok_iff.mp put
      simp [slots, empty, decoded]
  goes {d key value} known unknown := by
    unfold Draft.put
    split
    case h_4 =>
      obtain ⟨_, skipped⟩ := unknown (by simp_all [slots])
      exact ⟨d, by rw [show value.skip = .ok () from skipped]; rfl⟩
    all_goals
      obtain ⟨empty, a, decoded⟩ := by simpa [slots] using known
      exact ⟨_, fill_bind_eq_ok_iff.mpr ⟨empty, a, decoded, rfl⟩⟩

theorem plain_json (k : CallName) : k.json.Plain := by
  refine .object ?_
  simp only [List.forall_mem_cons]
  exact ⟨.text _, .text _, .text _, nofun⟩

/-- How names are written and read. -/
def codec : Codec CallName where
  json := json
  decode := decode .direct

theorem lawful : codec.Lawful (fun _ => True) fun _ => True where
  plain {k} _ := k.plain_json
  back _ := rfl
  perm perm _ read := Json.record_members_imp (slotted.foldMembers_perm perm)
    (show Document.record .direct record _ = .ok _ from read)
  movable _ _ _ _ := trivial
  fits _ _ _ := trivial

end CallName

namespace StatusRecord

/-- The slots of a draft of a status. -/
def slots : List (Slot Draft) :=
  [⟨["success"], (·.boolean), Draft.success⟩,
    ⟨["error"], (·.optional (·.string)), Draft.error⟩,
    ⟨["activation_id"], (·.optional (·.string)), Draft.activationId⟩]

theorem slotted : Slotted Draft.put slots (fun _ => ()) skipping where
  ext {d e} same _ := by
    cases d; cases e
    simpa [slots] using same
  fills {d e key value} put := by
    unfold Draft.put at put
    split at put
    case h_4 =>
      obtain ⟨_, skipped, put⟩ := of_bind_eq_ok put
      cases put
      simp_all [slots, skipping]
    all_goals
      obtain ⟨empty, a, decoded, rfl⟩ := fill_bind_eq_ok_iff.mp put
      simp [slots, empty, decoded]
  goes {d key value} known unknown := by
    unfold Draft.put
    split
    case h_4 =>
      obtain ⟨_, skipped⟩ := unknown (by simp_all [slots])
      exact ⟨d, by rw [show value.skip = .ok () from skipped]; rfl⟩
    all_goals
      obtain ⟨empty, a, decoded⟩ := by simpa [slots, -Bool.exists_bool] using known
      exact ⟨_, fill_bind_eq_ok_iff.mpr ⟨empty, a, decoded, rfl⟩⟩

/-- How statuses are written and read. -/
def codec : Codec StatusRecord where
  json := json
  decode := decode .direct

theorem lawful : codec.Lawful (fun _ => True) fun _ => True where
  plain {s} _ := .object (List.forall_mem_append.mpr ⟨List.forall_mem_append.mpr
    ⟨List.forall_mem_singleton.mpr (plain_bool _), Json.plain_optionalMember _ _⟩,
    Json.plain_optionalMember _ _⟩)
  back {s} _ := by
    obtain ⟨success, error, activationId⟩ := s
    cases error <;> cases activationId <;> rfl
  perm perm _ read := Json.record_members_imp (slotted.foldMembers_perm perm)
    (show Document.record .direct record _ = .ok _ from read)
  movable _ _ _ _ := trivial
  fits _ _ _ := trivial

end StatusRecord

/-! ## Outputs of calls -/

namespace OutputRecord

/-- An output as its type has it, without floating-point numbers and nesting no deeper than a reader
goes. -/
def Fits : OutputRecord → Prop
  | .value v => v.Proper ∧ v.FloatFree ∧ (OutputRecord.value v).json.nesting ≤ Json.maxDepth
  | .calls _ => True

/-- Data can be moved if it is a value, which nests less deep as the output is an object. -/
def Movable (member : Option String × Document) : Prop :=
  member.1 = some "data" → ∃ v, member.2.value (Json.maxDepth - 1) = .ok v

/-- How outputs are written and read. -/
def codec : Codec OutputRecord where
  json := json
  decode := decode .direct

theorem nesting_lt {v : Json} (shallow : (OutputRecord.value v).json.nesting ≤ Json.maxDepth) :
    v.nesting ≤ Json.maxDepth - 1 := by
  simp only [json, Json.nesting, Json.nestingMembers] at shallow
  omega

theorem decodeItems_names (keys : List CallName) :
    Json.decodeItems (CallName.decode .direct) (documents (keys.map CallName.json)) = .ok keys := by
  induction keys with
  | nil => rfl
  | cons key rest ih =>
    rw [List.map_cons, documents, Json.decodeItems, ih]
    rfl

/-- The names of calls are values that nest one deep. -/
theorem valueItems_names (depth : Nat) (keys : List CallName) :
    ∃ values, Json.valueItems (depth + 1) (documents (keys.map CallName.json)) = .ok values := by
  induction keys with
  | nil => exact ⟨[], rfl⟩
  | cons key rest ih =>
    obtain ⟨values, read⟩ := ih
    obtain ⟨value, here⟩ : ∃ value, key.json.document.value (depth + 1) = .ok value := ⟨_, rfl⟩
    refine ⟨value :: values, ?_⟩
    rw [List.map_cons, documents, Json.valueItems, here, read]
    rfl

/-- Data of a known kind is the same output wherever it comes from. -/
theorem output_origin {origin origin' : Origin} {kind : Kind} {data : Document} {o : OutputRecord}
    (read : kind.output origin data = .ok o) : kind.output origin' data = .ok o := by
  cases kind with
  | value => exact read
  | futures =>
    obtain ⟨keys, list, read⟩ := of_bind_eq_ok read
    have list' : data.list (CallName.decode origin') = .ok keys :=
      Json.list_imp (fun _ _ => Json.record_origin) list
    rw [Kind.output, list']
    exact read

theorem value_of_output {origin : Origin} {kind : Kind} {data : Document} {v : Json}
    (ranged : data.Ranged) (read : kind.output origin data = .ok (.value v)) :
    v.Proper ∧ v.nesting ≤ Json.maxDepth - 1 := by
  cases kind with
  | value =>
    obtain ⟨w, value, read⟩ := of_bind_eq_ok read
    cases read
    exact Json.value_sound value ranged
  | futures =>
    obtain ⟨_, -, read⟩ := of_bind_eq_ok read
    cases read

/-- What putting a member into a draft of an output does. -/
inductive Puts (origin : Origin) : Draft → String → Document → Draft → Prop where
  | kind {value : Document} {k : Kind} : Kind.decode origin value = .ok k →
      Puts origin .empty "kind" value (.kind k)
  | kindOf {held value : Document} {k : Kind} {o : OutputRecord} :
      Kind.decode origin value = .ok k → k.output .setAside held = .ok o →
      Puts origin (.data held) "kind" value (.both o)
  | data {value : Document} {v : Json} : value.value (Json.maxDepth - 1) = .ok v →
      Puts origin .empty "data" value (.data value)
  | dataOf {value : Document} {k : Kind} {o : OutputRecord} : k.output origin value = .ok o →
      Puts origin (.kind k) "data" value (.both o)
  | other {d : Draft} {key : String} {value : Document} : key ≠ "kind" → key ≠ "data" →
      value.skip = .ok () → Puts origin d key value d

theorem put_eq_ok_iff {origin : Origin} {d e : Draft} {key : String} {value : Document} :
    d.put origin key value = .ok e ↔ Puts origin d key value e := by
  constructor
  · intro put
    unfold Draft.put at put
    split at put
    · obtain ⟨k, read, put⟩ := of_bind_eq_ok put
      cases put
      exact .kind read
    · obtain ⟨k, read, put⟩ := of_bind_eq_ok put
      obtain ⟨o, output, put⟩ := of_bind_eq_ok put
      cases put
      exact .kindOf read output
    · cases put
    · obtain ⟨v, read, put⟩ := of_bind_eq_ok put
      cases put
      exact .data read
    · obtain ⟨o, output, put⟩ := of_bind_eq_ok put
      cases put
      exact .dataOf output
    · cases put
    · obtain ⟨_, skipped, put⟩ := of_bind_eq_ok put
      cases put
      refine .other ?_ ?_ skipped <;> rintro rfl <;> cases d <;> simp_all
  · intro puts
    cases puts with
    | kind read =>
      rw [Draft.put, read]
      rfl
    | kindOf read output =>
      rw [Draft.put, read]
      exact congrArg (Draft.both <$> ·) output
    | data read =>
      rw [Draft.put, read]
      rfl
    | dataOf output =>
      rw [Draft.put, output]
      rfl
    | other notKind notData skipped =>
      unfold Draft.put
      split <;> first | exact absurd rfl notKind | exact absurd rfl notData | skip
      rw [skipped]
      rfl

/-- Two members may change places: of two kinds or two sets of data the second is refused, a member
nobody asks for changes nothing, and data is set aside until its kind comes. -/
theorem swap {d e : Draft} {first second : Option String × Document} (here : Movable first)
    (there : Movable second) (folded : foldMembers (Draft.put .direct) d [first, second] = .ok e) :
    foldMembers (Draft.put .direct) d [second, first] = .ok e := by
  obtain ⟨key | key, value⟩ := first
  · cases folded
  obtain ⟨m, one, folded⟩ := of_bind_eq_ok folded
  obtain ⟨key' | key', value'⟩ := second
  · cases folded
  obtain ⟨n, two, folded⟩ := of_bind_eq_ok folded
  cases folded
  suffices swapped : ∃ m', Puts .direct d key' value' m' ∧ Puts .direct m' key value e by
    obtain ⟨m', one, two⟩ := swapped
    rw [foldMembers, put_eq_ok_iff.mpr one]
    change foldMembers (Draft.put .direct) m' [(some key, value)] = .ok e
    rw [foldMembers, put_eq_ok_iff.mpr two]
    rfl
  have puts := put_eq_ok_iff.mp one
  have puts' := put_eq_ok_iff.mp two
  cases puts with
  | other notKind notData skipped => exact ⟨_, puts', .other notKind notData skipped⟩
  | kind read =>
    cases puts' with
    | dataOf output =>
      obtain ⟨v, value⟩ := there rfl
      exact ⟨_, .data value, .kindOf read (output_origin output)⟩
    | other notKind notData skipped => exact ⟨_, .other notKind notData skipped, .kind read⟩
  | data value =>
    cases puts' with
    | kindOf read output => exact ⟨_, .kind read, .dataOf (output_origin output)⟩
    | other notKind notData skipped => exact ⟨_, .other notKind notData skipped, .data value⟩
  | kindOf read output =>
    cases puts' with
    | other notKind notData skipped =>
      exact ⟨_, .other notKind notData skipped, .kindOf read output⟩
  | dataOf output =>
    cases puts' with
    | other notKind notData skipped => exact ⟨_, .other notKind notData skipped, .dataOf output⟩

/-- A draft whose data has numbers in range, or whose value is as its type has it. -/
def Draft.Sound : Draft → Prop
  | .data held => held.Ranged
  | .both (.value v) => v.Proper ∧ v.nesting ≤ Json.maxDepth - 1
  | _ => True

theorem Draft.Sound.put {d e : Draft} (sound : d.Sound) {key : String} {value : Document}
    (ranged : value.Ranged) (puts : Puts .direct d key value e) : e.Sound := by
  have both {origin : Origin} {k : Kind} {data : Document} {o : OutputRecord} (inside : data.Ranged)
      (output : k.output origin data = .ok o) : (Draft.both o).Sound := by
    cases o with
    | value v => exact value_of_output inside output
    | calls => trivial
  cases puts with
  | kind => trivial
  | kindOf _ output => exact both sound output
  | data => exact ranged
  | dataOf output => exact both ranged output
  | other => exact sound

theorem Draft.Sound.foldMembers {d e : Draft} (sound : d.Sound)
    {members : List (Option String × Document)} (ranged : ∀ member ∈ members, member.2.Ranged)
    (folded : Json.foldMembers (Draft.put .direct) d members = .ok e) : e.Sound := by
  induction members generalizing d with
  | nil =>
    cases folded
    exact sound
  | cons member rest ih =>
    obtain ⟨key | key, value⟩ := member
    · cases folded
    · obtain ⟨here, there⟩ := List.forall_mem_cons.mp ranged
      obtain ⟨m, first, folded⟩ := of_bind_eq_ok folded
      exact ih (sound.put here (put_eq_ok_iff.mp first)) there folded

/-- A value that is read as an output is as its type has it, and nests no deeper than a reader
goes. -/
theorem sound_of_decode {d : Document} (ranged : d.Ranged) {v : Json}
    (read : d.record .direct (record .direct) = .ok (.value v)) :
    v.Proper ∧ v.nesting ≤ Json.maxDepth - 1 := by
  rcases Json.record_cases read with ⟨members, draft, rfl, folded, closes⟩ |
    ⟨items, stop, after, rfl, taken⟩
  · have sound := Draft.Sound.foldMembers (show Draft.Sound .empty from trivial)
      (fun member listed n has => ranged n (.member listed has)) folded
    cases draft with
    | both o =>
      cases closes
      exact sound
    | empty | kind | data => cases closes
  · have items : Row.Ranged { items, stop } := fun item listed n has => ranged n (.item listed has)
    obtain ⟨⟨kind, rest⟩, one, taken⟩ := of_bind_eq_ok taken
    obtain ⟨left, -⟩ := items.next one
    obtain ⟨-, data, inside, output⟩ := left.next taken
    exact value_of_output inside output

/-- An output whose kind comes first is read as its data is. -/
theorem decode_of_output {name : String} {kind : Kind} {data : Document} {o : OutputRecord}
    (named : Kind.decode .direct (.text name) = .ok kind)
    (output : kind.output .direct data = .ok o) :
    decode .direct (.object [(some "kind", .text name), (some "data", data)] .closed) = .ok o := by
  have folded : Json.foldMembers (Draft.put .direct) .empty
      [(some "kind", .text name), (some "data", data)] = .ok (.both o) := by
    rw [Json.foldMembers, put_eq_ok_iff.mpr (.kind named)]
    change Json.foldMembers (Draft.put .direct) (.kind kind) [(some "data", data)] = .ok (.both o)
    rw [Json.foldMembers, put_eq_ok_iff.mpr (.dataOf output)]
    rfl
  rw [decode, Document.record,
    show Json.foldMembers (record .direct).put (record .direct).draft _ = _ from folded]
  rfl

theorem lawful : codec.Lawful Fits Movable where
  plain {o} fits := by
    have kind (name : String) : (Json.text name).Plain := .text name
    cases o with
    | value v =>
      obtain ⟨proper, floatFree, -⟩ := fits
      exact .object (List.forall_mem_cons.mpr
        ⟨kind _, List.forall_mem_singleton.mpr (proper.plain floatFree)⟩)
    | calls keys =>
      refine .object (List.forall_mem_cons.mpr
        ⟨kind _, List.forall_mem_singleton.mpr (.array fun item listed => ?_)⟩)
      obtain ⟨key, -, rfl⟩ := List.mem_map.mp listed
      exact key.plain_json
  back {o} fits := by
    cases o with
    | value v =>
      obtain ⟨proper, -, shallow⟩ := fits
      have read := Json.value_document v proper (nesting_lt shallow)
      exact decode_of_output rfl (by rw [Kind.output, read]; rfl)
    | calls keys =>
      have read : (Json.array (keys.map CallName.json)).document.list (CallName.decode .direct) =
          .ok keys := by
        rw [Json.document, Document.list, decodeItems_names]
        rfl
      exact decode_of_output rfl (by rw [Kind.output, read]; rfl)
  perm perm movable read := Json.record_members_imp
    (Json.foldMembers_perm_of_swap swap perm movable)
    (show Document.record .direct (record .direct) _ = .ok _ from read)
  movable {o members} fits own member listed named := by
    cases o with
    | value v =>
      cases own
      obtain ⟨proper, -, shallow⟩ := fits
      rcases List.mem_cons.mp listed with rfl | listed
      · exact absurd (Option.some.inj named) (by decide)
      · obtain rfl := List.mem_singleton.mp listed
        exact ⟨v, Json.value_document v proper (nesting_lt shallow)⟩
    | calls keys =>
      cases own
      rcases List.mem_cons.mp listed with rfl | listed
      · exact absurd (Option.some.inj named) (by decide)
      · obtain rfl := List.mem_singleton.mp listed
        obtain ⟨values, read⟩ := valueItems_names 124 keys
        refine ⟨.array values, ?_⟩
        change (Document.array (documents (keys.map CallName.json)) .closed).value (125 + 1) = _
        rw [Document.value, read]
        rfl
  fits {d o} ranged read floatFree := by
    cases o with
    | value v =>
      obtain ⟨proper, shallow⟩ := sound_of_decode ranged read
      refine ⟨proper, fun bits inside => floatFree bits ?_, ?_⟩
      · exact .member (.tail _ List.mem_cons_self) inside
      · have kind : (Json.text "value").nesting = 0 := rfl
        have deep : Json.maxDepth - 1 + 1 = Json.maxDepth := rfl
        simp only [json, Json.nesting, Json.nestingMembers]
        omega
    | calls => trivial

end OutputRecord

/-! ## Byte ranges and ends of invocations -/

namespace ByteSpan

/-- How byte ranges are written and read: as arrays, which have no members. -/
def codec : Codec ByteSpan where
  json := json
  decode := decode

theorem lawful : codec.Lawful IsWords fun _ => True where
  plain words := words.plain
  back _ := rfl
  perm _ _ read := by cases read
  movable _ _ _ _ := trivial
  fits ranged read _ := Payload.byteRange_isWords ranged read

end ByteSpan

namespace InvocationEnd

theorem only_member {members : List (Option String × Document)} {e : InvocationEnd}
    (read : decode (.object members .closed) = .ok e) : ∃ member, members = [member] := by
  unfold decode at read
  rcases Json.variant_cases read with ⟨name, none, -⟩ | ⟨name, contents, one, -⟩
  · cases none
  · cases one
    exact ⟨_, rfl⟩

/-- How ends of invocations are written and read: as names, or as objects with one member. -/
def codec : Codec InvocationEnd where
  json := json
  decode := decode

theorem lawful : codec.Lawful (fun _ => True) fun _ => True where
  plain {e} _ := by
    cases e <;> exact .text _
  back {e} _ := by
    cases e <;> rfl
  perm {e members more} perm _ read := by
    obtain ⟨member, rfl⟩ := only_member read
    rwa [List.perm_singleton.mp perm.symm]
  movable _ _ _ _ := trivial
  fits _ _ _ := trivial

end InvocationEnd

/-! ## All of them -/

/-- Ranges of calls, runs of processors, settings of pods, names, statuses and outputs of calls,
byte ranges and ends of invocations are read back from their own text, whatever the order of their
members, if their numbers are machine words and a value among them has no floating-point numbers and
nests no deeper than a reader goes. In a text that anybody has written the members may change
places, the data of an output as far as it is a value. And whatever record is read from a text is
read back from the text it is written as, if it has no floating-point numbers. -/
theorem records_round_trip :
    RangeAnswer.codec.RoundTrips RangeAnswer.IsWords (fun _ => True) ∧
      ProcessorRun.codec.RoundTrips ProcessorRun.IsWords (fun _ => True) ∧
      ListenerSettings.codec.RoundTrips ListenerSettings.IsWords (fun _ => True) ∧
      CallName.codec.RoundTrips (fun _ => True) (fun _ => True) ∧
      StatusRecord.codec.RoundTrips (fun _ => True) (fun _ => True) ∧
      OutputRecord.codec.RoundTrips OutputRecord.Fits OutputRecord.Movable ∧
      ByteSpan.codec.RoundTrips ByteSpan.IsWords (fun _ => True) ∧
      InvocationEnd.codec.RoundTrips (fun _ => True) (fun _ => True) :=
  ⟨RangeAnswer.lawful.roundTrips, ProcessorRun.lawful.roundTrips,
    ListenerSettings.lawful.roundTrips, CallName.lawful.roundTrips,
    StatusRecord.lawful.roundTrips, OutputRecord.lawful.roundTrips, ByteSpan.lawful.roundTrips,
    InvocationEnd.lawful.roundTrips⟩

namespace OutputRecord

/-- Two calls that a call has dispatched, and their names before the kind of output they are. -/
def dispatchedTwo : OutputRecord := .calls [⟨"e", "j", "0"⟩, ⟨"e", "j", "1"⟩]

def dataFirst : Json :=
  .object [("data", .array ([⟨"e", "j", "0"⟩, ⟨"e", "j", "1"⟩].map CallName.json)),
    ("kind", .text "futures")]

theorem records_round_trip_data_first : dispatchedTwo.Fits ∧
    codec.parse (codec.text dispatchedTwo) = .ok dispatchedTwo ∧
    codec.parse (dataFirst.render.map .char) = .ok dispatchedTwo := by
  obtain ⟨-, -, -, -, -, outputs, -, -⟩ := records_round_trip
  have plain : dataFirst.Plain := by
    refine .object (List.forall_mem_cons.mpr
      ⟨.array fun item listed => ?_, List.forall_mem_singleton.mpr (.text _)⟩)
    obtain ⟨key, -, rfl⟩ := List.mem_map.mp listed
    exact key.plain_json
  refine ⟨trivial, outputs.back _ trivial, ?_⟩
  exact outputs.anyOrder dispatchedTwo _ _ _ trivial rfl (List.Perm.swap _ _ [])
    ⟨[], Json.read_render plain, rfl⟩

end OutputRecord

end CallDispatch
