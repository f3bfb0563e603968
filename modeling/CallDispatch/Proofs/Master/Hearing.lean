import CallDispatch.Master.Link
import CallDispatch.Proofs.Master.Grants
import CallDispatch.Proofs.RangeTexts
import CallDispatch.Proofs.Web.Origins
import CallDispatch.Proofs.Web.Segments

/-!
# What a master hears

A request for a range travels as a path, and the master takes the job key out of the path again. It
hears the key without its tabs and line ends. A key that is one dot or two is not in the path at
all; a key that is left with two dots takes the name of the service with it, and one that is left
with one dot is heard as the empty key. All other keys are heard as they are.
-/

namespace CallDispatch

namespace Master

open Text.Decimal (ofNat wordBound)
open Web (stripped written segmentsText)

/-- The job key a master hears, if the request reaches it. -/
def heard? (key : List Char) : Option (List Char) :=
  if key = ['.'] ∨ key = ['.', '.'] ∨ stripped key = ['.', '.'] then none
  else if stripped key = ['.'] then some []
  else some (stripped key)

/-- Whether a job key is heard as it is. -/
def IsWhole (key : List Char) : Prop :=
  (∀ c ∈ key, Web.Url.isDropped c = false) ∧ key ≠ ['.'] ∧ key ≠ ['.', '.']

theorem heard?_of_isWhole {key : List Char} (whole : IsWhole key) : heard? key = some key := by
  obtain ⟨clean, single, double⟩ := whole
  have same : stripped key = key := List.filter_eq_self.mpr fun c listed => by simp [clean c listed]
  simp [heard?, same, single, double]

/-- Only keys that are heard as they are have no other key that sounds the same. -/
theorem heard?_eq_self_iff {key : List Char} : heard? key = some key ↔ IsWhole key := by
  constructor
  · intro same
    unfold heard? at same
    split at same
    · cases same
    · next kept =>
      simp only [not_or] at kept
      split at same
      · next dot =>
        have empty : key = [] := (Option.some.inj same).symm
        rw [empty] at dot
        cases dot
      · have clean := List.filter_eq_self.mp (Option.some.inj same)
        exact ⟨fun c listed => by simpa using clean c listed, kept.1, kept.2.1⟩
  · exact heard?_of_isWhole

/-! ## The path of a request -/

/-- The segments of a request for a range. -/
def requestPath (key : List Char) (total chunk : Nat) : List (List Char) :=
  match heard? key with
  | some heard => ["get-range".toList, written heard, ofNat total, ofNat chunk]
  | none =>
    if key = ['.'] ∨ key = ['.', '.'] then ["get-range".toList, ofNat total, ofNat chunk]
    else [ofNat total, ofNat chunk]

/-- What the path of a request is made of. -/
theorem appended_path (key : List Char) (total chunk : Nat) :
    ["get-range".toList, key, ofNat total, ofNat chunk].foldl (Web.Url.appendSegment true) [[]] =
      requestPath key total chunk := by
  have first : Web.Url.appendSegment true [[]] "get-range".toList = ["get-range".toList] := by
    decide
  simp only [List.foldl_cons, List.foldl_nil, first, Web.appendSegment_eq _ key]
  by_cases dots : key = ['.'] ∨ key = ['.', '.']
  · have unheard : heard? key = none := by
      rcases dots with rfl | rfl <;> decide
    simp [requestPath, unheard, dots, Web.appendSegment_numeral]
  · by_cases double : stripped key = ['.', '.']
    · have unheard : heard? key = none := by simp [heard?, double]
      simp [requestPath, unheard, dots, double, Web.appendSegment_numeral,
        Text.Decimal.ofNat_ne_nil]
    · by_cases single : stripped key = ['.']
      · have heard : heard? key = some [] := by
          rw [heard?, if_neg (by tauto), if_pos single]
        have nothing : written [] = [] := rfl
        simp [requestPath, heard, dots, single, nothing, Web.appendSegment_numeral]
      · have heard : heard? key = some (stripped key) := by
          rw [heard?, if_neg (by tauto), if_neg single]
        simp [requestPath, heard, dots, double, single, Web.appendSegment_numeral]

/-- A request to a master whose address can be read has that path. -/
theorem pathText_requestUrl {o : Web.Origin} {address : Web.Url}
    (readable : Web.Url.read o.text = .ok address) (key : String) (total chunk : Nat) :
    (requestUrl o.text key total chunk).map Web.Url.pathText =
      .ok (segmentsText (requestPath key.toList total chunk)) := by
  rw [Web.Origin.read_text] at readable
  cases place : Web.readAuthority o.scheme o.readPlace with
  | error fault =>
    rw [place] at readable
    cases readable
  | ok a =>
    have extended : ({
        scheme := o.scheme, authority := some a, path := .segments [[]] } : Web.Url).extend?
          ["get-range", key, Text.Decimal.text total, Text.Decimal.text chunk] =
        some {
          scheme := o.scheme, authority := some a
          path := .segments (requestPath key.toList total chunk) } := by
      rw [← appended_path, ← o.isWellKnown_scheme]
      simp [Web.Url.extend?, Web.Url.base?, Text.Decimal.text]
    rw [requestUrl, Web.Origin.read_text, place]
    simp only [Except.map, extended]
    rfl

/-! ## The way back -/

theorem all_of_not_mem {s : List Char} (none : '/' ∉ s) : s.all (!(· == '/') ·) = true := by
  simp only [List.all_eq_true, Bool.not_eq_true', beq_eq_false_iff_ne]
  rintro c listed rfl
  exact none listed

/-- A path is cut into its segments. -/
theorem splitAt_segmentsText (segments : List (List Char)) (none : ∀ s ∈ segments, '/' ∉ s) :
    Text.splitAt '/' (segmentsText segments) = [] :: segments := by
  have behind : ∀ segment, '/' ∉ segment →
      Text.splitAt '/' (segment ++ segmentsText segments) = segment :: segments := by
    induction segments with
    | nil =>
      intro segment bare
      rw [segmentsText, List.flatMap_nil, List.append_nil]
      exact Text.splitWhere_of_none (all_of_not_mem bare)
    | cons s rest ih =>
      intro segment bare
      have later := ih (fun t listed => none t (List.mem_cons_of_mem s listed)) s
        (none s List.mem_cons_self)
      refine (Text.splitWhere_append_cons (all_of_not_mem bare) rfl _).trans ?_
      exact congrArg _ later
  exact behind [] (by simp)

/-- Whether a segment stands for a text. -/
theorem segmentText_written (name : String) (s : List Char) :
    segmentText name (written s) = .ok s := by
  rw [segmentText, Web.decode_written, Text.Utf8.decode_encode, Text.Utf8.characters?_map_char]

theorem segmentText_numeral (name : String) (n : Nat) :
    segmentText name (ofNat n) = .ok (ofNat n) := by
  rw [← Web.written_numeral]
  exact (segmentText_written name _).trans (by rw [Web.written_numeral])

/-- The numbers of a request are read back. -/
theorem readRange_written (heard : List Char) {total chunk : Nat} (total' : total < wordBound)
    (chunk' : chunk < wordBound) : readRange (written heard) (ofNat total) (ofNat chunk) =
      .ok (String.ofList heard, total, chunk) := by
  rw [readRange, segmentText_written, segmentText_numeral, segmentText_numeral]
  simp only [bind, Except.bind, segmentNumber, Text.Decimal.readWord_ofNat total',
    Text.Decimal.readWord_ofNat chunk']
  rfl

/-! ## Answers -/

/-- The answer of an allocator as it is read: every error has become a refusal. -/
def overWeb : Outcome RangeAnswer → Outcome RangeAnswer
  | .ok range => .ok range
  | .error _ => .error (.http (some 400) false)

/-- What a request for a range comes to: that of the key the master hears, or an error if it does
not reach the master. -/
def hear (a : Allocator) (r : RangeRequest) : Outcome RangeAnswer × Allocator :=
  match heard? r.jobKey.toList with
  | none => (.error (.http (some 404) false), a)
  | some heard =>
    let (answer, a) := a.request (String.ofList heard) r.total r.chunk
    (overWeb answer, a)

/-- The text an answer has as its body. -/
def Response.text (r : Response) : String :=
  match r.body with
  | .text s => s
  | .listing _ => ""

/-- What an allocator hands out can be read back. -/
theorem isWritable_of_request {a : Allocator} {key : String} {total chunk : Nat}
    (word : total < wordBound) {range : RangeAnswer} {a' : Allocator}
    (granted : a.request key total chunk = (.ok range, a')) : range.IsWritable := by
  have answer : Allocator.answerAt (a.cursorOf key) total chunk = .ok range := by
    rw [Allocator.request_eq] at granted
    exact (Prod.mk.inj granted).1
  cases range with
  | exhausted => trivial
  | span start stop =>
    obtain ⟨forwards, -, below⟩ := Allocator.answerAt_eq_span answer
    exact ⟨Nat.le_of_lt forwards, Nat.lt_of_le_of_lt below word⟩

theorem slash_not_mem_numeral (n : Nat) : '/' ∉ ofNat n := by
  rw [← Web.written_numeral]
  exact Web.slash_not_mem_written _

/-- The path of a request that reaches the master. -/
theorem route?_of_heard {key heard : List Char} (sounds : heard? key = some heard)
    (total chunk : Nat) : route? (segmentsText (requestPath key total chunk)) =
      some (.range (written heard) (ofNat total) (ofNat chunk)) := by
  have cut := splitAt_segmentsText
    ["get-range".toList, written heard, ofNat total, ofNat chunk] (by
      simp only [List.mem_cons, List.not_mem_nil, or_false]
      rintro s (rfl | rfl | rfl | rfl)
      · decide
      · exact Web.slash_not_mem_written heard
      · exact slash_not_mem_numeral total
      · exact slash_not_mem_numeral chunk)
  simp only [requestPath, sounds, route?, cut]
  exact if_pos ⟨trivial, Text.Decimal.ofNat_ne_nil chunk⟩

/-- The path of a request that does not. -/
theorem route?_of_unheard {key : List Char} (unheard : heard? key = none) (total chunk : Nat) :
    route? (segmentsText (requestPath key total chunk)) = none := by
  have other : ofNat total ≠ "api".toList := by
    intro same
    have letter : 'a' ∈ ofNat total := by
      rw [same]
      decide
    exact Text.Decimal.ofNat_all (p := (· ≠ 'a')) (by decide) letter rfl
  simp only [requestPath, unheard]
  split
  · have cut := splitAt_segmentsText ["get-range".toList, ofNat total, ofNat chunk] (by
      simp only [List.mem_cons, List.not_mem_nil, or_false]
      rintro s (rfl | rfl | rfl)
      · decide
      · exact slash_not_mem_numeral total
      · exact slash_not_mem_numeral chunk)
    simp only [route?, cut]
  · have cut := splitAt_segmentsText [ofNat total, ofNat chunk] (by
      simp only [List.mem_cons, List.not_mem_nil, or_false]
      rintro s (rfl | rfl)
      · exact slash_not_mem_numeral total
      · exact slash_not_mem_numeral chunk)
    simp only [route?, cut]
    exact if_neg fun named => other named.1

/-- A request is answered, and the answer read, as that of the key the master hears. -/
theorem respond_requestPath (a : Allocator) (r : RangeRequest) (total : r.total < wordBound)
    (chunk : r.chunk < wordBound) : ∃ response : Response,
      respond a "GET" (segmentsText (requestPath r.jobKey.toList r.total r.chunk)) =
        (response, (hear a r).2) ∧
      readAnswer response.status response.text = (hear a r).1 := by
  cases sounds : heard? r.jobKey.toList with
  | none =>
    rw [respond, route?_of_unheard sounds, hear, sounds]
    exact ⟨_, rfl, rfl⟩
  | some heard =>
    rw [respond, route?_of_heard sounds, hear, sounds]
    simp only [if_true, follow, readRange_written heard total chunk, answerRange]
    cases answer : a.request (String.ofList heard) r.total r.chunk with
    | mk outcome a' =>
      cases outcome with
      | error e => exact ⟨_, rfl, rfl⟩
      | ok range =>
        refine ⟨_, rfl, ?_⟩
        exact RangeAnswer.ofText_text (isWritable_of_request total answer)

/-! ## Runs of requests -/

/-- The allocator of a master after some requests. -/
def afterHearing (a : Allocator) : List RangeRequest → Allocator
  | [] => a
  | r :: rest => afterHearing (hear a r).2 rest

/-- Requests with the answers they are read to get one after the other. -/
def hearings (a : Allocator) : List RangeRequest → List Allocator.Answered
  | [] => []
  | r :: rest => ⟨r, (hear a r).1⟩ :: hearings (hear a r).2 rest

theorem afterHearing_append (a : Allocator) (front back : List RangeRequest) :
    afterHearing a (front ++ back) = afterHearing (afterHearing a front) back := by
  induction front generalizing a with
  | nil => rfl
  | cons r rest ih => exact ih _

theorem hearings_append (a : Allocator) (front back : List RangeRequest) :
    hearings a (front ++ back) = hearings a front ++ hearings (afterHearing a front) back := by
  induction front generalizing a with
  | nil => rfl
  | cons r rest ih => exact congrArg (_ :: ·) (ih _)

theorem length_hearings (a : Allocator) (requests : List RangeRequest) :
    (hearings a requests).length = requests.length := by
  induction requests generalizing a with
  | nil => rfl
  | cons r rest ih => exact congrArg (· + 1) (ih _)

theorem hear_of_isWhole (a : Allocator) {r : RangeRequest} (whole : IsWhole r.jobKey.toList) :
    hear a r = (overWeb (a.reply r), a.after [r]) := by
  rw [hear, heard?_of_isWhole whole]
  simp only [String.ofList_toList]
  rfl

/-- Whatever the keys, the cursors are those of an allocator asked for the keys that are heard. -/
theorem afterHearing_eq (a : Allocator) (requests : List RangeRequest) :
    afterHearing a requests = a.after (requests.filterMap fun r =>
      (heard? r.jobKey.toList).map ({ r with jobKey := String.ofList · })) := by
  induction requests generalizing a with
  | nil => rfl
  | cons r rest ih =>
    rw [afterHearing, ih, hear]
    cases sounds : heard? r.jobKey.toList with
    | none => simp [sounds]
    | some heard =>
      simp only [sounds, Option.map_some, List.filterMap_cons]
      rfl

/-- Where all keys are heard as they are, the answers and the cursors are those of an allocator that
is asked itself. -/
theorem hearings_of_isWhole (a : Allocator) {requests : List RangeRequest}
    (whole : ∀ r ∈ requests, IsWhole r.jobKey.toList) :
    afterHearing a requests = a.after requests ∧
      hearings a requests =
        (a.history requests).map fun e => { e with answer := overWeb e.answer } := by
  induction requests generalizing a with
  | nil => exact ⟨rfl, rfl⟩
  | cons r rest ih =>
    obtain ⟨cursors, answers⟩ := ih (a.after [r]) fun other listed =>
      whole other (List.mem_cons_of_mem r listed)
    simp only [afterHearing, hearings, hear_of_isWhole a (whole r List.mem_cons_self)]
    exact ⟨cursors, congrArg (_ :: ·) answers⟩

/-! ## Links -/

namespace Link

variable {l : Link} {o : Web.Origin} {address : Web.Url}

/-- A link to a master that listens and has no answers laid out asks what the master hears. -/
theorem request_eq_hear (base : l.base = o.text) (readable : Web.Url.read o.text = .ok address)
    (listening : l.listening = true) (service : l.canned = []) {r : RangeRequest}
    (total : r.total < wordBound) (chunk : r.chunk < wordBound) :
    l.request r.jobKey r.total r.chunk =
      ((hear l.allocator r).1,
        { l with
          allocator := (hear l.allocator r).2
          paths := l.paths ++
            [String.ofList (segmentsText (requestPath r.jobKey.toList r.total r.chunk))] }) := by
  obtain ⟨response, responds, reads⟩ := respond_requestPath l.allocator r total chunk
  have path := pathText_requestUrl readable r.jobKey r.total r.chunk
  rw [← base] at path
  rw [Link.request]
  cases url : requestUrl l.base r.jobKey r.total r.chunk with
  | error e =>
    rw [url] at path
    cases path
  | ok sent =>
    rw [url] at path
    have written : sent.pathText = _ := Except.ok.inj path
    simp only [listening, if_true, serve, service, written, responds]
    exact Prod.ext reads rfl

/-- Asked in turn, it gives the answers of all requests as the master hears them. -/
theorem requestAll_eq_hearings (base : l.base = o.text)
    (readable : Web.Url.read o.text = .ok address) (listening : l.listening = true)
    (service : l.canned = []) {requests : List RangeRequest}
    (words : ∀ r ∈ requests, r.total < wordBound ∧ r.chunk < wordBound) :
    (l.requestAll requests).1 = (hearings l.allocator requests).map (·.answer) ∧
      (l.requestAll requests).2.allocator = afterHearing l.allocator requests := by
  induction requests generalizing l with
  | nil => exact ⟨rfl, rfl⟩
  | cons r rest ih =>
    obtain ⟨total, chunk⟩ := words r List.mem_cons_self
    rw [requestAll, request_eq_hear base readable listening service total chunk]
    obtain ⟨answers, cursors⟩ := @ih
      { l with
        allocator := (hear l.allocator r).2
        paths := l.paths ++
          [String.ofList (segmentsText (requestPath r.jobKey.toList r.total r.chunk))] }
      base listening service fun r' listed => words r' (List.mem_cons_of_mem r listed)
    exact ⟨congrArg (_ :: ·) answers, cursors⟩

end Link

end Master

end CallDispatch
