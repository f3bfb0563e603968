import CallDispatch.Proofs.Master.Hearing

/-!
# What a master answers to any path

A path asks for a range if it has the right form, whatever its segments look like: they stand for
texts, and two of these write machine words. Such a request is answered as the allocator answers it,
unless it asks for nothing. No other path moves a cursor, so the answers and the cursors of a master
are those of an allocator that is asked just what was asked in the right form.
-/

namespace CallDispatch

namespace Master

open Text.Decimal (Writes wordBound)
open Web (segmentsText)

/-! ## What a path asks for -/

/-- A segment stands for a text: with its escapes resolved it is the bytes of that text. -/
def StandsFor (segment text : List Char) : Prop :=
  Web.Percent.decode segment = Text.Utf8.encode text

/-- A segment stands for a text that writes a machine word. -/
def StandsForWord (segment : List Char) (n : Nat) : Prop :=
  ∃ text, StandsFor segment text ∧ Writes text n ∧ n < 2 ^ 64

/-- A path asks for a range: under the name of the service stand a job key, a number of calls and a
chunk size, and no more. -/
inductive AsksFor : List Char → RangeRequest → Prop where
  | range {key total chunk : List Char} {r : RangeRequest}
      (bare : '/' ∉ key ∧ '/' ∉ total ∧ '/' ∉ chunk) (job : StandsFor key r.jobKey.toList)
      (calls : StandsForWord total r.total) (size : StandsForWord chunk r.chunk) :
      AsksFor ("/get-range/".toList ++ key ++ '/' :: total ++ '/' :: chunk) r

/-- The path of the listing. -/
def listingPath : List Char := "/api/allocations".toList

theorem segmentText_eq_ok_iff {name : String} {segment s : List Char} :
    segmentText name segment = .ok s ↔ StandsFor segment s := by
  rw [StandsFor, ← Text.Utf8.characters?_eq_some_iff, segmentText]
  cases Text.Utf8.characters? (Text.Utf8.decode (Web.Percent.decode segment)) <;> simp

theorem segmentNumber_eq_ok_iff {position : Nat} {s : List Char} {n : Nat} :
    segmentNumber position s = .ok n ↔ Writes s n ∧ n < 2 ^ 64 := by
  have bound : (2 : Nat) ^ 64 = wordBound := rfl
  rw [bound, ← Text.Decimal.readWord_eq_some_iff, segmentNumber]
  cases Text.Decimal.readWord s <;> simp

/-- The segments of a request are read as what they stand for. -/
theorem readRange_eq_ok_iff {key total chunk : List Char} {jobKey : String} {calls size : Nat} :
    readRange key total chunk = .ok (jobKey, calls, size) ↔
      StandsFor key jobKey.toList ∧ StandsForWord total calls ∧ StandsForWord chunk size := by
  constructor
  · intro read
    obtain ⟨name, job, read⟩ := of_bind_eq_ok read
    obtain ⟨callsText, total_read, read⟩ := of_bind_eq_ok read
    obtain ⟨sizeText, chunk_read, read⟩ := of_bind_eq_ok read
    obtain ⟨n, calls_read, read⟩ := of_bind_eq_ok read
    obtain ⟨m, size_read, read⟩ := of_bind_eq_ok read
    cases read
    rw [String.toList_ofList]
    exact ⟨segmentText_eq_ok_iff.mp job,
      ⟨callsText, segmentText_eq_ok_iff.mp total_read, segmentNumber_eq_ok_iff.mp calls_read⟩,
      ⟨sizeText, segmentText_eq_ok_iff.mp chunk_read, segmentNumber_eq_ok_iff.mp size_read⟩⟩
  · rintro ⟨job, ⟨callsText, total_stands, calls_written⟩, sizeText, chunk_stands, size_written⟩
    rw [readRange, segmentText_eq_ok_iff.mpr job, segmentText_eq_ok_iff.mpr total_stands,
      segmentText_eq_ok_iff.mpr chunk_stands]
    simp only [bind, Except.bind, segmentNumber_eq_ok_iff.mpr calls_written,
      segmentNumber_eq_ok_iff.mpr size_written, String.ofList_toList]
    rfl

/-- A path is cut into the segments it is put together from. -/
theorem eq_of_splitAt {path first : List Char} {segments : List (List Char)}
    (cut : Text.splitAt '/' path = first :: segments) :
    path = first ++ segmentsText segments ∧ ∀ s ∈ first :: segments, '/' ∉ s := by
  induction path generalizing first segments with
  | nil =>
    cases cut
    exact ⟨rfl, by simp⟩
  | cons c rest ih =>
    obtain ⟨piece, pieces, later⟩ :=
      List.exists_cons_of_ne_nil (Text.splitWhere_ne_nil (· == '/') rest)
    obtain ⟨whole, bare⟩ := ih later
    rw [Text.splitAt, Text.splitWhere, later] at cut
    by_cases slash : c = '/'
    · subst slash
      cases cut
      exact ⟨by rw [whole]; rfl, by simpa using bare⟩
    · rw [if_neg (by simpa using slash)] at cut
      cases cut
      refine ⟨by rw [whole]; rfl, fun s listed => ?_⟩
      rcases List.mem_cons.mp listed with rfl | listed
      · simpa [Ne.symm slash] using bare piece List.mem_cons_self
      · exact bare s (List.mem_cons_of_mem piece listed)

theorem rangePath_eq (key total chunk : List Char) :
    "/get-range/".toList ++ key ++ '/' :: total ++ '/' :: chunk =
      segmentsText ["get-range".toList, key, total, chunk] := by
  have name : "/get-range/".toList = '/' :: ("get-range".toList ++ ['/']) := by decide
  simp [segmentsText, name]

theorem route?_eq_range_iff {path key total chunk : List Char} :
    route? path = some (.range key total chunk) ↔
      path = "/get-range/".toList ++ key ++ '/' :: total ++ '/' :: chunk ∧
        ('/' ∉ key ∧ '/' ∉ total ∧ '/' ∉ chunk) ∧ chunk ≠ [] := by
  rw [rangePath_eq]
  constructor
  · intro found
    rw [route?] at found
    split at found
    · next name key' total' chunk' cut =>
      obtain ⟨whole, bare⟩ := eq_of_splitAt cut
      split at found
      · next named =>
        cases found
        obtain ⟨rfl, some⟩ := named
        refine ⟨whole, ⟨bare _ (by simp), bare _ (by simp), bare _ (by simp)⟩, some⟩
      · cases found
    · split at found <;> cases found
    · cases found
  · rintro ⟨rfl, ⟨key_bare, total_bare, chunk_bare⟩, some⟩
    have cut := splitAt_segmentsText ["get-range".toList, key, total, chunk] (by
      simp only [List.mem_cons, List.not_mem_nil, or_false]
      rintro s (rfl | rfl | rfl | rfl)
      · decide
      · exact key_bare
      · exact total_bare
      · exact chunk_bare)
    simp only [route?, cut]
    exact if_pos ⟨trivial, some⟩

theorem route?_eq_listing_iff {path : List Char} :
    route? path = some .listing ↔ path = listingPath := by
  constructor
  · intro found
    rw [route?] at found
    split at found
    · split at found <;> cases found
    · next api name cut =>
      split at found
      · next named =>
        obtain ⟨rfl, rfl⟩ := named
        rw [(eq_of_splitAt cut).1]
        decide
      · cases found
    · cases found
  · rintro rfl
    decide

/-- A segment that writes a number is not empty. -/
theorem StandsForWord.ne_nil {segment : List Char} {n : Nat} (word : StandsForWord segment n) :
    segment ≠ [] := by
  rintro rfl
  obtain ⟨text, stands, written, -⟩ := word
  have empty : [] = text := Text.Utf8.encode_inj (s := []) stands
  exact written.ne_nil empty.symm

/-- What a path asks for is what its route and its segments are read as. -/
theorem asksFor_iff {path : List Char} {r : RangeRequest} : AsksFor path r ↔
    ∃ key total chunk, route? path = some (.range key total chunk) ∧
      readRange key total chunk = .ok (r.jobKey, r.total, r.chunk) := by
  constructor
  · rintro ⟨bare, job, calls, size⟩
    exact ⟨_, _, _, route?_eq_range_iff.mpr ⟨rfl, bare, size.ne_nil⟩,
      readRange_eq_ok_iff.mpr ⟨job, calls, size⟩⟩
  · rintro ⟨key, total, chunk, routed, read⟩
    obtain ⟨rfl, bare, -⟩ := route?_eq_range_iff.mp routed
    obtain ⟨job, calls, size⟩ := readRange_eq_ok_iff.mp read
    exact .range bare job calls size

/-! ## One visit -/

/-- A visit to a master: the path that was asked for, the answer, and the cursors before and after.
-/
structure Visit where
  before : Allocator
  path : List Char
  response : Response
  after : Allocator

/-- Ask a master for a path. -/
def visit (a : Allocator) (path : List Char) : Visit where
  before := a
  path := path
  response := (respond a "GET" path).1
  after := (respond a "GET" path).2

namespace Visit

/-- Whether a visit was answered with a range. -/
def grants (v : Visit) : Bool := v.response.status = 200 && v.path ≠ listingPath

/-- What a master owes to a visitor. -/
structure Agrees (v : Visit) : Prop where
  /-- A request for a range of something is answered as the allocator answers it, in a text that is
  read as that answer, and the cursors are those the allocator is left with. -/
  granted : ∀ r, AsksFor v.path r → r.chunk ≠ 0 → v.response.status = 200 ∧ ∃ range,
    v.before.request r.jobKey r.total r.chunk = (.ok range, v.after) ∧
      RangeAnswer.ofText v.response.text = .ok range
  /-- A request for nothing is refused. -/
  empty : ∀ r, AsksFor v.path r → r.chunk = 0 → v.response.status = 400
  /-- Nothing else is answered with success but a request for the listing. -/
  answered : v.response.status = 200 →
    (∃ r, AsksFor v.path r ∧ r.chunk ≠ 0) ∨ v.path = listingPath
  /-- What is not answered with success leaves all cursors as they are, and no key is added. -/
  refused : v.response.status ≠ 200 → v.after = v.before
  /-- The listing shows the keys with their cursors, in order of the keys, and changes none. -/
  listed : v.path = listingPath → v.response.status = 200 ∧
    v.response.body = .listing v.before.cursors ∧ v.after = v.before
  ascending : Keyed.Ascending v.before.cursors
  shown_iff : ∀ key cursor, (key, cursor) ∈ v.before.cursors ↔
    v.before.cursor? key = some cursor

end Visit

variable (a : Allocator) {path : List Char} {r : RangeRequest}

/-- What asks for a range is answered as a request. -/
theorem respond_of_asksFor (asks : AsksFor path r) :
    respond a "GET" path = answerRange a r.jobKey r.total r.chunk := by
  obtain ⟨key, total, chunk, routed, read⟩ := asksFor_iff.mp asks
  simp only [respond, routed, if_true, follow, read]

theorem respond_listingPath : respond a "GET" listingPath =
    ({ status := 200, contentType := some "application/json", body := .listing a.cursors }, a) := by
  simp only [respond, route?_eq_listing_iff.mpr rfl, if_true, follow]

/-- What asks for nothing a master has is refused, and the cursors stay. -/
theorem respond_of_other (unasked : ∀ r, ¬ AsksFor path r) (other : path ≠ listingPath) :
    (respond a "GET" path).1.status ≠ 200 ∧ (respond a "GET" path).2 = a := by
  rw [respond]
  cases routed : route? path with
  | none => exact ⟨by simp, rfl⟩
  | some route =>
    cases route with
    | listing => exact absurd (route?_eq_listing_iff.mp routed) other
    | range key total chunk =>
      simp only [if_true, follow]
      cases read : readRange key total chunk with
      | error fault => exact ⟨by simp [plain], rfl⟩
      | ok numbers =>
        obtain ⟨jobKey, calls, size⟩ := numbers
        exact absurd (asksFor_iff.mpr ⟨key, total, chunk, routed, read⟩)
          (unasked ⟨jobKey, calls, size⟩)

/-- A request for a range of something is answered with a text that is read as the allocator's
answer. -/
theorem visit_of_asksFor (asks : AsksFor path r) (some : r.chunk ≠ 0) :
    (visit a path).response.status = 200 ∧ ∃ range,
      a.request r.jobKey r.total r.chunk = (.ok range, (visit a path).after) ∧
        RangeAnswer.ofText (visit a path).response.text = .ok range := by
  have word : r.total < wordBound := by
    obtain ⟨-, -, ⟨-, -, -, word⟩, -⟩ := asks
    exact word
  simp only [visit, respond_of_asksFor a asks, answerRange]
  cases granted : a.request r.jobKey r.total r.chunk with
  | mk outcome a' =>
    cases outcome with
    | error e =>
      have answer : Allocator.answerAt (a.cursorOf r.jobKey) r.total r.chunk = .error e := by
        rw [Allocator.request_eq] at granted
        exact (Prod.mk.inj granted).1
      rw [Allocator.answerAt, if_neg some] at answer
      split at answer <;> cases answer
    | ok range =>
      exact ⟨rfl, range, rfl, RangeAnswer.ofText_text (isWritable_of_request word granted)⟩

/-- A request for nothing is refused, and the cursors stay. -/
theorem visit_of_asksFor_zero (asks : AsksFor path r) (zero : r.chunk = 0) :
    (visit a path).response.status = 400 ∧ (visit a path).after = a := by
  rw [visit, respond_of_asksFor a asks, answerRange, zero, Allocator.request_zero]
  exact ⟨rfl, rfl⟩

/-- What can be asked for: a range, the listing, or something that is refused. -/
theorem visit_cases (path : List Char) : (∃ r, AsksFor path r ∧ r.chunk ≠ 0) ∨
    path = listingPath ∨ ((visit a path).response.status ≠ 200 ∧ (visit a path).after = a) := by
  by_cases asked : ∃ r, AsksFor path r
  · obtain ⟨r, asks⟩ := asked
    by_cases zero : r.chunk = 0
    · obtain ⟨refused, kept⟩ := visit_of_asksFor_zero a asks zero
      exact .inr (.inr ⟨by rw [refused]; decide, kept⟩)
    · exact .inl ⟨r, asks, zero⟩
  · by_cases listing : path = listingPath
    · exact .inr (.inl listing)
    · exact .inr (.inr (respond_of_other a (fun r asks => asked ⟨r, asks⟩) listing))

theorem not_asksFor_listingPath (r : RangeRequest) : ¬ AsksFor listingPath r := by
  intro asks
  obtain ⟨key, total, chunk, routed, -⟩ := asksFor_iff.mp asks
  rw [route?_eq_listing_iff.mpr rfl] at routed
  cases routed

variable {a}

/-- One visit. -/
theorem agrees_visit (ascending : Keyed.Ascending a.cursors) (path : List Char) :
    (visit a path).Agrees where
  granted r asks some := visit_of_asksFor a asks some
  empty r asks zero := (visit_of_asksFor_zero a asks zero).1
  answered success := by
    rcases visit_cases a path with asked | listing | ⟨refused, -⟩
    · exact .inl asked
    · exact .inr listing
    · exact absurd success refused
  refused refusal := by
    rcases visit_cases a path with ⟨r, asks, some⟩ | rfl | ⟨-, kept⟩
    · exact absurd (visit_of_asksFor a asks some).1 refusal
    · rw [visit, respond_listingPath]
    · exact kept
  listed listing := by
    obtain rfl : path = listingPath := listing
    rw [visit, respond_listingPath]
    exact ⟨rfl, rfl, rfl⟩
  ascending := ascending
  shown_iff _ _ := Keyed.mem_iff_find? ascending

variable (a)

/-- A visit is answered with a range just if it asks for one, and then it is a request. -/
theorem visit_of_grants (granted : (visit a path).grants = true) :
    ∃ r, AsksFor path r ∧ r.chunk ≠ 0 ∧
      RangeAnswer.ofText (visit a path).response.text = a.reply r ∧
      (visit a path).after = a.after [r] := by
  simp only [Visit.grants, Bool.and_eq_true, decide_eq_true_eq] at granted
  obtain ⟨success, other⟩ := granted
  rcases visit_cases a path with ⟨r, asks, some⟩ | listing | ⟨refused, -⟩
  · obtain ⟨-, range, answer, read⟩ := visit_of_asksFor a asks some
    refine ⟨r, asks, some, ?_, ?_⟩
    · rw [read, Allocator.reply, answer]
    · rw [Allocator.after, answer, Allocator.after]
  · exact absurd listing other
  · exact absurd success refused

theorem visit_of_not_grants (other : (visit a path).grants = false) :
    (visit a path).after = a := by
  rcases visit_cases a path with ⟨r, asks, some⟩ | rfl | ⟨-, kept⟩
  · have success := (visit_of_asksFor a asks some).1
    have elsewhere : path ≠ listingPath := fun same => not_asksFor_listingPath r (same ▸ asks)
    have granted : (visit a path).grants = true := by
      simp only [Visit.grants, success, Bool.and_eq_true, decide_eq_true_eq]
      exact ⟨trivial, elsewhere⟩
    rw [granted] at other
    cases other
  · rw [visit, respond_listingPath]
  · exact kept

/-! ## Runs of visits -/

/-- Visits one after the other. -/
def visits (a : Allocator) : List (List Char) → List Visit
  | [] => []
  | path :: rest => visit a path :: visits (visit a path).after rest

/-- The cursors after some visits. -/
def afterVisits (a : Allocator) : List (List Char) → Allocator
  | [] => a
  | path :: rest => afterVisits (visit a path).after rest

/-- The visits that are answered with ranges are requests that an allocator is asked one after the
other: they get the same answers and leave the same cursors, and the other visits leave no trace. -/
theorem visits_are_requests (paths : List (List Char)) : ∃ requests : List RangeRequest,
    List.Forall₂ (fun v r => AsksFor v.path r ∧ r.chunk ≠ 0)
      ((visits a paths).filter Visit.grants) requests ∧
    ((visits a paths).filter Visit.grants).map (fun v => RangeAnswer.ofText v.response.text) =
      (a.history requests).map (·.answer) ∧
    afterVisits a paths = a.after requests := by
  induction paths generalizing a with
  | nil => exact ⟨[], .nil, rfl, rfl⟩
  | cons path rest ih =>
    obtain ⟨requests, asked, answers, cursors⟩ := ih (visit a path).after
    cases granted : (visit a path).grants with
    | true =>
      obtain ⟨r, asks, some, answer, after⟩ := visit_of_grants a granted
      refine ⟨r :: requests, ?_, ?_, ?_⟩
      · rw [visits, List.filter_cons_of_pos granted]
        exact .cons ⟨asks, some⟩ asked
      · rw [visits, List.filter_cons_of_pos granted, List.map_cons, answers, answer, after]
        rfl
      · rw [afterVisits, cursors, after]
        rfl
    | false =>
      have kept := visit_of_not_grants a granted
      have skipped : (visits a (path :: rest)).filter Visit.grants =
          (visits (visit a path).after rest).filter Visit.grants :=
        List.filter_cons_of_neg (by simp [granted])
      rw [skipped, answers, afterVisits, cursors, kept]
      exact ⟨requests, kept ▸ asked, rfl, rfl⟩

/-- Every visit of a run finds a master that keeps what it owes. -/
theorem agrees_of_mem_visits {a : Allocator} (ascending : Keyed.Ascending a.cursors)
    {paths : List (List Char)} {v : Visit} (listed : v ∈ visits a paths) : v.Agrees := by
  induction paths generalizing a with
  | nil => cases listed
  | cons path rest ih =>
    rcases List.mem_cons.mp listed with rfl | later
    · exact agrees_visit ascending path
    · refine ih ?_ later
      obtain ⟨requests, -, -, after⟩ := visits_are_requests a [path]
      have next : (visit a path).after = a.after requests := after
      rw [next]
      exact Allocator.ascending_after ascending requests

/-- Whatever paths are asked for, each answer and the cursors after it are those that the allocator
gives for what the path asks for, and a path that asks for nothing changes nothing; over the whole
run the master does what an allocator does that is asked for the same ranges. -/
theorem answers_and_cursors_agree (earlier : List RangeRequest) (paths : List (List Char)) :
    (∀ v ∈ visits (Allocator.after {} earlier) paths, v.Agrees) ∧
    ∃ requests : List RangeRequest,
      List.Forall₂ (fun v r => AsksFor v.path r ∧ r.chunk ≠ 0)
        ((visits (Allocator.after {} earlier) paths).filter Visit.grants) requests ∧
      ((visits (Allocator.after {} earlier) paths).filter Visit.grants).map
          (fun v => RangeAnswer.ofText v.response.text) =
        ((Allocator.after {} earlier).history requests).map (·.answer) ∧
      afterVisits (Allocator.after {} earlier) paths =
        Allocator.after {} (earlier ++ requests) := by
  refine ⟨fun v listed => ?_, ?_⟩
  · exact agrees_of_mem_visits (Allocator.ascending_after .nil earlier) listed
  · simp only [Allocator.after_append]
    exact visits_are_requests _ paths

namespace Escaped

/-- A path whose job key has an escaped slash, and a sign and a zero that could be left out. -/
def range : List Char := "/get-range/a%2Fb/+10/04".toList

/-- The same with a word for a number. -/
def spelled : List Char := "/get-range/a%2Fb/ten/4".toList

theorem asksFor_range : AsksFor range ⟨"a/b", 10, 4⟩ :=
  asksFor_iff.mpr ⟨"a%2Fb".toList, "+10".toList, "04".toList, by decide +kernel, by decide +kernel⟩

/-- The first four calls are handed out, the word for a number changes nothing, and the listing
shows the key as it was meant with the four calls. -/
theorem handed_out_and_listed :
    RangeAnswer.ofText (visit {} range).response.text = .ok (.span 0 4) ∧
      (visit (visit {} range).after spelled).after = (visit {} range).after ∧
      (visit (visit {} range).after listingPath).response.body = .listing [("a/b", 4)] := by
  obtain ⟨owed, -⟩ := answers_and_cursors_agree [] [range, spelled, listingPath]
  have first := owed (visit {} range) (by simp [visits, Allocator.after])
  have second := owed (visit (visit {} range).after spelled) (by simp [visits, Allocator.after])
  have third := owed (visit (visit (visit {} range).after spelled).after listingPath)
    (by simp [visits, Allocator.after])
  obtain ⟨-, answer, granted, read⟩ := first.granted _ asksFor_range (by decide)
  have moved : ({} : Allocator).request "a/b" 10 4 = (.ok (.span 0 4), ⟨[("a/b", 4)]⟩) := by
    decide +kernel
  have refused : (visit (visit {} range).after spelled).response.status ≠ 200 := by decide +kernel
  have kept := second.refused refused
  have shown := (third.listed rfl).2.1
  obtain ⟨answered, after⟩ := Prod.mk.inj (granted.symm.trans moved)
  obtain rfl := Except.ok.inj answered
  have cursors : (visit {} range).after.cursors = [("a/b", 4)] := by rw [after]
  refine ⟨read, kept, ?_⟩
  rw [kept] at shown
  exact shown.trans (congrArg Body.listing cursors)

end Escaped

end Master

end CallDispatch
