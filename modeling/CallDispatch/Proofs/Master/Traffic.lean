import CallDispatch.Proofs.Lists
import CallDispatch.Proofs.Master.Hearing

/-!
# Clients of a master

Any number of clients ask a master over the web. A request and its answer take time: the request is
sent, the master serves it or does not, and the answer is read or is not. Requests of several
clients are served in any order, each of them at once. A list of events is an interleaving of the
clients.
-/

namespace CallDispatch

namespace Master

open Text.Decimal (wordBound)
open Web (segmentsText)

/-- How far a request has come: it is on its way, its answer is on its way back, or it is over. -/
inductive ExchangeStage where
  | asked (path : List Char)
  | answered (status : Nat) (body : String)
  | closed (answer : Outcome RangeAnswer)
  deriving DecidableEq

/-- A request of a client. -/
structure Exchange where
  request : RangeRequest
  stage : ExchangeStage
  deriving DecidableEq

/-- A client sends a request to a master of an address. -/
def Exchange.send (base : String) (r : RangeRequest) : Exchange where
  request := r
  stage :=
    match requestUrl (trimSlashes base) r.jobKey r.total r.chunk with
    | .ok url => .asked url.pathText
    | .error e => .closed (.error e)

/-- A master, the requests of all its clients in the order in which they were sent, and those that
it has served, with their numbers, in the order in which it has. -/
structure Traffic where
  allocator : Allocator := {}
  exchanges : List Exchange := []
  served : List (Nat × RangeRequest) := []
  deriving DecidableEq

/-- What can happen: a client sends a request, the master serves one, a client reads its answer. -/
inductive TrafficEvent where
  | ask (base : String) (r : RangeRequest)
  | serve (n : Nat)
  | read (n : Nat)

namespace Traffic

/-- The master serves a request that is on its way. -/
def serve (t : Traffic) (n : Nat) (x : Exchange) : Option Traffic :=
  match x.stage with
  | .asked path =>
    let (response, allocator) := respond t.allocator "GET" path
    some {
      allocator
      exchanges := t.exchanges.set n { x with stage := .answered response.status response.text }
      served := t.served ++ [(n, x.request)] }
  | _ => none

/-- A client reads an answer that is on its way. -/
def read (t : Traffic) (n : Nat) (x : Exchange) : Option Traffic :=
  match x.stage with
  | .answered status body =>
    let x : Exchange := { x with stage := .closed (readAnswer status body) }
    some { t with exchanges := t.exchanges.set n x }
  | _ => none

/-- An event, if it is possible. -/
def step (t : Traffic) : TrafficEvent → Option Traffic
  | .ask base r => some { t with exchanges := t.exchanges ++ [.send base r] }
  | .serve n => t.exchanges[n]?.bind (t.serve n)
  | .read n => t.exchanges[n]?.bind (t.read n)

/-- Events one after the other, if all of them are possible. -/
def run (t : Traffic) : List TrafficEvent → Option Traffic
  | [] => some t
  | e :: rest => (t.step e).bind (·.run rest)

/-- The requests that have been served, in order. -/
def requests (t : Traffic) : List RangeRequest := t.served.map Prod.snd

end Traffic

/-! ## Addresses of masters -/

/-- Whether a text is the address of a master: a scheme and a place to connect, which may be
followed by slashes. -/
def IsAddress (base : String) : Prop :=
  ∃ (o : Web.Origin) (address : Web.Url),
    trimSlashes base = o.text ∧ Web.Url.read o.text = .ok address

/-- There is no slash behind a place to connect. -/
theorem trimSlashes_text (o : Web.Origin) : trimSlashes o.text = o.text := by
  have ends : ∃ front last, o.chars = front ++ [last] ∧ last ≠ '/' := by
    obtain ⟨front, last, place⟩ := (List.eq_nil_or_concat' o.place).resolve_left o.nonempty
    refine ⟨o.protocol ++ ':' :: '/' :: '/' :: front, last, by simp [Web.Origin.chars, place], ?_⟩
    rintro rfl
    have bare := o.bare '/' (by simp [place])
    revert bare
    decide
  obtain ⟨front, last, chars, other⟩ := ends
  rw [trimSlashes, Web.Origin.text, String.toList_ofList, chars, List.reverse_append,
    List.reverse_singleton, List.singleton_append,
    List.dropWhile_cons_of_neg (by simpa using other)]
  simp

/-- The address of a host is one. -/
theorem isAddress_text {o : Web.Origin} {address : Web.Url}
    (readable : Web.Url.read o.text = .ok address) : IsAddress o.text :=
  ⟨o, address, trimSlashes_text o, readable⟩

/-- A request to a master goes out with its path. -/
theorem Exchange.send_eq {base : String} (address : IsAddress base) (r : RangeRequest) :
    Exchange.send base r =
      ⟨r, .asked (segmentsText (requestPath r.jobKey.toList r.total r.chunk))⟩ := by
  obtain ⟨o, address, trimmed, readable⟩ := address
  have path := pathText_requestUrl readable r.jobKey r.total r.chunk
  rw [Exchange.send, trimmed]
  cases url : requestUrl o.text r.jobKey r.total r.chunk with
  | error e =>
    rw [url] at path
    cases path
  | ok sent =>
    rw [url] at path
    exact congrArg (Exchange.mk r ∘ .asked) (Except.ok.inj path)

/-- Whether an event is a request to a master with numbers that fit into a word, if it is a
request. -/
def TrafficEvent.IsAddressed : TrafficEvent → Prop
  | .ask base r => IsAddress base ∧ r.total < wordBound ∧ r.chunk < wordBound
  | _ => True

/-! ## What a run keeps -/

namespace Traffic

/-- Whether a request has been served with an answer. -/
def Answers (a : Allocator) (t : Traffic) (n : Nat) (r : RangeRequest)
    (answer : Outcome RangeAnswer) : Prop :=
  ∃ p : Nat, t.served[p]? = some (n, r) ∧
    (hearings a t.requests)[p]? = some ⟨r, answer⟩

/-- Whether a request is where the master's work so far has left it. -/
def Fits (a : Allocator) (t : Traffic) (n : Nat) (x : Exchange) : Prop :=
  match x.stage with
  | .asked path => n ∉ t.served.map Prod.fst ∧
      path = segmentsText (requestPath x.request.jobKey.toList x.request.total x.request.chunk) ∧
      x.request.total < wordBound ∧ x.request.chunk < wordBound
  | .answered status body => t.Answers a n x.request (readAnswer status body)
  | .closed answer => t.Answers a n x.request answer

/-- What every run from an allocator keeps: the master's cursors and all its answers are those of
the requests it has served, each of them once. -/
structure Heard (a : Allocator) (t : Traffic) : Prop where
  allocator : t.allocator = afterHearing a t.requests
  once : (t.served.map Prod.fst).Nodup
  sent : ∀ entry ∈ t.served, entry.1 < t.exchanges.length
  fits : ∀ n x, t.exchanges[n]? = some x → t.Fits a n x

variable {a : Allocator} {t t' : Traffic}

/-- Answers stay what they are when another request is served. -/
theorem Answers.append {n : Nat} {r : RangeRequest} {answer : Outcome RangeAnswer}
    (answers : t.Answers a n r answer) (more : List (Nat × RangeRequest))
    (served : t'.served = t.served ++ more) : t'.Answers a n r answer := by
  obtain ⟨p, listed, answered⟩ := answers
  have log : t'.requests = t.requests ++ more.map Prod.snd := by
    rw [requests, served, List.map_append, requests]
  refine ⟨p, ?_, ?_⟩
  · rw [served]
    exact List.getElem?_append_left (List.getElem?_eq_some_iff.mp listed).1 |>.trans listed
  · rw [log, hearings_append]
    exact List.getElem?_append_left (List.getElem?_eq_some_iff.mp answered).1 |>.trans answered

/-- A request that is not the one served is where it was. -/
theorem Fits.append {n : Nat} {x : Exchange} (fits : t.Fits a n x)
    (more : List (Nat × RangeRequest)) (served : t'.served = t.served ++ more)
    (other : n ∉ more.map Prod.fst) : t'.Fits a n x := by
  unfold Fits at fits ⊢
  split at fits
  · rw [served, List.map_append, List.mem_append, not_or]
    exact ⟨⟨fits.1, other⟩, fits.2⟩
  · exact fits.append more served
  · exact fits.append more served

/-- What the master does with a request that is on its way. -/
theorem serve_eq_some {n : Nat} {x : Exchange} (fits : t.Fits a n x)
    (happens : t.serve n x = some t') : n ∉ t.served.map Prod.fst ∧
      t'.allocator = (hear t.allocator x.request).2 ∧
      t'.served = t.served ++ [(n, x.request)] ∧
      ∃ status body, readAnswer status body = (hear t.allocator x.request).1 ∧
        t'.exchanges = t.exchanges.set n ⟨x.request, .answered status body⟩ := by
  unfold serve at happens
  unfold Fits at fits
  split at happens
  · next path asked =>
    rw [asked] at fits
    obtain ⟨fresh, rfl, total, chunk⟩ := fits
    obtain ⟨response, responds, reads⟩ := respond_requestPath t.allocator x.request total chunk
    rw [responds] at happens
    cases happens
    exact ⟨fresh, rfl, rfl, _, _, reads, rfl⟩
  · cases happens

/-- A request that is sent has not been served. -/
theorem Heard.ask (heard : Heard a t) {base : String} {r : RangeRequest}
    (address : IsAddress base) (total : r.total < wordBound) (chunk : r.chunk < wordBound) :
    Heard a { t with exchanges := t.exchanges ++ [.send base r] } := by
  refine { heard with sent := ?_, fits := ?_ }
  · intro entry listed
    rw [List.length_append]
    exact Nat.lt_add_right _ (heard.sent entry listed)
  · intro n x found
    rcases getElem?_concat_cases found with before | ⟨rfl, rfl⟩
    · exact (heard.fits n x before).append [] (List.append_nil _).symm List.not_mem_nil
    · rw [Exchange.send_eq address]
      refine ⟨?_, rfl, total, chunk⟩
      intro listed
      obtain ⟨entry, earlier, same⟩ := List.mem_map.mp listed
      exact absurd (heard.sent entry earlier) (by omega)

/-- A request that is served gets the answer of its place in the order. -/
theorem Heard.serve (heard : Heard a t) {n : Nat} {x : Exchange}
    (found : t.exchanges[n]? = some x) (happens : t.serve n x = some t') : Heard a t' := by
  obtain ⟨fresh, allocator, served, status, body, reads, exchanges⟩ :=
    serve_eq_some (heard.fits n x found) happens
  have log : t'.requests = t.requests ++ [x.request] := by
    simp [requests, served]
  -- The request comes last in the order, so its answer is that of the allocator as it was.
  have answer : t'.Answers a n x.request (readAnswer status body) := by
    refine ⟨t.served.length, ?_, ?_⟩
    · rw [served, List.getElem?_concat_length]
    · have place : t.served.length = (hearings a t.requests).length := by
        rw [length_hearings, requests, List.length_map]
      rw [log, hearings_append, place, ← heard.allocator, reads]
      exact List.getElem?_concat_length
  constructor
  · rw [log, afterHearing_append, ← heard.allocator]
    exact allocator
  · rw [served, List.map_append, List.map_singleton]
    exact List.nodup_append.mpr ⟨heard.once, List.nodup_singleton n, by
      rintro m listed _ last rfl
      rw [List.mem_singleton.mp last] at listed
      exact fresh listed⟩
  · rw [served, exchanges, List.length_set]
    intro entry listed
    rcases List.mem_append.mp listed with before | last
    · exact heard.sent entry before
    · rw [List.mem_singleton.mp last]
      exact (List.getElem?_eq_some_iff.mp found).1
  · intro m y at_
    rw [exchanges] at at_
    rcases getElem?_set_cases at_ with ⟨rfl, rfl⟩ | ⟨other, at_⟩
    · exact answer
    · exact (heard.fits m y at_).append _ served (by simpa using other)

/-- An answer is read as it was sent. -/
theorem Heard.read (heard : Heard a t) {n : Nat} {x : Exchange}
    (found : t.exchanges[n]? = some x) (happens : t.read n x = some t') : Heard a t' := by
  have fits := heard.fits n x found
  unfold Traffic.read at happens
  unfold Fits at fits
  split at happens
  · next status body answered =>
    cases happens
    rw [answered] at fits
    refine { heard with sent := ?_, fits := ?_ }
    · intro entry listed
      rw [List.length_set]
      exact heard.sent entry listed
    · intro m y at_
      rcases getElem?_set_cases at_ with ⟨rfl, rfl⟩ | ⟨other, at_⟩
      · change t.Answers a m x.request (readAnswer status body)
        exact fits
      · exact (heard.fits m y at_).append [] (List.append_nil _).symm List.not_mem_nil
  · cases happens

theorem Heard.step {e : TrafficEvent} (heard : Heard a t) (addressed : e.IsAddressed)
    (happens : t.step e = some t') : Heard a t' := by
  cases e with
  | ask base r =>
    cases happens
    exact heard.ask addressed.1 addressed.2.1 addressed.2.2
  | serve n =>
    obtain ⟨x, found, happens⟩ := Option.bind_eq_some_iff.mp happens
    exact heard.serve found happens
  | read n =>
    obtain ⟨x, found, happens⟩ := Option.bind_eq_some_iff.mp happens
    exact heard.read found happens

theorem Heard.run {events : List TrafficEvent} (heard : Heard a t)
    (addressed : ∀ e ∈ events, e.IsAddressed) (ran : t.run events = some t') : Heard a t' := by
  induction events generalizing t with
  | nil =>
    cases ran
    exact heard
  | cons e rest ih =>
    obtain ⟨next, happens, ran⟩ := Option.bind_eq_some_iff.mp ran
    have first := heard.step (addressed e List.mem_cons_self) happens
    exact ih first (fun e' listed => addressed e' (List.mem_cons_of_mem e listed)) ran

/-- A master that nobody has asked. -/
theorem heard_idle (a : Allocator) : Heard a { allocator := a } where
  allocator := rfl
  once := List.nodup_nil
  sent := by rintro _ (_ | _)
  fits := by rintro n x ⟨⟩

/-- A request that is on its way can be served and its answer read, and this comes to what the
master hears. -/
theorem completes (heard : Heard a t) {n : Nat} {r : RangeRequest} {path : List Char}
    (found : t.exchanges[n]? = some ⟨r, .asked path⟩) : ∃ t',
      t.run [.serve n, .read n] = some t' ∧
      t'.exchanges[n]? = some ⟨r, .closed (hear t.allocator r).1⟩ ∧
      t'.allocator = (hear t.allocator r).2 := by
  have inside := (List.getElem?_eq_some_iff.mp found).1
  cases happens : t.serve n ⟨r, .asked path⟩ with
  | none => cases happens
  | some served =>
    obtain ⟨-, allocator, -, status, body, reads, exchanges⟩ :=
      serve_eq_some (heard.fits n _ found) happens
    have back : served.exchanges[n]? = some ⟨r, .answered status body⟩ := by
      rw [exchanges, List.getElem?_set_self inside]
    let last : Exchange := ⟨r, .closed (readAnswer status body)⟩
    refine ⟨{ served with exchanges := served.exchanges.set n last }, ?_, ?_, allocator⟩
    · have serving : t.step (.serve n) = some served := by
        rw [step, found]
        exact happens
      have reading : served.step (.read n) =
          some { served with exchanges := served.exchanges.set n last } := by
        rw [step, back]
        rfl
      rw [run, serving, Option.bind_some, run, reading]
      rfl
    · rw [List.getElem?_set_self (List.getElem?_eq_some_iff.mp back).1, ← reads]

/-- Whatever clients ask a master, and in whichever order it serves them, its cursors and all
answers are those of the requests as it hears them, in that order. Where it hears all job keys as
they are, these are the cursors and the answers of the allocator itself. -/
theorem exchanges_are_hearings (a : Allocator) {events : List TrafficEvent} {t : Traffic}
    (addressed : ∀ e ∈ events, e.IsAddressed)
    (ran : ({ allocator := a } : Traffic).run events = some t) :
    (t.served.map Prod.fst).Nodup ∧
    t.allocator = afterHearing a t.requests ∧
    (∀ n r answer, t.exchanges[n]? = some ⟨r, .closed answer⟩ → t.Answers a n r answer) ∧
    (∀ n r path, t.exchanges[n]? = some ⟨r, .asked path⟩ → ∃ t',
      t.run [.serve n, .read n] = some t' ∧
      t'.exchanges[n]? = some ⟨r, .closed (hear t.allocator r).1⟩ ∧
      t'.allocator = (hear t.allocator r).2) ∧
    ((∀ r ∈ t.requests, IsWhole r.jobKey.toList) →
      t.allocator = a.after t.requests ∧
      hearings a t.requests =
        (a.history t.requests).map fun e => { e with answer := overWeb e.answer }) := by
  have heard := (heard_idle a).run addressed ran
  refine ⟨heard.once, heard.allocator, ?_, ?_, ?_⟩
  · intro n r answer found
    exact heard.fits n _ found
  · intro n r path found
    exact completes heard found
  · intro whole
    obtain ⟨cursors, answers⟩ := hearings_of_isWhole a whole
    exact ⟨heard.allocator.trans cursors, answers⟩

/-- A master under the name of its host. -/
def nearby : Web.Origin where
  protocol := "http".toList
  place := "master:8080".toList
  web := by decide
  nonempty := by decide
  bare c listed := by
    have bare : "master:8080".toList.all (!Web.endsAuthority true ·) = true := by decide
    exact Bool.eq_false_of_not_eq_true' (List.all_eq_true.mp bare c listed)

theorem isAddress_nearby : IsAddress nearby.text := by
  have readable : (Web.Url.read nearby.text).toOption.isSome = true := by decide +kernel
  cases read : Web.Url.read nearby.text with
  | error fault =>
    rw [read] at readable
    cases readable
  | ok address => exact isAddress_text read

/-- The requests of two clients are served in the other order. -/
def crossing : List TrafficEvent :=
  [.ask nearby.text ⟨"exec/A?0#1", 10, 5⟩, .ask nearby.text ⟨"b", 4, 9⟩, .serve 1, .read 1,
    .serve 0]

/-- Where that leaves them: one has an answer, that of the other is on its way. -/
def crossed : Traffic where
  allocator := { cursors := [("b", 4), ("exec/A?0#1", 5)] }
  exchanges :=
    [⟨⟨"exec/A?0#1", 10, 5⟩, .answered 200 "0-5"⟩, ⟨⟨"b", 4, 9⟩, .closed (.ok (.span 0 4))⟩]
  served := [(1, ⟨"b", 4, 9⟩), (0, ⟨"exec/A?0#1", 10, 5⟩)]

theorem exchanges_are_hearings_of_crossing :
    (∀ e ∈ crossing, e.IsAddressed) ∧ ({} : Traffic).run crossing = some crossed ∧
    crossed.Answers {} 1 ⟨"b", 4, 9⟩ (.ok (.span 0 4)) ∧
    crossed.allocator = ({} : Allocator).after [⟨"b", 4, 9⟩, ⟨"exec/A?0#1", 10, 5⟩] := by
  have addressed : ∀ e ∈ crossing, e.IsAddressed := by
    simp only [crossing, List.mem_cons, List.not_mem_nil, or_false]
    rintro e (rfl | rfl | rfl | rfl | rfl)
    · exact ⟨isAddress_nearby, by decide, by decide⟩
    · exact ⟨isAddress_nearby, by decide, by decide⟩
    all_goals trivial
  have ran : ({} : Traffic).run crossing = some crossed := by decide +kernel
  have whole : ∀ r ∈ crossed.requests, IsWhole r.jobKey.toList := by
    simp only [requests, crossed, List.map_cons, List.map_nil, List.mem_cons, List.not_mem_nil,
      or_false]
    rintro r (rfl | rfl)
    · exact heard?_eq_self_iff.mp (by decide)
    · exact heard?_eq_self_iff.mp (by decide)
  obtain ⟨-, -, answers, -, direct⟩ := exchanges_are_hearings {} addressed ran
  exact ⟨addressed, ran, answers 1 _ _ rfl, (direct whole).1⟩

/-- Two keys that differ in a tab have one cursor, and a key that is one dot has none: the answers
are not those of the allocator. -/
theorem keys_merge_over_web :
    let requests : List RangeRequest := [⟨"ab", 10, 5⟩, ⟨"a\tb", 10, 5⟩, ⟨".", 10, 5⟩]
    let events : List TrafficEvent := requests.map (.ask nearby.text) ++
      [.serve 0, .serve 1, .serve 2, .read 0, .read 1, .read 2]
    (∀ e ∈ events, e.IsAddressed) ∧
    (({} : Traffic).run events).map (·.exchanges.map (·.stage)) =
      some [.closed (.ok (.span 0 5)), .closed (.ok (.span 5 10)),
        .closed (.error (.http (some 404) false))] ∧
    (({} : Traffic).run events).map (·.allocator) = some { cursors := [("ab", 10)] } ∧
    (({} : Allocator).history requests).map (·.answer) =
      [.ok (.span 0 5), .ok (.span 0 5), .ok (.span 0 5)] ∧
    ({} : Allocator).after requests = { cursors := [(".", 5), ("a\tb", 5), ("ab", 5)] } := by
  refine ⟨?_, by decide +kernel, by decide +kernel, by decide +kernel, by decide +kernel⟩
  simp only [List.map_cons, List.map_nil, List.cons_append, List.nil_append, List.mem_cons,
    List.not_mem_nil, or_false]
  rintro e (rfl | rfl | rfl | rfl | rfl | rfl | rfl | rfl | rfl)
  · exact ⟨isAddress_nearby, by decide, by decide⟩
  · exact ⟨isAddress_nearby, by decide, by decide⟩
  · exact ⟨isAddress_nearby, by decide, by decide⟩
  all_goals trivial

end Traffic

end Master

end CallDispatch
