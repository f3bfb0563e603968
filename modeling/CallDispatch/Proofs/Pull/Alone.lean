import CallDispatch.Proofs.Job.Windows
import CallDispatch.Proofs.Pull.Schedule
import Mathlib.Data.List.TakeWhile

/-!
# A worker on its own

A worker asks a source that gives laid-out answers, and hands what it is granted to a handler that
may remember what it was given. Nobody tells the worker to stop. An answer either keeps it going or
brings it to its end, and which of the two does not depend on what came before. So the windows the
handler gets are those of the spans before the first answer that brings the worker to its end, and
failures after which it asks again leave no trace but the requests they cost.
-/

namespace CallDispatch

/-- What passes between a worker and its handler. -/
inductive HandlerDeed where
  | given (window : Payload)
  | reported (status : InvocationEnd)

/-- A worker, its source, and a handler with a state of its own. `ids` are the activation
identifiers to come, and `given` is what the handler is at work on. -/
structure LoneWorker (σ η : Type) where
  worker : Worker
  source : σ
  handler : η
  ids : Nat → String
  given : Option Payload := none
  deeds : List HandlerDeed := []

namespace LoneWorker

/-- What a worker does next, with what its handler makes of a window. -/
def step [WorkSource σ] (handle : η → Payload → InvocationEnd × η) (s : LoneWorker σ η) :
    LoneWorker σ η :=
  match s.worker.phase with
  | .asking =>
    let p := s.worker.payload
    let (answer, source) := WorkSource.request s.source p.jobKey p.totalCalls p.requestSize
    { s with worker := s.worker.receive answer, source }
  | .granted start stop =>
    let (window?, worker) := s.worker.handOver start stop (s.ids 0)
    { s with
      worker
      ids := fun i => s.ids (i + 1)
      given := window?
      deeds := s.deeds ++ window?.toList.map .given }
  | .running start stop =>
    match s.given with
    | none => s
    | some window =>
      let (status, handler) := handle s.handler window
      { s with
        worker := s.worker.report start stop status
        handler
        given := none
        deeds := s.deeds ++ [.reported status] }
  | .pausing => { s with worker := s.worker.resume }
  | .ended _ => s

/-- A number of steps. -/
def run [WorkSource σ] (handle : η → Payload → InvocationEnd × η) :
    (limit : Nat) → LoneWorker σ η → LoneWorker σ η
  | 0, s => s
  | limit + 1, s => run handle limit (s.step handle)

/-- A worker of a job that has yet to begin, with the answers it will get. -/
def ofScript (p : Payload) (handler : η) (ids : Nat → String)
    (script : List (Outcome RangeAnswer)) : LoneWorker ScriptedSource η where
  worker := { payload := p }
  source := { script }
  handler := handler
  ids := ids

end LoneWorker

/-! ## What answers do -/

/-- An answer after which no worker asks again: there is no more work, or the request failed for
good. -/
def closes : Outcome RangeAnswer → Bool
  | .ok .exhausted => true
  | .ok (.span ..) => false
  | .error e => !e.isTransient

/-- A failure after which the request is sent again. -/
def isRetried : Outcome RangeAnswer → Bool
  | .ok _ => false
  | .error e => e.isTransient

namespace Payload

/-- The request that a worker of this payload sends. -/
def request (p : Payload) : RangeRequest := ⟨p.jobKey, p.totalCalls, p.requestSize⟩

/-- Whether a worker of this payload asks again after an answer. -/
def goesOnAfter (p : Payload) : Outcome RangeAnswer → Bool
  | .ok .exhausted => false
  | .ok (.span start stop) => (p.window start stop).isOk
  | .error e => e.isTransient

/-- The spans that a worker of this payload hands over, of those it is granted. -/
def spansServed (p : Payload) (script : List (Outcome RangeAnswer)) : List Span :=
  (script.takeWhile p.goesOnAfter).flatMap grantedSpans

/-- The answer that brings a worker of this payload to its end. -/
def lastAnswer? (p : Payload) (script : List (Outcome RangeAnswer)) :
    Option (Outcome RangeAnswer) :=
  script.find? fun answer => !p.goesOnAfter answer

/-- The end of a worker of this payload at an answer after which it does not ask again. -/
def endAt (p : Payload) (tally : PullTally) : Outcome RangeAnswer → Outcome PullTally
  | .ok .exhausted => .ok tally
  | .ok (.span start stop) => (p.window start stop).map fun _ => tally
  | .error e => .error e

theorem not_goesOnAfter_of_closes {p : Payload} {answer : Outcome RangeAnswer}
    (last : closes answer = true) : p.goesOnAfter answer = false := by
  cases answer with
  | error e => simpa [closes, goesOnAfter] using last
  | ok range =>
    cases range with
    | exhausted => rfl
    | span start stop => cases last

/-- A script in which some answer brings every worker to its end has a last answer. -/
theorem exists_lastAnswer {script : List (Outcome RangeAnswer)}
    (closed : ∃ answer ∈ script, closes answer = true) (p : Payload) :
    ∃ answer, p.lastAnswer? script = some answer := by
  obtain ⟨answer, member, last⟩ := closed
  apply Option.isSome_iff_exists.mp
  rw [lastAnswer?, List.find?_isSome]
  exact ⟨answer, member, by simp [not_goesOnAfter_of_closes last]⟩

variable {p : Payload} {answer : Outcome RangeAnswer} {rest : List (Outcome RangeAnswer)}

theorem spansServed_cons (goesOn : p.goesOnAfter answer = true) :
    p.spansServed (answer :: rest) = grantedSpans answer ++ p.spansServed rest := by
  rw [spansServed, List.takeWhile_cons_of_pos goesOn, List.flatMap_cons, spansServed]

theorem spansServed_cons_of_not (ends : p.goesOnAfter answer = false) :
    p.spansServed (answer :: rest) = [] := by
  rw [spansServed, List.takeWhile_cons_of_neg (by simp [ends]), List.flatMap_nil]

theorem lastAnswer?_cons (goesOn : p.goesOnAfter answer = true) :
    p.lastAnswer? (answer :: rest) = p.lastAnswer? rest := by
  rw [lastAnswer?, List.find?_cons_of_neg (by simp [goesOn]), lastAnswer?]

theorem lastAnswer?_cons_of_not (ends : p.goesOnAfter answer = false) :
    p.lastAnswer? (answer :: rest) = some answer :=
  List.find?_cons_of_pos (by simp [ends])

theorem goesOnAfter_of_isRetried (retried : isRetried answer = true) :
    p.goesOnAfter answer = true := by
  cases answer with
  | ok range => cases retried
  | error e => exact retried

theorem grantedSpans_of_isRetried (retried : isRetried answer = true) :
    grantedSpans answer = [] := by
  cases answer with
  | ok range => cases retried
  | error e => rfl

/-- Failures after which a request is sent again do not matter for the spans handed over. -/
theorem spansServed_filter (p : Payload) (script : List (Outcome RangeAnswer)) :
    p.spansServed (script.filter (!isRetried ·)) = p.spansServed script := by
  induction script with
  | nil => rfl
  | cons answer rest ih =>
    cases retried : isRetried answer with
    | true =>
      rw [List.filter_cons_of_neg (by simp [retried]), ih,
        spansServed_cons (goesOnAfter_of_isRetried retried), grantedSpans_of_isRetried retried,
        List.nil_append]
    | false =>
      rw [List.filter_cons_of_pos (by simp [retried])]
      cases goesOn : p.goesOnAfter answer with
      | true => rw [spansServed_cons goesOn, spansServed_cons goesOn, ih]
      | false => rw [spansServed_cons_of_not goesOn, spansServed_cons_of_not goesOn]

/-- Failures after which a request is sent again do not matter for the last answer. -/
theorem lastAnswer?_filter (p : Payload) (script : List (Outcome RangeAnswer)) :
    p.lastAnswer? (script.filter (!isRetried ·)) = p.lastAnswer? script := by
  induction script with
  | nil => rfl
  | cons answer rest ih =>
    cases retried : isRetried answer with
    | true =>
      rw [List.filter_cons_of_neg (by simp [retried]), ih,
        lastAnswer?_cons (goesOnAfter_of_isRetried retried)]
    | false =>
      rw [List.filter_cons_of_pos (by simp [retried])]
      cases goesOn : p.goesOnAfter answer with
      | true => rw [lastAnswer?_cons goesOn, lastAnswer?_cons goesOn, ih]
      | false => rw [lastAnswer?_cons_of_not goesOn, lastAnswer?_cons_of_not goesOn]

/-- Every span handed over has bounds in order. -/
theorem ordered_of_mem_spansServed {script : List (Outcome RangeAnswer)} {span : Span}
    (served : span ∈ p.spansServed script) : span.start ≤ span.stop := by
  obtain ⟨answer, member, granted⟩ := List.mem_flatMap.mp served
  have goesOn := List.mem_takeWhile_imp member
  rcases answer with e | ⟨start, stop⟩ | _
  · cases granted
  · obtain rfl := List.mem_singleton.mp granted
    rw [goesOnAfter] at goesOn
    cases cut : p.window start stop with
    | error e =>
      rw [cut] at goesOn
      cases goesOn
    | ok window => exact (le_of_window cut).1
  · cases granted

end Payload

/-! ## A run on a script -/

/-- The summary of a worker after more spans have been handed over and reported on. -/
def PullTally.after (tally : PullTally) (spans : List Span) (statuses : List InvocationEnd) :
    PullTally where
  rounds := tally.rounds + spans.length
  calls := tally.calls + (spans.map fun span => span.stop - span.start).sum
  failedRounds := tally.failedRounds + statuses.count .failed

theorem PullTally.after_cons (tally : PullTally) (span : Span) (spans : List Span)
    (status : InvocationEnd) (statuses : List InvocationEnd) :
    tally.after (span :: spans) (status :: statuses) =
      (tally.addRound (span.stop - span.start) status).after spans statuses := by
  cases status <;> simp [after, addRound] <;> omega

namespace LoneWorker

/-- The reports of a handler that is given windows one after the other. -/
def reports (handle : η → Payload → InvocationEnd × η) : η → List Payload → List InvocationEnd
  | _, [] => []
  | h, window :: rest => (handle h window).1 :: reports handle (handle h window).2 rest

/-- Windows given one at a time, each reported on before the next is given. -/
def oneByOne (windows : List Payload) (statuses : List InvocationEnd) : List HandlerDeed :=
  (windows.zip statuses).flatMap fun (window, status) => [.given window, .reported status]

theorem run_of_ended [WorkSource σ] {handle : η → Payload → InvocationEnd × η}
    {s : LoneWorker σ η} {result : Outcome PullTally} (ended : s.worker.phase = .ended result)
    (limit : Nat) : s.run handle limit = s := by
  induction limit with
  | zero => rfl
  | succ limit ih => rw [run, step, ended, ih]

section

variable {handle : η → Payload → InvocationEnd × η} {s : LoneWorker ScriptedSource η}

/-- The source of a worker that has asked for the first of its answers. -/
def asked (s : LoneWorker ScriptedSource η) (rest : List (Outcome RangeAnswer)) : ScriptedSource :=
  { s.source with
    script := rest
    requests := s.source.requests ++ [s.worker.payload.request] }

/-- The worker after a round: a window has been handed over and reported on. -/
def afterRound (handle : η → Payload → InvocationEnd × η) (s : LoneWorker ScriptedSource η)
    (rest : List (Outcome RangeAnswer)) (calls : Nat) (window : Payload) :
    LoneWorker ScriptedSource η where
  worker := { s.worker with
    summary := s.worker.summary.addRound calls (handle s.handler window).1 }
  source := s.asked rest
  handler := (handle s.handler window).2
  ids := fun i => s.ids (i + 1)
  deeds := s.deeds ++ [.given window, .reported (handle s.handler window).1]

theorem step_of_asking {answer : Outcome RangeAnswer} {rest : List (Outcome RangeAnswer)}
    (asking : s.worker.phase = .asking) (scripted : s.source.script = answer :: rest) :
    s.step handle = { s with worker := s.worker.receive answer, source := s.asked rest } := by
  rw [step, asking]
  simp only [WorkSource.request, ScriptedSource.request, scripted]
  rfl

/-- A failure after which the worker asks again costs two steps and a request. -/
theorem step_step_of_isRetried {answer : Outcome RangeAnswer} {rest : List (Outcome RangeAnswer)}
    (asking : s.worker.phase = .asking) (scripted : s.source.script = answer :: rest)
    (retried : isRetried answer = true) :
    (s.step handle).step handle = { s with source := s.asked rest } := by
  cases answer with
  | ok range => cases retried
  | error e =>
    have transient : e.isTransient = true := retried
    rw [step_of_asking asking scripted, step]
    simp only [Worker.receive, transient, if_true, Worker.resume, ← asking]

/-- A span that the payload has a window for costs three steps and a request, and one invocation of
the handler. -/
theorem steps_of_span {start stop : Nat} {rest : List (Outcome RangeAnswer)} {window : Payload}
    (asking : s.worker.phase = .asking)
    (scripted : s.source.script = .ok (.span start stop) :: rest)
    (cut : s.worker.payload.window start stop = .ok window) :
    ((s.step handle).step handle).step handle =
      s.afterRound handle rest (stop - start) (window.withActivation (s.ids 0)) := by
  have granted : s.step handle =
      { s with
        worker := { s.worker with phase := .granted start stop }, source := s.asked rest } :=
    step_of_asking asking scripted
  have running : (s.step handle).step handle =
      { s with
        worker := { s.worker with phase := .running start stop }
        source := s.asked rest
        ids := fun i => s.ids (i + 1)
        given := some (window.withActivation (s.ids 0))
        deeds := s.deeds ++ [.given (window.withActivation (s.ids 0))] } := by
    rw [granted, step]
    simp only [Worker.handOver, cut, Option.toList_some, List.map_cons, List.map_nil]
  rw [running, step]
  simp only [Worker.report, List.append_assoc, List.singleton_append, ← asking, afterRound]

variable (handle) in
/-- An answer after which the worker does not ask again ends it within two steps. -/
theorem run_of_not_goesOnAfter {answer : Outcome RangeAnswer} {rest : List (Outcome RangeAnswer)}
    (asking : s.worker.phase = .asking) (scripted : s.source.script = answer :: rest)
    (ends : s.worker.payload.goesOnAfter answer = false) (limit : Nat) :
    (s.run handle (limit + 2)).deeds = s.deeds ∧
      (s.run handle (limit + 2)).source = s.asked rest ∧
      (s.run handle (limit + 2)).worker = { s.worker with
        phase := .ended (s.worker.payload.endAt s.worker.summary answer) } := by
  have first : s.step handle =
      { s with worker := s.worker.receive answer, source := s.asked rest } :=
    step_of_asking asking scripted
  have received : s.worker.receive answer = { s.worker with
      phase := .ended (s.worker.payload.endAt s.worker.summary answer) } ∨
      ∃ start stop e, answer = .ok (.span start stop) ∧
        s.worker.payload.window start stop = .error e := by
    rcases answer with e | ⟨start, stop⟩ | _
    · have lasting : e.isTransient = false := ends
      left
      simp only [Worker.receive, lasting, Worker.fail, Payload.endAt]
      rfl
    · right
      rw [Payload.goesOnAfter] at ends
      cases cut : s.worker.payload.window start stop with
      | error e => exact ⟨start, stop, e, rfl, cut⟩
      | ok window =>
        rw [cut] at ends
        cases ends
    · exact .inl rfl
  rcases received with ended | ⟨start, stop, e, rfl, none⟩
  · have done : s.run handle (limit + 2) = s.step handle :=
      run_of_ended (s := s.step handle) (by rw [first, ended]) (limit + 1)
    rw [done, first, ended]
    exact ⟨rfl, rfl, rfl⟩
  · -- A span without a window is granted first and given up at the next step.
    have second : (s.step handle).step handle = { s with
        worker := { s.worker with phase := .ended (.error e) }
        source := s.asked rest
        ids := fun i => s.ids (i + 1)
        given := Option.none } := by
      rw [first, step]
      simp only [Worker.receive, Worker.handOver, none, Worker.fail, Option.toList_none,
        List.map_nil, List.append_nil]
    have done : s.run handle (limit + 2) = (s.step handle).step handle :=
      run_of_ended (s := (s.step handle).step handle) (by rw [second]) limit
    rw [done, second, Payload.endAt, none]
    exact ⟨rfl, rfl, rfl⟩

/-- What has become of a worker that was about to ask: the windows of the spans it was granted were
handed over one by one, and the last answer ended it. -/
structure Served (handle : η → Payload → InvocationEnd × η) (script : List (Outcome RangeAnswer))
    (last : Outcome RangeAnswer) (s s' : LoneWorker ScriptedSource η) (windows : List Payload) :
    Prop where
  cuts : windows.map Except.ok =
    (s.worker.payload.spansServed script).mapIdx fun i span =>
      (s.worker.payload.window span.start span.stop).map (·.withActivation (s.ids i))
  deeds : s'.deeds = s.deeds ++ oneByOne windows (reports handle s.handler windows)
  requests : s'.source.requests = s.source.requests ++
    List.replicate ((script.takeWhile s.worker.payload.goesOnAfter).length + 1)
      s.worker.payload.request
  worker : s'.worker =
    { s.worker with
      summary := s.worker.summary.after (s.worker.payload.spansServed script)
        (reports handle s.handler windows)
      phase := .ended (s.worker.payload.endAt (s.worker.summary.after
        (s.worker.payload.spansServed script) (reports handle s.handler windows)) last) }

/-- An answer that is retried is one more request, and nothing else. -/
theorem Served.retry {e : DispatchError} {rest : List (Outcome RangeAnswer)}
    {last : Outcome RangeAnswer} {s' : LoneWorker ScriptedSource η} {windows : List Payload}
    (served : Served handle rest last { s with source := s.asked rest } s' windows)
    (goesOn : s.worker.payload.goesOnAfter (.error e) = true) :
    Served handle (.error e :: rest) last s s' windows := by
  have same : s.worker.payload.spansServed (.error e :: rest) =
      s.worker.payload.spansServed rest := by
    rw [Payload.spansServed_cons goesOn]
    rfl
  refine ⟨?_, served.deeds, ?_, ?_⟩
  · rw [same]
    exact served.cuts
  · rw [List.takeWhile_cons_of_pos goesOn, List.length_cons, List.replicate_succ]
    exact served.requests.trans (List.append_assoc ..)
  · rw [same]
    exact served.worker

/-- A span is one more request and one more window, before those of the answers after it. -/
theorem Served.round {start stop : Nat} {window : Payload} {rest : List (Outcome RangeAnswer)}
    {last : Outcome RangeAnswer} {s' : LoneWorker ScriptedSource η} {windows : List Payload}
    (served : Served handle rest last
      (s.afterRound handle rest (stop - start) (window.withActivation (s.ids 0))) s' windows)
    (goesOn : s.worker.payload.goesOnAfter (.ok (.span start stop)) = true)
    (cut : s.worker.payload.window start stop = .ok window) :
    Served handle (.ok (.span start stop) :: rest) last s s'
      (window.withActivation (s.ids 0) :: windows) := by
  have more : s.worker.payload.spansServed (.ok (.span start stop) :: rest) =
      ⟨start, stop⟩ :: s.worker.payload.spansServed rest :=
    Payload.spansServed_cons goesOn
  refine ⟨?_, ?_, ?_, ?_⟩
  · rw [more, List.map_cons, List.mapIdx_cons, cut]
    exact congrArg _ served.cuts
  · exact served.deeds.trans (List.append_assoc ..)
  · rw [List.takeWhile_cons_of_pos goesOn, List.length_cons, List.replicate_succ]
    exact served.requests.trans (List.append_assoc ..)
  · rw [more, reports.eq_2, PullTally.after_cons]
    exact served.worker

variable (handle) in
/-- A worker is served by a script that has a last answer for it, by induction on the script: three
steps do for each answer. -/
theorem run_served {script : List (Outcome RangeAnswer)} {last : Outcome RangeAnswer}
    (asking : s.worker.phase = .asking) (scripted : s.source.script = script)
    (ends : s.worker.payload.lastAnswer? script = some last) {limit : Nat}
    (enough : 3 * script.length ≤ limit) :
    ∃ windows, Served handle script last s (s.run handle limit) windows := by
  induction script generalizing s limit with
  | nil => cases ends
  | cons answer rest ih =>
    rw [List.length_cons] at enough
    obtain ⟨limit, rfl⟩ : ∃ n, limit = n + 3 := ⟨limit - 3, by omega⟩
    cases goesOn : s.worker.payload.goesOnAfter answer with
    | false =>
      obtain rfl := Option.some.inj ((Payload.lastAnswer?_cons_of_not goesOn).symm.trans ends)
      obtain ⟨deeds, source, worker⟩ :=
        run_of_not_goesOnAfter handle asking scripted goesOn (limit + 1)
      have none : s.worker.payload.spansServed (answer :: rest) = [] :=
        Payload.spansServed_cons_of_not goesOn
      refine ⟨[], ?_, ?_, ?_, ?_⟩
      · rw [none]
        rfl
      · simp [deeds, oneByOne]
      · rw [source, List.takeWhile_cons_of_neg (by simp [goesOn])]
        rfl
      · rw [worker, none]
        rfl
    | true =>
      rw [Payload.lastAnswer?_cons goesOn] at ends
      rcases answer with e | ⟨start, stop⟩ | _
      · have retry : s.run handle (limit + 3) =
            run handle (limit + 1) { s with source := s.asked rest } :=
          congrArg (run handle (limit + 1)) (step_step_of_isRetried asking scripted goesOn)
        obtain ⟨windows, served⟩ := ih (s := { s with source := s.asked rest })
          asking rfl ends (by omega : 3 * rest.length ≤ limit + 1)
        rw [← retry] at served
        exact ⟨windows, served.retry goesOn⟩
      · cases cut : s.worker.payload.window start stop with
        | error e =>
          rw [Payload.goesOnAfter, cut] at goesOn
          cases goesOn
        | ok window =>
          have round : s.run handle (limit + 3) = run handle limit
              (s.afterRound handle rest (stop - start) (window.withActivation (s.ids 0))) :=
            congrArg (run handle limit) (steps_of_span asking scripted cut)
          obtain ⟨windows, served⟩ := ih
            (s := s.afterRound handle rest (stop - start) (window.withActivation (s.ids 0)))
            asking rfl ends (by omega : 3 * rest.length ≤ limit)
          rw [← round] at served
          exact ⟨_, served.round goesOn cut⟩
      · cases goesOn

end

/-- A worker that nobody tells to stop, on a source whose laid-out answers end in the word that
there is no more work or in a failure for good. -/
theorem serves_script (handle : η → Payload → InvocationEnd × η) (p : Payload) (h : η)
    (ids : Nat → String) {script : List (Outcome RangeAnswer)}
    (closed : ∃ answer ∈ script, closes answer = true) {limit : Nat}
    (enough : 3 * script.length ≤ limit) :
    let s := (ofScript p h ids script).run handle limit
    let steady := (ofScript p h ids (script.filter (!isRetried ·))).run handle limit
    let spans := p.spansServed script
    ∃ windows last,
      windows.map Except.ok = spans.mapIdx (fun i span =>
        (p.window span.start span.stop).map (·.withActivation (ids i))) ∧
      s.deeds = oneByOne windows (reports handle h windows) ∧
      s.source.requests = List.replicate ((script.takeWhile p.goesOnAfter).length + 1)
        ⟨p.jobKey, p.totalCalls, p.requestSize⟩ ∧
      1 ≤ p.requestSize ∧
      (∀ span ∈ spans, span.start ≤ span.stop) ∧
      p.lastAnswer? script = some last ∧
      (match last with
        | .ok .exhausted => s.worker.result? = some (.ok {
            rounds := windows.length
            calls := (spans.map fun span => span.stop - span.start).sum
            failedRounds := (reports handle h windows).count .failed })
        | .ok (.span start stop) => ∃ fault, p.window start stop = .error (.payload fault) ∧
            s.worker.result? = some (.error (.payload fault))
        | .error e => e.isTransient = false ∧ s.worker.result? = some (.error e)) ∧
      steady.deeds = s.deeds ∧ steady.worker = s.worker := by
  intro s steady spans
  obtain ⟨last, ends⟩ := p.exists_lastAnswer closed
  obtain ⟨windows, served⟩ :=
    run_served handle (s := ofScript p h ids script) rfl rfl ends enough
  have fewer : 3 * (script.filter (!isRetried ·)).length ≤ limit :=
    Nat.le_trans (Nat.mul_le_mul_left 3 (List.length_filter_le ..)) enough
  obtain ⟨windows', served'⟩ := run_served handle
    (s := ofScript p h ids (script.filter (!isRetried ·))) rfl rfl
    ((p.lastAnswer?_filter script).trans ends) fewer
  -- Both runs hand over the windows of the same spans.
  have same : p.spansServed (script.filter (!isRetried ·)) = spans := p.spansServed_filter script
  have cuts : windows'.map Except.ok = spans.mapIdx (fun i span =>
      (p.window span.start span.stop).map (·.withActivation (ids i))) := by
    rw [← same]
    exact served'.cuts
  obtain rfl : windows' = windows :=
    List.map_injective_iff.mpr (fun _ _ same => Except.ok.inj same) (cuts.trans served.cuts.symm)
  have count : spans.length = windows'.length := by
    rw [← List.length_map (f := (Except.ok : Payload → Outcome Payload)), cuts, List.length_mapIdx]
  have tally : PullTally.after {} spans (reports handle h windows') =
      { rounds := windows'.length
        calls := (spans.map fun span => span.stop - span.start).sum
        failedRounds := (reports handle h windows').count .failed } := by
    simp only [PullTally.after, count, Nat.zero_add]
  have result : s.worker.result? =
      some (p.endAt (PullTally.after {} spans (reports handle h windows')) last) := by
    rw [served.worker]
    rfl
  have settled : p.goesOnAfter last = false := by simpa using List.find?_some ends
  refine ⟨windows', last, cuts, served.deeds, served.requests, Nat.le_max_right ..,
    fun span => Payload.ordered_of_mem_spansServed, ends, ?_,
    served'.deeds.trans served.deeds.symm, ?_⟩
  · rcases last with e | ⟨start, stop⟩ | _
    · exact ⟨settled, result⟩
    · rw [Payload.goesOnAfter] at settled
      cases cut : p.window start stop with
      | error e =>
        obtain ⟨fault, rfl⟩ := Payload.window_error cut
        rw [Payload.endAt, cut] at result
        exact ⟨fault, cut, result⟩
      | ok window =>
        rw [cut] at settled
        cases settled
    · rw [← tally]
      exact result
  · rw [served.worker, served'.worker]
    exact same ▸ rfl

/-- Answers to a worker of three calls, with failures between them that do not last. -/
def patchyAnswers : List (Outcome RangeAnswer) :=
  [.error (.io "reset"), .ok (.span 0 2), .error (.http none true), .ok (.span 2 3), .ok .exhausted]

/-- A handler that counts the windows it is given and fails every other one. -/
def everyOther (n : Nat) (_ : Payload) : InvocationEnd × Nat :=
  (if n % 2 = 1 then .failed else .completed, n + 1)

theorem serves_patchyAnswers :
    (∃ answer ∈ patchyAnswers, closes answer = true) ∧ 3 * patchyAnswers.length ≤ 15 ∧
      let s := (ofScript (.numbered "e" "j" 3) 0 Activation.id patchyAnswers).run everyOther 15
      let steady := (ofScript (.numbered "e" "j" 3) 0 Activation.id
        [.ok (.span 0 2), .ok (.span 2 3), .ok .exhausted]).run everyOther 15
      s.worker.result? = some (.ok { rounds := 2, calls := 3, failedRounds := 1 }) ∧
        steady.deeds = s.deeds ∧ steady.worker = s.worker := by
  have closed : ∃ answer ∈ patchyAnswers, closes answer = true :=
    ⟨.ok .exhausted, by simp [patchyAnswers], rfl⟩
  have enough : 3 * patchyAnswers.length ≤ 15 := by decide
  obtain ⟨_, _, -, -, -, -, -, -, -, same⟩ :=
    serves_script everyOther (.numbered "e" "j" 3) 0 Activation.id closed enough
  exact ⟨closed, enough, rfl, same⟩

/-! ## A worker in time -/

/-- The window that passes with a deed. -/
def windowOf? : HandlerDeed → Option Payload
  | .given window => some window
  | .reported _ => none

/-- How many invocations a phase has under way. -/
def underWay : PullPhase → Nat
  | .running .. => 1
  | _ => 0

/-- What a worker in time, whose handler does not remember anything, and a worker on its own have in
common between two acts. -/
structure Mirrored [WorkSource σ] (w : TimedWorker) (source : σ) (s : LoneWorker σ Unit) :
    Prop where
  worker : s.worker = w.worker
  source : s.source = source
  busy : ∀ {start stop}, w.worker.phase = .running start stop → ∃ window id,
    w.worker.payload.window start stop = .ok window ∧ s.given = some (window.withActivation id)
  handed : s.deeds.filterMap windowOf? = w.log.calls.map Invocation.window
  ended : w.endedAt.isSome = w.worker.result?.isSome
  untold : w.stopAt = none
  running : w.log.running = underWay w.worker.phase
  peak : w.log.peak ≤ 1

/-- What a handler with set times makes of a window. -/
def timed (h : TimedHandler) (_ : Unit) (window : Payload) : InvocationEnd × Unit :=
  (h.status window, ())

section

variable [WorkSource σ] {w : TimedWorker} {source : σ} {s : LoneWorker σ Unit}

/-- What noting its end leaves alone of a worker. -/
theorem noteEnd_keeps (w : TimedWorker) :
    w.noteEnd.stopAt = w.stopAt ∧ w.noteEnd.handler = w.handler := by
  rw [TimedWorker.noteEnd]
  split <;> exact ⟨rfl, rfl⟩

theorem endedAt_noteEnd (goesOn : w.endedAt = none) :
    w.noteEnd.endedAt.isSome = w.worker.result?.isSome := by
  rw [TimedWorker.noteEnd]
  split
  · next ended => exact ended.symm
  · next going => simpa [goesOn] using going

/-- What an answer leaves alone of a worker. -/
theorem receive_keeps (w : TimedWorker) (answer : Outcome RangeAnswer) :
    (w.receive answer).stopAt = w.stopAt ∧ (w.receive answer).handler = w.handler ∧
      (w.receive answer).endedAt = w.endedAt := by
  rw [TimedWorker.receive]
  simp only
  split <;> exact ⟨rfl, rfl, rfl⟩

/-- A worker granted a range it cannot make a window of fails. -/
theorem handOver_of_error {v : Worker} {start stop : Nat} {e : DispatchError}
    (cut : v.payload.window start stop = .error e) (activationId : String) :
    v.handOver start stop activationId = (none, v.fail e) := by
  rw [Worker.handOver, cut]

/-- A worker granted a range it can make a window of hands the window over. -/
theorem handOver_of_window {v : Worker} {start stop : Nat} {window : Payload}
    (cut : v.payload.window start stop = .ok window) (activationId : String) :
    v.handOver start stop activationId =
      (some (window.withActivation activationId), { v with phase := .running start stop }) := by
  rw [Worker.handOver, cut]

/-- An answer puts no invocation under way. -/
theorem underWay_receive (v : Worker) (answer : Outcome RangeAnswer) :
    underWay (v.receive answer).phase = 0 := by
  rcases answer with e | ⟨start, stop⟩ | _
  · rw [Worker.receive]
    split <;> rfl
  · rfl
  · rfl

/-- What an act of a worker in time that is not told to stop and a step of its mirror image under
the activation identifier at hand have in common. -/
def Mirrored.Acts (w : TimedWorker) (source : σ) (s : LoneWorker σ Unit) (activationId : String) :
    Prop :=
  Mirrored (w.act false activationId source).1 (w.act false activationId source).2
      (step (timed w.handler) { s with ids := fun _ => activationId }) ∧
    (w.act false activationId source).1.handler = w.handler

theorem Mirrored.ask (mirrored : Mirrored w source s) (goesOn : w.endedAt = none)
    (phase : w.worker.phase = .asking) (activationId : String) :
    Mirrored.Acts w source s activationId := by
  obtain ⟨same, rfl, -, handed, -, untold, running, peak⟩ := mirrored
  rw [phase] at running
  simp only [Mirrored.Acts, TimedWorker.act, step, same, phase, Bool.false_eq_true, if_false]
  rcases WorkSource.request s.source w.worker.payload.jobKey w.worker.payload.totalCalls
    w.worker.payload.requestSize with ⟨answer, source⟩
  obtain ⟨stopAt, handler, endedAt⟩ := receive_keeps w answer
  obtain ⟨stopAt', handler'⟩ := noteEnd_keeps (w.receive answer)
  have idle := underWay_receive w.worker answer
  refine ⟨⟨by simp, rfl, fun {start stop} busy => ?_, by simpa using handed, ?_,
    stopAt'.trans (stopAt.trans untold), ?_, by simpa using peak⟩, handler'.trans handler⟩
  · rw [TimedWorker.noteEnd_worker, TimedWorker.receive_worker] at busy
    rw [busy] at idle
    cases idle
  · rw [endedAt_noteEnd (endedAt.trans goesOn), TimedWorker.noteEnd_worker]
  · rw [TimedWorker.noteEnd_log, TimedWorker.receive_log, running, TimedWorker.noteEnd_worker,
      TimedWorker.receive_worker, idle]
    rfl

theorem Mirrored.handOver (mirrored : Mirrored w source s) (goesOn : w.endedAt = none)
    {start stop : Nat} (phase : w.worker.phase = .granted start stop) (activationId : String) :
    Mirrored.Acts w source s activationId := by
  obtain ⟨same, rfl, -, handed, -, untold, running, peak⟩ := mirrored
  rw [phase] at running
  simp only [Mirrored.Acts, TimedWorker.act, step, same, phase]
  cases cut : w.worker.payload.window start stop with
  | error e =>
    simp only [TimedWorker.handOver, handOver_of_error cut]
    refine ⟨⟨by simp, rfl, fun busy => ?_, by simpa using handed, ?_, ?_, ?_, ?_⟩, ?_⟩
    · cases busy
    · rfl
    · exact untold
    · exact running
    · exact peak
    · rfl
  | ok window =>
    simp only [TimedWorker.handOver, handOver_of_window cut]
    refine ⟨⟨rfl, rfl, fun busy => ?_, ?_, ?_, untold, ?_, ?_⟩, rfl⟩
    · cases busy
      exact ⟨window, activationId, cut, rfl⟩
    · rw [List.filterMap_append, handed, TimedWorker.noteEnd_log, HandlerLog.start,
        List.map_append]
      rfl
    · exact endedAt_noteEnd goesOn
    · rw [TimedWorker.noteEnd_log, HandlerLog.start, running]
      rfl
    · rw [TimedWorker.noteEnd_log, HandlerLog.start, running]
      exact Nat.max_le.mpr ⟨peak, Nat.le_refl 1⟩

theorem Mirrored.report (mirrored : Mirrored w source s) (goesOn : w.endedAt = none)
    {start stop : Nat} (phase : w.worker.phase = .running start stop) (activationId : String) :
    Mirrored.Acts w source s activationId := by
  obtain ⟨same, rfl, busy, handed, -, untold, running, peak⟩ := mirrored
  obtain ⟨window, id, cut, given⟩ := busy phase
  rw [phase] at running
  simp only [Mirrored.Acts, TimedWorker.act, step, same, phase, given]
  refine ⟨⟨?_, rfl, fun busy => (by cases busy), ?_, ?_, untold, ?_, peak⟩, trivial⟩
  · simp only [TimedWorker.statusOf, cut]
    rfl
  · rw [List.filterMap_append, handed]
    exact List.append_nil _
  · simp [goesOn, Worker.report, Worker.result?]
  · simp [HandlerLog.finish, running, underWay, Worker.report]

/-- An act of a worker in time that is not told to stop is a step of its mirror image. -/
theorem Mirrored.act (mirrored : Mirrored w source s) (goesOn : w.endedAt = none)
    (activationId : String) : Mirrored.Acts w source s activationId := by
  cases phase : w.worker.phase with
  | asking => exact mirrored.ask goesOn phase activationId
  | granted start stop => exact mirrored.handOver goesOn phase activationId
  | running start stop => exact mirrored.report goesOn phase activationId
  | pausing =>
    obtain ⟨same, rfl, -, handed, -, untold, running, peak⟩ := mirrored
    rw [phase] at running
    simp only [Mirrored.Acts, TimedWorker.act, step, same, phase, Bool.false_eq_true, if_false]
    refine ⟨⟨rfl, rfl, fun busy => (by cases busy), handed, ?_, untold, running, peak⟩, trivial⟩
    simp [goesOn, Worker.resume, Worker.result?]
  | ended result =>
    have ended := mirrored.ended
    rw [goesOn, Worker.result?, phase] at ended
    cases ended

/-- What a step makes of the activation identifiers to come can be chosen beforehand. -/
theorem exists_ids (handle : η → Payload → InvocationEnd × η) (s : LoneWorker σ η)
    (activationId : String) (later : Nat → String) : ∃ ids,
      step handle { s with ids } =
        { step handle { s with ids := fun _ => activationId } with ids := later } := by
  cases phase : s.worker.phase with
  | granted start stop =>
    refine ⟨fun i => i.casesOn activationId later, ?_⟩
    simp only [step, phase]
    rfl
  | running start stop =>
    refine ⟨later, ?_⟩
    cases s.given <;> simp only [step, phase]
  | asking | pausing | ended =>
    refine ⟨later, ?_⟩
    simp only [step, phase]

/-- A worker in time that nobody tells to stop does what a worker on its own does. -/
theorem Mirrored.run {h : TimedHandler} (mirrored : Mirrored w source s) (handler : w.handler = h)
    (limit next : Nat) : ∃ ids w',
      (PullRun.run (fun _ => false) limit ⟨source, [w], next⟩).workers = [w'] ∧
      Mirrored w' (PullRun.run (fun _ => false) limit ⟨source, [w], next⟩).source
        (LoneWorker.run (timed h) limit { s with ids }) := by
  induction limit generalizing w source s next with
  | zero => exact ⟨s.ids, w, rfl, mirrored⟩
  | succ limit ih =>
    cases endedAt : w.endedAt with
    | some moment =>
      have ended : ∃ result, s.worker.phase = .ended result := by
        have ended := mirrored.ended
        rw [endedAt, ← mirrored.worker, Worker.result?] at ended
        split at ended
        · next result done => exact ⟨result, done⟩
        · cases ended
      obtain ⟨result, done⟩ := ended
      have still : PullRun.run (fun _ => false) (limit + 1) ⟨source, [w], next⟩ =
          ⟨source, [w], next⟩ := by
        simp only [PullRun.run, PullRun.next?, endedAt]
      rw [still]
      refine ⟨s.ids, w, rfl, ?_⟩
      rw [run_of_ended done]
      exact mirrored
    | none =>
      have turn : PullRun.run (fun _ => false) (limit + 1) ⟨source, [w], next⟩ =
          PullRun.run (fun _ => false) limit ⟨(w.act false (Activation.id next) source).2,
            [(w.act false (Activation.id next) source).1], next + 1⟩ := by
        simp only [PullRun.run, PullRun.next?, endedAt, List.getElem?_cons_zero,
          TimedWorker.isToldBy, mirrored.untold, Option.any_none, Bool.false_or,
          List.set_cons_zero]
      obtain ⟨acts, keeps⟩ := mirrored.act endedAt (Activation.id next)
      rw [handler] at acts
      obtain ⟨later, w', workers, same⟩ := ih acts (keeps.trans handler) (next + 1)
      obtain ⟨ids, first⟩ := exists_ids (timed h) s (Activation.id next) later
      rw [turn]
      refine ⟨ids, w', workers, ?_⟩
      rw [LoneWorker.run, first]
      exact same

end

/-- A worker in time that has yet to begin and that nobody tells to stop is served by a script just
as a worker on its own, however long its handler and its pauses take, and has at most one invocation
under way at a time. -/
theorem toEnd_alone {w : TimedWorker} {p : Payload} (begins : w.worker = { payload := p })
    (quiet : w.log = {} ∧ w.endedAt = none ∧ w.stopAt = none) (script : List (Outcome RangeAnswer))
    {answers : Nat} (known : script.length ≤ answers) (next : Nat) : ∃ ids limit w',
      3 * script.length ≤ limit ∧
      (PullRun.toEnd (fun _ => false) answers
        (⟨{ script }, [w], next⟩ : PullRun ScriptedSource)).workers = [w'] ∧
      w'.log.peak ≤ 1 ∧
      let s := (ofScript p () ids script).run (timed w.handler) limit
      w'.worker = s.worker ∧
        w'.log.calls.map Invocation.window = s.deeds.filterMap windowOf? ∧
        (PullRun.toEnd (fun _ => false) answers
          (⟨{ script }, [w], next⟩ : PullRun ScriptedSource)).source = s.source := by
  obtain ⟨log, endedAt, stopAt⟩ := quiet
  have alike : Mirrored w ({ script } : ScriptedSource) (ofScript p () Activation.id script) := {
    worker := begins.symm
    source := rfl
    busy := fun busy => by
      rw [begins] at busy
      cases busy
    handed := by
      rw [log]
      rfl
    ended := by
      rw [endedAt, begins]
      rfl
    untold := stopAt
    running := by
      rw [log, begins]
      rfl
    peak := by
      rw [log]
      exact Nat.zero_le 1 }
  obtain ⟨ids, w', workers, same⟩ := alike.run rfl (0 + w.actLimit answers) next
  refine ⟨ids, 0 + w.actLimit answers, w', ?_, workers, same.peak, same.worker.symm,
    same.handed.symm, same.source.symm⟩
  rw [TimedWorker.actLimit]
  omega

end LoneWorker

end CallDispatch
