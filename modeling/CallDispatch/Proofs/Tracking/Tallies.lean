import CallDispatch.Proofs.Tracking.Stretches

/-!
# What a sink is told

A wait tells a sink how many calls there are and how many have completed since the last time. It
counts in several places: what is complete when it begins, what becomes complete as answers are
recorded, and what is appended. Within one wait these add up, so that at every point the sink holds
the number of complete futures and the length of the wait set, on top of what it held before. Over
several waits the completed calls are added up and the total is not, so that a call that one wait
has counted is counted again by the next.
-/

namespace CallDispatch

/-- How many futures are complete. -/
def completeIn (download : Bool) (futures : List Future) : Nat :=
  futures.countP (·.isComplete download)

theorem completeIn_le (download : Bool) (futures : List Future) :
    completeIn download futures ≤ futures.length :=
  List.countP_le_length

/-! ## Recording -/

/-- Nothing that is recorded makes a complete future incomplete. -/
theorem Future.isComplete_recorded {download : Bool} {f : Future}
    (complete : f.isComplete download = true) (throwing : Bool) (answer : Outcome FetchAnswer) :
    (f.recorded throwing answer).isComplete download = true := by
  have status (s : StatusRecord) : (f.withStatus s).isComplete download = true := by
    unfold isComplete at complete ⊢
    cases download with
    | true => simp_all
    | false => simp
  have output (g : Future) (o : OutputRecord) : (g.withOutput o).isComplete download = true := by
    cases o <;> cases download <;> rfl
  match answer with
  | .error e => exact complete
  | .ok (.status none) => exact complete
  | .ok (.status (some s)) => exact status s
  | .ok (.result none none) => exact complete
  | .ok (.result none (some o)) =>
    simp only [recorded, record]
    split
    · exact complete
    · exact output f o
  | .ok (.result (some s) o) =>
    simp only [recorded, record]
    split
    · split
      · exact status s
      · exact output _ _
    · exact status s

namespace Recorded

variable {terms : WaitTerms}

theorem newlyComplete_add_of_some {r : Recorded} {x : Nat × Outcome FetchAnswer} {f : Future}
    (found : r.futures[x.1]? = some f) :
    (r.add terms x).newlyComplete =
      if !f.isComplete terms.download && (f.recorded terms.throwing x.2).isComplete terms.download
      then r.newlyComplete + 1 else r.newlyComplete := by
  unfold add
  rw [found]
  cases answer : x.2 with
  | error e => rfl
  | ok a => rfl

/-- What an answer adds to the count is what it makes complete. -/
theorem newlyComplete_add (r : Recorded) (x : Nat × Outcome FetchAnswer) :
    (r.add terms x).newlyComplete + completeIn terms.download r.futures =
      r.newlyComplete + completeIn terms.download (r.add terms x).futures := by
  cases found : r.futures[x.1]? with
  | none => rw [add_of_none found]
  | some f =>
    obtain ⟨below, at_⟩ := List.getElem?_eq_some_iff.mp found
    have before := List.boole_getElem_le_countP (p := (·.isComplete terms.download)) below
    rw [newlyComplete_add_of_some found, (add_of_some found).1, completeIn, completeIn,
      List.countP_set below, at_]
    rw [at_] at before
    cases was : f.isComplete terms.download with
    | true =>
      have still := f.isComplete_recorded was terms.throwing x.2
      rw [was] at before
      simp only [still, Bool.not_true, Bool.false_and, Bool.false_eq_true, if_false, if_true]
        at before ⊢
      omega
    | false =>
      cases (f.recorded terms.throwing x.2).isComplete terms.download with
      | true =>
        simp only [Bool.not_false, Bool.and_self, Bool.false_eq_true, if_true, if_false]
        omega
      | false => simp

theorem newlyComplete_foldl (answers : List (Nat × Outcome FetchAnswer)) (r : Recorded) :
    (answers.foldl (add terms) r).newlyComplete + completeIn terms.download r.futures =
      r.newlyComplete + completeIn terms.download (answers.foldl (add terms) r).futures := by
  induction answers generalizing r with
  | nil => rfl
  | cons x rest ih =>
    have first : (r.add terms x).newlyComplete + completeIn terms.download r.futures =
        r.newlyComplete + completeIn terms.download (r.add terms x).futures :=
      r.newlyComplete_add x
    have later := ih (r.add terms x)
    rw [List.foldl_cons]
    omega

end Recorded

/-! ## One wait -/

/-- Nothing that has just been appended is complete. -/
theorem completeIn_append_new (download : Bool) (futures : List Future)
    (names : List (CallName × String)) :
    completeIn download (futures ++ names.map Future.ofName) = completeIn download futures := by
  have none : ∀ f ∈ names.map Future.ofName, ¬ f.isComplete download = true := by
    intro f member
    obtain ⟨name, -, rfl⟩ := List.mem_map.mp member
    cases download <;> nofun
  rw [completeIn, List.countP_append, List.countP_eq_zero.mpr none, Nat.add_zero, completeIn]

namespace WaitState

variable {μ : Type} {s : WaitState μ} {terms : WaitTerms} {before : Nat}

/-- The sink has counted the complete futures on top of what it had counted before the wait, and its
total is the length of the wait set, unless that has been left half grown. -/
structure Tallied (download : Bool) (before : Nat) (whole : Prop) (s : WaitState μ) : Prop where
  completed : s.progress.completed = before + completeIn download s.futures
  counted : completeIn download s.futures ≤ s.progress.total
  within : s.progress.total ≤ s.futures.length
  total : whole → s.progress.total = s.futures.length

theorem Tallied.imp {download : Bool} {whole whole' : Prop}
    (tallied : s.Tallied download before whole) (less : whole' → whole) :
    s.Tallied download before whole' :=
  ⟨tallied.completed, tallied.counted, tallied.within, tallied.total ∘ less⟩

theorem tallied_of_exact {download : Bool}
    (completed : s.progress.completed = before + completeIn download s.futures)
    (total : s.progress.total = s.futures.length) (whole : Prop) :
    s.Tallied download before whole :=
  ⟨completed, total ▸ completeIn_le download s.futures, total.le, fun _ => total⟩

/-- Recorded answers are counted. -/
theorem Tallied.recordAll (tallied : s.Tallied terms.download before True)
    {answers : List (Nat × Outcome FetchAnswer)} (distinct : (answers.map (·.1)).Nodup) :
    let r := CallDispatch.recordAll terms answers s.futures
    ({ s with futures := r.futures }.tell (.inc r.newlyComplete)).Tallied terms.download before
      True := by
  intro r
  have counted : r.newlyComplete + completeIn terms.download s.futures =
      0 + completeIn terms.download r.futures :=
    Recorded.newlyComplete_foldl (sortAnswers answers) { futures := s.futures }
  have completed := tallied.completed
  refine tallied_of_exact ?_ ?_ True
  · show s.progress.completed + r.newlyComplete = before + completeIn terms.download r.futures
    omega
  · exact (tallied.total trivial).trans (length_recordAll distinct).symm

variable [Watcher μ]

/-- Growing was halted by an opening that did not come through, with the total as told before. -/
def HaltedAt (total : Nat) (provider : Provider) (after : WaitState μ × Option DispatchError) :
    Prop :=
  ∃ backend e, after.2 = some e ∧ provider.Denies backend e ∧ after.1.progress.total = total

omit [Watcher μ] in
theorem not_haltedAt_none {total : Nat} {provider : Provider} :
    ¬ HaltedAt total provider (s, none) := by
  rintro ⟨_, _, failed, -⟩
  cases failed

/-- What is appended is told, unless a backend fails to open; then the total stays as it was. -/
theorem Tallied.grow (tallied : s.Tallied terms.download before True)
    (grouped : Grouped (s.futures.map Future.name) s.units) (provider : Provider)
    (children : List (CallName × String)) :
    (s.grow provider children).1.Tallied terms.download before
      (¬ HaltedAt s.progress.total provider (s.grow provider children)) := by
  have completed := tallied.completed
  have total := tallied.total trivial
  unfold WaitState.grow
  rcases append_cases provider grouped children [] with
    ⟨units, opened, grown, appended, -⟩ |
    ⟨kept, units, opened, grown, backend, e, failed, -, closed⟩
  · rw [appended]
    dsimp only
    rw [foldl_watch]
    refine tallied_of_exact ?_ rfl _
    exact completed.trans
      (congrArg (before + ·) (completeIn_append_new terms.download s.futures children).symm)
  · -- What was appended before a backend failed to open stays, and its total is never told.
    rw [failed]
    have counted := completeIn_append_new terms.download s.futures kept
    refine ⟨completed.trans (congrArg (before + ·) counted.symm), counted.trans_le tallied.counted,
      ?_, ?_⟩
    · exact total.le.trans (by simp)
    · exact fun goesOn => absurd ⟨backend, e, rfl, closed, rfl⟩ goesOn

/-- Taking in the answers of a unit, a wait keeps its sink exact. -/
theorem Tallied.settle (tallied : s.Tallied terms.download before True)
    (grouped : Grouped (s.futures.map Future.name) s.units) (provider : Provider)
    {answers : List (Nat × Outcome FetchAnswer)} (distinct : (answers.map (·.1)).Nodup) :
    (s.settle provider terms answers).1.Tallied terms.download before
      (¬ HaltedAt s.progress.total provider (s.settle provider terms answers)) := by
  have middle := tallied.recordAll distinct
  have grouped' : Grouped ((CallDispatch.recordAll terms answers s.futures).futures.map Future.name)
      s.units := by
    rwa [names_recordAll distinct]
  have grows :=
    middle.grow grouped' provider (CallDispatch.recordAll terms answers s.futures).children
  have record : (sortAnswers answers).foldl (Recorded.add terms) { futures := s.futures } =
      CallDispatch.recordAll terms answers s.futures := rfl
  unfold WaitState.settle
  rw [record]
  dsimp only
  split
  · exact middle.imp fun _ => trivial
  · split
    · next grown =>
      rw [grown] at grows
      exact grows
    · next grown =>
      rw [grown] at grows
      exact grows.imp fun _ => not_haltedAt_none

end WaitState

namespace Wait

variable {μ : Type} {replies : Replies} {terms : WaitTerms} {before : Nat} {w w' : Wait μ}

/-- A wait whose sink is exact, if it goes on or backends always open. -/
def Tallied (replies : Replies) (terms : WaitTerms) (before : Nat) (w : Wait μ) : Prop :=
  w.state.Tallied terms.download before (replies.Opens ∨ w.IsRunning)

theorem Tallied.turns (tallied : w.Tallied replies terms before) (turns : w.Turns w') :
    w'.Tallied replies terms before := by
  unfold Tallied
  rw [turns.state]
  exact WaitState.Tallied.imp tallied (Or.imp_right turns.running)

variable [Watcher μ]

theorem Tallied.answer (tallied : w.Tallied replies terms before) (sound : w.Sound replies terms)
    {i : Nat} {targets : List Target} {u : WaitUnit} {answers : List (Nat × Outcome FetchAnswer)}
    (phase : w.phase = .fetching i targets) (found : w.state.units[i]? = some u)
    (fetched : Answers replies u.backend terms.download targets answers) :
    (w.answer answers).Tallied replies terms before := by
  obtain ⟨-, kept, absorbs⟩ := sound.answer phase found fetched
  obtain rfl := sound.terms_eq
  have running : w.IsRunning := .of_fetching phase
  have here : w.state.Tallied w.terms.download before True :=
    WaitState.Tallied.imp tallied fun _ => Or.inr running
  have settles := here.settle (sound.grouped running) w.provider absorbs.distinct
  rcases settled : w.state.settle w.provider w.terms answers with ⟨state, none | e⟩
  · rw [settled] at settles
    rw [answer_of_none phase settled]
    exact settles.imp fun _ => WaitState.not_haltedAt_none
  · rw [settled] at settles
    rw [answer_of_some phase settled]
    refine settles.imp ?_
    rintro (opens | running)
    · rintro ⟨backend, e', -, closed, -⟩
      cases opens backend _ (sound.refused closed)
    · exact absurd rfl (running (.error e))

end Wait

namespace WaitRun

variable {replies : Replies} {terms : WaitTerms} {futures : List Future} {before : Nat}
  {r r' : WaitRun}

/-- Surroundings stay within bounds, whatever happens to a run. -/
theorem Fits.happens (fits : r.Fits replies terms futures) (happens : r.Happens r') :
    r'.Fits replies terms futures := by
  cases happens with
  | turn turns => exact fits.turn turns
  | overdue _ => exact fits.checkDeadline
  | @changed time c rest ahead =>
    have now : (r.sur.change c).Within replies :=
      fits.allowed (time, c) (ahead ▸ List.mem_cons_self) r.sur fits.within
    have later : Allowed replies rest := fun e member =>
      fits.allowed e (ahead ▸ List.mem_cons_of_mem _ member)
    have heard : ({ r with timeline := rest } : WaitRun).Fits replies terms futures :=
      ⟨fits.reached, fits.within, fits.cut, later, fits.pool⟩
    exact heard.change now
  | looked => exact ⟨.watched _ fits.reached, fits.within, fits.cut, fits.allowed, fits.pool⟩
  | clock now _ => exact fits.setClock now
  | resumed => exact fits.resume

/-- Whatever happens to a run, its sink stays exact. -/
theorem Fits.tallied (fits : r.Fits replies terms futures)
    (tallied : r.wait.Tallied replies terms before) (happens : r.Happens r') :
    r'.wait.Tallied replies terms before := by
  cases happens with
  | turn turns =>
    rcases (turn_cases turns).2 with
      ⟨i, phase, isWait⟩ | ⟨i, targets, p, phase, isPool, done, isWait⟩
    · rw [isWait]
      rcases Wait.pollNext_cases r.sur.cancelled r.wait with goesOn | ⟨j, u, -, -, polled⟩
      · exact tallied.turns goesOn
      · rw [polled]
        exact WaitState.Tallied.imp tallied fun _ => Or.inr (.of_polling phase)
    · obtain ⟨u, found, answers⟩ := fits.answers phase isPool done
      rw [isWait]
      exact tallied.answer fits.reached.sound.1 phase found answers
  | overdue _ => exact tallied.turns r.checkDeadline_turns
  | @changed time c rest ahead =>
    have heard : (({ r with timeline := rest } : WaitRun).heard c).Tallied replies terms before :=
      ⟨tallied.completed, tallied.counted, tallied.within, tallied.total⟩
    exact heard.turns (change_turns _ c)
  | looked => exact ⟨tallied.completed, tallied.counted, tallied.within, tallied.total⟩
  | clock now _ => exact tallied
  | resumed => exact tallied.turns r.resume_turns

/-- A run that ended as time ran out in an opening, while the wait set grew by what had been
fetched: the sink has counted the complete futures, and has the length of the wait set before that
as its total. -/
structure EndsGrowing (start : WaitRun) (terms : WaitTerms) (before limit : Nat) (r : WaitRun) :
    Prop where
  ended : r.wait.phase = .finished (.error (.timeout limit))
  completed : r.wait.state.progress.completed =
    before + completeIn terms.download r.wait.state.futures
  total : ∃ q i targets, start.Visits q ∧ q.wait.phase = .fetching i targets ∧
    r.wait.state.progress.total = q.wait.state.futures.length

theorem EndsGrowing.happens {start : WaitRun} {limit : Nat}
    (cut : start.EndsGrowing terms before limit r) (happens : r.Happens r') :
    start.EndsGrowing terms before limit r' := by
  obtain ⟨ended, futures, progress⟩ := happens.of_finished cut.ended
  refine ⟨ended, ?_, ?_⟩
  · rw [futures, progress]
    exact cut.completed
  · rw [progress]
    exact cut.total

/-- What is kept by everything that can happen to a run, and by calling time on it in the middle of
a stretch, holds wherever the run is left. -/
theorem keeps_run {P : WaitRun → Prop} (happening : ∀ r r', P r → r.Happens r' → P r')
    (overdue : ∀ r, P r → P r.checkDeadline) {r : WaitRun} (start : P r) (turns events : Nat) :
    P (r.run turns events) := by
  have visited (r r' : WaitRun) (here : P r) (visits : r.Visits r') : P r' := by
    induction visits with
    | refl => exact here
    | tail _ happens ih => exact happening _ _ ih happens
  induction events generalizing r with
  | zero => exact start
  | succ events ih =>
    have blocked := overdue _ (visited _ _ start (r.visits_untilBlocked turns))
    have after := visited _ _ blocked (visits_runDue _)
    rw [run]
    dsimp only
    split
    · exact blocked
    · split
      · exact after
      · split
        · exact after
        · next next _ =>
          have moved := happening _ _ after
            (.clock (max ((r.untilBlocked turns).checkDeadline.runDue).now next)
              (Nat.le_max_left _ _))
          have later := visited _ _ moved (visits_runDue _)
          split
          · exact later
          · exact ih (happening _ _ later .resumed)

end WaitRun

namespace Session

variable {replies : Replies} {s : Session} {terms : WaitTerms} {timeline : List (Nat × Change)}

/-- Making its units and having them watched, a wait tells its sink nothing. -/
theorem beginWait_progress (s : Session) (terms : WaitTerms) (progress : Progress)
    (cut : Option Cut) : (s.beginWait terms progress cut).state.progress = progress := by
  rw [s.beginWait_eq terms progress cut, (Wait.enter_turns _ _).state]
  exact (s.readied_begins terms progress cut).told

theorem beginWait_futures (s : Session) (terms : WaitTerms) (progress : Progress)
    (cut : Option Cut) : (s.beginWait terms progress cut).state.futures = s.futures := by
  rw [s.beginWait_eq terms progress cut, (Wait.enter_turns _ _).futures]
  exact (s.readied_begins terms progress cut).futures

/-- A run begins with its sink exact. -/
theorem startRun_tallied (s : Session) (terms : WaitTerms) (timeline : List (Nat × Change))
    (sink : Progress) (cutIn : Option CutPoint) :
    (s.startRun terms timeline sink cutIn).wait.Tallied replies terms sink.completed := by
  unfold startRun
  dsimp only
  refine WaitState.tallied_of_exact ?_ ?_ _
  · rw [beginWait_progress, beginWait_futures, completeIn, List.countP_eq_length_filter]
    rfl
  · rw [beginWait_progress, beginWait_futures]
    rfl

/-- At its end a wait that was run tells the sink so. -/
theorem progress_of_incomplete (timeline : List (Nat × Change)) {sink : Progress}
    {cutIn : Option CutPoint} {r : WaitRun}
    (open_ : s.futures.all (·.isComplete terms.download) = false)
    (ran : (s.startRun terms timeline sink cutIn).run s.limit s.limit = r) :
    (s.wait terms timeline sink cutIn).2.2.progress = r.wait.state.progress.tell .close ∧
      (s.wait terms timeline sink cutIn).2.2.futures = r.wait.state.futures := by
  subst ran
  unfold wait
  rw [if_neg (by simp [open_])]
  exact ⟨rfl, rfl⟩

/-- What a sink is told of a wait that polls, whatever the stores and the backends do. -/
theorem wait_tallied (within : s.sur.Within replies) (allowed : WaitRun.Allowed replies timeline)
    (open_ : s.futures.all (·.isComplete terms.download) = false) (sink : Progress)
    (cutIn : Option CutPoint) (cutting : Cutting replies (cutBy terms cutIn)) :
    let (after, _, report) := s.wait terms timeline sink cutIn
    report.futures = after.futures ∧ report.progress.closed = true ∧
      report.progress.completed = sink.completed + completeIn terms.download after.futures ∧
      completeIn terms.download after.futures ≤ report.progress.total ∧
      report.progress.total ≤ after.futures.length ∧
      (replies.Opens → report.progress.total = after.futures.length) := by
  let r := (s.startRun terms timeline sink cutIn).run s.limit s.limit
  have kept := WaitRun.keeps_run
    (P := fun r => r.Fits replies terms s.futures ∧ r.wait.Tallied replies terms sink.completed)
    (fun r r' ⟨fits, tallied⟩ happens => ⟨fits.happens happens, fits.tallied tallied happens⟩)
    (fun r ⟨fits, tallied⟩ => ⟨fits.checkDeadline, tallied.turns r.checkDeadline_turns⟩)
    ⟨startRun_fits within allowed cutting, s.startRun_tallied terms timeline sink cutIn⟩
  have tallied : r.wait.Tallied replies terms sink.completed := (kept s.limit s.limit).2
  have left : (s.wait terms timeline sink cutIn).1.futures = r.wait.state.futures :=
    (wait_of_incomplete timeline open_ rfl).1
  obtain ⟨told, listed⟩ :
      (s.wait terms timeline sink cutIn).2.2.progress = r.wait.state.progress.tell .close ∧
        (s.wait terms timeline sink cutIn).2.2.futures = r.wait.state.futures :=
    progress_of_incomplete timeline open_ rfl
  dsimp only
  rw [left, told, listed]
  exact ⟨rfl, rfl, tallied.completed, tallied.counted, tallied.within,
    fun opens => tallied.total (Or.inl opens)⟩

namespace Mixed

/-- One call that dispatched two others, and one that failed. -/
def session : Session where
  futures :=
    [{ key := ⟨"e", "j", "0"⟩, backend := "b" }, { key := ⟨"e", "j", "1"⟩, backend := "b" }]
  sur := { stores := ⟨[("b", {
    statuses := [(⟨"e", "j", "0"⟩, .ok), (⟨"e", "j", "1"⟩, { success := false })]
    outputs := [(⟨"e", "j", "0"⟩, .calls [⟨"e", "j", "2"⟩, ⟨"e", "k", "0"⟩])] })]⟩ }
  monitorInterval := 10
  storage := { interval := 10 }
  limit := 20

def forOutputs : WaitTerms := { download := true, timeout := some 70 }

def sink : Progress := { completed := 5, total := 9 }

end Mixed

end Session

/-! ## Several waits -/

/-- Backends and stores that may do anything. -/
def Replies.anything : Replies where
  opening _ _ := True
  status _ _ _ := True
  output _ _ _ := True

/-- A call on an engine: to wait and split the wait set, or to wait for its values. -/
inductive EngineCall where
  | wait (s : Session) (terms : WaitTerms) (timeline : List (Nat × Change))
  | values (s : Session) (terms : WaitTerms) (timeline : List (Nat × Change))

namespace EngineCall

def session : EngineCall → Session
  | .wait s _ _ => s
  | .values s _ _ => s

/-- The terms a call waits on. -/
def terms : EngineCall → WaitTerms
  | .wait _ terms _ => terms
  | .values _ terms _ => { terms with download := true, goal := .all }

def timeline : EngineCall → List (Nat × Change)
  | .wait _ _ timeline => timeline
  | .values _ _ timeline => timeline

/-- What a call reports, with a sink that has been told of earlier calls. -/
def report (sink : Progress) : EngineCall → WaitReport
  | .wait s terms timeline => (s.waitSplit terms timeline sink).2
  | .values s terms timeline => (s.waitValues terms timeline sink).2

theorem report_told (c : EngineCall) (sink : Progress) :
    (c.report sink).progress = (c.session.wait c.terms c.timeline sink).2.2.progress ∧
      (c.report sink).futures = (c.session.wait c.terms c.timeline sink).2.2.futures := by
  cases c <;> exact ⟨rfl, rfl⟩

/-- Whether a call finds anything to wait for. -/
def polls (c : EngineCall) : Bool :=
  !c.session.futures.all (·.isComplete c.terms.download)

/-- The sink after some calls. -/
def sinkAfter (sink : Progress) (calls : List EngineCall) : Progress :=
  calls.foldl (fun sink c => (c.report sink).progress) sink

/-- How many futures a call leaves complete, if it finds anything to wait for. -/
def counted (sink : Progress) (c : EngineCall) : Nat :=
  if c.polls then completeIn c.terms.download (c.report sink).futures else 0

/-- How many futures some calls leave complete, each future counted with each call. -/
def countedIn (sink : Progress) : List EngineCall → Nat
  | [] => 0
  | c :: rest => c.counted sink + countedIn (c.report sink).progress rest

/-- What one call makes of a sink: nothing if there is nothing to wait for. -/
theorem report_cases (c : EngineCall) (sink : Progress) :
    (c.polls = false ∧ (c.report sink).progress = sink ∧ c.counted sink = 0) ∨
    (c.polls = true ∧
      (c.report sink).progress.completed = sink.completed + c.counted sink ∧
      c.counted sink ≤ (c.report sink).progress.total ∧
      (c.report sink).progress.total ≤ (c.report sink).futures.length ∧
      (c.report sink).progress.closed = true) := by
  obtain ⟨told, listed⟩ := c.report_told sink
  unfold counted
  rw [told, listed]
  cases polls : c.polls with
  | false =>
    have complete : c.session.futures.all (·.isComplete c.terms.download) = true := by
      simpa only [EngineCall.polls, Bool.not_eq_false'] using polls
    refine Or.inl ⟨rfl, ?_, rfl⟩
    unfold Session.wait
    rw [if_pos complete]
  | true =>
    have open_ : c.session.futures.all (·.isComplete c.terms.download) = false := by
      simpa only [EngineCall.polls, Bool.not_eq_true'] using polls
    have within : c.session.sur.Within .anything :=
      ⟨fun _ => trivial, fun _ _ => trivial, fun _ _ => trivial⟩
    have allowed : WaitRun.Allowed .anything c.timeline :=
      fun _ _ _ _ => ⟨fun _ => trivial, fun _ _ => trivial, fun _ _ => trivial⟩
    obtain ⟨futures, closed, completed, counted, total, -⟩ :=
      Session.wait_tallied within allowed open_ sink none .none
    rw [← futures] at completed counted total
    exact Or.inr ⟨rfl, completed, counted, total, closed⟩

theorem completed_sinkAfter (sink : Progress) (calls : List EngineCall) :
    (sinkAfter sink calls).completed = sink.completed + countedIn sink calls := by
  induction calls generalizing sink with
  | nil => rfl
  | cons c rest ih =>
    have later : sinkAfter sink (c :: rest) = sinkAfter (c.report sink).progress rest := rfl
    rw [later, ih, countedIn, ← Nat.add_assoc]
    congr 1
    rcases c.report_cases sink with ⟨-, same, none⟩ | ⟨-, completed, -⟩
    · rw [same, none, Nat.add_zero]
    · exact completed

theorem sinkAfter_concat (sink : Progress) (earlier : List EngineCall) (c : EngineCall) :
    sinkAfter sink (earlier ++ [c]) = (c.report (sinkAfter sink earlier)).progress :=
  List.foldl_concat _ _ _ _

/-- Of several calls that tell one sink, each that finds anything to wait for adds all futures it
leaves complete to those counted before, and sets the total anew, to no less than it adds and no
more than the length of its wait set. So the sink holds no more than its total as long as nothing
was counted before the last of these calls; beyond that it may. -/
theorem snapshots_add_up (sink : Progress) (earlier : List EngineCall) (c : EngineCall) :
    let before := sinkAfter sink earlier
    let after := sinkAfter sink (earlier ++ [c])
    after.completed = sink.completed + countedIn sink (earlier ++ [c]) ∧
      (c.polls = false → after = before) ∧
      (c.polls = true →
        after.completed = before.completed + c.counted before ∧
        c.counted before ≤ after.total ∧ after.total ≤ (c.report before).futures.length ∧
        after.closed = true ∧ (before.completed = 0 → after.completed ≤ after.total)) := by
  intro before after
  have last : after = (c.report before).progress := sinkAfter_concat sink earlier c
  refine ⟨completed_sinkAfter sink _, ?_⟩
  rw [last]
  rcases c.report_cases before with
    ⟨idle, same, -⟩ | ⟨polls, completed, counted, total, closed⟩
  · exact ⟨fun _ => same, fun polls => absurd (idle.symm.trans polls) nofun⟩
  · refine ⟨fun idle => absurd (idle.symm.trans polls) nofun, fun _ => ?_⟩
    exact ⟨completed, counted, total, closed, fun none => by omega⟩

/-! ### Waiting for one call and then for the rest -/

namespace Again

/-- Two calls, the first of which has succeeded. -/
def session : Session where
  futures :=
    [{ key := ⟨"e", "j", "0"⟩, backend := "b" }, { key := ⟨"e", "j", "1"⟩, backend := "b" }]
  sur := { stores := ⟨[("b", ({} : Store).complete ⟨"e", "j", "0"⟩ .null)]⟩ }
  monitorInterval := 10
  storage := { interval := 10 }
  limit := 20

def waitForOne : EngineCall := .wait session { goal := .any } []

/-- The session once the other call has succeeded as well. -/
def later : Session :=
  (session.waitSplit { goal := .any } []).1.change (.complete "b" ⟨"e", "j", "1"⟩ .null)

def waitForAll : EngineCall := .wait later {} []

/-- What the wait for one has counted, the wait for all counts again: three calls out of two. -/
theorem snapshots_add_up_again :
    let sink := sinkAfter {} [waitForOne, waitForAll]
    sink.completed = countedIn {} [waitForOne, waitForAll] ∧ sink.completed = 1 + 2 ∧
      sink.total = 2 := by
  obtain ⟨sums, -, polling⟩ := snapshots_add_up {} [waitForOne] waitForAll
  obtain ⟨added, -⟩ := polling (by cbv)
  have first : (sinkAfter {} [waitForOne]).completed = 1 := by cbv
  have second : waitForAll.counted (sinkAfter {} [waitForOne]) = 2 := by cbv
  refine ⟨sums.trans (Nat.zero_add _), ?_, by cbv⟩
  rw [first, second] at added
  exact added

/-- A sink that hears of several waits may hold more completed calls than there are. -/
theorem completed_exceeds_total : ¬ ∀ calls : List EngineCall,
    (sinkAfter {} calls).completed ≤ (sinkAfter {} calls).total := by
  intro bounded
  have exceeds : ¬ (sinkAfter {} [waitForOne, waitForAll]).completed ≤
      (sinkAfter {} [waitForOne, waitForAll]).total := by cbv
  exact exceeds (bounded _)

end Again

end EngineCall

end CallDispatch
