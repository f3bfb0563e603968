import CallDispatch.Proofs.Tracking.Lineage
import CallDispatch.Proofs.Tracking.Points
import Mathlib.Data.List.Perm.Subperm

/-!
# Stretches of turns

Between two moments at which something is due, a wait goes on for a stretch of turns. Every turn
brings it closer to the end of its pass, and the units of a pass are no more than the calls that
stores can ever list. So there is a number of turns that no stretch exceeds, and a wait that may
take as many in one ends at a point of its run.
-/

namespace CallDispatch

/-- A future whose call and whose dispatched calls are among given ones. -/
structure Future.Known (calls : List CallName) (f : Future) : Prop where
  key : f.key ∈ calls
  children : ∀ key ∈ f.children, key ∈ calls

namespace Future

variable {calls : List CallName} {limit : Option Nat} {f : Future}

theorem Known.withStatus (known : f.Known calls) (s : StatusRecord) :
    (f.withStatus s).Known calls := by
  refine ⟨?_, ?_⟩
  · rw [key_eq_of_name (f.withStatus_name s)]
    exact known.key
  · rw [withStatus_children]
    exact known.children

theorem Known.withOutput (known : f.Known calls) {o : OutputRecord}
    (inside : ∀ key ∈ o.keys, key ∈ calls) : (f.withOutput o).Known calls := by
  cases o with
  | value v => exact ⟨known.key, known.children⟩
  | calls keys => exact ⟨known.key, inside⟩

theorem Known.recorded (known : f.Known calls) {backend : String} {download : Bool} {index : Nat}
    {answer : Outcome FetchAnswer} (throwing : Bool)
    (comes : (f.target index).Comes (.listing calls limit) backend download (.finished answer)) :
    (f.recorded throwing answer).Known calls := by
  rcases recorded_cases throwing comes with same | ⟨s, same, -, -⟩ |
      ⟨o, same, -, replied, -⟩ | ⟨s, o, same, -, -, -, -, replied, -⟩
  · rwa [same]
  · rw [same]
    exact known.withStatus s
  · rw [same]
    exact known.withOutput (replied.2 o rfl)
  · rw [same]
    exact (known.withStatus s).withOutput (replied.2 o rfl)

end Future

/-- Taking in answers, a wait set meets only calls that it knew or that outputs list. -/
theorem Absorbs.known {calls : List CallName} {limit : Option Nat} {terms : WaitTerms}
    {answers : List (Nat × Outcome FetchAnswer)} {kept : List (CallName × String)}
    {earlier later : List Future}
    (absorbs : Absorbs (.listing calls limit) terms answers kept earlier later)
    (known : ∀ f ∈ earlier, f.Known calls) : ∀ g ∈ later, g.Known calls := by
  have each (i : Nat) (f : Future) (found : earlier[i]? = some f) :
      (f.answered terms.throwing (sortAnswers answers) i).Known calls := by
    have before := known f (List.mem_of_getElem? found)
    rcases absorbs.answered_cases found with ⟨same, -⟩ | ⟨x, -, -, same, -, first, -, comes⟩
    · rwa [same]
    · rw [same]
      exact before.recorded terms.throwing comes
  intro g member
  obtain ⟨i, found⟩ := List.getElem?_of_mem member
  rcases absorbs.getElem?_cases found with ⟨f, before, rfl⟩ | ⟨-, name, listed, rfl⟩
  · exact each i f before
  · refine ⟨?_, nofun⟩
    -- The call was dispatched by a future of the wait set as it is now.
    have appended := absorbs.appended.subset listed
    rw [children_recordAll absorbs.distinct] at appended
    obtain ⟨x, answered, inside⟩ := List.mem_flatMap.mp appended
    unfold Recorded.adoptedAt at inside
    split at inside
    · next f at_ =>
      unfold Future.adopted at inside
      split at inside
      · obtain ⟨key, child, rfl⟩ := List.mem_map.mp inside
        have own := each x.1 f at_
        rw [Future.answered_of_mem (distinct_sorted absorbs.distinct) answered] at own
        exact own.children key child
      · cases inside
    · cases inside

theorem Absorbed.known {calls : List CallName} {limit : Option Nat} {earlier later : List Future}
    (absorbed : Absorbed (.listing calls limit) earlier later)
    (known : ∀ f ∈ earlier, f.Known calls) : ∀ g ∈ later, g.Known calls := by
  induction absorbed with
  | refl => exact known
  | tail _ step ih =>
    obtain ⟨terms, answers, kept, absorbs⟩ := step
    exact absorbs.known ih

/-- There are no more units than joined keys that their calls could have. -/
theorem Grouped.length_le_keys {keys : List String} {names : List (CallName × String)}
    {units : List WaitUnit} (grouped : Grouped names units)
    (inside : ∀ n ∈ names, n.1.jobKey ∈ keys) : units.length ≤ keys.length := by
  have among : units.map WaitUnit.jobKey ⊆ keys := by
    intro key listed
    obtain ⟨u, member, rfl⟩ := List.mem_map.mp listed
    obtain ⟨n, atHead, -⟩ := grouped.first u member
    obtain ⟨known, same⟩ := jobKey_of_firstOf atHead
    exact same ▸ inside n known
  have fewer := (grouped.distinct.subperm among).length_le
  rwa [List.length_map] at fewer

/-- There are no more units than calls that could be in them. -/
theorem Grouped.length_le {calls : List CallName} {names : List (CallName × String)}
    {units : List WaitUnit} (grouped : Grouped names units)
    (inside : ∀ n ∈ names, n.1 ∈ calls) : units.length ≤ calls.length := by
  have fewer := grouped.length_le_keys fun n known => List.mem_map_of_mem (inside n known)
  rwa [List.length_map] at fewer

/-- How many turns a stretch may still go on, with so many units at most. -/
def Phase.ahead (bound : Nat) : Phase → Nat
  | .polling i => 2 * (bound - i) + 1
  | .fetching i _ => 2 * (bound - i)
  | _ => 0

theorem Phase.ahead_le (bound : Nat) (phase : Phase) : phase.ahead bound ≤ 2 * bound + 1 := by
  cases phase <;> simp only [ahead] <;> omega

namespace WaitRun

variable {calls : List CallName} {terms : WaitTerms} {futures : List Future} {r r' : WaitRun}
  {limit : Option Nat}

/-- A wait meets no more units than there are calls it can know. -/
theorem Contained.units_le (contained : r.Contained calls terms futures limit)
    (known : ∀ f ∈ futures, f.Known calls) (running : r.wait.IsRunning) :
    r.wait.state.units.length ≤ calls.length := by
  have sound := contained.reached.sound
  refine (sound.1.grouped running).length_le ?_
  intro n listed
  obtain ⟨f, member, rfl⟩ := List.mem_map.mp listed
  exact (sound.2.known known f member).key

/-- Every turn shortens what is left of a stretch. -/
theorem Contained.ahead_lt (contained : r.Contained calls terms futures limit)
    (known : ∀ f ∈ futures, f.Known calls) (turns : r.turn = some r') :
    r'.wait.phase.ahead calls.length < r.wait.phase.ahead calls.length := by
  rcases (turn_cases turns).2 with ⟨i, phase, isWait⟩ | ⟨i, targets, p, phase, -, -, isWait⟩
  · have few := contained.units_le known (.of_polling phase)
    have now : r.wait.phase.ahead calls.length = 2 * (calls.length - i) + 1 := by
      rw [phase]
      rfl
    rw [now, isWait]
    cases found : r.wait.state.units[i]? with
    | none =>
      have ended : (r.wait.passed r.sur.cancelled).phase.ahead calls.length = 0 := by
        unfold Wait.passed
        split
        · rfl
        · split <;> rfl
      rw [Wait.pollNext_of_passed phase found, ended]
      exact Nat.succ_pos _
    | some u =>
      have below := (List.getElem?_eq_some_iff.mp found).1
      unfold Wait.pollNext
      simp only [phase, found]
      split
      · simp only [Phase.ahead]
        omega
      · simp only [Phase.ahead]
        omega
  · have few := contained.units_le known (.of_fetching phase)
    obtain ⟨u, found, -⟩ := contained.reached.sound.1.fetching i targets phase
    have below := (List.getElem?_eq_some_iff.mp found).1
    have now : r.wait.phase.ahead calls.length = 2 * (calls.length - i) := by
      rw [phase]
      rfl
    rw [now, isWait]
    rcases settled : r.wait.state.settle r.wait.provider r.wait.terms p.answers with
      ⟨state, none | e⟩
    · rw [Wait.answer_of_none phase settled]
      simp only [Phase.ahead]
      omega
    · rw [Wait.answer_of_some phase settled]
      simp only [Phase.ahead]
      omega

/-- With enough turns allowed, a stretch is not cut short. -/
theorem Contained.steady (contained : r.Contained calls terms futures limit)
    (known : ∀ f ∈ futures, f.Known calls) {fuel : Nat}
    (enough : r.wait.phase.ahead calls.length ≤ fuel) :
    (r.untilBlocked fuel).turn = none := by
  induction fuel generalizing r with
  | zero =>
    cases turns : r.turn with
    | none => exact turns
    | some r' =>
      have shorter := contained.ahead_lt known turns
      omega
  | succ fuel ih =>
    rw [untilBlocked_succ]
    cases turns : r.turn with
    | none => exact turns
    | some r' =>
      have shorter := contained.ahead_lt known turns
      exact ih (contained.happens (.turn turns)) (by omega)

end WaitRun

namespace Session

variable {s : Session} {terms : WaitTerms} {timeline : List (Nat × Change)}

/-- All calls that a wait may meet. -/
def calls (s : Session) (timeline : List (Nat × Change)) : List CallName :=
  s.sur.stores.listed ++ (timeline.flatMap fun e => e.2.listed) ++
    s.futures.flatMap fun f => f.key :: f.children

theorem known_calls (s : Session) (timeline : List (Nat × Change)) :
    ∀ f ∈ s.futures, f.Known (s.calls timeline) := by
  have inside (f : Future) (member : f ∈ s.futures) (key : CallName)
      (own : key ∈ f.key :: f.children) : key ∈ s.calls timeline :=
    List.mem_append_right _ (List.mem_flatMap.mpr ⟨f, member, own⟩)
  intro f member
  exact ⟨inside f member _ List.mem_cons_self,
    fun key child => inside f member key (List.mem_cons_of_mem _ child)⟩

/-- The limits that time may run out by in an opening or a sweep. -/
def limitOf (terms : WaitTerms) (cutIn : Option CutPoint) : Option Nat :=
  (cutBy terms cutIn).map Cut.limit

theorem startRun_contained (s : Session) (terms : WaitTerms) (timeline : List (Nat × Change))
    (sink : Progress := {}) (cutIn : Option CutPoint := none) :
    (s.startRun terms timeline sink cutIn).Contained (s.calls timeline) terms s.futures
      (limitOf terms cutIn) := by
  have stores : ∀ key ∈ s.sur.stores.listed, key ∈ s.calls timeline := fun key listed =>
    List.mem_append_left _ (List.mem_append_left _ listed)
  have cutting : Cutting (.listing (s.calls timeline) (limitOf terms cutIn))
      (cutBy terms cutIn) :=
    fun c same _ => Or.inr ⟨c.limit, congrArg (Option.map Cut.limit) same, rfl⟩
  have fits : (s.startRun terms [] sink cutIn).Fits
      (.listing (s.calls timeline) (limitOf terms cutIn)) terms s.futures :=
    startRun_fits (Surroundings.within_listing stores) nofun cutting
  refine ⟨fits, stores, fun e member key listed => ?_⟩
  obtain ⟨e', ahead, rfl⟩ := List.mem_map.mp member
  exact List.mem_append_left _
    (List.mem_append_right _ (List.mem_flatMap.mpr ⟨e', ahead, listed⟩))

/-- With enough turns allowed, the run of a wait is at a point of its own after however many
moments. -/
theorem run_visits (s : Session) (terms : WaitTerms) (timeline : List (Nat × Change))
    (sink : Progress := {}) (cutIn : Option CutPoint := none) :
    ∃ enough, ∀ turns, enough ≤ turns → ∀ events, (s.startRun terms timeline sink cutIn).Visits
      ((s.startRun terms timeline sink cutIn).run turns events) := by
  refine ⟨2 * (s.calls timeline).length + 1, fun turns enough events => ?_⟩
  refine WaitRun.visits_run events fun r visits => ?_
  have contained := (s.startRun_contained terms timeline sink cutIn).visits visits
  exact contained.steady (s.known_calls timeline) ((r.wait.phase.ahead_le _).trans enough)

end Session

end CallDispatch
