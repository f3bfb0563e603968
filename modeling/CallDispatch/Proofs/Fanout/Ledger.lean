import CallDispatch.Proofs.Fanout.Manning
import CallDispatch.Proofs.Fanout.Shares

/-!
# What a fleet has launched

A queue holds the last of the messages published, so that the number of the message a site gets next
never goes back: each message reaches a site at most once. While a station handles a message, the
calls launched for it are the first part of the site's share and the calls still to be launched are
the rest. Once the message is judged, neither changes any more.
-/

namespace CallDispatch

open Dispatch (advanced pending)

/-- The handling of a message at a site, before anything is launched. -/
def Layout.jobOf (layout : Layout) (site : Site) (body : List UInt8) : Outcome (Option Dispatch) :=
  Dispatch.ofBody layout.cluster site.range body

namespace Fleet

variable {layout : Layout} {f f' : Fleet} {e : FleetEvent}

/-- Whether the station of a position handles a message, and what is left of it. -/
def WorksOn (f : Fleet) (i : Nat) (site : Site) (message : Nat)
    (job : Outcome (Option Dispatch)) : Prop :=
  ∃ st, f.stations[i]? = some st ∧ st.site = site ∧ st.duty = .working message job

/-- The calls of a message that a site has launched. -/
def indexes (f : Fleet) (site : Site) (message : Nat) : List Nat :=
  (f.launches.filter fun c => c.site = site ∧ c.message = message).map Launch.index

/-- How far a site has come with a message: `count` calls are launched, and `job` is left. -/
structure Reached (layout : Layout) (f : Fleet) (site : Site) (message : Nat) (body : List UInt8)
    (count : Nat) (job : Outcome (Option Dispatch)) : Prop where
  published : f.published[message]? = some body
  left : job = advanced (layout.jobOf site body) count
  launched : f.indexes site message = (pending (layout.jobOf site body)).take count

/-! ## Messages -/

/-- How the messages move on: some are published, and queues let go of their first ones. -/
structure Passes (layout : Layout) (f f' : Fleet) : Prop where
  grows : f.published <+: f'.published
  suffix : ∀ site ∈ layout.sites, f'.waiting layout site <:+ f'.published
  onward : ∀ site ∈ layout.sites, f.next layout site ≤ f'.next layout site

theorem Passes.of_same (suffix : ∀ site ∈ layout.sites, f.waiting layout site <:+ f.published)
    (published : f'.published = f.published)
    (waiting : ∀ site, f'.waiting layout site = f.waiting layout site) : Passes layout f f' where
  grows := published ▸ List.prefix_rfl
  suffix site inside := by
    rw [published, waiting]
    exact suffix site inside
  onward site _ := by rw [next, next, published, waiting]

theorem Moves.passes (moves : Moves layout f e f')
    (suffix : ∀ site ∈ layout.sites, f.waiting layout site <:+ f.published) :
    Passes layout f f' := by
  cases moves with
  | publish body =>
    refine ⟨List.prefix_append _ _, fun site inside => ?_, fun site inside => ?_⟩
    · rw [waiting_publish]
      split
      · obtain ⟨gone, split⟩ := suffix site inside
        exact ⟨gone, by rw [← split, List.append_assoc]⟩
      · next unbound =>
        have none : f.waiting layout site = [] :=
          Broker.waitingAt_of_unbound (by simpa using unbound)
        rw [none]
        exact List.nil_suffix
    · rw [next, next, waiting_publish]
      split <;> simp only [List.length_append, List.length_singleton, List.length_nil] <;> omega
  | declare inside =>
    exact .of_same suffix rfl fun site => Broker.waitingAt_declare _ _ _ _
  | hire inside => exact .of_same suffix rfl fun _ => rfl
  | enlist found off free =>
    exact .of_same suffix rfl fun site => Broker.waitingAt_enlist _ _ _ _
  | turnAway found off e =>
    exact .of_same suffix rfl fun site => Broker.waitingAt_declare _ _ _ _
  | tell found => exact .of_same suffix rfl fun _ => rfl
  | @take i st found on body rest waiting =>
    refine ⟨List.prefix_rfl, fun site inside => ?_, fun site inside => ?_⟩
    · rw [waiting_setStation, waiting_advance]
      exact (List.drop_suffix _ _).trans (suffix site inside)
    · rw [next_setStation, next, next, waiting_advance, List.length_drop]
      exact Nat.sub_le_sub_left (Nat.sub_le _ _) _
  | leave found on told => exact .of_same suffix rfl fun site => Broker.waitingAt_drop _ _ _ _
  | launch found on first single told free => exact .of_same suffix rfl fun _ => rfl
  | settle found on ending counted => exact .of_same suffix rfl fun _ => rfl
  | cut found on ending uncounted =>
    exact .of_same suffix rfl fun site => Broker.waitingAt_drop _ _ _ _
  | start found at_ => exact .of_same suffix rfl fun _ => rfl
  | finish found at_ home => exact .of_same suffix rfl fun _ => rfl

/-! ## Stations at work -/

/-- Who works on what after a station has changed. -/
theorem worksOn_set {i j : Nat} {st' : Station} {site : Site} {message : Nat}
    {job : Outcome (Option Dispatch)} (stations : f'.stations = f.stations.set i st')
    (works : f'.WorksOn j site message job) :
    (j = i ∧ st'.site = site ∧ st'.duty = .working message job) ∨
      (j ≠ i ∧ f.WorksOn j site message job) := by
  obtain ⟨st, found, at_, on⟩ := works
  rw [stations] at found
  rcases getElem?_set_cases found with ⟨same, rfl⟩ | ⟨ne, old⟩
  · exact Or.inl ⟨same, at_, on⟩
  · exact Or.inr ⟨ne, st, old, at_, on⟩

theorem worksOn_of_off {i j : Nat} {st' : Station} {site : Site} {message : Nat}
    {job : Outcome (Option Dispatch)} (stations : f'.stations = f.stations.set i st')
    (off : ∀ message job, st'.duty ≠ .working message job)
    (works : f'.WorksOn j site message job) : j ≠ i ∧ f.WorksOn j site message job := by
  rcases worksOn_set stations works with ⟨-, -, on⟩ | others
  · exact absurd on (off _ _)
  · exact others

theorem worksOn_of_same {i j : Nat} {st : Station} (st' : Station) {site : Site} {message : Nat}
    {job : Outcome (Option Dispatch)} (found : f.stations[i]? = some st)
    (stations : f'.stations = f.stations.set i st') (same : st'.site = st.site)
    (duty : st'.duty = st.duty) (works : f'.WorksOn j site message job) :
    f.WorksOn j site message job := by
  rcases worksOn_set stations works with ⟨rfl, at_, on⟩ | ⟨-, old⟩
  · exact ⟨st, found, same ▸ at_, duty ▸ on⟩
  · exact old

theorem WorksOn.inside {i : Nat} {site : Site} {message : Nat} {job : Outcome (Option Dispatch)}
    (works : f.WorksOn i site message job) (manned : f.Manned layout) : site ∈ layout.sites := by
  obtain ⟨st, found, rfl, -⟩ := works
  exact manned.placed st (List.mem_of_getElem? found)

/-- Only one station works at a site. -/
theorem WorksOn.unique {i j : Nat} {site : Site} {message other : Nat}
    {job job' : Outcome (Option Dispatch)} (works : f.WorksOn i site message job)
    (works' : f.WorksOn j site other job') (manned : f.Manned layout) : i = j := by
  obtain ⟨st, found, at_, on⟩ := works
  obtain ⟨st', found', at', on'⟩ := works'
  exact manned.alone i j st st' found found' (by rw [on]; rfl) (by rw [on']; rfl)
    (at_.trans at'.symm)

/-! ## Calls -/

theorem indexes_of_launches (same : f'.launches = f.launches) (site : Site) (message : Nat) :
    f'.indexes site message = f.indexes site message := by
  rw [indexes, indexes, same]

theorem launches_setCall {n : Nat} {c c' : CallRecord} (found : f.calls[n]? = some c)
    (same : c'.toLaunch = c.toLaunch) : (f.setCall n c').launches = f.launches :=
  map_set_self found same

theorem indexes_concat {new : Launch} (launches : f'.launches = f.launches ++ [new]) (site : Site)
    (message : Nat) : f'.indexes site message =
      f.indexes site message ++
        if new.site = site ∧ new.message = message then [new.index] else [] := by
  rw [indexes, indexes, launches, List.filter_append, List.map_append]
  congr 1
  by_cases same : new.site = site ∧ new.message = message
  · simp [same]
  · rw [if_neg same]
    simp [same]

/-! ## The ledger -/

/-- What holds of a message a station handles: it has arrived, and it has not been judged. -/
structure AtWork (layout : Layout) (f : Fleet) (site : Site) (message : Nat)
    (job : Outcome (Option Dispatch)) : Prop where
  arrived : message < f.next layout site
  unjudged : ∀ v ∈ f.verdicts, v.site = site → v.message ≠ message
  reached : ∃ body count, Reached layout f site message body count job

/-- What holds of a verdict: the handling has come to that end. -/
structure Judged (layout : Layout) (f : Fleet) (v : Verdict) : Prop where
  inside : v.site ∈ layout.sites
  arrived : v.message < f.next layout v.site
  reached : ∃ body count job told free, Reached layout f v.site v.message body count job ∧
    Dispatch.ending? told free job = some v.result

/-- What holds of the call with a number: its handler gets the payload of its message, cut down to
the call, under the activation identifier of the number. -/
structure Sent (layout : Layout) (f : Fleet) (n : Nat) (c : Launch) : Prop where
  inside : c.site ∈ layout.sites
  arrived : c.message < f.next layout c.site
  window : ∃ body p call, f.published[c.message]? = some body ∧ Payload.ofBytes body = .ok p ∧
    p.single c.index = .ok call ∧ c.window = call.withActivation (layout.ids n)

/-- What holds of messages, stations and calls at every moment. -/
structure Ledger (layout : Layout) (f : Fleet) : Prop where
  suffix : ∀ site ∈ layout.sites, f.waiting layout site <:+ f.published
  working : ∀ i site message job, f.WorksOn i site message job →
    AtWork layout f site message job
  judged : ∀ v ∈ f.verdicts, Judged layout f v
  launched : ∀ (n : Nat) (c : Launch), f.launches[n]? = some c → Sent layout f n c
  share : ∀ c ∈ f.launches, ∃ body, f.published[c.message]? = some body ∧
    f.indexes c.site c.message <+: pending (layout.jobOf c.site body)

theorem getElem?_of_prefix {l k : List α} {i : Nat} {x : α} (grows : l <+: k)
    (found : l[i]? = some x) : k[i]? = some x := by
  obtain ⟨lt, rfl⟩ := List.getElem?_eq_some_iff.mp found
  exact List.prefix_iff_getElem?.mp grows i lt

theorem Reached.frame {site : Site} {message : Nat} {body : List UInt8} {count : Nat}
    {job : Outcome (Option Dispatch)} (reached : Reached layout f site message body count job)
    (grows : f.published <+: f'.published)
    (launches : f'.indexes site message = f.indexes site message) :
    Reached layout f' site message body count job where
  published := getElem?_of_prefix grows reached.published
  left := reached.left
  launched := launches.trans reached.launched

/-- Events that launch nothing. A station is at work on what it was at work on before, unless it has
just begun, and the verdicts are the old ones, unless they are new and true. -/
theorem Ledger.frame (ledger : f.Ledger layout) (manned : f.Manned layout)
    (passes : Passes layout f f') (launches : f'.launches = f.launches)
    (works : ∀ i site message job, f'.WorksOn i site message job →
      (f.WorksOn i site message job ∧ ∀ v ∈ f'.verdicts, v ∈ f.verdicts ∨ v.site ≠ site) ∨
      AtWork layout f' site message job)
    (verdicts : ∀ v ∈ f'.verdicts, v ∈ f.verdicts ∨ Judged layout f' v) :
    f'.Ledger layout where
  suffix := passes.suffix
  working i site message job works' := by
    rcases works i site message job works' with ⟨old, kept⟩ | new
    · obtain ⟨arrived, unjudged, body, count, reached⟩ := ledger.working i site message job old
      refine ⟨Nat.lt_of_lt_of_le arrived (passes.onward site (old.inside manned)), ?_, body, count,
        reached.frame passes.grows (indexes_of_launches launches _ _)⟩
      intro v judged at_
      rcases kept v judged with before | elsewhere
      · exact unjudged v before at_
      · exact absurd at_ elsewhere
    · exact new
  judged v judged := by
    rcases verdicts v judged with old | new
    · obtain ⟨inside, arrived, body, count, job, told, free, reached, ending⟩ :=
        ledger.judged v old
      exact ⟨inside, Nat.lt_of_lt_of_le arrived (passes.onward _ inside), body, count, job, told,
        free, reached.frame passes.grows (indexes_of_launches launches _ _), ending⟩
    · exact new
  launched n c listed := by
    rw [launches] at listed
    obtain ⟨inside, arrived, body, p, call, published, rest⟩ := ledger.launched n c listed
    exact ⟨inside, Nat.lt_of_lt_of_le arrived (passes.onward _ inside), body, p, call,
      getElem?_of_prefix passes.grows published, rest⟩
  share c listed := by
    rw [launches] at listed
    obtain ⟨body, published, first⟩ := ledger.share c listed
    refine ⟨body, getElem?_of_prefix passes.grows published, ?_⟩
    rw [indexes_of_launches launches]
    exact first

/-- Events that launch and judge nothing, and at which nobody takes a message. -/
theorem Ledger.quiet (ledger : f.Ledger layout) (manned : f.Manned layout)
    (passes : Passes layout f f') (launches : f'.launches = f.launches)
    (verdicts : f'.verdicts = f.verdicts)
    (works : ∀ i site message job, f'.WorksOn i site message job →
      f.WorksOn i site message job) : f'.Ledger layout :=
  ledger.frame manned passes launches
    (fun i site message job works' => Or.inl ⟨works i site message job works',
      fun _ judged => Or.inl (verdicts ▸ judged)⟩)
    fun _ judged => Or.inl (verdicts ▸ judged)

/-- The number of the message that waits first at a site. -/
theorem Ledger.published_next (ledger : f.Ledger layout) {site : Site}
    (inside : site ∈ layout.sites) {body : List UInt8} {rest : List (List UInt8)}
    (waiting : f.waiting layout site = body :: rest) :
    f.published[f.next layout site]? = some body := by
  obtain ⟨gone, split⟩ := ledger.suffix site inside
  have number : f.next layout site = gone.length := by
    rw [next, ← split, List.length_append]
    omega
  rw [number, ← split, waiting]
  simp

/-- A site has launched nothing of a message that has not arrived. -/
theorem Ledger.indexes_of_le (ledger : f.Ledger layout) {site : Site} {message : Nat}
    (ahead : f.next layout site ≤ message) : f.indexes site message = [] := by
  rw [indexes, List.map_eq_nil_iff, List.filter_eq_nil_iff]
  intro c listed
  obtain ⟨n, at_⟩ := List.getElem?_of_mem listed
  have arrived := (ledger.launched n c at_).arrived
  simp only [decide_eq_true_eq]
  rintro ⟨rfl, rfl⟩
  omega

/-- A queue from which a message is taken moves on to the next. -/
theorem Ledger.next_advance (ledger : f.Ledger layout) {site : Site} (inside : site ∈ layout.sites)
    {body : List UInt8} {rest : List (List UInt8)}
    (waiting : f.waiting layout site = body :: rest) :
    (f.withBroker (f.broker.advance layout.exchange site.queue)).next layout site =
      f.next layout site + 1 := by
  have length := (ledger.suffix site inside).length_le
  have published : (f.withBroker (f.broker.advance layout.exchange site.queue)).published =
      f.published := rfl
  rw [waiting, List.length_cons] at length
  rw [next, next, waiting_advance, if_pos rfl, waiting, List.drop_one, List.tail_cons,
    List.length_cons, published]
  omega

/-- A message is taken: it has not been at the site before. -/
theorem Ledger.take (ledger : f.Ledger layout) (manned : f.Manned layout) {i : Nat} {st : Station}
    (found : f.stations[i]? = some st) (passes : Passes layout f f') {body : List UInt8}
    {rest : List (List UInt8)} (waiting : f.waiting layout st.site = body :: rest)
    (same : f'.published = f.published ∧ f'.launches = f.launches ∧ f'.verdicts = f.verdicts)
    (stations : f'.stations = f.stations.set i
      { st with duty := .working (f.next layout st.site) (layout.jobOf st.site body) })
    (onward : f.next layout st.site < f'.next layout st.site) : f'.Ledger layout := by
  obtain ⟨published, launches, verdicts⟩ := same
  have first := ledger.published_next (manned.placed st (List.mem_of_getElem? found)) waiting
  refine ledger.frame manned passes launches ?_ fun _ judged => Or.inl (verdicts ▸ judged)
  intro j site message job works
  rcases worksOn_set stations works with ⟨rfl, rfl, on⟩ | ⟨-, old⟩
  · cases on
    refine Or.inr ⟨onward, ?_, body, 0, published ▸ first, (Dispatch.advanced_zero _).symm, ?_⟩
    · intro v judged same number
      rw [verdicts] at judged
      have arrived := (ledger.judged v judged).arrived
      rw [same, number] at arrived
      exact Nat.lt_irrefl _ arrived
    · rw [List.take_zero, indexes_of_launches launches]
      exact ledger.indexes_of_le (Nat.le_refl _)
  · exact Or.inl ⟨old, fun _ judged => Or.inl (verdicts ▸ judged)⟩

/-- The handling of a message ends, and with it the station's work. -/
theorem Ledger.judge (ledger : f.Ledger layout) (manned : f.Manned layout) {i : Nat}
    {st st' : Station} (found : f.stations[i]? = some st) {message : Nat}
    {job : Outcome (Option Dispatch)} (on : st.duty = .working message job) {told free : Bool}
    {result : Outcome Dispatched} (ending : Dispatch.ending? told free job = some result)
    (passes : Passes layout f f') (launches : f'.launches = f.launches)
    (verdicts : f'.verdicts = f.verdicts ++ [⟨st.site, message, result⟩])
    (stations : f'.stations = f.stations.set i st')
    (off : ∀ message job, st'.duty ≠ .working message job) : f'.Ledger layout := by
  have works : f.WorksOn i st.site message job := ⟨st, found, rfl, on⟩
  have inside := works.inside manned
  obtain ⟨arrived, -, body, count, reached⟩ := ledger.working _ _ _ _ works
  refine ledger.frame manned passes launches ?_ ?_
  · intro j site number left works'
    obtain ⟨ne, old⟩ := worksOn_of_off stations off works'
    refine Or.inl ⟨old, fun v judged => ?_⟩
    rw [verdicts] at judged
    rcases List.mem_append.mp judged with before | new
    · exact Or.inl before
    · rw [List.mem_singleton.mp new]
      refine Or.inr ?_
      rintro rfl
      exact ne (old.unique works manned)
  · intro v judged
    rw [verdicts] at judged
    rcases List.mem_append.mp judged with before | new
    · exact Or.inl before
    · rw [List.mem_singleton.mp new]
      exact Or.inr ⟨inside, Nat.lt_of_lt_of_le arrived (passes.onward _ inside), body, count, job,
        told, free, reached.frame passes.grows (indexes_of_launches launches _ _), ending⟩

/-- A call is launched: it is the next of its site's share in the message. -/
theorem Ledger.launch (ledger : f.Ledger layout) (manned : f.Manned layout) {i : Nat}
    {st st' : Station} (found : f.stations[i]? = some st) {message index : Nat} {rest : List Nat}
    {d : Dispatch} {call : Payload} (on : st.duty = .working message (.ok (some d)))
    (first : d.remaining = index :: rest) (single : d.payload.single index = .ok call)
    (launches : f'.launches = f.launches ++
      [⟨st.site, message, index, call.withActivation (layout.ids f.launches.length)⟩])
    (published : f'.published = f.published) (broker : f'.broker = f.broker)
    (verdicts : f'.verdicts = f.verdicts) (stations : f'.stations = f.stations.set i st')
    (site : st'.site = st.site) (duty : st'.duty = .working message
      (.ok (some { d with remaining := rest, launched := d.launched + 1 }))) :
    f'.Ledger layout := by
  have works : f.WorksOn i st.site message (.ok (some d)) := ⟨st, found, rfl, on⟩
  have inside := works.inside manned
  obtain ⟨arrived, unjudged, body, count, reached⟩ := ledger.working _ _ _ _ works
  obtain ⟨left, taken⟩ := Dispatch.advanced_succ reached.left.symm first
  have onward : ∀ site, f'.next layout site = f.next layout site := by
    intro site
    rw [next, next, Fleet.waiting, Fleet.waiting, published, broker]
  have now : Reached layout f' st.site message body (count + 1)
      (.ok (some { d with remaining := rest, launched := d.launched + 1 })) := by
    refine ⟨published ▸ reached.published, left.symm, ?_⟩
    rw [indexes_concat launches, if_pos ⟨rfl, rfl⟩, taken, reached.launched]
  -- Elsewhere, and for other messages, nothing is launched.
  have others : ∀ site number, ¬ (st.site = site ∧ message = number) →
      f'.indexes site number = f.indexes site number := by
    intro site number ne
    rw [indexes_concat launches, if_neg ne, List.append_nil]
  have grows : f.published <+: f'.published := published ▸ List.prefix_rfl
  refine ⟨?_, ?_, ?_, ?_, ?_⟩
  · intro site inside
    rw [Fleet.waiting, broker, published]
    exact ledger.suffix site inside
  · intro j place number job works'
    rcases worksOn_set stations works' with ⟨rfl, rfl, on'⟩ | ⟨ne, old⟩
    · rw [duty] at on'
      cases on'
      rw [site]
      exact ⟨onward _ ▸ arrived, verdicts ▸ unjudged, body, count + 1, now⟩
    · obtain ⟨arrived, unjudged, body, count, reached⟩ := ledger.working _ _ _ _ old
      refine ⟨onward _ ▸ arrived, verdicts ▸ unjudged, body, count,
        reached.frame grows (others _ _ ?_)⟩
      rintro ⟨rfl, -⟩
      exact ne (old.unique works manned)
  · intro v judged
    rw [verdicts] at judged
    obtain ⟨inside, arrived, body, count, job, told, free, reached, ending⟩ :=
      ledger.judged v judged
    refine ⟨inside, onward _ ▸ arrived, body, count, job, told, free,
      reached.frame grows (others _ _ ?_), ending⟩
    rintro ⟨same, number⟩
    exact unjudged v judged same.symm number.symm
  · intro n c listed
    rw [launches] at listed
    rcases getElem?_concat_cases listed with old | ⟨rfl, rfl⟩
    · obtain ⟨inside, arrived, window⟩ := ledger.launched n c old
      exact ⟨inside, onward _ ▸ arrived, published ▸ window⟩
    · obtain ⟨whole, job, cut⟩ := Dispatch.advanced_eq_some reached.left.symm
      have payload : d.payload = whole.payload := by
        rw [cut]
        rfl
      exact ⟨inside, onward _ ▸ arrived, body, whole.payload, call, published ▸ reached.published,
        Dispatch.payload_of_ofBody job, payload ▸ single, rfl⟩
  · intro c listed
    rw [published]
    rw [launches] at listed
    by_cases here : st.site = c.site ∧ message = c.message
    · obtain ⟨same, number⟩ := here
      rw [← same, ← number]
      exact ⟨body, reached.published, now.launched ▸ List.take_prefix _ _⟩
    · rw [others _ _ here]
      rcases List.mem_append.mp listed with old | new
      · exact ledger.share c old
      · rw [List.mem_singleton.mp new] at here
        exact absurd ⟨rfl, rfl⟩ here

theorem Ledger.moves (ledger : f.Ledger layout) (manned : f.Manned layout)
    (moves : Moves layout f e f') : f'.Ledger layout := by
  have passes := moves.passes ledger.suffix
  cases moves with
  | publish body => exact ledger.quiet manned passes rfl rfl fun _ _ _ _ => id
  | declare inside => exact ledger.quiet manned passes rfl rfl fun _ _ _ _ => id
  | hire inside =>
    refine ledger.quiet manned passes rfl rfl fun i site message job works => ?_
    obtain ⟨st, listed, at_, on⟩ := works
    rcases getElem?_concat_cases listed with old | ⟨-, rfl⟩
    · exact ⟨st, old, at_, on⟩
    · cases on
  | enlist found off free =>
    exact ledger.quiet manned passes rfl rfl fun i site message job works =>
      (worksOn_of_off rfl (fun _ _ on => by cases on) works).2
  | turnAway found off e =>
    exact ledger.quiet manned passes rfl rfl fun i site message job works =>
      (worksOn_of_off rfl (fun _ _ on => by cases on) works).2
  | @tell i st found =>
    exact ledger.quiet manned passes rfl rfl fun j site message job works =>
      worksOn_of_same { st with told := true } found rfl rfl rfl works
  | @take i st found on body rest waiting =>
    refine ledger.take manned found passes waiting ⟨rfl, rfl, rfl⟩ rfl ?_
    have moved := ledger.next_advance (manned.placed st (List.mem_of_getElem? found)) waiting
    rw [next_setStation, moved]
    exact Nat.lt_succ_self _
  | leave found on told =>
    exact ledger.quiet manned passes rfl rfl fun i site message job works =>
      (worksOn_of_off rfl (fun _ _ on => by cases on) works).2
  | launch found on first single told free =>
    refine ledger.launch manned found on first single ?_ rfl rfl rfl rfl rfl rfl
    rw [launches, launches, List.length_map]
    exact List.map_append
  | settle found on ending counted =>
    exact ledger.judge manned found on ending passes rfl rfl rfl fun _ _ on => by cases on
  | cut found on ending uncounted =>
    exact ledger.judge manned found on ending passes rfl rfl rfl fun _ _ on => by cases on
  | start found at_ =>
    exact ledger.quiet manned passes (launches_setCall found rfl) rfl fun _ _ _ _ => id
  | @finish n c st found at_ home =>
    refine ledger.quiet manned passes (launches_setCall found rfl) rfl ?_
    exact fun i site message job works =>
      worksOn_of_same { st with slots := st.slots.release c.guard } home rfl rfl rfl works

end Fleet

end CallDispatch
