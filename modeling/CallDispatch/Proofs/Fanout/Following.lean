import CallDispatch.Proofs.Fanout.Ledger

/-!
# Following messages

A message published when all queues were bound is never lost: it waits at a site, or a station
handles it, or there is a verdict on it.
-/

namespace CallDispatch

namespace Fleet

variable {layout : Layout} {f f' : Fleet} {e : FleetEvent}

/-- What has become, at sites whose queues are bound, of the messages from a number on: those that
have arrived are handled by a station, or they have been judged. -/
structure Followed (layout : Layout) (f : Fleet) (start : Nat) : Prop where
  bound : ∀ site ∈ layout.sites, f.broker.boundAt layout.exchange site.queue = true
  seen : ∀ site ∈ layout.sites, ∀ message, start ≤ message → message < f.next layout site →
    (∃ v ∈ f.verdicts, v.site = site ∧ v.message = message) ∨
      ∃ i job, f.WorksOn i site message job

theorem Followed.start
    (bound : ∀ site ∈ layout.sites, f.broker.boundAt layout.exchange site.queue = true) :
    Followed layout f f.published.length where
  bound := bound
  seen site _ message above below := by
    have : f.next layout site ≤ f.published.length := Nat.sub_le _ _
    omega

theorem WorksOn.set_of_ne {i j : Nat} {st : Station} {site : Site} {message : Nat}
    {job : Outcome (Option Dispatch)} (works : f.WorksOn j site message job)
    (stations : f'.stations = f.stations.set i st) (ne : j ≠ i) :
    f'.WorksOn j site message job := by
  obtain ⟨other, found, rest⟩ := works
  refine ⟨other, ?_, rest⟩
  rw [stations, List.getElem?_set_ne (Ne.symm ne)]
  exact found

/-- A station changes and goes on with its message, if it has one. -/
theorem WorksOn.set {i j : Nat} {st st' : Station} {site : Site} {message : Nat}
    {job : Outcome (Option Dispatch)} (works : f.WorksOn j site message job)
    (found : f.stations[i]? = some st) (stations : f'.stations = f.stations.set i st')
    (same : st'.site = st.site) (duty : ∀ message job, st.duty = .working message job →
      ∃ job', st'.duty = .working message job') : ∃ job', f'.WorksOn j site message job' := by
  by_cases here : j = i
  · obtain ⟨other, found', at_, on⟩ := works
    rw [here, found] at found'
    cases found'
    obtain ⟨job', on'⟩ := duty _ _ on
    refine ⟨job', st', ?_, same.trans at_, on'⟩
    obtain ⟨lt, -⟩ := List.getElem?_eq_some_iff.mp found
    rw [stations, here, List.getElem?_set_self lt]
  · exact ⟨job, works.set_of_ne stations here⟩

theorem next_of_waiting {site : Site} (published : f'.published = f.published)
    (waiting : f'.waiting layout site = f.waiting layout site) :
    f'.next layout site = f.next layout site := by
  rw [next, next, published, waiting]

namespace Followed

variable {start : Nat}

/-- Events at which nobody takes or judges a message, and nobody stops working. -/
theorem quiet (followed : Followed layout f start)
    (bound : ∀ queue, f.broker.boundAt layout.exchange queue = true →
      f'.broker.boundAt layout.exchange queue = true)
    (next : ∀ site ∈ layout.sites, f'.next layout site = f.next layout site)
    (verdicts : f'.verdicts = f.verdicts)
    (works : ∀ i site message job, f.WorksOn i site message job →
      ∃ job', f'.WorksOn i site message job') : Followed layout f' start where
  bound site inside := bound _ (followed.bound site inside)
  seen site inside message above below := by
    rw [next site inside] at below
    rw [verdicts]
    rcases followed.seen site inside message above below with judged | ⟨i, job, old⟩
    · exact Or.inl judged
    · exact Or.inr ⟨i, works i site message job old⟩

/-- A message is published, and all queues get it. -/
theorem publish (followed : Followed layout f start) (body : List UInt8) :
    Followed layout { f with
      broker := f.broker.publish layout.exchange body
      published := f.published ++ [body] } start := by
  refine followed.quiet (fun queue bound => ?_) (fun site inside => ?_) rfl
    fun _ _ _ job works => ⟨job, works⟩
  · rwa [Broker.boundAt_publish]
  · rw [next, next, waiting_publish, if_pos (followed.bound site inside), List.length_append,
      List.length_append]
    exact Nat.add_sub_add_right _ _ _

/-- A message is taken, and its handling begins. -/
theorem take (followed : Followed layout f start) (ledger : f.Ledger layout)
    (manned : f.Manned layout) (distinct : layout.Distinct) {i : Nat} {st : Station}
    (found : f.stations[i]? = some st) (on : st.duty = .listening) {body : List UInt8}
    {rest : List (List UInt8)} (waiting : f.waiting layout st.site = body :: rest)
    (job : Outcome (Option Dispatch)) :
    Followed layout
      ((f.withBroker (f.broker.advance layout.exchange st.site.queue)).setStation i
        { st with duty := .working (f.next layout st.site) job }) start := by
  have home := manned.placed st (List.mem_of_getElem? found)
  refine ⟨fun site inside => ?_, fun site inside message above below => ?_⟩
  · change (f.broker.advance _ _).boundAt _ _ = true
    rw [Broker.boundAt_advance]
    exact followed.bound site inside
  · rw [next_setStation] at below
    have before : message < f.next layout site →
        (∃ v ∈ f.verdicts, v.site = site ∧ v.message = message) ∨ ∃ j job',
          ((f.withBroker (f.broker.advance layout.exchange st.site.queue)).setStation i
            { st with duty := .working (f.next layout st.site) job }).WorksOn j site message
              job' := by
      intro earlier
      rcases followed.seen site inside message above earlier with judged | ⟨j, left, works⟩
      · exact Or.inl judged
      · refine Or.inr ⟨j, works.set found rfl rfl fun _ _ on' => ?_⟩
        rw [on] at on'
        cases on'
    by_cases here : site = st.site
    · subst here
      rw [ledger.next_advance home waiting] at below
      rcases Nat.lt_succ_iff_lt_or_eq.mp below with earlier | rfl
      · exact before earlier
      · refine Or.inr ⟨i, job, { st with duty := .working (f.next layout st.site) job }, ?_,
          rfl, rfl⟩
        obtain ⟨lt, -⟩ := List.getElem?_eq_some_iff.mp found
        exact List.getElem?_set_self lt
    · have elsewhere : site.queue ≠ st.site.queue := fun same =>
        here (distinct.site_eq inside home same)
      refine before ?_
      rwa [next, waiting_advance, if_neg elsewhere] at below

/-- The handling of a message ends in a verdict. -/
theorem judge (followed : Followed layout f start) {i : Nat} {st st' : Station}
    (found : f.stations[i]? = some st) {message : Nat} {job : Outcome (Option Dispatch)}
    (on : st.duty = .working message job) {result : Outcome Dispatched}
    (bound : ∀ queue, f'.broker.boundAt layout.exchange queue =
      f.broker.boundAt layout.exchange queue)
    (next : ∀ site, f'.next layout site = f.next layout site)
    (verdicts : f'.verdicts = f.verdicts ++ [⟨st.site, message, result⟩])
    (stations : f'.stations = f.stations.set i st') : Followed layout f' start where
  bound site inside := by
    rw [bound]
    exact followed.bound site inside
  seen site inside number above below := by
    rw [next] at below
    rw [verdicts]
    rcases followed.seen site inside number above below with ⟨v, judged, same⟩ | ⟨j, left, works⟩
    · exact Or.inl ⟨v, List.mem_append_left _ judged, same⟩
    · by_cases here : j = i
      · obtain ⟨other, found', at_, on'⟩ := works
        rw [here, found] at found'
        cases found'
        rw [on] at on'
        cases on'
        exact Or.inl ⟨_, List.mem_append_right _ (List.mem_singleton_self _), at_, rfl⟩
      · exact Or.inr ⟨j, left, works.set_of_ne stations here⟩

theorem moves (followed : Followed layout f start) (ledger : f.Ledger layout)
    (manned : f.Manned layout) (distinct : layout.Distinct) (moves : Moves layout f e f') :
    Followed layout f' start := by
  cases moves with
  | publish body => exact followed.publish body
  | @declare site inside =>
    refine followed.quiet (fun queue bound => ?_) (fun other _ => ?_) rfl
      fun _ _ _ job works => ⟨job, works⟩
    · change (f.broker.declare _ _).boundAt _ _ = true
      rw [Broker.boundAt_declare, bound, Bool.or_true]
    · exact next_of_waiting rfl (Broker.waitingAt_declare _ _ _ _)
  | hire inside =>
    refine followed.quiet (fun _ => id) (fun _ _ => rfl) rfl fun i site message job works => ?_
    obtain ⟨st, found, rest⟩ := works
    obtain ⟨lt, -⟩ := List.getElem?_eq_some_iff.mp found
    exact ⟨job, st, (List.getElem?_append_left lt).trans found, rest⟩
  | @enlist i st found off free =>
    refine followed.quiet (fun queue bound => ?_) (fun other _ => ?_) rfl
      fun _ _ _ _ works => works.set found rfl rfl fun _ _ on => ?_
    · change (f.broker.enlist _ _).boundAt _ _ = true
      rw [Broker.boundAt_enlist, bound, Bool.or_true]
    · exact next_of_waiting rfl (Broker.waitingAt_enlist _ _ _ _)
    · rw [on] at off
      cases off
  | @turnAway i st found off e =>
    refine followed.quiet (fun queue bound => ?_) (fun other _ => ?_) rfl
      fun _ _ _ _ works => works.set found rfl rfl fun _ _ on => ?_
    · change (f.broker.declare _ _).boundAt _ _ = true
      rw [Broker.boundAt_declare, bound, Bool.or_true]
    · exact next_of_waiting rfl (Broker.waitingAt_declare _ _ _ _)
    · rw [on] at off
      cases off
  | tell found =>
    exact followed.quiet (fun _ => id) (fun _ _ => rfl) rfl
      fun _ _ _ _ works => works.set found rfl rfl fun _ job on => ⟨job, on⟩
  | take found on waiting => exact followed.take ledger manned distinct found on waiting _
  | leave found on told =>
    refine followed.quiet (fun queue bound => ?_) (fun other _ => ?_) rfl
      fun _ _ _ _ works => works.set found rfl rfl fun _ _ on' => ?_
    · change (f.broker.drop _).boundAt _ _ = true
      rwa [Layout.consumer, Broker.boundAt_drop]
    · exact next_of_waiting rfl (Broker.waitingAt_drop _ _ _ _)
    · rw [on] at on'
      cases on'
  | launch found on first single told free =>
    refine followed.quiet (fun _ => id) (fun _ _ => rfl) rfl
      fun _ _ _ _ works => works.set found rfl rfl fun _ _ on' => ?_
    rw [on] at on'
    cases on'
    exact ⟨_, rfl⟩
  | settle found on ending counted =>
    exact followed.judge found on (fun _ => rfl) (fun _ => rfl) rfl rfl
  | cut found on ending uncounted =>
    exact followed.judge found on (fun _ => Broker.boundAt_drop _ _ _ _)
      (fun _ => next_of_waiting rfl (Broker.waitingAt_drop _ _ _ _)) rfl rfl
  | start found at_ =>
    exact followed.quiet (fun _ => id) (fun _ _ => rfl) rfl fun _ _ _ job works => ⟨job, works⟩
  | finish found at_ home =>
    exact followed.quiet (fun _ => id) (fun _ _ => rfl) rfl
      fun _ _ _ _ works => works.set home rfl rfl fun _ job on => ⟨job, on⟩

end Followed

end Fleet

end CallDispatch
