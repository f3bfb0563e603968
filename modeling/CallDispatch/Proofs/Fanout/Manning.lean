import CallDispatch.Proofs.Fanout.Fleet
import CallDispatch.Proofs.Lists
import Mathlib.Data.List.Nodup

/-!
# Who listens

A station that listens or handles a message is the consumer of its site's queue, and the broker
knows it. A queue has one consumer at a time, so no other station of the site is on duty.
-/

namespace CallDispatch

/-- No two sites of a layout share a queue. -/
def Layout.Distinct (layout : Layout) : Prop := (layout.sites.map Site.queue).Nodup

instance (layout : Layout) : Decidable layout.Distinct := inferInstanceAs (Decidable (List.Nodup _))

theorem Layout.Distinct.site_eq {layout : Layout} (distinct : layout.Distinct) {site other : Site}
    (inside : site ∈ layout.sites) (inside' : other ∈ layout.sites)
    (same : site.queue = other.queue) : site = other :=
  List.inj_on_of_nodup_map distinct inside inside' same

namespace Fleet

variable {layout : Layout} {f f' : Fleet} {e : FleetEvent}

/-- Every station is at a site, and one that is on duty is the only one of its site. -/
structure Manned (layout : Layout) (f : Fleet) : Prop where
  placed : ∀ st ∈ f.stations, st.site ∈ layout.sites
  taken : ∀ st ∈ f.stations, st.duty.isOn = true →
    f.broker.takenAt layout.exchange st.site.queue = true
  alone : ∀ (i j : Nat) (st other : Station), f.stations[i]? = some st →
    f.stations[j]? = some other → st.duty.isOn = true → other.duty.isOn = true →
    st.site = other.site → i = j

/-- A station changes and stays on duty or goes off it, while no queue loses its consumer. -/
theorem Manned.of_set (manned : f.Manned layout) {i : Nat} {st st' : Station}
    (found : f.stations[i]? = some st) (stations : f'.stations = f.stations.set i st')
    (site : st'.site = st.site) (duty : st'.duty.isOn = true → st.duty.isOn = true)
    (taken : ∀ queue, f.broker.takenAt layout.exchange queue = true →
      f'.broker.takenAt layout.exchange queue = true) : f'.Manned layout := by
  have member := List.mem_of_getElem? found
  refine ⟨?_, ?_, ?_⟩
  · intro other listed
    rw [stations] at listed
    rcases List.mem_or_eq_of_mem_set listed with old | rfl
    · exact manned.placed other old
    · exact site ▸ manned.placed st member
  · intro other listed on
    rw [stations] at listed
    rcases List.mem_or_eq_of_mem_set listed with old | rfl
    · exact taken _ (manned.taken other old on)
    · exact taken _ (site ▸ manned.taken st member (duty on))
  · -- Seen from outside, the new station is the old one: it is on duty only if the old one was.
    have before : ∀ (j : Nat) (other : Station), f'.stations[j]? = some other →
        other.duty.isOn = true → ∃ old : Station, f.stations[j]? = some old ∧
          old.duty.isOn = true ∧ old.site = other.site := by
      intro j other listed on
      rw [stations] at listed
      rcases getElem?_set_cases listed with ⟨rfl, rfl⟩ | ⟨-, old⟩
      · exact ⟨st, found, duty on, site.symm⟩
      · exact ⟨other, old, on, rfl⟩
    intro j k one two listed listed' on on' same
    obtain ⟨old, at_, onBefore, sameSite⟩ := before j one listed on
    obtain ⟨old', at', onBefore', sameSite'⟩ := before k two listed' on'
    exact manned.alone j k old old' at_ at' onBefore onBefore'
      (sameSite.trans (same.trans sameSite'.symm))

/-- A station leaves: nobody else has lost a consumer. -/
theorem Manned.discharge (manned : f.Manned layout) (distinct : layout.Distinct) {i : Nat}
    {st : Station} (found : f.stations[i]? = some st) (on : st.duty.isOn = true) :
    (f.discharge layout i st).Manned layout := by
  have member := List.mem_of_getElem? found
  have others : ∀ j other, (f.discharge layout i st).stations[j]? = some other →
      other.duty.isOn = true → j ≠ i ∧ f.stations[j]? = some other := by
    intro j other listed on'
    rcases getElem?_set_cases listed with ⟨-, rfl⟩ | old
    · cases on'
    · exact old
  refine ⟨?_, ?_, ?_⟩
  · intro other listed
    rcases List.mem_or_eq_of_mem_set listed with old | rfl
    · exact manned.placed other old
    · exact manned.placed st member
  · intro other listed on'
    obtain ⟨j, at_⟩ := List.getElem?_of_mem listed
    obtain ⟨ne, old⟩ := others j other at_ on'
    have elsewhere : other.site.queue ≠ st.site.queue := by
      intro same
      have site := distinct.site_eq (manned.placed other (List.mem_of_getElem? old))
        (manned.placed st member) same
      exact ne (manned.alone j i other st old found on' on site)
    have kept := manned.taken other (List.mem_of_getElem? old) on'
    change (f.broker.drop ⟨layout.exchange, st.site.queue⟩).takenAt _ _ = true
    rw [Broker.takenAt_drop, kept]
    simp [elsewhere]
  · intro j k one two listed listed' on' on'' same
    exact manned.alone j k one two (others j one listed on').2 (others k two listed' on'').2
      on' on'' same

/-- A station begins at a queue without a consumer. -/
theorem Manned.enlist (manned : f.Manned layout) {i : Nat} {st : Station}
    (found : f.stations[i]? = some st)
    (free : f.broker.takenAt layout.exchange st.site.queue = false) :
    ((f.withBroker (f.broker.enlist layout.exchange st.site.queue)).setStation i
      { st with duty := .listening, stats := {}, told := false }).Manned layout := by
  have member := List.mem_of_getElem? found
  have elsewhere : ∀ other ∈ f.stations, other.duty.isOn = true → other.site ≠ st.site := by
    intro other listed on same
    have taken := manned.taken other listed on
    rw [same, free] at taken
    cases taken
  refine ⟨?_, ?_, ?_⟩
  · intro other listed
    rcases List.mem_or_eq_of_mem_set listed with old | rfl
    · exact manned.placed other old
    · exact manned.placed st member
  · intro other listed on
    change (f.broker.enlist layout.exchange st.site.queue).takenAt _ _ = true
    rw [Broker.takenAt_enlist]
    rcases List.mem_or_eq_of_mem_set listed with old | rfl
    · rw [manned.taken other old on, Bool.or_true]
    · simp
  · intro j k one two listed listed' on on' same
    rcases getElem?_set_cases listed with ⟨rfl, rfl⟩ | ⟨-, old⟩ <;>
      rcases getElem?_set_cases listed' with ⟨rfl, rfl⟩ | ⟨-, old'⟩
    · rfl
    · exact absurd same.symm (elsewhere two (List.mem_of_getElem? old') on')
    · exact absurd same (elsewhere one (List.mem_of_getElem? old) on)
    · exact manned.alone j k one two old old' on on' same

/-- A new station is not on duty. -/
theorem Manned.hire (manned : f.Manned layout) {site : Site} (inside : site ∈ layout.sites) :
    { f with stations := f.stations ++ [Station.ofSite site] }.Manned layout := by
  have before : ∀ (j : Nat) (other : Station),
      (f.stations ++ [Station.ofSite site])[j]? = some other → other.duty.isOn = true →
      f.stations[j]? = some other := by
    intro j other listed on
    rcases getElem?_concat_cases listed with old | ⟨-, rfl⟩
    · exact old
    · cases on
  refine ⟨?_, ?_, ?_⟩
  · intro other listed
    rcases List.mem_append.mp listed with old | new
    · exact manned.placed other old
    · rw [List.mem_singleton.mp new]
      exact inside
  · intro other listed on
    obtain ⟨j, at_⟩ := List.getElem?_of_mem listed
    exact manned.taken other (List.mem_of_getElem? (before j other at_ on)) on
  · intro j k one two listed listed' on on' same
    exact manned.alone j k one two (before j one listed on) (before k two listed' on') on on' same

theorem Manned.judge (manned : f.Manned layout) (v : Verdict) : (f.judge v).Manned layout :=
  ⟨manned.placed, manned.taken, manned.alone⟩

theorem Manned.moves (manned : f.Manned layout) (distinct : layout.Distinct)
    (moves : Moves layout f e f') : f'.Manned layout := by
  cases moves with
  | publish body =>
    refine ⟨manned.placed, ?_, manned.alone⟩
    intro st listed on
    rw [Broker.takenAt_publish]
    exact manned.taken st listed on
  | declare inside =>
    refine ⟨manned.placed, ?_, manned.alone⟩
    intro st listed on
    rw [withBroker, Broker.takenAt_declare]
    exact manned.taken st listed on
  | hire inside => exact manned.hire inside
  | enlist found off free => exact manned.enlist found free
  | turnAway found off e =>
    refine manned.of_set found rfl rfl (fun on => by cases on) fun queue taken => ?_
    change (f.broker.declare _ _).takenAt _ _ = true
    rwa [Broker.takenAt_declare]
  | tell found => exact manned.of_set found rfl rfl id fun _ => id
  | take found on waiting =>
    refine manned.of_set found rfl rfl (fun _ => by rw [on]; rfl) fun queue taken => ?_
    change (f.broker.advance _ _).takenAt _ _ = true
    rwa [Broker.takenAt_advance]
  | leave found on told => exact manned.discharge distinct found (by rw [on]; rfl)
  | launch found on first single told free =>
    exact manned.of_set found rfl rfl (fun _ => by rw [on]; rfl) fun _ => id
  | settle found on ending counted =>
    exact manned.of_set found rfl rfl (fun _ => by rw [on]; rfl) fun _ => id
  | cut found on ending uncounted =>
    exact (manned.judge _).discharge distinct found (by rw [on]; rfl)
  | start found at_ => exact ⟨manned.placed, manned.taken, manned.alone⟩
  | finish found at_ home => exact manned.of_set home rfl rfl id fun _ => id

end Fleet

end CallDispatch
