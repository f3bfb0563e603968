import CallDispatch.Proofs.Fanout.Following
import CallDispatch.Proofs.Fanout.Rest
import CallDispatch.Proofs.Job.Identifiers

/-!
# What a fleet delivers

Over all layouts, messages, cancellations and interleavings: no call of a message is launched twice,
each is launched by the pod that owns its processor, and a message that every pod has handled to its
end has had all its calls launched. Left to itself a fleet comes to rest, and then every pod that
listens has handled every message published since the queues were bound.
-/

namespace CallDispatch

open Dispatch (pending)
open Text.Decimal (wordBound)

namespace Fleet

variable {layout : Layout} {f f' : Fleet} {e : FleetEvent}

/-- What holds of a fleet at every moment. -/
structure Sound (layout : Layout) (f : Fleet) : Prop where
  manned : f.Manned layout
  ledger : f.Ledger layout
  housed : f.Housed

theorem empty_sound (layout : Layout) : ({} : Fleet).Sound layout where
  manned := {
    placed := fun st listed => by cases listed
    taken := fun st listed => by cases listed
    alone := fun i j st other found => by cases found }
  ledger := {
    suffix := fun site _ => List.nil_suffix
    working := fun i site message job works => by
      obtain ⟨st, found, -⟩ := works
      cases found
    judged := fun v judged => by cases judged
    launched := fun n c found => by cases found
    share := fun c listed => by cases listed }
  housed := {
    stations := fun c listed => by cases listed
    held := fun i st found => by cases found
    capacity := fun st listed => by cases listed
    bounded := fun st listed => by cases listed }

theorem Sound.moves (sound : f.Sound layout) (distinct : layout.Distinct)
    (moves : Moves layout f e f') : f'.Sound layout :=
  ⟨sound.manned.moves distinct moves, sound.ledger.moves sound.manned moves,
    sound.housed.moves moves⟩

theorem Sound.run {events : List FleetEvent} (sound : f.Sound layout) (distinct : layout.Distinct)
    (runs : f.run layout events = some f') : f'.Sound layout := by
  induction events generalizing f with
  | nil =>
    cases runs
    exact sound
  | cons e rest ih =>
    obtain ⟨middle, first, later⟩ := Option.bind_eq_some_iff.mp runs
    exact ih (sound.moves distinct (moves_of_step first)) later

theorem run_append (f : Fleet) (first later : List FleetEvent) :
    f.run layout (first ++ later) = (f.run layout first).bind (·.run layout later) := by
  induction first generalizing f with
  | nil => rfl
  | cons e rest ih => simp only [List.cons_append, Fleet.run, ih, Option.bind_assoc]

/-! ## Once at most -/

/-- The calls a site has launched for a message that can be read are the first part of its share. -/
theorem Ledger.indexes_prefix (ledger : f.Ledger layout) (word : layout.cluster < wordBound)
    (tiling : Tiling layout.cluster (layout.sites.map Site.range)) {c : Launch}
    (listed : c ∈ f.launches) : ∃ body p, f.published[c.message]? = some body ∧
      Payload.ofBytes body = .ok p ∧
      f.indexes c.site c.message <+: c.site.range.share layout.cluster p.totalCalls := by
  obtain ⟨n, found⟩ := List.getElem?_of_mem listed
  obtain ⟨inside, -, body, p, call, published, read, -⟩ := ledger.launched n c found
  obtain ⟨same, published', first⟩ := ledger.share c listed
  have range := List.mem_map_of_mem (f := Site.range) inside
  rw [published] at published'
  cases published'
  exact ⟨body, p, published, read, first.trans
    (Dispatch.pending_prefix word (tiling.inside range) (tiling.ordered _ range) read)⟩

theorem index_mem_indexes {c : Launch} (listed : c ∈ f.launches) :
    c.index ∈ f.indexes c.site c.message :=
  List.mem_map_of_mem (List.mem_filter.mpr ⟨listed, by simp⟩)

/-- A call is launched at the site that owns its processor. -/
theorem Ledger.owned (ledger : f.Ledger layout) (word : layout.cluster < wordBound)
    (tiling : Tiling layout.cluster (layout.sites.map Site.range)) {c : Launch}
    (listed : c ∈ f.launches) :
    c.site.range.contains (c.index % layout.cluster) = true ∧
    ∃ body p, f.published[c.message]? = some body ∧ Payload.ofBytes body = .ok p ∧
      c.index < p.totalCalls := by
  obtain ⟨body, p, published, read, first⟩ := ledger.indexes_prefix word tiling listed
  have member := first.subset (index_mem_indexes listed)
  obtain ⟨below, contains⟩ := List.mem_filter.mp member
  exact ⟨contains, body, p, published, read, List.mem_range.mp below⟩

/-- A processor belongs to one site only. -/
theorem site_eq_of_contains (tiling : Tiling layout.cluster (layout.sites.map Site.range))
    {site other : Site} (inside : site ∈ layout.sites) (inside' : other ∈ layout.sites) {cpu : Nat}
    (contains : site.range.contains cpu = true) (contains' : other.range.contains cpu = true) :
    site = other := by
  obtain ⟨j, atJ⟩ := List.getElem?_of_mem inside
  obtain ⟨k, atK⟩ := List.getElem?_of_mem inside'
  have same : j = k := tiling.unique (r := site.range) (s := other.range)
    (by rw [List.getElem?_map, atJ]; rfl) (by rw [List.getElem?_map, atK]; rfl) contains contains'
  rw [same, atK] at atJ
  exact (Option.some.inj atJ).symm

/-- No call of a message is launched twice. -/
theorem Ledger.nodup (ledger : f.Ledger layout) (word : layout.cluster < wordBound)
    (tiling : Tiling layout.cluster (layout.sites.map Site.range)) :
    (f.launches.map fun c => (c.message, c.index)).Nodup := by
  rw [List.nodup_iff_count_le_one]
  rintro ⟨message, index⟩
  rw [List.count_eq_countP, List.countP_map]
  by_cases some : ∃ c ∈ f.launches, c.message = message ∧ c.index = index
  · obtain ⟨c, listed, rfl, rfl⟩ := some
    obtain ⟨n, found⟩ := List.getElem?_of_mem listed
    -- All launches of the call are at the site of one of them, and that site launches it once.
    have here : ∀ other ∈ f.launches, (other.message = c.message ∧ other.index = c.index) →
        other.site = c.site := by
      intro other listed' same
      obtain ⟨n', found'⟩ := List.getElem?_of_mem listed'
      have contains := (ledger.owned word tiling listed').1
      rw [same.2] at contains
      exact site_eq_of_contains tiling (ledger.launched n' other found').inside
        (ledger.launched n c found).inside contains (ledger.owned word tiling listed).1
    obtain ⟨body, p, -, -, first⟩ := ledger.indexes_prefix word tiling listed
    have once : (f.indexes c.site c.message).Nodup :=
      (List.nodup_range.filter _).sublist first.sublist
    calc
      f.launches.countP _ = (f.indexes c.site c.message).count c.index := by
        rw [indexes, List.count_eq_countP, List.countP_map, List.countP_filter]
        refine List.countP_congr fun other listed' => ?_
        have at_ := here other listed'
        simp only [Function.comp_apply, beq_iff_eq, Prod.mk.injEq, Bool.and_eq_true,
          decide_eq_true_eq]
        constructor
        · intro same
          exact ⟨same.2, at_ same, same.1⟩
        · intro same
          exact ⟨same.2.2, same.1⟩
      _ ≤ 1 := List.nodup_iff_count_le_one.mp once c.index
  · refine le_of_eq_of_le (List.countP_eq_zero.mpr fun c listed same => ?_) (Nat.zero_le 1)
    exact some ⟨c, listed, by simpa using same⟩

/-- Calls run under what the source of identifiers answers, in the order of their numbers. -/
theorem Ledger.activations (ledger : f.Ledger layout) :
    f.launches.map (·.window.activationId) =
      (List.range f.launches.length).map fun n => some (layout.ids n) := by
  refine List.ext_getElem? fun n => ?_
  rw [List.getElem?_map, List.getElem?_map]
  cases found : f.launches[n]? with
  | none =>
    have outside := List.getElem?_eq_none_iff.mp found
    rw [List.getElem?_eq_none (by rwa [List.length_range])]
    rfl
  | some c =>
    obtain ⟨inside, -⟩ := List.getElem?_eq_some_iff.mp found
    obtain ⟨-, -, -, -, call, -, -, -, window⟩ := ledger.launched n c found
    rw [List.getElem?_range inside, Option.map_some, Option.map_some, window]
    rfl

/-- No two calls run under one identifier if the source has not repeated itself. -/
theorem Ledger.fresh (ledger : f.Ledger layout)
    (new : ((List.range f.launches.length).map layout.ids).Nodup) :
    (f.launches.map (·.window.activationId)).Nodup := by
  rw [ledger.activations, ← Function.comp_def some layout.ids, ← List.map_map]
  exact new.map (Option.some_injective _)

/-! ## Once at least -/

/-- A site that has judged a message without cutting it short has launched its share. -/
theorem Ledger.indexes_of_judged (ledger : f.Ledger layout)
    (tiling : Tiling layout.cluster (layout.sites.map Site.range)) {v : Verdict}
    (judged : v ∈ f.verdicts) (uncut : v.result ≠ .error .shutdown) {body : List UInt8}
    {p : Payload} (published : f.published[v.message]? = some body)
    (read : Payload.ofBytes body = .ok p) (fits : FitsWords layout.cluster p.totalCalls)
    (has : p.HasSingles p.totalCalls) :
    f.indexes v.site v.message = v.site.range.share layout.cluster p.totalCalls := by
  obtain ⟨inside, -, other, count, job, told, free, reached, ending⟩ := ledger.judged v judged
  have same := reached.published
  rw [published] at same
  cases same
  have range := List.mem_map_of_mem (f := Site.range) inside
  have share := Dispatch.pending_ofBody fits (tiling.inside range) (tiling.ordered _ range) read
  have whole : pending job = [] := by
    refine Dispatch.pending_of_ending ending uncut fun d at_ index member => ?_
    obtain ⟨start, job', rfl⟩ := Dispatch.advanced_eq_some (reached.left.symm.trans at_)
    have payload := Dispatch.payload_of_ofBody job'
    rw [read] at payload
    have among : index ∈ pending (layout.jobOf v.site body) := by
      rw [job']
      exact List.mem_of_mem_drop member
    rw [Layout.jobOf, share] at among
    have below := List.mem_range.mp (List.mem_filter.mp among).1
    exact ⟨_, (Except.ok.inj payload) ▸ has.single below⟩
  rw [reached.launched, Layout.jobOf, share]
  rw [reached.left, Dispatch.pending_advanced, Layout.jobOf, share] at whole
  exact List.take_of_length_le (List.drop_eq_nil_iff.mp whole)

/-- A message that every site has judged, and none has cut short, has had its calls launched. -/
theorem Ledger.complete (ledger : f.Ledger layout) (positive : 0 < layout.cluster)
    (tiling : Tiling layout.cluster (layout.sites.map Site.range)) (distinct : layout.Distinct)
    {message : Nat} {body : List UInt8} {p : Payload}
    (published : f.published[message]? = some body) (read : Payload.ofBytes body = .ok p)
    (fits : FitsWords layout.cluster p.totalCalls) (has : p.HasSingles p.totalCalls)
    (judged : ∀ site ∈ layout.sites, ∃ v ∈ f.verdicts,
      v.site = site ∧ v.message = message ∧ v.result ≠ .error .shutdown) :
    ((f.launches.filter (·.message = message)).map Launch.index).Perm
      (List.range p.totalCalls) := by
  have share : ∀ site ∈ layout.sites,
      ((f.launches.filter (·.message = message)).filter (·.site = site)).map Launch.index =
        site.range.share layout.cluster p.totalCalls := by
    intro site inside
    obtain ⟨v, listed, rfl, rfl, uncut⟩ := judged site inside
    rw [← ledger.indexes_of_judged tiling listed uncut published read fits has, indexes,
      List.filter_filter]
    congr 2
    funext c
    exact (Bool.decide_and _ _).symm
  have placed : ∀ c ∈ f.launches.filter (·.message = message), c.site ∈ layout.sites := by
    intro c listed
    obtain ⟨n, found⟩ := List.getElem?_of_mem (List.mem_of_mem_filter listed)
    exact (ledger.launched n c found).inside
  calc
    ((f.launches.filter (·.message = message)).map Launch.index).Perm
        ((layout.sites.flatMap fun site =>
          (f.launches.filter (·.message = message)).filter (·.site = site)).map Launch.index) :=
      (perm_flatMap_filter distinct.of_map placed).map _
    _ = layout.sites.flatMap fun site => site.range.share layout.cluster p.totalCalls := by
      rw [List.map_flatMap]
      exact List.flatMap_congr share
    _ = (layout.sites.map Site.range).flatMap (·.share layout.cluster p.totalCalls) :=
      by rw [List.flatMap_map]
    _ |>.Perm (List.range p.totalCalls) := tiling.calls_perm positive _

/-! ## Runs -/

theorem published_of_run {events : List FleetEvent} (sound : f.Sound layout)
    (distinct : layout.Distinct) (runs : f.run layout events = some f') :
    f.published <+: f'.published := by
  induction events generalizing f with
  | nil =>
    cases runs
    exact List.prefix_rfl
  | cons e rest ih =>
    obtain ⟨middle, first, later⟩ := Option.bind_eq_some_iff.mp runs
    have moves := moves_of_step first
    exact (moves.passes sound.ledger.suffix).grows.trans (ih (sound.moves distinct moves) later)

theorem Followed.run {events : List FleetEvent} {start : Nat}
    (followed : Followed layout f start) (sound : f.Sound layout) (distinct : layout.Distinct)
    (runs : f.run layout events = some f') : Followed layout f' start := by
  induction events generalizing f with
  | nil =>
    cases runs
    exact followed
  | cons e rest ih =>
    obtain ⟨middle, first, later⟩ := Option.bind_eq_some_iff.mp runs
    have moves := moves_of_step first
    exact ih (followed.moves sound.ledger sound.manned distinct moves)
      (sound.moves distinct moves) later

/-- At rest, a station on duty has handled all messages published since the queues were bound. -/
theorem AtRest.judged (rest : f.AtRest layout) (sound : f.Sound layout) {start message : Nat}
    (followed : Followed layout f start) {st : Station} (listed : st ∈ f.stations)
    (on : st.duty.isOn = true) (above : start ≤ message) (below : message < f.published.length) :
    ∃ v ∈ f.verdicts, v.site = st.site ∧ v.message = message := by
  obtain ⟨i, found⟩ := List.getElem?_of_mem listed
  have listening := rest.listening sound.housed found on
  have arrived : message < f.next layout st.site := by
    rw [next, rest.waiting_eq_nil found listening]
    exact below
  rcases followed.seen st.site (sound.manned.placed st listed) message above arrived with
    judged | ⟨j, job, other, found', -, on'⟩
  · exact judged
  · exact absurd on' (rest.not_working sound.housed found' message job)

/-- The calls of a message have been launched, each once, and each handler gets the payload cut down
to its call, under the activation identifier that was drawn for it. -/
structure HandedOnce (layout : Layout) (f : Fleet) (message : Nat) (p : Payload) : Prop where
  indexes : ((f.calls.filter (·.message = message)).map (·.index)).Perm (List.range p.totalCalls)
  windows : ∀ (n : Nat) (c : CallRecord), f.calls[n]? = some c → c.message = message →
    c.window = (p.only c.index).withActivation (layout.ids n)

theorem Sound.handedOnce (sound : f.Sound layout) (positive : 0 < layout.cluster)
    (tiling : Tiling layout.cluster (layout.sites.map Site.range)) (distinct : layout.Distinct)
    {message : Nat} {body : List UInt8} {p : Payload}
    (published : f.published[message]? = some body) (read : Payload.ofBytes body = .ok p)
    (fits : FitsWords layout.cluster p.totalCalls) (has : p.HasSingles p.totalCalls)
    (judged : ∀ site ∈ layout.sites, ∃ v ∈ f.verdicts,
      v.site = site ∧ v.message = message ∧ v.result ≠ .error .shutdown) :
    f.HandedOnce layout message p where
  indexes := by
    have perm := sound.ledger.complete positive tiling distinct published read fits has judged
    rw [launches, List.filter_map, List.map_map] at perm
    exact perm
  windows n c found same := by
    have listed : f.launches[n]? = some c.toLaunch := by
      rw [launches, List.getElem?_map, found]
      rfl
    obtain ⟨-, -, other, q, call, published', read', single, window⟩ :=
      sound.ledger.launched n c.toLaunch listed
    rw [same, published] at published'
    cases published'
    rw [read] at read'
    cases read'
    rw [window, (Payload.eq_only_of_single single).1]

/-- A message whose calls all have an identifier fits the words of its cluster: no memory holds as
many identifiers as the largest job has calls. -/
theorem fitsWords_of_callIds {cluster : Nat} (word : cluster < wordBound) {p : Payload}
    (held : p.callIds.length < 2 ^ 63) (has : p.HasSingles p.totalCalls) :
    FitsWords cluster p.totalCalls := by
  have named := has.callIds
  have bound : wordBound = 2 ^ 64 := rfl
  exact ⟨word, by omega, fun _ => by omega⟩

/-- A cluster of listening pods on one exchange, over every order of messages, cancellations,
restarts and calls, and with any source of activation identifiers. No call is launched twice; each
is launched where its processor is, and its handler gets the payload cut down to it, under an
identifier drawn for it alone: one that no other call has, if the source does not repeat itself. A
message that comes when all queues are bound, and that is cut short nowhere, has all its calls
launched once every site has judged it, as every site with a listener has when nothing more happens
by itself. And things happen by themselves only so often.

The number of processors is a machine word, and a list of identifiers takes up memory, so it has
fewer than `2 ^ 63`. -/
theorem delivers {layout : Layout} (positive : 0 < layout.cluster)
    (word : layout.cluster < wordBound)
    (tiling : Tiling layout.cluster (layout.sites.map Site.range)) (distinct : layout.Distinct)
    {events : List FleetEvent} {f : Fleet} (runs : ({} : Fleet).run layout events = some f) :
    (f.calls.map fun c => (c.message, c.index)).Nodup ∧
    (∀ (n : Nat) (c : CallRecord), f.calls[n]? = some c →
      c.site ∈ layout.sites ∧ c.site.range.contains (c.index % layout.cluster) = true ∧
      ∃ body p call, f.published[c.message]? = some body ∧ Payload.ofBytes body = .ok p ∧
        c.index < p.totalCalls ∧ p.single c.index = .ok call ∧
        c.window = call.withActivation (layout.ids n)) ∧
    (((List.range f.calls.length).map layout.ids).Nodup →
      (f.calls.map (·.window.activationId)).Nodup) ∧
    (∀ (before after : List FleetEvent) (g : Fleet) (body : List UInt8) (p : Payload),
      events = before ++ .publish body :: after → ({} : Fleet).run layout before = some g →
      (∀ site ∈ layout.sites, g.broker.boundAt layout.exchange site.queue = true) →
      Payload.ofBytes body = .ok p → p.callIds.length < 2 ^ 63 → p.HasSingles p.totalCalls →
      ((∀ site ∈ layout.sites, ∃ v ∈ f.verdicts, v.site = site ∧
          v.message = g.published.length ∧ v.result ≠ .error .shutdown) →
        f.HandedOnce layout g.published.length p) ∧
      (f.AtRest layout →
        (∀ site ∈ layout.sites, (∃ st ∈ f.stations, st.site = site ∧ st.duty.isOn = true) ∨
          ∃ v ∈ f.verdicts, v.site = site ∧ v.message = g.published.length) →
        (∀ v ∈ f.verdicts, v.message = g.published.length → v.result ≠ .error .shutdown) →
        f.HandedOnce layout g.published.length p ∧ ∀ c ∈ f.calls, c.stage = .finished)) ∧
    ∀ (more : List FleetEvent) (f' : Fleet), (∀ e ∈ more, e.isOwn = true) →
      f.run layout more = some f' → more.length ≤ f.effort layout := by
  have sound := (empty_sound layout).run distinct runs
  refine ⟨?_, ?_, ?_, ?_, ?_⟩
  · have nodup := sound.ledger.nodup word tiling
    rwa [launches, List.map_map] at nodup
  · intro n c found
    have listed : f.launches[n]? = some c.toLaunch := by
      rw [launches, List.getElem?_map, found]
      rfl
    obtain ⟨inside, -, body, p, call, published, read, single, window⟩ :=
      sound.ledger.launched n c.toLaunch listed
    obtain ⟨contains, other, q, published', read', below⟩ :=
      sound.ledger.owned word tiling (List.mem_of_getElem? listed)
    rw [published] at published'
    cases published'
    rw [read] at read'
    cases read'
    exact ⟨inside, contains, body, p, call, published, read, below, single, window⟩
  · intro new
    have fresh := sound.ledger.fresh (by rwa [launches, List.length_map])
    rwa [launches, List.map_map] at fresh
  · rintro before after g body p rfl first bound read held has
    rw [run_append, first, Option.bind_some] at runs
    have soundG := (empty_sound layout).run distinct first
    obtain ⟨h, publishes, later⟩ := Option.bind_eq_some_iff.mp runs
    have moves := moves_of_step publishes
    have soundH := soundG.moves distinct moves
    have followed := (((Followed.start bound).moves soundG.ledger soundG.manned distinct moves).run
      soundH distinct later)
    have published : f.published[g.published.length]? = some body := by
      refine getElem?_of_prefix (published_of_run soundH distinct later) ?_
      cases publishes
      exact List.getElem?_concat_length
    have fits := fitsWords_of_callIds word held has
    refine ⟨sound.handedOnce positive tiling distinct published read fits has, ?_⟩
    intro rest present uncut
    refine ⟨sound.handedOnce positive tiling distinct published read fits has fun site inside => ?_,
      fun c listed => rest.finished sound.housed listed⟩
    have judged : ∃ v ∈ f.verdicts, v.site = site ∧ v.message = g.published.length := by
      rcases present site inside with ⟨st, listed, rfl, on⟩ | judged
      · exact rest.judged sound followed listed on (Nat.le_refl _)
          (List.getElem?_eq_some_iff.mp published).1
      · exact judged
    obtain ⟨v, listed, at_, same⟩ := judged
    exact ⟨v, listed, at_, same, uncut v listed same⟩
  · intro more f' own later
    have bound := own_le_effort own distinct sound.manned later
    omega

/-- A job of four calls. -/
def fourCalls : Payload where
  executorId := "e"
  jobId := "j"
  totalCalls := 4
  callIds := ["0", "1", "2", "3"]

/-- Three processors, shared out to two pods. -/
def twoPods : Layout where
  cluster := 3
  exchange := "jobs"
  sites := [⟨"a", ⟨0, 0⟩⟩, ⟨"b", ⟨1, 2⟩⟩]
  ids := Activation.id

/-- Both pods begin, a message comes that cannot be read, and its first taker drops it. -/
def opening : List FleetEvent :=
  [.hire ⟨"a", ⟨0, 0⟩⟩, .hire ⟨"b", ⟨1, 2⟩⟩, .station 0 .begin, .station 1 .begin, .publish [0],
    .station 0 .take, .station 0 .conclude]

/-- Both pods launch their calls; the first, which has one slot, waits for it in between, and begins
again after it was told to stop. -/
def working : List FleetEvent :=
  [.station 0 .take, .station 0 .launch, .station 1 .take, .call 0 .start, .station 1 .conclude,
    .station 1 .take, .station 1 .launch, .call 0 .finish, .station 0 .launch, .station 1 .launch,
    .station 0 .conclude, .station 0 .tell, .station 0 .leave, .station 1 .conclude,
    .call 2 .start, .call 1 .start, .call 3 .start, .call 1 .finish, .call 3 .finish,
    .call 2 .finish, .station 0 .begin]

theorem delivers_four_calls : ∃ (f : Fleet) (p : Payload),
    ({} : Fleet).run twoPods
      (opening ++ .publish (Text.Utf8.encode fourCalls.json.render) :: working) = some f ∧
    Payload.ofBytes (Text.Utf8.encode fourCalls.json.render) = .ok p ∧ p.totalCalls = 4 ∧
    f.HandedOnce twoPods 1 p ∧ (f.calls.map (·.window.activationId)).Nodup ∧
    ∀ c ∈ f.calls, c.stage = .finished := by
  generalize bytes : Text.Utf8.encode fourCalls.json.render = body
  have readable : ∃ p, Payload.ofBytes body = .ok p ∧
      (p.totalCalls = 4 ∧ p.callIds.length = 4 ∧ p.byteRanges.isEmpty = true) := by
    have checked : (match Payload.ofBytes body with
        | .ok p => decide (p.totalCalls = 4 ∧ p.callIds.length = 4 ∧ p.byteRanges.isEmpty = true)
        | .error _ => false) = true := by
      subst bytes
      decide +kernel
    cases read : Payload.ofBytes body with
    | ok p => exact ⟨p, rfl, by simpa [read] using checked⟩
    | error e => simp [read] at checked
  have opened : (({} : Fleet).run twoPods opening).any (fun g => g.published.length = 1 ∧
      ∀ site ∈ twoPods.sites, g.broker.boundAt twoPods.exchange site.queue = true) = true := by
    decide +kernel
  have ran : (({} : Fleet).run twoPods (opening ++ .publish body :: working)).any (fun f =>
      f.isAtRest twoPods = true ∧ f.calls.length = 4 ∧
      (∀ site ∈ twoPods.sites, ∃ st ∈ f.stations, st.site = site ∧ st.duty.isOn = true) ∧
      ∀ v ∈ f.verdicts, v.message = 1 → v.result ≠ .error .shutdown) = true := by
    subst bytes
    decide +kernel
  obtain ⟨p, read, total, callIds, byteRanges⟩ := readable
  obtain ⟨g, first, at_⟩ := (Option.any_eq_true _ _).mp opened
  obtain ⟨f, runs, at'⟩ := (Option.any_eq_true _ _).mp ran
  obtain ⟨published, bound⟩ := of_decide_eq_true at_
  obtain ⟨rest, four, present, uncut⟩ := of_decide_eq_true at'
  have has : p.HasSingles p.totalCalls :=
    ⟨by omega, .inl (List.isEmpty_iff.mp byteRanges)⟩
  obtain ⟨-, -, fresh, once, -⟩ :=
    @delivers twoPods (by decide) (by decide) ⟨by decide, by decide⟩ (by decide) _ _ runs
  have handed := (once opening working g body p rfl first bound read
    (by rw [callIds]; decide) has).2 (atRest_of_isAtRest rest)
  rw [published] at handed
  obtain ⟨handed, finished⟩ := handed (fun site inside => .inl (present site inside)) uncut
  exact ⟨f, p, runs, read, total, handed,
    fresh (by rw [four]; exact Activation.nodup_ids (by decide)), finished⟩

end Fleet

end CallDispatch
