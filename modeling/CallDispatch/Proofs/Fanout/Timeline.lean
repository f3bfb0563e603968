import CallDispatch.Proofs.Fanout.Moments

/-!
# Listeners in time as a fleet

What listeners do in time is one of the interleavings of a fleet: at each moment calls finish,
listeners begin, messages are published, and the listeners get as far as they can, one after the
other. So what holds of every fleet holds of listeners in time.
-/

namespace CallDispatch

namespace Listening

variable {layout : Layout} {sent : List (List UInt8)} {listeners : List Listener}
  {broker : Broker (List UInt8)} {next : Nat} {f : Fleet}

/-! ## All listeners at one moment -/

theorem set_length_append (before : List Listener) (l l' : Listener) (rest : List Listener) :
    (before ++ l :: rest).set before.length l' = before ++ l' :: rest := by
  rw [List.set_append_right before.length l' (Nat.le_refl _), Nat.sub_self, List.set_cons_zero]

theorem length_lt_append (before : List Listener) (l : Listener) (rest : List Listener) :
    before.length < (before ++ l :: rest).length := by
  rw [List.length_append, List.length_cons]
  omega

/-- What every listener in turn can do, all can do. The state it leaves to the others is a broker
and the number of the next identifier. -/
theorem Mirrored.sweep (turns : List Listener → Broker (List UInt8) → Nat →
      List Listener × Broker (List UInt8) × Nat)
    (turn : Listener → Broker (List UInt8) → Nat → Listener × Broker (List UInt8) × Nat)
    (nil : ∀ broker next, turns [] broker next = ([], broker, next))
    (cons : ∀ l rest broker next, turns (l :: rest) broker next =
      ((turn l broker next).1 :: (turns rest (turn l broker next).2.1 (turn l broker next).2.2).1,
        (turns rest (turn l broker next).2.1 (turn l broker next).2.2).2))
    (acts : ∀ (listeners : List Listener) (i : Nat) (l : Listener) (broker : Broker (List UInt8))
      (next : Nat) (f : Fleet), i < listeners.length →
      Mirrored layout sent (listeners.set i l) broker next f →
      Follows layout sent f (listeners.set i (turn l broker next).1) (turn l broker next).2.1
        (turn l broker next).2.2)
    (before : List Listener) {rest : List Listener}
    (mirrored : Mirrored layout sent (before ++ rest) broker next f) :
    Follows layout sent f (before ++ (turns rest broker next).1) (turns rest broker next).2.1
      (turns rest broker next).2.2 := by
  induction rest generalizing before broker next f with
  | nil =>
    rw [nil]
    exact mirrored.follows
  | cons l rest ih =>
    rw [cons]
    have first := acts (before ++ l :: rest) before.length l broker next f
      (length_lt_append before l rest) (by rwa [set_length_append])
    rw [set_length_append] at first
    refine first.trans fun f' mirrored' => ?_
    have later := ih (before ++ [(turn l broker next).1]) (by simpa using mirrored')
    simpa using later

theorem Mirrored.publish (mirrored : Mirrored layout sent listeners broker next f)
    (due : List (Nat × String × List UInt8)) (exchange : ∀ m ∈ due, m.2.1 = layout.exchange) :
    Follows layout (sent ++ due.map (·.2.2)) f listeners
      (due.foldl (fun b m => b.publish m.2.1 m.2.2) broker) next := by
  induction due generalizing sent broker f with
  | nil =>
    rw [List.map_nil, List.append_nil]
    exact mirrored.follows
  | cons m rest ih =>
    have happens : f.step layout (.publish m.2.2) = some { f with
        broker := f.broker.publish layout.exchange m.2.2
        published := f.published ++ [m.2.2] } := rfl
    have mirrored' : Mirrored layout (sent ++ [m.2.2]) listeners (broker.publish m.2.1 m.2.2) next
        { f with
          broker := f.broker.publish layout.exchange m.2.2
          published := f.published ++ [m.2.2] } := {
      sent := congrArg (· ++ _) mirrored.sent
      broker := by rw [mirrored.broker, exchange m List.mem_cons_self]
      next := mirrored.next
      stations := mirrored.stations
      images := fun i l st listed found => { mirrored.images i l st listed found with } }
    have later := ih mirrored' fun m' member => exchange m' (List.mem_cons_of_mem m member)
    rw [List.append_assoc] at later
    exact .of_run (Fleet.run_one happens) later

/-! ## Runs -/

/-- Listeners in time and a fleet between two moments. All messages of a run have been published or
are still to be. -/
structure MirroredBy (w : Listening) (layout : Layout) (all : List (List UInt8)) (f : Fleet) :
    Prop where
  mirrored : Mirrored layout f.published w.listeners w.broker w.nextActivation f
  exchange : ∀ m ∈ w.publish, m.2.1 = layout.exchange
  messages : (f.published ++ w.publish.map (·.2.2)).Perm all

theorem MirroredBy.moment {w : Listening} {all : List (List UInt8)}
    (image : w.MirroredBy layout all f) :
    ∃ events f', f.run layout events = some f' ∧ w.moment.MirroredBy layout all f' := by
  have perm := List.filter_append_perm (fun m : Nat × String × List UInt8 => decide (m.1 ≤ w.now))
    w.publish
  have finished := image.mirrored.sweep
    (fun ls b n => (ls.map fun l => { l with pod := l.pod.finishDue w.now }, b, n))
    (fun l b n => ({ l with pod := l.pod.finishDue w.now }, b, n))
    (fun _ _ => rfl) (fun _ _ _ _ => rfl)
    (fun _ _ _ _ _ _ inside mirrored => Mirrored.finishDue inside mirrored w.now) []
  have begun := finished.trans fun _ mirrored => mirrored.sweep
    (fun ls b n => ((begins w.now ls b).1, (begins w.now ls b).2, n))
    (fun l b n => ((l.begin w.now b).1, (l.begin w.now b).2, n))
    (fun _ _ => rfl) (fun _ _ _ _ => rfl)
    (fun _ _ _ _ _ _ inside mirrored => mirrored.begin inside w.now) []
  have published := begun.trans fun _ mirrored => mirrored.publish
    (w.publish.filter (·.1 ≤ w.now))
    fun m member => image.exchange m (List.mem_of_mem_filter member)
  obtain ⟨events, f', runs, mirrored⟩ := published.trans fun _ mirrored => mirrored.sweep
    (acts w.now) (fun l b n => l.act w.now (Listener.actLimit b) b n)
    (fun _ _ => rfl) (fun _ _ _ _ => rfl)
    (fun _ _ _ b _ _ inside mirrored => mirrored.act inside w.now (Listener.actLimit b)) []
  refine ⟨events, f', runs, ?_⟩
  rw [Listening.moment]
  simp only [List.partition_eq_filter_filter]
  exact {
    mirrored := mirrored.sent.symm ▸ mirrored
    exchange := fun m member => image.exchange m (List.mem_of_mem_filter member)
    messages := by
      rw [mirrored.sent, List.append_assoc, ← List.map_append]
      exact ((perm.map _).append_left _).trans image.messages }

/-- Listeners in time do what a fleet can do. -/
theorem run_mirrored (limit : Nat) {w : Listening} {all : List (List UInt8)}
    (image : w.MirroredBy layout all f) :
    ∃ events f', f.run layout events = some f' ∧ (run limit w).MirroredBy layout all f' := by
  induction limit generalizing w f with
  | zero => exact ⟨[], f, rfl, image⟩
  | succ limit ih =>
    obtain ⟨events, f', runs, image'⟩ := image.moment
    rw [run]
    split
    · next now _ =>
      obtain ⟨rest, f'', later, image''⟩ := ih (w := { w.moment with now }) { image' with }
      exact ⟨events ++ rest, f'', by rw [Fleet.run_append, runs]; exact later, image''⟩
    · exact ⟨events, f', runs, image'⟩

end Listening

/-- A listener that has yet to begin, at a place of a cluster. -/
structure Listener.Begins (l : Listener) (layout : Layout) : Prop where
  inside : l.site ∈ layout.sites
  exchange : l.exchange = layout.exchange
  pod : l.pod = { Pod.idle layout.cluster l.pod.range l.pod.handler with ids := layout.ids }
  phase : l.phase = .idle
  stats : l.stats = {}

namespace Fleet

variable {layout : Layout}

theorem run_hires (f : Fleet) (sites : List Site) (inside : ∀ site ∈ sites, site ∈ layout.sites) :
    f.run layout (sites.map .hire) =
      some { f with stations := f.stations ++ sites.map Station.ofSite } := by
  induction sites generalizing f with
  | nil => simp [run]
  | cons site rest ih =>
    have happens : f.step layout (.hire site) =
        some { f with stations := f.stations ++ [Station.ofSite site] } :=
      if_pos (inside site List.mem_cons_self)
    rw [List.map_cons, run, happens, Option.bind_some,
      ih _ fun other listed => inside other (List.mem_cons_of_mem site listed)]
    simp

end Fleet

namespace Listening

variable {layout : Layout} {f : Fleet}

theorem mirroredBy_of_begins {w : Listening} (stations : f.stations = []) (calls : f.calls = [])
    (broker : f.broker = w.broker) (next : w.nextActivation = 0)
    (exchange : ∀ m ∈ w.publish, m.2.1 = layout.exchange)
    (begins : ∀ l ∈ w.listeners, l.Begins layout) : ∃ events f', f.run layout events = some f' ∧
      w.MirroredBy layout (f.published ++ w.publish.map (·.2.2)) f' := by
  refine ⟨_, _, f.run_hires (w.listeners.map Listener.site) fun site member => ?_, ?_⟩
  · obtain ⟨l, listed, rfl⟩ := List.mem_map.mp member
    exact (begins l listed).inside
  · refine ⟨⟨rfl, broker, ?_, ?_, ?_⟩, exchange, .refl _⟩
    · rw [next, calls]
      rfl
    · simp [stations]
    · intro i l st listed found
      have begin := begins l (List.mem_of_getElem? listed)
      rw [stations, List.nil_append, List.map_map, List.getElem?_map, listed] at found
      cases found
      have empty (j : Nat) (stage : CallStage) : Fleet.tasks { f with
          stations := f.stations ++ (w.listeners.map Listener.site).map Station.ofSite } j stage =
          [] := by
        rw [Fleet.tasks, calls]
        rfl
      exact {
        site := rfl
        exchange := begin.exchange
        cluster := congrArg Pod.cluster begin.pod
        ids := congrArg Pod.ids begin.pod
        slots := (congrArg Pod.slots begin.pod).symm
        stats := begin.stats.symm
        untold := fun on => by cases on
        fresh := fun _ => begin.stats
        duty := begin.phase.symm ▸ .idle
        launched := by
          rw [empty, congrArg Pod.launched begin.pod]
          rfl
        running := by
          rw [empty, congrArg Pod.running begin.pod]
          rfl
        log := by
          rw [empty, empty, congrArg Pod.log begin.pod]
          rfl }

/-- What handlers have been given in time is what has been handed over in a fleet. -/
theorem MirroredBy.windows {w : Listening} {all : List (List UInt8)}
    (image : w.MirroredBy layout all f) (housed : f.Housed) :
    (w.listeners.flatMap fun l => l.pod.log.calls.map (·.window)).Perm
      ((f.calls.filter (·.stage ≠ .launched)).map (·.window)) := by
  have stations : ∀ c ∈ f.calls.filter (·.stage ≠ .launched),
      c.station ∈ List.range w.listeners.length := fun c member =>
    List.mem_range.mpr (image.mirrored.stations ▸
      housed.stations c (List.mem_of_mem_filter member))
  have logs : (w.listeners.flatMap fun l => l.pod.log.calls.map (·.window)).Perm
      ((List.range w.listeners.length).flatMap fun i =>
        ((f.calls.filter (·.stage ≠ .launched)).filter (·.station = i)).map (·.window)) := by
    refine flatMap_perm_range fun i l listed => ?_
    obtain ⟨below, -⟩ := List.getElem?_eq_some_iff.mp listed
    have found := List.getElem?_eq_getElem (image.mirrored.stations.symm ▸ below)
    exact (image.mirrored.images i l _ listed found).log.symm.trans (f.started_perm i)
  refine logs.trans ?_
  rw [← List.map_flatMap]
  exact ((perm_flatMap_filter List.nodup_range stations).map _).symm

/-- What handlers are given in time: calls of the messages, none twice, each at a place that owns
its processor, cut down to the call and under an identifier drawn for it. -/
theorem run_hands_out {w : Listening} {opening : List FleetEvent}
    (word : layout.cluster < Text.Decimal.wordBound)
    (tiling : Tiling layout.cluster (layout.sites.map Site.range)) (distinct : layout.Distinct)
    (opened : ({} : Fleet).run layout opening = some f) (stations : f.stations = [])
    (broker : f.broker = w.broker) (next : w.nextActivation = 0)
    (exchange : ∀ m ∈ w.publish, m.2.1 = layout.exchange)
    (begins : ∀ l ∈ w.listeners, l.Begins layout) (limit : Nat) :
    ∃ (sent unsent : List (List UInt8)) (handed : List Launch),
      (sent ++ unsent).Perm (f.published ++ w.publish.map (·.2.2)) ∧
      ((run limit w).listeners.flatMap fun l => l.pod.log.calls.map (·.window)).Perm
        (handed.map (·.window)) ∧
      (handed.map fun c => (c.message, c.index)).Nodup ∧
      ∀ c ∈ handed, c.site ∈ layout.sites ∧
        c.site.range.contains (c.index % layout.cluster) = true ∧
        ∃ body p n, sent[c.message]? = some body ∧ Payload.ofBytes body = .ok p ∧
          c.index < p.totalCalls ∧
          c.window = (p.only c.index).withActivation (layout.ids n) := by
  have sound := (Fleet.empty_sound layout).run distinct opened
  have calls : f.calls = [] := List.eq_nil_iff_forall_not_mem.mpr fun c listed => by
    have inside := sound.housed.stations c listed
    rw [stations] at inside
    cases inside
  obtain ⟨hires, g, hired, image⟩ := mirroredBy_of_begins stations calls broker next exchange begins
  obtain ⟨events, h, runs, image'⟩ := run_mirrored limit image
  have soundH := (sound.run distinct hired).run distinct runs
  have part : ((h.calls.filter (·.stage ≠ .launched)).map CallRecord.toLaunch).Sublist h.launches :=
    List.filter_sublist.map _
  refine ⟨h.published, _, (h.calls.filter (·.stage ≠ .launched)).map CallRecord.toLaunch,
    image'.messages, ?_, ?_, ?_⟩
  · rw [List.map_map]
    exact image'.windows soundH.housed
  · exact (soundH.ledger.nodup word tiling).sublist (part.map _)
  · intro c listed
    have launched := part.subset listed
    obtain ⟨n, found⟩ := List.getElem?_of_mem launched
    obtain ⟨inside, -, body, p, call, published, read, single, window⟩ :=
      soundH.ledger.launched n c found
    obtain ⟨contains, _, _, published', read', below⟩ := soundH.ledger.owned word tiling launched
    rw [published] at published'
    cases published'
    rw [read] at read'
    cases read'
    exact ⟨inside, contains, body, p, n, published, read, below,
      (Payload.eq_only_of_single single).1 ▸ window⟩

end Listening

end CallDispatch
