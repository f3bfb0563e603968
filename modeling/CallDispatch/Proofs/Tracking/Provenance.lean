import CallDispatch.Proofs.Tracking.Lineage
import CallDispatch.Tracking.Session

/-!
# Where records come from

All calls with one joined job key are asked about in one store, the one of the backend of the first
of them. So what a future records is what that store replied under the future's own key; it is the
store of the future's own backend if all futures with its joined key name the same backend, and need
not be otherwise.
-/

namespace CallDispatch

/-- What a future captures of an output: the value, or null in place of calls. -/
def OutputRecord.captures : OutputRecord → Json
  | .value v => v
  | .calls _ => .null

/-- What a later state of a future has recorded beyond an earlier one is what the store of a backend
replied under the future's key. -/
structure Future.Learns (replies : Replies) (backend : String) (f g : Future) : Prop where
  name : g.name = f.name
  status : ∀ s, g.status = some s →
    f.status = some s ∨ replies.status backend f.key (.ok (some s))
  value : ∀ v, g.captured = some (.value v) → f.captured = some (.value v) ∨
    ∃ o, replies.output backend f.key (.ok (some o)) ∧ o.captures = v
  failure : ∀ message, g.captured = some (.failure message) →
    f.captured = some (.failure message) ∨
      ∃ s, replies.status backend f.key (.ok (some s)) ∧ s.failureMessage? = some message
  children : g.children = f.children ∨
    replies.output backend f.key (.ok (some (.calls g.children)))

namespace Future.Learns

variable {replies : Replies} {backend : String} {f g h : Future}

theorem refl (replies : Replies) (backend : String) (f : Future) : f.Learns replies backend f where
  name := rfl
  status _ := Or.inl
  value _ := Or.inl
  failure _ := Or.inl
  children := Or.inl rfl

theorem trans (before : f.Learns replies backend g) (after : g.Learns replies backend h) :
    f.Learns replies backend h := by
  have key : g.key = f.key := key_eq_of_name before.name
  refine ⟨after.name.trans before.name, ?_, ?_, ?_, ?_⟩
  · intro s status
    rcases after.status s status with known | replied
    · exact before.status s known
    · exact Or.inr (key ▸ replied)
  · intro v captured
    rcases after.value v captured with known | replied
    · exact before.value v known
    · exact Or.inr (key ▸ replied)
  · intro message captured
    rcases after.failure message captured with known | replied
    · exact before.failure message known
    · exact Or.inr (key ▸ replied)
  · rcases after.children with same | replied
    · rw [same]
      exact before.children
    · exact Or.inr (key ▸ replied)

theorem withStatus {s : StatusRecord} (replied : replies.status backend f.key (.ok (some s))) :
    f.Learns replies backend (f.withStatus s) := by
  refine ⟨f.withStatus_name s, ?_, ?_, ?_, Or.inl (f.withStatus_children s)⟩
  · intro s' status
    rw [withStatus_status] at status
    cases status
    exact Or.inr replied
  · intro v captured
    rw [withStatus_captured] at captured
    cases failed : s.failureMessage? with
    | none =>
      rw [failed] at captured
      exact Or.inl captured
    | some message =>
      rw [failed] at captured
      cases captured
  · intro message captured
    rw [withStatus_captured] at captured
    cases failed : s.failureMessage? with
    | none =>
      rw [failed] at captured
      exact Or.inl captured
    | some message' =>
      rw [failed] at captured
      cases captured
      exact Or.inr ⟨s, replied, failed⟩

theorem withOutput {o : OutputRecord} (replied : replies.output backend f.key (.ok (some o))) :
    f.Learns replies backend (f.withOutput o) := by
  cases o with
  | value v =>
    refine ⟨rfl, fun _ => Or.inl, ?_, nofun, Or.inl rfl⟩
    intro v' captured
    cases captured
    exact Or.inr ⟨_, replied, rfl⟩
  | calls keys =>
    refine ⟨rfl, fun _ => Or.inl, ?_, nofun, Or.inr replied⟩
    intro v' captured
    cases captured
    exact Or.inr ⟨_, replied, rfl⟩

/-- A future that records an answer learns it from the store that was asked. -/
theorem recorded {download : Bool} {index : Nat} {answer : Outcome FetchAnswer} (throwing : Bool)
    (comes : (f.target index).Comes replies backend download (.finished answer)) :
    f.Learns replies backend (f.recorded throwing answer) := by
  rcases recorded_cases throwing comes with same | ⟨s, same, replied, -⟩ |
      ⟨o, same, -, replied, -⟩ | ⟨s, o, same, -, -, -, replied, replied', -⟩
  · rw [same]
    exact refl replies backend f
  · rw [same]
    exact withStatus replied
  · rw [same]
    exact withOutput replied
  · rw [same]
    have key : (f.withStatus s).key = f.key := key_eq_of_name (f.withStatus_name s)
    exact (withStatus replied).trans (withOutput (key ▸ replied'))

end Future.Learns

variable {replies : Replies} {initial earlier later : List Future}

/-- The futures of a wait set later were there before, or are new, and have learned what they have
recorded since from the store of the first call with their joined key. -/
def Learned (replies : Replies) (earlier later : List Future) : Prop :=
  ∀ (i : Nat) (g : Future), later[i]? = some g →
    ∃ f first, (earlier[i]? = some f ∨ earlier.length ≤ i ∧ f = .ofName g.name) ∧
      firstOf g.jobKey (later.map Future.name) = some first ∧ f.Learns replies first.2 g

theorem Future.jobKey_of_name {f g : Future} (same : g.name = f.name) : g.jobKey = f.jobKey :=
  congrArg CallName.jobKey (Future.key_eq_of_name same)

/-- Taking in answers, every future learns from the store that its fetch asked. -/
theorem Absorbs.learned {terms : WaitTerms} {answers : List (Nat × Outcome FetchAnswer)}
    {kept : List (CallName × String)} (absorbs : Absorbs replies terms answers kept earlier later) :
    Learned replies earlier later := by
  intro i g found
  obtain ⟨first, atHead⟩ := firstOf_of_mem (List.mem_map_of_mem (f := Future.name)
    (List.mem_of_getElem? found))
  rcases absorbs.getElem?_cases found with ⟨f, before, rfl⟩ | ⟨past, name, -, rfl⟩
  · refine ⟨f, first, Or.inl before, atHead, ?_⟩
    rcases absorbs.answered_cases before with ⟨same, -⟩ |
        ⟨x, -, -, same, -, first', atHead', comes⟩
    · rw [same]
      exact .refl replies first.2 f
    · have own : (f.answered terms.throwing (sortAnswers answers) i).name.1.jobKey = f.jobKey :=
        Future.jobKey_of_name (f.answered_name _ _ i)
      rw [own, absorbs.names, firstOf_append_of_some atHead' kept] at atHead
      cases atHead
      rw [same]
      exact .recorded terms.throwing comes
  · exact ⟨_, first, Or.inr ⟨past, rfl⟩, atHead, .refl replies first.2 _⟩

/-- What is learned along a history. -/
theorem Absorbed.learned (absorbed : Absorbed replies earlier later) :
    Learned replies earlier later := by
  induction absorbed with
  | refl =>
    intro i g found
    obtain ⟨first, atHead⟩ := firstOf_of_mem (List.mem_map_of_mem (f := Future.name)
      (List.mem_of_getElem? found))
    exact ⟨g, first, Or.inl found, atHead, .refl replies first.2 g⟩
  | @tail middle later before step ih =>
    obtain ⟨terms, answers, kept, absorbs⟩ := step
    have longer := (Absorbed.names_prefix before).length_le
    rw [List.length_map, List.length_map] at longer
    intro i h found
    obtain ⟨g, first, known, atHead, learns⟩ := absorbs.learned i h found
    rcases known with inside | ⟨past, rfl⟩
    · obtain ⟨f, first', known', atHead', learns'⟩ := ih i g inside
      have same := firstOf_append_of_some atHead' kept
      rw [← absorbs.names, ← Future.jobKey_of_name learns.name, atHead] at same
      cases same
      refine ⟨f, first, ?_, atHead, learns'.trans learns⟩
      rwa [learns.name]
    · exact ⟨_, first, Or.inr ⟨by omega, rfl⟩, atHead, learns⟩

theorem mem_of_mapM_ok {f : α → Except ε β} {l : List α} {out : List β}
    (mapped : l.mapM f = .ok out) {y : β} (member : y ∈ out) : ∃ x ∈ l, f x = .ok y := by
  induction l generalizing out with
  | nil =>
    cases mapped
    cases member
  | cons x rest ih =>
    rw [List.mapM_cons] at mapped
    cases head : f x with
    | error e =>
      rw [head] at mapped
      cases mapped
    | ok z =>
      cases tail : rest.mapM f with
      | error e =>
        rw [head, tail] at mapped
        cases mapped
      | ok zs =>
        rw [head, tail] at mapped
        cases mapped
        rcases List.mem_cons.mp member with rfl | later
        · exact ⟨x, List.mem_cons_self, head⟩
        · obtain ⟨x', listed, found⟩ := ih tail later
          exact ⟨x', List.mem_cons_of_mem x listed, found⟩

/-- What is collected from a wait set is null or the value captured by one of its futures. -/
theorem Session.mem_values {throwing : Bool} {futures : List Future} {vs : List Json}
    (collected : Session.values throwing futures = .ok (.values vs)) {v : Json} (member : v ∈ vs) :
    v = .null ∨ ∃ g ∈ futures, g.captured = some (.value v) := by
  simp only [Session.values] at collected
  cases mapped : (futures.filter fun f => f.done && f.produceOutput && f.children.isEmpty).mapM
      fun f => f.result throwing with
  | error e =>
    rw [mapped] at collected
    cases collected
  | ok out =>
    rw [mapped] at collected
    cases collected
    obtain ⟨g, listed, result⟩ := mem_of_mapM_ok mapped member
    have inside : g ∈ futures := (List.mem_filter.mp listed).1
    unfold Future.result at result
    split at result
    · next v' captured =>
      cases result
      exact Or.inr ⟨g, inside, captured⟩
    · split at result
      · cases result
      · cases result
        exact Or.inl rfl
    · cases result
      exact Or.inl rfl

/-- Whatever happens to a wait set, every status, output or failure a future comes to record is one
that a store replied under the future's own key: the store of the backend of the first future with
its joined job key, which is its own if all futures with its joined key have one backend. The values
collected from the wait set come from the same stores. -/
theorem records_come_from_first_backend (tracked : Tracked replies initial later) :
    Learned replies initial later ∧
    (∀ (i : Nat) (g : Future), later[i]? = some g →
      (∀ h ∈ later, h.jobKey = g.jobKey → h.backend = g.backend) →
      ∃ f, (initial[i]? = some f ∨ initial.length ≤ i ∧ f = .ofName g.name) ∧
        f.Learns replies g.backend g) ∧
    ∀ throwing vs, Session.values throwing later = .ok (.values vs) → ∀ v ∈ vs, v = .null ∨
      ∃ (i : Nat) (g : Future) (first : CallName × String), later[i]? = some g ∧
        firstOf g.jobKey (later.map Future.name) = some first ∧
        ((∃ f : Future, initial[i]? = some f ∧ f.captured = some (.value v)) ∨
          ∃ o : OutputRecord, replies.output first.2 g.key (.ok (some o)) ∧ o.captures = v) := by
  have learned := tracked.absorbed.learned
  refine ⟨learned, ?_, ?_⟩
  · intro i g found shared
    obtain ⟨f, first, known, atHead, learns⟩ := learned i g found
    obtain ⟨listed, key⟩ := jobKey_of_firstOf atHead
    obtain ⟨h, member, rfl⟩ := List.mem_map.mp listed
    have own : h.backend = g.backend := shared h member key
    exact ⟨f, known, own ▸ learns⟩
  · intro throwing vs collected v member
    rcases Session.mem_values collected member with null | ⟨g, listed, captured⟩
    · exact Or.inl null
    · obtain ⟨i, found⟩ := List.getElem?_of_mem listed
      obtain ⟨f, first, known, atHead, learns⟩ := learned i g found
      refine Or.inr ⟨i, g, first, found, atHead, ?_⟩
      rcases learns.value v captured with before | ⟨o, replied, captures⟩
      · rcases known with inside | ⟨-, rfl⟩
        · exact Or.inl ⟨f, inside, before⟩
        · cases before
      · exact Or.inr ⟨o, Future.key_eq_of_name learns.name ▸ replied, captures⟩

/-! ### A job in two backends -/

namespace Mixed

def one : CallName := ⟨"e", "j", "0"⟩

def other : CallName := ⟨"e", "j", "1"⟩

/-- The second call has left a value in its own backend, and another one in that of the first. -/
def stores : Stores where
  entries :=
    [("alpha", ((({} : Store).complete one (.text "first")).complete other (.text "wrong"))),
      ("beta", ({} : Store).complete other (.text "right"))]

def session : Session where
  futures := [{ key := one, backend := "alpha" }, { key := other, backend := "beta" }]
  sur := { stores }
  monitorInterval := 10
  storage := { interval := 10 }
  limit := 20

/-- The second call records, and the wait returns, the value left in the backend of the first, which
is not the one its own backend has. -/
theorem value_of_other_backend :
    ((session.waitValues {} []).1.futures[1]?).map
        (fun g => (g.key, g.backend, g.captured)) =
      some (other, "beta", some (.value (.text "wrong"))) ∧
    (match (session.waitValues {} []).2.result with
      | .ok (.values vs) => vs
      | _ => []) = [.text "first", .text "wrong"] ∧
    stores.output? "beta" other = .ok (some (.value (.text "right"))) := by
  refine ⟨?_, ?_, rfl⟩
  · cbv
  · cbv

/-- The wait set once the second call has been seen and asked about. -/
def taken : List Future :=
  [{ key := one, backend := "alpha" },
    { key := other, backend := "beta", ready := true, done := true, status := some .ok
      captured := some (.value (.text "wrong")) }]

theorem tracked_taken :
    Tracked (.fixed stores.status? stores.output?) session.futures taken := by
  let w : Wait ManualMonitor := ((Wait.prepare { download := true }
    { openBackend := fun _ _ => .ok () } { seen := [("e-j", ["1"])] } {} session.futures).enter
      false).pollNext false
  have reached : w.Reached (.fixed stores.status? stores.output?) { download := true }
      session.futures :=
    .polled false (.entered false (.prepared _ _ fun _ _ => rfl))
  have fetching : w.phase = .fetching 0 [⟨1, other, true, true⟩] := rfl
  have answers : Answers (.fixed stores.status? stores.output?) "alpha" true
      [⟨1, other, true, true⟩]
      [(1, .ok (.result (some .ok) (some (.value (.text "wrong")))))] := by
    refine ⟨.refl _, ?_⟩
    intro x member
    obtain rfl := List.mem_singleton.mp member
    have asked : (⟨1, other, true, true⟩ : Target).Comes
        (.fixed stores.status? stores.output?) "alpha" true .askStatus := .first
    have status : (Replies.fixed stores.status? stores.output?).status "alpha" other
        (.ok (some .ok)) := rfl
    have output : (Replies.fixed stores.status? stores.output?).output "alpha" other
        (.ok (some (.value (.text "wrong")))) := rfl
    exact ⟨_, List.mem_singleton_self _, rfl,
      (asked.status status).output output⟩
  have same : (w.answer
      [(1, .ok (.result (some .ok) (some (.value (.text "wrong")))))]).state.futures = taken := by
    simp only [Wait.answer, fetching, WaitState.settle, sortAnswers, List.mergeSort_singleton]
    rfl
  exact same ▸ .waited .begun (.answered reached fetching rfl answers)

theorem records_come_from_first_backend_mixed :
    Learned (.fixed stores.status? stores.output?) session.futures taken :=
  (records_come_from_first_backend tracked_taken).1

end Mixed

end CallDispatch
