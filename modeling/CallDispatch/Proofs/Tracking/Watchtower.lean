import CallDispatch.Proofs.Tracking.Watching
import Mathlib.Data.List.Induction
import Mathlib.Logic.Function.Basic

/-!
# Tasks and sweeps in any order

A listing monitor is not all there is to watching. The tasks it has begun and the sweeps it was
asked for run beside each other and beside whoever begins them. Each asks a store, leaves the others
to go on until it is told the answer, and records it then. A watchtower is a monitor with everything
that was ever set going by it, as a machine that goes on by one such stretch at a time, in whatever
order, while its surroundings change.

Tasks end by themselves and are begun again, so that a joined key may come to have had many. The
invariant that carries the rest is that a task that is alive is the one last begun for its key. It
follows that no two are alive for one key, and that there is one as long as a call waited for has
not been seen. At every point the entries are those of a listing monitor that takes the same answers
at once.
-/

namespace CallDispatch

/-! ## Statuses that stay -/

namespace Stores

theorem find_filter_of_ne {backend backend' : String} (ne : backend' ≠ backend)
    (entries : List (String × Store)) :
    find backend' (entries.filter fun e => e.1 ≠ backend) = find backend' entries := by
  induction entries with
  | nil => rfl
  | cons e rest ih =>
    obtain ⟨name, store⟩ := e
    rw [List.filter_cons]
    by_cases same : name = backend
    · rw [if_neg (by simpa using same), ih, find, if_neg (same ▸ Ne.symm ne)]
    · rw [if_pos (by simpa using same), find, find, ih]

theorem store_update (s : Stores) (backend backend' : String) (f : Store → Store) :
    (s.update backend f).store backend' =
      if backend' = backend then f (s.store backend) else s.store backend' := by
  unfold update Stores.store
  rw [find]
  by_cases same : backend' = backend
  · rw [if_pos same.symm, if_pos same]
  · rw [if_neg (Ne.symm same), if_neg same]
    exact find_filter_of_ne same s.entries

/-- Whether a store has a status of a call. -/
def Knows (s : Stores) (backend : String) (key : CallName) : Prop :=
  ∃ status, Store.lookup key (s.store backend).statuses = some status

theorem Knows.update {s : Stores} {backend : String} {key : CallName} (knows : s.Knows backend key)
    (backend' : String) {f : Store → Store}
    (keeps : ∀ store, key ∈ store.statuses.map (·.1) → key ∈ (f store).statuses.map (·.1)) :
    (s.update backend' f).Knows backend key := by
  have known := Store.lookup_eq_some.mp knows
  apply Store.lookup_eq_some.mpr
  rw [store_update]
  split
  · next same =>
    rw [same] at known
    exact keeps _ known
  · exact known

end Stores

theorem Store.mem_keys_replace {key key' : CallName} {a : α} {entries : List (CallName × α)}
    (known : key ∈ entries.map (·.1)) : key ∈ (replace key' a entries).map (·.1) := by
  rw [replace, List.map_cons, List.mem_cons]
  by_cases same : key = key'
  · exact Or.inl same
  · obtain ⟨e, member, rfl⟩ := List.mem_map.mp known
    exact Or.inr (List.mem_map_of_mem (List.mem_filter.mpr ⟨member, decide_eq_true same⟩))

/-- Whatever changes, a call that has a status keeps one. -/
theorem Surroundings.knows_change {sur : Surroundings} {backend : String} {key : CallName}
    (knows : sur.stores.Knows backend key) (c : Change) :
    (sur.change c).stores.Knows backend key := by
  cases c with
  | leaveStatus other name status => exact knows.update other fun _ => Store.mem_keys_replace
  | complete other name value => exact knows.update other fun _ => Store.mem_keys_replace
  | leaveOutput other name output => exact knows.update other fun _ => id
  | unavailable other yes => exact knows.update other fun _ => id
  | statusLatency | outputLatency | latency | failFetch | healFetch | closeBackend | cancel |
    observe => exact knows

/-! ## Those who look -/

/-- How far one who asks a store has come: about to ask, waiting for the answer, told it, or at the
end. -/
inductive Inquiry where
  | idle
  | asking
  | told (answer : Outcome (List String))
  | ended

def Inquiry.hasEnded : Inquiry → Bool
  | .ended => true
  | _ => false

/-- One who asks a store which calls of a job have a status: a task, which goes on asking until all
calls waited for have been seen, or a sweep, which asks once. -/
structure Lookout where
  job : WatchedJob
  backend : String
  polls : Bool
  inquiry : Inquiry := .idle

namespace Lookout

/-- Whether a lookout is a task of a joined key that has not ended. -/
def Polls (l : Lookout) (key : String) : Prop :=
  l.polls = true ∧ l.job.jobKey = key ∧ l.inquiry.hasEnded = false

/-- What the store that is asked has to say. -/
def answer (stores : Stores) (l : Lookout) : Outcome (List String) :=
  stores.finishedCalls l.backend l.job.executorId l.job.jobId

/-- What a lookout hears when it goes on. A store that is unavailable says so as it is asked. -/
def hears (stores : Stores) (l : Lookout) : Option (Outcome (List String)) :=
  match l.inquiry with
  | .idle =>
    match (stores.store l.backend).check l.backend with
    | .ok () => none
    | .error e => some (.error e)
  | .told answer => some answer
  | .asking | .ended => none

theorem hears_ok {stores : Stores} {l : Lookout} {ids : List String} :
    l.hears stores = some (.ok ids) ↔ l.inquiry = .told (.ok ids) := by
  unfold hears
  constructor
  · intro heard
    split at heard
    · split at heard <;> cases heard
    · next told =>
      cases heard
      exact told
    · cases heard
    · cases heard
  · intro told
    rw [told]

/-- One that hears something is not at the end. -/
theorem awake_of_hears {stores : Stores} {l : Lookout} {answer : Outcome (List String)}
    (heard : l.hears stores = some answer) : l.inquiry.hasEnded = false := by
  unfold hears at heard
  cases at_ : l.inquiry with
  | idle | asking | told => rfl
  | ended =>
    rw [at_] at heard
    cases heard

end Lookout

/-- What is known about a job, with the number of the task last begun for it. -/
structure Post where
  wanted : List String := []
  observed : List String := []
  task : Option Nat := none

/-- Whether every call waited for has been seen. -/
def Post.sawAll (p : Post) : Bool :=
  p.wanted.all fun id => p.observed.contains id

theorem Post.sawAll_iff {p : Post} :
    p.sawAll = true ↔ ∀ id ∈ p.wanted, id ∈ p.observed := by
  simp [sawAll]

/-! ## The machine -/

/-- A monitor at work: its surroundings, what it knows by joined key, and all tasks and sweeps there
have been, by number. -/
structure Watchtower where
  sur : Surroundings
  posts : String → Post := fun _ => {}
  lookouts : List Lookout := []

/-- How a lookout may move: it goes on as far as it can, its store replies to it or fails it, or it
is given up. -/
inductive LookoutMove where
  | proceeds
  | replied
  | failed (e : DispatchError)
  | abandoned

/-- What may happen to a watchtower. -/
inductive Occurrence where
  | changed (c : Change)
  | start (job : WatchedJob) (backend : String)
  | sweep (job : WatchedJob) (backend : String)
  | moves (n : Nat) (move : LookoutMove)

namespace Watchtower

/-- Change what is known about a job. -/
def note (key : String) (f : Post → Post) (t : Watchtower) : Watchtower :=
  { t with posts := Function.update t.posts key (f (t.posts key)) }

/-- Put a lookout, known by its number, at some point of its inquiry. -/
def put (n : Nat) (l : Lookout) (inquiry : Inquiry) (t : Watchtower) : Watchtower :=
  { t with lookouts := t.lookouts.set n { l with inquiry } }

/-- Send another lookout. -/
def send (l : Lookout) (t : Watchtower) : Watchtower :=
  { t with lookouts := t.lookouts ++ [l] }

/-- The task of a joined key while it is alive. -/
def taskOf (t : Watchtower) (key : String) : Option Lookout :=
  (t.posts key).task.bind fun n => (t.lookouts[n]?).filter fun l => !l.inquiry.hasEnded

def isAlive (t : Watchtower) (key : String) : Bool := (t.taskOf key).isSome

/-- Whether a number is that of a task of a joined key that is alive. -/
def IsTask (t : Watchtower) (key : String) (n : Nat) : Prop :=
  ∃ l, t.lookouts[n]? = some l ∧ l.Polls key

/-- Wait for more calls of a job. -/
def want (job : WatchedJob) (t : Watchtower) : Watchtower :=
  t.note job.jobKey fun p => { p with wanted := extend p.wanted job.callIds }

/-- Begin a task for a job. Its number is the next. -/
def launch (job : WatchedJob) (backend : String) (t : Watchtower) : Watchtower :=
  (t.note job.jobKey ({ · with task := some t.lookouts.length })).send
    { job, backend, polls := true }

/-- Record calls as seen. -/
def see (key : String) (ids : List String) (t : Watchtower) : Watchtower :=
  t.note key fun p => { p with observed := extend p.observed ids }

/-- A lookout hears an answer. A sweep ends with it, a task once it has seen all it waits for. -/
def hear (n : Nat) (l : Lookout) (t : Watchtower) : Outcome (List String) → Watchtower
  | .ok ids =>
    let t := t.see l.job.jobKey ids
    t.put n l (if l.polls && !(t.posts l.job.jobKey).sawAll then .idle else .ended)
  | .error _ => t.put n l (if l.polls then .idle else .ended)

/-- Let a lookout move. Only one that waits is replied to or failed; only a sweep is given up. -/
def move (n : Nat) (l : Lookout) (t : Watchtower) : LookoutMove → Watchtower
  | .proceeds =>
    match l.hears t.sur.stores with
    | some answer => t.hear n l answer
    | none =>
      match l.inquiry with
      | .idle => t.put n l .asking
      | _ => t
  | .replied =>
    match l.inquiry with
    | .asking => t.put n l
        (.told (.ok ((t.sur.stores.store l.backend).finishedCalls l.job.executorId l.job.jobId)))
    | _ => t
  | .failed e =>
    match l.inquiry with
    | .asking => t.put n l (.told (.error e))
    | _ => t
  | .abandoned => if l.polls || l.inquiry.hasEnded then t else t.put n l .ended

/-- What an occurrence makes of a watchtower. -/
def step (t : Watchtower) : Occurrence → Watchtower
  | .changed c => { t with sur := t.sur.change c }
  | .start job backend =>
    let t := t.want job
    if t.isAlive job.jobKey then t else t.launch job backend
  | .sweep job backend => t.send { job, backend, polls := false }
  | .moves n move =>
    match t.lookouts[n]? with
    | some l => t.move n l move
    | none => t

/-- A new watchtower after a history. -/
def after (sur : Surroundings) (history : List Occurrence) : Watchtower :=
  history.foldl step { sur }

theorem after_concat (sur : Surroundings) (history : List Occurrence) (o : Occurrence) :
    after sur (history ++ [o]) = (after sur history).step o := by
  simp [after]

variable {t t' : Watchtower}

/-! ### What operations do -/

theorem posts_note (key key' : String) (f : Post → Post) :
    (t.note key f).posts key' = if key' = key then f (t.posts key) else t.posts key' :=
  Function.update_apply _ _ _ _

theorem posts_want (job : WatchedJob) (key : String) :
    (t.want job).posts key = if key = job.jobKey then
      { t.posts job.jobKey with wanted := extend (t.posts job.jobKey).wanted job.callIds }
    else t.posts key :=
  posts_note _ _ _

theorem posts_launch (job : WatchedJob) (backend key : String) :
    (t.launch job backend).posts key = if key = job.jobKey then
      { t.posts job.jobKey with task := some t.lookouts.length }
    else t.posts key :=
  posts_note job.jobKey key ({ · with task := some t.lookouts.length })

theorem mem_wanted_want {job : WatchedJob} {key id : String} :
    id ∈ ((t.want job).posts key).wanted ↔
      id ∈ (t.posts key).wanted ∨ key = job.jobKey ∧ id ∈ job.callIds := by
  rw [posts_want]
  split
  · next own =>
    rw [mem_extend, own]
    simp
  · next other => simp [other]

theorem observed_want (job : WatchedJob) (key : String) :
    ((t.want job).posts key).observed = (t.posts key).observed := by
  rw [posts_want]
  split
  · next own => rw [own]
  · rfl

theorem wanted_launch (job : WatchedJob) (backend key : String) :
    ((t.launch job backend).posts key).wanted = (t.posts key).wanted := by
  rw [posts_launch]
  split
  · next own => rw [own]
  · rfl

theorem observed_launch (job : WatchedJob) (backend key : String) :
    ((t.launch job backend).posts key).observed = (t.posts key).observed := by
  rw [posts_launch]
  split
  · next own => rw [own]
  · rfl

theorem posts_see (key key' : String) (ids : List String) :
    (t.see key ids).posts key' = if key' = key then
      { t.posts key with observed := extend (t.posts key).observed ids }
    else t.posts key' :=
  posts_note _ _ _

theorem wanted_see (key key' : String) (ids : List String) :
    ((t.see key ids).posts key').wanted = (t.posts key').wanted := by
  rw [posts_see]
  split
  · next own => rw [own]
  · rfl

theorem mem_observed_see {key key' id : String} {ids : List String} :
    id ∈ ((t.see key ids).posts key').observed ↔
      id ∈ (t.posts key').observed ∨ key' = key ∧ id ∈ ids := by
  rw [posts_see]
  split
  · next own =>
    rw [mem_extend, own]
    simp
  · next other => simp [other]

theorem getElem?_put {n : Nat} {l : Lookout} (found : t.lookouts[n]? = some l) (inquiry : Inquiry)
    (m : Nat) :
    (t.put n l inquiry).lookouts[m]? =
      if n = m then some { l with inquiry } else t.lookouts[m]? := by
  have within := (List.getElem?_eq_some_iff.mp found).1
  unfold put
  rw [List.getElem?_set, if_pos within]

theorem getElem?_send_of_some {n : Nat} {l : Lookout} (found : t.lookouts[n]? = some l)
    (sent : Lookout) : (t.send sent).lookouts[n]? = some l := by
  have within := (List.getElem?_eq_some_iff.mp found).1
  exact (List.getElem?_append_left within).trans found

theorem getElem?_send {n : Nat} {l sent : Lookout} (found : (t.send sent).lookouts[n]? = some l) :
    t.lookouts[n]? = some l ∨ n = t.lookouts.length ∧ l = sent := by
  have found' : (t.lookouts ++ [sent])[n]? = some l := found
  rcases Nat.lt_trichotomy n t.lookouts.length with old | rfl | beyond
  · rw [List.getElem?_append_left old] at found'
    exact Or.inl found'
  · rw [List.getElem?_concat_length] at found'
    exact Or.inr ⟨rfl, (Option.some.inj found').symm⟩
  · rw [List.getElem?_eq_none (List.length_append ▸ beyond)] at found'
    cases found'

theorem taskOf_eq_some {key : String} {l : Lookout} : t.taskOf key = some l ↔
    ∃ n, (t.posts key).task = some n ∧ t.lookouts[n]? = some l ∧ l.inquiry.hasEnded = false := by
  unfold taskOf
  simp [Option.bind_eq_some_iff, Option.filter_eq_some_iff]

/-- All that an occurrence can do. -/
inductive Steps (t : Watchtower) : Occurrence → Watchtower → Prop where
  | changed (c : Change) : Steps t (.changed c) { t with sur := t.sur.change c }
  | wanted {job : WatchedJob} {backend : String} : t.isAlive job.jobKey = true →
      Steps t (.start job backend) (t.want job)
  | launched {job : WatchedJob} {backend : String} : t.isAlive job.jobKey = false →
      Steps t (.start job backend) ((t.want job).launch job backend)
  | swept (job : WatchedJob) (backend : String) :
      Steps t (.sweep job backend) (t.send { job, backend, polls := false })
  | stayed {n : Nat} {move : LookoutMove} :
      (move = .proceeds → ∀ l, t.lookouts[n]? = some l → l.hears t.sur.stores = none) →
      Steps t (.moves n move) t
  | turned {n : Nat} {l : Lookout} {move : LookoutMove} {inquiry : Inquiry} :
      t.lookouts[n]? = some l → l.inquiry.hasEnded = false →
      (inquiry.hasEnded = true → l.polls = false) →
      (∀ ids, inquiry = .told (.ok ids) →
        ids = (t.sur.stores.store l.backend).finishedCalls l.job.executorId l.job.jobId) →
      (move = .proceeds → l.hears t.sur.stores = none) →
      Steps t (.moves n move) (t.put n l inquiry)
  | heard {n : Nat} {l : Lookout} {answer : Outcome (List String)} :
      t.lookouts[n]? = some l → l.hears t.sur.stores = some answer →
      Steps t (.moves n .proceeds) (t.hear n l answer)

theorem taskOf_want (job : WatchedJob) (key : String) :
    (t.want job).taskOf key = t.taskOf key := by
  unfold taskOf
  rw [posts_want]
  split
  · next same =>
    rw [same]
    rfl
  · rfl

theorem move_steps {n : Nat} {l : Lookout} (found : t.lookouts[n]? = some l)
    (move : LookoutMove) : t.Steps (.moves n move) (t.move n l move) := by
  have still (quiet : move = .proceeds → l.hears t.sur.stores = none) :
      t.Steps (.moves n move) t := by
    refine .stayed fun proceeds l' found' => ?_
    obtain rfl := Option.some.inj (found.symm.trans found')
    exact quiet proceeds
  cases move with
  | proceeds =>
    rw [Watchtower.move]
    cases hears : l.hears t.sur.stores with
    | none =>
      cases at_ : l.inquiry with
      | idle => exact .turned found (by rw [at_]; rfl) nofun nofun fun _ => hears
      | asking | told | ended => exact still fun _ => hears
    | some answer => exact .heard found hears
  | replied =>
    rw [Watchtower.move]
    cases at_ : l.inquiry with
    | asking =>
      refine .turned found (by rw [at_]; rfl) nofun ?_ nofun
      intro ids told
      cases told
      rfl
    | idle | told | ended => exact still nofun
  | failed e =>
    rw [Watchtower.move]
    cases at_ : l.inquiry with
    | asking => exact .turned found (by rw [at_]; rfl) nofun nofun nofun
    | idle | told | ended => exact still nofun
  | abandoned =>
    rw [Watchtower.move]
    split
    · exact still nofun
    · next given =>
      obtain ⟨sweeps, awake⟩ : l.polls = false ∧ l.inquiry.hasEnded = false := by simpa using given
      exact .turned found awake (fun _ => sweeps) nofun nofun

theorem step_steps (t : Watchtower) (o : Occurrence) : t.Steps o (t.step o) := by
  cases o with
  | changed c => exact .changed c
  | start job backend =>
    have same : (t.want job).isAlive job.jobKey = t.isAlive job.jobKey := by
      unfold isAlive
      rw [taskOf_want]
    rw [step, same]
    cases alive : t.isAlive job.jobKey with
    | true => exact .wanted alive
    | false => exact .launched alive
  | sweep job backend => exact .swept job backend
  | moves n move =>
    rw [step]
    cases found : t.lookouts[n]? with
    | none =>
      refine .stayed fun _ l found' => ?_
      cases found.symm.trans found'
    | some l => exact move_steps found move

/-! ### The task last begun -/

/-- What is so of the tasks of a watchtower at every point. Its three parts carry each other: a task
is begun only where none is alive, which is known by the number of the one last begun. -/
structure Manned (t : Watchtower) : Prop where
  /-- A joined key goes by the number of a task of its own. -/
  post : ∀ key n, (t.posts key).task = some n →
    ∃ l, t.lookouts[n]? = some l ∧ l.polls = true ∧ l.job.jobKey = key
  /-- A task that is alive is the one its key goes by. -/
  last : ∀ key n, t.IsTask key n → (t.posts key).task = some n
  /-- Where no task is alive, nothing is left to be seen. -/
  seen : ∀ key, (∃ n, t.IsTask key n) ∨ (t.posts key).sawAll = true

/-- The task of a key is alive just if there is one that polls for it. -/
theorem Manned.taskOf_iff (manned : t.Manned) {key : String} {l : Lookout} :
    t.taskOf key = some l ↔ ∃ n : Nat, t.lookouts[n]? = some l ∧ l.Polls key := by
  rw [taskOf_eq_some]
  constructor
  · rintro ⟨n, task, found, awake⟩
    obtain ⟨l', found', polls, own⟩ := manned.post key n task
    obtain rfl := Option.some.inj (found.symm.trans found')
    exact ⟨n, found, polls, own, awake⟩
  · rintro ⟨n, found, polls⟩
    exact ⟨n, manned.last key n ⟨l, found, polls⟩, found, polls.2.2⟩

theorem Manned.isAlive_iff (manned : t.Manned) {key : String} :
    t.isAlive key = true ↔ ∃ n, t.IsTask key n := by
  unfold isAlive
  rw [Option.isSome_iff_exists]
  constructor
  · rintro ⟨l, task⟩
    obtain ⟨n, found, polls⟩ := manned.taskOf_iff.mp task
    exact ⟨n, l, found, polls⟩
  · rintro ⟨n, l, found, polls⟩
    exact ⟨l, manned.taskOf_iff.mpr ⟨n, found, polls⟩⟩

theorem manned_new (sur : Surroundings) : Manned { sur } where
  post := nofun
  last := nofun
  seen _ := Or.inr rfl

/-- A note about a key that has the same task after it. -/
theorem Manned.note (manned : t.Manned) {key : String} {f : Post → Post}
    (keeps : ∀ p, (f p).task = p.task)
    (seen : (∃ n, t.IsTask key n) ∨ (f (t.posts key)).sawAll = true) : (t.note key f).Manned := by
  have same (key' : String) : ((t.note key f).posts key').task = (t.posts key').task := by
    rw [posts_note]
    split
    · next here => rw [keeps, here]
    · rfl
  refine ⟨?_, ?_, ?_⟩
  · intro key' n task
    exact manned.post key' n ((same key').symm.trans task)
  · intro key' n task
    exact (same key').trans (manned.last key' n task)
  · intro key'
    rw [posts_note]
    split
    · next here => exact here ▸ seen
    · exact manned.seen key'

theorem Manned.want (manned : t.Manned) {job : WatchedJob} (alive : t.isAlive job.jobKey = true) :
    (t.want job).Manned :=
  manned.note (fun _ => rfl) (Or.inl (manned.isAlive_iff.mp alive))

theorem Manned.see (manned : t.Manned) (key : String) (ids : List String) :
    (t.see key ids).Manned := by
  refine manned.note (fun _ => rfl) ((manned.seen key).imp_right fun all => ?_)
  rw [Post.sawAll_iff] at all ⊢
  intro id listed
  exact mem_extend.mpr (Or.inl (all id listed))

/-- A lookout that is not at the end goes on, to the end only if its key has no need of it. -/
theorem Manned.put (manned : t.Manned) {n : Nat} {l : Lookout} {inquiry : Inquiry}
    (found : t.lookouts[n]? = some l) (awake : l.inquiry.hasEnded = false)
    (ends : inquiry.hasEnded = true → l.polls = true → (t.posts l.job.jobKey).sawAll = true) :
    (t.put n l inquiry).Manned := by
  have at_ := getElem?_put found inquiry
  refine ⟨?_, ?_, ?_⟩
  · intro key m task
    obtain ⟨l', found', own⟩ := manned.post key m task
    rw [at_]
    split
    · next same =>
      obtain rfl := Option.some.inj ((same ▸ found).symm.trans found')
      exact ⟨_, rfl, own⟩
    · exact ⟨l', found', own⟩
  · rintro key m ⟨l', found', polls⟩
    rw [at_] at found'
    split at found'
    · next same =>
      cases found'
      exact same ▸ manned.last key n ⟨l, found, polls.1, polls.2.1, awake⟩
    · exact manned.last key m ⟨l', found', polls⟩
  · intro key
    rcases manned.seen key with ⟨m, l', found', polls⟩ | all
    · by_cases same : n = m
      · obtain rfl := Option.some.inj ((same ▸ found).symm.trans found')
        cases ending : inquiry.hasEnded with
        | true => exact Or.inr (polls.2.1 ▸ ends ending polls.1)
        | false =>
          refine Or.inl ⟨n, _, (at_ n).trans (if_pos rfl), polls.1, polls.2.1, ending⟩
      · exact Or.inl ⟨m, l', (at_ m).trans ((if_neg same).trans found'), polls⟩
    · exact Or.inr all

theorem Manned.send (manned : t.Manned) {sent : Lookout} (sweeps : sent.polls = false) :
    (t.send sent).Manned := by
  refine ⟨?_, ?_, ?_⟩
  · intro key n task
    obtain ⟨l, found, own⟩ := manned.post key n task
    exact ⟨l, getElem?_send_of_some found sent, own⟩
  · rintro key n ⟨l, found, polls⟩
    rcases getElem?_send found with old | ⟨-, rfl⟩
    · exact manned.last key n ⟨l, old, polls⟩
    · cases sweeps.symm.trans polls.1
  · intro key
    refine (manned.seen key).imp_left ?_
    rintro ⟨n, l, found, polls⟩
    exact ⟨n, l, getElem?_send_of_some found sent, polls⟩

/-- A task is begun for a key that has none alive, whatever is wanted of it then. -/
theorem Manned.launch (manned : t.Manned) {job : WatchedJob} (backend : String)
    (ended : t.isAlive job.jobKey = false) : ((t.want job).launch job backend).Manned := by
  let sent : Lookout := { job, backend, polls := true }
  have at_ : ((t.want job).launch job backend).lookouts = (t.send sent).lookouts := rfl
  have last : (t.send sent).lookouts[t.lookouts.length]? = some sent := List.getElem?_concat_length
  have task (key : String) : (((t.want job).launch job backend).posts key).task =
      if key = job.jobKey then some t.lookouts.length else (t.posts key).task := by
    rw [posts_launch]
    split
    · rfl
    · next other => rw [posts_want, if_neg other]
  refine ⟨?_, ?_, ?_⟩
  · intro key n begun
    rw [task] at begun
    rw [at_]
    split at begun
    · next own =>
      cases begun
      exact ⟨sent, last, rfl, own.symm⟩
    · obtain ⟨l, found, own⟩ := manned.post key n begun
      exact ⟨l, getElem?_send_of_some found sent, own⟩
  · rintro key n ⟨l, found, polls⟩
    rw [task]
    rcases getElem?_send found with old | ⟨rfl, rfl⟩
    · split
      · next own =>
        -- No other task of the key can be alive.
        have alive := manned.isAlive_iff.mpr ⟨n, l, old, own ▸ polls⟩
        cases ended.symm.trans alive
      · exact manned.last key n ⟨l, old, polls⟩
    · exact if_pos polls.2.1.symm
  · intro key
    by_cases own : job.jobKey = key
    · exact Or.inl ⟨_, sent, last, rfl, own, rfl⟩
    · rcases manned.seen key with ⟨n, l, found, polls⟩ | all
      · exact Or.inl ⟨n, l, getElem?_send_of_some found sent, polls⟩
      · rw [posts_launch, if_neg (Ne.symm own), posts_want, if_neg (Ne.symm own)]
        exact Or.inr all

/-- Hearing an answer, a task ends only if it has seen all that its key waits for. -/
theorem Manned.hear (manned : t.Manned) {n : Nat} {l : Lookout} (found : t.lookouts[n]? = some l)
    (awake : l.inquiry.hasEnded = false) (answer : Outcome (List String)) :
    (t.hear n l answer).Manned := by
  cases answer with
  | ok ids =>
    refine (manned.see l.job.jobKey ids).put found awake ?_
    intro ended polls
    rw [polls] at ended
    by_contra unseen
    rw [Bool.not_eq_true] at unseen
    rw [unseen] at ended
    cases ended
  | error e =>
    refine manned.put found awake ?_
    intro ended polls
    rw [polls] at ended
    cases ended

theorem Steps.manned {o : Occurrence} (steps : t.Steps o t') (manned : t.Manned) : t'.Manned := by
  cases steps with
  | changed c => exact ⟨manned.post, manned.last, manned.seen⟩
  | wanted alive => exact manned.want alive
  | launched ended => exact manned.launch _ ended
  | swept job backend => exact manned.send rfl
  | stayed _ => exact manned
  | turned found awake ends _ _ =>
    refine manned.put found awake fun ending polls => ?_
    cases (ends ending).symm.trans polls
  | heard found hears => exact manned.hear found (Lookout.awake_of_hears hears) _

/-! ### What lookouts are told -/

/-- Every lookout was sent by an occurrence of a history, and what it is told is true. -/
structure Informed (history : List Occurrence) (t : Watchtower) : Prop where
  sent : ∀ l ∈ t.lookouts,
    .start l.job l.backend ∈ history ∨ .sweep l.job l.backend ∈ history
  told : ∀ l ∈ t.lookouts, ∀ ids, l.inquiry = .told (.ok ids) → ∀ id ∈ ids,
    t.sur.stores.Knows l.backend ⟨l.job.executorId, l.job.jobId, id⟩

theorem informed_new (sur : Surroundings) : Informed [] { sur } where
  sent := nofun
  told := nofun

theorem Informed.send {history : List Occurrence} (informed : t.Informed history) {sent : Lookout}
    (idle : sent.inquiry = .idle) {o : Occurrence}
    (origin : o = .start sent.job sent.backend ∨ o = .sweep sent.job sent.backend) :
    (t.send sent).Informed (history ++ [o]) := by
  constructor
  · intro l listed
    rcases List.mem_append.mp listed with old | new
    · exact (informed.sent l old).imp (List.mem_append_left _) (List.mem_append_left _)
    · rw [List.mem_singleton.mp new]
      refine origin.imp ?_ ?_ <;> rintro rfl <;> exact List.mem_append_right _ List.mem_cons_self
  · intro l listed ids told
    rcases List.mem_append.mp listed with old | new
    · exact informed.told l old ids told
    · rw [List.mem_singleton.mp new, idle] at told
      cases told

theorem Informed.put {history : List Occurrence} (informed : t.Informed history) {n : Nat}
    {l : Lookout} (found : t.lookouts[n]? = some l) {inquiry : Inquiry}
    (truly : ∀ ids, inquiry = .told (.ok ids) →
      ids = (t.sur.stores.store l.backend).finishedCalls l.job.executorId l.job.jobId) :
    (t.put n l inquiry).Informed history := by
  have listed := List.mem_of_getElem? found
  constructor
  · intro l' listed'
    rcases List.mem_or_eq_of_mem_set listed' with old | rfl
    · exact informed.sent l' old
    · exact informed.sent l listed
  · intro l' listed' ids told id member
    rcases List.mem_or_eq_of_mem_set listed' with old | rfl
    · exact informed.told l' old ids told id member
    · rw [truly ids told] at member
      exact Store.mem_finishedCalls.mp member

/-- A history that goes on without sending anyone. -/
theorem Informed.later {history : List Occurrence} (informed : t.Informed history)
    (o : Occurrence) : t.Informed (history ++ [o]) where
  sent l listed := (informed.sent l listed).imp (List.mem_append_left _) (List.mem_append_left _)
  told := informed.told

theorem Steps.informed {history : List Occurrence} {o : Occurrence} (steps : t.Steps o t')
    (informed : t.Informed history) : t'.Informed (history ++ [o]) := by
  cases steps with
  | changed c =>
    refine ⟨(informed.later _).sent, ?_⟩
    intro l listed ids told id member
    exact Surroundings.knows_change (informed.told l listed ids told id member) c
  | wanted _ => exact ⟨(informed.later _).sent, informed.told⟩
  | @launched job backend _ =>
    have noted : ((t.want job).note job.jobKey
        ({ · with task := some t.lookouts.length })).Informed history :=
      ⟨informed.sent, informed.told⟩
    exact noted.send rfl (Or.inl rfl)
  | swept job backend => exact informed.send rfl (Or.inr rfl)
  | stayed _ => exact informed.later _
  | turned found _ _ truly _ => exact (informed.put found truly).later _
  | @heard n l answer found _ =>
    cases answer with
    | ok ids =>
      have seen : (t.see l.job.jobKey ids).Informed history := ⟨informed.sent, informed.told⟩
      refine (seen.put found ?_).later _
      intro ids' told
      split at told <;> cases told
    | error e =>
      refine (informed.put found ?_).later _
      intro ids told
      split at told <;> cases told

/-! ### What is wanted and seen -/

/-- What is wanted and what has been seen only grow. -/
theorem Steps.grows {o : Occurrence} (steps : t.Steps o t') (key : String) :
    (t.posts key).wanted ⊆ (t'.posts key).wanted ∧
      (t.posts key).observed ⊆ (t'.posts key).observed := by
  have wants (job : WatchedJob) : (t.posts key).wanted ⊆ ((t.want job).posts key).wanted :=
    fun _ listed => mem_wanted_want.mpr (Or.inl listed)
  cases steps with
  | changed | swept | stayed | turned => exact ⟨List.Subset.refl _, List.Subset.refl _⟩
  | wanted _ =>
    rw [observed_want]
    exact ⟨wants _, List.Subset.refl _⟩
  | launched _ =>
    rw [wanted_launch, observed_launch, observed_want]
    exact ⟨wants _, List.Subset.refl _⟩
  | @heard n l answer _ _ =>
    cases answer with
    | ok ids =>
      show _ ⊆ ((t.see l.job.jobKey ids).posts key).wanted ∧
        _ ⊆ ((t.see l.job.jobKey ids).posts key).observed
      rw [wanted_see]
      exact ⟨List.Subset.refl _, fun _ listed => mem_observed_see.mpr (Or.inl listed)⟩
    | error e => exact ⟨List.Subset.refl _, List.Subset.refl _⟩

/-- A call comes to be seen only as a lookout for its key is told of it. -/
theorem Steps.sees {o : Occurrence} (steps : t.Steps o t') {key id : String}
    (unseen : id ∉ (t.posts key).observed) (seen : id ∈ (t'.posts key).observed) :
    ∃ l ∈ t.lookouts, ∃ ids, l.inquiry = .told (.ok ids) ∧ id ∈ ids ∧ l.job.jobKey = key := by
  cases steps with
  | changed | swept | stayed | turned => exact absurd seen unseen
  | wanted _ =>
    rw [observed_want] at seen
    exact absurd seen unseen
  | launched _ =>
    rw [observed_launch, observed_want] at seen
    exact absurd seen unseen
  | @heard n l answer found hears =>
    cases answer with
    | ok ids =>
      have seen' : id ∈ ((t.see l.job.jobKey ids).posts key).observed := seen
      obtain ⟨own, listed⟩ := (mem_observed_see.mp seen').resolve_left unseen
      exact ⟨l, List.mem_of_getElem? found, ids, Lookout.hears_ok.mp hears, listed, own.symm⟩
    | error e => exact absurd seen unseen

/-! ### Histories -/

theorem manned_after (sur : Surroundings) (history : List Occurrence) :
    (after sur history).Manned := by
  induction history using List.reverseRecOn with
  | nil => exact manned_new sur
  | append_singleton before o ih =>
    rw [after_concat]
    exact (step_steps _ o).manned ih

theorem informed_after (sur : Surroundings) (history : List Occurrence) :
    (after sur history).Informed history := by
  induction history using List.reverseRecOn with
  | nil => exact informed_new sur
  | append_singleton before o ih =>
    rw [after_concat]
    exact (step_steps _ o).informed ih

theorem grows_after (sur : Surroundings) (history later : List Occurrence) (key : String) :
    ((after sur history).posts key).wanted ⊆ ((after sur (history ++ later)).posts key).wanted ∧
      ((after sur history).posts key).observed ⊆
        ((after sur (history ++ later)).posts key).observed := by
  induction later using List.reverseRecOn with
  | nil =>
    rw [List.append_nil]
    exact ⟨List.Subset.refl _, List.Subset.refl _⟩
  | append_singleton later o ih =>
    rw [← List.append_assoc, after_concat]
    have step := (step_steps (after sur (history ++ later)) o).grows key
    exact ⟨List.Subset.trans ih.1 step.1, List.Subset.trans ih.2 step.2⟩

/-- A call comes to be seen for a joined key. Just then the store has a status of it that a task or
a sweep begun before for a job of that key was to look into. -/
structure Sighting (sur : Surroundings) (before : List Occurrence) (o : Occurrence)
    (key id : String) : Prop where
  unseen : id ∉ ((after sur before).posts key).observed
  seen : id ∈ ((after sur (before ++ [o])).posts key).observed
  source : ∃ (job : WatchedJob) (backend : String), job.jobKey = key ∧
    (.start job backend ∈ before ∨ .sweep job backend ∈ before) ∧
    (after sur before).sur.stores.Knows backend ⟨job.executorId, job.jobId, id⟩

/-- Every call seen was sighted at some point of the history. -/
theorem sighted (sur : Surroundings) (history : List Occurrence) {key id : String}
    (seen : id ∈ ((after sur history).posts key).observed) :
    ∃ before o later, history = before ++ o :: later ∧ Sighting sur before o key id := by
  induction history using List.reverseRecOn with
  | nil => cases seen
  | append_singleton before o ih =>
    by_cases known : id ∈ ((after sur before).posts key).observed
    · obtain ⟨first, o', later, split, sighting⟩ := ih known
      exact ⟨first, o', later ++ [o], by simp [split], sighting⟩
    · have steps := step_steps (after sur before) o
      rw [after_concat] at seen
      obtain ⟨l, sent, ids, told, listed, own⟩ := steps.sees known seen
      have informed := informed_after sur before
      refine ⟨before, o, [], rfl, known, by rwa [after_concat], l.job, l.backend, own,
        informed.sent l sent, informed.told l sent ids told id listed⟩

end Watchtower

end CallDispatch
