import CallDispatch.Proofs.Web.Segments
import CallDispatch.Web.UrlReader
import Mathlib.Data.List.Basic
import Mathlib.Data.List.TakeDrop
import Mathlib.Data.List.TakeWhile

/-!
# Addresses of hosts

The address of a host is a scheme and a place to connect, and nothing after that. Read, it has the
scheme in lower case, an empty path, no query and no fragment.
-/

namespace CallDispatch.Web

/-- The address of a host that is asked over the web, openly or not. Its scheme may have capital
letters. -/
structure Origin where
  protocol : List Char
  place : List Char
  web : protocol.map Char.toLower ∈ ["http".toList, "https".toList]
  nonempty : place ≠ []
  bare : ∀ c ∈ place, endsAuthority true c = false

namespace Origin

/-- The scheme of an address, in lower case. -/
def scheme (o : Origin) : List Char := o.protocol.map Char.toLower

/-- The characters of an address. -/
def chars (o : Origin) : List Char := o.protocol ++ ':' :: '/' :: '/' :: o.place

/-- The text of an address. -/
def text (o : Origin) : String := String.ofList o.chars

/-! ## The scheme -/

theorem scheme_cases (o : Origin) : o.scheme = "http".toList ∨ o.scheme = "https".toList := by
  simpa [scheme] using o.web

/-- A scheme is written in letters. -/
theorem isAlpha_protocol (o : Origin) : ∀ c ∈ o.protocol, c.isAlpha = true := by
  have letters : o.scheme.all (fun c => decide (0x61 ≤ c.toNat) && decide (c.toNat ≤ 0x7A)) := by
    rcases o.scheme_cases with plain | secure
    · rw [plain]
      decide
    · rw [secure]
      decide
  intro c listed
  have letter := List.all_eq_true.mp letters c.toLower (List.mem_map_of_mem listed)
  simp only [Bool.and_eq_true, decide_eq_true_eq] at letter
  exact isAlpha_of_toLower letter

/-- Nothing of a scheme is dropped. -/
theorem kept_protocol (o : Origin) {c : Char} (listed : c ∈ o.protocol) :
    isOuter c = false ∧ Url.isDropped c = false := by
  have letter := o.isAlpha_protocol c listed
  constructor
  · refine Bool.eq_false_iff.mpr fun outer => ?_
    rw [isAlpha_iff] at letter
    have bound : c.toNat ≤ 0x20 := of_decide_eq_true outer
    omega
  · refine Bool.eq_false_iff.mpr fun dropped => ?_
    simp only [Url.isDropped, Bool.or_eq_true, beq_iff_eq] at dropped
    rcases dropped with (rfl | rfl) | rfl
    all_goals
      revert letter
      decide

theorem exists_protocol (o : Origin) : ∃ c rest, o.protocol = c :: rest := by
  refine List.exists_cons_of_ne_nil fun none => ?_
  have web := o.web
  rw [none] at web
  revert web
  decide

theorem readScheme_chars (o : Origin) (s : List Char) :
    readScheme (o.protocol ++ ':' :: s) = some (o.scheme, s) := by
  obtain ⟨c, rest, protocol⟩ := o.exists_protocol
  have letters : ∀ c ∈ o.protocol, inScheme c = true := fun c listed => by
    rw [inScheme, Char.isAlphanum, o.isAlpha_protocol c listed]
    rfl
  have ends : (o.protocol ++ ':' :: s).span inScheme = (o.protocol, ':' :: s) := by
    rw [List.span_eq_takeWhile_dropWhile, List.takeWhile_append_of_pos letters,
      List.dropWhile_append_of_pos letters, List.takeWhile_cons_of_neg (by decide),
      List.dropWhile_cons_of_neg (by decide), List.append_nil]
  have first := o.isAlpha_protocol c (by simp [protocol])
  rw [scheme]
  rw [protocol, List.cons_append] at ends ⊢
  simp only [readScheme, ends, first, if_true]

theorem isWellKnown_scheme (o : Origin) : isWellKnown o.scheme = true := by
  rcases o.scheme_cases with plain | secure
  · rw [plain]
    decide
  · rw [secure]
    decide

theorem isFileScheme_scheme (o : Origin) : isFileScheme o.scheme = false := by
  rcases o.scheme_cases with plain | secure
  · rw [plain]
    decide
  · rw [secure]
    decide

/-! ## The place -/

/-- The place to connect as it is read: without blanks behind it and tabs and line ends in it. -/
def readPlace (o : Origin) : List Char :=
  (o.place.reverse.dropWhile isOuter).reverse.filter (!Url.isDropped ·)

theorem bare_readPlace (o : Origin) : ∀ c ∈ o.readPlace, endsAuthority true c = false := by
  intro c listed
  have inside := List.mem_reverse.mp (List.mem_of_mem_filter listed)
  exact o.bare c (List.mem_reverse.mp ((List.dropWhile_suffix _).subset inside))

/-- What is cut off at the end of a text is cut off at the end of its last part. -/
theorem dropEnd_append {p : Char → Bool} (front back : List Char) {last : Char}
    (stays : p last = false) :
    ((front ++ [last] ++ back).reverse.dropWhile p).reverse =
      front ++ [last] ++ (back.reverse.dropWhile p).reverse := by
  have stop : (front ++ [last]).reverse.dropWhile p = (front ++ [last]).reverse := by
    rw [List.reverse_append, List.reverse_singleton, List.singleton_append,
      List.dropWhile_cons_of_neg (by simp [stays])]
  rw [List.reverse_append, List.dropWhile_append]
  split
  · next empty =>
    rw [stop, List.isEmpty_iff.mp empty]
    simp
  · simp

/-- The characters that are read of an address. -/
theorem inner_eq (o : Origin) :
    (((o.chars.dropWhile isOuter).reverse.dropWhile isOuter).reverse).filter
      (!Url.isDropped ·) = o.protocol ++ ':' :: '/' :: '/' :: o.readPlace := by
  have front : o.chars.dropWhile isOuter = (o.protocol ++ [':', '/']) ++ ['/'] ++ o.place := by
    obtain ⟨c, rest, protocol⟩ := o.exists_protocol
    have first := (o.kept_protocol (c := c) (by simp [protocol])).1
    rw [chars, protocol, List.cons_append, List.dropWhile_cons_of_neg (by simp [first])]
    simp
  have whole : o.protocol.filter (!Url.isDropped ·) = o.protocol :=
    List.filter_eq_self.mpr fun c listed => by simp [(o.kept_protocol listed).2]
  have marks : [':', '/', '/'].filter (!Url.isDropped ·) = [':', '/', '/'] := by decide
  rw [front, dropEnd_append _ _ (by decide), List.filter_append, List.append_assoc,
    List.filter_append, whole, readPlace]
  exact congrArg (o.protocol ++ · ++ _) marks |>.trans (by simp)

theorem span_of_all {p : Char → Bool} {s : List Char} (all : ∀ c ∈ s, p c = true) :
    s.span p = (s, []) := by
  rw [List.span_eq_takeWhile_dropWhile, List.takeWhile_eq_self_iff.mpr all,
    List.dropWhile_eq_nil_iff.mpr all]

/-- Without their marks there is neither a query nor a fragment. -/
theorem splitTail_of_none {s : List Char} (none : ∀ c ∈ s, c ≠ '#' ∧ c ≠ '?') :
    splitTail s = (s, Option.none, Option.none) := by
  have fragment : s.span (· ≠ '#') = (s, []) := span_of_all fun c listed => by
    simp [(none c listed).1]
  have query : s.span (· ≠ '?') = (s, []) := span_of_all fun c listed => by
    simp [(none c listed).2]
  simp only [splitTail, fragment, query]
  rfl

/-- Slashes before a place do not count. -/
theorem dropSlashes (o : Origin) :
    ('/' :: '/' :: o.readPlace).dropWhile (isSlash true) = o.readPlace := by
  have slash : isSlash true '/' = true := by decide
  rw [List.dropWhile_cons_of_pos slash, List.dropWhile_cons_of_pos slash]
  cases place : o.readPlace with
  | nil => rfl
  | cons c rest =>
    have bare := o.bare_readPlace c (by simp [place])
    have other : isSlash true c = false := by
      rw [endsAuthority] at bare
      simp only [Bool.or_eq_false_iff] at bare
      exact bare.1.1
    exact List.dropWhile_cons_of_neg (by simp [other])

theorem readBody_place (o : Origin) : readBody o.scheme ('/' :: '/' :: o.readPlace) =
    (readAuthority o.scheme o.readPlace).map fun a => (some a, .segments [[]]) := by
  have place : o.readPlace.span (!endsAuthority true ·) = (o.readPlace, []) :=
    span_of_all fun c listed => by simp [o.bare_readPlace c listed]
  rw [readBody, if_neg (by simp [o.isFileScheme_scheme]), if_pos o.isWellKnown_scheme,
    o.dropSlashes, place]
  dsimp only
  cases readAuthority o.scheme o.readPlace <;> rfl

/-- Reading an address fails if its place cannot be read. Else it leaves nothing but the place. -/
theorem read_text (o : Origin) : Url.read o.text =
    (readAuthority o.scheme o.readPlace).map fun a =>
      { scheme := o.scheme, authority := some a, path := .segments [[]] } := by
  have tail : splitTail ('/' :: '/' :: o.readPlace) = ('/' :: '/' :: o.readPlace, none, none) := by
    refine splitTail_of_none fun c listed => ?_
    rcases List.mem_cons.mp listed with rfl | listed
    · decide
    · rcases List.mem_cons.mp listed with rfl | listed
      · decide
      · have bare := o.bare_readPlace c listed
        constructor
        · rintro rfl
          revert bare
          decide
        · rintro rfl
          revert bare
          decide
  rw [Url.read, text]
  simp only [String.toList_ofList, inner_eq, readScheme_chars, tail, readBody_place]
  cases readAuthority o.scheme o.readPlace <;> rfl

end Origin

end CallDispatch.Web
