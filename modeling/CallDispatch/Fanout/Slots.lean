/-!
# Slots

A pod runs at most as many calls at once as it has slots. Taking a slot yields a guard, and giving
the guard back frees the slot. Guards are numbered in the order in which they are taken and never
used again.
-/

namespace CallDispatch

/-- The slots of a pod: how many there are, the guards of those taken, and how many guards there
have been. -/
structure Slots where
  capacity : Nat
  held : List Nat := []
  issued : Nat := 0
  deriving DecidableEq, Repr

namespace Slots

/-- Free slots; there is always at least one. -/
def ofCapacity (capacity : Nat) : Slots where
  capacity := max capacity 1

/-- How many slots are taken. -/
def taken (s : Slots) : Nat := s.held.length

/-- Whether a slot is free. -/
def hasFree (s : Slots) : Bool := s.taken < s.capacity

/-- Take a slot if one is free: its guard. -/
def take (s : Slots) : Option Nat × Slots :=
  if s.hasFree then (some s.issued, { s with held := s.issued :: s.held, issued := s.issued + 1 })
  else (none, s)

/-- Give a guard back, if it is held. -/
def release (s : Slots) (guard : Nat) : Slots := { s with held := s.held.erase guard }

/-- Whether a guard is held. -/
def isHeld (s : Slots) (guard : Nat) : Bool := s.held.contains guard

/-- Wait for a slot while a guard is given back: the new guard, if there is one, and whether it was
there before the other was given back. -/
def acquireReleasing (s : Slots) (guard : Nat) : Option Nat × Bool × Slots :=
  match s.take with
  | (some new, s) => (some new, true, s.release guard)
  | (none, s) =>
    let (new?, s) := (s.release guard).take
    (new?, false, s)

end Slots

end CallDispatch
