/-!
# Progress

While a client waits, it tells a sink how many calls there are and how many have completed since the
last time.
-/

namespace CallDispatch

/-- What a sink is told. -/
inductive ProgressCall where
  | total (n : Nat)
  | inc (n : Nat)
  | close
  deriving DecidableEq, Repr

/-- A sink that counts, with everything it was told, in order. -/
structure Progress where
  completed : Nat := 0
  total : Nat := 0
  closed : Bool := false
  calls : List ProgressCall := []
  deriving DecidableEq, Repr

/-- The sink after being told something more. -/
def Progress.tell (p : Progress) (call : ProgressCall) : Progress :=
  let p := { p with calls := p.calls ++ [call] }
  match call with
  | .total n => { p with total := n }
  | .inc n => { p with completed := p.completed + n }
  | .close => { p with closed := true }

end CallDispatch
