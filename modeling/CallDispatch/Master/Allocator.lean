import CallDispatch.Keyed
import CallDispatch.RangeAnswer

/-!
# Handing out ranges

The allocator keeps one cursor per job key: the position of the next call not yet handed out. A
request moves the cursor of its key and leaves all others alone. Keys are kept in ascending order,
so the listing of all cursors is the state itself.
-/

namespace CallDispatch

/-- Cursors by job key, in ascending order of the keys. -/
structure Allocator where
  cursors : List (String × Nat) := []
  deriving DecidableEq, Repr

namespace Allocator

/-- The cursor of a key, if the key has been seen. -/
def cursor? (a : Allocator) (key : String) : Option Nat :=
  Keyed.find? key a.cursors

/-- Hand out the next calls of a job: at most `chunk` of them, none from `total` on. An accepted
request makes its key known even if it is handed nothing. -/
def request (a : Allocator) (key : String) (total chunk : Nat) : Outcome RangeAnswer × Allocator :=
  if chunk = 0 then (.error (.invalidArgument .zeroChunkSize), a)
  else
    let start := (a.cursor? key).getD 0
    if start < total then
      let stop := min (start + chunk) total
      (.ok (.span start stop), { cursors := Keyed.put key stop a.cursors })
    else (.ok .exhausted, { cursors := Keyed.put key start a.cursors })

/-- Request until there is no more work or a request fails, at most `limit` times: the answers in
order. -/
def drain (key : String) (total chunk : Nat) : (limit : Nat) → Allocator →
    List (Outcome RangeAnswer) × Allocator
  | 0, a => ([], a)
  | limit + 1, a =>
    let (answer, a) := a.request key total chunk
    match answer with
    | .ok (.span ..) =>
      let (answers, a) := drain key total chunk limit a
      (answer :: answers, a)
    | _ => ([answer], a)

end Allocator

end CallDispatch
