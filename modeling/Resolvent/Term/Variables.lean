import Resolvent.Term.Arena

namespace Resolvent

/-- Unassigned variables with the number of their occurrences, in the order of the first. -/
abbrev Occurrences := List (TermId × Nat)

namespace Occurrences

/-- A count has 32 bits. Past them it starts again from zero. -/
def wrap (count : Nat) : Nat := count % UInt32.size

def addTimes (times : Nat) : Occurrences → TermId → Occurrences
  | [], id => [(id, wrap times)]
  | (other, count) :: rest, id =>
    if other = id then (other, wrap (count + times)) :: rest
    else (other, count) :: addTimes times rest id

def add : Occurrences → TermId → Occurrences := addTimes 1

end Occurrences

def runs : List TermId → List (TermId × Nat)
  | [] => []
  | id :: rest =>
    match runs rest with
    | [] => [(id, 1)]
    | (other, times) :: more =>
      if other = id then (other, times + 1) :: more else (id, 1) :: (other, times) :: more

namespace Arena

def varsWithin (arena : Arena) : Nat → List TermId → TermId → List TermId
  | 0, found, _ => found
  | fuel + 1, found, id =>
    let id := arena.deref id
    match arena.node id with
    | .number _ => found
    | .var _ => if id ∈ found then found else found ++ [id]
    | .compound cell => cell.args.foldl (arena.varsWithin fuel) found

def vars (arena : Arena) (id : TermId) : List TermId :=
  arena.varsWithin arena.size [] id

/-- Each occurrence counts as so many. Of arguments that stand side by side and are the same term,
    one is walked through for all. -/
def occurrencesWithin (arena : Arena) : Nat → Nat → Occurrences → TermId → Occurrences
  | 0, _, found, _ => found
  | fuel + 1, times, found, id =>
    let id := arena.deref id
    match arena.node id with
    | .number _ => found
    | .var _ => found.addTimes times id
    | .compound cell =>
      (runs cell.args).foldl
        (fun found run => arena.occurrencesWithin fuel (times * run.2) found run.1) found

def occurrences (arena : Arena) (found : Occurrences) (id : TermId) : Occurrences :=
  arena.occurrencesWithin arena.size 1 found id

def occurrencesOfPair (arena : Arena) (left right : TermId) : Occurrences :=
  arena.occurrences (arena.occurrences [] left) right

def occursWithin (arena : Arena) (var : TermId) : Nat → TermId → Bool
  | 0, _ => false
  | fuel + 1, id =>
    match arena.node id with
    | .compound cell =>
      cell.args.any fun arg =>
        arena.deref arg = var || arena.occursWithin var fuel (arena.deref arg)
    | _ => false

def occurs (arena : Arena) (var id : TermId) : Bool := arena.occursWithin var arena.size id

end Arena

end Resolvent
