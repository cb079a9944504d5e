import Resolvent.Trail.State

namespace Resolvent

structure Wakeup where
  visited : Array Bool
  found : List ConstraintId := []
  deriving DecidableEq, Repr, Inhabited

namespace Wakeup

def start (state : State) : Wakeup where
  visited := Array.replicate state.arena.size false

def isVisited (wakeup : Wakeup) (id : TermId) : Bool := wakeup.visited.getD id.index false

def note (state : State) (found : List ConstraintId) (id : ConstraintId) : List ConstraintId :=
  if state.constraints.isDiscarded id || found.contains id then found else found ++ [id]

def visit (wakeup : Wakeup) (state : State) (id : TermId) : Wakeup where
  visited := wakeup.visited.setIfInBounds id.index true
  found :=
    match state.arena.node id with
    | .var cell => cell.constraints.reverse.foldl (note state) wakeup.found
    | _ => wakeup.found

def collectWithin (state : State) : Nat → Wakeup → TermId → Wakeup
  | 0, wakeup, _ => wakeup
  | fuel + 1, wakeup, id =>
    if wakeup.isVisited id then wakeup
    else
      (state.arena.parents id ++ state.arena.previous id).foldl (collectWithin state fuel)
        (wakeup.visit state id)

/-- Finds the open constraints that a change to a term may concern: those of every variable from
    which the term is reached over bindings and arguments. -/
def collect (wakeup : Wakeup) (state : State) (id : TermId) : Wakeup :=
  collectWithin state state.arena.size wakeup id

end Wakeup

def State.wakeup (state : State) (ids : List TermId) : Wakeup :=
  ids.foldl (fun wakeup id => wakeup.collect state id) (Wakeup.start state)

end Resolvent
