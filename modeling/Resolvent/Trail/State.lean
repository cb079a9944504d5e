import Resolvent.Constraint
import Resolvent.Report.Counters

namespace Resolvent

/-- One choice on the way to an answer. All choices together say how it was derived. -/
inductive Choice where
  | left
  | right
  | clause (index : Nat)
  deriving DecidableEq, Repr

/-- The heights of all stacks at one moment. -/
structure Snapshot where
  assigned : Nat
  delayed : Nat
  callStack : Nat
  constraints : Nat
  discarded : Nat
  terms : Nat
  path : Nat
  deriving DecidableEq, Repr, Inhabited

/-- All that a search changes. Every change but counting leaves an entry on a stack. -/
structure State where
  arena : Arena := {}
  constraints : ConstraintStore := {}
  assigned : Array TermId := #[]
  delayed : Array TermId := #[]
  callStack : Array TermId := #[]
  path : Array Choice := #[]
  counters : Counters := {}
  deriving DecidableEq, Repr, Inhabited

namespace State

def snapshot (state : State) : Snapshot where
  assigned := state.assigned.size
  delayed := state.delayed.size
  callStack := state.callStack.size
  constraints := state.constraints.size
  discarded := state.constraints.discarded.size
  terms := state.arena.size
  path := state.path.size

def record (state : State) (event : Event) : State :=
  { state with counters := state.counters.record event 1 }

def unbindTo (state : State) (height : Nat) : State :=
  { state with
    arena := (since state.assigned height).foldl Arena.unbind state.arena
    assigned := state.assigned.shrink height }

def undelayTo (state : State) (height : Nat) : State :=
  { state with
    arena := (since state.delayed height).foldl (fun arena var => arena.setDelayed var false)
      state.arena
    delayed := state.delayed.shrink height }

def returnTo (state : State) (height : Nat) : State :=
  { state with
    arena := (since state.callStack height).foldl (fun arena goal => arena.setActive goal false)
      state.arena
    callStack := state.callStack.shrink height }

def undiscardTo (state : State) (height : Nat) : State :=
  { state with constraints := state.constraints.undiscard height }

def unpostTo (state : State) (height : Nat) : State :=
  let (constraints, arena) := state.constraints.truncate state.arena height
  { state with constraints, arena }

def releaseTo (state : State) (height : Nat) : State :=
  { state with arena := state.arena.truncate height }

def retraceTo (state : State) (height : Nat) : State :=
  { state with path := state.path.shrink height }

/-- Undoes every change since a snapshot, newest first on each stack. Every call is counted, also
    one that undoes nothing. -/
def restore (state : State) (snapshot : Snapshot) : State :=
  ((((((((state.record .restore).unbindTo snapshot.assigned).undelayTo snapshot.delayed).returnTo
    snapshot.callStack).undiscardTo snapshot.discarded).unpostTo snapshot.constraints).releaseTo
    snapshot.terms).retraceTo snapshot.path)

def bind (state : State) (var target : TermId) : State :=
  { state with
    arena := state.arena.bind var target
    assigned := state.assigned.push var }

def assignedSince (state : State) (height : Nat) : List TermId :=
  (state.assigned.extract height).toList

def register (state : State) (goal : TermId) (choice : Option Choice) : Snapshot × State :=
  (state.snapshot,
    { state with
      arena := state.arena.setActive goal true
      callStack := state.callStack.push goal
      path := match choice with
        | some choice => state.path.push choice
        | none => state.path })

def delay (state : State) (var : TermId) : Snapshot × State :=
  (state.snapshot,
    { state with
      arena := state.arena.setDelayed var true
      delayed := state.delayed.push var })

def post (state : State) (constraint : Constraint) : ConstraintId × State :=
  let (id, constraints, arena) := state.constraints.post state.arena constraint
  (id, { state with constraints, arena })

def discard (state : State) (id : ConstraintId) : Except Fault State := do
  let constraints ← state.constraints.discard id
  return { state with constraints }

def callDepth (state : State) : Nat := state.callStack.size

def pendingDelayed (state : State) : List TermId :=
  (state.delayed.toList.reverse.map state.arena.deref).filter state.arena.isUnassigned

def activeConstraints (state : State) : List ActiveConstraint :=
  state.constraints.active.map (Constraint.reify state.arena)

end State

namespace Arena

def isDelayedWithin (arena : Arena) : Nat → TermId → Bool
  | 0, _ => false
  | fuel + 1, id =>
    (match arena.var? id with
      | some cell => cell.delayed
      | none => false) || (arena.previous id).any (arena.isDelayedWithin fuel)

def isDelayed (arena : Arena) (id : TermId) : Bool := arena.isDelayedWithin arena.size id

end Arena

end Resolvent
