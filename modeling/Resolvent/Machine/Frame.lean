import Resolvent.Term.Renaming
import Resolvent.Trail.State

namespace Resolvent

inductive Branch where
  | left
  | right
  deriving DecidableEq, Repr

structure Expansion where
  undo : Snapshot
  clause : Nat
  /-- What stands for the variables of the clause. The body is copied with the names that the
      copy of the head was given. -/
  names : Renaming
  inBody : Bool := false
  deriving DecidableEq, Repr

/-- A goal that may still have answers. -/
inductive Frame where
  | once (undo : Option Snapshot)
  | delegate (undo : Snapshot)
  | conjunction (undo : Snapshot) (right : TermId) (branch : Branch)
  | disjunction (undo : Snapshot) (goal right : TermId) (branch : Branch)
  /-- It answers if the negated goal has no answer. What was known of goals cut off before is
      kept aside, so that those cut off under the negation are told apart. -/
  | negation (undo : Snapshot) (truncated : Bool)
  | deduction (goal : TermId) (nextClause : Nat) (current : Option Expansion)
  deriving DecidableEq, Repr

structure Entry where
  frame : Frame
  parent : Option Nat
  deriving DecidableEq, Repr

inductive Signal where
  | yielded
  | exhausted
  deriving DecidableEq, Repr

inductive Step where
  | call (goal : TermId) (parent : Option Nat)
  | redo
  /-- Tell a frame, or who asked for the search, of an answer or the end of answers. -/
  | notify (target : Option Nat) (signal : Signal)
  deriving DecidableEq, Repr

/-- A search that is running. A frame lies below the frames of the goals it called. -/
structure Machine where
  frames : Array Entry
  depthLimit : Nat
  truncated : Bool
  state : State
  deriving DecidableEq, Repr

namespace Machine

def push (machine : Machine) (frame : Frame) (parent : Option Nat) : Machine :=
  { machine with frames := machine.frames.push { frame, parent } }

def setFrame (machine : Machine) (index : Nat) (frame : Frame) (parent : Option Nat) : Machine :=
  { machine with frames := machine.frames.setIfInBounds index { frame, parent } }

def pop (machine : Machine) (index : Nat) : Except Fault Machine :=
  if index + 1 = machine.frames.size then .ok { machine with frames := machine.frames.pop }
  else .error .buriedFrame

def restore (machine : Machine) (snapshot : Snapshot) : Machine :=
  { machine with state := machine.state.restore snapshot }

def record (machine : Machine) (event : Event) : Machine :=
  { machine with state := machine.state.record event }

def fail (machine : Machine) (parent : Option Nat) : Step × Machine :=
  (.notify parent .exhausted, machine)

def backtrack (machine : Machine) (undo : Snapshot) (parent : Option Nat) : Step × Machine :=
  (machine.restore undo).fail parent

def answer (machine : Machine) (undo : Option Snapshot) (parent : Option Nat) : Step × Machine :=
  (.notify parent .yielded, machine.push (.once undo) parent)

def enter (machine : Machine) (frame : Frame) (parent : Option Nat) (goal : TermId) :
    Step × Machine :=
  (.call goal (some machine.frames.size), machine.push frame parent)

def redo (machine : Machine) : Except Fault (Step × Machine) :=
  match machine.frames.back? with
  | none => .ok (machine.fail none)
  | some { frame := .once undo, parent } =>
    let machine := { machine with frames := machine.frames.pop }
    match undo with
    | some undo => .ok (machine.backtrack undo parent)
    | none => .ok (machine.fail parent)
  | some _ => .error .unfinishedChildren

end Machine

end Resolvent
