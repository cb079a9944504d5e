import Resolvent.Machine.Builtin
import Resolvent.Program

namespace Resolvent

inductive Form where
  | negation (inner : TermId)
  | conjunction (left right : TermId)
  | disjunction (left right : TermId)
  | builtin (builtin : Builtin) (left right : TermId)
  | predicate
  deriving DecidableEq, Repr

def Compound.form (cell : Compound) : Form :=
  match cell.symbol, cell.args with
  | .reserved .not, [inner] => .negation inner
  | .reserved .conjunction, [left, right] => .conjunction left right
  | .reserved .disjunction, [left, right] => .disjunction left right
  | .reserved .greaterEqual, [left, right] => .builtin (.relaxed .greater) left right
  | .reserved .smallerEqual, [left, right] => .builtin (.relaxed .smaller) left right
  | .reserved .equal, [left, right] => .builtin .equality left right
  | .reserved .unequal, [left, right] => .builtin .inequality left right
  | .reserved .greater, [left, right] => .builtin (.strict .greater) left right
  | .reserved .smaller, [left, right] => .builtin (.strict .smaller) left right
  | _, _ => .predicate

namespace State

/-- The equation of a goal with a copy of the head of a clause, and the names in that copy. -/
def matchHead (state : State) (goal head : TermId) : Except Fault (TermId × Renaming × State) := do
  let (copy, arena, names) ← state.arena.instantiate [] head
  let (equation, arena) := arena.operator .equal [goal, copy]
  return (equation, names, { state with arena })

def copyBody (state : State) (names : Renaming) (body : TermId) :
    Except Fault (TermId × Renaming × State) := do
  let (copy, arena, names) ← state.arena.instantiate names body
  return (copy, names, { state with arena })

end State

namespace Machine

def expand (program : Program) (machine : Machine) (index : Nat) (goal : TermId) (clause : Nat)
    (parent : Option Nat) : Except Fault (Step × Machine) :=
  match program.clauses[clause]? with
  | none => .error (.outOfRange program.size clause)
  | some { head, .. } => do
    let machine := machine.record .expansion
    let (undo, state) := machine.state.register goal (some (.clause clause))
    let (equation, names, state) ← state.matchHead goal head
    let frame := .deduction goal (clause + 1) (some { undo, clause, names })
    return (.call equation (some index), { machine with state }.setFrame index frame parent)

def nextClause (program : Program) (machine : Machine) (index : Nat) :
    Except Fault (Step × Machine) :=
  match machine.frames[index]? with
  | some { frame := .deduction goal start _, parent } => do
    machine.state.arena.require goal
    match machine.state.arena.compound? goal with
    | none => throw .notCompound
    | some cell =>
      if program.size < start then throw (.startOutOfRange program.size start)
      match program.next? start cell.symbol cell.args.length with
      | some clause => machine.expand program index goal clause parent
      | none => return (← machine.pop index).fail parent
  | some _ => .error .notDeduction
  | none => .error (.outOfRange machine.frames.size index)

def negation (machine : Machine) (goal inner : TermId) (parent : Option Nat) : Step × Machine :=
  let (undo, state) := machine.state.register goal none
  { machine with state, truncated := false }.enter (.negation undo machine.truncated) parent inner

def conclude (machine : Machine) (undo : Snapshot) (parent : Option Nat) : Reply → Step × Machine
  | .fails => machine.backtrack undo parent
  | .answers => machine.answer (some undo) parent
  | .delegates goal => machine.enter (.delegate undo) parent goal

def dispatch (program : Program) (machine : Machine) (goal : TermId) (cell : Compound)
    (parent : Option Nat) : Except Fault (Step × Machine) :=
  match cell.form with
  | .negation inner => .ok (machine.negation goal inner parent)
  | .conjunction left right =>
    let (undo, state) := machine.state.register goal none
    .ok ({ machine with state }.enter (.conjunction undo right .left) parent left)
  | .disjunction left right =>
    let (undo, state) := machine.state.register goal (some .left)
    .ok ({ machine with state }.enter (.disjunction undo goal right .left) parent left)
  | .builtin builtin left right => do
    let (undo, state) := machine.state.register goal none
    let (reply, state) ← state.perform left right builtin
    return { machine with state }.conclude undo parent reply
  | .predicate =>
    (machine.push (.deduction goal 0 none) parent).nextClause program machine.frames.size

/-- Starts a goal. A number holds, an unassigned variable is delayed, and a goal that is delayed
    or being proven already counts as proven. -/
def call (program : Program) (machine : Machine) (goal : TermId) (parent : Option Nat) :
    Except Fault (Step × Machine) := do
  let machine := machine.record .goal
  machine.state.arena.require goal
  let goal := machine.state.arena.deref goal
  match machine.state.arena.node goal with
  | .number _ => return machine.answer none parent
  | .var _ =>
    if machine.state.arena.isDelayed goal then return machine.answer none parent
    let (undo, state) := machine.state.delay goal
    return { machine with state }.answer (some undo) parent
  | .compound cell =>
    if cell.active then return machine.answer none parent
    if machine.depthLimit ≤ machine.state.callDepth then
      return { machine.record .depthHit with truncated := true }.fail parent
    machine.dispatch program goal cell parent

def turnRight (machine : Machine) (index : Nat) (undo : Snapshot) (goal right : TermId)
    (parent : Option Nat) : Except Fault (Step × Machine) := do
  let machine := machine.restore undo
  machine.state.arena.require goal
  let (undo, state) := machine.state.register goal (some .right)
  return (.call right (some index),
    { machine with state }.setFrame index (.disjunction undo goal right .right) parent)

def enterBody (machine : Machine) (index : Nat) (goal : TermId) (nextClause : Nat)
    (expansion : Expansion) (body : TermId) (parent : Option Nat) :
    Except Fault (Step × Machine) := do
  let (copy, names, state) ← machine.state.copyBody expansion.names body
  let frame := .deduction goal nextClause (some { expansion with names, inBody := true })
  return (.call copy (some index), { machine with state }.setFrame index frame parent)

def yielded (program : Program) (machine : Machine) (index : Nat) (entry : Entry) :
    Except Fault (Step × Machine) :=
  let parent := entry.parent
  match entry.frame with
  | .once _ => .error .childless
  | .delegate _ => .ok (.notify parent .yielded, machine)
  | .conjunction undo right .left =>
    .ok (.call right (some index), machine.setFrame index (.conjunction undo right .right) parent)
  | .conjunction _ _ .right => .ok (.notify parent .yielded, machine)
  | .disjunction _ _ _ _ => .ok (.notify parent .yielded, machine)
  | .negation undo truncated =>
    .ok ({ machine with
      frames := machine.frames.shrink index
      truncated := truncated || machine.truncated }.backtrack undo parent)
  | .deduction _ _ none => .error .childless
  | .deduction goal nextClause (some expansion) =>
    match program.clauses[expansion.clause]? with
    | none => .error (.outOfRange program.size expansion.clause)
    | some clause =>
      match clause.body, expansion.inBody with
      | some body, false => machine.enterBody index goal nextClause expansion body parent
      | _, _ => .ok (.notify parent .yielded, machine)

def exhausted (program : Program) (machine : Machine) (index : Nat) (entry : Entry) :
    Except Fault (Step × Machine) :=
  let parent := entry.parent
  match entry.frame with
  | .once _ => .error .childless
  | .delegate undo => do return (← machine.pop index).backtrack undo parent
  | .conjunction undo right .right =>
    .ok (.redo, machine.setFrame index (.conjunction undo right .left) parent)
  | .conjunction undo _ .left => do return (← machine.pop index).backtrack undo parent
  | .disjunction undo goal right .left => machine.turnRight index undo goal right parent
  | .disjunction undo _ _ .right => do return (← machine.pop index).backtrack undo parent
  | .negation undo truncated => do
    let machine ← machine.pop index
    if machine.truncated then return machine.backtrack undo parent
    return { machine with truncated }.answer (some undo) parent
  | .deduction _ _ none => .error .idleDeduction
  | .deduction goal nextClause (some expansion) =>
    if expansion.inBody then
      let frame := .deduction goal nextClause (some { expansion with inBody := false })
      .ok (.redo, machine.setFrame index frame parent)
    else
      ((machine.setFrame index (.deduction goal nextClause none) parent).restore
        expansion.undo).nextClause program index

/-- One step of a search. A signal to who asked for the search is final. -/
def advance (program : Program) (machine : Machine) : Step → Except Fault (Step × Machine)
  | .call goal parent => machine.call program goal parent
  | .redo => machine.redo
  | .notify none signal => .ok (.notify none signal, machine)
  | .notify (some index) signal =>
    match machine.frames[index]? with
    | none => .error (.outOfRange machine.frames.size index)
    | some entry =>
      match signal with
      | .yielded => machine.yielded program index entry
      | .exhausted => machine.exhausted program index entry

/-- Steps until the search has an answer or has no more, for a bounded number of steps. -/
def run (program : Program) : Nat → Step → Machine → Outcome (Signal × Machine)
  | 0, _, _ => .unfinished
  | _ + 1, .notify none signal, machine => .done (signal, machine)
  | fuel + 1, step, machine =>
    match machine.advance program step with
    | .ok (step, machine) => run program fuel step machine
    | .error fault => .fault fault

end Machine

end Resolvent
