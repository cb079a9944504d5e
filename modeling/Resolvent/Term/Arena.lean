import Resolvent.Rational
import Resolvent.Symbol

namespace Resolvent

/-- A place in the arena. Places are handed out in order, so of two live terms the one with the
    smaller index is the older. -/
structure TermId where
  index : Nat
  deriving DecidableEq, Repr, Inhabited

structure ConstraintId where
  index : Nat
  deriving DecidableEq, Repr, Inhabited

structure Variable where
  binding : Option TermId := none
  delayed : Bool := false
  constraints : List ConstraintId := []
  deriving DecidableEq, Repr, Inhabited

structure Compound where
  symbol : Symbol
  args : List TermId
  /-- This very node is on the call stack. -/
  active : Bool := false
  deriving DecidableEq, Repr

inductive Node where
  | number (value : Rational)
  | var (cell : Variable)
  | compound (cell : Compound)
  deriving DecidableEq, Repr

instance : Inhabited Node := ⟨.var {}⟩

/-- A node with the edges that lead to it. -/
structure Slot where
  node : Node
  /-- Variables bound directly to this term, newest first. -/
  previous : List TermId := []
  /-- Compounds with this term as an argument, newest first, once for each occurrence. -/
  parents : List TermId := []
  deriving DecidableEq, Repr, Inhabited

/-- All terms, which refer to each other by their places. -/
structure Arena where
  slots : Array Slot := #[]
  deriving DecidableEq, Repr, Inhabited

namespace Arena

def size (arena : Arena) : Nat := arena.slots.size

def isEmpty (arena : Arena) : Bool := arena.slots.isEmpty

def contains (arena : Arena) (id : TermId) : Bool := id.index < arena.size

/-- A place outside the arena reads as a variable without a binding. -/
def node (arena : Arena) (id : TermId) : Node :=
  match arena.slots[id.index]? with
  | some slot => slot.node
  | none => .var {}

def previous (arena : Arena) (id : TermId) : List TermId :=
  match arena.slots[id.index]? with
  | some slot => slot.previous
  | none => []

def parents (arena : Arena) (id : TermId) : List TermId :=
  match arena.slots[id.index]? with
  | some slot => slot.parents
  | none => []

def number? (arena : Arena) (id : TermId) : Option Rational :=
  match arena.node id with
  | .number value => some value
  | _ => none

def var? (arena : Arena) (id : TermId) : Option Variable :=
  match arena.node id with
  | .var cell => some cell
  | _ => none

def compound? (arena : Arena) (id : TermId) : Option Compound :=
  match arena.node id with
  | .compound cell => some cell
  | _ => none

def binding? (arena : Arena) (id : TermId) : Option TermId :=
  match arena.node id with
  | .var cell => cell.binding
  | _ => none

def operator? (arena : Arena) (id : TermId) : Option (Operator × Nat) :=
  match arena.node id with
  | .compound cell => cell.symbol.operator?.map fun operator => (operator, cell.args.length)
  | _ => none

def isUnassigned (arena : Arena) (id : TermId) : Bool :=
  match arena.node id with
  | .var cell => cell.binding.isNone
  | _ => false

def derefWithin (arena : Arena) : Nat → TermId → TermId
  | 0, id => id
  | fuel + 1, id =>
    match arena.binding? id with
    | some next => derefWithin arena fuel next
    | none => id

/-- The end of the chain of bindings that starts at a term: an unassigned variable, a number or a
    compound. A chain without a cycle is shorter than the arena. -/
def deref (arena : Arena) (id : TermId) : TermId := arena.derefWithin arena.size id

def modify (arena : Arena) (id : TermId) (change : Slot → Slot) : Arena :=
  ⟨arena.slots.modify id.index change⟩

def modifyVariable (arena : Arena) (id : TermId) (change : Variable → Variable) : Arena :=
  arena.modify id fun slot =>
    match slot.node with
    | .var cell => { slot with node := .var (change cell) }
    | _ => slot

def setActive (arena : Arena) (id : TermId) (active : Bool) : Arena :=
  arena.modify id fun slot =>
    match slot.node with
    | .compound cell => { slot with node := .compound { cell with active } }
    | _ => slot

def setDelayed (arena : Arena) (id : TermId) (delayed : Bool) : Arena :=
  arena.modifyVariable id fun cell => { cell with delayed }

def push (arena : Arena) (node : Node) : TermId × Arena :=
  (⟨arena.size⟩, ⟨arena.slots.push { node }⟩)

def number (arena : Arena) (value : Rational) : TermId × Arena := arena.push (.number value)

def fresh (arena : Arena) : TermId × Arena := arena.push (.var {})

def addParent (parent : TermId) (arena : Arena) (child : TermId) : Arena :=
  arena.modify child fun slot => { slot with parents := parent :: slot.parents }

def removeParent (parent : TermId) (arena : Arena) (child : TermId) : Arena :=
  arena.modify child fun slot => { slot with parents := slot.parents.erase parent }

def compound (arena : Arena) (symbol : Symbol) (args : List TermId) : TermId × Arena :=
  let parent : TermId := ⟨arena.size⟩
  (args.foldl (addParent parent) arena).push (.compound { symbol, args })

def operator (arena : Arena) (operator : Operator) (args : List TermId) : TermId × Arena :=
  arena.compound (.reserved operator) args

def conjunctionOnto (arena : Arena) (last : TermId) : List TermId → TermId × Arena
  | [] => (last, arena)
  | goal :: goals =>
    let (rest, arena) := conjunctionOnto arena last goals
    arena.operator .conjunction [goal, rest]

/-- The conjunction of some goals, nested to the right and built from the inside. One goal is its
    own conjunction. -/
def conjunction? (arena : Arena) (goals : List TermId) : Option (TermId × Arena) :=
  goals.getLast?.map fun last => arena.conjunctionOnto last goals.dropLast

def bind (arena : Arena) (var target : TermId) : Arena :=
  match arena.var? var with
  | some _ =>
    (arena.modifyVariable var fun cell => { cell with binding := some target }).modify target
      fun slot => { slot with previous := var :: slot.previous }
  | none => arena

def unbind (arena : Arena) (var : TermId) : Arena :=
  match arena.binding? var with
  | some target =>
    (arena.modifyVariable var fun cell => { cell with binding := none }).modify target
      fun slot => { slot with previous := slot.previous.erase var }
  | none => arena

def pop (arena : Arena) : Arena :=
  let id : TermId := ⟨arena.size - 1⟩
  match arena.node id with
  | .compound cell => cell.args.foldl (removeParent id) ⟨arena.slots.pop⟩
  | _ => ⟨arena.slots.pop⟩

def popMany (arena : Arena) : Nat → Arena
  | 0 => arena
  | count + 1 => popMany arena.pop count

def truncate (arena : Arena) (height : Nat) : Arena := arena.popMany (arena.size - height)

end Arena

end Resolvent
