import Resolvent.Term.Arena

namespace Resolvent

/-- A term as a tree of its own, with every binding followed. -/
inductive Value where
  | number (value : Rational)
  | var (id : TermId)
  | compound (symbol : Symbol) (args : List Value)
  deriving Repr

namespace Value

instance : Inhabited Value := ⟨.var default⟩

def number? : Value → Option Rational
  | .number value => some value
  | _ => none

def var? : Value → Option TermId
  | .var id => some id
  | _ => none

mutual

def isGround : Value → Bool
  | .number _ => true
  | .var _ => false
  | .compound _ args => allGround args

def allGround : List Value → Bool
  | [] => true
  | value :: values => value.isGround && allGround values

end

mutual

def vars : Value → List TermId
  | .number _ => []
  | .var id => [id]
  | .compound _ args => varsOfAll args

def varsOfAll : List Value → List TermId
  | [] => []
  | value :: values => value.vars ++ varsOfAll values

end

mutual

def text (symbols : SymbolTable) : Value → String
  | .number value => value.text
  | .var id => "_G" ++ toString id.index
  | .compound symbol [] => symbols.name symbol
  | .compound symbol (first :: rest) =>
    symbols.name symbol ++ "(" ++ first.text symbols ++ textOfRest symbols rest ++ ")"

def textOfRest (symbols : SymbolTable) : List Value → String
  | [] => ""
  | value :: values => ", " ++ value.text symbols ++ textOfRest symbols values

end

end Value

namespace Arena

def valueWithin (arena : Arena) : Nat → TermId → Value
  | 0, id => .var id
  | fuel + 1, id =>
    let id := arena.deref id
    match arena.node id with
    | .number value => .number value
    | .var _ => .var id
    | .compound cell => .compound cell.symbol (cell.args.map (arena.valueWithin fuel))

/-- The tree that a term stands for under the current bindings. Without cycles no path in it is
    longer than the arena. -/
def value (arena : Arena) (id : TermId) : Value := arena.valueWithin arena.size id

end Arena

end Resolvent
