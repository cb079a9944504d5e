import Resolvent.Term.Arena

namespace Resolvent

structure Clause where
  head : TermId
  body : Option TermId
  symbol : Symbol
  arity : Nat
  deriving DecidableEq, Repr

def Clause.defines (clause : Clause) (symbol : Symbol) (arity : Nat) : Bool :=
  clause.symbol = symbol && clause.arity = arity

structure Program where
  clauses : Array Clause := #[]
  deriving DecidableEq, Repr, Inhabited

inductive ProgramError where
  | notCompound (index : Nat)
  | malformedClause (index arity : Nat)
  | headNotCompound (index : Nat)
  | reservedPredicate (index : Nat) (operator : Operator)
  deriving DecidableEq, Repr

def ProgramError.message : ProgramError → String
  | .notCompound index => "entry " ++ toString index ++ " is not a fact or clause"
  | .malformedClause index arity =>
    "clause " ++ toString index ++ " has " ++ toString arity ++ " parts, expected head and body"
  | .headNotCompound index =>
    "clause " ++ toString index ++ " has a head that is not a compound term"
  | .reservedPredicate index operator =>
    "entry " ++ toString index ++ " redefines reserved operator `" ++ operator.name ++ "`"

def Clause.ofHead (arena : Arena) (index : Nat) (head : TermId) (body : Option TermId) :
    Except ProgramError Clause :=
  match arena.compound? head with
  | none => .error (.headNotCompound index)
  | some cell =>
    match cell.symbol with
    | .reserved operator => .error (.reservedPredicate index operator)
    | .user _ => .ok { head, body, symbol := cell.symbol, arity := cell.args.length }

def Clause.ofEntry (arena : Arena) (index : Nat) (entry : TermId) : Except ProgramError Clause :=
  let entry := arena.deref entry
  match arena.compound? entry with
  | none => .error (.notCompound index)
  | some cell =>
    if cell.symbol = .reserved .clause then
      match cell.args with
      | [head, body] => Clause.ofHead arena index (arena.deref head) (some body)
      | args => .error (.malformedClause index args.length)
    else Clause.ofHead arena index entry none

namespace Program

def clausesOf (arena : Arena) : Nat → List TermId → Except ProgramError (List Clause)
  | _, [] => .ok []
  | index, entry :: entries => do
    let clause ← Clause.ofEntry arena index entry
    let clauses ← clausesOf arena (index + 1) entries
    return clause :: clauses

/-- The program of some entries, or what is wrong with the first that is no clause. -/
def ofEntries (arena : Arena) (entries : List TermId) : Except ProgramError Program := do
  let clauses ← clausesOf arena 0 entries
  return ⟨clauses.toArray⟩

def size (program : Program) : Nat := program.clauses.size

def isEmpty (program : Program) : Bool := program.clauses.isEmpty

def next? (program : Program) (start : Nat) (symbol : Symbol) (arity : Nat) : Option Nat :=
  ((program.clauses.toList.drop start).findIdx? fun clause => clause.defines symbol arity).map
    (start + ·)

end Program

end Resolvent
