namespace Resolvent

inductive ArithmeticOperator where
  | add
  | subtract
  | multiply
  | divide
  deriving DecidableEq, Repr

inductive Operator where
  | disjunction
  | conjunction
  | equal
  | unequal
  | greater
  | greaterEqual
  | smaller
  | smallerEqual
  | not
  | clause
  | arithmetic (operator : ArithmeticOperator)
  deriving DecidableEq, Repr

namespace Operator

def name : Operator → String
  | disjunction => ";"
  | conjunction => ","
  | equal => "="
  | unequal => "!="
  | greater => ">"
  | greaterEqual => ">="
  | smaller => "<"
  | smallerEqual => "<="
  | not => "not"
  | clause => ":-"
  | arithmetic .add => "+"
  | arithmetic .subtract => "-"
  | arithmetic .multiply => "*"
  | arithmetic .divide => "/"

def all : List Operator :=
  [disjunction, conjunction, equal, unequal, greater, greaterEqual, smaller, smallerEqual, not,
    clause, arithmetic .add, arithmetic .subtract, arithmetic .multiply, arithmetic .divide]

def ofName? (text : String) : Option Operator :=
  all.find? fun operator => operator.name == text

def isArithmetic : Operator → Bool
  | arithmetic _ => true
  | _ => false

theorem ofName?_name (operator : Operator) : ofName? operator.name = some operator := by
  cases operator with
  | arithmetic operator => cases operator <;> decide
  | _ => decide

end Operator

inductive Symbol where
  | reserved (operator : Operator)
  | user (index : Nat)
  deriving DecidableEq, Repr

def Symbol.operator? : Symbol → Option Operator
  | .reserved operator => some operator
  | .user _ => none

structure SymbolTable where
  names : Array String := #[]
  deriving Repr

namespace SymbolTable

def find? (table : SymbolTable) (name : String) : Option Symbol :=
  match Operator.ofName? name with
  | some operator => some (.reserved operator)
  | none => (table.names.findIdx? (· == name)).map .user

def intern (table : SymbolTable) (name : String) : Symbol × SymbolTable :=
  match table.find? name with
  | some symbol => (symbol, table)
  | none => (.user table.names.size, ⟨table.names.push name⟩)

def resolve? (table : SymbolTable) : Symbol → Option String
  | .reserved operator => some operator.name
  | .user index => table.names[index]?

def name (table : SymbolTable) (symbol : Symbol) : String :=
  (table.resolve? symbol).getD "<unknown>"

end SymbolTable

end Resolvent
