import Resolvent.Proofs.Search.Goals

namespace Resolvent

inductive Tree where
  | number (value : Rational)
  | compound (symbol : Symbol) (args : List Tree)

mutual

def Tree.decEq : (left right : Tree) → Decidable (left = right)
  | .number left, .number right => decidable_of_iff (left = right) (by simp)
  | .number _, .compound _ _ | .compound _ _, .number _ => isFalse nofun
  | .compound symbol lefts, .compound other rights =>
    have := Tree.decEqAll lefts rights
    decidable_of_iff (symbol = other ∧ lefts = rights) (by simp)

def Tree.decEqAll : (lefts rights : List Tree) → Decidable (lefts = rights)
  | [], [] => isTrue rfl
  | [], _ :: _ | _ :: _, [] => isFalse nofun
  | left :: lefts, right :: rights =>
    have := Tree.decEq left right
    have := Tree.decEqAll lefts rights
    decidable_of_iff (left = right ∧ lefts = rights) (by simp)

end

instance : DecidableEq Tree := Tree.decEq

namespace Arena

def groundWithin (arena : Arena) (values : TermId → Tree) : Nat → TermId → Tree
  | 0, id => values id
  | fuel + 1, id =>
    match arena.node id with
    | .number value => .number value
    | .var _ => values id
    | .compound cell => .compound cell.symbol (cell.args.map (arena.groundWithin values fuel))

def ground (arena : Arena) (values : TermId → Tree) (id : TermId) : Tree :=
  arena.groundWithin values arena.size id

inductive Plain (arena : Arena) : TermId → Prop where
  | number {id : TermId} {value : Rational} (held : arena.node id = .number value) : Plain arena id
  | var {id : TermId} {cell : Variable} (held : arena.node id = .var cell) : Plain arena id
  | compound {id : TermId} {cell : Compound} (held : arena.node id = .compound cell)
      (plain : ∀ operator, cell.symbol = .reserved operator → operator.isArithmetic = false)
      (args : ∀ arg ∈ cell.args, Plain arena arg) : Plain arena id

def plainWithin (arena : Arena) : Nat → TermId → Bool
  | 0, _ => false
  | fuel + 1, id =>
    match arena.node id with
    | .number _ | .var _ => true
    | .compound cell =>
      (cell.symbol.operator?.all fun operator => !operator.isArithmetic) &&
        cell.args.all (arena.plainWithin fuel)

theorem plain_of_within {arena : Arena} (fuel : Nat) {id : TermId}
    (passes : arena.plainWithin fuel id = true) : arena.Plain id := by
  induction fuel generalizing id with
  | zero => cases passes
  | succ fuel ih =>
    rw [plainWithin] at passes
    cases held : arena.node id with
    | number value => exact .number held
    | var cell => exact .var held
    | compound cell =>
      simp only [held, Bool.and_eq_true, List.all_eq_true] at passes
      refine .compound held (fun operator same => ?_) fun arg member => ih (passes.2 arg member)
      simpa [same, Symbol.operator?] using passes.1

/-- What is called in a pure goal besides numbers: conjunctions, disjunctions, equations, inequalities
    and predicates of a program. -/
def pureFunctor (_ : TermId) : Symbol → Nat → Prop
  | .user _, _ => True
  | .reserved operator, arity =>
    arity = 2 ∧ operator ∈ [Operator.conjunction, .disjunction, .equal, .unequal]

instance : (id : TermId) → (symbol : Symbol) → (arity : Nat) → Decidable (pureFunctor id symbol arity)
  | _, .user _, _ => inferInstanceAs (Decidable True)
  | _, .reserved operator, arity => inferInstanceAs (Decidable
    (arity = 2 ∧ operator ∈ [Operator.conjunction, .disjunction, .equal, .unequal]))

structure PureGoal (arena : Arena) (id : TermId) : Prop where
  plain : arena.Plain id
  callable : arena.Callable pureFunctor id

theorem pureGoal_of_within {arena : Arena} (fuel : Nat) {id : TermId}
    (plain : arena.plainWithin fuel id = true)
    (callable : arena.callableWithin pureFunctor fuel id = true) : arena.PureGoal id :=
  ⟨plain_of_within fuel plain, callable_of_within fuel callable⟩

end Arena

structure Program.Pure (program : Program) (arena : Arena) : Prop where
  head : ∀ clause ∈ program.clauses, arena.Plain clause.head
  body : ∀ clause ∈ program.clauses, ∀ body, clause.body = some body → arena.PureGoal body

/-- Values for the variables of a state agree with its bindings, and set the sides of every constraint
    that is still open apart. -/
structure State.Covers (state : State) (values : TermId → Tree) : Prop where
  bound : ∀ var target, state.arena.binding? var = some target →
    values var = state.arena.ground values target
  apart : ∀ constraint ∈ state.constraints.active,
    state.arena.ground values constraint.left ≠ state.arena.ground values constraint.right

theorem State.covers_iff {state : State} {values : TermId → Tree} : state.Covers values ↔
    (∀ index < state.arena.size, ∀ target ∈ state.arena.binding? ⟨index⟩,
      values ⟨index⟩ = state.arena.ground values target) ∧
    ∀ constraint ∈ state.constraints.active,
      state.arena.ground values constraint.left ≠ state.arena.ground values constraint.right := by
  constructor
  · intro covers
    exact ⟨fun index _ target bound => covers.bound ⟨index⟩ target bound, covers.apart⟩
  · rintro ⟨bound, apart⟩
    refine ⟨fun var target held => bound var.index ?_ target held, apart⟩
    rw [Arena.binding?, Arena.node] at held
    cases known : state.arena.slots[var.index]? with
    | none => simp [known] at held
    | some slot => exact (Array.getElem?_eq_some_iff.mp known).1

instance (state : State) (values : TermId → Tree) : Decidable (state.Covers values) :=
  decidable_of_iff _ State.covers_iff.symm

/-- A goal without variables follows from a program: it is an instance of a head and the body
    follows with it, or it holds by what its operator means. -/
inductive Derivable (program : Program) (arena : Arena) : Tree → Prop where
  | number (value : Rational) : Derivable program arena (.number value)
  | conjunction {left right : Tree} (first : Derivable program arena left)
      (second : Derivable program arena right) :
      Derivable program arena (.compound (.reserved .conjunction) [left, right])
  | left {left right : Tree} (first : Derivable program arena left) :
      Derivable program arena (.compound (.reserved .disjunction) [left, right])
  | right {left right : Tree} (second : Derivable program arena right) :
      Derivable program arena (.compound (.reserved .disjunction) [left, right])
  | equality (tree : Tree) : Derivable program arena (.compound (.reserved .equal) [tree, tree])
  | inequality {left right : Tree} (different : left ≠ right) :
      Derivable program arena (.compound (.reserved .unequal) [left, right])
  | clause {clause : Clause} {goal : Tree} (values : TermId → Tree)
      (listed : clause ∈ program.clauses) (head : arena.ground values clause.head = goal)
      (body : ∀ body, clause.body = some body →
        Derivable program arena (arena.ground values body)) : Derivable program arena goal

end Resolvent
