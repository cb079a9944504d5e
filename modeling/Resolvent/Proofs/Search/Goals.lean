import Mathlib.Data.List.Basic
import Resolvent.Proofs.Search.Reach

namespace Resolvent

def Form.goals : Form → List TermId
  | .negation inner => [inner]
  | .conjunction left right | .disjunction left right => [left, right]
  | .builtin _ _ _ | .predicate => []

/-- No variable is called in a goal, and whatever compound is called in it is allowed where it is, by
    its functor. -/
inductive Arena.Callable (arena : Arena) (allows : TermId → Symbol → Nat → Prop) : TermId → Prop
  where
  | number {id : TermId} {value : Rational} (held : arena.node id = .number value) :
      Callable arena allows id
  | compound {id : TermId} {cell : Compound} (held : arena.node id = .compound cell)
      (allowed : allows id cell.symbol cell.args.length)
      (goals : ∀ goal ∈ cell.form.goals, Callable arena allows goal) : Callable arena allows id

def Arena.callableWithin (arena : Arena) (allows : TermId → Symbol → Nat → Prop)
    [∀ id symbol arity, Decidable (allows id symbol arity)] : Nat → TermId → Bool
  | 0, _ => false
  | fuel + 1, id =>
    match arena.node id with
    | .number _ => true
    | .var _ => false
    | .compound cell =>
      decide (allows id cell.symbol cell.args.length) &&
        cell.form.goals.all (arena.callableWithin allows fuel)

theorem Arena.callable_of_within {arena : Arena} {allows : TermId → Symbol → Nat → Prop}
    [∀ id symbol arity, Decidable (allows id symbol arity)] (fuel : Nat) {id : TermId}
    (passes : arena.callableWithin allows fuel id = true) : arena.Callable allows id := by
  induction fuel generalizing id with
  | zero => cases passes
  | succ fuel ih =>
    rw [callableWithin] at passes
    cases held : arena.node id with
    | number value => exact .number held
    | var cell => simp [held] at passes
    | compound cell =>
      simp only [held, Bool.and_eq_true, decide_eq_true_eq, List.all_eq_true] at passes
      exact .compound held passes.1 fun goal member => ih (passes.2 goal member)

def anywhere (_ : TermId) (_ : Symbol) (_ : Nat) : Prop := True

instance (id : TermId) (symbol : Symbol) (arity : Nat) : Decidable (anywhere id symbol arity) :=
  inferInstanceAs (Decidable True)

def formOf (symbol : Symbol) (args : List TermId) : Form := Compound.form { symbol, args }

theorem form_negation {symbol : Symbol} {args : List TermId} {inner : TermId}
    (form : formOf symbol args = .negation inner) : symbol = .reserved .not ∧ args = [inner] := by
  simp only [formOf, Compound.form] at form
  split at form <;> simp_all

theorem form_conjunction {symbol : Symbol} {args : List TermId} {left right : TermId}
    (form : formOf symbol args = .conjunction left right) :
    symbol = .reserved .conjunction ∧ args = [left, right] := by
  simp only [formOf, Compound.form] at form
  split at form <;> simp_all

theorem form_disjunction {symbol : Symbol} {args : List TermId} {left right : TermId}
    (form : formOf symbol args = .disjunction left right) :
    symbol = .reserved .disjunction ∧ args = [left, right] := by
  simp only [formOf, Compound.form] at form
  split at form <;> simp_all

theorem form_builtin {symbol : Symbol} {args : List TermId} {builtin : Builtin}
    {left right : TermId} (form : formOf symbol args = .builtin builtin left right) :
    args = [left, right] := by
  simp only [formOf, Compound.form] at form
  split at form <;> simp_all

theorem Ledger.WellFormed.live_sides {ledger : Ledger} (wellFormed : ledger.WellFormed)
    {goal : TermId} {symbol : Symbol} {args : List TermId} {builtin : Builtin} {left right : TermId}
    (shape : ledger.shape? goal = some (.compound symbol args))
    (form : formOf symbol args = .builtin builtin left right) :
    ledger.Live left ∧ ledger.Live right := by
  have live := wellFormed.live_args shape
  rw [form_builtin form] at live
  exact ⟨live left (by simp), live right (by simp)⟩

theorem form_strict {symbol : Symbol} {args : List TermId} {comparison : Comparison}
    {left right : TermId} (form : formOf symbol args = .builtin (.strict comparison) left right) :
    comparison = .greater ∨ comparison = .smaller := by
  simp only [formOf, Compound.form] at form
  split at form <;> simp_all

theorem form_relaxed {symbol : Symbol} {args : List TermId} {strict : Operator} {left right : TermId}
    (form : formOf symbol args = .builtin (.relaxed strict) left right) :
    strict = .greater ∨ strict = .smaller := by
  simp only [formOf, Compound.form] at form
  split at form <;> simp_all

theorem goals_args {symbol : Symbol} {args : List TermId} :
    ∀ goal ∈ (formOf symbol args).goals, goal ∈ args := by
  simp only [formOf, Compound.form]
  split <;> simp_all [Form.goals]

theorem goals_zip {symbol : Symbol} {args copies : List TermId} (length : args.length = copies.length)
    {goal : TermId} (member : goal ∈ (formOf symbol copies).goals) :
    ∃ original ∈ (formOf symbol args).goals, (original, goal) ∈ args.zip copies := by
  simp only [formOf, Compound.form] at member
  split at member <;>
    simp only [Form.goals, List.mem_cons, List.not_mem_nil, or_false] at member
  · subst member
    obtain ⟨first, rfl⟩ := List.length_eq_one_iff.mp length
    exact ⟨first, by simp [formOf, Compound.form, Form.goals], by simp⟩
  all_goals
    obtain ⟨first, second, rfl⟩ := List.length_eq_two.mp length
    rcases member with rfl | rfl
    · exact ⟨first, by simp [formOf, Compound.form, Form.goals], by simp⟩
    · exact ⟨second, by simp [formOf, Compound.form, Form.goals], by simp⟩

namespace Ledger

variable {ledger : Ledger} {allows : TermId → Symbol → Nat → Prop}

theorem callable_number {id : TermId} {value : Rational}
    (shape : ledger.shape? id = some (.number value)) : ledger.arena.Callable allows id :=
  .number (node_number shape)

theorem callable_compound {id : TermId} {symbol : Symbol} {args : List TermId}
    (shape : ledger.shape? id = some (.compound symbol args)) (allowed : allows id symbol args.length)
    (goals : ∀ goal ∈ (formOf symbol args).goals, ledger.arena.Callable allows goal) :
    ledger.arena.Callable allows id :=
  .compound (node_compound shape) allowed goals

theorem callable_cases {id : TermId} (callable : ledger.arena.Callable allows id) :
    (∃ value, ledger.shape? id = some (.number value)) ∨
    ∃ symbol args, ledger.shape? id = some (.compound symbol args) ∧
      allows id symbol args.length ∧
      ∀ goal ∈ (formOf symbol args).goals, ledger.arena.Callable allows goal := by
  cases callable with
  | number held => exact .inl ⟨_, shape_of_number held⟩
  | compound held allowed goals => exact .inr ⟨_, _, (shape_of_compound held).1, allowed, goals⟩

theorem callable_goals {id : TermId} {symbol : Symbol} {args : List TermId}
    (callable : ledger.arena.Callable allows id)
    (shape : ledger.shape? id = some (.compound symbol args)) :
    allows id symbol args.length ∧
      ∀ goal ∈ (formOf symbol args).goals, ledger.arena.Callable allows goal := by
  rcases callable_cases callable with ⟨value, other⟩ | ⟨known, found, other, rest⟩
  · simp [shape] at other
  · rw [shape] at other
    cases other
    exact rest

theorem callable_live {id : TermId} (callable : ledger.arena.Callable allows id) :
    ledger.Live id := by
  rcases callable_cases callable with ⟨value, shape⟩ | ⟨symbol, args, shape, -⟩ <;>
    exact live_of_shape shape

theorem callable_deref {id : TermId} (callable : ledger.arena.Callable allows id)
    (wellFormed : ledger.WellFormed) : ledger.arena.deref id = id := by
  rcases callable_cases callable with ⟨value, shape⟩ | ⟨symbol, args, shape, -⟩ <;>
    exact wellFormed.deref_of_shape (by simp [shape])

theorem callable_later {later : Ledger} (grown : later.Extends ledger) {id : TermId}
    (callable : ledger.arena.Callable allows id) : later.arena.Callable allows id := by
  induction callable with
  | number held => exact callable_number (grown.shape (shape_of_number held))
  | compound held allowed _ ih =>
    exact callable_compound (grown.shape (shape_of_compound held).1) allowed ih

theorem callable_imp {others : TermId → Symbol → Nat → Prop} (wellFormed : ledger.WellFormed)
    {id : TermId} (callable : ledger.arena.Callable allows id)
    (implies : ∀ goal symbol arity, goal.index ≤ id.index → allows goal symbol arity →
      others goal symbol arity) : ledger.arena.Callable others id := by
  induction callable with
  | number held => exact .number held
  | compound held allowed _ ih =>
    have shape := (shape_of_compound held).1
    refine .compound held (implies _ _ _ (Nat.le_refl _) allowed) fun goal member => ?_
    have older := wellFormed.args_older shape goal (goals_args goal member)
    exact ih goal member fun other symbol arity low =>
      implies other symbol arity (Nat.le_trans low (Nat.le_of_lt older))

theorem callable_anywhere (wellFormed : ledger.WellFormed) {id : TermId}
    (callable : ledger.arena.Callable allows id) : ledger.arena.Callable anywhere id :=
  callable_imp wellFormed callable fun _ _ _ _ _ => trivial

theorem Copies.callable {others : TermId → Symbol → Nat → Prop} {names : Renaming} {since : Nat}
    {term copy : TermId} (copies : ledger.Copies names since term copy)
    (callable : ledger.arena.Callable allows term)
    (implies : ∀ goal fresh symbol arity, since ≤ fresh.index → allows goal symbol arity →
      others fresh symbol arity) : ledger.arena.Callable others copy := by
  induction copies with
  | number _ copyShape => exact callable_number copyShape
  | var shape =>
    rcases callable_cases callable with ⟨value, other⟩ | ⟨symbol, args, other, -⟩ <;>
      simp [shape] at other
  | @compound term copy symbol args copied shape copyShape new length _ ih =>
    obtain ⟨allowed, goals⟩ := callable_goals callable shape
    refine callable_compound copyShape (implies _ _ _ _ new (length ▸ allowed)) fun goal member => ?_
    obtain ⟨original, listed, paired⟩ := goals_zip length member
    exact ih _ paired (goals original listed)

end Ledger

end Resolvent
