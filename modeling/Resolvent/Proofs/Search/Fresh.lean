import Resolvent.Proofs.Search.Quiet

namespace Resolvent

def builtSince (base : Nat) (id : TermId) (_ : Symbol) (_ : Nat) : Prop := base ≤ id.index

namespace Ledger

variable {ledger later : Ledger} {goal : TermId}

theorem Equation.callable_since {base : Nat} (equation : ledger.Equation goal)
    (fresh : base ≤ goal.index) : ledger.arena.Callable (builtSince base) goal := by
  obtain ⟨left, right, shape⟩ := equation
  exact callable_compound shape fresh (by simp [formOf, Compound.form, Form.goals])

theorem Conjoins.callable_since {base since : Nat} {goals : List TermId}
    (conjoins : ledger.Conjoins since goal goals) (low : base ≤ since)
    (each : ∀ other ∈ goals, ledger.arena.Callable (builtSince base) other) :
    ledger.arena.Callable (builtSince base) goal := by
  induction conjoins with
  | last => exact each _ (by simp)
  | cons fresh shape _ ih =>
    refine callable_compound shape (Nat.le_trans low fresh) ?_
    simp only [formOf, Compound.form, Form.goals, List.mem_cons, List.not_mem_nil, or_false]
    rintro goal (rfl | rfl)
    · exact each _ (by simp)
    · exact ih fun other member => each other (by simp [member])

theorem Relaxes.callable_since {strict : Operator} {left right equal strictly : TermId}
    (relaxes : ledger.Relaxes strict left right goal later)
    (asserts : strict = .greater ∨ strict = .smaller)
    (shape : later.shape? goal = some (.compound (.reserved .disjunction) [equal, strictly]))
    (fresh : ∀ id ∈ [goal, equal, strictly], ledger.size ≤ id.index) :
    later.arena.Callable (builtSince ledger.size) goal := by
  obtain ⟨_, _, known, first, second⟩ := relaxes.goals
  cases known.symm.trans shape
  simp only [List.mem_cons, List.not_mem_nil, or_false, forall_eq_or_imp, forall_eq] at fresh
  refine callable_compound shape fresh.1 ?_
  simp only [formOf, Compound.form, Form.goals, List.mem_cons, List.not_mem_nil, or_false]
  rintro goal (rfl | rfl)
  · exact Equation.callable_since ⟨left, right, first⟩ fresh.2.1
  · refine callable_compound second fresh.2.2 ?_
    rcases asserts with rfl | rfl <;> simp [formOf, Compound.form, Form.goals]

/-- What an equation that is unified is replaced by, where nothing is delayed. -/
theorem Equates.callable_since {left right : TermId}
    (equates : ledger.Equates left right (.delegates goal) later) (wellFormed : ledger.WellFormed)
    (undelayed : ledger.delayed = []) (leftLive : ledger.Live left) (rightLive : ledger.Live right) :
    later.arena.Callable (builtSince ledger.size) goal := by
  obtain ⟨base, goals, low, conjoins, each⟩ :=
    equates.equations wellFormed undelayed leftLive rightLive
  exact conjoins.callable_since low fun other member =>
    (each other member).1.callable_since (each other member).2

theorem Matches.fresh {head equation : TermId} {names : Renaming}
    (matched : ledger.Matches goal head equation names later) (wellFormed : ledger.WellFormed) :
    later.arena.Callable (builtSince ledger.size) equation := by
  obtain ⟨copy, shape⟩ := matched.equation
  obtain ⟨copied, rfl, -, -⟩ := matched
  exact Equation.callable_since ⟨goal, copy, shape⟩ (copied.grows wellFormed).extends.size_le

theorem perform_fresh {symbol : Symbol} {args : List TermId} {left right : TermId}
    {builtin : Builtin} {counters : Counters} {state : State} {reply : Reply}
    (form : formOf symbol args = .builtin builtin left right) (wellFormed : ledger.WellFormed)
    (undelayed : ledger.delayed = []) (leftLive : ledger.Live left) (rightLive : ledger.Live right)
    (performed : (ledger.state counters).perform left right builtin = .ok (reply, state)) :
    ∃ (later : Ledger) (others : Counters), state = later.state others ∧ later.Advances ledger ∧
      ∀ goal, reply = .delegates goal → later.arena.Callable (builtSince ledger.size) goal := by
  by_cases relaxed : ∃ strict, builtin = .relaxed strict
  · obtain ⟨strict, rfl⟩ := relaxed
    obtain ⟨goal, equal, strictly, later, relaxes, shape, fresh, run⟩ :=
      relaxedComparison_state wellFormed strict leftLive rightLive
    simp only [State.perform, run, Except.ok.injEq, Prod.mk.injEq] at performed
    obtain ⟨rfl, rfl⟩ := performed
    refine ⟨later, counters, rfl, relaxes.grown.advances, ?_⟩
    rintro _ ⟨⟩
    exact relaxes.callable_since (form_relaxed form) shape fresh
  · obtain ⟨known, later, performs, run⟩ := perform_state wellFormed leftLive rightLive builtin
    obtain ⟨others, ran⟩ := run counters
    cases performed.symm.trans ran
    refine ⟨later, others, rfl, performs.advances wellFormed leftLive rightLive, ?_⟩
    rintro goal rfl
    cases performs with
    | relaxed => exact absurd ⟨_, rfl⟩ relaxed
    | equates _ equates => exact equates.callable_since wellFormed undelayed leftLive rightLive
    | differs _ differs => cases differs
    | computes _ _ computes => exact computes.delegated.callable_since computes.fresh

end Ledger

end Resolvent
