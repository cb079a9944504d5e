import Resolvent.Machine.Resolution

namespace Resolvent

def State.hits (state : State) : Nat := state.counters.depthHits

def Machine.hits (machine : Machine) : Nat := machine.state.hits

namespace State

variable {state later : State} {left right : TermId}

@[simp] theorem hits_arena (arena : Arena) : { state with arena }.hits = state.hits := rfl

@[simp] theorem hits_restore (snapshot : Snapshot) : (state.restore snapshot).hits = state.hits := rfl

@[simp] theorem hits_register (goal : TermId) (choice : Option Choice) :
    (state.register goal choice).2.hits = state.hits := rfl

@[simp] theorem hits_delay (var : TermId) : (state.delay var).2.hits = state.hits := rfl

def Unified (counters : Counters) (result : Except State State) : Prop :=
  ∀ reached, result = .ok reached ∨ result = .error reached → reached.counters = counters

theorem unified_ok (state : State) : Unified state.counters (.ok state) := by
  rintro reached (same | same) <;> cases same
  rfl

theorem unified_error (state : State) : Unified state.counters (.error state) := by
  rintro reached (same | same) <;> cases same
  rfl

theorem assign_unified (state : State) (var term : TermId) :
    Unified state.counters (state.assign var term) := by
  rw [assign]
  cases state.arena.node term with
  | number value => exact unified_ok (state.bind var term)
  | var cell =>
    simp only
    split
    · exact unified_ok (state.bind term var)
    · exact unified_ok (state.bind var term)
  | compound cell =>
    simp only
    split
    · exact unified_error state
    · exact unified_ok (state.bind var term)

theorem solveAll_unified {solve : State → TermId × TermId → Except State State}
    (each : ∀ state pair, Unified state.counters (solve state pair))
    (pairs : List (TermId × TermId)) (state : State) :
    Unified state.counters (pairs.foldlM solve state) := by
  induction pairs generalizing state with
  | nil => exact unified_ok state
  | cons pair pairs ih =>
    rw [List.foldlM_cons]
    have first := each state pair
    cases solved : solve state pair with
    | error reached =>
      rw [← first reached (.inr solved)]
      exact unified_error reached
    | ok reached =>
      rw [← first reached (.inl solved)]
      exact ih reached

theorem solveWithin_unified (fuel : Nat) (state : State) (pair : TermId × TermId) :
    Unified state.counters (solveWithin fuel state pair) := by
  induction fuel generalizing state pair with
  | zero => exact unified_error state
  | succ fuel ih =>
    obtain ⟨left, right⟩ := pair
    rw [solveWithin]
    split
    · exact unified_ok state
    · split
      · split
        · exact solveAll_unified ih _ state
        · exact unified_error state
      · exact assign_unified state _ _
      · exact assign_unified state _ _
      · split
        · exact unified_ok state
        · exact unified_error state
      · exact unified_error state

@[simp] theorem hits_unify (left right : TermId) : (state.unify left right).2.hits = state.hits := by
  have unified := solveWithin_unified state.arena.size state (left, right)
  rw [unify]
  cases solved : state.solveWithin state.arena.size (left, right) with
  | ok reached =>
    change reached.counters.depthHits = _
    rw [unified reached (.inl solved)]
    rfl
  | error reached =>
    change reached.counters.depthHits = _
    rw [unified reached (.inr solved)]
    rfl

@[simp] theorem hits_solveSingle (side : TermId) (target : Rational) :
    (state.solveSingle side target).2.hits = state.hits := by
  rw [solveSingle]
  split
  · simp only
    split <;> rfl
  · rfl

@[simp] theorem hits_judgeDisunification (left right : TermId) :
    (state.judgeDisunification left right).2.hits = state.hits := by
  have unified := state.hits_unify left right
  simp only [judgeDisunification]
  generalize state.unify left right = result at unified ⊢
  split
  · exact unified
  · split
    · exact unified
    · exact unified

theorem hits_judgeComparison {comparison : Comparison} {verdict : Verdict}
    (judged : state.judgeComparison comparison left right = .ok (verdict, later)) :
    later.hits = state.hits := by
  have solved (side : TermId) (target : Rational) :
      (if comparison = .equal then state.solveSingle side target
        else (.undecided, state)).2.hits = state.hits := by
    split
    · exact hits_solveSingle side target
    · rfl
  rw [judgeComparison] at judged
  split at judged
  · split at judged
    · cases judged
      rfl
    · split at judged
      · next first second _ _ =>
        cases holds : comparison.holds first second with
        | error reason => simp [holds, Bind.bind, Except.bind] at judged
        | ok known =>
          simp only [holds, Bind.bind, Except.bind, pure, Except.pure, Except.ok.injEq,
            Prod.mk.injEq] at judged
          rw [← judged.2]
      · rw [← solved _ _, Except.ok.inj judged]
      · rw [← solved _ _, Except.ok.inj judged]
      · cases judged
        rfl
  · cases judged
    rfl

theorem hits_judge {constraint : Constraint} {verdict : Verdict}
    (judged : state.judge constraint = .ok (verdict, later)) : later.hits = state.hits := by
  rw [judge] at judged
  split at judged
  · have same := state.hits_judgeDisunification (state.arena.deref constraint.left)
      (state.arena.deref constraint.right)
    rw [Except.ok.inj judged] at same
    exact same
  · exact hits_judgeComparison judged

end State

theorem Recheck.take_state (recheck : Recheck) (id : ConstraintId) (verdict : Verdict) :
    (recheck.take id verdict).state = recheck.state := by
  cases verdict <;> rfl

theorem Recheck.hits_run {ids : List ConstraintId} {recheck last : Recheck}
    (ran : Recheck.run ids recheck = .ok last) : last.state.hits = recheck.state.hits := by
  induction ids generalizing recheck with
  | nil =>
    cases ran
    rfl
  | cons id ids ih =>
    rw [Recheck.run] at ran
    cases found : recheck.state.constraints.get id with
    | error reason => simp [found, Bind.bind, Except.bind] at ran
    | ok constraint =>
      cases judged : recheck.state.judge constraint with
      | error reason => simp [found, judged, Bind.bind, Except.bind] at ran
      | ok result =>
        obtain ⟨verdict, state⟩ := result
        have same := State.hits_judge judged
        simp only [found, judged, Bind.bind, Except.bind] at ran
        split at ran
        · cases ran
          rw [Recheck.take_state]
          exact same
        · rw [ih ran, Recheck.take_state]
          exact same

namespace State

variable {state later : State} {left right : TermId}

theorem hits_discardAll {ids : List ConstraintId}
    (settled : ids.foldlM discardAndCount state = .ok later) : later.hits = state.hits := by
  induction ids generalizing state with
  | nil =>
    cases settled
    rfl
  | cons id ids ih =>
    rw [List.foldlM_cons] at settled
    cases first : state.constraints.discard id with
    | error reason => simp [discardAndCount, discard, first, Bind.bind, Except.bind] at settled
    | ok constraints =>
      simp only [discardAndCount, discard, first, Bind.bind, Except.bind, pure, Except.pure] at settled
      rw [ih settled]
      rfl

theorem hits_unification {reply : Reply}
    (done : state.unification left right = .ok (reply, later)) : later.hits = state.hits := by
  have unified := state.hits_unify left right
  simp only [unification] at done
  generalize state.unify left right = result at unified done
  split at done
  · cases done
    exact unified
  · simp only [Bind.bind, Except.bind] at done
    split at done
    · cases done
    · next recheck ran =>
      have same := (Recheck.hits_run ran).trans unified
      split at done
      · cases done
        exact same
      · split at done
        · cases done
        · next settled discarded =>
          have kept := (hits_discardAll discarded).trans same
          split at done <;>
          · cases done
            exact kept

@[simp] theorem hits_postConstraint (relation : Relation) (left right : TermId) :
    (state.postConstraint relation left right).2.hits = state.hits := rfl

theorem hits_disunification (left right : TermId) :
    (state.disunification left right).2.hits = state.hits := by
  have unified := state.hits_unify (state.arena.deref left) (state.arena.deref right)
  simp only [disunification]
  generalize state.unify (state.arena.deref left) (state.arena.deref right) = result at unified ⊢
  split
  · exact unified
  · split
    · exact unified
    · exact unified

theorem hits_solveOrPost (left right side : TermId) (target : Rational) :
    (state.solveOrPost left right side target).2.hits = state.hits := by
  have solved := state.hits_solveSingle side target
  rw [solveOrPost]
  split <;> next same => simpa only [same, hits_postConstraint] using solved

theorem hits_arithmeticEquality (left right : TermId) (first second : Evaluation) :
    (state.arithmeticEquality left right first second).2.hits = state.hits := by
  rw [arithmeticEquality]
  split
  · rfl
  · simp only
    split
    · rfl
    · exact hits_solveOrPost _ _ _ _
    · exact hits_solveOrPost _ _ _ _
    · rfl

theorem hits_arithmeticComparison {comparison : Comparison} {first second : Evaluation}
    {reply : Reply}
    (done : state.arithmeticComparison comparison left right first second = .ok (reply, later)) :
    later.hits = state.hits := by
  rw [arithmeticComparison] at done
  split at done
  · cases done
    rfl
  · split at done
    · next known other _ _ =>
      cases holds : comparison.holds known other with
      | error reason => simp [holds, Bind.bind, Except.bind] at done
      | ok known =>
        simp only [holds, Bind.bind, Except.bind, pure, Except.pure, Except.ok.injEq,
          Prod.mk.injEq] at done
        rw [← done.2]
    · cases done
      rfl

theorem hits_perform {builtin : Builtin} {reply : Reply}
    (performed : state.perform left right builtin = .ok (reply, later)) :
    later.hits = state.hits := by
  have different (found : state.disunification left right = (reply, later)) :
      later.hits = state.hits := by
    have same := state.hits_disunification left right
    rwa [found] at same
  cases builtin with
  | relaxed strict =>
    simp only [perform, relaxedComparison, Except.ok.injEq, Prod.mk.injEq] at performed
    rw [← performed.2]
    exact hits_arena _
  | equality =>
    simp only [perform, equality] at performed
    split at performed
    · split at performed
      · next first second _ _ _ =>
        have same := state.hits_arithmeticEquality left right first second
        rwa [Except.ok.inj performed] at same
      · exact hits_unification performed
    · exact hits_unification performed
  | inequality =>
    simp only [perform, inequality] at performed
    split at performed
    · split at performed
      · exact hits_arithmeticComparison performed
      · exact different (Except.ok.inj performed)
    · exact different (Except.ok.inj performed)
  | strict comparison =>
    simp only [perform, strictComparison] at performed
    split at performed
    · exact hits_arithmeticComparison performed
    · exact different (Except.ok.inj performed)

theorem matchHead_arena {goal head equation : TermId} {names : Renaming}
    (matched : state.matchHead goal head = .ok (equation, names, later)) :
    later = { state with arena := later.arena } := by
  rw [matchHead] at matched
  cases copied : state.arena.instantiate [] head with
  | error reason => simp [copied, Bind.bind, Except.bind] at matched
  | ok result =>
    simp only [copied, Bind.bind, Except.bind, pure, Except.pure, Except.ok.injEq,
      Prod.mk.injEq] at matched
    rw [← matched.2.2]

theorem copyBody_arena {names named : Renaming} {body copy : TermId}
    (copied : state.copyBody names body = .ok (copy, named, later)) :
    later = { state with arena := later.arena } := by
  rw [copyBody] at copied
  cases made : state.arena.instantiate names body with
  | error reason => simp [made, Bind.bind, Except.bind] at copied
  | ok result =>
    simp only [made, Bind.bind, Except.bind, pure, Except.pure, Except.ok.injEq,
      Prod.mk.injEq] at copied
    rw [← copied.2.2]

theorem hits_matchHead {goal head equation : TermId} {names : Renaming}
    (matched : state.matchHead goal head = .ok (equation, names, later)) :
    later.hits = state.hits := by
  rw [matchHead_arena matched, hits_arena]

theorem hits_copyBody {names named : Renaming} {body copy : TermId}
    (copied : state.copyBody names body = .ok (copy, named, later)) :
    later.hits = state.hits := by
  rw [copyBody_arena copied, hits_arena]

end State

end Resolvent
