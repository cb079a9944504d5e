import Resolvent.Proofs.Search.Termination
import Resolvent.Proofs.Semantics.Primitives
import Resolvent.Query

namespace Resolvent

def Sane {α : Type} (result : Except Fault α) : Prop := result ≠ .error .unordered

namespace Sane

variable {α β : Type}

@[simp] theorem ok (value : α) : Sane (.ok value) := nofun

@[simp] theorem error {reason : Fault} : Sane (.error reason : Except Fault α) ↔ reason ≠ .unordered := by
  simp [Sane]

theorem bind {result : Except Fault α} {next : α → Except Fault β} (first : Sane result)
    (rest : ∀ value, Sane (next value)) : Sane (result >>= next) := by
  cases result with
  | error reason => simpa [Bind.bind, Except.bind] using first
  | ok value => exact rest value

theorem of_outside {result : Except Fault α}
    (outside : ∀ reason, result = .error reason → reason.Outside) : Sane result := by
  intro failed
  obtain ⟨_, _, same⟩ := outside _ failed
  cases same

theorem guard {reason : Fault} {rest : Except Fault α} {condition : Prop} [Decidable condition]
    (other : reason ≠ .unordered) (sane : Sane rest) :
    Sane (if condition then (throw reason : Except Fault Unit) >>= fun _ => rest else rest) := by
  split
  · exact Sane.bind (Sane.error.mpr other) fun _ => sane
  · exact sane

end Sane

theorem Comparison.holds_sane {first second : Evaluation}
    (fine : (first.isInvalid || second.isInvalid) = false) {left right : Rational}
    (leftKnown : first.value = some left) (rightKnown : second.value = some right)
    (comparison : Comparison) : Sane (comparison.holds left right) := by
  obtain ⟨_, _, rfl, rfl⟩ := Evaluation.values_valid fine leftKnown rightKnown
  cases comparison <;> exact .ok _

namespace ConstraintStore

variable (store : ConstraintStore) (id : ConstraintId)

theorem get_sane : Sane (store.get id) := by
  unfold get
  split <;> simp

theorem discard_sane : Sane (store.discard id) := by
  refine (store.get_sane id).bind fun constraint => ?_
  split <;> exact .ok _

end ConstraintStore

namespace State

variable (state : State)

theorem judgeComparison_sane (comparison : Comparison) (left right : TermId) :
    Sane (state.judgeComparison comparison left right) := by
  unfold judgeComparison
  split
  · split
    · exact .ok _
    · next fine =>
      split
      · next leftKnown rightKnown =>
        exact (Comparison.holds_sane (by simpa using fine) leftKnown rightKnown _).bind fun _ => .ok _
      · exact .ok _
      · exact .ok _
      · exact .ok _
  · exact .ok _

theorem judge_sane (constraint : Constraint) : Sane (state.judge constraint) := by
  rw [judge]
  cases constraint.relation with
  | disunification => exact .ok _
  | arithmetic comparison => exact judgeComparison_sane _ _ _ _

theorem recheck_sane (ids : List ConstraintId) (review : Recheck) : Sane (Recheck.run ids review) := by
  induction ids generalizing review with
  | nil => exact .ok _
  | cons id ids ih =>
    refine (ConstraintStore.get_sane _ _).bind fun constraint => (judge_sane _ _).bind fun judged => ?_
    dsimp only
    split
    · exact .ok _
    · exact ih _

theorem discardAll_sane (ids : List ConstraintId) : Sane (ids.foldlM discardAndCount state) := by
  induction ids generalizing state with
  | nil => exact .ok _
  | cons id ids ih =>
    rw [List.foldlM_cons]
    exact Sane.bind (Sane.bind (Sane.bind (ConstraintStore.discard_sane _ _) fun _ => .ok _)
      fun _ => .ok _) ih

theorem unification_sane (left right : TermId) : Sane (state.unification left right) := by
  unfold unification
  dsimp only
  split
  · exact .ok _
  · refine (recheck_sane _ _).bind fun review => ?_
    split
    · exact .ok _
    · refine (discardAll_sane _ _).bind fun settled => ?_
      split <;> exact .ok _

theorem arithmeticComparison_sane (comparison : Comparison) (left right : TermId)
    (first second : Evaluation) :
    Sane (state.arithmeticComparison comparison left right first second) := by
  unfold arithmeticComparison
  split
  · exact .ok _
  · next fine =>
    split
    · next leftKnown rightKnown =>
      exact (Comparison.holds_sane (by simpa using fine) leftKnown rightKnown _).bind fun _ => .ok _
    · exact .ok _

theorem perform_sane (left right : TermId) (builtin : Builtin) :
    Sane (state.perform left right builtin) := by
  cases builtin with
  | relaxed => exact .ok _
  | equality =>
    simp only [perform, equality]
    split
    · split
      · exact .ok _
      · exact unification_sane _ _ _
    · exact unification_sane _ _ _
  | inequality =>
    simp only [perform, inequality]
    split
    · split
      · exact arithmeticComparison_sane _ _ _ _ _ _
      · exact .ok _
    · exact .ok _
  | strict comparison =>
    simp only [perform, strictComparison]
    split
    · exact arithmeticComparison_sane _ _ _ _ _ _
    · exact .ok _

end State

namespace Machine

variable (program : Program) (machine : Machine)

theorem require_sane (arena : Arena) (id : TermId) : Sane (arena.require id) :=
  .of_outside fun _ failed => Arena.require_error failed

theorem instantiate_sane (arena : Arena) (names : Renaming) (term : TermId) :
    Sane (arena.instantiate names term) :=
  .of_outside fun _ failed => Arena.instantiateWithin_error failed

theorem pop_sane (index : Nat) : Sane (machine.pop index) := by
  unfold pop
  split <;> simp

theorem expand_sane (index : Nat) (goal : TermId) (clause : Nat) (parent : Option Nat) :
    Sane (machine.expand program index goal clause parent) := by
  unfold expand
  split
  · simp
  · exact Sane.bind (Sane.bind (instantiate_sane _ _ _) fun _ => .ok _) fun _ => .ok _

theorem nextClause_sane (index : Nat) : Sane (machine.nextClause program index) := by
  unfold nextClause
  split
  · refine (require_sane _ _).bind fun _ => ?_
    split
    · exact Sane.error.mpr nofun
    · split
      · exact Sane.guard nofun (expand_sane _ _ _ _ _ _)
      · exact Sane.guard nofun ((pop_sane _ _).bind fun _ => .ok _)
  · simp
  · simp

theorem dispatch_sane (goal : TermId) (cell : Compound) (parent : Option Nat) :
    Sane (machine.dispatch program goal cell parent) := by
  unfold dispatch
  split
  · exact .ok _
  · exact .ok _
  · exact .ok _
  · exact (State.perform_sane _ _ _ _).bind fun _ => .ok _
  · exact nextClause_sane _ _ _

theorem call_sane (goal : TermId) (parent : Option Nat) : Sane (machine.call program goal parent) := by
  refine (require_sane _ _).bind fun _ => ?_
  dsimp only
  split
  · exact .ok _
  · split <;> exact .ok _
  · split
    · exact .ok _
    · split
      · exact .ok _
      · exact dispatch_sane _ _ _ _ _

theorem redo_sane : Sane machine.redo := by
  unfold redo
  split
  · exact .ok _
  · split <;> exact .ok _
  · simp

theorem yielded_sane (index : Nat) (entry : Entry) : Sane (machine.yielded program index entry) := by
  unfold yielded
  dsimp only
  split <;> try exact .ok _
  · simp
  · simp
  · split
    · simp
    · split
      · exact Sane.bind (Sane.bind (instantiate_sane _ _ _) fun _ => .ok _) fun _ => .ok _
      · exact .ok _

theorem exhausted_sane (index : Nat) (entry : Entry) :
    Sane (machine.exhausted program index entry) := by
  unfold exhausted
  dsimp only
  split
  · simp
  · exact (pop_sane _ _).bind fun _ => .ok _
  · exact .ok _
  · exact (pop_sane _ _).bind fun _ => .ok _
  · exact (require_sane _ _).bind fun _ => .ok _
  · exact (pop_sane _ _).bind fun _ => .ok _
  · refine (pop_sane _ _).bind fun _ => ?_
    split <;> exact .ok _
  · simp
  · split
    · exact .ok _
    · exact nextClause_sane _ _ _

theorem advance_sane (step : Step) : Sane (machine.advance program step) := by
  cases step with
  | call goal parent => exact call_sane _ _ _ _
  | redo => exact redo_sane _
  | notify target signal =>
    cases target with
    | none => exact .ok _
    | some index =>
      rw [advance]
      split
      · simp
      · cases signal with
        | yielded => exact yielded_sane _ _ _ _
        | exhausted => exact exhausted_sane _ _ _ _

section

variable (decide : State → TermId → TermId → Builtin → Except Fault (Reply × State))

def dispatchWith (goal : TermId) (cell : Compound) (parent : Option Nat) :
    Except Fault (Step × Machine) :=
  match cell.form with
  | .negation inner => .ok (machine.negation goal inner parent)
  | .conjunction left right =>
    let (undo, state) := machine.state.register goal none
    .ok ({ machine with state }.enter (.conjunction undo right .left) parent left)
  | .disjunction left right =>
    let (undo, state) := machine.state.register goal (some .left)
    .ok ({ machine with state }.enter (.disjunction undo goal right .left) parent left)
  | .builtin builtin left right => do
    let (undo, state) := machine.state.register goal none
    let (reply, state) ← decide state left right builtin
    return { machine with state }.conclude undo parent reply
  | .predicate =>
    (machine.push (.deduction goal 0 none) parent).nextClause program machine.frames.size

def callWith (goal : TermId) (parent : Option Nat) : Except Fault (Step × Machine) := do
  let machine := machine.record .goal
  machine.state.arena.require goal
  let goal := machine.state.arena.deref goal
  match machine.state.arena.node goal with
  | .number _ => return machine.answer none parent
  | .var _ =>
    if machine.state.arena.isDelayed goal then return machine.answer none parent
    let (undo, state) := machine.state.delay goal
    return { machine with state }.answer (some undo) parent
  | .compound cell =>
    if cell.active then return machine.answer none parent
    if machine.depthLimit ≤ machine.state.callDepth then
      return { machine.record .depthHit with truncated := true }.fail parent
    machine.dispatchWith program decide goal cell parent

def advanceWith : Step → Except Fault (Step × Machine)
  | .call goal parent => machine.callWith program decide goal parent
  | .redo => machine.redo
  | .notify none signal => .ok (.notify none signal, machine)
  | .notify (some index) signal =>
    match machine.frames[index]? with
    | none => .error (.outOfRange machine.frames.size index)
    | some entry =>
      match signal with
      | .yielded => machine.yielded program index entry
      | .exhausted => machine.exhausted program index entry

def runWith : Nat → Step → Machine → Outcome (Signal × Machine)
  | 0, _, _ => .unfinished
  | _ + 1, .notify none signal, machine => .done (signal, machine)
  | fuel + 1, step, machine =>
    match machine.advanceWith program decide step with
    | .ok (step, machine) => runWith fuel step machine
    | .error fault => .fault fault

end

theorem dispatchWith_perform (goal : TermId) (cell : Compound) (parent : Option Nat) :
    machine.dispatchWith program State.perform goal cell parent =
      machine.dispatch program goal cell parent := by
  unfold dispatchWith dispatch
  cases cell.form <;> rfl

theorem advanceWith_perform (step : Step) :
    machine.advanceWith program State.perform step = machine.advance program step := by
  cases step with
  | call goal parent =>
    simp only [advanceWith, callWith, dispatchWith_perform]
    rfl
  | redo => rfl
  | notify target signal =>
    cases target with
    | none => rfl
    | some index => cases signal <;> rfl

theorem runWith_perform (fuel : Nat) (step : Step) :
    runWith program State.perform fuel step machine = run program fuel step machine := by
  induction fuel generalizing step machine with
  | zero => rfl
  | succ fuel ih =>
    rcases step with ⟨goal, parent⟩ | _ | ⟨_ | index, signal⟩
    · simp only [runWith, advanceWith_perform, ih]
      rfl
    · simp only [runWith, advanceWith_perform, ih]
      rfl
    · rfl
    · simp only [runWith, advanceWith_perform, ih]
      rfl

/-- A run of a machine is not stopped by numbers that cannot be put in order. -/
theorem run_sane (fuel : Nat) (step : Step) : run program fuel step machine ≠ .fault .unordered := by
  induction fuel generalizing step machine with
  | zero => simp [run]
  | succ fuel ih =>
    by_cases ended : ∃ signal, step = .notify none signal
    · obtain ⟨signal, rfl⟩ := ended
      simp [run]
    · rw [run_succ fun signal same => ended ⟨signal, same⟩]
      split
      · exact ih _ _
      · next reason failed =>
        have sane : Sane (machine.advance program step) := machine.advance_sane program step
        rw [failed, Sane.error] at sane
        simpa using sane

end Machine

theorem Search.next_sane (search : Search) (program : Program) (fuel : Nat) (state : State) :
    search.next program fuel state ≠ .fault .unordered := by
  have resumed (step : Step) : search.resume program fuel step state ≠ .fault .unordered := by
    have sane := Machine.run_sane program
      { frames := search.frames, depthLimit := search.depthLimit, truncated := search.truncated, state }
      fuel step
    unfold resume
    split <;> simp_all
  unfold next
  split
  · simp
  · exact resumed _
  · exact resumed _

theorem Enumeration.next_sane (fuel : Nat) (enumeration : Enumeration) :
    enumeration.next fuel ≠ .fault .unordered := by
  induction fuel generalizing enumeration with
  | zero => simp [next]
  | succ fuel ih =>
    rw [next]
    split
    · simp
    · have sane := enumeration.currentPass.1.next_sane enumeration.program fuel enumeration.currentPass.2
      dsimp only
      split
      · simp_all
      · simp
      · split
        · exact ih _
        · simp
      · split
        · simp
        · exact ih _

/-- Wherever a machine stands, numbers are compared only if both are valid and what is to be decided
    is how they compare, and they are computed with only by the four operators of arithmetic.
    Operations that are not defined anywhere else do as well, and no query is stopped by an invalid
    number. -/
theorem numbers_guarded {primitives : Primitives} (honest : primitives.Honest) (program : Program) :
    (∀ (machine : Machine) (step : Step),
      machine.advanceWith program primitives.decide step = machine.advance program step) ∧
    (∀ (fuel : Nat) (step : Step) (machine : Machine),
      Machine.runWith program primitives.decide fuel step machine =
        Machine.run program fuel step machine) ∧
    (∀ (machine : Machine) (step : Step), machine.advance program step ≠ .error .unordered) ∧
    ∀ (fuel : Nat) (enumeration : Enumeration), enumeration.next fuel ≠ .fault .unordered := by
  rw [honest.decide]
  exact ⟨fun machine step => machine.advanceWith_perform program step,
    fun fuel step machine => machine.runWith_perform program fuel step,
    fun machine step => machine.advance_sane program step,
    fun fuel enumeration => enumeration.next_sane fuel⟩

namespace Incomparable

def terms : List Shape :=
  [.var, .number (.valid 1), .compound (.reserved .greater) [⟨0⟩, ⟨1⟩], .number .invalid,
    .compound (.reserved .equal) [⟨0⟩, ⟨3⟩], .number (.valid 0),
    .compound (.reserved (.arithmetic .divide)) [⟨1⟩, ⟨5⟩],
    .compound (.reserved .smaller) [⟨6⟩, ⟨0⟩], .compound (.reserved .disjunction) [⟨4⟩, ⟨7⟩],
    .compound (.reserved .conjunction) [⟨2⟩, ⟨8⟩]]

def state : State := { arena := (Arena.build? {} terms).getD {} }

def opening : Config := Search.opening ⟨9⟩ 20 state

/-- An invalid number would stop the comparison. Where the variable is bound to it, the posted
    constraint is violated before, and neither goal has an answer. -/
theorem violated_uncompared :
    Primitives.strict.holds (.arithmetic .greater) .invalid (.valid 1) = .error .unordered ∧
    (Machine.runWith ⟨#[]⟩ Primitives.strict.decide 100 opening.1 opening.2).map
        (fun reached => (reached.1, reached.2.state.counters.posted)) = .done (.exhausted, 1) := by
  obtain ⟨-, runs, -⟩ := numbers_guarded Primitives.strict_honest ⟨#[]⟩
  rw [runs]
  exact ⟨rfl, by decide +kernel⟩

end Incomparable

end Resolvent
