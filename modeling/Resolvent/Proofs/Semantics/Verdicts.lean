import Resolvent.Proofs.Ledger.Builtin
import Resolvent.Proofs.Semantics.Expressions

namespace Resolvent

namespace Value

variable {left right : Value} {first second : Evaluation}

/-- Expressions that cannot be compared yet: some variable is left, what has a value is valid, and an
    equation cannot be solved for a single unknown. -/
structure Undecided (comparison : Comparison) (left right : Value) : Prop where
  leftKnown : left.evaluation.isSome = true
  rightKnown : right.evaluation.isSome = true
  unknown : ¬ (left.isGround = true ∧ right.isGround = true)
  leftValid : left.isGround = true → left.total.isValid = true
  rightValid : right.isGround = true → right.total.isValid = true
  leftOpen : comparison = .equal → left.isGround = true → ∀ var, right.vars ≠ [var]
  rightOpen : comparison = .equal → right.isGround = true → ∀ var, left.vars ≠ [var]

structure Related (comparison : Comparison) (left right : Value) : Prop where
  leftGround : left.isGround = true
  rightGround : right.isGround = true
  leftValid : left.total.isValid = true
  rightValid : right.total.isValid = true
  holds : comparison.holds left.total right.total = .ok true

theorem ground_of_evaluation {value : Value} {evaluation : Evaluation}
    (known : value.evaluation = some evaluation) :
    value.isGround = true ↔ evaluation.value.isSome = true := by
  have facts := evaluated known
  rw [isGround_iff]
  cases total : evaluation.value with
  | none => simpa using facts.unknown total
  | some total => simpa using (facts.ground _ ‹_›).1

theorem total_of_evaluation {value : Value} {evaluation : Evaluation} {total : Rational}
    (known : value.evaluation = some evaluation) (same : evaluation.value = some total) :
    value.total = total := by
  obtain ⟨found, operations⟩ := evaluation
  simp only at same
  rw [Value.total, known, same]

theorem valid_of_ground {value : Value} {evaluation : Evaluation}
    (known : value.evaluation = some evaluation) (valid : evaluation.isInvalid = false)
    (ground : value.isGround = true) : value.total.isValid = true := by
  rw [ground_of_evaluation known] at ground
  obtain ⟨total, same⟩ := Option.isSome_iff_exists.mp ground
  rw [total_of_evaluation known same]
  exact Ledger.valid_of_evaluation same valid

theorem undecided_of {comparison : Comparison} (leftKnown : left.evaluation = some first)
    (rightKnown : right.evaluation = some second) (leftValid : first.isInvalid = false)
    (rightValid : second.isInvalid = false) (unknown : first.value = none ∨ second.value = none)
    (unsolved : comparison = .equal → ∀ side target,
      Ledger.OneSided left right first second side target → ∀ var, side.vars ≠ [var]) :
    Undecided comparison left right where
  leftKnown := by simp [leftKnown]
  rightKnown := by simp [rightKnown]
  unknown := by
    rw [ground_of_evaluation leftKnown, ground_of_evaluation rightKnown]
    rcases unknown with none | none <;> simp [none]
  leftValid := valid_of_ground leftKnown leftValid
  rightValid := valid_of_ground rightKnown rightValid
  leftOpen equal ground := by
    rw [ground_of_evaluation leftKnown] at ground
    obtain ⟨total, same⟩ := Option.isSome_iff_exists.mp ground
    have rest : second.value = none := by simpa [same] using unknown
    exact unsolved equal right total (.right same rest)
  rightOpen equal ground := by
    rw [ground_of_evaluation rightKnown] at ground
    obtain ⟨total, same⟩ := Option.isSome_iff_exists.mp ground
    have rest : first.value = none := by simpa [same] using unknown
    exact unsolved equal left total (.left rest same)

theorem related_of {comparison : Comparison} {leftTotal rightTotal : Rational}
    (leftKnown : left.evaluation = some first) (rightKnown : right.evaluation = some second)
    (leftValid : first.isInvalid = false) (rightValid : second.isInvalid = false)
    (leftSame : first.value = some leftTotal) (rightSame : second.value = some rightTotal)
    (holds : comparison.holds leftTotal rightTotal = .ok true) : Related comparison left right := by
  have leftGround := (ground_of_evaluation leftKnown).mpr (by simp [leftSame])
  have rightGround := (ground_of_evaluation rightKnown).mpr (by simp [rightSame])
  refine ⟨leftGround, rightGround, valid_of_ground leftKnown leftValid leftGround,
    valid_of_ground rightKnown rightValid rightGround, ?_⟩
  rw [total_of_evaluation leftKnown leftSame, total_of_evaluation rightKnown rightSame]
  exact holds

theorem eq_of_ground {left right : Value} (same : ∀ values, left.ground values = right.ground values) :
    left = right := by
  induction left generalizing right with
  | number value =>
    cases right with
    | number other => simpa using same fun _ => .number default
    | var id => simpa using same fun _ => .compound (.user 0) []
    | compound symbol args => simpa using same fun _ => .number default
  | var id =>
    cases right with
    | number value => simpa using same fun _ => .compound (.user 0) []
    | var other =>
      by_contra different
      have apart := same fun place => if place = id then .number default else .compound (.user 0) []
      have others : other ≠ id := by
        rintro rfl
        exact different rfl
      simp [others] at apart
    | compound symbol args => simpa using same fun _ => .number default
  | compound symbol args ih =>
    cases right with
    | number value => simpa using same fun _ => .number default
    | var id => simpa using same fun _ => .number default
    | compound other others =>
      simp only [ground_compound, Tree.compound.injEq] at same
      have symbols := (same fun _ => .number default).1
      have lengths : args.length = others.length := by
        simpa using congrArg List.length (same fun _ => .number default).2
      rw [Value.compound.injEq]
      refine ⟨symbols, List.ext_getElem lengths fun index low high => ?_⟩
      refine ih _ (List.getElem_mem low) fun values => ?_
      have here : (args.map (ground values))[index]? = (others.map (ground values))[index]? := by
        rw [(same values).2]
      simpa [low, high] using here

end Value

/-- A constraint can still be violated and can still be satisfied. -/
def Relation.Open : Relation → Value → Value → Prop
  | .disunification, left, right => left ≠ right ∧ left.Unify right
  | .arithmetic comparison, left, right => Value.Undecided comparison left right

/-- A constraint holds whatever is bound from now on. An equation is settled by solving it. -/
def Relation.Settled : Relation → Value → Value → Prop
  | .disunification, left, right => ¬ left.Unify right
  | .arithmetic comparison, left, right => comparison ≠ .equal → Value.Related comparison left right

namespace Ledger

variable {ledger later : Ledger}

inductive Stays (later earlier : Ledger) : Prop where
  | allocates (grown : later.Allocates earlier) : Stays later earlier
  | marks (wellFormed : later.WellFormed) (grown : later.Extends earlier)
      (terms : later.terms = earlier.terms) (bindings : later.bindings = earlier.bindings) :
      Stays later earlier

theorem Stays.wellFormed (stays : later.Stays ledger) : later.WellFormed := by
  cases stays with
  | allocates grown => exact grown.wellFormed
  | marks wellFormed => exact wellFormed

theorem Stays.extends (stays : later.Stays ledger) : later.Extends ledger := by
  cases stays with
  | allocates grown => exact grown.extends
  | marks _ grown => exact grown

theorem Stays.bindings (stays : later.Stays ledger) : later.bindings = ledger.bindings := by
  cases stays with
  | allocates grown => exact grown.bindings
  | marks _ _ _ bindings => exact bindings

theorem settleAll_stays (wellFormed : ledger.WellFormed) {ids : List ConstraintId}
    (posted : ledger.Posted ids) : (ledger.settleAll ids).Stays ledger :=
  have advances := settleAll_advances wellFormed posted
  .marks advances.wellFormed advances.grown (ledger.settleAll_terms ids)
    (ledger.settleAll_bindings ids)

theorem Stays.acyclic (stays : later.Stays ledger) (acyclic : ledger.Acyclic)
    (wellFormed : ledger.WellFormed) : later.Acyclic := by
  cases stays with
  | allocates grown => exact acyclic.allocates wellFormed grown
  | marks _ _ terms bindings =>
    obtain ⟨ρ, models⟩ := acyclic
    exact ⟨ρ, models.marks terms bindings⟩

theorem Stays.value (stays : later.Stays ledger) (acyclic : ledger.Acyclic)
    (wellFormed : ledger.WellFormed) {id : TermId} (live : ledger.Live id) :
    later.value id = ledger.value id :=
  acyclic.value_same (stays.acyclic acyclic wellFormed) stays.extends stays.bindings wellFormed
    stays.wellFormed live

theorem Simplified.values {left right first second : TermId}
    (simplified : ledger.Simplified left right first second later) (acyclic : ledger.Acyclic)
    (wellFormed : ledger.WellFormed) (leftLive : ledger.Live left) (rightLive : ledger.Live right) :
    later.value first = (ledger.value left).simplify ∧
      later.value second = (ledger.value right).simplify := by
  obtain ⟨middle, ⟨leftRun, leftGrown, firstLive⟩, ⟨rightRun, rightGrown, -⟩⟩ := simplified
  have between := acyclic.allocates wellFormed leftGrown
  rw [between.value_allocates leftGrown.wellFormed rightGrown firstLive,
    acyclic.simplify wellFormed leftLive leftRun,
    between.simplify leftGrown.wellFormed (leftGrown.live rightLive) rightRun,
    acyclic.value_allocates wellFormed leftGrown rightLive]
  exact ⟨rfl, rfl⟩

/-- A simplified expression has the value of the expression, or as little a value. -/
theorem Acyclic.folded {id : TermId} {evaluation : Evaluation} (acyclic : ledger.Acyclic)
    (wellFormed : ledger.WellFormed) (live : ledger.Live id)
    (known : ledger.arena.evaluate id = some evaluation) :
    ∃ folded, (ledger.value id).simplify.evaluation = some folded ∧ folded.value = evaluation.value := by
  have same := (Value.simplify_same (ledger.value id)).2.2
  rw [← acyclic.evaluate wellFormed live, known, Option.map_some] at same
  exact Option.map_eq_some_iff.mp same

section

variable {posting : Posting} {verdict : Verdict} (acyclic : ledger.Acyclic)
  (wellFormed : ledger.WellFormed) (leftLive : ledger.Live posting.left)
  (rightLive : ledger.Live posting.right)

include acyclic wellFormed leftLive rightLive

theorem Evaluates.values {first second : Evaluation}
    (evaluates : ledger.Evaluates (ledger.arena.deref posting.left)
      (ledger.arena.deref posting.right) first second) :
    (ledger.value posting.left).evaluation = some first ∧
      (ledger.value posting.right).evaluation = some second := by
  rw [← acyclic.value_deref wellFormed leftLive, ← acyclic.value_deref wellFormed rightLive,
    ← acyclic.evaluate wellFormed (wellFormed.live_deref leftLive),
    ← acyclic.evaluate wellFormed (wellFormed.live_deref rightLive)]
  exact ⟨evaluates.left, evaluates.right⟩

theorem Judges.isOpen (judges : ledger.Judges posting .undecided later) :
    posting.relation.Open (ledger.value posting.left) (ledger.value posting.right) := by
  have leftEnd := wellFormed.live_deref leftLive
  have rightEnd := wellFormed.live_deref rightLive
  have leftSame := acyclic.value_deref wellFormed leftLive
  have rightSame := acyclic.value_deref wellFormed rightLive
  cases judges with
  | undecided relation solves bound =>
    rw [relation, ← leftSame, ← rightSame]
    exact ⟨solves.differ acyclic wellFormed leftEnd rightEnd bound,
      solves.unify acyclic wellFormed leftEnd rightEnd⟩
  | arithmetic relation compares =>
    rw [relation]
    cases compares with
    | undecided evaluates unknown unsided =>
      obtain ⟨leftKnown, rightKnown⟩ := evaluates.values acyclic wellFormed leftLive rightLive
      refine Value.undecided_of leftKnown rightKnown evaluates.leftValid evaluates.rightValid unknown ?_
      intro equal side target oneSided
      obtain ⟨leftNone, rightNone⟩ := unsided equal
      cases oneSided with
      | left _ known => simp [rightNone] at known
      | right known => simp [leftNone] at known
    | isolates equal evaluates oneSided isolates =>
      cases isolates with
      | undecided several =>
        obtain ⟨leftKnown, rightKnown⟩ := evaluates.values acyclic wellFormed leftLive rightLive
        refine Value.undecided_of leftKnown rightKnown evaluates.leftValid evaluates.rightValid ?_ ?_
        · cases oneSided with
          | left unknown => exact .inl unknown
          | right _ unknown => exact .inr unknown
        · intro _ side target also var single
          rw [← leftSame, ← rightSame] at also
          obtain ⟨rfl, -⟩ := oneSided.unique also
          refine several var (acyclic.single wellFormed ?_ single)
          cases oneSided with
          | left => exact leftEnd
          | right => exact rightEnd

theorem Judges.isSettled (judges : ledger.Judges posting verdict later)
    (decided : verdict = .satisfied ∨ ∃ goal, verdict = .solved goal) :
    posting.relation.Settled (ledger.value posting.left) (ledger.value posting.right) := by
  cases judges with
  | violated | undecided => simp at decided
  | satisfied relation solves =>
    rw [relation, ← acyclic.value_deref wellFormed leftLive,
      ← acyclic.value_deref wellFormed rightLive]
    exact solves.apart acyclic wellFormed (wellFormed.live_deref leftLive)
      (wellFormed.live_deref rightLive)
  | arithmetic relation compares =>
    rw [relation]
    intro unequal
    cases compares with
    | violated | undecided => simp at decided
    | isolates equal => exact absurd equal unequal
    | satisfied evaluates leftSame rightSame holds =>
      obtain ⟨leftKnown, rightKnown⟩ := evaluates.values acyclic wellFormed leftLive rightLive
      exact Value.related_of leftKnown rightKnown evaluates.leftValid evaluates.rightValid leftSame
        rightSame holds

end

end Ledger

end Resolvent
