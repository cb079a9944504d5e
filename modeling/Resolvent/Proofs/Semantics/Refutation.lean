import Resolvent.Proofs.Semantics.Rechecking
import Resolvent.Proofs.Semantics.Residue

namespace Resolvent

namespace Value

variable {left right value other : Value} {change : TermId → Value} {comparison : Comparison}

inductive Refuted (comparison : Comparison) (left right : Value) : Prop where
  | unevaluated {side : Value} (among : side = left ∨ side = right) (none : side.evaluation = none) :
      Refuted comparison left right
  | invalid {side : Value} (among : side = left ∨ side = right) (ground : side.isGround = true)
      (invalid : side.total.isValid = false) : Refuted comparison left right
  | otherwise (leftGround : left.isGround = true) (rightGround : right.isGround = true)
      (holds : comparison.holds left.total right.total = .ok false) : Refuted comparison left right

theorem subst_ground (ground : value.isGround = true) : value.subst change = value := by
  rw [isGround_iff] at ground
  exact (subst_congr (by simp [ground])).trans (subst_self value)

theorem evaluation_subst_none (unknown : value.evaluation = none) :
    (value.subst change).evaluation = none := by
  induction value using expression_cases with
  | number value => simp at unknown
  | var id => simp at unknown
  | operation operator left right leftIh rightIh =>
    rw [evaluation_operation] at unknown
    rw [subst_compound, List.map_cons, List.map_cons, List.map_nil, evaluation_operation]
    cases leftKnown : left.evaluation with
    | none => rw [leftIh leftKnown, Option.bind_none]
    | some first =>
      cases rightKnown : right.evaluation with
      | none =>
        rw [rightIh rightKnown]
        cases (left.subst change).evaluation <;> rfl
      | some second => simp [leftKnown, rightKnown] at unknown
  | other symbol args other =>
    rw [subst_compound, evaluation_other (opaque_map _ other)]

theorem Refuted.subst (refuted : Refuted comparison left right) :
    Refuted comparison (left.subst change) (right.subst change) := by
  cases refuted with
  | @unevaluated side among none =>
    exact .unevaluated (among.imp (congrArg (Value.subst change)) (congrArg (Value.subst change)))
      (evaluation_subst_none none)
  | @invalid side among ground invalid =>
    have same : side.subst change = side := subst_ground ground
    exact .invalid (among.imp (congrArg (Value.subst change)) (congrArg (Value.subst change)))
      (same.symm ▸ ground) (same.symm ▸ invalid)
  | otherwise leftGround rightGround holds =>
    rw [subst_ground leftGround, subst_ground rightGround]
    exact .otherwise leftGround rightGround holds

theorem evaluation_of_valid (valid : value.total.isValid = true) : value.evaluation ≠ none := by
  intro none
  simp [total, none, Rational.isValid] at valid

theorem Undecided.unrefuted (undecided : Undecided comparison left right) :
    ¬ Refuted comparison left right := by
  rintro (⟨rfl | rfl, none⟩ | ⟨rfl | rfl, ground, invalid⟩ | ⟨leftGround, rightGround, -⟩)
  · simpa [none] using undecided.leftKnown
  · simpa [none] using undecided.rightKnown
  · simp [undecided.leftValid ground] at invalid
  · simp [undecided.rightValid ground] at invalid
  · exact undecided.unknown ⟨leftGround, rightGround⟩

theorem Related.unrefuted (related : Related comparison left right) :
    ¬ Refuted comparison left right := by
  rintro (⟨rfl | rfl, none⟩ | ⟨rfl | rfl, -, invalid⟩ | ⟨-, -, holds⟩)
  · exact evaluation_of_valid related.leftValid none
  · exact evaluation_of_valid related.rightValid none
  · simp [related.leftValid] at invalid
  · simp [related.rightValid] at invalid
  · cases related.holds.symm.trans holds

structure Alike (value other : Value) : Prop where
  vars : value.vars = other.vars
  result : ∀ change, (value.subst change).evaluation.map Evaluation.value =
    (other.subst change).evaluation.map Evaluation.value

namespace Alike

theorem refl (value : Value) : value.Alike value := ⟨rfl, fun _ => rfl⟩

theorem symm (alike : value.Alike other) : other.Alike value :=
  ⟨alike.vars.symm, fun change => (alike.result change).symm⟩

theorem subst (alike : value.Alike other) : (value.subst change).Alike (other.subst change) where
  vars := by rw [vars_subst, vars_subst, alike.vars]
  result later := by
    rw [subst_subst, subst_subst]
    exact alike.result _

theorem isGround (alike : value.Alike other) : value.isGround = true ↔ other.isGround = true := by
  rw [isGround_iff, isGround_iff, alike.vars]

theorem evaluation (alike : value.Alike other) :
    value.evaluation.map Evaluation.value = other.evaluation.map Evaluation.value := by
  simpa only [subst_self] using alike.result .var

theorem unevaluated (alike : value.Alike other) : value.evaluation = none ↔ other.evaluation = none := by
  have same := alike.evaluation
  cases known : value.evaluation <;> cases otherKnown : other.evaluation <;>
    simp [known, otherKnown] at same ⊢

theorem total (alike : value.Alike other) : value.total = other.total := by
  have same := alike.evaluation
  rw [Value.total, Value.total]
  rcases known : value.evaluation with _ | ⟨_ | _, _⟩ <;>
    rcases otherKnown : other.evaluation with _ | ⟨_ | _, _⟩ <;>
    simp_all

end Alike

theorem simplify_alike (value : Value) : value.simplify.Alike value where
  vars := (simplify_same value).2.1
  result change := by
    induction value using expression_cases with
    | number | var => rfl
    | other symbol args other => rw [simplify_other other]
    | operation operator left right leftIh rightIh =>
      have operation (first second : Value) :
          (Value.compound (.reserved (.arithmetic operator)) [first, second]).subst change =
            .compound (.reserved (.arithmetic operator)) [first.subst change, second.subst change] := by
        simp
      rw [simplify_operation]
      split
      · next first second leftNumber rightNumber =>
        rw [leftNumber] at leftIh
        rw [rightNumber] at rightIh
        rw [operation, evaluation_value, ← leftIh, ← rightIh]
        simp
      · rw [operation, operation, evaluation_value, evaluation_value, leftIh, rightIh]

variable {first second : Value}

theorem Refuted.alike (refuted : Refuted comparison left right) (leftAlike : left.Alike first)
    (rightAlike : right.Alike second) : Refuted comparison first second := by
  cases refuted with
  | unevaluated among none =>
    rcases among with rfl | rfl
    · exact .unevaluated (.inl rfl) (leftAlike.unevaluated.mp none)
    · exact .unevaluated (.inr rfl) (rightAlike.unevaluated.mp none)
  | invalid among ground invalid =>
    rcases among with rfl | rfl
    · exact .invalid (.inl rfl) (leftAlike.isGround.mp ground) (leftAlike.total ▸ invalid)
    · exact .invalid (.inr rfl) (rightAlike.isGround.mp ground) (rightAlike.total ▸ invalid)
  | otherwise leftGround rightGround holds =>
    rw [leftAlike.total, rightAlike.total] at holds
    exact .otherwise (leftAlike.isGround.mp leftGround) (rightAlike.isGround.mp rightGround) holds

theorem Related.alike (related : Related comparison left right) (leftAlike : left.Alike first)
    (rightAlike : right.Alike second) : Related comparison first second where
  leftGround := leftAlike.isGround.mp related.leftGround
  rightGround := rightAlike.isGround.mp related.rightGround
  leftValid := leftAlike.total ▸ related.leftValid
  rightValid := rightAlike.total ▸ related.rightValid
  holds := by
    rw [← leftAlike.total, ← rightAlike.total]
    exact related.holds

end Value

namespace Relation

variable {relation : Relation} {left right first second : Value} {change : TermId → Value}

def Refuted : Relation → Value → Value → Prop
  | .disunification, left, right => left = right
  | .arithmetic comparison, left, right => Value.Refuted comparison left right

def Holds : Relation → Value → Value → Prop
  | .disunification, left, right => left ≠ right
  | .arithmetic comparison, left, right => Value.Related comparison left right

def Alike : Relation → Value × Value → Value × Value → Prop
  | .disunification, sides, others => ∀ values,
    sides.1.ground values = sides.2.ground values ↔ others.1.ground values = others.2.ground values
  | .arithmetic _, sides, others => sides.1.Alike others.1 ∧ sides.2.Alike others.2

theorem Refuted.subst (refuted : relation.Refuted left right) :
    relation.Refuted (left.subst change) (right.subst change) := by
  cases relation with
  | disunification => exact congrArg (Value.subst change) refuted
  | arithmetic comparison => exact Value.Refuted.subst refuted

theorem Open.undecided (other : relation ≠ .arithmetic .equal) (isOpen : relation.Open left right) :
    ¬ relation.Refuted left right ∧ ¬ relation.Settled left right := by
  cases relation with
  | disunification => exact ⟨isOpen.1, fun settled => settled isOpen.2⟩
  | arithmetic comparison =>
    have undecided : Value.Undecided comparison left right := isOpen
    refine ⟨undecided.unrefuted, fun settled => ?_⟩
    have related := settled (by rintro rfl; exact other rfl)
    exact undecided.unknown ⟨related.leftGround, related.rightGround⟩

theorem Settled.unrefuted (other : relation ≠ .arithmetic .equal)
    (settled : relation.Settled left right) : ¬ relation.Refuted left right := by
  cases relation with
  | disunification => exact fun same => settled ⟨fun _ => .number default, congrArg _ same⟩
  | arithmetic comparison => exact (settled (by rintro rfl; exact other rfl)).unrefuted

namespace Alike

theorem refl (relation : Relation) (sides : Value × Value) : relation.Alike sides sides := by
  cases relation with
  | disunification => exact fun _ => Iff.rfl
  | arithmetic comparison => exact ⟨.refl _, .refl _⟩

theorem symm {sides others : Value × Value} (alike : relation.Alike sides others) :
    relation.Alike others sides := by
  cases relation with
  | disunification => exact fun values => (alike values).symm
  | arithmetic comparison => exact ⟨alike.1.symm, alike.2.symm⟩

theorem subst (alike : relation.Alike (left, right) (first, second)) (change : TermId → Value) :
    relation.Alike (left.subst change, right.subst change)
      (first.subst change, second.subst change) := by
  cases relation with
  | disunification =>
    intro values
    simp only [Value.ground_subst]
    exact alike _
  | arithmetic comparison => exact ⟨Value.Alike.subst alike.1, Value.Alike.subst alike.2⟩

theorem equal (alike : Alike .disunification (left, right) (first, second)) :
    left = right ↔ first = second := by
  constructor
  · rintro rfl
    exact Value.eq_of_ground fun values => (alike values).mp rfl
  · rintro rfl
    exact Value.eq_of_ground fun values => (alike values).mpr rfl

theorem refuted (alike : relation.Alike (left, right) (first, second))
    (refuted : relation.Refuted left right) : relation.Refuted first second := by
  cases relation with
  | disunification => exact alike.equal.mp refuted
  | arithmetic comparison => exact Value.Refuted.alike refuted alike.1 alike.2

theorem settled (alike : relation.Alike (left, right) (first, second))
    (settled : relation.Settled left right) : relation.Settled first second := by
  cases relation with
  | disunification => exact fun ⟨values, same⟩ => settled ⟨values, (alike values).mpr same⟩
  | arithmetic comparison => exact fun other => (settled other).alike alike.1 alike.2

theorem holds (alike : relation.Alike (left, right) (first, second)) :
    relation.Holds left right ↔ relation.Holds first second := by
  cases relation with
  | disunification => exact not_congr alike.equal
  | arithmetic comparison =>
    exact ⟨fun related => related.alike alike.1 alike.2,
      fun related => related.alike alike.1.symm alike.2.symm⟩

end Alike

end Relation

namespace Ledger

variable {ledger later : Ledger}

section

variable {left right : TermId} {comparison : Comparison} (acyclic : ledger.Acyclic)
  (wellFormed : ledger.WellFormed) (leftLive : ledger.Live left) (rightLive : ledger.Live right)

include acyclic wellFormed leftLive rightLive

theorem Unmet.refuted (unmet : ledger.Unmet comparison left right) :
    Value.Refuted comparison (ledger.value left) (ledger.value right) := by
  cases unmet with
  | @unevaluated side among none =>
    have live : ledger.Live side := by rcases among with rfl | rfl <;> assumption
    rw [acyclic.evaluate wellFormed live] at none
    exact .unevaluated (among.imp (congrArg _) (congrArg _)) none
  | @invalid side evaluation among known invalid =>
    have live : ledger.Live side := by rcases among with rfl | rfl <;> assumption
    rw [acyclic.evaluate wellFormed live] at known
    rw [Evaluation.isInvalid] at invalid
    cases total : evaluation.value with
    | none => simp [total] at invalid
    | some total =>
      refine .invalid (among.imp (congrArg _) (congrArg _))
        ((Value.ground_of_evaluation known).mpr (by simp [total])) ?_
      rw [Value.total_of_evaluation known ‹_›]
      simpa [‹evaluation.value = _›] using invalid
  | otherwise evaluates leftKnown rightKnown holds =>
    have first := evaluates.left
    have second := evaluates.right
    rw [acyclic.evaluate wellFormed leftLive] at first
    rw [acyclic.evaluate wellFormed rightLive] at second
    refine .otherwise ((Value.ground_of_evaluation first).mpr (by simp [leftKnown]))
      ((Value.ground_of_evaluation second).mpr (by simp [rightKnown])) ?_
    rw [Value.total_of_evaluation first leftKnown, Value.total_of_evaluation second rightKnown]
    exact holds

end

theorem Judges.isRefuted {posting : Posting} (judges : ledger.Judges posting .violated later)
    (acyclic : ledger.Acyclic) (wellFormed : ledger.WellFormed) (leftLive : ledger.Live posting.left)
    (rightLive : ledger.Live posting.right) (other : posting.relation ≠ .arithmetic .equal) :
    posting.relation.Refuted (ledger.value posting.left) (ledger.value posting.right) := by
  have leftEnd := wellFormed.live_deref leftLive
  have rightEnd := wellFormed.live_deref rightLive
  rw [← acyclic.value_deref wellFormed leftLive, ← acyclic.value_deref wellFormed rightLive]
  cases judges with
  | violated relation solves =>
    rw [relation]
    exact solves.values_eq acyclic wellFormed leftEnd rightEnd
  | arithmetic relation compares =>
    rw [relation]
    cases compares with
    | violated unmet => exact unmet.refuted acyclic wellFormed leftEnd rightEnd
    | isolates equal =>
      rw [equal] at relation
      exact absurd relation other

/-- Unless it is an equation, deciding a posting again builds nothing and leaves no goal. -/
theorem Judges.still {posting : Posting} {verdict : Verdict} (judges : ledger.Judges posting verdict later)
    (other : posting.relation ≠ .arithmetic .equal) :
    later = ledger ∧ ∀ goal, verdict ≠ .solved goal := by
  cases judges with
  | satisfied | violated | undecided => exact ⟨rfl, by simp⟩
  | arithmetic relation compares =>
    cases compares with
    | violated | satisfied | undecided => exact ⟨rfl, by simp⟩
    | isolates equal =>
      rw [equal] at relation
      exact absurd relation other

/-- Where no equations were posted, deciding postings again builds nothing and leaves no goal, and it
    stops only at a posting that is violated. -/
theorem Rechecks.refuted {ids : List ConstraintId} {review last : Review}
    (rechecks : Rechecks ids review last) (acyclic : review.ledger.Acyclic)
    (wellFormed : review.ledger.WellFormed)
    (others : ∀ posting ∈ review.ledger.postings, posting.relation ≠ .arithmetic .equal) :
    last.ledger = review.ledger ∧ last.goals = review.goals ∧
      (last.violated = true → review.violated = true ∨ ∃ posting ∈ review.ledger.postings,
        posting.relation.Refuted (review.ledger.value posting.left)
          (review.ledger.value posting.right)) := by
  induction rechecks with
  | done => exact ⟨rfl, rfl, .inl⟩
  | violated posted judges =>
    have listed := List.mem_of_getElem? posted
    obtain ⟨rfl, -⟩ := judges.still (others _ listed)
    exact ⟨rfl, rfl, fun _ => .inr ⟨_, listed, judges.isRefuted acyclic wellFormed
      (wellFormed.posting_left _ listed) (wellFormed.posting_right _ listed) (others _ listed)⟩⟩
  | solved posted judges =>
    exact absurd rfl ((judges.still (others _ (List.mem_of_getElem? posted))).2 _)
  | satisfied posted judges _ ih | undecided posted judges _ ih =>
    obtain ⟨rfl, -⟩ := judges.still (others _ (List.mem_of_getElem? posted))
    exact ih acyclic wellFormed others

inductive Tests (ledger : Ledger) (relation : Relation) (left right : TermId) :
    Reply → Ledger → Prop where
  | fails {later : Ledger} (refuted : relation.Refuted (ledger.value left) (ledger.value right)) :
      Tests ledger relation left right .fails later
  | holds {later : Ledger} (grown : later.Allocates ledger)
      (settled : relation.Settled (ledger.value left) (ledger.value right)) :
      Tests ledger relation left right .answers later
  | posts {built : Ledger} {first second : TermId} (grown : built.Allocates ledger)
      (live : built.LivePair (first, second))
      (alike : relation.Alike (built.value first, built.value second)
        (ledger.value left, ledger.value right)) :
      Tests ledger relation left right .answers (built.post (built.posting relation first second))

section

variable {left right : TermId} {reply : Reply} (acyclic : ledger.Acyclic)
  (wellFormed : ledger.WellFormed) (leftLive : ledger.Live left) (rightLive : ledger.Live right)

include acyclic wellFormed leftLive rightLive

theorem Differs.tests (differs : ledger.Differs left right reply later) :
    ledger.Tests .disunification left right reply later := by
  have leftEnd := wellFormed.live_deref leftLive
  have rightEnd := wellFormed.live_deref rightLive
  have leftSame := acyclic.value_deref wellFormed leftLive
  have rightSame := acyclic.value_deref wellFormed rightLive
  cases differs with
  | apart solves =>
    have apart := solves.apart acyclic wellFormed leftEnd rightEnd
    rw [leftSame, rightSame] at apart
    exact .holds (.refl wellFormed) apart
  | equal solves =>
    have equal := solves.values_eq acyclic wellFormed leftEnd rightEnd
    rw [leftSame, rightSame] at equal
    exact .fails equal
  | @posts after stripped kept first second solves strips grown sides firstLive secondLive =>
    refine .posts grown ⟨firstLive, secondLive⟩ ?_
    rw [← leftSame, ← rightSame]
    cases kept with
    | none =>
      cases sides
      rw [acyclic.value_allocates wellFormed grown leftEnd,
        acyclic.value_allocates wellFormed grown rightEnd]
      exact .refl _ _
    | some pair =>
      obtain rfl : pair = (first, second) := sides
      intro values
      have unify := solves.unify acyclic wellFormed leftEnd rightEnd
      simpa using strips.ground_iff acyclic wellFormed leftEnd rightEnd unify values

theorem Computes.tests {builtin : Builtin} {comparison : Comparison}
    (computes : ledger.Computes left right builtin comparison reply later)
    (other : builtin ≠ .equality) : ledger.Tests (.arithmetic comparison) left right reply later := by
  cases computes with
  | fails _ unmet =>
    exact .fails ((unmet.resolve_left other).refuted acyclic wellFormed leftLive rightLive)
  | decides evaluates leftKnown rightKnown holds grown =>
    have first := evaluates.left
    have second := evaluates.right
    rw [acyclic.evaluate wellFormed leftLive] at first
    rw [acyclic.evaluate wellFormed rightLive] at second
    exact .holds grown fun _ => Value.related_of first second evaluates.leftValid evaluates.rightValid
      leftKnown rightKnown holds
  | posts _ _ simplified =>
    obtain ⟨leftSame, rightSame⟩ := simplified.values acyclic wellFormed leftLive rightLive
    refine .posts simplified.grown simplified.live ⟨?_, ?_⟩
    · rw [leftSame]
      exact Value.simplify_alike _
    · rw [rightSame]
      exact Value.simplify_alike _
  | solves equality => exact absurd equality other

end

end Ledger

end Resolvent
