import Resolvent.Term.Arithmetic
import Resolvent.Term.Renaming
import Resolvent.Proofs.Ledger.Lookup

namespace Resolvent

namespace Ledger

variable {ledger : Ledger}

def Allocates (later earlier : Ledger) : Prop :=
  later.WellFormed ∧ ∃ shapes, later = { earlier with terms := earlier.terms ++ shapes }

theorem Allocates.refl (wellFormed : ledger.WellFormed) : ledger.Allocates ledger :=
  ⟨wellFormed, [], by simp⟩

theorem Allocates.trans {last middle first : Ledger} (later : last.Allocates middle)
    (earlier : middle.Allocates first) : last.Allocates first := by
  obtain ⟨wellFormed, shapes, rfl⟩ := later
  obtain ⟨-, others, rfl⟩ := earlier
  exact ⟨wellFormed, others ++ shapes, by simp⟩

theorem Allocates.wellFormed {later earlier : Ledger} (grown : later.Allocates earlier) :
    later.WellFormed := grown.1

theorem Allocates.extends {later earlier : Ledger} (grown : later.Allocates earlier) :
    later.Extends earlier := by
  obtain ⟨-, shapes, rfl⟩ := grown
  constructor <;> simp

theorem Allocates.live {later earlier : Ledger} (grown : later.Allocates earlier) {id : TermId}
    (live : earlier.Live id) : later.Live id := grown.extends.live live

theorem Allocates.state {later earlier : Ledger} (grown : later.Allocates earlier)
    (counters : Counters) :
    { earlier.state counters with arena := later.arena } = later.state counters := by
  obtain ⟨-, shapes, rfl⟩ := grown
  rfl

theorem Allocates.bindings {later earlier : Ledger} (grown : later.Allocates earlier) :
    later.bindings = earlier.bindings := by
  obtain ⟨-, shapes, rfl⟩ := grown
  rfl

theorem Allocates.postings {later earlier : Ledger} (grown : later.Allocates earlier) :
    later.postings = earlier.postings := by
  obtain ⟨-, shapes, rfl⟩ := grown
  rfl

theorem Allocates.discards {later earlier : Ledger} (grown : later.Allocates earlier) :
    later.discards = earlier.discards := by
  obtain ⟨-, shapes, rfl⟩ := grown
  rfl

theorem Allocates.binding? {later earlier : Ledger} (grown : later.Allocates earlier)
    (id : TermId) : later.binding? id = earlier.binding? id := by
  obtain ⟨-, shapes, rfl⟩ := grown
  rfl

theorem Allocates.deref {later earlier : Ledger} (grown : later.Allocates earlier)
    (wellFormed : earlier.WellFormed) (id : TermId) :
    later.arena.deref id = earlier.arena.deref id := by
  rw [← grown.extends.deref wellFormed grown.wellFormed]
  apply deref_of_unbound
  rw [grown.wellFormed.binding?_arena, grown.binding?, ← wellFormed.binding?_arena]
  exact wellFormed.binding?_deref id

theorem allocate_allocates (wellFormed : ledger.WellFormed) {shape : Shape}
    (admits : ledger.Admits shape) : (ledger.allocate shape).Allocates ledger :=
  ⟨wellFormed.allocate admits, [shape], rfl⟩

theorem live_allocate (ledger : Ledger) (shape : Shape) :
    (ledger.allocate shape).Live ⟨ledger.size⟩ := by
  simp [Live, allocate, size]

theorem admits_number (value : Rational) : ledger.Admits (.number value) := by
  intro symbol args same
  cases same

theorem admits_var : ledger.Admits .var := by
  intro symbol args same
  cases same

theorem admits_compound {symbol : Symbol} {args : List TermId}
    (live : ∀ arg ∈ args, ledger.Live arg) : ledger.Admits (.compound symbol args) := by
  rintro symbol args ⟨⟩
  exact live

theorem arena_number (wellFormed : ledger.WellFormed) (value : Rational) :
    ledger.arena.number value = (⟨ledger.size⟩, (ledger.allocate (.number value)).arena) :=
  arena_place wellFormed.toConsistent (admits_number value)

theorem arena_fresh (wellFormed : ledger.WellFormed) :
    ledger.arena.fresh = (⟨ledger.size⟩, (ledger.allocate .var).arena) :=
  arena_place wellFormed.toConsistent admits_var

theorem arena_compound (wellFormed : ledger.WellFormed) {args : List TermId}
    (live : ∀ arg ∈ args, ledger.Live arg) (symbol : Symbol) :
    ledger.arena.compound symbol args =
      (⟨ledger.size⟩, (ledger.allocate (.compound symbol args)).arena) :=
  arena_place wellFormed.toConsistent (admits_compound live)

theorem arena_operator (wellFormed : ledger.WellFormed) {args : List TermId}
    (live : ∀ arg ∈ args, ledger.Live arg) (operator : Operator) :
    ledger.arena.operator operator args =
      (⟨ledger.size⟩, (ledger.allocate (.compound (.reserved operator) args)).arena) :=
  arena_compound wellFormed live _

theorem operation?_args {id left right : TermId} {operator : ArithmeticOperator}
    (held : ledger.arena.operation? id = some (operator, left, right)) :
    ledger.shape? id = some (.compound (.reserved (.arithmetic operator)) [left, right]) := by
  unfold Arena.operation? at held
  split at held
  · next operator' left' right' active node =>
    cases held
    exact (shape_of_compound node).1
  · cases held

theorem simplifyWithin_allocates (fuel : Nat) (wellFormed : ledger.WellFormed) {id : TermId}
    (live : ledger.Live id) :
    ∃ result, ∃ later : Ledger, Arena.simplifyWithin fuel ledger.arena id = (result, later.arena) ∧
      later.Allocates ledger ∧ later.Live result := by
  induction fuel generalizing ledger id with
  | zero => exact ⟨id, ledger, rfl, .refl wellFormed, live⟩
  | succ fuel ih =>
    have target := wellFormed.live_deref live
    rw [Arena.simplifyWithin]
    cases held : ledger.arena.operation? (ledger.arena.deref id) with
    | none => exact ⟨_, ledger, rfl, .refl wellFormed, target⟩
    | some operation =>
      obtain ⟨operator, left, right⟩ := operation
      have args := wellFormed.live_args (operation?_args held)
      obtain ⟨first, middle, leftRun, leftGrown, firstLive⟩ := ih wellFormed (args left (by simp))
      obtain ⟨second, last, rightRun, rightGrown, secondLive⟩ :=
        ih leftGrown.wellFormed (leftGrown.live (args right (by simp)))
      have grown := rightGrown.trans leftGrown
      simp only [leftRun, rightRun]
      split
      · next firstValue secondValue _ _ =>
        refine ⟨_, _, arena_number grown.wellFormed _, ?_, live_allocate _ _⟩
        exact (allocate_allocates grown.wellFormed (admits_number _)).trans grown
      · split
        · exact ⟨_, last, rfl, grown, grown.live target⟩
        · have operands : ∀ arg ∈ [first, second], last.Live arg := by
            simp only [List.mem_cons, List.not_mem_nil, or_false]
            rintro arg (rfl | rfl)
            · exact rightGrown.live firstLive
            · exact secondLive
          refine ⟨_, _, arena_operator grown.wellFormed operands _, ?_, live_allocate _ _⟩
          exact (allocate_allocates grown.wellFormed (admits_compound operands)).trans grown

theorem simplify_allocates (wellFormed : ledger.WellFormed) {id : TermId} (live : ledger.Live id) :
    ∃ result, ∃ later : Ledger, ledger.arena.simplify id = (result, later.arena) ∧
      later.Allocates ledger ∧ later.Live result :=
  simplifyWithin_allocates _ wellFormed live

inductive Conjoins (ledger : Ledger) (base : Nat) : TermId → List TermId → Prop where
  | last {goal : TermId} (live : ledger.Live goal) : Conjoins ledger base goal [goal]
  | cons {goal first rest : TermId} {goals : List TermId} (fresh : base ≤ goal.index)
      (shape : ledger.shape? goal = some (.compound (.reserved .conjunction) [first, rest]))
      (others : Conjoins ledger base rest goals) : Conjoins ledger base goal (first :: goals)

theorem Conjoins.later {later : Ledger} (grown : later.Extends ledger) {base : Nat} {goal : TermId}
    {goals : List TermId} (conjoins : ledger.Conjoins base goal goals) :
    later.Conjoins base goal goals := by
  induction conjoins with
  | last live => exact .last (grown.live live)
  | cons fresh shape _ ih => exact .cons fresh (grown.shape shape) ih

theorem Conjoins.live {base : Nat} {goal : TermId} {goals : List TermId}
    (conjoins : ledger.Conjoins base goal goals) : ledger.Live goal := by
  cases conjoins with
  | last live => exact live
  | cons _ shape => exact live_of_shape shape

theorem conjunctionOnto_allocates (wellFormed : ledger.WellFormed) {last : TermId}
    {goals : List TermId} (liveLast : ledger.Live last) (live : ∀ goal ∈ goals, ledger.Live goal) :
    ∃ result, ∃ later : Ledger, ledger.arena.conjunctionOnto last goals = (result, later.arena) ∧
      later.Allocates ledger ∧ later.Conjoins ledger.size result (goals ++ [last]) := by
  induction goals with
  | nil => exact ⟨last, ledger, rfl, .refl wellFormed, .last liveLast⟩
  | cons goal goals ih =>
    obtain ⟨rest, later, run, grown, conjoins⟩ := ih fun other member => live other (by simp [member])
    have operands : ∀ arg ∈ [goal, rest], later.Live arg := by
      simp only [List.mem_cons, List.not_mem_nil, or_false]
      rintro arg (rfl | rfl)
      · exact grown.live (live arg (by simp))
      · exact conjoins.live
    have placed := allocate_allocates grown.wellFormed
      (@admits_compound _ (.reserved .conjunction) _ operands)
    rw [Arena.conjunctionOnto, run]
    refine ⟨_, _, arena_operator grown.wellFormed operands _, placed.trans grown, ?_⟩
    exact .cons grown.extends.size_le (shape?_allocate_size _) (conjoins.later placed.extends)

def LivePair (ledger : Ledger) (pair : TermId × TermId) : Prop :=
  ledger.Live pair.1 ∧ ledger.Live pair.2

theorem Live.pair {left right : TermId} (leftLive : ledger.Live left) (rightLive : ledger.Live right) :
    ∀ pair ∈ [(left, right)], ledger.LivePair pair :=
  List.forall_mem_singleton.mpr ⟨leftLive, rightLive⟩

theorem livePair_zip {lefts rights : List TermId} (left : ∀ id ∈ lefts, ledger.Live id)
    (right : ∀ id ∈ rights, ledger.Live id) : ∀ pair ∈ lefts.zip rights, ledger.LivePair pair :=
  fun pair member =>
    ⟨left pair.1 (List.of_mem_zip member).1, right pair.2 (List.of_mem_zip member).2⟩

theorem Consistent.live_zip (consistent : ledger.Consistent) {left right : TermId}
    {first second : Symbol} {lefts rights : List TermId}
    (leftShape : ledger.shape? left = some (.compound first lefts))
    (rightShape : ledger.shape? right = some (.compound second rights)) :
    ∀ pair ∈ lefts.zip rights, ledger.LivePair pair :=
  livePair_zip (consistent.live_args leftShape) (consistent.live_args rightShape)

end Ledger

end Resolvent
