import Resolvent.Proofs.Ledger.Undoing
import Resolvent.Proofs.Semantics.Refutation
import Resolvent.Proofs.Semantics.Solving

namespace Resolvent

namespace Arena

variable {arena : Arena} {root id : TermId}

inductive Folded (arena : Arena) : TermId → Prop where
  | leaf {id : TermId} (ends : arena.deref id = id) (none : arena.operation? id = none) :
      Folded arena id
  | operation {id left right : TermId} {operator : ArithmeticOperator} (ends : arena.deref id = id)
      (held : arena.operation? id = some (operator, left, right)) (leftFolded : Folded arena left)
      (rightFolded : Folded arena right)
      (apart : arena.number? left = none ∨ arena.number? right = none) : Folded arena id

inductive Beneath (arena : Arena) (root : TermId) : TermId → Prop where
  | root : Beneath arena root (arena.deref root)
  | operand {id left right arg : TermId} {operator : ArithmeticOperator}
      (above : Beneath arena root id) (held : arena.operation? id = some (operator, left, right))
      (member : arg ∈ [left, right]) : Beneath arena root (arena.deref arg)

/-- No operation in a term has two numbers as operands. -/
def Reduced (arena : Arena) (root : TermId) : Prop :=
  ∀ id operator left right, arena.Beneath root id →
    arena.operation? id = some (operator, left, right) →
      arena.number? (arena.deref left) = none ∨ arena.number? (arena.deref right) = none

theorem Folded.ends (folded : arena.Folded id) : arena.deref id = id := by
  cases folded <;> assumption

theorem Folded.beneath (folded : arena.Folded root) (beneath : arena.Beneath root id) :
    arena.Folded id := by
  induction beneath with
  | root => rwa [folded.ends]
  | @operand id left right arg operator above held member ih =>
    cases ih with
    | leaf _ none => cases none.symm.trans held
    | operation _ same leftFolded rightFolded =>
      cases same.symm.trans held
      have argFolded : arena.Folded arg := by
        rcases List.mem_pair.mp member with rfl | rfl <;> assumption
      rwa [argFolded.ends]

theorem Folded.reduced (folded : arena.Folded root) : arena.Reduced root := by
  intro id operator left right beneath held
  cases folded.beneath beneath with
  | leaf _ none => cases none.symm.trans held
  | operation _ same leftFolded rightFolded apart =>
    cases same.symm.trans held
    rwa [leftFolded.ends, rightFolded.ends]

/-- Folding what is folded gives back the term itself and leaves the arena as it is. -/
theorem Folded.simplifyWithin (folded : arena.Folded id) (fuel : Nat) :
    Arena.simplifyWithin fuel arena id = (id, arena) := by
  induction folded generalizing fuel with
  | leaf ends none =>
    cases fuel with
    | zero => rfl
    | succ fuel => simp only [Arena.simplifyWithin, ends, none]
  | operation ends held _ _ apart leftIh rightIh =>
    cases fuel with
    | zero => rfl
    | succ fuel =>
      simp only [Arena.simplifyWithin, ends, held, leftIh, rightIh, and_self, if_true]
      split
      · next leftNumber rightNumber => simp [leftNumber, rightNumber] at apart
      · rfl

def setNumbers (arena : Arena) (numbers : List (TermId × Rational)) : Arena :=
  numbers.foldl (fun arena entry => arena.setNumber entry.1 entry.2) arena

end Arena

namespace Ledger

variable {ledger later : Ledger} {id : TermId}

theorem Allocates.operation? (grown : later.Allocates ledger) (live : ledger.Live id) :
    later.arena.operation? id = ledger.arena.operation? id := by
  rw [Arena.operation?, Arena.operation?, grown.adds.node id ((contains_arena ledger id).mpr live)]

theorem Allocates.number? (grown : later.Allocates ledger) (live : ledger.Live id) :
    later.arena.number? id = ledger.arena.number? id := by
  rw [Arena.number?, Arena.number?, grown.adds.node id ((contains_arena ledger id).mpr live)]

theorem Allocates.folded (grown : later.Allocates ledger) (wellFormed : ledger.WellFormed)
    (live : ledger.Live id) (folded : ledger.arena.Folded id) : later.arena.Folded id := by
  induction folded with
  | leaf ends none =>
    exact .leaf (by rw [grown.deref wellFormed, ends]) (by rw [grown.operation? live, none])
  | @operation id left right operator ends held _ _ apart leftIh rightIh =>
    have args := wellFormed.live_args (operation?_args held)
    have leftLive := args left (by simp)
    have rightLive := args right (by simp)
    refine .operation (by rw [grown.deref wellFormed, ends]) (by rw [grown.operation? live, held])
      (leftIh leftLive) (rightIh rightLive) ?_
    rwa [grown.number? leftLive, grown.number? rightLive]

section

variable {result : TermId} {after : Arena} {fuel : Nat}

theorem WellFormed.folded_end (wellFormed : ledger.WellFormed)
    (none : ledger.arena.operation? (ledger.arena.deref id) = none) :
    ledger.arena.Folded (ledger.arena.deref id) :=
  .leaf (deref_of_unbound (wellFormed.binding?_deref id)) none

theorem folded_number (wellFormed : ledger.WellFormed) (value : Rational) :
    (ledger.allocate (.number value)).arena.Folded ⟨ledger.size⟩ :=
  have placed := allocate_allocates wellFormed (admits_number value)
  .leaf (deref_allocate placed.wellFormed (by simp))
    (operation?_none (shape?_allocate_size _) (by simp))

theorem folded_compound (wellFormed : ledger.WellFormed) {operator : ArithmeticOperator}
    {left right : TermId} (leftLive : ledger.Live left) (rightLive : ledger.Live right)
    (leftFolded : ledger.arena.Folded left) (rightFolded : ledger.arena.Folded right)
    (apart : ledger.arena.number? left = none ∨ ledger.arena.number? right = none) :
    (ledger.allocate (.compound (.reserved (.arithmetic operator)) [left, right])).arena.Folded
      ⟨ledger.size⟩ := by
  have operands : ∀ arg ∈ [left, right], ledger.Live arg := by simp [leftLive, rightLive]
  have placed := allocate_allocates wellFormed
    (@admits_compound _ (.reserved (.arithmetic operator)) _ operands)
  refine .operation (deref_allocate placed.wellFormed (by simp))
    (operation?_shape (shape?_allocate_size _)) (placed.folded wellFormed leftLive leftFolded)
    (placed.folded wellFormed rightLive rightFolded) ?_
  rwa [placed.number? leftLive, placed.number? rightLive]

theorem Within.folded (within : ledger.Within fuel id) (wellFormed : ledger.WellFormed)
    (live : ledger.Live id) {base : Ledger} (grown : base.Allocates ledger)
    (run : Arena.simplifyWithin fuel base.arena id = (result, after)) : after.Folded result := by
  -- Folding the first operand adds terms before the second is folded, so the base is any later one.
  induction within generalizing base result after with
  | number shape | var shape =>
    have none := operation?_none (grown.extends.shape shape) (by simp)
    rw [← grown.deref wellFormed] at none
    simp only [Arena.simplifyWithin, none] at run
    cases run
    exact grown.wellFormed.folded_end none
  | @compound fuel id symbol args shape _ ih =>
    cases held : base.arena.operation? (base.arena.deref id) with
    | none =>
      simp only [Arena.simplifyWithin, held] at run
      cases run
      exact grown.wellFormed.folded_end held
    | some operation =>
      obtain ⟨operator, left, right⟩ := operation
      have place := grown.deref wellFormed id
      have whole := operation?_args held
      rw [place] at whole
      cases whole.symm.trans (grown.extends.shape shape)
      have operands := wellFormed.live_args shape
      have leftLive := operands left (by simp)
      have rightLive := operands right (by simp)
      obtain ⟨first, middle, leftRun, leftGrown, firstLive⟩ :=
        simplifyWithin_allocates fuel grown.wellFormed (grown.live leftLive)
      have between := leftGrown.trans grown
      obtain ⟨second, last, rightRun, rightGrown, secondLive⟩ :=
        simplifyWithin_allocates fuel between.wellFormed (between.live rightLive)
      have firstFolded := rightGrown.folded between.wellFormed firstLive
        (ih left (by simp) leftLive grown leftRun)
      have secondFolded := ih right (by simp) rightLive between rightRun
      simp only [Arena.simplifyWithin, held, leftRun, rightRun] at run
      split at run
      · rw [arena_number rightGrown.wellFormed] at run
        cases run
        exact folded_number rightGrown.wellFormed _
      · next numbers =>
        have apart : last.arena.number? first = none ∨ last.arena.number? second = none := by
          cases leftNumber : last.arena.number? first with
          | none => exact .inl rfl
          | some value =>
            refine .inr (Option.eq_none_iff_forall_ne_some.mpr fun other rightNumber => ?_)
            exact numbers value other leftNumber rightNumber
        split at run
        · next unchanged =>
          obtain ⟨rfl, rfl⟩ := unchanged
          cases run
          have onward := rightGrown.trans between
          rw [place]
          exact .operation
            (by rw [onward.deref wellFormed, deref_of_unbound (wellFormed.binding?_deref id)])
            (operation?_shape (onward.extends.shape shape)) firstFolded secondFolded apart
        · have onward := rightGrown.live firstLive
          rw [arena_operator rightGrown.wellFormed (by simp [onward, secondLive])] at run
          cases run
          exact folded_compound rightGrown.wellFormed onward secondLive firstFolded secondFolded apart

end

def setting (numbers : List (TermId × Rational)) (var : TermId) : Value :=
  match numbers.lookup var with
  | some number => .number number
  | none => .var var

def OpenVar (ledger : Ledger) (var : TermId) : Prop :=
  ledger.shape? var = some .var ∧ ledger.binding? var = none

theorem OpenVar.value {var : TermId} (isOpen : ledger.OpenVar var) (readable : ledger.Readable) :
    ledger.value var = .var var := by
  have ends : ledger.arena.deref var = var := by
    apply deref_of_unbound
    rw [readable.wellFormed.binding?_arena, isOpen.2]
  rw [readable.acyclic.value_var readable.wellFormed (live_of_shape isOpen.1)
    (by rw [ends]; exact isOpen.1), ends]

theorem Readable.setNumbers (readable : ledger.Readable) {numbers : List (TermId × Rational)}
    (once : (numbers.map Prod.fst).Nodup)
    (isOpen : ∀ entry ∈ numbers, ledger.OpenVar entry.1) :
    ∃ bound : Ledger, bound.arena = ledger.arena.setNumbers numbers ∧ bound.Readable ∧
      bound.Extends ledger ∧
        ∀ var, ledger.OpenVar var → bound.value var = setting numbers var := by
  induction numbers generalizing ledger with
  | nil => exact ⟨ledger, rfl, readable, .refl ledger, fun var isOpen => isOpen.value readable⟩
  | cons entry rest ih =>
    obtain ⟨first, number⟩ := entry
    rw [List.map_cons, List.nodup_cons] at once
    have ⟨isVar, unbound⟩ := isOpen _ List.mem_cons_self
    obtain ⟨middle, same, middleReadable, middleGrown, set, others⟩ :=
      readable.setNumber isVar unbound number
    have still {var : TermId} (isOpen : ledger.OpenVar var) (apart : var ≠ first) :
        middle.OpenVar var :=
      ⟨middleGrown.shape isOpen.1, (others var apart).trans isOpen.2⟩
    obtain ⟨bound, finished, onward, grown, values⟩ := ih middleReadable once.2 fun entry member =>
      still (isOpen entry (List.mem_cons_of_mem _ member)) fun again =>
        once.1 (List.mem_map.mpr ⟨entry, member, again⟩)
    refine ⟨bound, ?_, onward, grown.trans middleGrown, fun var isOpen => ?_⟩
    · rw [finished, same]
      rfl
    · by_cases here : var = first
      · rw [here, middleReadable.acyclic.value_later onward.acyclic grown middleReadable.wellFormed
          onward.wellFormed (middleGrown.live (live_of_shape isVar)), set, setting]
        simp
      · rw [values var (still isOpen here), setting, setting, List.lookup_cons,
          beq_eq_false_iff_ne.mpr here]

/-- What a term comes to once some variables are set to numbers can be told from its value. -/
theorem Readable.evaluate_setNumbers (readable : ledger.Readable) (live : ledger.Live id)
    {numbers : List (TermId × Rational)} (once : (numbers.map Prod.fst).Nodup)
    (isOpen : ∀ entry ∈ numbers, ledger.OpenVar entry.1) :
    (ledger.arena.setNumbers numbers).evaluate id =
      ((ledger.value id).subst (setting numbers)).evaluation := by
  obtain ⟨bound, same, onward, grown, set⟩ := readable.setNumbers once isOpen
  rw [← same, onward.acyclic.evaluate onward.wellFormed (grown.live live),
    readable.acyclic.value_later onward.acyclic grown readable.wellFormed onward.wellFormed live]
  refine congrArg Value.evaluation (Value.subst_congr fun var member => ?_)
  exact set var (readable.acyclic.vars_open readable.wellFormed live var member)

end Ledger

/-- Folding a term leaves what it comes to, whichever of its unassigned variables are bound to
    numbers, and its unassigned variables with their counts and their order. No operation on two
    numbers is left in it, folding it again builds nothing and gives the same term, and nothing was
    done to older terms. -/
theorem simplify_faithful {state : State} (sound : state.Sound) {id result : TermId} {after : Arena}
    (inside : state.arena.contains id = true)
    (run : state.arena.simplify id = (result, after)) :
    (∀ numbers : List (TermId × Rational), (numbers.map Prod.fst).Nodup →
      (∀ entry ∈ numbers, state.arena.contains entry.1 = true ∧
        state.arena.isUnassigned entry.1 = true) →
      ((after.setNumbers numbers).evaluate result).map Evaluation.value =
        ((state.arena.setNumbers numbers).evaluate id).map Evaluation.value) ∧
    (after.value result).vars = (state.arena.value id).vars ∧
    (∀ found, after.occurrences found result = state.arena.occurrences found id) ∧
    after.Reduced result ∧ after.simplify result = (result, after) ∧
    after.contains result = true ∧ after.Adds state.arena := by
  obtain ⟨ledger, wellFormed, acyclic, counters, rfl⟩ := sound
  simp only [Ledger.arena_state] at inside run ⊢
  have live := (Ledger.contains_arena ledger id).mp inside
  obtain ⟨same, later, ran, grown, resultLive⟩ := Ledger.simplify_allocates wellFormed live
  cases run.symm.trans ran
  have folded : later.arena.Folded result := by
    rw [Arena.simplify, Ledger.size_arena] at run
    exact (acyclic.within wellFormed live).folded wellFormed live (.refl wellFormed) run
  have laterAcyclic := acyclic.allocates wellFormed grown
  have value : later.value result = (ledger.value id).simplify := acyclic.simplify wellFormed live run
  have alike := (ledger.value id).simplify_alike
  have vars : (later.value result).vars = (ledger.value id).vars := by rw [value, alike.vars]
  refine ⟨fun numbers once unassigned => ?_, vars, fun found => ?_, folded.reduced,
    folded.simplifyWithin _, (Ledger.contains_arena later result).mpr resultLive, grown.adds⟩
  · have readable : ledger.Readable := ⟨wellFormed, acyclic⟩
    have onward : later.Readable := ⟨grown.wellFormed, laterAcyclic⟩
    have isOpen : ∀ entry ∈ numbers, ledger.OpenVar entry.1 := by
      intro entry member
      obtain ⟨inside, free⟩ := unassigned entry member
      exact Ledger.shape_of_unassigned ((Ledger.contains_arena ledger _).mp inside) free
    have stillOpen : ∀ entry ∈ numbers, later.OpenVar entry.1 := fun entry member =>
      ⟨grown.extends.shape (isOpen entry member).1,
        (grown.binding? entry.1).trans (isOpen entry member).2⟩
    rw [onward.evaluate_setNumbers resultLive once stillOpen,
      readable.evaluate_setNumbers live once isOpen, value, alike.result]
  · rw [laterAcyclic.occurrences grown.wellFormed resultLive, vars,
      acyclic.occurrences wellFormed live]

namespace Folded

def terms : List Shape :=
  [.var, .number (.valid 1), .number (.valid 0),
    .compound (.reserved (.arithmetic .divide)) [⟨1⟩, ⟨2⟩],
    .compound (.reserved (.arithmetic .add)) [⟨0⟩, ⟨3⟩],
    .compound (.reserved (.arithmetic .add)) [⟨1⟩, ⟨1⟩],
    .compound (.reserved (.arithmetic .subtract)) [⟨4⟩, ⟨5⟩], .compound (.user 0) [⟨0⟩],
    .compound (.reserved (.arithmetic .multiply)) [⟨5⟩, ⟨7⟩]]

def state : State := { arena := (Arena.build? {} terms).getD {} }

def difference : TermId × Arena := state.arena.simplify ⟨6⟩

def product : TermId × Arena := state.arena.simplify ⟨8⟩

/-- An invalid value stays a number of its own in the difference, and a compound stays a factor that
    has no value. -/
theorem folded_once : state.Sound ∧
    difference.2.number? ⟨9⟩ = some .invalid ∧ difference.2.Reduced difference.1 ∧
    ((difference.2.setNumbers [(⟨0⟩, .valid 3)]).evaluate difference.1).map Evaluation.value =
      some (some .invalid) ∧
    difference.2.simplify difference.1 = difference ∧ product.2.Reduced product.1 ∧
    ((product.2.setNumbers [(⟨0⟩, .valid 3)]).evaluate product.1).map Evaluation.value = none ∧
    product.2.occurrences [] product.1 = [(⟨0⟩, 1)] ∧ product.2.simplify product.1 = product := by
  have sound : state.Sound := @sound_of_build terms _ {} (by decide +kernel)
  have unassigned : ∀ entry ∈ [((⟨0⟩ : TermId), Rational.valid 3)],
      state.arena.contains entry.1 = true ∧ state.arena.isUnassigned entry.1 = true := by
    decide +kernel
  have first : state.arena.simplify ⟨6⟩ = (difference.1, difference.2) := rfl
  have second : state.arena.simplify ⟨8⟩ = (product.1, product.2) := rfl
  obtain ⟨invalid, -, -, reduced, again, -⟩ := simplify_faithful sound (by decide +kernel) first
  obtain ⟨none, -, once, reducedToo, againToo, -⟩ := simplify_faithful sound (by decide +kernel) second
  refine ⟨sound, by decide +kernel, reduced, ?_, again, reducedToo, ?_, ?_, againToo⟩
  · rw [invalid _ (by decide) unassigned]
    decide +kernel
  · rw [none _ (by decide) unassigned]
    decide +kernel
  · rw [once]
    decide +kernel

end Folded

end Resolvent
