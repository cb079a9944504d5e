import Resolvent.Proofs.Semantics.Equations

namespace Resolvent

def Arena.Balanced (arena : Arena) (left right : TermId) : Prop :=
  ∃ first second, (arena.evaluate left).bind Evaluation.value = some first ∧
    (arena.evaluate right).bind Evaluation.value = some second ∧
      (first = second ∨ first.isValid = false ∨ second.isValid = false)

/-- The sides of an equation are balanced, or it comes down to an equality that is still active. -/
def State.Meets (state : State) (left right : TermId) : Prop :=
  state.arena.Balanced left right ∨
    ∃ constraint ∈ state.constraints.active, constraint.relation = .arithmetic .equal ∧
      Value.Rests (state.arena.value left) (state.arena.value right)
        (state.arena.value constraint.left) (state.arena.value constraint.right)

def Arena.setNumber (arena : Arena) (var : TermId) (number : Rational) : Arena :=
  (arena.number number).2.bind var (arena.number number).1

namespace Value

variable {values : TermId → Option Rational} {value left right : Value} {total : Rational}

theorem known_of_calculate (result : value.calculate values = some total) :
    value.evaluation.isSome = true := by
  induction value using expression_cases generalizing total with
  | number | var => simp
  | other symbol args other => simp [calculate_other other] at result
  | operation operator left right leftIh rightIh =>
    rw [calculate_operation] at result
    cases first : left.calculate values with
    | none => simp [first] at result
    | some leftTotal =>
      cases second : right.calculate values with
      | none => simp [first, second] at result
      | some rightTotal =>
        obtain ⟨leftKnown, leftSame⟩ := Option.isSome_iff_exists.mp (leftIh first)
        obtain ⟨rightKnown, rightSame⟩ := Option.isSome_iff_exists.mp (rightIh second)
        rw [evaluation_operation, leftSame, rightSame]
        rfl

theorem evaluation_of_calculate (ground : value.vars = [])
    (result : value.calculate values = some total) :
    value.evaluation.bind Evaluation.value = some total := by
  obtain ⟨evaluation, same⟩ := Option.isSome_iff_exists.mp (known_of_calculate result)
  have facts := evaluated same
  rw [same, Option.bind_some]
  cases found : evaluation.value with
  | none => exact absurd ground (facts.unknown found)
  | some other => exact ((facts.ground _ found).2 values).symm.trans result

theorem calculate_of_evaluation (known : value.evaluation.bind Evaluation.value = some total) :
    value.vars = [] ∧ ∀ values, value.calculate values = some total := by
  obtain ⟨evaluation, same, found⟩ := Option.bind_eq_some_iff.mp known
  exact (evaluated same).ground _ found

end Value

namespace Ledger

variable {ledger : Ledger} {left right id var : TermId} {target : Rational}

theorem Readable.balanced (readable : ledger.Readable) (leftLive : ledger.Live left)
    (rightLive : ledger.Live right) :
    ledger.arena.Balanced left right ↔ Value.Settles (ledger.value left) (ledger.value right) := by
  rw [Arena.Balanced, readable.acyclic.evaluate readable.wellFormed leftLive,
    readable.acyclic.evaluate readable.wellFormed rightLive]
  constructor
  · rintro ⟨first, second, leftKnown, rightKnown, same⟩
    obtain ⟨leftGround, leftTotal⟩ := Value.calculate_of_evaluation leftKnown
    obtain ⟨rightGround, rightTotal⟩ := Value.calculate_of_evaluation rightKnown
    exact ⟨leftGround, rightGround, fun values =>
      ⟨first, second, leftTotal values, rightTotal values, same⟩⟩
  · intro settles
    obtain ⟨first, second, leftTotal, rightTotal, same⟩ := settles.agrees fun _ => none
    exact ⟨first, second, Value.evaluation_of_calculate settles.leftGround leftTotal,
      Value.evaluation_of_calculate settles.rightGround rightTotal, same⟩

theorem Readable.meets (readable : ledger.Readable) (counters : Counters)
    (leftLive : ledger.Live left) (rightLive : ledger.Live right) :
    (ledger.state counters).Meets left right ↔ ledger.Met [] left right := by
  rw [State.Meets, arena_state, readable.balanced leftLive rightLive]
  constructor
  · rintro (settles | ⟨constraint, active, equality, rests⟩)
    · exact .settles settles
    · simp only [ConstraintStore.active, List.mem_reverse, List.mem_filter, Array.mem_toList_iff]
        at active
      obtain ⟨index, inside, rfl⟩ := List.mem_mapIdx.mp (List.mem_toArray.mp active.1)
      exact .rests (.active (List.getElem?_eq_getElem inside)
        (by simpa [Ledger.constraint] using active.2) equality) rests
  · rintro (settles | ⟨owed, rests⟩)
    · exact .inl settles
    · cases owed with
      | goal listed => cases listed
      | @active index posting posted undiscarded equality =>
        refine .inr ⟨ledger.constraint index posting, ?_, equality, rests⟩
        simp only [ConstraintStore.active, List.mem_reverse, List.mem_filter, Array.mem_toList_iff]
        refine ⟨List.mem_toArray.mpr (List.mem_mapIdx.mpr ?_), ?_⟩
        · obtain ⟨inside, rfl⟩ := List.getElem?_eq_some_iff.mp posted
          exact ⟨index, inside, rfl⟩
        · simpa [Ledger.constraint] using undiscarded

theorem Readable.setNumber (readable : ledger.Readable) (isVar : ledger.shape? var = some .var)
    (unbound : ledger.binding? var = none) (number : Rational) :
    ∃ bound : Ledger, bound.arena = ledger.arena.setNumber var number ∧ bound.Readable ∧
      bound.Extends ledger ∧ bound.value var = .number number ∧
        ∀ other, other ≠ var → bound.binding? other = ledger.binding? other := by
  obtain ⟨wellFormed, acyclic⟩ := readable
  have grown := allocate_allocates wellFormed (admits_number number)
  have between := acyclic.allocates wellFormed grown
  have place : (ledger.allocate (.number number)).shape? ⟨ledger.size⟩ = some (.number number) :=
    shape?_allocate_size _
  have opens : (ledger.allocate (.number number)).Opens var ⟨ledger.size⟩ :=
    { isVar := grown.extends.shape isVar
      unbound := by rw [binding?, grown.keeps.bindings, ← binding?, unbound]
      live := live_of_shape place
      ends := by
        cases bound : (ledger.allocate (.number number)).binding? ⟨ledger.size⟩ with
        | none => rfl
        | some target =>
          have also := grown.wellFormed.bound_var _ (mem_bindings_of_lookup bound)
          cases place.symm.trans also
      different := by
        rintro rfl
        exact absurd (live_of_shape isVar) (Nat.lt_irrefl _)
      older := by simp [place]
      absent := by simp [place] }
  have binds := opens.binds grown.wellFormed
  have onward := opens.acyclic between grown.wellFormed
  refine ⟨_, ?_, ⟨binds.wellFormed, onward⟩, binds.extends.trans grown.extends, ?_,
    fun other apart => ?_⟩
  · rw [Arena.setNumber, arena_number wellFormed,
      arena_bind opens.isVar opens.unbound]
  · have listed : (var, ⟨ledger.size⟩) ∈
        ((ledger.allocate (.number number)).bind var ⟨ledger.size⟩).bindings := by simp [bind]
    have bound := binds.wellFormed.lookup_bindings listed
    have shape := binds.extends.shape place
    have still := binds.wellFormed.deref_of_shape (ne_of_eq_of_ne shape (by simp))
    apply onward.value_number binds.wellFormed (live_of_shape (binds.extends.shape opens.isVar))
    rw [binds.wellFormed.deref_bound bound, still]
    exact shape
  · rw [binding?_bind, grown.binding?]
    simp [apart]

/-- What an expression comes to once its unknown is set to the number found for it. -/
theorem Readable.isolate (readable : ledger.Readable) (live : ledger.Live id)
    (known : (ledger.arena.evaluate id).isSome = true)
    (single : ledger.arena.occurrences [] id = [(var, 1)])
    (valid : (ledger.arena.isolate var id target).isValid = true) :
    ((ledger.arena.setNumber var (ledger.arena.isolate var id target)).evaluate id).bind
      Evaluation.value = some (if (ledger.value id).regular var then target else .invalid) := by
  have ⟨wellFormed, acyclic⟩ := readable
  rw [acyclic.evaluate wellFormed live] at known
  have vars := acyclic.single_of_isolate wellFormed live known single valid
  obtain ⟨isVar, unbound⟩ := acyclic.vars_open wellFormed live var (by simp [vars])
  rw [acyclic.isolate wellFormed live isVar] at valid ⊢
  obtain ⟨bound, same, onward, grown, set, -⟩ := readable.setNumber isVar unbound
    ((ledger.value id).isolate var target)
  have value := acyclic.value_later onward.acyclic grown wellFormed onward.wellFormed live
  rw [← same, onward.acyclic.evaluate onward.wellFormed (grown.live live)]
  have ground : (bound.value id).vars = [] := by
    rw [value, Value.vars_subst, vars]
    simp [set]
  have result : (bound.value id).calculate (fun _ => none) =
      some (if (ledger.value id).regular var then target else .invalid) := by
    rw [value, Value.calculate_subst]
    exact Value.calculate_isolate known vars valid (by simp [set])
  exact Value.evaluation_of_calculate ground result

/-- What an equation without unknowns comes down to would be decided by now. -/
theorem Upheld.balanced (upheld : ledger.Upheld) (wellFormed : ledger.WellFormed)
    (leftLive : ledger.Live left) (rightLive : ledger.Live right) (met : ledger.Met [] left right)
    (leftGround : (ledger.value left).isGround = true)
    (rightGround : (ledger.value right).isGround = true) : ledger.arena.Balanced left right := by
  have readable : ledger.Readable := ⟨wellFormed, upheld.acyclic⟩
  rw [readable.balanced leftLive rightLive]
  rw [Value.isGround_iff] at leftGround rightGround
  rcases met with settles | ⟨owed, rests⟩
  · exact settles
  · cases owed with
    | goal listed => cases listed
    | active posted undiscarded equality =>
      have undecided := upheld.isOpen posted undiscarded
      rw [equality] at undecided
      refine absurd ?_ undecided.unknown
      rw [Value.isGround_iff, Value.isGround_iff, List.eq_nil_iff_forall_not_mem,
        List.eq_nil_iff_forall_not_mem, ← forall_and]
      intro var
      have none := rests.unknowns var
      rw [leftGround, rightGround] at none
      simpa using none

end Ledger

section

variable {program : Program}

/-- How equations between expressions are solved. One that is called and answered holds, or it comes
    down to an equality that is still active; so does every posted equality that was discarded, and
    none of this is undone by a later answer. What has no unknown left has two values: the same valid
    one if both sides had values to begin with, and the same unless one side is invalid in any case.
    The number found for a single unknown makes an expression come to its target just if nothing is
    divided by zero, and zero by nothing, on the way to the unknown. -/
theorem answer_equations {state answer : State} {goal : TermId} {limit : Nat}
    (reachable : Reachable program state) (live : state.arena.contains goal = true)
    (yields : (Search.start goal limit).Yields program state answer) :
    (∀ left right first second,
      state.arena.compound? (state.arena.deref goal) =
        some { symbol := .reserved .equal, args := [left, right], active := false } →
      state.arena.evaluate left = some first → state.arena.evaluate right = some second →
      0 < first.operations ∨ 0 < second.operations →
        answer.Meets left right ∧ ∀ total other, first.value = some total →
          second.value = some other → total = other ∧ total.isValid = true) ∧
    (∀ index constraint, answer.constraints.constraints[index]? = some constraint →
      constraint.relation = .arithmetic .equal → constraint.discarded = true →
      state.constraints.isDiscarded ⟨index⟩ = false →
        answer.Meets constraint.left constraint.right) ∧
    (∀ left right, state.arena.contains left = true → state.arena.contains right = true →
      state.Meets left right → answer.Meets left right) ∧
    (∀ left right, answer.arena.contains left = true → answer.arena.contains right = true →
      answer.Meets left right → (answer.arena.value left).isGround = true →
      (answer.arena.value right).isGround = true → answer.arena.Balanced left right) ∧
    ∀ id var target, state.arena.contains id = true → (state.arena.evaluate id).isSome = true →
      state.arena.occurrences [] id = [(var, 1)] →
      (state.arena.isolate var id target).isValid = true →
        ((state.arena.setNumber var (state.arena.isolate var id target)).evaluate id).bind
          Evaluation.value = some (if (state.arena.value id).regular var then target else .invalid) := by
  obtain ⟨ledger, accounts⟩ := reachable.ledger
  obtain ⟨last, derives, answered⟩ := accounts.derives live yields
  obtain ⟨⟨counters, rfl⟩, wellFormed, fits, upheld⟩ := accounts
  obtain ⟨⟨others, rfl⟩, lastFormed, -, lastUpheld⟩ := answered
  have readable : ledger.Readable := ⟨wellFormed, upheld.acyclic⟩
  have onward : last.Readable := ⟨lastFormed, lastUpheld.acyclic⟩
  have grown := derives.grows.2
  have resolves := derives.resolves upheld
  simp only [Ledger.arena_state, Ledger.contains_arena] at live ⊢
  refine ⟨?_, ?_, ?_, ?_, ?_⟩
  · intro left right first second held leftKnown rightKnown operations
    have shape := Ledger.shape_of_compound? held
    have opened : Opened program goal ledger (.reserved .equal) [left, right] :=
      ⟨⟨wellFormed, fits, live⟩, shape, Ledger.idle_of_compound? held rfl⟩
    have sides := wellFormed.live_args shape
    have leftLive := sides left (by simp)
    have rightLive := sides right (by simp)
    have entered := opened.readable upheld none
    -- Putting the goal on the call stack changes no value.
    have evaluate {id : TermId} (live : ledger.Live id) :
        (ledger.enter goal none).arena.evaluate id = ledger.arena.evaluate id := by
      rw [entered.acyclic.evaluate entered.wellFormed live, upheld.acyclic.evaluate wellFormed live,
        readable.same entered (opened.enter none).2 rfl live]
    rw [← evaluate leftLive] at leftKnown
    rw [← evaluate rightLive] at rightKnown
    refine ⟨?_, fun total other leftValue rightValue => ?_⟩
    · rw [onward.meets others (grown.live leftLive) (grown.live rightLive)]
      exact derives.meets opened rfl upheld ⟨first, second, leftKnown, rightKnown, operations⟩
    · exact derives.decides opened rfl leftKnown rightKnown operations leftValue rightValue
  · intro index constraint posted equality discarded fresh
    rw [Ledger.constraints_state, Ledger.getElem?_constraints, Option.map_eq_some_iff] at posted
    obtain ⟨posting, known, rfl⟩ := posted
    have listed := List.mem_of_getElem? known
    refine (onward.meets others (lastFormed.posting_left posting listed)
      (lastFormed.posting_right posting listed)).mpr (resolves.discarded known equality
        (by simpa [Ledger.constraint] using discarded) fun early => ?_)
    have decided := (Ledger.isDiscarded_iff (wellFormed.discards_posted _ early)).mpr early
    exact absurd (fresh.symm.trans decided) (by simp)
  · intro left right leftLive rightLive met
    rw [onward.meets others (grown.live leftLive) (grown.live rightLive)]
    rw [readable.meets counters leftLive rightLive] at met
    exact resolves.met readable onward grown leftLive rightLive met
  · intro left right leftLive rightLive met leftGround rightGround
    rw [onward.meets others leftLive rightLive] at met
    exact lastUpheld.balanced lastFormed leftLive rightLive met leftGround rightGround
  · intro id var target idLive known single valid
    exact readable.isolate idLive known single valid

end

namespace Balance

def terms : List Shape :=
  [.var, .var, .number (.valid 5), .compound (.reserved (.arithmetic .add)) [⟨0⟩, ⟨1⟩],
    .compound (.reserved .equal) [⟨3⟩, ⟨2⟩], .number (.valid 2),
    .compound (.reserved (.arithmetic .divide)) [⟨1⟩, ⟨5⟩],
    .compound (.reserved (.arithmetic .subtract)) [⟨2⟩, ⟨6⟩],
    .compound (.reserved .equal) [⟨7⟩, ⟨5⟩]]

def state : State where
  arena := (Arena.build? {} terms).getD {}

theorem ready : Ready ⟨#[]⟩ state where
  accepted := ⟨[], terms, [], {}, rfl, rfl, by decide +kernel⟩
  untouched := rfl

def answers (goal : TermId) (state : State) : List State :=
  ((Search.passWithin ⟨#[]⟩ 100 3 (.start goal 20) state).getD ([], true)).1

/-- The state in which the sum of two variables is known. -/
def posted : State := (answers ⟨4⟩ state).headD state

theorem reachable : Reachable ⟨#[]⟩ posted := by
  have pass : (Search.start ⟨4⟩ 20).Pass ⟨#[]⟩ state (answers ⟨4⟩ state) false :=
    Search.pass_of_within 100 3 (by decide +kernel)
  have listed : posted ∈ answers ⟨4⟩ state := by decide +kernel
  exact .proves (.starts ready) (by decide +kernel) (pass.yields listed)

theorem pass : (Search.start ⟨8⟩ 20).Pass ⟨#[]⟩ posted (answers ⟨8⟩ posted) false :=
  Search.pass_of_within 100 3 (by decide +kernel)

/-- One of the variables is found from what half of it is subtracted from. The other is then found
    from the sum, which is discarded. -/
theorem sum_balanced : ∃ answer ∈ answers ⟨8⟩ posted, answer.arena.groundValue ⟨0⟩ = .valid (-1) ∧
    answer.arena.Balanced ⟨7⟩ ⟨5⟩ ∧ answer.arena.Balanced ⟨3⟩ ⟨2⟩ := by
  have held : ∃ answer ∈ answers ⟨8⟩ posted, answer.arena.groundValue ⟨0⟩ = .valid (-1) ∧
      answer.constraints.constraints[0]? =
        some ⟨.arithmetic .equal, ⟨3⟩, ⟨2⟩, [(⟨0⟩, 1), (⟨1⟩, 1)], true⟩ ∧
      ∀ id ∈ [(⟨2⟩ : TermId), ⟨3⟩, ⟨5⟩, ⟨7⟩],
        answer.arena.contains id = true ∧ (answer.arena.value id).isGround = true := by
    decide +kernel
  obtain ⟨answer, listed, found, sum, ground⟩ := held
  obtain ⟨called, discarded, -, balanced, -⟩ :=
    answer_equations reachable (by decide +kernel) (pass.yields listed)
  have both {left right : TermId} (leftListed : left ∈ [(⟨2⟩ : TermId), ⟨3⟩, ⟨5⟩, ⟨7⟩])
      (rightListed : right ∈ [(⟨2⟩ : TermId), ⟨3⟩, ⟨5⟩, ⟨7⟩]) (meets : answer.Meets left right) :
      answer.arena.Balanced left right :=
    balanced left right (ground left leftListed).1 (ground right rightListed).1 meets
      (ground left leftListed).2 (ground right rightListed).2
  refine ⟨answer, listed, found, both (by decide) (by decide) ?_, both (by decide) (by decide) ?_⟩
  · exact (called ⟨7⟩ ⟨5⟩ ⟨none, 2⟩ ⟨some (.valid 2), 0⟩ (by decide +kernel) (by decide +kernel)
      (by decide +kernel) (by decide)).1
  · exact discarded 0 _ sum rfl rfl (by decide +kernel)

end Balance

namespace ZeroDivisor

def terms : List Shape :=
  [.var, .number (.valid 0), .compound (.reserved (.arithmetic .divide)) [⟨0⟩, ⟨1⟩],
    .number (.valid 5), .compound (.reserved .equal) [⟨2⟩, ⟨3⟩]]

def state : State where
  arena := (Arena.build? {} terms).getD {}

theorem ready : Ready ⟨#[]⟩ state where
  accepted := ⟨[], terms, [], {}, rfl, rfl, by decide +kernel⟩
  untouched := rfl

def answers : List State := ((Search.passWithin ⟨#[]⟩ 100 3 (.start ⟨4⟩ 20) state).getD ([], true)).1

theorem pass : (Search.start ⟨4⟩ 20).Pass ⟨#[]⟩ state answers false :=
  Search.pass_of_within 100 3 (by decide +kernel)

/-- Nothing divided by zero is five, and yet that equation is answered and nothing is left of it: the
    dividend is taken for five times zero. -/
theorem zero_divisor_answered : Ready ⟨#[]⟩ state ∧
    ∃ answer, (Search.start ⟨4⟩ 20).Yields ⟨#[]⟩ state answer ∧
      answer.constraints.active = [] ∧ answer.arena.groundValue ⟨0⟩ = .valid 0 ∧
        (answer.arena.evaluate ⟨2⟩).bind Evaluation.value = some .invalid ∧
        (answer.arena.evaluate ⟨3⟩).bind Evaluation.value = some (.valid 5) := by
  have held : ∃ answer ∈ answers, answer.constraints.active = [] ∧
      answer.arena.groundValue ⟨0⟩ = .valid 0 ∧
        (answer.arena.evaluate ⟨2⟩).bind Evaluation.value = some .invalid ∧
        (answer.arena.evaluate ⟨3⟩).bind Evaluation.value = some (.valid 5) := by
    decide +kernel
  obtain ⟨answer, listed, facts⟩ := held
  exact ⟨ready, answer, pass.yields listed, facts⟩

end ZeroDivisor

end Resolvent
