import Resolvent.Proofs.Semantics.Conjunctions
import Resolvent.Proofs.Semantics.Steady

namespace Resolvent

structure Arena.Structural (arena : Arena) (guard : Literal) (equations : List Literal) : Prop where
  inequality : guard.builtin = .inequality
  plain : arena.Plain guard.left ∧ arena.Plain guard.right
  each : ∀ equation ∈ equations, equation.builtin = .equality ∧
    arena.Plain equation.left ∧ arena.Plain equation.right

def Arena.Assigns (arena : Arena) (var number : TermId) : Prop :=
  (∃ cell, arena.node var = .var cell) ∧ ∃ value, arena.node number = .number value

def Literal.Determines (literal : Literal) (arena : Arena) : Prop :=
  literal.builtin = .equality ∧
    (arena.Assigns literal.left literal.right ∨ arena.Assigns literal.right literal.left)

structure Arena.Numeric (arena : Arena) (guard : Literal) (equations : List Literal) : Prop where
  expressions : ∃ first second, arena.evaluate guard.left = some first ∧
    arena.evaluate guard.right = some second ∧
      (guard.builtin = .strict .greater ∨ guard.builtin = .strict .smaller ∨
        guard.builtin = .inequality ∧ 0 < first.operations + second.operations)
  each : ∀ equation ∈ equations, equation.Determines arena

def ActiveConstraint.HoldsFor (constraint : ActiveConstraint) (change : TermId → Value) : Prop :=
  constraint.relation.Holds (constraint.left.subst change) (constraint.right.subst change)

/-- Two answers have the same values for the terms of an arena, and their active constraints, if there
    are any, hold for the same values of the variables. -/
structure State.Agrees (first second : State) (arena : Arena) : Prop where
  values : ∀ id, arena.contains id = true → first.arena.value id = second.arena.value id
  active : first.activeConstraints = [] ↔ second.activeConstraints = []
  hold : ∀ change, (∀ constraint ∈ first.activeConstraints, constraint.HoldsFor change) ↔
    ∀ constraint ∈ second.activeConstraints, constraint.HoldsFor change

namespace Value

variable {value : Value} {change : TermId → Value} {evaluation : Evaluation}

/-- An expression has as many operations once some of its variables are numbers or other variables. -/
theorem evaluation_subst (known : value.evaluation = some evaluation)
    (numbers : ∀ var ∈ value.vars, ∃ result, (change var).evaluation = some ⟨result, 0⟩) :
    ∃ result, (value.subst change).evaluation = some ⟨result, evaluation.operations⟩ := by
  induction value using expression_cases generalizing evaluation with
  | number number =>
    rw [evaluation_number] at known
    cases known
    exact ⟨some number, evaluation_number number⟩
  | var id =>
    rw [evaluation_var] at known
    cases known
    simpa using numbers
  | other symbol args other =>
    rw [evaluation_other other] at known
    cases known
  | operation operator left right leftIh rightIh =>
    rw [evaluation_operation] at known
    obtain ⟨first, leftKnown, known⟩ := Option.bind_eq_some_iff.mp known
    obtain ⟨second, rightKnown, combined⟩ := Option.bind_eq_some_iff.mp known
    cases combined
    rw [vars_operation] at numbers
    obtain ⟨leftResult, leftSame⟩ := leftIh leftKnown fun var member =>
      numbers var (List.mem_append_left _ member)
    obtain ⟨rightResult, rightSame⟩ := rightIh rightKnown fun var member =>
      numbers var (List.mem_append_right _ member)
    rw [subst_compound, List.map_cons, List.map_cons, List.map_nil, evaluation_operation, leftSame,
      rightSame]
    exact ⟨_, rfl⟩

end Value

namespace Ledger

variable {base ledger later : Ledger} {done equations goals others : List Literal} {guard : Literal}
  {relation : Relation} {program : Program}

theorem guards_of_structural (structural : base.arena.Structural guard equations)
    (wellFormed : base.WellFormed)
    (live : ∀ literal ∈ guard :: equations, base.LivePair (literal.left, literal.right)) :
    Guards base .disunification guard equations where
  wellFormed := wellFormed
  live := live guard List.mem_cons_self
  unequal := nofun
  apart := by simp [structural.inequality]
  each equation listed :=
    ⟨(structural.each equation listed).1, live equation (List.mem_cons_of_mem _ listed),
      (structural.each equation listed).2⟩
  tests := by
    intro done ledger later reply _ solution performs
    have here := live guard List.mem_cons_self
    have leftLive := solution.grown.live here.1
    have rightLive := solution.grown.live here.2
    have none := solution.not_arithmetic wellFormed here structural.plain
    rw [structural.inequality] at performs
    cases performs with
    | differs _ differs => exact differs.tests solution.acyclic solution.wellFormed leftLive rightLive
    | computes arithmetic => exact absurd (arithmetic (.inr rfl)) none

theorem Solved.number_or_var (solution : Solved base done ledger) (baseFormed : base.WellFormed)
    (unbound : base.bindings = [])
    (each : ∀ literal ∈ done, literal.builtin = .equality →
      base.LivePair (literal.left, literal.right) ∧ literal.Determines base.arena) {var : TermId}
    (isVar : base.shape? var = some .var) :
    ∃ result, (ledger.value var).evaluation = some ⟨result, 0⟩ := by
  have live := live_of_shape isVar
  cases known : ledger.value var with
  | number number => exact ⟨_, Value.evaluation_number number⟩
  | var other => exact ⟨_, Value.evaluation_var other⟩
  | compound symbol args =>
    exfalso
    obtain ⟨τ, models⟩ := solution.acyclic
    obtain ⟨before, equal⟩ := solution.sound τ models
    -- The equations hold as well if variables that stand for compounds are made numbers.
    let values (id : TermId) : Tree :=
      match τ id with
      | .number number => .number number
      | .compound _ _ => .number default
    have reads := ground_reads baseFormed values
    have agree {first second : TermId} (live : base.Live first)
        (assigns : base.arena.Assigns first second) (same : τ first = τ second) :
        base.arena.ground values first = base.arena.ground values second := by
      obtain ⟨⟨cell, isVar⟩, number, isNumber⟩ := assigns
      have shape := shape_of_number isNumber
      rw [ground_var baseFormed values (shape_of_var live isVar), reads.number shape]
      simp only [values, same, before.number shape]
    have meets : Meets (base.arena.ground values) base done := by
      refine ⟨⟨reads, by simp [unbound]⟩, fun literal member equality => ?_⟩
      obtain ⟨sides, -, assigns | assigns⟩ := each literal member equality
      · exact agree sides.1 assigns (equal literal member equality)
      · exact (agree sides.2 assigns (equal literal member equality).symm).symm
    obtain ⟨ρ, onward, same⟩ := solution.complete _ meets
    have reading := onward.ground_value solution.wellFormed (solution.grown.live live)
    rw [known, Value.ground_compound, same var live, ground_var baseFormed values isVar] at reading
    simp only [values] at reading
    split at reading <;> cases reading

theorem Solved.operations (solution : Solved base done ledger) (baseFormed : base.WellFormed)
    (untouched : base.Untouched)
    (each : ∀ literal ∈ done, literal.builtin = .equality →
      base.LivePair (literal.left, literal.right) ∧ literal.Determines base.arena) {id : TermId}
    (live : base.Live id) {evaluation : Evaluation} (known : base.arena.evaluate id = some evaluation) :
    ∃ result, ledger.arena.evaluate id = some ⟨result, evaluation.operations⟩ := by
  have acyclic := (untouched.upheld baseFormed).acyclic
  rw [acyclic.evaluate baseFormed live] at known
  rw [solution.acyclic.evaluate solution.wellFormed (solution.grown.live live),
    acyclic.value_later solution.acyclic solution.grown baseFormed solution.wellFormed live]
  refine Value.evaluation_subst known fun var member => ?_
  exact solution.number_or_var baseFormed (by rw [untouched]) each
    (acyclic.vars_open baseFormed live var member).1

theorem guards_of_numeric (numeric : base.arena.Numeric guard equations) (wellFormed : base.WellFormed)
    (untouched : base.Untouched)
    (live : ∀ literal ∈ guard :: equations, base.LivePair (literal.left, literal.right)) :
    ∃ comparison, Guards base (.arithmetic comparison) guard equations := by
  obtain ⟨⟨first, second, leftKnown, rightKnown, kind⟩, each⟩ := numeric
  have here := live guard List.mem_cons_self
  obtain ⟨comparison, asserts, unequal, apart⟩ : ∃ comparison, Asserts guard.builtin comparison ∧
      comparison ≠ .equal ∧ guard.builtin ≠ .equality := by
    rcases kind with same | same | ⟨same, -⟩ <;> rw [same]
    · exact ⟨.greater, .strict, nofun, nofun⟩
    · exact ⟨.smaller, .strict, nofun, nofun⟩
    · exact ⟨.unequal, .inequality, nofun, nofun⟩
  refine ⟨comparison, wellFormed, here, by simpa using unequal, apart, fun equation listed => ?_, ?_⟩
  · obtain ⟨equality, assigns⟩ := each equation listed
    refine ⟨equality, live equation (List.mem_cons_of_mem _ listed), ?_⟩
    rcases assigns with ⟨⟨_, isVar⟩, _, isNumber⟩ | ⟨⟨_, isVar⟩, _, isNumber⟩
    · exact ⟨.var isVar, .number isNumber⟩
    · exact ⟨.number isNumber, .var isVar⟩
  · intro done ledger later reply inside solution performs
    have leftLive := solution.grown.live here.1
    have rightLive := solution.grown.live here.2
    have determined : ∀ literal ∈ done, literal.builtin = .equality →
        base.LivePair (literal.left, literal.right) ∧ literal.Determines base.arena := by
      intro literal member equality
      have listed : literal ∈ equations := by
        refine (List.mem_cons.mp (inside member)).resolve_left ?_
        rintro rfl
        exact apart equality
      exact ⟨live literal (inside member), each literal listed⟩
    obtain ⟨leftResult, leftSame⟩ :=
      solution.operations wellFormed untouched determined here.1 leftKnown
    obtain ⟨rightResult, rightSame⟩ :=
      solution.operations wellFormed untouched determined here.2 rightKnown
    generalize guard.builtin = builtin at performs asserts apart kind
    cases performs with
    | relaxed => cases asserts
    | equates => exact absurd rfl apart
    | differs _ _ structural =>
      obtain ⟨rfl, none⟩ := structural leftSame rightSame
      rcases kind with same | same | ⟨-, some⟩
      · cases same
      · cases same
      · exact absurd none (Nat.pos_iff_ne_zero.mp some)
    | computes _ also computes =>
      cases asserts <;> cases also <;>
        exact computes.tests solution.acyclic solution.wellFormed leftLive rightLive apart

section

variable {counters : Counters}
  (partway : Partway program base relation guard [] goals ledger)

include partway

/-- A constraint that is still active asserts what the guard does, and is open. -/
theorem Partway.isOpen {constraint : ActiveConstraint}
    (listed : constraint ∈ (ledger.state counters).activeConstraints) :
    constraint.relation = relation ∧ relation.Open constraint.left constraint.right ∧
      relation.Alike (constraint.left, constraint.right)
        (ledger.value guard.left, ledger.value guard.right) := by
  obtain ⟨constraint, active, rfl⟩ := List.mem_map.mp listed
  obtain ⟨index, posting, held, isOpen, rfl⟩ := mem_active.mp active
  obtain ⟨same, alike⟩ := partway.posted posting (List.mem_of_getElem? held)
  have isOpen := partway.upheld.isOpen held isOpen
  rw [same] at isOpen
  exact ⟨same, isOpen, alike⟩

theorem Partway.settled (unequal : relation ≠ .arithmetic .equal) (inside : guard ∈ goals) :
    (ledger.state counters).activeConstraints = [] ↔
      relation.Settled (ledger.value guard.left) (ledger.value guard.right) := by
  constructor
  · intro none
    cases postings : ledger.postings with
    | nil => exact partway.decided inside postings
    | cons posting rest =>
      have held : ledger.postings[0]? = some posting := by simp [postings]
      obtain ⟨same, alike⟩ := partway.posted posting (List.mem_of_getElem? held)
      by_cases discarded : (⟨0⟩ : ConstraintId) ∈ ledger.discards
      · have settled := partway.upheld.isSettled held discarded
        rw [same] at settled
        exact alike.settled settled
      · have active := mem_active.mpr ⟨0, posting, held, discarded, rfl⟩
        exact absurd (List.map_eq_nil_iff.mp none) (List.ne_nil_of_mem active)
  · intro settled
    refine List.eq_nil_iff_forall_not_mem.mpr fun constraint listed => ?_
    obtain ⟨-, isOpen, alike⟩ := partway.isOpen listed
    exact (isOpen.undecided unequal).2 (alike.symm.settled settled)

theorem Partway.holds (unequal : relation ≠ .arithmetic .equal) (inside : guard ∈ goals)
    (change : TermId → Value) :
    (∀ constraint ∈ (ledger.state counters).activeConstraints, constraint.HoldsFor change) ↔
      (relation.Settled (ledger.value guard.left) (ledger.value guard.right) ∨
        relation.Holds ((ledger.value guard.left).subst change)
          ((ledger.value guard.right).subst change)) := by
  have each {constraint : ActiveConstraint}
      (listed : constraint ∈ (ledger.state counters).activeConstraints) :
      constraint.HoldsFor change ↔ relation.Holds ((ledger.value guard.left).subst change)
        ((ledger.value guard.right).subst change) := by
    obtain ⟨rfl, -, alike⟩ := partway.isOpen listed
    exact (alike.subst change).holds
  by_cases settled : relation.Settled (ledger.value guard.left) (ledger.value guard.right)
  · simp [(partway.settled unequal inside).mpr settled, settled]
  · obtain ⟨constraint, listed⟩ :=
      List.exists_mem_of_ne_nil _ (mt (partway.settled unequal inside).mp settled)
    rw [or_iff_right settled]
    exact ⟨fun all => (each listed).mp (all constraint listed),
      fun holds _ member => (each member).mpr holds⟩

theorem Partway.unrefuted (unequal : relation ≠ .arithmetic .equal) (inside : guard ∈ goals) :
    ¬ relation.Refuted (ledger.value guard.left) (ledger.value guard.right) := by
  by_cases settled : relation.Settled (ledger.value guard.left) (ledger.value guard.right)
  · exact settled.unrefuted unequal
  · have some : (ledger.state {}).activeConstraints ≠ [] :=
      mt (partway.settled unequal inside).mp settled
    obtain ⟨constraint, listed⟩ := List.exists_mem_of_ne_nil _ some
    obtain ⟨-, isOpen, alike⟩ := partway.isOpen listed
    exact fun refuted => (isOpen.undecided unequal).1 (alike.symm.refuted refuted)

end

theorem Comes.agree {events moreEvents : List Emission} {answers more : List State}
    (guards : Guards base relation guard equations) (inside : guard ∈ goals)
    (iff : ∀ literal, literal ∈ others ↔ literal ∈ goals)
    (first : Comes program base relation guard [] goals events)
    (second : Comes program base relation guard [] others moreEvents)
    (uncut : .cut ∉ events) (moreUncut : .cut ∉ moreEvents)
    (held : List.Forall₂ Holds answers (answersOf events))
    (moreHeld : List.Forall₂ Holds more (answersOf moreEvents)) :
    List.Forall₂ (fun answer other => answer.Agrees other base.arena) answers more := by
  -- What solves all equations cannot both violate the guard and answer.
  have clash {left right : List Literal} {last : Ledger} (refutes : base.Refutes relation guard left)
      (subset : left ⊆ right) (inside : guard ∈ right)
      (partway : Partway program base relation guard [] right last) : False :=
    partway.unrefuted guards.unequal inside
      (refutes.subset subset last partway.wellFormed partway.acyclic partway.sound)
  cases first with
  | cut => simp at uncut
  | fails refutes =>
    cases second with
    | cut => simp at moreUncut
    | fails =>
      cases held
      cases moreHeld
      exact .nil
    | answers partway =>
      exact (clash refutes (fun literal => (iff literal).mpr) ((iff guard).mpr inside) partway).elim
  | @answers first partway =>
    cases second with
    | cut => simp at moreUncut
    | fails refutes => exact (clash refutes (fun literal => (iff literal).mp) inside partway).elim
    | @answers second other =>
      have partwayToo := other.same fun literal => (iff literal).symm
      have same {id : TermId} (live : base.Live id) :=
        partway.value_eq partwayToo.toSolved guards.wellFormed live
      obtain ⟨answer, answers, ⟨counters, rfl⟩, none, rfl⟩ := List.forall₂_cons_right_iff.mp held
      obtain ⟨answer, more, ⟨others, rfl⟩, moreNone, rfl⟩ := List.forall₂_cons_right_iff.mp moreHeld
      cases none
      cases moreNone
      refine .cons ⟨fun id contained => same ((contains_arena base id).mp contained), ?_,
        fun change => ?_⟩ .nil
      · rw [partway.settled guards.unequal inside, partwayToo.settled guards.unequal inside,
          same guards.live.1, same guards.live.2]
      · rw [partway.holds guards.unequal inside, partwayToo.holds guards.unequal inside,
          same guards.live.1, same guards.live.2]

/-- What comes of a whole conjunction in a pass in which nothing is cut off. -/
theorem Guards.pass (guards : Guards base relation guard equations) (untouched : base.Untouched)
    (fits : Program.Fits ⟨#[]⟩ base) {goal : TermId} {limit : Nat} {counters : Counters}
    {answers : List State} (conjoined : base.arena.Conjoined goal goals)
    (inside : goals ⊆ guard :: equations)
    (pass : (Search.start goal limit).Pass ⟨#[]⟩ (base.state counters) answers false) :
    ∃ events, Comes ⟨#[]⟩ base relation guard [] goals events ∧ .cut ∉ events ∧
      List.Forall₂ Holds answers (answersOf events) := by
  have wellFormed := guards.wellFormed
  have calls : base.calls.length = 0 := by rw [untouched, List.length_nil]
  have start : Partway ⟨#[]⟩ base relation guard [] [] base :=
    { toSolved := .start untouched wellFormed
      quiet := ⟨wellFormed, fits, by rw [untouched], by simp⟩
      upheld := untouched.upheld wellFormed
      called := by simp [List.length_eq_zero_iff.mp calls]
      posted := by
        rw [untouched]
        simp
      decided := by simp }
  have comes : Comes ⟨#[]⟩ base relation guard [] (goals ++ [])
      (solve ⟨#[]⟩ limit (limit + 1) goal base) :=
    guards.comes conjoined inside start (by simp) (by simp) (by omega) (by omega)
  rw [List.append_nil] at comes
  obtain ⟨-, held, flags⟩ :=
    (stands_start wellFormed fits (callable_live (callable_of_conjoined conjoined)) limit
      counters).pass pass
  exact ⟨_, comes, fun cut => absurd (flags.mpr (.inr (.inr cut))) nofun, held⟩

end Ledger

/-- It does not matter where a constraint stands in a conjunction of equations, or how the equations are
    ordered. Whether it is decided at once, or posted and decided again as variables are bound, there
    are as many answers, with the same values for all terms and with active constraints, if there are
    any, that are violated in the same cases. -/
theorem conjunction_reordered {state : State} {query other : TermId} {limit wider : Nat}
    {goals others equations : List Literal} {guard : Literal} {answers more : List State}
    (ready : Ready ⟨#[]⟩ state) (conjoined : state.arena.Conjoined query goals)
    (also : state.arena.Conjoined other others) (perm : goals.Perm (guard :: equations))
    (permToo : others.Perm (guard :: equations))
    (kind : state.arena.Structural guard equations ∨ state.arena.Numeric guard equations)
    (pass : (Search.start query limit).Pass ⟨#[]⟩ state answers false)
    (passToo : (Search.start other wider).Pass ⟨#[]⟩ state more false) :
    List.Forall₂ (fun answer another => answer.Agrees another state.arena) answers more := by
  obtain ⟨base, same, untouched, wellFormed, fits⟩ := ready.ledger
  have arena : state.arena = base.arena := congrArg State.arena same
  rw [arena] at conjoined also kind ⊢
  rw [same] at pass passToo
  have live : ∀ literal ∈ guard :: equations, base.LivePair (literal.left, literal.right) :=
    fun literal member => conjoined.live wellFormed literal (perm.mem_iff.mpr member)
  obtain ⟨relation, guards⟩ : ∃ relation, Ledger.Guards base relation guard equations := by
    rcases kind with structural | numeric
    · exact ⟨_, Ledger.guards_of_structural structural wellFormed live⟩
    · obtain ⟨comparison, guards⟩ := Ledger.guards_of_numeric numeric wellFormed untouched live
      exact ⟨_, guards⟩
  obtain ⟨events, comes, uncut, held⟩ := guards.pass untouched fits conjoined perm.subset pass
  obtain ⟨moreEvents, comesToo, moreUncut, moreHeld⟩ :=
    guards.pass untouched fits also permToo.subset passToo
  exact comes.agree guards (perm.mem_iff.mpr List.mem_cons_self)
    (fun literal => permToo.mem_iff.trans perm.mem_iff.symm) comesToo uncut moreUncut held moreHeld

namespace Moved

def terms : List Shape :=
  [.var, .var, .compound (.user 1) [], .compound (.user 2) [], .compound (.user 0) [⟨0⟩, ⟨1⟩],
    .compound (.user 0) [⟨2⟩, ⟨3⟩], .compound (.reserved .unequal) [⟨4⟩, ⟨5⟩],
    .compound (.reserved .equal) [⟨0⟩, ⟨2⟩], .compound (.reserved .conjunction) [⟨6⟩, ⟨7⟩],
    .compound (.reserved .conjunction) [⟨7⟩, ⟨6⟩], .number (.valid 1), .number (.valid 2),
    .number (.valid 4), .compound (.reserved (.arithmetic .add)) [⟨0⟩, ⟨11⟩],
    .compound (.reserved (.arithmetic .add)) [⟨13⟩, ⟨1⟩],
    .compound (.reserved .greater) [⟨14⟩, ⟨12⟩], .compound (.reserved .equal) [⟨0⟩, ⟨10⟩],
    .compound (.reserved .conjunction) [⟨15⟩, ⟨16⟩], .compound (.reserved .conjunction) [⟨16⟩, ⟨15⟩]]

def state : State := { arena := (Arena.build? {} terms).getD {} }

theorem ready : Ready ⟨#[]⟩ state where
  accepted := ⟨[], terms, [], {}, rfl, rfl, by decide +kernel⟩
  untouched := rfl

def answers (query : TermId) : List State :=
  ((Search.passWithin ⟨#[]⟩ 100 3 (.start query 20) state).getD ([], true)).1

def watched (query : TermId) : List (List (List TermId)) :=
  (answers query).map fun answer =>
    answer.constraints.active.map fun constraint => constraint.occurrences.map Prod.fst

def inequality : Literal := ⟨.inequality, ⟨4⟩, ⟨5⟩⟩

def comparison : Literal := ⟨.strict .greater, ⟨14⟩, ⟨12⟩⟩

theorem structural : state.arena.Structural inequality [⟨.equality, ⟨0⟩, ⟨2⟩⟩] where
  inequality := rfl
  plain := ⟨Arena.plain_of_within 5 (by decide +kernel), Arena.plain_of_within 5 (by decide +kernel)⟩
  each := by
    rintro _ ⟨⟩
    · exact ⟨rfl, Arena.plain_of_within 5 (by decide +kernel),
        Arena.plain_of_within 5 (by decide +kernel)⟩
    · contradiction

theorem numeric : state.arena.Numeric comparison [⟨.equality, ⟨0⟩, ⟨10⟩⟩] where
  expressions := ⟨⟨none, 2⟩, ⟨some (.valid 4), 0⟩, by decide +kernel, by decide +kernel, .inl rfl⟩
  each := by
    rintro _ ⟨⟩
    · exact ⟨rfl, .inl ⟨⟨{}, by decide +kernel⟩, .valid 1, by decide +kernel⟩⟩
    · contradiction

theorem ended {query : TermId}
    (uncut : (Search.passWithin ⟨#[]⟩ 100 3 (.start query 20) state).map Prod.snd = some false) :
    (Search.start query 20).Pass ⟨#[]⟩ state (answers query) false := by
  obtain ⟨⟨found, truncated⟩, run, rfl⟩ := Option.map_eq_some_iff.mp uncut
  refine Search.pass_of_within 100 3 ?_
  rw [answers, run]
  rfl

/-- A guard that comes first is posted with both variables, one that comes last with one. -/
theorem same_answers :
    (watched ⟨8⟩ = [[[⟨0⟩, ⟨1⟩]]] ∧ watched ⟨9⟩ = [[[⟨1⟩]]] ∧
      List.Forall₂ (fun answer another => answer.Agrees another state.arena) (answers ⟨8⟩)
        (answers ⟨9⟩)) ∧
    watched ⟨17⟩ = [[[⟨0⟩, ⟨1⟩]]] ∧ watched ⟨18⟩ = [[[⟨1⟩]]] ∧
      List.Forall₂ (fun answer another => answer.Agrees another state.arena) (answers ⟨17⟩)
        (answers ⟨18⟩) := by
  have first : state.arena.Conjoined ⟨8⟩ [inequality, ⟨.equality, ⟨0⟩, ⟨2⟩⟩] :=
    Arena.conjoined_of_within 3 (by decide +kernel)
  have last : state.arena.Conjoined ⟨9⟩ [⟨.equality, ⟨0⟩, ⟨2⟩⟩, inequality] :=
    Arena.conjoined_of_within 3 (by decide +kernel)
  have before : state.arena.Conjoined ⟨17⟩ [comparison, ⟨.equality, ⟨0⟩, ⟨10⟩⟩] :=
    Arena.conjoined_of_within 3 (by decide +kernel)
  have after : state.arena.Conjoined ⟨18⟩ [⟨.equality, ⟨0⟩, ⟨10⟩⟩, comparison] :=
    Arena.conjoined_of_within 3 (by decide +kernel)
  refine ⟨⟨by decide +kernel, by decide +kernel, ?_⟩, by decide +kernel, by decide +kernel, ?_⟩
  · exact conjunction_reordered ready first last (.refl _) (.swap _ _ _) (.inl structural)
      (ended (by decide +kernel)) (ended (by decide +kernel))
  · exact conjunction_reordered ready before after (.refl _) (.swap _ _ _) (.inr numeric)
      (ended (by decide +kernel)) (ended (by decide +kernel))

end Moved

end Resolvent
