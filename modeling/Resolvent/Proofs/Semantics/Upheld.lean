import Resolvent.Proofs.Search.Answers
import Resolvent.Proofs.Search.Asking
import Resolvent.Proofs.Semantics.Rechecking

namespace Resolvent

namespace Ledger

variable {ledger later : Ledger}

theorem Upheld.allocates (upheld : ledger.Upheld) (wellFormed : ledger.WellFormed)
    (grown : later.Allocates ledger) : later.Upheld :=
  upheld.stays wellFormed (.allocates grown) grown.postings grown.discards

theorem Untouched.upheld (untouched : ledger.Untouched) (wellFormed : ledger.WellFormed) :
    ledger.Upheld := by
  have acyclic : ledger.Acyclic :=
    ⟨_, ground_reads wellFormed (fun _ => .number default), by rw [untouched]; simp⟩
  refine ⟨acyclic, ?_, ?_, ?_⟩ <;> rw [untouched] <;> simp

section

variable {left right : TermId} {reply : Reply} (before : ledger.Upheld)
  (wellFormed : ledger.WellFormed) (leftLive : ledger.Live left) (rightLive : ledger.Live right)

include before wellFormed leftLive rightLive

theorem Equates.upheld (equates : ledger.Equates left right reply later) (goesOn : reply ≠ .fails) :
    later.Upheld := by
  obtain ⟨after, last, unifies, -⟩ := equates.unifies wellFormed leftLive rightLive goesOn
  exact (before.unified wellFormed leftLive rightLive unifies.solves unifies.rechecks
    unifies.unviolated).allocates unifies.settled.wellFormed unifies.built

/-- What is left of two terms can be unified, and differs, just as they do. -/
theorem Strips.isOpen {after stripped : Ledger} {kept : Option (TermId × TermId)}
    {first second : TermId} (strips : Strips ledger [(left, right)] kept.toList stripped)
    (solves : Solves ledger.size ledger [(left, right)] (.ok after)) (bound : after ≠ ledger)
    (sides : kept.getD (left, right) = (first, second)) :
    Relation.disunification.Open (stripped.value first) (stripped.value second) := by
  have acyclic := before.acyclic
  have live := leftLive.pair rightLive
  have grown := (strips.grows wellFormed live).1
  have leftSame := acyclic.value_allocates wellFormed grown leftLive
  have rightSame := acyclic.value_allocates wellFormed grown rightLive
  have unify := solves.unify acyclic wellFormed leftLive rightLive
  have differ := solves.differ acyclic wellFormed leftLive rightLive bound
  have equal (values : TermId → Tree) := strips.sides_iff wellFormed live solves sides
    ((acyclic.allocates wellFormed grown).models grown.wellFormed values)
  refine ⟨fun same => differ (Value.eq_of_ground fun values => ?_), ?_⟩
  · have whole := (equal values).mp (by simp [same])
    simpa only [leftSame, rightSame] using whole
  · obtain ⟨values, same⟩ := unify
    refine ⟨values, (equal values).mpr ?_⟩
    simpa only [leftSame, rightSame] using same

end

section

variable {left right : TermId} {builtin : Builtin} {reply : Reply} (before : ledger.Upheld)
  (wellFormed : ledger.WellFormed) (leftLive : ledger.Live left) (rightLive : ledger.Live right)

include before wellFormed leftLive rightLive

theorem Differs.upheld (differs : ledger.Differs left right reply later) : later.Upheld := by
  cases differs with
  | apart | equal => exact before
  | posts solves strips grown sides firstLive secondLive bound =>
    exact (before.allocates wellFormed grown).post grown.wellFormed firstLive secondLive
      (strips.isOpen before wellFormed (wellFormed.live_deref leftLive)
        (wellFormed.live_deref rightLive) solves bound sides)

/-- Simplified expressions can be compared no better than the expressions they came from. -/
theorem Computes.upheld {comparison : Comparison}
    (computes : ledger.Computes left right builtin comparison reply later)
    (equation : comparison = .equal → builtin = .equality) : later.Upheld := by
  cases computes with
  | fails grown | decides _ _ _ _ grown => exact before.allocates wellFormed grown
  | solves _ _ simplified _ _ grown =>
    exact before.allocates wellFormed (grown.trans simplified.grown)
  | @posts first second newLeft newRight after evaluates unknown simplified unsolved =>
    have grown := simplified.grown
    obtain ⟨newLeftLive, newRightLive⟩ : after.Live newLeft ∧ after.Live newRight := simplified.live
    have acyclic := before.acyclic.allocates wellFormed grown
    refine (before.allocates wellFormed grown).post grown.wellFormed newLeftLive newRightLive ?_
    obtain ⟨leftSame, rightSame⟩ :=
      simplified.values before.acyclic wellFormed leftLive rightLive
    obtain ⟨leftFolded, leftKnown, leftValue⟩ :=
      before.acyclic.folded wellFormed leftLive evaluates.left
    obtain ⟨rightFolded, rightKnown, rightValue⟩ :=
      before.acyclic.folded wellFormed rightLive evaluates.right
    rw [← leftSame] at leftKnown
    rw [← rightSame] at rightKnown
    refine Value.undecided_of leftKnown rightKnown ?_ ?_ ?_ fun equal side target oneSided var => ?_
    · rw [Evaluation.isInvalid, leftValue]
      exact evaluates.leftValid
    · rw [Evaluation.isInvalid, rightValue]
      exact evaluates.rightValid
    · rwa [leftValue, rightValue]
    · cases oneSided with
      | left none other =>
        refine mt (acyclic.single grown.wellFormed newLeftLive) ?_
        exact unsolved (equation equal) _ target
          (.left (leftValue.symm.trans none) (rightValue.symm.trans other)) var
      | right other none =>
        refine mt (acyclic.single grown.wellFormed newRightLive) ?_
        exact unsolved (equation equal) _ target
          (.right (leftValue.symm.trans other) (rightValue.symm.trans none)) var

theorem Performs.upheld (performs : ledger.Performs left right builtin reply later)
    (strict : builtin ≠ .strict .equal) (goesOn : reply ≠ .fails) : later.Upheld := by
  cases performs with
  | relaxed relaxes => exact before.allocates wellFormed relaxes.grown
  | equates _ equates => exact equates.upheld before wellFormed leftLive rightLive goesOn
  | differs _ differs => exact differs.upheld before wellFormed leftLive rightLive
  | computes _ asserts computes =>
    refine computes.upheld before wellFormed leftLive rightLive ?_
    rintro rfl
    cases asserts with
    | equality => rfl
    | strict => exact absurd rfl strict

end

end Ledger

section

variable {program : Program}

theorem Opened.upheld {goal : TermId} {ledger : Ledger} {symbol : Symbol} {args : List TermId}
    (opened : Opened program goal ledger symbol args) (upheld : ledger.Upheld)
    (choice : Option Choice) : (ledger.enter goal choice).Upheld :=
  upheld.stays opened.wellFormed
    (.marks (opened.enter choice).1 (opened.enter choice).2 rfl rfl) rfl rfl

theorem Ledger.Performs.upheld_of_form {left right : TermId} {builtin : Builtin} {reply : Reply}
    {ledger later : Ledger} {symbol : Symbol} {args : List TermId}
    (performs : ledger.Performs left right builtin reply later) (upheld : ledger.Upheld)
    (wellFormed : ledger.WellFormed) (leftLive : ledger.Live left) (rightLive : ledger.Live right)
    (form : formOf symbol args = .builtin builtin left right) (goesOn : reply ≠ .fails) :
    later.Upheld := by
  refine performs.upheld upheld wellFormed leftLive rightLive ?_ goesOn
  rintro rfl
  rcases form_strict form with same | same <;> cases same

theorem Opened.performed {goal left right : TermId} {builtin : Builtin} {reply : Reply}
    {ledger later : Ledger} {symbol : Symbol} {args : List TermId}
    (opened : Opened program goal ledger symbol args) (upheld : ledger.Upheld)
    (form : formOf symbol args = .builtin builtin left right)
    (performs : (ledger.enter goal none).Performs left right builtin reply later)
    (goesOn : reply ≠ .fails) : later.Upheld := by
  have sides := opened.sides form none
  exact performs.upheld_of_form (opened.upheld upheld none) (opened.enter none).1 sides.1 sides.2
    form goesOn

theorem Derives.upheld {goal : TermId} {ledger last : Ledger}
    (derives : Derives program goal ledger last) (upheld : ledger.Upheld) : last.Upheld := by
  induction derives with
  | number | waits | active => exact upheld
  | delays called isVar fresh =>
    exact upheld.stays called.wellFormed (.marks (called.wellFormed.delay isVar fresh)
      (Ledger.delay_extends _ _) rfl rfl) rfl rfl
  | negation opened => exact opened.upheld upheld _
  | conjunction opened _ _ _ firstIh secondIh => exact secondIh (firstIh (opened.upheld upheld _))
  | disjunction opened _ _ _ ih => exact ih (opened.upheld upheld _)
  | answers opened form performs => exact opened.performed upheld form performs (by simp)
  | delegates opened form performs _ ih => exact ih (opened.performed upheld form performs (by simp))
  | fact opened _ _ _ matched _ ih =>
    exact ih ((opened.upheld upheld _).allocates (opened.enter _).1 (matched.grows (opened.enter _).1))
  | rule opened _ _ _ matched head copied _ headIh ih =>
    have grown := matched.grows (opened.enter _).1
    have later := headIh ((opened.upheld upheld _).allocates (opened.enter _).1 grown)
    exact ih (later.allocates head.grows.1 (copied.grows head.grows.1))

def Constraint.Under (constraint : Constraint) (arena : Arena)
    (verdict : Relation → Value → Value → Prop) : Prop :=
  verdict constraint.relation (arena.value constraint.left) (arena.value constraint.right)

/-- No constraint of an answer was decided too early or too late. One that is still active can still
    be violated and can still be satisfied: its sides differ and unify, or they are expressions that
    cannot be compared yet. One that was discarded holds for good: its sides do not unify, or they
    have values that compare so, unless it was an equation that was solved. Expressions and their
    values are what the arena takes them for. -/
theorem answer_constraints {state answer : State} {query : TermId} {limit : Nat}
    (ready : Ready program state) (live : state.arena.contains query = true)
    (yields : (Search.start query limit).Yields program state answer) :
    (∀ constraint ∈ answer.constraints.active, constraint.Under answer.arena Relation.Open) ∧
    (∀ constraint ∈ answer.constraints.constraints, constraint.discarded = true →
      constraint.Under answer.arena Relation.Settled) ∧
    ∀ id, answer.arena.contains id = true →
      answer.arena.evaluate id = (answer.arena.value id).evaluation ∧
      answer.arena.groundValue id = (answer.arena.value id).total := by
  obtain ⟨base, same, untouched, wellFormed, fits⟩ := ready.ledger
  rw [same] at live yields
  obtain ⟨last, derives, counters, rfl⟩ :=
    yields.derives ⟨wellFormed, fits, (Ledger.contains_arena base query).mp live⟩
  have upheld := derives.upheld (untouched.upheld wellFormed)
  have lastFormed := derives.grows.1
  have posted {constraint : Constraint}
      (listed : constraint ∈ (last.state counters).constraints.constraints) :
      ∃ index posting, last.postings[index]? = some posting ∧
        constraint = last.constraint index posting := by
    obtain ⟨index, inside, here⟩ := List.mem_mapIdx.mp (List.mem_toArray.mp listed)
    exact ⟨index, _, List.getElem?_eq_getElem inside, here.symm⟩
  refine ⟨fun constraint listed => ?_, fun constraint listed discarded => ?_, fun id inside => ?_⟩
  · simp only [ConstraintStore.active, List.mem_reverse, List.mem_filter, Array.mem_toList_iff] at listed
    obtain ⟨index, posting, known, rfl⟩ := posted listed.1
    exact upheld.isOpen known (by simpa [Ledger.constraint] using listed.2)
  · obtain ⟨index, posting, known, rfl⟩ := posted listed
    exact upheld.isSettled known (by simpa [Ledger.constraint] using discarded)
  · rw [Ledger.arena_state] at inside ⊢
    have idLive := (Ledger.contains_arena last id).mp inside
    exact ⟨upheld.acyclic.evaluate lastFormed idLive, upheld.acyclic.groundValue lastFormed idLive⟩

end

namespace Guarded

def terms : List Shape :=
  [.var, .var, .var, .number (.valid 1), .number (.valid 2),
    .compound (.reserved .unequal) [⟨0⟩, ⟨1⟩],
    .compound (.reserved (.arithmetic .add)) [⟨0⟩, ⟨1⟩],
    .compound (.reserved .greater) [⟨6⟩, ⟨3⟩], .compound (.reserved .unequal) [⟨2⟩, ⟨3⟩],
    .compound (.reserved .greater) [⟨2⟩, ⟨3⟩], .compound (.reserved .equal) [⟨2⟩, ⟨4⟩],
    .compound (.reserved .conjunction) [⟨9⟩, ⟨10⟩],
    .compound (.reserved .conjunction) [⟨8⟩, ⟨11⟩], .compound (.reserved .conjunction) [⟨7⟩, ⟨12⟩],
    .compound (.reserved .conjunction) [⟨5⟩, ⟨13⟩]]

def state : State where
  arena := (Arena.build? {} terms).getD {}

theorem ready : Ready ⟨#[]⟩ state where
  accepted := ⟨[], terms, [], {}, rfl, rfl, by decide +kernel⟩
  untouched := rfl

def answers : List State := ((Search.passWithin ⟨#[]⟩ 100 3 (.start ⟨14⟩ 20) state).getD ([], true)).1

theorem pass : (Search.start ⟨14⟩ 20).Pass ⟨#[]⟩ state answers false :=
  Search.pass_of_within 100 3 (by decide +kernel)

/-- Of four constraints the two on the third variable are discarded once it is two. -/
theorem answer_upheld : ∃ answer ∈ answers,
    answer.constraints.constraints.map (fun constraint => constraint.discarded) =
      #[false, false, true, true] ∧
    ∀ constraint ∈ answer.constraints.active, constraint.Under answer.arena Relation.Open := by
  have held : ∃ answer ∈ answers,
      answer.constraints.constraints.map (fun constraint => constraint.discarded) =
        #[false, false, true, true] := by
    decide +kernel
  obtain ⟨answer, listed, discards⟩ := held
  exact ⟨answer, listed, discards,
    (answer_constraints ready (by decide +kernel) (pass.yields listed)).1⟩

end Guarded

end Resolvent
