import Resolvent.Proofs.Search.Answers

namespace Resolvent

variable {program : Program} {goal id : TermId} {ledger middle last : Ledger} {symbol : Symbol}
  {args : List TermId}

theorem Ledger.Allocates.calls {later earlier : Ledger} (grown : later.Allocates earlier) :
    later.calls = earlier.calls := grown.advances.calls

theorem Derives.enters (derives : Derives program goal ledger last)
    (opened : Opened program goal ledger symbol args) :
    ∃ choice, last.Extends (ledger.enter goal choice) := by
  cases derives with
  | number _ shape => cases opened.shape.symm.trans shape
  | waits _ isVar | delays _ isVar => cases opened.shape.symm.trans isVar
  | active _ _ active => exact absurd active opened.idle
  | negation => exact ⟨_, .refl _⟩
  | conjunction _ _ first second => exact ⟨_, second.grows.2.trans first.grows.2⟩
  | disjunction _ _ _ inner => exact ⟨_, inner.grows.2⟩
  | answers opened form performs =>
    have sides := opened.sides form none
    exact ⟨_, (performs.advances (opened.enter _).1 sides.1 sides.2).grown⟩
  | delegates opened form performs inner =>
    have sides := opened.sides form none
    exact ⟨_, inner.grows.2.trans (performs.advances (opened.enter _).1 sides.1 sides.2).grown⟩
  | fact opened _ _ _ matched head =>
    exact ⟨_, head.grows.2.trans (matched.grows (opened.enter _).1).extends⟩
  | rule opened _ _ _ matched head copied inner =>
    exact ⟨_, inner.grows.2.trans ((copied.grows head.grows.1).extends.trans
      (head.grows.2.trans (matched.grows (opened.enter _).1).extends))⟩

theorem Ledger.mem_enter (ledger : Ledger) (goal : TermId) (choice : Option Choice) :
    ledger.arena.deref goal ∈ (ledger.enter goal choice).calls := by
  simp [Ledger.enter, Ledger.register]

theorem Derives.mem_calls (derives : Derives program goal ledger last)
    (shape : ledger.shape? (ledger.arena.deref goal) = some (.compound symbol args)) :
    ledger.arena.deref goal ∈ last.calls := by
  by_cases active : ledger.arena.deref goal ∈ ledger.calls
  · exact derives.grows.2.calls.subset active
  · obtain ⟨choice, grown⟩ := derives.enters ⟨derives.called, shape, active⟩
    exact grown.calls.subset (ledger.mem_enter goal choice)

theorem Derives.compound_called (derives : Derives program goal ledger last)
    (shape : last.shape? goal = some (.compound symbol args)) : goal ∈ last.calls := by
  have called := derives.called
  rw [derives.grows.2.shape_eq called.live] at shape
  have still : ledger.arena.deref goal = goal := called.wellFormed.deref_of_shape (by simp [shape])
  have member := derives.mem_calls (by rwa [still])
  rwa [still] at member

inductive Answered (program : Program) (first last : Ledger) (id : TermId) : Prop where
  | intro {goal : TermId} {before after : Ledger} {symbol : Symbol} {args : List TermId}
      (reached : before.Extends first) (opened : Opened program goal before symbol args)
      (ends : before.arena.deref goal = id) (derives : Derives program goal before after)
      (onward : last.Extends after) : Answered program first last id

theorem Answered.within {first : Ledger} (answered : Answered program ledger middle id)
    (before : ledger.Extends first) (onward : last.Extends middle) :
    Answered program first last id := by
  obtain ⟨reached, opened, ends, derives, after⟩ := answered
  exact ⟨reached.trans before, opened, ends, derives, onward.trans after⟩

theorem Opened.answered (opened : Opened program goal ledger symbol args)
    (derives : Derives program goal ledger last) (choice : Option Choice) (new : id ∉ ledger.calls)
    (rest : id ∉ (ledger.enter goal choice).calls →
      Answered program (ledger.enter goal choice) last id) : Answered program ledger last id := by
  by_cases here : ledger.arena.deref goal = id
  · exact ⟨.refl _, opened, here, derives, .refl _⟩
  · refine (rest fun inside => ?_).within (opened.enter choice).2 (.refl _)
    rcases List.mem_append.mp inside with old | single
    · exact new old
    · exact here (List.mem_singleton.mp single).symm

/-- Whatever is new on the call stack was called and has answered in between. -/
theorem Derives.answered (derives : Derives program goal ledger last) (member : id ∈ last.calls)
    (new : id ∉ ledger.calls) : Answered program ledger last id := by
  induction derives with
  | number | waits | delays | active => exact absurd member new
  | negation opened form =>
    exact opened.answered (.negation opened form) none new fun fresh => absurd member fresh
  | @conjunction goal left right ledger middle last symbol args opened form first second firstIh
      secondIh =>
    refine opened.answered (.conjunction opened form first second) none new fun fresh => ?_
    by_cases early : id ∈ middle.calls
    · exact (firstIh early fresh).within (.refl _) second.grows.2
    · exact (secondIh member early).within first.grows.2 (.refl _)
  | disjunction opened form side inner ih =>
    exact opened.answered (.disjunction opened form side inner) _ new fun fresh => ih member fresh
  | answers opened form performs =>
    have sides := opened.sides form none
    have advances := performs.advances (opened.enter _).1 sides.1 sides.2
    rw [advances.calls] at member
    exact opened.answered (.answers opened form performs) none new fun fresh => absurd member fresh
  | delegates opened form performs inner ih =>
    have sides := opened.sides form none
    have advances := performs.advances (opened.enter _).1 sides.1 sides.2
    rw [advances.calls] at ih
    exact opened.answered (.delegates opened form performs inner) none new fun fresh =>
      (ih member fresh).within advances.grown (.refl _)
  | fact opened form held bodiless matched head ih =>
    have grown := matched.grows (opened.enter _).1
    rw [grown.calls] at ih
    exact opened.answered (.fact opened form held bodiless matched head) _ new fun fresh =>
      (ih member fresh).within grown.extends (.refl _)
  | @rule goal equation body copy clause index names known named ledger middle later start last symbol
      args opened form held has matched head copied inner headIh ih =>
    have grown := matched.grows (opened.enter _).1
    have further := copied.grows head.grows.1
    rw [grown.calls] at headIh
    rw [further.calls] at ih
    refine opened.answered (.rule opened form held has matched head copied inner)
      (some (.clause index)) new fun fresh => ?_
    by_cases early : id ∈ later.calls
    · exact (headIh early fresh).within grown.extends (inner.grows.2.trans further.extends)
    · exact (ih member early).within (further.extends.trans (head.grows.2.trans grown.extends))
        (.refl _)

theorem Derives.conjunction_parts {left right : TermId} (derives : Derives program goal ledger last)
    (opened : Opened program goal ledger (.reserved .conjunction) [left, right]) :
    ∃ middle, Derives program left (ledger.enter goal none) middle ∧
      Derives program right middle last := by
  cases derives with
  | number _ shape => cases opened.shape.symm.trans shape
  | waits _ isVar | delays _ isVar => cases opened.shape.symm.trans isVar
  | active _ _ active => exact absurd active opened.idle
  | conjunction also form first second =>
    cases opened.shape.symm.trans also.shape
    cases form
    exact ⟨_, first, second⟩
  | negation also form | disjunction also form | answers also form | delegates also form
  | fact also form | rule also form =>
    cases opened.shape.symm.trans also.shape
    cases form

theorem Derives.conjuncts {left right : TermId} (derives : Derives program goal ledger last)
    (member : id ∈ last.calls) (new : id ∉ ledger.calls)
    (shape : last.shape? id = some (.compound (.reserved .conjunction) [left, right])) :
    ∀ inner ∈ [left, right], (∃ symbol args, last.shape? inner = some (.compound symbol args)) →
      inner ∈ last.calls := by
  obtain ⟨_, opened, rfl, inside, onward⟩ := derives.answered member new
  have known := onward.shape (inside.grows.2.shape opened.shape)
  cases known.symm.trans shape
  obtain ⟨middle, first, second⟩ := inside.conjunction_parts opened
  have reached {inner : TermId} {before after : Ledger} (part : Derives program inner before after)
      (grown : last.Extends after)
      (compound : ∃ symbol args, last.shape? inner = some (.compound symbol args)) :
      inner ∈ last.calls := by
    obtain ⟨symbol, args, compound⟩ := compound
    rw [grown.shape_eq (part.grows.2.live part.called.live)] at compound
    exact grown.calls.subset (part.compound_called compound)
  simp only [List.mem_cons, List.not_mem_nil, or_false, forall_eq_or_imp, forall_eq]
  exact ⟨reached first (onward.trans second.grows.2), reached second onward⟩

theorem Derives.conjoined {base : Nat} {goals : List TermId}
    (derives : Derives program goal ledger last) (conjoins : ledger.Conjoins base goal goals)
    (old : ∀ id ∈ ledger.calls, id.index < base) :
    ∀ inner ∈ goals, (∃ symbol args, last.shape? inner = some (.compound symbol args)) →
      inner ∈ last.calls := by
  -- Any node of the conjunction will do that is on the call stack if it is a compound.
  have fromNode {node : TermId} {goals : List TermId} (conjoins : ledger.Conjoins base node goals)
      (here : (∃ symbol args, last.shape? node = some (.compound symbol args)) → node ∈ last.calls) :
      ∀ inner ∈ goals, (∃ symbol args, last.shape? inner = some (.compound symbol args)) →
        inner ∈ last.calls := by
    induction conjoins with
    | last => simpa using here
    | @cons node first rest goals fresh shape others ih =>
      have known := derives.grows.2.shape shape
      have new : node ∉ ledger.calls := fun listed => absurd (old node listed) (Nat.not_lt.mpr fresh)
      have parts := derives.conjuncts (here ⟨_, _, known⟩) new known
      simp only [List.mem_cons, forall_eq_or_imp]
      exact ⟨parts first (by simp), ih (parts rest (by simp))⟩
  exact fromNode conjoins fun ⟨symbol, args, shape⟩ => derives.compound_called shape

end Resolvent
