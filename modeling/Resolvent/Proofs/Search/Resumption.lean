import Resolvent.Query
import Resolvent.Proofs.Ledger.Surfacing
import Resolvent.Proofs.Search.Called
import Resolvent.Proofs.Search.Ready

namespace Resolvent

namespace Ledger

variable {ledger later : Ledger} {goals : List TermId}

def Resumed (ledger : Ledger) (goals : List TermId) : Prop :=
  ∀ var ∈ ledger.delayed,
    (∃ symbol args, ledger.shape? (ledger.arena.deref var) = some (.compound symbol args)) →
      ledger.arena.deref var ∈ ledger.calls ∨ ledger.arena.deref var ∈ goals

theorem Resumed.still (resumed : ledger.Resumed goals) (wellFormed : ledger.WellFormed)
    (laterFormed : later.WellFormed) (grown : later.Extends ledger)
    (bindings : later.bindings = ledger.bindings) (delayed : later.delayed = ledger.delayed) :
    later.Resumed goals := by
  intro var member compound
  rw [delayed] at member
  have live := wellFormed.live_deref (live_of_shape (wellFormed.delayed_var var member))
  rw [grown.deref_same wellFormed laterFormed bindings] at compound ⊢
  rw [grown.shape_eq live] at compound
  exact (resumed var member compound).imp_left fun listed => grown.calls.subset listed

theorem Resumed.allocates (resumed : ledger.Resumed goals) (wellFormed : ledger.WellFormed)
    (grown : later.Allocates ledger) : later.Resumed goals :=
  resumed.still wellFormed grown.wellFormed grown.extends grown.keeps.bindings grown.advances.delayed

theorem Resumed.delay (resumed : ledger.Resumed goals) {var : TermId}
    (isVar : ledger.shape? var = some .var) (ends : ledger.arena.deref var = var)
    (wellFormed : ledger.WellFormed) (laterFormed : (ledger.delay var).WellFormed) :
    (ledger.delay var).Resumed goals := by
  intro other member compound
  rw [(delay_extends ledger var).deref_same wellFormed laterFormed rfl] at compound ⊢
  rcases List.mem_append.mp member with old | new
  · exact resumed other old compound
  · obtain ⟨symbol, args, shape⟩ := compound
    rw [List.mem_singleton.mp new, ends] at shape
    cases isVar.symm.trans shape

section

variable {left right : TermId} {reply : Reply} (before : ledger.Resumed goals)
  (wellFormed : ledger.WellFormed) (leftLive : ledger.Live left) (rightLive : ledger.Live right)

include before wellFormed leftLive rightLive

/-- What unification surfaces is still among the goals once constraints were decided again. -/
theorem Unifies.resumed {after : Ledger} {last : Review}
    (unifies : Unifies ledger left right after last later) : later.Resumed (goals ++ last.goals) := by
  have unified : after.Resumed (goals ++ last.goals) := by
    intro var member compound
    rw [unifies.binds.advances.delayed] at member
    rw [unifies.binds.advances.calls, List.mem_append]
    obtain ⟨symbol, args, shape⟩ := compound
    rcases unifies.solves.surfaces wellFormed (leftLive.pair rightLive) member shape with
      same | active | surfaced
    · rw [← same, unifies.binds.shape?] at shape
      rw [← same]
      exact (before var member ⟨symbol, args, shape⟩).imp_right .inl
    · exact .inl active
    · exact .inr (.inr (unifies.rechecks.subset_goals surfaced))
  exact unified.still unifies.binds.wellFormed unifies.onward.wellFormed unifies.onward.grown
    unifies.bindings unifies.onward.delayed

theorem Performs.resumed {builtin : Builtin}
    (performs : ledger.Performs left right builtin reply later) (goesOn : reply ≠ .fails) :
    ∃ others, later.Leaves reply others ∧ later.Resumed (goals ++ others) := by
  have advances := performs.advances wellFormed leftLive rightLive
  rcases performs.goesOn wellFormed leftLive rightLive goesOn with
    ⟨keeps, others, leaves⟩ | ⟨after, last, unifies, leaves⟩
  · refine ⟨others, leaves, fun var member compound => ?_⟩
    have kept := before.still wellFormed advances.wellFormed advances.grown keeps.bindings advances.delayed
    exact (kept var member compound).imp_right fun listed => List.mem_append_left _ listed
  · exact ⟨_, leaves, unifies.resumed before wellFormed leftLive rightLive⟩

end

end Ledger

section

variable {program : Program} {goal : TermId} {ledger last : Ledger} {goals : List TermId}

theorem Opened.resumed {symbol : Symbol} {args : List TermId}
    (opened : Opened program goal ledger symbol args) (resumed : ledger.Resumed goals)
    (choice : Option Choice) : (ledger.enter goal choice).Resumed goals :=
  resumed.still opened.wellFormed (opened.enter choice).1 (opened.enter choice).2 rfl rfl

theorem Derives.resumed (derives : Derives program goal ledger last)
    (resumed : ledger.Resumed goals) : last.Resumed goals := by
  induction derives generalizing goals with
  | number | waits | active => exact resumed
  | @delays goal ledger called isVar fresh =>
    have ends : ledger.arena.deref (ledger.arena.deref goal) = ledger.arena.deref goal :=
      Ledger.deref_of_unbound (called.wellFormed.binding?_deref goal)
    exact resumed.delay isVar ends called.wellFormed (called.wellFormed.delay isVar fresh)
  | negation opened => exact opened.resumed resumed _
  | conjunction opened _ _ _ firstIh secondIh => exact secondIh (firstIh (opened.resumed resumed _))
  | disjunction opened _ _ _ ih => exact ih (opened.resumed resumed _)
  | answers opened form performs =>
    have sides := opened.sides form none
    obtain ⟨others, leaves, kept⟩ := performs.resumed (opened.resumed resumed _) (opened.enter none).1
      sides.1 sides.2 (by simp)
    cases leaves
    simpa using kept
  | delegates opened form performs inner ih =>
    have sides := opened.sides form none
    obtain ⟨others, leaves, kept⟩ := performs.resumed (opened.resumed resumed _) (opened.enter none).1
      sides.1 sides.2 (by simp)
    cases leaves with
    | delegates conjoins old =>
      intro var member compound
      refine (ih kept var member compound).elim .inl fun listed => ?_
      rcases List.mem_append.mp listed with early | new
      · exact .inr early
      · exact .inl (inner.conjoined conjoins old _ new compound)
  | fact opened _ _ _ matched _ ih =>
    exact ih ((opened.resumed resumed _).allocates (opened.enter _).1 (matched.grows (opened.enter _).1))
  | rule opened _ _ _ matched head copied _ headIh ih =>
    have grown := matched.grows (opened.enter _).1
    have later := headIh ((opened.resumed resumed _).allocates (opened.enter _).1 grown)
    exact ih (later.allocates head.grows.1 (copied.grows head.grows.1))

/-- No delayed goal is lost. Whatever became of a variable that was called as a goal: it has no value
    yet, and any solution lists it; or it is a number, which holds; or it is a compound that is on
    the call stack, which means that it was called as a goal of its own and has answered. -/
theorem answer_delayed {state answer : State} {query : TermId} {limit : Nat}
    (ready : Ready program state) (live : state.arena.contains query = true)
    (yields : (Search.start query limit).Yields program state answer) :
    ∀ var ∈ answer.delayed,
      (answer.arena.isUnassigned (answer.arena.deref var) = true ∧
        answer.arena.deref var ∈ answer.pendingDelayed ∧
        ∀ vars, answer.arena.value (answer.arena.deref var) ∈ (answer.solution vars).delayed) ∨
      (∃ value, answer.arena.node (answer.arena.deref var) = .number value) ∨
      ∃ cell, answer.arena.node (answer.arena.deref var) = .compound cell ∧ cell.active = true ∧
        answer.arena.deref var ∈ answer.callStack ∧
        Answered program state.ledger answer.ledger (answer.arena.deref var) := by
  obtain ⟨base, same, untouched, wellFormed, fits⟩ := ready.ledger
  rw [same] at live yields ⊢
  obtain ⟨last, derives, counters, rfl⟩ :=
    yields.derives ⟨wellFormed, fits, (Ledger.contains_arena base query).mp live⟩
  have lastFormed := derives.grows.1
  have resumed : last.Resumed [] := derives.resumed (by rw [Ledger.Resumed, untouched]; simp)
  simp only [Ledger.arena_state, Ledger.ledger_state wellFormed, Ledger.ledger_state lastFormed]
  intro var listed
  have member : var ∈ last.delayed := by simpa [Ledger.state] using listed
  obtain ⟨shape, known⟩ :=
    (lastFormed.live_deref (Ledger.live_of_shape (lastFormed.delayed_var var member))).shape
  cases shape with
  | number value => exact .inr (.inl ⟨value, Ledger.node_number known⟩)
  | var =>
    have unassigned : last.arena.isUnassigned (last.arena.deref var) = true := by
      simp [Arena.isUnassigned, Ledger.node_var known, lastFormed.unbound_deref]
    have pending : last.arena.deref var ∈ (last.state counters).pendingDelayed := by
      simp only [State.pendingDelayed, Ledger.arena_state, List.mem_filter, List.mem_map,
        List.mem_reverse, Array.mem_toList_iff]
      exact ⟨⟨var, listed, rfl⟩, unassigned⟩
    exact .inl ⟨unassigned, pending, fun vars => List.mem_map_of_mem pending⟩
  | compound symbol args =>
    have active := (resumed var member ⟨symbol, args, known⟩).resolve_right (by simp)
    refine .inr (.inr ⟨_, Ledger.node_compound known, by simpa using active, ?_, ?_⟩)
    · simpa [Ledger.state] using active
    · exact derives.answered active (by rw [untouched]; simp)

end

namespace Aliased

def terms : List Shape := [.compound (.user 0) []]

def queryTerms : List Shape :=
  [.var, .var, .compound (.user 0) [], .compound (.reserved .equal) [⟨1⟩, ⟨2⟩],
    .compound (.reserved .equal) [⟨2⟩, ⟨3⟩], .compound (.reserved .conjunction) [⟨4⟩, ⟨5⟩],
    .compound (.reserved .conjunction) [⟨1⟩, ⟨6⟩]]

def program : Program where
  clauses := #[⟨⟨0⟩, none, .user 0, 0⟩]

def state : State where
  arena := (Arena.build? {} (terms ++ queryTerms)).getD {}

theorem ready : Ready program state where
  accepted :=
    ⟨terms, queryTerms, [⟨0⟩], (Arena.build? {} terms).getD {}, by decide +kernel, by rfl,
      by decide +kernel⟩
  untouched := rfl

def answers : List State := ((Search.passWithin program 100 3 (.start ⟨7⟩ 20) state).getD ([], true)).1

theorem pass : (Search.start ⟨7⟩ 20).Pass program state answers false :=
  Search.pass_of_within 100 3 (by decide +kernel)

/-- The first variable is called, made equal to the second, and that one to a fact. -/
theorem alias_resumed : ∃ answer ∈ answers, ⟨1⟩ ∈ answer.delayed ∧ answer.arena.deref ⟨1⟩ = ⟨3⟩ ∧
    Answered program state.ledger answer.ledger ⟨3⟩ := by
  have held : ∃ answer ∈ answers, ⟨1⟩ ∈ answer.delayed ∧ answer.arena.deref ⟨1⟩ = ⟨3⟩ ∧
      (answer.arena.compound? ⟨3⟩).isSome = true := by
    decide +kernel
  obtain ⟨answer, listed, delayed, ends, compound⟩ := held
  refine ⟨answer, listed, delayed, ends, ?_⟩
  have settled := answer_delayed ready (by decide +kernel) (pass.yields listed) ⟨1⟩ delayed
  rw [ends] at settled
  rcases settled with ⟨unassigned, -, -⟩ | ⟨value, number⟩ | ⟨cell, node, -, -, answered⟩
  · simp only [Arena.compound?, Arena.isUnassigned] at compound unassigned
    split at compound <;> simp_all
  · simp [Arena.compound?, number] at compound
  · exact answered

end Aliased

end Resolvent
