import Resolvent.Proofs.Semantics.Unifiers

namespace Resolvent

namespace State

inductive Loops : State → List (TermId × TermId) → Except State State → Prop where
  | done {state : State} : Loops state [] (.ok state)
  | clash {state clashed : State} {pair : TermId × TermId} {rest : List (TermId × TermId)}
      (turned : state.turn pair = .error clashed) : Loops state (pair :: rest) (.error clashed)
  | turn {state later : State} {pair : TermId × TermId} {pairs rest : List (TermId × TermId)}
      {result : Except State State} (turned : state.turn pair = .ok (later, pairs))
      (goesOn : Loops later (pairs ++ rest) result) : Loops state (pair :: rest) result

def Unifies (state : State) (left right : TermId) : Prop :=
  ∃ result, state.Loops [(left, right)] result ∧
    state.unify left right =
      match result with
      | .ok unified => (true, unified.record .unification)
      | .error clashed => (false, (clashed.restore state.snapshot).record .unificationFailure)

end State

namespace Ledger

variable {ledger later : Ledger}

/-- So many compounds lie above a term on some path, which reads as smaller and smaller trees. -/
def Below (ledger : Ledger) (depth : Nat) (id : TermId) : Prop :=
  ∀ ρ, Models ρ ledger → rank ρ ledger (ρ id) + depth ≤ ledger.size

theorem below_zero (ledger : Ledger) (id : TermId) : ledger.Below 0 id :=
  fun ρ _ => rank_le ρ ledger (ρ id)

theorem Below.grow {depth : Nat} {id : TermId} (below : ledger.Below depth id)
    (grown : later.Binds ledger) : later.Below depth id := by
  intro ρ models
  rw [rank_binds grown]
  obtain ⟨-, pairs, rfl⟩ := grown
  exact below ρ ⟨⟨models.number, models.compound⟩,
    fun binding member => models.bound binding (List.mem_append_left _ member)⟩

theorem Below.arg {depth : Nat} {id arg : TermId} {symbol : Symbol} {args : List TermId}
    (below : ledger.Below depth id) (wellFormed : ledger.WellFormed)
    (shape : ledger.shape? (ledger.arena.deref id) = some (.compound symbol args))
    (member : arg ∈ args) : ledger.Below (depth + 1) arg := by
  intro ρ models
  have fewer := rank_lt (live_of_shape shape) (models.sizeOf_arg shape member)
  rw [models.deref wellFormed] at fewer
  have bound := below ρ models
  omega

theorem Below.lt {depth : Nat} {id : TermId} (below : ledger.Below depth id)
    (acyclic : ledger.Acyclic) (live : ledger.Live id) : depth < ledger.size := by
  obtain ⟨ρ, models⟩ := acyclic
  have bound := below ρ models
  have counted := @rank_pos ledger ρ id live
  omega

structure Pending (ledger : Ledger) (depth : Nat) (pairs : List (TermId × TermId)) : Prop where
  wellFormed : ledger.WellFormed
  acyclic : ledger.Acyclic
  live : ∀ pair ∈ pairs, ledger.LivePair pair
  below : ∀ pair ∈ pairs, ledger.Below depth pair.1

variable {depth fuel : Nat} {pair : TermId × TermId} {pairs rest : List (TermId × TermId)}

theorem Pending.head (pending : ledger.Pending depth (pair :: rest)) :
    ledger.Pending depth [pair] where
  wellFormed := pending.wellFormed
  acyclic := pending.acyclic
  live := by simpa using pending.live pair List.mem_cons_self
  below := by simpa using pending.below pair List.mem_cons_self

theorem Pending.tail (pending : ledger.Pending depth (pair :: rest)) (grown : later.Binds ledger)
    (acyclic : later.Acyclic) : later.Pending depth rest where
  wellFormed := grown.wellFormed
  acyclic := acyclic
  live other member := grown.livePair (pending.live other (List.mem_cons_of_mem _ member))
  below other member := (pending.below other (List.mem_cons_of_mem _ member)).grow grown

theorem Reduces.pending (reduces : ledger.Reduces pair (.ok (later, pairs)))
    (pending : ledger.Pending depth [pair]) :
    later.Binds ledger ∧ later.Pending (depth + 1) pairs := by
  obtain ⟨wellFormed, acyclic, -, below⟩ := pending
  cases reduces with
  | same | sameNumber => exact ⟨.refl wellFormed, wellFormed, acyclic, by simp, by simp⟩
  | binds opens =>
    have grown := opens.binds wellFormed
    exact ⟨grown, grown.wellFormed, opens.acyclic acyclic wellFormed, by simp, by simp⟩
  | descends leftShape rightShape =>
    refine ⟨.refl wellFormed, wellFormed, acyclic,
      wellFormed.live_zip leftShape rightShape, ?_⟩
    intro inner member
    exact (below _ List.mem_cons_self).arg wellFormed leftShape (List.of_mem_zip member).1

theorem Reduces.clash (reduces : ledger.Reduces pair (.error later)) : later = ledger := by
  cases reduces
  rfl

def Onward (counters : Counters) (ledger : Ledger) (pairs : List (TermId × TermId)) :
    Except Ledger Ledger → Prop
  | .ok later =>
    later.Binds ledger ∧ later.Acyclic ∧ ∀ rest result,
      (later.state counters).Loops rest result →
        (ledger.state counters).Loops (pairs ++ rest) result
  | .error clash =>
    ∀ rest, (ledger.state counters).Loops (pairs ++ rest) (.error (clash.state counters))

theorem Onward.turn {counters : Counters} {middle : Ledger} {result : Except Ledger Ledger}
    (onward : Onward counters middle pairs result) (grown : middle.Binds ledger)
    (run : (ledger.state counters).turn pair = .ok (middle.state counters, pairs)) :
    Onward counters ledger [pair] result := by
  cases result with
  | ok later =>
    obtain ⟨laterGrown, acyclic, goesOn⟩ := onward
    exact ⟨laterGrown.trans grown, acyclic, fun rest result loops =>
      .turn run (goesOn rest result loops)⟩
  | error clash => exact fun rest => .turn run (onward rest)

theorem Onward.cons {counters : Counters} {middle : Ledger} {result : Except Ledger Ledger}
    (onward : Onward counters ledger [pair] (.ok middle))
    (others : Onward counters middle rest result) :
    Onward counters ledger (pair :: rest) result := by
  obtain ⟨grown, acyclic, goesOn⟩ := onward
  cases result with
  | ok later =>
    obtain ⟨laterGrown, laterAcyclic, onward⟩ := others
    exact ⟨laterGrown.trans grown, laterAcyclic, fun more result loops =>
      goesOn (rest ++ more) result (onward more result loops)⟩
  | error clash => exact fun more => goesOn (rest ++ more) _ (others more)

theorem Binds.size_le {bound : Nat} (grown : later.Binds ledger) (enough : ledger.size ≤ bound) :
    later.size ≤ bound := by
  obtain ⟨-, bindings, rfl⟩ := grown
  exact enough

theorem Pending.onwardAll {counters : Counters}
    (each : ∀ {ledger : Ledger} {pair : TermId × TermId}, ledger.Pending depth [pair] →
      ledger.size ≤ depth + fuel →
      ∃ result, State.solveWithin fuel (ledger.state counters) pair = outcome counters result ∧
        Onward counters ledger [pair] result)
    (pending : ledger.Pending depth pairs) (enough : ledger.size ≤ depth + fuel) :
    ∃ result,
      pairs.foldlM (State.solveWithin fuel) (ledger.state counters) = outcome counters result ∧
        Onward counters ledger pairs result := by
  induction pairs generalizing ledger with
  | nil =>
    exact ⟨.ok ledger, rfl, .refl pending.wellFormed, pending.acyclic, fun _ _ loops => loops⟩
  | cons pair rest ih =>
    obtain ⟨first, run, onward⟩ := each pending.head enough
    cases first with
    | error clash =>
      refine ⟨.error clash, ?_, fun others => onward (rest ++ others)⟩
      rw [List.foldlM_cons, run]
      rfl
    | ok middle =>
      have grown := onward.1
      obtain ⟨result, restRun, others⟩ := ih (pending.tail grown onward.2.1) (grown.size_le enough)
      refine ⟨result, ?_, onward.cons others⟩
      rw [List.foldlM_cons, run]
      exact restRun

/-- What is recursive in the arguments does as the loop does, as long as there is fuel for all
    compounds that can lie below one another. -/
theorem Pending.onward {counters : Counters} (fuel : Nat) (pending : ledger.Pending depth [pair])
    (enough : ledger.size ≤ depth + fuel) :
    ∃ result, State.solveWithin fuel (ledger.state counters) pair = outcome counters result ∧
      Onward counters ledger [pair] result := by
  induction fuel generalizing ledger depth pair with
  | zero =>
    have fewer := (pending.below pair List.mem_cons_self).lt pending.acyclic
      (pending.live pair List.mem_cons_self).1
    omega
  | succ fuel ih =>
    obtain ⟨next, reduces, run⟩ := turn_state pending.wellFormed (pending.live pair List.mem_cons_self)
    rw [State.solveWithin_turn, run counters]
    cases next with
    | error clash =>
      obtain rfl := reduces.clash
      exact ⟨.error clash, rfl, fun rest => .clash (run counters)⟩
    | ok next =>
      obtain ⟨middle, pairs⟩ := next
      obtain ⟨grown, inner⟩ := reduces.pending pending
      obtain ⟨result, runAll, onward⟩ :=
        inner.onwardAll ih (grown.size_le (by omega))
      exact ⟨result, runAll, onward.turn grown (run counters)⟩

theorem Acyclic.unifies (acyclic : ledger.Acyclic) (wellFormed : ledger.WellFormed)
    {left right : TermId} (leftLive : ledger.Live left) (rightLive : ledger.Live right)
    (counters : Counters) : (ledger.state counters).Unifies left right := by
  have pending : ledger.Pending 0 [(left, right)] :=
    ⟨wellFormed, acyclic, by simpa using ⟨leftLive, rightLive⟩,
      fun pair _ => below_zero ledger pair.1⟩
  obtain ⟨result, run, onward⟩ := @Pending.onward _ _ _ counters ledger.size pending (by omega)
  cases result with
  | ok later =>
    refine ⟨_, onward.2.2 [] _ .done, ?_⟩
    simp only [State.unify, arena_state, size_arena, run, outcome]
  | error clash =>
    refine ⟨_, onward [], ?_⟩
    simp only [State.unify, arena_state, size_arena, run, outcome]

end Ledger

end Resolvent
