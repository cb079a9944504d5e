import Resolvent.Trail.Unification
import Resolvent.Proofs.Ledger.Allocation
import Resolvent.Proofs.Ledger.Operations

namespace Resolvent

namespace State

/-- Makes the ends of two chains equal, or gives the pairs of arguments that are to be made equal
    in their place. -/
def turn (state : State) : TermId × TermId → Except State (State × List (TermId × TermId))
  | (left, right) =>
    let left := state.arena.deref left
    let right := state.arena.deref right
    if left = right then .ok (state, [])
    else
      match state.arena.node left, state.arena.node right with
      | .compound first, .compound second =>
        if first.symbol = second.symbol ∧ first.args.length = second.args.length then
          .ok (state, first.args.zip second.args)
        else .error state
      | .var _, _ => (state.assign left right).map fun bound => (bound, [])
      | _, .var _ => (state.assign right left).map fun bound => (bound, [])
      | .number first, .number second => if first = second then .ok (state, []) else .error state
      | _, _ => .error state

theorem solveWithin_turn (fuel : Nat) (state : State) (pair : TermId × TermId) :
    solveWithin (fuel + 1) state pair =
      (state.turn pair).bind fun (later, pairs) => pairs.foldlM (solveWithin fuel) later := by
  have assigned (var term : TermId) :
      state.assign var term = ((state.assign var term).map fun bound => (bound, [])).bind
        fun (later, pairs) => pairs.foldlM (solveWithin fuel) later := by
    cases state.assign var term <;> rfl
  obtain ⟨left, right⟩ := pair
  by_cases same : state.arena.deref left = state.arena.deref right
  · simp only [solveWithin, turn, same, if_true]
    rfl
  simp only [solveWithin, turn, same, if_false]
  cases state.arena.node (state.arena.deref left) with
  | var => exact assigned _ _
  | number first =>
    cases state.arena.node (state.arena.deref right) with
    | var => exact assigned _ _
    | number second =>
      simp only
      split <;> rfl
    | compound => rfl
  | compound first =>
    cases state.arena.node (state.arena.deref right) with
    | var => exact assigned _ _
    | number => rfl
    | compound second =>
      simp only
      split <;> rfl

end State

namespace Ledger

variable {ledger : Ledger}

def Binds (later earlier : Ledger) : Prop :=
  later.WellFormed ∧ ∃ pairs, later = { earlier with bindings := earlier.bindings ++ pairs }

theorem Binds.refl (wellFormed : ledger.WellFormed) : ledger.Binds ledger :=
  ⟨wellFormed, [], by simp⟩

theorem Binds.trans {last middle first : Ledger} (later : last.Binds middle)
    (earlier : middle.Binds first) : last.Binds first := by
  obtain ⟨wellFormed, pairs, rfl⟩ := later
  obtain ⟨-, others, rfl⟩ := earlier
  exact ⟨wellFormed, others ++ pairs, by simp⟩

theorem Binds.wellFormed {later earlier : Ledger} (grown : later.Binds earlier) :
    later.WellFormed := grown.1

theorem Binds.extends {later earlier : Ledger} (grown : later.Binds earlier) :
    later.Extends earlier := by
  obtain ⟨-, pairs, rfl⟩ := grown
  constructor <;> simp

theorem Binds.shape? {later earlier : Ledger} (grown : later.Binds earlier) (id : TermId) :
    later.shape? id = earlier.shape? id := by
  obtain ⟨-, pairs, rfl⟩ := grown
  rfl

theorem Binds.postings {later earlier : Ledger} (grown : later.Binds earlier) :
    later.postings = earlier.postings := by
  obtain ⟨-, pairs, rfl⟩ := grown
  rfl

theorem Binds.discards {later earlier : Ledger} (grown : later.Binds earlier) :
    later.discards = earlier.discards := by
  obtain ⟨-, pairs, rfl⟩ := grown
  rfl

theorem Binds.live {later earlier : Ledger} (grown : later.Binds earlier) {id : TermId}
    (live : earlier.Live id) : later.Live id := grown.extends.live live

theorem Binds.livePair {later earlier : Ledger} (grown : later.Binds earlier)
    {pair : TermId × TermId} (live : earlier.LivePair pair) : later.LivePair pair :=
  ⟨grown.live live.1, grown.live live.2⟩

theorem Binds.livePairs {later earlier : Ledger} (grown : later.Binds earlier)
    {pairs : List (TermId × TermId)} (live : ∀ pair ∈ pairs, earlier.LivePair pair) :
    ∀ pair ∈ pairs, later.LivePair pair :=
  fun pair member => grown.livePair (live pair member)

structure Opens (ledger : Ledger) (var target : TermId) : Prop where
  isVar : ledger.shape? var = some .var
  unbound : ledger.binding? var = none
  live : ledger.Live target
  ends : ledger.binding? target = none
  different : var ≠ target
  older : ledger.shape? target = some .var → target.index < var.index
  absent : ∀ symbol args, ledger.shape? target = some (.compound symbol args) →
    ledger.arena.occurs var target = false

theorem Opens.binds {var target : TermId} (opens : ledger.Opens var target)
    (wellFormed : ledger.WellFormed) : (ledger.bind var target).Binds ledger :=
  ⟨wellFormed.bind opens.isVar opens.unbound opens.live opens.ends opens.different,
    [(var, target)], rfl⟩

inductive Clash (ledger : Ledger) : TermId → TermId → Prop where
  | numbers {left right : TermId} {first second : Rational}
      (leftShape : ledger.shape? left = some (.number first))
      (rightShape : ledger.shape? right = some (.number second)) (different : first ≠ second) :
      Clash ledger left right
  | numberCompound {left right : TermId} {value : Rational} {symbol : Symbol}
      {args : List TermId} (leftShape : ledger.shape? left = some (.number value))
      (rightShape : ledger.shape? right = some (.compound symbol args)) : Clash ledger left right
  | compoundNumber {left right : TermId} {value : Rational} {symbol : Symbol}
      {args : List TermId} (leftShape : ledger.shape? left = some (.compound symbol args))
      (rightShape : ledger.shape? right = some (.number value)) : Clash ledger left right
  | functors {left right : TermId} {first second : Symbol} {lefts rights : List TermId}
      (leftShape : ledger.shape? left = some (.compound first lefts))
      (rightShape : ledger.shape? right = some (.compound second rights))
      (different : ¬ (first = second ∧ lefts.length = rights.length)) : Clash ledger left right
  | occursRight {left right : TermId} {symbol : Symbol} {args : List TermId}
      (rightShape : ledger.shape? right = some (.compound symbol args))
      (occurs : ledger.arena.occurs left right = true) : Clash ledger left right
  | occursLeft {left right : TermId} {symbol : Symbol} {args : List TermId}
      (leftShape : ledger.shape? left = some (.compound symbol args))
      (occurs : ledger.arena.occurs right left = true) : Clash ledger left right

/-- What comes of making pairs of terms equal, from left to right: the ledger in which they are, or
    that at the clash. -/
inductive Solves : Nat → Ledger → List (TermId × TermId) → Except Ledger Ledger → Prop where
  | done {fuel : Nat} {ledger : Ledger} : Solves fuel ledger [] (.ok ledger)
  | spent {ledger : Ledger} {pair : TermId × TermId} {rest : List (TermId × TermId)} :
      Solves 0 ledger (pair :: rest) (.error ledger)
  | same {fuel : Nat} {ledger : Ledger} {left right : TermId} {rest : List (TermId × TermId)}
      {result : Except Ledger Ledger}
      (equal : ledger.arena.deref left = ledger.arena.deref right)
      (goesOn : Solves (fuel + 1) ledger rest result) :
      Solves (fuel + 1) ledger ((left, right) :: rest) result
  | sameNumber {fuel : Nat} {ledger : Ledger} {left right : TermId} {value : Rational}
      {rest : List (TermId × TermId)} {result : Except Ledger Ledger}
      (leftShape : ledger.shape? (ledger.arena.deref left) = some (.number value))
      (rightShape : ledger.shape? (ledger.arena.deref right) = some (.number value))
      (goesOn : Solves (fuel + 1) ledger rest result) :
      Solves (fuel + 1) ledger ((left, right) :: rest) result
  | descends {fuel : Nat} {ledger middle : Ledger} {left right : TermId}
      {rest : List (TermId × TermId)} {result : Except Ledger Ledger} {symbol : Symbol}
      {lefts rights : List TermId}
      (leftShape : ledger.shape? (ledger.arena.deref left) = some (.compound symbol lefts))
      (rightShape : ledger.shape? (ledger.arena.deref right) = some (.compound symbol rights))
      (sameLength : lefts.length = rights.length)
      (inside : Solves fuel ledger (lefts.zip rights) (.ok middle))
      (goesOn : Solves (fuel + 1) middle rest result) :
      Solves (fuel + 1) ledger ((left, right) :: rest) result
  | fails {fuel : Nat} {ledger clash : Ledger} {left right : TermId}
      {rest : List (TermId × TermId)} {symbol : Symbol} {lefts rights : List TermId}
      (leftShape : ledger.shape? (ledger.arena.deref left) = some (.compound symbol lefts))
      (rightShape : ledger.shape? (ledger.arena.deref right) = some (.compound symbol rights))
      (sameLength : lefts.length = rights.length)
      (inside : Solves fuel ledger (lefts.zip rights) (.error clash)) :
      Solves (fuel + 1) ledger ((left, right) :: rest) (.error clash)
  | binds {fuel : Nat} {ledger : Ledger} {left right var target : TermId}
      {rest : List (TermId × TermId)} {result : Except Ledger Ledger}
      (opens : ledger.Opens var target)
      (ends : var = ledger.arena.deref left ∧ target = ledger.arena.deref right ∨
        var = ledger.arena.deref right ∧ target = ledger.arena.deref left)
      (goesOn : Solves (fuel + 1) (ledger.bind var target) rest result) :
      Solves (fuel + 1) ledger ((left, right) :: rest) result
  | clashes {fuel : Nat} {ledger : Ledger} {left right : TermId}
      {rest : List (TermId × TermId)}
      (clash : ledger.Clash (ledger.arena.deref left) (ledger.arena.deref right)) :
      Solves (fuel + 1) ledger ((left, right) :: rest) (.error ledger)

def held : Except Ledger Ledger → Ledger
  | .ok ledger => ledger
  | .error ledger => ledger

theorem Solves.grows {fuel : Nat} {pairs : List (TermId × TermId)}
    {result : Except Ledger Ledger} (solves : Solves fuel ledger pairs result)
    (wellFormed : ledger.WellFormed) (live : ∀ pair ∈ pairs, ledger.LivePair pair) :
    (held result).Binds ledger := by
  induction solves with
  | done | spent | clashes => exact .refl wellFormed
  | same _ _ ih | sameNumber _ _ _ ih =>
    exact ih wellFormed fun pair member => live pair (by simp [member])
  | descends leftShape rightShape _ _ _ insideIh ih =>
    have args := wellFormed.live_zip leftShape rightShape
    have grown := insideIh wellFormed args
    have onward := ih grown.wellFormed (grown.livePairs (List.forall_mem_cons.mp live).2)
    exact onward.trans grown
  | fails leftShape rightShape _ _ ih =>
    exact ih wellFormed (wellFormed.live_zip leftShape rightShape)
  | binds opens _ _ ih =>
    have grown := opens.binds wellFormed
    have onward := ih grown.wellFormed (grown.livePairs (List.forall_mem_cons.mp live).2)
    exact onward.trans grown

def outcome (counters : Counters) : Except Ledger Ledger → Except State State
  | .ok ledger => .ok (ledger.state counters)
  | .error ledger => .error (ledger.state counters)

inductive Assigns (ledger : Ledger) (left right : TermId) : Except Ledger Ledger → Prop where
  | binds {var target : TermId} (opens : ledger.Opens var target)
      (ends : var = left ∧ target = right ∨ var = right ∧ target = left) :
      Assigns ledger left right (.ok (ledger.bind var target))
  | clashes {symbol : Symbol} {args : List TermId}
      (rightShape : ledger.shape? right = some (.compound symbol args))
      (occurs : ledger.arena.occurs left right = true) : Assigns ledger left right (.error ledger)

inductive Reduces (ledger : Ledger) : TermId × TermId →
    Except Ledger (Ledger × List (TermId × TermId)) → Prop where
  | same {left right : TermId} (equal : ledger.arena.deref left = ledger.arena.deref right) :
      Reduces ledger (left, right) (.ok (ledger, []))
  | sameNumber {left right : TermId} {value : Rational}
      (leftShape : ledger.shape? (ledger.arena.deref left) = some (.number value))
      (rightShape : ledger.shape? (ledger.arena.deref right) = some (.number value)) :
      Reduces ledger (left, right) (.ok (ledger, []))
  | descends {left right : TermId} {symbol : Symbol} {lefts rights : List TermId}
      (leftShape : ledger.shape? (ledger.arena.deref left) = some (.compound symbol lefts))
      (rightShape : ledger.shape? (ledger.arena.deref right) = some (.compound symbol rights))
      (sameLength : lefts.length = rights.length) :
      Reduces ledger (left, right) (.ok (ledger, lefts.zip rights))
  | binds {left right var target : TermId} (opens : ledger.Opens var target)
      (ends : var = ledger.arena.deref left ∧ target = ledger.arena.deref right ∨
        var = ledger.arena.deref right ∧ target = ledger.arena.deref left) :
      Reduces ledger (left, right) (.ok (ledger.bind var target, []))
  | clashes {left right : TermId}
      (clash : ledger.Clash (ledger.arena.deref left) (ledger.arena.deref right)) :
      Reduces ledger (left, right) (.error ledger)

def turned (counters : Counters) : Except Ledger (Ledger × List (TermId × TermId)) →
    Except State (State × List (TermId × TermId))
  | .ok (ledger, pairs) => .ok (ledger.state counters, pairs)
  | .error ledger => .error (ledger.state counters)

theorem assign_state {var term : TermId} (isVar : ledger.shape? var = some .var)
    (unbound : ledger.binding? var = none) (live : ledger.Live term)
    (ends : ledger.binding? term = none) (different : var ≠ term) :
    ∃ result, ledger.Assigns var term result ∧
      ∀ counters, (ledger.state counters).assign var term = outcome counters result := by
  obtain ⟨shape, known⟩ := live.shape
  cases shape with
  | number value =>
    have opens : ledger.Opens var term :=
      ⟨isVar, unbound, live, ends, different, by simp [known], by simp [known]⟩
    refine ⟨_, .binds opens (.inl ⟨rfl, rfl⟩), fun counters => ?_⟩
    rw [State.assign, arena_state, node_number known]
    exact congrArg Except.ok (bind_state isVar unbound counters)
  | var =>
    by_cases older : var.index < term.index
    · have opens : ledger.Opens term var :=
        ⟨known, ends, live_of_shape isVar, unbound, different.symm, fun _ => older, by simp [isVar]⟩
      refine ⟨_, .binds opens (.inr ⟨rfl, rfl⟩), fun counters => ?_⟩
      rw [State.assign, arena_state, node_var known]
      simp only [older, if_true]
      exact congrArg Except.ok (bind_state known ends counters)
    · have younger : term.index < var.index := by
        have apart : var.index ≠ term.index := by
          intro same
          exact different (by cases var; cases term; simp_all)
        omega
      have opens : ledger.Opens var term :=
        ⟨isVar, unbound, live, ends, different, fun _ => younger, by simp [known]⟩
      refine ⟨_, .binds opens (.inl ⟨rfl, rfl⟩), fun counters => ?_⟩
      rw [State.assign, arena_state, node_var known]
      simp only [older, if_false]
      exact congrArg Except.ok (bind_state isVar unbound counters)
  | compound symbol args =>
    cases occurs : ledger.arena.occurs var term with
    | true =>
      refine ⟨_, .clashes known occurs, fun counters => ?_⟩
      rw [State.assign, arena_state, node_compound known]
      simp only [occurs, if_true]
      rfl
    | false =>
      have opens : ledger.Opens var term :=
        ⟨isVar, unbound, live, ends, different, by simp [known], fun _ _ _ => occurs⟩
      refine ⟨_, .binds opens (.inl ⟨rfl, rfl⟩), fun counters => ?_⟩
      rw [State.assign, arena_state, node_compound known]
      simp only [occurs, Bool.false_eq_true, if_false]
      exact congrArg Except.ok (bind_state isVar unbound counters)

theorem Solves.cons {fuel : Nat} {middle : Ledger} {pair : TermId × TermId}
    {rest : List (TermId × TermId)} {result : Except Ledger Ledger}
    (first : Solves fuel ledger [pair] (.ok middle)) (others : Solves fuel middle rest result) :
    Solves fuel ledger (pair :: rest) result := by
  cases first with
  | same equal goesOn =>
    cases goesOn
    exact .same equal others
  | sameNumber leftShape rightShape goesOn =>
    cases goesOn
    exact .sameNumber leftShape rightShape others
  | descends leftShape rightShape sameLength inside goesOn =>
    cases goesOn
    exact .descends leftShape rightShape sameLength inside others
  | binds opens ends goesOn =>
    cases goesOn
    exact .binds opens ends others

theorem Solves.cons_error {fuel : Nat} {clash : Ledger} {pair : TermId × TermId}
    (rest : List (TermId × TermId)) (first : Solves fuel ledger [pair] (.error clash)) :
    Solves fuel ledger (pair :: rest) (.error clash) := by
  cases first with
  | spent => exact .spent
  | same _ goesOn | sameNumber _ _ goesOn | descends _ _ _ _ goesOn | binds _ _ goesOn => cases goesOn
  | fails leftShape rightShape sameLength inside => exact .fails leftShape rightShape sameLength inside
  | clashes clash => exact .clashes clash

theorem solveAll_state {fuel : Nat}
    (each : ∀ {ledger : Ledger} {pair : TermId × TermId}, ledger.WellFormed →
      ledger.LivePair pair → ∃ result, Solves fuel ledger [pair] result ∧
        ∀ counters, State.solveWithin fuel (ledger.state counters) pair = outcome counters result)
    (wellFormed : ledger.WellFormed) {pairs : List (TermId × TermId)}
    (live : ∀ pair ∈ pairs, ledger.LivePair pair) :
    ∃ result, Solves fuel ledger pairs result ∧
      ∀ counters, pairs.foldlM (State.solveWithin fuel) (ledger.state counters) =
        outcome counters result := by
  induction pairs generalizing ledger with
  | nil => exact ⟨_, .done, fun counters => rfl⟩
  | cons pair rest ih =>
    obtain ⟨first, solves, run⟩ := each wellFormed (live pair (by simp))
    cases first with
    | error clash =>
      refine ⟨_, solves.cons_error rest, fun counters => ?_⟩
      rw [List.foldlM_cons, run]
      rfl
    | ok middle =>
      have grown := solves.grows wellFormed (by simpa using live pair (by simp))
      obtain ⟨result, others, restRun⟩ :=
        ih grown.wellFormed (grown.livePairs (List.forall_mem_cons.mp live).2)
      refine ⟨_, solves.cons others, fun counters => ?_⟩
      rw [List.foldlM_cons, run]
      exact restRun counters

theorem WellFormed.unbound_deref (wellFormed : ledger.WellFormed) (id : TermId) :
    ledger.binding? (ledger.arena.deref id) = none := by
  rw [← wellFormed.binding?_arena]
  exact wellFormed.binding?_deref id

theorem Assigns.reduces {left right : TermId} {result : Except Ledger Ledger}
    (assigns : ledger.Assigns (ledger.arena.deref left) (ledger.arena.deref right) result) :
    ∃ next, ledger.Reduces (left, right) next ∧ ∀ counters,
      (outcome counters result).map (fun bound => (bound, [])) = turned counters next := by
  cases assigns with
  | binds opens ends => exact ⟨_, .binds opens ends, fun _ => rfl⟩
  | clashes shape occurs => exact ⟨_, .clashes (.occursRight shape occurs), fun _ => rfl⟩

theorem Assigns.reduces_swap {left right : TermId} {result : Except Ledger Ledger}
    (assigns : ledger.Assigns (ledger.arena.deref right) (ledger.arena.deref left) result) :
    ∃ next, ledger.Reduces (left, right) next ∧ ∀ counters,
      (outcome counters result).map (fun bound => (bound, [])) = turned counters next := by
  cases assigns with
  | binds opens ends => exact ⟨_, .binds opens ends.symm, fun _ => rfl⟩
  | clashes shape occurs => exact ⟨_, .clashes (.occursLeft shape occurs), fun _ => rfl⟩

theorem turn_state (wellFormed : ledger.WellFormed) {pair : TermId × TermId}
    (live : ledger.LivePair pair) :
    ∃ next, ledger.Reduces pair next ∧
      ∀ counters, (ledger.state counters).turn pair = turned counters next := by
  obtain ⟨left, right⟩ := pair
  have leftLive := wellFormed.live_deref live.1
  have rightLive := wellFormed.live_deref live.2
  have leftEnds := wellFormed.unbound_deref left
  have rightEnds := wellFormed.unbound_deref right
  obtain ⟨leftShape, leftKnown⟩ := leftLive.shape
  obtain ⟨rightShape, rightKnown⟩ := rightLive.shape
  by_cases equal : ledger.arena.deref left = ledger.arena.deref right
  · refine ⟨_, .same equal, fun counters => ?_⟩
    simp only [State.turn, arena_state, equal, if_true]
    rfl
  have clashed (clash : ledger.Clash (ledger.arena.deref left) (ledger.arena.deref right))
      (turn : ∀ counters,
        (ledger.state counters).turn (left, right) = .error (ledger.state counters)) :
      ∃ next, ledger.Reduces (left, right) next ∧
        ∀ counters, (ledger.state counters).turn (left, right) = turned counters next :=
    ⟨_, .clashes clash, turn⟩
  -- A variable on the right is bound only if there is none on the left.
  have rightVar (isVar : ledger.shape? (ledger.arena.deref right) = some .var)
      (turn : ∀ counters, (ledger.state counters).turn (left, right) =
        ((ledger.state counters).assign (ledger.arena.deref right) (ledger.arena.deref left)).map
          fun bound => (bound, [])) :
      ∃ next, ledger.Reduces (left, right) next ∧
        ∀ counters, (ledger.state counters).turn (left, right) = turned counters next := by
    obtain ⟨result, assigns, run⟩ :=
      assign_state isVar rightEnds leftLive leftEnds (Ne.symm equal)
    obtain ⟨next, reduces, same⟩ := assigns.reduces_swap
    exact ⟨next, reduces, fun counters => by rw [turn counters, run counters, same counters]⟩
  cases leftShape with
  | var =>
    obtain ⟨result, assigns, run⟩ := assign_state leftKnown leftEnds rightLive rightEnds equal
    obtain ⟨next, reduces, same⟩ := assigns.reduces
    refine ⟨next, reduces, fun counters => ?_⟩
    rw [← same counters, ← run counters]
    simp only [State.turn, arena_state, equal, if_false, node_var leftKnown]
  | number first =>
    cases rightShape with
    | var =>
      apply rightVar rightKnown
      intro counters
      simp only [State.turn, arena_state, equal, if_false, node_var rightKnown,
        node_number leftKnown]
    | number second =>
      by_cases same : first = second
      · subst same
        refine ⟨_, .sameNumber leftKnown rightKnown, fun counters => ?_⟩
        simp only [State.turn, arena_state, equal, if_false, node_number leftKnown,
          node_number rightKnown, if_true]
        rfl
      · apply clashed (.numbers leftKnown rightKnown same)
        intro counters
        simp only [State.turn, arena_state, equal, if_false, node_number leftKnown,
          node_number rightKnown, same]
    | compound symbol args =>
      apply clashed (.numberCompound leftKnown rightKnown)
      intro counters
      simp only [State.turn, arena_state, equal, if_false, node_compound rightKnown,
        node_number leftKnown]
  | compound first lefts =>
    cases rightShape with
    | var =>
      apply rightVar rightKnown
      intro counters
      simp only [State.turn, arena_state, equal, if_false, node_var rightKnown,
        node_compound leftKnown]
    | number value =>
      apply clashed (.compoundNumber leftKnown rightKnown)
      intro counters
      simp only [State.turn, arena_state, equal, if_false, node_number rightKnown,
        node_compound leftKnown]
    | compound second rights =>
      by_cases same : first = second ∧ lefts.length = rights.length
      · obtain ⟨rfl, sameLength⟩ := same
        refine ⟨_, .descends leftKnown rightKnown sameLength, fun counters => ?_⟩
        simp only [State.turn, arena_state, equal, if_false, node_compound leftKnown,
          node_compound rightKnown, sameLength, and_self, if_true]
        rfl
      · apply clashed (.functors leftKnown rightKnown same)
        intro counters
        simp only [State.turn, arena_state, equal, if_false, node_compound leftKnown,
          node_compound rightKnown, same]

theorem solveWithin_state (fuel : Nat) {ledger : Ledger} {pair : TermId × TermId}
    (wellFormed : ledger.WellFormed) (live : ledger.LivePair pair) :
    ∃ result, Solves fuel ledger [pair] result ∧
      ∀ counters, State.solveWithin fuel (ledger.state counters) pair = outcome counters result := by
  induction fuel generalizing ledger pair with
  | zero => exact ⟨_, .spent, fun counters => rfl⟩
  | succ fuel ih =>
    obtain ⟨next, reduces, turn⟩ := turn_state wellFormed live
    simp only [State.solveWithin_turn, turn]
    cases reduces with
    | same equal => exact ⟨_, .same equal .done, fun counters => rfl⟩
    | sameNumber leftShape rightShape =>
      exact ⟨_, .sameNumber leftShape rightShape .done, fun counters => rfl⟩
    | binds opens ends => exact ⟨_, .binds opens ends .done, fun counters => rfl⟩
    | clashes clash => exact ⟨_, .clashes clash, fun counters => rfl⟩
    | descends leftShape rightShape sameLength =>
      obtain ⟨result, inside, run⟩ := solveAll_state ih wellFormed
        (wellFormed.live_zip leftShape rightShape)
      refine ⟨result, ?_, run⟩
      cases result with
      | ok middle => exact .descends leftShape rightShape sameLength inside .done
      | error clash => exact .fails leftShape rightShape sameLength inside

/-- Two terms become equal, or the state stays as it was but for its counters. -/
theorem unify_state (wellFormed : ledger.WellFormed) {left right : TermId}
    (leftLive : ledger.Live left) (rightLive : ledger.Live right) :
    (∃ later, Solves ledger.size ledger [(left, right)] (.ok later) ∧ later.Binds ledger ∧
      ∀ counters, ∃ others, (ledger.state counters).unify left right = (true, later.state others)) ∨
    ∃ clash, Solves ledger.size ledger [(left, right)] (.error clash) ∧
      ∀ counters, ∃ others,
        (ledger.state counters).unify left right = (false, ledger.state others) := by
  obtain ⟨result, solves, run⟩ :=
    @solveWithin_state ledger.size ledger (left, right) wellFormed ⟨leftLive, rightLive⟩
  have grown := solves.grows wellFormed (leftLive.pair rightLive)
  cases result with
  | ok later =>
    refine .inl ⟨later, solves, grown, fun counters => ?_⟩
    rw [State.unify, arena_state, size_arena, run counters]
    exact ⟨_, rfl⟩
  | error clash =>
    refine .inr ⟨clash, solves, fun counters => ?_⟩
    rw [State.unify, arena_state, size_arena, run counters, snapshot_state]
    have restored := restore_state grown.wellFormed.toConsistent grown.extends counters
    simp only [held] at restored
    simp only [outcome, restored]
    exact ⟨_, rfl⟩

end Ledger

end Resolvent
