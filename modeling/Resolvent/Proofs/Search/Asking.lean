import Resolvent.Proofs.Search.Visits

namespace Resolvent

section

variable {program : Program}

/-- A goal can be searched from a state. The state has the stacks of a ledger, whatever was bound,
    called or posted before, and the goal and the program are among its terms. -/
def Poised (program : Program) (state : State) (goal : TermId) : Prop :=
  ∃ base : Ledger, Holds state base ∧ base.WellFormed ∧ program.Fits base ∧ base.Live goal

theorem Ready.poised {state : State} {goal : TermId} (ready : Ready program state)
    (live : state.arena.contains goal = true) : Poised program state goal := by
  obtain ⟨base, same, -, wellFormed, fits⟩ := ready.ledger
  rw [same] at live
  exact ⟨base, ⟨_, same⟩, wellFormed, fits, (Ledger.contains_arena base goal).mp live⟩

/-- Wherever a search calls a goal that is a term, the goal can be searched from there. -/
theorem Visited.poised {state : State} {query : TermId} (poised : Poised program state query)
    {limit : Nat} {config : Config} (visited : Visited program (Search.opening query limit state) config)
    {goal : TermId} {parent : Option Nat} (calls : config.1 = .call goal parent)
    (inside : config.2.state.arena.contains goal = true) :
    Poised program config.2.state goal := by
  obtain ⟨base, ⟨counters, rfl⟩, wellFormed, fits, live⟩ := poised
  rcases (visited.underway wellFormed fits live).orderly with ⟨ledger, orderly⟩ | ⟨signal, heard⟩
  · obtain ⟨others, same⟩ := orderly.state
    rw [same] at inside
    exact ⟨ledger, ⟨others, same⟩, orderly.wellFormed, orderly.fits,
      (Ledger.contains_arena ledger goal).mp inside⟩
  · rw [calls] at heard
    cases heard

namespace Search

/-- A search is asked for its next answer and has one, again and again. Who asks may count in
    between, only no goals cut off. -/
inductive Asks (program : Program) : Search → State → List State → Search → State → Prop where
  | start {search : Search} {state : State} : Asks program search state [] search state
  | answered {search middle later : Search} {state answer last : State} {answers : List State}
      {fuel : Nat} {counters : Counters}
      (next : search.next program fuel state = .done (true, middle, answer))
      (kept : counters.depthHits = answer.counters.depthHits)
      (rest : Asks program middle { answer with counters } answers later last) :
      Asks program search state (answer :: answers) later last

def after (program : Program) (fuel : Nat) (search : Search) (state : State) : Search × State :=
  match search.next program fuel state with
  | .done (_, later, reached) => (later, reached)
  | .fault _ | .unfinished => (search, state)

def asksWithin (program : Program) (fuel : Nat) :
    Nat → Search → State → Option (List State × Search × State)
  | 0, search, state => some ([], search, state)
  | count + 1, search, state =>
    match search.next program fuel state with
    | .done (true, later, answer) =>
      (asksWithin program fuel count later answer).map fun rest => (answer :: rest.1, rest.2)
    | .done (false, _, _) | .fault _ | .unfinished => none

theorem asks_of_within (fuel count : Nat) {search later : Search} {state last : State}
    {answers : List State}
    (asked : asksWithin program fuel count search state = some (answers, later, last)) :
    search.Asks program state answers later last := by
  induction count generalizing search state answers with
  | zero =>
    cases asked
    exact .start
  | succ count ih =>
    rw [asksWithin] at asked
    split at asked
    · next middle answer next =>
      obtain ⟨⟨others, further, final⟩, onward, same⟩ := Option.map_eq_some_iff.mp asked
      cases same
      exact @Asks.answered program search middle later state answer last others fuel answer.counters
        next rfl (ih onward)
    all_goals cases asked

end Search

/-- A search that is asked gives answers of its goal in their order, and then stands before those
    that are left. -/
theorem Stands.asks {base : Ledger} {search later : Search} {state last : State}
    {events : List Emission} {hit exact : Bool} {answers : List State}
    (stands : Stands program base search state events hit exact)
    (asks : search.Asks program state answers later last) :
    ∃ done rest onward, answersOf events = done ++ answersOf rest ∧
      List.Forall₂ Holds answers done ∧ Stands program base later last rest onward exact := by
  induction asks generalizing events hit with
  | start => exact ⟨[], events, hit, rfl, .nil, stands⟩
  | @answered _ _ _ _ answer _ _ _ counters next kept _ ih =>
    obtain ⟨ledger, others, listed, ⟨_, rfl⟩, -, -, after⟩ := stands.next_answer next
    obtain ⟨done, rest, onward, split, held, ends⟩ := ih (after counters)
    exact ⟨ledger :: done, rest, onward, by rw [listed, split]; rfl, .cons ⟨_, rfl⟩ held, ends⟩

end

namespace Surfaced

def terms : List Shape :=
  [.compound (.user 0) [], .compound (.user 1) [], .compound (.user 0) [],
    .compound (.reserved .clause) [⟨1⟩, ⟨2⟩], .compound (.user 2) [], .compound (.user 3) [],
    .compound (.reserved .not) [⟨5⟩], .compound (.user 1) [],
    .compound (.reserved .conjunction) [⟨6⟩, ⟨7⟩], .compound (.reserved .clause) [⟨4⟩, ⟨8⟩]]

def queryTerms : List Shape :=
  [.var, .compound (.user 0) [], .compound (.user 2) [],
    .compound (.reserved .disjunction) [⟨11⟩, ⟨12⟩], .compound (.reserved .equal) [⟨10⟩, ⟨13⟩],
    .compound (.reserved .conjunction) [⟨10⟩, ⟨14⟩]]

def program : Program where
  clauses :=
    #[⟨⟨0⟩, none, .user 0, 0⟩, ⟨⟨1⟩, some ⟨2⟩, .user 1, 0⟩, ⟨⟨4⟩, some ⟨8⟩, .user 2, 0⟩]

def state : State where
  arena := (Arena.build? {} (terms ++ queryTerms)).getD {}

theorem ready : Ready program state where
  accepted :=
    ⟨terms, queryTerms, [⟨0⟩, ⟨3⟩, ⟨9⟩], (Arena.build? {} terms).getD {}, by decide +kernel, by rfl,
      by decide +kernel⟩
  untouched := rfl

theorem poised : Poised program state ⟨15⟩ := ready.poised (by decide +kernel)

def asked (limit count : Nat) : List State × Search × State :=
  (Search.asksWithin program 100 count (.start ⟨15⟩ limit) state).getD ([], .start ⟨15⟩ limit, state)

theorem asks_two : (Search.start ⟨15⟩ 11).Asks program state (asked 11 2).1 (asked 11 2).2.1
    (asked 11 2).2.2 :=
  Search.asks_of_within 100 2 (by decide +kernel)

theorem asks_one : (Search.start ⟨15⟩ 7).Asks program state (asked 7 1).1 (asked 7 1).2.1
    (asked 7 1).2.2 :=
  Search.asks_of_within 100 1 (by decide +kernel)

end Surfaced

end Resolvent
