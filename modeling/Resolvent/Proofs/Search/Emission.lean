import Resolvent.Machine.Resolution
import Resolvent.Proofs.Ledger.Builtin
import Resolvent.Proofs.Ledger.Renaming

namespace Resolvent

namespace Ledger

variable {ledger : Ledger}

def perform (ledger : Ledger) (left right : TermId) (builtin : Builtin) :
    Except Fault (Reply × Ledger) :=
  ((ledger.state {}).perform left right builtin).map fun (reply, state) => (reply, state.ledger)

def matchHead (ledger : Ledger) (goal head : TermId) :
    Except Fault (TermId × Renaming × Ledger) :=
  ((ledger.state {}).matchHead goal head).map fun (equation, names, state) =>
    (equation, names, state.ledger)

def copyBody (ledger : Ledger) (names : Renaming) (body : TermId) :
    Except Fault (TermId × Renaming × Ledger) :=
  ((ledger.state {}).copyBody names body).map fun (copy, names, state) =>
    (copy, names, state.ledger)

theorem perform_spec (wellFormed : ledger.WellFormed) {left right : TermId}
    (leftLive : ledger.Live left) (rightLive : ledger.Live right) (builtin : Builtin) :
    ∃ reply later, ledger.perform left right builtin = .ok (reply, later) ∧
      ledger.Performs left right builtin reply later ∧ ∀ counters, ∃ others,
        (ledger.state counters).perform left right builtin = .ok (reply, later.state others) := by
  obtain ⟨reply, later, performs, run⟩ := perform_state wellFormed leftLive rightLive builtin
  have advances := performs.advances wellFormed leftLive rightLive
  obtain ⟨others, ran⟩ := run {}
  refine ⟨reply, later, ?_, performs, run⟩
  simp only [perform, ran, Except.map, ledger_state advances.wellFormed]

inductive Matches (ledger : Ledger) (goal head equation : TermId) (names : Renaming) :
    Ledger → Prop where
  | intro {copy : TermId} {middle : Ledger}
      (copied : Instantiates ledger [] [head] [copy] middle names)
      (placed : equation = ⟨middle.size⟩) (goalLive : middle.Live goal)
      (copyLive : middle.Live copy) :
      Matches ledger goal head equation names
        (middle.allocate (.compound (.reserved .equal) [goal, copy]))

theorem live_sides {left right : TermId} (leftLive : ledger.Live left)
    (rightLive : ledger.Live right) : ∀ arg ∈ [left, right], ledger.Live arg := by
  simp only [List.mem_cons, List.not_mem_nil, or_false]
  rintro arg (rfl | rfl)
  · exact leftLive
  · exact rightLive

theorem Matches.grows {goal head equation : TermId} {names : Renaming} {later : Ledger}
    (matched : ledger.Matches goal head equation names later) (wellFormed : ledger.WellFormed) :
    later.Allocates ledger := by
  obtain ⟨copied, -, goalLive, copyLive⟩ := matched
  have grown := copied.grows wellFormed
  exact (allocate_allocates grown.wellFormed
    (admits_compound (live_sides goalLive copyLive))).trans grown

theorem Matches.equation {goal head equation : TermId} {names : Renaming} {later : Ledger}
    (matched : ledger.Matches goal head equation names later) :
    ∃ copy, later.shape? equation = some (.compound (.reserved .equal) [goal, copy]) := by
  obtain ⟨copied, rfl, -, -⟩ := matched
  exact ⟨_, shape?_allocate_size _⟩

theorem namesLive_nil (ledger : Ledger) : ledger.NamesLive [] := by
  simp [NamesLive]

theorem matchHead_spec (wellFormed : ledger.WellFormed) {goal head : TermId}
    (goalLive : ledger.Live goal) (headLive : ledger.Live head) :
    ∃ equation names later, ledger.matchHead goal head = .ok (equation, names, later) ∧
      ledger.Matches goal head equation names later ∧ ∀ counters,
        (ledger.state counters).matchHead goal head =
          .ok (equation, names, later.state counters) := by
  rcases instantiate_arena wellFormed headLive [] with ⟨copy, middle, names, run, copied⟩ | failed
  · have grown := copied.grows wellFormed
    have copyLive : middle.Live copy := (copied.live wellFormed ledger.namesLive_nil).2 copy (by simp)
    have sides := live_sides (grown.live goalLive) copyLive
    have whole := (allocate_allocates grown.wellFormed
      (@admits_compound _ (.reserved .equal) _ sides)).trans grown
    have ran (counters : Counters) : (ledger.state counters).matchHead goal head =
        .ok (⟨middle.size⟩, names,
          (middle.allocate (.compound (.reserved .equal) [goal, copy])).state counters) := by
      simp only [State.matchHead, arena_state, run, arena_operator grown.wellFormed sides,
        Bind.bind, Except.bind, pure, Except.pure, whole.state]
    refine ⟨_, names, _, ?_, .intro copied rfl (grown.live goalLive) copyLive, ran⟩
    simp only [matchHead, ran, Except.map, ledger_state whole.wellFormed]
  · exact absurd ledger.namesLive_nil failed.2

theorem copyBody_spec (wellFormed : ledger.WellFormed) {body : TermId} (live : ledger.Live body)
    (names : Renaming) :
    (∃ copy named later, ledger.copyBody names body = .ok (copy, named, later) ∧
      Instantiates ledger names [body] [copy] later named ∧ ∀ counters,
        (ledger.state counters).copyBody names body = .ok (copy, named, later.state counters)) ∨
    ∃ reason, ledger.copyBody names body = .error reason ∧ ¬ ledger.NamesLive names ∧
      ∀ counters, (ledger.state counters).copyBody names body = .error reason := by
  rcases instantiate_arena wellFormed live names with
    ⟨copy, later, named, run, copied⟩ | ⟨⟨reason, failed⟩, dead⟩
  · have grown := copied.grows wellFormed
    have ran (counters : Counters) : (ledger.state counters).copyBody names body =
        .ok (copy, named, later.state counters) := by
      simp only [State.copyBody, arena_state, run, Bind.bind, Except.bind, pure, Except.pure,
        grown.state]
    refine .inl ⟨copy, named, later, ?_, copied, ran⟩
    simp only [copyBody, ran, Except.map, ledger_state grown.wellFormed]
  · have ran (counters : Counters) : (ledger.state counters).copyBody names body =
        .error reason := by
      simp only [State.copyBody, arena_state, failed, Bind.bind, Except.bind]
    exact .inr ⟨reason, by simp only [copyBody, ran, Except.map], dead, ran⟩

section

variable {counters : Counters} {names : Renaming} {state : State}

theorem matchHead_ok (wellFormed : ledger.WellFormed) {goal head equation : TermId}
    (goalLive : ledger.Live goal) (headLive : ledger.Live head)
    (matched : (ledger.state counters).matchHead goal head = .ok (equation, names, state)) :
    ∃ later, state = later.state counters ∧ ledger.Matches goal head equation names later := by
  obtain ⟨_, _, later, -, matches', run⟩ := matchHead_spec wellFormed goalLive headLive
  cases (run counters).symm.trans matched
  exact ⟨later, rfl, matches'⟩

theorem copyBody_ok (wellFormed : ledger.WellFormed) {body copy : TermId} (live : ledger.Live body)
    {known : Renaming}
    (copied : (ledger.state counters).copyBody known body = .ok (copy, names, state)) :
    ∃ later, state = later.state counters ∧ Instantiates ledger known [body] [copy] later names := by
  rcases copyBody_spec wellFormed live known with ⟨_, _, later, -, made, run⟩ | ⟨_, -, -, run⟩
  · cases (run counters).symm.trans copied
    exact ⟨later, rfl, made⟩
  · cases (run counters).symm.trans copied

end

end Ledger

namespace Machine

variable {machine : Machine} {ledger base : Ledger} {counters : Counters}

theorem record_state (state : machine.state = ledger.state counters) (event : Event) :
    (machine.record event).state = ledger.state (counters.record event 1) := by
  rw [record, state, Ledger.record_state]

theorem restore_state {undo : Snapshot} (state : machine.state = ledger.state counters)
    (wellFormed : ledger.WellFormed) (grown : ledger.Extends base) (same : undo = base.snapshot) :
    (machine.restore undo).state = base.state (counters.record .restore 1) := by
  rw [same, restore, state]
  exact Ledger.restore_state wellFormed.toConsistent grown counters

end Machine

namespace Program

def candidates (program : Program) (start : Nat) (symbol : Symbol) (arity : Nat) :
    List (Clause × Nat) :=
  ((program.clauses.toList.drop start).zipIdx start).filter fun entry =>
    entry.1.defines symbol arity

theorem findIdx?_zipIdx {α : Type} (test : α → Bool) (list : List α) (start : Nat) :
    (list.findIdx? test = none ∧ (list.zipIdx start).filter (fun entry => test entry.1) = []) ∨
    ∃ index entry, list.findIdx? test = some index ∧ list[index]? = some entry ∧
      (list.zipIdx start).filter (fun entry => test entry.1) =
        (entry, start + index) ::
          ((list.drop (index + 1)).zipIdx (start + index + 1)).filter fun entry => test entry.1 := by
  induction list generalizing start with
  | nil => exact .inl ⟨rfl, rfl⟩
  | cons first rest ih =>
    cases passes : test first with
    | true => exact .inr ⟨0, first, by simp [List.findIdx?_cons, passes], rfl, by simp [passes]⟩
    | false =>
      rcases ih (start + 1) with ⟨missing, none⟩ | ⟨index, entry, found, held, listed⟩
      · exact .inl ⟨by simp [List.findIdx?_cons, passes, missing], by simp [passes, none]⟩
      · refine .inr ⟨index + 1, entry, by simp [List.findIdx?_cons, passes, found], held, ?_⟩
        rw [List.zipIdx_cons, List.filter_cons_of_neg (by simp [passes]), listed]
        simp only [List.drop_succ_cons]
        rw [show start + 1 + index = start + (index + 1) by omega]

/-- The next clause to try is the first candidate, and the others are those that come after it. -/
theorem next?_candidates (program : Program) (start : Nat) (symbol : Symbol) (arity : Nat) :
    (program.next? start symbol arity = none ∧ program.candidates start symbol arity = []) ∨
    ∃ index clause, program.next? start symbol arity = some index ∧
      program.clauses[index]? = some clause ∧
      program.candidates start symbol arity =
        (clause, index) :: program.candidates (index + 1) symbol arity := by
  rcases findIdx?_zipIdx (fun clause : Clause => clause.defines symbol arity)
    (program.clauses.toList.drop start) start with ⟨missing, none⟩ | ⟨index, clause, found, held, listed⟩
  · exact .inl ⟨by simp [next?, missing], none⟩
  · refine .inr ⟨start + index, clause, by simp [next?, found], ?_, ?_⟩
    · simpa using held
    · rw [candidates, listed, candidates, List.drop_drop, Nat.add_assoc]

end Program

/-- What a goal comes to, one after the other. -/
inductive Emission where
  | answer (ledger : Ledger)
  | cut
  | fault (reason : Fault)
  deriving DecidableEq, Repr

def answersOf (events : List Emission) : List Ledger :=
  events.filterMap fun event =>
    match event with
    | .answer ledger => some ledger
    | .cut | .fault _ => none

theorem mem_answersOf {events : List Emission} {ledger : Ledger} :
    ledger ∈ answersOf events ↔ .answer ledger ∈ events := by
  rw [answersOf, List.mem_filterMap]
  constructor
  · rintro ⟨event, member, found⟩
    cases event with
    | answer other =>
      cases found
      exact member
    | cut | fault => cases found
  · exact fun member => ⟨_, member, rfl⟩

/-- What a second goal comes to after each answer of a first. How the second goal is got may change
    from one answer to the next. -/
def chain (second : Renaming → Ledger → Except Fault (TermId × Renaming × Ledger))
    (solve : TermId → Ledger → List Emission) : Renaming → List Emission → List Emission
  | _, [] => []
  | names, .answer ledger :: rest =>
    match second names ledger with
    | .error reason => [.fault reason]
    | .ok (goal, named, later) => solve goal later ++ chain second solve named rest
  | names, .cut :: rest => .cut :: chain second solve names rest
  | _, .fault reason :: _ => [.fault reason]

def rightGoal (right : TermId) (names : Renaming) (ledger : Ledger) :
    Except Fault (TermId × Renaming × Ledger) := .ok (right, names, ledger)

def bodyGoal (body : TermId) (names : Renaming) (ledger : Ledger) :
    Except Fault (TermId × Renaming × Ledger) := do
  let (copy, named, later) ← ledger.copyBody names body
  later.arena.require copy
  return (copy, named, later)

theorem require_live {ledger : Ledger} {id : TermId} (live : ledger.Live id) :
    ledger.arena.require id = .ok () := by
  rw [Arena.require, if_pos ((Ledger.contains_arena ledger id).mpr live)]

theorem require_dead {ledger : Ledger} {id : TermId} (dead : ¬ ledger.Live id) :
    ledger.arena.require id = .error (.outOfRange ledger.size id.index) := by
  rw [Arena.require, if_neg fun held => dead ((Ledger.contains_arena ledger id).mp held),
    Ledger.size_arena]

inductive BodyGoal (body : TermId) (names : Renaming) (ledger : Ledger) :
    Except Fault (TermId × Renaming × Ledger) → Prop where
  | copied {copy : TermId} {named : Renaming} {later : Ledger}
      (copied : Ledger.Instantiates ledger names [body] [copy] later named)
      (live : later.Live copy)
      (run : ∀ counters, (ledger.state counters).copyBody names body =
        .ok (copy, named, later.state counters)) :
      BodyGoal body names ledger (.ok (copy, named, later))
  | failed {reason : Fault} (dead : ¬ ledger.NamesLive names)
      (run : ∀ counters, (ledger.state counters).copyBody names body = .error reason) :
      BodyGoal body names ledger (.error reason)
  | stray {copy : TermId} {named : Renaming} {later : Ledger}
      (copied : Ledger.Instantiates ledger names [body] [copy] later named)
      (dead : ¬ later.Live copy)
      (run : ∀ counters, (ledger.state counters).copyBody names body =
        .ok (copy, named, later.state counters)) :
      BodyGoal body names ledger (.error (.outOfRange later.size copy.index))

theorem bodyGoal_spec {ledger : Ledger} (wellFormed : ledger.WellFormed) {body : TermId}
    (live : ledger.Live body) (names : Renaming) :
    BodyGoal body names ledger (bodyGoal body names ledger) := by
  rcases Ledger.copyBody_spec wellFormed live names with
    ⟨copy, named, later, got, copied, run⟩ | ⟨reason, got, dead, run⟩
  · by_cases copyLive : later.Live copy
    · have same : bodyGoal body names ledger = .ok (copy, named, later) := by
        simp only [bodyGoal, got, require_live copyLive, Bind.bind, Except.bind]
        rfl
      exact same ▸ .copied copied copyLive run
    · have same : bodyGoal body names ledger = .error (.outOfRange later.size copy.index) := by
        simp only [bodyGoal, got, require_dead copyLive, Bind.bind, Except.bind]
      exact same ▸ .stray copied copyLive run
  · have same : bodyGoal body names ledger = .error reason := by
      simp only [bodyGoal, got, Bind.bind, Except.bind]
    exact same ▸ .failed dead run

theorem bodyGoal_ok {ledger later : Ledger} {body copy : TermId} {names named : Renaming}
    (got : bodyGoal body names ledger = .ok (copy, named, later)) (wellFormed : ledger.WellFormed)
    (live : ledger.Live body) :
    Ledger.Instantiates ledger names [body] [copy] later named ∧ later.Live copy ∧
      ∀ counters, (ledger.state counters).copyBody names body =
        .ok (copy, named, later.state counters) := by
  have spec := bodyGoal_spec wellFormed live names
  rw [got] at spec
  cases spec with
  | copied copied copyLive run => exact ⟨copied, copyLive, run⟩

def negate (ledger : Ledger) : Bool → List Emission → List Emission
  | hit, [] => if hit then [.cut] else [.answer ledger]
  | hit, .answer _ :: _ => if hit then [.cut] else []
  | _, .cut :: rest => negate ledger true rest
  | _, .fault reason :: _ => [.fault reason]

def attempt (solve : TermId → Ledger → List Emission) (goal : TermId) (ledger : Ledger)
    (candidate : Clause × Nat) : List Emission :=
  match (ledger.register goal (some (.clause candidate.2))).matchHead goal candidate.1.head with
  | .error reason => [.fault reason]
  | .ok (equation, names, later) =>
    match candidate.1.body with
    | none => solve equation later
    | some body => chain (bodyGoal body) solve names (solve equation later)

def solveForm (program : Program) (solve : TermId → Ledger → List Emission) (goal : TermId)
    (symbol : Symbol) (arity : Nat) (ledger : Ledger) : Form → List Emission
  | .negation inner =>
    negate (ledger.register goal none) false (solve inner (ledger.register goal none))
  | .conjunction left right =>
    chain (rightGoal right) solve [] (solve left (ledger.register goal none))
  | .disjunction left right =>
    solve left (ledger.register goal (some .left)) ++ solve right (ledger.register goal (some .right))
  | .builtin builtin left right =>
    match (ledger.register goal none).perform left right builtin with
    | .error reason => [.fault reason]
    | .ok (.fails, _) => []
    | .ok (.answers, later) => [.answer later]
    | .ok (.delegates goal, later) => solve goal later
  | .predicate => (program.candidates 0 symbol arity).flatMap (attempt solve goal ledger)

/-- What a goal comes to within a depth limit. The levels bound how deep goals are nested. -/
def solve (program : Program) (limit : Nat) : Nat → TermId → Ledger → List Emission
  | 0, _, _ => []
  | level + 1, goal, ledger =>
    let goal := ledger.arena.deref goal
    match ledger.arena.node goal with
    | .number _ => [.answer ledger]
    | .var _ =>
      if ledger.arena.isDelayed goal then [.answer ledger] else [.answer (ledger.delay goal)]
    | .compound cell =>
      if cell.active then [.answer ledger]
      else if limit ≤ ledger.calls.length then [.cut]
      else
        solveForm program (solve program limit level) goal cell.symbol cell.args.length ledger
          cell.form

end Resolvent
