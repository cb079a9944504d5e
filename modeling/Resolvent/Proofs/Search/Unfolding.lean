import Resolvent.Proofs.Search.Quiet

namespace Resolvent

variable {program : Program} {limit : Nat} {solver : TermId → Ledger → List Emission}

structure Onward (limit : Nat) (later ledger : Ledger) : Prop where
  wellFormed : later.WellFormed
  grown : later.Extends ledger
  undelayed : later.delayed = []
  depth : later.calls.length ≤ max limit ledger.calls.length

theorem Onward.trans {last middle first : Ledger} (later : Onward limit last middle)
    (earlier : Onward limit middle first) : Onward limit last first where
  wellFormed := later.wellFormed
  grown := later.grown.trans earlier.grown
  undelayed := later.undelayed
  depth := by
    have low := later.depth
    have lower := earlier.depth
    omega

theorem Onward.quiet {later ledger : Ledger} (onward : Onward limit later ledger)
    (quiet : Quiet program ledger) : Quiet program later :=
  quiet.onward onward.wellFormed onward.grown onward.undelayed

theorem Quiet.refl {ledger : Ledger} (quiet : Quiet program ledger) : Onward limit ledger ledger :=
  ⟨quiet.wellFormed, .refl ledger, quiet.undelayed, by omega⟩

structure Regular (program : Program) (limit : Nat) (solve : TermId → Ledger → List Emission) :
    Prop where
  faultless : ∀ {goal ledger}, Quiet program ledger → ledger.arena.Callable anywhere goal →
    ∀ reason, .fault reason ∉ solve goal ledger
  onward : ∀ {goal ledger later}, Quiet program ledger → ledger.arena.Callable anywhere goal →
    .answer later ∈ solve goal ledger → Onward limit later ledger
  single : ∀ {goal ledger}, Quiet program ledger → ledger.Equations goal →
    (answersOf (solve goal ledger)).length ≤ 1

def concluded (solve : TermId → Ledger → List Emission) (later : Ledger) : Reply → List Emission
  | .fails => []
  | .answers => [.answer later]
  | .delegates goal => solve goal later

def resolved (solve : TermId → Ledger → List Emission) (clause : Clause) (equation : TermId)
    (names : Renaming) (later : Ledger) : List Emission :=
  match clause.body with
  | none => solve equation later
  | some body => (solve equation later).flatMap (follow (startBody solve body names))

def tries (solve : TermId → Ledger → List Emission) (goal : TermId) (ledger : Ledger)
    (candidate : Clause × Nat) : List Emission :=
  match (ledger.register goal (some (.clause candidate.2))).matchHead goal candidate.1.head with
  | .error reason => [.fault reason]
  | .ok (equation, names, later) => resolved solve candidate.1 equation names later

theorem mem_candidates {start arity : Nat} {symbol : Symbol} {clause : Clause} {index : Nat} :
    (clause, index) ∈ program.candidates start symbol arity ↔
      start ≤ index ∧ program.clauses[index]? = some clause ∧
        clause.symbol = symbol ∧ clause.arity = arity := by
  rw [Program.candidates, List.mem_filter, List.mk_mem_zipIdx_iff_le_and_getElem?_sub]
  simp only [List.getElem?_drop, Clause.defines, Bool.and_eq_true, decide_eq_true_eq]
  constructor
  · rintro ⟨⟨low, held⟩, functor⟩
    rw [Nat.add_sub_cancel' low] at held
    exact ⟨low, by simpa using held, functor⟩
  · rintro ⟨low, held, functor⟩
    refine ⟨⟨low, ?_⟩, functor⟩
    rw [Nat.add_sub_cancel' low]
    simpa using held

structure Tried (program : Program) (goal : TermId) (ledger : Ledger) (candidate : Clause × Nat)
    (equation : TermId) (names : Renaming) (later : Ledger) : Prop where
  held : program.clauses[candidate.2]? = some candidate.1
  registered : Quiet program (ledger.register goal (some (.clause candidate.2)))
  matched : (ledger.register goal (some (.clause candidate.2))).Matches goal candidate.1.head
    equation names later
  run : (ledger.register goal (some (.clause candidate.2))).matchHead goal candidate.1.head =
    .ok (equation, names, later)
  quiet : Quiet program later
  opening : later.Allocates (ledger.register goal (some (.clause candidate.2)))

theorem Quiet.tried {ledger : Ledger} (quiet : Quiet program ledger) {goal : TermId}
    {symbol : Symbol} {args : List TermId}
    (shape : ledger.shape? goal = some (.compound symbol args)) (idle : goal ∉ ledger.calls)
    {candidate : Clause × Nat} {arity : Nat}
    (listed : candidate ∈ program.candidates 0 symbol arity) :
    ∃ equation names later, Tried program goal ledger candidate equation names later := by
  obtain ⟨-, held, -⟩ := mem_candidates.mp listed
  have registered := quiet.register shape idle (some (.clause candidate.2))
  obtain ⟨equation, names, later, run, matched, -⟩ := Ledger.matchHead_spec registered.wellFormed
    (Ledger.live_of_shape shape) (registered.fits.headLive held)
  have grown := matched.grows registered.wellFormed
  exact ⟨equation, names, later, held, registered, matched, run,
    registered.onward grown.wellFormed grown.extends
      (grown.advances.delayed.trans registered.undelayed), grown⟩

theorem Tried.equation {ledger later : Ledger} {goal equation : TermId}
    {candidate : Clause × Nat} {names : Renaming}
    (tried : Tried program goal ledger candidate equation names later) : later.Equation equation := by
  obtain ⟨copy, shape⟩ := tried.matched.equation
  exact ⟨goal, copy, shape⟩

theorem Tried.calls {ledger later : Ledger} {goal equation : TermId} {candidate : Clause × Nat}
    {names : Renaming} (tried : Tried program goal ledger candidate equation names later) :
    later.calls = ledger.calls ++ [goal] := tried.opening.advances.calls

structure Begins (program : Program) (body : TermId) (names : Renaming) (ledger : Ledger)
    (copy : TermId) (named : Renaming) (later : Ledger) : Prop where
  run : bodyGoal body names ledger = .ok (copy, named, later)
  copied : Ledger.Instantiates ledger names [body] [copy] later named
  copies : later.Copies named ledger.size body copy
  quiet : Quiet program later
  callable : later.arena.Callable anywhere copy

theorem Tried.begins {ledger later answer : Ledger} {goal equation body : TermId}
    {candidate : Clause × Nat} {names : Renaming}
    (tried : Tried program goal ledger candidate equation names later)
    (has : candidate.1.body = some body) (grown : answer.Extends later)
    (quiet : Quiet program answer) :
    ∃ copy named start, Begins program body names answer copy named start := by
  have head_instance := tried.matched.head_instance tried.registered.wellFormed
    (tried.registered.fits.headLive tried.held)
  have namesLive := head_instance.namesLive.later grown
  have live := quiet.fits.body tried.held has
  have spec := bodyGoal_spec quiet.wellFormed live names
  generalize run : bodyGoal body names answer = started at spec
  cases spec with
  | @copied copy named start copied _ _ =>
    have opening := copied.grows quiet.wellFormed
    have startQuiet := quiet.onward opening.wellFormed opening.extends
      (opening.advances.delayed.trans quiet.undelayed)
    have copies := (copied.copies quiet.wellFormed).2 (body, copy) (by simp)
    have listed := Array.mem_of_getElem? tried.held
    exact ⟨copy, named, start, run, copied, copies, startQuiet,
      copies.callable (startQuiet.bodies _ listed body has) fun _ _ _ _ _ _ => trivial⟩
  | failed dead => exact absurd namesLive dead
  | stray copied dead =>
    exact absurd ((copied.live quiet.wellFormed namesLive).2 _ (by simp)) dead

structure Starts (program : Program) (ledger : Ledger) (goal : TermId) (choice : Option Choice)
    (called : TermId) : Prop where
  quiet : Quiet program (ledger.register goal choice)
  callable : (ledger.register goal choice).arena.Callable anywhere called

inductive Unfolds (program : Program) (goal : TermId) (ledger : Ledger) :
    ((TermId → Ledger → List Emission) → List Emission) → Prop where
  | negation {inner : TermId}
      (shape : ledger.shape? goal = some (.compound (.reserved .not) [inner]))
      (starts : Starts program ledger goal none inner) :
      Unfolds program goal ledger fun solve =>
        negate (ledger.register goal none) false (solve inner (ledger.register goal none))
  | conjunction {left right : TermId}
      (shape : ledger.shape? goal = some (.compound (.reserved .conjunction) [left, right]))
      (first : Starts program ledger goal none left)
      (second : Starts program ledger goal none right) :
      Unfolds program goal ledger fun solve =>
        (solve left (ledger.register goal none)).flatMap (follow (solve right))
  | disjunction {left right : TermId}
      (shape : ledger.shape? goal = some (.compound (.reserved .disjunction) [left, right]))
      (first : Starts program ledger goal (some .left) left)
      (second : Starts program ledger goal (some .right) right) :
      Unfolds program goal ledger fun solve =>
        solve left (ledger.register goal (some .left)) ++
          solve right (ledger.register goal (some .right))
  | builtin {symbol : Symbol} {args : List TermId} {builtin : Builtin} {left right : TermId}
      {reply : Reply} {later : Ledger}
      (shape : ledger.shape? goal = some (.compound symbol args))
      (form : formOf symbol args = .builtin builtin left right)
      (registered : Quiet program (ledger.register goal none))
      (performs : (ledger.register goal none).Performs left right builtin reply later)
      (advances : later.Advances (ledger.register goal none))
      (replaced : ∀ other, reply = .delegates other → later.arena.Callable anywhere other ∧
        (builtin = .equality → later.Equations other)) :
      Unfolds program goal ledger fun solve => concluded solve later reply
  | predicate {symbol : Symbol} {args : List TermId}
      (shape : ledger.shape? goal = some (.compound symbol args))
      (form : formOf symbol args = .predicate)
      (tried : ∀ candidate ∈ program.candidates 0 symbol args.length, ∃ equation names later,
        Tried program goal ledger candidate equation names later) :
      Unfolds program goal ledger fun solve =>
        (program.candidates 0 symbol args.length).flatMap (tries solve goal ledger)

theorem Quiet.attempt_tries (regular : Regular program limit solver) {ledger : Ledger}
    (quiet : Quiet program ledger) {goal : TermId} {symbol : Symbol} {args : List TermId}
    (shape : ledger.shape? goal = some (.compound symbol args)) (idle : goal ∉ ledger.calls)
    {candidate : Clause × Nat} {arity : Nat}
    (listed : candidate ∈ program.candidates 0 symbol arity) :
    attempt solver goal ledger candidate = tries solver goal ledger candidate := by
  obtain ⟨equation, names, later, tried⟩ := quiet.tried shape idle listed
  simp only [attempt, tries, tried.run, resolved]
  cases has : candidate.1.body with
  | none => rfl
  | some body =>
    have callable := tried.equation.callable
    refine chain_bodyGoal (regular.faultless tried.quiet callable)
      (regular.single tried.quiet tried.equation.equations) fun answer member => ?_
    have onward := regular.onward tried.quiet callable member
    obtain ⟨copy, named, start, begins⟩ := tried.begins has onward.grown (onward.quiet tried.quiet)
    exact ⟨_, begins.run⟩

theorem Quiet.unfolds {ledger : Ledger} (quiet : Quiet program ledger) {goal : TermId}
    (callable : ledger.arena.Callable anywhere goal) :
    (((∃ value, ledger.shape? goal = some (.number value)) ∨ goal ∈ ledger.calls) ∧
      ∀ limit level, solve program limit (level + 1) goal ledger = [.answer ledger]) ∨
    (goal ∉ ledger.calls ∧ ∃ unfolded, Unfolds program goal ledger unfolded ∧
      ∀ limit level, Regular program limit (solve program limit level) →
        solve program limit (level + 1) goal ledger =
          if limit ≤ ledger.calls.length then [.cut] else unfolded (solve program limit level)) := by
  have same := Ledger.callable_deref callable quiet.wellFormed
  rcases Ledger.callable_cases callable with ⟨value, shape⟩ | ⟨symbol, args, shape, -, goals⟩
  · refine .inl ⟨.inl ⟨value, shape⟩, fun limit level => ?_⟩
    simp only [solve, same, Ledger.node_number shape]
  have node := Ledger.node_compound shape
  by_cases busy : goal ∈ ledger.calls
  · refine .inl ⟨.inr busy, fun limit level => ?_⟩
    simp only [solve, same, node, busy, decide_true, if_true]
  -- A goal that is not on the call stack is cut off, or comes to what its form comes to.
  have reduces (limit level : Nat) : solve program limit (level + 1) goal ledger =
      if limit ≤ ledger.calls.length then [.cut]
      else solveForm program (solve program limit level) goal symbol args.length ledger
        (formOf symbol args) := by
    simp only [solve, same, node, busy, decide_false, Bool.false_eq_true, if_false]
    rfl
  refine .inr ⟨busy, ?_⟩
  have starts (choice : Option Choice) {called : TermId}
      (member : called ∈ (formOf symbol args).goals) : Starts program ledger goal choice called :=
    ⟨quiet.register shape busy choice,
      Ledger.callable_later (ledger.register_extends goal choice) (goals called member)⟩
  cases form : formOf symbol args with
  | negation inner =>
    rw [form] at starts
    obtain ⟨rfl, rfl⟩ := form_negation form
    refine ⟨_, .negation shape (starts none (by simp [Form.goals])), fun limit level _ => ?_⟩
    rw [reduces, form, solveForm]
  | conjunction left right =>
    rw [form] at starts
    obtain ⟨rfl, rfl⟩ := form_conjunction form
    have first := @starts none left (by simp [Form.goals])
    refine ⟨_, .conjunction shape first (starts none (by simp [Form.goals])),
      fun limit level regular => ?_⟩
    rw [reduces, form, solveForm, chain_rightGoal (regular.faultless first.quiet first.callable)]
  | disjunction left right =>
    rw [form] at starts
    obtain ⟨rfl, rfl⟩ := form_disjunction form
    refine ⟨_, .disjunction shape (starts _ (by simp [Form.goals])) (starts _ (by simp [Form.goals])),
      fun limit level _ => ?_⟩
    rw [reduces, form, solveForm]
  | builtin builtin left right =>
    have registered := quiet.register shape busy none
    obtain ⟨leftLive, rightLive⟩ := registered.wellFormed.live_sides
      ((ledger.register_extends goal none).shape shape) form
    obtain ⟨reply, later, run, performs, -⟩ :=
      Ledger.perform_spec registered.wellFormed leftLive rightLive builtin
    refine ⟨_, .builtin shape form registered performs
      (performs.advances registered.wellFormed leftLive rightLive) ?_, fun limit level _ => ?_⟩
    · rintro other rfl
      exact performs.replaced form registered.wellFormed registered.undelayed leftLive rightLive
    · rw [reduces, form, solveForm, run]
      cases reply <;> rfl
  | predicate =>
    refine ⟨_, .predicate shape form fun candidate listed => quiet.tried shape busy listed,
      fun limit level regular => ?_⟩
    rw [reduces, form, solveForm]
    congr 1
    apply List.flatMap_congr
    intro candidate listed
    exact quiet.attempt_tries regular shape busy listed

theorem negate_faultless {ledger : Ledger} {hit : Bool} {events : List Emission}
    (faultless : ∀ reason, .fault reason ∉ events) (reason : Fault) :
    .fault reason ∉ negate ledger hit events := by
  induction events generalizing hit with
  | nil => cases hit <;> simp [negate]
  | cons event rest ih =>
    cases event with
    | answer other => cases hit <;> simp [negate]
    | cut => exact ih fun other member => faultless other (by simp [member])
    | fault other => exact absurd (by simp) (faultless other)

/-- A negation answers with what it started from, if the inner goal comes to nothing. -/
theorem negate_answer {ledger later : Ledger} {hit : Bool} {events : List Emission}
    (member : .answer later ∈ negate ledger hit events) :
    later = ledger ∧ hit = false ∧ events = [] := by
  induction events generalizing hit with
  | nil => cases hit <;> simp_all [negate]
  | cons event rest ih =>
    cases event with
    | answer other => cases hit <;> simp [negate] at member
    | cut => exact absurd (ih member).2.1 (by simp)
    | fault reason => simp [negate] at member

theorem negate_single {ledger : Ledger} {hit : Bool} {events : List Emission} :
    (answersOf (negate ledger hit events)).length ≤ 1 := by
  induction events generalizing hit with
  | nil => cases hit <;> simp [negate, answersOf]
  | cons event rest ih =>
    cases event with
    | answer other => cases hit <;> simp [negate, answersOf]
    | cut => exact ih
    | fault reason => simp [negate, answersOf]

section

variable {ledger : Ledger} {goal : TermId}

theorem Quiet.opens {choice : Option Choice}
    (registered : Quiet program (ledger.register goal choice)) (shallow : ledger.calls.length < limit) :
    Onward limit (ledger.register goal choice) ledger where
  wellFormed := registered.wellFormed
  grown := ledger.register_extends goal choice
  undelayed := registered.undelayed
  depth := by
    simp only [Ledger.register, List.length_append, List.length_singleton]
    omega

theorem Starts.next {choice : Option Choice} {called : TermId} {later : Ledger}
    (starts : Starts program ledger goal choice called)
    (onward : Onward limit later (ledger.register goal choice)) :
    Quiet program later ∧ later.arena.Callable anywhere called :=
  ⟨onward.quiet starts.quiet, Ledger.callable_later onward.grown starts.callable⟩

theorem Ledger.Advances.onward {later : Ledger} (advances : later.Advances ledger)
    (quiet : Quiet program ledger) : Onward limit later ledger where
  wellFormed := advances.wellFormed
  grown := advances.grown
  undelayed := advances.delayed.trans quiet.undelayed
  depth := by
    rw [advances.calls]
    omega

theorem Ledger.Advances.quiet {later : Ledger} (advances : later.Advances ledger)
    (quiet : Quiet program ledger) : Quiet program later :=
  quiet.onward advances.wellFormed advances.grown (advances.delayed.trans quiet.undelayed)

theorem Tried.onward {later : Ledger} {equation : TermId} {candidate : Clause × Nat}
    {names : Renaming} (tried : Tried program goal ledger candidate equation names later)
    (shallow : ledger.calls.length < limit) : Onward limit later ledger where
  wellFormed := tried.quiet.wellFormed
  grown := tried.opening.extends.trans (ledger.register_extends goal _)
  undelayed := tried.quiet.undelayed
  depth := by
    simp only [tried.calls, List.length_append, List.length_singleton]
    omega

theorem Begins.start {later : Ledger} {body copy : TermId} {names named : Renaming}
    (begins : Begins program body names ledger copy named later) :
    startBody solver body names ledger = solver copy later := by
  simp only [startBody, begins.run]

theorem Begins.onward {later : Ledger} {body copy : TermId} {names named : Renaming}
    (begins : Begins program body names ledger copy named later) (quiet : Quiet program ledger) :
    Onward limit later ledger :=
  (begins.copied.grows quiet.wellFormed).advances.onward quiet

theorem Tried.emits {later : Ledger} {equation : TermId} {candidate : Clause × Nat}
    {names : Renaming} (tried : Tried program goal ledger candidate equation names later)
    (regular : Regular program limit solver) {event : Emission}
    (member : event ∈ tries solver goal ledger candidate) :
    event ∈ solver equation later ∧
        ((∀ ledger, event ≠ .answer ledger) ∨ candidate.1.body = none) ∨
      ∃ middle body copy named start, .answer middle ∈ solver equation later ∧
        candidate.1.body = some body ∧ Quiet program middle ∧ Onward limit middle later ∧
        Begins program body names middle copy named start ∧ event ∈ solver copy start := by
  simp only [tries, tried.run, resolved] at member
  cases has : candidate.1.body with
  | none =>
    rw [has] at member
    exact .inl ⟨member, .inr rfl⟩
  | some body =>
    rw [has] at member
    rcases mem_follow.mp member with ⟨listed, other⟩ | ⟨middle, listed, inside⟩
    · exact .inl ⟨listed, .inl other⟩
    · have onward := regular.onward tried.quiet tried.equation.callable listed
      have quiet := onward.quiet tried.quiet
      obtain ⟨copy, named, start, begins⟩ := tried.begins has onward.grown quiet
      rw [begins.start] at inside
      exact .inr ⟨middle, body, copy, named, start, listed, rfl, quiet, onward, begins, inside⟩

variable {unfolded : (TermId → Ledger → List Emission) → List Emission}

theorem Unfolds.faultless (regular : Regular program limit solver)
    (unfolds : Unfolds program goal ledger unfolded) (reason : Fault) :
    .fault reason ∉ unfolded solver := by
  cases unfolds with
  | negation _ starts =>
    exact negate_faultless (regular.faultless starts.quiet starts.callable) reason
  | conjunction _ first second =>
    intro member
    rcases mem_follow.mp member with ⟨listed, -⟩ | ⟨middle, listed, inside⟩
    · exact regular.faultless first.quiet first.callable reason listed
    · obtain ⟨quiet, callable⟩ :=
        second.next (regular.onward first.quiet first.callable listed)
      exact regular.faultless quiet callable reason inside
  | disjunction _ first second =>
    intro member
    rcases List.mem_append.mp member with inside | inside
    · exact regular.faultless first.quiet first.callable reason inside
    · exact regular.faultless second.quiet second.callable reason inside
  | @builtin _ _ _ _ _ reply later _ _ registered _ advances replaced =>
    cases reply with
    | fails | answers => simp [concluded]
    | delegates other =>
      exact regular.faultless (advances.quiet registered)
        (replaced other rfl).1 reason
  | predicate _ _ tried =>
    intro member
    obtain ⟨candidate, listed, inside⟩ := List.mem_flatMap.mp member
    obtain ⟨equation, names, later, tried⟩ := tried candidate listed
    rcases tried.emits regular inside with ⟨opening, -⟩ |
      ⟨middle, body, copy, named, start, -, -, -, -, begins, onward⟩
    · exact regular.faultless tried.quiet tried.equation.callable reason opening
    · exact regular.faultless begins.quiet begins.callable reason onward

theorem Unfolds.onward (regular : Regular program limit solver)
    (unfolds : Unfolds program goal ledger unfolded) (shallow : ledger.calls.length < limit)
    {last : Ledger} (member : .answer last ∈ unfolded solver) : Onward limit last ledger := by
  cases unfolds with
  | negation _ starts =>
    rw [(negate_answer member).1]
    exact starts.quiet.opens shallow
  | conjunction _ first second =>
    obtain ⟨-, other⟩ | ⟨middle, listed, inside⟩ := mem_follow.mp member
    · exact absurd rfl (other last)
    · have onward := regular.onward first.quiet first.callable listed
      obtain ⟨quiet, callable⟩ := second.next onward
      exact (regular.onward quiet callable inside).trans (onward.trans (first.quiet.opens shallow))
  | disjunction _ first second =>
    rcases List.mem_append.mp member with inside | inside
    · exact (regular.onward first.quiet first.callable inside).trans (first.quiet.opens shallow)
    · exact (regular.onward second.quiet second.callable inside).trans (second.quiet.opens shallow)
  | @builtin _ _ _ _ _ reply later _ _ registered _ advances replaced =>
    have onward := (advances.onward registered).trans (registered.opens shallow)
    cases reply with
    | fails => cases member
    | answers =>
      obtain rfl : last = later := by simpa [concluded] using member
      exact onward
    | delegates other =>
      have quiet := advances.quiet registered
      exact (regular.onward quiet (replaced other rfl).1 member).trans onward
  | predicate _ _ tried =>
    obtain ⟨candidate, listed, inside⟩ := List.mem_flatMap.mp member
    obtain ⟨equation, names, later, tried⟩ := tried candidate listed
    rcases tried.emits regular inside with ⟨opening, -⟩ |
      ⟨middle, body, copy, named, start, opening, -, quiet, onward, begins, inside⟩
    · exact (regular.onward tried.quiet tried.equation.callable opening).trans (tried.onward shallow)
    · exact (regular.onward begins.quiet begins.callable inside).trans
        ((begins.onward quiet).trans (onward.trans (tried.onward shallow)))

theorem Unfolds.single (regular : Regular program limit solver)
    (unfolds : Unfolds program goal ledger unfolded) (equations : ledger.Equations goal) :
    (answersOf (unfolded solver)).length ≤ 1 := by
  rcases equations.cases with ⟨left, right, known⟩ | ⟨left, right, known, isFirst, isSecond⟩
  · cases unfolds with
    | negation shape | conjunction shape | disjunction shape => simp [known] at shape
    | predicate shape form =>
      rw [known] at shape
      cases shape
      cases form
    | @builtin _ _ _ _ _ reply later shape form registered performs advances replaced =>
      rw [known] at shape
      cases shape
      cases form
      cases reply with
      | fails | answers => simp [concluded, answersOf]
      | delegates other =>
        have quiet := advances.quiet registered
        exact regular.single quiet ((replaced other rfl).2 rfl)
  · cases unfolds with
    | negation shape | disjunction shape => simp [known] at shape
    | predicate shape form | builtin shape form =>
      rw [known] at shape
      cases shape
      cases form
    | conjunction shape first second =>
      rw [known] at shape
      cases shape
      have grown := ledger.register_extends goal none
      have one := regular.single first.quiet (isFirst.later grown)
      rw [answersOf_follow]
      rcases Nat.le_one_iff_eq_zero_or_eq_one.mp one with none | once
      · simp [List.length_eq_zero_iff.mp none]
      · obtain ⟨middle, listed⟩ := List.length_eq_one_iff.mp once
        have answered := mem_answersOf.mp (listed ▸ List.mem_singleton_self middle)
        have onward := regular.onward first.quiet first.callable answered
        rw [listed]
        simpa using regular.single (onward.quiet first.quiet)
          (isSecond.later (onward.grown.trans grown))

end

theorem solve_regular (program : Program) (limit level : Nat) :
    Regular program limit (solve program limit level) := by
  induction level with
  | zero => exact ⟨by simp [solve], by simp [solve], by simp [solve, answersOf]⟩
  | succ level ih =>
    refine ⟨fun {goal ledger} quiet callable reason => ?_,
      fun {goal ledger later} quiet callable member => ?_, fun {goal ledger} quiet equations => ?_⟩
    · rcases quiet.unfolds callable with ⟨-, same⟩ | ⟨-, unfolded, unfolds, same⟩
      · simp [same limit level]
      · rw [same limit level ih]
        split
        · simp
        · exact unfolds.faultless ih reason
    · rcases quiet.unfolds callable with ⟨-, same⟩ | ⟨-, unfolded, unfolds, same⟩
      · obtain rfl : later = ledger := by simpa [same limit level] using member
        exact quiet.refl
      · rw [same limit level ih] at member
        split at member
        · simp at member
        · next shallow => exact unfolds.onward ih (Nat.lt_of_not_le shallow) member
    · rcases quiet.unfolds equations.callable with ⟨-, same⟩ | ⟨-, unfolded, unfolds, same⟩
      · simp [same limit level, answersOf]
      · rw [same limit level ih]
        split
        · simp [answersOf]
        · exact unfolds.single ih equations

/-- A goal holds as it is, or is taken apart where the call stack is not too high. -/
theorem Quiet.comes {ledger : Ledger} (quiet : Quiet program ledger) {goal : TermId}
    (callable : ledger.arena.Callable anywhere goal) :
    (((∃ value, ledger.shape? goal = some (.number value)) ∨ goal ∈ ledger.calls) ∧
      ∀ limit level, solve program limit (level + 1) goal ledger = [.answer ledger]) ∨
    (goal ∉ ledger.calls ∧ ∃ unfolded, Unfolds program goal ledger unfolded ∧
      ∀ limit level, solve program limit (level + 1) goal ledger =
        if limit ≤ ledger.calls.length then [.cut] else unfolded (solve program limit level)) := by
  rcases quiet.unfolds callable with holds | ⟨idle, unfolded, unfolds, same⟩
  · exact .inl holds
  · exact .inr ⟨idle, unfolded, unfolds, fun limit level =>
      same limit level (solve_regular program limit level)⟩

def Deeper (limit : Nat) (ledger later : Ledger) : Prop :=
  ledger.calls.length < later.calls.length ∧ later.calls.length ≤ limit

theorem deeper_register {ledger : Ledger} {goal : TermId} {choice : Option Choice}
    (shallow : ledger.calls.length < limit) :
    Deeper limit ledger (ledger.register goal choice) := by
  simp only [Deeper, Ledger.register, List.length_append, List.length_singleton]
  omega

theorem Deeper.onward {ledger middle later : Ledger} (deeper : Deeper limit ledger middle)
    (onward : Onward limit later middle) : Deeper limit ledger later := by
  have more := onward.grown.calls.length_le
  have depth := onward.depth
  obtain ⟨higher, low⟩ := deeper
  exact ⟨by omega, by omega⟩

end Resolvent
