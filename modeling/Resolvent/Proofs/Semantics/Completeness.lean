import Resolvent.Proofs.Semantics.Soundness

namespace Resolvent

section

variable {program : Program} {limit : Nat} {base ledger later : Ledger} {ρ : TermId → Tree}
  {solver : TermId → Ledger → List Emission} {goal : TermId}

theorem Satisfies.named (satisfies : Satisfies ρ ledger) (wellFormed : ledger.WellFormed)
    (grown : later.Allocates ledger) {added : Renaming}
    (new : ∀ entry ∈ added, ledger.size ≤ entry.2.index)
    (isVar : ∀ entry ∈ added, later.shape? entry.2 = some .var)
    (apart : (added.map Prod.snd).Nodup) (values : TermId → Tree) :
    ∃ extended, Satisfies extended later ∧ (∀ id, ledger.Live id → extended id = ρ id) ∧
      ∀ entry ∈ added, extended entry.2 = values entry.1 := by
  let τ (id : TermId) : Tree := (((added.map Prod.swap).lookup id).map values).getD (values id)
  obtain ⟨extended, whole, old, fresh⟩ := satisfies.extend wellFormed grown τ
  refine ⟨extended, whole, old, fun entry member => ?_⟩
  have once : ((added.map Prod.swap).map Prod.fst).Nodup := by simpa [Function.comp_def] using apart
  have found := Ledger.lookup_of_mem once (List.mem_map_of_mem (f := Prod.swap) member)
  rw [fresh entry.2 (new entry member) (isVar entry member)]
  simp only [τ]
  rw [show (added.map Prod.swap).lookup entry.2 = some entry.1 from found]
  rfl

theorem Tried.named {candidate : Clause × Nat} {equation : TermId} {names : Renaming}
    (tried : Tried program goal ledger candidate equation names later)
    (satisfies : Satisfies ρ ledger) (values : TermId → Tree) :
    ∃ extended, Satisfies extended later ∧ (∀ id, ledger.Live id → extended id = ρ id) ∧
      ∀ entry ∈ names, extended entry.2 = values entry.1 := by
  have registered := tried.registered.wellFormed
  have head := tried.matched.head_instance registered (tried.registered.fits.headLive tried.held)
  have onward : Satisfies ρ (ledger.register goal (some (.clause candidate.2))) :=
    ⟨⟨⟨satisfies.number, satisfies.compound⟩, satisfies.bound⟩, satisfies.apart⟩
  exact onward.named registered tried.opening head.new head.isVar head.apart values

theorem Begins.named {body copy : TermId} {names named : Renaming}
    (begins : Begins program body names ledger copy named later) (quiet : Quiet program ledger)
    (satisfies : Satisfies ρ ledger) (live : ledger.Live body) (namesLive : ledger.NamesLive names)
    {values : TermId → Tree} (valued : ∀ entry ∈ names, ρ entry.2 = values entry.1) :
    ∃ extended, Satisfies extended later ∧ (∀ id, ledger.Live id → extended id = ρ id) ∧
      ∀ entry ∈ named, extended entry.2 = values entry.1 := by
  obtain ⟨added, rfl, held⟩ := begins.copied.added quiet.wellFormed (by simpa using live)
  obtain ⟨extended, whole, old, fresh⟩ := satisfies.named quiet.wellFormed
    (begins.copied.grows quiet.wellFormed) held.new held.isVar held.apart values
  refine ⟨extended, whole, old, fun entry member => ?_⟩
  rcases List.mem_append.mp member with new | before
  · exact fresh entry new
  · rw [old _ (namesLive entry before), valued entry before]

def Found (program : Program) (base ledger : Ledger) (ρ : TermId → Tree) (events : List Emission) :
    Prop :=
  ∃ later extended, .answer later ∈ events ∧ Steady program base later ∧ Satisfies extended later ∧
    ∀ id, ledger.Live id → extended id = ρ id

theorem Found.earlier {events : List Emission} {extended : TermId → Tree}
    (found : Found program base later extended events) (live : ∀ id, ledger.Live id → later.Live id)
    (kept : ∀ id, ledger.Live id → extended id = ρ id) : Found program base ledger ρ events := by
  obtain ⟨last, whole, member, steady, satisfies, same⟩ := found
  exact ⟨last, whole, member, steady, satisfies, fun id known =>
    (same id (live id known)).trans (kept id known)⟩

theorem Found.mono {events others : List Emission} (found : Found program base ledger ρ events)
    (among : ∀ event ∈ events, event ∈ others) : Found program base ledger ρ others := by
  obtain ⟨last, whole, member, rest⟩ := found
  exact ⟨last, whole, among _ member, rest⟩

theorem Found.follow {events : List Emission} {step : Ledger → List Emission}
    (found : Found program base ledger ρ events)
    (onward : ∀ middle extended, .answer middle ∈ events → Steady program base middle →
      Satisfies extended middle → (∀ id, ledger.Live id → extended id = ρ id) →
      Found program base ledger ρ (step middle)) :
    Found program base ledger ρ (events.flatMap (follow step)) := by
  obtain ⟨middle, extended, listed, steady, satisfies, kept⟩ := found
  exact (onward middle extended listed steady satisfies kept).mono fun event member =>
    mem_follow.mpr (.inr ⟨middle, listed, member⟩)

theorem uncut_follow {events : List Emission} {step : Ledger → List Emission}
    (uncut : .cut ∉ events.flatMap (follow step)) :
    .cut ∉ events ∧ ∀ ledger, .answer ledger ∈ events → .cut ∉ step ledger :=
  ⟨fun cut => uncut (mem_follow.mpr (.inl ⟨cut, nofun⟩)),
    fun ledger answered cut => uncut (mem_follow.mpr (.inr ⟨ledger, answered, cut⟩))⟩

structure Posed (program : Program) (base : Ledger) (limit : Nat) (goal : TermId) (ledger : Ledger) :
    Prop where
  steady : Steady program base ledger
  usable : base.Usable goal
  callable : ledger.arena.Callable Arena.pureFunctor goal
  low : ledger.calls.length ≤ limit

def Complete (program : Program) (base : Ledger) (limit height : Nat)
    (solve : TermId → Ledger → List Emission) : Prop :=
  ∀ {goal ledger ρ}, Posed program base limit goal ledger → height ≤ ledger.calls.length →
    .cut ∉ solve goal ledger → Satisfies ρ ledger → Derivable program base.arena (ρ goal) →
    Found program base ledger ρ (solve goal ledger)

theorem Posed.anywhere (posed : Posed program base limit goal ledger) :
    ledger.arena.Callable anywhere goal :=
  Ledger.callable_anywhere posed.steady.wellFormed posed.callable

/-- A part of a goal may be called once the goal was put on the call stack. -/
theorem Posed.inside (posed : Posed program base limit goal ledger) {symbol : Symbol}
    {args : List TermId} (shape : ledger.shape? goal = some (.compound symbol args))
    (grown : later.Extends ledger) (steady : Steady program base later)
    (deeper : Deeper limit ledger later) {called : TermId}
    (member : called ∈ (formOf symbol args).goals) : Posed program base limit called later where
  steady := steady
  usable := (posed.steady.tame.fine shape posed.usable).args called (goals_args called member)
  callable :=
    Ledger.callable_later grown ((Ledger.callable_goals posed.callable shape).2 called member)
  low := deeper.2

theorem Posed.part (posed : Posed program base limit goal ledger) {symbol : Symbol}
    {args : List TermId} (shape : ledger.shape? goal = some (.compound symbol args))
    (idle : goal ∉ ledger.calls) (shallow : ledger.calls.length < limit) {choice : Option Choice}
    {called : TermId} (member : called ∈ (formOf symbol args).goals) :
    Posed program base limit called (ledger.register goal choice) :=
  posed.inside shape (ledger.register_extends goal choice) (posed.steady.register shape idle choice)
    (deeper_register shallow) member

theorem Satisfies.register (satisfies : Satisfies ρ ledger) (goal : TermId)
    (choice : Option Choice) : Satisfies ρ (ledger.register goal choice) :=
  ⟨⟨⟨satisfies.number, satisfies.compound⟩, satisfies.bound⟩, satisfies.apart⟩

/-- An instance of a body is covered by what its copy answers, with the names of the head read as
    before and those that the body adds as the instance needs them. -/
theorem Begins.found {body copy : TermId} {names named : Renaming}
    (begins : Begins program body names ledger copy named later) {height : Nat}
    (complete : Complete program base limit height solver) (pure : base.arena.PureGoal body)
    (steady : Steady program base ledger) (namesUsable : ∀ entry ∈ names, base.Usable entry.2)
    (namesLive : ledger.NamesLive names) (wellFormed : base.WellFormed) (live : base.Live body)
    (satisfies : Satisfies ρ ledger) {values : TermId → Tree}
    (valued : ∀ entry ∈ names, ρ entry.2 = values entry.1)
    (derivable : Derivable program base.arena (base.arena.ground values body))
    (low : later.calls.length ≤ limit) (high : height ≤ later.calls.length)
    (uncut : .cut ∉ solver copy later) : Found program base ledger ρ (solver copy later) := by
  obtain ⟨bodySteady, usable, callable⟩ := begins.pure pure steady namesUsable
  obtain ⟨read, whole, old, bodyValued⟩ :=
    begins.named steady.quiet satisfies (steady.grown.live live) namesLive valued
  have same : base.arena.ground values body = read copy :=
    begins.copies.ground whole.toReads bodySteady.grown wellFormed live
      fun var name known => (bodyValued _ (Ledger.mem_of_lookup known)).symm
  rw [same] at derivable
  have posed : Posed program base limit copy later :=
    ⟨bodySteady, usable, Ledger.callable_imp bodySteady.wellFormed callable
      fun _ _ _ _ allowed => allowed.2, low⟩
  have grown := (begins.copied.grows steady.wellFormed).extends
  exact (complete posed high uncut whole derivable).earlier (fun _ known => grown.live known) old

/-- An instance of a goal by a clause is covered by what the clause answers. -/
theorem Tried.complete (regular : Regular program limit solver)
    (complete : Complete program base limit (ledger.calls.length + 1) solver)
    (pure : program.Pure base.arena) (fits : program.Fits base) (wellFormed : base.WellFormed)
    {candidate : Clause × Nat} {equation : TermId} {names : Renaming}
    (tried : Tried program goal ledger candidate equation names later)
    (registered : Steady program base (ledger.register goal (some (.clause candidate.2))))
    (usable : base.Usable goal) (live : ledger.Live goal) (shallow : ledger.calls.length < limit)
    (uncut : .cut ∉ tries solver goal ledger candidate) (satisfies : Satisfies ρ ledger)
    {values : TermId → Tree} (head : base.arena.ground values candidate.1.head = ρ goal)
    (body : ∀ body, candidate.1.body = some body →
      Derivable program base.arena (base.arena.ground values body)) :
    Found program base ledger ρ (tries solver goal ledger candidate) := by
  have heads := tried.heads pure registered usable
  obtain ⟨extended, whole, old, valued⟩ := tried.named satisfies values
  obtain ⟨copy, shape, copies⟩ := heads.copies
  -- New names are read as the instance of the clause needs them, so the copied head is its instance.
  have same : base.arena.ground values candidate.1.head = extended copy :=
    copies.ground whole.toReads heads.steady.grown wellFormed (fits.headLive tried.held)
      fun var name known => (valued _ (Ledger.mem_of_lookup known)).symm
  have matched : Derivable program base.arena (extended equation) := by
    rw [whole.compound shape, List.map_cons, List.map_singleton, old goal live, ← head, same]
    exact .equality _
  have deeper : Deeper limit ledger later := by
    simp only [Deeper, tried.calls, List.length_append, List.length_singleton]
    omega
  have first : Posed program base limit equation later := by
    refine ⟨heads.steady, .inl (Nat.le_trans registered.grown.size_le heads.new), ?_, deeper.2⟩
    exact Ledger.callable_compound shape ⟨rfl, by simp⟩ (by simp [formOf, Compound.form, Form.goals])
  have kept (id : TermId) (known : ledger.Live id) : later.Live id := tried.opening.live known
  simp only [tries, tried.run, resolved] at uncut ⊢
  cases has : candidate.1.body with
  | none =>
    simp only [has] at uncut ⊢
    exact (complete first deeper.1 uncut whole matched).earlier kept old
  | some term =>
    simp only [has] at uncut ⊢
    obtain ⟨headUncut, bodyUncut⟩ := uncut_follow uncut
    have found := complete first deeper.1 headUncut whole matched
    refine Found.earlier (found.follow fun middle read listed halfway middleSatisfies agrees => ?_)
      kept old
    have quiet := halfway.quiet
    have onward := regular.onward tried.quiet tried.equation.callable listed
    obtain ⟨bodyCopy, named, start, begins⟩ := tried.begins has onward.grown quiet
    have bodyUncut := bodyUncut middle listed
    rw [begins.start] at bodyUncut ⊢
    have namesLive := (tried.matched.head_instance registered.wellFormed
      (tried.registered.fits.headLive tried.held)).namesLive
    have below := deeper.onward ((begins.onward quiet).trans onward)
    refine (begins.found complete (pure.body _ (Array.mem_of_getElem? tried.held) term has) halfway
      heads.names_usable (namesLive.later onward.grown) wellFormed (fits.body tried.held has)
      middleSatisfies (fun entry member => ?_) (body term has) below.2 below.1 bodyUncut).earlier
      (fun _ known => onward.grown.live known) agrees
    exact (agrees _ (namesLive entry member)).trans (valued entry member)

section

variable {unfolded : (TermId → Ledger → List Emission) → List Emission}

theorem Unfolds.complete (regular : Regular program limit solver)
    (complete : Complete program base limit (ledger.calls.length + 1) solver)
    (pure : program.Pure base.arena) (fits : program.Fits base) (wellFormed : base.WellFormed)
    (unfolds : Unfolds program goal ledger unfolded) (posed : Posed program base limit goal ledger)
    (idle : goal ∉ ledger.calls) (shallow : ledger.calls.length < limit)
    (uncut : .cut ∉ unfolded solver) (satisfies : Satisfies ρ ledger)
    (derivable : Derivable program base.arena (ρ goal)) :
    Found program base ledger ρ (unfolded solver) := by
  have steady := posed.steady
  cases unfolds with
  | negation shape =>
    have functor := (Ledger.callable_goals posed.callable shape).1
    simp [Arena.pureFunctor] at functor
  | @conjunction left right shape =>
    rw [satisfies.compound shape] at derivable
    obtain ⟨first, second⟩ := derivable.both fits wellFormed
    obtain ⟨leftUncut, rightUncut⟩ := uncut_follow uncut
    have grown := ledger.register_extends goal none
    have deeper : Deeper limit ledger (ledger.register goal none) := deeper_register shallow
    have leftPosed : Posed program base limit left (ledger.register goal none) :=
      posed.part shape idle shallow List.mem_cons_self
    have found := complete leftPosed deeper.1 leftUncut (satisfies.register goal none) first
    -- The answer of the left goal may read new variables, and the right goal is looked for as it reads
    -- them.
    refine Found.earlier (found.follow fun middle extended listed halfway middleSatisfies kept => ?_)
      (fun _ known => known) fun _ _ => rfl
    have onward := regular.onward leftPosed.steady.quiet leftPosed.anywhere listed
    have below := deeper.onward onward
    have rightPosed : Posed program base limit right middle :=
      posed.inside shape (onward.grown.trans grown) halfway below
        (List.mem_cons_of_mem _ List.mem_cons_self)
    have live := steady.wellFormed.live_args shape right (by simp)
    rw [← kept right live] at second
    exact (complete rightPosed below.1 (rightUncut middle listed) middleSatisfies second).earlier
      (fun _ known => onward.grown.live known) kept
  | @disjunction left right shape =>
    rw [satisfies.compound shape] at derivable
    rw [List.mem_append, not_or] at uncut
    have part {choice : Option Choice} {called : TermId}
        (member : called ∈ (formOf (.reserved .disjunction) [left, right]).goals)
        (uncut : .cut ∉ solver called (ledger.register goal choice))
        (derivable : Derivable program base.arena (ρ called)) :
        Found program base ledger ρ (solver called (ledger.register goal choice)) :=
      (complete (posed.part shape idle shallow member) (deeper_register shallow).1 uncut
        (satisfies.register goal choice) derivable).earlier (fun _ known => known) fun _ _ => rfl
    rcases derivable.either fits wellFormed with first | second
    · exact (part List.mem_cons_self uncut.1 first).mono
        fun event member => List.mem_append_left _ member
    · exact (part (List.mem_cons_of_mem _ List.mem_cons_self) uncut.2 second).mono
        fun event member => List.mem_append_right _ member
  | @builtin symbol args builtin left right reply last shape form _ performs advances =>
    obtain ⟨rfl, decided⟩ := steady.builtin shape idle posed.usable
      (Ledger.callable_goals posed.callable shape).1 form performs
    have answered {holds : (TermId → Tree) → Prop}
        (decides : Decides program base (ledger.register goal none) holds reply last)
        (true : holds ρ) : Found program base ledger ρ (concluded solver last reply) := by
      obtain ⟨rfl, extended, whole, kept⟩ :=
        decides.complete ρ (satisfies.register goal none) true
      exact ⟨last, extended, by simp [concluded], decides.steady rfl, whole, kept⟩
    rw [satisfies.compound shape] at derivable
    rcases decided with ⟨rfl, equality⟩ | ⟨rfl, inequality⟩
    · exact answered equality (derivable.sides fits wellFormed)
    · exact answered inequality (derivable.different fits wellFormed)
  | predicate shape form tried =>
    obtain ⟨place, rfl⟩ := pure_predicate (Ledger.callable_goals posed.callable shape).1 form
    rw [satisfies.compound shape] at derivable
    obtain ⟨clause, index, values, listed, head, body⟩ := derivable.resolved fits wellFormed
    rw [List.length_map] at listed
    rw [← satisfies.compound shape] at head
    obtain ⟨equation, names, later, tried⟩ := tried _ listed
    have found := tried.complete regular complete pure fits wellFormed
      (steady.register shape idle _) posed.usable (Ledger.live_of_shape shape) shallow
      (fun cut => uncut (List.mem_flatMap_of_mem listed cut)) satisfies head body
    exact found.mono fun event member => List.mem_flatMap_of_mem listed member

end

/-- A search in a pure program finds an answer for whatever follows from it, unless it is cut off. -/
theorem solve_complete (pure : program.Pure base.arena) (fits : program.Fits base)
    (wellFormed : base.WellFormed) (limit level : Nat) {height : Nat} (high : limit < height + level) :
    Complete program base limit height (solve program limit level) := by
  induction level generalizing height with
  | zero =>
    intro goal ledger ρ posed above uncut satisfies derivable
    have low := posed.low
    omega
  | succ level ih =>
    intro goal ledger ρ posed above uncut satisfies derivable
    rcases posed.steady.quiet.comes posed.anywhere with
      ⟨-, same⟩ | ⟨idle, unfolded, unfolds, same⟩
    · rw [same limit level]
      exact ⟨ledger, ρ, by simp, posed.steady, satisfies, fun _ _ => rfl⟩
    · rw [same limit level] at uncut ⊢
      split at uncut
      · simp at uncut
      · next shallow =>
        rw [if_neg shallow]
        exact unfolds.complete (solve_regular program limit level) (ih (by omega)) pure fits wellFormed
          posed idle (Nat.lt_of_not_le shallow) uncut satisfies derivable

/-- A pass in which nothing is cut off has an answer that covers each instance of the query that
    follows from the program, with values for the variables that the search made and the same values
    for those that were there. -/
theorem pass_complete {state : State} {query : TermId} {answers : List State}
    {values : TermId → Tree} (ready : Ready program state) (pure : program.Pure state.arena)
    (goal : state.arena.PureGoal query)
    (pass : (Search.start query limit).Pass program state answers false)
    (derivable : Derivable program state.arena (state.arena.ground values query)) :
    ∃ answer ∈ answers, ∃ extended, answer.Covers extended ∧
      ∀ var cell, state.arena.contains var = true → state.arena.node var = .var cell →
        extended var = values var := by
  obtain ⟨base, same, untouched, steady⟩ := ready.steady pure
  have arena : state.arena = base.arena := congrArg State.arena same
  rw [arena] at pure goal derivable ⊢
  have wellFormed := steady.wellFormed
  have stands := stands_start wellFormed steady.quiet.fits (Ledger.callable_live goal.callable) limit
    state.counters
  rw [← same] at stands
  obtain ⟨-, held, flags⟩ := stands.pass pass
  have uncut : .cut ∉ solve program limit (limit + 1) query base := fun cut =>
    absurd (flags.mpr (.inr (.inr cut))) nofun
  have idle : base.calls.length = 0 := by rw [untouched, List.length_nil]
  have unbound : base.bindings = [] := by rw [untouched]
  have unposted : base.postings = [] := by rw [untouched]
  have posed : Posed program base limit query base :=
    ⟨steady, .inr goal.plain, goal.callable, by omega⟩
  have satisfies : Satisfies (base.arena.ground values) base :=
    ⟨⟨ground_reads wellFormed values, by simp [unbound]⟩, by simp [unposted]⟩
  obtain ⟨last, extended, member, lastSteady, covers, kept⟩ :=
    solve_complete pure steady.quiet.fits wellFormed limit (limit + 1) (Nat.lt_add_left 0 (by omega))
      posed (Nat.zero_le _) uncut satisfies derivable
  obtain ⟨answer, listed, counters, rfl⟩ := Holds.among held (mem_answersOf.mpr member)
  refine ⟨_, listed, extended, covers.covers lastSteady.wellFormed counters, ?_⟩
  intro var cell inside isVar
  have live := (Ledger.contains_arena base var).mp inside
  rw [kept var live, ground_var wellFormed values (Ledger.shape_of_var live isVar)]

end

namespace Unequal

theorem derivable : Derivable program state.arena (.compound (.user 0) [a, b]) := by
  have body : state.arena.ground values ⟨3⟩ = .compound (.reserved .unequal) [a, b] := by
    decide +kernel
  have head : state.arena.ground values ⟨2⟩ = .compound (.user 0) [a, b] := by decide +kernel
  refine @Derivable.clause _ _ ⟨⟨2⟩, some ⟨3⟩, .user 0, 2⟩ _ values (by simp [program]) head ?_
  rintro _ ⟨⟩
  rw [body]
  exact .inequality (by decide)

theorem answer_found : Derivable program state.arena (.compound (.user 0) [a, b]) ∧
    ∃ answer ∈ answers, ∃ extended, answer.Covers extended ∧
      ∀ var cell, state.arena.contains var = true → state.arena.node var = .var cell →
        extended var = values var := by
  refine ⟨derivable, pass_complete ready pure pure_query pass ?_⟩
  rw [query_read]
  exact derivable

end Unequal

end Resolvent
