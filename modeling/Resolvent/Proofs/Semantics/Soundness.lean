import Resolvent.Proofs.Search.Ready
import Resolvent.Proofs.Semantics.Clauses

namespace Resolvent

section

variable {program : Program} {limit : Nat} {base ledger later : Ledger} {ρ : TermId → Tree}
  {solver : TermId → Ledger → List Emission} {goal : TermId} {proving : List TermId}

def outside (proving : List TermId) (id : TermId) (symbol : Symbol) (arity : Nat) : Prop :=
  id ∉ proving ∧ Arena.pureFunctor id symbol arity

structure Asked (base ledger : Ledger) (proving : List TermId) (goal : TermId) : Prop where
  usable : base.Usable goal
  callable : ledger.arena.Callable (outside proving) goal

structure Justified (program : Program) (base : Ledger) (proving : List TermId) (ledger : Ledger) :
    Prop where
  steady : Steady program base ledger
  live : ∀ goal ∈ proving, ledger.Live goal
  proven : ∀ goal ∈ ledger.calls, goal ∈ proving ∨
    ∀ ρ, Satisfies ρ ledger → Derivable program base.arena (ρ goal)

theorem Justified.onward (justified : Justified program base proving ledger)
    (steady : Steady program base later) (grown : later.Extends ledger)
    (calls : later.calls = ledger.calls) : Justified program base proving later where
  steady := steady
  live other member := grown.live (justified.live other member)
  proven := by
    rw [calls]
    intro other member
    exact (justified.proven other member).imp_right
      fun follows ρ satisfies => follows ρ (satisfies.earlier grown)

theorem Justified.opens (justified : Justified program base proving ledger) {symbol : Symbol}
    {args : List TermId} (shape : ledger.shape? goal = some (.compound symbol args))
    (idle : goal ∉ ledger.calls) (choice : Option Choice) :
    Justified program base (goal :: proving) (ledger.register goal choice) where
  steady := justified.steady.register shape idle choice
  live := by
    simp only [List.mem_cons, forall_eq_or_imp]
    exact ⟨Ledger.live_of_shape shape, justified.live⟩
  proven := by
    intro other member
    rcases List.mem_append.mp member with old | new
    · rcases justified.proven other old with isOpen | follows
      · exact .inl (by simp [isOpen])
      · exact .inr fun ρ satisfies =>
          follows ρ (satisfies.earlier (ledger.register_extends goal choice))
    · exact .inl (by simp [List.mem_singleton.mp new])

theorem Justified.closes (justified : Justified program base (goal :: proving) ledger)
    (follows : ∀ ρ, Satisfies ρ ledger → Derivable program base.arena (ρ goal)) :
    Justified program base proving ledger where
  steady := justified.steady
  live other member := justified.live other (by simp [member])
  proven := by
    intro other member
    rcases justified.proven other member with isOpen | proven
    · rcases List.mem_cons.mp isOpen with rfl | old
      · exact .inr follows
      · exact .inl old
    · exact .inr proven

theorem Asked.inside (asked : Asked base ledger proving goal) (wellFormed : ledger.WellFormed)
    (tame : Ledger.Tame base ledger) {symbol : Symbol} {args : List TermId}
    (shape : ledger.shape? goal = some (.compound symbol args)) (grown : later.Extends ledger)
    {called : TermId} (member : called ∈ (formOf symbol args).goals) :
    Asked base later (goal :: proving) called where
  usable := (tame.fine shape asked.usable).args called (goals_args called member)
  callable := by
    have older := wellFormed.args_older shape called (goals_args called member)
    refine Ledger.callable_later grown (Ledger.callable_imp wellFormed
      ((Ledger.callable_goals asked.callable shape).2 called member) ?_)
    rintro other functor arity low ⟨absent, pure⟩
    refine ⟨?_, pure⟩
    simp only [List.mem_cons, not_or]
    refine ⟨?_, absent⟩
    rintro rfl
    omega

theorem Asked.anywhere (asked : Asked base ledger proving goal) (wellFormed : ledger.WellFormed) :
    ledger.arena.Callable anywhere goal :=
  Ledger.callable_anywhere wellFormed asked.callable

def Sound (program : Program) (base : Ledger) (solve : TermId → Ledger → List Emission) : Prop :=
  ∀ {proving goal ledger later}, Justified program base proving ledger →
    Asked base ledger proving goal → .answer later ∈ solve goal ledger →
    Justified program base proving later ∧
      ∀ ρ, Satisfies ρ later → Derivable program base.arena (ρ goal)

theorem Asked.grows (asked : Asked base ledger proving goal) (regular : Regular program limit solver)
    (steady : Steady program base ledger) (member : .answer later ∈ solver goal ledger) :
    later.Extends ledger :=
  (regular.onward steady.quiet (asked.anywhere steady.wellFormed) member).grown

/-- The equation of a goal with a copy of a head may be called while the goal is being proven. -/
theorem asked_equation {head equation : TermId} {names : Renaming}
    (heads : Heads program base ledger goal head equation names later)
    (old : ∀ other ∈ proving, ledger.Live other) (grown : ledger.Extends base) :
    Asked base later proving equation where
  usable := .inl (Nat.le_trans grown.size_le heads.new)
  callable := by
    obtain ⟨copy, shape, -⟩ := heads.copies
    refine Ledger.callable_compound shape ⟨fun busy => ?_, rfl, by simp⟩
      (by simp [formOf, Compound.form, Form.goals])
    exact Nat.not_lt_of_le heads.new (old equation busy)

/-- What a clause answers follows from the program if what its head and its body answer does. -/
theorem Tried.sound (regular : Regular program limit solver) (sound : Sound program base solver)
    (pure : program.Pure base.arena) (fits : program.Fits base) (wellFormed : base.WellFormed)
    {candidate : Clause × Nat} {equation : TermId} {names : Renaming} {start : Ledger}
    (tried : Tried program goal ledger candidate equation names start)
    (justified : Justified program base proving ledger) (asked : Asked base ledger proving goal)
    {symbol : Symbol} {args : List TermId}
    (shape : ledger.shape? goal = some (.compound symbol args)) (idle : goal ∉ ledger.calls)
    (answered : .answer later ∈ tries solver goal ledger candidate) :
    Justified program base proving later ∧
      ∀ ρ, Satisfies ρ later → Derivable program base.arena (ρ goal) := by
  have opened := justified.opens shape idle (some (.clause candidate.2))
  have heads := tried.heads pure opened.steady asked.usable
  have clause := Array.mem_of_getElem? tried.held
  have begun := opened.onward heads.steady tried.opening.extends tried.opening.advances.calls
  have first : Asked base start (goal :: proving) equation :=
    asked_equation heads (by simpa using ⟨Ledger.live_of_shape shape, justified.live⟩)
      justified.steady.grown
  rcases tried.emits regular answered with ⟨ended, none⟩ |
    ⟨middle, body, copy, named, last, matched, has, quiet, onward, begins, ended⟩
  · obtain ⟨closed, follows⟩ := sound begun first ended
    have derives (ρ : TermId → Tree) (satisfies : Satisfies ρ later) :
        Derivable program base.arena (ρ goal) := by
      refine heads.derivable clause fits wellFormed (first.grows regular heads.steady ended)
        satisfies.toReads (follows ρ satisfies) (fun _ _ known => known) fun body has => ?_
      have bodiless := none.resolve_left fun other => other later rfl
      simp [bodiless] at has
    exact ⟨closed.closes derives, derives⟩
  · obtain ⟨halfway, follows⟩ := sound begun first matched
    obtain ⟨bodySteady, bodyUsable, bodyCallable⟩ :=
      begins.pure (pure.body _ clause body has) halfway.steady heads.names_usable
    have grown := begins.copied.grows quiet.wellFormed
    have second : Asked base last (goal :: proving) copy := by
      refine ⟨bodyUsable, Ledger.callable_imp bodySteady.wellFormed bodyCallable ?_⟩
      rintro other functor arity - ⟨new, pure⟩
      exact ⟨fun busy => Nat.not_lt_of_le new (halfway.live other busy), pure⟩
    obtain ⟨closed, bodyFollows⟩ :=
      sound (halfway.onward bodySteady grown.extends grown.advances.calls) second ended
    have more := second.grows regular bodySteady ended
    have derives (ρ : TermId → Tree) (satisfies : Satisfies ρ later) :
        Derivable program base.arena (ρ goal) := by
      have whole := more.trans grown.extends
      refine heads.derivable clause fits wellFormed (whole.trans onward.grown) satisfies.toReads
        (follows ρ (satisfies.earlier whole)) (fun _ _ known => begins.copied.kept known)
        fun term known => ?_
      obtain rfl : term = body := by simpa [known] using has
      exact ⟨copy, _, begins.copies.later more (Nat.le_refl _) fun _ _ known => known,
        bodyFollows ρ satisfies⟩
    exact ⟨closed.closes derives, derives⟩

section

variable {unfolded : (TermId → Ledger → List Emission) → List Emission}

/-- What a part of a goal answers once the goal was put on the call stack. -/
theorem Asked.part (asked : Asked base ledger proving goal) (regular : Regular program limit solver)
    (sound : Sound program base solver) (justified : Justified program base proving ledger)
    {symbol : Symbol} {args : List TermId}
    (shape : ledger.shape? goal = some (.compound symbol args)) (idle : goal ∉ ledger.calls)
    {choice : Option Choice} {called : TermId} (among : called ∈ (formOf symbol args).goals)
    (listed : .answer later ∈ solver called (ledger.register goal choice)) :
    Justified program base (goal :: proving) later ∧ later.Extends ledger ∧
      ∀ ρ, Satisfies ρ later → Derivable program base.arena (ρ called) := by
  have opened := justified.opens shape idle choice
  have grown := ledger.register_extends goal choice
  have below : Asked base (ledger.register goal choice) (goal :: proving) called :=
    asked.inside justified.steady.wellFormed justified.steady.tame shape grown among
  obtain ⟨closed, follows⟩ := sound opened below listed
  exact ⟨closed, (below.grows regular opened.steady listed).trans grown, follows⟩

theorem Decides.proves {holds : (TermId → Tree) → Prop} {reply : Reply} {last : Ledger}
    (decides : Decides program base (ledger.register goal none) holds reply last)
    (advances : last.Advances (ledger.register goal none))
    (opened : Justified program base (goal :: proving) (ledger.register goal none))
    (means : ∀ ρ, Satisfies ρ last → holds ρ → Derivable program base.arena (ρ goal))
    (member : .answer later ∈ concluded solver last reply) :
    Justified program base proving later ∧
      ∀ ρ, Satisfies ρ later → Derivable program base.arena (ρ goal) := by
  rcases decides.replies with rfl | rfl
  · cases member
  · obtain rfl : later = last := by simpa [concluded] using member
    have follows (ρ : TermId → Tree) (satisfies : Satisfies ρ later) :=
      means ρ satisfies (decides.sound rfl ρ satisfies)
    have closed := opened.onward (decides.steady rfl) advances.grown advances.calls
    exact ⟨closed.closes follows, follows⟩

/-- Answers of a goal follow from the program if those of the goals that it comes to do. -/
theorem Unfolds.sound (regular : Regular program limit solver) (sound : Sound program base solver)
    (pure : program.Pure base.arena) (fits : program.Fits base) (wellFormed : base.WellFormed)
    (unfolds : Unfolds program goal ledger unfolded)
    (justified : Justified program base proving ledger) (asked : Asked base ledger proving goal)
    (idle : goal ∉ ledger.calls) (member : .answer later ∈ unfolded solver) :
    Justified program base proving later ∧
      ∀ ρ, Satisfies ρ later → Derivable program base.arena (ρ goal) := by
  have steady := justified.steady
  -- An answer takes the goal out of those being proven, so the goal has to follow by then.
  have proved (closed : Justified program base (goal :: proving) later)
      (follows : ∀ ρ, Satisfies ρ later → Derivable program base.arena (ρ goal)) :=
    And.intro (closed.closes follows) follows
  cases unfolds with
  | negation shape =>
    have functor := (Ledger.callable_goals asked.callable shape).1
    -- No pure goal is a negation.
    simp [outside, Arena.pureFunctor] at functor
  | @conjunction left right shape =>
    obtain ⟨-, other⟩ | ⟨middle, listed, last⟩ := mem_follow.mp member
    · exact absurd rfl (other later)
    · obtain ⟨halfway, onward, leftFollows⟩ :=
        asked.part regular sound justified shape idle List.mem_cons_self listed
      have second : Asked base middle (goal :: proving) right :=
        asked.inside steady.wellFormed steady.tame shape onward
          (List.mem_cons_of_mem _ List.mem_cons_self)
      obtain ⟨closed, rightFollows⟩ := sound halfway second last
      have more := second.grows regular halfway.steady last
      refine proved closed fun ρ satisfies => ?_
      rw [satisfies.compound ((more.trans onward).shape shape)]
      exact .conjunction (leftFollows ρ (satisfies.earlier more)) (rightFollows ρ satisfies)
  | @disjunction left right shape =>
    rcases List.mem_append.mp member with listed | listed
    · obtain ⟨closed, grown, follows⟩ :=
        asked.part regular sound justified shape idle List.mem_cons_self listed
      refine proved closed fun ρ satisfies => ?_
      rw [satisfies.compound (grown.shape shape)]
      exact .left (follows ρ satisfies)
    · obtain ⟨closed, grown, follows⟩ := asked.part regular sound justified shape idle
        (List.mem_cons_of_mem _ List.mem_cons_self) listed
      refine proved closed fun ρ satisfies => ?_
      rw [satisfies.compound (grown.shape shape)]
      exact .right (follows ρ satisfies)
  | @builtin symbol args builtin left right reply last shape form _ performs advances =>
    obtain ⟨rfl, decided⟩ := steady.builtin shape idle asked.usable
      (Ledger.callable_goals asked.callable shape).1.2 form performs
    have opened := justified.opens shape idle none
    have onward := advances.grown.trans (ledger.register_extends goal none)
    rcases decided with ⟨rfl, equality⟩ | ⟨rfl, inequality⟩
    · refine equality.proves advances opened (fun ρ satisfies same => ?_) member
      rw [satisfies.compound (onward.shape shape), List.map_cons, List.map_singleton, same]
      exact .equality (ρ right)
    · refine inequality.proves advances opened (fun ρ satisfies different => ?_) member
      rw [satisfies.compound (onward.shape shape)]
      exact .inequality different
  | predicate shape form tried =>
    obtain ⟨candidate, listed, answered⟩ := List.mem_flatMap.mp member
    obtain ⟨equation, names, start, tried⟩ := tried candidate listed
    exact tried.sound regular sound pure fits wellFormed justified asked shape idle answered

end

theorem solve_sound (pure : program.Pure base.arena) (fits : program.Fits base)
    (wellFormed : base.WellFormed) (limit level : Nat) :
    Sound program base (solve program limit level) := by
  induction level with
  | zero =>
    intro proving goal ledger later justified asked member
    simp [solve] at member
  | succ level ih =>
    intro proving goal ledger later justified asked member
    have quiet := justified.steady.quiet
    rcases quiet.comes (asked.anywhere quiet.wellFormed) with
      ⟨holds, same⟩ | ⟨idle, unfolded, unfolds, same⟩
    · obtain rfl : later = ledger := by simpa [same limit level] using member
      refine ⟨justified, fun ρ satisfies => ?_⟩
      rcases holds with ⟨value, shape⟩ | busy
      · rw [satisfies.number shape]
        exact .number value
      · -- A goal that is called again was not being proven, so it was proven.
        obtain ⟨symbol, args, shape⟩ := quiet.wellFormed.calls_compound goal busy
        have closed := (Ledger.callable_goals asked.callable shape).1.1
        exact (justified.proven goal busy).resolve_left closed ρ satisfies
    · rw [same limit level] at member
      split at member
      · simp at member
      · exact unfolds.sound (solve_regular program limit level) ih pure fits wellFormed justified asked
          idle member

theorem Ready.steady {state : State} (ready : Ready program state)
    (pure : program.Pure state.arena) :
    ∃ base : Ledger, state = base.state state.counters ∧ base.Untouched ∧
      Steady program base base := by
  obtain ⟨base, same, untouched, wellFormed, fits⟩ := ready.ledger
  have arena : state.arena = base.arena := congrArg State.arena same
  rw [arena] at pure
  have quiet : Quiet program base := by
    refine ⟨wellFormed, fits, ?_, fun clause listed body has => ?_⟩
    · rw [untouched]
    · exact Ledger.callable_anywhere wellFormed (pure.body clause listed body has).callable
  have unbound : base.bindings = [] := by rw [untouched]
  have unposted : base.postings = [] := by rw [untouched]
  have undiscarded : base.discards = [] := by rw [untouched]
  exact ⟨base, same, untouched, quiet, .refl base, Ledger.tame_start unbound, by simp [unposted],
    by simp [undiscarded]⟩

/-- Whatever an answer of a pass covers is an instance of the query that follows from the program. -/
theorem answer_sound {state answer : State} {query : TermId} {values : TermId → Tree}
    (ready : Ready program state) (pure : program.Pure state.arena)
    (goal : state.arena.PureGoal query)
    (yields : (Search.start query limit).Yields program state answer)
    (covers : answer.Covers values) :
    Derivable program state.arena (state.arena.ground values query) := by
  obtain ⟨base, same, untouched, steady⟩ := ready.steady pure
  have arena : state.arena = base.arena := congrArg State.arena same
  rw [arena] at pure goal ⊢
  have wellFormed := steady.wellFormed
  have fits := steady.quiet.fits
  have live := Ledger.callable_live goal.callable
  have stands := stands_start wellFormed fits live limit state.counters
  rw [← same] at stands
  obtain ⟨last, member, counters, rfl⟩ := stands.yields yields
  have asked : Asked base base [] query :=
    ⟨.inr goal.plain, Ledger.callable_imp wellFormed goal.callable fun _ _ _ _ pure => ⟨by simp, pure⟩⟩
  have justified : Justified program base [] base := by
    refine ⟨steady, by simp, ?_⟩
    rw [untouched]
    simp
  obtain ⟨closed, follows⟩ := solve_sound pure fits wellFormed limit (limit + 1) justified asked member
  rw [← ground_later wellFormed closed.steady.grown closed.steady.wellFormed values live]
  exact follows _ (closed.steady.covered covers)

end

namespace Unequal

def terms : List Shape :=
  [.var, .var, .compound (.user 0) [⟨0⟩, ⟨1⟩], .compound (.reserved .unequal) [⟨0⟩, ⟨1⟩],
    .compound (.reserved .clause) [⟨2⟩, ⟨3⟩], .compound (.user 1) [], .compound (.user 0) [⟨5⟩, ⟨5⟩]]

def queryTerms : List Shape := [.var, .compound (.user 0) [⟨5⟩, ⟨7⟩]]

def program : Program where
  clauses := #[⟨⟨2⟩, some ⟨3⟩, .user 0, 2⟩, ⟨⟨6⟩, none, .user 0, 2⟩]

def state : State where
  arena := (Arena.build? {} (terms ++ queryTerms)).getD {}

theorem ready : Ready program state where
  accepted :=
    ⟨terms, queryTerms, [⟨4⟩, ⟨6⟩], (Arena.build? {} terms).getD {}, by decide +kernel, by rfl,
      by decide +kernel⟩
  untouched := rfl

theorem pure : program.Pure state.arena where
  head := by
    have heads : ∀ clause ∈ program.clauses, state.arena.plainWithin 3 clause.head = true := by
      decide +kernel
    exact fun clause listed => Arena.plain_of_within 3 (heads clause listed)
  body := by
    have bodies : ∀ clause ∈ program.clauses, ∀ body ∈ clause.body,
        state.arena.plainWithin 3 body = true ∧
          state.arena.callableWithin Arena.pureFunctor 3 body = true := by
      decide +kernel
    intro clause listed body has
    obtain ⟨plain, callable⟩ := bodies clause listed body has
    exact Arena.pureGoal_of_within 3 plain callable

theorem pure_query : state.arena.PureGoal ⟨8⟩ :=
  Arena.pureGoal_of_within 3 (by decide +kernel) (by decide +kernel)

def a : Tree := .compound (.user 1) []

def b : Tree := .compound (.user 2) []

def values (id : TermId) : Tree := if id ∈ [⟨1⟩, ⟨7⟩, ⟨10⟩] then b else a

def answers : List State := ((Search.passWithin program 100 3 (.start ⟨8⟩ 4) state).getD ([], true)).1

theorem pass : (Search.start ⟨8⟩ 4).Pass program state answers false :=
  Search.pass_of_within 100 3 (by decide +kernel)

theorem query_read : state.arena.ground values ⟨8⟩ = .compound (.user 0) [a, b] := by decide +kernel

theorem first_answer_sound : ∃ first ∈ answers, first.Covers values ∧
    Derivable program state.arena (.compound (.user 0) [a, b]) := by
  have first : ∃ first ∈ answers, first.Covers values := by decide +kernel
  obtain ⟨first, listed, covers⟩ := first
  have derivable := answer_sound ready pure pure_query (pass.yields listed) covers
  rw [query_read] at derivable
  exact ⟨first, listed, covers, derivable⟩

end Unequal

end Resolvent
