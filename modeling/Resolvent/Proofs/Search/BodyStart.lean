import Mathlib.Data.List.Nodup
import Resolvent.Proofs.Search.Visits

namespace Resolvent

namespace Ledger

variable {ledger : Ledger}

inductive Refers (ledger : Ledger) (id : TermId) : Prop where
  | arg {term : TermId} {symbol : Symbol} {args : List TermId}
      (shape : ledger.shape? term = some (.compound symbol args)) (member : id ∈ args) :
      Refers ledger id
  | bound {binding : TermId × TermId} (member : binding ∈ ledger.bindings)
      (same : id = binding.1 ∨ id = binding.2) : Refers ledger id
  | delayed (member : id ∈ ledger.delayed) : Refers ledger id
  | called (member : id ∈ ledger.calls) : Refers ledger id
  | posted {posting : Posting} (member : posting ∈ ledger.postings)
      (same : id = posting.left ∨ id = posting.right ∨ id ∈ posting.vars) : Refers ledger id

theorem Refers.live {id : TermId} (refers : ledger.Refers id) (wellFormed : ledger.WellFormed) :
    ledger.Live id := by
  cases refers with
  | arg shape member => exact wellFormed.live_args shape id member
  | bound member same =>
    rcases same with rfl | rfl
    · exact live_of_shape (wellFormed.bound_var _ member)
    · exact wellFormed.target_live _ member
  | delayed member => exact live_of_shape (wellFormed.delayed_var id member)
  | called member =>
    obtain ⟨symbol, args, shape⟩ := wellFormed.calls_compound id member
    exact live_of_shape shape
  | posted member same =>
    rcases same with rfl | rfl | isVar
    · exact wellFormed.posting_left _ member
    · exact wellFormed.posting_right _ member
    · exact live_of_shape (wellFormed.posting_var _ member id isVar)

/-- No variable that only a body has was given a name. -/
def Unnamed (ledger : Ledger) (names : Renaming) (head body : TermId) : Prop :=
  ∀ var, ledger.Occurs var body → ¬ ledger.Occurs var head → names.lookup var = none

/-- Without names of body variables there are just those of the copy of the head. -/
theorem Known.unnamed {goal head body : TermId} {since : Nat} {names : Renaming}
    (known : ledger.Known goal head body since names) (unnamed : ledger.Unnamed names head body) :
    ledger.HeadInstance goal head since names := by
  cases known with
  | first head_instance => exact head_instance
  | @again names added head_instance occurs absent every =>
    cases added with
    | nil => exact head_instance
    | cons entry added =>
      have inBody := occurs entry (by simp)
      have outside : ¬ ledger.Occurs entry.1 head := by
        intro inHead
        obtain ⟨_, _, _, _, copies⟩ := head_instance.equated
        obtain ⟨name, known⟩ := copies.named inHead
        rw [absent entry (by simp)] at known
        cases known
      have missing := unnamed entry.1 inBody outside
      obtain ⟨name, known⟩ := every entry.1 inBody
      rw [missing] at known
      cases known

/-- Once one variable of a body that the head does not have has a name, all have. -/
theorem Known.every {goal head body var name : TermId} {since : Nat} {names : Renaming}
    (known : ledger.Known goal head body since names) (outside : ¬ ledger.Occurs var head)
    (named : names.lookup var = some name) :
    ∀ var, ledger.Occurs var body → ∃ name, names.lookup var = some name := by
  cases known with
  | first head_instance => exact absurd (head_instance.occurs _ (mem_of_lookup named)) outside
  | again _ _ _ every => exact every

end Ledger

structure BodyInstance (before after : Ledger) (goal : TermId) (since : Nat) (clause : Clause)
    (body copy : TermId) (names : Renaming) : Prop where
  live : after.Live copy
  copied : after.Copies names before.size body copy
  head : ∃ equation headCopy : TermId, since ≤ equation.index ∧
    before.shape? equation = some (.compound (.reserved .equal) [goal, headCopy]) ∧
    after.Copies names since clause.head headCopy
  new : ∀ var, before.Occurs var body → ¬ before.Occurs var clause.head →
    ∃ name, names.lookup var = some name ∧ ¬ before.Live name ∧ ¬ before.Refers name ∧
      after.shape? name = some .var ∧ after.binding? name = none
  apart : ∀ var other name, before.Occurs var body → ¬ before.Occurs var clause.head →
    names.lookup var = some name → names.lookup other = some name → var = other

/-- The step that starts a body calls an instance of it that is standardised apart. -/
def StartsApart (program : Program) (config : Config) (index : Nat) (goal : TermId)
    (expansion : Expansion) (clause : Clause) (body : TermId) : Prop :=
  ∃ copy machine names next parent,
    config.2.advance program config.1 = .ok (.call copy (some index), machine) ∧
    machine.frames[index]? =
      some ⟨.deduction goal next (some { expansion with names, inBody := true }), parent⟩ ∧
    BodyInstance config.2.state.ledger machine.state.ledger goal expansion.undo.terms clause body
      copy names

section

variable {program : Program} {limit : Nat} {config : Config} {ledger : Ledger} {index : Nat}
  {goal : TermId} {expansion : Expansion} {clause : Clause} {body : TermId}

theorem BodyStart.advance (start : BodyStart program config index goal expansion clause body) :
    ∃ next parent, ∀ result, config.2.state.copyBody expansion.names body = result →
      config.2.advance program config.1 = result.map fun (copy, names, state) =>
        (.call copy (some index), { config.2 with state }.setFrame index
          (.deduction goal next (some { expansion with names, inBody := true })) parent) := by
  obtain ⟨heard, ⟨next, parent, frame⟩, outside, held, has⟩ := start
  refine ⟨next, parent, fun result copied => ?_⟩
  simp only [Machine.advance, heard, frame, Machine.yielded, held, has, outside,
    Machine.enterBody, copied]
  cases result <;> rfl

theorem BodyStart.setFrame (start : BodyStart program config index goal expansion clause body)
    (state : State) (frame : Frame) (parent : Option Nat) :
    ({ config.2 with state }.setFrame index frame parent).frames[index]? =
      some ⟨frame, parent⟩ := by
  obtain ⟨next, above, held⟩ := start.frame
  obtain ⟨inside, -⟩ := Array.getElem?_eq_some_iff.mp held
  simp [Machine.setFrame, inside]

/-- Copied with the names of the head alone, a body is standardised apart. -/
theorem body_instance (wellFormed : ledger.WellFormed) (live : ledger.Live body)
    {since : Nat} {names named : Renaming} {copy : TermId} {later : Ledger}
    (head_instance : ledger.HeadInstance goal clause.head since names)
    (copied : Ledger.Instantiates ledger names [body] [copy] later named) :
    BodyInstance ledger later goal since clause body copy named := by
  have grown := copied.grows wellFormed
  obtain ⟨added, rfl, held⟩ := copied.added wellFormed (by simpa using live)
  obtain ⟨equation, headCopy, new, shape, copies⟩ := head_instance.equated
  have bodyCopies := (copied.copies wellFormed).2 (body, copy) (by simp)
  -- A variable that the head does not have was named on the way.
  have fresh {var name : TermId} (outside : ¬ ledger.Occurs var clause.head)
      (known : (added ++ names).lookup var = some name) : (var, name) ∈ added := by
    rcases List.mem_append.mp (Ledger.mem_of_lookup known) with member | member
    · exact member
    · exact absurd (head_instance.occurs _ member) outside
  refine ⟨(copied.live wellFormed head_instance.namesLive).2 copy (by simp), bodyCopies,
    ⟨headCopy, equation, new, shape,
      copies.later grown.extends (Nat.le_refl _) fun var name => copied.kept⟩, ?_, ?_⟩
  · intro var inBody outside
    obtain ⟨name, known⟩ := bodyCopies.named (inBody.later grown.extends)
    have member := fresh outside known
    have released : ¬ ledger.Live name := Nat.not_lt_of_le (held.new _ member)
    refine ⟨name, known, released, fun refers => released (refers.live wellFormed),
      held.isVar _ member, ?_⟩
    rw [grown.binding?]
    apply Ledger.lookup_eq_none
    rintro binding listed rfl
    exact released (Ledger.live_of_shape (wellFormed.bound_var binding listed))
  · intro var other name inBody outside known same
    have member := fresh outside known
    rcases List.mem_append.mp (Ledger.mem_of_lookup same) with listed | old
    · have equal := List.inj_on_of_nodup_map held.apart member listed rfl
      exact congrArg Prod.fst equal
    · exact absurd (Ledger.live_of_shape (head_instance.isVar _ old))
        (Nat.not_lt_of_le (held.new (var, name) member))

/-- A body all whose variables have names is copied without new variables. -/
theorem copied_named (wellFormed : ledger.WellFormed) (live : ledger.Live body)
    {names named : Renaming} {copy : TermId} {later : Ledger}
    (every : ∀ var, ledger.Occurs var body → ∃ name, names.lookup var = some name)
    (copied : Ledger.Instantiates ledger names [body] [copy] later named) :
    ∀ id : TermId, later.shape? id = some .var → ledger.Live id := by
  obtain ⟨added, rfl, held⟩ := copied.added wellFormed (by simpa using live)
  have none : added = [] := by
    rw [List.eq_nil_iff_forall_not_mem]
    intro entry member
    obtain ⟨term, listed, occurs⟩ := held.occurs entry member
    rw [List.mem_singleton.mp listed] at occurs
    obtain ⟨name, known⟩ := every entry.1 occurs
    rw [held.unnamed entry member] at known
    cases known
  intro id isVar
  by_contra released
  have listed := held.all id (Nat.le_of_not_lt released) isVar
  simp [none] at listed

theorem Orderly.stacked (orderly : Orderly program ledger config) :
    config.2.state.ledger = ledger := by
  obtain ⟨counters, same⟩ := orderly.state
  rw [same, Ledger.ledger_state orderly.wellFormed]

/-- A body starts standardised apart just if no variable of its own was named before. -/
theorem Orderly.startsApart_iff (orderly : Orderly program ledger config)
    (start : BodyStart program config index goal expansion clause body) :
    StartsApart program config index goal expansion clause body ↔
      ledger.Unnamed expansion.names clause.head body := by
  have known := orderly.opened start
  have live := orderly.fits.body start.held start.has
  have wellFormed := orderly.wellFormed
  obtain ⟨counters, same⟩ := orderly.state
  obtain ⟨next, parent, advances⟩ := start.advance
  rw [same] at advances
  constructor
  · rintro ⟨copy, machine, named, _, _, stepped, frame, inst⟩ var inBody outside
    rw [orderly.stacked] at inst
    cases old : expansion.names.lookup var with
    | none => rfl
    | some name =>
      exfalso
      rcases Ledger.copyBody_spec wellFormed live expansion.names with
        ⟨copied, names, later, -, instantiates, run⟩ | ⟨reason, -, -, run⟩
      · rw [advances _ (run counters)] at stepped
        cases stepped
        have stored := start.setFrame (later.state counters)
          (.deduction goal next (some { expansion with names, inBody := true })) parent
        rw [stored] at frame
        simp only [Option.some.injEq, Entry.mk.injEq, Frame.deduction.injEq,
          Expansion.mk.injEq] at frame
        obtain ⟨⟨-, -, -, -, rfl, -⟩, -⟩ := frame
        have grown := instantiates.grows wellFormed
        obtain ⟨new, found, released, -, isVar, -⟩ := inst.new var inBody outside
        rw [instantiates.kept old] at found
        cases found
        have after : ({ config.2 with state := later.state counters } : Machine).state.ledger =
            later := Ledger.ledger_state grown.wellFormed counters
        have shape : later.shape? name = some .var := by
          rw [← after]
          exact isVar
        exact released
          (copied_named wellFormed live (known.every outside old) instantiates name shape)
      · rw [advances _ (run counters)] at stepped
        cases stepped
  · intro unnamed
    have head_instance := known.unnamed unnamed
    rcases Ledger.copyBody_spec wellFormed live expansion.names with
      ⟨copy, names, later, -, instantiates, run⟩ | ⟨reason, -, dead, -⟩
    · have grown := instantiates.grows wellFormed
      refine ⟨copy, _, names, next, parent, advances _ (run counters), start.setFrame _ _ _, ?_⟩
      have after : ({ config.2 with state := later.state counters } : Machine).state.ledger =
          later := Ledger.ledger_state grown.wellFormed counters
      rw [orderly.stacked]
      have inst := body_instance wellFormed live head_instance instantiates
      rw [← after] at inst
      exact inst
    · exact absurd head_instance.namesLive dead

/-- Wherever a pass stands no stack refers to a released term, and a body that is started is
    standardised apart just if no variable of its own was named before. A step fails only where such
    a variable was named and its name has been released since. -/
theorem starts_apart_iff {state : State} {query : TermId} (ready : Ready program state)
    (live : state.arena.contains query = true)
    (visited : Visited program (Search.opening query limit state) config) :
    (∀ id, config.2.state.ledger.Refers id → config.2.state.ledger.Live id) ∧
    (∀ {index goal expansion clause body},
      BodyStart program config index goal expansion clause body →
      (StartsApart program config index goal expansion clause body ↔
        config.2.state.ledger.Unnamed expansion.names clause.head body)) ∧
    ∀ reason, config.2.advance program config.1 = .error reason →
      (∃ index goal expansion clause body,
        BodyStart program config index goal expansion clause body ∧
        ¬ config.2.state.ledger.Unnamed expansion.names clause.head body) ∨
      ∃ goal parent clause body, config.1 = .call goal parent ∧
        Stray program config.2.state.ledger config.2.frames parent goal clause body := by
  obtain ⟨base, underway⟩ := ready.underway live visited
  refine ⟨?_, ?_, ?_⟩
  · obtain ⟨ledger, formed, stacked⟩ := underway.stacked
    rw [stacked]
    exact fun id refers => refers.live formed
  · intro index goal expansion clause body start
    rcases underway.orderly with ⟨ledger, orderly⟩ | ⟨signal, final⟩
    · rw [orderly.stacked]
      exact orderly.startsApart_iff start
    · cases start.heard.symm.trans final
  · intro reason fails
    obtain ⟨ledger, orderly, stale⟩ := underway.stale fails
    rw [orderly.stacked]
    cases stale with
    | start start dead =>
      refine .inl ⟨_, _, _, _, _, start, fun unnamed => dead ?_⟩
      exact ((orderly.opened start).unnamed unnamed).namesLive
    | called calls stray => exact .inr ⟨_, _, _, _, calls, stray⟩

end

namespace Twice

def terms : List Shape :=
  [.compound (.user 0) [], .compound (.user 1) [], .compound (.user 2) [],
    .compound (.reserved .clause) [⟨1⟩, ⟨2⟩], .compound (.user 2) [],
    .compound (.user 0) [], .compound (.user 1) [],
    .compound (.reserved .disjunction) [⟨5⟩, ⟨6⟩], .compound (.user 3) [⟨7⟩],
    .var, .compound (.user 4) [], .compound (.reserved .equal) [⟨9⟩, ⟨10⟩],
    .compound (.reserved .clause) [⟨8⟩, ⟨11⟩]]

def queryTerms : List Shape :=
  [.var, .compound (.user 3) [⟨13⟩], .compound (.reserved .conjunction) [⟨13⟩, ⟨14⟩]]

def entries : List TermId := [⟨0⟩, ⟨3⟩, ⟨4⟩, ⟨12⟩]

def program : Program where
  clauses :=
    #[⟨⟨0⟩, none, .user 0, 0⟩, ⟨⟨1⟩, some ⟨2⟩, .user 1, 0⟩, ⟨⟨4⟩, none, .user 2, 0⟩,
      ⟨⟨8⟩, some ⟨11⟩, .user 3, 1⟩]

def state : State where
  arena := (Arena.build? {} (terms ++ queryTerms)).getD {}

def opening : Config := Search.opening ⟨15⟩ 10 state

def firstStart : Config := stepsFrom program 11 opening

def firstAnswer : Config := stepsFrom program 15 opening

def secondStart : Config := stepsFrom program 14 (.redo, firstAnswer.2)

theorem ready : Ready program state where
  accepted :=
    ⟨terms, queryTerms, entries, (Arena.build? {} terms).getD {}, by decide +kernel,
      by rfl, by decide +kernel⟩
  untouched := rfl

theorem occurs_body {ledger : Ledger}
    (body : ledger.shape? ⟨11⟩ = some (.compound (.reserved .equal) [⟨9⟩, ⟨10⟩]))
    (isVar : ledger.shape? ⟨9⟩ = some .var) : ledger.Occurs ⟨9⟩ ⟨11⟩ :=
  .inside body (by simp) (.here isVar)

theorem first_starts_apart :
    Ready program state ∧ state.arena.contains ⟨15⟩ = true ∧
    Visited program (Search.opening ⟨15⟩ 10 state) firstStart ∧
    BodyStart program firstStart 2 ⟨14⟩ ⟨⟨0, 1, 1, 0, 0, 16, 0⟩, 3, [], false⟩
      ⟨⟨8⟩, some ⟨11⟩, .user 3, 1⟩ ⟨11⟩ ∧
    StartsApart program firstStart 2 ⟨14⟩ ⟨⟨0, 1, 1, 0, 0, 16, 0⟩, 3, [], false⟩
      ⟨⟨8⟩, some ⟨11⟩, .user 3, 1⟩ ⟨11⟩ := by
  have live : state.arena.contains ⟨15⟩ = true := by decide +kernel
  have visited : Visited program (Search.opening ⟨15⟩ 10 state) firstStart := Visited.start.steps 11
  have start : BodyStart program firstStart 2 ⟨14⟩ ⟨⟨0, 1, 1, 0, 0, 16, 0⟩, 3, [], false⟩
      ⟨⟨8⟩, some ⟨11⟩, .user 3, 1⟩ ⟨11⟩ :=
    ⟨by decide +kernel, ⟨4, some 0, by decide +kernel⟩, rfl, by decide +kernel, rfl⟩
  exact ⟨ready, live, visited, start,
    ((starts_apart_iff ready live visited).2.1 start).mpr fun _ _ _ => rfl⟩

/-- The second time it is given the variable that it was given at first, which was released in
    between and is another term by now. -/
theorem second_start_reuses :
    Ready program state ∧ state.arena.contains ⟨15⟩ = true ∧ Visited program opening secondStart ∧
    BodyStart program secondStart 2 ⟨14⟩ ⟨⟨0, 1, 1, 0, 0, 16, 0⟩, 3, [(⟨9⟩, ⟨23⟩)], false⟩
      ⟨⟨8⟩, some ⟨11⟩, .user 3, 1⟩ ⟨11⟩ ∧
    ¬ StartsApart program secondStart 2 ⟨14⟩ ⟨⟨0, 1, 1, 0, 0, 16, 0⟩, 3, [(⟨9⟩, ⟨23⟩)], false⟩
      ⟨⟨8⟩, some ⟨11⟩, .user 3, 1⟩ ⟨11⟩ := by
  have visited : Visited program opening secondStart :=
    ((Visited.start.steps 15).again (by decide +kernel)).steps 14
  have start : BodyStart program secondStart 2 ⟨14⟩
      ⟨⟨0, 1, 1, 0, 0, 16, 0⟩, 3, [(⟨9⟩, ⟨23⟩)], false⟩ ⟨⟨8⟩, some ⟨11⟩, .user 3, 1⟩ ⟨11⟩ :=
    ⟨by decide +kernel, ⟨4, some 0, by decide +kernel⟩, rfl, by decide +kernel, rfl⟩
  refine ⟨ready, by decide +kernel, visited, start, ?_⟩
  obtain ⟨base, underway⟩ := ready.underway (by decide +kernel) visited
  rcases underway.orderly with ⟨ledger, orderly⟩ | ⟨signal, final⟩
  · rw [orderly.startsApart_iff start]
    intro unnamed
    have inBody : ledger.Occurs ⟨9⟩ ⟨11⟩ := by
      rw [← orderly.stacked]
      exact occurs_body (by decide +kernel) (by decide +kernel)
    have outside : ¬ ledger.Occurs ⟨9⟩ ⟨8⟩ := fun occurs =>
      absurd (occurs.index_le orderly.wellFormed) (by decide)
    cases unnamed ⟨9⟩ inBody outside
  · cases start.heard.symm.trans final

end Twice

end Resolvent
