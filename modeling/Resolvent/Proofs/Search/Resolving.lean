import Resolvent.Proofs.Search.Negation

namespace Resolvent

variable {program : Program} {limit : Nat}

/-- A function says what goals come to where at least so many goals are on the call stack. -/
def Faithful (program : Program) (limit : Nat) (solve : TermId → Ledger → List Emission)
    (depth : Nat) : Prop :=
  ∀ goal ledger target size exact, ledger.WellFormed → program.Fits ledger → ledger.Live goal →
    depth ≤ ledger.calls.length → (exact = true → ∀ later, .answer later ∉ solve goal ledger) →
    Plays program limit ⟨target, size, ledger, exact⟩ (solve goal ledger) false
      ⟨.call goal target, #[], ledger, false⟩

theorem plays_restore {site : Site} {frame : Frame} {origin : Ledger}
    (wellFormed : site.base.WellFormed) (fits : program.Fits site.base)
    (grown : origin.Extends site.base)
    (restores : ∀ machine : Machine, machine.exhausted program site.size (site.entry frame) =
      (machine.pop site.size).map fun machine =>
        machine.backtrack site.base.snapshot site.target) :
    Plays program limit site [] false (site.ended frame #[] origin) := by
  intro below ledger truncated counters small admits
  have reached := admits.extends.trans grown
  have orderly := @Site.orderly_heard program limit site below #[] frame ledger truncated counters
    .exhausted admits.wellFormed (fits.later reached) small (by simp)
  have step : (site.machine limit below frame #[] ledger truncated counters).advance program
      (.notify (some site.size) .exhausted) = .ok (.notify site.target .exhausted,
        site.base.machine limit below truncated (counters.record .restore 1)) := by
    rw [Site.advance_heard _ small]
    simp only [restores, Site.pop_machine small, Except.map,
      Ledger.machine_backtrack admits.wellFormed reached]
  refine ⟨_, Reaches.one orderly (by simp [Position.config, Site.ended]) step,
    ends_machine wellFormed (.refl _) (fun _ => rfl) (by simp)⟩

section

variable {site : Site} {goal : TermId} {symbol : Symbol} {args : List TermId}

def Resolving (program : Program) (limit : Nat) (site : Site) (goal : TermId) (start : Nat)
    (position : Position) : Prop :=
  ∀ below ledger truncated counters, below.size = site.size → position.Admits ledger →
    Orderly program ledger (position.config limit below ledger truncated counters) ∧
    (∀ signal, position.step ≠ .notify none signal) ∧ ∃ current others,
      (position.config limit below ledger truncated counters).2.advance program position.step =
        (site.machine limit below (.deduction goal start current) #[] site.base truncated
          others).nextClause program site.size

theorem nextClause_machine
    (shape : site.base.shape? goal = some (.compound symbol args)) {start : Nat}
    (low : start ≤ program.size) {below : Array Entry} (small : below.size = site.size)
    (current : Option Expansion) (truncated : Bool) (counters : Counters) :
    (site.machine limit below (.deduction goal start current) #[] site.base truncated
        counters).nextClause program site.size =
      match program.next? start symbol args.length with
      | some clause => (site.machine limit below (.deduction goal start current) #[] site.base
          truncated counters).expand program site.size goal clause site.target
      | none => .ok (.notify site.target .exhausted,
          site.base.machine limit below truncated counters) := by
  have found := @Site.get_machine limit site below #[] (.deduction goal start current) site.base
    truncated counters small
  have contained : site.base.arena.contains goal = true :=
    (Ledger.contains_arena _ _).mpr (Ledger.live_of_shape shape)
  have required : site.base.arena.require goal = .ok () := by rw [Arena.require, if_pos contained]
  have compound : site.base.arena.compound? goal =
      some { symbol, args, active := decide (goal ∈ site.base.calls) } := by
    rw [Arena.compound?, Ledger.node_compound shape]
  have inRange : ¬ program.size < start := Nat.not_lt.mpr low
  have arena : (site.machine limit below (.deduction goal start current) #[] site.base truncated
      counters).state.arena = site.base.arena := rfl
  simp only [Machine.nextClause, found, Site.entry, arena, required, compound, inRange, if_false,
    Bind.bind, Except.bind, pure, Except.pure]
  cases program.next? start symbol args.length with
  | none =>
    simp only [Site.pop_machine small]
    rfl
  | some clause => rfl

def resolving (goal : TermId) (undo : Snapshot) (index : Nat) (inBody : Bool)
    (names : Renaming) : Frame :=
  .deduction goal (index + 1) (some { undo, clause := index, names, inBody })

theorem expand_machine {index : Nat} {clause : Clause} {equation : TermId} {names : Renaming}
    {later : Ledger} (held : program.clauses[index]? = some clause)
    (matched : ∀ counters, ((site.base.register goal (some (.clause index))).state
      counters).matchHead goal clause.head = .ok (equation, names, later.state counters))
    {below : Array Entry} (small : below.size = site.size) (frame : Frame) (truncated : Bool)
    (counters : Counters) :
    (site.machine limit below frame #[] site.base truncated counters).expand program site.size goal
        index site.target =
      .ok (.call equation (some site.size),
        site.machine limit below (resolving goal site.base.snapshot index false names) #[] later
          truncated (counters.record .expansion 1)) := by
  have set := @Site.setFrame_machine limit site below #[] frame later truncated
    (counters.record .expansion 1) (resolving goal site.base.snapshot index false names) small
  rw [← set]
  have state : ((site.machine limit below frame #[] site.base truncated counters).record
      .expansion).state = site.base.state (counters.record .expansion 1) := rfl
  simp only [Machine.expand, held, state, Ledger.register_state, matched, Bind.bind, Except.bind]
  rfl

theorem orderly_call {ledger : Ledger} {called : TermId} {target : Option Nat}
    {machine : Machine} {counters : Counters} (wellFormed : ledger.WellFormed)
    (fits : program.Fits ledger) (live : ledger.Live called)
    (state : machine.state = ledger.state counters) :
    Orderly program ledger (.call called target, machine) where
  state := ⟨counters, state⟩
  wellFormed := wellFormed
  fits := fits
  called := by
    rintro goal parent ⟨⟩
    exact .inl live
  opened := fun start => nomatch start.heard

section

variable {index : Nat} {clause : Clause} {body : TermId} {later : Ledger}

theorem enterBody_machine (held : program.clauses[index]? = some clause)
    (has : clause.body = some body) {below above : Array Entry} (small : below.size = site.size)
    (names : Renaming) (undo : Snapshot) (ledger : Ledger) (truncated : Bool) (counters : Counters) :
    (site.machine limit below (resolving goal undo index false names) above ledger truncated
        counters).advance program (.notify (some site.size) .yielded) =
      ((ledger.state counters).copyBody names body).map fun (copy, named, state) =>
        (.call copy (some site.size),
          { site.machine limit below (resolving goal undo index true named) above ledger truncated
              counters with state }) := by
  rw [Site.advance_heard _ small]
  simp only [Machine.yielded, Site.entry, resolving, held, has]
  have set (named : Renaming) := @Site.setFrame_machine limit site below above
    (resolving goal undo index false names) ledger truncated counters
    (resolving goal undo index true named) small
  simp only [Machine.enterBody]
  have state : (site.machine limit below (resolving goal undo index false names) above ledger
      truncated counters).state = ledger.state counters := rfl
  simp only [resolving] at state set
  rw [state]
  cases (ledger.state counters).copyBody names body with
  | error reason => rfl
  | ok result =>
    obtain ⟨copy, named, reached⟩ := result
    have same := set named
    simp only [Bind.bind, Except.bind, Except.map, pure, Except.pure, Machine.setFrame] at same ⊢
    have frames := congrArg Machine.frames same
    simp only [Site.machine] at frames ⊢
    rw [frames]

/-- A copied body that is no term is a name that a body start did not allocate. -/
theorem stray_of_dead {ledger reached : Ledger} {names named : Renaming} {copy : TermId}
    {since : Nat} (known : ledger.Known goal clause.head body since names)
    (copied : Ledger.Instantiates ledger names [body] [copy] reached named)
    (dead : ¬ reached.Live copy) :
    ledger.shape? body = some .var ∧ names.lookup body = some copy ∧ named = names ∧
      reached = ledger ∧ ¬ ledger.Occurs body clause.head := by
  cases copied with
  | number shape goesOn =>
    cases goesOn
    exact absurd (Ledger.live_allocate _ _) dead
  | fresh shape unnamed goesOn =>
    cases goesOn
    exact absurd (Ledger.live_allocate _ _) dead
  | compound shape inside argsLive goesOn =>
    cases goesOn
    exact absurd (Ledger.live_allocate _ _) dead
  | known shape name goesOn =>
    cases goesOn
    refine ⟨shape, name, rfl, rfl, fun occurs => dead ?_⟩
    cases known with
    | first head_instance => exact head_instance.namesLive.lookup name
    | again head_instance _ unnamed every =>
      obtain ⟨_, _, _, _, copies⟩ := head_instance.equated
      obtain ⟨head_name, headKnown⟩ := copies.named occurs
      rw [Ledger.lookup_append_unnamed unnamed headKnown] at name
      cases name
      exact head_instance.namesLive.lookup headKnown

theorem heard_opened (fits : program.Fits later) (held : program.clauses[index]? = some clause)
    (has : clause.body = some body) {names : Renaming}
    (known : later.Known goal clause.head body site.base.size names) {ledger : Ledger}
    (wellFormed : ledger.WellFormed) (grown : ledger.Extends later) (laterFormed : later.WellFormed)
    {below above : Array Entry} (small : below.size = site.size) (truncated : Bool)
    (counters : Counters) :
    Orderly program ledger (.notify (some site.size) .yielded,
      site.machine limit below (resolving goal site.base.snapshot index false names) above ledger
        truncated counters) := by
  apply Site.orderly_heard wellFormed (fits.later grown) small
  rintro - other next expansion found inner same - foundHeld foundHas
  simp only [resolving, Frame.deduction.injEq, Option.some.injEq] at same
  obtain ⟨rfl, -, rfl⟩ := same
  rw [held] at foundHeld
  cases foundHeld
  rw [has] at foundHas
  cases foundHas
  exact known.later grown laterFormed (fits.body held has)

/-- A body that cannot be copied, or whose copy is no term, ends the search. -/
theorem body_stops (laterFormed : later.WellFormed) (fits : program.Fits later)
    (held : program.clauses[index]? = some clause) (has : clause.body = some body)
    {names : Renaming} (known : later.Known goal clause.head body site.base.size names)
    {below above : Array Entry} {ledger : Ledger} {truncated : Bool} {counters : Counters}
    (small : below.size = site.size) (wellFormed : ledger.WellFormed)
    (grown : ledger.Extends later) {reason : Fault}
    (got : bodyGoal body names ledger = .error reason) :
    ∃ config, Reaches program (.notify (some site.size) .yielded,
        site.machine limit below (resolving goal site.base.snapshot index false names) above ledger
          truncated counters) config ∧
      Stops program reason config := by
  have spec := bodyGoal_spec wellFormed (grown.live (fits.body held has)) names
  rw [got] at spec
  have orderly := @heard_opened program limit site goal index clause body later fits held has names
    known ledger wellFormed grown laterFormed below above small truncated counters
  have step := @enterBody_machine program limit site goal index clause body held has below above
    small names site.base.snapshot ledger truncated counters
  cases spec with
  | failed dead run =>
    rw [run counters] at step
    have found := @Site.get_machine limit site below above
      (resolving goal site.base.snapshot index false names) ledger truncated counters small
    exact ⟨_, .refl, ⟨ledger, orderly, .start ⟨rfl, ⟨_, _, found⟩, rfl, held, has⟩ dead⟩, step⟩
  | @stray copy named reached copied dead run =>
    rw [run counters] at step
    refine ⟨_, Reaches.one orderly (by simp) step, ?_⟩
    obtain ⟨isVar, name, rfl, rfl, absent⟩ := stray_of_dead
      (known.later grown laterFormed (fits.body held has)) copied dead
    have found := @Site.get_machine limit site below above
      (resolving goal site.base.snapshot index true named) reached truncated counters small
    have stray : Stray program reached _ (some site.size) copy clause body :=
      ⟨⟨site.size, goal, index + 1, _, site.target, rfl, found, held, name⟩, has, isVar, absent,
        dead⟩
    refine ⟨⟨reached, ?_, .called rfl stray⟩, ?_⟩
    · exact
        { state := ⟨counters, rfl⟩
          wellFormed := wellFormed
          fits := fits.later grown
          called := by
            rintro called parent ⟨⟩
            exact .inr ⟨clause, body, stray⟩
          opened := fun start => nomatch start.heard }
    · have arena : (reached.state (counters.record .goal 1)).arena = reached.arena := rfl
      simp only [Machine.advance, Machine.call, Machine.record, Site.machine,
        Ledger.record_state, arena, require_dead dead, Bind.bind, Except.bind]

/-- The head of a clause without a body has just the answers of the clause. -/
theorem fact_forwards (fits : program.Fits later) (held : program.clauses[index]? = some clause)
    (has : clause.body = none) (names : Renaming) :
    Forwards program limit site later (resolving goal site.base.snapshot index false names) := by
  intro below above ledger truncated counters small wellFormed grown
  refine ⟨?_, ?_⟩
  · apply Site.orderly_heard wellFormed (fits.later grown) small
    rintro - other number expansion found inner same - foundHeld foundHas
    simp only [resolving, Frame.deduction.injEq, Option.some.injEq] at same
    obtain ⟨-, -, rfl⟩ := same
    rw [held] at foundHeld
    cases foundHeld
    simp [has] at foundHas
  · rw [Site.advance_heard _ small]
    simp only [Machine.yielded, Site.entry, resolving, held, has]

theorem body_seconds {solve : TermId → Ledger → List Emission} {depth : Nat}
    (faithful : Faithful program limit solve depth) (laterFormed : later.WellFormed)
    (deep : depth ≤ later.calls.length) (fits : program.Fits later)
    (held : program.clauses[index]? = some clause) (has : clause.body = some body) :
    Seconds program limit site later (bodyGoal body) solve
      (resolving goal site.base.snapshot index false) (resolving goal site.base.snapshot index true)
      fun names => later.Known goal clause.head body site.base.size names where
  starts := by
    intro names known below above ledger truncated counters small wellFormed grown copy named
      reached got
    obtain ⟨copied, copyLive, run⟩ := bodyGoal_ok got wellFormed (grown.live (fits.body held has))
    have step := @enterBody_machine program limit site goal index clause body held has below above
      small names site.base.snapshot ledger truncated counters
    rw [run counters] at step
    exact Reaches.one (heard_opened fits held has known wellFormed grown laterFormed small truncated
      counters) (by simp) step
  stops := fun _ known _ _ _ _ _ small wellFormed grown _ got =>
    body_stops laterFormed fits held has known small wellFormed grown got
  grows := by
    intro names ledger known wellFormed grown copy named reached got
    obtain ⟨copied, copyLive, run⟩ := bodyGoal_ok got wellFormed (grown.live (fits.body held has))
    exact ⟨known.copied grown copied laterFormed wellFormed (fits.body held has),
      (copied.grows wellFormed).wellFormed,
      (copied.grows wellFormed).extends⟩
  plays := by
    intro names ledger known wellFormed grown copy named reached got size
    obtain ⟨copied, copyLive, run⟩ := bodyGoal_ok got wellFormed (grown.live (fits.body held has))
    have onward := copied.grows wellFormed
    have whole := onward.extends.trans grown
    exact faithful copy reached (some site.size) size false onward.wellFormed (fits.later whole)
      copyLive (Nat.le_trans deep whole.calls.length_le) (by simp)
  forwards := by
    intro names known below above ledger truncated counters small wellFormed grown
    refine ⟨?_, ?_⟩
    · apply Site.orderly_heard wellFormed (fits.later grown) small
      rintro - other next expansion found inner same outside - -
      simp only [resolving, Frame.deduction.injEq, Option.some.injEq] at same
      obtain ⟨-, -, rfl⟩ := same
      cases outside
    · rw [Site.advance_heard _ small]
      simp only [Machine.yielded, Site.entry, resolving, held, has]
  resumes := by
    intro names known below above ledger truncated counters small wellFormed grown
    refine ⟨Site.orderly_heard wellFormed (fits.later grown) small (by simp), ?_⟩
    rw [Site.advance_heard _ small]
    have set := @Site.setFrame_machine limit site below above
      (resolving goal site.base.snapshot index true names) ledger truncated counters
      (resolving goal site.base.snapshot index false names) small
    simp only [Machine.exhausted, Site.entry, resolving, if_true] at set ⊢
    rw [set]

theorem resolving_ended (fits : program.Fits site.base)
    (grown : later.Extends site.base) (names : Renaming) :
    Resolving program limit site goal (index + 1)
      (site.ended (resolving goal site.base.snapshot index false names) #[] later) := by
  intro below ledger truncated counters small admits
  have reached := admits.extends.trans grown
  refine ⟨?_, by simp [Site.ended], none, counters.record .restore 1, ?_⟩
  · exact Site.orderly_heard admits.wellFormed (fits.later reached) small (by simp)
  · have heard := @Site.advance_heard program limit site below #[]
      (resolving goal site.base.snapshot index false names) ledger truncated counters .exhausted small
    have set := @Site.setFrame_machine limit site below #[]
      (resolving goal site.base.snapshot index false names) ledger truncated counters
      (.deduction goal (index + 1) none) small
    have restored := @Site.restore_machine limit site below #[] (.deduction goal (index + 1) none)
      ledger site.base truncated counters admits.wellFormed reached
    refine Eq.trans heard ?_
    simp only [Machine.exhausted, Site.entry, resolving, Bool.false_eq_true, if_false] at set ⊢
    rw [set, restored]

theorem resolving_spent (baseFormed : site.base.WellFormed)
    (shape : site.base.shape? goal = some (.compound symbol args)) {start : Nat} {position : Position}
    (low : start ≤ program.size) (spent : program.next? start symbol args.length = none)
    (stands : Resolving program limit site goal start position) :
    Plays program limit site [] false position := by
  intro below ledger truncated counters small admits
  obtain ⟨orderly, running, current, others, sought⟩ :=
    stands below ledger truncated counters small admits
  rw [nextClause_machine shape low small, spent] at sought
  exact ⟨_, Reaches.one orderly running sought,
    ends_machine baseFormed (.refl _) (fun _ => rfl) (by simp)⟩

/-- One step puts the goal on the call stack, copies the head of the next clause and calls the
    equation of the two. -/
theorem resolving_starts (shape : site.base.shape? goal = some (.compound symbol args))
    {start : Nat} {position : Position} (low : start ≤ program.size)
    (next : program.next? start symbol args.length = some index)
    (held : program.clauses[index]? = some clause) {equation : TermId} {names : Renaming}
    (laterFormed : later.WellFormed)
    (run : ∀ counters, ((site.base.register goal (some (.clause index))).state counters).matchHead
      goal clause.head = .ok (equation, names, later.state counters))
    (stands : Resolving program limit site goal start position) :
    Precedes program limit site false false position
      ((⟨.call equation (some site.size), #[], later, false⟩ : Position).atop
        #[site.entry (resolving goal site.base.snapshot index false names)]) := by
  intro below ledger truncated counters small admits
  obtain ⟨orderly, running, current, others, sought⟩ :=
    stands below ledger truncated counters small admits
  have expanded := @expand_machine program limit site goal index clause equation names later held
    run below small (.deduction goal start current) truncated others
  rw [nextClause_machine shape low small, next] at sought
  refine ⟨later, truncated, others.record .expansion 1, ⟨laterFormed, .refl later, fun _ => rfl⟩,
    rfl, ?_⟩
  have step := Reaches.one orderly running (sought.trans expanded)
  simpa [Position.atop, Position.config, Site.machine] using step

end

theorem deduction_plays {solve : TermId → Ledger → List Emission} {depth : Nat}
    (faithful : Faithful program limit solve depth) (baseFormed : site.base.WellFormed)
    (fits : program.Fits site.base) (shape : site.base.shape? goal = some (.compound symbol args))
    (idle : goal ∉ site.base.calls) (deep : depth ≤ site.base.calls.length + 1) {start : Nat}
    {position : Position} (low : start ≤ program.size)
    (stands : Resolving program limit site goal start position) :
    Plays program limit site ((program.candidates start symbol args.length).flatMap
      (attempt solve goal site.base)) false position := by
  -- The induction is on the clauses left to try, so where to look for the next one is kept open.
  generalize listed : program.candidates start symbol args.length = candidates
  induction candidates generalizing start position with
  | nil =>
    rcases program.next?_candidates start symbol args.length with ⟨spent, -⟩ | ⟨_, _, -, -, more⟩
    · exact resolving_spent baseFormed shape low spent stands
    · cases listed.symm.trans more
  | cons candidate rest ih =>
    rcases program.next?_candidates start symbol args.length with
      ⟨-, none⟩ | ⟨index, clause, next, held, more⟩
    · cases listed.symm.trans none
    obtain ⟨rfl, rfl⟩ := List.cons.inj (listed.symm.trans more)
    have registered := baseFormed.register (some (.clause index)) shape idle
    have grown := site.base.register_extends goal (some (.clause index))
    obtain ⟨equation, names, later, got, matched, run⟩ := Ledger.matchHead_spec registered
      (grown.live (Ledger.live_of_shape shape)) (grown.live (fits.headLive held))
    have onward := matched.grows registered
    have whole := onward.extends.trans grown
    have fitsLater := fits.later whole
    obtain ⟨copy, equationShape⟩ := matched.equation
    have inRange : index + 1 ≤ program.size := (Array.getElem?_eq_some_iff.mp held).1
    have deepLater : depth ≤ later.calls.length := by
      refine Nat.le_trans deep (Nat.le_trans ?_ onward.extends.calls.length_le)
      simp [Ledger.register]
    have first := faithful equation later (some site.size) (site.size + 1) false onward.wellFormed
      fitsLater (Ledger.live_of_shape equationShape) deepLater (by simp)
    have after (names : Renaming) := ih inRange
      (@resolving_ended program limit site goal index later fits whole names) rfl
    rw [List.flatMap_cons]
    refine Plays.after ?_ (resolving_starts shape low next held onward.wellFormed run stands)
    simp only [attempt, got]
    cases has : clause.body with
    | none =>
      simpa using first.forward rfl (by simp) whole (fact_forwards fitsLater held has names)
        (after names)
    | some body =>
      have seconds := @body_seconds program limit site goal index clause body later solve depth
        faithful onward.wellFormed deepLater fitsLater held has
      have known : later.Known goal clause.head body site.base.size names :=
        .first (matched.head_instance registered (grown.live (fits.headLive held)))
      exact first.sequence names rfl rfl whole seconds (fun names _ => after names) known

end

end Resolvent
