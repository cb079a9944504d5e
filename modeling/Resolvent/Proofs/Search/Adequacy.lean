import Resolvent.Proofs.Search.Resolving

namespace Resolvent

variable {program : Program} {limit : Nat}

def Form.operands : Form → List TermId
  | .negation inner => [inner]
  | .conjunction left right => [left, right]
  | .disjunction left right => [left, right]
  | .builtin _ left right => [left, right]
  | .predicate => []

theorem operands_args (cell : Compound) : ∀ id ∈ cell.form.operands, id ∈ cell.args := by
  obtain ⟨symbol, args, active⟩ := cell
  simp only [Compound.form]
  split <;> simp_all [Form.operands]

section

variable {site : Site} {goal : TermId} {symbol : Symbol} {args : List TermId}

def Dispatching (program : Program) (limit : Nat) (site : Site) (goal : TermId)
    (cell : Compound) (position : Position) : Prop :=
  ∀ below ledger truncated counters, below.size = site.size → position.Admits ledger →
    Orderly program ledger (position.config limit below ledger truncated counters) ∧
    (∀ signal, position.step ≠ .notify none signal) ∧ ∃ others,
      (position.config limit below ledger truncated counters).2.advance program position.step =
        (site.base.machine limit below truncated others).dispatch program goal cell site.target

theorem enter_machine {ledger : Ledger} {below : Array Entry} (small : below.size = site.size)
    (frame : Frame) (called : TermId) (truncated : Bool) (counters : Counters) :
    (ledger.machine limit below truncated counters).enter frame site.target called =
      (.call called (some site.size),
        site.machine limit below frame #[] ledger truncated counters) := by
  simp only [Machine.enter, Site.push_machine]
  rw [← small]
  rfl

/-- Where a run stands once a frame was pushed and a goal was called for it. -/
theorem precedes_enter {cell : Compound} {position : Position} {registered : Ledger} {frame : Frame}
    {called : TermId} (wellFormed : registered.WellFormed)
    (dispatches : ∀ below truncated counters, below.size = site.size →
      (∃ others, (site.base.machine limit below truncated counters).dispatch program goal cell
        site.target = .ok ((registered.machine limit below truncated others).enter frame site.target
          called)))
    (stands : Dispatching program limit site goal cell position) :
    Precedes program limit site false false position
      ((⟨.call called (some site.size), #[], registered, false⟩ : Position).atop
        #[site.entry frame]) := by
  intro below ledger truncated counters small admits
  obtain ⟨orderly, running, others, started⟩ := stands below ledger truncated counters small admits
  obtain ⟨final, dispatched⟩ := dispatches below truncated others small
  rw [enter_machine small] at dispatched
  refine ⟨registered, truncated, final, ⟨wellFormed, .refl _, fun _ => rfl⟩, rfl, ?_⟩
  have step := Reaches.one orderly running (started.trans dispatched)
  simpa [Position.atop, Position.config, Site.machine] using step

theorem quiet_forwards {base : Ledger} {frame : Frame} (fits : program.Fits base)
    (quiet : ∀ resolved next expansion, frame ≠ .deduction resolved next (some expansion))
    (hands : ∀ machine : Machine, machine.yielded program site.size (site.entry frame) =
      .ok (.notify site.target .yielded, machine)) : Forwards program limit site base frame := by
  intro below above ledger truncated counters small wellFormed grown
  refine ⟨?_, ?_⟩
  · apply Site.orderly_heard wellFormed (fits.later grown) small
    intro _ resolved next expansion _ _ same
    exact absurd same (quiet resolved next expansion)
  · rw [Site.advance_heard _ small]
    exact hands _

variable {solve : TermId → Ledger → List Emission} {cell : Compound} {position : Position}

theorem conjunction_plays {left right : TermId}
    (faithful : Faithful program limit solve (site.base.calls.length + 1))
    (wellFormed : site.base.WellFormed) (fits : program.Fits site.base)
    (shape : site.base.shape? goal = some (.compound symbol args)) (idle : goal ∉ site.base.calls)
    (leftLive : site.base.Live left) (rightLive : site.base.Live right)
    (form : cell.form = .conjunction left right)
    (stands : Dispatching program limit site goal cell position) :
    Plays program limit site
      (solveForm program solve goal symbol args.length site.base (.conjunction left right)) false
      position := by
  have registered := wellFormed.register none shape idle
  have grown := site.base.register_extends goal none
  have deep : site.base.calls.length + 1 ≤ (site.base.register goal none).calls.length := by
    simp [Ledger.register]
  have first := faithful left _ (some site.size) (site.size + 1) false registered (fits.later grown)
    (grown.live leftLive) deep (by simp)
  have seconds : Seconds program limit site (site.base.register goal none) (rightGoal right) solve
      (fun _ => .conjunction site.base.snapshot right .left)
      (fun _ => .conjunction site.base.snapshot right .right) (fun _ => True) :=
    { starts := by
        rintro names - below above ledger truncated counters small held reached _ _ _ ⟨⟩
        have orderly := @Site.orderly_heard program limit site below above
          (.conjunction site.base.snapshot right .left) ledger truncated counters .yielded held
          (fits.later (reached.trans grown)) small (by simp)
        refine Reaches.one orderly (by simp) ?_
        rw [Site.advance_heard _ small]
        simp only [Machine.yielded, Site.entry]
        rw [Site.setFrame_machine _ small]
      stops := by
        rintro names - below above ledger truncated counters small held reached reason ⟨⟩
      grows := by
        rintro names ledger - held reached _ _ _ ⟨⟩
        exact ⟨trivial, held, .refl _⟩
      plays := by
        rintro names ledger - held reached _ _ _ ⟨⟩ size
        have whole := reached.trans grown
        exact faithful right ledger (some site.size) size false held (fits.later whole)
          (whole.live rightLive) (Nat.le_trans deep reached.calls.length_le) (by simp)
      forwards := fun names _ => quiet_forwards (fits.later grown) (by simp) fun _ => rfl
      resumes := by
        intro names _ below above ledger truncated counters small held reached
        refine ⟨Site.orderly_heard held (fits.later (reached.trans grown)) small (by simp), ?_⟩
        rw [Site.advance_heard _ small]
        simp only [Machine.exhausted, Site.entry]
        rw [Site.setFrame_machine _ small] }
  have after := @plays_restore program limit site (.conjunction site.base.snapshot right .left)
    (site.base.register goal none) wellFormed fits grown (by
      intro machine
      simp only [Machine.exhausted, Site.entry]
      cases machine.pop site.size <;> rfl)
  have joined := first.sequence [] rfl rfl grown seconds (fun _ _ => after) trivial
  rw [List.append_nil] at joined
  refine Plays.after joined (precedes_enter registered ?_ stands)
  intro below truncated counters small
  exact ⟨counters, by simp only [Machine.dispatch, form, Ledger.machine, Ledger.register_state]⟩

theorem disjunction_plays {left right : TermId}
    (faithful : Faithful program limit solve (site.base.calls.length + 1))
    (wellFormed : site.base.WellFormed) (fits : program.Fits site.base)
    (shape : site.base.shape? goal = some (.compound symbol args)) (idle : goal ∉ site.base.calls)
    (leftLive : site.base.Live left) (rightLive : site.base.Live right)
    (form : cell.form = .disjunction left right)
    (stands : Dispatching program limit site goal cell position) :
    Plays program limit site
      (solveForm program solve goal symbol args.length site.base (.disjunction left right)) false
      position := by
  have registered (choice : Choice) := wellFormed.register (some choice) shape idle
  have grown (choice : Choice) := site.base.register_extends goal (some choice)
  have plays (choice : Choice) {called : TermId} (live : site.base.Live called) :=
    faithful called (site.base.register goal (some choice)) (some site.size) (site.size + 1) false
      (registered choice) (fits.later (grown choice)) ((grown choice).live live)
      (by simp [Ledger.register]) (by simp)
  have forwards (choice : Choice) (branch : Branch) :
      Forwards program limit site (site.base.register goal (some choice))
        (.disjunction site.base.snapshot goal right branch) :=
    quiet_forwards (fits.later (grown choice)) (by simp) fun _ => rfl
  have ended := @plays_restore program limit site (.disjunction site.base.snapshot goal right .right)
    (site.base.register goal (some .right)) wellFormed fits (grown .right) (by
      intro machine
      simp only [Machine.exhausted, Site.entry]
      cases machine.pop site.size <;> rfl)
  have second := (plays .right rightLive).forward rfl (by simp) (grown .right)
    (forwards .right .right) ended
  have turned : Plays program limit site (solve right (site.base.register goal (some .right))) false
      (site.ended (.disjunction site.base.snapshot goal right .left) #[]
        (site.base.register goal (some .left))) := by
    rw [List.append_nil] at second
    refine Plays.after second ?_
    intro below ledger truncated counters small admits
    have reached := admits.extends.trans (grown .left)
    have orderly := @Site.orderly_heard program limit site below #[]
      (.disjunction site.base.snapshot goal right .left) ledger truncated counters .exhausted
      admits.wellFormed (fits.later reached) small (by simp)
    have restored := @Site.restore_machine limit site below #[]
      (.disjunction site.base.snapshot goal right .left) ledger site.base truncated counters
      admits.wellFormed reached
    have set := @Site.setFrame_machine limit site below #[]
      (.disjunction site.base.snapshot goal right .left) (site.base.register goal (some .right))
      truncated (counters.record .restore 1) (.disjunction site.base.snapshot goal right .right) small
    have step : (site.machine limit below (.disjunction site.base.snapshot goal right .left) #[] ledger
        truncated counters).advance program (.notify (some site.size) .exhausted) =
        .ok (.call right (some site.size), site.machine limit below
          (.disjunction site.base.snapshot goal right .right) #[]
          (site.base.register goal (some .right)) truncated (counters.record .restore 1)) := by
      rw [Site.advance_heard _ small, ← set]
      have arena : (site.machine limit below (.disjunction site.base.snapshot goal right .left) #[]
          site.base truncated (counters.record .restore 1)).state =
          site.base.state (counters.record .restore 1) := rfl
      simp only [Machine.exhausted, Site.entry, Machine.turnRight, restored, arena,
        Ledger.arena_state, require_live (Ledger.live_of_shape shape), Ledger.register_state, Bind.bind,
        Except.bind]
      rfl
    refine ⟨_, truncated, counters.record .restore 1, ⟨registered .right, .refl _, fun _ => rfl⟩, rfl,
      ?_⟩
    have reach := Reaches.one orderly (by simp) step
    simpa [Site.ended, Position.atop, Position.config, Site.machine] using reach
  have joined := (plays .left leftLive).forward rfl (by simp) (grown .left) (forwards .left .left)
    turned
  refine Plays.after joined (precedes_enter (registered .left) ?_ stands)
  intro below truncated counters small
  exact ⟨counters, by simp only [Machine.dispatch, form, Ledger.machine, Ledger.register_state]⟩

theorem builtin_plays {builtin : Builtin} {left right : TermId}
    (faithful : Faithful program limit solve (site.base.calls.length + 1))
    (wellFormed : site.base.WellFormed) (fits : program.Fits site.base)
    (shape : site.base.shape? goal = some (.compound symbol args)) (idle : goal ∉ site.base.calls)
    (leftLive : site.base.Live left) (rightLive : site.base.Live right)
    (form : cell.form = .builtin builtin left right)
    (stands : Dispatching program limit site goal cell position) :
    Plays program limit site
      (solveForm program solve goal symbol args.length site.base (.builtin builtin left right)) false
      position := by
  have registered := wellFormed.register none shape idle
  have grown := site.base.register_extends goal none
  obtain ⟨reply, later, got, performs, run⟩ :=
    Ledger.perform_spec registered (grown.live leftLive) (grown.live rightLive) builtin
  have advances := performs.advances registered (grown.live leftLive) (grown.live rightLive)
  have whole := advances.grown.trans grown
  have concluded (below : Array Entry) (truncated : Bool) (counters : Counters) : ∃ others,
      (site.base.machine limit below truncated counters).dispatch program goal cell site.target =
        .ok ((later.machine limit below truncated others).conclude site.base.snapshot site.target
          reply) := by
    obtain ⟨others, performed⟩ := run counters
    refine ⟨others, ?_⟩
    simp only [Machine.dispatch, form, Ledger.machine, Ledger.register_state, performed, Bind.bind,
      Except.bind]
    rfl
  cases reply with
  | fails =>
    simp only [solveForm, got]
    intro below ledger truncated counters small admits
    obtain ⟨orderly, running, others, started⟩ := stands below ledger truncated counters small admits
    obtain ⟨final, dispatched⟩ := concluded below truncated others
    simp only [Machine.conclude, Ledger.machine_backtrack advances.wellFormed whole] at dispatched
    exact ⟨_, Reaches.one orderly running (started.trans dispatched),
      ends_machine wellFormed (.refl _) (fun _ => rfl) (by simp)⟩
  | answers =>
    simp only [solveForm, got]
    refine ⟨advances.wellFormed, whole, _, ?_, plays_once fits whole wellFormed⟩
    intro below ledger truncated counters small admits
    obtain ⟨orderly, running, others, started⟩ := stands below ledger truncated counters small admits
    obtain ⟨final, dispatched⟩ := concluded below truncated others
    simp only [Machine.conclude, Ledger.machine_answer] at dispatched
    exact ⟨_, Reaches.one orderly running (started.trans dispatched), answers_machine (by simp)⟩
  | delegates next =>
    simp only [solveForm, got]
    have deep : site.base.calls.length + 1 ≤ later.calls.length := by
      refine Nat.le_trans ?_ advances.grown.calls.length_le
      simp [Ledger.register]
    have inner := faithful next later (some site.size) (site.size + 1) false advances.wellFormed
      (fits.later whole) performs.delegated deep (by simp)
    have after := @plays_restore program limit site (.delegate site.base.snapshot) later wellFormed
      fits whole (by
        intro machine
        simp only [Machine.exhausted, Site.entry]
        cases machine.pop site.size <;> rfl)
    have joined := inner.forward rfl (by simp) whole
      (quiet_forwards (fits.later whole) (by simp) fun _ => rfl) after
    rw [List.append_nil] at joined
    exact Plays.after joined (precedes_enter advances.wellFormed
      (fun below truncated counters _ => concluded below truncated counters) stands)

theorem negation_plays {inner : TermId}
    (faithful : Faithful program limit solve (site.base.calls.length + 1))
    (wellFormed : site.base.WellFormed) (fits : program.Fits site.base)
    (shape : site.base.shape? goal = some (.compound symbol args)) (idle : goal ∉ site.base.calls)
    (live : site.base.Live inner) (form : cell.form = .negation inner)
    (stands : Dispatching program limit site goal cell position) :
    Plays program limit site
      (solveForm program solve goal symbol args.length site.base (.negation inner)) false
      position := by
  have registered := wellFormed.register none shape idle
  have grown := site.base.register_extends goal none
  have deep : site.base.calls.length + 1 ≤ (site.base.register goal none).calls.length := by
    simp [Ledger.register]
  have plays (exact : Bool) := faithful inner (site.base.register goal none) (some site.size)
    (site.size + 1) exact registered (fits.later grown) (grown.live live) deep
  have waits : Waits program limit site position
      ⟨.call inner (some site.size), #[], site.base.register goal none, false⟩ := by
    intro below ledger truncated counters small admits
    obtain ⟨orderly, running, others, started⟩ := stands below ledger truncated counters small admits
    have entered := @enter_machine limit site (site.base.register goal none) below small
      (.negation site.base.snapshot truncated) inner false others
    have dispatched : (site.base.machine limit below truncated others).dispatch program goal cell
        site.target = .ok (.call inner (some site.size), site.machine limit below
          (.negation site.base.snapshot truncated) #[] (site.base.register goal none) false others) := by
      rw [← entered]
      simp only [Machine.dispatch, form, Machine.negation, Ledger.machine, Ledger.register_state]
    refine ⟨_, others, ⟨registered, .refl _, fun _ => rfl⟩, ?_⟩
    have step := Reaches.one orderly running (started.trans dispatched)
    simpa [Position.config, Site.machine] using step
  by_cases none : ∀ later, .answer later ∉ solve inner (site.base.register goal none)
  · exact Plays.negate wellFormed fits grown registered (fun _ => rfl) waits (plays true fun _ => none)
  · exact Plays.negate wellFormed fits grown registered (fun absent => absurd absent none) waits
      (plays false (by simp))

theorem predicate_plays (faithful : Faithful program limit solve (site.base.calls.length + 1))
    (wellFormed : site.base.WellFormed) (fits : program.Fits site.base)
    (shape : site.base.shape? goal = some (.compound symbol args)) (idle : goal ∉ site.base.calls)
    (form : cell.form = .predicate) (stands : Dispatching program limit site goal cell position) :
    Plays program limit site
      (solveForm program solve goal symbol args.length site.base .predicate) false position := by
  refine deduction_plays faithful wellFormed fits shape idle (Nat.le_refl _) (Nat.zero_le _) ?_
  intro below ledger truncated counters small admits
  obtain ⟨orderly, running, others, started⟩ := stands below ledger truncated counters small admits
  refine ⟨orderly, running, none, others, started.trans ?_⟩
  simp only [Machine.dispatch, form, Site.push_machine]
  rw [← small]
  rfl

theorem solveForm_plays (faithful : Faithful program limit solve (site.base.calls.length + 1))
    (wellFormed : site.base.WellFormed) (fits : program.Fits site.base)
    (shape : site.base.shape? goal = some (.compound cell.symbol cell.args))
    (idle : goal ∉ site.base.calls)
    (stands : Dispatching program limit site goal cell position) :
    Plays program limit site
      (solveForm program solve goal cell.symbol cell.args.length site.base cell.form) false
      position := by
  have live : ∀ id ∈ cell.form.operands, site.base.Live id := fun id member =>
    wellFormed.live_args shape id (operands_args cell id member)
  cases form : cell.form with
  | negation inner =>
    rw [form] at live
    exact negation_plays faithful wellFormed fits shape idle (live inner (by simp [Form.operands]))
      form stands
  | conjunction left right =>
    rw [form] at live
    exact conjunction_plays faithful wellFormed fits shape idle (live left (by simp [Form.operands]))
      (live right (by simp [Form.operands])) form stands
  | disjunction left right =>
    rw [form] at live
    exact disjunction_plays faithful wellFormed fits shape idle (live left (by simp [Form.operands]))
      (live right (by simp [Form.operands])) form stands
  | builtin builtin left right =>
    rw [form] at live
    exact builtin_plays faithful wellFormed fits shape idle (live left (by simp [Form.operands]))
      (live right (by simp [Form.operands])) form stands
  | predicate => exact predicate_plays faithful wellFormed fits shape idle form stands

end

theorem call_machine {ledger : Ledger} {goal : TermId} (live : ledger.Live goal)
    (target : Option Nat) (below : Array Entry) (truncated : Bool) (counters : Counters) :
    (ledger.machine limit below truncated counters).advance program (.call goal target) =
      let reached := ledger.arena.deref goal
      let counted := counters.record .goal 1
      match ledger.arena.node reached with
      | .number _ => .ok ((ledger.machine limit below truncated counted).answer none target)
      | .var _ =>
        if ledger.arena.isDelayed reached then
          .ok ((ledger.machine limit below truncated counted).answer none target)
        else .ok (((ledger.delay reached).machine limit below truncated counted).answer
          (some ledger.snapshot) target)
      | .compound cell =>
        if cell.active then .ok ((ledger.machine limit below truncated counted).answer none target)
        else if limit ≤ ledger.calls.length then
          .ok (.notify target .exhausted,
            ledger.machine limit below true (counted.record .depthHit 1))
        else (ledger.machine limit below truncated counted).dispatch program reached cell target := by
  have depth : (ledger.state (counters.record .goal 1)).callDepth = ledger.calls.length := by
    simp [State.callDepth, Ledger.state]
  simp only [Machine.advance, Machine.call, Machine.record, Ledger.machine, Ledger.record_state,
    Ledger.arena_state, require_live live, Ledger.delay_state, depth, Bind.bind, Except.bind, pure,
    Except.pure]
  cases ledger.arena.node (ledger.arena.deref goal) <;> rfl

/-- A goal holds as it is: a number, a variable that is delayed, or a goal that is being proven. -/
def Arena.Grants (arena : Arena) (goal : TermId) : Prop :=
  match arena.node (arena.deref goal) with
  | .number _ => True
  | .var _ => arena.isDelayed (arena.deref goal) = true
  | .compound cell => cell.active = true

theorem solve_grants {level : Nat} {goal : TermId} {ledger : Ledger}
    (grants : ledger.arena.Grants goal) :
    solve program limit (level + 1) goal ledger = [.answer ledger] := by
  rw [Arena.Grants] at grants
  cases node : ledger.arena.node (ledger.arena.deref goal) <;> simp_all [solve]

section

variable {goal : TermId} {ledger : Ledger} {target : Option Nat} {size : Nat} {exact : Bool}

theorem config_call (below : Array Entry) (truncated : Bool) (counters : Counters) :
    (⟨.call goal target, #[], ledger, false⟩ : Position).config limit below ledger truncated
      counters = (.call goal target, ledger.machine limit below truncated counters) := by
  simp [Position.config, Ledger.machine]

theorem leads_call {found : Array Entry → Bool → Config → Prop} (wellFormed : ledger.WellFormed)
    (fits : program.Fits ledger) (live : ledger.Live goal)
    (step : ∀ below truncated counters, ∃ config,
      (ledger.machine limit below truncated counters).advance program (.call goal target) =
        .ok config ∧ found below truncated config) :
    Leads program limit ⟨target, size, ledger, exact⟩ ⟨.call goal target, #[], ledger, false⟩
      found := by
  intro below other truncated counters small admits
  obtain rfl : other = ledger := admits.2.2 rfl
  obtain ⟨config, advances, reached⟩ := step below truncated counters
  rw [config_call]
  exact ⟨config, Reaches.one (orderly_call wellFormed fits live rfl) (by simp) advances, reached⟩

theorem call_plays {level : Nat} (wellFormed : ledger.WellFormed) (fits : program.Fits ledger)
    (live : ledger.Live goal)
    (faithful : ledger.calls.length < limit →
      Faithful program limit (solve program limit level) (ledger.calls.length + 1))
    (changes : exact = true → ¬ ledger.arena.Grants goal) :
    Plays program limit ⟨target, size, ledger, exact⟩ (solve program limit (level + 1) goal ledger)
      false ⟨.call goal target, #[], ledger, false⟩ := by
  have called (below : Array Entry) (truncated : Bool) (counters : Counters) :=
    @call_machine program limit ledger goal live target below truncated counters
  -- A goal that holds as it is.
  have holds (grants : ledger.arena.Grants goal)
      (step : ∀ below truncated counters,
        (ledger.machine limit below truncated counters).advance program (.call goal target) =
          .ok ((ledger.machine limit below truncated (counters.record .goal 1)).answer none target)) :
      Plays program limit ⟨target, size, ledger, exact⟩ (solve program limit (level + 1) goal ledger)
        false ⟨.call goal target, #[], ledger, false⟩ := by
    have inexact : exact = false := Bool.eq_false_iff.mpr fun whole => changes whole grants
    rw [solve_grants grants]
    refine ⟨wellFormed, .refl _, _, leads_call wellFormed fits live fun below truncated counters => ?_,
      plays_none fits (.refl _) inexact⟩
    have answered := step below truncated counters
    rw [Ledger.machine_answer] at answered
    exact ⟨_, answered, answers_machine (by simp)⟩
  have reachedLive := wellFormed.live_deref live
  cases node : ledger.arena.node (ledger.arena.deref goal) with
  | number value =>
    refine holds (by simp only [Arena.Grants, node]) fun below truncated counters => ?_
    simp only [called, node]
  | var held =>
    cases delayed : ledger.arena.isDelayed (ledger.arena.deref goal) with
    | true =>
      refine holds (by simp only [Arena.Grants, node, delayed]) fun below truncated counters => ?_
      simp only [called, node, delayed, if_true]
    | false =>
      have isVar := Ledger.shape_of_var reachedLive node
      have fresh : ledger.arena.deref goal ∉ ledger.delayed := by
        intro member
        rw [Ledger.isDelayed_of_mem reachedLive isVar member] at delayed
        cases delayed
      have grown := ledger.delay_extends (ledger.arena.deref goal)
      simp only [solve, node, delayed, Bool.false_eq_true, if_false]
      refine ⟨wellFormed.delay isVar fresh, grown, _,
        leads_call wellFormed fits live fun below truncated counters => ?_,
        plays_once fits grown wellFormed⟩
      have answered := called below truncated counters
      simp only [node, delayed, Bool.false_eq_true, if_false, Ledger.machine_answer] at answered
      exact ⟨_, answered, answers_machine (by simp)⟩
  | compound cell =>
    obtain ⟨shape, active⟩ := Ledger.shape_of_compound node
    by_cases busy : ledger.arena.deref goal ∈ ledger.calls
    · have marked : cell.active = true := by simp [active, busy]
      refine holds (by simp only [Arena.Grants, node, marked]) fun below truncated counters => ?_
      simp only [called, node, marked, if_true]
    · have unmarked : cell.active = false := by simp [active, busy]
      -- Only now the depth is looked at: a goal on the call stack is never cut off.
      by_cases deep : limit ≤ ledger.calls.length
      · simp only [solve, node, unmarked, deep, Bool.false_eq_true, if_false, if_true]
        refine leads_call wellFormed fits live fun below truncated counters => ?_
        have cutOff := called below truncated counters
        simp only [node, unmarked, deep, Bool.false_eq_true, if_false, if_true] at cutOff
        exact ⟨_, cutOff, ends_machine wellFormed (.refl _) (fun _ => rfl) (by simp)⟩
      · simp only [solve, node, unmarked, deep, Bool.false_eq_true, if_false]
        have stands : Dispatching program limit ⟨target, size, ledger, exact⟩
            (ledger.arena.deref goal) cell ⟨.call goal target, #[], ledger, false⟩ := by
          intro below other truncated counters small admits
          obtain rfl : other = ledger := admits.2.2 rfl
          rw [config_call]
          refine ⟨orderly_call wellFormed fits live rfl, by simp, counters.record .goal 1, ?_⟩
          simp only [called, node, unmarked, deep, Bool.false_eq_true, if_false]
        exact solveForm_plays (faithful (Nat.lt_of_not_le deep)) wellFormed fits shape busy stands

end

theorem solve_faithful (program : Program) (limit level : Nat) :
    Faithful program limit (solve program limit (level + 1)) (limit - level) := by
  have changes {level : Nat} {exact : Bool} {goal : TermId} {ledger : Ledger}
      (silent : exact = true → ∀ later, .answer later ∉ solve program limit (level + 1) goal ledger)
      (same : exact = true) : ¬ ledger.arena.Grants goal := fun grants =>
    silent same ledger (by simp [solve_grants grants])
  induction level with
  | zero =>
    intro goal ledger target size exact wellFormed fits live deep silent
    exact call_plays wellFormed fits live (fun shallow => absurd deep (Nat.not_le_of_lt shallow))
      (changes silent)
  | succ level ih =>
    intro goal ledger target size exact wellFormed fits live deep silent
    refine call_plays wellFormed fits live (fun shallow => ?_) (changes silent)
    intro inner reached innerTarget innerSize innerExact formed fitting innerLive far quiet
    exact ih inner reached innerTarget innerSize innerExact formed fitting innerLive (by omega) quiet

end Resolvent
