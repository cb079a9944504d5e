import Resolvent.Proofs.Search.Goals

namespace Resolvent

variable {program : Program} {limit : Nat} {solver : TermId → Ledger → List Emission}

namespace Ledger

variable {ledger : Ledger}

theorem isDelayedWithin_none (undelayed : ledger.delayed = []) (fuel : Nat) (id : TermId) :
    ledger.arena.isDelayedWithin fuel id = false := by
  induction fuel generalizing id with
  | zero => rfl
  | succ fuel ih =>
    rw [Arena.isDelayedWithin, Bool.or_eq_false_iff]
    constructor
    · rw [Arena.var?, node_arena]
      cases known : ledger.shape? id with
      | none => rfl
      | some shape => cases shape <;> simp [node, undelayed]
    · rw [List.any_eq_false]
      intro previous _
      simp [ih previous]

theorem surfaced_none (undelayed : ledger.delayed = []) (vars : List TermId) :
    ledger.surfaced vars = [] := by
  induction vars with
  | nil => rfl
  | cons var vars ih =>
    have first : ledger.arena.surface [] var = [] := by
      rw [Arena.surface]
      cases ledger.arena.binding? var with
      | none => rfl
      | some goal =>
        simp only
        cases ledger.arena.compound? goal with
        | none => rfl
        | some cell => simp [Arena.isDelayed, isDelayedWithin_none undelayed]
    rw [surfaced, List.foldl_cons, first]
    exact ih

def Equations (ledger : Ledger) (goal : TermId) : Prop :=
  ∃ base goals, ledger.Conjoins base goal goals ∧ ∀ other ∈ goals, ledger.Equation other

theorem Equations.later {later : Ledger} (grown : later.Extends ledger) {goal : TermId}
    (equations : ledger.Equations goal) : later.Equations goal := by
  obtain ⟨base, goals, conjoins, each⟩ := equations
  exact ⟨base, goals, conjoins.later grown, fun other member => grown.equation (each other member)⟩

theorem Equation.equations {goal : TermId} (equation : ledger.Equation goal) :
    ledger.Equations goal :=
  ⟨0, [goal], .last equation.live, by simpa using equation⟩

theorem Equation.callable {goal : TermId} (equation : ledger.Equation goal) :
    ledger.arena.Callable anywhere goal := by
  obtain ⟨left, right, shape⟩ := equation
  exact callable_compound shape trivial (by simp [formOf, Compound.form, Form.goals])

theorem Equations.callable {goal : TermId} (equations : ledger.Equations goal) :
    ledger.arena.Callable anywhere goal := by
  obtain ⟨base, goals, conjoins, each⟩ := equations
  induction conjoins with
  | last => exact (each _ (by simp)).callable
  | cons _ shape _ ih =>
    refine callable_compound shape trivial ?_
    simp only [formOf, Compound.form, Form.goals, List.mem_cons, List.not_mem_nil, or_false]
    rintro goal (rfl | rfl)
    · exact (each _ (by simp)).callable
    · exact ih fun other member => each other (by simp [member])

theorem Equations.cases {goal : TermId} (equations : ledger.Equations goal) :
    ledger.Equation goal ∨ ∃ first rest,
      ledger.shape? goal = some (.compound (.reserved .conjunction) [first, rest]) ∧
        ledger.Equations first ∧ ledger.Equations rest := by
  obtain ⟨base, goals, conjoins, each⟩ := equations
  cases conjoins with
  | last => exact .inl (each _ (by simp))
  | cons _ shape others =>
    exact .inr ⟨_, _, shape, (each _ (by simp)).equations, base, _, others,
      fun other member => each other (by simp [member])⟩

/-- Where nothing is delayed an equation that is unified is replaced by new equations. -/
theorem Equates.equations {left right goal : TermId} {later : Ledger}
    (equates : ledger.Equates left right (.delegates goal) later) (wellFormed : ledger.WellFormed)
    (undelayed : ledger.delayed = []) (leftLive : ledger.Live left) (rightLive : ledger.Live right) :
    ∃ base goals, ledger.size ≤ base ∧ later.Conjoins base goal goals ∧
      ∀ other ∈ goals, later.Equation other ∧ ledger.size ≤ other.index := by
  cases equates with
  | @delegates after _ last _ solves rechecks unviolated grown conjoins =>
    have bound : after.Binds ledger := solves.grows wellFormed (leftLive.pair rightLive)
    have checked := rechecks.grows bound.wellFormed
    have posted : last.ledger.Posted last.discards := by
      intro id member
      rw [checked.postings]
      rcases rechecks.discards id member with old | new
      · cases old
      · exact posted_wakeup after {} _ id new
    have settled := settleAll_advances checked.wellFormed posted
    have none : (after.review ledger).goals = [] := by
      rw [review, surfaced_none (bound.advances.delayed.trans undelayed)]
    refine ⟨_, last.goals, (checked.extends.trans bound.advances.grown).size_le, conjoins,
      fun other member => ?_⟩
    have equation := rechecks.goals bound.wellFormed other member
    have fresh := rechecks.fresh bound.wellFormed other member
    rw [none] at equation fresh
    constructor
    · exact grown.extends.equation (settled.grown.equation (equation.resolve_left (by simp)))
    · exact Nat.le_trans bound.advances.grown.size_le (fresh.resolve_left (by simp))

/-- Where nothing is delayed a builtin is replaced by a goal in which no variable is called, and an
    equation by a conjunction of equations. -/
theorem Performs.replaced {symbol : Symbol} {args : List TermId} {left right goal : TermId}
    {builtin : Builtin} {later : Ledger} (form : formOf symbol args = .builtin builtin left right)
    (performs : ledger.Performs left right builtin (.delegates goal) later)
    (wellFormed : ledger.WellFormed) (undelayed : ledger.delayed = [])
    (leftLive : ledger.Live left) (rightLive : ledger.Live right) :
    later.arena.Callable anywhere goal ∧ (builtin = .equality → later.Equations goal) := by
  cases performs with
  | @relaxed strict _ _ relaxes =>
    obtain ⟨equal, strictly, shape, first, second⟩ := relaxes.goals
    refine ⟨callable_compound shape trivial ?_, nofun⟩
    simp only [formOf, Compound.form, Form.goals, List.mem_cons, List.not_mem_nil, or_false]
    rintro goal (rfl | rfl)
    · exact Equation.callable ⟨left, right, first⟩
    · refine callable_compound second trivial ?_
      rcases form_relaxed form with rfl | rfl <;> simp [formOf, Compound.form, Form.goals]
  | equates _ equates =>
    obtain ⟨base, goals, -, conjoins, each⟩ :=
      equates.equations wellFormed undelayed leftLive rightLive
    have equations : later.Equations goal :=
      ⟨base, goals, conjoins, fun other member => (each other member).1⟩
    exact ⟨equations.callable, fun _ => equations⟩
  | differs _ differs => cases differs
  | computes _ _ computes =>
    have equation := computes.delegated
    exact ⟨equation.callable, fun _ => equation.equations⟩

end Ledger

def follow (step : Ledger → List Emission) : Emission → List Emission
  | .answer ledger => step ledger
  | .cut => [.cut]
  | .fault reason => [.fault reason]

theorem chain_rightGoal {events : List Emission} (faultless : ∀ reason, .fault reason ∉ events)
    (right : TermId) (names : Renaming) :
    chain (rightGoal right) solver names events = events.flatMap (follow (solver right)) := by
  induction events with
  | nil => rfl
  | cons event rest ih =>
    have onward := ih fun reason member => faultless reason (by simp [member])
    cases event with
    | answer ledger => simp only [chain, rightGoal, List.flatMap_cons, follow, onward]
    | cut => simp [chain, follow, onward]
    | fault reason => exact absurd (by simp) (faultless reason)

def startBody (solve : TermId → Ledger → List Emission) (body : TermId) (names : Renaming)
    (ledger : Ledger) : List Emission :=
  match bodyGoal body names ledger with
  | .error reason => [.fault reason]
  | .ok (goal, _, later) => solve goal later

/-- A body that is started at most once is copied with the names of the head. -/
theorem chain_bodyGoal {events : List Emission} {body : TermId} {names : Renaming}
    (faultless : ∀ reason, .fault reason ∉ events) (single : (answersOf events).length ≤ 1)
    (starts : ∀ ledger, .answer ledger ∈ events → ∃ start, bodyGoal body names ledger = .ok start) :
    chain (bodyGoal body) solver names events =
      events.flatMap (follow (startBody solver body names)) := by
  have silent {events : List Emission} (faultless : ∀ reason, .fault reason ∉ events)
      (none : answersOf events = []) (names others : Renaming) :
      chain (bodyGoal body) solver others events =
        events.flatMap (follow (startBody solver body names)) := by
    induction events with
    | nil => rfl
    | cons event rest ih =>
      cases event with
      | answer ledger => simp [answersOf] at none
      | cut =>
        have onward := ih (fun reason member => faultless reason (by simp [member]))
          (by simpa [answersOf] using none)
        simp [chain, follow, onward]
      | fault reason => exact absurd (by simp) (faultless reason)
  induction events with
  | nil => rfl
  | cons event rest ih =>
    have quiet : ∀ reason, .fault reason ∉ rest := fun reason member =>
      faultless reason (by simp [member])
    cases event with
    | answer ledger =>
      have none : answersOf rest = [] := by simpa [answersOf] using single
      obtain ⟨⟨goal, named, later⟩, started⟩ := starts ledger (by simp)
      simp only [chain, started, List.flatMap_cons, follow, startBody, silent quiet none names named]
    | cut =>
      have onward := ih quiet (by simpa [answersOf] using single)
        fun ledger member => starts ledger (by simp [member])
      simp [chain, follow, onward]
    | fault reason => exact absurd (by simp) (faultless reason)

theorem answersOf_append (events others : List Emission) :
    answersOf (events ++ others) = answersOf events ++ answersOf others :=
  List.filterMap_append

theorem answersOf_follow (step : Ledger → List Emission) (events : List Emission) :
    answersOf (events.flatMap (follow step)) =
      (answersOf events).flatMap fun ledger => answersOf (step ledger) := by
  induction events with
  | nil => rfl
  | cons event rest ih =>
    rw [List.flatMap_cons, answersOf_append, ih]
    cases event <;> simp [follow, answersOf]

theorem mem_follow {step : Ledger → List Emission} {events : List Emission} {event : Emission} :
    event ∈ events.flatMap (follow step) ↔
      (event ∈ events ∧ ∀ ledger, event ≠ .answer ledger) ∨
        ∃ ledger, .answer ledger ∈ events ∧ event ∈ step ledger := by
  rw [List.mem_flatMap]
  constructor
  · rintro ⟨earlier, listed, member⟩
    cases earlier with
    | answer ledger => exact .inr ⟨ledger, listed, member⟩
    | cut | fault =>
      rw [follow, List.mem_singleton] at member
      subst member
      exact .inl ⟨listed, by simp⟩
  · rintro (⟨listed, other⟩ | ⟨ledger, listed, member⟩)
    · cases event with
      | answer ledger => exact absurd rfl (other ledger)
      | cut | fault => exact ⟨_, listed, by simp [follow]⟩
    · exact ⟨_, listed, member⟩

structure Quiet (program : Program) (ledger : Ledger) : Prop where
  wellFormed : ledger.WellFormed
  fits : program.Fits ledger
  undelayed : ledger.delayed = []
  bodies : ∀ clause ∈ program.clauses, ∀ body, clause.body = some body →
    ledger.arena.Callable anywhere body

theorem Quiet.onward {ledger later : Ledger} (quiet : Quiet program ledger)
    (wellFormed : later.WellFormed) (grown : later.Extends ledger) (undelayed : later.delayed = []) :
    Quiet program later where
  wellFormed := wellFormed
  fits := quiet.fits.later grown
  undelayed := undelayed
  bodies clause listed body has := Ledger.callable_later grown (quiet.bodies clause listed body has)

theorem Quiet.register {ledger : Ledger} (quiet : Quiet program ledger) {goal : TermId}
    {symbol : Symbol} {args : List TermId}
    (shape : ledger.shape? goal = some (.compound symbol args)) (idle : goal ∉ ledger.calls)
    (choice : Option Choice) : Quiet program (ledger.register goal choice) :=
  quiet.onward (quiet.wellFormed.register choice shape idle) (ledger.register_extends goal choice)
    quiet.undelayed

end Resolvent
