import Resolvent.Proofs.Search.Order
import Resolvent.Proofs.Search.Pass

namespace Resolvent

variable {program : Program} {limit : Nat}

structure Called (program : Program) (goal : TermId) (ledger : Ledger) : Prop where
  wellFormed : ledger.WellFormed
  fits : program.Fits ledger
  live : ledger.Live goal

structure Opened (program : Program) (goal : TermId) (ledger : Ledger) (symbol : Symbol)
    (args : List TermId) : Prop extends Called program goal ledger where
  shape : ledger.shape? (ledger.arena.deref goal) = some (.compound symbol args)
  idle : ledger.arena.deref goal ∉ ledger.calls

def Ledger.enter (ledger : Ledger) (goal : TermId) (choice : Option Choice) : Ledger :=
  ledger.register (ledger.arena.deref goal) choice

/-- A goal called on some stacks has an answer with others. -/
inductive Derives (program : Program) : TermId → Ledger → Ledger → Prop where
  | number {goal : TermId} {ledger : Ledger} {value : Rational} (called : Called program goal ledger)
      (shape : ledger.shape? (ledger.arena.deref goal) = some (.number value)) :
      Derives program goal ledger ledger
  | waits {goal : TermId} {ledger : Ledger} (called : Called program goal ledger)
      (isVar : ledger.shape? (ledger.arena.deref goal) = some .var)
      (delayed : ledger.arena.isDelayed (ledger.arena.deref goal) = true) :
      Derives program goal ledger ledger
  | delays {goal : TermId} {ledger : Ledger} (called : Called program goal ledger)
      (isVar : ledger.shape? (ledger.arena.deref goal) = some .var)
      (fresh : ledger.arena.deref goal ∉ ledger.delayed) :
      Derives program goal ledger (ledger.delay (ledger.arena.deref goal))
  | active {goal : TermId} {ledger : Ledger} {symbol : Symbol} {args : List TermId}
      (called : Called program goal ledger)
      (shape : ledger.shape? (ledger.arena.deref goal) = some (.compound symbol args))
      (active : ledger.arena.deref goal ∈ ledger.calls) : Derives program goal ledger ledger
  | negation {goal inner : TermId} {ledger : Ledger} {symbol : Symbol} {args : List TermId}
      (opened : Opened program goal ledger symbol args)
      (form : formOf symbol args = .negation inner) :
      Derives program goal ledger (ledger.enter goal none)
  | conjunction {goal left right : TermId} {ledger middle last : Ledger} {symbol : Symbol}
      {args : List TermId} (opened : Opened program goal ledger symbol args)
      (form : formOf symbol args = .conjunction left right)
      (first : Derives program left (ledger.enter goal none) middle)
      (second : Derives program right middle last) : Derives program goal ledger last
  | disjunction {goal left right branch : TermId} {choice : Choice} {ledger last : Ledger}
      {symbol : Symbol} {args : List TermId} (opened : Opened program goal ledger symbol args)
      (form : formOf symbol args = .disjunction left right)
      (side : branch = left ∧ choice = .left ∨ branch = right ∧ choice = .right)
      (inner : Derives program branch (ledger.enter goal (some choice)) last) :
      Derives program goal ledger last
  | answers {goal left right : TermId} {builtin : Builtin} {ledger last : Ledger} {symbol : Symbol}
      {args : List TermId} (opened : Opened program goal ledger symbol args)
      (form : formOf symbol args = .builtin builtin left right)
      (performs : (ledger.enter goal none).Performs left right builtin .answers last) :
      Derives program goal ledger last
  | delegates {goal left right next : TermId} {builtin : Builtin} {ledger middle last : Ledger}
      {symbol : Symbol} {args : List TermId} (opened : Opened program goal ledger symbol args)
      (form : formOf symbol args = .builtin builtin left right)
      (performs : (ledger.enter goal none).Performs left right builtin (.delegates next) middle)
      (inner : Derives program next middle last) : Derives program goal ledger last
  | fact {goal equation : TermId} {clause : Clause} {index : Nat} {names : Renaming}
      {ledger middle last : Ledger} {symbol : Symbol} {args : List TermId}
      (opened : Opened program goal ledger symbol args) (form : formOf symbol args = .predicate)
      (held : program.clauses[index]? = some clause) (bodiless : clause.body = none)
      (matched : (ledger.enter goal (some (.clause index))).Matches (ledger.arena.deref goal)
        clause.head equation names middle)
      (head : Derives program equation middle last) : Derives program goal ledger last
  | rule {goal equation body copy : TermId} {clause : Clause} {index : Nat}
      {names known named : Renaming} {ledger middle later start last : Ledger} {symbol : Symbol}
      {args : List TermId} (opened : Opened program goal ledger symbol args)
      (form : formOf symbol args = .predicate)
      (held : program.clauses[index]? = some clause) (has : clause.body = some body)
      (matched : (ledger.enter goal (some (.clause index))).Matches (ledger.arena.deref goal)
        clause.head equation names middle)
      (head : Derives program equation middle later)
      (copied : Ledger.Instantiates later known [body] [copy] start named)
      (inner : Derives program copy start last) : Derives program goal ledger last

section

variable {goal : TermId} {ledger last : Ledger} {symbol : Symbol} {args : List TermId}

theorem Opened.enter (opened : Opened program goal ledger symbol args) (choice : Option Choice) :
    (ledger.enter goal choice).WellFormed ∧ (ledger.enter goal choice).Extends ledger :=
  ⟨opened.wellFormed.register choice opened.shape opened.idle, ledger.register_extends _ _⟩

theorem Derives.called (derives : Derives program goal ledger last) : Called program goal ledger := by
  cases derives with
  | number called | waits called | delays called | active called => exact called
  | negation opened | conjunction opened | disjunction opened | answers opened | delegates opened
  | fact opened | rule opened => exact opened.toCalled

theorem Opened.sides (opened : Opened program goal ledger symbol args) {builtin : Builtin}
    {left right : TermId} (form : formOf symbol args = .builtin builtin left right)
    (choice : Option Choice) :
    (ledger.enter goal choice).Live left ∧ (ledger.enter goal choice).Live right := by
  have grown := (opened.enter choice).2
  exact (opened.wellFormed.live_sides opened.shape form).imp grown.live grown.live

theorem Derives.grows (derives : Derives program goal ledger last) :
    last.WellFormed ∧ last.Extends ledger := by
  induction derives with
  | number called | waits called | active called => exact ⟨called.wellFormed, .refl _⟩
  | delays called isVar fresh =>
    exact ⟨called.wellFormed.delay isVar fresh, Ledger.delay_extends _ _⟩
  | negation opened => exact opened.enter _
  | conjunction opened _ _ _ firstIh secondIh =>
    exact ⟨secondIh.1, secondIh.2.trans (firstIh.2.trans (opened.enter _).2)⟩
  | disjunction opened _ _ _ ih => exact ⟨ih.1, ih.2.trans (opened.enter _).2⟩
  | answers opened form performs =>
    have sides := opened.sides form none
    have advances := performs.advances (opened.enter _).1 sides.1 sides.2
    exact ⟨advances.wellFormed, advances.grown.trans (opened.enter _).2⟩
  | delegates opened form performs _ ih =>
    have sides := opened.sides form none
    have advances := performs.advances (opened.enter _).1 sides.1 sides.2
    exact ⟨ih.1, ih.2.trans (advances.grown.trans (opened.enter _).2)⟩
  | fact opened _ _ _ matched _ ih =>
    have grown := matched.grows (opened.enter _).1
    exact ⟨ih.1, ih.2.trans (grown.extends.trans (opened.enter _).2)⟩
  | rule opened _ _ _ matched _ copied _ headIh ih =>
    have grown := matched.grows (opened.enter _).1
    have onward := copied.grows headIh.1
    exact ⟨ih.1, ih.2.trans
      (onward.extends.trans (headIh.2.trans (grown.extends.trans (opened.enter _).2)))⟩

end

theorem attempt_derives {solver : TermId → Ledger → List Emission} {goal : TermId}
    {ledger last : Ledger} {symbol : Symbol} {args : List TermId} {clause : Clause} {index : Nat}
    (solved : ∀ {goal ledger last}, Called program goal ledger → .answer last ∈ solver goal ledger →
      Derives program goal ledger last)
    (opened : Opened program goal ledger symbol args) (form : formOf symbol args = .predicate)
    (held : program.clauses[index]? = some clause)
    (member : .answer last ∈ attempt solver (ledger.arena.deref goal) ledger (clause, index)) :
    Derives program goal ledger last := by
  obtain ⟨entered, grown⟩ := opened.enter (some (.clause index))
  have fits := opened.fits.later grown
  obtain ⟨equation, names, middle, got, matched, -⟩ := Ledger.matchHead_spec entered
    (grown.live (Ledger.live_of_shape opened.shape)) (fits.headLive held)
  have onward := matched.grows entered
  obtain ⟨copy, equationShape⟩ := matched.equation
  have called : Called program equation middle :=
    ⟨onward.wellFormed, fits.later onward.extends, Ledger.live_of_shape equationShape⟩
  rw [attempt, show ledger.register (ledger.arena.deref goal) (some (.clause index)) =
    ledger.enter goal (some (.clause index)) from rfl, got] at member
  cases has : clause.body with
  | none =>
    simp only [has] at member
    exact .fact opened form held has matched (solved called member)
  | some body =>
    simp only [has] at member
    obtain ⟨later, known, copy, named, start, answered, started, inside⟩ := mem_chain member
    have head := solved called answered
    obtain ⟨laterFormed, reached⟩ := head.grows
    have laterFits := called.fits.later reached
    obtain ⟨copied, copyLive, -⟩ := bodyGoal_ok started laterFormed (laterFits.body held has)
    have further := copied.grows laterFormed
    exact .rule opened form held has matched head copied
      (solved ⟨further.wellFormed, laterFits.later further.extends, copyLive⟩ inside)

theorem solveForm_derives {solver : TermId → Ledger → List Emission} {goal : TermId}
    {ledger last : Ledger} {symbol : Symbol} {args : List TermId}
    (solved : ∀ {goal ledger last}, Called program goal ledger → .answer last ∈ solver goal ledger →
      Derives program goal ledger last)
    (opened : Opened program goal ledger symbol args)
    (member : .answer last ∈ solveForm program solver (ledger.arena.deref goal) symbol args.length
      ledger (formOf symbol args)) : Derives program goal ledger last := by
  have argsLive := opened.wellFormed.live_args opened.shape
  -- Each part of the goal is called once the goal was put on the call stack.
  have inner (choice : Option Choice) {called : TermId} (listed : called ∈ args) :
      Called program called (ledger.enter goal choice) := by
    obtain ⟨entered, grown⟩ := opened.enter choice
    exact ⟨entered, opened.fits.later grown, grown.live (argsLive called listed)⟩
  cases form : formOf symbol args with
  | negation other =>
    rw [form, solveForm] at member
    obtain ⟨rfl, -, -⟩ := negate_answer member
    exact .negation opened form
  | conjunction left right =>
    rw [form, solveForm] at member
    obtain ⟨rfl, rfl⟩ := form_conjunction form
    obtain ⟨middle, known, next, named, start, answered, started, inside⟩ := mem_chain member
    cases started
    have first := solved (inner none (by simp)) answered
    obtain ⟨middleFormed, reached⟩ := first.grows
    have called : Called program right (ledger.enter goal none) := inner none (by simp)
    exact .conjunction opened form first
      (solved ⟨middleFormed, called.fits.later reached, reached.live called.live⟩ inside)
  | disjunction left right =>
    rw [form, solveForm, List.mem_append] at member
    obtain ⟨rfl, rfl⟩ := form_disjunction form
    rcases member with inside | inside
    · exact .disjunction opened form (.inl ⟨rfl, rfl⟩) (solved (inner _ (by simp)) inside)
    · exact .disjunction opened form (.inr ⟨rfl, rfl⟩) (solved (inner _ (by simp)) inside)
  | builtin builtin left right =>
    obtain ⟨entered, grown⟩ := opened.enter none
    have sides := opened.sides form none
    obtain ⟨reply, later, got, performs, -⟩ := Ledger.perform_spec entered sides.1 sides.2 builtin
    rw [form, solveForm, show ledger.register (ledger.arena.deref goal) none =
      ledger.enter goal none from rfl, got] at member
    cases reply with
    | fails => cases member
    | answers =>
      obtain rfl : last = later := by simpa using member
      exact .answers opened form performs
    | delegates next =>
      have advances := performs.advances entered sides.1 sides.2
      exact .delegates opened form performs (solved
        ⟨advances.wellFormed, opened.fits.later (advances.grown.trans grown), performs.delegated⟩
        member)
  | predicate =>
    rw [form, solveForm] at member
    obtain ⟨⟨clause, index⟩, listed, inside⟩ := List.mem_flatMap.mp member
    exact attempt_derives solved opened form (mem_candidates.mp listed).2.1 inside

theorem solve_derives (program : Program) (limit level : Nat) {goal : TermId} {ledger last : Ledger}
    (called : Called program goal ledger)
    (member : .answer last ∈ solve program limit level goal ledger) :
    Derives program goal ledger last := by
  induction level generalizing goal ledger last with
  | zero => simp [solve] at member
  | succ level ih =>
    have reached := called.wellFormed.live_deref called.live
    rw [solve] at member
    cases node : ledger.arena.node (ledger.arena.deref goal) with
    | number value =>
      obtain rfl : last = ledger := by simpa [node] using member
      exact .number called (Ledger.shape_of_number node)
    | var cell =>
      have isVar := Ledger.shape_of_var reached node
      simp only [node] at member
      split at member
      · next delayed =>
        obtain rfl : last = ledger := by simpa using member
        exact .waits called isVar delayed
      · next undelayed =>
        obtain rfl : last = ledger.delay (ledger.arena.deref goal) := by simpa using member
        exact .delays called isVar fun listed =>
          undelayed (Ledger.isDelayed_of_mem reached isVar listed)
    | compound cell =>
      obtain ⟨shape, active⟩ := Ledger.shape_of_compound node
      simp only [node] at member
      split at member
      · next isActive =>
        obtain rfl : last = ledger := by simpa using member
        exact .active called shape (by simpa [active] using isActive)
      · next inactive =>
        split at member
        · simp at member
        · exact solveForm_derives ih ⟨called, shape, by simpa [active] using inactive⟩ member

theorem Search.Yields.derives {base : Ledger} {counters : Counters} {goal : TermId} {answer : State}
    (called : Called program goal base)
    (yields : (Search.start goal limit).Yields program (base.state counters) answer) :
    ∃ last, Derives program goal base last ∧ Holds answer last := by
  obtain ⟨last, member, holds⟩ :=
    (stands_start called.wellFormed called.fits called.live limit counters).yields yields
  exact ⟨last, solve_derives program limit (limit + 1) called member, holds⟩

end Resolvent
