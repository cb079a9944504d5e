import Resolvent.Proofs.Search.Adequacy
import Resolvent.Proofs.Search.Unfolding

namespace Resolvent

variable {program : Program} {limit : Nat} {solver : TermId → Ledger → List Emission}

inductive Choice.Before : Choice → Choice → Prop where
  | sides : Before .left .right
  | clauses {first second : Nat} (lower : first < second) : Before (.clause first) (.clause second)

theorem Choice.Before.ne {first second : Choice} (before : first.Before second) : first ≠ second := by
  cases before with
  | sides => simp
  | clauses lower => simpa using Nat.ne_of_lt lower

/-- Two paths agree up to a place where the first has the earlier choice. -/
def Ahead (first second : List Choice) : Prop :=
  ∃ common earlier later front back, first = common ++ earlier :: front ∧
    second = common ++ later :: back ∧ Choice.Before earlier later

theorem Ahead.onward {first second longer other : List Choice} (ahead : Ahead first second)
    (grown : first <+: longer) (grownToo : second <+: other) : Ahead longer other := by
  obtain ⟨common, earlier, later, front, back, rfl, rfl, before⟩ := ahead
  obtain ⟨rest, rfl⟩ := grown
  obtain ⟨more, rfl⟩ := grownToo
  exact ⟨common, earlier, later, front ++ rest, back ++ more, by simp, by simp, before⟩

theorem Ahead.lex {first second : List Choice} (ahead : Ahead first second) :
    List.Lex Choice.Before first second := by
  obtain ⟨common, earlier, later, front, back, rfl, rfl, before⟩ := ahead
  induction common with
  | nil => exact .rel before
  | cons choice common ih => exact .cons ih

theorem Ahead.differ {first second : List Choice} (ahead : Ahead first second) :
    ∃ (index : Nat) (earlier later : Choice), first[index]? = some earlier ∧
      second[index]? = some later ∧ earlier ≠ later := by
  obtain ⟨common, earlier, later, front, back, rfl, rfl, before⟩ := ahead
  exact ⟨common.length, earlier, later, by simp, by simp, before.ne⟩

theorem Ahead.ne {first second : List Choice} (ahead : Ahead first second) : first ≠ second := by
  rintro rfl
  obtain ⟨index, earlier, later, found, also, different⟩ := ahead.differ
  exact different (Option.some.inj (found.symm.trans also))

def InOrder (answers : List Ledger) : Prop :=
  answers.Pairwise fun first second => Ahead first.path second.path

/-- What follows the earlier of two choices is ahead of what follows the later one. -/
theorem ahead_register {ledger first second : Ledger} {goal : TermId} {earlier later : Choice}
    (before : earlier.Before later)
    (grown : first.Extends (ledger.register goal (some earlier)))
    (grownToo : second.Extends (ledger.register goal (some later))) :
    Ahead first.path second.path :=
  Ahead.onward ⟨ledger.path, earlier, later, [], [], rfl, rfl, before⟩ grown.path grownToo.path

structure Rises (ledger : Ledger) (events : List Emission) : Prop where
  grows : ∀ later, .answer later ∈ events → later.WellFormed ∧ later.Extends ledger
  inOrder : InOrder (answersOf events)

theorem Rises.earlier {ledger base : Ledger} {events : List Emission} (rises : Rises ledger events)
    (grown : ledger.Extends base) : Rises base events where
  grows later member := ⟨(rises.grows later member).1, (rises.grows later member).2.trans grown⟩
  inOrder := rises.inOrder

theorem rises_unanswered {ledger : Ledger} {events : List Emission}
    (none : ∀ later, .answer later ∉ events) : Rises ledger events where
  grows later member := absurd member (none later)
  inOrder := by
    have empty : answersOf events = [] :=
      List.eq_nil_iff_forall_not_mem.mpr fun later member => none later (mem_answersOf.mp member)
    rw [empty]
    exact .nil

theorem rises_single {ledger answer : Ledger} (wellFormed : answer.WellFormed)
    (grown : answer.Extends ledger) : Rises ledger [.answer answer] where
  grows later member := by
    obtain rfl : later = answer := by simpa using member
    exact ⟨wellFormed, grown⟩
  inOrder := List.pairwise_singleton _ _

theorem Rises.append {ledger : Ledger} {events others : List Emission} (first : Rises ledger events)
    (second : Rises ledger others)
    (ahead : ∀ left right, .answer left ∈ events → .answer right ∈ others →
      Ahead left.path right.path) : Rises ledger (events ++ others) where
  grows later member := (List.mem_append.mp member).elim (first.grows later) (second.grows later)
  inOrder := by
    rw [answersOf_append]
    refine List.pairwise_append.mpr ⟨first.inOrder, second.inOrder, ?_⟩
    exact fun left before right after =>
      ahead left right (mem_answersOf.mp before) (mem_answersOf.mp after)

/-- Goals that are called on well-formed stacks answer on stacks that go on from these, in the order
    of their paths. -/
def Ordered (program : Program) (solver : TermId → Ledger → List Emission) : Prop :=
  ∀ {goal : TermId} {ledger : Ledger}, ledger.WellFormed → program.Fits ledger →
    ledger.Live goal → Rises ledger (solver goal ledger)

def Continues (base : Ledger)
    (second : Renaming → Ledger → Except Fault (TermId × Renaming × Ledger)) : Prop :=
  ∀ {names : Renaming} {ledger : Ledger} {goal : TermId} {named : Renaming} {later : Ledger},
    ledger.WellFormed → ledger.Extends base → second names ledger = .ok (goal, named, later) →
    later.WellFormed ∧ later.Extends ledger ∧ later.Live goal

theorem rightGoal_continues {base : Ledger} {right : TermId} (live : base.Live right) :
    Continues base (rightGoal right) := by
  rintro names ledger goal named later wellFormed grown ⟨⟩
  exact ⟨wellFormed, .refl ledger, grown.live live⟩

/-- A body is copied with any names, also with such as are no longer names of its own. -/
theorem bodyGoal_continues {base : Ledger} {body : TermId} (live : base.Live body) :
    Continues base (bodyGoal body) := by
  intro names ledger goal named later wellFormed grown got
  obtain ⟨copied, copyLive, -⟩ := bodyGoal_ok got wellFormed (grown.live live)
  have onward := copied.grows wellFormed
  exact ⟨onward.wellFormed, onward.extends, copyLive⟩

theorem mem_chain {second : Renaming → Ledger → Except Fault (TermId × Renaming × Ledger)}
    {events : List Emission} {names : Renaming} {later : Ledger}
    (member : .answer later ∈ chain second solver names events) :
    ∃ middle known goal named start, .answer middle ∈ events ∧
      second known middle = .ok (goal, named, start) ∧ .answer later ∈ solver goal start := by
  induction events generalizing names with
  | nil => cases member
  | cons event rest ih =>
    have onward {known : Renaming} (inside : .answer later ∈ chain second solver known rest) :
        ∃ middle known goal named start, .answer middle ∈ event :: rest ∧
          second known middle = .ok (goal, named, start) ∧ .answer later ∈ solver goal start := by
      obtain ⟨middle, known, goal, named, start, listed, found⟩ := ih inside
      exact ⟨middle, known, goal, named, start, List.mem_cons_of_mem _ listed, found⟩
    cases event with
    | cut => exact onward (by simpa [chain] using member)
    | fault reason => simp [chain] at member
    | answer middle =>
      rw [chain] at member
      cases started : second names middle with
      | error reason => simp [started] at member
      | ok result =>
        obtain ⟨goal, named, start⟩ := result
        simp only [started, List.mem_append] at member
        rcases member with inside | inside
        · exact ⟨middle, names, goal, named, start, by simp, started, inside⟩
        · exact onward inside

/-- Answers that follow an earlier answer are ahead of those that follow a later one. -/
theorem Rises.chain {base : Ledger} {events : List Emission}
    {second : Renaming → Ledger → Except Fault (TermId × Renaming × Ledger)}
    (rises : Rises base events) (ordered : Ordered program solver) (fits : program.Fits base)
    (continues : Continues base second) (names : Renaming) :
    Rises base (chain second solver names events) := by
  have follows {middle start : Ledger} {known named : Renaming} {goal : TermId}
      (listed : .answer middle ∈ events) (started : second known middle = .ok (goal, named, start)) :
      Rises middle (solver goal start) := by
    obtain ⟨wellFormed, reached⟩ := rises.grows middle listed
    obtain ⟨startFormed, onward, live⟩ := continues wellFormed reached started
    exact (ordered startFormed (fits.later (onward.trans reached)) live).earlier onward
  induction events generalizing names with
  | nil => exact rises_unanswered (by simp [Resolvent.chain])
  | cons event rest ih =>
    have tail : Rises base rest :=
      { grows := fun later member => rises.grows later (List.mem_cons_of_mem _ member)
        inOrder := by
          have whole := rises.inOrder
          rw [← List.singleton_append, answersOf_append] at whole
          exact (List.pairwise_append.mp whole).2.1 }
    have others (known : Renaming) := ih tail known fun listed =>
      follows (List.mem_cons_of_mem _ listed)
    cases event with
    | cut => exact ⟨fun later member => (others names).grows later (by simpa [Resolvent.chain] using member),
        (others names).inOrder⟩
    | fault reason => exact rises_unanswered (by simp [Resolvent.chain])
    | answer middle =>
      rw [Resolvent.chain]
      cases started : second names middle with
      | error reason => exact rises_unanswered (by simp)
      | ok result =>
        obtain ⟨goal, named, start⟩ := result
        have here := follows (by simp) started
        refine (here.earlier (rises.grows middle (by simp)).2).append (others named) ?_
        intro left right before after
        obtain ⟨origin, known, called, _, begun, listed, startedToo, inside⟩ := mem_chain after
        have apart := (List.pairwise_cons.mp rises.inOrder).1 origin (mem_answersOf.mpr listed)
        have further := follows (List.mem_cons_of_mem _ listed) startedToo
        exact apart.onward (here.grows left before).2.path (further.grows right inside).2.path

section

variable {ledger : Ledger} {goal : TermId} {symbol : Symbol} {args : List TermId}

theorem Rises.negate (wellFormed : ledger.WellFormed) (events : List Emission) :
    Rises ledger (negate ledger false events) where
  grows later member := by
    obtain ⟨rfl, -, -⟩ := negate_answer member
    exact ⟨wellFormed, .refl later⟩
  inOrder := by
    have one := @negate_single ledger false events
    match listed : answersOf (Resolvent.negate ledger false events), one with
    | [], _ => exact .nil
    | [answer], _ => exact List.pairwise_singleton _ _

theorem attempt_rises (ordered : Ordered program solver) (wellFormed : ledger.WellFormed)
    (fits : program.Fits ledger) (shape : ledger.shape? goal = some (.compound symbol args))
    (idle : goal ∉ ledger.calls) {candidate : Clause × Nat} {arity : Nat}
    (listed : candidate ∈ program.candidates 0 symbol arity) :
    Rises (ledger.register goal (some (.clause candidate.2)))
      (attempt solver goal ledger candidate) := by
  obtain ⟨-, held, -⟩ := mem_candidates.mp listed
  have registered := wellFormed.register (some (.clause candidate.2)) shape idle
  have grown := ledger.register_extends goal (some (.clause candidate.2))
  obtain ⟨equation, names, later, got, matched, -⟩ := Ledger.matchHead_spec registered
    (grown.live (Ledger.live_of_shape shape)) (grown.live (fits.headLive held))
  have onward := matched.grows registered
  have fitsLater := fits.later (onward.extends.trans grown)
  obtain ⟨copy, equationShape⟩ := matched.equation
  have head := ordered onward.wellFormed fitsLater (Ledger.live_of_shape equationShape)
  simp only [attempt, got]
  cases has : candidate.1.body with
  | none => exact head.earlier onward.extends
  | some body =>
    exact (head.chain ordered fitsLater (bodyGoal_continues (fitsLater.body held has)) names).earlier
      onward.extends

theorem candidates_before (program : Program) (start : Nat) (symbol : Symbol) (arity : Nat) :
    (program.candidates start symbol arity).Pairwise fun first second =>
      (Choice.clause first.2).Before (.clause second.2) := by
  have places : (((program.clauses.toList.drop start).zipIdx start).map Prod.snd).Pairwise
      (· < ·) := by
    rw [List.zipIdx_map_snd]
    exact List.pairwise_lt_range'
  exact ((List.pairwise_map.mp places).filter _).imp fun lower => .clauses lower

theorem candidates_rise (ordered : Ordered program solver) (wellFormed : ledger.WellFormed)
    (fits : program.Fits ledger) (shape : ledger.shape? goal = some (.compound symbol args))
    (idle : goal ∉ ledger.calls) (arity : Nat) :
    Rises ledger ((program.candidates 0 symbol arity).flatMap (attempt solver goal ledger)) := by
  have each : ∀ candidate ∈ program.candidates 0 symbol arity,
      Rises (ledger.register goal (some (.clause candidate.2)))
        (attempt solver goal ledger candidate) :=
    fun candidate listed => attempt_rises ordered wellFormed fits shape idle listed
  have before := candidates_before program 0 symbol arity
  generalize program.candidates 0 symbol arity = candidates at each before
  induction candidates with
  | nil => exact rises_unanswered (by simp)
  | cons candidate rest ih =>
    obtain ⟨first, others⟩ := List.pairwise_cons.mp before
    rw [List.flatMap_cons]
    have here := each candidate (by simp)
    have tail := ih (List.forall_mem_cons.mp each).2 others
    refine (here.earlier (ledger.register_extends goal _)).append tail ?_
    intro left right now after
    obtain ⟨other, listed, inside⟩ := List.mem_flatMap.mp after
    exact ahead_register (first other listed) (here.grows left now).2
      ((each other (List.mem_cons_of_mem _ listed)).grows right inside).2

theorem builtin_rises (ordered : Ordered program solver) (wellFormed : ledger.WellFormed)
    (fits : program.Fits ledger) (shape : ledger.shape? goal = some (.compound symbol args))
    (idle : goal ∉ ledger.calls) {left right : TermId} (leftLive : ledger.Live left)
    (rightLive : ledger.Live right) (builtin : Builtin) (arity : Nat) :
    Rises ledger
      (solveForm program solver goal symbol arity ledger (.builtin builtin left right)) := by
  have registered := wellFormed.register none shape idle
  have grown := ledger.register_extends goal none
  obtain ⟨reply, later, got, performs, -⟩ :=
    Ledger.perform_spec registered (grown.live leftLive) (grown.live rightLive) builtin
  have advances := performs.advances registered (grown.live leftLive) (grown.live rightLive)
  have whole := advances.grown.trans grown
  rw [solveForm, got]
  cases reply with
  | fails => exact rises_unanswered (by simp)
  | answers => exact rises_single advances.wellFormed whole
  | delegates next =>
    exact (ordered advances.wellFormed (fits.later whole) performs.delegated).earlier whole

theorem solveForm_rises (ordered : Ordered program solver) (wellFormed : ledger.WellFormed)
    (fits : program.Fits ledger) {cell : Compound}
    (shape : ledger.shape? goal = some (.compound cell.symbol cell.args))
    (idle : goal ∉ ledger.calls) :
    Rises ledger
      (solveForm program solver goal cell.symbol cell.args.length ledger cell.form) := by
  have live : ∀ id ∈ cell.form.operands, ledger.Live id := fun id member =>
    wellFormed.live_args shape id (operands_args cell id member)
  have opens (choice : Option Choice) {called : TermId} (calledLive : ledger.Live called) :
      Rises (ledger.register goal choice) (solver called (ledger.register goal choice)) :=
    ordered (wellFormed.register choice shape idle)
      (fits.later (ledger.register_extends goal choice))
      ((ledger.register_extends goal choice).live calledLive)
  cases form : cell.form with
  | negation inner =>
    exact (Rises.negate (wellFormed.register none shape idle) _).earlier
      (ledger.register_extends goal none)
  | conjunction left right =>
    rw [form] at live
    have grown := ledger.register_extends goal none
    have second : Continues (ledger.register goal none) (rightGoal right) :=
      rightGoal_continues (grown.live (live right (by simp [Form.operands])))
    exact ((opens none (live left (by simp [Form.operands]))).chain ordered (fits.later grown) second
      []).earlier grown
  | disjunction left right =>
    rw [form] at live
    have first := opens (some .left) (live left (by simp [Form.operands]))
    have second := opens (some .right) (live right (by simp [Form.operands]))
    refine (first.earlier (ledger.register_extends goal _)).append
      (second.earlier (ledger.register_extends goal _)) ?_
    exact fun before after now then_ =>
      ahead_register .sides (first.grows before now).2 (second.grows after then_).2
  | builtin builtin left right =>
    rw [form] at live
    exact builtin_rises ordered wellFormed fits shape idle (live left (by simp [Form.operands]))
      (live right (by simp [Form.operands])) builtin _
  | predicate => exact candidates_rise ordered wellFormed fits shape idle _

end

/-- Every goal answers in the order of the choices that derive its answers. -/
theorem solve_ordered (program : Program) (limit level : Nat) :
    Ordered program (solve program limit level) := by
  induction level with
  | zero => exact fun _ _ _ => rises_unanswered (by simp [solve])
  | succ level ih =>
    intro goal ledger wellFormed fits live
    have holds : Rises ledger [.answer ledger] := rises_single wellFormed (.refl ledger)
    have reached := wellFormed.live_deref live
    rw [solve]
    cases node : ledger.arena.node (ledger.arena.deref goal) with
    | number value => exact holds
    | var cell =>
      simp only
      split
      · exact holds
      · next undelayed =>
        have isVar := Ledger.shape_of_var reached node
        have fresh : ledger.arena.deref goal ∉ ledger.delayed := fun member =>
          undelayed (Ledger.isDelayed_of_mem reached isVar member)
        exact rises_single (wellFormed.delay isVar fresh) (ledger.delay_extends _)
    | compound cell =>
      obtain ⟨shape, active⟩ := Ledger.shape_of_compound node
      simp only
      split
      · exact holds
      · next inactive =>
        split
        · exact rises_unanswered (by simp)
        · exact solveForm_rises ih wellFormed fits shape (by simpa [active] using inactive)

end Resolvent
