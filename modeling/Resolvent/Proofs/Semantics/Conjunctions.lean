import Resolvent.Proofs.Search.Unfolding
import Resolvent.Proofs.Semantics.Confluence
import Resolvent.Proofs.Semantics.Fragment
import Resolvent.Proofs.Semantics.Refutation
import Resolvent.Proofs.Semantics.Upheld

namespace Resolvent

structure Literal where
  builtin : Builtin
  left : TermId
  right : TermId
  deriving DecidableEq, Repr

def Literal.At (literal : Literal) (arena : Arena) (goal : TermId) : Prop :=
  ∃ cell, arena.compound? goal = some cell ∧
    cell.form = .builtin literal.builtin literal.left literal.right

inductive Arena.Conjoined (arena : Arena) : TermId → List Literal → Prop where
  | single {goal : TermId} {literal : Literal} (here : literal.At arena goal) :
      Conjoined arena goal [literal]
  | both {goal left right : TermId} {cell : Compound} {lefts rights : List Literal}
      (held : arena.compound? goal = some cell) (form : cell.form = .conjunction left right)
      (first : Conjoined arena left lefts) (second : Conjoined arena right rights) :
      Conjoined arena goal (lefts ++ rights)

theorem Arena.Conjoined.unique {arena : Arena} {goal : TermId} {literals others : List Literal}
    (conjoined : arena.Conjoined goal literals) (also : arena.Conjoined goal others) :
    literals = others := by
  induction conjoined generalizing others with
  | @single goal literal here =>
    obtain ⟨cell, held, form⟩ := here
    cases also with
    | @single _ other here =>
      obtain ⟨cell, alsoHeld, alsoForm⟩ := here
      cases held.symm.trans alsoHeld
      have same := form.symm.trans alsoForm
      cases literal
      cases other
      simp_all
    | both alsoHeld alsoForm =>
      cases held.symm.trans alsoHeld
      cases form.symm.trans alsoForm
  | both held form _ _ firstIh secondIh =>
    cases also with
    | single here =>
      obtain ⟨cell, alsoHeld, alsoForm⟩ := here
      cases held.symm.trans alsoHeld
      cases form.symm.trans alsoForm
    | both alsoHeld alsoForm first second =>
      cases held.symm.trans alsoHeld
      cases form.symm.trans alsoForm
      rw [firstIh first, secondIh second]

def Arena.literalsWithin (arena : Arena) : Nat → TermId → Option (List Literal)
  | 0, _ => none
  | fuel + 1, goal => do
    let cell ← arena.compound? goal
    match cell.form with
    | .builtin builtin left right => some [⟨builtin, left, right⟩]
    | .conjunction left right =>
      return (← arena.literalsWithin fuel left) ++ (← arena.literalsWithin fuel right)
    | _ => none

theorem Arena.conjoined_of_within {arena : Arena} (fuel : Nat) {goal : TermId} {literals : List Literal}
    (read : arena.literalsWithin fuel goal = some literals) : arena.Conjoined goal literals := by
  induction fuel generalizing goal literals with
  | zero => cases read
  | succ fuel ih =>
    obtain ⟨cell, held, read⟩ := Option.bind_eq_some_iff.mp read
    split at read
    · next form =>
      cases read
      exact .single ⟨cell, held, form⟩
    · next form =>
      obtain ⟨lefts, first, read⟩ := Option.bind_eq_some_iff.mp read
      obtain ⟨rights, second, read⟩ := Option.bind_eq_some_iff.mp read
      cases read
      exact .both held form (ih first) (ih second)
    · cases read

theorem Arena.Conjoined.live {base : Ledger} (wellFormed : base.WellFormed) {goal : TermId}
    {literals : List Literal} (conjoined : base.arena.Conjoined goal literals) :
    ∀ literal ∈ literals, base.LivePair (literal.left, literal.right) := by
  induction conjoined with
  | @single goal literal here =>
    obtain ⟨⟨symbol, args, active⟩, held, form⟩ := here
    have form : formOf symbol args = .builtin literal.builtin literal.left literal.right := form
    exact List.forall_mem_singleton.mpr
      (wellFormed.live_sides (Ledger.shape_of_compound? held) form)
  | both _ _ _ _ firstIh secondIh =>
    intro literal member
    exact (List.mem_append.mp member).elim (firstIh literal) (secondIh literal)

def Meets (ρ : TermId → Tree) (base : Ledger) (done : List Literal) : Prop :=
  Models ρ base ∧ ∀ literal ∈ done, literal.builtin = .equality → ρ literal.left = ρ literal.right

theorem Meets.subset {ρ : TermId → Tree} {base : Ledger} {done others : List Literal}
    (meets : Meets ρ base others) (subset : done ⊆ others) : Meets ρ base done :=
  ⟨meets.1, fun literal member => meets.2 literal (subset member)⟩

theorem Arena.Plain.later {base later : Ledger} {id : TermId} (plain : base.arena.Plain id)
    (wellFormed : base.WellFormed) (grown : later.Extends base) (live : base.Live id) :
    later.arena.Plain id := by
  induction plain with
  | number held => exact .number (Ledger.node_number (grown.shape (Ledger.shape_of_number held)))
  | var held => exact .var (Ledger.node_var (grown.shape (Ledger.shape_of_var live held)))
  | compound held plain _ ih =>
    have shape := (Ledger.shape_of_compound held).1
    exact .compound (Ledger.node_compound (grown.shape shape)) plain fun arg member =>
      ih arg member (wellFormed.live_args shape arg member)

namespace Ledger

variable {base ledger later : Ledger} {done others : List Literal}

theorem Acyclic.vars_among (acyclic : ledger.Acyclic) (wellFormed : ledger.WellFormed)
    {among : TermId → Prop} {id : TermId} (live : ledger.Live id) (confined : Confined among ledger)
    (inside : among id) : ∀ var ∈ (ledger.value id).vars, among var := by
  induction id, live using acyclic.induct wellFormed with
  | number id live value shape => simp [acyclic.value_number wellFormed live shape]
  | var id live shape =>
    rw [acyclic.value_var wellFormed live shape]
    simpa using confined.deref wellFormed inside
  | compound id live symbol args shape ih =>
    rw [acyclic.value_compound wellFormed live shape, Value.vars_compound]
    intro var member
    obtain ⟨value, listed, within⟩ := List.mem_flatMap.mp member
    obtain ⟨arg, argListed, rfl⟩ := List.mem_map.mp listed
    exact ih arg argListed (wellFormed.live_args shape arg argListed)
      (confined.args shape (confined.deref wellFormed inside) arg argListed) var within

structure Solved (base : Ledger) (done : List Literal) (ledger : Ledger) : Prop
    extends Oriented ledger where
  grown : ledger.Extends base
  plain : ∀ binding ∈ ledger.bindings, base.Live binding.2 ∧ base.arena.Plain binding.2
  sound : ∀ ρ, Models ρ ledger → Meets ρ base done
  complete : ∀ ρ, Meets ρ base done → ∃ τ, Models τ ledger ∧ ∀ id, base.Live id → τ id = ρ id

namespace Solved

theorem start (untouched : base.Untouched) (wellFormed : base.WellFormed) : Solved base [] base where
  wellFormed := wellFormed
  acyclic := (untouched.upheld wellFormed).acyclic
  falls := by
    rw [untouched]
    simp [Falls]
  grown := .refl base
  plain := by
    rw [untouched]
    simp
  sound ρ models := ⟨models, by simp⟩
  complete ρ meets := ⟨ρ, meets.1, fun _ _ => rfl⟩

theorem same (solution : Solved base done ledger)
    (iff : ∀ ρ, Meets ρ base others ↔ Meets ρ base done) : Solved base others ledger where
  toOriented := solution.toOriented
  grown := solution.grown
  plain := solution.plain
  sound ρ models := (iff ρ).mpr (solution.sound ρ models)
  complete ρ meets := solution.complete ρ ((iff ρ).mp meets)

theorem stays (solution : Solved base done ledger) (stays : later.Stays ledger) :
    Solved base done later where
  toOriented := solution.toOriented.stays stays
  grown := stays.extends.trans solution.grown
  plain := by
    rw [stays.bindings]
    exact solution.plain
  sound ρ models := solution.sound ρ (models.earlier stays.extends)
  complete ρ meets := by
    obtain ⟨τ, models, same⟩ := solution.complete ρ meets
    cases stays with
    | allocates grown =>
      obtain ⟨extended, more, old, -⟩ := models.extend solution.wellFormed grown τ
      exact ⟨extended, more, fun id live => (old id (solution.grown.live live)).trans (same id live)⟩
    | marks _ _ terms bindings => exact ⟨τ, models.marks terms bindings, same⟩

theorem unifies (solution : Solved base done ledger) {left right : TermId}
    (baseFormed : base.WellFormed) (live : base.LivePair (left, right))
    (plain : base.arena.Plain left ∧ base.arena.Plain right)
    (solves : Solves ledger.size ledger [(left, right)] (.ok later)) :
    Solved base (⟨.equality, left, right⟩ :: done) later := by
  have lives : ∀ pair ∈ [(left, right)], ledger.LivePair pair := by
    simpa using ⟨solution.grown.live live.1, solution.grown.live live.2⟩
  have binds : later.Binds ledger := solves.grows solution.wellFormed lives
  have models_iff (ρ : TermId → Tree) := solves.models_iff (ρ := ρ) solution.wellFormed
    (lives _ List.mem_cons_self)
  -- Only what was there and is plain is reached from the sides.
  have confined : Confined (fun id => base.Live id ∧ base.arena.Plain id) ledger := by
    refine ⟨fun {id symbol args} shape inside arg member => ?_, solution.plain⟩
    rw [solution.grown.shape_eq inside.1] at shape
    exact ⟨baseFormed.live_args shape arg member, (plain_args shape inside.2).2 arg member⟩
  refine ⟨solution.toOriented.solves solves lives, binds.extends.trans solution.grown,
    (solves.confined solution.wellFormed lives confined
      (by simpa using ⟨⟨live.1, plain.1⟩, live.2, plain.2⟩)).bound, fun ρ models => ?_,
    fun ρ meets => ?_⟩
  · obtain ⟨before, same⟩ := (models_iff ρ).mp models
    obtain ⟨models, each⟩ := solution.sound ρ before
    refine ⟨models, fun literal member equality => ?_⟩
    rcases List.mem_cons.mp member with rfl | old
    · exact same _ List.mem_cons_self
    · exact each literal old equality
  · obtain ⟨τ, models, same⟩ := solution.complete ρ (meets.subset (List.subset_cons_self _ _))
    refine ⟨τ, (models_iff τ).mpr ⟨models, ?_⟩, same⟩
    simpa [same left live.1, same right live.2] using meets.2 _ List.mem_cons_self rfl

theorem closed (solution : Solved base done ledger) (baseFormed : base.WellFormed) :
    ledger.Closed base := by
  have confined : Confined base.Live ledger :=
    ⟨fun shape live => baseFormed.live_args ((solution.grown.shape_eq live).symm.trans shape),
      fun binding member => (solution.plain binding member).1⟩
  exact fun id live => solution.acyclic.vars_among solution.wellFormed (solution.grown.live live)
    confined live

/-- Values become what they are in any other ledger that solves the equations. -/
theorem value_subst (solution : Solved base done ledger) (baseFormed : base.WellFormed)
    (laterFormed : later.WellFormed) (acyclic : later.Acyclic)
    (meets : ∀ ρ, Models ρ later → Meets ρ base done) {id : TermId} (live : base.Live id) :
    (ledger.value id).subst later.value = later.value id := by
  have covers : Covers ledger later base := fun ρ models => solution.complete ρ (meets ρ models)
  exact covers.value_subst solution.wellFormed laterFormed acyclic solution.grown
    (solution.closed baseFormed) live

theorem value_eq (solution : Solved base done ledger) (other : Solved base done later)
    (baseFormed : base.WellFormed) {id : TermId} (live : base.Live id) :
    ledger.value id = later.value id :=
  solution.toOriented.value_eq other.toOriented solution.grown other.grown
    (solution.closed baseFormed) (other.closed baseFormed)
    (fun ρ models => solution.complete ρ (other.sound ρ models))
    (fun ρ models => other.complete ρ (solution.sound ρ models)) live

/-- Terms without arithmetic are not taken for expressions with operators. -/
theorem not_arithmetic (solution : Solved base done ledger) {left right : TermId}
    (baseFormed : base.WellFormed) (live : base.LivePair (left, right))
    (plain : base.arena.Plain left ∧ base.arena.Plain right) : ¬ ledger.Arithmetic left right := by
  have onward {id : TermId} (live : base.Live id) (plain : base.arena.Plain id) : ledger.Usable id :=
    .inr (plain.later baseFormed solution.grown live)
  exact (tame_self fun binding member => onward (solution.plain binding member).1
      (solution.plain binding member).2).not_arithmetic solution.wellFormed (onward live.1 plain.1)
    (onward live.2 plain.2)

end Solved

/-- Whatever solves the equations among some goals violates a relation of two terms. -/
def Refutes (base : Ledger) (relation : Relation) (guard : Literal) (goals : List Literal) : Prop :=
  ∀ last : Ledger, last.WellFormed → last.Acyclic → (∀ ρ, Models ρ last → Meets ρ base goals) →
    relation.Refuted (last.value guard.left) (last.value guard.right)

theorem Refutes.subset {relation : Relation} {guard : Literal}
    (refutes : base.Refutes relation guard done) (subset : done ⊆ others) :
    base.Refutes relation guard others :=
  fun last wellFormed acyclic meets =>
    refutes last wellFormed acyclic fun ρ models => (meets ρ models).subset subset

structure Partway (program : Program) (base : Ledger) (relation : Relation) (guard : Literal)
    (above : List TermId) (done : List Literal) (ledger : Ledger) : Prop
    extends Solved base done ledger where
  quiet : Quiet program ledger
  upheld : ledger.Upheld
  called : ∀ goal ∈ ledger.calls, goal ∈ above ∨
    ∀ literals, base.arena.Conjoined goal literals → literals ⊆ done
  posted : ∀ posting ∈ ledger.postings, posting.relation = relation ∧
    relation.Alike (ledger.value posting.left, ledger.value posting.right)
      (ledger.value guard.left, ledger.value guard.right)
  decided : guard ∈ done → ledger.postings = [] →
    relation.Settled (ledger.value guard.left) (ledger.value guard.right)

inductive Comes (program : Program) (base : Ledger) (relation : Relation) (guard : Literal)
    (above : List TermId) (goals : List Literal) : List Emission → Prop where
  | cut : Comes program base relation guard above goals [.cut]
  | fails (refutes : base.Refutes relation guard goals) :
      Comes program base relation guard above goals []
  | answers {later : Ledger} (partway : Partway program base relation guard above goals later) :
      Comes program base relation guard above goals [.answer later]

structure Guards (base : Ledger) (relation : Relation) (guard : Literal) (equations : List Literal) :
    Prop where
  wellFormed : base.WellFormed
  live : base.LivePair (guard.left, guard.right)
  unequal : relation ≠ .arithmetic .equal
  apart : guard.builtin ≠ .equality
  each : ∀ equation ∈ equations, equation.builtin = .equality ∧
    base.LivePair (equation.left, equation.right) ∧
    base.arena.Plain equation.left ∧ base.arena.Plain equation.right
  tests : ∀ {done ledger later reply}, done ⊆ guard :: equations → Solved base done ledger →
    ledger.Performs guard.left guard.right guard.builtin reply later →
      ledger.Tests relation guard.left guard.right reply later

variable {program : Program} {relation : Relation} {guard : Literal} {equations : List Literal}
  {above : List TermId} {solver : TermId → Ledger → List Emission}

namespace Partway

theorem same (partway : Partway program base relation guard above done ledger)
    (iff : ∀ literal, literal ∈ others ↔ literal ∈ done) :
    Partway program base relation guard above others ledger where
  toSolved := partway.toSolved.same fun _ =>
    ⟨fun meets => meets.subset fun literal => (iff literal).mpr,
      fun meets => meets.subset fun literal => (iff literal).mp⟩
  quiet := partway.quiet
  upheld := partway.upheld
  called goal member := (partway.called goal member).imp_right fun each literals conjoined
    literal inside => (iff literal).mpr (each literals conjoined inside)
  posted := partway.posted
  decided inside := partway.decided ((iff guard).mp inside)

theorem alike (partway : Partway program base relation guard above done ledger)
    (live : base.LivePair (guard.left, guard.right)) (laterFormed : later.WellFormed)
    (acyclic : later.Acyclic) (grown : later.Extends ledger) {posting : Posting}
    (listed : posting ∈ ledger.postings) :
    relation.Alike (later.value posting.left, later.value posting.right)
      (later.value guard.left, later.value guard.right) := by
  have wellFormed := partway.wellFormed
  have onward {id : TermId} (live : ledger.Live id) :=
    partway.acyclic.value_later acyclic grown wellFormed laterFormed live
  rw [onward (wellFormed.posting_left posting listed), onward (wellFormed.posting_right posting listed),
    onward (partway.grown.live live.1), onward (partway.grown.live live.2)]
  exact (partway.posted posting listed).2.subst _

theorem onward (partway : Partway program base relation guard above done ledger)
    (live : base.LivePair (guard.left, guard.right)) (solution : Solved base others later)
    (advances : later.Advances ledger) (upheld : later.Upheld) (subset : done ⊆ others)
    (postings : later.postings = ledger.postings)
    (fresh : guard ∈ others → guard ∈ done ∨
      relation.Settled (later.value guard.left) (later.value guard.right)) :
    Partway program base relation guard above others later where
  toSolved := solution
  quiet := advances.quiet partway.quiet
  upheld := upheld
  called goal member := by
    rw [advances.calls] at member
    exact (partway.called goal member).imp_right fun each literals conjoined =>
      List.Subset.trans (each literals conjoined) subset
  posted posting listed := by
    rw [postings] at listed
    exact ⟨(partway.posted posting listed).1,
      partway.alike live solution.wellFormed solution.acyclic advances.grown listed⟩
  decided inside none := by
    rw [postings] at none
    rcases fresh inside with old | settled
    · exact (partway.decided old none).later partway.acyclic solution.acyclic advances.grown
        partway.wellFormed solution.wellFormed (partway.grown.live live.1) (partway.grown.live live.2)
    · exact settled

theorem enter (partway : Partway program base relation guard above done ledger)
    (live : base.LivePair (guard.left, guard.right)) {goal : TermId} {symbol : Symbol}
    {args : List TermId} (shape : ledger.shape? goal = some (.compound symbol args))
    (idle : goal ∉ ledger.calls) :
    Partway program base relation guard (goal :: above) done (ledger.register goal none) := by
  have quiet := partway.quiet.register shape idle none
  have stays : (ledger.register goal none).Stays ledger :=
    .marks quiet.wellFormed (ledger.register_extends goal none) rfl rfl
  have value {id : TermId} (live : ledger.Live id) := stays.value partway.acyclic partway.wellFormed live
  have leftSame := value (partway.grown.live live.1)
  have rightSame := value (partway.grown.live live.2)
  refine ⟨partway.toSolved.stays stays, quiet, partway.upheld.stays partway.wellFormed stays rfl rfl,
    fun other member => ?_, fun posting listed => ?_, fun inside none => ?_⟩
  · rcases List.mem_append.mp member with old | new
    · exact (partway.called other old).imp_left (List.mem_cons_of_mem _)
    · exact .inl (List.mem_singleton.mp new ▸ List.mem_cons_self)
  · exact ⟨(partway.posted posting listed).1, partway.alike live quiet.wellFormed
      (stays.acyclic partway.acyclic partway.wellFormed) stays.extends listed⟩
  · rw [leftSame, rightSame]
    exact partway.decided inside none

theorem leave {goal : TermId} {literals : List Literal}
    (partway : Partway program base relation guard (goal :: above) done ledger)
    (conjoined : base.arena.Conjoined goal literals) (inside : literals ⊆ done) :
    Partway program base relation guard above done ledger where
  toSolved := partway.toSolved
  quiet := partway.quiet
  upheld := partway.upheld
  called other member := by
    rcases partway.called other member with listed | each
    · rcases List.mem_cons.mp listed with rfl | old
      · exact .inr fun others also => conjoined.unique also ▸ inside
      · exact .inl old
    · exact .inr each
  posted := partway.posted
  decided := partway.decided

end Partway

namespace Guards

/-- Where a relation is violated it is by all that solves the same equations. -/
theorem refutes (guards : Guards base relation guard equations) (solution : Solved base done ledger)
    (refuted : relation.Refuted (ledger.value guard.left) (ledger.value guard.right)) :
    base.Refutes relation guard done := by
  intro last wellFormed acyclic meets
  rw [← solution.value_subst guards.wellFormed wellFormed acyclic meets guards.live.1,
    ← solution.value_subst guards.wellFormed wellFormed acyclic meets guards.live.2]
  exact refuted.subst

/-- Constraints are decided again as if for the first time: what is found to be violated cannot hold
    where the equations do. -/
theorem unified (guards : Guards base relation guard equations)
    (partway : Partway program base relation guard above done ledger) {equation : Literal}
    (listed : equation ∈ equations)
    (solves : Solves ledger.size ledger [(equation.left, equation.right)] (.ok later)) {last : Review}
    (rechecks : Rechecks (later.concerned ledger) (later.review ledger) last) :
    Solved base (equation :: done) later ∧ later.postings = ledger.postings ∧
      last.ledger = later ∧ last.goals = [] ∧
      (last.violated = true → base.Refutes relation guard (equation :: done)) := by
  obtain ⟨equality, live, plain⟩ := guards.each equation listed
  have binds : later.Binds ledger := solves.grows partway.wellFormed
    (by simpa using ⟨partway.grown.live live.1, partway.grown.live live.2⟩)
  have solution : Solved base (equation :: done) later := by
    have solved := partway.unifies guards.wellFormed live plain solves
    rwa [← equality] at solved
  have postings := binds.postings
  have posted {posting : Posting} (member : posting ∈ (later.review ledger).ledger.postings) :
      posting ∈ ledger.postings ∧ posting.relation = relation := by
    rw [review, postings] at member
    exact ⟨member, (partway.posted posting member).1⟩
  obtain ⟨still, goals, violated⟩ := rechecks.refuted solution.acyclic solution.wellFormed
    fun posting member => by
      rw [(posted member).2]
      exact guards.unequal
  refine ⟨solution, postings, still, ?_, fun flag => ?_⟩
  · rw [goals]
    exact surfaced_none (binds.advances.delayed.trans partway.quiet.undelayed) _
  · obtain ⟨posting, member, refuted⟩ := (violated flag).resolve_left (by simp [review])
    obtain ⟨member, same⟩ := posted member
    rw [same] at refuted
    exact guards.refutes solution ((partway.alike guards.live solution.wellFormed solution.acyclic
      binds.extends member).refuted refuted)

theorem equates (guards : Guards base relation guard equations)
    (partway : Partway program base relation guard above done ledger) {equation : Literal}
    (listed : equation ∈ equations) {reply : Reply}
    (equates : ledger.Equates equation.left equation.right reply later) :
    Comes program base relation guard above (equation :: done) (concluded solver later reply) := by
  obtain ⟨equality, live, -⟩ := guards.each equation listed
  have wellFormed := partway.wellFormed
  have leftLive := partway.grown.live live.1
  have rightLive := partway.grown.live live.2
  have apart : guard ≠ equation := by
    rintro rfl
    exact guards.apart equality
  cases equates with
  | clashes solves =>
    refine .fails fun last lastFormed acyclic meets => ?_
    obtain ⟨ρ, models⟩ := acyclic
    have whole := meets ρ models
    obtain ⟨τ, before, same⟩ := partway.complete ρ (whole.subset (List.subset_cons_self _ _))
    have sides : τ equation.left = τ equation.right := by
      rw [same _ live.1, same _ live.2]
      exact whole.2 equation List.mem_cons_self equality
    obtain ⟨after, clash, -⟩ := solves.unifies wellFormed leftLive rightLive before sides
    cases clash
  | violates solves rechecks violated =>
    obtain ⟨-, -, -, -, refutes⟩ := guards.unified partway listed solves rechecks
    exact .fails (refutes violated)
  | delegates solves rechecks _ _ conjoins =>
    obtain ⟨-, -, -, none, -⟩ := guards.unified partway listed solves rechecks
    rw [none] at conjoins
    cases conjoins
  | @answers after last solves rechecks unviolated none =>
    have answers := Equates.answers solves rechecks unviolated none
    have advances := answers.advances wellFormed leftLive rightLive
    have upheld := answers.upheld partway.upheld wellFormed leftLive rightLive (by simp)
    obtain ⟨solution, postings, rfl, -, -⟩ := guards.unified partway listed solves rechecks
    have stays := settleAll_stays solution.wellFormed (rechecks.posted solution.wellFormed)
    refine .answers (partway.onward guards.live (solution.stays stays) advances upheld
      (List.subset_cons_self _ _) ?_ fun inside => .inl ?_)
    · rw [settleAll_postings]
      exact postings
    · exact (List.mem_cons.mp inside).resolve_left apart

theorem poses (guards : Guards base relation guard equations)
    (partway : Partway program base relation guard above done ledger) {reply : Reply}
    (tests : ledger.Tests relation guard.left guard.right reply later)
    (advances : later.Advances ledger) (upheld : reply ≠ .fails → later.Upheld) :
    Comes program base relation guard above (guard :: done) (concluded solver later reply) := by
  have wellFormed := partway.wellFormed
  have leftLive := partway.grown.live guards.live.1
  have rightLive := partway.grown.live guards.live.2
  -- The guard is no equation to be solved.
  have meets_iff (ρ : TermId → Tree) : Meets ρ base (guard :: done) ↔ Meets ρ base done := by
    refine ⟨fun meets => meets.subset (List.subset_cons_self _ _), fun meets => ⟨meets.1, ?_⟩⟩
    intro literal member equality
    rcases List.mem_cons.mp member with rfl | old
    · exact absurd equality guards.apart
    · exact meets.2 literal old equality
  cases tests with
  | fails refuted =>
    exact .fails ((guards.refutes partway.toSolved refuted).subset (List.subset_cons_self _ _))
  | holds grown settled =>
    have solution := (partway.toSolved.stays (.allocates grown)).same meets_iff
    refine .answers (partway.onward guards.live solution advances (upheld (by simp))
      (List.subset_cons_self _ _) grown.postings fun _ => .inr ?_)
    rwa [partway.acyclic.value_allocates wellFormed grown leftLive,
      partway.acyclic.value_allocates wellFormed grown rightLive]
  | @posts built first second grown sides alike =>
    have before := partway.toSolved.stays (.allocates grown)
    have posted : (built.post (built.posting relation first second)).Stays built :=
      .marks advances.wellFormed (post_extends built _) rfl rfl
    have solution := (before.stays posted).same meets_iff
    have value {id : TermId} (live : built.Live id) := posted.value before.acyclic before.wellFormed live
    obtain ⟨firstLive, secondLive⟩ : built.Live first ∧ built.Live second := sides
    refine .answers ⟨solution, advances.quiet partway.quiet, upheld (by simp), fun goal member => ?_,
      fun posting listed => ?_, fun _ none => ?_⟩
    · rw [advances.calls] at member
      exact (partway.called goal member).imp_right fun each literals conjoined =>
        List.Subset.trans (each literals conjoined) (List.subset_cons_self _ _)
    · rcases List.mem_append.mp listed with old | new
      · rw [grown.postings] at old
        exact ⟨(partway.posted posting old).1, partway.alike guards.live solution.wellFormed
          solution.acyclic advances.grown old⟩
      · rw [← partway.acyclic.value_allocates wellFormed grown leftLive,
          ← partway.acyclic.value_allocates wellFormed grown rightLive, ← value firstLive,
          ← value secondLive, ← value (grown.live leftLive), ← value (grown.live rightLive)] at alike
        rw [List.mem_singleton.mp new]
        exact ⟨rfl, alike⟩
    · simp [post] at none

theorem performs (guards : Guards base relation guard equations)
    (partway : Partway program base relation guard above done ledger)
    (doneInside : done ⊆ guard :: equations) {literal : Literal}
    (listed : literal ∈ guard :: equations) {reply : Reply}
    (performs : ledger.Performs literal.left literal.right literal.builtin reply later)
    (advances : later.Advances ledger) (upheld : reply ≠ .fails → later.Upheld) :
    Comes program base relation guard above (literal :: done) (concluded solver later reply) := by
  rcases List.mem_cons.mp listed with rfl | listed
  · exact guards.poses partway (guards.tests doneInside partway.toSolved performs) advances upheld
  · obtain ⟨equality, live, plain⟩ := guards.each literal listed
    have structural := partway.not_arithmetic guards.wellFormed live plain
    rw [equality] at performs
    cases performs with
    | equates _ equates => exact guards.equates partway listed equates
    | differs kind => rcases kind with same | ⟨comparison, same⟩ <;> cases same
    | computes arithmetic => exact absurd (arithmetic (.inl rfl)) structural

end Guards

theorem callable_of_conjoined {goal : TermId} {literals : List Literal}
    (conjoined : base.arena.Conjoined goal literals) : base.arena.Callable anywhere goal := by
  induction conjoined with
  | single here =>
    obtain ⟨cell, held, form⟩ := here
    have goals : (formOf cell.symbol cell.args).goals = [] := congrArg Form.goals form
    exact callable_compound (shape_of_compound? held) trivial (by simp [goals])
  | @both goal left right cell _ _ held form _ _ firstIh secondIh =>
    have goals : (formOf cell.symbol cell.args).goals = [left, right] := congrArg Form.goals form
    refine callable_compound (shape_of_compound? held) trivial ?_
    simp only [goals, List.mem_cons, List.not_mem_nil, or_false]
    rintro called (rfl | rfl)
    · exact firstIh
    · exact secondIh

theorem Comes.leave {goal : TermId} {literals goals : List Literal} {events : List Emission}
    (comes : Comes program base relation guard (goal :: above) goals events)
    (conjoined : base.arena.Conjoined goal literals) (inside : literals ⊆ others)
    (iff : ∀ literal, literal ∈ others ↔ literal ∈ goals) :
    Comes program base relation guard above others events := by
  cases comes with
  | cut => exact .cut
  | fails refutes => exact .fails (refutes.subset fun literal => (iff literal).mpr)
  | answers partway => exact .answers ((partway.same iff).leave conjoined inside)

/-- The goals of the right side are proven at what the left side comes to. -/
theorem Comes.next {goal right : TermId} {lefts rights : List Literal} {events : List Emission}
    (begins : Comes program base relation guard (goal :: above) (lefts ++ done) events)
    (conjoined : base.arena.Conjoined goal (lefts ++ rights))
    (ends : ∀ middle, .answer middle ∈ events →
      Partway program base relation guard (goal :: above) (lefts ++ done) middle →
        Comes program base relation guard (goal :: above) (rights ++ (lefts ++ done))
          (solver right middle)) :
    Comes program base relation guard above (lefts ++ rights ++ done)
      (events.flatMap (follow (solver right))) := by
  cases begins with
  | cut => exact .cut
  | fails refutes =>
    refine .fails (refutes.subset ?_)
    simp
  | @answers middle between =>
    rw [List.flatMap_singleton, follow]
    refine (ends middle (List.mem_singleton_self _) between).leave conjoined
      (List.subset_append_left _ _) fun literal => ?_
    simp only [List.mem_append]
    tauto

/-- A goal that is being proven, or was, holds as it is. Any other is cut off or taken apart. -/
theorem Partway.comes (partway : Partway program base relation guard above done ledger) {goal : TermId}
    {literals : List Literal} {cell : Compound} (conjoined : base.arena.Conjoined goal literals)
    (held : base.arena.compound? goal = some cell)
    (older : ∀ other ∈ above, goal.index < other.index) {limit level : Nat}
    (taken : ∀ unfolded, goal ∉ ledger.calls → ledger.calls.length < limit →
      Unfolds program goal ledger unfolded →
        Comes program base relation guard above (literals ++ done)
          (unfolded (solve program limit level))) :
    Comes program base relation guard above (literals ++ done)
      (solve program limit (level + 1) goal ledger) := by
  have shape := partway.grown.shape (shape_of_compound? held)
  rcases partway.quiet.comes (callable_later partway.grown (callable_of_conjoined conjoined)) with
    ⟨holds, same⟩ | ⟨idle, unfolded, unfolds, same⟩
  · rw [same]
    rcases holds with ⟨value, number⟩ | called
    · cases shape.symm.trans number
    · rcases partway.called goal called with listed | each
      · exact absurd (older goal listed) (Nat.lt_irrefl _)
      · refine .answers (partway.same fun literal => ?_)
        rw [List.mem_append, or_iff_right_of_imp fun member => each literals conjoined member]
  · rw [same]
    split
    · exact .cut
    · next shallow => exact taken unfolded idle (Nat.lt_of_not_le shallow) unfolds

/-- The goals of a conjunction are proven one after the other, each with the bindings that the ones
    before it made. -/
theorem Guards.comes (guards : Guards base relation guard equations) {goal : TermId}
    {literals : List Literal} (conjoined : base.arena.Conjoined goal literals)
    (inside : literals ⊆ guard :: equations)
    (partway : Partway program base relation guard above done ledger)
    (doneInside : done ⊆ guard :: equations) (older : ∀ other ∈ above, goal.index < other.index)
    {limit level : Nat} (low : ledger.calls.length ≤ limit)
    (high : limit < ledger.calls.length + level) :
    Comes program base relation guard above (literals ++ done)
      (solve program limit level goal ledger) := by
  obtain ⟨level, rfl⟩ : ∃ less, level = less + 1 := ⟨level - 1, by omega⟩
  induction conjoined generalizing above done ledger level with
  | @single goal literal here =>
    have conjoined := Arena.Conjoined.single here
    obtain ⟨builtin, left, right⟩ := literal
    obtain ⟨⟨symbol, args, active⟩, held, form⟩ := here
    have known := partway.grown.shape (shape_of_compound? held)
    have form : formOf symbol args = .builtin builtin left right := form
    refine partway.comes conjoined held older fun unfolded idle shallow unfolds => ?_
    cases unfolds with
    | negation shape | conjunction shape | disjunction shape =>
      cases known.symm.trans shape
      cases form
    | predicate shape other =>
      cases known.symm.trans shape
      cases form.symm.trans other
    | builtin shape other registered performs advances =>
      cases known.symm.trans shape
      cases form.symm.trans other
      have entered := partway.enter guards.live known idle
      obtain ⟨leftLive, rightLive⟩ :=
        registered.wellFormed.live_sides ((ledger.register_extends goal none).shape known) form
      have upheld := performs.upheld_of_form entered.upheld entered.wellFormed leftLive rightLive form
      exact (guards.performs entered doneInside (inside (by simp)) performs advances upheld).leave
        conjoined (by simp) fun _ => Iff.rfl
  | @both goal left right cell lefts rights held form first second firstIh secondIh =>
    have conjoined := Arena.Conjoined.both held form first second
    obtain ⟨symbol, args, active⟩ := cell
    have known := partway.grown.shape (shape_of_compound? held)
    have form : formOf symbol args = .conjunction left right := form
    obtain ⟨leftInside, rightInside⟩ := List.append_subset.mp inside
    refine partway.comes conjoined held older fun unfolded idle shallow unfolds => ?_
    cases unfolds with
    | negation shape | disjunction shape =>
      cases known.symm.trans shape
      cases form
    | predicate shape other | builtin shape other =>
      cases known.symm.trans shape
      cases form.symm.trans other
    | conjunction shape starts =>
      cases known.symm.trans shape
      cases form
      have entered := partway.enter guards.live known idle
      -- A side was built before all goals that are being proven, so it is none of them.
      have young {side : TermId} (member : side ∈ [left, right]) :
          ∀ other ∈ goal :: above, side.index < other.index := by
        have below := partway.wellFormed.args_older known side member
        simp only [List.mem_cons, forall_eq_or_imp]
        exact ⟨below, fun other listed => Nat.lt_trans below (older other listed)⟩
      have deeper : Deeper limit ledger (ledger.register goal none) := deeper_register shallow
      obtain ⟨level, rfl⟩ : ∃ less, level = less + 1 := ⟨level - 1, by have := deeper.1; omega⟩
      have begins := firstIh leftInside entered doneInside (young (by simp)) deeper.2 level
        (by have := deeper.1; omega)
      refine begins.next conjoined fun middle member between => ?_
      have deep : Deeper limit ledger middle := deeper.onward
        ((solve_regular program limit (level + 1)).onward starts.quiet starts.callable member)
      exact secondIh rightInside between (List.append_subset.mpr ⟨leftInside, doneInside⟩)
        (young (by simp)) deep.2 level (by have := deep.1; omega)

end Ledger

end Resolvent
