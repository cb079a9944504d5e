import Resolvent.Proofs.Search.Emission
import Resolvent.Proofs.Semantics.Difference

namespace Resolvent

namespace Ledger

variable {base ledger later : Ledger}

structure Confined (among : TermId → Prop) (ledger : Ledger) : Prop where
  args : ∀ {id symbol args}, ledger.shape? id = some (.compound symbol args) → among id →
    ∀ arg ∈ args, among arg
  bound : ∀ binding ∈ ledger.bindings, among binding.2

section

variable {among : TermId → Prop}

theorem Confined.deref (confined : Confined among ledger) (wellFormed : ledger.WellFormed)
    {id : TermId} (inside : among id) : among (ledger.arena.deref id) := by
  rcases (wellFormed.chain_deref id).cases_tail with still | ⟨_, -, bound⟩
  · rwa [still]
  · exact confined.bound _ (mem_bindings_of_lookup bound)

theorem Confined.zip (confined : Confined among ledger) (wellFormed : ledger.WellFormed)
    {left right : TermId} {first second : Symbol} {lefts rights : List TermId}
    (leftShape : ledger.shape? (ledger.arena.deref left) = some (.compound first lefts))
    (rightShape : ledger.shape? (ledger.arena.deref right) = some (.compound second rights))
    (inside : among left ∧ among right) : ∀ pair ∈ lefts.zip rights, among pair.1 ∧ among pair.2 :=
  fun _ member =>
    ⟨confined.args leftShape (confined.deref wellFormed inside.1) _ (List.of_mem_zip member).1,
      confined.args rightShape (confined.deref wellFormed inside.2) _ (List.of_mem_zip member).2⟩

theorem Solves.confined {fuel : Nat} {pairs : List (TermId × TermId)} {result : Except Ledger Ledger}
    (solves : Solves fuel ledger pairs result) (wellFormed : ledger.WellFormed)
    (live : ∀ pair ∈ pairs, ledger.LivePair pair) (confined : Confined among ledger)
    (inside : ∀ pair ∈ pairs, among pair.1 ∧ among pair.2) : Confined among (held result) := by
  induction solves with
  | done | spent | clashes => exact confined
  | same _ _ ih | sameNumber _ _ _ ih =>
    exact ih wellFormed (List.forall_mem_cons.mp live).2 confined (List.forall_mem_cons.mp inside).2
  | @descends fuel ledger middle left right rest result symbol lefts rights leftShape rightShape _
      within _ withinIh ih =>
    obtain ⟨both, onward⟩ := List.forall_mem_cons.mp inside
    have args := wellFormed.live_zip leftShape rightShape
    have binds : middle.Binds ledger := within.grows wellFormed args
    have inner := withinIh wellFormed args confined
      (confined.zip wellFormed leftShape rightShape both)
    exact ih binds.wellFormed (binds.livePairs (List.forall_mem_cons.mp live).2) inner onward
  | fails leftShape rightShape _ _ ih =>
    exact ih wellFormed (wellFormed.live_zip leftShape rightShape) confined
      (confined.zip wellFormed leftShape rightShape (inside _ List.mem_cons_self))
  | @binds fuel ledger left right var target rest result opens ends _ ih =>
    obtain ⟨both, onward⟩ := List.forall_mem_cons.mp inside
    have binds := opens.binds wellFormed
    have reached : among target := by
      rcases ends with ⟨-, rfl⟩ | ⟨-, rfl⟩
      · exact confined.deref wellFormed both.2
      · exact confined.deref wellFormed both.1
    refine ih binds.wellFormed (binds.livePairs (List.forall_mem_cons.mp live).2)
      ⟨confined.args, fun binding member => ?_⟩ onward
    rcases List.mem_append.mp member with old | new
    · exact confined.bound binding old
    · rw [List.mem_singleton.mp new]
      exact reached

end

def Usable (base : Ledger) (id : TermId) : Prop := base.size ≤ id.index ∨ base.arena.Plain id

structure Fine (base : Ledger) (symbol : Symbol) (args : List TermId) : Prop where
  plain : ∀ operator, symbol = .reserved operator → operator.isArithmetic = false
  args : ∀ arg ∈ args, base.Usable arg

structure Tame (base ledger : Ledger) : Prop where
  fine : ∀ {id symbol args}, ledger.shape? id = some (.compound symbol args) → base.Usable id →
    base.Fine symbol args
  bound : ∀ binding ∈ ledger.bindings, base.Usable binding.2

theorem usable_new (grown : ledger.Extends base) : base.Usable ⟨ledger.size⟩ :=
  .inl grown.size_le

/-- A compound without arithmetic is no operation, and there is none in its arguments. -/
theorem plain_args {id : TermId} {symbol : Symbol} {args : List TermId}
    (shape : ledger.shape? id = some (.compound symbol args)) (plain : ledger.arena.Plain id) :
    (∀ operator, symbol = .reserved operator → operator.isArithmetic = false) ∧
      ∀ arg ∈ args, ledger.arena.Plain arg := by
  cases plain with
  | number held | var held => simp [node_compound shape] at held
  | compound held plain argsPlain =>
    rw [node_compound shape] at held
    cases held
    exact ⟨plain, argsPlain⟩

theorem tame_self (bound : ∀ binding ∈ base.bindings, base.Usable binding.2) : Tame base base where
  fine := by
    rintro id symbol args shape (past | plain)
    · exact absurd (live_of_shape shape) (Nat.not_lt_of_le past)
    · obtain ⟨plain, argsPlain⟩ := plain_args shape plain
      exact ⟨plain, fun arg member => .inr (argsPlain arg member)⟩
  bound := bound

theorem tame_start (untouched : base.bindings = []) : Tame base base :=
  tame_self (by simp [untouched])

theorem Tame.allocate (tame : Tame base ledger) {shape : Shape}
    (fine : ∀ symbol args, shape = .compound symbol args → base.Fine symbol args) :
    Tame base (ledger.allocate shape) where
  fine := by
    intro id symbol args known usable
    by_cases past : ledger.size ≤ id.index
    · exact fine symbol args (shape?_allocate_past past known).2.symm
    · rw [(allocate_extends ledger shape).shape_eq (Nat.lt_of_not_le past)] at known
      exact tame.fine known usable
  bound := tame.bound

theorem Tame.confined (tame : Tame base ledger) : Confined base.Usable ledger :=
  ⟨fun shape usable => (tame.fine shape usable).args, tame.bound⟩

theorem Tame.usable_deref (tame : Tame base ledger) (wellFormed : ledger.WellFormed) {id : TermId}
    (usable : base.Usable id) : base.Usable (ledger.arena.deref id) :=
  tame.confined.deref wellFormed usable

def UsablePair (base : Ledger) (pair : TermId × TermId) : Prop :=
  base.Usable pair.1 ∧ base.Usable pair.2

theorem Solves.tame {fuel : Nat} {pairs : List (TermId × TermId)} {result : Except Ledger Ledger}
    (solves : Solves fuel ledger pairs result) (wellFormed : ledger.WellFormed)
    (live : ∀ pair ∈ pairs, ledger.LivePair pair) (tame : Tame base ledger)
    (usable : ∀ pair ∈ pairs, base.UsablePair pair) : Tame base (held result) where
  fine shape inside := by
    rw [(solves.grows wellFormed live).shape?] at shape
    exact tame.fine shape inside
  bound := (solves.confined wellFormed live tame.confined usable).bound

theorem Strips.tame {pairs kept : List (TermId × TermId)} (strips : Strips ledger pairs kept later)
    (wellFormed : ledger.WellFormed) (live : ∀ pair ∈ pairs, ledger.LivePair pair)
    (grown : ledger.Extends base) (tame : Tame base ledger)
    (usable : ∀ pair ∈ pairs, base.UsablePair pair) :
    Tame base later ∧ ∀ pair ∈ kept, base.UsablePair pair := by
  induction strips with
  | done => exact ⟨tame, by simp⟩
  | same _ _ ih | sameNumber _ _ _ ih =>
    exact ih wellFormed (List.forall_mem_cons.mp live).2 grown tame
      (List.forall_mem_cons.mp usable).2
  | keeps ends _ ih =>
    obtain ⟨both, onward⟩ := List.forall_mem_cons.mp usable
    obtain ⟨after, others⟩ := ih wellFormed (List.forall_mem_cons.mp live).2 grown tame onward
    refine ⟨after, List.forall_mem_cons.mpr ⟨?_, others⟩⟩
    rcases ends with rfl | rfl
    · exact both
    · exact ⟨tame.usable_deref wellFormed both.1, tame.usable_deref wellFormed both.2⟩
  | agrees _ leftShape rightShape inside _ insideIh ih =>
    obtain ⟨both, onward⟩ := List.forall_mem_cons.mp usable
    have args := wellFormed.live_zip leftShape rightShape
    have inner := (inside.grows wellFormed args).1
    obtain ⟨middle, -⟩ := insideIh wellFormed args grown tame
      (tame.confined.zip wellFormed leftShape rightShape both)
    exact ih inner.wellFormed (inner.livePairs (List.forall_mem_cons.mp live).2)
      (inner.extends.trans grown) middle onward
  | @builds ledger middle later left right first second lefts rights rest inner kept _ leftShape
      rightShape inside _ insideIh ih =>
    obtain ⟨both, onward⟩ := List.forall_mem_cons.mp usable
    have args := wellFormed.live_zip leftShape rightShape
    obtain ⟨before, innerLive⟩ := inside.grows wellFormed args
    obtain ⟨middleTame, innerUsable⟩ := insideIh wellFormed args grown tame
      (tame.confined.zip wellFormed leftShape rightShape both)
    obtain ⟨rightGrown, leftGrown⟩ := allocate_sides before.wellFormed innerLive first second
    have sides : Tame base ((middle.allocate (.compound first (inner.map Prod.fst))).allocate
        (.compound second (inner.map Prod.snd))) := by
      have leftFine := tame.fine leftShape (tame.usable_deref wellFormed both.1)
      have rightFine := tame.fine rightShape (tame.usable_deref wellFormed both.2)
      refine (middleTame.allocate ?_).allocate ?_
      · rintro symbol args ⟨⟩
        exact ⟨leftFine.plain, List.forall_mem_map.mpr fun pair listed => (innerUsable pair listed).1⟩
      · rintro symbol args ⟨⟩
        exact ⟨rightFine.plain, List.forall_mem_map.mpr fun pair listed => (innerUsable pair listed).2⟩
    have whole := (rightGrown.trans leftGrown).trans before
    obtain ⟨after, others⟩ := ih rightGrown.wellFormed
      (whole.livePairs (List.forall_mem_cons.mp live).2)
      (whole.extends.trans grown) sides onward
    exact ⟨after, List.forall_mem_cons.mpr ⟨⟨usable_new (before.extends.trans grown),
      usable_new ((leftGrown.trans before).extends.trans grown)⟩, others⟩⟩

theorem Instantiates.tame {names named : Renaming} {terms copies : List TermId}
    (copied : Instantiates ledger names terms copies later named) (wellFormed : ledger.WellFormed)
    (grown : ledger.Extends base) (tame : Tame base ledger) (usable : ∀ term ∈ terms, base.Usable term)
    (namesUsable : ∀ entry ∈ names, base.Usable entry.2) :
    Tame base later ∧ (∀ copy ∈ copies, base.Usable copy) ∧
      ∀ entry ∈ named, base.Usable entry.2 := by
  induction copied with
  | done => exact ⟨tame, by simp, namesUsable⟩
  | @number _ _ _ _ _ value _ _ _ _ ih =>
    have first := allocate_allocates wellFormed (admits_number value)
    obtain ⟨after, others, more⟩ := ih first.wellFormed (first.extends.trans grown)
      (tame.allocate (by simp)) (List.forall_mem_cons.mp usable).2
      namesUsable
    simp only [List.mem_cons, forall_eq_or_imp]
    exact ⟨after, ⟨usable_new grown, others⟩, more⟩
  | known _ name _ ih =>
    obtain ⟨after, others, more⟩ := ih wellFormed grown tame
      (List.forall_mem_cons.mp usable).2 namesUsable
    simp only [List.mem_cons, forall_eq_or_imp]
    exact ⟨after, ⟨namesUsable _ (mem_of_lookup name), others⟩, more⟩
  | fresh _ _ _ ih =>
    have first := allocate_allocates wellFormed admits_var
    obtain ⟨after, others, more⟩ := ih first.wellFormed (first.extends.trans grown)
      (tame.allocate (by simp)) (List.forall_mem_cons.mp usable).2 (by
        simp only [List.mem_cons, forall_eq_or_imp]
        exact ⟨usable_new grown, namesUsable⟩)
    simp only [List.mem_cons, forall_eq_or_imp]
    exact ⟨after, ⟨usable_new grown, others⟩, more⟩
  | @compound _ _ _ _ _ _ _ symbol _ _ _ _ shape inside live _ insideIh ih =>
    have fine := tame.fine shape (usable _ List.mem_cons_self)
    obtain ⟨middle, argsUsable, between⟩ := insideIh wellFormed grown tame fine.args namesUsable
    have before := inside.grows wellFormed
    have placed := allocate_allocates before.wellFormed (@admits_compound _ symbol _ live)
    obtain ⟨after, others, more⟩ := ih placed.wellFormed
      ((placed.trans before).extends.trans grown)
      (middle.allocate (by
        rintro symbol args ⟨⟩
        exact ⟨fine.plain, argsUsable⟩))
      (List.forall_mem_cons.mp usable).2 between
    simp only [List.mem_cons, forall_eq_or_imp]
    exact ⟨after, ⟨usable_new (before.extends.trans grown), others⟩, more⟩

theorem Tame.evaluateWithin (tame : Tame base ledger) (wellFormed : ledger.WellFormed) (fuel : Nat)
    {id : TermId} (usable : base.Usable id) {evaluation : Evaluation}
    (evaluated : ledger.arena.evaluateWithin fuel id = some evaluation) :
    evaluation.operations = 0 := by
  cases fuel with
  | zero => cases evaluated
  | succ fuel =>
    have reached := tame.usable_deref wellFormed usable
    simp only [Arena.evaluateWithin] at evaluated
    split at evaluated
    · cases evaluated
      rfl
    · cases evaluated
      rfl
    · split at evaluated
      · next operator left right held =>
        have fine := tame.fine (operation?_args held) reached
        cases fine.plain _ rfl
      · cases evaluated

theorem Tame.not_arithmetic (tame : Tame base ledger) (wellFormed : ledger.WellFormed)
    {left right : TermId} (leftUsable : base.Usable left) (rightUsable : base.Usable right) :
    ¬ ledger.Arithmetic left right := by
  rintro ⟨first, second, leftValue, rightValue, operations⟩
  have none := tame.evaluateWithin wellFormed _ leftUsable leftValue
  have noneToo := tame.evaluateWithin wellFormed _ rightUsable rightValue
  omega

end Ledger

end Resolvent
