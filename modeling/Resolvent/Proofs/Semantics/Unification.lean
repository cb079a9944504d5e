import Mathlib.Data.Finset.Card
import Mathlib.Data.Finset.Range
import Resolvent.Proofs.Semantics.Models

namespace Resolvent

variable {ledger later : Ledger} {ρ : TermId → Tree}

theorem map_eq_of_zip {β : Type} {first second : TermId → β} {lefts rights : List TermId}
    (sameLength : lefts.length = rights.length)
    (each : ∀ pair ∈ lefts.zip rights, first pair.1 = second pair.2) :
    lefts.map first = rights.map second := by
  apply List.ext_getElem (by simpa using sameLength)
  intro index left right
  simp only [List.length_map] at left right
  have inside : index < (lefts.zip rights).length := by simp [left, right]
  have same := each _ (List.getElem_mem inside)
  simpa using same

theorem zip_eq_of_map {β : Type} {first second : TermId → β} {lefts rights : List TermId}
    (same : lefts.map first = rights.map second) :
    ∀ pair ∈ lefts.zip rights, first pair.1 = second pair.2 := by
  intro pair member
  obtain ⟨index, inside, rfl⟩ := List.getElem_of_mem member
  simp only [List.length_zip] at inside
  have left : index < lefts.length := by omega
  have right : index < rights.length := by omega
  have here : (lefts.map first)[index]? = (rights.map second)[index]? := by rw [same]
  simpa [left, right] using here

namespace Ledger

inductive Joined (ledger : Ledger) : TermId → TermId → Prop where
  | same {left right : TermId} (equal : ledger.arena.deref left = ledger.arena.deref right) :
      Joined ledger left right
  | number {left right : TermId} {value : Rational}
      (leftShape : ledger.shape? (ledger.arena.deref left) = some (.number value))
      (rightShape : ledger.shape? (ledger.arena.deref right) = some (.number value)) :
      Joined ledger left right
  | compound {left right : TermId} {symbol : Symbol} {lefts rights : List TermId}
      (leftShape : ledger.shape? (ledger.arena.deref left) = some (.compound symbol lefts))
      (rightShape : ledger.shape? (ledger.arena.deref right) = some (.compound symbol rights))
      (sameLength : lefts.length = rights.length)
      (each : ∀ pair ∈ lefts.zip rights, Joined ledger pair.1 pair.2) : Joined ledger left right

theorem Extends.deref_of_shape (grown : later.Extends ledger) (wellFormed : ledger.WellFormed)
    (laterFormed : later.WellFormed) {id : TermId} {shape : Shape}
    (known : ledger.shape? (ledger.arena.deref id) = some shape) (other : shape ≠ .var) :
    later.arena.deref id = ledger.arena.deref id := by
  rw [← grown.deref wellFormed laterFormed]
  apply laterFormed.deref_of_shape
  rw [grown.shape known]
  simpa using other

theorem Extends.shape_deref (grown : later.Extends ledger) (wellFormed : ledger.WellFormed)
    (laterFormed : later.WellFormed) {id : TermId} {shape : Shape}
    (known : ledger.shape? (ledger.arena.deref id) = some shape) (other : shape ≠ .var) :
    later.shape? (later.arena.deref id) = some shape := by
  rw [grown.deref_of_shape wellFormed laterFormed known other, grown.shape known]

theorem Joined.mono {left right : TermId} (joined : ledger.Joined left right)
    (grown : later.Extends ledger) (wellFormed : ledger.WellFormed)
    (laterFormed : later.WellFormed) : later.Joined left right := by
  induction joined with
  | same equal =>
    apply Joined.same
    rw [← grown.deref wellFormed laterFormed, equal, grown.deref wellFormed laterFormed]
  | number leftShape rightShape =>
    exact .number (grown.shape_deref wellFormed laterFormed leftShape (by simp))
      (grown.shape_deref wellFormed laterFormed rightShape (by simp))
  | compound leftShape rightShape sameLength _ ih =>
    exact .compound (grown.shape_deref wellFormed laterFormed leftShape (by simp))
      (grown.shape_deref wellFormed laterFormed rightShape (by simp)) sameLength ih

theorem Solves.joined {fuel : Nat} {pairs : List (TermId × TermId)}
    {result : Except Ledger Ledger} (solves : Solves fuel ledger pairs result)
    (wellFormed : ledger.WellFormed) (live : ∀ pair ∈ pairs, ledger.LivePair pair)
    (ended : result = .ok later) : ∀ pair ∈ pairs, later.Joined pair.1 pair.2 := by
  induction solves generalizing later with
  | done => simp
  | spent | fails | clashes => cases ended
  | same equal goesOn ih =>
    subst ended
    have others := (List.forall_mem_cons.mp live).2
    have grown : later.Binds _ := goesOn.grows wellFormed others
    exact List.forall_mem_cons.mpr
      ⟨(Joined.same equal).mono grown.extends wellFormed grown.wellFormed,
        ih wellFormed others rfl⟩
  | sameNumber leftShape rightShape goesOn ih =>
    subst ended
    have others := (List.forall_mem_cons.mp live).2
    have grown : later.Binds _ := goesOn.grows wellFormed others
    exact List.forall_mem_cons.mpr
      ⟨(Joined.number leftShape rightShape).mono grown.extends wellFormed grown.wellFormed,
        ih wellFormed others rfl⟩
  | @descends fuel ledger middle left right rest result symbol lefts rights leftShape rightShape
      sameLength inside goesOn insideIh ih =>
    subst ended
    have args := wellFormed.live_zip leftShape rightShape
    have first : middle.Binds ledger := inside.grows wellFormed args
    have others := first.livePairs (List.forall_mem_cons.mp live).2
    have second : later.Binds middle := goesOn.grows first.wellFormed others
    refine List.forall_mem_cons.mpr
      ⟨.mono ?_ second.extends first.wellFormed second.wellFormed, ih first.wellFormed others rfl⟩
    exact .compound (first.extends.shape_deref wellFormed first.wellFormed leftShape (by simp))
      (first.extends.shape_deref wellFormed first.wellFormed rightShape (by simp)) sameLength
      (insideIh wellFormed args rfl)
  | @binds fuel ledger left right var target rest result opens ends goesOn ih =>
    subst ended
    have first := opens.binds wellFormed
    have others := first.livePairs (List.forall_mem_cons.mp live).2
    have second : later.Binds (ledger.bind var target) := goesOn.grows first.wellFormed others
    refine List.forall_mem_cons.mpr ⟨.mono (.same ?_) second.extends first.wellFormed
      second.wellFormed, ih first.wellFormed others rfl⟩
    -- The two chains end together once the end of one is bound to that of the other.
    have bound : (ledger.bind var target).binding? var = some target := by
      have listed : (var, target) ∈ (ledger.bind var target).bindings := by simp [bind]
      exact first.wellFormed.lookup_bindings listed
    have same := first.wellFormed.deref_bound bound
    rw [← first.extends.deref wellFormed first.wellFormed left,
      ← first.extends.deref wellFormed first.wellFormed right]
    rcases ends with ⟨rfl, rfl⟩ | ⟨rfl, rfl⟩
    · exact same
    · exact same.symm

end Ledger

theorem Ledger.Joined.reads {left right : TermId} (joined : ledger.Joined left right)
    (wellFormed : ledger.WellFormed) (models : Models ρ ledger) : ρ left = ρ right := by
  induction joined with
  | same equal => exact (models.deref_eq_iff wellFormed).mp (congrArg ρ equal)
  | number leftShape rightShape =>
    rw [← models.deref_eq_iff wellFormed, models.number leftShape, models.number rightShape]
  | compound leftShape rightShape sameLength _ ih =>
    rw [← models.deref_eq_iff wellFormed, models.compound leftShape, models.compound rightShape,
      map_eq_of_zip sameLength ih]

theorem Ledger.Solves.sound {fuel : Nat} {pairs : List (TermId × TermId)} {result : Except Ledger Ledger}
    (solves : Ledger.Solves fuel ledger pairs result) (wellFormed : ledger.WellFormed)
    (live : ∀ pair ∈ pairs, ledger.LivePair pair) (ended : result = .ok later)
    (models : Models ρ later) : ∀ pair ∈ pairs, ρ pair.1 = ρ pair.2 := by
  subst ended
  intro pair member
  exact (solves.joined wellFormed live rfl pair member).reads (solves.grows wellFormed live).wellFormed
    models

theorem Tree.sizeOf_arg {symbol : Symbol} {args : List Tree} {arg : Tree} (member : arg ∈ args) :
    sizeOf arg < sizeOf (Tree.compound symbol args) := by
  have inside := List.sizeOf_lt_of_mem member
  simp only [Tree.compound.sizeOf_spec]
  omega

theorem Models.sizeOf_arg (models : Models ρ ledger) {id arg : TermId} {symbol : Symbol}
    {args : List TermId} (shape : ledger.shape? id = some (.compound symbol args))
    (member : arg ∈ args) : sizeOf (ρ arg) < sizeOf (ρ id) := by
  rw [models.compound shape]
  exact Tree.sizeOf_arg (List.mem_map_of_mem member)

theorem Models.sizeOf_occursWithin (models : Models ρ ledger) (wellFormed : ledger.WellFormed)
    {var : TermId} (fuel : Nat) {id : TermId}
    (occurs : ledger.arena.occursWithin var fuel id = true) : sizeOf (ρ var) < sizeOf (ρ id) := by
  induction fuel generalizing id with
  | zero => cases occurs
  | succ fuel ih =>
    rw [Arena.occursWithin] at occurs
    split at occurs
    · next cell node =>
      rw [List.any_eq_true] at occurs
      obtain ⟨arg, member, found⟩ := occurs
      have below := models.sizeOf_arg (Ledger.shape_of_compound node).1 member
      rw [← models.deref wellFormed arg] at below
      rw [Bool.or_eq_true, decide_eq_true_eq] at found
      rcases found with here | deeper
      · rwa [here] at below
      · exact Nat.lt_trans (ih deeper) below
    · cases occurs

theorem Models.sizeOf_occurs (models : Models ρ ledger) (wellFormed : ledger.WellFormed)
    {var id : TermId} (occurs : ledger.arena.occurs var id = true) :
    sizeOf (ρ var) < sizeOf (ρ id) :=
  models.sizeOf_occursWithin wellFormed _ occurs

noncomputable def rank (ρ : TermId → Tree) (ledger : Ledger) (tree : Tree) : Nat :=
  ((Finset.range ledger.size).filter fun index => sizeOf (ρ ⟨index⟩) ≤ sizeOf tree).card

theorem rank_le (ρ : TermId → Tree) (ledger : Ledger) (tree : Tree) :
    rank ρ ledger tree ≤ ledger.size := by
  have counted := Finset.card_filter_le (Finset.range ledger.size)
    fun index => sizeOf (ρ ⟨index⟩) ≤ sizeOf tree
  rwa [Finset.card_range] at counted

theorem rank_lt {id : TermId} (live : ledger.Live id) {tree : Tree}
    (smaller : sizeOf tree < sizeOf (ρ id)) : rank ρ ledger tree < rank ρ ledger (ρ id) := by
  apply Finset.card_lt_card
  rw [Finset.ssubset_iff_of_subset]
  · refine ⟨id.index, ?_, ?_⟩
    · rw [Finset.mem_filter, Finset.mem_range]
      exact ⟨live, Nat.le_refl _⟩
    · rw [Finset.mem_filter, not_and]
      exact fun _ => Nat.not_le_of_lt smaller
  · intro index member
    rw [Finset.mem_filter] at member ⊢
    exact ⟨member.1, Nat.le_trans member.2 (Nat.le_of_lt smaller)⟩

theorem rank_pos {id : TermId} (live : ledger.Live id) : 0 < rank ρ ledger (ρ id) := by
  apply Finset.card_pos.mpr
  refine ⟨id.index, ?_⟩
  rw [Finset.mem_filter, Finset.mem_range]
  exact ⟨live, Nat.le_refl _⟩

theorem rank_binds (binds : later.Binds ledger) (tree : Tree) :
    rank ρ later tree = rank ρ ledger tree := by
  obtain ⟨-, pairs, rfl⟩ := binds
  rfl

theorem Ledger.Clash.different {left right : TermId} (clash : ledger.Clash left right)
    (models : Models ρ ledger) (wellFormed : ledger.WellFormed) : ρ left ≠ ρ right := by
  cases clash with
  | numbers leftShape rightShape different =>
    rw [models.number leftShape, models.number rightShape]
    simpa using different
  | numberCompound leftShape rightShape =>
    rw [models.number leftShape, models.compound rightShape]
    simp
  | compoundNumber leftShape rightShape =>
    rw [models.compound leftShape, models.number rightShape]
    simp
  | functors leftShape rightShape different =>
    rw [models.compound leftShape, models.compound rightShape]
    intro same
    rw [Tree.compound.injEq] at same
    exact different ⟨same.1, by simpa using congrArg List.length same.2⟩
  | occursRight _ occurs =>
    intro same
    exact absurd (models.sizeOf_occurs wellFormed occurs) (by simp [same])
  | occursLeft _ occurs =>
    intro same
    exact absurd (models.sizeOf_occurs wellFormed occurs) (by simp [same])

/-- Pairs that read as the same trees are made equal, and the trees agree with the bindings. -/
theorem Ledger.Solves.complete {fuel : Nat} {pairs : List (TermId × TermId)}
    {result : Except Ledger Ledger} (solves : Ledger.Solves fuel ledger pairs result)
    (wellFormed : ledger.WellFormed) (live : ∀ pair ∈ pairs, ledger.LivePair pair)
    (models : Models ρ ledger) (same : ∀ pair ∈ pairs, ρ pair.1 = ρ pair.2)
    (enough : ∀ pair ∈ pairs, rank ρ ledger (ρ pair.1) ≤ fuel) :
    ∃ later, result = .ok later ∧ Models ρ later := by
  have equal {ledger : Ledger} {left right : TermId} {rest : List (TermId × TermId)}
      (models : Models ρ ledger) (wellFormed : ledger.WellFormed)
      (same : ∀ pair ∈ (left, right) :: rest, ρ pair.1 = ρ pair.2) :
      ρ (ledger.arena.deref left) = ρ (ledger.arena.deref right) :=
    (models.deref_eq_iff wellFormed).mpr (same (left, right) List.mem_cons_self)
  -- Equal compounds have equal arguments, and these are lower, so less fuel is enough for them.
  have inner {ledger : Ledger} {left right : TermId} {symbol : Symbol}
      {lefts rights : List TermId} {fuel : Nat} {rest : List (TermId × TermId)}
      (wellFormed : ledger.WellFormed) (models : Models ρ ledger)
      (leftShape : ledger.shape? (ledger.arena.deref left) = some (.compound symbol lefts))
      (rightShape : ledger.shape? (ledger.arena.deref right) = some (.compound symbol rights))
      (same : ∀ pair ∈ (left, right) :: rest, ρ pair.1 = ρ pair.2)
      (enough : ∀ pair ∈ (left, right) :: rest, rank ρ ledger (ρ pair.1) ≤ fuel + 1) :
      (∀ pair ∈ lefts.zip rights, ρ pair.1 = ρ pair.2) ∧
        ∀ pair ∈ lefts.zip rights, rank ρ ledger (ρ pair.1) ≤ fuel := by
    have whole := equal models wellFormed same
    rw [models.compound leftShape, models.compound rightShape, Tree.compound.injEq] at whole
    refine ⟨zip_eq_of_map whole.2, fun pair member => ?_⟩
    have below := models.sizeOf_arg leftShape (List.of_mem_zip member).1
    have fewer := rank_lt (Ledger.live_of_shape leftShape) below
    have bound := enough (left, right) List.mem_cons_self
    rw [models.deref wellFormed] at fewer
    simp only at bound
    omega
  induction solves with
  | done => exact ⟨_, rfl, models⟩
  | spent =>
    -- The rank of a live term is positive, so there is fuel wherever a pair is left.
    have some := @rank_pos _ ρ _ (live _ List.mem_cons_self).1
    exact absurd (enough _ List.mem_cons_self) (Nat.not_le_of_lt some)
  | same _ _ ih | sameNumber _ _ _ ih =>
    exact ih wellFormed (List.forall_mem_cons.mp live).2 models (List.forall_mem_cons.mp same).2
      (List.forall_mem_cons.mp enough).2
  | @descends fuel ledger before left right rest result symbol lefts rights leftShape rightShape _
      inside _ insideIh ih =>
    have args := wellFormed.live_zip leftShape rightShape
    obtain ⟨argsSame, argsEnough⟩ := inner wellFormed models leftShape rightShape same enough
    obtain ⟨middle, ended, middleModels⟩ := insideIh wellFormed args models argsSame argsEnough
    cases ended
    have binds : before.Binds ledger := inside.grows wellFormed args
    refine ih binds.wellFormed (binds.livePairs (List.forall_mem_cons.mp live).2) middleModels
      (List.forall_mem_cons.mp same).2 fun pair member => ?_
    rw [rank_binds binds]
    exact enough pair (List.mem_cons_of_mem _ member)
  | fails leftShape rightShape _ _ insideIh =>
    have args := wellFormed.live_zip leftShape rightShape
    obtain ⟨argsSame, argsEnough⟩ := inner wellFormed models leftShape rightShape same enough
    obtain ⟨middle, ended, -⟩ := insideIh wellFormed args models argsSame argsEnough
    cases ended
  | @binds fuel ledger left right var target rest result opens ends _ ih =>
    have binds := opens.binds wellFormed
    have whole := equal models wellFormed same
    have bound : ρ var = ρ target := by
      rcases ends with ⟨rfl, rfl⟩ | ⟨rfl, rfl⟩
      · exact whole
      · exact whole.symm
    have modelsToo : Models ρ (ledger.bind var target) := by
      refine ⟨⟨models.number, models.compound⟩, fun binding member => ?_⟩
      rcases List.mem_append.mp member with old | new
      · exact models.bound binding old
      · rw [List.mem_singleton.mp new]
        exact bound
    refine ih binds.wellFormed (binds.livePairs (List.forall_mem_cons.mp live).2) modelsToo
      (List.forall_mem_cons.mp same).2 fun pair member => ?_
    rw [rank_binds binds]
    exact enough pair (List.mem_cons_of_mem _ member)
  | clashes clash => exact absurd (equal models wellFormed same) (clash.different models wellFormed)

/-- Two terms are made equal just if they read as the same tree in some way. -/
theorem Ledger.Solves.unifies {left right : TermId} {result : Except Ledger Ledger}
    (solves : Ledger.Solves ledger.size ledger [(left, right)] result)
    (wellFormed : ledger.WellFormed) (leftLive : ledger.Live left) (rightLive : ledger.Live right)
    (models : Models ρ ledger) (same : ρ left = ρ right) :
    ∃ later, result = .ok later ∧ Models ρ later := by
  refine solves.complete wellFormed (leftLive.pair rightLive) models (by simpa using same)
    fun pair _ => rank_le ρ ledger _

end Resolvent
