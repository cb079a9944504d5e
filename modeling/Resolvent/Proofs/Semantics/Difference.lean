import Resolvent.Proofs.Ledger.Stripping
import Resolvent.Proofs.Semantics.Unification

namespace Resolvent

variable {ledger later : Ledger} {ρ : TermId → Tree}

/-- What reads the ledger that stripping leaves reads the one that it started from. -/
theorem Ledger.Strips.models {first : Ledger} {pairs kept : List (TermId × TermId)}
    (strips : Ledger.Strips ledger pairs kept later) (grown : ledger.Allocates first)
    (live : ∀ pair ∈ pairs, first.LivePair pair) (models : Models ρ later) : Models ρ ledger :=
  models.earlier (strips.grows grown.wellFormed (grown.livePairs live)).1.extends

theorem Ledger.Strips.equal {pairs kept : List (TermId × TermId)}
    (strips : Ledger.Strips ledger pairs kept later) (wellFormed : ledger.WellFormed)
    (live : ∀ pair ∈ pairs, ledger.LivePair pair) (models : Models ρ later)
    (same : ∀ pair ∈ pairs, ρ pair.1 = ρ pair.2) : ∀ pair ∈ kept, ρ pair.1 = ρ pair.2 := by
  induction strips with
  | done => simp
  | same _ _ ih | sameNumber _ _ _ ih =>
    exact ih wellFormed (List.forall_mem_cons.mp live).2 models (List.forall_mem_cons.mp same).2
  | keeps ends goesOn ih =>
    obtain ⟨here, onward⟩ := List.forall_mem_cons.mp same
    have others := (List.forall_mem_cons.mp live).2
    have before := goesOn.models (.refl wellFormed) others models
    refine List.forall_mem_cons.mpr ⟨?_, ih wellFormed others models onward⟩
    rcases ends with rfl | rfl
    · exact here
    · exact (before.deref_eq_iff wellFormed).mpr here
  | agrees _ leftShape rightShape inside goesOn _ ih =>
    have grown := (inside.grows wellFormed (wellFormed.live_zip leftShape rightShape)).1
    have others := (List.forall_mem_cons.mp live).2
    exact ih grown.wellFormed (grown.livePairs others) models (List.forall_mem_cons.mp same).2
  | @builds ledger middle later left right first second lefts rights rest inner kept _ leftShape
      rightShape inside goesOn insideIh ih =>
    obtain ⟨here, onward⟩ := List.forall_mem_cons.mp same
    have args := wellFormed.live_zip leftShape rightShape
    obtain ⟨grown, innerLive⟩ := inside.grows wellFormed args
    obtain ⟨right, left⟩ := Ledger.allocate_sides grown.wellFormed innerLive first second
    have others := ((right.trans left).trans grown).livePairs (List.forall_mem_cons.mp live).2
    have after := goesOn.models (.refl right.wellFormed) others models
    have middleModels := after.earlier (right.trans left).extends
    have before := middleModels.earlier grown.extends
    have whole := (before.deref_eq_iff wellFormed).mpr here
    rw [before.compound leftShape, before.compound rightShape, Tree.compound.injEq] at whole
    have innerSame := insideIh wellFormed args middleModels (zip_eq_of_map whole.2)
    refine List.forall_mem_cons.mpr ⟨?_, ih right.wellFormed others models onward⟩
    rw [after.compound (right.extends.shape (Ledger.shape?_allocate_size _)),
      after.compound (Ledger.shape?_allocate_size _), whole.1]
    congr 1
    rw [List.map_map, List.map_map]
    exact List.map_congr_left innerSame

section

variable {first after : Ledger} {left right : TermId}

/-- A compound was one before terms were built, and still is one after unification. -/
theorem Ledger.Binds.compound (unified : after.Binds first) (wellFormed : first.WellFormed)
    (grown : ledger.Allocates first) {id : TermId} (live : first.Live id) {symbol : Symbol}
    {args : List TermId}
    (shape : ledger.shape? (ledger.arena.deref id) = some (.compound symbol args)) :
    after.shape? (after.arena.deref id) = some (.compound symbol args) ∧
      after.arena.deref id = ledger.arena.deref id ∧ ∀ arg ∈ args, first.Live arg := by
  have ends := grown.deref wellFormed id
  have early : first.shape? (first.arena.deref id) = some (.compound symbol args) := by
    rw [ends] at shape
    rw [← shape, grown.extends.shape_eq (wellFormed.live_deref live)]
  have stays := unified.extends.deref_of_shape wellFormed unified.wellFormed early (by simp)
  refine ⟨?_, stays.trans ends.symm, wellFormed.live_args early⟩
  rw [stays, unified.shape?, early]

/-- Compounds that unification joined have the same functor, and it joined their arguments. -/
theorem Ledger.Joined.parts {leftSymbol rightSymbol : Symbol} {lefts rights : List TermId}
    (joined : after.Joined left right) (unified : after.Binds first) (wellFormed : first.WellFormed)
    (grown : ledger.Allocates first) (live : first.LivePair (left, right))
    (different : ledger.arena.deref left ≠ ledger.arena.deref right)
    (leftShape : ledger.shape? (ledger.arena.deref left) = some (.compound leftSymbol lefts))
    (rightShape : ledger.shape? (ledger.arena.deref right) = some (.compound rightSymbol rights)) :
    leftSymbol = rightSymbol ∧ lefts.length = rights.length ∧
      (∀ pair ∈ lefts.zip rights, after.Joined pair.1 pair.2) ∧
      ∀ pair ∈ lefts.zip rights, first.LivePair pair := by
  obtain ⟨leftAfter, leftEnd, leftArgs⟩ := unified.compound wellFormed grown live.1 leftShape
  obtain ⟨rightAfter, rightEnd, rightArgs⟩ := unified.compound wellFormed grown live.2 rightShape
  simp only at leftEnd rightEnd leftAfter rightAfter
  cases joined with
  | same equal => exact absurd (leftEnd.symm.trans (equal.trans rightEnd)) different
  | number leftNumber => simp [leftAfter] at leftNumber
  | compound leftKnown rightKnown sameLength each =>
    rw [leftAfter] at leftKnown
    rw [rightAfter] at rightKnown
    cases leftKnown
    cases rightKnown
    exact ⟨rfl, sameLength, each, Ledger.livePair_zip leftArgs rightArgs⟩

end

theorem Ledger.Strips.different {first after : Ledger} {pairs kept : List (TermId × TermId)}
    (strips : Ledger.Strips ledger pairs kept later) (grown : ledger.Allocates first)
    (firstFormed : first.WellFormed) (unified : after.Binds first)
    (live : ∀ pair ∈ pairs, first.LivePair pair)
    (joined : ∀ pair ∈ pairs, after.Joined pair.1 pair.2) (models : Models ρ later)
    (same : ∀ pair ∈ kept, ρ pair.1 = ρ pair.2) : ∀ pair ∈ pairs, ρ pair.1 = ρ pair.2 := by
  -- A reading of the last ledger is one of each before it, so each step is read in the ledger it was
  -- made in.
  induction strips with
  | done => simp
  | same equal goesOn ih =>
    have others := (List.forall_mem_cons.mp live).2
    have before := goesOn.models grown others models
    exact List.forall_mem_cons.mpr
      ⟨(before.deref_eq_iff grown.wellFormed).mp (congrArg ρ equal),
        ih grown others (List.forall_mem_cons.mp joined).2 models same⟩
  | sameNumber leftShape rightShape goesOn ih =>
    have others := (List.forall_mem_cons.mp live).2
    have before := goesOn.models grown others models
    refine List.forall_mem_cons.mpr ⟨(before.deref_eq_iff grown.wellFormed).mp ?_,
      ih grown others (List.forall_mem_cons.mp joined).2 models same⟩
    rw [before.number leftShape, before.number rightShape]
  | keeps ends goesOn ih =>
    have others := (List.forall_mem_cons.mp live).2
    have before := goesOn.models grown others models
    obtain ⟨here, onward⟩ := List.forall_mem_cons.mp same
    refine List.forall_mem_cons.mpr
      ⟨?_, ih grown others (List.forall_mem_cons.mp joined).2 models onward⟩
    rcases ends with rfl | rfl
    · exact here
    · exact (before.deref_eq_iff grown.wellFormed).mp here
  | @agrees ledger middle later left right left_symbol right_symbol lefts rights rest kept different
      leftShape rightShape inside goesOn insideIh ih =>
    obtain ⟨here, others⟩ := List.forall_mem_cons.mp live
    obtain ⟨together, onward⟩ := List.forall_mem_cons.mp joined
    obtain ⟨rfl, sameLength, each, argsLive⟩ :=
      together.parts unified firstFormed grown here different leftShape rightShape
    have inner := (inside.grows grown.wellFormed (grown.livePairs argsLive)).1
    have middleModels := goesOn.models (inner.trans grown) others models
    have before := middleModels.earlier inner.extends
    have args := insideIh grown argsLive each middleModels (by simp)
    refine List.forall_mem_cons.mpr ⟨(before.deref_eq_iff grown.wellFormed).mp ?_,
      ih (inner.trans grown) others onward models same⟩
    rw [before.compound leftShape, before.compound rightShape, map_eq_of_zip sameLength args]
  | @builds ledger middle later left right left_symbol right_symbol lefts rights rest inner kept
      different leftShape rightShape inside goesOn insideIh ih =>
    obtain ⟨here, others⟩ := List.forall_mem_cons.mp live
    obtain ⟨together, onward⟩ := List.forall_mem_cons.mp joined
    obtain ⟨built, sameRest⟩ := List.forall_mem_cons.mp same
    obtain ⟨rfl, sameLength, each, argsLive⟩ :=
      together.parts unified firstFormed grown here different leftShape rightShape
    obtain ⟨inward, innerLive⟩ := inside.grows grown.wellFormed (grown.livePairs argsLive)
    obtain ⟨right, left⟩ := Ledger.allocate_sides inward.wellFormed innerLive left_symbol left_symbol
    have whole := (right.trans left).trans (inward.trans grown)
    have afterModels := goesOn.models whole others models
    have middleModels := afterModels.earlier (right.trans left).extends
    have before := middleModels.earlier inward.extends
    rw [afterModels.compound (right.extends.shape (Ledger.shape?_allocate_size _)),
      afterModels.compound (Ledger.shape?_allocate_size _), Tree.compound.injEq, List.map_map,
      List.map_map] at built
    have args := insideIh grown argsLive each middleModels (List.map_inj_left.mp built.2)
    refine List.forall_mem_cons.mpr ⟨(before.deref_eq_iff grown.wellFormed).mp ?_,
      ih whole others onward models sameRest⟩
    rw [before.compound leftShape, before.compound rightShape, map_eq_of_zip sameLength args]

/-- What is posted of two terms that can be unified is equal just if they are. -/
theorem Ledger.Strips.sides_iff {after stripped : Ledger} {left right : TermId}
    {kept : Option (TermId × TermId)} {first second : TermId}
    (strips : Ledger.Strips ledger [(left, right)] kept.toList stripped)
    (wellFormed : ledger.WellFormed) (live : ∀ pair ∈ [(left, right)], ledger.LivePair pair)
    (solves : Ledger.Solves ledger.size ledger [(left, right)] (.ok after))
    (sides : kept.getD (left, right) = (first, second)) (models : Models ρ stripped) :
    ρ first = ρ second ↔ ρ left = ρ right := by
  cases kept with
  | none =>
    cases sides
    rfl
  | some pair =>
    obtain rfl : pair = (first, second) := sides
    constructor
    · intro same
      have joined := solves.joined wellFormed live rfl
      have whole := strips.different (.refl wellFormed) wellFormed
        (solves.grows wellFormed live) live joined models (by simpa using same)
      simpa using whole
    · intro same
      have rest := strips.equal wellFormed live models (by simpa using same)
      simpa using rest

end Resolvent
